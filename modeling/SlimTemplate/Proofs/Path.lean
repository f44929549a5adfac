import SlimTemplate.Path
import SlimTemplate.Proofs.Text.Words

/-!
Paths and their texts. The names of a path that is read from a text are not empty, no single dots
and without slashes; a path of such names is read back from its own text.
-/

namespace SlimTemplate

def IsPart (name : String) : Prop :=
  name ≠ "" ∧ name ≠ "." ∧ '/' ∉ name.toList

namespace Path

def Proper (p : Path) : Prop :=
  ∀ name ∈ p.parts, IsPart name

theorem notMem_of_mem_splitOn {sep : Char} {cs piece : List Char} (h : piece ∈ cs.splitOn sep) :
    sep ∉ piece := by
  intro hmem
  rw [List.splitOn_eq_splitOnP] at h
  simpa using (Text.of_mem_splitOnP h sep hmem).2

theorem splitNames_eq_singleton {name : String} (h : '/' ∉ name.toList) :
    splitNames name = [name] := by
  have hother : ∀ c ∈ name.toList, (c == '/') = false := by
    intro c hc
    exact beq_eq_false_iff_ne.mpr fun heq => h (heq ▸ hc)
  rw [splitNames, List.splitOn_eq_splitOnP, List.splitOnP_eq_singleton hother, List.map_singleton,
    String.ofList_toList]

theorem proper_ofText (s : String) : (ofText s).Proper := by
  intro name hname
  simp only [ofText, splitNames, List.mem_filter, List.mem_map, Bool.and_eq_true,
    bne_iff_ne] at hname
  obtain ⟨⟨piece, hpiece, rfl⟩, hempty, hdot⟩ := hname
  exact ⟨hempty, hdot, by simpa using notMem_of_mem_splitOn hpiece⟩

theorem child_parent_name {p : Path} (h : p.parts ≠ []) : p.parent.child p.name = p := by
  rw [child, parent, name, List.getLast?_eq_some_getLast h, Option.getD_some,
    List.dropLast_concat_getLast h]

theorem Proper.parent {p : Path} (h : p.Proper) : p.parent.Proper :=
  fun name hname => h name (List.dropLast_subset _ hname)

theorem Proper.child {p : Path} {name : String} (h : p.Proper) (hname : IsPart name) :
    (p.child name).Proper := by
  intro other hother
  cases List.mem_append.mp hother with
  | inl hmem => exact h other hmem
  | inr hmem => exact List.mem_singleton.mp hmem ▸ hname

def descend (p : Path) (names : List String) : Path :=
  { p with parts := p.parts ++ names }

def joined (parts : List String) : List Char :=
  ['/'].intercalate (parts.map String.toList)

theorem joined_head {parts : List String} (h : ∀ name ∈ parts, IsPart name) :
    (joined parts).head? ≠ some '/' := by
  cases parts with
  | nil => simp [joined]
  | cons name rest =>
      obtain ⟨⟨hempty, -, hslash⟩, -⟩ := List.forall_mem_cons.mp h
      cases hname : name.toList with
      | nil => exact absurd (String.toList_eq_nil_iff.mp hname) hempty
      | cons c cs =>
          rw [hname, List.mem_cons, not_or] at hslash
          cases rest with
          | nil => simpa [joined, hname] using Ne.symm hslash.1
          | cons next rest =>
              simpa [joined, hname, List.intercalate_cons_cons] using Ne.symm hslash.1

/-- Splitting at slashes gives the names back, but for empty ones. -/
theorem filter_splitOn_joined {parts : List String} (h : ∀ name ∈ parts, IsPart name) :
    (((joined parts).splitOn '/').map String.ofList).filter
      (fun name => name != "" && name != ".") = parts := by
  cases parts with
  | nil => rfl
  | cons name rest =>
      have hslash : ∀ piece ∈ (name :: rest).map String.toList, '/' ∉ piece := by
        intro piece hpiece
        obtain ⟨other, hother, rfl⟩ := List.mem_map.mp hpiece
        exact (h other hother).2.2
      rw [joined, List.splitOn_intercalate '/' hslash (by simp), List.map_map]
      have hsame : String.ofList ∘ String.toList = id := by
        funext s
        exact String.ofList_toList
      rw [hsame, List.map_id, List.filter_eq_self]
      intro other hother
      simp [(h other hother).1, (h other hother).2.1]

theorem readAnchor_of_head {cs : List Char} (h : cs.head? ≠ some '/') :
    readAnchor cs = .here ∧ readAnchor ('/' :: cs) = .root ∧
      readAnchor ('/' :: '/' :: cs) = .doubleRoot := by
  cases cs with
  | nil => exact ⟨rfl, rfl, rfl⟩
  | cons c cs =>
      have hc : c ≠ '/' := by simpa using h
      simp [readAnchor, hc]

theorem ofText_text {p : Path} (h : p.Proper) : ofText p.text = p := by
  obtain ⟨anchor, parts⟩ := p
  have hanchor := readAnchor_of_head (joined_head h)
  have hparts := filter_splitOn_joined h
  have hslash : ∀ cs : List Char, ('/' :: cs).splitOn '/' = [] :: cs.splitOn '/' :=
    fun cs => List.splitOn_append_cons_self [] cs
  cases anchor with
  | here =>
      by_cases hnone : parts = []
      · subst hnone
        rfl
      · have htext : (Path.text ⟨.here, parts⟩).toList = joined parts := by
          simp [text, hnone, Anchor.text, joined]
        simp only [ofText, splitNames, htext, hanchor.1, hparts]
  | root =>
      have htext : (Path.text ⟨.root, parts⟩).toList = '/' :: joined parts := by
        simp [text, Anchor.text, joined]
      simp only [ofText, splitNames, htext, hanchor.2.1, hslash, List.map_cons]
      rw [List.filter_cons_of_neg (by simp), hparts]
  | doubleRoot =>
      have htext : (Path.text ⟨.doubleRoot, parts⟩).toList = '/' :: '/' :: joined parts := by
        simp [text, Anchor.text, joined]
      simp only [ofText, splitNames, htext, hanchor.2.2, hslash, List.map_cons]
      rw [List.filter_cons_of_neg (by simp), List.filter_cons_of_neg (by simp), hparts]

end Path
end SlimTemplate
