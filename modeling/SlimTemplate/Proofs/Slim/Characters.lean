import SlimTemplate.Proofs.Slim.Numbering

/-!
The characters of a document. Reading takes lines apart and joins words by single spaces, and the
only texts it adds are the default tag and the keys of the shortcuts; so what holds of the
characters of the lines and of printable ASCII holds of all the texts in the nodes.
-/

namespace SlimTemplate

namespace Text

def Spelled (P : Char → Prop) (s : String) : Prop :=
  ∀ c ∈ s.toList, P c

/-- The characters that a line may be written with without standing in a source. -/
def isPrinted (c : Char) : Bool :=
  ' ' ≤ c && c ≤ '~'

/-- The characters that may be written without standing in a source. -/
def isOwn (c : Char) : Bool :=
  c == '\n' || (' ' ≤ c && c ≤ '~')

section Spelled

variable {P : Char → Prop} {s t : String}

theorem spelled_append : Spelled P (s ++ t) ↔ Spelled P s ∧ Spelled P t := by
  rw [Spelled, String.toList_append, List.forall_mem_append, Spelled, Spelled]

theorem spelled_ofList {cs : List Char} : Spelled P (String.ofList cs) ↔ ∀ c ∈ cs, P c := by
  rw [Spelled, String.toList_ofList]

theorem spelled_of_own (hown : ∀ c, isPrinted c = true → P c) (h : s.toList.all isPrinted = true) :
    Spelled P s :=
  fun c hc => hown c (List.all_eq_true.mp h c hc)

theorem spelled_intercalate {texts : List String} (hs : Spelled P s)
    (h : ∀ text ∈ texts, Spelled P text) : Spelled P (s.intercalate texts) := by
  intro c hc
  rw [String.toList_intercalate] at hc
  obtain hsep | ⟨text, htext, hmem⟩ := mem_intercalate hc
  · exact hs c hsep
  · obtain ⟨other, hother, rfl⟩ := List.mem_map.mp htext
    exact h other hother c hmem

end Spelled

end Text

namespace Slim

open Text (Spelled spelled_append spelled_ofList spelled_of_own)

def SpelledPairs (P : Char → Prop) (attributes : Attributes) : Prop :=
  ∀ pair ∈ attributes, Spelled P pair.1 ∧ Spelled P pair.2

def Node.Spelled (P : Char → Prop) (node : Node) : Prop :=
  match node.construct with
  | .tag name attributes inline =>
      Text.Spelled P name ∧ SpelledPairs P attributes ∧
        ∀ part ∈ inline, Text.Spelled P part.content
  | .text s | .statement s | .expression s | .comment s | .doctype s => Text.Spelled P s

section Attributes

variable {P : Char → Prop} {attributes explicit : Attributes}

theorem mem_set {key value : String} {pair : String × String}
    (h : pair ∈ attributes.set key value) : pair = (key, value) ∨ pair ∈ attributes := by
  induction attributes with
  | nil => exact .inl (List.mem_singleton.mp h)
  | cons first rest ih =>
      obtain ⟨k, v⟩ := first
      rw [Attributes.set] at h
      split at h
      · rename_i hkey
        subst hkey
        exact (List.mem_cons.mp h).imp_right (List.mem_cons_of_mem _)
      · cases List.mem_cons.mp h with
        | inl heq => exact .inr (heq ▸ List.mem_cons_self)
        | inr hmem => exact (ih hmem).imp_right (List.mem_cons_of_mem _)

theorem SpelledPairs.set (h : SpelledPairs P attributes) {key value : String}
    (hkey : Spelled P key) (hvalue : Spelled P value) :
    SpelledPairs P (attributes.set key value) := by
  intro pair hpair
  cases mem_set hpair with
  | inl heq => exact heq ▸ ⟨hkey, hvalue⟩
  | inr hmem => exact h pair hmem

theorem SpelledPairs.ofPairs {pairs : List (String × String)} (h : SpelledPairs P pairs) :
    SpelledPairs P (.ofPairs pairs) := by
  suffices ∀ attributes : Attributes, SpelledPairs P attributes → SpelledPairs P
      (pairs.foldl (fun attributes pair => attributes.set pair.1 pair.2) attributes) from
    this [] (List.forall_mem_nil _)
  induction pairs with
  | nil => exact fun _ hattributes => hattributes
  | cons first rest ih =>
      obtain ⟨hfirst, hrest⟩ := List.forall_mem_cons.mp h
      exact fun attributes hattributes => ih hrest _ (hattributes.set hfirst.1 hfirst.2)

theorem SpelledPairs.merge (hspace : P ' ') (h : SpelledPairs P attributes)
    (hexplicit : SpelledPairs P explicit) : SpelledPairs P (attributes.merge explicit) := by
  rw [Attributes.merge]
  induction explicit generalizing attributes with
  | nil => exact h
  | cons first rest ih =>
      obtain ⟨hfirst, hrest⟩ := List.forall_mem_cons.mp hexplicit
      rw [List.foldl_cons]
      refine ih ?_ hrest
      dsimp only
      split
      · rename_i classes hclasses
        have hmem : (first.1, classes) ∈ attributes := by
          split at hclasses
          · obtain ⟨before, after, hsplit, -⟩ := List.lookup_eq_some_iff.mp hclasses
            simp [hsplit]
          · cases hclasses
        have hjoined : Spelled P (classes ++ " " ++ first.2) := by
          rw [spelled_append, spelled_append]
          exact ⟨⟨(h _ hmem).2, by simpa [Spelled] using hspace⟩, hfirst.2⟩
        exact h.set hfirst.1 hjoined
      · exact h.set hfirst.1 hfirst.2

end Attributes

section Reading

variable {P : Char → Prop} {cs : List Char}

theorem mem_runsAfter {mark : Char} {run : List Char} (h : run ∈ runsAfter mark cs) :
    run ⊆ cs := by
  induction cs with
  | nil => cases h
  | cons c cs ih =>
      have hcons := List.subset_cons_self c cs
      simp only [runsAfter] at h
      split at h
      · cases List.mem_cons.mp h with
        | inl heq => exact heq ▸ List.Subset.trans (List.takeWhile_sublist _).subset hcons
        | inr hmem => exact List.Subset.trans (ih hmem) hcons
      · exact List.Subset.trans (ih h) hcons

theorem shortcutAttributes_spelled (hown : ∀ c, Text.isPrinted c = true → P c)
    (h : ∀ c ∈ cs, P c) : SpelledPairs P (shortcutAttributes cs) := by
  have hclass : Spelled P "class" := spelled_of_own hown (by decide)
  have hid : Spelled P "id" := spelled_of_own hown (by decide)
  have hspace : Spelled P " " := spelled_of_own hown (by decide)
  have hrun : ∀ mark, ∀ run ∈ runsAfter mark cs, Spelled P (String.ofList run) :=
    fun mark run hrun => spelled_ofList.mpr fun c hc => h c (mem_runsAfter hrun hc)
  intro pair hpair
  cases List.mem_append.mp hpair with
  | inl hmem =>
      split at hmem
      · cases hmem
      · rw [List.mem_singleton.mp hmem]
        refine ⟨hclass, Text.spelled_intercalate hspace fun text htext => ?_⟩
        obtain ⟨run, hword, rfl⟩ := List.mem_map.mp htext
        exact hrun '.' run hword
  | inr hmem =>
      obtain ⟨run, htake, rfl⟩ := List.mem_map.mp hmem
      exact ⟨hid, hrun '#' run (List.mem_of_mem_take htake)⟩

theorem splitHead_spelled (hown : ∀ c, Text.isPrinted c = true → P c) (h : ∀ c ∈ cs, P c) :
    Spelled P (splitHead cs).1 ∧ SpelledPairs P (splitHead cs).2 := by
  have hdefault : Spelled P defaultTag := spelled_of_own hown (by decide)
  rw [splitHead]
  split
  · exact ⟨spelled_ofList.mpr fun c hc => h c ((List.takeWhile_sublist _).subset hc),
      shortcutAttributes_spelled hown fun c hc => h c ((List.dropWhile_sublist _).subset hc)⟩
  · exact ⟨hdefault, shortcutAttributes_spelled hown h⟩

theorem readValue?_subset {value rest : List Char} {quoted : Bool}
    (h : readValue? cs = some (value, quoted, rest)) : value ⊆ cs ∧ rest ⊆ cs := by
  cases cs with
  | nil => cases h
  | cons q cs =>
      have hcons := List.subset_cons_self q cs
      rw [readValue?] at h
      split at h
      · cases h
        exact ⟨List.Subset.trans (List.takeWhile_sublist _).subset hcons, List.Subset.trans
          ((List.drop_sublist _ _).trans (List.dropWhile_sublist _)).subset hcons⟩
      · split at h
        · cases h
        · cases h
          exact ⟨List.cons_subset_cons q (List.takeWhile_sublist _).subset,
            List.Subset.trans (List.dropWhile_sublist _).subset hcons⟩

theorem readAssignment?_subset {a : Assignment} {rest : List Char}
    (h : readAssignment? cs = some (a, rest)) : a.key ⊆ cs ∧ a.value ⊆ cs ∧ rest ⊆ cs := by
  simp only [readAssignment?] at h
  split at h
  · cases h
  split at h
  · rename_i after hafter
    have hsubset : after ⊆ cs := by
      have htrim := Text.trimStart_subset (cs.dropWhile isNameChar)
      rw [hafter] at htrim
      exact List.Subset.trans (List.Subset.trans (List.subset_cons_self _ _) htrim)
        (List.dropWhile_sublist _).subset
    split at h
    · rename_i value quoted rest' hvalue
      cases h
      obtain ⟨hvalue, hrest⟩ := readValue?_subset hvalue
      have hinside := List.Subset.trans (Text.trimStart_subset after) hsubset
      exact ⟨(List.takeWhile_sublist _).subset, List.Subset.trans hvalue hinside,
        List.Subset.trans hrest hinside⟩
    · cases h
  · cases h

def Piece.Spelled (P : Char → Prop) : Piece → Prop
  | .char c => P c
  | .assignment a => (∀ c ∈ a.key, P c) ∧ ∀ c ∈ a.value, P c

theorem pieces_spelled (h : ∀ c ∈ cs, P c) : ∀ piece ∈ pieces cs, piece.Spelled P := by
  fun_induction pieces cs with
  | case1 => exact List.forall_mem_nil _
  | case2 c rest a after hread _ ih =>
      obtain ⟨hkey, hvalue, hafter⟩ := readAssignment?_subset hread
      exact List.forall_mem_cons.mpr ⟨⟨fun c hc => h c (hkey hc), fun c hc => h c (hvalue hc)⟩,
        ih fun c hc => h c (hafter hc)⟩
  | case3 c rest hnone ih =>
      obtain ⟨hfirst, hrest⟩ := List.forall_mem_cons.mp h
      exact List.forall_mem_cons.mpr ⟨hfirst, ih hrest⟩

theorem explicitAttributes_spelled {ps : List Piece} (h : ∀ piece ∈ ps, piece.Spelled P) :
    SpelledPairs P (explicitAttributes ps) := by
  refine SpelledPairs.ofPairs fun pair hpair => ?_
  obtain ⟨a, ha, rfl⟩ := List.mem_map.mp hpair
  obtain ⟨piece, hpiece, hsome⟩ := List.mem_filterMap.mp ha
  cases piece with
  | char c => cases hsome
  | assignment b =>
      cases hsome
      exact ⟨spelled_ofList.mpr (h _ hpiece).1, spelled_ofList.mpr (h _ hpiece).2⟩

theorem leftover_spelled {ps : List Piece} (h : ∀ piece ∈ ps, piece.Spelled P) :
    ∀ c ∈ leftover ps, P c := by
  intro c hc
  obtain ⟨piece, hpiece, hsome⟩ := List.mem_filterMap.mp (Text.trim_subset _ hc)
  cases piece with
  | char d =>
      cases hsome
      exact h _ hpiece
  | assignment a => cases hsome

theorem readInline_spelled (h : ∀ c ∈ cs, P c) (depth : Int) (line : Nat) (raw : String) :
    ∀ part ∈ readInline cs depth line raw, Spelled P part.content := by
  intro part hpart
  rw [readInline.eq_def] at hpart
  split at hpart
  · cases hpart
  · rw [List.mem_singleton.mp hpart]
    exact spelled_ofList.mpr fun c hc =>
      h c (List.mem_cons_of_mem _ (List.mem_cons_of_mem _ hc))
  · rw [List.mem_singleton.mp hpart]
    exact spelled_ofList.mpr h

theorem afterHead_spelled (hspace : P ' ') (h : ∀ c ∈ cs, P c) : ∀ c ∈ afterHead cs, P c := by
  intro c hc
  obtain hsep | ⟨word, hword, hmem⟩ := Text.mem_intercalate hc
  · exact List.mem_singleton.mp hsep ▸ hspace
  · exact h c (Text.of_mem_words (List.mem_of_mem_drop hword) c hmem).1

theorem firstWord_subset : (Text.words cs).headD [] ⊆ cs := by
  cases hwords : Text.words cs with
  | nil => simp
  | cons word rest =>
      have hword : word ∈ Text.words cs := hwords ▸ List.mem_cons_self
      exact fun c hc => (Text.of_mem_words hword c hc).1

theorem readTag_spelled (hown : ∀ c, Text.isPrinted c = true → P c) (h : ∀ c ∈ cs, P c)
    (depth : Int) (line : Nat) (raw : String) : (readTag cs depth line raw).1.Spelled P := by
  have hspace : P ' ' := hown ' ' (by decide)
  rw [readTag]
  split
  · rename_i head code hsplit
    simp only [splitOutput?] at hsplit
    split at hsplit
    · cases hsplit
      have hhead := splitHead_spelled hown fun c hc =>
        h c ((List.takeWhile_sublist (l := cs) (· != '=')).subset hc)
      refine ⟨hhead.1, hhead.2, fun part hpart => ?_⟩
      rw [List.mem_singleton.mp hpart]
      exact spelled_ofList.mpr fun c hc => h c
        (((List.drop_sublist _ _).trans (List.dropWhile_sublist _)).subset (Text.trim_subset _ hc))
    · cases hsplit
  · have hhead := splitHead_spelled hown fun c hc => h c (firstWord_subset hc)
    have hpieces := pieces_spelled (afterHead_spelled hspace h)
    exact ⟨hhead.1, hhead.2.merge hspace (explicitAttributes_spelled hpieces),
      readInline_spelled (leftover_spelled hpieces) depth line raw⟩

theorem readLine_spelled (hown : ∀ c, Text.isPrinted c = true → P c) (h : ∀ c ∈ cs, P c)
    {line : Nat} {node : Node} (hnode : (readLine line cs).1 = some node) : node.Spelled P := by
  have hcontent : ∀ c ∈ Text.trim cs, P c := fun c hc => h c (Text.trim_subset cs hc)
  rw [readLine] at hnode
  dsimp only at hnode
  split at hnode
  · cases hnode
  split at hnode
  · rename_i comment htrim
    cases hnode
    rw [htrim] at hcontent
    exact spelled_ofList.mpr fun c hc =>
      hcontent c (List.mem_cons_of_mem _ (Text.trim_subset _ hc))
  iterate 3
    · rename_i text htrim
      cases hnode
      rw [htrim] at hcontent
      exact spelled_ofList.mpr fun c hc =>
        hcontent c (List.mem_cons_of_mem _ (List.mem_cons_of_mem _ hc))
  · split at hnode
    · cases hnode
      exact spelled_ofList.mpr hcontent
    · cases hnode
      exact readTag_spelled hown hcontent _ _ _

/-- A document is spelled in the characters of its lines and of its readers' own texts. -/
theorem readLines_spelled (hown : ∀ c, Text.isPrinted c = true → P c) (line : Nat)
    {lines : List (List Char)} (h : ∀ cs ∈ lines, ∀ c ∈ cs, P c) :
    ∀ node ∈ (readLines line lines).nodes, node.Spelled P := by
  intro node hnode
  obtain ⟨i, cs, hcs, hread⟩ := mem_readLines_iff.mp hnode
  exact readLine_spelled hown (h cs (List.mem_of_getElem? hcs)) hread

end Reading

end Slim
end SlimTemplate
