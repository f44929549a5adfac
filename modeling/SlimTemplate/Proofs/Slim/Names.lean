import SlimTemplate.Proofs.Slim.Numbering

/-!
The alphabets of a parsed document. Whatever a source holds, the name of every tag read from it is
a letter followed by letters and digits, and every attribute key is a run of name characters. These
are facts about all sources; values and contents stay arbitrary.
-/

namespace SlimTemplate.Slim

/-! Characters of names. -/

theorem isAlphanum_range {c : Char} (h : c.isAlphanum = true) :
    (48 ≤ c.toNat ∧ c.toNat ≤ 57) ∨ (65 ≤ c.toNat ∧ c.toNat ≤ 90) ∨
      (97 ≤ c.toNat ∧ c.toNat ≤ 122) := by
  change ((decide (c.val ≥ 65 ∧ c.val ≤ 90) || (decide (c.val ≥ 97) && decide (c.val ≤ 122))) ||
    (decide (c.val ≥ 48) && decide (c.val ≤ 57))) = true at h
  simp only [Bool.or_eq_true, Bool.and_eq_true, decide_eq_true_eq, ge_iff_le,
    UInt32.le_iff_toNat_le] at h
  change ((65 ≤ c.toNat ∧ c.toNat ≤ 90) ∨ 97 ≤ c.toNat ∧ c.toNat ≤ 122) ∨
    48 ≤ c.toNat ∧ c.toNat ≤ 57 at h
  omega

theorem isNameChar_range {c : Char} (h : isNameChar c = true) :
    (48 ≤ c.toNat ∧ c.toNat ≤ 57) ∨ (65 ≤ c.toNat ∧ c.toNat ≤ 90) ∨
      (97 ≤ c.toNat ∧ c.toNat ≤ 122) ∨ c.toNat = 95 ∨ c.toNat = 45 := by
  simp only [isNameChar, Bool.or_eq_true, beq_iff_eq] at h
  rcases h with (halnum | rfl) | rfl
  · have := isAlphanum_range halnum
    omega
  · simp
  · simp

theorem isBlank_of_isNameChar {c : Char} (h : isNameChar c = true) : Text.isBlank c = false := by
  have := isNameChar_range h
  simp only [Text.isBlank, Bool.or_eq_false_iff, Bool.and_eq_false_iff, decide_eq_false_iff_not,
    beq_eq_false_iff_ne]
  omega

theorem isNameChar_of_isAlphanum {c : Char} (h : c.isAlphanum = true) : isNameChar c = true := by
  simp [isNameChar, h]

/-! Names. -/

def IsTagName (cs : List Char) : Prop :=
  cs.head?.any Char.isAlpha = true ∧ ∀ c ∈ cs, c.isAlphanum = true

def IsKey (cs : List Char) : Prop :=
  cs ≠ [] ∧ ∀ c ∈ cs, isNameChar c = true

instance (cs : List Char) : Decidable (IsKey cs) :=
  decidable_of_iff (cs ≠ [] ∧ cs.all isNameChar = true) (and_congr_right fun _ => List.all_eq_true)

def HasKeys (attributes : Attributes) : Prop :=
  ∀ pair ∈ attributes, IsKey pair.1.toList

/-- The names in a node are made of the characters that names are read from. -/
def WellNamed (node : Node) : Prop :=
  match node.construct with
  | .tag name attributes _ => IsTagName name.toList ∧ HasKeys attributes
  | _ => True

theorem isTagName_defaultTag : IsTagName defaultTag.toList :=
  ⟨by decide, List.all_eq_true.mp (by decide)⟩

theorem splitHead_name (head : List Char) : IsTagName (splitHead head).1.toList := by
  rw [splitHead]
  split
  · rename_i hhead
    rw [String.toList_ofList]
    refine ⟨?_, fun c hc => List.all_eq_true.mp List.all_takeWhile c hc⟩
    cases head with
    | nil => simp at hhead
    | cons c cs =>
        have hc : c.isAlpha = true := by simpa using hhead
        simp [Char.isAlphanum, hc]
  · exact isTagName_defaultTag

theorem shortcutAttributes_keys (cs : List Char) : HasKeys (shortcutAttributes cs) := by
  intro pair hmem
  have hclass : IsKey "class".toList := ⟨by decide, List.all_eq_true.mp (by decide)⟩
  have hid : IsKey "id".toList := ⟨by decide, List.all_eq_true.mp (by decide)⟩
  cases List.mem_append.mp hmem with
  | inl hmem =>
      split at hmem
      · cases hmem
      · rw [List.mem_singleton.mp hmem]
        exact hclass
  | inr hmem =>
      obtain ⟨id, -, rfl⟩ := List.mem_map.mp hmem
      exact hid

theorem splitHead_keys (head : List Char) : HasKeys (splitHead head).2 := by
  rw [splitHead]
  split <;> exact shortcutAttributes_keys _

theorem HasKeys.set {attributes : Attributes} (h : HasKeys attributes) {key : String}
    (hkey : IsKey key.toList) (value : String) : HasKeys (attributes.set key value) := by
  induction attributes with
  | nil =>
      intro pair hmem
      rw [List.mem_singleton.mp hmem]
      exact hkey
  | cons first rest ih =>
      obtain ⟨k, v⟩ := first
      obtain ⟨hfirst, hrest⟩ := List.forall_mem_cons.mp h
      rw [Attributes.set]
      split
      · exact List.forall_mem_cons.mpr ⟨hfirst, hrest⟩
      · exact List.forall_mem_cons.mpr ⟨hfirst, ih hrest⟩

theorem HasKeys.merge {shortcuts explicit : Attributes} (hshortcuts : HasKeys shortcuts)
    (hexplicit : HasKeys explicit) : HasKeys (shortcuts.merge explicit) := by
  rw [Attributes.merge]
  induction explicit generalizing shortcuts with
  | nil => exact hshortcuts
  | cons first rest ih =>
      obtain ⟨hfirst, hrest⟩ := List.forall_mem_cons.mp hexplicit
      rw [List.foldl_cons]
      refine ih ?_ hrest
      dsimp only
      split <;> exact hshortcuts.set hfirst _

theorem HasKeys.ofPairs {pairs : List (String × String)} (h : HasKeys pairs) :
    HasKeys (.ofPairs pairs) := by
  suffices ∀ attributes : Attributes, HasKeys attributes →
      HasKeys (pairs.foldl (fun attributes pair => attributes.set pair.1 pair.2) attributes) from
    this [] (List.forall_mem_nil _)
  induction pairs with
  | nil => exact fun _ hattributes => hattributes
  | cons first rest ih =>
      obtain ⟨hfirst, hrest⟩ := List.forall_mem_cons.mp h
      exact fun attributes hattributes => ih hrest _ (hattributes.set hfirst _)

theorem readAssignment?_key {cs rest : List Char} {a : Assignment}
    (h : readAssignment? cs = some (a, rest)) : IsKey a.key := by
  simp only [readAssignment?] at h
  split at h
  · cases h
  · rename_i hkey
    split at h
    · split at h
      · cases h
        exact ⟨by simpa using hkey, fun c hc => List.all_eq_true.mp List.all_takeWhile c hc⟩
      · cases h
    · cases h

theorem pieces_key (cs : List Char) : ∀ a ∈ assignments (pieces cs), IsKey a.key := by
  fun_induction pieces cs with
  | case1 => exact List.forall_mem_nil _
  | case2 c rest a after hread _ ih =>
      intro b hb
      cases List.mem_cons.mp hb with
      | inl heq => exact heq ▸ readAssignment?_key hread
      | inr hmem => exact ih b hmem
  | case3 c rest hnone ih => exact ih

theorem explicitAttributes_keys (cs : List Char) : HasKeys (explicitAttributes (pieces cs)) := by
  refine HasKeys.ofPairs fun pair hmem => ?_
  obtain ⟨a, ha, rfl⟩ := List.mem_map.mp hmem
  rw [String.toList_ofList]
  exact pieces_key cs a ha

theorem readTag_wellNamed (content : List Char) (depth : Int) (line : Nat) (raw : String) :
    WellNamed (readTag content depth line raw).1 := by
  rw [readTag]
  split
  · rename_i head code _
    exact ⟨splitHead_name head, splitHead_keys head⟩
  · exact ⟨splitHead_name _, (splitHead_keys _).merge (explicitAttributes_keys _)⟩

/-- A node that a line is read as has proper names and the depth of the line's indentation. -/
theorem readLine_wellNamed {line : Nat} {cs : List Char} {node : Node}
    (h : (readLine line cs).1 = some node) :
    WellNamed node ∧ node.depth = ((cs.takeWhile Text.isBlank).length : Int) := by
  rw [readLine] at h
  dsimp only at h
  split at h
  · cases h
  · split at h
    · cases h
      exact ⟨trivial, rfl⟩
    · cases h
      exact ⟨trivial, rfl⟩
    · cases h
      exact ⟨trivial, rfl⟩
    · cases h
      exact ⟨trivial, rfl⟩
    · split at h
      · cases h
        exact ⟨trivial, rfl⟩
      · cases h
        refine ⟨readTag_wellNamed _ _ _ _, ?_⟩
        rw [readTag]
        split <;> rfl

theorem readLines_wellNamed (line : Nat) (lines : List (List Char)) :
    ∀ node ∈ (readLines line lines).nodes, WellNamed node ∧ 0 ≤ node.depth := by
  intro node hnode
  obtain ⟨i, cs, -, hread⟩ := mem_readLines_iff.mp hnode
  obtain ⟨hnamed, hdepth⟩ := readLine_wellNamed hread
  exact ⟨hnamed, hdepth ▸ Int.natCast_nonneg _⟩

theorem parse_wellNamed (source : String) :
    ∀ node ∈ (Document.parse source).nodes, WellNamed node ∧ 0 ≤ node.depth :=
  readLines_wellNamed 1 (sourceLines source)

end SlimTemplate.Slim
