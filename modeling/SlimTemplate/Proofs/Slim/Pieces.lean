import Mathlib.Data.List.TakeWhile
import SlimTemplate.Proofs.Slim.Names
import SlimTemplate.Proofs.Text.Words

/-!
The pieces of a text. A text is cut into single characters, with nothing taken out of it, exactly if
nowhere in it a name character is followed by an equals sign with something after it. Joining the
words of a text by spaces and taking the assignments out gives the text back exactly if its blanks
are single spaces and it has no assignment.
-/

namespace SlimTemplate.Slim

theorem pieces_of_some {cs after : List Char} {a : Assignment}
    (h : readAssignment? cs = some (a, after)) : pieces cs = .assignment a :: pieces after := by
  cases cs with
  | nil => simp [readAssignment?] at h
  | cons c cs =>
      rw [pieces]
      split
      · rename_i found rest hfound
        rw [h] at hfound
        cases hfound
        rfl
      · rename_i hnone
        rw [h] at hnone
        cases hnone

theorem pieces_cons_of_none {c : Char} {cs : List Char} (h : readAssignment? (c :: cs) = none) :
    pieces (c :: cs) = .char c :: pieces cs := by
  rw [pieces]
  split
  · rename_i found rest hfound
    rw [h] at hfound
    cases hfound
  · rfl

theorem readAssignment?_of_not_isNameChar {c : Char} (h : isNameChar c = false) (cs : List Char) :
    readAssignment? (c :: cs) = none := by
  simp [readAssignment?, h]

theorem readAssignment?_space (cs : List Char) : readAssignment? (' ' :: cs) = none :=
  readAssignment?_of_not_isNameChar (by decide) cs

theorem filterMap_chars (cs : List Char) :
    (cs.map Piece.char).filterMap Piece.assignment? = [] ∧
      (cs.map Piece.char).filterMap Piece.char? = cs := by
  induction cs with
  | nil => exact ⟨rfl, rfl⟩
  | cons c cs ih => simpa [Piece.assignment?, Piece.char?] using ih

/-! Where assignments are. -/

/-- Somewhere a name character is followed by an equals sign, with only blanks between them, and not
only blanks come after the sign. -/
def HasAssignment (cs : List Char) : Prop :=
  ∃ before c blanks after, cs = before ++ c :: (blanks ++ '=' :: after) ∧ isNameChar c = true ∧
    (∀ b ∈ blanks, Text.isBlank b = true) ∧ ∃ d ∈ after, Text.isBlank d = false

theorem readValue?_eq_none_iff (cs : List Char) :
    readValue? (Text.trimStart cs) = none ↔ ∀ d ∈ cs, Text.isBlank d = true := by
  cases htrim : Text.trimStart cs with
  | nil => exact iff_of_true rfl (List.dropWhile_eq_nil_iff.mp htrim)
  | cons q rest =>
      have hq : Text.isBlank q = false := by
        have hhead := List.head?_dropWhile_not Text.isBlank cs
        rw [← Text.trimStart, htrim] at hhead
        simpa using hhead
      have hmem : q ∈ cs := Text.trimStart_subset cs (htrim ▸ List.mem_cons_self)
      refine iff_of_false ?_ fun hall => by simp [hall q hmem] at hq
      rw [readValue?]
      split
      · exact Option.some_ne_none _
      · simp [hq]

theorem isSome_readAssignment?_iff (cs : List Char) :
    (readAssignment? cs).isSome = true ↔ cs.takeWhile isNameChar ≠ [] ∧
      ∃ after, Text.trimStart (cs.dropWhile isNameChar) = '=' :: after ∧
        ∃ d ∈ after, Text.isBlank d = false := by
  rw [readAssignment?]
  by_cases hkey : cs.takeWhile isNameChar = []
  · simp [hkey]
  · simp only [List.isEmpty_iff, hkey, if_false, ne_eq, not_false_eq_true, true_and]
    split
    · rename_i after hafter
      have hvalue := readValue?_eq_none_iff after
      cases hread : readValue? (Text.trimStart after) with
      | none => simp_all
      | some found => simp_all
    · rename_i hother
      refine iff_of_false Bool.false_ne_true ?_
      rintro ⟨after, hafter, -⟩
      exact hother after hafter

/-- The last character of the key is the name character before the equals sign. -/
theorem hasAssignment_of_isSome {cs : List Char} (h : (readAssignment? cs).isSome = true) :
    HasAssignment cs := by
  obtain ⟨hkey, after, hafter, hvalue⟩ := (isSome_readAssignment?_iff cs).mp h
  have hblanks : cs.dropWhile isNameChar =
      (cs.dropWhile isNameChar).takeWhile Text.isBlank ++ '=' :: after := by
    rw [← hafter, Text.trimStart, List.takeWhile_append_dropWhile]
  refine ⟨(cs.takeWhile isNameChar).dropLast, (cs.takeWhile isNameChar).getLast hkey,
    (cs.dropWhile isNameChar).takeWhile Text.isBlank, after, ?_,
    List.mem_takeWhile_imp (List.getLast_mem hkey), fun b => List.mem_takeWhile_imp, hvalue⟩
  rw [← hblanks, ← List.singleton_append, ← List.append_assoc, List.dropLast_concat_getLast,
    List.takeWhile_append_dropWhile]

theorem isSome_of_sign {c : Char} {blanks after : List Char} (hc : isNameChar c = true)
    (hblanks : ∀ b ∈ blanks, Text.isBlank b = true) (hvalue : ∃ d ∈ after, Text.isBlank d = false) :
    (readAssignment? (c :: (blanks ++ '=' :: after))).isSome = true := by
  have hstop : (blanks ++ '=' :: after).dropWhile isNameChar = blanks ++ '=' :: after := by
    cases blanks with
    | nil => rfl
    | cons b blanks =>
        apply List.dropWhile_cons_of_neg
        intro hb
        have := isBlank_of_isNameChar hb
        simp [hblanks b List.mem_cons_self] at this
  refine (isSome_readAssignment?_iff _).mpr ⟨by simp [hc], after, ?_, hvalue⟩
  rw [List.dropWhile_cons_of_pos hc, hstop, Text.trimStart_append_of_blank hblanks]
  rfl

/-- An assignment starts with the first character or behind it. -/
theorem hasAssignment_cons (c : Char) (cs : List Char) :
    HasAssignment (c :: cs) ↔ (readAssignment? (c :: cs)).isSome = true ∨ HasAssignment cs := by
  constructor
  · rintro ⟨before, d, blanks, after, hcs, hd, hblanks, hvalue⟩
    cases before with
    | nil =>
        rw [List.nil_append] at hcs
        exact .inl (hcs ▸ isSome_of_sign hd hblanks hvalue)
    | cons b before =>
        exact .inr ⟨before, d, blanks, after, (List.cons.inj hcs).2, hd, hblanks, hvalue⟩
  · rintro (hfirst | ⟨before, d, blanks, after, rfl, hrest⟩)
    · exact hasAssignment_of_isSome hfirst
    · exact ⟨c :: before, d, blanks, after, rfl, hrest⟩

theorem not_hasAssignment_nil : ¬ HasAssignment [] := by
  rintro ⟨before, c, blanks, after, hcs, -⟩
  simp at hcs

instance : (cs : List Char) → Decidable (HasAssignment cs)
  | [] => .isFalse not_hasAssignment_nil
  | c :: cs =>
      have := instDecidableHasAssignment cs
      decidable_of_iff _ (hasAssignment_cons c cs).symm

/-- A text without assignments falls into its characters. -/
theorem pieces_of_not_hasAssignment {cs : List Char} (h : ¬ HasAssignment cs) :
    pieces cs = cs.map .char := by
  induction cs with
  | nil => rw [pieces, List.map_nil]
  | cons c cs ih =>
      rw [hasAssignment_cons, not_or, Bool.not_eq_true, Option.isSome_eq_false_iff,
        Option.isNone_iff_eq_none] at h
      rw [pieces_cons_of_none h.1, ih h.2, List.map_cons]

/-- Without an equals sign there is no assignment. -/
theorem pieces_of_notMem {cs : List Char} (h : '=' ∉ cs) : pieces cs = cs.map .char := by
  apply pieces_of_not_hasAssignment
  rintro ⟨before, c, blanks, after, rfl, -⟩
  simp at h

theorem length_chars_le (cs : List Char) :
    ((pieces cs).filterMap Piece.char?).length ≤ cs.length := by
  fun_induction pieces cs with
  | case1 => rfl
  | case2 c rest a after hread _ ih =>
      have hlength := readAssignment?_length hread
      change ((pieces after).filterMap Piece.char?).length ≤ _
      omega
  | case3 c rest hnone ih => exact Nat.succ_le_succ ih

/-- The text of an assignment is lost to what lies around it. -/
theorem length_chars_lt {cs : List Char} (h : HasAssignment cs) :
    ((pieces cs).filterMap Piece.char?).length < cs.length := by
  induction cs with
  | nil => exact absurd h not_hasAssignment_nil
  | cons c cs ih =>
      cases hread : readAssignment? (c :: cs) with
      | none =>
          have hrest : HasAssignment cs := by simpa [hread] using (hasAssignment_cons c cs).mp h
          rw [pieces_cons_of_none hread]
          exact Nat.succ_lt_succ (ih hrest)
      | some found =>
          have hlength := readAssignment?_length hread
          have hchars := length_chars_le found.2
          rw [pieces_of_some hread]
          change ((pieces found.2).filterMap Piece.char?).length < _
          omega

/-- A trimmed text comes back from its words, with the assignments taken out, exactly if it has
neither other blanks than single spaces nor an assignment. -/
theorem leftover_eq_iff {cs : List Char} (htrim : Text.Trimmed cs) :
    leftover (pieces ([' '].intercalate (Text.words cs))) = cs ↔
      Text.SingleSpaced cs ∧ ¬ HasAssignment cs := by
  obtain ⟨hspaced, htrimmed⟩ := Text.singleSpaced_words cs
  constructor
  · intro hleft
    have hkept := (Text.trim_sublist
      ((pieces ([' '].intercalate (Text.words cs))).filterMap Piece.char?)).length_le
    rw [← leftover, hleft] at hkept
    have hwords := Text.length_intercalate_words_le cs
    -- no step makes a text longer, so none took anything out
    have hnone : ¬ HasAssignment ([' '].intercalate (Text.words cs)) := by
      intro hsome
      have := length_chars_lt hsome
      omega
    have hsame : [' '].intercalate (Text.words cs) = cs := by
      rwa [leftover, pieces_of_not_hasAssignment hnone, (filterMap_chars _).2,
        htrimmed.trim_self] at hleft
    rw [hsame] at hspaced hnone
    exact ⟨hspaced, hnone⟩
  · rintro ⟨hspaced, hnone⟩
    rw [Text.intercalate_words hspaced htrim, leftover, pieces_of_not_hasAssignment hnone,
      (filterMap_chars cs).2, htrim.trim_self]

end SlimTemplate.Slim
