import SlimTemplate.Text.Lowercase

/-!
Lower case of ASCII text. It goes character by character, whatever stands around the text, so that
a text which is in lower case already stays the end of whatever it ends.
-/

namespace SlimTemplate.Text

theorem lowerFrom_of_ascii {cs : List Char} (before : List Char) (h : ∀ c ∈ cs, c.toNat < 128) :
    lowerFrom before cs = cs.map Char.toLower := by
  induction cs generalizing before with
  | nil => rfl
  | cons c cs ih =>
      obtain ⟨hc, hcs⟩ := List.forall_mem_cons.mp h
      have hsigma : (c == 'Σ') = false := by
        rw [beq_eq_false_iff_ne]
        rintro rfl
        exact absurd hc (by decide)
      simp [lowerFrom, hsigma, lowerChar, hc, ih (c :: before) hcs]

/-- The lower case of a text ends in that of its end. -/
theorem lowerFrom_suffix (before cs ds : List Char) :
    lowerFrom (cs.reverse ++ before) ds <:+ lowerFrom before (cs ++ ds) := by
  induction cs generalizing before with
  | nil => exact List.suffix_refl _
  | cons c cs ih =>
      rw [List.reverse_cons, List.append_assoc, List.singleton_append]
      exact (ih (c :: before)).trans (List.suffix_append _ _)

def IsPlainLower (cs : List Char) : Prop :=
  ∀ c ∈ cs, c.toNat < 128 ∧ c.toLower = c

-- by the list and not by the type: there are many characters
instance (cs : List Char) : Decidable (IsPlainLower cs) :=
  List.decidableBAll _ cs

theorem lower_suffix {suffix s : String} (hplain : IsPlainLower suffix.toList)
    (h : suffix.toList <:+ s.toList) : suffix.toList <:+ (lower s).toList := by
  obtain ⟨cs, hcs⟩ := h
  have hlower : lowerFrom (cs.reverse ++ []) suffix.toList = suffix.toList := by
    rw [lowerFrom_of_ascii _ fun c hc => (hplain c hc).1]
    exact (List.map_congr_left fun c hc => (hplain c hc).2).trans (List.map_id _)
  have hends := lowerFrom_suffix [] cs suffix.toList
  rw [hlower, hcs] at hends
  rwa [lower, String.toList_ofList]

/-- A leading dot stays. -/
theorem lower_head_dot {s : String} (h : s.toList.head? = some '.') :
    (lower s).toList.head? = some '.' := by
  rw [lower, String.toList_ofList]
  cases hs : s.toList with
  | nil => simp [hs] at h
  | cons c cs =>
      rw [hs] at h
      cases h
      rfl

theorem lowerChar_ne_nil (c : Char) : lowerChar c ≠ [] := by
  rw [lowerChar]
  split
  · simp
  · split
    · simp
    · split <;> simp

theorem lowerFrom_cons (before : List Char) (c : Char) (cs : List Char) :
    ∃ first, first ≠ [] ∧ (first = ['y'] → lowerChar c = ['y']) ∧
      lowerFrom before (c :: cs) = first ++ lowerFrom (c :: before) cs := by
  refine ⟨_, ?_, ?_, rfl⟩
  · split
    · split <;> simp
    · exact lowerChar_ne_nil c
  · split
    · split <;> simp
    · exact id

theorem eq_of_toLower_eq_y {c : Char} (hascii : c.toNat < 128) (h : c.toLower = 'y') :
    c = 'y' ∨ c = 'Y' := by
  have hall : ∀ n < 128, (Char.ofNat n).toLower = 'y' →
      Char.ofNat n = 'y' ∨ Char.ofNat n = 'Y' := by
    decide
  have hc := hall c.toNat hascii
  rw [Char.ofNat_toNat] at hc
  exact hc h

theorem eq_of_ofNat_eq_y {n : Nat} (h : Char.ofNat n = 'y') : n = 121 := by
  by_cases hvalid : n.isValidChar
  · rw [Char.ofNat, dif_pos hvalid] at h
    exact congrArg Char.toNat h
  · rw [Char.ofNat, dif_neg hvalid] at h
    exact absurd h (by decide)

/-- No letter beyond ASCII has the lower case `y`. -/
theorem eq_of_lowerChar_eq_y {c : Char} (h : lowerChar c = ['y']) : c = 'y' ∨ c = 'Y' := by
  rw [lowerChar] at h
  split at h
  · rename_i hascii
    exact eq_of_toLower_eq_y hascii (List.cons.inj h).1
  · rename_i hascii
    split at h
    · simp at h
    · split at h
      · rename_i first last stride offset hfound
        have hmisses : lowercaseShifts.all (fun shift =>
            decide (121 < shift.1 + shift.2.2.2) ||
              decide (shift.2.1 + shift.2.2.2 < 121)) = true := by
          decide
        have hmiss := List.all_eq_true.mp hmisses _ (List.mem_of_find?_eq_some hfound)
        have hrange := List.find?_some hfound
        have hcode := eq_of_ofNat_eq_y (List.cons.inj h).1
        simp only [Bool.or_eq_true, Bool.and_eq_true, decide_eq_true_eq] at hmiss hrange
        omega
      · obtain ⟨rfl, -⟩ := List.cons.inj h
        exact absurd (by decide) hascii

theorem lower_eq_y_iff {s : String} : lower s = "y" ↔ s = "y" ∨ s = "Y" := by
  constructor
  · intro h
    have hlower : lowerFrom [] s.toList = ['y'] := by
      rw [lower] at h
      rw [← String.toList_ofList (l := lowerFrom [] s.toList), h]
      rfl
    cases hs : s.toList with
    | nil => simp [hs, lowerFrom] at hlower
    | cons c cs =>
        obtain ⟨first, hne, hfirst, heq⟩ := lowerFrom_cons [] c cs
        rw [hs, heq] at hlower
        have hparts : first = ['y'] ∧ lowerFrom [c] cs = [] := by
          cases List.append_eq_singleton_iff.mp hlower with
          | inl hempty => exact absurd hempty.1 hne
          | inr hparts => exact hparts
        have hcs : cs = [] := by
          cases cs with
          | nil => rfl
          | cons d ds =>
              obtain ⟨second, hsecond, -, hmore⟩ := lowerFrom_cons [c] d ds
              rw [hmore] at hparts
              exact absurd (List.append_eq_nil_iff.mp hparts.2).1 hsecond
        rw [hcs] at hs
        cases eq_of_lowerChar_eq_y (hfirst hparts.1) with
        | inl heq => exact .inl (String.toList_injective (by rw [hs, heq]; rfl))
        | inr heq => exact .inr (String.toList_injective (by rw [hs, heq]; rfl))
  · rintro (rfl | rfl) <;> rfl

end SlimTemplate.Text
