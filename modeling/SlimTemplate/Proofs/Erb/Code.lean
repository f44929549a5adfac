import SlimTemplate.Proofs.Erb.Reading

/-!
Blanks around code do not matter: the role of a statement and the word `do` at its end are the same
for code as it stands in a node and as it is read back, with blanks put around it and trimmed off
again.
-/

namespace SlimTemplate.Text

/-- Whatever ignores a blank at either end of a text ignores trimming. -/
theorem trim_invariant {β : Type} {f : List Char → β}
    (hstart : ∀ b cs, isBlank b = true → f (b :: cs) = f cs)
    (hend : ∀ b cs, isBlank b = true → f (cs ++ [b]) = f cs) (cs : List Char) :
    f (trim cs) = f cs := by
  have htrimStart : ∀ cs, f (trimStart cs) = f cs := by
    intro cs
    induction cs with
    | nil => rfl
    | cons c cs ih =>
        cases hc : isBlank c with
        | true => simpa [trimStart, hc, hstart c cs hc] using ih
        | false => simp [trimStart, hc]
  have htrimEnd : ∀ cs, f (trimStart cs).reverse = f cs.reverse := by
    intro cs
    induction cs with
    | nil => rfl
    | cons c cs ih =>
        cases hc : isBlank c with
        | true => simpa [trimStart, hc, hend c cs.reverse hc] using ih
        | false => simp [trimStart, hc]
  have h := htrimEnd (trimStart cs).reverse
  rw [List.reverse_reverse, htrimStart] at h
  exact h

theorem words_cons_blank (b : Char) (cs : List Char) (h : isBlank b = true) :
    words (b :: cs) = words cs := by
  simp [words, List.splitOnP_cons_eq_if_modifyHead, h]

theorem words_concat_blank (b : Char) (cs : List Char) (h : isBlank b = true) :
    words (cs ++ [b]) = words cs := by
  simp [words, List.splitOnP_append_cons cs [] h]

def blankCodes : List Nat :=
  [0x09, 0x0A, 0x0B, 0x0C, 0x0D, 0x1C, 0x1D, 0x1E, 0x1F, 0x20, 0x85, 0xA0, 0x1680, 0x2000, 0x2001,
   0x2002, 0x2003, 0x2004, 0x2005, 0x2006, 0x2007, 0x2008, 0x2009, 0x200A, 0x2028, 0x2029, 0x202F,
   0x205F, 0x3000]

theorem mem_blankCodes {c : Char} (h : isBlank c = true) : c.toNat ∈ blankCodes := by
  simp only [isBlank, Bool.or_eq_true, Bool.and_eq_true, decide_eq_true_eq, beq_iff_eq] at h
  simp only [blankCodes, List.mem_cons, List.not_mem_nil, or_false]
  omega

/-- No blank is part of a word. -/
theorem isWordChar_of_isBlank {c : Char} (h : isBlank c = true) : isWordChar c = false := by
  have hcodes : ∀ n ∈ blankCodes, isWordChar (Char.ofNat n) = false := by decide +kernel
  have hc := hcodes c.toNat (mem_blankCodes h)
  rwa [Char.ofNat_toNat] at hc

theorem ne_of_isBlank {b c : Char} (h : isBlank b = true) (hc : isBlank c = false) : b ≠ c := by
  rintro rfl
  rw [h] at hc
  cases hc

end SlimTemplate.Text

namespace SlimTemplate.Erb

theorem isParameterList_concat_blank (b : Char) (cs : List Char) (h : Text.isBlank b = true) :
    isParameterList (cs ++ [b]) = isParameterList cs := by
  have htrim : Text.trimStart (cs ++ [b]) =
      if (Text.trimStart cs).isEmpty then [] else Text.trimStart cs ++ [b] := by
    simp [Text.trimStart, List.dropWhile_append, h]
  simp only [isParameterList, htrim]
  cases hcs : Text.trimStart cs with
  | nil => rfl
  | cons c rest =>
      by_cases hbar : c = '|'
      · have hb : (b != '|') = true := by
          simpa using Text.ne_of_isBlank h (by decide : Text.isBlank '|' = false)
        subst hbar
        simp only [List.isEmpty_cons, Bool.false_eq_true, ite_false, List.cons_append,
          List.dropWhile_append]
        cases hdrop : rest.dropWhile (· != '|') with
        | nil => simp [hb]
        | cons d after => simp [h]
      · simp [hbar]

theorem endsInDoFrom_concat_blank (b : Char) (cs : List Char) (inWord : Bool)
    (h : Text.isBlank b = true) :
    endsInDoFrom inWord (cs ++ [b]) = endsInDoFrom inWord cs := by
  have hd : (b == 'd') = false := by
    simpa using Text.ne_of_isBlank h (by decide : Text.isBlank 'd' = false)
  have ho : b ≠ 'o' := Text.ne_of_isBlank h (by decide)
  induction cs generalizing inWord with
  | nil => simp [endsInDoFrom, hd]
  | cons c cs ih =>
      simp only [List.cons_append, endsInDoFrom, ih]
      congr 2
      cases cs with
      | nil => simp [ho]
      | cons d cs =>
          by_cases hdo : d = 'o'
          · subst hdo
            simp [isParameterList_concat_blank b cs h]
          · simp [hdo]

theorem endsInDoFrom_cons_blank (b : Char) (cs : List Char) (h : Text.isBlank b = true) :
    endsInDoFrom false (b :: cs) = endsInDoFrom false cs := by
  have hd : (b == 'd') = false := by
    simpa using Text.ne_of_isBlank h (by decide : Text.isBlank 'd' = false)
  simp [endsInDoFrom, hd, Text.isWordChar_of_isBlank h]

def readCode (code : String) : String :=
  String.ofList (Text.trim (spaced code.toList))

/-- Whatever ignores blanks at the ends is the same for code that is read back. -/
theorem readCode_invariant {β : Type} {f : List Char → β}
    (hstart : ∀ b cs, Text.isBlank b = true → f (b :: cs) = f cs)
    (hend : ∀ b cs, Text.isBlank b = true → f (cs ++ [b]) = f cs) (code : String) :
    f (readCode code).toList = f code.toList := by
  have hspace : Text.isBlank ' ' = true := by decide
  rw [readCode, String.toList_ofList, Text.trim_invariant hstart hend, spaced,
    hstart ' ' _ hspace, hend ' ' _ hspace]

theorem endsInDo_readCode (code : String) : endsInDo (readCode code) = endsInDo code :=
  readCode_invariant endsInDoFrom_cons_blank
    (fun b cs h => endsInDoFrom_concat_blank b cs false h) code

theorem firstWord?_readCode (code : String) :
    Text.firstWord? (readCode code) = Text.firstWord? code :=
  congrArg (fun words => words.head?.map String.ofList)
    (readCode_invariant Text.words_cons_blank Text.words_concat_blank code)

theorem statementRole_readCode (code : String) :
    statementRole (readCode code) = statementRole code := by
  simp only [statementRole, firstWord?_readCode, endsInDo_readCode]

def outputRole (code : String) : Role :=
  if endsInDo code then .opens else .plain

theorem embeddedRole?_output (code : String) :
    embeddedRole? (.output, spaced code.toList) = some (outputRole code, readCode code) := by
  change some (if endsInDo (readCode code) then Role.opens else .plain, readCode code) = _
  rw [endsInDo_readCode]
  rfl

theorem embeddedRole?_run (code : String) :
    embeddedRole? (.run, spaced code.toList) = some (statementRole code, readCode code) := by
  change some (statementRole (readCode code), readCode code) = _
  rw [statementRole_readCode]

end SlimTemplate.Erb
