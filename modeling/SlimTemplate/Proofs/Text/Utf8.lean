import SlimTemplate.Text.Utf8

/-!
Text that is written is read back. Every character is decoded from its own bytes, whatever follows
them, so a text whose line ends are single line feeds comes back as it was.
-/

namespace SlimTemplate.Text

theorem isContinuation_iff {b : UInt8} :
    isContinuation b = true ↔ 0x80 ≤ b.toNat ∧ b.toNat < 0xC0 := by
  simp [isContinuation, UInt8.le_iff_toNat_le, UInt8.lt_iff_toNat_lt]

/-- The second byte is bounded by what its first byte still leaves to encode. -/
theorem isSecondByte_of {first second : UInt8} (h : isContinuation second = true)
    (hlow : first.toNat = 0xE0 → 0xA0 ≤ second.toNat)
    (hsurrogate : first.toNat = 0xED → second.toNat < 0xA0)
    (hlow' : first.toNat = 0xF0 → 0x90 ≤ second.toNat)
    (hhigh : first.toNat = 0xF4 → second.toNat < 0x90) : isSecondByte first second = true := by
  obtain ⟨hleast, hmost⟩ := isContinuation_iff.mp h
  rw [isSecondByte]
  split
  · have hsecond := hlow (congrArg UInt8.toNat (eq_of_beq ‹_›))
    simpa [UInt8.le_iff_toNat_le, UInt8.lt_iff_toNat_lt] using ⟨hsecond, hmost⟩
  split
  · have hsecond := hsurrogate (congrArg UInt8.toNat (eq_of_beq ‹_›))
    simpa [UInt8.le_iff_toNat_le, UInt8.lt_iff_toNat_lt] using ⟨hleast, hsecond⟩
  split
  · have hsecond := hlow' (congrArg UInt8.toNat (eq_of_beq ‹_›))
    simpa [UInt8.le_iff_toNat_le, UInt8.lt_iff_toNat_lt] using ⟨hsecond, hmost⟩
  split
  · have hsecond := hhigh (congrArg UInt8.toNat (eq_of_beq ‹_›))
    simpa [UInt8.le_iff_toNat_le, UInt8.lt_iff_toNat_lt] using ⟨hleast, hsecond⟩
  · exact h

section Sequences

variable (position : Nat) {a b c d : UInt8} (rest : Bytes)

theorem decodeFrom_one (ha : a.toNat < 0x80) :
    decodeFrom position (a :: rest) =
      (Char.ofNat a.toNat :: ·) <$> decodeFrom (position + 1) rest := by
  rw [decodeFrom.eq_def]
  simp [UInt8.lt_iff_toNat_lt, ha]

theorem decodeFrom_two (ha : 0xC2 ≤ a.toNat ∧ a.toNat < 0xE0) (hb : isSecondByte a b = true) :
    decodeFrom position (a :: b :: rest) =
      (sequenceChar (a.toNat - 0xC0) [b] :: ·) <$> decodeFrom (position + 2) rest := by
  rw [decodeFrom.eq_def]
  have hlong : ¬ a.toNat < 0x80 := by omega
  simp [UInt8.lt_iff_toNat_lt, hlong, Nat.not_lt.mpr ha.1, ha.2, hb]

theorem decodeFrom_three (ha : 0xE0 ≤ a.toNat ∧ a.toNat < 0xF0) (hb : isSecondByte a b = true)
    (hc : isContinuation c = true) :
    decodeFrom position (a :: b :: c :: rest) =
      (sequenceChar (a.toNat - 0xE0) [b, c] :: ·) <$> decodeFrom (position + 3) rest := by
  rw [decodeFrom.eq_def]
  have hlong : ¬ a.toNat < 0x80 ∧ ¬ a.toNat < 0xC2 := by omega
  simp [UInt8.lt_iff_toNat_lt, hlong, Nat.not_lt.mpr ha.1, ha.2, hb, hc]

theorem decodeFrom_four (ha : 0xF0 ≤ a.toNat ∧ a.toNat < 0xF5) (hb : isSecondByte a b = true)
    (hc : isContinuation c = true) (hd : isContinuation d = true) :
    decodeFrom position (a :: b :: c :: d :: rest) =
      (sequenceChar (a.toNat - 0xF0) [b, c, d] :: ·) <$> decodeFrom (position + 4) rest := by
  rw [decodeFrom.eq_def]
  have hlong : ¬ a.toNat < 0x80 ∧ ¬ a.toNat < 0xC2 ∧ ¬ a.toNat < 0xE0 := by omega
  simp [UInt8.lt_iff_toNat_lt, hlong, Nat.not_lt.mpr ha.1, ha.2, hb, hc, hd]

end Sequences

theorem toNat_ofNat {n : Nat} (h : n < 256) : (UInt8.ofNat n).toNat = n := by
  simpa using h

theorem isContinuation_ofNat (n : Nat) : isContinuation (UInt8.ofNat (n % 64 + 128)) = true := by
  rw [isContinuation_iff, toNat_ofNat (by omega)]
  omega

/-- The further bytes of a sequence hold six bits each. -/
theorem sequenceChar_ofNat {payload : Nat} {c : Char} (rest : List Nat)
    (h : rest.foldl (fun n m => n * 64 + m % 64) payload = c.toNat) :
    sequenceChar payload (rest.map fun n => UInt8.ofNat (n % 64 + 128)) = c := by
  rw [sequenceChar, List.foldl_map]
  have hbyte : ∀ m : Nat, (UInt8.ofNat (m % 64 + 128)).toNat - 128 = m % 64 := by
    intro m
    rw [toNat_ofNat (by omega)]
    omega
  simp only [hbyte, h, Char.ofNat_toNat]

/-- A character is decoded from its bytes. -/
theorem decodeFrom_encodeChar (position : Nat) (c : Char) (rest : Bytes) :
    ∃ next, decodeFrom position (String.utf8EncodeChar c ++ rest) =
      (c :: ·) <$> decodeFrom next rest := by
  have hvalid : c.toNat < 0xD800 ∨ 0xDFFF < c.toNat ∧ c.toNat < 0x110000 := c.valid
  have hval : c.val.toNat = c.toNat := rfl
  rw [String.utf8EncodeChar]
  simp only [hval]
  generalize hn : c.toNat = n at hvalid
  split
  · have ha := toNat_ofNat (n := n) (by omega)
    rw [List.singleton_append, decodeFrom_one _ _ (by omega), ha, ← hn, Char.ofNat_toNat]
    exact ⟨_, rfl⟩
  split
  · have ha := toNat_ofNat (n := n / 64 % 32 + 192) (by omega)
    have hb := toNat_ofNat (n := n % 64 + 128) (by omega)
    have hsecond : isSecondByte (UInt8.ofNat (n / 64 % 32 + 192)) (UInt8.ofNat (n % 64 + 128)) =
        true := by
      apply isSecondByte_of (isContinuation_ofNat n) <;> omega
    have hchar : sequenceChar (n / 64 % 32 + 192 - 0xC0) [UInt8.ofNat (n % 64 + 128)] = c :=
      sequenceChar_ofNat [n] (by rw [hn]; simp only [List.foldl_cons, List.foldl_nil]; omega)
    rw [List.cons_append, List.singleton_append, decodeFrom_two _ _ (by omega) hsecond, ha, hchar]
    exact ⟨_, rfl⟩
  split
  · have ha := toNat_ofNat (n := n / 4096 % 16 + 224) (by omega)
    have hb := toNat_ofNat (n := n / 64 % 64 + 128) (by omega)
    have hsecond : isSecondByte (UInt8.ofNat (n / 4096 % 16 + 224))
        (UInt8.ofNat (n / 64 % 64 + 128)) = true := by
      apply isSecondByte_of (isContinuation_ofNat _) <;> omega
    have hchar : sequenceChar (n / 4096 % 16 + 224 - 0xE0)
        [UInt8.ofNat (n / 64 % 64 + 128), UInt8.ofNat (n % 64 + 128)] = c :=
      sequenceChar_ofNat [n / 64, n]
        (by rw [hn]; simp only [List.foldl_cons, List.foldl_nil]; omega)
    rw [List.cons_append, List.cons_append, List.singleton_append,
      decodeFrom_three _ _ (by omega) hsecond (isContinuation_ofNat n), ha, hchar]
    exact ⟨_, rfl⟩
  · have ha := toNat_ofNat (n := n / 262144 % 8 + 240) (by omega)
    have hb := toNat_ofNat (n := n / 4096 % 64 + 128) (by omega)
    have hsecond : isSecondByte (UInt8.ofNat (n / 262144 % 8 + 240))
        (UInt8.ofNat (n / 4096 % 64 + 128)) = true := by
      apply isSecondByte_of (isContinuation_ofNat _) <;> omega
    have hchar : sequenceChar (n / 262144 % 8 + 240 - 0xF0) [UInt8.ofNat (n / 4096 % 64 + 128),
        UInt8.ofNat (n / 64 % 64 + 128), UInt8.ofNat (n % 64 + 128)] = c :=
      sequenceChar_ofNat [n / 4096, n / 64, n]
        (by rw [hn]; simp only [List.foldl_cons, List.foldl_nil]; omega)
    rw [List.cons_append, List.cons_append, List.cons_append, List.singleton_append,
      decodeFrom_four _ _ (by omega) hsecond (isContinuation_ofNat _) (isContinuation_ofNat n), ha,
      hchar]
    exact ⟨_, rfl⟩

theorem decodeFrom_encode (position : Nat) (cs : List Char) :
    decodeFrom position (cs.flatMap String.utf8EncodeChar) = .ok cs := by
  induction cs generalizing position with
  | nil => rfl
  | cons c cs ih =>
      obtain ⟨next, hfirst⟩ :=
        decodeFrom_encodeChar position c (cs.flatMap String.utf8EncodeChar)
      rw [List.flatMap_cons, hfirst, ih]
      rfl

theorem unifyBreaks_of_notMem {cs : List Char} (h : '\r' ∉ cs) : unifyBreaks cs = cs := by
  fun_induction unifyBreaks cs with
  | case1 cs ih | case2 cs hnext ih => simp at h
  | case3 c cs hpair hreturn ih => rw [ih (List.not_mem_of_not_mem_cons h)]
  | case4 => rfl

theorem notMem_unifyBreaks (cs : List Char) : '\r' ∉ unifyBreaks cs := by
  fun_induction unifyBreaks cs with
  | case1 cs ih | case2 cs hnext ih => simpa using ih
  | case3 c cs hpair hreturn ih =>
      rw [List.mem_cons, not_or]
      exact ⟨fun heq => hreturn heq.symm, ih⟩
  | case4 => simp

/-- A text without carriage returns is read as it was written. -/
theorem decodeText_encode {s : String} (h : '\r' ∉ s.toList) :
    decodeText (encode s) = .ok s := by
  have hsame : String.ofList (unifyBreaks s.toList) = s := by
    rw [unifyBreaks_of_notMem h, String.ofList_toList]
  rw [decodeText, encode, decodeFrom_encode]
  exact congrArg Except.ok hsame

end SlimTemplate.Text
