import SlimTemplate.Files.Reading
import SlimTemplate.Files.Writing
import SlimTemplate.Proofs.FileTree.Changes
import SlimTemplate.Proofs.Text.Lowercase

/-!
The names of the files of a conversion. Output, temporary files and backups are told by their
endings, and a file with a safe extension has none of them; so the files of different conversions
cannot be taken for one another.
-/

namespace SlimTemplate.Files

def writtenEndings : List String :=
  [".erb", ".backup", ".tmp"]

def EndsIn (ending : String) (location : Location) : Prop :=
  ∃ name, location.getLast? = some name ∧ ending.toList <:+ name.toList

/-- Locations of files that a conversion may overwrite. -/
def Disposable (location : Location) : Prop :=
  EndsIn ".erb" location ∨ EndsIn ".tmp" location

/-- An extension that no written file can have. -/
def IsSafe (extension : String) : Prop :=
  ∀ ending ∈ writtenEndings, ¬ ending.toList <:+ (Text.lower extension).toList

instance (extension : String) : Decidable (IsSafe extension) :=
  inferInstanceAs (Decidable (∀ ending ∈ writtenEndings, _))

/-- Whether the last name of a location has an extension, with regard to case or without. -/
def IsSource (extension : String) (location : Location) : Prop :=
  ∃ name, location.getLast? = some name ∧
    (extension.toList <:+ name.toList ∨ hasExtension name extension = true)

theorem endsIn_concat {ending name : String} {directory : Location} :
    EndsIn ending (directory ++ [name]) ↔ ending.toList <:+ name.toList := by
  simp [EndsIn]

theorem isSource_concat {extension name : String} {directory : Location}
    (h : hasExtension name extension = true) : IsSource extension (directory ++ [name]) :=
  ⟨name, List.getLast?_concat, .inr h⟩

/-- The empty name has no extension that starts with a dot. -/
theorem ne_empty_of_hasExtension {extension name : String}
    (hdotted : extension.toList.head? = some '.') (h : hasExtension name extension = true) :
    name ≠ "" := by
  rintro rfl
  have hlower := Text.lower_head_dot hdotted
  rw [List.suffix_nil.mp (List.isSuffixOf_iff_suffix.mp h)] at hlower
  cases hlower

theorem parts_ne_nil_of_hasExtension {extension : String} {p : Path}
    (hdotted : extension.toList.head? = some '.') (h : hasExtension p.name extension = true) :
    p.parts ≠ [] := by
  intro hnone
  refine ne_empty_of_hasExtension hdotted h ?_
  rw [Path.name, hnone]
  rfl

/-- Of two endings that start with a dot the longer one ends in the shorter one, unless the longer
has a second dot. -/
theorem suffix_of_dotted {ending extension text : List Char} (hdot : '.' ∉ ending.tail)
    (hextension : extension.head? = some '.') (h : ending <:+ text) (h' : extension <:+ text) :
    ending <:+ extension := by
  cases List.suffix_or_suffix_of_suffix h h' with
  | inl hsuffix => exact hsuffix
  | inr hsuffix =>
      -- The extension is an end of the ending that starts with a dot, hence all of it.
      obtain ⟨start, hstart⟩ := hsuffix
      cases start with
      | nil => exact hstart ▸ List.suffix_refl _
      | cons c start =>
          have hmem : '.' ∈ extension := List.mem_of_mem_head? hextension
          rw [← hstart] at hdot
          exact absurd (List.mem_append_right start hmem) hdot

theorem writtenEndings_dotted : ∀ ending ∈ writtenEndings,
    '.' ∉ ending.toList.tail ∧ Text.IsPlainLower ending.toList := by
  decide

/-- A source has none of the endings of written files. -/
theorem IsSource.not_endsIn {extension ending : String} {location : Location}
    (hdotted : extension.toList.head? = some '.') (hsafe : IsSafe extension)
    (hending : ending ∈ writtenEndings) (h : IsSource extension location) :
    ¬ EndsIn ending location := by
  obtain ⟨hdot, hplain⟩ := writtenEndings_dotted ending hending
  obtain ⟨name, hname, hextension⟩ := h
  rintro ⟨other, hother, hends⟩
  obtain rfl : other = name := Option.some.inj (hother.symm.trans hname)
  apply hsafe ending hending
  cases hextension with
  | inl hsuffix => exact Text.lower_suffix hplain (suffix_of_dotted hdot hdotted hends hsuffix)
  | inr hlower =>
      exact suffix_of_dotted hdot (Text.lower_head_dot hdotted)
        (Text.lower_suffix hplain hends) (List.isSuffixOf_iff_suffix.mp hlower)

theorem IsSource.not_disposable {extension : String} {location : Location}
    (hdotted : extension.toList.head? = some '.') (hsafe : IsSafe extension)
    (h : IsSource extension location) : ¬ Disposable location := by
  rintro (hends | hends)
  · exact h.not_endsIn hdotted hsafe (by decide) hends
  · exact h.not_endsIn hdotted hsafe (by decide) hends

/-- A backup is not overwritten. -/
theorem not_disposable_of_backup {location : Location} (h : EndsIn ".backup" location) :
    ¬ Disposable location := by
  obtain ⟨name, hname, hbackup⟩ := h
  rintro (⟨other, hother, hends⟩ | ⟨other, hother, hends⟩)
  all_goals
    obtain rfl : other = name := Option.some.inj (hother.symm.trans hname)
    exact absurd (suffix_of_dotted (by decide) (by decide) hbackup hends) (by decide)

/-- An output is not a temporary file. -/
theorem not_endsIn_temporary {location : Location} (h : EndsIn ".erb" location) :
    ¬ EndsIn ".tmp" location := by
  obtain ⟨name, hname, hends⟩ := h
  rintro ⟨other, hother, hends'⟩
  obtain rfl : other = name := Option.some.inj (hother.symm.trans hname)
  exact absurd (suffix_of_dotted (by decide) (by decide) hends hends') (by decide)

theorem EndsIn.ne_nil {ending : String} {location : Location} (h : EndsIn ending location) :
    location ≠ [] := by
  rintro rfl
  obtain ⟨name, hname, -⟩ := h
  cases hname

/-- Names with endings of which neither is an end of the other are different. -/
theorem ne_of_endings {ending ending' name name' : String}
    (hne : ¬ ending.toList <:+ ending'.toList ∧ ¬ ending'.toList <:+ ending.toList)
    (h : ending.toList <:+ name.toList) (h' : ending'.toList <:+ name'.toList) : name ≠ name' := by
  rintro rfl
  cases List.suffix_or_suffix_of_suffix h h' with
  | inl hsuffix => exact hne.1 hsuffix
  | inr hsuffix => exact hne.2 hsuffix

theorem not_isDots_of_ending {ending name : String} (hending : ending ∈ writtenEndings)
    (h : ending.toList <:+ name.toList) : ¬ IsDots name := by
  have hnone : ∀ ending ∈ writtenEndings, ¬ ending.toList <:+ "".toList ∧
      ¬ ending.toList <:+ ".".toList ∧ ¬ ending.toList <:+ "..".toList := by decide
  obtain ⟨hempty, hdot, hdots⟩ := hnone ending hending
  rintro (rfl | rfl | rfl)
  · exact hempty h
  · exact hdot h
  · exact hdots h

theorem outputName_ending (source : Path) :
    ".erb".toList <:+ (source.stem ++ outputSuffix).toList := by
  rw [String.toList_append]
  exact List.suffix_append _ _

theorem isPart_of_ending {ending name : String} (hending : ending ∈ writtenEndings)
    (h : ending.toList <:+ name.toList) (hslash : '/' ∉ name.toList) : IsPart name :=
  have hdots := not_isDots_of_ending hending h
  ⟨hdots ∘ .inl, hdots ∘ .inr ∘ .inl, hslash⟩

theorem backupName_toList (name : String) (n : Nat) :
    (backupName name n).toList = name.toList ++
      ((if n = 0 then [] else '-' :: Nat.toDigits 10 n) ++ ".backup".toList) := by
  cases n with
  | zero => simp [backupName]
  | succ n => simp [backupName]

theorem backupName_ending (name : String) (n : Nat) :
    ".backup".toList <:+ (backupName name n).toList := by
  rw [backupName_toList, ← List.append_assoc]
  exact List.suffix_append _ _

theorem backupName_injective (name : String) : Function.Injective (backupName name) := by
  intro n m h
  have hlists := congrArg String.toList h
  rw [backupName_toList, backupName_toList, List.append_cancel_left_eq,
    List.append_cancel_right_eq] at hlists
  split at hlists <;> split at hlists
  · simp_all
  · cases hlists
  · cases hlists
  · have hdigits : Nat.toDigits 10 n = Nat.toDigits 10 m := (List.cons.inj hlists).2
    have hvalue := congrArg (fun cs => Nat.ofDigitChars 10 cs 0) hdigits
    simpa only [Nat.ofDigitChars_ten_toDigits] using hvalue

theorem notMem_backupName {c : Char} {name : String} (n : Nat) (hdigit : c.isDigit = false)
    (hmark : c ∉ "-.backup".toList) (h : c ∉ name.toList) : c ∉ (backupName name n).toList := by
  have hdigits : c ∉ Nat.toDigits 10 n := by
    intro hmem
    rw [Nat.isDigit_of_mem_toDigits (by decide) (by decide) hmem] at hdigit
    cases hdigit
  have hsplit : c ≠ '-' ∧ c ∉ ".backup".toList := by
    refine ⟨fun heq => hmark ?_, fun hmem => hmark ?_⟩
    · rw [heq]
      decide
    · exact List.mem_cons_of_mem '-' hmem
  rw [backupName_toList, List.mem_append, List.mem_append]
  rintro (hmem | hmem | hmem)
  · exact h hmem
  · split at hmem
    · cases hmem
    · cases List.mem_cons.mp hmem with
      | inl heq => exact hsplit.1 heq
      | inr hmem => exact hdigits hmem
  · exact hsplit.2 hmem

theorem backupName_slash {name : String} (n : Nat) (h : '/' ∉ name.toList) :
    '/' ∉ (backupName name n).toList :=
  notMem_backupName n (by decide) (by decide) h

/-- What is left of a name without its extension is a part of it. -/
theorem stemOf_temporary (stem : List Char) :
    Path.stemOf (stem ++ ".erb.slim2erb.tmp".toList) = stem ++ ".erb.slim2erb".toList := by
  have hreverse : ".erb.slim2erb.tmp".toList.reverse = "pmt.bre2mils.bre.".toList := by decide
  rw [Path.stemOf, List.reverse_append, hreverse]
  simp [List.takeWhile, List.dropWhile]

/-- No name is that of the temporary file of its own output. -/
theorem temporaryName_ne (p : Path) : p.stem ++ outputSuffix ++ temporarySuffix ≠ p.name := by
  intro heq
  have hname : p.name.toList = Path.stemOf p.name.toList ++ ".erb.slim2erb.tmp".toList := by
    conv_lhs => rw [← heq]
    simp [Path.stem, outputSuffix, temporarySuffix]
  have hstem := stemOf_temporary (Path.stemOf p.name.toList)
  rw [← hname] at hstem
  simp at hstem

theorem stemOf_subset (name : List Char) : Path.stemOf name ⊆ name := by
  rw [Path.stemOf]
  split
  · exact List.Subset.refl _
  · intro c hc
    have hc := (List.drop_sublist _ _).subset (List.mem_reverse.mp hc)
    exact List.mem_reverse.mp ((List.dropWhile_sublist _).subset hc)

end SlimTemplate.Files
