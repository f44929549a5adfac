import Mathlib.Data.List.TakeWhile
import SlimTemplate.Files.Output
import SlimTemplate.Proofs.Path

/-!
Where outputs go. Next to a source or inside an output directory, an output has the name of the
source with another extension, and below a root the directories of the sources are kept. So two
sources have the same output exactly if they have the same parent and the same stem.
-/

namespace SlimTemplate

namespace Path

/-- The stem of a name: what stands before the last dot, if there is something on both sides of it,
and otherwise all of the name. -/
inductive IsStem : List Char → List Char → Prop
  | cut {stem extension : List Char} (hstem : stem ≠ []) (hextension : extension ≠ [])
      (hdot : '.' ∉ extension) : IsStem (stem ++ '.' :: extension) stem
  | whole {name : List Char} (h : ∀ before after, name = before ++ '.' :: after → '.' ∉ after →
      before = [] ∨ after = []) : IsStem name name

theorem stemOf_dotted {before after : List Char} (h : '.' ∉ after) :
    stemOf (before ++ '.' :: after) =
      if before = [] ∨ after = [] then before ++ '.' :: after else before := by
  have hreverse : (before ++ '.' :: after).reverse = after.reverse ++ '.' :: before.reverse := by
    simp
  have hafter : ∀ c ∈ after.reverse, (c != '.') = true := by
    intro c hc
    rw [bne_iff_ne]
    rintro rfl
    exact h (List.mem_reverse.mp hc)
  rw [stemOf, hreverse, List.takeWhile_append_of_pos hafter, List.dropWhile_append_of_pos hafter]
  simp

theorem stemOf_plain {name : List Char} (h : '.' ∉ name) : stemOf name = name := by
  have hname : ∀ c ∈ name.reverse, (c != '.') = true := by
    intro c hc
    rw [bne_iff_ne]
    rintro rfl
    exact h (List.mem_reverse.mp hc)
  rw [stemOf, List.dropWhile_eq_nil_iff.mpr hname]
  rfl

theorem isStem_stemOf (name : List Char) : IsStem name (stemOf name) := by
  by_cases hcut : ∃ before after, name = before ++ '.' :: after ∧ '.' ∉ after ∧
      ¬ (before = [] ∨ after = [])
  · obtain ⟨before, after, rfl, hafter, hboth⟩ := hcut
    rw [stemOf_dotted hafter, if_neg hboth]
    exact .cut (mt .inl hboth) (mt .inr hboth) hafter
  · have hwhole : ∀ before after, name = before ++ '.' :: after → '.' ∉ after →
        before = [] ∨ after = [] := by
      intro before after hname hafter
      by_contra hboth
      exact hcut ⟨before, after, hname, hafter, hboth⟩
    have hsame : stemOf name = name := by
      by_cases hdot : '.' ∈ name
      · obtain ⟨after, before, hreverse, hafter⟩ :=
          List.eq_append_cons_of_mem (List.mem_reverse.mpr hdot)
        obtain rfl : name = before.reverse ++ '.' :: after.reverse := by
          rw [← List.reverse_reverse name, hreverse]
          simp
        have hlast : '.' ∉ after.reverse := List.mem_reverse.not.mpr hafter
        rw [stemOf_dotted hlast, if_pos (hwhole _ _ rfl hlast)]
      · exact stemOf_plain hdot
    rw [hsame]
    exact .whole hwhole

theorem relativeTo?_eq_some_iff {p base : Path} {names : List String} :
    p.relativeTo? base = some names ↔ p = base.descend names := by
  obtain ⟨anchor, parts⟩ := p
  rw [relativeTo?]
  constructor
  · intro h
    split at h
    · rename_i hbelow
      obtain ⟨rfl, rest, rfl⟩ := hbelow
      cases h
      simp [descend]
    · cases h
  · intro h
    cases h
    simp

theorem relativeTo?_eq_none_iff {p base : Path} :
    p.relativeTo? base = none ↔ ∀ names, p ≠ base.descend names := by
  simp only [Option.eq_none_iff_forall_ne_some, ne_eq, relativeTo?_eq_some_iff]

theorem child_eq_child_iff {p q : Path} {name other : String} :
    p.child name = q.child other ↔ p = q ∧ name = other := by
  obtain ⟨anchor, parts⟩ := p
  obtain ⟨anchor', parts'⟩ := q
  simp [child, and_assoc]

theorem descend_inj {p : Path} {names others : List String} :
    p.descend names = p.descend others ↔ names = others := by
  simp [descend]

end Path

namespace Files

/-- Where the output of a source is, by its parent and its stem. -/
structure Mirrors (outputDirectory : Option String) (root : Option Path) (source output : Path) :
    Prop where
  stem : Path.IsStem source.name.toList source.stem.toList
  beside : outputDirectory = none ∨ outputDirectory = some "" →
    output = source.parent.child (source.stem ++ ".erb")
  kept : ∀ directory base names, outputDirectory = some directory → directory ≠ "" →
    root = some base → source.parent = base.descend names →
      output = (Path.ofText directory).descend (names ++ [source.stem ++ ".erb"])
  apart : ∀ directory, outputDirectory = some directory → directory ≠ "" →
    (∀ base names, root = some base → source.parent ≠ base.descend names) →
      output = (Path.ofText directory).child (source.stem ++ ".erb")
  inside : ∀ directory, outputDirectory = some directory → directory ≠ "" →
    ∃ names, output.parent = (Path.ofText directory).descend names

section Output

variable {source : Path}

theorem outputPath_beside (hname : source.name ≠ "") {outputDirectory : Option String}
    (h : outputDirectory = none ∨ outputDirectory = some "") (root : Option Path) :
    outputPath source outputDirectory root =
      .ok (source.parent.child (source.stem ++ ".erb")) := by
  have hparts : source.parts ≠ [] := by
    intro hnil
    simp [Path.name, hnil] at hname
  rcases h with rfl | rfl
  · exact if_neg hparts
  · exact if_neg hparts

/-- In an output directory a source has its output below the directories that are kept. -/
theorem outputPath_inside (source : Path) {directory : String} (h : directory ≠ "")
    (root : Option Path) :
    outputPath source (some directory) root = .ok ((Path.ofText directory).descend
      (keptDirectories source root ++ [source.stem ++ ".erb"])) := by
  have hgiven : givenDirectory? (some directory) = some (.ofText directory) := by
    rw [givenDirectory?.eq_def]
    split
    · simp_all
    · simp_all
    · simp_all
  rw [outputPath, hgiven]
  simp [Path.descend, outputSuffix]

theorem keptDirectories_below {base : Path} {names : List String}
    (h : source.parent = base.descend names) : keptDirectories source (some base) = names := by
  have hrelative := Path.relativeTo?_eq_some_iff.mpr h
  rw [keptDirectories, Option.bind_some, hrelative]
  rfl

theorem keptDirectories_apart {root : Option Path}
    (h : ∀ base names, root = some base → source.parent ≠ base.descend names) :
    keptDirectories source root = [] := by
  cases root with
  | none => rfl
  | some base =>
      have hrelative := Path.relativeTo?_eq_none_iff.mpr fun names => h base names rfl
      rw [keptDirectories, Option.bind_some, hrelative]
      rfl

/-- An output directory is given, or none is. -/
theorem directory_cases (outputDirectory : Option String) :
    (outputDirectory = none ∨ outputDirectory = some "") ∨
      ∃ directory, outputDirectory = some directory ∧ directory ≠ "" := by
  cases outputDirectory with
  | none => exact .inl (.inl rfl)
  | some directory =>
      by_cases hempty : directory = ""
      · exact .inl (.inr (congrArg some hempty))
      · exact .inr ⟨directory, rfl, hempty⟩

/-- A source has an output unless it has no name and its output would stand next to it. -/
theorem exists_mirror {outputDirectory : Option String} (root : Option Path)
    (hname : source.name ≠ "" ∨ ∃ directory, outputDirectory = some directory ∧ directory ≠ "") :
    ∃ output, outputPath source outputDirectory root = .ok output ∧
      Mirrors outputDirectory root source output := by
  have hstem : Path.IsStem source.name.toList source.stem.toList := by
    rw [Path.stem, String.toList_ofList]
    exact Path.isStem_stemOf _
  rcases directory_cases outputDirectory with hnone | ⟨directory, rfl, hdirectory⟩
  · have hnot : ∀ directory, outputDirectory = some directory → directory = "" := by
      rintro directory rfl
      simpa using hnone
    have hname : source.name ≠ "" := by
      refine hname.resolve_right ?_
      rintro ⟨directory, hgiven, hdirectory⟩
      exact hdirectory (hnot directory hgiven)
    refine ⟨_, outputPath_beside hname hnone root, hstem, fun _ => rfl, ?_, ?_, ?_⟩
    · exact fun directory _ _ hgiven hdirectory => absurd (hnot directory hgiven) hdirectory
    · exact fun directory hgiven hdirectory => absurd (hnot directory hgiven) hdirectory
    · exact fun directory hgiven hdirectory => absurd (hnot directory hgiven) hdirectory
  · refine ⟨_, outputPath_inside source hdirectory root, hstem, fun h => ?_, ?_, ?_, ?_⟩
    · exact absurd h (by simpa using hdirectory)
    · rintro _ base names ⟨⟩ - rfl hparent
      rw [keptDirectories_below hparent]
    · rintro _ ⟨⟩ - happart
      rw [keptDirectories_apart happart]
      rfl
    · rintro _ ⟨⟩ -
      exact ⟨keptDirectories source root, by simp [Path.parent, Path.descend]⟩

end Output

/-- Outputs mirror the sources, and two sources below a root have the same output exactly if they
have the same parent and the same stem. -/
theorem outputPath_mirrors (outputDirectory : Option String) (root : Option Path) :
    (∀ source : Path,
      (source.name ≠ "" ∨ ∃ directory, outputDirectory = some directory ∧ directory ≠ "") →
      ∃ output, outputPath source outputDirectory root = .ok output ∧
        Mirrors outputDirectory root source output) ∧
    ∀ (base source other : Path) (names others : List String), root = some base →
      source.name ≠ "" → other.name ≠ "" → source.parent = base.descend names →
      other.parent = base.descend others →
        (outputPath source outputDirectory root = outputPath other outputDirectory root ↔
          source.parent = other.parent ∧ source.stem = other.stem) := by
  refine ⟨fun source hname => exists_mirror root hname, ?_⟩
  rintro base source other names others rfl hsource hother hparent hparent'
  rcases directory_cases outputDirectory with hnone | ⟨directory, rfl, hdirectory⟩
  · rw [outputPath_beside hsource hnone, outputPath_beside hother hnone, Except.ok.injEq,
      Path.child_eq_child_iff, String.append_left_inj]
  · rw [outputPath_inside source hdirectory, outputPath_inside other hdirectory, Except.ok.injEq,
      Path.descend_inj, keptDirectories_below hparent, keptDirectories_below hparent', hparent,
      hparent', Path.descend_inj]
    simp

/-- Two files of one directory, in different spellings and with different extensions. -/
def spelledSource : Path := .ofText "views//users/./.index.html.slim"

def otherSource : Path := .ofText "./views/users/.index.html.SLIM"

/-- The two sources share an output, in which all but the last extension is kept. -/
theorem outputPath_mirrors_spelledSource :
    outputPath spelledSource (some "build/") (some (.ofText "views")) =
        outputPath otherSource (some "build/") (some (.ofText "views")) ∧
      ∃ output, outputPath spelledSource (some "build/") (some (.ofText "views")) = .ok output ∧
        output = .ofText "build/users/.index.html.erb" := by
  obtain ⟨hmirror, hshared⟩ := outputPath_mirrors (some "build/") (some (.ofText "views"))
  have hparent : spelledSource.parent = (Path.ofText "views").descend ["users"] := by
    decide +kernel
  have hother : otherSource.parent = (Path.ofText "views").descend ["users"] := by
    decide +kernel
  have hstem : spelledSource.stem = otherSource.stem := by decide +kernel
  constructor
  · exact (hshared _ spelledSource otherSource ["users"] ["users"] rfl (by decide) (by decide)
      hparent hother).mpr ⟨hparent.trans hother.symm, hstem⟩
  · obtain ⟨output, houtput, hmirrors⟩ := hmirror spelledSource (.inl (by decide))
    refine ⟨output, houtput, ?_⟩
    rw [hmirrors.kept "build/" _ ["users"] rfl (by decide) rfl hparent]
    decide +kernel

end Files

end SlimTemplate
