import SlimTemplate.Proofs.Files.Outcome

/-!
Where output goes in trees with links. The directory entries that an output and its temporary file
stand for are settled before anything is written; unless the temporary file is a link, nothing but
these two is overwritten.
-/

namespace SlimTemplate

namespace FileTree

/-- Two trees have the same links, so paths lead to the same locations. -/
structure SameLinks (before after : FileTree) : Prop where
  working : after.working = before.working
  links : ∀ location target, after.get? location = some (.link target) ↔
    before.get? location = some (.link target)

section SameLinks

variable {before between tree after : FileTree} {p : Path} {place : Place} {location : Location}

theorem SameLinks.trans (h : SameLinks before between) (h' : SameLinks between after) :
    SameLinks before after where
  working := h'.working.trans h.working
  links location target := (h'.links location target).trans (h.links location target)

theorem SameLinks.leadsTo (h : SameLinks before after) (hleads : LeadsTo after p location) :
    LeadsTo before p location :=
  hleads.later h.working.symm fun location target => (h.links location target).symm

theorem Fills.sameLinks (h : Fills before after) : SameLinks before after :=
  ⟨h.working, fun location target => (h.links_iff location target).symm⟩

/-- Where a file is written there was a file or nothing. -/
theorem sameLinks_set_file {content : Text.Bytes} (hroot : location ≠ [])
    (hfile : ∀ target, tree.get? location ≠ some (.link target)) :
    SameLinks tree (tree.set location (.file content)) where
  working := rfl
  links other target := by
    rw [get?_set _ _ _ _ hroot]
    split
    · rename_i heq
      exact iff_of_false (by simp) (heq ▸ hfile target)
    · exact Iff.rfl

/-- The location of a file or of nothing is not that of the root, nor is a link there. -/
theorem locate_file (h : tree.locate .output p = .ok place)
    (hfile : ∀ entry, place.entry? = some entry → ∃ old, entry = .file old) :
    place.location ≠ [] ∧ ∀ target, tree.get? place.location ≠ some (.link target) := by
  have hget := locate_get? h
  refine ⟨fun hroot => ?_, fun target hlink => ?_⟩
  · rw [hroot] at hget
    obtain ⟨old, heq⟩ := hfile .directory hget.symm
    cases heq
  · obtain ⟨old, heq⟩ := hfile (.link target) (hget.symm.trans hlink)
    cases heq

theorem writeFile_sameLinks {content : Text.Bytes} (h : tree.writeFile p content = .ok after) :
    SameLinks tree after := by
  obtain ⟨place, hlocate, hfile, rfl⟩ := writeFile_ok h
  obtain ⟨hroot, hnot⟩ := locate_file hlocate hfile
  exact sameLinks_set_file hroot hnot

theorem child_name_of_not_isDots (hname : ¬ IsDots p.name) : p.parent.child p.name = p := by
  apply Path.child_parent_name
  intro hparts
  exact hname (.inl (by rw [Path.name, hparts]; rfl))

/-- The entry that a path names is the same in trees with the same links. -/
theorem SameLinks.locate_entry (h : SameLinks before tree) (hname : ¬ IsDots p.name)
    (hlocate : tree.locate .entry p = .ok place) :
    (∃ directory, LeadsTo before p.parent directory) ∧ place.location = before.entryLocation p := by
  rw [← child_name_of_not_isDots hname] at hlocate
  obtain ⟨directory, hleads, -, hplace⟩ := locate_child hname hlocate
  have hbefore := h.leadsTo hleads
  have hentry := hbefore.entryLocation_child p.name
  rw [child_name_of_not_isDots hname] at hentry
  exact ⟨⟨directory, hbefore⟩, hentry ▸ hplace (.inl rfl)⟩

/-- A path leads to the entry that it names, unless a link stands there. -/
theorem SameLinks.locate_unlinked {aim : Aim} (h : SameLinks before tree)
    (hname : ¬ IsDots p.name)
    (hnot : ∀ target, before.get? (before.entryLocation p) ≠ some (.link target))
    (hlocate : tree.locate aim p = .ok place) : place.location = before.entryLocation p := by
  rw [← child_name_of_not_isDots hname] at hlocate
  obtain ⟨directory, hleads, -, hplace⟩ := locate_child hname hlocate
  have hentry := (h.leadsTo hleads).entryLocation_child p.name
  rw [child_name_of_not_isDots hname] at hentry
  rw [hentry] at hnot ⊢
  exact hplace (.inr fun target hlink => hnot target ((h.links _ _).mp hlink))

theorem entryLocation_ne {p q : Path} (h : p.name ≠ q.name) :
    tree.entryLocation p ≠ tree.entryLocation q := by
  intro heq
  rw [entryLocation, entryLocation] at heq
  exact h (List.singleton_inj.mp (List.append_inj_right' heq rfl))

end SameLinks

end FileTree

namespace Files

open FileTree

/-- What the conversion of a source can do to a tree with links. A link comes to be only where the
temporary file was one, and then its name is lost; other files stay or are removed. -/
structure Disturbs (output temporary : Location) (before after : FileTree) : Prop where
  working : after.working = before.working
  links : ∀ location target, after.get? location = some (.link target) →
    before.get? location = some (.link target) ∨
      location = output ∧ before.get? temporary = some (.link target)
  files : (∀ target, before.get? temporary ≠ some (.link target)) →
    ∀ location content, location ≠ output → location ≠ temporary →
      before.get? location = some (.file content) →
      after.get? location = some (.file content) ∨ after.get? location = none

/-- No links stand where an output and its temporary file go. -/
structure Plain (tree : FileTree) (output : Path) : Prop where
  entry : ∀ target, tree.get? (tree.entryLocation output) ≠ some (.link target)
  temporary : ∀ target, tree.get? (tree.entryLocation (temporaryOf output)) ≠ some (.link target)

theorem Plain.leadsTo_output {tree : FileTree} {output : Path} {directory : Location}
    (h : Plain tree output) (hname : ¬ IsDots output.name)
    (hleads : LeadsTo tree output.parent directory) :
    LeadsTo tree output (tree.entryLocation output) := by
  have hentry := hleads.entryLocation_child output.name
  rw [child_name_of_not_isDots hname] at hentry
  have hchild := hleads.child hname (hentry ▸ h.entry)
  rwa [child_name_of_not_isDots hname, ← hentry] at hchild

theorem Disturbs.refl (output temporary : Location) (tree : FileTree) :
    Disturbs output temporary tree tree :=
  ⟨rfl, fun _ _ => .inl, fun _ _ _ _ _ => .inl⟩

theorem Disturbs.erase {output temporary location : Location} {before after : FileTree}
    (h : Disturbs output temporary before after) (hroot : location ≠ []) :
    Disturbs output temporary before (after.erase location) where
  working := h.working
  links other target hlink := by
    rw [get?_erase _ _ _ hroot] at hlink
    split at hlink
    · cases hlink
    · exact h.links other target hlink
  files hplain other content houtput htemporary hfile := by
    rw [get?_erase _ _ _ hroot]
    split
    · exact .inr rfl
    · exact h.files hplain other content houtput htemporary hfile

theorem ne_nil_of_locate {tree : FileTree} {p : Path} {location : Location} {entry : Entry}
    (h : tree.locate .entry p = .ok (.taken location entry)) (hentry : entry ≠ .directory) :
    location ≠ [] := by
  rintro rfl
  have hget : tree.get? [] = some entry := locate_get? h
  exact hentry (Option.some.inj hget).symm

theorem Disturbs.removeFile {output temporary : Location} {before between after : FileTree}
    {p : Path} (h : Disturbs output temporary before between)
    (hremove : between.removeFile p = .ok after) : Disturbs output temporary before after := by
  obtain ⟨location, entry, hlocate, hentry, rfl⟩ := removeFile_ok hremove
  exact h.erase (ne_nil_of_locate hlocate hentry)

theorem outputPath_name {source output : Path} {outputDirectory : Option String}
    {root : Option Path} (h : outputPath source outputDirectory root = .ok output) :
    output.name = source.stem ++ outputSuffix := by
  rw [outputPath] at h
  split at h
  · obtain ⟨-, rfl⟩ := withName_eq_ok h
    simp [Path.name, Path.child]
  · cases h
    simp [Path.name]

theorem not_isDots_outputName {source output : Path} {outputDirectory : Option String}
    {root : Option Path} (h : outputPath source outputDirectory root = .ok output) :
    ¬ IsDots output.name :=
  not_isDots_of_ending (by decide : ".erb" ∈ writtenEndings)
    (outputPath_name h ▸ outputName_ending source)

theorem temporaryOf_name (output : Path) :
    (temporaryOf output).name = output.name ++ temporarySuffix := by
  simp [temporaryOf, Path.name, Path.child]

theorem temporaryOf_ending (output : Path) :
    ".tmp".toList <:+ (temporaryOf output).name.toList := by
  rw [temporaryOf_name, String.toList_append]
  exact List.IsSuffix.trans (by decide) (List.suffix_append _ _)

theorem not_isDots_temporaryName (output : Path) : ¬ IsDots (temporaryOf output).name :=
  not_isDots_of_ending (by decide) (temporaryOf_ending output)

theorem entryLocation_temporaryOf (tree : FileTree) (output : Path) :
    tree.entryLocation (temporaryOf output) ≠ tree.entryLocation output := by
  refine entryLocation_ne ?_
  simp [temporaryOf_name, temporarySuffix]

theorem fills_prepares (before : FileTree) (keep : Bool) (source output : Path) :
    Prepares (fun _ => Fills before) keep source output where
  directories tree hfills := hfills.trans (createDirectories_fills tree output.parent)
  without _ hfills _ := hfills
  backup _ _ _ hfills hsearch hcopy := hfills.trans (fills_of_backup hsearch hcopy)

section Sites

variable {before between written placed after : FileTree} {source output : Path}
  {content : Text.Bytes}

theorem written_sameLinks (hfills : Fills before between)
    (hwritten : written = between ∨
      between.writeFile (temporaryOf output) content = .ok written) :
    SameLinks before written := by
  cases hwritten with
  | inl heq => exact heq ▸ hfills.sameLinks
  | inr hwrite => exact hfills.sameLinks.trans (writeFile_sameLinks hwrite)

/-- A temporary file that is not a link is written where its path says. -/
theorem written_eq_set (hfills : Fills before between)
    (hplain : ∀ target,
      before.get? (before.entryLocation (temporaryOf output)) ≠ some (.link target))
    (hwrite : between.writeFile (temporaryOf output) content = .ok written) :
    before.entryLocation (temporaryOf output) ≠ [] ∧
      written = between.set (before.entryLocation (temporaryOf output)) (.file content) := by
  obtain ⟨place, hlocate, hfile, rfl⟩ := writeFile_ok hwrite
  obtain ⟨hroot, -⟩ := locate_file hlocate hfile
  rw [← hfills.sameLinks.locate_unlinked (not_isDots_temporaryName output) hplain hlocate]
  exact ⟨hroot, rfl⟩

theorem written_files (hfills : Fills before between)
    (hwritten : written = between ∨
      between.writeFile (temporaryOf output) content = .ok written)
    (hplain : ∀ target,
      before.get? (before.entryLocation (temporaryOf output)) ≠ some (.link target))
    {location : Location} {old : Text.Bytes}
    (hother : location ≠ before.entryLocation (temporaryOf output))
    (hfile : before.get? location = some (.file old)) :
    written.get? location = some (.file old) := by
  have hbetween := hfills.kept location _ hfile
  cases hwritten with
  | inl heq => exact heq ▸ hbetween
  | inr hwrite =>
      obtain ⟨hroot, heq⟩ := written_eq_set hfills hplain hwrite
      rwa [heq, get?_set _ _ _ _ hroot, if_neg hother]

/-- The temporary file, or the link that stands there, takes the place of the output. -/
theorem rename_eq_set (hsame : SameLinks before written) (hname : ¬ IsDots output.name)
    (hplaced : written.rename (temporaryOf output) output = .ok placed) :
    (∃ directory, LeadsTo before output.parent directory) ∧
      ∃ entry ≠ .directory,
        written.get? (before.entryLocation (temporaryOf output)) = some entry ∧
        placed = (written.erase (before.entryLocation (temporaryOf output))).set
          (before.entryLocation output) entry := by
  obtain ⟨location, entry, place, htemporary, hentry, houtput, -, hafter⟩ := rename_ok hplaced
  obtain ⟨hleads, hplace⟩ := hsame.locate_entry hname houtput
  have hlocation : location = before.entryLocation (temporaryOf output) :=
    (hsame.locate_entry (not_isDots_temporaryName output) htemporary).2
  have hget : written.get? location = some entry := locate_get? htemporary
  rw [hplace, hlocation] at hafter
  rw [hlocation] at hget
  exact ⟨hleads, entry, hentry, hget, hafter.resolve_left fun hboth =>
    entryLocation_temporaryOf before output hboth.1⟩

theorem disturbs_of_written (hfills : Fills before between)
    (hwritten : written = between ∨
      between.writeFile (temporaryOf output) content = .ok written) :
    Disturbs (before.entryLocation output) (before.entryLocation (temporaryOf output)) before
      written where
  working := (written_sameLinks hfills hwritten).working
  links _ _ hlink := .inl (((written_sameLinks hfills hwritten).links _ _).mp hlink)
  files hplain _ _ _ hother hfile :=
    .inl (written_files hfills hwritten hplain hother hfile)

theorem disturbs_of_placed (hfills : Fills before between) (hname : ¬ IsDots output.name)
    (hwrite : between.writeFile (temporaryOf output) content = .ok written)
    (hplaced : written.rename (temporaryOf output) output = .ok placed) :
    Disturbs (before.entryLocation output) (before.entryLocation (temporaryOf output)) before
      placed := by
  have hsame := written_sameLinks hfills (.inr hwrite)
  have hdisturbs := disturbs_of_written hfills (.inr hwrite)
  obtain ⟨-, entry, hentry, hget, rfl⟩ := rename_eq_set hsame hname hplaced
  have hroot : before.entryLocation output ≠ [] := by simp [entryLocation]
  have herased := hdisturbs.erase (by simp [entryLocation] :
    before.entryLocation (temporaryOf output) ≠ [])
  refine ⟨herased.working, fun location target hlink => ?_,
    fun hplain location old houtput htemporary hfile => ?_⟩
  · rw [get?_set _ _ _ _ hroot] at hlink
    split at hlink
    · rw [hlink] at hget
      exact .inr ⟨‹_›, (hsame.links _ _).mp hget⟩
    · exact herased.links location target hlink
  · rw [get?_set _ _ _ _ hroot, if_neg houtput]
    exact herased.files hplain location old houtput htemporary hfile

/-- However the writing of an output ends, it disturbs no more than this. -/
theorem WriteOutcome.disturbs {delete : Bool} {result : Except Trouble Written}
    (hname : ¬ IsDots output.name)
    (h : WriteOutcome (fun _ => Fills before) source output content delete result after) :
    Disturbs (before.entryLocation output) (before.entryLocation (temporaryOf output)) before
      after := by
  cases h with
  | failed hfills hwritten hcleared =>
      have hdisturbs := disturbs_of_written hfills hwritten
      cases hcleared with
      | inl heq => exact heq ▸ hdisturbs
      | inr hremove => exact hdisturbs.removeFile hremove
  | placed hfills hwrite hplaced _ => exact disturbs_of_placed hfills hname hwrite hplaced
  | deleted _ hfills hwrite hplaced _ _ _ hdeleted =>
      exact (disturbs_of_placed hfills hname hwrite hplaced).removeFile hdeleted

/-- A temporary file that is not a link becomes the output, and all else stays. -/
theorem placed_get? (hfills : Fills before between)
    (hplain : ∀ target,
      before.get? (before.entryLocation (temporaryOf output)) ≠ some (.link target))
    (hname : ¬ IsDots output.name)
    (hwrite : between.writeFile (temporaryOf output) content = .ok written)
    (hplaced : written.rename (temporaryOf output) output = .ok placed) (location : Location) :
    placed.get? location =
      if location = before.entryLocation output then some (.file content)
      else if location = before.entryLocation (temporaryOf output) then none
      else between.get? location := by
  have hroot : ∀ p, before.entryLocation p ≠ [] := by simp [entryLocation]
  obtain ⟨-, entry, -, hget, rfl⟩ :=
    rename_eq_set (written_sameLinks hfills (.inr hwrite)) hname hplaced
  obtain ⟨-, rfl⟩ := written_eq_set hfills hplain hwrite
  rw [get?_set _ _ _ _ (hroot _), if_pos rfl] at hget
  cases hget
  rw [get?_set _ _ _ _ (hroot _), get?_erase _ _ _ (hroot _), get?_set _ _ _ _ (hroot _)]
  split
  · rfl
  split <;> rfl

/-- Where no links stand in the way, the output is in place, and paths lead where they led. -/
theorem placed_holds (hplain : Plain before output) (hfills : Fills before between)
    (hname : ¬ IsDots output.name)
    (hwrite : between.writeFile (temporaryOf output) content = .ok written)
    (hplaced : written.rename (temporaryOf output) output = .ok placed) :
    placed.get? (before.entryLocation output) = some (.file content) ∧
      SameLinks before placed := by
  have hget := placed_get? hfills hplain.temporary hname hwrite hplaced
  have hdisturbs := disturbs_of_placed hfills hname hwrite hplaced
  refine ⟨by rw [hget, if_pos rfl], hdisturbs.working,
    fun location target => ⟨fun hlink => ?_, fun hlink => ?_⟩⟩
  · exact (hdisturbs.links location target hlink).resolve_right fun hboth =>
      hplain.temporary target hboth.2
  · have houtput : location ≠ before.entryLocation output := fun heq =>
      hplain.entry target (heq ▸ hlink)
    have htemporary : location ≠ before.entryLocation (temporaryOf output) := fun heq =>
      hplain.temporary target (heq ▸ hlink)
    rw [hget, if_neg houtput, if_neg htemporary]
    exact (hfills.sameLinks.links location target).mpr hlink

/-- A source that was deleted is not the output that was put in place. -/
theorem WriteOutcome.holds {delete : Bool} {result : Written} (hplain : Plain before output)
    (hname : ¬ IsDots output.name)
    (h : WriteOutcome (fun _ => Fills before) source output content delete (.ok result) after) :
    after.get? (before.entryLocation output) = some (.file content) := by
  cases h with
  | placed hfills hwrite hplaced _ => exact (placed_holds hplain hfills hname hwrite hplaced).1
  | @deleted _ between written placed _ place place' _ hfills hwrite hplaced hsource houtput hother
      hdeleted =>
      obtain ⟨hfile, hsame⟩ := placed_holds hplain hfills hname hwrite hplaced
      obtain ⟨location, entry, hlocate, hentry, rfl⟩ := removeFile_ok hdeleted
      have hget : placed.get? location = some entry := locate_get? hlocate
      by_cases hsite : before.entryLocation output = location
      · -- both paths lead to the entry, so they are resolved to the same path
        subst hsite
        cases hfile.symm.trans hget
        have hleadsSource : LeadsTo placed source (before.entryLocation output) :=
          leadsTo_of_locate hlocate (by simp [Place.entry?])
        obtain ⟨directory, hleads⟩ :=
          (rename_eq_set (written_sameLinks hfills (.inr hwrite)) hname hplaced).1
        have hlater := (hplain.leadsTo_output hname hleads).later hsame.working hsame.links
        exact absurd ((hleadsSource.resolve_eq hsource).trans
          (hlater.resolve_eq houtput).symm) hother
      · rwa [get?_erase _ _ _ (ne_nil_of_locate hlocate hentry), if_neg hsite]

end Sites

end Files

end SlimTemplate
