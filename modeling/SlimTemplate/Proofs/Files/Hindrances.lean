import SlimTemplate.Proofs.FileTree.Failure
import SlimTemplate.Proofs.Files.Placement

/-!
What can hinder the writing of an output. Most failures of the file system are foreseen; a fault
comes only from names that are too long, from null bytes in the output directory, from a directory
in the place of the temporary file, and from links in the places of the output and its temporary
file if the source is to be deleted.
-/

namespace SlimTemplate

theorem Trouble.ofOs_of_nullByte {foreseen : OsError → Failure} {e : OsError}
    (h : e.errno = .nullByte) : Trouble.ofOs foreseen e = .fault (.os e) :=
  if_pos h

theorem Trouble.ofOs_of_ne {foreseen : OsError → Failure} {e : OsError}
    (h : e.errno ≠ .nullByte) : Trouble.ofOs foreseen e = .failure (foreseen e) :=
  if_neg h

namespace Files

open FileTree

def backupPath (source : Path) (n : Nat) : Path :=
  source.parent.child (backupName source.name n)

/-- The temporary file of an output can be removed if it is there. -/
structure Clears (tree : FileTree) (output : Path) : Prop where
  short : tree.locate .target (temporaryOf output) ≠ .error .nameTooLong
  free : ∀ location, tree.locate .entry (temporaryOf output) ≠ .ok (.taken location .directory)

inductive WriteHindrance (tree : FileTree) (source output : Path) (content : Text.Bytes)
    (keep delete : Bool) : Fault → Prop
  | nullByte (h : output.parent.hasNull = true) :
      WriteHindrance tree source output content keep delete
        (.os ⟨.nullByte, output.parent.text, none⟩)
  | backupName {made : FileTree} {n : Nat} (hkeep : keep = true)
      (hmade : tree.createDirectories output.parent = (made, .ok ()))
      (hused : ∀ i < n, made.isPresent (backupPath source i) = .ok true)
      (h : made.locate .target (backupPath source n) = .error .nameTooLong) :
      WriteHindrance tree source output content keep delete
        (.os ⟨.nameTooLong, (backupPath source n).text, none⟩)
  | temporaryName {backup : Option Path} {prepared : FileTree}
      (hprepared : Prepared tree source output keep backup prepared)
      (h : prepared.locate .target (temporaryOf output) = .error .nameTooLong) :
      WriteHindrance tree source output content keep delete
        (.os ⟨.nameTooLong, (temporaryOf output).text, none⟩)
  | temporaryDirectory {backup : Option Path} {prepared : FileTree} {location : Location}
      (hprepared : Prepared tree source output keep backup prepared)
      (h : prepared.locate .entry (temporaryOf output) = .ok (.taken location .directory)) :
      WriteHindrance tree source output content keep delete
        (.os ⟨.isDirectory, (temporaryOf output).text, none⟩)
  | link {backup : Option Path} {prepared placed : FileTree} {fault : Fault}
      (hdelete : delete = true) (hplain : ¬ Plain tree output)
      (hprepared : Prepared tree source output keep backup prepared)
      (hplaced : PlacingEnding prepared output content (.ok ()) placed)
      (h : DeletionEnding placed source output (.error (.fault fault)) placed) :
      WriteHindrance tree source output content keep delete fault

inductive WriteSetback (tree : FileTree) (source output : Path) (content : Text.Bytes)
    (keep delete : Bool) : Failure → Prop
  | directory {made : FileTree} {e : OsError} (hnull : output.parent.hasNull = false)
      (h : tree.createDirectories output.parent = (made, .error e)) :
      WriteSetback tree source output content keep delete (.directory output.parent e)
  | backup {made : FileTree} {path : Path} {e : OsError} (hkeep : keep = true)
      (hmade : tree.createDirectories output.parent = (made, .ok ()))
      (hpath : freeBackup made source (made.entries.length + 1) 0 = .ok path)
      (h : made.copyFile source path = .error e) :
      WriteSetback tree source output content keep delete (.backup source e)
  | write {backup : Option Path} {prepared between : FileTree} {e : OsError}
      (hprepared : Prepared tree source output keep backup prepared)
      (hclears : Clears prepared output)
      (h : placeFile prepared (temporaryOf output) output content = (between, .error e)) :
      WriteSetback tree source output content keep delete (.write output e)
  | deletion {backup : Option Path} {prepared placed : FileTree} {e : OsError}
      (hdelete : delete = true) (hprepared : Prepared tree source output keep backup prepared)
      (hplaced : PlacingEnding prepared output content (.ok ()) placed)
      (h : DeletionEnding placed source output (.error (.failure (.deletion source e))) placed) :
      WriteSetback tree source output content keep delete (.deletion source e)

section Backup

variable {tree : FileTree} {p : Path} {fault : Fault} {fuel n m : Nat}

theorem withName_backupName (hparts : p.parts ≠ []) (n : Nat) :
    p.withName (backupName p.name n) = .ok (backupPath p n) :=
  if_neg hparts

/-- The search for a backup name is ended by a name that is too long only. -/
theorem freeBackup_eq_error (hparts : p.parts ≠ []) (h : freeBackup tree p fuel n = .error fault) :
    ∃ m, (∀ i, n ≤ i → i < m → tree.isPresent (backupPath p i) = .ok true) ∧
      tree.locate .target (backupPath p m) = .error .nameTooLong ∧
      fault = .os ⟨.nameTooLong, (backupPath p m).text, none⟩ := by
  induction fuel generalizing n with
  | zero =>
      rw [freeBackup, withName_backupName hparts] at h
      cases h
  | succ fuel ih =>
      rw [freeBackup, withName_backupName hparts] at h
      dsimp only at h
      split at h
      · rename_i e herror
        cases h
        obtain ⟨hlong, rfl⟩ := probe_eq_error_iff.mp herror
        exact ⟨n, fun i hle hlt => absurd hle (Nat.not_le.mpr hlt), hlong, rfl⟩
      · cases h
      · rename_i hpresent
        obtain ⟨m, hused, hlong, hfault⟩ := ih h
        refine ⟨m, fun i hle hlt => ?_, hlong, hfault⟩
        by_cases hfirst : i = n
        · exact hfirst ▸ hpresent
        · exact hused i (by omega) hlt

/-- The search goes past the names that are in use. -/
theorem freeBackup_of_used {d : Nat} (hparts : p.parts ≠ [])
    (hused : ∀ i, n ≤ i → i < n + d → tree.isPresent (backupPath p i) = .ok true) :
    freeBackup tree p (fuel + d) n = freeBackup tree p fuel (n + d) := by
  induction d generalizing n with
  | zero => rfl
  | succ d ih =>
      have hfirst := hused n (Nat.le_refl n) (by omega)
      rw [← Nat.add_assoc fuel, freeBackup, withName_backupName hparts]
      dsimp only
      rw [hfirst]
      dsimp only
      rw [ih fun i hle hlt => hused i (by omega) (by omega), Nat.add_assoc, Nat.add_comm 1]

theorem freeBackup_of_tooLong (hparts : p.parts ≠ []) (hn : n ≤ m) (hm : m < n + fuel)
    (hused : ∀ i, n ≤ i → i < m → tree.isPresent (backupPath p i) = .ok true)
    (hlong : tree.locate .target (backupPath p m) = .error .nameTooLong) :
    freeBackup tree p fuel n =
      .error (.os ⟨.nameTooLong, (backupPath p m).text, none⟩) := by
  obtain ⟨d, rfl⟩ := Nat.exists_eq_add_of_le hn
  obtain ⟨more, rfl⟩ : ∃ more, fuel = more + 1 + d := ⟨fuel - 1 - d, by omega⟩
  rw [freeBackup_of_used hparts hused, freeBackup, withName_backupName hparts]
  dsimp only
  rw [isPresent, probe_eq_error_iff.mpr ⟨hlong, rfl⟩]

end Backup

/-- What is known when the writing of an output begins: the source is a file, and the path of the
output is not too long. -/
structure Begins (tree : FileTree) (source output : Path) : Prop where
  name : output.name = source.stem ++ outputSuffix
  parts : source.parts ≠ []
  isFile : ∃ location bytes, tree.locate .target source = .ok (.taken location (.file bytes))
  short : tree.locate .target output ≠ .error .nameTooLong

section Begins

variable {tree made prepared placed after : FileTree} {source output : Path}
  {content : Text.Bytes} {keep delete : Bool} {trouble : Trouble} {backup : Option Path}

theorem Begins.not_isDots (h : Begins tree source output) : ¬ IsDots output.name := by
  have hending : ".erb" ∈ writtenEndings := by decide
  exact not_isDots_of_ending hending (h.name ▸ outputName_ending source)

theorem Begins.child_name (h : Begins tree source output) :
    output.parent.child output.name = output :=
  child_name_of_not_isDots h.not_isDots

theorem Begins.output_parts (h : Begins tree source output) : output.parts ≠ [] := by
  rw [← h.child_name]
  simp [Path.child]

theorem Begins.source_null (h : Begins tree source output) : source.hasNull = false := by
  obtain ⟨location, bytes, hlocate⟩ := h.isFile
  exact hasNull_of_locate hlocate

theorem Begins.name_null (h : Begins tree source output) : '\x00' ∉ source.name.toList := by
  intro hnull
  have hmem : source.name ∈ source.parts := by
    rw [Path.name, List.getLast?_eq_getLast_of_ne_nil h.parts]
    exact List.getLast_mem h.parts
  have hsource := h.source_null
  simp only [Path.hasNull, List.any_eq_false] at hsource
  exact hsource _ hmem (by simpa using hnull)

theorem hasNull_backupPath {p : Path} (hnull : p.hasNull = false) (hname : '\x00' ∉ p.name.toList)
    (n : Nat) : (backupPath p n).hasNull = false := by
  rw [backupPath, Path.hasNull_child, Path.hasNull_parent hnull]
  simpa using notMem_backupName n (by decide) (by decide) hname

/-- Null bytes can only come from the directory of the output. -/
theorem Begins.output_null (h : Begins tree source output) :
    output.hasNull = output.parent.hasNull ∧
      (temporaryOf output).hasNull = output.parent.hasNull := by
  have hstem : '\x00' ∉ output.name.toList := by
    rw [h.name, String.toList_append, List.mem_append]
    rintro (hmem | hmem)
    · rw [Path.stem, String.toList_ofList] at hmem
      exact h.name_null (stemOf_subset _ hmem)
    · revert hmem
      decide
  have hsuffix : '\x00' ∉ temporarySuffix.toList := by decide
  constructor
  · conv_lhs => rw [← h.child_name]
    rw [Path.hasNull_child]
    simp [hstem]
  · rw [temporaryOf, Path.hasNull_child]
    simp [hstem, hsuffix]

theorem Begins.directory_seen (h : Begins tree source output) (e : OsError) :
    tree.isDirectory output.parent ≠ .error e := by
  intro herror
  obtain ⟨hlong, -⟩ := probe_eq_error_iff.mp herror
  have hnull : output.parent.hasNull = false := by
    rw [← Bool.not_eq_true]
    intro hnull
    rw [locate, if_pos hnull] at hlong
    cases hlong
  have hsize : 0 < output.name.utf8ByteSize := by
    rw [h.name, String.utf8ByteSize_append]
    exact Nat.add_pos_right _ (by decide)
  have hchild := h.child_name
  have houtput := h.output_null.1
  rw [hnull, ← hchild] at houtput
  have hlonger := locate_child_tooLong hsize houtput hlong
  rw [hchild] at hlonger
  exact h.short hlonger

theorem Begins.later (h : Begins tree source output) (hfills : Fills tree after) :
    ∃ location bytes, after.locate .target source = .ok (.taken location (.file bytes)) := by
  obtain ⟨location, bytes, hlocate⟩ := h.isFile
  have hentry : after.get? location = some (.file bytes) :=
    hfills.kept _ _ (locate_get? hlocate)
  exact ⟨location, bytes, hfills.retains.locate_taken hlocate hentry (by simp)⟩

theorem Begins.present_later (h : Begins tree source output) (hfills : Fills tree after) :
    after.isPresent source = .ok true := by
  obtain ⟨location, bytes, hlocate⟩ := h.later hfills
  exact isPresent_eq_true hlocate

theorem DirectoryEnding.eq_ok (h : DirectoryEnding tree output.parent (.ok ()) made) :
    tree.createDirectories output.parent = (made, .ok ()) := by
  cases h with
  | made _ hmade => exact hmade

theorem DirectoryEnding.fills {result : Except Trouble Unit}
    (h : DirectoryEnding tree output.parent result made) : Fills tree made := by
  have hfills := createDirectories_fills tree output.parent
  cases h with
  | unseen _ => exact Fills.refl tree
  | failed _ heq | made _ heq => rwa [heq] at hfills

theorem Prepared.made_fills (h : Prepared tree source output keep backup prepared) :
    ∃ made, DirectoryEnding tree output.parent (.ok ()) made ∧ Fills made prepared := by
  cases h with
  | plain hmade _ => exact ⟨_, hmade, Fills.refl _⟩
  | backedUp hmade _ hbackup =>
      refine ⟨_, hmade, ?_⟩
      cases hbackup with
      | absent _ => exact Fills.refl _
      | copied _ hpath hcopy => exact fills_of_backup hpath hcopy

theorem Prepared.fills (h : Prepared tree source output keep backup prepared) :
    Fills tree prepared := by
  obtain ⟨made, hmade, hfills⟩ := h.made_fills
  exact hmade.fills.trans hfills

theorem Prepared.housed (h : Prepared tree source output keep backup prepared)
    (htree : tree.Housed) : prepared.Housed := by
  have hmade : ∀ {made}, DirectoryEnding tree output.parent (.ok ()) made → made.Housed := by
    intro made hmade
    have hhoused := htree.createDirectories output.parent
    rwa [hmade.eq_ok] at hhoused
  cases h with
  | plain hdirectory _ => exact hmade hdirectory
  | backedUp hdirectory _ hbackup =>
      cases hbackup with
      | absent _ => exact hmade hdirectory
      | copied _ _ hcopy =>
          obtain ⟨bytes, -, hwrite⟩ := copyFile_eq_ok hcopy
          exact (hmade hdirectory).writeFile hwrite

/-- The directory of the output is there when the output is written. -/
theorem Prepared.isWritable (h : Prepared tree source output keep backup prepared) :
    prepared.isWritable output.parent = .ok true := by
  obtain ⟨made, hmade, hfills⟩ := h.made_fills
  have hfound : made.isDirectory output.parent = .ok true := by
    have hmade := createDirectories_isDirectory (congrArg Prod.snd hmade.eq_ok)
    rwa [DirectoryEnding.eq_ok ‹_›] at hmade
  obtain ⟨location, entry, hlocate, htest⟩ := probe_eq_true hfound
  obtain rfl := beq_iff_eq.mp htest
  have hkept := hfills.kept _ _ (locate_get? hlocate)
  rw [FileTree.isWritable, hfills.retains.locate_taken hlocate hkept (by simp)]

theorem Prepared.output_null (h : Prepared tree source output keep backup prepared)
    (hbegins : Begins tree source output) :
    output.hasNull = false ∧ (temporaryOf output).hasNull = false := by
  obtain ⟨made, hmade⟩ := h.exists_made
  have hparent : output.parent.hasNull = false := by
    rw [← Bool.not_eq_true]
    intro hnull
    cases (createDirectories_of_hasNull hnull).symm.trans hmade.eq_ok
  exact ⟨hbegins.output_null.1.trans hparent, hbegins.output_null.2.trans hparent⟩

/-- A file that could not be placed was refused by the file system, not for a null byte. -/
theorem Prepared.ofOs (h : Prepared tree source output keep backup prepared)
    (hbegins : Begins tree source output) {between : FileTree} {e : OsError}
    (hfailed : placeFile prepared (temporaryOf output) output content = (between, .error e)) :
    Trouble.ofOs (.write output) e = .failure (.write output e) := by
  obtain ⟨houtput, htemporary⟩ := h.output_null hbegins
  refine Trouble.ofOs_of_ne ?_
  rcases placeFile_eq_error hfailed with ⟨hwrite, -⟩ | ⟨-, hrename⟩
  · exact writeFile_errno htemporary hwrite
  · exact rename_errno htemporary houtput hrename

end Begins

section Placing

variable {tree between after : FileTree} {output : Path} {content : Text.Bytes} {e : OsError}
  {trouble : Trouble}

theorem Clears.removeFile (h : Clears tree output)
    (hpresent : tree.isPresent (temporaryOf output) = .ok true) :
    ∃ after, tree.removeFile (temporaryOf output) = .ok after := by
  obtain ⟨location, entry, htarget, -⟩ := probe_eq_true hpresent
  obtain ⟨location', entry', hentry, -⟩ := locate_entry_of_target htarget
  have hnot : entry' ≠ .directory := by
    rintro rfl
    exact h.free location' hentry
  exact ⟨_, removeFile_of_taken hentry hnot⟩

/-- Nothing hinders the removal of a temporary file that was written. -/
theorem Clears.of_writeFile (h : tree.writeFile (temporaryOf output) content = .ok between) :
    Clears tree output ∧ Clears between output := by
  obtain ⟨location, hlocate⟩ := locate_of_writeFile h
  obtain ⟨hshort, hfree⟩ := site_of_writeFile h
  refine ⟨⟨hshort, hfree⟩, by simp [hlocate], fun location' hdirectory => ?_⟩
  cases hlocate.symm.trans (locate_target_of_entry hdirectory (by simp))

theorem Clears.of_placeFile (h : Clears tree output)
    (hfailed : placeFile tree (temporaryOf output) output content = (between, .error e)) :
    Clears between output := by
  rcases placeFile_eq_error hfailed with ⟨-, rfl⟩ | ⟨hwrite, -⟩
  · exact h
  · exact (Clears.of_writeFile hwrite).2

/-- Where the removal is hindered, the temporary file was not written. -/
theorem placeFile_of_not_clears (content : Text.Bytes) (h : ¬ Clears tree output) :
    ∃ e, placeFile tree (temporaryOf output) output content = (tree, .error e) := by
  rw [placeFile]
  cases hwrite : tree.writeFile (temporaryOf output) content with
  | error e => exact ⟨e, rfl⟩
  | ok written => exact absurd (Clears.of_writeFile hwrite).1 h

section Ending

variable (haccess : tree.isWritable output.parent = .ok true) (hname : output.parts ≠ [])

include haccess hname

theorem PlacingEnding.of_tooLong
    (h : tree.locate .target (temporaryOf output) = .error .nameTooLong) :
    PlacingEnding tree output content
      (.error (.fault (.os ⟨.nameTooLong, (temporaryOf output).text, none⟩))) tree := by
  obtain ⟨e, hfailed⟩ := placeFile_of_not_clears content fun hclears => hclears.short h
  exact .lost haccess hname hfailed (probe_eq_error_iff.mpr ⟨h, rfl⟩)

theorem PlacingEnding.of_directory {location : Location}
    (h : tree.locate .entry (temporaryOf output) = .ok (.taken location .directory)) :
    PlacingEnding tree output content
      (.error (.fault (.os ⟨.isDirectory, (temporaryOf output).text, none⟩))) tree := by
  obtain ⟨e, hfailed⟩ := placeFile_of_not_clears content fun hclears =>
    hclears.free location h
  have hpresent := isPresent_eq_true (locate_target_of_entry h (by simp))
  exact .stuck haccess hname hfailed hpresent (removeFile_of_directory h)

theorem PlacingEnding.of_failed (h : Clears tree output)
    (hfailed : placeFile tree (temporaryOf output) output content = (between, .error e)) :
    ∃ after, PlacingEnding tree output content (.error (.ofOs (.write output) e)) after := by
  have hbetween := h.of_placeFile hfailed
  cases hpresent : between.isPresent (temporaryOf output) with
  | error e => exact absurd (probe_eq_error_iff.mp hpresent).1 hbetween.short
  | ok present =>
      cases present with
      | false => exact ⟨_, .clear haccess hname hfailed hpresent⟩
      | true =>
          obtain ⟨after, hremove⟩ := hbetween.removeFile hpresent
          exact ⟨after, .cleared haccess hname hfailed hpresent hremove⟩

end Ending

end Placing

section Ending

variable {tree prepared placed after : FileTree} {source output : Path} {content : Text.Bytes}
  {keep delete : Bool} {backup : Option Path} {fault : Fault} {failure : Failure}

theorem Begins.directoryEnding (h : Begins tree source output) {made : FileTree}
    (hmade : tree.createDirectories output.parent = (made, .ok ())) :
    DirectoryEnding tree output.parent (.ok ()) made :=
  .made h.directory_seen hmade

/-- A hindrance ends the writing with its fault. -/
theorem WriteHindrance.ending (h : WriteHindrance tree source output content keep delete fault)
    (hbegins : Begins tree source output) :
    ∃ after, OutputEnding tree source output content keep delete (.error (.fault fault)) after := by
  cases h with
  | nullByte hnull =>
      have hending := DirectoryEnding.failed hbegins.directory_seen
        (createDirectories_of_hasNull hnull)
      rw [Trouble.ofOs_of_nullByte rfl] at hending
      exact ⟨_, .directory hending⟩
  | @backupName made n hkeep hmade hused hlong =>
      have hmade := hbegins.directoryEnding hmade
      have hn : n ≤ made.entries.length := length_of_used fun i hi => by
        obtain ⟨location, entry, hlocate, -⟩ := probe_eq_true (hused i hi)
        exact ⟨location, entry, hlocate⟩
      have hfuel : n < 0 + (made.entries.length + 1) := by omega
      have hsearch := freeBackup_of_tooLong hbegins.parts (Nat.zero_le n) hfuel
        (fun i _ => hused i) hlong
      exact ⟨_, .backup hmade hkeep (.unnamed (hbegins.present_later hmade.fills) hsearch)⟩
  | temporaryName hprepared hlong =>
      exact ⟨_, .placing hprepared
        (.of_tooLong hprepared.isWritable hbegins.output_parts hlong)⟩
  | temporaryDirectory hprepared hdirectory =>
      exact ⟨_, .placing hprepared
        (.of_directory hprepared.isWritable hbegins.output_parts hdirectory)⟩
  | link hdelete _ hprepared hplaced hfault =>
      exact ⟨_, .deletion hprepared hplaced hdelete hfault⟩

theorem Begins.backup_errno (h : Begins tree source output) {made : FileTree} {path : Path}
    {e : OsError} (hfills : Fills tree made)
    (hpath : freeBackup made source (made.entries.length + 1) 0 = .ok path)
    (hcopy : made.copyFile source path = .error e) : e.errno ≠ .nullByte := by
  obtain ⟨location, bytes, hlocate⟩ := h.later hfills
  have hread : made.readFile source = .ok bytes := by
    rw [readFile, hlocate]
  obtain ⟨i, rfl, -⟩ := freeBackup_absent (by omega) (by simp) hpath
  exact copyFile_errno hread (hasNull_backupPath h.source_null h.name_null i) hcopy

/-- A setback ends the writing with its failure. -/
theorem WriteSetback.ending (h : WriteSetback tree source output content keep delete failure)
    (hbegins : Begins tree source output) :
    ∃ after, OutputEnding tree source output content keep delete (.error (.failure failure))
      after := by
  cases h with
  | directory hnull hfailed =>
      have herrno := createDirectories_errno hnull (congrArg Prod.snd hfailed)
      have hending := DirectoryEnding.failed hbegins.directory_seen hfailed
      rw [Trouble.ofOs_of_ne herrno] at hending
      exact ⟨_, .directory hending⟩
  | backup hkeep hmade hpath hcopy =>
      have hmade := hbegins.directoryEnding hmade
      have hending := BackupEnding.failed (hbegins.present_later hmade.fills) hpath hcopy
      rw [Trouble.ofOs_of_ne (hbegins.backup_errno hmade.fills hpath hcopy)] at hending
      exact ⟨_, .backup hmade hkeep hending⟩
  | write hprepared hclears hfailed =>
      obtain ⟨after, hending⟩ :=
        PlacingEnding.of_failed hprepared.isWritable hbegins.output_parts hclears hfailed
      rw [hprepared.ofOs hbegins hfailed] at hending
      exact ⟨after, .placing hprepared hending⟩
  | deletion hdelete hprepared hplaced hfailed =>
      exact ⟨_, .deletion hprepared hplaced hdelete hfailed⟩

/-- Without links in the way of the output, it is in place and paths lead where they led. -/
theorem PlacingEnding.retains (hplain : Plain tree output) (hname : ¬ IsDots output.name)
    (hprepared : Prepared tree source output keep backup prepared)
    (h : PlacingEnding prepared output content (.ok ()) placed) :
    Retains tree placed ∧ SameLinks tree placed ∧
      LeadsTo placed output (tree.entryLocation output) ∧
      placed.get? (tree.entryLocation output) = some (.file content) := by
  have hfills := hprepared.fills
  obtain ⟨written, hwrite, hrename⟩ := h.written
  obtain ⟨hholds, hsame⟩ := placed_holds hplain hfills hname hwrite hrename
  obtain ⟨directory, hleads⟩ :=
    (rename_eq_set (written_sameLinks hfills (.inr hwrite)) hname hrename).1
  refine ⟨⟨hsame.working, fun location hdirectory => ?_, fun location target =>
    (hsame.links location target).mpr⟩, hsame, ?_, hholds⟩
  · exact rename_directories hrename
      ((retains_writeFile hwrite).directories _ (hfills.kept location _ hdirectory))
  · exact (hplain.leadsTo_output hname hleads).later hsame.working hsame.links

theorem PlacingEnding.housed (hprepared : prepared.Housed)
    (h : PlacingEnding prepared output content (.ok ()) placed) : placed.Housed := by
  obtain ⟨written, hwrite, hrename⟩ := h.written
  exact (hprepared.writeFile hwrite).rename hrename

/-- Without links in the way of the output, the source and the output can be told apart, and only
the removal of the source itself can fail. -/
theorem Begins.deletion_ne_fault (h : Begins tree source output) (htree : tree.Housed)
    (hplain : Plain tree output) (hprepared : Prepared tree source output keep backup prepared)
    (hplaced : PlacingEnding prepared output content (.ok ()) placed) :
    ¬ DeletionEnding placed source output (.error (.fault fault)) after := by
  obtain ⟨location, bytes, hlocate⟩ := h.isFile
  obtain ⟨hretains, hsame, hleads, hholds⟩ := hplaced.retains hplain h.not_isDots hprepared
  have hhoused := hplaced.housed (hprepared.housed htree)
  have hnot : ∀ target, placed.get? location ≠ some (.link target) := by
    intro target hlink
    have hfile : tree.get? location = some (.file bytes) := locate_get? hlocate
    cases hfile.symm.trans ((hsame.links location target).mp hlink)
  have hanswer := hretains.isPresent hlocate hnot
  intro hending
  generalize hresult : (.error (.fault fault) : Except Trouble Bool) = result at hending
  cases hending with
  | absent _ | same _ _ _ | deleted _ _ _ _ _ => cases hresult
  | unseen herror => cases hanswer.symm.trans herror
  | unresolved hpresent herror =>
      rw [hanswer] at hpresent
      obtain ⟨entry, hentry⟩ := Option.isSome_iff_exists.mp (Except.ok.inj hpresent)
      have hplainEntry : ∀ target, entry ≠ .link target := fun target heq =>
        hnot target (heq ▸ hentry)
      have hsource := leadsTo_of_locate (hretains.locate_taken hlocate hentry hplainEntry)
        fun target heq => hplainEntry target (Option.some.inj heq)
      cases (hhoused.resolve_eq hsource h.source_null hentry hplainEntry).symm.trans herror
  | looped _ _ herror =>
      have hnull := (hprepared.output_null h).1
      cases (hhoused.resolve_eq hleads hnull hholds (by simp)).symm.trans herror
  | failed _ _ _ _ herror =>
      rw [Trouble.ofOs_of_ne (removeFile_errno h.source_null herror)] at hresult
      cases hresult

theorem exists_deletionEnding (tree : FileTree) (source output : Path) :
    ∃ result after, DeletionEnding tree source output result after :=
  ⟨_, _, deleteSource_ending ⟨tree, []⟩ source output⟩

theorem DeletionEnding.failure_eq {trouble : Trouble}
    (h : DeletionEnding tree source output (.error trouble) after) :
    after = tree ∧ ((∃ fault, trouble = .fault fault) ∨
      ∃ e, trouble = .failure (.deletion source e)) := by
  cases h with
  | unseen _ | unresolved _ _ | looped _ _ _ => exact ⟨rfl, .inl ⟨_, rfl⟩⟩
  | @failed _ _ e _ _ _ _ _ =>
      refine ⟨rfl, ?_⟩
      rw [Trouble.ofOs]
      split
      · exact .inl ⟨_, rfl⟩
      · exact .inr ⟨e, rfl⟩

inductive WritingCase (tree : FileTree) (source output : Path) (content : Text.Bytes)
    (keep delete : Bool) : Prop
  | hindered {fault : Fault} (h : WriteHindrance tree source output content keep delete fault)
  | setBack {failure : Failure} (h : WriteSetback tree source output content keep delete failure)
  | done {written : Written} {after : FileTree}
      (h : OutputEnding tree source output content keep delete (.ok written) after)

theorem Begins.deletion_cases (h : Begins tree source output) (htree : tree.Housed)
    (content : Text.Bytes) (delete : Bool)
    (hprepared : Prepared tree source output keep backup prepared)
    (hplaced : PlacingEnding prepared output content (.ok ()) placed) :
    WritingCase tree source output content keep delete := by
  cases hdelete : delete with
  | false => exact .done (.kept hprepared hplaced rfl)
  | true =>
      obtain ⟨result, after, hending⟩ := exists_deletionEnding placed source output
      cases result with
      | ok deleted => exact .done (.decided hprepared hplaced rfl hending)
      | error trouble =>
          obtain ⟨rfl, ⟨fault, rfl⟩ | ⟨e, rfl⟩⟩ := hending.failure_eq
          · have hplain : ¬ Plain tree output := fun hplain =>
              h.deletion_ne_fault htree hplain hprepared hplaced hending
            exact .hindered (.link rfl hplain hprepared hplaced hending)
          · exact .setBack (.deletion rfl hprepared hplaced hending)

theorem Begins.placing_cases (h : Begins tree source output) (htree : tree.Housed)
    (content : Text.Bytes) (delete : Bool)
    (hprepared : Prepared tree source output keep backup prepared) :
    WritingCase tree source output content keep delete := by
  by_cases hlong : prepared.locate .target (temporaryOf output) = .error .nameTooLong
  · exact .hindered (.temporaryName hprepared hlong)
  by_cases hdirectory :
      ∃ location, prepared.locate .entry (temporaryOf output) = .ok (.taken location .directory)
  · exact .hindered (.temporaryDirectory hprepared hdirectory.choose_spec)
  have hclears : Clears prepared output := ⟨hlong, fun location heq => hdirectory ⟨location, heq⟩⟩
  rcases hplace : placeFile prepared (temporaryOf output) output content with ⟨between, result⟩
  cases result with
  | error e => exact .setBack (.write hprepared hclears hplace)
  | ok _ =>
      exact h.deletion_cases htree content delete hprepared
        (.placed hprepared.isWritable h.output_parts hplace)

theorem Begins.writing_cases (h : Begins tree source output) (htree : tree.Housed)
    (content : Text.Bytes) (keep delete : Bool) :
    WritingCase tree source output content keep delete := by
  cases hnull : output.parent.hasNull with
  | true => exact .hindered (.nullByte hnull)
  | false =>
      rcases hmade : tree.createDirectories output.parent with ⟨made, result⟩
      cases result with
      | error e => exact .setBack (.directory hnull hmade)
      | ok _ =>
          have hending := h.directoryEnding hmade
          have hpresent := h.present_later hending.fills
          cases hkeep : keep with
          | false => exact h.placing_cases htree content delete (.plain hending rfl)
          | true =>
              cases hpath : freeBackup made source (made.entries.length + 1) 0 with
              | error fault =>
                  obtain ⟨n, hused, hlong, -⟩ := freeBackup_eq_error h.parts hpath
                  exact .hindered (.backupName rfl hmade (fun i => hused i (Nat.zero_le i)) hlong)
              | ok path =>
                  cases hcopy : made.copyFile source path with
                  | error e => exact .setBack (.backup rfl hmade hpath hcopy)
                  | ok after =>
                      exact h.placing_cases htree content delete
                        (.backedUp hending rfl (.copied hpresent hpath hcopy))

/-- The writing of an output ends with a fault exactly if it is hindered, and with a failure exactly
if it is set back. -/
theorem OutputEnding.trouble_iff {result : Except Trouble Written}
    (hbegins : Begins tree source output) (htree : tree.Housed)
    (h : OutputEnding tree source output content keep delete result after) :
    (∀ fault, result = .error (.fault fault) ↔
        WriteHindrance tree source output content keep delete fault) ∧
      ∀ failure, result = .error (.failure failure) ↔
        WriteSetback tree source output content keep delete failure := by
  have hhindered : ∀ fault, WriteHindrance tree source output content keep delete fault →
      result = .error (.fault fault) := by
    intro fault hhindrance
    obtain ⟨after, hending⟩ := hhindrance.ending hbegins
    exact hending.unique_error h
  have hsetback : ∀ failure, WriteSetback tree source output content keep delete failure →
      result = .error (.failure failure) := by
    intro failure hsetback
    obtain ⟨after, hending⟩ := hsetback.ending hbegins
    exact hending.unique_error h
  refine ⟨fun fault => ⟨fun heq => ?_, hhindered fault⟩,
    fun failure => ⟨fun heq => ?_, hsetback failure⟩⟩
  · cases hbegins.writing_cases htree content keep delete with
    | hindered hcase =>
        cases heq.symm.trans (hhindered _ hcase)
        exact hcase
    | setBack hcase => cases heq.symm.trans (hsetback _ hcase)
    | done hcase => cases unique_error (heq ▸ h) hcase
  · cases hbegins.writing_cases htree content keep delete with
    | hindered hcase => cases heq.symm.trans (hhindered _ hcase)
    | setBack hcase =>
        cases heq.symm.trans (hsetback _ hcase)
        exact hcase
    | done hcase => cases unique_error (heq ▸ h) hcase

end Ending

end Files

end SlimTemplate
