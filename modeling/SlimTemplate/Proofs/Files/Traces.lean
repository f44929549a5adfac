import SlimTemplate.Proofs.Files.Hindrances

/-!
What the writing of an output leaves in the files. Every location holds what it held, except that
directories and a backup may have come to be where nothing was, that the output may be in place,
and that the temporary file is gone.
-/

namespace SlimTemplate.Files

open FileTree

/-- No links stand where the temporary file and the backups of a conversion go, nor where the
output goes if the source is to be deleted. -/
structure Clear (tree : FileTree) (source output : Path) (delete : Bool) : Prop where
  temporary : ∀ target,
    tree.get? (tree.entryLocation (temporaryOf output)) ≠ some (.link target)
  backups : ∀ n target,
    tree.get? (tree.entryLocation (backupPath source n)) ≠ some (.link target)
  entry : delete = true → ∀ target, tree.get? (tree.entryLocation output) ≠ some (.link target)

/-- The source is not the temporary file of its output, nor a link to it. -/
def Apart (tree : FileTree) (source output : Path) : Prop :=
  ∀ location bytes, tree.locate .target source = .ok (.taken location (.file bytes)) →
    location ≠ tree.entryLocation (temporaryOf output)

theorem Clear.plain {tree : FileTree} {source output : Path} {delete : Bool}
    (h : Clear tree source output delete) (hdelete : delete = true) : Plain tree output :=
  ⟨h.entry hdelete, h.temporary⟩

/-- What a location holds once the directory of the output is there and the source is backed up:
what it held, or a directory or a copy of the source where nothing was. -/
inductive Trace (tree : FileTree) (source output : Path) (copies : Path → Prop)
    (after : FileTree) (location : Location) : Prop
  | same (h : after.get? location = tree.get? location)
  | directory (hnew : tree.isDirectory output.parent ≠ .ok true)
      (hfree : tree.get? location = none) (h : after.get? location = some .directory)
  | backup {path : Path} {bytes : Text.Bytes} (hpath : copies path)
      (hlocation : location = tree.entryLocation path) (hfree : tree.get? location = none)
      (hread : tree.readFile source = .ok bytes) (h : after.get? location = some (.file bytes))

section Trace

variable {tree made prepared placed after : FileTree} {source output path : Path}
  {copies copies' : Path → Prop} {content : Text.Bytes} {keep : Bool} {backup : Option Path}
  {trouble : Trouble} {location : Location}

theorem Trace.mono (h : Trace tree source output copies after location)
    (hcopies : ∀ path, copies path → copies' path) :
    Trace tree source output copies' after location := by
  cases h with
  | same h => exact .same h
  | directory hnew hfree h => exact .directory hnew hfree h
  | backup hpath hlocation hfree hread h => exact .backup (hcopies _ hpath) hlocation hfree hread h

theorem Trace.of_eq (h : Trace tree source output copies made location)
    (heq : after.get? location = made.get? location) :
    Trace tree source output copies after location := by
  cases h with
  | same h => exact .same (heq.trans h)
  | directory hnew hfree h => exact .directory hnew hfree (heq.trans h)
  | backup hpath hlocation hfree hread h => exact .backup hpath hlocation hfree hread (heq.trans h)

theorem createDirectories_get? (tree : FileTree) (p : Path) (location : Location) :
    (tree.createDirectories p).1.get? location = tree.get? location ∨
      tree.get? location = none ∧
        (tree.createDirectories p).1.get? location = some .directory := by
  refine createDirectories_keeps (R := fun after => after.get? location = tree.get? location ∨
    tree.get? location = none ∧ after.get? location = some .directory) (P := fun _ => True)
    (fun _ _ => trivial) ?_ trivial (.inl rfl)
  intro between after p _ hbetween hmade
  obtain ⟨directory, name, hlocate, rfl⟩ := createDirectory_ok hmade
  have hfree : between.get? (directory ++ [name]) = none := locate_get? hlocate
  rw [get?_set _ _ _ _ (by simp)]
  split
  · rename_i heq
    rw [heq] at hbetween ⊢
    rw [hfree] at hbetween
    rcases hbetween with hsame | ⟨-, hdirectory⟩
    · exact .inr ⟨hsame.symm, rfl⟩
    · cases hdirectory
  · exact hbetween

theorem trace_createDirectories (tree : FileTree) (source output : Path) (location : Location) :
    Trace tree source output (fun _ => False) (tree.createDirectories output.parent).1
      location := by
  by_cases hnew : tree.isDirectory output.parent = .ok true
  · rw [createDirectories_of_isDirectory hnew]
    exact .same rfl
  · rcases createDirectories_get? tree output.parent location with hsame | ⟨hfree, hmade⟩
    · exact .same hsame
    · exact .directory hnew hfree hmade

theorem Begins.readFile_later (h : Begins tree source output) (hfills : Fills tree after) :
    after.readFile source = tree.readFile source := by
  obtain ⟨location, bytes, hlocate⟩ := h.isFile
  have hentry := hfills.kept _ _ (locate_get? hlocate)
  rw [readFile, readFile, hlocate, hfills.retains.locate_taken hlocate hentry (by simp)]

theorem backupPath_name (source : Path) (n : Nat) :
    (backupPath source n).name = backupName source.name n := by
  simp [backupPath, Path.name, Path.child]

/-- A backup is a copy of the source, at a backup name where nothing was. -/
theorem Begins.backup_eq_set (h : Begins tree source output)
    (hplain : ∀ n target,
      tree.get? (tree.entryLocation (backupPath source n)) ≠ some (.link target))
    (hfills : Fills tree made)
    (hpath : freeBackup made source (made.entries.length + 1) 0 = .ok path)
    (hcopy : made.copyFile source path = .ok after) :
    ∃ n bytes, path = backupPath source n ∧ tree.readFile source = .ok bytes ∧
      tree.get? (tree.entryLocation path) = none ∧
      after = made.set (tree.entryLocation path) (.file bytes) := by
  obtain ⟨n, hcandidate, habsent⟩ := freeBackup_absent (by omega) (by simp) hpath
  obtain rfl : path = backupPath source n := hcandidate
  obtain ⟨bytes, hread, hwrite⟩ := copyFile_eq_ok hcopy
  obtain ⟨place, hlocate, -, rfl⟩ := writeFile_ok hwrite
  have hname : ¬ IsDots (backupPath source n).name := by
    rw [backupPath_name]
    exact not_isDots_backupName source.name n
  have hsite := hfills.sameLinks.locate_unlinked hname (hplain n) hlocate
  refine ⟨n, bytes, rfl, (h.readFile_later hfills).symm.trans hread, ?_, by rw [hsite]⟩
  cases place with
  | taken location entry => exact absurd (locate_target hlocate) (habsent location entry)
  | free directory name =>
      have hfree := locate_get? hlocate
      rw [hsite] at hfree
      cases hentry : tree.get? (tree.entryLocation (backupPath source n)) with
      | none => rfl
      | some entry => cases hfree.symm.trans (hfills.kept _ _ hentry)

theorem DirectoryEnding.trace {result : Except Trouble Unit}
    (h : DirectoryEnding tree output.parent result made) (source : Path) (location : Location) :
    Trace tree source output (fun _ => False) made location := by
  have htrace := trace_createDirectories tree source output location
  cases h with
  | unseen _ => exact .same rfl
  | failed _ heq | made _ heq => rwa [heq] at htrace

theorem Prepared.trace (h : Prepared tree source output keep backup prepared)
    (hbegins : Begins tree source output)
    (hplain : ∀ n target,
      tree.get? (tree.entryLocation (backupPath source n)) ≠ some (.link target))
    (location : Location) :
    Trace tree source output (fun path => backup = some path) prepared location := by
  cases h with
  | plain hmade _ => exact (hmade.trace source location).mono fun _ => False.elim
  | backedUp hmade _ hbackup =>
      cases hbackup with
      | absent _ => exact (hmade.trace source location).mono fun _ => False.elim
      | @copied path _ _ hpath hcopy =>
          obtain ⟨n, bytes, -, hread, hfree, rfl⟩ :=
            hbegins.backup_eq_set hplain hmade.fills hpath hcopy
          have hroot : tree.entryLocation path ≠ [] := by simp [entryLocation]
          by_cases hsite : location = tree.entryLocation path
          · refine .backup rfl hsite (hsite ▸ hfree) hread ?_
            rw [get?_set _ _ _ _ hroot, if_pos hsite]
          · refine Trace.of_eq ((hmade.trace source location).mono fun _ => False.elim) ?_
            rw [get?_set _ _ _ _ hroot, if_neg hsite]

theorem Prepared.backup_holds (h : Prepared tree source output keep (some path) prepared)
    (hbegins : Begins tree source output)
    (hplain : ∀ n target,
      tree.get? (tree.entryLocation (backupPath source n)) ≠ some (.link target)) :
    ∃ n bytes, path = backupPath source n ∧ tree.readFile source = .ok bytes ∧
      tree.get? (tree.entryLocation path) = none ∧
      prepared.get? (tree.entryLocation path) = some (.file bytes) := by
  cases h with
  | backedUp hmade _ hbackup =>
      cases hbackup with
      | copied _ hpath hcopy =>
          obtain ⟨n, bytes, hname, hread, hfree, rfl⟩ :=
            hbegins.backup_eq_set hplain hmade.fills hpath hcopy
          refine ⟨n, bytes, hname, hread, hfree, ?_⟩
          rw [get?_set _ _ _ _ (by simp [entryLocation]), if_pos rfl]

/-- Where an output could not be placed, at most its temporary file is gone. -/
theorem PlacingEnding.failed_get?
    (hplain : ∀ target, tree.get? (tree.entryLocation (temporaryOf output)) ≠ some (.link target))
    (hfills : Fills tree prepared)
    (h : PlacingEnding prepared output content (.error trouble) after) :
    Retains prepared after ∧ ∀ location, after.get? location = prepared.get? location ∨
      location = tree.entryLocation (temporaryOf output) ∧ after.get? location = none := by
  have hsame : Retains prepared prepared ∧ ∀ location,
      prepared.get? location = prepared.get? location ∨
        location = tree.entryLocation (temporaryOf output) ∧ prepared.get? location = none :=
    ⟨Retains.refl prepared, fun _ => .inl rfl⟩
  cases h with
  | unseen _ | noAccess _ | unnamed _ _ => exact hsame
  | lost _ _ hfailed herror =>
      rcases placeFile_eq_error hfailed with ⟨-, rfl⟩ | ⟨hwrite, -⟩
      · exact hsame
      · exact absurd (probe_eq_error_iff.mp herror).1 (Clears.of_writeFile hwrite).2.short
  | clear _ _ hfailed habsent =>
      rcases placeFile_eq_error hfailed with ⟨-, rfl⟩ | ⟨hwrite, -⟩
      · exact hsame
      · obtain ⟨location, hlocate⟩ := locate_of_writeFile hwrite
        cases habsent.symm.trans (isPresent_eq_true hlocate)
  | stuck _ _ hfailed hpresent herror =>
      rcases placeFile_eq_error hfailed with ⟨-, rfl⟩ | ⟨hwrite, -⟩
      · exact hsame
      · obtain ⟨removed, hremove⟩ := (Clears.of_writeFile hwrite).2.removeFile hpresent
        cases herror.symm.trans hremove
  | @cleared _ between _ _ _ hfailed _ hremove =>
      have hwritten : between = prepared ∨
          prepared.writeFile (temporaryOf output) content = .ok between :=
        (placeFile_eq_error hfailed).imp And.right And.left
      obtain ⟨location, entry, hlocate, hentry, rfl⟩ := removeFile_ok hremove
      have hlinks := written_sameLinks hfills hwritten
      have hsite : location = tree.entryLocation (temporaryOf output) :=
        (hlinks.locate_entry (not_isDots_temporaryName output) hlocate).2
      have hget : between.get? location = some entry := locate_get? hlocate
      have hroot := ne_nil_of_locate hlocate hentry
      have hbetween : Retains prepared between ∧
          ∀ other, other ≠ location → between.get? other = prepared.get? other := by
        cases hwritten with
        | inl heq => exact heq ▸ ⟨Retains.refl between, fun _ _ => rfl⟩
        | inr hwrite =>
            refine ⟨retains_writeFile hwrite, fun other hother => ?_⟩
            obtain ⟨hsiteRoot, heq⟩ := written_eq_set hfills hplain hwrite
            rw [heq, get?_set _ _ _ _ hsiteRoot, if_neg (hsite ▸ hother)]
      have hnot : between.get? location ≠ some .directory := fun hdirectory =>
        hentry (Option.some.inj (hget.symm.trans hdirectory))
      have hplainSite : ∀ target, between.get? location ≠ some (.link target) := fun target hlink =>
        hplain target (hsite ▸ (hlinks.links location target).mp hlink)
      refine ⟨hbetween.1.trans (retains_erase hroot hnot hplainSite), fun other => ?_⟩
      rw [get?_erase _ _ _ hroot]
      split
      · rename_i heq
        exact .inr ⟨heq.trans hsite, rfl⟩
      · exact .inl (hbetween.2 other ‹_›)

/-- A source that does not lead to the temporary file stays where its file stays. -/
theorem Begins.present_of_retains (h : Begins tree source output)
    (hapart : Apart tree source output) (hretains : Retains tree after)
    (hkept : ∀ location bytes, location ≠ tree.entryLocation (temporaryOf output) →
      tree.get? location = some (.file bytes) →
      ∃ bytes', after.get? location = some (.file bytes')) :
    after.isPresent source = .ok true := by
  obtain ⟨location, bytes, hlocate⟩ := h.isFile
  obtain ⟨bytes', hentry⟩ := hkept location bytes (hapart location bytes hlocate)
    (locate_get? hlocate)
  exact isPresent_eq_true (hretains.locate_taken hlocate hentry (by simp))

section Placed

variable (hprepared : Prepared tree source output keep backup prepared)
  (hplaced : PlacingEnding prepared output content (.ok ()) placed)

include hprepared hplaced

theorem PlacingEnding.get?_of_ok (hname : ¬ IsDots output.name)
    (hplain : ∀ target, tree.get? (tree.entryLocation (temporaryOf output)) ≠ some (.link target))
    (location : Location) :
    placed.get? location =
      if location = tree.entryLocation output then some (.file content)
      else if location = tree.entryLocation (temporaryOf output) then none
      else prepared.get? location := by
  obtain ⟨written, hwrite, hrename⟩ := hplaced.written
  exact placed_get? hprepared.fills hplain hname hwrite hrename location

/-- Files stay files, but for the temporary one. -/
theorem PlacingEnding.file_of_ok (hname : ¬ IsDots output.name)
    (hplain : ∀ target, tree.get? (tree.entryLocation (temporaryOf output)) ≠ some (.link target))
    {location : Location} {bytes : Text.Bytes}
    (hother : location ≠ tree.entryLocation (temporaryOf output))
    (hfile : tree.get? location = some (.file bytes)) :
    ∃ bytes', placed.get? location = some (.file bytes') := by
  rw [hplaced.get?_of_ok hprepared hname hplain, if_neg hother]
  split
  · exact ⟨content, rfl⟩
  · exact ⟨bytes, hprepared.fills.kept _ _ hfile⟩

/-- A source that is still there is a file, so it can be deleted. -/
theorem Begins.deletion_ne_failure (h : Begins tree source output) (hplain : Plain tree output)
    {failure : Failure} :
    ¬ DeletionEnding placed source output (.error (.failure failure)) after := by
  obtain ⟨location, bytes, hlocate⟩ := h.isFile
  obtain ⟨hretains, -⟩ := hplaced.retains hplain h.not_isDots hprepared
  have hget := hplaced.get?_of_ok hprepared h.not_isDots hplain.temporary
  intro hending
  generalize hresult : (.error (.failure failure) : Except Trouble Bool) = result at hending
  cases hending with
  | unseen _ | absent _ | unresolved _ _ | looped _ _ _ | same _ _ _ | deleted _ _ _ _ _ =>
      cases hresult
  | failed hpresent _ _ _ herror =>
      by_cases hsite : location = tree.entryLocation (temporaryOf output)
      · have hgone : placed.get? location = none := by
          rw [hget, if_neg (hsite ▸ entryLocation_temporaryOf tree output), if_pos hsite]
        have habsent := hretains.isPresent hlocate (by simp [Place.location, hgone])
        rw [hpresent, Place.location, hgone] at habsent
        cases habsent
      · obtain ⟨bytes', hentry⟩ :=
          hplaced.file_of_ok hprepared h.not_isDots hplain.temporary hsite (locate_get? hlocate)
        obtain ⟨location', entry, hfound, hkind⟩ := locate_entry_of_target
          (hretains.locate_taken hlocate hentry (by simp))
        have hnot : entry ≠ .directory := by
          rcases hkind with rfl | ⟨target, rfl⟩ <;> simp
        cases (removeFile_of_taken hfound hnot).symm.trans herror

end Placed

/-- Backups do not stand where the output or its temporary file stand. -/
theorem Begins.backup_ne (h : Begins tree source output) (n : Nat) :
    tree.entryLocation (backupPath source n) ≠ tree.entryLocation output ∧
      tree.entryLocation (backupPath source n) ≠ tree.entryLocation (temporaryOf output) := by
  have hending := backupName_ending source.name n
  rw [← backupPath_name] at hending
  have houtput : ".erb".toList <:+ output.name.toList := h.name ▸ outputName_ending source
  exact ⟨entryLocation_ne (ne_of_endings (by decide) hending houtput),
    entryLocation_ne (ne_of_endings (by decide) hending (temporaryOf_ending output))⟩

/-- The entry of a path stays the same if links stay. -/
theorem locate_entry_eq {p : Path} {location' : Location} {entry entry' : Entry}
    (hretains : Retains tree after) (hsame : SameLinks tree after)
    (h : tree.locate .entry p = .ok (.taken location entry))
    (h' : after.locate .entry p = .ok (.taken location' entry')) : location' = location := by
  have hworking := walk_of_locate h
  rw [← hretains.working] at hworking
  have hwalk := walk_of_locate h'
  cases hentry : after.get? location with
  | none =>
      have hgone := hretains.walk_gone (by simp) (walk_of_locate h) hentry
      rw [← hretains.working, hwalk] at hgone
      simp at hgone
  | some found =>
      have hfound := hretains.walk_taken (.inr ⟨rfl, rfl⟩) (walk_of_locate h) hentry (by
        rintro target rfl
        have hlink := (hsame.links location target).mp hentry
        have hget : tree.get? location = some entry := locate_get? h
        exact ⟨rfl, hget.symm.trans hlink⟩)
      rw [← hretains.working, hwalk] at hfound
      cases hfound
      rfl

/-- In a tree without links nothing stands in the way. -/
theorem Clear.of_linkFree (hlinks : tree.LinkFree) (delete : Bool) :
    Clear tree source output delete :=
  ⟨hlinks _, fun _ => hlinks _, fun _ => hlinks _⟩

theorem apart_of_linkFree (hlinks : tree.LinkFree) (hsource : ¬ IsDots source.name)
    (hname : output.name = source.stem ++ outputSuffix) : Apart tree source output := by
  intro location bytes hlocate
  have hsame := (Fills.refl tree).sameLinks
  have hlocation : location = tree.entryLocation source :=
    hsame.locate_unlinked hsource (hlinks _) hlocate
  rw [hlocation]
  refine entryLocation_ne fun heq => temporaryName_ne source ?_
  rw [heq, temporaryOf_name, hname]

end Trace

structure FailedTraces (tree : FileTree) (source output : Path) (keep : Bool)
    (after : FileTree) : Prop where
  present : Apart tree source output → after.isPresent source = .ok true
  frame : ∀ location,
    Trace tree source output (fun path => keep = true ∧ ∃ n, path = backupPath source n) after
        location ∨
      location = tree.entryLocation (temporaryOf output) ∧ after.get? location = none

structure WrittenTraces (tree : FileTree) (source output : Path) (content : Text.Bytes)
    (written : Written) (after : FileTree) : Prop where
  path : written.output = output
  holds : after.get? (tree.entryLocation output) = some (.file content)
  backup : ∀ path, written.backup = some path →
    ∃ n bytes, path = backupPath source n ∧ tree.readFile source = .ok bytes ∧
      tree.get? (tree.entryLocation path) = none ∧
      after.get? (tree.entryLocation path) = some (.file bytes)
  present : written.deleted = false → Plain tree output → Apart tree source output →
    after.isPresent source = .ok true
  frame : ∀ location,
    Trace tree source output (fun path => written.backup = some path) after location ∨
      location = tree.entryLocation output ∨
      location = tree.entryLocation (temporaryOf output) ∧ after.get? location = none ∨
      written.deleted = true ∧
        ∃ entry, tree.locate .entry source = .ok (.taken location entry)

section Ended

variable {tree prepared placed after : FileTree} {source output : Path} {content : Text.Bytes}
  {keep delete : Bool} {backup : Option Path} {failure : Failure} {written : Written}

theorem BackupEnding.eq_of_error {trouble : Trouble}
    (h : BackupEnding tree source (.error trouble) after) : after = tree := by
  cases h with
  | unseen _ | unnamed _ _ | failed _ _ _ => rfl

theorem OutputEnding.failed_traces (hclear : Clear tree source output delete)
    (hbegins : Begins tree source output)
    (h : OutputEnding tree source output content keep delete (.error (.failure failure)) after) :
    FailedTraces tree source output keep after := by
  cases h with
  | directory hfailed =>
      exact ⟨fun _ => hbegins.present_later hfailed.fills, fun location =>
        .inl ((hfailed.trace source location).mono fun _ => False.elim)⟩
  | backup hmade _ hfailed =>
      cases hfailed.eq_of_error
      exact ⟨fun _ => hbegins.present_later hmade.fills, fun location =>
        .inl ((hmade.trace source location).mono fun _ => False.elim)⟩
  | placing hprepared hfailed =>
      have hfills := hprepared.fills
      obtain ⟨hretains, hget⟩ := hfailed.failed_get? hclear.temporary hfills
      refine ⟨fun hapart => ?_, fun location => (hget location).imp_left fun heq => ?_⟩
      · refine hbegins.present_of_retains hapart (hfills.retains.trans hretains)
          fun location bytes hother hfile => ?_
        rcases hget location with heq | ⟨hsite, -⟩
        · exact ⟨bytes, heq.trans (hfills.kept _ _ hfile)⟩
        · exact absurd hsite hother
      · refine ((hprepared.trace hbegins hclear.backups location).mono ?_).of_eq heq
        rintro path rfl
        obtain ⟨n, -, hname, -⟩ := hprepared.backup_holds hbegins hclear.backups
        cases hprepared with
        | backedUp _ hkeep _ => exact ⟨hkeep, n, hname⟩
  | deletion hprepared hplaced hdelete hfailed =>
      exact absurd hfailed (hbegins.deletion_ne_failure hprepared hplaced (hclear.plain hdelete))

/-- What is there once the output is in place. -/
theorem Clear.placed_traces (hclear : Clear tree source output delete)
    (hbegins : Begins tree source output)
    (hprepared : Prepared tree source output keep backup prepared)
    (hplaced : PlacingEnding prepared output content (.ok ()) placed) :
    WrittenTraces tree source output content ⟨output, backup, false⟩ placed := by
  have hget := hplaced.get?_of_ok hprepared hbegins.not_isDots hclear.temporary
  refine ⟨rfl, by rw [hget, if_pos rfl], fun path hpath => ?_, fun _ hplain hapart => ?_,
    fun location => ?_⟩
  · cases hpath
    obtain ⟨n, bytes, rfl, hread, hfree, hholds⟩ := hprepared.backup_holds hbegins hclear.backups
    obtain ⟨houtput, htemporary⟩ := hbegins.backup_ne n
    refine ⟨n, bytes, rfl, hread, hfree, ?_⟩
    rw [hget, if_neg houtput, if_neg htemporary, hholds]
  · obtain ⟨hretains, -⟩ := hplaced.retains hplain hbegins.not_isDots hprepared
    exact hbegins.present_of_retains hapart hretains fun _ _ =>
      hplaced.file_of_ok hprepared hbegins.not_isDots hplain.temporary
  · by_cases houtput : location = tree.entryLocation output
    · exact .inr (.inl houtput)
    · have hlocation := hget location
      rw [if_neg houtput] at hlocation
      by_cases htemporary : location = tree.entryLocation (temporaryOf output)
      · rw [if_pos htemporary] at hlocation
        exact .inr (.inr (.inl ⟨htemporary, hlocation⟩))
      · rw [if_neg htemporary] at hlocation
        exact .inl ((hprepared.trace hbegins hclear.backups location).of_eq hlocation)

/-- The deletion of the source takes its entry away, and nothing else. -/
theorem WrittenTraces.deleted
    (h : WrittenTraces tree source output content ⟨output, backup, false⟩ placed)
    (hbegins : Begins tree source output) (hretains : Retains tree placed)
    (hsame : SameLinks tree placed) (hremove : placed.removeFile source = .ok after)
    (hholds : after.get? (tree.entryLocation output) = some (.file content)) :
    WrittenTraces tree source output content ⟨output, backup, true⟩ after := by
  obtain ⟨location, entry, hlocate, hentry, rfl⟩ := removeFile_ok hremove
  obtain ⟨_, _, htarget⟩ := hbegins.isFile
  obtain ⟨location', entry', hsource, -⟩ := locate_entry_of_target htarget
  obtain rfl := locate_entry_eq hretains hsame hsource hlocate
  have hfound : tree.get? location = some entry' := locate_get? hsource
  have hother : ∀ other, other ≠ location →
      (placed.erase location).get? other = placed.get? other := by
    intro other hother
    rw [get?_erase _ _ _ (ne_nil_of_locate hlocate hentry), if_neg hother]
  refine ⟨rfl, hholds, fun path hpath => ?_, by simp, fun other => ?_⟩
  · obtain ⟨n, bytes, hname, hread, hfree, hcopy⟩ := h.backup path hpath
    refine ⟨n, bytes, hname, hread, hfree, ?_⟩
    rw [hother, hcopy]
    rintro rfl
    cases hfree.symm.trans hfound
  · by_cases hsite : other = location
    · exact .inr (.inr (.inr ⟨rfl, entry', hsite ▸ hsource⟩))
    · have heq := hother other hsite
      rcases h.frame other with htrace | houtput | ⟨htemporary, hgone⟩ | ⟨hdeleted, -⟩
      · exact .inl (htrace.of_eq heq)
      · exact .inr (.inl houtput)
      · exact .inr (.inr (.inl ⟨htemporary, heq.trans hgone⟩))
      · cases hdeleted

theorem OutputEnding.written_traces (hclear : Clear tree source output delete)
    (hbegins : Begins tree source output)
    (h : OutputEnding tree source output content keep delete (.ok written) after) :
    WrittenTraces tree source output content written after := by
  have houtcome := h.outcome (fills_prepares tree keep source output) (Fills.refl tree)
  cases h with
  | kept hprepared hplaced _ => exact hclear.placed_traces hbegins hprepared hplaced
  | decided hprepared hplaced hdelete hdecided =>
      have hplain := hclear.plain hdelete
      have htraces := hclear.placed_traces hbegins hprepared hplaced
      cases hdecided with
      | absent _ | same _ _ _ => exact htraces
      | deleted _ _ _ _ hremove =>
          obtain ⟨hretains, hsame, -⟩ := hplaced.retains hplain hbegins.not_isDots hprepared
          exact htraces.deleted hbegins hretains hsame hremove
            (houtcome.holds hplain hbegins.not_isDots)

/-- A source that was deleted is gone, whatever links there are. -/
theorem OutputEnding.absent_of_deleted
    (h : OutputEnding tree source output content keep delete (.ok written) after)
    (hdeleted : written.deleted = true) : after.isPresent source = .ok false := by
  cases h with
  | kept _ _ _ => cases hdeleted
  | decided _ _ _ hdecided =>
      cases hdecided with
      | absent _ | same _ _ _ => cases hdeleted
      | deleted _ _ _ _ hremove => exact isPresent_of_removeFile hremove

end Ended

end SlimTemplate.Files
