import SlimTemplate.Proofs.Files.Backup
import SlimTemplate.Proofs.Files.Endings

/-!
How the writing of an output can end, said once for all trees. Directories are made and the source
is backed up; then the output is written under its temporary name and moved into place; then the
source may be deleted. What holds of the files until then is a parameter.
-/

namespace SlimTemplate.Files

open FileTree SlimTemplate.Action

/-- How far the writing of an output is before the file itself is written. -/
inductive Stage where
  | begun
  | ready (backup : Option Path)

/-- What holds of the files is kept while directories are made and the source is backed up, if that
is asked for and the source is there. -/
structure Prepares (R : Stage → FileTree → Prop) (keep : Bool) (source output : Path) : Prop where
  directories : ∀ tree, R .begun tree → R .begun (tree.createDirectories output.parent).1
  without : ∀ tree, R .begun tree → keep = false ∨ tree.isPresent source = .ok false →
    R (.ready none) tree
  backup : ∀ tree after path, R .begun tree →
    freeBackup tree source (tree.entries.length + 1) 0 = .ok path →
    tree.copyFile source path = .ok after → R (.ready (some path)) after

/-- How the writing of an output ends. A file that could not be moved may be left under its
temporary name, or be removed with whatever stands there. -/
inductive WriteOutcome (R : Stage → FileTree → Prop) (source output : Path)
    (content : Text.Bytes) (delete : Bool) : Except Trouble Written → FileTree → Prop
  | failed {stage : Stage} {between written after : FileTree} {trouble : Trouble}
      (hprepared : R stage between)
      (hwritten : written = between ∨
        between.writeFile (temporaryOf output) content = .ok written)
      (hcleared : after = written ∨ written.removeFile (temporaryOf output) = .ok after) :
      WriteOutcome R source output content delete (.error trouble) after
  | placed {backup : Option Path} {between written after : FileTree}
      {result : Except Trouble Written} (hprepared : R (.ready backup) between)
      (hwritten : between.writeFile (temporaryOf output) content = .ok written)
      (hplaced : written.rename (temporaryOf output) output = .ok after)
      (hresult : ∀ written, result = .ok written → written = ⟨output, backup, false⟩) :
      WriteOutcome R source output content delete result after
  | deleted {backup : Option Path} {between written placed after : FileTree} {place place' : Path}
      (hdelete : delete = true) (hprepared : R (.ready backup) between)
      (hwritten : between.writeFile (temporaryOf output) content = .ok written)
      (hplaced : written.rename (temporaryOf output) output = .ok placed)
      (hsource : placed.resolve source = .ok place) (houtput : placed.resolve output = .ok place')
      (hother : place ≠ place') (hdeleted : placed.removeFile source = .ok after) :
      WriteOutcome R source output content delete (.ok ⟨output, backup, true⟩) after

section Stages

variable {R : Stage → FileTree → Prop} {keep delete : Bool} {source output : Path}
  {tree after : FileTree} {content : Text.Bytes}

theorem DirectoryEnding.keeps {result : Except Trouble Unit} (h : Prepares R keep source output)
    (hR : R .begun tree) (hending : DirectoryEnding tree output.parent result after) :
    R .begun after := by
  have hmade := h.directories tree hR
  cases hending with
  | unseen _ => exact hR
  | failed _ heq | made _ heq => rwa [heq] at hmade

theorem BackupEnding.keeps {trouble : Trouble} (hR : R .begun tree)
    (hending : BackupEnding tree source (.error trouble) after) : R .begun after := by
  cases hending with
  | unseen _ | unnamed _ _ | failed _ _ _ => exact hR

theorem Prepared.keeps {backup : Option Path} (h : Prepares R keep source output)
    (hR : R .begun tree) (hprepared : Prepared tree source output keep backup after) :
    R (.ready backup) after := by
  cases hprepared with
  | plain hmade hkeep => exact h.without _ (hmade.keeps h hR) (.inl hkeep)
  | backedUp hmade _ hbackup =>
      have hR := hmade.keeps h hR
      cases hbackup with
      | absent habsent => exact h.without _ hR (.inr habsent)
      | copied _ hpath hcopy => exact h.backup _ _ _ hR hpath hcopy

/-- A file that could not be placed may be left under its temporary name, or removed. -/
theorem PlacingEnding.failed {trouble : Trouble}
    (h : PlacingEnding tree output content (.error trouble) after) :
    ∃ written,
      (written = tree ∨ tree.writeFile (temporaryOf output) content = .ok written) ∧
      (after = written ∨ written.removeFile (temporaryOf output) = .ok after) := by
  have hwritten : ∀ {between e},
      placeFile tree (temporaryOf output) output content = (between, .error e) →
      between = tree ∨ tree.writeFile (temporaryOf output) content = .ok between :=
    fun hfailed => (placeFile_eq_error hfailed).imp And.right And.left
  cases h with
  | unseen _ | noAccess _ | unnamed _ _ => exact ⟨_, .inl rfl, .inl rfl⟩
  | lost _ _ hfailed _ | clear _ _ hfailed _ | stuck _ _ hfailed _ _ =>
      exact ⟨_, hwritten hfailed, .inl rfl⟩
  | cleared _ _ hfailed _ hremove => exact ⟨_, hwritten hfailed, .inr hremove⟩

theorem PlacingEnding.written (h : PlacingEnding tree output content (.ok ()) after) :
    ∃ written, tree.writeFile (temporaryOf output) content = .ok written ∧
      written.rename (temporaryOf output) output = .ok after := by
  cases h with
  | placed _ _ hplaced => exact placeFile_eq_ok hplaced

theorem OutputEnding.outcome {result : Except Trouble Written} (h : Prepares R keep source output)
    (hR : R .begun tree)
    (hending : OutputEnding tree source output content keep delete result after) :
    WriteOutcome R source output content delete result after := by
  cases hending with
  | directory hfailed => exact .failed (hfailed.keeps h hR) (.inl rfl) (.inl rfl)
  | backup hmade _ hfailed =>
      exact .failed (hfailed.keeps (hmade.keeps h hR)) (.inl rfl) (.inl rfl)
  | placing hprepared hfailed =>
      obtain ⟨written, hwritten, hcleared⟩ := hfailed.failed
      exact .failed (hprepared.keeps h hR) hwritten hcleared
  | deletion hprepared hplaced _ hfailed =>
      obtain ⟨written, hwritten, hplaced⟩ := hplaced.written
      cases hfailed with
      | unseen _ | unresolved _ _ | looped _ _ _ | failed _ _ _ _ _ =>
          exact .placed (hprepared.keeps h hR) hwritten hplaced (by simp)
  | kept hprepared hplaced _ =>
      obtain ⟨written, hwritten, hplaced⟩ := hplaced.written
      exact .placed (hprepared.keeps h hR) hwritten hplaced fun _ hok => (Except.ok.inj hok).symm
  | decided hprepared hplaced hdelete hdecided =>
      obtain ⟨written, hwritten, hplaced⟩ := hplaced.written
      have hready := hprepared.keeps h hR
      cases hdecided with
      | absent _ | same _ _ _ =>
          exact .placed hready hwritten hplaced fun _ hok => (Except.ok.inj hok).symm
      | deleted _ hsource houtput hother hremove =>
          exact .deleted hdelete hready hwritten hplaced hsource houtput hother hremove

/-- Writing an output ends in one of these ways. -/
theorem writeOutput_outcome {outputDirectory : Option String} {root : Option Path} {world : World}
    (houtput : outputPath source outputDirectory root = .ok output)
    (h : Prepares R keep source output) (hR : R .begun world.tree) (content : String)
    (delete : Bool) :
    Ensures (writeOutput source content keep delete outputDirectory root) world
      fun result after =>
        WriteOutcome R source output (Text.encode content) delete result after.tree :=
  (writeOutput_ending houtput world content keep delete).mono fun _ _ hending =>
    hending.outcome h hR

end Stages

end SlimTemplate.Files
