import SlimTemplate.Proofs.Files.Outcome

/-!
Writing output without losing a source. Only output and temporary files are overwritten, a backup
goes where nothing was, and a source is deleted only when its backup holds its content.
-/

namespace SlimTemplate.Files

open FileTree SlimTemplate.Action

theorem notMem_name {c : Char} {p : Path} (h : ∀ name ∈ p.parts, c ∉ name.toList) :
    c ∉ p.name.toList := by
  rw [Path.name]
  cases hlast : p.parts.getLast? with
  | none => simp
  | some name => exact h name (List.mem_of_getLast? hlast)

/-- The name of an output has no characters but those of its source and of the ending. -/
theorem notMem_outputName {c : Char} {source : Path} (hc : c ∉ outputSuffix.toList)
    (h : ∀ name ∈ source.parts, c ∉ name.toList) :
    c ∉ (source.stem ++ outputSuffix).toList := by
  have hstem : c ∉ Path.stemOf source.name.toList := fun hmem =>
    notMem_name h (stemOf_subset _ hmem)
  rw [String.toList_append, List.mem_append, Path.stem, String.toList_ofList]
  exact not_or.mpr ⟨hstem, hc⟩

theorem keptDirectories_subset (source : Path) (root : Option Path) :
    keptDirectories source root ⊆ source.parts := by
  intro name hname
  cases root with
  | none => simp [keptDirectories] at hname
  | some root =>
      simp only [keptDirectories, Option.bind_some, Path.relativeTo?] at hname
      split at hname
      · have hparent : name ∈ source.parent.parts := (List.drop_sublist _ _).subset hname
        exact List.dropLast_subset _ hparent
      · simp at hname

/-- An output is named after its source, in whatever directory. -/
theorem outputPath_eq_ok {source output : Path} {outputDirectory : Option String}
    {root : Option Path} (hsource : source.Proper)
    (h : outputPath source outputDirectory root = .ok output) :
    ∃ base : Path, base.Proper ∧ output = base.child (source.stem ++ outputSuffix) := by
  rw [outputPath] at h
  split at h
  · rw [Path.withName] at h
    split at h
    · cases h
    · cases h
      exact ⟨source.parent, hsource.parent, rfl⟩
  · rename_i directory hdirectory
    cases h
    have hproper : directory.Proper := by
      rw [givenDirectory?.eq_def] at hdirectory
      split at hdirectory <;> cases hdirectory
      exact Path.proper_ofText _
    refine ⟨{ directory with parts := directory.parts ++ keptDirectories source root }, ?_, rfl⟩
    intro name hname
    cases List.mem_append.mp hname with
    | inl hmem => exact hproper name hmem
    | inr hmem => exact hsource name (keptDirectories_subset source root hmem)

structure IsWritten (ending : String) (p : Path) : Prop where
  proper : p.Proper
  ends : ∀ working, EndsIn ending (p.address working)

theorem isWritten_child {base : Path} {name ending : String} (hbase : base.Proper)
    (hending : ending ∈ writtenEndings) (hname : ending.toList <:+ name.toList)
    (hslash : '/' ∉ name.toList) : IsWritten ending (base.child name) where
  proper := hbase.child (isPart_of_ending hending hname hslash)
  ends working := by
    rw [Path.address_child working base (not_isDots_of_ending hending hname)]
    exact endsIn_concat.mpr hname

/-- Outputs and their temporary files are told by their endings. -/
theorem isWritten_output {source output : Path} {outputDirectory : Option String}
    {root : Option Path} (hsource : source.Proper)
    (houtput : outputPath source outputDirectory root = .ok output) :
    IsWritten ".erb" output ∧ IsWritten ".tmp" (temporaryOf output) := by
  obtain ⟨base, hbase, rfl⟩ := outputPath_eq_ok hsource houtput
  have hslash : '/' ∉ (source.stem ++ outputSuffix).toList :=
    notMem_outputName (by decide) fun name hname => (hsource name hname).2.2
  have htemporary : temporaryOf (base.child (source.stem ++ outputSuffix)) =
      base.child (source.stem ++ outputSuffix ++ temporarySuffix) := by
    simp [temporaryOf, Path.child, Path.parent, Path.name]
  rw [htemporary]
  refine ⟨isWritten_child hbase (by decide) (outputName_ending source) hslash,
    isWritten_child hbase (by decide) ?_ ?_⟩
  · rw [String.toList_append]
    exact List.IsSuffix.trans (by decide) (List.suffix_append _ _)
  · rw [String.toList_append, List.mem_append, not_or]
    exact ⟨hslash, by decide⟩

structure IsBackup (source backup : Path) (before after : FileTree) : Prop where
  name : ∃ i, backup = source.parent.child (backupName source.name i)
  content : ∃ content, before.readFile source = .ok content ∧ after.readFile backup = .ok content

theorem isWritten_backup {source : Path} (h : source.Proper) (i : Nat) :
    IsWritten ".backup" (source.parent.child (backupName source.name i)) :=
  isWritten_child h.parent (by decide) (backupName_ending _ i)
    (backupName_slash i (notMem_name fun name hname => (h name hname).2.2))

/-- What holds of the files until the output is written: nothing was lost for the backup, which
there is once all is ready. -/
structure BackedUp (source : Path) (before : FileTree) (stage : Stage) (tree : FileTree) :
    Prop where
  evolves : Evolves (fun _ => False) (EndsIn ".backup") before tree
  isBackup : ∀ backup, stage = .ready backup →
    ∃ path, backup = some path ∧ IsBackup source path before tree

/-- A source that is there is backed up. -/
theorem backedUp_prepares {source output : Path} {before : FileTree} {content : Text.Bytes}
    (hsound : before.Sound) (hsource : source.Proper) (houtput : output.Proper)
    (hread : before.readFile source = .ok content) :
    Prepares (BackedUp source before) true source output where
  directories tree h := by
    have hmade := createDirectories_evolves (h.evolves.sound hsound) houtput.parent
    exact ⟨h.evolves.trans (hmade.mono (fun _ => id) (fun _ => False.elim)), by simp⟩
  without tree h habsent := by
    have htree := h.evolves.sound hsound
    obtain ⟨location, hreaches⟩ := (readFile_eq_ok_iff htree.linkFree).mp
      (h.evolves.readFile hsound id hread)
    have hpresent := isPresent_of_reaches htree hreaches
    simp [hpresent] at habsent
  backup tree after path h hsearch hcopy := by
    have htree := h.evolves.sound hsound
    obtain ⟨i, rfl, hfree⟩ := freeBackup_free htree hsearch
    have hwritten := isWritten_backup hsource i
    obtain ⟨hevolves, kept, hkept, hcopied⟩ := copyFile_evolves htree hwritten.proper hfree hcopy
    cases (h.evolves.readFile hsound id hread).symm.trans hkept
    refine ⟨h.evolves.trans (hevolves.mono (fun _ => id) ?_), fun backup hbackup => ?_⟩
    · rintro location rfl
      exact hwritten.ends tree.working
    · cases hbackup
      exact ⟨_, rfl, ⟨i, rfl⟩, content, hread, hcopied⟩

section Place

variable {output : Path} {tree written after : FileTree} {content : Text.Bytes}
  (hsound : tree.Sound) (htemporary : IsWritten ".tmp" (temporaryOf output))

include hsound htemporary

theorem evolves_of_write
    (h : written = tree ∨ tree.writeFile (temporaryOf output) content = .ok written) :
    Evolves Disposable Disposable tree written := by
  cases h with
  | inl heq => exact heq ▸ Evolves.refl _
  | inr hwrite =>
      have hends : ∀ location, location = (temporaryOf output).address tree.working →
          Disposable location := by
        rintro location rfl
        exact .inr (htemporary.ends tree.working)
      exact (writeFile_evolves hsound htemporary.proper hwrite).mono hends hends

theorem evolves_of_clear (h : after = tree ∨ tree.removeFile (temporaryOf output) = .ok after) :
    Evolves Disposable Disposable tree after := by
  cases h with
  | inl heq => exact heq ▸ Evolves.refl _
  | inr hremove =>
      refine (removeFile_evolves hsound hremove).mono ?_ (fun _ => False.elim)
      rintro location rfl
      exact .inr (htemporary.ends _)

theorem evolves_of_place (houtput : IsWritten ".erb" output)
    (hwrite : tree.writeFile (temporaryOf output) content = .ok written)
    (hplace : written.rename (temporaryOf output) output = .ok after) :
    Evolves Disposable Disposable tree after := by
  have hwritten := evolves_of_write hsound htemporary (.inr hwrite)
  refine hwritten.trans ((rename_evolves (hwritten.sound hsound) houtput.proper hplace).mono ?_ ?_)
  · rintro location (rfl | rfl)
    · exact .inr (htemporary.ends _)
    · exact .inl (houtput.ends _)
  · rintro location rfl
    exact .inl (houtput.ends _)

end Place

/-- What becomes of the files when a source is converted. Output and temporary files may be
overwritten and backups made; the source is gone only if that is told, and then it is backed up. -/
structure Converts (source : Path) (backup : Option Path) (deleted : Bool)
    (before after : FileTree) : Prop where
  evolves : Evolves
    (fun location =>
      Disposable location ∨ deleted = true ∧ location = source.address before.working)
    (fun location => Disposable location ∨ EndsIn ".backup" location) before after
  gone : deleted = true → after.get? (source.address before.working) = none
  backedUp : deleted = true → ∃ path, backup = some path ∧ IsBackup source path before after

theorem converts_of_evolves {source : Path} {backup : Option Path} {before after : FileTree}
    (h : Evolves Disposable (fun location => Disposable location ∨ EndsIn ".backup" location)
      before after) : Converts source backup false before after where
  evolves := h.mono (fun _ => .inl) (fun _ => id)
  gone hdeleted := by cases hdeleted
  backedUp hdeleted := by cases hdeleted

section Convert

variable {source path output : Path} {before : FileTree} (hsound : before.Sound)
  (hsource : source.Proper) (hnot : ¬ EndsIn ".backup" (source.address before.working))

include hsound hsource hnot

/-- A backed up source can be removed. -/
theorem converts_of_removeFile {between after : FileTree}
    (h : Evolves Disposable (fun location => Disposable location ∨ EndsIn ".backup" location)
      before between)
    (hbackup : IsBackup source path before between)
    (hremove : between.removeFile source = .ok after) :
    Converts source (some path) true before after := by
  have hbetween := h.sound hsound
  obtain ⟨content, hfile, heq⟩ := removeFile_eq_ok hbetween hremove
  have hremoved := removeFile_evolves hbetween hremove
  rw [h.working] at hremoved hfile heq
  refine ⟨?_, fun _ => ?_, fun _ => ⟨path, rfl, hbackup.name, ?_⟩⟩
  · exact (h.mono (fun _ => .inl) (fun _ => id)).trans
      (hremoved.mono (fun _ heq => .inr ⟨rfl, heq⟩) (fun _ => False.elim))
  · rw [heq, get?_erase _ _ _ (ne_nil_of_file hfile), if_pos rfl]
  · obtain ⟨i, rfl⟩ := hbackup.name
    obtain ⟨content, hread, hkept⟩ := hbackup.content
    refine ⟨content, hread, hremoved.readFile hbetween (fun heq => hnot ?_) hkept⟩
    rw [← heq, h.working]
    exact (isWritten_backup hsource i).ends before.working

theorem converts_of_outcome {content : Text.Bytes} {delete : Bool}
    {result : Except Trouble Written} {after : FileTree} (houtput : IsWritten ".erb" output)
    (htemporary : IsWritten ".tmp" (temporaryOf output))
    (h : WriteOutcome (BackedUp source before) source output content delete result after) :
    Converts source (result.toOption.bind (·.backup)) (result.toOption.any (·.deleted)) before
      after := by
  have hthen : ∀ {stage between after}, BackedUp source before stage between →
      Evolves Disposable Disposable between after → Evolves Disposable
        (fun location => Disposable location ∨ EndsIn ".backup" location) before after :=
    fun hprepared hlater => (hprepared.evolves.mono (fun _ => False.elim) (fun _ => .inr)).trans
      (hlater.mono (fun _ => id) (fun _ => .inl))
  cases h with
  | failed hprepared hwritten hcleared =>
      have hbetween := hprepared.evolves.sound hsound
      have hevolves := evolves_of_write hbetween htemporary hwritten
      exact converts_of_evolves (hthen hprepared
        (hevolves.trans (evolves_of_clear (hevolves.sound hbetween) htemporary hcleared)))
  | placed hprepared hwritten hplaced hresult =>
      have hevolves := evolves_of_place (hprepared.evolves.sound hsound) htemporary houtput
        hwritten hplaced
      cases result with
      | error trouble => exact converts_of_evolves (hthen hprepared hevolves)
      | ok written =>
          cases hresult written rfl
          exact converts_of_evolves (hthen hprepared hevolves)
  | deleted _ hprepared hwritten hplaced _ _ _ hdeleted =>
      have hbetween := hprepared.evolves.sound hsound
      have hevolves := evolves_of_place hbetween htemporary houtput hwritten hplaced
      obtain ⟨path, rfl, ⟨i, rfl⟩, bytes, hread, hcopy⟩ := hprepared.isBackup _ rfl
      -- the output is put in place without touching the backup
      have hkept := hevolves.readFile hbetween
        (not_disposable_of_backup ((isWritten_backup hsource i).ends _)) hcopy
      exact converts_of_removeFile hsound hsource hnot (hthen hprepared hevolves)
        ⟨⟨i, rfl⟩, bytes, hread, hkept⟩ hdeleted

end Convert

/-- A source that is there is converted without being lost, however the conversion ends. -/
theorem writeOutput_ensures {world : World} {source : Path} (hsound : world.tree.Sound)
    (hsource : source.Proper) (hnot : ¬ EndsIn ".backup" (source.address world.tree.working))
    {location : Location} {bytes : Text.Bytes}
    (hthere : Reaches world.tree source (.taken location (.file bytes))) (content : String)
    (delete : Bool) (outputDirectory : Option String) (root : Option Path) :
    Ensures (writeOutput source content true delete outputDirectory root) world
      fun result after =>
        Converts source (result.toOption.bind (·.backup)) (result.toOption.any (·.deleted))
          world.tree after.tree := by
  cases houtput : outputPath source outputDirectory root with
  | error e =>
      rw [writeOutput, houtput]
      exact converts_of_evolves (Evolves.refl _)
  | ok output =>
      obtain ⟨hwritten, htemporary⟩ := isWritten_output hsource houtput
      have hread : world.tree.readFile source = .ok bytes :=
        (readFile_eq_ok_iff hsound.linkFree).mpr ⟨_, hthere⟩
      have hbegun : BackedUp source world.tree .begun world.tree := ⟨Evolves.refl _, by simp⟩
      exact (writeOutput_outcome houtput
        (backedUp_prepares hsound hsource hwritten.proper hread) hbegun content delete).mono
        fun _ _ houtcome => converts_of_outcome hsound hsource hnot hwritten htemporary houtcome

end SlimTemplate.Files
