import SlimTemplate.Proofs.Files.Outcome
import SlimTemplate.Proofs.Files.Scanning

/-!
Writing an output and keeping the source, in a tree without links. However that ends, only the
output and its temporary file are overwritten, and a scan is not concerned. If it ends well, the
output can be read.
-/

namespace SlimTemplate.Files

open FileTree

/-- A tree comes to be another one, with files overwritten where `lost` says, in a way that a scan
is not concerned with. -/
structure Carries (extension : String) (lost : Location → Prop) (before after : FileTree) :
    Prop where
  evolves : Evolves lost (fun _ => True) before after
  rescans : Rescans extension before after

section Carries

variable {extension : String} {lost lost' : Location → Prop} {before between after : FileTree}

theorem Carries.refl (extension : String) (lost : Location → Prop) (tree : FileTree) :
    Carries extension lost tree tree :=
  ⟨Evolves.refl tree, Rescans.refl extension tree⟩

theorem Carries.trans (h : Carries extension lost before between)
    (h' : Carries extension lost between after) : Carries extension lost before after :=
  ⟨h.evolves.trans h'.evolves, h.rescans.trans h'.rescans⟩

theorem Carries.mono (h : Carries extension lost before after)
    (hlost : ∀ location, lost location → lost' location) : Carries extension lost' before after :=
  ⟨h.evolves.mono hlost fun _ => id, h.rescans⟩

end Carries

section Operations

variable {extension ending : String} {tree after : FileTree} {p q : Path} {content : Text.Bytes}
  (hdotted : extension.toList.head? = some '.') (hsafe : IsSafe extension) (hsound : tree.Sound)

include hdotted hsafe

/-- What has an ending of written files does not have the extension. -/
theorem hasExtension_of_endsIn {location : Location} (hending : ending ∈ writtenEndings)
    (h : EndsIn ending location) : hasExtension (location.getLast?.getD "") extension = false := by
  cases hextension : hasExtension (location.getLast?.getD "") extension with
  | false => rfl
  | true =>
      obtain ⟨name, hname, -⟩ := id h
      rw [hname, Option.getD_some] at hextension
      have hsource : IsSource extension location := ⟨name, hname, .inr hextension⟩
      exact absurd h (hsource.not_endsIn hdotted hsafe hending)

include hsound

theorem writeFile_carries (hending : ending ∈ writtenEndings) (hp : IsWritten ending p)
    (h : tree.writeFile p content = .ok after) :
    Carries extension (· = p.address tree.working) tree after := by
  have hevolves := writeFile_evolves hsound hp.proper h
  obtain ⟨place, hreaches, hplace, rfl⟩ := writeFile_eq_ok hsound h
  refine ⟨hevolves.mono (fun _ => id) fun _ _ => trivial, ?_⟩
  exact rescans_set_file content (hreaches.isSlot hsound hp.proper hplace).ne_nil
    (hasExtension_of_endsIn hdotted hsafe hending (hp.ends _)) (hreaches.entry_eq ▸ hplace)

theorem removeFile_carries (hending : ending ∈ writtenEndings) (hp : IsWritten ending p)
    (h : tree.removeFile p = .ok after) :
    Carries extension (· = p.address tree.working) tree after := by
  have hevolves := removeFile_evolves hsound h
  obtain ⟨content, hfile, rfl⟩ := removeFile_eq_ok hsound h
  refine ⟨hevolves.mono (fun _ => id) fun _ _ => trivial, ?_⟩
  exact rescans_erase (ne_nil_of_file hfile)
    (hasExtension_of_endsIn hdotted hsafe hending (hp.ends _)) (by simp [hfile])

theorem rename_carries {ending' : String} (hending : ending ∈ writtenEndings)
    (hending' : ending' ∈ writtenEndings) (hp : IsWritten ending p) (hq : IsWritten ending' q)
    (h : tree.rename p q = .ok after) :
    Carries extension
      (fun location => location = p.address tree.working ∨ location = q.address tree.working)
      tree after := by
  refine ⟨(rename_evolves hsound hq.proper h).mono (fun _ => id) fun _ _ => trivial, ?_⟩
  rcases rename_eq_ok hsound h with rfl | ⟨content, place, hfile, hreaches, hplace, rfl⟩
  · exact Rescans.refl extension after
  · have hroot := ne_nil_of_file hfile
    refine (rescans_erase hroot (hasExtension_of_endsIn hdotted hsafe hending (hp.ends _))
      (by simp [hfile])).trans ?_
    refine rescans_set_file content (hreaches.isSlot hsound hq.proper hplace).ne_nil
      (hasExtension_of_endsIn hdotted hsafe hending' (hq.ends _)) ?_
    rw [get?_erase _ _ _ hroot]
    split
    · simp
    · exact hreaches.entry_eq ▸ hplace

omit hdotted hsafe in
theorem createDirectories_carries (hp : p.Proper) :
    Carries extension (fun _ => False) tree (tree.createDirectories p).1 := by
  refine createDirectories_keeps (P := Path.Proper) (fun p hproper => hproper.parent) ?_ hp
    (Carries.refl extension _ tree)
  intro between after p hproper hbefore hmade
  have hbetween := hbefore.evolves.sound hsound
  have hevolves := createDirectory_evolves hbetween hproper hmade
  obtain ⟨directory, name, hlocate, rfl⟩ := createDirectory_ok hmade
  have hreaches := reaches_of_locate hbetween.linkFree hlocate
  refine hbefore.trans ⟨hevolves.mono (fun _ => id) fun _ _ => trivial, ?_⟩
  refine rescans_set_directory (by simp) hreaches.leads.entry_eq ?_
  rw [List.getLast?_concat]
  exact hreaches.leads.free_length

/-- A backup goes where nothing was. -/
theorem backup_carries {source : Path} (hsource : source.Proper)
    (hsearch : freeBackup tree source (tree.entries.length + 1) 0 = .ok p)
    (hcopy : tree.copyFile source p = .ok after) :
    Carries extension (fun _ => False) tree after := by
  obtain ⟨i, rfl, hfree⟩ := freeBackup_free hsound hsearch
  have hwritten := isWritten_backup hsource i
  obtain ⟨content, -, hwrite⟩ := copyFile_eq_ok hcopy
  obtain ⟨hevolves, -⟩ := copyFile_evolves hsound hwritten.proper hfree hcopy
  exact ⟨hevolves.mono (fun _ => id) fun _ _ => trivial,
    (writeFile_carries hdotted hsafe hsound (by decide) hwritten hwrite).rescans⟩

end Operations

section Outcome

variable {extension : String} {source output : Path} {before between written placed : FileTree}
  {content : Text.Bytes} (hdotted : extension.toList.head? = some '.') (hsafe : IsSafe extension)
  (hsound : before.Sound)

include hdotted hsafe hsound

theorem carries_prepares (hsource : source.Proper) (houtput : output.Proper) (keep : Bool) :
    Prepares (fun _ => Carries extension (fun _ => False) before) keep source output where
  directories _ h :=
    h.trans (createDirectories_carries (h.evolves.sound hsound) houtput.parent)
  without _ h _ := h
  backup _ _ _ h hsearch hcopy :=
    h.trans (backup_carries hdotted hsafe (h.evolves.sound hsound) hsource hsearch hcopy)

variable (houtput : IsWritten ".erb" output) (htemporary : IsWritten ".tmp" (temporaryOf output))
  (hprepared : Carries extension (fun _ => False) before between)

include htemporary hprepared

theorem carries_of_write (hwritten : written = between ∨
      between.writeFile (temporaryOf output) content = .ok written) :
    Carries extension (· = (temporaryOf output).address before.working) before written := by
  have hbetween : Carries extension (· = (temporaryOf output).address before.working) before
      between := hprepared.mono fun _ => False.elim
  cases hwritten with
  | inl heq => exact heq ▸ hbetween
  | inr hwrite =>
      have hcarries := writeFile_carries hdotted hsafe (hprepared.evolves.sound hsound)
        (by decide) htemporary hwrite
      rw [hprepared.evolves.working] at hcarries
      exact hbetween.trans hcarries

include houtput

theorem carries_of_rename (hwritten : between.writeFile (temporaryOf output) content = .ok written)
    (hplaced : written.rename (temporaryOf output) output = .ok placed) :
    Carries extension (fun location => location = output.address before.working ∨
        location = (temporaryOf output).address before.working) before placed := by
  have hbefore := carries_of_write hdotted hsafe hsound htemporary hprepared (.inr hwritten)
  have hcarries := rename_carries hdotted hsafe (hbefore.evolves.sound hsound) (by decide)
    (by decide) htemporary houtput hplaced
  rw [hbefore.evolves.working] at hcarries
  exact (hbefore.mono fun _ => .inr).trans (hcarries.mono fun _ => Or.symm)

/-- The output can be read where it was put. -/
theorem readFile_of_rename (hwritten : between.writeFile (temporaryOf output) content = .ok written)
    (hplaced : written.rename (temporaryOf output) output = .ok placed) :
    placed.readFile output = .ok content := by
  have hbefore := carries_of_write hdotted hsafe hsound htemporary hprepared (.inr hwritten)
  have hsoundWritten := hbefore.evolves.sound hsound
  have hevolves := rename_evolves hsoundWritten houtput.proper hplaced
  obtain ⟨-, -, -, hset⟩ := writeFile_eq_ok (hprepared.evolves.sound hsound) hwritten
  obtain ⟨location, entry, target, hlocate, -, htarget, -, hafter⟩ := rename_ok hplaced
  have hfrom := reaches_of_locate hsoundWritten.linkFree hlocate
  have hto := reaches_of_locate hsoundWritten.linkFree htarget
  have hlocation : location = (temporaryOf output).address written.working := hfrom.location_eq
  have hcontent : entry = .file content := by
    have hget : written.get? location = some entry := hfrom.leads.entry_eq
    rw [hlocation, hbefore.evolves.working, hset, hprepared.evolves.working,
      get?_set _ _ _ _ (htemporary.ends _).ne_nil, if_pos rfl] at hget
    exact (Option.some.inj hget).symm
  have hfile : placed.get? (output.address written.working) = some (.file content) := by
    rcases hafter with ⟨heq, -⟩ | rfl
    · rw [hlocation, hto.location_eq] at heq
      exact absurd (heq ▸ htemporary.ends _) (not_endsIn_temporary (houtput.ends _))
    · rw [hto.location_eq, hcontent, get?_set _ _ _ _ (houtput.ends _).ne_nil, if_pos rfl]
  exact (readFile_eq_ok_iff (hevolves.sound hsoundWritten).linkFree).mpr
    ⟨_, hto.later hevolves.working hevolves.directories hfile⟩

end Outcome

/-- However the writing of an output ends, if its source is not deleted. -/
theorem WriteOutcome.carries {extension : String} {source output : Path} {before after : FileTree}
    {content : Text.Bytes} {result : Except Trouble Written}
    (hdotted : extension.toList.head? = some '.') (hsafe : IsSafe extension)
    (hsound : before.Sound) (houtput : IsWritten ".erb" output)
    (htemporary : IsWritten ".tmp" (temporaryOf output))
    (h : WriteOutcome (fun _ => Carries extension (fun _ => False) before) source output content
      false result after) :
    Carries extension (fun location => location = output.address before.working ∨
        location = (temporaryOf output).address before.working) before after ∧
      ∀ written, result = .ok written → after.readFile output = .ok content := by
  cases h with
  | failed hprepared hwritten hcleared =>
      refine ⟨?_, by simp⟩
      have hbefore := carries_of_write hdotted hsafe hsound htemporary hprepared hwritten
      cases hcleared with
      | inl heq => exact heq ▸ hbefore.mono fun _ => .inr
      | inr hremove =>
          have hcarries := removeFile_carries hdotted hsafe (hbefore.evolves.sound hsound)
            (by decide) htemporary hremove
          rw [hbefore.evolves.working] at hcarries
          exact (hbefore.trans hcarries).mono fun _ => .inr
  | placed hprepared hwritten hplaced _ =>
      exact ⟨carries_of_rename hdotted hsafe hsound houtput htemporary hprepared hwritten hplaced,
        fun _ _ => readFile_of_rename hdotted hsafe hsound houtput htemporary hprepared hwritten
          hplaced⟩
  | deleted hdelete => cases hdelete

end SlimTemplate.Files
