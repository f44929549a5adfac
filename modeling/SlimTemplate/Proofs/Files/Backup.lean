import SlimTemplate.Proofs.FileTree.Filling
import SlimTemplate.Proofs.Files.Names

/-!
Backups. The backup names of a file are all different, so one of the first few is free, however many
entries there are, and the search ends with a name that is not in use.
-/

namespace SlimTemplate.Files

open FileTree

variable {tree : FileTree} {p candidate : Path}

/-- As many backup names as are in use, so many entries are there. -/
theorem le_length_of_backups {directory : Location} {name : String} {n : Nat}
    (h : ∀ i < n, ∃ entry, tree.get? (directory ++ [backupName name i]) = some entry) :
    n ≤ tree.entries.length := by
  have hnodup : ((List.range n).map fun i => directory ++ [backupName name i]).Nodup := by
    refine List.Nodup.map ?_ List.nodup_range
    intro i j hij
    exact backupName_injective name (List.singleton_inj.mp (List.append_cancel_left hij))
  have htaken : ∀ location ∈ (List.range n).map fun i => directory ++ [backupName name i],
      location ≠ [] ∧ ∃ entry, tree.get? location = some entry := by
    intro location hlocation
    obtain ⟨i, hi, rfl⟩ := List.mem_map.mp hlocation
    exact ⟨by simp, h i (List.mem_range.mp hi)⟩
  simpa using length_le_of_taken hnodup htaken

theorem not_isDots_backupName (name : String) (n : Nat) : ¬ IsDots (backupName name n) :=
  not_isDots_of_ending (by decide) (backupName_ending name n)

/-- No more backup names are in use than there are entries. -/
theorem length_of_used {n : Nat} (hused : ∀ i < n, ∃ location entry,
      tree.locate .target (p.parent.child (backupName p.name i)) = .ok (.taken location entry)) :
    n ≤ tree.entries.length := by
  cases n with
  | zero => exact Nat.zero_le _
  | succ n =>
      obtain ⟨location, entry, hfirst⟩ := hused 0 (by omega)
      obtain ⟨directory, hleads, -⟩ := locate_child (not_isDots_backupName p.name 0) hfirst
      have htaken : ∀ i < n + 1, ∃ entry,
          tree.get? (directory ++ [backupName p.name i]) = some entry := by
        intro i hi
        obtain ⟨location, entry, hlocate⟩ := hused i hi
        obtain ⟨other, hother, htaken, -⟩ := locate_child (not_isDots_backupName p.name i) hlocate
        cases hleads.unique hother
        exact htaken.resolve_left (by simp)
      exact le_length_of_backups htaken

/-- The search for a backup name ends with one that is not in use. -/
theorem freeBackup_absent {fuel n : Nat} (hfuel : tree.entries.length < n + fuel)
    (hseen : ∀ i < n, ∃ location entry,
      tree.locate .target (p.parent.child (backupName p.name i)) = .ok (.taken location entry))
    (h : freeBackup tree p fuel n = .ok candidate) :
    ∃ i, candidate = p.parent.child (backupName p.name i) ∧
      ∀ location entry, tree.locate .target candidate ≠ .ok (.taken location entry) := by
  induction fuel generalizing n with
  | zero => exact absurd hfuel (Nat.not_lt.mpr (length_of_used hseen))
  | succ fuel ih =>
      rw [freeBackup] at h
      split at h
      · cases h
      rename_i name hname
      rw [Path.withName] at hname
      split at hname
      · cases hname
      cases hname
      split at h
      · cases h
      · cases h
        rename_i hfree
        refine ⟨n, rfl, fun location entry hlocate => ?_⟩
        rw [isPresent, probe, hlocate] at hfree
        cases hfree
      · rename_i hpresent
        refine ih (by omega) (fun i hi => ?_) h
        by_cases hlast : i = n
        · rw [isPresent, probe] at hpresent
          split at hpresent <;> cases hpresent
          exact hlast ▸ ⟨_, _, ‹_›⟩
        · exact hseen i (by omega)

theorem freeBackup_free (hsound : tree.Sound)
    (h : freeBackup tree p (tree.entries.length + 1) 0 = .ok candidate) :
    ∃ i, candidate = p.parent.child (backupName p.name i) ∧
      ∀ location entry, ¬ Reaches tree candidate (.taken location entry) := by
  obtain ⟨i, hname, habsent⟩ := freeBackup_absent (by omega) (by simp) h
  exact ⟨i, hname, fun location entry hreaches =>
    habsent location entry (hreaches.locate_eq hsound.linkFree)⟩

/-- In a tree with links too, a backup goes where nothing was. -/
theorem fills_of_backup {source : Path} {after : FileTree}
    (hsearch : freeBackup tree source (tree.entries.length + 1) 0 = .ok candidate)
    (hcopy : tree.copyFile source candidate = .ok after) : Fills tree after := by
  obtain ⟨i, -, habsent⟩ := freeBackup_absent (by omega) (by simp) hsearch
  obtain ⟨content, -, hwrite⟩ := copyFile_eq_ok hcopy
  exact writeFile_fills habsent hwrite

end SlimTemplate.Files
