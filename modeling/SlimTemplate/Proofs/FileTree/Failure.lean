import SlimTemplate.Proofs.FileTree.Retention

/-!
How operations fail. A path is refused for a null byte only if it has one, a path below one that is
too long is too long as well, and whatever is made or written is there to be found afterwards.
-/

namespace SlimTemplate

theorem Path.hasNull_child (p : Path) (name : String) :
    (p.child name).hasNull = (p.hasNull || name.toList.contains '\x00') := by
  simp [hasNull, child]

theorem Path.hasNull_parent {p : Path} (h : p.hasNull = false) : p.parent.hasNull = false := by
  simp only [hasNull, List.any_eq_false, parent] at h ⊢
  exact fun name hname => h name (List.dropLast_subset _ hname)

theorem utf8ByteSize_intercalate_le (s : String) (texts : List String) (last : String) :
    (s.intercalate texts).utf8ByteSize ≤ (s.intercalate (texts ++ [last])).utf8ByteSize := by
  induction texts with
  | nil => simp
  | cons text rest ih =>
      cases rest with
      | nil =>
          rw [List.singleton_append, String.intercalate_cons_cons]
          simp only [String.intercalate_singleton, String.utf8ByteSize_append]
          omega
      | cons next rest =>
          rw [List.cons_append] at ih ⊢
          rw [List.cons_append, String.intercalate_cons_cons, String.intercalate_cons_cons]
          simp only [String.utf8ByteSize_append]
          omega

theorem Path.utf8ByteSize_child_le (p : Path) {name : String} (hname : 0 < name.utf8ByteSize) :
    p.text.utf8ByteSize ≤ (p.child name).text.utf8ByteSize := by
  have hchild : ¬ ((p.child name).anchor = .here ∧ (p.child name).parts = []) := by
    simp [child]
  rw [text, text, if_neg hchild]
  split
  · rename_i hhere
    have hone : ".".utf8ByteSize = 1 := by decide
    simp only [child, hhere.1, hhere.2, Anchor.text, List.nil_append, String.intercalate_singleton,
      String.utf8ByteSize_append, hone]
    omega
  · have hmore := utf8ByteSize_intercalate_le "/" p.parts name
    simp only [child, String.utf8ByteSize_append]
    omega

namespace FileTree

section Errno

variable {tree after : FileTree} {aim : Aim} {p q : Path} {e : OsError} {content : Text.Bytes}

theorem locate_child_tooLong {name : String} (hname : 0 < name.utf8ByteSize)
    (hnull : (p.child name).hasNull = false) (h : tree.locate .target p = .error .nameTooLong) :
    tree.locate .target (p.child name) = .error .nameTooLong := by
  rw [locate, hnull, if_neg (by simp)]
  split
  · rfl
  · rename_i hlong
    have hshort : ¬ maxPathBytes < p.text.utf8ByteSize := by
      have hle := p.utf8ByteSize_child_le hname
      omega
    have hparent : p.hasNull = false := by
      rw [Path.hasNull_child, Bool.or_eq_false_iff] at hnull
      exact hnull.1
    rw [locate, hparent, if_neg (by simp), if_neg hshort] at h
    exact walk_append_tooLong h [name]

theorem writeFile_errno (hnull : p.hasNull = false) (h : tree.writeFile p content = .error e) :
    e.errno ≠ .nullByte := by
  rw [writeFile] at h
  split at h
  · cases h
  · cases h
    simp
  · cases h
  · rename_i errno hlocate
    cases h
    rintro rfl
    exact locate_ne_nullByte hnull hlocate

theorem removeFile_errno (hnull : p.hasNull = false) (h : tree.removeFile p = .error e) :
    e.errno ≠ .nullByte := by
  rw [removeFile] at h
  split at h
  · cases h
    simp
  · cases h
  · cases h
    simp
  · rename_i errno hlocate
    cases h
    rintro rfl
    exact locate_ne_nullByte hnull hlocate

theorem rename_errno (hp : p.hasNull = false) (hq : q.hasNull = false)
    (h : tree.rename p q = .error e) : e.errno ≠ .nullByte := by
  rw [rename] at h
  split at h
  · rename_i errno hlocate
    cases h
    rintro rfl
    exact locate_ne_nullByte hp hlocate
  · rename_i errno hlocate _
    cases h
    rintro rfl
    exact locate_ne_nullByte hq hlocate
  · split at h
    · cases h
      simp
    · split at h
      · cases h
        simp
      · cases h
        simp
      · cases h
        simp
      · split at h <;> cases h
      · cases h

theorem copyFile_errno {bytes : Text.Bytes} (hread : tree.readFile p = .ok bytes)
    (hq : q.hasNull = false) (h : tree.copyFile p q = .error e) : e.errno ≠ .nullByte := by
  rw [copyFile, hread] at h
  dsimp only [bind, Except.bind] at h
  split at h
  · cases h
    simp
  · exact writeFile_errno hq h

theorem createDirectory_errno (hnull : p.hasNull = false) (h : tree.createDirectory p = .error e) :
    e.errno ≠ .nullByte := by
  rw [createDirectory] at h
  split at h
  · cases h
    simp
  · cases h
  · rename_i errno hlocate
    cases h
    rintro rfl
    exact locate_ne_nullByte hnull hlocate

theorem excuseDirectory_errno {e' : OsError} (he : e.errno ≠ .nullByte)
    (h : tree.excuseDirectory p e = .error e') : e'.errno ≠ .nullByte := by
  rw [excuseDirectory] at h
  split at h
  · cases h
  · cases h
    exact he
  · rename_i found hfound
    cases h
    rw [(probe_eq_error_iff.mp hfound).2]
    simp

theorem createDirectories_errno (hnull : p.hasNull = false)
    (h : (tree.createDirectories p).2 = .error e) : e.errno ≠ .nullByte := by
  fun_induction createDirectories tree p with
  | case1 p after hmade => cases h
  | case2 p finish e' hfailed _ =>
      have he := createDirectory_errno hnull hfailed
      cases hexcuse : tree.excuseDirectory p e' with
      | ok found =>
          rw [hexcuse] at h
          cases h
      | error last =>
          rw [hexcuse] at h
          cases h
          exact excuseDirectory_errno he hexcuse
  | case3 p e' hfailed _ _ =>
      cases h
      exact createDirectory_errno hnull hfailed
  | case4 p e' _ _ _ _ between last hmade ih =>
      cases h
      exact ih (Path.hasNull_parent hnull) (by rw [hmade])
  | case5 => cases h
  | case6 p e' _ _ _ _ between hmade last hfailed _ _ =>
      cases h
      exact createDirectory_errno hnull hfailed
  | case7 p finish e' _ _ _ _ between hmade last hfailed _ _ =>
      have he := createDirectory_errno hnull hfailed
      cases hexcuse : between.excuseDirectory p last with
      | ok found =>
          rw [hexcuse] at h
          cases h
      | error other =>
          rw [hexcuse] at h
          cases h
          exact excuseDirectory_errno he hexcuse

theorem createDirectories_of_hasNull (hnull : p.hasNull = true) :
    tree.createDirectories p = (tree, .error ⟨.nullByte, p.text, none⟩) := by
  have hlocate : ∀ aim, tree.locate aim p = .error .nullByte := by
    intro aim
    rw [locate, if_pos hnull]
  have hmade : tree.createDirectory p = .error ⟨.nullByte, p.text, none⟩ := by
    rw [createDirectory, hlocate]
  have hfound : tree.isDirectory p = .ok false := by
    rw [isDirectory, probe, hlocate]
  rw [createDirectories, hmade]
  simp [excuseDirectory, hfound]

end Errno

section Made

variable {tree after : FileTree} {aim : Aim} {p : Path} {content : Text.Bytes}

theorem createDirectory_isDirectory (h : tree.createDirectory p = .ok after) :
    after.isDirectory p = .ok true := by
  obtain ⟨directory, name, hlocate, rfl⟩ := createDirectory_ok h
  have hfree : tree.get? (directory ++ [name]) = none := locate_get? hlocate
  have hfills : Fills tree (tree.set (directory ++ [name]) .directory) :=
    fills_set hfree (by simp)
  have hentry : (tree.set (directory ++ [name]) .directory).get? (directory ++ [name]) =
      some .directory := by
    rw [get?_set _ _ _ _ (by simp), if_pos rfl]
  have htaken := hfills.retains.locate_taken hlocate hentry (by simp)
  rw [isDirectory, probe, htaken]
  rfl

theorem excuseDirectory_isDirectory {e : OsError} (h : tree.excuseDirectory p e = .ok after) :
    after.isDirectory p = .ok true := by
  rw [excuseDirectory] at h
  split at h <;> cases h
  assumption

/-- A directory that was made is there. -/
theorem createDirectories_isDirectory (h : (tree.createDirectories p).2 = .ok ()) :
    (tree.createDirectories p).1.isDirectory p = .ok true := by
  fun_induction createDirectories tree p with
  | case1 p after hmade => exact createDirectory_isDirectory hmade
  | case2 p finish e _ _ =>
      cases hexcuse : tree.excuseDirectory p e with
      | ok found => exact excuseDirectory_isDirectory hexcuse
      | error e =>
          rw [hexcuse] at h
          cases h
  | case3 | case4 | case6 => cases h
  | case5 p e _ _ _ _ between hmade after hlast ih => exact createDirectory_isDirectory hlast
  | case7 p finish e _ _ _ _ between hmade e' _ _ ih =>
      cases hexcuse : between.excuseDirectory p e' with
      | ok found => exact excuseDirectory_isDirectory hexcuse
      | error e =>
          rw [hexcuse] at h
          cases h

theorem retains_set {location : Location} {entry : Entry} (hroot : location ≠ [])
    (hdirectory : tree.get? location ≠ some .directory)
    (hlink : ∀ target, tree.get? location ≠ some (.link target)) :
    Retains tree (tree.set location entry) where
  working := rfl
  directories other hother := by
    have hne : other ≠ location := fun heq => hdirectory (heq ▸ hother)
    rwa [get?_set _ _ _ _ hroot, if_neg hne]
  links other target hother := by
    have hne : other ≠ location := fun heq => hlink target (heq ▸ hother)
    rwa [get?_set _ _ _ _ hroot, if_neg hne]

theorem retains_erase {location : Location} (hroot : location ≠ [])
    (hdirectory : tree.get? location ≠ some .directory)
    (hlink : ∀ target, tree.get? location ≠ some (.link target)) :
    Retains tree (tree.erase location) where
  working := rfl
  directories other hother := by
    have hne : other ≠ location := fun heq => hdirectory (heq ▸ hother)
    rwa [get?_erase _ _ _ hroot, if_neg hne]
  links other target hother := by
    have hne : other ≠ location := fun heq => hlink target (heq ▸ hother)
    rwa [get?_erase _ _ _ hroot, if_neg hne]

theorem retains_writeFile (h : tree.writeFile p content = .ok after) : Retains tree after := by
  obtain ⟨place, hlocate, hfile, rfl⟩ := writeFile_ok h
  have hget := locate_get? hlocate
  have hplain : ∀ entry, (∀ old, entry ≠ .file old) → tree.get? place.location ≠ some entry := by
    intro entry hnot hentry
    obtain ⟨old, heq⟩ := hfile entry (hget ▸ hentry)
    exact hnot old heq
  have hdirectory := hplain .directory (by simp)
  refine retains_set (fun hroot => hdirectory ?_) hdirectory fun target => hplain _ (by simp)
  rw [hroot]
  rfl

/-- What was written is found, also where it was written through a link. -/
theorem locate_of_writeFile (h : tree.writeFile p content = .ok after) :
    ∃ location, after.locate .target p = .ok (.taken location (.file content)) := by
  have hretains := retains_writeFile h
  obtain ⟨place, hlocate, hfile, rfl⟩ := writeFile_ok h
  have hroot : place.location ≠ [] := by
    intro hroot
    have hget := locate_get? hlocate
    rw [hroot] at hget
    obtain ⟨old, heq⟩ := hfile .directory hget.symm
    cases heq
  have hentry : (tree.set place.location (.file content)).get? place.location =
      some (.file content) := by
    rw [get?_set _ _ _ _ hroot, if_pos rfl]
  exact ⟨_, hretains.locate_taken hlocate hentry (by simp)⟩

theorem locate_target_of_entry {location : Location} {entry : Entry}
    (h : tree.locate .entry p = .ok (.taken location entry))
    (hnot : ∀ target, entry ≠ .link target) :
    tree.locate .target p = .ok (.taken location entry) :=
  (Retains.refl tree).locate_taken h (locate_get? h) hnot

theorem removeFile_of_directory {location : Location}
    (h : tree.locate .entry p = .ok (.taken location .directory)) :
    tree.removeFile p = .error ⟨.isDirectory, p.text, none⟩ := by
  rw [removeFile, h]

theorem removeFile_of_taken {location : Location} {entry : Entry}
    (h : tree.locate .entry p = .ok (.taken location entry)) (hnot : entry ≠ .directory) :
    tree.removeFile p = .ok (tree.erase location) := by
  rw [removeFile, h]
  cases entry with
  | directory => exact absurd rfl hnot
  | file _ | link _ => rfl

/-- A file is not written under a name that is too long, nor over a directory. -/
theorem site_of_writeFile (h : tree.writeFile p content = .ok after) :
    tree.locate .target p ≠ .error .nameTooLong ∧
      ∀ location, tree.locate .entry p ≠ .ok (.taken location .directory) := by
  obtain ⟨place, hlocate, hfile, -⟩ := writeFile_ok h
  have htarget := locate_target hlocate
  refine ⟨by simp [htarget], fun location hdirectory => ?_⟩
  cases htarget.symm.trans (locate_target_of_entry hdirectory (by simp))
  obtain ⟨old, heq⟩ := hfile .directory rfl
  cases heq

/-- A path whose entry is removed leads to a free name or nowhere. -/
theorem walk_erased {links : Nat} {here location : Location} {names : List String} {entry : Entry}
    (hentry : entry ≠ .directory)
    (hwalk : tree.walk .entry links here names = .ok (.taken location entry)) :
    (tree.erase location).walk .target links here names = .error .noEntry ∨
      ∃ directory name,
        (tree.erase location).walk .target links here names = .ok (.free directory name) := by
  have hget : tree.get? location = some entry := walk_get? hwalk
  have hroot : location ≠ [] := by
    rintro rfl
    exact hentry (Option.some.inj hget).symm
  have hgone : (tree.erase location).get? location = none := by
    rw [get?_erase _ _ _ hroot, if_pos rfl]
  have hkept : ∀ other, other ≠ location →
      (tree.erase location).get? other = tree.get? other := by
    intro other hother
    rw [get?_erase _ _ _ hroot, if_neg hother]
  have hdirectories : ∀ other, tree.get? other = some .directory →
      (tree.erase location).get? other = some .directory := by
    intro other hdirectory
    rw [hkept other fun heq => hentry (Option.some.inj (hget.symm.trans (heq ▸ hdirectory))),
      hdirectory]
  replace hwalk := walks_of_walk hwalk
  induction hwalk with
  | here _ hplace =>
      cases hplace
      exact .inl (walk_nowhere hgone)
  | dots hdirectory hname _ ih => rwa [walk_dots (hdirectories _ hdirectory) hname]
  | free _ _ _ _ hplace => cases hplace
  | file hdirectory hname hlength _ hplace | unfollowed hdirectory hname hlength _ _ hplace =>
      cases hplace
      exact .inr ⟨_, _, walk_free (hdirectories _ hdirectory) hname hlength hgone⟩
  | @link _ here name _ rest hdirectory hname hlength hfound hlast _ ih =>
      have hdirectory := hdirectories _ hdirectory
      by_cases hremoved : here ++ [name] = location
      · have hmore : rest ≠ [] := fun hnil => hlast ⟨hnil, rfl⟩
        exact .inl (walk_missing hdirectory hname hlength (by simp) hmore (hremoved ▸ hgone))
      · rwa [walk_link hdirectory hname hlength (by simp) (by simp)
          ((hkept _ hremoved).trans hfound)]
  | down hdirectory hname hlength hinner _ ih =>
      rwa [walk_down (hdirectories _ hdirectory) hname hlength (by simp) (hdirectories _ hinner)
        (by simp)]

/-- A file that was removed is not there. -/
theorem isPresent_of_removeFile (h : tree.removeFile p = .ok after) :
    after.isPresent p = .ok false := by
  obtain ⟨location, entry, hlocate, hentry, rfl⟩ := removeFile_ok h
  refine isPresent_eq_false ?_
  rw [locate_eq_walk hlocate]
  exact walk_erased hentry (walk_of_locate hlocate)

theorem rename_directories {q : Path} (h : tree.rename p q = .ok after) {location : Location}
    (hdirectory : tree.get? location = some .directory) :
    after.get? location = some .directory := by
  obtain ⟨source, entry, place, hsource, hentry, htarget, hplace, hafter⟩ := rename_ok h
  rcases hafter with ⟨-, rfl⟩ | rfl
  · exact hdirectory
  · have hsourceGet : tree.get? source = some entry := locate_get? hsource
    have htargetGet := locate_get? htarget
    have hother : location ≠ place.location := by
      rintro rfl
      exact hplace (htargetGet.symm.trans hdirectory)
    have hmoved : location ≠ source := by
      rintro rfl
      exact hentry (Option.some.inj (hsourceGet.symm.trans hdirectory))
    have hroots : source ≠ [] ∧ place.location ≠ [] := by
      refine ⟨?_, fun hroot => ?_⟩
      · rintro rfl
        exact hentry (Option.some.inj hsourceGet).symm
      · rw [hroot] at htargetGet
        exact hplace htargetGet.symm
    rwa [get?_set _ _ _ _ hroots.2, if_neg hother, get?_erase _ _ _ hroots.1, if_neg hmoved]

end Made

end FileTree
end SlimTemplate
