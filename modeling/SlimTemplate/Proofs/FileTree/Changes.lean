import SlimTemplate.Proofs.FileTree.Address
import SlimTemplate.Proofs.Path

/-!
What operations do to a tree without links. Each changes the entries at the addresses of its paths
only; directories stay, and files elsewhere keep their content. These facts compose, so that a run
of operations is described by the locations that it may write to and remove.
-/

namespace SlimTemplate

def IsName (name : String) : Prop :=
  ¬ IsDots name ∧ '/' ∉ name.toList ∧ '\x00' ∉ name.toList

theorem IsName.isPart {name : String} (h : IsName name) : IsPart name :=
  ⟨fun heq => h.1 (.inl heq), fun heq => h.1 (.inr (.inl heq)), h.2.1⟩

namespace FileTree

/-- A tree as a file system holds it, without links: entries have proper names and lie in
directories. -/
structure Sound (tree : FileTree) : Prop where
  linkFree : tree.LinkFree
  named : ∀ location entry, tree.get? location = some entry → ∀ name ∈ location, IsName name
  inside : ∀ directory name entry, tree.get? (directory ++ [name]) = some entry →
    tree.get? directory = some .directory

theorem Sound.empty : (⟨[], []⟩ : FileTree).Sound := by
  refine ⟨fun location target => ?_, fun location entry hentry => ?_,
    fun directory name entry hentry => ?_⟩
  · rw [get?]
    split <;> simp
  · rw [get?] at hentry
    split at hentry
    · rename_i hnil
      simp [hnil]
    · simp at hentry
  · simp [get?] at hentry

/-- A location where a tree can hold an entry: a proper name in a directory. -/
structure IsSlot (tree : FileTree) (location : Location) : Prop where
  named : ∀ name ∈ location, IsName name
  inside : ∃ directory name, location = directory ++ [name] ∧
    tree.get? directory = some .directory

theorem IsSlot.ne_nil {tree : FileTree} {location : Location} (h : IsSlot tree location) :
    location ≠ [] := by
  obtain ⟨directory, name, rfl, -⟩ := h.inside
  simp

/-- A tree comes to be another one: its directories stay, files are overwritten or removed where
`lost` says, and files are written where `made` says. -/
structure Evolves (lost made : Location → Prop) (before after : FileTree) : Prop where
  working : after.working = before.working
  sound : before.Sound → after.Sound
  directories : ∀ location, before.get? location = some .directory →
    after.get? location = some .directory
  kept : ∀ location content, ¬ lost location → before.get? location = some (.file content) →
    after.get? location = some (.file content)
  found : ∀ location content, ¬ made location → after.get? location = some (.file content) →
    before.get? location = some (.file content)

section Evolves

variable {lost lost' made made' : Location → Prop} {before between after : FileTree}

theorem Evolves.refl (tree : FileTree) : Evolves lost made tree tree where
  working := rfl
  sound h := h
  directories _ h := h
  kept _ _ _ h := h
  found _ _ _ h := h

theorem Evolves.trans (h : Evolves lost made before between)
    (h' : Evolves lost made between after) : Evolves lost made before after where
  working := h'.working.trans h.working
  sound := h'.sound ∘ h.sound
  directories location hdirectory := h'.directories location (h.directories location hdirectory)
  kept location content hlost hfile :=
    h'.kept location content hlost (h.kept location content hlost hfile)
  found location content hmade hfile :=
    h.found location content hmade (h'.found location content hmade hfile)

theorem Evolves.mono (h : Evolves lost made before after)
    (hlost : ∀ location, lost location → lost' location)
    (hmade : ∀ location, made location → made' location) : Evolves lost' made' before after where
  working := h.working
  sound := h.sound
  directories := h.directories
  kept location content hnot := h.kept location content (hnot ∘ hlost location)
  found location content hnot := h.found location content (hnot ∘ hmade location)

end Evolves

theorem lookup_filter_ne (location other : Location) (entries : List (Location × Entry)) :
    (entries.filter (·.1 != location)).lookup other =
      if other = location then none else entries.lookup other := by
  induction entries with
  | nil => simp
  | cons head rest ih =>
      obtain ⟨key, entry⟩ := head
      by_cases hkey : key = location
      · subst hkey
        by_cases hother : other = key
        · simpa [hother] using ih
        · simpa [hother, List.lookup_cons, beq_false_of_ne hother] using ih
      · by_cases hother : other = key
        · subst hother
          simp [hkey]
        · simpa [List.lookup_cons, hkey, beq_false_of_ne hother] using ih

/-- An entry that is erased is gone; all others are as before. -/
theorem get?_erase (tree : FileTree) (location other : Location) (hroot : location ≠ []) :
    (tree.erase location).get? other =
      if other = location then none else tree.get? other := by
  by_cases h : other = []
  · subst h
    simp [get?, Ne.symm hroot]
  · simp [get?, erase, h, lookup_filter_ne]

theorem ne_nil_of_file {tree : FileTree} {location : Location} {content : Text.Bytes}
    (h : tree.get? location = some (.file content)) : location ≠ [] := by
  rintro rfl
  cases h

section Entries

variable {tree : FileTree} {location : Location}

/-- Writing an entry into a slot that is no directory keeps a tree sound. -/
theorem Sound.set {entry : Entry} (h : tree.Sound) (hslot : IsSlot tree location)
    (hnot : tree.get? location ≠ some .directory) (hlink : ∀ target, entry ≠ .link target) :
    (tree.set location entry).Sound := by
  have hdirectories : ∀ other, tree.get? other = some .directory →
      (tree.set location entry).get? other = some .directory := by
    intro other hother
    have hne : other ≠ location := fun heq => hnot (heq ▸ hother)
    rwa [get?_set _ _ _ _ hslot.ne_nil, if_neg hne]
  refine ⟨fun other target => ?_, fun other found => ?_, fun directory name found => ?_⟩
  · rw [get?_set _ _ _ _ hslot.ne_nil]
    split
    · exact fun heq => hlink target (Option.some.inj heq)
    · exact h.linkFree other target
  · rw [get?_set _ _ _ _ hslot.ne_nil]
    split
    · rename_i heq
      exact fun _ => heq ▸ hslot.named
    · exact h.named other found
  · rw [get?_set _ _ (directory ++ [name]) _ hslot.ne_nil]
    split
    · rename_i heq
      intro _
      obtain ⟨parent, last, hlocation, hparent⟩ := hslot.inside
      obtain ⟨rfl, -⟩ := List.append_inj' (heq.trans hlocation) rfl
      exact hdirectories directory hparent
    · exact fun hfound => hdirectories directory (h.inside directory name found hfound)

theorem Sound.erase {content : Text.Bytes} (h : tree.Sound)
    (hfile : tree.get? location = some (.file content)) : (tree.erase location).Sound := by
  have hroot := ne_nil_of_file hfile
  refine ⟨fun other target => ?_, fun other found => ?_, fun directory name found => ?_⟩
  · rw [get?_erase _ _ _ hroot]
    split
    · simp
    · exact h.linkFree other target
  · rw [get?_erase _ _ _ hroot]
    split
    · simp
    · exact h.named other found
  · rw [get?_erase _ _ (directory ++ [name]) hroot]
    split
    · simp
    · intro hfound
      have hdirectory := h.inside directory name found hfound
      have hne : directory ≠ location := fun heq => by simp [heq, hfile] at hdirectory
      rwa [get?_erase _ _ _ hroot, if_neg hne]

/-- Writing a file where no directory is changes nothing else. -/
theorem evolves_set_file (content : Text.Bytes) (hslot : IsSlot tree location)
    (hnot : tree.get? location ≠ some .directory) :
    Evolves (· = location) (· = location) tree (tree.set location (.file content)) where
  working := rfl
  sound h := h.set hslot hnot (by simp)
  directories other hother := by
    have hne : other ≠ location := fun heq => hnot (heq ▸ hother)
    rwa [get?_set _ _ _ _ hslot.ne_nil, if_neg hne]
  kept other found hother hfile := by
    rwa [get?_set _ _ _ _ hslot.ne_nil, if_neg hother]
  found other found hother hfile := by
    rwa [get?_set _ _ _ _ hslot.ne_nil, if_neg hother] at hfile

/-- Nothing is lost where nothing was. -/
theorem evolves_set_free (entry : Entry) (hslot : IsSlot tree location)
    (hfree : tree.get? location = none) (hlink : ∀ target, entry ≠ .link target) :
    Evolves (fun _ => False) (fun other => other = location ∧ entry ≠ .directory) tree
      (tree.set location entry) where
  working := rfl
  sound h := h.set hslot (by simp [hfree]) hlink
  directories other hother := by
    have hne : other ≠ location := fun heq => by simp [heq, hfree] at hother
    rwa [get?_set _ _ _ _ hslot.ne_nil, if_neg hne]
  kept other content _ hfile := by
    have hne : other ≠ location := fun heq => by simp [heq, hfree] at hfile
    rwa [get?_set _ _ _ _ hslot.ne_nil, if_neg hne]
  found other content hother hfile := by
    rw [get?_set _ _ _ _ hslot.ne_nil] at hfile
    split at hfile
    · rename_i heq
      refine absurd ⟨heq, ?_⟩ hother
      rw [Option.some.inj hfile]
      simp
    · exact hfile

theorem evolves_erase {content : Text.Bytes} (hfile : tree.get? location = some (.file content)) :
    Evolves (· = location) (fun _ => False) tree (tree.erase location) where
  working := rfl
  sound h := h.erase hfile
  directories other hother := by
    have hne : other ≠ location := fun heq => by simp [heq, hfile] at hother
    rwa [get?_erase _ _ _ (ne_nil_of_file hfile), if_neg hne]
  kept other found hother hfound := by
    rwa [get?_erase _ _ _ (ne_nil_of_file hfile), if_neg hother]
  found other found _ hfound := by
    rw [get?_erase _ _ _ (ne_nil_of_file hfile)] at hfound
    split at hfound
    · cases hfound
    · exact hfound

end Entries

section Operations

variable {tree after : FileTree} {p q : Path} {place : Place} {content : Text.Bytes}

/-- The address of a path that leads to a file, or to a free name, is a slot. -/
theorem Reaches.isSlot (hsound : tree.Sound) (hp : p.Proper) (h : Reaches tree p place)
    (hplace : place.entry? ≠ some .directory) : IsSlot tree (p.address tree.working) := by
  rw [← h.location_eq]
  cases place with
  | taken location entry =>
      have hentry : tree.get? location = some entry := h.leads.entry_eq
      rcases location.eq_nil_or_concat with rfl | ⟨directory, name, rfl⟩
      · exact absurd hentry.symm hplace
      · rw [List.concat_eq_append] at hentry ⊢
        exact ⟨hsound.named _ entry hentry, directory, name, rfl,
          hsound.inside directory name entry hentry⟩
  | free directory name =>
      obtain ⟨hdirectory, hdots, hmem⟩ := h.leads.free_name
      refine ⟨fun other hother => ?_, directory, name, rfl, hdirectory⟩
      cases List.mem_append.mp hother with
      | inl hinside => exact hsound.named directory .directory hdirectory other hinside
      | inr hlast =>
          rw [List.mem_singleton.mp hlast]
          have hnull := h.noNull
          simp only [Path.hasNull, List.any_eq_false] at hnull
          exact ⟨hdots, (hp name hmem).2.2, by simpa using hnull name hmem⟩

/-- What is written is a file, at the place that the path leads to. -/
theorem writeFile_ok (h : tree.writeFile p content = .ok after) :
    ∃ place, tree.locate .output p = .ok place ∧
      (∀ entry, place.entry? = some entry → ∃ old, entry = .file old) ∧
      after = tree.set place.location (.file content) := by
  rw [writeFile] at h
  split at h <;> cases h
  · refine ⟨_, ‹_›, fun entry hentry => ?_, rfl⟩
    cases hentry
    exact ⟨_, rfl⟩
  · refine ⟨_, ‹_›, fun entry hentry => ?_, rfl⟩
    cases hentry

theorem writeFile_eq_ok (hsound : tree.Sound) (h : tree.writeFile p content = .ok after) :
    ∃ place, Reaches tree p place ∧ place.entry? ≠ some .directory ∧
      after = tree.set (p.address tree.working) (.file content) := by
  obtain ⟨place, hlocate, hfile, rfl⟩ := writeFile_ok h
  have hreaches := reaches_of_locate hsound.linkFree hlocate
  refine ⟨place, hreaches, fun hdirectory => ?_, by rw [hreaches.location_eq]⟩
  obtain ⟨old, heq⟩ := hfile _ hdirectory
  cases heq

theorem writeFile_evolves (hsound : tree.Sound) (hp : p.Proper)
    (h : tree.writeFile p content = .ok after) :
    Evolves (· = p.address tree.working) (· = p.address tree.working) tree after := by
  obtain ⟨place, hreaches, hplace, rfl⟩ := writeFile_eq_ok hsound h
  exact evolves_set_file content (hreaches.isSlot hsound hp hplace) (hreaches.entry_eq ▸ hplace)

theorem removeFile_ok (h : tree.removeFile p = .ok after) :
    ∃ location entry, tree.locate .entry p = .ok (.taken location entry) ∧ entry ≠ .directory ∧
      after = tree.erase location := by
  rw [removeFile] at h
  split at h <;> cases h
  rename_i location entry hnot hlocate
  exact ⟨location, entry, hlocate, hnot, rfl⟩

theorem removeFile_eq_ok (hsound : tree.Sound) (h : tree.removeFile p = .ok after) :
    ∃ content, tree.get? (p.address tree.working) = some (.file content) ∧
      after = tree.erase (p.address tree.working) := by
  obtain ⟨location, entry, hlocate, hnot, rfl⟩ := removeFile_ok h
  have hreaches := reaches_of_locate hsound.linkFree hlocate
  rw [← hreaches.location_eq]
  cases entry with
  | file content => exact ⟨content, hreaches.leads.entry_eq, rfl⟩
  | directory => exact absurd rfl hnot
  | link target => exact absurd hreaches.leads.entry_eq (hsound.linkFree location target)

theorem removeFile_evolves (hsound : tree.Sound) (h : tree.removeFile p = .ok after) :
    Evolves (· = p.address tree.working) (fun _ => False) tree after := by
  obtain ⟨content, hfile, rfl⟩ := removeFile_eq_ok hsound h
  exact evolves_erase hfile

/-- A renaming takes a file or a link to the place of another, if that is not its own. -/
theorem rename_ok (h : tree.rename p q = .ok after) :
    ∃ source entry place, tree.locate .entry p = .ok (.taken source entry) ∧ entry ≠ .directory ∧
      tree.locate .entry q = .ok place ∧ place.entry? ≠ some .directory ∧
      (source = place.location ∧ after = tree ∨
        after = (tree.erase source).set place.location entry) := by
  rw [rename] at h
  split at h
  · cases h
  · cases h
  rename_i source target hsource htarget
  split at h
  · cases h
  cases source with
  | free directory name => cases h
  | taken location entry =>
      cases entry with
      | directory => cases h
      | file _ | link _ =>
          cases target with
          | free directory name =>
              exact ⟨_, _, _, hsource, by simp, htarget, by simp [Place.entry?],
                .inr (Except.ok.inj h).symm⟩
          | taken other old =>
              cases old with
              | directory => cases h
              | file _ | link _ =>
                  refine ⟨_, _, _, hsource, by simp, htarget, by simp [Place.entry?], ?_⟩
                  dsimp only at h
                  split at h
                  · exact .inl ⟨‹_›, (Except.ok.inj h).symm⟩
                  · exact .inr (Except.ok.inj h).symm

/-- A renaming that changes anything takes a file from one address to another. -/
theorem rename_eq_ok (hsound : tree.Sound) (h : tree.rename p q = .ok after) :
    after = tree ∨ ∃ content place, tree.get? (p.address tree.working) = some (.file content) ∧
      Reaches tree q place ∧ place.entry? ≠ some .directory ∧
      after = (tree.erase (p.address tree.working)).set (q.address tree.working)
        (.file content) := by
  obtain ⟨source, entry, place, hsource, hentry, htarget, hplace, hafter⟩ := rename_ok h
  have hsource := reaches_of_locate hsound.linkFree hsource
  have htarget := reaches_of_locate hsound.linkFree htarget
  cases hafter with
  | inl hsame => exact .inl hsame.2
  | inr hmoved =>
      rw [← hsource.location_eq, ← htarget.location_eq]
      cases entry with
      | directory => exact absurd rfl hentry
      | link target => exact absurd hsource.leads.entry_eq (hsound.linkFree source target)
      | file content =>
          exact .inr ⟨content, place, hsource.leads.entry_eq, htarget, hplace, hmoved⟩

theorem rename_evolves (hsound : tree.Sound) (hq : q.Proper) (h : tree.rename p q = .ok after) :
    Evolves (fun location => location = p.address tree.working ∨ location = q.address tree.working)
      (· = q.address tree.working) tree after := by
  rcases rename_eq_ok hsound h with rfl | ⟨content, place, hfile, hreaches, hplace, rfl⟩
  · exact Evolves.refl after
  · have herase := evolves_erase hfile
    have hnot : (tree.erase (p.address tree.working)).get? (q.address tree.working) ≠
        some .directory := by
      rw [get?_erase _ _ _ (ne_nil_of_file hfile)]
      split
      · simp
      · exact hreaches.entry_eq ▸ hplace
    have hslot : IsSlot (tree.erase (p.address tree.working)) (q.address tree.working) := by
      obtain ⟨hnamed, directory, name, hconcat, hdirectory⟩ := hreaches.isSlot hsound hq hplace
      exact ⟨hnamed, directory, name, hconcat, herase.directories directory hdirectory⟩
    have hset := evolves_set_file content hslot hnot
    exact (herase.mono (fun _ => .inl) (fun _ => False.elim)).trans
      (hset.mono (fun _ => .inr) (fun _ => id))

theorem createDirectory_ok (h : tree.createDirectory p = .ok after) :
    ∃ directory name, tree.locate .entry p = .ok (.free directory name) ∧
      after = tree.set (directory ++ [name]) .directory := by
  rw [createDirectory] at h
  split at h <;> cases h
  exact ⟨_, _, ‹_›, rfl⟩

theorem createDirectory_evolves (hsound : tree.Sound) (hp : p.Proper)
    (h : tree.createDirectory p = .ok after) :
    Evolves (fun _ => False) (fun _ => False) tree after := by
  obtain ⟨directory, name, hlocate, rfl⟩ := createDirectory_ok h
  have hreaches := reaches_of_locate hsound.linkFree hlocate
  have hslot := hreaches.isSlot hsound hp (by simp [Place.entry?])
  rw [← hreaches.location_eq] at hslot
  exact (evolves_set_free .directory hslot hreaches.leads.entry_eq (by simp)).mono
    (fun _ => id) (fun _ hmade => hmade.2 rfl)

theorem excuseDirectory_eq_ok {e : OsError} (h : tree.excuseDirectory p e = .ok after) :
    after = tree := by
  rw [excuseDirectory] at h
  split at h <;> cases h
  rfl

/-- What each directory that is made keeps, all those made on the way keep, even if a later one
fails. -/
theorem createDirectories_keeps {R : FileTree → Prop} {P : Path → Prop}
    (hparent : ∀ p, P p → P p.parent)
    (hmake : ∀ tree after p, P p → R tree → tree.createDirectory p = .ok after → R after)
    (hp : P p) (h : R tree) : R (tree.createDirectories p).1 := by
  fun_induction createDirectories tree p with
  | case1 p after hmade => exact hmake tree after p hp h hmade
  | case2 p finish e _ _ =>
      cases hexcuse : tree.excuseDirectory p e with
      | ok found =>
          cases excuseDirectory_eq_ok hexcuse
          exact h
      | error e => exact h
  | case3 p e _ _ _ => exact h
  | case4 p e _ _ _ _ between e' hmade ih | case6 p e _ _ _ _ between hmade e' _ _ ih =>
      have hbetween := ih (hparent p hp)
      rwa [hmade] at hbetween
  | case5 p e _ _ _ _ between hmade after hlast ih =>
      have hbetween := ih (hparent p hp)
      rw [hmade] at hbetween
      exact hmake between after p hp hbetween hlast
  | case7 p finish e _ _ _ _ between hmade e' _ _ ih =>
      have hbetween := ih (hparent p hp)
      rw [hmade] at hbetween
      cases hexcuse : between.excuseDirectory p e' with
      | ok found =>
          cases excuseDirectory_eq_ok hexcuse
          exact hbetween
      | error e => exact hbetween

theorem createDirectories_evolves (hsound : tree.Sound) (hp : p.Proper) :
    Evolves (fun _ => False) (fun _ => False) tree (tree.createDirectories p).1 := by
  refine createDirectories_keeps (P := Path.Proper) (fun p hproper => hproper.parent) ?_ hp
    (Evolves.refl tree)
  intro between after p hproper hbefore hmade
  exact hbefore.trans (createDirectory_evolves (hbefore.sound hsound) hproper hmade)

theorem copyFile_eq_ok (h : tree.copyFile p q = .ok after) :
    ∃ content, tree.readFile p = .ok content ∧ tree.writeFile q content = .ok after := by
  rw [copyFile] at h
  cases hread : tree.readFile p with
  | error e =>
      rw [hread] at h
      cases h
  | ok content =>
      rw [hread] at h
      dsimp only [bind, Except.bind] at h
      split at h
      · cases h
      · exact ⟨content, rfl, h⟩

theorem isPresent_of_reaches (hsound : tree.Sound) {location : Location} {entry : Entry}
    (h : Reaches tree p (.taken location entry)) : tree.isPresent p = .ok true := by
  rw [isPresent, probe, h.locate_eq hsound.linkFree]

theorem isFile_eq_true (hsound : tree.Sound) (h : tree.isFile p = .ok true) :
    ∃ location content, Reaches tree p (.taken location (.file content)) := by
  rw [isFile, probe] at h
  split at h
  · rename_i location entry hlocate
    have hreaches := reaches_of_locate hsound.linkFree hlocate
    cases entry with
    | file content => exact ⟨location, content, hreaches⟩
    | directory | link _ => cases h
  · cases h
  · cases h
  · cases h

theorem isFile_of_readFile (h : tree.readFile p = .ok content) : tree.isFile p = .ok true := by
  rw [readFile] at h
  split at h
  · rename_i hlocate
    rw [isFile, probe, hlocate]
  all_goals cases h

/-- A file that is not lost is read as before. -/
theorem Evolves.readFile {lost made : Location → Prop} {before after : FileTree} {p : Path}
    {content : Text.Bytes} (h : Evolves lost made before after) (hsound : before.Sound)
    (hnot : ¬ lost (p.address before.working)) (hread : before.readFile p = .ok content) :
    after.readFile p = .ok content := by
  obtain ⟨location, hreaches⟩ := (readFile_eq_ok_iff hsound.linkFree).mp hread
  have hfile := h.kept _ content hnot hreaches.entry_eq
  exact (readFile_eq_ok_iff (h.sound hsound).linkFree).mpr
    ⟨_, hreaches.later h.working h.directories hfile⟩

/-- A file that is not lost stays one, and can be read if it could be before. -/
theorem Evolves.isFile {lost made : Location → Prop} {before after : FileTree} {p : Path}
    (h : Evolves lost made before after) (hsound : before.Sound)
    (hnot : ¬ lost (p.address before.working)) (hfile : before.isFile p = .ok true) :
    after.isFile p = .ok true ∧ after.readFile p = before.readFile p := by
  obtain ⟨location, content, hreaches⟩ := isFile_eq_true hsound hfile
  have hbefore := (readFile_eq_ok_iff hsound.linkFree).mpr ⟨location, hreaches⟩
  have hafter := h.readFile hsound hnot hbefore
  exact ⟨isFile_of_readFile hafter, hafter.trans hbefore.symm⟩

/-- A copy to a free path holds the content of the original, and nothing is lost for it. -/
theorem copyFile_evolves {tree after : FileTree} {p q : Path} (hsound : tree.Sound) (hq : q.Proper)
    (hfree : ∀ location entry, ¬ Reaches tree q (.taken location entry))
    (h : tree.copyFile p q = .ok after) :
    Evolves (fun _ => False) (· = q.address tree.working) tree after ∧
      ∃ content, tree.readFile p = .ok content ∧ after.readFile q = .ok content := by
  obtain ⟨content, hread, hwrite⟩ := copyFile_eq_ok h
  obtain ⟨place, hreaches, hplace, rfl⟩ := writeFile_eq_ok hsound hwrite
  have hslot := hreaches.isSlot hsound hq hplace
  have hnone : tree.get? (q.address tree.working) = none := by
    rw [hreaches.entry_eq]
    cases place with
    | taken location entry => exact absurd hreaches (hfree location entry)
    | free directory name => rfl
  have hevolves := (evolves_set_free (.file content) hslot hnone (by simp)).mono
    (fun _ => id) (fun _ hmade => hmade.1)
  have hfile : (tree.set (q.address tree.working) (.file content)).get? (q.address tree.working) =
      some (.file content) := by
    rw [get?_set _ _ _ _ hslot.ne_nil, if_pos rfl]
  refine ⟨hevolves, content, hread, (readFile_eq_ok_iff (hevolves.sound hsound).linkFree).mpr ?_⟩
  exact ⟨_, hreaches.later hevolves.working hevolves.directories hfile⟩

/-- Going up leads to a directory. -/
theorem Leads.entry_of_up (hsound : tree.Sound) {here : Location} {names : List String}
    (h : Leads tree here (names ++ [".."]) place) : place.entry? = some .directory := by
  induction names generalizing here with
  | nil =>
      cases h with
      | dots hdirectory _ hrest =>
          cases hrest with
          | here hentry =>
              change tree.get? here.dropLast = _ at hentry
              rcases here.eq_nil_or_concat with rfl | ⟨directory, name, rfl⟩
              · exact hentry.symm
              · rw [List.concat_eq_append] at hdirectory hentry
                rw [List.dropLast_concat, hsound.inside directory name _ hdirectory] at hentry
                exact hentry.symm
      | free _ hname _ _ => exact absurd (.inr (.inr rfl)) hname
      | down _ hname _ _ _ => exact absurd (.inr (.inr rfl)) hname
  | cons name names ih =>
      generalize hcons : name :: names ++ [".."] = all at h
      cases h with
      | here _ => cases hcons
      | free _ _ _ _ => simp at hcons
      | dots _ _ hrest | down _ _ _ _ hrest =>
          cases hcons
          exact ih hrest

/-- A path to a file ends in the name of the file, after the names of its directory. -/
theorem Reaches.directory_of_file (hsound : tree.Sound) (hparts : p.parts ≠ [])
    (h : Reaches tree p (.taken location (.file content))) :
    IsName p.name ∧ Leads tree (start tree.working p.anchor) p.parent.parts
      (.taken (p.parent.address tree.working) .directory) := by
  have hleads := h.leads
  rw [← Path.child_parent_name hparts] at hleads
  obtain ⟨directory, hinit, hlast⟩ := hleads.init
  have haddress : directory = p.parent.address tree.working := hinit.location_eq
  rw [← haddress]
  refine ⟨?_, hinit⟩
  generalize p.name = name at hlast
  cases hlast with
  | dots hdirectory hdots hrest =>
      -- dots lead from a directory to a directory
      have hentry : tree.get? (Path.enter directory name) = some (.file content) := by
        cases hrest
        assumption
      rcases hdots with rfl | rfl | rfl
      · cases hdirectory.symm.trans hentry
      · cases hdirectory.symm.trans hentry
      · have hup : Leads tree directory ([] ++ [".."]) (.taken location (.file content)) :=
          .dots hdirectory (.inr (.inr rfl)) hrest
        cases hup.entry_of_up hsound
  | down _ _ _ hentry hrest => exact hsound.named _ _ hentry name (by simp)

theorem Reaches.address_of_file (hsound : tree.Sound) (hparts : p.parts ≠ [])
    (h : Reaches tree p (.taken location (.file content))) :
    p.address tree.working = p.parent.address tree.working ++ [p.name] := by
  have hname := (h.directory_of_file hsound hparts).1
  have haddress := Path.address_child tree.working p.parent hname.1
  rwa [Path.child_parent_name hparts] at haddress

end Operations

end FileTree
end SlimTemplate
