import Mathlib.Data.Nat.Find
import SlimTemplate.Proofs.Files.Hindrances

/-!
Backups made one after another. The search for a name always comes to a free one, because the
backups of a file have different names and a tree has finitely many entries. Main statement: as long
as no path that is tried is too long, each call makes a new file at the first free name, so that no
backup is ever overwritten.
-/

namespace SlimTemplate.Files

open FileTree SlimTemplate.Action

/-- A path that can be looked up: neither its last name nor its text is too long. -/
structure IsShort (p : Path) : Prop where
  name : p.name.utf8ByteSize ≤ maxNameBytes
  text : p.text.utf8ByteSize ≤ maxPathBytes

instance (p : Path) : Decidable (IsShort p) :=
  decidable_of_iff (p.name.utf8ByteSize ≤ maxNameBytes ∧ p.text.utf8ByteSize ≤ maxPathBytes)
    ⟨fun h => ⟨h.1, h.2⟩, fun h => ⟨h.name, h.text⟩⟩

def backupSpot (tree : FileTree) (p : Path) (n : Nat) : Location :=
  (backupPath p n).address tree.working

def untaken (tree : FileTree) (p : Path) (n : Nat) : Nat :=
  (List.range n).countP fun i => (tree.get? (backupSpot tree p i)).isNone

def createBackups (p : Path) : Nat → Action Trouble (List Path)
  | 0 => return []
  | k + 1 => do
      let backup ← createBackup p
      let later ← createBackups p k
      return backup :: later

/-- Backups were made under the first free names, in order, and nothing else was changed. -/
structure Backups (tree : FileTree) (p : Path) (content : Text.Bytes) (indices : List Nat)
    (after : FileTree) : Prop where
  ordered : indices.Pairwise (· < ·)
  free : ∀ n ∈ indices, tree.get? (backupSpot tree p n) = none
  used : ∀ n ∈ indices, ∀ i < n, i ∉ indices → tree.get? (backupSpot tree p i) ≠ none
  copies : ∀ n ∈ indices, after.readFile (backupPath p n) = .ok content
  others : ∀ location, (∀ n ∈ indices, location ≠ backupSpot tree p n) →
    after.get? location = tree.get? location
  working : after.working = tree.working
  sound : after.Sound

section Lookup

variable {tree : FileTree} {p : Path} {location : Location} {content : Text.Bytes} {n : Nat}

theorem backupSpot_eq (tree : FileTree) (p : Path) (n : Nat) :
    backupSpot tree p n = p.parent.address tree.working ++ [backupName p.name n] :=
  Path.address_child _ _ (not_isDots_backupName p.name n)

theorem backupSpot_ne_nil : backupSpot tree p n ≠ [] := by
  rw [backupSpot_eq]
  simp

theorem backupPath_injective (p : Path) : Function.Injective (backupPath p) := by
  intro n m h
  have hparts := congrArg Path.parts h
  simp only [backupPath, Path.child, List.append_cancel_left_eq, List.cons.injEq,
    and_true] at hparts
  exact backupName_injective p.name hparts

theorem backupSpot_injective (tree : FileTree) (p : Path) :
    Function.Injective (backupSpot tree p) := by
  intro n m h
  rw [backupSpot_eq, backupSpot_eq, List.append_cancel_left_eq, List.cons.injEq] at h
  exact backupName_injective p.name h.1

theorem isName_backupName {name : String} (h : IsName name) (n : Nat) :
    IsName (backupName name n) :=
  ⟨not_isDots_backupName name n, backupName_slash n h.2.1,
    notMem_backupName n (by decide) (by decide) h.2.2⟩

theorem name_backupPath (p : Path) (n : Nat) : (backupPath p n).name = backupName p.name n := by
  simp [backupPath, Path.child, Path.name]

/-- A backup path leads to its spot, if it can be looked up. -/
theorem reaches_backupPath (hsound : tree.Sound) (hparts : p.parts ≠ [])
    (h : Reaches tree p (.taken location (.file content))) (hshort : IsShort (backupPath p n)) :
    ∃ place, Reaches tree (backupPath p n) place ∧
      place.entry? = tree.get? (backupSpot tree p n) := by
  obtain ⟨hname, hleads⟩ := h.directory_of_file hsound hparts
  have hdirectory : tree.get? (p.parent.address tree.working) = some .directory := hleads.entry_eq
  have hdots := not_isDots_backupName p.name n
  have hlength := hshort.name
  rw [name_backupPath] at hlength
  have hnull := hasNull_backupPath h.noNull hname.2.2 n
  rw [backupSpot_eq]
  cases hentry : tree.get? (p.parent.address tree.working ++ [backupName p.name n]) with
  | none =>
      exact ⟨_, ⟨hnull, hshort.text, hleads.append (.free hdirectory hdots hlength hentry)⟩, rfl⟩
  | some entry =>
      have hlast : Leads tree (p.parent.address tree.working) [backupName p.name n]
          (.taken _ entry) := .down hdirectory hdots hlength hentry (.here hentry)
      exact ⟨_, ⟨hnull, hshort.text, hleads.append hlast⟩, rfl⟩

theorem isPresent_backupPath (hsound : tree.Sound) (hparts : p.parts ≠ [])
    (h : Reaches tree p (.taken location (.file content))) (hshort : IsShort (backupPath p n)) :
    tree.isPresent (backupPath p n) = .ok (tree.get? (backupSpot tree p n)).isSome := by
  obtain ⟨place, hreaches, hplace⟩ := reaches_backupPath hsound hparts h hshort
  rw [isPresent, FileTree.probe, hreaches.locate_eq hsound.linkFree, ← hplace]
  cases place with
  | taken location entry => rfl
  | free directory name => rfl

/-- A backup path that is too long cannot be looked up. -/
theorem locate_backupPath_tooLong (hsound : tree.Sound) (hparts : p.parts ≠ [])
    (h : Reaches tree p (.taken location (.file content))) (hlong : ¬ IsShort (backupPath p n)) :
    tree.locate .target (backupPath p n) = .error .nameTooLong := by
  obtain ⟨hname, hleads⟩ := h.directory_of_file hsound hparts
  rw [locate, hasNull_backupPath h.noNull hname.2.2 n, if_neg (by simp)]
  split
  · rfl
  · rename_i htext
    have hlength : ¬ (backupName p.name n).utf8ByteSize ≤ maxNameBytes := by
      intro hlength
      rw [← name_backupPath] at hlength
      exact hlong ⟨hlength, Nat.le_of_not_lt htext⟩
    exact (hleads.walk_append hsound.linkFree maxLinks).trans
      (walk_tooLong hleads.entry_eq (not_isDots_backupName p.name n) (by simp) hlength)

/-- A first free name is there, and no more names come before it than there are entries. -/
theorem exists_first_free (tree : FileTree) (p : Path) :
    ∃ n ≤ tree.entries.length, tree.get? (backupSpot tree p n) = none ∧
      ∀ i < n, tree.get? (backupSpot tree p i) ≠ none := by
  have hlimit : ∀ n, (∀ i < n, tree.get? (backupSpot tree p i) ≠ none) →
      n ≤ tree.entries.length := by
    intro n hused
    have htaken : ∀ i < n, ∃ entry,
        tree.get? (p.parent.address tree.working ++ [backupName p.name i]) = some entry := by
      intro i hi
      rw [← backupSpot_eq]
      exact Option.ne_none_iff_exists'.mp (hused i hi)
    exact le_length_of_backups htaken
  have hfree : ∃ n, tree.get? (backupSpot tree p n) = none := by
    by_contra hnone
    have hall := hlimit (tree.entries.length + 1) fun i _ hi => hnone ⟨i, hi⟩
    omega
  have hleast : ∀ i < Nat.find hfree, tree.get? (backupSpot tree p i) ≠ none :=
    fun i hi => Nat.find_min hfree hi
  exact ⟨Nat.find hfree, hlimit _ hleast, Nat.find_spec hfree, hleast⟩

end Lookup

section Copies

variable {tree between after : FileTree} {p : Path} {location : Location} {content : Text.Bytes}
  {n : Nat} {indices : List Nat}

/-- A file is written to a backup path that is free. -/
theorem copyFile_backupPath (hsound : tree.Sound) (hparts : p.parts ≠ [])
    (h : Reaches tree p (.taken location (.file content))) (hshort : IsShort (backupPath p n))
    (hfree : tree.get? (backupSpot tree p n) = none) :
    tree.copyFile p (backupPath p n) =
      .ok (tree.set (backupSpot tree p n) (.file content)) := by
  obtain ⟨place, hreaches, hplace⟩ := reaches_backupPath hsound hparts h hshort
  have hread := (readFile_eq_ok_iff hsound.linkFree).mpr ⟨location, h⟩
  have hlast : (backupPath p n).parts.getLast? ≠ some "" := by
    rw [backupPath, Path.child, List.getLast?_concat]
    intro hempty
    exact not_isDots_backupName p.name n (.inl (Option.some.inj hempty))
  have hlocate : tree.locate .output (backupPath p n) = .ok place := by
    rw [locate, hreaches.noNull, if_neg (by simp), if_neg (Nat.not_lt.mpr hreaches.short)]
    exact hreaches.leads.walk_output hsound.linkFree maxLinks hlast
  rw [hfree] at hplace
  have hspot := hreaches.location_eq
  cases place with
  | taken location entry => cases hplace
  | free directory name =>
      have hwrite : tree.writeFile (backupPath p n) content =
          .ok (tree.set (backupSpot tree p n) (.file content)) := by
        rw [writeFile, hlocate, backupSpot, ← hspot]
        rfl
      rw [copyFile, hread]
      dsimp only [bind, Except.bind]
      rw [hwrite]

theorem createBackup_ensures {journal : Journal} (hsound : tree.Sound) (hparts : p.parts ≠ [])
    (h : Reaches tree p (.taken location (.file content)))
    (hshort : ∀ i ≤ n, IsShort (backupPath p i))
    (hfree : tree.get? (backupSpot tree p n) = none)
    (hused : ∀ i < n, tree.get? (backupSpot tree p i) ≠ none) (hlimit : n ≤ tree.entries.length) :
    Ensures (createBackup p) ⟨tree, journal⟩ fun result after =>
      result = .ok (backupPath p n) ∧
        after = ⟨tree.set (backupSpot tree p n) (.file content), journal⟩ := by
  have hsearch : freeBackup tree p (tree.entries.length + 1) 0 = .ok (backupPath p n) := by
    obtain ⟨more, hmore⟩ : ∃ more, tree.entries.length + 1 = more + 1 + n :=
      ⟨tree.entries.length - n, by omega⟩
    rw [hmore, freeBackup_of_used hparts, freeBackup, withName_backupName hparts]
    · dsimp only
      rw [Nat.zero_add, isPresent_backupPath hsound hparts h (hshort n (Nat.le_refl n)), hfree]
      rfl
    · intro i _ hi
      rw [Nat.zero_add] at hi
      rw [isPresent_backupPath hsound hparts h (hshort i (Nat.le_of_lt hi)),
        Option.isSome_iff_ne_none.mpr (hused i hi)]
  have hcopy := copyFile_backupPath hsound hparts h (hshort n (Nat.le_refl n)) hfree
  simp only [createBackup, ensures_bind, ensures_tree, ensures_orThrow, hsearch, Except.mapError,
    ensures_change, hcopy]
  exact ensures_pure.mpr ⟨rfl, rfl⟩

theorem Backups.evolves (h : Backups tree p content indices after) :
    Evolves (fun _ => False) (fun location => ∃ n ∈ indices, location = backupSpot tree p n)
      tree after := by
  have hkept : ∀ location entry, tree.get? location = some entry →
      after.get? location = some entry := by
    intro location entry hentry
    rw [h.others location, hentry]
    rintro n hn rfl
    cases (h.free n hn).symm.trans hentry
  refine ⟨h.working, fun _ => h.sound, fun location => hkept location .directory,
    fun location content _ => hkept location (.file content), ?_⟩
  intro location content hnot hfile
  rwa [h.others location fun n hn heq => hnot ⟨n, hn, heq⟩] at hfile

theorem Backups.nil (hsound : tree.Sound) : Backups tree p content [] tree where
  ordered := .nil
  free := List.forall_mem_nil _
  used := List.forall_mem_nil _
  copies := List.forall_mem_nil _
  others _ _ := rfl
  working := rfl
  sound := hsound

theorem Backups.single (hsound : tree.Sound) (hparts : p.parts ≠ [])
    (h : Reaches tree p (.taken location (.file content))) (hshort : IsShort (backupPath p n))
    (hfree : tree.get? (backupSpot tree p n) = none)
    (hused : ∀ i < n, tree.get? (backupSpot tree p i) ≠ none) :
    Backups tree p content [n] (tree.set (backupSpot tree p n) (.file content)) := by
  obtain ⟨hname, hleads⟩ := h.directory_of_file hsound hparts
  obtain ⟨place, hreaches, hplace⟩ := reaches_backupPath hsound hparts h hshort
  have hslot : IsSlot tree (backupSpot tree p n) := by
    rw [backupSpot_eq]
    refine ⟨fun name hmem => ?_, _, _, rfl, hleads.entry_eq⟩
    rcases List.mem_append.mp hmem with hinside | hlast
    · exact hsound.named _ _ hleads.entry_eq name hinside
    · cases List.mem_singleton.mp hlast
      exact isName_backupName hname n
  have hevolves := evolves_set_free (.file content) hslot hfree (by simp)
  have hcopy : (tree.set (backupSpot tree p n) (.file content)).get? (backupSpot tree p n) =
      some (.file content) := by
    rw [get?_set _ _ _ _ backupSpot_ne_nil, if_pos rfl]
  constructor
  · exact List.pairwise_singleton _ n
  · simpa using hfree
  · simpa using fun i hi _ => hused i hi
  · intro m hm
    cases List.mem_singleton.mp hm
    exact (readFile_eq_ok_iff (hevolves.sound hsound).linkFree).mpr
      ⟨_, hreaches.later hevolves.working hevolves.directories hcopy⟩
  · intro other hother
    rw [get?_set _ _ _ _ backupSpot_ne_nil, if_neg (hother n (List.mem_singleton_self n))]
  · exact hevolves.working
  · exact hevolves.sound hsound

theorem Backups.spot_eq (h : Backups tree p content indices after) (n : Nat) :
    backupSpot after p n = backupSpot tree p n :=
  congrArg (Path.address · (backupPath p n)) h.working

theorem Backups.get?_spot (h : Backups tree p content [n] after) {i : Nat} (hi : i ≠ n) :
    after.get? (backupSpot after p i) = tree.get? (backupSpot tree p i) := by
  rw [h.spot_eq]
  refine h.others _ fun m hm heq => hi ?_
  cases List.mem_singleton.mp hm
  exact backupSpot_injective tree p heq

/-- Later backups come after an earlier one. -/
theorem Backups.cons (hfirst : Backups tree p content [n] between)
    (hlater : Backups between p content indices after) :
    Backups tree p content (n :: indices) after := by
  have hpresent : between.get? (backupSpot between p n) = some (.file content) := by
    have hread := hfirst.copies n (List.mem_singleton_self n)
    obtain ⟨location, hreaches⟩ := (readFile_eq_ok_iff hfirst.sound.linkFree).mp hread
    exact hreaches.entry_eq
  have hne : ∀ m ∈ indices, m ≠ n := by
    rintro m hm rfl
    cases (hlater.free m hm).symm.trans hpresent
  have hfree : ∀ m ∈ indices, tree.get? (backupSpot tree p m) = none := fun m hm =>
    hfirst.get?_spot (hne m hm) ▸ hlater.free m hm
  have hused : ∀ i < n, tree.get? (backupSpot tree p i) ≠ none := fun i hi =>
    hfirst.used n (List.mem_singleton_self n) i hi (by simpa using Nat.ne_of_lt hi)
  constructor
  · refine List.pairwise_cons.mpr ⟨fun m hm => ?_, hlater.ordered⟩
    have hge : n ≤ m := Nat.le_of_not_lt fun hlt => hused m hlt (hfree m hm)
    exact Nat.lt_of_le_of_ne hge (hne m hm).symm
  · exact List.forall_mem_cons.mpr ⟨hfirst.free n (List.mem_singleton_self n), hfree⟩
  · refine List.forall_mem_cons.mpr ⟨fun i hi _ => hused i hi, fun m hm i hi hnot => ?_⟩
    rw [List.mem_cons, not_or] at hnot
    rw [← hfirst.get?_spot hnot.1]
    exact hlater.used m hm i hi hnot.2
  · refine List.forall_mem_cons.mpr ⟨?_, hlater.copies⟩
    exact hlater.evolves.readFile hfirst.sound id (hfirst.copies n (List.mem_singleton_self n))
  · intro location hother
    obtain ⟨hnot, hothers⟩ := List.forall_mem_cons.mp hother
    rw [hlater.others location fun m hm => hfirst.spot_eq m ▸ hothers m hm]
    exact hfirst.others location (by simpa using hnot)
  · exact hlater.working.trans hfirst.working
  · exact hlater.sound

theorem untaken_succ (tree : FileTree) (p : Path) (n : Nat) :
    untaken tree p (n + 1) =
      untaken tree p n + if tree.get? (backupSpot tree p n) = none then 1 else 0 := by
  simp [untaken, List.range_succ, List.countP_append]

theorem untaken_mono (tree : FileTree) (p : Path) {n m : Nat} (h : n ≤ m) :
    untaken tree p n ≤ untaken tree p m := by
  induction h with
  | refl => exact Nat.le_refl _
  | step _ ih =>
      rw [untaken_succ]
      exact Nat.le_add_right_of_le ih

theorem untaken_eq_zero_iff :
    untaken tree p n = 0 ↔ ∀ i < n, tree.get? (backupSpot tree p i) ≠ none := by
  simp [untaken, List.countP_eq_zero]

/-- A backup takes one name. -/
theorem Backups.untaken_le (h : Backups tree p content [n] after) (m : Nat) :
    untaken tree p m ≤ untaken after p m + if n < m then 1 else 0 := by
  induction m with
  | zero => exact Nat.zero_le _
  | succ m ih =>
      rw [untaken_succ, untaken_succ]
      by_cases hm : m = n
      · subst hm
        simp only [Nat.lt_irrefl, Nat.lt_succ_self, ite_true, ite_false] at ih ⊢
        split <;> omega
      · have hlt : n < m + 1 ↔ n < m := by omega
        simp only [h.get?_spot hm, hlt]
        omega

/-- The search is ended by a path that is too long, if that comes before a free name. -/
theorem createBackup_tooLong {journal : Journal} (hsound : tree.Sound) (hparts : p.parts ≠ [])
    (h : Reaches tree p (.taken location (.file content)))
    (hused : ∀ i < n, tree.get? (backupSpot tree p i) ≠ none)
    (hlong : ¬ IsShort (backupPath p n)) :
    Ensures (createBackup p) ⟨tree, journal⟩ fun result after =>
      (∃ m ≤ n, result =
        .error (.fault (.os ⟨.nameTooLong, (backupPath p m).text, none⟩))) ∧
      after = ⟨tree, journal⟩ := by
  classical
  have hexists : ∃ m, ¬ IsShort (backupPath p m) := ⟨n, hlong⟩
  have hle := Nat.find_min' hexists hlong
  have hshort : ∀ i < Nat.find hexists, IsShort (backupPath p i) := fun i hi =>
    not_not.mp (Nat.find_min hexists hi)
  have hlimit : Nat.find hexists ≤ tree.entries.length := by
    obtain ⟨first, hfirst, hfree, -⟩ := exists_first_free tree p
    exact (Nat.le_of_not_lt fun hlt => hused first (by omega) hfree).trans hfirst
  have hsearch : freeBackup tree p (tree.entries.length + 1) 0 =
      .error (.os ⟨.nameTooLong, (backupPath p (Nat.find hexists)).text, none⟩) := by
    refine freeBackup_of_tooLong hparts (Nat.zero_le _) (by omega) (fun i _ hi => ?_)
      (locate_backupPath_tooLong hsound hparts h (Nat.find_spec hexists))
    rw [isPresent_backupPath hsound hparts h (hshort i hi),
      Option.isSome_iff_ne_none.mpr (hused i (by omega))]
  simp only [createBackup, ensures_bind, ensures_tree, ensures_orThrow, hsearch, Except.mapError,
    and_true]
  exact ⟨_, hle, rfl⟩

theorem createBackups_backups {journal : Journal} (hsound : tree.Sound) (hparts : p.parts ≠ [])
    (h : Reaches tree p (.taken location (.file content))) (k : Nat)
    (hshort : ∀ n, untaken tree p n < k → IsShort (backupPath p n)) :
    Ensures (createBackups p k) ⟨tree, journal⟩ fun result after =>
      ∃ indices, result = .ok (indices.map (backupPath p)) ∧ indices.length = k ∧
        Backups tree p content indices after.tree ∧ after.journal = journal := by
  induction k generalizing tree location with
  | zero => exact ensures_pure.mpr ⟨[], rfl, rfl, .nil hsound, rfl⟩
  | succ k ih =>
      obtain ⟨n, hlimit, hfree, hused⟩ := exists_first_free tree p
      have hcandidates : ∀ i ≤ n, IsShort (backupPath p i) := by
        intro i hi
        refine hshort i ?_
        rw [untaken_eq_zero_iff.mpr fun j hj => hused j (by omega)]
        omega
      have hfirst := Backups.single hsound hparts h (hcandidates n (Nat.le_refl n)) hfree hused
      rw [createBackups]
      refine (createBackup_ensures hsound hparts h hcandidates hfree hused hlimit).bind ?_ ?_
      · rintro _ _ ⟨hresult, rfl⟩
        cases hresult
        have hentry := hfirst.evolves.kept _ content id h.entry_eq
        have hsource := h.later hfirst.working hfirst.evolves.directories hentry
        refine (ih hfirst.sound hsource fun m hm => hshort m ?_).bind ?_ ?_
        · have hle := hfirst.untaken_le m
          split at hle <;> omega
        · rintro _ after ⟨indices, hresult, hlength, hlater, hjournal⟩
          cases hresult
          exact ensures_pure.mpr
            ⟨n :: indices, rfl, congrArg (· + 1) hlength, hfirst.cons hlater, hjournal⟩
        · rintro _ _ ⟨indices, hresult, -⟩
          cases hresult
      · rintro _ _ ⟨hresult, -⟩
        cases hresult

end Copies

/-- Any number of backups of a file are made, each under the first name that is free at its turn,
while the paths that are tried are not too long. A path that is too long ends the search with a
fault and nothing is changed. -/
theorem createBackups_fresh {tree : FileTree} {p : Path} (hsound : tree.Sound)
    (hparts : p.parts ≠ []) (hfile : tree.isFile p = .ok true) :
    ∃ content, tree.readFile p = .ok content ∧
      (∀ k, (∀ n, untaken tree p n < k → IsShort (backupPath p n)) →
        Ensures (createBackups p k) { tree } fun result after =>
          ∃ indices, result = .ok (indices.map (backupPath p)) ∧ indices.length = k ∧
            (indices.map (backupPath p)).Nodup ∧ Backups tree p content indices after.tree ∧
            after.journal = []) ∧
      ∀ n, untaken tree p n = 0 → ¬ IsShort (backupPath p n) →
        Ensures (createBackup p) { tree } fun result after =>
          (∃ m ≤ n, result =
            .error (.fault (.os ⟨.nameTooLong, (backupPath p m).text, none⟩))) ∧
          after = { tree } := by
  obtain ⟨location, content, hreaches⟩ := isFile_eq_true hsound hfile
  refine ⟨content, (readFile_eq_ok_iff hsound.linkFree).mpr ⟨location, hreaches⟩, ?_, ?_⟩
  · intro k hshort
    refine (createBackups_backups hsound hparts hreaches k hshort).mono ?_
    rintro result after ⟨indices, hresult, hlength, hbackups, hjournal⟩
    have hnodup : indices.Nodup := hbackups.ordered.imp Nat.ne_of_lt
    exact ⟨indices, hresult, hlength, hnodup.map (backupPath_injective p), hbackups, hjournal⟩
  · intro n hnone hlong
    exact createBackup_tooLong hsound hparts hreaches (untaken_eq_zero_iff.mp hnone) hlong

def oneFile : FileTree :=
  ((⟨[], []⟩ : FileTree).set ["a"] .directory).set ["f"] (.file [112])

theorem oneFile_sound : oneFile.Sound := by
  refine (Sound.empty.set ⟨?_, [], "a", rfl, by decide⟩ (by decide) (by simp)).set
    ⟨?_, [], "f", rfl, by decide⟩ (by decide) (by simp)
  all_goals simp [IsName, IsDots]

/-- The file has backups, one of them a directory, with a gap between them. -/
def gappedBackups : FileTree :=
  (oneFile.set ["f.backup"] .directory).set ["f-2.backup"] (.file [])

theorem gappedBackups_sound : gappedBackups.Sound := by
  refine (oneFile_sound.set ⟨?_, [], "f.backup", rfl, by decide⟩ (by decide) (by simp)).set
    ⟨?_, [], "f-2.backup", rfl, by decide⟩ (by decide) (by simp)
  all_goals simp [IsName, IsDots]

theorem createBackups_fresh_gappedBackups :
    gappedBackups.Sound ∧ gappedBackups.isFile (.ofText "f") = .ok true ∧
      (∀ n, untaken gappedBackups (.ofText "f") n < 2 → IsShort (backupPath (.ofText "f") n)) ∧
      Ensures (createBackups (.ofText "f") 2) { tree := gappedBackups } fun result after =>
        ∃ indices, result = .ok (indices.map (backupPath (.ofText "f"))) ∧ indices.length = 2 ∧
          (indices.map (backupPath (.ofText "f"))).Nodup ∧
          Backups gappedBackups (.ofText "f") [112] indices after.tree ∧ after.journal = [] := by
  have hfile : gappedBackups.isFile (.ofText "f") = .ok true := by decide +kernel
  have hread : gappedBackups.readFile (.ofText "f") = .ok [112] := by decide +kernel
  have hshort : ∀ n, untaken gappedBackups (.ofText "f") n < 2 →
      IsShort (backupPath (.ofText "f") n) := by
    intro n hn
    have hle : n < 4 := by
      by_contra hge
      have hfour : untaken gappedBackups (.ofText "f") 4 = 2 := by decide +kernel
      have hmono := untaken_mono gappedBackups (.ofText "f") (Nat.le_of_not_lt hge)
      omega
    have hall : ∀ i < 4, IsShort (backupPath (.ofText "f") i) := by decide +kernel
    exact hall n hle
  obtain ⟨content, hcontent, hbackups, -⟩ :=
    createBackups_fresh gappedBackups_sound (by decide +kernel) hfile
  cases hcontent.symm.trans hread
  exact ⟨gappedBackups_sound, hfile, hshort, hbackups 2 hshort⟩

section Detour

/-- A path that goes into a directory and out again many times. -/
def detour (n : Nat) (name : String) : Path :=
  ⟨.here, (List.replicate n ["a", ".."]).flatten ++ [name]⟩

theorem backupPath_detour (n : Nat) (name : String) (i : Nat) :
    backupPath (detour n name) i = detour n (backupName name i) := by
  simp [backupPath, detour, Path.parent, Path.child, Path.name]

theorem utf8ByteSize_detour (n : Nat) (name : String) :
    (detour n name).text.utf8ByteSize = 5 * n + name.utf8ByteSize := by
  have htext : (detour n name).text =
      "/".intercalate ((List.replicate n ["a", ".."]).flatten ++ [name]) := by
    simp [Path.text, detour, Anchor.text]
  have hone : "a".utf8ByteSize = 1 ∧ "..".utf8ByteSize = 2 ∧ "/".utf8ByteSize = 1 := by decide
  rw [htext]
  clear htext
  induction n with
  | zero => simp
  | succ n ih =>
      obtain ⟨next, rest, hrest⟩ : ∃ next rest,
          (List.replicate n ["a", ".."]).flatten ++ [name] = next :: rest :=
        List.exists_cons_of_ne_nil (by simp)
      rw [List.replicate_succ, List.flatten_cons, List.append_assoc, hrest]
      rw [hrest] at ih
      change ("/".intercalate ("a" :: ".." :: next :: rest)).utf8ByteSize = _
      rw [String.intercalate_cons_cons, String.intercalate_cons_cons]
      simp only [String.utf8ByteSize_append, ih, hone]
      omega

theorem leads_detour (n : Nat) :
    Leads oneFile [] ((List.replicate n ["a", ".."]).flatten ++ ["f"])
      (.taken ["f"] (.file [112])) := by
  have hroot : oneFile.get? [] = some .directory := by decide
  induction n with
  | zero =>
      have hfile : oneFile.get? ["f"] = some (.file [112]) := by decide
      exact .down hroot (by simp [IsDots]) (by decide) hfile (.here hfile)
  | succ n ih =>
      have hdirectory : oneFile.get? ["a"] = some .directory := by decide
      have hback := Leads.dots hdirectory (.inr (.inr rfl)) ih
      rw [List.replicate_succ, List.flatten_cons, List.append_assoc]
      exact .down hroot (by simp [IsDots]) (by decide) hdirectory hback

theorem reaches_detour {n : Nat} (hshort : 5 * n + 1 ≤ maxPathBytes) :
    Reaches oneFile (detour n "f") (.taken ["f"] (.file [112])) := by
  refine ⟨?_, ?_, leads_detour n⟩
  · simp [detour, Path.hasNull]
  · rw [utf8ByteSize_detour]
    exact hshort

end Detour

/-- Names that are short do not make a short path. -/
theorem createBackup_detour :
    oneFile.Sound ∧ oneFile.isFile (detour 818 "f") = .ok true ∧
      (∀ n ≤ oneFile.entries.length, (backupName "f" n).utf8ByteSize ≤ maxNameBytes) ∧
      Ensures (createBackup (detour 818 "f")) { tree := oneFile } fun result after =>
        ∃ fault, result = .error (.fault fault) ∧ after = { tree := oneFile } := by
  have hparts : ∀ n name, (detour n name).parts ≠ [] := fun n name => by simp [detour]
  have hreaches : Reaches oneFile (detour 818 "f") _ := reaches_detour (by decide)
  have hread := (readFile_eq_ok_iff oneFile_sound.linkFree).mpr ⟨_, hreaches⟩
  refine ⟨oneFile_sound, isFile_of_readFile hread, by decide +kernel, ?_⟩
  have hlong : ¬ IsShort (backupPath (detour 818 "f") 0) := by
    intro hshort
    have htext := hshort.text
    rw [backupPath_detour, utf8ByteSize_detour] at htext
    revert htext
    decide +kernel
  refine (createBackup_tooLong oneFile_sound (hparts _ _) hreaches (by simp) hlong).mono ?_
  rintro result after ⟨⟨m, -, hresult⟩, hafter⟩
  exact ⟨_, hresult, hafter⟩

end SlimTemplate.Files
