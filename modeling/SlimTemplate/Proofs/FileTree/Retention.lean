import Mathlib.Data.List.Induction
import SlimTemplate.Proofs.FileTree.Filling

/-!
Paths in a tree that has kept its directories and links. They are followed as before, and what is
at their end is what is there now. In a tree whose entries lie in directories, what can be followed
can be resolved as well.
-/

namespace SlimTemplate
namespace FileTree

/-- A tree has kept its directories and links; its files may have come, gone or changed. -/
structure Retains (before after : FileTree) : Prop where
  working : after.working = before.working
  directories : ∀ location, before.get? location = some .directory →
    after.get? location = some .directory
  links : ∀ location target, before.get? location = some (.link target) →
    after.get? location = some (.link target)

theorem Fills.retains {before after : FileTree} (h : Fills before after) : Retains before after :=
  ⟨h.working, fun location => h.kept location _, fun location _ => h.kept location _⟩

theorem Retains.refl (tree : FileTree) : Retains tree tree :=
  ⟨rfl, fun _ => id, fun _ _ => id⟩

theorem Retains.trans {before between after : FileTree} (h : Retains before between)
    (h' : Retains between after) : Retains before after where
  working := h'.working.trans h.working
  directories location hdirectory := h'.directories location (h.directories location hdirectory)
  links location target hlink := h'.links location target (h.links location target hlink)

section Walk

variable {before after tree : FileTree} {aim : Aim} {links : Nat} {here : Location}
  {names : List String} {place : Place} {entry : Entry}

/-- Where a path led to an entry or to a free name, it leads to what is there now; a link is only
met if it was met before. -/
theorem Retains.walk_taken {aim' : Aim} (h : Retains before after)
    (haim : aim' = .target ∨ aim' = .entry ∧ aim = .entry)
    (hwalk : before.walk aim links here names = .ok place)
    (hentry : after.get? place.location = some entry)
    (hlink : ∀ target, entry = .link target → aim' = .entry ∧ place.entry? = some entry) :
    after.walk aim' links here names = .ok (.taken place.location entry) := by
  have houtput : aim' ≠ .output := by
    rintro rfl
    simp at haim
  replace hwalk := walks_of_walk hwalk
  induction hwalk with
  | here _ hplace =>
      subst hplace
      exact walk_here hentry
  | dots hdirectory hname _ ih => rw [walk_dots (h.directories _ hdirectory) hname, ih]
  | free hdirectory hname hlength _ hplace | file hdirectory hname hlength _ hplace =>
      have hnot : ∀ target, entry ≠ .link target := by
        rintro target rfl
        cases hplace ▸ (hlink target rfl).2
      subst hplace
      exact walk_last (h.directories _ hdirectory) hname hlength houtput hentry hnot
  | @unfollowed _ _ _ target hdirectory hname hlength hfound _ hplace =>
      subst hplace
      have hkept := h.links _ _ hfound
      obtain rfl : .link target = entry := Option.some.inj (hkept.symm.trans hentry)
      obtain ⟨rfl, -⟩ := hlink target rfl
      exact walk_unfollowed (h.directories _ hdirectory) hname hlength hkept
  | @link _ _ _ _ rest hdirectory hname hlength hfound hlast _ ih =>
      have hfollowed : ¬ (rest = [] ∧ aim' = .entry) := by
        rintro ⟨hnil, rfl⟩
        exact hlast ⟨hnil, (haim.resolve_left (by simp)).2⟩
      rw [walk_link (h.directories _ hdirectory) hname hlength houtput hfollowed
        (h.links _ _ hfound), ih]
  | down hdirectory hname hlength hinner _ ih =>
      rw [walk_down (h.directories _ hdirectory) hname hlength houtput (h.directories _ hinner)
        (by simp), ih]

/-- Where a path led to what is gone, it leads to a free name or nowhere. -/
theorem Retains.walk_gone (h : Retains before after) (haim : aim ≠ .output)
    (hwalk : before.walk aim links here names = .ok place)
    (hgone : after.get? place.location = none) :
    after.walk aim links here names = .error .noEntry ∨
      ∃ directory name, after.walk aim links here names = .ok (.free directory name) := by
  replace hwalk := walks_of_walk hwalk
  induction hwalk with
  | here _ hplace =>
      subst hplace
      exact .inl (walk_nowhere hgone)
  | dots hdirectory hname _ ih => rwa [walk_dots (h.directories _ hdirectory) hname]
  | free hdirectory hname hlength _ hplace | file hdirectory hname hlength _ hplace =>
      subst hplace
      exact .inr ⟨_, _, walk_free (h.directories _ hdirectory) hname hlength hgone⟩
  | unfollowed _ _ _ hfound _ hplace =>
      subst hplace
      cases hgone.symm.trans (h.links _ _ hfound)
  | link hdirectory hname hlength hfound hlast _ ih =>
      rwa [walk_link (h.directories _ hdirectory) hname hlength haim hlast (h.links _ _ hfound)]
  | down hdirectory hname hlength hinner _ ih =>
      rwa [walk_down (h.directories _ hdirectory) hname hlength haim (h.directories _ hinner)
        (by simp)]

/-- What a path leads to is also there if a last link is not followed. -/
theorem walk_entry {location : Location} (h : tree.walk .target links here names =
      .ok (.taken location entry)) :
    ∃ location' entry', tree.walk .entry links here names = .ok (.taken location' entry') ∧
      (entry' = entry ∨ ∃ target, entry' = .link target) := by
  replace h := walks_of_walk h
  induction h with
  | here hentry hplace =>
      cases hplace
      exact ⟨_, _, walk_here hentry, .inl rfl⟩
  | dots hdirectory hname _ ih => rwa [walk_dots hdirectory hname]
  | free _ _ _ _ hplace => cases hplace
  | file hdirectory hname hlength hfile hplace =>
      cases hplace
      exact ⟨_, _, walk_last hdirectory hname hlength (by simp) hfile (by simp), .inl rfl⟩
  | unfollowed _ _ _ _ haim _ => cases haim
  | @link _ _ _ target rest hdirectory hname hlength hlink _ _ ih =>
      by_cases hlast : rest = []
      · subst hlast
        exact ⟨_, _, walk_unfollowed hdirectory hname hlength hlink, .inr ⟨target, rfl⟩⟩
      · rwa [walk_link hdirectory hname hlength (by simp) (fun hboth => hlast hboth.1) hlink]
  | down hdirectory hname hlength hinner _ ih =>
      rwa [walk_down hdirectory hname hlength (by simp) hinner (by simp)]

/-- A name that is too long is met whatever comes after it. -/
theorem walk_append_tooLong (h : tree.walk .target links here names = .error .nameTooLong)
    (rest : List String) : tree.walk .target links here (names ++ rest) = .error .nameTooLong := by
  induction links using Nat.strongRecOn generalizing here names with
  | _ links ih =>
      induction names generalizing here with
      | nil =>
          rw [walk_nil] at h
          split at h <;> cases h
      | cons name names ihnames =>
          rw [List.cons_append]
          by_cases hdirectory : tree.get? here = some .directory
          case neg =>
              rcases walk_outside hdirectory with herror | herror <;> cases h.symm.trans herror
          by_cases hname : IsDots name
          case pos =>
              rw [walk_dots hdirectory hname] at h ⊢
              exact ihnames h
          by_cases hshort : name.utf8ByteSize ≤ maxNameBytes
          case neg => exact walk_tooLong hdirectory hname (by simp) hshort
          cases hentry : tree.get? (here ++ [name]) with
          | none =>
              by_cases hlast : names = []
              · subst hlast
                cases h.symm.trans (walk_free hdirectory hname hshort hentry)
              · cases h.symm.trans (walk_missing hdirectory hname hshort (by simp) hlast hentry)
          | some entry =>
              cases entry with
              | file _ | directory =>
                  rw [walk_down hdirectory hname hshort (by simp) hentry (by simp)] at h ⊢
                  exact ihnames h
              | link target =>
                  cases links with
                  | zero =>
                      cases h.symm.trans
                        (walk_loop hdirectory hname hshort (by simp) (by simp) hentry)
                  | succ links =>
                      rw [walk_link hdirectory hname hshort (by simp) (by simp) hentry] at h ⊢
                      rw [← List.append_assoc]
                      exact ih links (by omega) h

theorem walk_ne_nullByte : tree.walk aim links here names ≠ .error .nullByte := by
  induction links using Nat.strongRecOn generalizing here names with
  | _ links ih =>
      induction names generalizing here with
      | nil =>
          rw [walk_nil]
          split <;> simp
      | cons name rest ihnames =>
          rw [walk_name]
          repeat' split
          all_goals first | exact ihnames | exact ih _ (by omega) | simp

/-- A free place is a proper name in a directory. -/
theorem walk_free_site {directory : Location} {name : String}
    (h : tree.walk aim links here names = .ok (.free directory name)) :
    tree.get? directory = some .directory ∧ ¬ IsDots name := by
  replace h := walks_of_walk h
  induction h with
  | here _ hplace | file _ _ _ _ hplace | unfollowed _ _ _ _ _ hplace => cases hplace
  | free hdirectory hname _ _ hplace =>
      cases hplace
      exact ⟨hdirectory, hname⟩
  | dots _ _ _ ih | link _ _ _ _ _ _ ih | down _ _ _ _ _ ih => exact ih

end Walk

section Locate

variable {before after tree : FileTree} {aim : Aim} {p : Path} {place : Place} {entry : Entry}
  {location : Location}

theorem probe_eq_true {test : Entry → Bool} (h : tree.probe p test = .ok true) :
    ∃ location entry, tree.locate .target p = .ok (.taken location entry) ∧ test entry = true := by
  rw [probe] at h
  split at h
  · exact ⟨_, _, ‹_›, Except.ok.inj h⟩
  · cases h
  · cases h
  · cases h

/-- A question about a path is not answered only if the path is too long. -/
theorem probe_eq_error_iff {test : Entry → Bool} {e : OsError} :
    tree.probe p test = .error e ↔
      tree.locate .target p = .error .nameTooLong ∧ e = ⟨.nameTooLong, p.text, none⟩ := by
  rw [probe]
  split
  · simp [*]
  · simp [*]
  · rename_i hlong
    rw [hlong]
    exact ⟨fun h => ⟨rfl, (Except.error.inj h).symm⟩, fun h => congrArg _ h.2.symm⟩
  · rename_i errno hother herror
    rw [herror]
    exact iff_of_false (by simp) fun h => hother (Except.error.inj h.1)

/-- Whether a path can be followed at all does not depend on the tree. -/
theorem locate_eq_walk (h : before.locate aim p = .ok place) (tree : FileTree) (aim : Aim) :
    tree.locate aim p = tree.walk aim maxLinks (start tree.working p.anchor) p.parts := by
  rw [locate] at h ⊢
  split at h
  · cases h
  split at h
  · cases h
  rw [if_neg ‹_›, if_neg ‹_›]

theorem Retains.locate_taken (h : Retains before after) (hlocate : before.locate aim p = .ok place)
    (hentry : after.get? place.location = some entry) (hnot : ∀ target, entry ≠ .link target) :
    after.locate .target p = .ok (.taken place.location entry) := by
  rw [locate_eq_walk hlocate, h.working]
  exact h.walk_taken (.inl rfl) (walk_of_locate hlocate) hentry fun target heq =>
    absurd heq (hnot target)

theorem isPresent_eq_true (h : tree.locate .target p = .ok (.taken location entry)) :
    tree.isPresent p = .ok true := by
  rw [FileTree.isPresent, probe, h]

theorem isPresent_eq_false (h : tree.locate .target p = .error .noEntry ∨
      ∃ directory name, tree.locate .target p = .ok (.free directory name)) :
    tree.isPresent p = .ok false := by
  rw [FileTree.isPresent, probe]
  rcases h with herror | ⟨directory, name, hfree⟩
  · rw [herror]
  · rw [hfree]

/-- What a path leads to is present as long as there is something. -/
theorem Retains.isPresent (h : Retains before after) (hlocate : before.locate .target p = .ok place)
    (hnot : ∀ target, after.get? place.location ≠ some (.link target)) :
    after.isPresent p = .ok (after.get? place.location).isSome := by
  cases hentry : after.get? place.location with
  | some entry =>
      have htaken := h.locate_taken hlocate hentry fun target heq => hnot target (heq ▸ hentry)
      exact isPresent_eq_true htaken
  | none =>
      have hgone := h.walk_gone (by simp) (walk_of_locate hlocate) hentry
      rw [← h.working, ← locate_eq_walk hlocate] at hgone
      exact isPresent_eq_false hgone

theorem locate_ne_nullByte (h : p.hasNull = false) : tree.locate aim p ≠ .error .nullByte := by
  rw [locate, h, if_neg (by simp)]
  split
  · simp
  · exact walk_ne_nullByte

theorem hasNull_of_locate (h : tree.locate aim p = .ok place) : p.hasNull = false := by
  rw [locate] at h
  split at h
  · cases h
  · exact eq_false_of_ne_true ‹_›

theorem locate_entry_of_target (h : tree.locate .target p = .ok (.taken location entry)) :
    ∃ location' entry', tree.locate .entry p = .ok (.taken location' entry') ∧
      (entry' = entry ∨ ∃ target, entry' = .link target) := by
  rw [locate_eq_walk h]
  exact walk_entry (walk_of_locate h)

end Locate

/-- A tree as a file system holds it: entries have proper names and lie in directories. -/
structure Housed (tree : FileTree) : Prop where
  named : ∀ location entry, tree.get? location = some entry → ∀ name ∈ location, ¬ IsDots name
  inside : ∀ directory name entry, tree.get? (directory ++ [name]) = some entry →
    tree.get? directory = some .directory

theorem Sound.housed {tree : FileTree} (h : tree.Sound) : tree.Housed :=
  ⟨fun location entry hentry name hname => (h.named location entry hentry name hname).1, h.inside⟩

section Housed

variable {tree after : FileTree} {aim : Aim} {links : Nat} {p q : Path} {place : Place}
  {entry : Entry} {location directory : Location} {names : List String} {name : String}
  {content : Text.Bytes}

/-- Entries lie in directories, all the way up. -/
theorem Housed.above (h : tree.Housed) (hnames : names ≠ [])
    (hentry : tree.get? (location ++ names) = some entry) :
    tree.get? location = some .directory := by
  induction names using List.reverseRecOn generalizing entry with
  | nil => exact absurd rfl hnames
  | append_singleton names name ih =>
      rw [← List.append_assoc] at hentry
      have hinside := h.inside _ _ _ hentry
      by_cases hnil : names = []
      · simpa [hnil] using hinside
      · exact ih hnil hinside

/-- The names of an entry are followed to it, unless one of them is too long. -/
theorem Housed.walk_eq (h : tree.Housed) (hentry : tree.get? (location ++ names) = some entry)
    (hnot : ∀ target, entry ≠ .link target) (links : Nat) :
    tree.walk .target links location names =
      if ∀ name ∈ names, name.utf8ByteSize ≤ maxNameBytes then
        .ok (.taken (location ++ names) entry)
      else .error .nameTooLong := by
  induction names generalizing location with
  | nil =>
      rw [List.append_nil] at hentry ⊢
      rw [walk_here hentry, if_pos (List.forall_mem_nil _)]
  | cons name rest ih =>
      have hdirectory := h.above (List.cons_ne_nil name rest) hentry
      have hname : ¬ IsDots name := h.named _ _ hentry name (by simp)
      rw [← List.singleton_append, ← List.append_assoc] at hentry
      by_cases hshort : name.utf8ByteSize ≤ maxNameBytes
      · have hnext : ∃ next, tree.get? (location ++ [name]) = some next ∧
            ∀ target, next ≠ .link target := by
          cases rest with
          | nil =>
              rw [List.append_nil] at hentry
              exact ⟨entry, hentry, hnot⟩
          | cons next rest =>
              exact ⟨.directory, h.above (List.cons_ne_nil next rest) hentry, by simp⟩
        obtain ⟨next, hfound, hplain⟩ := hnext
        rw [walk_down hdirectory hname hshort (by simp) hfound hplain, ih hentry]
        simp [hshort]
      · rw [walk_tooLong hdirectory hname (by simp) hshort,
          if_neg fun hall => hshort (hall name List.mem_cons_self)]

/-- What a path leads to can be resolved. -/
theorem Housed.resolve_eq (h : tree.Housed) (hleads : LeadsTo tree p location)
    (hnull : p.hasNull = false) (hentry : tree.get? location = some entry)
    (hnot : ∀ target, entry ≠ .link target) : tree.resolve p = .ok ⟨.root, location⟩ := by
  have hloop : tree.locate .target ⟨.root, location⟩ ≠ .error .linkLoop := by
    rw [locate]
    split
    · simp
    split
    · simp
    intro herror
    have hentry : tree.get? ([] ++ location) = some entry := hentry
    have hfollowed := herror.symm.trans (h.walk_eq hentry hnot maxLinks)
    split at hfollowed <;> cases hfollowed
  rw [resolve, hnull, if_neg (by simp)]
  dsimp only
  rw [hleads.resolved]
  split
  · rename_i herror
    exact absurd herror hloop
  · rfl

theorem Housed.set (h : tree.Housed) (hdirectory : tree.get? directory = some .directory)
    (hname : ¬ IsDots name) (hnot : tree.get? (directory ++ [name]) ≠ some .directory) :
    (tree.set (directory ++ [name]) entry).Housed := by
  have hroot : directory ++ [name] ≠ [] := by simp
  have hkept : ∀ other, tree.get? other = some .directory →
      (tree.set (directory ++ [name]) entry).get? other = some .directory := by
    intro other hother
    have hne : other ≠ directory ++ [name] := fun heq => hnot (heq ▸ hother)
    rwa [get?_set _ _ _ _ hroot, if_neg hne]
  refine ⟨fun other found hfound => ?_, fun outer last found hfound => hkept _ ?_⟩
  · rw [get?_set _ _ _ _ hroot] at hfound
    split at hfound
    · rename_i heq
      intro first hfirst
      rw [heq] at hfirst
      cases List.mem_append.mp hfirst with
      | inl hmem => exact h.named _ _ hdirectory first hmem
      | inr hmem => exact List.mem_singleton.mp hmem ▸ hname
    · exact h.named _ _ hfound
  · rw [get?_set _ _ _ _ hroot] at hfound
    split at hfound
    · rename_i heq
      exact (List.append_inj' heq rfl).1 ▸ hdirectory
    · exact h.inside _ _ _ hfound

theorem Housed.erase (h : tree.Housed) (hroot : location ≠ [])
    (hnot : tree.get? location ≠ some .directory) : (tree.erase location).Housed := by
  refine ⟨fun other found hfound => ?_, fun outer last found hfound => ?_⟩
  · rw [get?_erase _ _ _ hroot] at hfound
    split at hfound
    · cases hfound
    · exact h.named _ _ hfound
  · rw [get?_erase _ _ _ hroot] at hfound
    split at hfound
    · cases hfound
    · have hinside := h.inside _ _ _ hfound
      have hne : outer ≠ location := fun heq => hnot (heq ▸ hinside)
      rwa [get?_erase _ _ _ hroot, if_neg hne]

/-- A path that leads to no directory leads to a proper name in one. -/
theorem Housed.site (h : tree.Housed) (hlocate : tree.locate aim p = .ok place)
    (hplace : place.entry? ≠ some .directory) :
    ∃ directory name, place.location = directory ++ [name] ∧
      tree.get? directory = some .directory ∧ ¬ IsDots name := by
  cases place with
  | free directory name => exact ⟨directory, name, rfl, walk_free_site (walk_of_locate hlocate)⟩
  | taken location entry =>
      have hget : tree.get? location = some entry := locate_get? hlocate
      rcases location.eq_nil_or_concat with rfl | ⟨directory, name, rfl⟩
      · exact absurd hget.symm hplace
      · rw [List.concat_eq_append] at hget ⊢
        exact ⟨directory, name, rfl, h.inside _ _ _ hget, h.named _ _ hget name (by simp)⟩

theorem Housed.set_of_locate (h : tree.Housed) (hlocate : tree.locate aim p = .ok place)
    (hplace : place.entry? ≠ some .directory) : (tree.set place.location entry).Housed := by
  obtain ⟨directory, name, hlocation, hdirectory, hname⟩ := h.site hlocate hplace
  have hget := locate_get? hlocate
  rw [hlocation] at hget ⊢
  exact h.set hdirectory hname (hget ▸ hplace)

theorem Housed.writeFile (h : tree.Housed) (hwrite : tree.writeFile p content = .ok after) :
    after.Housed := by
  obtain ⟨place, hlocate, hfile, rfl⟩ := writeFile_ok hwrite
  refine h.set_of_locate hlocate fun hdirectory => ?_
  obtain ⟨old, heq⟩ := hfile _ hdirectory
  cases heq

theorem Housed.createDirectories (h : tree.Housed) (p : Path) :
    (tree.createDirectories p).1.Housed := by
  refine createDirectories_keeps (P := fun _ => True) (fun _ _ => trivial) ?_ trivial h
  intro tree after p _ h hmade
  obtain ⟨directory, name, hlocate, rfl⟩ := createDirectory_ok hmade
  exact h.set_of_locate hlocate (by simp [Place.entry?])

theorem Housed.rename (h : tree.Housed) (hrename : tree.rename p q = .ok after) :
    after.Housed := by
  obtain ⟨source, entry, place, hsource, hentry, htarget, hplace, hafter⟩ := rename_ok hrename
  rcases hafter with ⟨-, rfl⟩ | rfl
  · exact h
  · have hget : tree.get? source = some entry := locate_get? hsource
    have hnot : tree.get? source ≠ some .directory := fun hdirectory =>
      hentry (Option.some.inj (hget.symm.trans hdirectory))
    have hroot : source ≠ [] := by
      rintro rfl
      exact hnot rfl
    obtain ⟨directory, name, hlocation, hdirectory, hname⟩ := h.site htarget hplace
    have htaken := locate_get? htarget
    rw [hlocation] at htaken ⊢
    refine (h.erase hroot hnot).set ?_ hname ?_
    · have hne : directory ≠ source := fun heq => hnot (heq ▸ hdirectory)
      rwa [get?_erase _ _ _ hroot, if_neg hne]
    · rw [get?_erase _ _ _ hroot]
      split
      · simp
      · exact htaken ▸ hplace

end Housed

end FileTree
end SlimTemplate
