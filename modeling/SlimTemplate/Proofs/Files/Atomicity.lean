import SlimTemplate.Proofs.Files.Traces

/-!
Files are written all or nothing. A write by way of a temporary file either puts the whole content
in place or leaves what its path names as it was, and it leaves no temporary file behind where
there was none, if the content can be encoded; whatever the files are, and wherever it fails.
-/

namespace SlimTemplate

namespace FileTree

/-- A path names the place of a directory entry, which may be free: links are followed on the way to
it, and no further. -/
def Names (tree : FileTree) (p : Path) (location : Location) : Prop :=
  ∃ place, tree.locate .entry p = .ok place ∧ place.location = location

def entryAt? (tree : FileTree) (p : Path) : Option Entry :=
  match tree.locate .entry p with
  | .ok place => place.entry?
  | .error _ => none

section Names

variable {tree before after : FileTree} {p : Path} {location : Location} {links : Nat}
  {here : Location} {names : List String} {place : Place} {content : Text.Bytes}

theorem entryAt?_of_locate (h : tree.locate .entry p = .ok place) :
    tree.entryAt? p = tree.get? place.location := by
  rw [entryAt?, h]
  exact (locate_get? h).symm

theorem Names.entryAt?_eq (h : Names tree p location) : tree.entryAt? p = tree.get? location := by
  obtain ⟨place, hlocate, rfl⟩ := h
  exact entryAt?_of_locate hlocate

theorem Names.unique {other : Location} (h : Names tree p location) (h' : Names tree p other) :
    other = location := by
  obtain ⟨place, hlocate, rfl⟩ := h
  obtain ⟨place', hlocate', rfl⟩ := h'
  cases hlocate.symm.trans hlocate'
  rfl

/-- A last name is found to be taken or free. -/
theorem walk_entry_last {name : String} (hdirectory : tree.get? here = some .directory)
    (hname : ¬ IsDots name) (hshort : name.utf8ByteSize ≤ maxNameBytes) :
    ∃ place, tree.walk .entry links here [name] = .ok place ∧
      place.location = here ++ [name] := by
  cases hentry : tree.get? (here ++ [name]) with
  | none => exact ⟨_, walk_free hdirectory hname hshort hentry, rfl⟩
  | some entry =>
      cases entry with
      | link target => exact ⟨_, walk_unfollowed hdirectory hname hshort hentry, rfl⟩
      | file _ | directory =>
          exact ⟨_, walk_last hdirectory hname hshort (by simp) hentry (by simp), rfl⟩

/-- A place with a proper name is still named where directories and links were kept. -/
theorem Retains.walk_proper (h : Retains before after)
    (hproper : ∃ last, names.getLast? = some last ∧ ¬ IsDots last)
    (hwalk : before.walk .entry links here names = .ok place) :
    ∃ place', after.walk .entry links here names = .ok place' ∧
      place'.location = place.location := by
  replace hwalk := walks_of_walk hwalk
  induction hwalk with
  | here _ _ =>
      obtain ⟨last, hlast, -⟩ := hproper
      cases hlast
  | @dots _ _ name rest hdirectory hname _ ih =>
      rw [walk_dots (h.directories _ hdirectory) hname]
      apply ih
      obtain ⟨last, hlast, hnot⟩ := hproper
      cases rest with
      | nil =>
          cases hlast
          exact absurd hname hnot
      | cons next rest => exact ⟨last, hlast, hnot⟩
  | free hdirectory hname hlength _ hplace | file hdirectory hname hlength _ hplace
  | unfollowed hdirectory hname hlength _ _ hplace =>
      subst hplace
      exact walk_entry_last (h.directories _ hdirectory) hname hlength
  | @link _ _ _ target rest hdirectory hname hlength hlink haim _ ih =>
      rw [walk_link (h.directories _ hdirectory) hname hlength (by simp) haim (h.links _ _ hlink)]
      apply ih
      obtain ⟨last, hlast, hnot⟩ := hproper
      cases rest with
      | nil => exact absurd ⟨rfl, rfl⟩ haim
      | cons next rest => exact ⟨last, by simpa using hlast, hnot⟩
  | @down _ _ _ rest hdirectory hname hlength hinner hrest ih =>
      cases rest with
      | nil =>
          cases hrest with
          | here _ hplace =>
              subst hplace
              exact walk_entry_last (h.directories _ hdirectory) hname hlength
      | cons next rest =>
          rw [walk_down (h.directories _ hdirectory) hname hlength (by simp)
            (h.directories _ hinner) (by simp)]
          obtain ⟨last, hlast, hnot⟩ := hproper
          exact ih ⟨last, by simpa using hlast, hnot⟩

theorem Names.later (hnames : Names before p location) (h : Retains before after)
    (hname : ¬ IsDots p.name) : Names after p location := by
  obtain ⟨place, hlocate, rfl⟩ := hnames
  have hproper : ∃ last, p.parts.getLast? = some last ∧ ¬ IsDots last := by
    rw [Path.name] at hname
    cases hlast : p.parts.getLast? with
    | none =>
        rw [hlast] at hname
        exact absurd (.inl rfl) hname
    | some last =>
        rw [hlast] at hname
        exact ⟨last, rfl, hname⟩
  obtain ⟨place', hwalk, hlocation⟩ := h.walk_proper hproper (walk_of_locate hlocate)
  refine ⟨place', ?_, hlocation⟩
  rw [locate_eq_walk hlocate, h.working, hwalk]

/-- Where directories and links were kept and no links were made, a path names what is now at the
place that it named. -/
theorem Retains.entryAt?_eq (h : Retains before after)
    (hlinks : ∀ location target, after.get? location = some (.link target) →
      before.get? location = some (.link target))
    (hnames : Names before p location) : after.entryAt? p = after.get? location := by
  obtain ⟨place, hlocate, rfl⟩ := hnames
  have hwalk := walk_of_locate hlocate
  have hafter := locate_eq_walk hlocate after .entry
  rw [h.working] at hafter
  cases hentry : after.get? place.location with
  | some entry =>
      rw [h.walk_taken (.inr ⟨rfl, rfl⟩) hwalk hentry] at hafter
      · rw [entryAt?, hafter]
        rfl
      · rintro target rfl
        exact ⟨rfl, (locate_get? hlocate).symm.trans (hlinks _ _ hentry)⟩
  | none =>
      rw [entryAt?, hafter]
      rcases h.walk_gone (by simp) hwalk hentry with herror | ⟨directory, name, hfree⟩
      · rw [herror]
      · rw [hfree]
        rfl

end Names

end FileTree

namespace Files

open FileTree SlimTemplate.Action

/-- What a write of a content to a path leaves in the files. If it succeeds, the content is at the
place that the path named, and the path leads to it unless it went through a link at that very
place; if it fails, the path names what it named. Nothing is left under the temporary name where
there was nothing, if the content can be encoded, and all other places hold what they held. -/
structure AllOrNothing (tree : FileTree) (target : Path) (content : AnyText)
    (result : Except Trouble Unit) (after : FileTree) : Prop where
  placed : result = .ok () → ∃ location bytes, Names tree target location ∧
    content.encode = .ok bytes ∧ after.get? location = some (.file bytes) ∧
    ((∀ link, tree.get? location = some (.link link) →
        Names (tree.erase location) target location) →
      after.entryAt? target = some (.file bytes))
  kept : result ≠ .ok () → after.entryAt? target = tree.entryAt? target ∧
    ∀ location, Names tree target location → after.get? location = tree.get? location
  cleared : content.encode.isOk = true → tree.entryAt? (temporaryOf target) = none →
    after.entryAt? (temporaryOf target) = none ∧
      ∀ location, Names tree (temporaryOf target) location → after.get? location = none
  others : ∀ location, ¬ Names tree target location →
    ¬ Names tree (temporaryOf target) location → after.get? location = tree.get? location

section Atomicity

variable {tree after : FileTree} {target : Path} {content : Text.Bytes} {trouble : Trouble}
  {location site : Location}

theorem AllOrNothing.unchanged (tree : FileTree) (target : Path) (content : AnyText)
    (trouble : Trouble) : AllOrNothing tree target content (.error trouble) tree where
  placed hok := by cases hok
  kept _ := ⟨rfl, fun _ _ => rfl⟩
  cleared _ hnone := ⟨hnone, fun _ hnames => hnames.entryAt?_eq ▸ hnone⟩
  others _ _ _ := rfl

end Atomicity

end Files

end SlimTemplate
