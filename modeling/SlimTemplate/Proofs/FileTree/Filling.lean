import SlimTemplate.Proofs.FileTree.Changes
import SlimTemplate.Proofs.FileTree.Resolution

/-!
Filling free names, in trees with links. All entries stay and no link comes to be, so every path
leads where it led before.
-/

namespace SlimTemplate
namespace FileTree

/-- A tree comes by files and directories where nothing was. -/
structure Fills (before after : FileTree) : Prop where
  working : after.working = before.working
  kept : ∀ location entry, before.get? location = some entry → after.get? location = some entry
  links : ∀ location target, after.get? location = some (.link target) →
    before.get? location = some (.link target)

section Fills

variable {tree before between after : FileTree} {p : Path} {location : Location}

theorem Fills.refl (tree : FileTree) : Fills tree tree :=
  ⟨rfl, fun _ _ => id, fun _ _ => id⟩

theorem Fills.trans (h : Fills before between) (h' : Fills between after) : Fills before after where
  working := h'.working.trans h.working
  kept location entry hentry := h'.kept location entry (h.kept location entry hentry)
  links location target hlink := h.links location target (h'.links location target hlink)

theorem Fills.links_iff (h : Fills before after) (location : Location) (target : String) :
    before.get? location = some (.link target) ↔ after.get? location = some (.link target) :=
  ⟨h.kept location _, h.links location target⟩

theorem ne_nil_of_free (h : tree.get? location = none) : location ≠ [] := by
  rintro rfl
  cases h

theorem fills_set {entry : Entry} (hfree : tree.get? location = none)
    (hlink : ∀ target, entry ≠ .link target) : Fills tree (tree.set location entry) where
  working := rfl
  kept other found hfound := by
    have hne : other ≠ location := fun heq => by simp [heq, hfree] at hfound
    rwa [get?_set _ _ _ _ (ne_nil_of_free hfree), if_neg hne]
  links other target htarget := by
    rw [get?_set _ _ _ _ (ne_nil_of_free hfree)] at htarget
    split at htarget
    · exact absurd (Option.some.inj htarget) (hlink target)
    · exact htarget

theorem createDirectory_fills (h : tree.createDirectory p = .ok after) : Fills tree after := by
  obtain ⟨directory, name, hlocate, rfl⟩ := createDirectory_ok h
  exact fills_set (locate_get? hlocate) (by simp)

theorem createDirectories_fills (tree : FileTree) (p : Path) :
    Fills tree (tree.createDirectories p).1 := by
  refine createDirectories_keeps (P := fun _ => True) (fun p hany => hany) ?_ trivial
    (Fills.refl tree)
  intro between after p _ hbefore hmade
  exact hbefore.trans (createDirectory_fills hmade)

/-- A place to write to is the place that a path leads to. -/
theorem walk_target {links : Nat} {here : Location} {names : List String} {place : Place}
    (h : tree.walk .output links here names = .ok place) :
    tree.walk .target links here names = .ok place := by
  replace h := walks_of_walk h
  induction h with
  | here hentry hplace => rw [walk_here hentry, hplace]
  | dots hdirectory hname _ ih => rw [walk_dots hdirectory hname, ih]
  | free hdirectory hname hlength hfree hplace =>
      rw [walk_free hdirectory hname hlength hfree, hplace]
  | file hdirectory hname hlength hfile hplace =>
      rw [walk_last hdirectory hname hlength (by simp) hfile (by simp), hplace]
  | unfollowed _ _ _ _ haim _ => cases haim
  | link hdirectory hname hlength hlink _ _ ih =>
      rw [walk_link hdirectory hname hlength (by simp) (by simp) hlink, ih]
  | down hdirectory hname hlength hinner _ ih =>
      rw [walk_down hdirectory hname hlength (by simp) hinner (by simp), ih]

theorem locate_target {place : Place} (h : tree.locate .output p = .ok place) :
    tree.locate .target p = .ok place := by
  have hwalk := walk_target (walk_of_locate h)
  rw [locate] at h ⊢
  split at h
  · cases h
  split at h
  · cases h
  rwa [if_neg ‹_›, if_neg ‹_›]

/-- Writing a file that was not there fills a free name. -/
theorem writeFile_fills {content : Text.Bytes}
    (hfree : ∀ location entry, tree.locate .target p ≠ .ok (.taken location entry))
    (h : tree.writeFile p content = .ok after) : Fills tree after := by
  obtain ⟨place, hlocate, -, rfl⟩ := writeFile_ok h
  have htarget := locate_target hlocate
  cases place with
  | taken location entry => exact absurd htarget (hfree location entry)
  | free directory name => exact fills_set (locate_get? hlocate) (by simp)

end Fills

end FileTree
end SlimTemplate
