import SlimTemplate.Proofs.FileTree.Links

/-!
Resolving paths in trees with links. Where names lead to a location, the resolution comes to an end
there: the links that it is following are deeper than those still to come, so none is met again.
-/

namespace SlimTemplate
namespace FileTree
namespace Waypoint

/-- A waypoint below the root goes up by dropping names, so it has no double dots. -/
def Proper (w : Waypoint) : Prop :=
  w.absolute = true → ".." ∉ w.names

variable {w : Waypoint} {working : Location} {name : String}

theorem location_child (w : Waypoint) (working : Location) (hname : name ≠ "..") :
    (w.child name).location working = w.location working ++ [name] := by
  rw [location, child, List.foldl_append]
  exact if_neg hname

theorem Proper.child (h : w.Proper) (hname : name ≠ "..") : (w.child name).Proper := by
  intro habsolute hmem
  cases List.mem_append.mp hmem with
  | inl hin => exact h habsolute hin
  | inr hlast => exact hname (List.mem_singleton.mp hlast).symm

theorem location_dropLast (h : w.names = [] ∧ w.absolute = true ∨
      ∃ last, w.names.getLast? = some last ∧ last ≠ "..") :
    location working { w with names := w.names.dropLast } = (w.location working).dropLast := by
  obtain ⟨absolute, names⟩ := w
  rcases h with ⟨hnone, habsolute⟩ | ⟨last, hlast, hdots⟩
  · dsimp only at hnone habsolute
    subst hnone habsolute
    rfl
  · obtain ⟨init, rfl⟩ := List.getLast?_eq_some_iff.mp hlast
    simp [location, hdots]

theorem location_up (h : w.Proper) : w.up.location working = (w.location working).dropLast := by
  rw [up]
  split
  · rename_i hdrop
    refine location_dropLast ?_
    cases hlast : w.names.getLast? with
    | none =>
        rw [List.getLast?_eq_none_iff] at hlast
        simp [hlast] at hdrop
        exact .inl ⟨hlast, hdrop⟩
    | some last =>
        refine .inr ⟨last, rfl, fun hdots => ?_⟩
        subst hdots
        simp [hlast] at hdrop
        exact h hdrop (List.mem_of_getLast? hlast)
  · rw [location, child, List.foldl_append]
    rfl

theorem Proper.up (h : w.Proper) : w.up.Proper := by
  rw [Waypoint.up]
  split
  · exact fun habsolute hmem => h habsolute (List.dropLast_subset _ hmem)
  · rename_i hnot
    intro habsolute
    have habsolute : w.absolute = true := habsolute
    simp [habsolute] at hnot

theorem Proper.start (h : w.Proper) (anchor : Anchor) : (w.start anchor).Proper := by
  cases anchor with
  | here => exact h
  | root | doubleRoot => exact fun _ => List.not_mem_nil

theorem location_start (anchor : Anchor) :
    (w.start anchor).location working = FileTree.start (w.location working) anchor := by
  cases anchor with
  | here | root | doubleRoot => rfl

end Waypoint

/-- What a resolution remembers is right: the links that were followed lead where it says. -/
def Knows (tree : FileTree) (seen : SeenLinks) : Prop :=
  ∀ w known, seen.lookup w = some (some known) →
    known.Proper ∧ ∃ depth, LinkLeads tree (w.location tree.working) depth
      (known.location tree.working)

/-- The links that are being followed are not less deep than what is still to be followed. -/
def Pending (tree : FileTree) (seen : SeenLinks) (depth : Nat) : Prop :=
  ∀ w, seen.lookup w = some none →
    ∃ depth' last, depth ≤ depth' ∧ LinkLeads tree (w.location tree.working) depth' last

section Resolve

variable {tree : FileTree} {depth fuel : Nat} {here last : Location} {names : List String}
  {seen : SeenLinks} {w : Waypoint}

/-- A resolution ended at a location, and all links that it still follows were being followed
before. -/
structure Ended (tree : FileTree) (seen : SeenLinks) (last : Location) (r : Resolution) : Prop where
  complete : r.complete = true
  location : r.place.location tree.working = last
  proper : r.place.Proper
  knows : Knows tree r.seen
  pending : ∀ w, r.seen.lookup w = some none → seen.lookup w = some none

theorem lookup_cons_eq {α β : Type} [BEq α] [LawfulBEq α] {a key : α} {b : β}
    {pairs : List (α × β)} {value : β} (h : ((a, b) :: pairs).lookup key = some value) :
    key = a ∧ b = value ∨ key ≠ a ∧ pairs.lookup key = some value := by
  by_cases hkey : key = a
  · subst hkey
    simp at h
    exact .inl ⟨rfl, h⟩
  · rw [List.lookup_cons, beq_false_of_ne hkey] at h
    exact .inr ⟨hkey, h⟩

theorem Pending.mono {less : Nat} (h : Pending tree seen depth) (hle : less ≤ depth) :
    Pending tree seen less := by
  intro v hv
  obtain ⟨depth', last', hdepth, hleads⟩ := h v hv
  exact ⟨depth', last', Nat.le_trans hle hdepth, hleads⟩

section Link

variable {link : Waypoint} {inner : Nat} {middle : Location}

theorem Knows.enter (h : Knows tree seen) (link : Waypoint) :
    Knows tree ((link, none) :: seen) := by
  intro v known hv
  rcases lookup_cons_eq hv with ⟨-, hnone⟩ | ⟨-, hseen⟩
  · cases hnone
  · exact h v known hseen

theorem Pending.enter (h : Pending tree seen inner)
    (hleads : LinkLeads tree (link.location tree.working) inner middle) :
    Pending tree ((link, none) :: seen) inner := by
  intro v hv
  rcases lookup_cons_eq hv with ⟨rfl, -⟩ | ⟨-, hseen⟩
  · exact ⟨inner, middle, Nat.le_refl _, hleads⟩
  · exact h v hseen

/-- A link that was followed to its end is known, and no longer being followed. -/
theorem Ended.leave {r : Resolution} (h : Ended tree ((link, none) :: seen) middle r)
    (hleads : LinkLeads tree (link.location tree.working) inner middle) :
    Knows tree ((link, some r.place) :: r.seen) ∧
      ∀ v, ((link, some r.place) :: r.seen).lookup v = some none → seen.lookup v = some none := by
  constructor
  · intro v known hv
    rcases lookup_cons_eq hv with ⟨rfl, hsome⟩ | ⟨-, hseen⟩
    · cases hsome
      exact ⟨h.proper, inner, h.location ▸ hleads⟩
    · exact h.knows v known hseen
  · intro v hv
    rcases lookup_cons_eq hv with ⟨-, hnone⟩ | ⟨hne, hseen⟩
    · cases hnone
    · rcases lookup_cons_eq (h.pending v hseen) with ⟨heq, -⟩ | ⟨-, hold⟩
      · exact absurd heq hne
      · exact hold

/-- The step over a link: the target of the link is followed if it is not known yet, and then the
rest from where it leads. -/
theorem ended_link {outer : Nat} {name target : String} {rest : List String}
    (hname : ¬ IsDots name)
    (hlink : tree.get? ((w.child name).location tree.working) = some (.link target))
    (hleads : LinkLeads tree ((w.child name).location tree.working) inner middle)
    (hfuel : inner < fuel) (hknows : Knows tree seen) (hinner : Pending tree seen (inner + 1))
    (houter : Pending tree seen outer)
    (htarget : ∀ {fuel seen}, inner ≤ fuel → Knows tree seen → Pending tree seen inner →
      Ended tree seen middle (tree.resolveNames fuel seen
        (w.start (Path.readAnchor target.toList)) (Path.splitNames target)))
    (hrest : ∀ {seen place}, place.location tree.working = middle → place.Proper →
      Knows tree seen → Pending tree seen outer →
        Ended tree seen last (tree.resolveNames fuel seen place rest)) :
    Ended tree seen last (tree.resolveNames fuel seen w (name :: rest)) := by
  simp only [IsDots, not_or] at hname
  rw [resolveNames_name]
  simp only [hname.1, hname.2.1, hname.2.2, decide_false, Bool.or_self, Bool.false_eq_true,
    if_false, hlink]
  cases hlookup : seen.lookup (w.child name) with
  | some state =>
      cases state with
      | some known =>
          obtain ⟨hproper, depth', hknown⟩ := hknows _ _ hlookup
          exact hrest (hleads.unique hknown).2 hproper hknows houter
      | none =>
          -- a link that is being followed is deeper than the ones met on the way
          obtain ⟨depth', last', hle, hfollowed⟩ := hinner _ hlookup
          have hsame := (hleads.unique hfollowed).1
          omega
  | none =>
      cases fuel with
      | zero => omega
      | succ fuel =>
          dsimp only
          have hfirst := htarget (Nat.le_of_lt_succ hfuel) (hknows.enter (w.child name))
            ((hinner.mono (Nat.le_succ inner)).enter hleads)
          generalize tree.resolveNames fuel ((w.child name, none) :: seen)
            (w.start (Path.readAnchor target.toList)) (Path.splitNames target) = r at hfirst ⊢
          obtain ⟨hnow, hlater⟩ := hfirst.leave hleads
          have hsecond := hrest hfirst.location hfirst.proper hnow
            fun v hv => houter v (hlater v hv)
          rw [if_pos hfirst.complete]
          exact ⟨hsecond.complete, hsecond.location, hsecond.proper, hsecond.knows,
            fun v hv => hlater v (hsecond.pending v hv)⟩

end Link

theorem Follows.resolveNames_ended (h : Follows tree depth here names last)
    (hhere : w.location tree.working = here) (hw : w.Proper) (hfuel : depth ≤ fuel)
    (hknows : Knows tree seen) (hpending : Pending tree seen depth) :
    Ended tree seen last (tree.resolveNames fuel seen w names) := by
  induction h generalizing fuel seen w with
  | here =>
      rw [resolveNames_nil]
      exact ⟨rfl, hhere, hw, hknows, fun _ => id⟩
  | dots hname hrest ih =>
      rw [resolveNames_name]
      subst hhere
      rcases hname with rfl | rfl | rfl
      · simpa [Path.enter] using ih (by simp [Path.enter]) hw hfuel hknows hpending
      · simpa [Path.enter] using ih (by simp [Path.enter]) hw hfuel hknows hpending
      · simpa using ih (by rw [Waypoint.location_up hw]; rfl) hw.up hfuel hknows hpending
  | down hname hnot hrest ih =>
      subst hhere
      simp only [IsDots, not_or] at hname
      have hchild := w.location_child tree.working hname.2.2
      rw [resolveNames_name]
      simp only [hname.1, hname.2.1, hname.2.2, decide_false, Bool.or_self, Bool.false_eq_true,
        if_false]
      rw [← hchild] at hnot
      split
      · rename_i hlink
        exact absurd hlink (hnot _)
      · exact ih hchild (hw.child hname.2.2) hfuel hknows hpending
  | @link inner outer _ middle _ name target rest hname hlink htarget hrest ihtarget ihrest =>
      subst hhere
      have hchild := w.location_child tree.working fun hup => hname (.inr (.inr hup))
      rw [← hchild] at hlink
      have hleads : LinkLeads tree ((w.child name).location tree.working) inner middle :=
        ⟨_, _, _, hchild, hlink, htarget⟩
      have houter : Pending tree seen outer := hpending.mono (by omega)
      refine ended_link hname hlink hleads (by omega) hknows (hpending.mono (by omega)) houter ?_ ?_
      · intro fuel seen hinner
        exact ihtarget (Waypoint.location_start _) (hw.start _) hinner
      · intro seen place hplace hproper
        exact ihrest hplace hproper (by omega)

end Resolve

def LeadsTo (tree : FileTree) (p : Path) (last : Location) : Prop :=
  ∃ depth, Follows tree depth (start tree.working p.anchor) p.parts last

/-- The directory entry that a path names: links are followed on the way to it, and no further. -/
def entryLocation (tree : FileTree) (p : Path) : Location :=
  (tree.resolveNames ((tree.working.length + 2) * tree.entries.length + 1) []
    (Waypoint.start ⟨false, []⟩ p.anchor) p.parent.parts).place.location tree.working ++ [p.name]

section LeadsTo

variable {tree after : FileTree} {aim : Aim} {p q base : Path} {last last' : Location}
  {name : String} {place : Place}

theorem LeadsTo.unique (h : LeadsTo tree p last) (h' : LeadsTo tree p last') : last' = last :=
  (h.choose_spec.unique h'.choose_spec).2

theorem LeadsTo.later (h : LeadsTo tree p last) (hworking : after.working = tree.working)
    (hlinks : ∀ location target, after.get? location = some (.link target) ↔
      tree.get? location = some (.link target)) : LeadsTo after p last := by
  obtain ⟨depth, hfollows⟩ := h
  exact ⟨depth, hworking ▸ hfollows.later hlinks⟩

theorem LeadsTo.child (h : LeadsTo tree base last) (hname : ¬ IsDots name)
    (hnot : ∀ target, tree.get? (last ++ [name]) ≠ some (.link target)) :
    LeadsTo tree (base.child name) (last ++ [name]) := by
  obtain ⟨depth, hfollows⟩ := h
  exact ⟨_, hfollows.append (.down hname hnot .here)⟩

theorem LeadsTo.resolved (h : LeadsTo tree p last) :
    (tree.resolveNames ((tree.working.length + 2) * tree.entries.length + 1) []
      (Waypoint.start ⟨false, []⟩ p.anchor) p.parts).place.location tree.working = last := by
  obtain ⟨depth, hfollows⟩ := h
  have hfuel : depth ≤ (tree.working.length + 2) * tree.entries.length + 1 := by
    have hdepth := hfollows.depth_le
    have hentries : tree.entries.length ≤ (tree.working.length + 2) * tree.entries.length :=
      Nat.le_mul_of_pos_left _ (by omega)
    omega
  have hempty : Waypoint.Proper ⟨false, []⟩ := by simp [Waypoint.Proper]
  have hknows : Knows tree [] := by simp [Knows]
  have hpending : Pending tree [] depth := by simp [Pending]
  exact (hfollows.resolveNames_ended (Waypoint.location_start p.anchor) (hempty.start p.anchor)
    hfuel hknows hpending).location

/-- The path that a path is resolved to spells out the location that it leads to. -/
theorem LeadsTo.resolve_eq (h : LeadsTo tree p last) (hresolve : tree.resolve p = .ok q) :
    q = ⟨.root, last⟩ := by
  rw [resolve] at hresolve
  split at hresolve
  · cases hresolve
  · dsimp only at hresolve
    rw [h.resolved] at hresolve
    split at hresolve <;> cases hresolve
    rfl

/-- Without links every path leads to its address. -/
theorem leadsTo_address (hlinks : tree.LinkFree) (p : Path) :
    LeadsTo tree p (p.address tree.working) := by
  have hfollows : ∀ here, Follows tree 0 here p.parts (p.parts.foldl Path.enter here) := by
    induction p.parts with
    | nil => exact fun here => .here
    | cons name rest ih =>
        intro here
        rw [List.foldl_cons]
        by_cases hname : IsDots name
        · exact .dots hname (ih _)
        · rw [Path.enter_of_not_isDots here hname]
          exact .down hname (hlinks _) (ih _)
  exact ⟨0, hfollows _⟩

theorem LeadsTo.entryLocation_child (h : LeadsTo tree base last) (name : String) :
    tree.entryLocation (base.child name) = last ++ [name] := by
  have hparent : (base.child name).parent = base := by simp [Path.parent, Path.child]
  have hname : (base.child name).name = name := by simp [Path.name, Path.child]
  rw [entryLocation, hparent, hname]
  exact congrArg (· ++ [name]) h.resolved

theorem walk_of_locate (h : tree.locate aim p = .ok place) :
    tree.walk aim maxLinks (start tree.working p.anchor) p.parts = .ok place := by
  rw [locate] at h
  split at h
  · cases h
  split at h
  · cases h
  exact h

theorem locate_get? (h : tree.locate aim p = .ok place) :
    tree.get? place.location = place.entry? :=
  walk_get? (walk_of_locate h)

/-- A path that is followed to something other than a link leads there. -/
theorem leadsTo_of_locate (h : tree.locate aim p = .ok place)
    (hnot : ∀ target, place.entry? ≠ some (.link target)) : LeadsTo tree p place.location :=
  follows_of_walk (walk_of_locate h) hnot

/-- A path whose last name is proper is followed to an entry of the directory that the rest leads
to, or on through that entry if it is a link. -/
theorem locate_child (hname : ¬ IsDots name) (h : tree.locate aim (base.child name) = .ok place) :
    ∃ directory, LeadsTo tree base directory ∧
      (place = .free directory name ∨ ∃ entry, tree.get? (directory ++ [name]) = some entry) ∧
      ((aim = .entry ∨ ∀ target, tree.get? (directory ++ [name]) ≠ some (.link target)) →
        place.location = directory ++ [name]) := by
  obtain ⟨depth, fewer, directory, hfollows, hlast⟩ :=
    walk_append (List.cons_ne_nil name []) (walk_of_locate h)
  refine ⟨directory, ⟨depth, hfollows⟩, ?_⟩
  obtain ⟨-, -, hstep⟩ := walk_cons hlast
  cases hstep with
  | dots hdots _ => exact absurd hdots hname
  | free _ _ _ hplace =>
      subst hplace
      exact ⟨.inl rfl, fun _ => rfl⟩
  | unfollowed _ hlink _ _ hplace =>
      subst hplace
      exact ⟨.inr ⟨_, hlink⟩, fun _ => rfl⟩
  | link _ hlink haim _ _ =>
      exact ⟨.inr ⟨_, hlink⟩, fun hor => hor.elim (fun hentry => absurd ⟨rfl, hentry⟩ haim)
        fun hnot => absurd hlink (hnot _)⟩
  | down _ hentry _ hrest =>
      obtain ⟨_, -, hplace⟩ := walk_nil_ok hrest
      exact ⟨.inr ⟨_, hentry⟩, fun _ => hplace ▸ rfl⟩

end LeadsTo

end FileTree
end SlimTemplate
