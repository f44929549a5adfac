import Mathlib.Tactic.Choose
import SlimTemplate.Proofs.FileTree.Address

/-!
Trees with links. Names lead through links to a location, whether or not something is there. Both
ways in which paths are followed come to that location: a walk, which counts the links and needs
directories on its way, and a resolution, which remembers the links that it has met.
-/

namespace SlimTemplate
namespace FileTree

/-- Names lead from one location to another if all links are followed. The number tells how deep
links lead to links. -/
inductive Follows (tree : FileTree) : Nat → Location → List String → Location → Prop
  | here {here : Location} : Follows tree 0 here [] here
  | dots {depth : Nat} {here last : Location} {name : String} {rest : List String}
      (hname : IsDots name) (hrest : Follows tree depth (Path.enter here name) rest last) :
      Follows tree depth here (name :: rest) last
  | down {depth : Nat} {here last : Location} {name : String} {rest : List String}
      (hname : ¬ IsDots name) (hnot : ∀ target, tree.get? (here ++ [name]) ≠ some (.link target))
      (hrest : Follows tree depth (here ++ [name]) rest last) :
      Follows tree depth here (name :: rest) last
  | link {inner outer : Nat} {here middle last : Location} {name target : String}
      {rest : List String} (hname : ¬ IsDots name)
      (hlink : tree.get? (here ++ [name]) = some (.link target))
      (htarget : Follows tree inner (start here (Path.readAnchor target.toList))
        (Path.splitNames target) middle)
      (hrest : Follows tree outer middle rest last) :
      Follows tree (max (inner + 1) outer) here (name :: rest) last

inductive Walks (tree : FileTree) (aim : Aim) (place : Place) :
    Nat → Location → List String → Prop
  | here {links : Nat} {here : Location} {entry : Entry} (hentry : tree.get? here = some entry)
      (hplace : place = .taken here entry) : Walks tree aim place links here []
  | dots {links : Nat} {here : Location} {name : String} {rest : List String}
      (hdirectory : tree.get? here = some .directory) (hname : IsDots name)
      (hrest : Walks tree aim place links (Path.enter here name) rest) :
      Walks tree aim place links here (name :: rest)
  | free {links : Nat} {here : Location} {name : String}
      (hdirectory : tree.get? here = some .directory) (hname : ¬ IsDots name)
      (hlength : name.utf8ByteSize ≤ maxNameBytes) (hfree : tree.get? (here ++ [name]) = none)
      (hplace : place = .free here name) : Walks tree aim place links here [name]
  | file {links : Nat} {here : Location} {name : String} {content : Text.Bytes}
      (hdirectory : tree.get? here = some .directory) (hname : ¬ IsDots name)
      (hlength : name.utf8ByteSize ≤ maxNameBytes)
      (hfile : tree.get? (here ++ [name]) = some (.file content))
      (hplace : place = .taken (here ++ [name]) (.file content)) :
      Walks tree aim place links here [name]
  | unfollowed {links : Nat} {here : Location} {name target : String}
      (hdirectory : tree.get? here = some .directory) (hname : ¬ IsDots name)
      (hlength : name.utf8ByteSize ≤ maxNameBytes)
      (hlink : tree.get? (here ++ [name]) = some (.link target)) (haim : aim = .entry)
      (hplace : place = .taken (here ++ [name]) (.link target)) :
      Walks tree aim place links here [name]
  | link {links : Nat} {here : Location} {name target : String} {rest : List String}
      (hdirectory : tree.get? here = some .directory) (hname : ¬ IsDots name)
      (hlength : name.utf8ByteSize ≤ maxNameBytes)
      (hlink : tree.get? (here ++ [name]) = some (.link target))
      (haim : ¬ (rest = [] ∧ aim = .entry))
      (hrest : Walks tree aim place links (start here (Path.readAnchor target.toList))
        (Path.splitNames target ++ rest)) :
      Walks tree aim place (links + 1) here (name :: rest)
  | down {links : Nat} {here : Location} {name : String} {rest : List String}
      (hdirectory : tree.get? here = some .directory) (hname : ¬ IsDots name)
      (hlength : name.utf8ByteSize ≤ maxNameBytes)
      (hinner : tree.get? (here ++ [name]) = some .directory)
      (hrest : Walks tree aim place links (here ++ [name]) rest) :
      Walks tree aim place links here (name :: rest)

theorem walks_of_walk {tree : FileTree} {aim : Aim} {links : Nat} {here : Location}
    {names : List String} {place : Place} (h : tree.walk aim links here names = .ok place) :
    Walks tree aim place links here names := by
  -- a link takes one off the number of links, any other name one off the names
  induction links using Nat.strongRecOn generalizing here names with
  | _ links ih =>
      induction names generalizing here with
      | nil =>
          obtain ⟨entry, hentry, hplace⟩ := walk_nil_ok h
          exact .here hentry hplace
      | cons name rest ihnames =>
          obtain ⟨hdirectory, hlength, hstep⟩ := walk_cons h
          cases hstep with
          | dots hname hrest => exact .dots hdirectory hname (ihnames hrest)
          | free hname hfree hlast hplace =>
              subst hlast
              exact .free hdirectory hname (hlength.resolve_left hname) hfree hplace
          | unfollowed hname hlink hlast haim hplace =>
              subst hlast
              exact .unfollowed hdirectory hname (hlength.resolve_left hname) hlink haim hplace
          | link hname hlink haim hfewer hrest =>
              subst hfewer
              exact .link hdirectory hname (hlength.resolve_left hname) hlink haim
                (ih _ (by omega) hrest)
          | @down entry hname hentry hnot hrest =>
              have hlength := hlength.resolve_left hname
              cases entry with
              | link target => exact absurd rfl (hnot target)
              | directory => exact .down hdirectory hname hlength hentry (ihnames hrest)
              | file content =>
                  -- there is no name below a file
                  cases rest with
                  | nil =>
                      obtain ⟨found, hfound, hplace⟩ := walk_nil_ok hrest
                      cases hentry.symm.trans hfound
                      exact .file hdirectory hname hlength hentry hplace
                  | cons next rest => cases hentry.symm.trans (walk_cons hrest).1

section Follows

variable {tree after : FileTree} {aim : Aim} {links depth depth' : Nat}
  {here middle last last' : Location} {names rest : List String} {place : Place}

theorem Follows.unique (h : Follows tree depth here names last)
    (h' : Follows tree depth' here names last') : depth' = depth ∧ last' = last := by
  induction h generalizing depth' last' with
  | here =>
      cases h'
      exact ⟨rfl, rfl⟩
  | dots hname _ ih =>
      cases h' with
      | dots _ hrest => exact ih hrest
      | down hnot _ _ | link hnot _ _ _ => exact absurd hname hnot
  | down hname hnot _ ih =>
      cases h' with
      | dots hdots _ => exact absurd hdots hname
      | down _ _ hrest => exact ih hrest
      | link _ hlink _ _ => exact absurd hlink (hnot _)
  | link hname hlink _ _ ihtarget ihrest =>
      cases h' with
      | dots hdots _ => exact absurd hdots hname
      | down _ hnot _ => exact absurd hlink (hnot _)
      | link _ hlink' htarget hrest =>
          cases hlink.symm.trans hlink'
          obtain ⟨rfl, rfl⟩ := ihtarget htarget
          obtain ⟨rfl, rfl⟩ := ihrest hrest
          exact ⟨rfl, rfl⟩

theorem Follows.append (h : Follows tree depth here names middle)
    (h' : Follows tree depth' middle rest last) :
    Follows tree (max depth depth') here (names ++ rest) last := by
  induction h with
  | here => rwa [Nat.zero_max]
  | dots hname _ ih => exact .dots hname (ih h')
  | down hname hnot _ ih => exact .down hname hnot (ih h')
  | link hname hlink htarget _ _ ih =>
      rw [Nat.max_assoc]
      exact .link hname hlink htarget (ih h')

theorem Follows.of_append (h : Follows tree depth here (names ++ rest) last) :
    ∃ inner outer middle, Follows tree inner here names middle ∧
      Follows tree outer middle rest last ∧ depth = max inner outer := by
  induction names generalizing depth here with
  | nil => exact ⟨0, depth, here, .here, h, (Nat.zero_max depth).symm⟩
  | cons name names ih =>
      cases h with
      | dots hname hrest =>
          obtain ⟨inner, outer, middle, hinner, houter, hdepth⟩ := ih hrest
          exact ⟨inner, outer, middle, .dots hname hinner, houter, hdepth⟩
      | down hname hnot hrest =>
          obtain ⟨inner, outer, middle, hinner, houter, hdepth⟩ := ih hrest
          exact ⟨inner, outer, middle, .down hname hnot hinner, houter, hdepth⟩
      | link hname hlink htarget hrest =>
          obtain ⟨inner, outer, middle, hinner, houter, rfl⟩ := ih hrest
          exact ⟨_, outer, middle, .link hname hlink htarget hinner, houter,
            (Nat.max_assoc _ _ _).symm⟩

/-- Only the links of a tree matter. -/
theorem Follows.later (h : Follows tree depth here names last)
    (hlinks : ∀ location target, after.get? location = some (.link target) ↔
      tree.get? location = some (.link target)) : Follows after depth here names last := by
  induction h with
  | here => exact .here
  | dots hname _ ih => exact .dots hname ih
  | down hname hnot _ ih =>
      exact .down hname (fun target hlink => hnot target ((hlinks _ _).mp hlink)) ih
  | link hname hlink _ _ ihtarget ihrest =>
      exact .link hname ((hlinks _ _).mpr hlink) ihtarget ihrest

/-- All names but the last ones of a walk are followed through links. -/
theorem walk_append (hrest : rest ≠ []) (h : tree.walk aim links here (names ++ rest) = .ok place) :
    ∃ depth fewer middle, Follows tree depth here names middle ∧
      tree.walk aim fewer middle rest = .ok place := by
  -- a link takes one off the number of links, any other name one off the names
  induction links using Nat.strongRecOn generalizing here names with
  | _ links ih =>
      induction names generalizing here with
      | nil => exact ⟨0, links, here, .here, h⟩
      | cons name names ihnames =>
          rw [List.cons_append] at h
          obtain ⟨-, -, hstep⟩ := walk_cons h
          cases hstep with
          | dots hname hmore =>
              obtain ⟨depth, fewer, middle, hnames, hlast⟩ := ihnames hmore
              exact ⟨depth, fewer, middle, .dots hname hnames, hlast⟩
          | free _ _ hnone _ | unfollowed _ _ hnone _ _ =>
              exact absurd (List.append_eq_nil_iff.mp hnone).2 hrest
          | link hname hlink _ hfewer hmore =>
              rw [← List.append_assoc] at hmore
              obtain ⟨depth, fewer, middle, hboth, hlast⟩ := ih _ (by omega) hmore
              obtain ⟨inner, outer, _, htarget, hnames, -⟩ := hboth.of_append
              exact ⟨_, fewer, middle, .link hname hlink htarget hnames, hlast⟩
          | down hname hentry hnot hmore =>
              obtain ⟨depth, fewer, middle, hnames, hlast⟩ := ihnames hmore
              refine ⟨depth, fewer, middle, .down hname (fun target hlink => ?_) hnames, hlast⟩
              exact hnot target (Option.some.inj (hentry.symm.trans hlink))

/-- A walk that does not end at a link follows all of its names. -/
theorem follows_of_walk (h : tree.walk aim links here names = .ok place)
    (hnot : ∀ target, place.entry? ≠ some (.link target)) :
    ∃ depth, Follows tree depth here names place.location := by
  replace h := walks_of_walk h
  induction h with
  | here _ hplace => exact ⟨0, hplace ▸ .here⟩
  | dots _ hname _ ih =>
      obtain ⟨depth, hnames⟩ := ih
      exact ⟨depth, .dots hname hnames⟩
  | free _ hname _ hfree hplace =>
      subst hplace
      exact ⟨0, .down hname (by simp [hfree]) .here⟩
  | file _ hname _ hfile hplace =>
      subst hplace
      exact ⟨0, .down hname (by simp [hfile]) .here⟩
  | unfollowed _ _ _ _ _ hplace => exact absurd (congrArg Place.entry? hplace) (hnot _)
  | link _ hname _ hlink _ _ ih =>
      obtain ⟨depth, hboth⟩ := ih
      obtain ⟨inner, outer, _, htarget, hnames, -⟩ := hboth.of_append
      exact ⟨_, .link hname hlink htarget hnames⟩
  | down _ hname _ hinner _ ih =>
      obtain ⟨depth, hnames⟩ := ih
      exact ⟨depth, .down hname (by simp [hinner]) hnames⟩

/-- A walk tells what is at the place where it ends. -/
theorem walk_get? (h : tree.walk aim links here names = .ok place) :
    tree.get? place.location = place.entry? := by
  replace h := walks_of_walk h
  induction h with
  | here hfound hplace | free _ _ _ hfound hplace | file _ _ _ hfound hplace
    | unfollowed _ _ _ hfound _ hplace =>
      subst hplace
      exact hfound
  | dots _ _ _ ih | link _ _ _ _ _ _ ih | down _ _ _ _ _ ih => exact ih

end Follows

section Depth

variable {tree : FileTree} {depth depth' : Nat} {here last last' link : Location}
  {names : List String}

def LinkLeads (tree : FileTree) (link : Location) (depth : Nat) (last : Location) : Prop :=
  ∃ directory name target, link = directory ++ [name] ∧ tree.get? link = some (.link target) ∧
    Follows tree depth (start directory (Path.readAnchor target.toList)) (Path.splitNames target)
      last

theorem LinkLeads.unique (h : LinkLeads tree link depth last)
    (h' : LinkLeads tree link depth' last') : depth' = depth ∧ last' = last := by
  obtain ⟨directory, name, target, rfl, hlink, hfollows⟩ := h
  obtain ⟨directory', name', target', hlocation, hlink', hfollows'⟩ := h'
  obtain ⟨rfl, -⟩ := List.append_inj' hlocation rfl
  cases hlink.symm.trans hlink'
  exact hfollows.unique hfollows'

/-- Below a depth that is reached there is a link of each depth. -/
theorem Follows.exists_link (h : Follows tree depth here names last) {k : Nat} (hk : k < depth) :
    ∃ link last, LinkLeads tree link k last := by
  induction h with
  | here => exact absurd hk (Nat.not_lt_zero k)
  | dots _ _ ih | down _ _ _ ih => exact ih hk
  | @link inner outer _ _ _ _ _ _ _ hlink htarget _ ihtarget ihrest =>
      by_cases houter : k < outer
      · exact ihrest houter
      · rcases Nat.lt_succ_iff_lt_or_eq.mp (by omega : k < inner + 1) with hless | rfl
        · exact ihtarget hless
        · exact ⟨_, _, _, _, _, rfl, hlink, htarget⟩

/-- Links of different depths are different, so there are not more depths than entries. -/
theorem Follows.depth_le (h : Follows tree depth here names last) :
    depth ≤ tree.entries.length := by
  choose! link hlink using fun k (hk : k < depth) => h.exists_link hk
  have hnodup : ((List.range depth).map link).Nodup := by
    refine List.Nodup.map_on (fun i hi j hj heq => ?_) List.nodup_range
    obtain ⟨last, hfirst⟩ := hlink i (List.mem_range.mp hi)
    obtain ⟨last', hsecond⟩ := hlink j (List.mem_range.mp hj)
    rw [← heq] at hsecond
    exact (hsecond.unique hfirst).1
  have htaken : ∀ location ∈ (List.range depth).map link,
      location ≠ [] ∧ ∃ entry, tree.get? location = some entry := by
    intro location hlocation
    obtain ⟨i, hi, rfl⟩ := List.mem_map.mp hlocation
    obtain ⟨last, directory, name, target, hconcat, hentry, -⟩ := hlink i (List.mem_range.mp hi)
    exact ⟨by simp [hconcat], _, hentry⟩
  simpa using length_le_of_taken hnodup htaken

end Depth

end FileTree
end SlimTemplate
