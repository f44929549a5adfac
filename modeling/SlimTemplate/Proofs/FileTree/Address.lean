import Mathlib.Data.List.Nodup
import Mathlib.Data.List.Perm.Subperm
import SlimTemplate.FileTree.Resolve
import SlimTemplate.FileTree.Operations

/-!
Trees without links. There a path leads to the location that its names spell out, whatever else the
tree holds, so that every operation is known to concern the addresses of its paths only.
-/

namespace SlimTemplate

/-- The names that stand for no entry. -/
def IsDots (name : String) : Prop :=
  name = "" ∨ name = "." ∨ name = ".."

def Path.enter (here : Location) (name : String) : Location :=
  if name = "" ∨ name = "." then here
  else if name = ".." then here.dropLast
  else here ++ [name]

def Path.address (working : Location) (p : Path) : Location :=
  p.parts.foldl enter (FileTree.start working p.anchor)

theorem Path.enter_of_not_isDots (here : Location) {name : String} (h : ¬ IsDots name) :
    enter here name = here ++ [name] := by
  simp only [IsDots, not_or] at h
  simp [enter, h.1, h.2.1, h.2.2]

/-- A path with another last name leads to that name beside the old one. -/
theorem Path.address_child (working : Location) (p : Path) {name : String} (h : ¬ IsDots name) :
    (p.child name).address working = p.address working ++ [name] := by
  simp only [address, child, List.foldl_append, List.foldl_cons, List.foldl_nil]
  exact enter_of_not_isDots _ h

def Place.location : Place → Location
  | .taken location _ => location
  | .free directory name => directory ++ [name]

def Place.entry? : Place → Option Entry
  | .taken _ entry => some entry
  | .free _ _ => none

namespace FileTree

theorem mem_keys_of_get? {tree : FileTree} {location : Location} {entry : Entry}
    (hroot : location ≠ []) (h : tree.get? location = some entry) :
    location ∈ tree.entries.map Prod.fst := by
  rw [get?, if_neg hroot] at h
  obtain ⟨before, after, hentries, -⟩ := List.lookup_eq_some_iff.mp h
  simp [hentries]

/-- There are as many entries as locations that hold one. -/
theorem length_le_of_taken {tree : FileTree} {locations : List Location}
    (hnodup : locations.Nodup)
    (htaken : ∀ location ∈ locations, location ≠ [] ∧ ∃ entry, tree.get? location = some entry) :
    locations.length ≤ tree.entries.length := by
  have hsubset : locations ⊆ tree.entries.map Prod.fst := by
    intro location hlocation
    obtain ⟨hroot, entry, hentry⟩ := htaken location hlocation
    exact mem_keys_of_get? hroot hentry
  simpa using (List.subperm_of_subset hnodup hsubset).length_le

def LinkFree (tree : FileTree) : Prop :=
  ∀ location target, tree.get? location ≠ some (.link target)

/-- Names lead from a location to a place, through directories only. -/
inductive Leads (tree : FileTree) : Location → List String → Place → Prop
  | here {here : Location} {entry : Entry} (h : tree.get? here = some entry) :
      Leads tree here [] (.taken here entry)
  | dots {here : Location} {name : String} {rest : List String} {place : Place}
      (hdirectory : tree.get? here = some .directory) (hname : IsDots name)
      (hrest : Leads tree (Path.enter here name) rest place) : Leads tree here (name :: rest) place
  | free {here : Location} {name : String} (hdirectory : tree.get? here = some .directory)
      (hname : ¬ IsDots name) (hlength : name.utf8ByteSize ≤ maxNameBytes)
      (hfree : tree.get? (here ++ [name]) = none) : Leads tree here [name] (.free here name)
  | down {here : Location} {name : String} {rest : List String} {place : Place} {entry : Entry}
      (hdirectory : tree.get? here = some .directory) (hname : ¬ IsDots name)
      (hlength : name.utf8ByteSize ≤ maxNameBytes)
      (hentry : tree.get? (here ++ [name]) = some entry)
      (hrest : Leads tree (here ++ [name]) rest place) : Leads tree here (name :: rest) place

section Step

variable {tree : FileTree} {aim : Aim} {links : Nat} {here : Location} {name : String}
  {rest : List String}

theorem walk_here {entry : Entry} (hentry : tree.get? here = some entry) :
    tree.walk aim links here [] = .ok (.taken here entry) := by
  rw [walk_nil, hentry]

theorem walk_nowhere (hnone : tree.get? here = none) :
    tree.walk aim links here [] = .error .noEntry := by
  rw [walk_nil, hnone]

theorem walk_outside (hnot : tree.get? here ≠ some .directory) :
    tree.walk aim links here (name :: rest) = .error .noEntry ∨
      tree.walk aim links here (name :: rest) = .error .notDirectory := by
  rw [walk_name, if_pos hnot]
  split
  · exact .inl rfl
  · exact .inr rfl

theorem walk_dots (hdirectory : tree.get? here = some .directory) (hname : IsDots name) :
    tree.walk aim links here (name :: rest) = tree.walk aim links (Path.enter here name) rest := by
  rw [walk_name, hdirectory]
  rcases hname with rfl | rfl | rfl <;> simp [Path.enter]

theorem walk_tooLong (hdirectory : tree.get? here = some .directory) (hname : ¬ IsDots name)
    (haim : aim ≠ .output) (hlong : ¬ name.utf8ByteSize ≤ maxNameBytes) :
    tree.walk aim links here (name :: rest) = .error .nameTooLong := by
  simp only [IsDots, not_or] at hname
  rw [walk_name, hdirectory]
  simp [hname.1, hname.2.1, hname.2.2, Nat.lt_of_not_le hlong, haim]

section Proper

variable (hdirectory : tree.get? here = some .directory) (hname : ¬ IsDots name)
  (hshort : name.utf8ByteSize ≤ maxNameBytes)

include hdirectory hname hshort

theorem walk_free (hfree : tree.get? (here ++ [name]) = none) :
    tree.walk aim links here [name] = .ok (.free here name) := by
  simp only [IsDots, not_or] at hname
  rw [walk_name, hdirectory]
  simp [hname.1, hname.2.1, hname.2.2, Nat.not_lt.mpr hshort, hfree]

theorem walk_missing (haim : aim ≠ .output) (hrest : rest ≠ [])
    (hfree : tree.get? (here ++ [name]) = none) :
    tree.walk aim links here (name :: rest) = .error .noEntry := by
  simp only [IsDots, not_or] at hname
  rw [walk_name, hdirectory]
  simp [hname.1, hname.2.1, hname.2.2, Nat.not_lt.mpr hshort, hfree, haim, hrest]

theorem walk_unfollowed {target : String}
    (hlink : tree.get? (here ++ [name]) = some (.link target)) :
    tree.walk .entry links here [name] = .ok (.taken (here ++ [name]) (.link target)) := by
  simp only [IsDots, not_or] at hname
  rw [walk_name, hdirectory]
  simp [hname.1, hname.2.1, hname.2.2, Nat.not_lt.mpr hshort, hlink]

theorem walk_link {target : String} (haim : aim ≠ .output) (hlast : ¬ (rest = [] ∧ aim = .entry))
    (hlink : tree.get? (here ++ [name]) = some (.link target)) :
    tree.walk aim (links + 1) here (name :: rest) =
      tree.walk aim links (start here (Path.readAnchor target.toList))
        (Path.splitNames target ++ rest) := by
  simp only [IsDots, not_or] at hname
  rw [walk_name, hdirectory]
  simp [hname.1, hname.2.1, hname.2.2, Nat.not_lt.mpr hshort, hlink, haim, hlast]

theorem walk_loop {target : String} (haim : aim ≠ .output) (hlast : ¬ (rest = [] ∧ aim = .entry))
    (hlink : tree.get? (here ++ [name]) = some (.link target)) :
    tree.walk aim 0 here (name :: rest) = .error .linkLoop := by
  simp only [IsDots, not_or] at hname
  rw [walk_name, hdirectory]
  simp [hname.1, hname.2.1, hname.2.2, Nat.not_lt.mpr hshort, hlink, haim, hlast]

theorem walk_down {entry : Entry} (haim : aim ≠ .output)
    (hentry : tree.get? (here ++ [name]) = some entry) (hnot : ∀ target, entry ≠ .link target) :
    tree.walk aim links here (name :: rest) = tree.walk aim links (here ++ [name]) rest := by
  simp only [IsDots, not_or] at hname
  rw [walk_name, hdirectory]
  cases entry with
  | link target => exact absurd rfl (hnot target)
  | file _ | directory =>
      simp [hname.1, hname.2.1, hname.2.2, Nat.not_lt.mpr hshort, hentry, haim]

theorem walk_last {entry : Entry} (haim : aim ≠ .output)
    (hentry : tree.get? (here ++ [name]) = some entry) (hnot : ∀ target, entry ≠ .link target) :
    tree.walk aim links here [name] = .ok (.taken (here ++ [name]) entry) := by
  rw [walk_down hdirectory hname hshort haim hentry hnot, walk_here hentry]

end Proper

end Step

section Walk

variable {tree : FileTree} {aim : Aim} {links : Nat} {here : Location} {names : List String}
  {place : Place}

inductive FirstStep (tree : FileTree) (aim : Aim) (links : Nat) (here : Location) (name : String)
    (rest : List String) (place : Place) : Prop
  | dots (hname : IsDots name)
      (hrest : tree.walk aim links (Path.enter here name) rest = .ok place)
  | free (hname : ¬ IsDots name) (hfree : tree.get? (here ++ [name]) = none) (hlast : rest = [])
      (hplace : place = .free here name)
  | unfollowed {target : String} (hname : ¬ IsDots name)
      (hlink : tree.get? (here ++ [name]) = some (.link target)) (hlast : rest = [])
      (haim : aim = .entry) (hplace : place = .taken (here ++ [name]) (.link target))
  | link {target : String} {fewer : Nat} (hname : ¬ IsDots name)
      (hlink : tree.get? (here ++ [name]) = some (.link target))
      (haim : ¬ (rest = [] ∧ aim = .entry)) (hfewer : links = fewer + 1)
      (hrest : tree.walk aim fewer (start here (Path.readAnchor target.toList))
        (Path.splitNames target ++ rest) = .ok place)
  | down {entry : Entry} (hname : ¬ IsDots name)
      (hentry : tree.get? (here ++ [name]) = some entry) (hnot : ∀ target, entry ≠ .link target)
      (hrest : tree.walk aim links (here ++ [name]) rest = .ok place)

theorem walk_cons {name : String} {rest : List String}
    (h : tree.walk aim links here (name :: rest) = .ok place) :
    tree.get? here = some .directory ∧ (IsDots name ∨ name.utf8ByteSize ≤ maxNameBytes) ∧
      FirstStep tree aim links here name rest place := by
  rw [walk_name] at h
  split at h
  · cases h
  split at h
  · cases h
  rename_i hdirectory
  refine ⟨Decidable.not_not.mp hdirectory, ?_⟩
  split at h
  · rename_i hdot
    have hdot : name = "" ∨ name = "." := by simpa using hdot
    have hname : IsDots name := hdot.imp_right .inl
    refine ⟨.inl hname, .dots hname ?_⟩
    rwa [Path.enter, if_pos hdot]
  rename_i hdot
  have hdot : ¬ (name = "" ∨ name = ".") := by simpa using hdot
  split at h
  · rename_i hdots
    have hname : IsDots name := .inr (.inr hdots)
    refine ⟨.inl hname, .dots hname ?_⟩
    rwa [Path.enter, if_neg hdot, if_pos hdots]
  rename_i hdots
  have hname : ¬ IsDots name := fun hname => hname.elim (hdot ∘ .inl) fun hname =>
    hname.elim (hdot ∘ .inr) hdots
  split at h
  · cases h
  split at h
  · cases h
  rename_i hlength
  refine ⟨.inr (Nat.le_of_not_lt hlength), ?_⟩
  cases hentry : tree.get? (here ++ [name]) with
  | none =>
      simp only [hentry] at h
      split at h
      · rename_i hlast
        cases h
        exact .free hname hentry hlast rfl
      · cases h
  | some entry =>
      cases entry with
      | file _ | directory =>
          simp only [hentry] at h
          exact .down hname hentry (by simp) h
      | link target =>
          simp only [hentry] at h
          split at h
          · rename_i hlast
            simp only [Bool.and_eq_true, decide_eq_true_eq] at hlast
            cases h
            exact .unfollowed hname hentry hlast.1 hlast.2 rfl
          · rename_i hlast
            cases links with
            | zero => cases h
            | succ fewer => exact .link hname hentry (by simpa using hlast) rfl h

theorem walk_nil_ok (h : tree.walk aim links here [] = .ok place) :
    ∃ entry, tree.get? here = some entry ∧ place = .taken here entry := by
  rw [walk_nil] at h
  split at h <;> cases h
  exact ⟨_, ‹_›, rfl⟩

/-- Without links a walk meets directories only, whatever its aim. -/
theorem leads_of_walk (hlinks : tree.LinkFree) (h : tree.walk aim links here names = .ok place) :
    Leads tree here names place := by
  induction names generalizing here with
  | nil =>
      obtain ⟨entry, hentry, rfl⟩ := walk_nil_ok h
      exact .here hentry
  | cons name rest ih =>
      obtain ⟨hdirectory, hlength, hstep⟩ := walk_cons h
      cases hstep with
      | dots hname hrest => exact .dots hdirectory hname (ih hrest)
      | free hname hfree hlast hplace =>
          subst hlast hplace
          exact .free hdirectory hname (hlength.resolve_left hname) hfree
      | unfollowed _ hlink _ _ _ | link _ hlink _ _ _ => exact absurd hlink (hlinks _ _)
      | down hname hentry _ hrest =>
          exact .down hdirectory hname (hlength.resolve_left hname) hentry (ih hrest)

/-- Such a walk gives the place that the names lead to. -/
theorem Leads.walk_eq (hlinks : tree.LinkFree) (h : Leads tree here names place) (links : Nat) :
    tree.walk .target links here names = .ok place := by
  induction h with
  | here hentry => exact walk_here hentry
  | dots hdirectory hname _ ih => rw [walk_dots hdirectory hname, ih]
  | free hdirectory hname hlength hfree => exact walk_free hdirectory hname hlength hfree
  | down hdirectory hname hlength hentry _ ih =>
      rw [walk_down hdirectory hname hlength (by simp) hentry fun target heq =>
        hlinks _ target (heq ▸ hentry), ih]

/-- A walk goes on from the place that its first names lead to. -/
theorem Leads.walk_append {between : Location} {entry : Entry} {rest : List String}
    (hlinks : tree.LinkFree) (h : Leads tree here names (.taken between entry)) (links : Nat) :
    tree.walk .target links here (names ++ rest) = tree.walk .target links between rest := by
  generalize hplace : Place.taken between entry = place at h
  induction h with
  | here _ =>
      cases hplace
      rfl
  | dots hdirectory hname _ ih => rw [List.cons_append, walk_dots hdirectory hname, ih hplace]
  | free _ _ _ _ => cases hplace
  | down hdirectory hname hlength hentry _ ih =>
      rw [List.cons_append, walk_down hdirectory hname hlength (by simp) hentry fun target heq =>
        hlinks _ target (heq ▸ hentry), ih hplace]

/-- A file can be written where names lead to, unless they end in an empty one. -/
theorem Leads.walk_output (hlinks : tree.LinkFree) (h : Leads tree here names place) (links : Nat)
    (hlast : names.getLast? ≠ some "") : tree.walk .output links here names = .ok place := by
  induction h with
  | here hentry => exact walk_here hentry
  | @dots _ _ rest _ hdirectory hname _ ih =>
      rw [walk_dots hdirectory hname]
      refine ih fun hempty => hlast ?_
      rw [List.getLast?_cons, hempty, Option.getD_some]
  | free hdirectory hname hlength hfree => exact walk_free hdirectory hname hlength hfree
  | @down _ _ rest _ entry hdirectory hname hlength hentry _ ih =>
      simp only [IsDots, not_or] at hname
      have hrest : rest.getLast? ≠ some "" := by
        intro hempty
        rw [List.getLast?_cons, hempty, Option.getD_some] at hlast
        exact hlast rfl
      have hslash : rest ≠ [] → ∃ other ∈ rest, other ≠ "" := by
        intro hnil
        refine ⟨rest.getLast hnil, List.getLast_mem hnil, ?_⟩
        simpa [List.getLast?_eq_some_getLast hnil] using hrest
      rw [walk_name, hdirectory]
      cases entry with
      | link target => exact absurd hentry (hlinks _ target)
      | file _ | directory =>
          simpa [hname.1, hname.2.1, hname.2.2, Nat.not_lt.mpr hlength, hentry, ih hrest]
            using hslash

theorem Leads.location_eq (h : Leads tree here names place) :
    place.location = names.foldl Path.enter here := by
  induction h with
  | here _ => rfl
  | dots _ _ _ ih => exact ih
  | free _ hname _ _ => exact (Path.enter_of_not_isDots _ hname).symm
  | down _ hname _ _ _ ih => rw [List.foldl_cons, Path.enter_of_not_isDots _ hname]; exact ih

theorem Leads.entry_eq (h : Leads tree here names place) :
    tree.get? place.location = place.entry? := by
  induction h with
  | here hentry => exact hentry
  | dots _ _ _ ih => exact ih
  | free _ _ _ hfree => exact hfree
  | down _ _ _ _ _ ih => exact ih

theorem Leads.start_taken (h : Leads tree here names place) :
    ∃ entry, tree.get? here = some entry := by
  cases h with
  | here hentry => exact ⟨_, hentry⟩
  | dots hdirectory _ _ | free hdirectory _ _ _ | down hdirectory _ _ _ _ => exact ⟨_, hdirectory⟩

/-- A free place is a proper name in a directory. -/
theorem Leads.free_name {directory : Location} {name : String}
    (h : Leads tree here names (.free directory name)) :
    tree.get? directory = some .directory ∧ ¬ IsDots name ∧ name ∈ names := by
  generalize hplace : Place.free directory name = place at h
  induction h with
  | here _ => cases hplace
  | dots _ _ _ ih | down _ _ _ _ _ ih =>
      obtain ⟨hdirectory, hname, hmem⟩ := ih hplace
      exact ⟨hdirectory, hname, List.mem_cons_of_mem _ hmem⟩
  | free hdirectory hname _ _ =>
      cases hplace
      exact ⟨hdirectory, hname, List.mem_singleton_self _⟩

/-- A free name is short enough to be taken. -/
theorem Leads.free_length {directory : Location} {name : String}
    (h : Leads tree here names (.free directory name)) : name.utf8ByteSize ≤ maxNameBytes := by
  generalize hplace : Place.free directory name = place at h
  induction h with
  | here _ => cases hplace
  | dots _ _ _ ih | down _ _ _ _ _ ih => exact ih hplace
  | free _ _ hlength _ =>
      cases hplace
      exact hlength

/-- Names still lead to their place in a tree that has kept its directories, and find the entry that
is there now. -/
theorem Leads.later {after : FileTree} {entry : Entry} (h : Leads tree here names place)
    (hdirectories : ∀ location, tree.get? location = some .directory →
      after.get? location = some .directory)
    (hentry : after.get? place.location = some entry) :
    Leads after here names (.taken place.location entry) := by
  induction h with
  | here _ => exact .here hentry
  | dots hdirectory hname _ ih => exact .dots (hdirectories _ hdirectory) hname (ih hentry)
  | free hdirectory hname hlength _ =>
      exact .down (hdirectories _ hdirectory) hname hlength hentry (.here hentry)
  | down hdirectory hname hlength _ _ ih =>
      have hrest := ih hentry
      obtain ⟨found, hfound⟩ := hrest.start_taken
      exact .down (hdirectories _ hdirectory) hname hlength hfound hrest

/-- Names lead on from where others lead to. -/
theorem Leads.append {between : Location} {entry : Entry} {rest : List String}
    (h : Leads tree here names (.taken between entry)) (hrest : Leads tree between rest place) :
    Leads tree here (names ++ rest) place := by
  generalize hplace : Place.taken between entry = middle at h
  induction h with
  | here _ =>
      cases hplace
      exact hrest
  | dots hdirectory hname _ ih => exact .dots hdirectory hname (ih hplace)
  | free _ _ _ _ => cases hplace
  | down hdirectory hname hlength hentry _ ih =>
      exact .down hdirectory hname hlength hentry (ih hplace)

/-- All names but the last lead to a directory. -/
theorem Leads.init {last : String} (h : Leads tree here (names ++ [last]) place) :
    ∃ directory, Leads tree here names (.taken directory .directory) ∧
      Leads tree directory [last] place := by
  induction names generalizing here with
  | nil =>
      refine ⟨here, .here ?_, h⟩
      cases h with
      | dots hdirectory _ _ | free hdirectory _ _ _ | down hdirectory _ _ _ _ => exact hdirectory
  | cons name names ih =>
      generalize hcons : name :: names ++ [last] = all at h
      cases h with
      | here _ => cases hcons
      | free _ _ _ _ => simp at hcons
      | dots hdirectory hname hrest =>
          cases hcons
          obtain ⟨directory, hleads, hlast⟩ := ih hrest
          exact ⟨directory, .dots hdirectory hname hleads, hlast⟩
      | down hdirectory hname hlength hentry hrest =>
          cases hcons
          obtain ⟨directory, hleads, hlast⟩ := ih hrest
          exact ⟨directory, .down hdirectory hname hlength hentry hleads, hlast⟩

/-- Without links no walk ends in a loop of links. -/
theorem walk_ne_linkLoop (hlinks : tree.LinkFree) :
    tree.walk aim links here names ≠ .error .linkLoop := by
  induction names generalizing here with
  | nil =>
      rw [walk_nil]
      split <;> simp
  | cons name rest ih =>
      rw [walk_name]
      repeat' split
      all_goals first | exact ih | exact absurd ‹_› (hlinks _ _) | simp

end Walk

structure Reaches (tree : FileTree) (p : Path) (place : Place) : Prop where
  noNull : p.hasNull = false
  short : p.text.utf8ByteSize ≤ maxPathBytes
  leads : Leads tree (start tree.working p.anchor) p.parts place

section Reaches

variable {tree : FileTree} {aim : Aim} {p : Path} {place : Place}

theorem reaches_of_locate (hlinks : tree.LinkFree) (h : tree.locate aim p = .ok place) :
    Reaches tree p place := by
  rw [locate] at h
  split at h
  · cases h
  split at h
  · cases h
  exact ⟨by simpa using ‹¬ p.hasNull = true›, Nat.le_of_not_lt ‹_›, leads_of_walk hlinks h⟩

theorem Reaches.locate_eq (hlinks : tree.LinkFree) (h : Reaches tree p place) :
    tree.locate .target p = .ok place := by
  rw [locate, h.noNull, if_neg (by simp), if_neg (Nat.not_lt.mpr h.short)]
  exact h.leads.walk_eq hlinks maxLinks

theorem Reaches.location_eq (h : Reaches tree p place) :
    place.location = p.address tree.working :=
  h.leads.location_eq

theorem Reaches.entry_eq (h : Reaches tree p place) :
    tree.get? (p.address tree.working) = place.entry? :=
  h.location_eq ▸ h.leads.entry_eq

/-- A path that led to a place leads to whatever is there later. -/
theorem Reaches.later {after : FileTree} {entry : Entry} (h : Reaches tree p place)
    (hworking : after.working = tree.working)
    (hdirectories : ∀ location, tree.get? location = some .directory →
      after.get? location = some .directory)
    (hentry : after.get? (p.address tree.working) = some entry) :
    Reaches after p (.taken (p.address tree.working) entry) := by
  refine ⟨h.noNull, h.short, ?_⟩
  have hlater := h.leads.later hdirectories (h.location_eq ▸ hentry)
  rw [hworking]
  rwa [h.location_eq] at hlater

theorem readFile_eq_ok_iff {content : Text.Bytes} (hlinks : tree.LinkFree) :
    tree.readFile p = .ok content ↔
      ∃ location, Reaches tree p (.taken location (.file content)) := by
  constructor
  · intro h
    rw [readFile] at h
    split at h <;> cases h
    exact ⟨_, reaches_of_locate hlinks ‹_›⟩
  · rintro ⟨location, h⟩
    rw [readFile, h.locate_eq hlinks]

end Reaches

end FileTree
end SlimTemplate
