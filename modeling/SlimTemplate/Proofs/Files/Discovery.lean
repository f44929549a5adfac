import SlimTemplate.Proofs.Files.Scanning

/-!
Which sources a scan finds, in a tree that may have links. A scan finds the files below a directory
that have the extension, in the order of their paths. It looks at the directories and at what has
the extension, links included, and fails if the path of one of these is too long, or if a link leads
to a name that is.
-/

namespace SlimTemplate

namespace Path

/-- Names in order: the first code point in which they differ decides. -/
def NameBefore (name other : String) : Prop :=
  List.Lex (fun c d : Char => c.toNat < d.toNat) name.toList other.toList

def Before (p q : Path) : Prop :=
  List.Lex NameBefore p.parts q.parts

theorem NameBefore.trans {name other third : String} (h : NameBefore name other)
    (h' : NameBefore other third) : NameBefore name third :=
  List.lex_trans Nat.lt_trans h h'

theorem NameBefore.asymm {name other : String} (h : NameBefore name other) :
    ¬ NameBefore other name :=
  List.lex_asymm Nat.lt_asymm h

theorem NameBefore.eq_of_not {name other : String} (h : ¬ NameBefore name other)
    (h' : ¬ NameBefore other name) : name = other := by
  refine String.toList_injective (List.lex_trichotomous (fun c d hcd hdc => ?_) h' h)
  exact Char.toNat_inj.mp (by omega)

theorem Before.trans {p q r : Path} (h : Before p q) (h' : Before q r) : Before p r :=
  List.lex_trans NameBefore.trans h h'

theorem Before.asymm {p q : Path} (h : Before p q) : ¬ Before q p :=
  List.lex_asymm NameBefore.asymm h

theorem parts_eq_of_not_before {p q : Path} (h : ¬ Before p q) (h' : ¬ Before q p) :
    p.parts = q.parts := by
  classical
  exact List.lex_trichotomous (fun _ _ => NameBefore.eq_of_not) h' h

theorem Before.ne {p q : Path} (h : Before p q) : p ≠ q := by
  rintro rfl
  exact h.asymm h

theorem precedes_iff {p q : Path} : p.precedes q = true ↔ ¬ Before q p := by
  rw [precedes, Bool.not_eq_true', List.lex_eq_false_iff_not_lex, Before]
  refine not_congr (iff_of_eq (congrArg (fun order => List.Lex order q.parts p.parts) ?_))
  funext name other
  rw [decide_eq_true_eq, String.lt_iff, ← List.lex_lt, NameBefore]
  refine congrArg (fun order => List.Lex order name.toList other.toList) ?_
  funext c d
  rw [Char.lt_def, UInt32.lt_iff_toNat_lt]
  rfl

theorem precedes_trans (p q r : Path) (h : p.precedes q = true) (h' : q.precedes r = true) :
    p.precedes r = true := by
  rw [precedes_iff] at h h' ⊢
  intro hbefore
  by_cases hback : Before q r
  · exact h (hback.trans hbefore)
  · have hparts := parts_eq_of_not_before hback h'
    rw [Before, ← hparts] at hbefore
    exact h hbefore

theorem precedes_total (p q : Path) : (p.precedes q || q.precedes p) = true := by
  rw [Bool.or_eq_true, precedes_iff, precedes_iff]
  by_cases hbefore : Before q p
  · exact .inr hbefore.asymm
  · exact .inl hbefore

/-- Paths that differ in their names are put in order strictly. -/
theorem pairwise_before_mergeSort {paths : List Path}
    (h : paths.Pairwise fun p q => p.parts ≠ q.parts) :
    (paths.mergeSort precedes).Pairwise Before := by
  have hsorted := List.pairwise_mergeSort precedes_trans precedes_total paths
  have hdiffer : (paths.mergeSort precedes).Pairwise fun p q => p.parts ≠ q.parts :=
    (List.mergeSort_perm paths precedes).symm.pairwise h Ne.symm
  refine (hsorted.and hdiffer).imp fun {p q} hboth => ?_
  by_contra hnot
  exact hboth.2 (parts_eq_of_not_before hnot (precedes_iff.mp hboth.1))

/-- There is one way to put paths in order. -/
theorem eq_of_pairwise_before {paths others : List Path} (h : paths.Pairwise Before)
    (h' : others.Pairwise Before) (hmem : ∀ p, p ∈ paths ↔ p ∈ others) : paths = others := by
  have hperm : paths.Perm others :=
    (List.perm_ext_iff_of_nodup (h.imp Before.ne) (h'.imp Before.ne)).mpr hmem
  exact hperm.eq_of_pairwise (fun _ _ _ _ hbefore hback => absurd hback hbefore.asymm) h h'

end Path

namespace FileTree

/-- A tree as a file system lists it: each location is there once, entries have proper names without
null bytes, and they lie in directories. -/
structure Orderly (tree : FileTree) : Prop where
  housed : tree.Housed
  noNull : ∀ location entry, tree.get? location = some entry →
    ∀ name ∈ location, '\x00' ∉ name.toList
  distinct : (tree.entries.map Prod.fst).Nodup

/-- Names lead down from a directory to an entry, through directories and not through links. -/
inductive Descends (tree : FileTree) (entry : Entry) : Location → List String → Prop
  | last {here : Location} {name : String} (hdirectory : tree.get? here = some .directory)
      (hentry : tree.get? (here ++ [name]) = some entry) : Descends tree entry here [name]
  | down {here : Location} {name : String} {rest : List String}
      (hdirectory : tree.get? here = some .directory)
      (hrest : Descends tree entry (here ++ [name]) rest) :
      Descends tree entry here (name :: rest)

section Below

variable {tree : FileTree} {location : Location} {names : List String} {entry : Entry}

theorem Housed.descends_iff (h : tree.Housed) :
    Descends tree entry location names ↔
      names ≠ [] ∧ tree.get? (location ++ names) = some entry := by
  constructor
  · intro hdescends
    induction hdescends with
    | last _ hentry => exact ⟨List.cons_ne_nil _ _, hentry⟩
    | down _ _ ih =>
        refine ⟨List.cons_ne_nil _ _, ?_⟩
        rw [← List.append_cons] at ih
        exact ih.2
  · rintro ⟨hnames, hentry⟩
    induction names generalizing location with
    | nil => exact absurd rfl hnames
    | cons name rest ih =>
        have hdirectory := h.above hnames hentry
        cases rest with
        | nil => exact .last hdirectory hentry
        | cons next rest =>
            rw [List.append_cons] at hentry
            exact .down hdirectory (ih (List.cons_ne_nil next rest) hentry)

theorem Orderly.mem_entries_iff (h : tree.Orderly) (hroot : location ≠ []) :
    (location, entry) ∈ tree.entries ↔ tree.get? location = some entry := by
  refine ⟨fun hmem => ?_, Files.mem_entries_of_get? hroot⟩
  obtain ⟨before, after, hentries⟩ := List.append_of_mem hmem
  rw [get?, if_neg hroot, List.lookup_eq_some_iff]
  refine ⟨before, after, hentries, fun other hother => ?_⟩
  have hdistinct := h.distinct
  rw [hentries, List.map_append, List.map_cons, List.nodup_append] at hdistinct
  have hne := hdistinct.2.2 other.1 (List.mem_map_of_mem hother) location List.mem_cons_self
  simpa using Ne.symm hne

theorem orderly_of_entries (hdistinct : (tree.entries.map Prod.fst).Nodup)
    (hentries : ∀ item ∈ tree.entries, tree.get? item.1.dropLast = some .directory ∧
      ∀ name ∈ item.1, ¬ IsDots name ∧ '\x00' ∉ name.toList) : tree.Orderly := by
  have hnames : ∀ location entry, tree.get? location = some entry →
      ∀ name ∈ location, ¬ IsDots name ∧ '\x00' ∉ name.toList := by
    intro location entry hentry name hname
    have hroot : location ≠ [] := List.ne_nil_of_mem hname
    exact (hentries _ (Files.mem_entries_of_get? hroot hentry)).2 name hname
  refine ⟨⟨fun location entry hentry name hname => ?_, fun directory name entry hentry => ?_⟩,
    fun location entry hentry name hname => ?_, hdistinct⟩
  · exact (hnames location entry hentry name hname).1
  · have hmem := Files.mem_entries_of_get? (by simp) hentry
    simpa using (hentries _ hmem).1
  · exact (hnames location entry hentry name hname).2

theorem Orderly.mem_below_iff (h : tree.Orderly) :
    (names, entry) ∈ tree.below location ↔ Descends tree entry location names := by
  rw [Files.mem_below_iff, h.housed.descends_iff]
  refine and_congr_right fun hnames => h.mem_entries_iff ?_
  simp [hnames]

end Below

end FileTree

namespace Files

open FileTree

/-- A path whose name ends in the extension, whatever the case of the letters. -/
def Ends (extension : String) (p : Path) : Prop :=
  (Text.lower extension).toList <:+ (Text.lower p.name).toList

theorem hasExtension_iff {extension : String} {p : Path} :
    hasExtension p.name extension = true ↔ Ends extension p :=
  List.isSuffixOf_iff_suffix

theorem sourceOf?_eq_some_iff {directory p : Path} {extension : String} {names : List String}
    {entry : Entry} :
    sourceOf? directory extension (names, entry) = some p ↔
      (∃ content, entry = .file content) ∧ p = directory.descend names ∧ Ends extension p := by
  cases entry with
  | file content =>
      rw [sourceOf?]
      split
      · rename_i hextension
        rw [Option.some.injEq]
        constructor
        · rintro rfl
          exact ⟨⟨content, rfl⟩, rfl, hasExtension_iff.mp hextension⟩
        · rintro ⟨-, rfl, -⟩
          rfl
      · rename_i hextension
        refine iff_of_false (by simp) ?_
        rintro ⟨-, rfl, hends⟩
        exact hextension (hasExtension_iff.mpr hends)
  | directory | link _ => simp [sourceOf?]

section Discovery

variable (tree : FileTree) (directory : Path) (location : Location) (extension : String)

def IsSourceBelow (p : Path) : Prop :=
  ∃ names content, Descends tree (.file content) location names ∧
    p = directory.descend names ∧ Ends extension p

/-- What a scan looks at: the directories below, and all that has the extension. -/
def IsLookedAt (p : Path) : Prop :=
  ∃ names entry, Descends tree entry location names ∧ p = directory.descend names ∧
    (entry = .directory ∨ Ends extension p)

/-- A path that can be looked at: neither the path nor a name that it leads through is too long. -/
def InSight (p : Path) : Prop :=
  tree.locate .target p ≠ .error .nameTooLong

structure Discovers (outcome : Except Trouble (List Path)) : Prop where
  found : ∀ sources, outcome = .ok sources ↔
    (∀ p, IsLookedAt tree directory location extension p → InSight tree p) ∧
      sources.Pairwise Path.Before ∧
      ∀ p, p ∈ sources ↔ IsSourceBelow tree directory location extension p
  failed : ∀ trouble, outcome = .error trouble →
    ∃ p, IsLookedAt tree directory location extension p ∧ ¬ InSight tree p ∧
      trouble = .failure (.unscannable directory ⟨.nameTooLong, p.text, none⟩)
  accepted : ∀ sources, outcome = .ok sources → ∀ p ∈ sources,
    hasExtension p.name extension = true ∧ tree.isFile p = .ok true

end Discovery

section Outcome

variable {tree : FileTree} {directory : Path} {location : Location} {extension : String}

theorem inSight_iff {p : Path} : InSight tree p ↔ ∃ answer, tree.isFile p = .ok answer := by
  rw [InSight]
  cases hfile : tree.isFile p with
  | ok answer =>
      refine iff_of_true (fun hlong => ?_) ⟨answer, rfl⟩
      rw [isFile, probe, hlong] at hfile
      cases hfile
  | error e => exact iff_of_false (fun h => h (probe_eq_error_iff.mp hfile).1) (by simp)

/-- A scan fails only at what it looks at. -/
theorem collectSources_eq_error {entries : List (List String × Entry)} {e : OsError}
    (h : collectSources tree directory extension entries = .error e) :
    ∃ item ∈ entries, IsProbed directory extension item ∧
      tree.isFile (directory.descend item.1) = .error e := by
  induction entries with
  | nil => cases h
  | cons item rest ih =>
      have hlater : collectSources tree directory extension rest = .error e →
          ∃ other ∈ item :: rest, IsProbed directory extension other ∧
            tree.isFile (directory.descend other.1) = .error e := by
        intro hrest
        obtain ⟨other, hother, hfails⟩ := ih hrest
        exact ⟨other, List.mem_cons_of_mem item hother, hfails⟩
      by_cases hprobed : IsProbed directory extension item
      · rw [collectSources_probe hprobed] at h
        cases hfile : tree.isFile (directory.descend item.1) with
        | error e' =>
            rw [hfile] at h
            cases h
            exact ⟨item, List.mem_cons_self, hprobed, hfile⟩
        | ok answer =>
            rw [hfile] at h
            cases hrest : collectSources tree directory extension rest with
            | error e' =>
                rw [hrest] at h
                cases h
                exact hlater hrest
            | ok found =>
                rw [hrest] at h
                cases h
      · rw [collectSources_skip hprobed] at h
        exact hlater h

theorem below_distinct (h : tree.Orderly) (location : Location) :
    (tree.below location).Pairwise fun item other => item.1 ≠ other.1 := by
  rw [below_eq]
  refine (List.pairwise_map.mp h.distinct).filterMap _ fun item other hne => ?_
  rintro ⟨names, entry⟩ hitem ⟨names', entry'⟩ hother heq
  obtain ⟨-, rfl⟩ := belowOf?_eq_some_iff.mp hitem
  obtain ⟨-, rfl⟩ := belowOf?_eq_some_iff.mp hother
  exact hne (congrArg (location ++ ·) heq)

theorem sources_distinct (h : tree.Orderly) (directory : Path) (location : Location)
    (extension : String) :
    ((tree.below location).filterMap (sourceOf? directory extension)).Pairwise
      fun p q => p.parts ≠ q.parts := by
  refine (below_distinct h location).filterMap _ fun item other hne p hp q hq heq => ?_
  rw [eq_descend_of_sourceOf? hp, eq_descend_of_sourceOf? hq] at heq
  exact hne (List.append_cancel_left heq)

section Orderly

variable (h : tree.Orderly)

include h

theorem isLookedAt_iff {p : Path} :
    IsLookedAt tree directory location extension p ↔
      ∃ item ∈ tree.below location, p = directory.descend item.1 ∧
        IsProbed directory extension item := by
  constructor
  · rintro ⟨names, entry, hdescends, rfl, hlooked⟩
    refine ⟨(names, entry), h.mem_below_iff.mpr hdescends, rfl, ?_⟩
    exact hlooked.symm.imp_left hasExtension_iff.mpr
  · rintro ⟨⟨names, entry⟩, hmem, rfl, hprobed⟩
    refine ⟨names, entry, h.mem_below_iff.mp hmem, rfl, ?_⟩
    exact hprobed.symm.imp_right hasExtension_iff.mp

theorem isSourceBelow_iff {p : Path} :
    IsSourceBelow tree directory location extension p ↔
      p ∈ (tree.below location).filterMap (sourceOf? directory extension) := by
  rw [List.mem_filterMap]
  constructor
  · rintro ⟨names, content, hdescends, hp⟩
    exact ⟨_, h.mem_below_iff.mpr hdescends, sourceOf?_eq_some_iff.mpr ⟨⟨content, rfl⟩, hp⟩⟩
  · rintro ⟨⟨names, entry⟩, hmem, hsome⟩
    obtain ⟨⟨content, rfl⟩, hp⟩ := sourceOf?_eq_some_iff.mp hsome
    exact ⟨names, content, h.mem_below_iff.mp hmem, hp⟩

variable (hdirectory : tree.locate .target directory = .ok (.taken location .directory))

include hdirectory

/-- What lies below a directory, and is no link, is in sight if its path and its names are not too
long. -/
theorem inSight_descend_iff {names : List String} {entry : Entry}
    (hdescends : Descends tree entry location names) (hnot : ∀ target, entry ≠ .link target) :
    InSight tree (directory.descend names) ↔
      (directory.descend names).text.utf8ByteSize ≤ maxPathBytes ∧
        ∀ name ∈ names, name.utf8ByteSize ≤ maxNameBytes := by
  have hentry := (h.housed.descends_iff.mp hdescends).2
  rw [InSight, h.housed.locate_descend hdirectory hentry hnot fun name hname =>
    h.noNull _ _ hentry name (List.mem_append_right _ hname)]
  split_ifs with hshort
  · exact iff_of_true (by simp) hshort
  · exact iff_of_false (fun hseen => hseen rfl) hshort

/-- A file that is in sight is found to be one. -/
theorem isFile_descend {names : List String} {content : Text.Bytes}
    (hdescends : Descends tree (.file content) location names)
    (hseen : InSight tree (directory.descend names)) :
    tree.isFile (directory.descend names) = .ok true := by
  have hentry := (h.housed.descends_iff.mp hdescends).2
  have hshort := (inSight_descend_iff h hdirectory hdescends (by simp)).mp hseen
  have hlocate := h.housed.locate_descend hdirectory hentry (by simp) fun name hname =>
    h.noNull _ _ hentry name (List.mem_append_right _ hname)
  rw [isFile, probe, hlocate, if_pos hshort]

theorem findSources_discovers (extension : String) :
    Discovers tree directory location extension (findSources tree directory extension) := by
  obtain ⟨hok, herror⟩ := findSources_of_locate hdirectory
  cases hcollect : collectSources tree directory extension (tree.below location) with
  | error e =>
      obtain ⟨item, hitem, hprobed, hfile⟩ := collectSources_eq_error hcollect
      have hlooked := (isLookedAt_iff h).mpr ⟨item, hitem, rfl, hprobed⟩
      have hunseen : ¬ InSight tree (directory.descend item.1) := by simp [inSight_iff, hfile]
      rw [herror e hcollect]
      exact {
        found := fun sources => iff_of_false (by simp) fun hfound =>
          hunseen (hfound.1 _ hlooked)
        failed := by
          rintro trouble ⟨⟩
          exact ⟨_, hlooked, hunseen, by rw [(probe_eq_error_iff.mp hfile).2]⟩
        accepted := by simp }
  | ok found =>
      obtain ⟨hseen, hfound⟩ := collectSources_eq_ok_iff.mp hcollect
      have hsight : ∀ p, IsLookedAt tree directory location extension p → InSight tree p := by
        intro p hlooked
        obtain ⟨item, hitem, rfl, hprobed⟩ := (isLookedAt_iff h).mp hlooked
        exact inSight_iff.mpr (hseen item hitem hprobed)
      have hsorted : (found.mergeSort Path.precedes).Pairwise Path.Before := by
        rw [hfound]
        exact Path.pairwise_before_mergeSort (sources_distinct h directory location extension)
      have hmem : ∀ p, p ∈ found.mergeSort Path.precedes ↔
          IsSourceBelow tree directory location extension p := by
        intro p
        rw [List.mem_mergeSort, isSourceBelow_iff h, hfound]
      rw [hok found hcollect]
      exact {
        found := by
          intro sources
          rw [Except.ok.injEq]
          constructor
          · rintro rfl
            exact ⟨hsight, hsorted, hmem⟩
          · rintro ⟨-, hsources, hsame⟩
            exact Path.eq_of_pairwise_before hsorted hsources fun p =>
              (hmem p).trans (hsame p).symm
        failed := by simp
        accepted := by
          rintro sources ⟨⟩ p hp
          obtain ⟨names, content, hdescends, rfl, hends⟩ := (hmem p).mp hp
          have hlooked := hsight _ ⟨names, _, hdescends, rfl, .inr hends⟩
          exact ⟨hasExtension_iff.mpr hends, isFile_descend h hdirectory hdescends hlooked⟩ }

end Orderly

end Outcome

end Files

end SlimTemplate
