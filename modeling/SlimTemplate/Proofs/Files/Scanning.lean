import SlimTemplate.Proofs.FileTree.Retention
import SlimTemplate.Proofs.Files.Writing

/-!
Scanning a directory again. A scan looks at the directories below and at what has the extension, and
finds the files among the latter. Main statement: after changes that touch nothing with the
extension a scan finds the same sources, unless a directory was made whose path is too long to be
looked at; then it fails.
-/

namespace SlimTemplate

namespace FileTree

section Walk

variable {tree : FileTree} {directory : Path} {location : Location} {names : List String}
  {entry : Entry}

/-- A walk goes on from the directory that its first names lead to. -/
theorem walk_beyond {links : Nat} {here : Location} {parts : List String}
    (h : tree.walk .target links here parts = .ok (.taken location .directory))
    (names : List String) :
    ∃ fewer, tree.walk .target links here (parts ++ names) =
      tree.walk .target fewer location names := by
  replace h := walks_of_walk h
  induction h with
  | @here links _ _ _ hplace =>
      cases hplace
      exact ⟨links, rfl⟩
  | dots hdirectory hname _ ih =>
      rw [List.cons_append, walk_dots hdirectory hname]
      exact ih
  | free _ _ _ _ hplace | file _ _ _ _ hplace => cases hplace
  | unfollowed _ _ _ _ haim _ => cases haim
  | link hdirectory hname hlength hlink _ _ ih =>
      rw [List.cons_append, walk_link hdirectory hname hlength (by simp) (by simp) hlink,
        ← List.append_assoc]
      exact ih
  | down hdirectory hname hlength hinner _ ih =>
      rw [List.cons_append, walk_down hdirectory hname hlength (by simp) hinner (by simp)]
      exact ih

/-- What lies below a directory, and is no link, is found there if its path and its names are not
too long. -/
theorem Housed.locate_descend (h : tree.Housed)
    (hdirectory : tree.locate .target directory = .ok (.taken location .directory))
    (hentry : tree.get? (location ++ names) = some entry)
    (hnot : ∀ target, entry ≠ .link target) (hnull : ∀ name ∈ names, '\x00' ∉ name.toList) :
    tree.locate .target (directory.descend names) =
      if (directory.descend names).text.utf8ByteSize ≤ maxPathBytes ∧
          ∀ name ∈ names, name.utf8ByteSize ≤ maxNameBytes then
        .ok (.taken (location ++ names) entry)
      else .error .nameTooLong := by
  have hnone : (directory.descend names).hasNull = false := by
    have hparts := hasNull_of_locate hdirectory
    simp only [Path.hasNull, Path.descend, List.any_eq_false, List.mem_append] at hparts ⊢
    rintro name (hin | hin)
    · exact hparts name hin
    · simpa using hnull name hin
  obtain ⟨fewer, hwalk⟩ := walk_beyond (walk_of_locate hdirectory) names
  rw [h.walk_eq hentry hnot] at hwalk
  rw [locate, hnone, if_neg (by simp)]
  by_cases hlong : maxPathBytes < (directory.descend names).text.utf8ByteSize
  · rw [if_pos hlong, if_neg fun hboth => Nat.not_le.mpr hlong hboth.1]
  · rw [if_neg hlong]
    refine hwalk.trans ?_
    simp [Nat.le_of_not_lt hlong]

/-- What lies below a directory can be looked at if its path and its names are not too long. -/
theorem isFile_descend_iff (hsound : tree.Sound)
    (hreaches : Reaches tree directory (.taken location .directory))
    (hentry : tree.get? (location ++ names) = some entry) :
    (∃ answer, tree.isFile (directory.descend names) = .ok answer) ↔
      (directory.descend names).text.utf8ByteSize ≤ maxPathBytes ∧
        ∀ name ∈ names, name.utf8ByteSize ≤ maxNameBytes := by
  have hlocate := hsound.housed.locate_descend (hreaches.locate_eq hsound.linkFree) hentry
    (fun target heq => hsound.linkFree _ target (heq ▸ hentry))
    fun name hname => (hsound.named _ _ hentry name (List.mem_append_right _ hname)).2.2
  rw [isFile, probe, hlocate]
  split_ifs with hshort
  · exact iff_of_true ⟨_, rfl⟩ hshort
  · exact iff_of_false (by simp) hshort

end Walk

end FileTree

namespace Files

open FileTree

def IsProbed (directory : Path) (extension : String) (item : List String × Entry) : Prop :=
  hasExtension (directory.descend item.1).name extension = true ∨ item.2 = .directory

def sourceOf? (directory : Path) (extension : String) : List String × Entry → Option Path
  | (names, .file _) =>
      if hasExtension (directory.descend names).name extension then some (directory.descend names)
      else none
  | _ => none

theorem eq_descend_of_sourceOf? {directory source : Path} {extension : String}
    {names : List String} {entry : Entry}
    (h : sourceOf? directory extension (names, entry) = some source) :
    source = directory.descend names := by
  cases entry with
  | file content =>
      rw [sourceOf?] at h
      split at h <;> cases h
      rfl
  | directory | link _ => cases h

section Collect

variable {tree : FileTree} {directory : Path} {extension : String} {item : List String × Entry}
  {rest : List (List String × Entry)}

theorem collectSources_skip (h : ¬ IsProbed directory extension item) :
    collectSources tree directory extension (item :: rest) =
      collectSources tree directory extension rest := by
  obtain ⟨names, entry⟩ := item
  obtain ⟨hextension, hdirectory⟩ := not_or.mp h
  have hskip : (!hasExtension (directory.descend names).name extension &&
      decide (entry ≠ .directory)) = true := by
    simp only [Bool.not_eq_true] at hextension
    simpa [hextension] using hdirectory
  rw [collectSources.eq_def]
  exact if_pos hskip

theorem collectSources_probe (h : IsProbed directory extension item) :
    collectSources tree directory extension (item :: rest) =
      tree.isFile (directory.descend item.1) >>= fun _ =>
        ((sourceOf? directory extension item).toList ++ ·) <$>
          collectSources tree directory extension rest := by
  obtain ⟨names, entry⟩ := item
  have hlooked : ¬ (!hasExtension (directory.descend names).name extension &&
      decide (entry ≠ .directory)) = true := by
    rcases h with hextension | hdirectory
    · simp [hextension]
    · simp [show entry = .directory from hdirectory]
  rw [collectSources.eq_def]
  refine (if_neg hlooked).trans ?_
  rw [← Path.descend]
  dsimp only
  cases tree.isFile (directory.descend names) with
  | error e => rfl
  | ok answer =>
      cases entry with
      | file content =>
          have hextension : hasExtension (directory.descend names).name extension = true :=
            h.resolve_right (by simp)
          simp [sourceOf?, hextension]
          rfl
      | directory | link _ =>
          cases collectSources tree directory extension rest with
          | error e | ok found => rfl

/-- A scan comes to an end if all that it looks at can be looked at, and finds the sources. -/
theorem collectSources_eq_ok_iff {entries : List (List String × Entry)} {found : List Path} :
    collectSources tree directory extension entries = .ok found ↔
      (∀ item ∈ entries, IsProbed directory extension item →
        ∃ answer, tree.isFile (directory.descend item.1) = .ok answer) ∧
      found = entries.filterMap (sourceOf? directory extension) := by
  induction entries generalizing found with
  | nil =>
      change (.ok [] : Except OsError (List Path)) = .ok found ↔ _
      rw [List.filterMap_nil, Except.ok.injEq, eq_comm]
      exact (and_iff_right (List.forall_mem_nil _)).symm
  | cons item rest ih =>
      rw [List.forall_mem_cons]
      by_cases hprobed : IsProbed directory extension item
      · rw [collectSources_probe hprobed]
        cases tree.isFile (directory.descend item.1) with
        | error e =>
            refine iff_of_false (fun h => by cases h) fun h => ?_
            obtain ⟨answer, hanswer⟩ := h.1.1 hprobed
            cases hanswer
        | ok answer =>
            have hsplit : (item :: rest).filterMap (sourceOf? directory extension) =
                (sourceOf? directory extension item).toList ++
                  rest.filterMap (sourceOf? directory extension) := by
              rw [List.filterMap_cons]
              cases sourceOf? directory extension item with
              | none | some source => rfl
            rw [hsplit]
            constructor
            · intro h
              cases hcollect : collectSources tree directory extension rest with
              | error e =>
                  rw [hcollect] at h
                  cases h
              | ok others =>
                  rw [hcollect] at h
                  obtain ⟨hrest, rfl⟩ := ih.mp hcollect
                  exact ⟨⟨fun _ => ⟨answer, rfl⟩, hrest⟩, (Except.ok.inj h).symm⟩
            · rintro ⟨⟨-, hrest⟩, rfl⟩
              rw [ih.mpr ⟨hrest, rfl⟩]
              rfl
      · have hnone : sourceOf? directory extension item = none := by
          obtain ⟨names, entry⟩ := item
          cases entry with
          | file content => exact if_neg (not_or.mp hprobed).1
          | directory | link _ => rfl
        rw [collectSources_skip hprobed, ih, List.filterMap_cons_none hnone]
        simp [hprobed]

end Collect

/-- An entry of a tree that a scan can find as a source, or has to look at for its name. -/
def isCandidate (extension : String) (item : Location × Entry) : Bool :=
  hasExtension (item.1.getLast?.getD "") extension && item.2 != .directory

def candidates (extension : String) (tree : FileTree) : List (Location × Entry) :=
  tree.entries.filter (isCandidate extension)

theorem name_descend (directory : Path) {names : List String} (h : names ≠ []) :
    (directory.descend names).name = names.getLast?.getD "" := by
  rw [Path.name, Path.descend, List.getLast?_append_of_ne_nil _ h]

def belowOf? (location : Location) (item : Location × Entry) : Option (List String × Entry) :=
  if location.isPrefixOf item.1 && location.length < item.1.length then
    some (item.1.drop location.length, item.2)
  else none

theorem below_eq (tree : FileTree) (location : Location) :
    tree.below location = tree.entries.filterMap (belowOf? location) :=
  rfl

theorem belowOf?_eq_some_iff {location : Location} {item : Location × Entry}
    {names : List String} {entry : Entry} :
    belowOf? location item = some (names, entry) ↔
      names ≠ [] ∧ item = (location ++ names, entry) := by
  obtain ⟨other, found⟩ := item
  rw [belowOf?]
  constructor
  · intro h
    split at h
    · rename_i hbelow
      simp only [Bool.and_eq_true, List.isPrefixOf_iff_prefix, decide_eq_true_eq] at hbelow
      obtain ⟨⟨rest, rfl⟩, hlength⟩ := hbelow
      cases h
      rw [List.drop_left]
      refine ⟨?_, rfl⟩
      rintro rfl
      simp at hlength
    · cases h
  · rintro ⟨hnames, heq⟩
    cases heq
    have hlength := List.length_pos_iff.mpr hnames
    have hbelow : (location.isPrefixOf (location ++ names) &&
        decide (location.length < (location ++ names).length)) = true := by
      simp [List.isPrefixOf_iff_prefix, hlength]
    rw [if_pos hbelow, List.drop_left]

theorem mem_below_iff {tree : FileTree} {location : Location} {names : List String}
    {entry : Entry} :
    (names, entry) ∈ tree.below location ↔
      names ≠ [] ∧ (location ++ names, entry) ∈ tree.entries := by
  rw [below_eq, List.mem_filterMap]
  simp only [belowOf?_eq_some_iff]
  exact ⟨fun ⟨item, hmem, hnames, heq⟩ => ⟨hnames, heq ▸ hmem⟩, fun ⟨hnames, hmem⟩ =>
    ⟨_, hmem, hnames, rfl⟩⟩

/-- The sources below a directory are among the candidates. -/
theorem sources_below (tree : FileTree) (directory : Path) (location : Location)
    (extension : String) :
    (tree.below location).filterMap (sourceOf? directory extension) =
      (candidates extension tree).filterMap fun item =>
        (belowOf? location item).bind (sourceOf? directory extension) := by
  rw [below_eq, List.filterMap_filterMap, candidates, List.filterMap_filter]
  refine List.filterMap_congr fun item _ => ?_
  cases hbelow : belowOf? location item with
  | none => simp
  | some found =>
      obtain ⟨names, entry⟩ := found
      obtain ⟨hnames, rfl⟩ := belowOf?_eq_some_iff.mp hbelow
      cases entry with
      | file content =>
          simp only [Option.bind_some, sourceOf?, name_descend directory hnames, isCandidate,
            List.getLast?_append_of_ne_nil _ hnames]
          cases hasExtension (names.getLast?.getD "") extension with
          | true | false => rfl
      | directory | link _ => simp [sourceOf?]

/-- A tree comes to be another one in which a scan finds the same: what has the extension is as it
was, directories stay, and those that were made have short names. -/
structure Rescans (extension : String) (before after : FileTree) : Prop where
  candidates : candidates extension after = candidates extension before
  kept : ∀ location, before.get? location = some .directory →
    after.get? location = some .directory
  made : ∀ location, (location, .directory) ∈ after.entries →
    (location, .directory) ∈ before.entries ∨
      before.get? location ≠ some .directory ∧ after.get? location = some .directory ∧
        (location.getLast?.getD "").utf8ByteSize ≤ maxNameBytes

section Rescans

variable {extension : String} {before between after tree : FileTree} {location : Location}

theorem Rescans.refl (extension : String) (tree : FileTree) : Rescans extension tree tree :=
  ⟨rfl, fun _ => id, fun _ => .inl⟩

theorem Rescans.trans (h : Rescans extension before between)
    (h' : Rescans extension between after) :
    Rescans extension before after where
  candidates := h'.candidates.trans h.candidates
  kept location hdirectory := h'.kept location (h.kept location hdirectory)
  made location hmem := by
    rcases h'.made location hmem with hbetween | ⟨hnew, hafter⟩
    · rcases h.made location hbetween with hbefore | ⟨hnew, hmade, hshort⟩
      · exact .inl hbefore
      · exact .inr ⟨hnew, h'.kept location hmade, hshort⟩
    · exact .inr ⟨fun hbefore => hnew (h.kept location hbefore), hafter⟩

theorem mem_setEntry {entry : Entry} {entries : List (Location × Entry)} {item : Location × Entry}
    (h : item ∈ setEntry location entry entries) : item = (location, entry) ∨ item ∈ entries := by
  induction entries with
  | nil => exact .inl (List.mem_singleton.mp h)
  | cons head rest ih =>
      obtain ⟨other, old⟩ := head
      rw [setEntry] at h
      split at h
      · exact (List.mem_cons.mp h).imp_right (List.mem_cons_of_mem _)
      · cases List.mem_cons.mp h with
        | inl heq => exact .inr (heq ▸ List.mem_cons_self)
        | inr hmem => exact (ih hmem).imp_right (List.mem_cons_of_mem _)

theorem filter_setEntry {keep : Location × Entry → Bool} {entry : Entry}
    {entries : List (Location × Entry)} (hnew : keep (location, entry) = false)
    (hold : ∀ old, (location, old) ∈ entries → keep (location, old) = false) :
    (setEntry location entry entries).filter keep = entries.filter keep := by
  induction entries with
  | nil => simp [setEntry, hnew]
  | cons head rest ih =>
      obtain ⟨other, old⟩ := head
      have hrest := ih fun found hfound => hold found (List.mem_cons_of_mem _ hfound)
      rw [setEntry]
      split
      · rename_i heq
        subst heq
        simp [hnew, hold old List.mem_cons_self]
      · simp only [List.filter_cons, hrest]

theorem rescans_set_file (content : Text.Bytes) (hroot : location ≠ [])
    (hname : hasExtension (location.getLast?.getD "") extension = false)
    (hnot : tree.get? location ≠ some .directory) :
    Rescans extension tree (tree.set location (.file content)) where
  candidates := filter_setEntry (by simp [isCandidate, hname]) fun _ _ => by
    simp [isCandidate, hname]
  kept other hother := by
    have hne : other ≠ location := fun heq => hnot (heq ▸ hother)
    rwa [get?_set _ _ _ _ hroot, if_neg hne]
  made other hmem := .inl ((mem_setEntry hmem).resolve_left (by simp))

theorem rescans_erase (hroot : location ≠ [])
    (hname : hasExtension (location.getLast?.getD "") extension = false)
    (hnot : tree.get? location ≠ some .directory) :
    Rescans extension tree (tree.erase location) where
  candidates := by
    rw [Files.candidates, erase, List.filter_filter, Files.candidates]
    refine List.filter_congr fun item _ => ?_
    by_cases heq : item.1 = location
    · simp [isCandidate, heq, hname]
    · simp [heq]
  kept other hother := by
    have hne : other ≠ location := fun heq => hnot (heq ▸ hother)
    rwa [get?_erase _ _ _ hroot, if_neg hne]
  made other hmem := .inl (List.mem_filter.mp hmem).1

theorem rescans_set_directory (hroot : location ≠ []) (hfree : tree.get? location = none)
    (hshort : (location.getLast?.getD "").utf8ByteSize ≤ maxNameBytes) :
    Rescans extension tree (tree.set location .directory) where
  candidates := filter_setEntry (by simp [isCandidate]) fun old hold => by
    rw [get?, if_neg hroot, List.lookup_eq_none_iff] at hfree
    simpa using hfree _ hold
  kept other hother := by
    have hne : other ≠ location := fun heq => by simp [heq, hfree] at hother
    rwa [get?_set _ _ _ _ hroot, if_neg hne]
  made other hmem := by
    rcases mem_setEntry hmem with heq | hold
    · cases heq
      exact .inr ⟨by simp [hfree], by rw [get?_set _ _ _ _ hroot, if_pos rfl], hshort⟩
    · exact .inl hold

end Rescans

/-- The directories that were made below a scanned one have paths that can be looked at. -/
def WithinReach (directory : Path) (before after : FileTree) : Prop :=
  ∀ names, after.get? (directory.address before.working ++ names) = some .directory →
    before.get? (directory.address before.working ++ names) ≠ some .directory →
    (directory.descend names).text.utf8ByteSize ≤ maxPathBytes

/-- Nothing that a scan looks at has a path or a name that is too long. -/
def Scannable (extension : String) (directory : Path) (tree : FileTree) : Prop :=
  ∀ names entry, names ≠ [] → (directory.address tree.working ++ names, entry) ∈ tree.entries →
    IsProbed directory extension (names, entry) →
    (directory.descend names).text.utf8ByteSize ≤ maxPathBytes ∧
      ∀ name ∈ names, name.utf8ByteSize ≤ maxNameBytes

theorem mem_entries_of_get? {tree : FileTree} {location : Location} {entry : Entry}
    (hroot : location ≠ []) (h : tree.get? location = some entry) :
    (location, entry) ∈ tree.entries := by
  rw [get?, if_neg hroot] at h
  obtain ⟨before, after, hentries, -⟩ := List.lookup_eq_some_iff.mp h
  simp [hentries]

theorem get?_of_mem_entries {tree : FileTree} {location : Location} {entry : Entry}
    (h : (location, entry) ∈ tree.entries) : ∃ found, tree.get? location = some found := by
  by_cases hroot : location = []
  · exact ⟨.directory, by rw [get?, if_pos hroot]⟩
  · have hsome : (tree.entries.lookup location).isSome = true :=
      List.lookup_isSome_iff.mpr ⟨_, h, by simp⟩
    obtain ⟨found, hfound⟩ := Option.isSome_iff_exists.mp hsome
    exact ⟨found, by rw [get?, if_neg hroot, hfound]⟩

section Again

variable {extension : String} {directory : Path} {before after : FileTree} {sources : List Path}

theorem findSources_eq_ok (hsound : before.Sound)
    (h : findSources before directory extension = .ok sources) :
    Reaches before directory (.taken (directory.address before.working) .directory) ∧
      ∃ found, collectSources before directory extension
          (before.below (directory.address before.working)) = .ok found ∧
        sources = found.mergeSort Path.precedes := by
  rw [findSources] at h
  split at h
  · cases h
  · rename_i location entry hdirectory hlocate
    have hreaches := reaches_of_locate hsound.linkFree hlocate
    obtain rfl : location = directory.address before.working := hreaches.location_eq
    have hentry : entry = .directory := by
      rw [isDirectory, probe, hlocate] at hdirectory
      simpa using hdirectory
    split at h
    · cases h
    · cases h
      exact ⟨hentry ▸ hreaches, _, ‹_›, rfl⟩
  · cases h

theorem findSources_of_locate {tree : FileTree} {location : Location}
    (h : tree.locate .target directory = .ok (.taken location .directory)) :
    (∀ found, collectSources tree directory extension (tree.below location) = .ok found →
      findSources tree directory extension = .ok (found.mergeSort Path.precedes)) ∧
    ∀ e, collectSources tree directory extension (tree.below location) = .error e →
      findSources tree directory extension = .error (.failure (.unscannable directory e)) := by
  have hdirectory : tree.isDirectory directory = .ok true := by
    rw [isDirectory, probe, h]
    rfl
  constructor
  · intro found hfound
    rw [findSources, hdirectory, h]
    dsimp only
    rw [hfound]
  · intro e he
    rw [findSources, hdirectory, h]
    dsimp only
    rw [he]

theorem scannable_iff (hsound : before.Sound)
    (hreaches : Reaches before directory (.taken (directory.address before.working) .directory)) :
    Scannable extension directory before ↔ ∃ found, collectSources before directory extension
      (before.below (directory.address before.working)) = .ok found := by
  have hlook : ∀ {names : List String} {entry : Entry},
      (directory.address before.working ++ names, entry) ∈ before.entries →
      ((∃ answer, before.isFile (directory.descend names) = .ok answer) ↔
        (directory.descend names).text.utf8ByteSize ≤ maxPathBytes ∧
          ∀ name ∈ names, name.utf8ByteSize ≤ maxNameBytes) := by
    intro names entry hmem
    obtain ⟨found, hfound⟩ := get?_of_mem_entries hmem
    exact isFile_descend_iff hsound hreaches hfound
  constructor
  · intro h
    refine ⟨_, collectSources_eq_ok_iff.mpr ⟨fun item hitem hprobed => ?_, rfl⟩⟩
    obtain ⟨hnames, hmem⟩ := mem_below_iff.mp hitem
    exact (hlook hmem).mpr (h item.1 item.2 hnames hmem hprobed)
  · rintro ⟨found, hfound⟩ names entry hnames hmem hprobed
    obtain ⟨hall, -⟩ := collectSources_eq_ok_iff.mp hfound
    exact (hlook hmem).mp (hall (names, entry) (mem_below_iff.mpr ⟨hnames, hmem⟩) hprobed)

/-- Directories below a scanned one have short names, those that were made since included. -/
theorem Rescans.short_names (h : Rescans extension before after) (hsound : after.Sound)
    (hscannable : Scannable extension directory before) {names : List String}
    (hdirectory : after.get? (directory.address before.working ++ names) = some .directory) :
    ∀ name ∈ names, name.utf8ByteSize ≤ maxNameBytes := by
  induction names using List.reverseRecOn with
  | nil => exact List.forall_mem_nil _
  | append_singleton names last ih =>
      have hmem := mem_entries_of_get? (by simp) hdirectory
      rcases h.made _ hmem with hold | ⟨-, -, hlast⟩
      · exact (hscannable _ _ (by simp) hold (.inr rfl)).2
      · rw [← List.append_assoc] at hdirectory hlast
        rw [List.getLast?_concat] at hlast
        intro name hname
        cases List.mem_append.mp hname with
        | inl hin => exact ih (hsound.inside _ _ _ hdirectory) name hin
        | inr heq => exact List.mem_singleton.mp heq ▸ hlast

/-- A scan can be made again exactly if the directories made since are within reach. -/
theorem Rescans.scannable_iff (h : Rescans extension before after) (hsound : after.Sound)
    (hworking : after.working = before.working)
    (hreaches : Reaches before directory (.taken (directory.address before.working) .directory))
    (hscannable : Scannable extension directory before) :
    Scannable extension directory after ↔ WithinReach directory before after := by
  rw [Scannable, hworking]
  constructor
  · intro hagain names hdirectory hnew
    have hnames : names ≠ [] := by
      rintro rfl
      rw [List.append_nil] at hnew
      exact hnew hreaches.entry_eq
    have hmem := mem_entries_of_get? (by simp [hnames]) hdirectory
    exact (hagain names .directory hnames hmem (.inr rfl)).1
  · intro hreach names entry hnames hmem hprobed
    by_cases hdirectory : entry = .directory
    · subst hdirectory
      rcases h.made _ hmem with hold | ⟨hnew, hmade, -⟩
      · exact hscannable names _ hnames hold hprobed
      · exact ⟨hreach names hmade hnew, h.short_names hsound hscannable hmade⟩
    · have hextension := hprobed.resolve_right hdirectory
      have hcandidate : (directory.address before.working ++ names, entry) ∈
          Files.candidates extension after := by
        rw [name_descend directory hnames] at hextension
        refine List.mem_filter.mpr ⟨hmem, ?_⟩
        simp [isCandidate, List.getLast?_append_of_ne_nil _ hnames, hextension, hdirectory]
      rw [h.candidates] at hcandidate
      exact hscannable names entry hnames (List.mem_filter.mp hcandidate).1 hprobed

/-- After changes that a scan is not concerned with it finds the same sources, or it fails. -/
theorem Rescans.findSources (h : Rescans extension before after) (hbefore : before.Sound)
    (hsound : after.Sound) (hworking : after.working = before.working)
    (hfind : findSources before directory extension = .ok sources) :
    (WithinReach directory before after → findSources after directory extension = .ok sources) ∧
      (¬ WithinReach directory before after →
        ∃ e, findSources after directory extension =
          .error (.failure (.unscannable directory e))) := by
  obtain ⟨hreaches, found, hfound, rfl⟩ := findSources_eq_ok hbefore hfind
  have hscannable := (Files.scannable_iff hbefore hreaches).mpr ⟨found, hfound⟩
  have hlater : Reaches after directory (.taken (directory.address after.working) .directory) := by
    rw [hworking]
    exact hreaches.later hworking h.kept (h.kept _ hreaches.entry_eq)
  have hagain := h.scannable_iff hsound hworking hreaches hscannable
  obtain ⟨hok, herror⟩ := findSources_of_locate (hlater.locate_eq hsound.linkFree)
  refine ⟨fun hreach => ?_, fun hnot => ?_⟩
  · obtain ⟨found', hfound'⟩ := (Files.scannable_iff hsound hlater).mp (hagain.mpr hreach)
    have hsame : found' = found := by
      rw [(collectSources_eq_ok_iff.mp hfound').2, (collectSources_eq_ok_iff.mp hfound).2,
        sources_below, sources_below, h.candidates, hworking]
    exact hsame ▸ hok found' hfound'
  · cases hcollect : collectSources after directory extension
        (after.below (directory.address after.working)) with
    | error e => exact ⟨e, herror e hcollect⟩
    | ok found' =>
        exact absurd (hagain.mp ((Files.scannable_iff hsound hlater).mpr ⟨found', hcollect⟩)) hnot

end Again

end Files

end SlimTemplate
