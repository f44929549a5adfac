import SlimTemplate.Conversion.Batch
import SlimTemplate.Proofs.Conversion.File
import SlimTemplate.Proofs.Conversion.Turns
import SlimTemplate.Proofs.Files.Scanning

/-!
Runs over many sources. The reports of a run account for the files, source by source. A fault ends
a run exactly where the output of a source can have no place; a run over the sources below a
directory meets that at its first source or never.
-/

namespace SlimTemplate

open FileTree Files SlimTemplate.Action ConvertFile

theorem Accounts.with_report {extension : String} {report : Report} {before after : FileTree}
    (h : Accounts extension [] before after) (hreport : report.deleted = false) :
    Accounts extension [report] before after := by
  refine accounts_of_evolves (h.evolves.mono (fun _ => by simp) (fun _ => id))
    fun other hother => ?_
  rw [List.mem_singleton.mp hother]
  exact hreport

section Runs

variable {config : Config} {tree : FileTree} (hkeeps : config.createBackup = true)
  (hsafe : IsSafe config.extension)

include hkeeps hsafe

theorem convertFile_accounts {source : Path} (hsound : tree.Sound) (hproper : source.Proper)
    (mode : Mode) (root : Option Path) :
    Accounts config.extension (reportsOf ((convertFile config mode source root).start tree).1) tree
      ((convertFile config mode source root).start tree).2.tree := by
  have hconvert : Ensures (convertFile config mode source root) { tree } fun result after =>
      Accounts config.extension (reportsOf result) tree after.tree :=
    convertFile_ensures hsound hproper hkeeps hsafe mode root
  rw [Ensures] at hconvert
  rw [Action.start]
  exact hconvert

theorem convertInBatch_accounts {source : Path} (hsound : tree.Sound) (hproper : source.Proper)
    (mode : Mode) (root : Option Path) :
    Accounts config.extension [(convertInBatch config mode source root tree).1.report] tree
      (convertInBatch config mode source root tree).2 := by
  have hconvert : Ensures (convertFile config mode source root) { tree } fun result after =>
      Accounts config.extension (reportsOf result) tree after.tree :=
    convertFile_ensures hsound hproper hkeeps hsafe mode root
  obtain ⟨result, after, haccounts, htree, hreport⟩ := convertInBatch_ensures hconvert
  rw [htree]
  rcases hreport with ⟨report, rfl, hreport⟩ | ⟨fault, error, rfl, hreport⟩
  · rw [hreport]
    exact haccounts
  · rw [hreport]
    exact haccounts.with_report rfl

theorem takeTurn_accounts {source : Path} (hsound : tree.Sound) (hproper : source.Proper)
    (mode : Mode) (root : Option Path) (produced : Produced) (place : Path) :
    let turn := (takeTurn config mode root tree produced source place).1
    Accounts config.extension [turn.step.report] tree turn.after := by
  cases hlookup : produced.lookup place with
  | some earlier =>
      rw [takeTurn_of_earlier hlookup]
      exact accounts_of_evolves (Evolves.refl tree) (by simp [refusal, Report.failed])
  | none =>
      rw [takeTurn_of_new hlookup]
      dsimp only
      exact convertInBatch_accounts hkeeps hsafe hsound hproper mode root

/-- The reports of a run account for the files, also where a fault ends it. -/
theorem convertQuietly_accounts {sources : List Path} (hsound : tree.Sound)
    (hproper : ∀ source ∈ sources, source.Proper) (mode : Mode) (root : Option Path)
    (produced : Produced) :
    Accounts config.extension
      ((convertQuietly config mode root tree produced sources).steps.map (·.report)) tree
      (convertQuietly config mode root tree produced sources).tree := by
  induction sources generalizing tree produced with
  | nil => exact accounts_of_evolves (Evolves.refl tree) (List.forall_mem_nil _)
  | cons source rest ih =>
      obtain ⟨hsource, hrest⟩ := List.forall_mem_cons.mp hproper
      cases hplace : outputPlace config tree source root with
      | error fault =>
          rw [convertQuietly_cons_error hplace]
          exact accounts_of_evolves (Evolves.refl tree) (List.forall_mem_nil _)
      | ok place =>
          rw [convertQuietly_cons hplace]
          have hfirst := takeTurn_accounts hkeeps hsafe hsound hsource mode root produced place
          exact hfirst.append config.extension_dotted hsafe hsound
            (ih (hfirst.evolves.sound hsound) hrest _)

end Runs

/-- The output of a source can have a place: it has a name, and no null byte. -/
def Placed (config : Config) (root : Option Path) (source : Path) : Prop :=
  ∃ output, outputPath source config.outputDirectory root = .ok output ∧ output.hasNull = false

theorem locate_ne_linkLoop {tree : FileTree} (hlinks : tree.LinkFree) (aim : Aim) (p : Path) :
    tree.locate aim p ≠ .error .linkLoop := by
  rw [locate]
  split
  · simp
  split
  · simp
  exact walk_ne_linkLoop hlinks

theorem resolve_eq_ok_iff {tree : FileTree} (hlinks : tree.LinkFree) {p : Path} :
    (∃ place, tree.resolve p = .ok place) ↔ p.hasNull = false := by
  rw [resolve]
  split
  · simp_all
  · dsimp only
    split
    · exact absurd ‹_› (locate_ne_linkLoop hlinks _ _)
    · simp_all

theorem outputPlace_eq_ok_iff {config : Config} {tree : FileTree} (hlinks : tree.LinkFree)
    {source : Path} {root : Option Path} :
    (∃ place, outputPlace config tree source root = .ok place) ↔ Placed config root source := by
  rw [outputPlace, Placed]
  cases outputPath source config.outputDirectory root with
  | error e => simp
  | ok output =>
      have hresolve := resolve_eq_ok_iff hlinks (p := output)
      dsimp only
      cases hplace : tree.resolve output with
      | error e => simpa [hplace] using hresolve
      | ok place => simpa [hplace] using hresolve

/-- Without links, a fault ends a run exactly if the output of some source can have no place. -/
theorem convertQuietly_fault_iff {config : Config} {tree : FileTree} (hlinks : tree.LinkFree)
    (mode : Mode) (root : Option Path) (produced : Produced) (sources : List Path) :
    (convertQuietly config mode root tree produced sources).fault = none ↔
      ∀ source ∈ sources, Placed config root source := by
  induction sources generalizing tree produced with
  | nil => simp [convertQuietly]
  | cons source rest ih =>
      rw [List.forall_mem_cons, ← outputPlace_eq_ok_iff hlinks]
      cases hplace : outputPlace config tree source root with
      | error fault => simp [convertQuietly_cons_error hplace]
      | ok place =>
          rw [convertQuietly_cons hplace]
          simp only [Except.ok.injEq, exists_eq', true_and]
          exact ih (takeTurn_linkFree hplace hlinks) _

structure Found (source : Path) : Prop where
  proper : source.Proper
  named : source.parts ≠ []
  noNull : source.hasNull = false

/-- What a scan finds lies below the directory, under names that entries have. -/
theorem findSources_found {tree : FileTree} {directory : Path} {extension : String}
    {sources : List Path} (hsound : tree.Sound) (hproper : directory.Proper)
    (h : findSources tree directory extension = .ok sources) :
    ∀ source ∈ sources, Found source := by
  obtain ⟨hreaches, found, hfound, rfl⟩ := findSources_eq_ok hsound h
  intro source hsource
  rw [List.mem_mergeSort, (collectSources_eq_ok_iff.mp hfound).2, List.mem_filterMap] at hsource
  obtain ⟨⟨names, entry⟩, hbelow, hsome⟩ := hsource
  obtain ⟨hnames, hentry⟩ := mem_below_iff.mp hbelow
  obtain ⟨there, hthere⟩ := get?_of_mem_entries hentry
  have hisName : ∀ name ∈ names, IsName name := fun name hname =>
    hsound.named _ there hthere name (List.mem_append_right _ hname)
  obtain rfl := eq_descend_of_sourceOf? hsome
  have hnull := hreaches.noNull
  refine ⟨fun name hname => ?_, by simp [Path.descend, hnames], ?_⟩
  · exact (List.mem_append.mp hname).elim (hproper name) fun hin => (hisName name hin).isPart
  · simp only [Path.hasNull, Path.descend, List.any_eq_false, List.mem_append] at hnull ⊢
    rintro name (hin | hin)
    · exact hnull name hin
    · simpa using (hisName name hin).2.2

theorem hasNull_eq_false_iff {p : Path} :
    p.hasNull = false ↔ ∀ name ∈ p.parts, '\x00' ∉ name.toList := by
  simp [Path.hasNull]

/-- Whether the output of a source that was found has a place is up to the output directory. -/
theorem placed_iff_of_found {config : Config} {root : Option Path} {source : Path}
    (h : Found source) :
    Placed config root source ↔
      ∀ directory, givenDirectory? config.outputDirectory = some directory →
        directory.hasNull = false := by
  have hparts := hasNull_eq_false_iff.mp h.noNull
  have hname := notMem_outputName (by decide) hparts
  rw [Placed, outputPath]
  cases givenDirectory? config.outputDirectory with
  | none =>
      simp only [Path.withName, if_neg h.named, Except.ok.injEq, exists_eq_left', reduceCtorEq,
        false_implies, implies_true, iff_true]
      refine hasNull_eq_false_iff.mpr fun name hmem => ?_
      cases List.mem_append.mp hmem with
      | inl hin => exact hparts name (List.dropLast_subset _ hin)
      | inr hlast => exact List.mem_singleton.mp hlast ▸ hname
  | some directory =>
      simp only [Except.ok.injEq, exists_eq_left', Option.some.injEq, forall_eq',
        hasNull_eq_false_iff]
      constructor
      · intro hall name hmem
        exact hall name (List.mem_append_left _ (List.mem_append_left _ hmem))
      · intro hdirectory name hmem
        rcases List.mem_append.mp hmem with hmem | hlast
        · exact (List.mem_append.mp hmem).elim (hdirectory name) fun hkept =>
            hparts name (keptDirectories_subset source root hkept)
        · exact List.mem_singleton.mp hlast ▸ hname

/-- All reports and notes of a run over sources belong to a source. -/
theorem convertQuietly_others (config : Config) (mode : Mode) (root : Option Path)
    (tree : FileTree) (produced : Produced) (sources : List Path) :
    (convertQuietly config mode root tree produced sources).otherReports = [] ∧
      (convertQuietly config mode root tree produced sources).otherJournal = [] := by
  induction sources generalizing tree produced with
  | nil => exact ⟨rfl, rfl⟩
  | cons source rest ih =>
      cases hplace : outputPlace config tree source root with
      | error fault =>
          rw [convertQuietly_cons_error hplace]
          exact ⟨rfl, rfl⟩
      | ok place =>
          rw [convertQuietly_cons hplace]
          exact ih _ _

theorem convertFiles_reports (config : Config) (mode : Mode) (root : Option Path)
    (tree : FileTree) (sources : List Path) :
    (convertFiles config mode sources root tree).reports =
      (convertFiles config mode sources root tree).steps.map (·.report) := by
  rw [Batch.reports, convertFiles_eq, (convertQuietly_others ..).1, List.nil_append]

theorem convertFiles_journal (config : Config) (mode : Mode) (root : Option Path)
    (tree : FileTree) (sources : List Path) :
    (convertFiles config mode sources root tree).journal =
      (convertFiles config mode sources root tree).steps.flatMap (·.journal) := by
  rw [Batch.journal, convertFiles_eq, (convertQuietly_others ..).2, List.nil_append]

section Found

variable {config : Config} {mode : Mode} {directory : String} {tree : FileTree}

theorem convertDirectory_of_found {sources : List Path}
    (h : findSources tree (.ofText directory) config.extension = .ok sources) :
    convertDirectory config mode directory tree =
      convertFiles config mode sources (some (.ofText directory)) tree := by
  rw [convertDirectory, convertDirectoryTelling, h]
  rfl

theorem convertDirectory_of_failure {failure : Failure}
    (h : findSources tree (.ofText directory) config.extension = .error (.failure failure)) :
    convertDirectory config mode directory tree =
      { tree
        otherReports := [.failed directory .readError failure.message]
        otherJournal := [.issue failure.toIssue] } := by
  rw [convertDirectory, convertDirectoryTelling, h]

theorem convertDirectory_of_fault {fault : Fault}
    (h : findSources tree (.ofText directory) config.extension = .error (.fault fault)) :
    convertDirectory config mode directory tree = { tree, fault := some fault } := by
  rw [convertDirectory, convertDirectoryTelling, h]

end Found

/-- A fault that ends a run over a directory does so before anything is done. -/
theorem convertDirectory_fault {config : Config} {tree : FileTree} (hsound : tree.Sound)
    (mode : Mode) (directory : String)
    (h : (convertDirectory config mode directory tree).fault ≠ none) :
    (convertDirectory config mode directory tree).reports = [] ∧
      (convertDirectory config mode directory tree).tree = tree := by
  cases hfind : findSources tree (.ofText directory) config.extension with
  | error trouble =>
      cases trouble with
      | fault fault =>
          rw [convertDirectory_of_fault hfind]
          exact ⟨rfl, rfl⟩
      | failure failure =>
          rw [convertDirectory_of_failure hfind] at h
          exact absurd rfl h
  | ok sources =>
      have hfound := findSources_found hsound (Path.proper_ofText directory) hfind
      rw [convertDirectory_of_found hfind] at h ⊢
      rw [convertFiles_reports, convertFiles_eq]
      rw [convertFiles_eq, ne_eq, convertQuietly_fault_iff hsound.linkFree] at h
      cases sources with
      | nil => exact ⟨rfl, rfl⟩
      | cons first rest =>
          -- One output without a place means that none has one, that of the first source included.
          have hfirst : ¬ Placed config (some (.ofText directory)) first := by
            intro hplaced
            refine h fun source hsource => ?_
            rw [placed_iff_of_found (hfound source hsource)]
            exact (placed_iff_of_found (hfound first List.mem_cons_self)).mp hplaced
          cases hplace : outputPlace config tree first (some (.ofText directory)) with
          | error fault =>
              rw [convertQuietly_cons_error hplace]
              exact ⟨rfl, rfl⟩
          | ok place =>
              exact absurd ((outputPlace_eq_ok_iff hsound.linkFree).mp ⟨place, hplace⟩) hfirst

section Directories

variable {config : Config} {tree : FileTree} (hkeeps : config.createBackup = true)
  (hsafe : IsSafe config.extension) (hsound : tree.Sound)

include hkeeps hsafe hsound

theorem convertFiles_accounts {sources : List Path} (hproper : ∀ source ∈ sources, source.Proper)
    (mode : Mode) (root : Option Path) :
    Accounts config.extension (convertFiles config mode sources root tree).reports tree
      (convertFiles config mode sources root tree).tree := by
  rw [convertFiles_reports, convertFiles_eq]
  exact convertQuietly_accounts hkeeps hsafe hsound hproper mode root []

theorem convertDirectory_accounts (mode : Mode) (directory : String) :
    Accounts config.extension (convertDirectory config mode directory tree).reports tree
      (convertDirectory config mode directory tree).tree := by
  cases hfind : findSources tree (.ofText directory) config.extension with
  | error trouble =>
      cases trouble with
      | fault fault =>
          rw [convertDirectory_of_fault hfind]
          exact accounts_of_evolves (Evolves.refl tree) (List.forall_mem_nil _)
      | failure failure =>
          rw [convertDirectory_of_failure hfind]
          exact accounts_of_evolves (Evolves.refl tree) (by simp [Batch.reports, Report.failed])
  | ok sources =>
      have hfound := findSources_found hsound (Path.proper_ofText directory) hfind
      rw [convertDirectory_of_found hfind]
      exact convertFiles_accounts hkeeps hsafe hsound
        (fun source hsource => (hfound source hsource).proper) mode _

end Directories

end SlimTemplate
