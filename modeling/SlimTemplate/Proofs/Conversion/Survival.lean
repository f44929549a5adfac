import SlimTemplate.Proofs.Conversion.Batch

/-!
No source is ever lost. Calls follow one another, each with its own settings; all of them keep
backups and have an extension that no written file has. Whatever they are and however they end,
backups stay as they are, and a source that is gone has a backup with its content. Main statement:
this, and exactly when each source that is gone is also named by a report that is returned.
-/

namespace SlimTemplate

open FileTree Files SlimTemplate.Action ConvertFile

inductive Work where
  | file (path : String) (root : Option String)
  | files (paths : List String) (root : Option String)
  | directory (path : String)

structure Call where
  config : Config
  mode : Mode
  work : Work

/-- How a call ends: the files it leaves, the reports it made, and the fault that ended it, if one
did. -/
structure Outcome where
  tree : FileTree
  reports : List Report
  fault : Option Fault

/-- The reports that reach the caller; a fault takes their place. -/
def Outcome.returned (outcome : Outcome) : List Report :=
  match outcome.fault with
  | none => outcome.reports
  | some _ => []

namespace Call

def run (call : Call) (tree : FileTree) : Outcome :=
  match call.work with
  | .file path root =>
      match (convertFile call.config call.mode (.ofText path) (root.map .ofText)).start tree with
      | (.ok report, world) => ⟨world.tree, [report], none⟩
      | (.error fault, world) => ⟨world.tree, [], some fault⟩
  | .files paths root =>
      let batch :=
        convertFiles call.config call.mode (paths.map .ofText) (root.map .ofText) tree
      ⟨batch.tree, batch.reports, batch.fault⟩
  | .directory path =>
      let batch := convertDirectory call.config call.mode path tree
      ⟨batch.tree, batch.reports, batch.fault⟩

def runAll (calls : List Call) (tree : FileTree) : FileTree :=
  calls.foldl (fun tree call => (call.run tree).tree) tree

/-- Backups are kept, and no written file can be taken for a source. -/
def IsCautious (call : Call) : Prop :=
  call.config.createBackup = true ∧ IsSafe call.config.extension

instance (call : Call) : Decidable call.IsCautious :=
  inferInstanceAs (Decidable (_ ∧ _))

/-- Nothing keeps a call from returning a report on each source that it deletes: only a list of
paths can hold one whose output has no place, and that does no harm before something is deleted. -/
def IsUnbroken (call : Call) (before : FileTree) : Prop :=
  match call.work with
  | .files paths root =>
      (∀ path ∈ paths, Placed call.config (root.map .ofText) (.ofText path)) ∨
        ∀ report ∈ (call.run before).reports, report.deleted = false
  | .file .. | .directory _ => True

end Call

def BackupsKept (before after : FileTree) : Prop :=
  ∀ location content, EndsIn ".backup" location → before.get? location = some (.file content) →
    after.get? location = some (.file content)

def KeptOrReported (extension : String) (before : FileTree) (outcome : Outcome) : Prop :=
  ∀ location content, IsSource extension location → before.get? location = some (.file content) →
    outcome.tree.get? location = some (.file content) ∨
      ∃ report ∈ outcome.returned, report.deleted = true ∧
        report.address before.working = location

def DeletedBackedUp (before : FileTree) (outcome : Outcome) : Prop :=
  ∀ report ∈ outcome.reports, report.deleted = true → ∃ backup content,
    report.backup = some backup ∧
      before.get? (report.address before.working) = some (.file content) ∧
      outcome.tree.readFile (.ofText backup) = .ok content

theorem proper_of_given (paths : List String) :
    ∀ source ∈ paths.map Path.ofText, source.Proper := by
  intro source hsource
  obtain ⟨path, -, rfl⟩ := List.mem_map.mp hsource
  exact Path.proper_ofText path

/-- A call is unbroken if no fault ends it, or none ends it after something was deleted. -/
theorem Call.isUnbroken_iff {tree : FileTree} (hsound : tree.Sound) (call : Call) :
    call.IsUnbroken tree ↔ (call.run tree).fault = none ∨
      ∀ report ∈ (call.run tree).reports, report.deleted = false := by
  rw [Call.IsUnbroken]
  split
  · rename_i paths root hwork
    have hrun : (call.run tree).fault =
        (convertFiles call.config call.mode (paths.map .ofText) (root.map .ofText) tree).fault := by
      rw [Call.run, hwork]
    rw [hrun, convertFiles_eq, convertQuietly_fault_iff hsound.linkFree, List.forall_mem_map]
  · rename_i path root hwork
    refine iff_of_true trivial ?_
    rw [Call.run, hwork]
    dsimp only
    generalize (convertFile call.config call.mode (.ofText path) (root.map .ofText)).start tree =
      ended
    obtain ⟨result, world⟩ := ended
    cases result with
    | ok report => exact .inl rfl
    | error fault => exact .inr (List.forall_mem_nil _)
  · rename_i path hwork
    refine iff_of_true trivial ?_
    rw [Call.run, hwork]
    dsimp only
    by_cases hfault : (convertDirectory call.config call.mode path tree).fault = none
    · exact .inl hfault
    · rw [(convertDirectory_fault hsound call.mode path hfault).1]
      exact .inr (List.forall_mem_nil _)

section Calls

variable {tree : FileTree} {call : Call} (hsound : tree.Sound) (hcall : call.IsCautious)

include hsound hcall

/-- The reports of a call account for the files. -/
theorem Call.run_accounts :
    Accounts call.config.extension (call.run tree).reports tree (call.run tree).tree := by
  obtain ⟨hkeeps, hsafe⟩ := hcall
  rw [Call.run]
  split
  · rename_i path root _
    have hconvert := convertFile_accounts hkeeps hsafe hsound (Path.proper_ofText path) call.mode
      (root.map .ofText)
    generalize (convertFile call.config call.mode (.ofText path) (root.map .ofText)).start tree =
      ended at hconvert ⊢
    obtain ⟨result, world⟩ := ended
    cases result with
    | ok report => exact hconvert
    | error fault => exact hconvert
  · exact convertFiles_accounts hkeeps hsafe hsound (proper_of_given _) call.mode _
  · exact convertDirectory_accounts hkeeps hsafe hsound call.mode _

/-- One call keeps the backups. -/
theorem Call.run_backupsKept : BackupsKept tree (call.run tree).tree := by
  have haccounts := Call.run_accounts hsound hcall
  intro location content hends hfile
  refine haccounts.evolves.kept location content ?_ hfile
  rintro (hdisposable | ⟨report, hreport, hdeleted, rfl⟩)
  · exact not_disposable_of_backup hends hdisposable
  · exact (haccounts.isSource report hreport hdeleted).not_endsIn call.config.extension_dotted
      hcall.2 (by decide) hends

/-- What no report tells of is kept, for sources of any call. -/
theorem Call.run_kept {other : Call} (hother : other.IsCautious) {location : Location}
    {content : Text.Bytes} (hsource : IsSource other.config.extension location)
    (hfile : tree.get? location = some (.file content)) :
    (call.run tree).tree.get? location = some (.file content) ∨
      ∃ report ∈ (call.run tree).reports, report.deleted = true ∧
        report.address tree.working = location := by
  by_cases hreport : ∃ report ∈ (call.run tree).reports, report.deleted = true ∧
      report.address tree.working = location
  · exact .inr hreport
  · refine .inl ((Call.run_accounts hsound hcall).evolves.kept location content ?_ hfile)
    rintro (hdisposable | hreported)
    · exact hsource.not_disposable other.config.extension_dotted hother.2 hdisposable
    · exact hreport hreported

/-- A fault hides deletions exactly when a call is broken. -/
theorem Call.keptOrReported_iff {calls : List Call} (hmem : call ∈ calls)
    (hcalls : ∀ other ∈ calls, other.IsCautious) :
    (∀ other ∈ calls, KeptOrReported other.config.extension tree (call.run tree)) ↔
      call.IsUnbroken tree := by
  rw [Call.isUnbroken_iff hsound call]
  constructor
  · intro hkept
    by_cases hfault : (call.run tree).fault = none
    · exact .inl hfault
    · refine .inr fun report hreport => Bool.eq_false_iff.mpr fun hdeleted => ?_
      have haccounts := Call.run_accounts hsound hcall
      obtain ⟨_, content, -, -, hfile, -⟩ := haccounts.backedUp report hreport hdeleted
      have hsource := haccounts.isSource report hreport hdeleted
      -- the source is gone, and the fault has taken the place of its report
      cases hkept call hmem _ content hsource hfile with
      | inl hstill => exact haccounts.gone report hreport hdeleted content hstill
      | inr hreturned =>
          obtain ⟨fault, hsome⟩ := Option.ne_none_iff_exists'.mp hfault
          obtain ⟨other, hother, -⟩ := hreturned
          simp [Outcome.returned, hsome] at hother
  · intro hends other hother location content hsource hfile
    cases Call.run_kept hsound hcall (hcalls other hother) hsource hfile with
    | inl hstill => exact .inl hstill
    | inr hreported =>
        obtain ⟨report, hreport, hdeleted, haddress⟩ := hreported
        cases hends with
        | inl hfault =>
            refine .inr ⟨report, ?_, hdeleted, haddress⟩
            rwa [Outcome.returned, hfault]
        | inr hnone => simp [hnone report hreport] at hdeleted

end Calls

/-- Many calls keep soundness and the backups. -/
theorem Call.runAll_keeps {tree : FileTree} (hsound : tree.Sound) (calls : List Call)
    (hcalls : ∀ call ∈ calls, call.IsCautious) :
    (Call.runAll calls tree).Sound ∧ BackupsKept tree (Call.runAll calls tree) := by
  induction calls generalizing tree with
  | nil => exact ⟨hsound, fun _ _ _ hfile => hfile⟩
  | cons call rest ih =>
      have hcall := hcalls call List.mem_cons_self
      have hstep := (Call.run_accounts hsound hcall).evolves.sound hsound
      obtain ⟨hrest, hkept⟩ := ih hstep fun other hother => hcalls other (.tail _ hother)
      refine ⟨hrest, fun location content hends hfile => hkept location content hends ?_⟩
      exact Call.run_backupsKept hsound hcall location content hends hfile

/-- Whatever calls come before and after one, backups stay, each deleted source has its content in
a backup, and a source that is gone has its report returned exactly when the call is unbroken. -/
theorem sources_survive {tree : FileTree} (hsound : tree.Sound) (earlier later : List Call)
    (call : Call) (hcalls : ∀ other ∈ earlier ++ call :: later, other.IsCautious) :
    BackupsKept (Call.runAll earlier tree)
        (Call.runAll later (call.run (Call.runAll earlier tree)).tree) ∧
      ((∀ other ∈ earlier ++ call :: later, KeptOrReported other.config.extension
          (Call.runAll earlier tree) (call.run (Call.runAll earlier tree))) ↔
        call.IsUnbroken (Call.runAll earlier tree)) ∧
      DeletedBackedUp (Call.runAll earlier tree) (call.run (Call.runAll earlier tree)) := by
  have hmem : call ∈ earlier ++ call :: later :=
    List.mem_append_right _ List.mem_cons_self
  have hcall := hcalls call hmem
  obtain ⟨hbefore, -⟩ := Call.runAll_keeps hsound earlier fun other hother =>
    hcalls other (List.mem_append_left _ hother)
  have haccounts := Call.run_accounts hbefore hcall
  obtain ⟨-, hlater⟩ := Call.runAll_keeps (haccounts.evolves.sound hbefore) later
    fun other hother => hcalls other (List.mem_append_right _ (.tail _ hother))
  refine ⟨fun location content hends hfile => ?_, ?_, fun report hreport hdeleted => ?_⟩
  · exact hlater location content hends
      (Call.run_backupsKept hbefore hcall location content hends hfile)
  · exact Call.keptOrReported_iff hbefore hcall hmem hcalls
  · obtain ⟨backup, content, hbackup, -, hfile, hread⟩ :=
      haccounts.backedUp report hreport hdeleted
    exact ⟨backup, content, hbackup, hfile, hread⟩

def twoSources : FileTree :=
  ((⟨[], []⟩ : FileTree).set ["a.slim"] (.file [112])).set ["b.slim"] (.file [112])

theorem twoSources_sound : twoSources.Sound := by
  refine (Sound.empty.set ⟨?_, [], "a.slim", rfl, by decide⟩ (by decide) (by simp)).set
    ⟨?_, [], "b.slim", rfl, by decide⟩ (by decide) (by simp)
  all_goals simp [IsName, IsDots]

def deleting (work : Work) : Call :=
  ⟨{ Config.standard with deleteSource := true }, ⟨false, false⟩, work⟩

/-- The second call comes to a path without a name, so it must not have deleted anything by then. -/
theorem sources_survive_twoSources :
    let earlier := [deleting (.file "a.slim" none)]
    let call := deleting (.files ["b.slim", "."] none)
    let later := [deleting (.directory ".")]
    let before := Call.runAll earlier twoSources
    twoSources.Sound ∧ (∀ other ∈ earlier ++ call :: later, other.IsCautious) ∧
      BackupsKept before (Call.runAll later (call.run before).tree) ∧
      (KeptOrReported ".slim" before (call.run before) ↔
        ∀ report ∈ (call.run before).reports, report.deleted = false) ∧
      DeletedBackedUp before (call.run before) := by
  intro earlier call later before
  have hcalls : ∀ other ∈ earlier ++ call :: later, other.IsCautious := by decide +kernel
  have hextension : ∀ other ∈ earlier ++ call :: later, other.config.extension = ".slim" := by
    decide +kernel
  have hmem : call ∈ earlier ++ call :: later := List.mem_append_right _ List.mem_cons_self
  obtain ⟨hkept, hreported, hbackedUp⟩ :=
    sources_survive twoSources_sound earlier later call hcalls
  refine ⟨twoSources_sound, hcalls, hkept, ⟨fun hall => ?_, fun hnone => ?_⟩, hbackedUp⟩
  · have hunbroken : call.IsUnbroken before :=
      hreported.mp fun other hother => by rwa [hextension other hother]
    cases hunbroken with
    | inl hplaced =>
        obtain ⟨output, houtput, -⟩ := hplaced "." (by simp)
        change outputPath (.ofText ".") none none = .ok output at houtput
        have hfails : (outputPath (.ofText ".") none none).isOk = false := by decide +kernel
        rw [houtput] at hfails
        exact absurd hfails (by simp [Except.isOk, Except.toBool])
    | inr hnone => exact hnone
  · have hall := hreported.mpr (.inr hnone) call hmem
    rwa [hextension call hmem] at hall

end SlimTemplate
