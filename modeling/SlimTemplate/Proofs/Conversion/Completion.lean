import SlimTemplate.Proofs.Conversion.Batch
import SlimTemplate.Screen.Progress

/-!
How far a run comes. Failures of single sources end in reports, so a run goes on up to the first
source whose output cannot be resolved, or the first report at which its listener fails, and to the
end if there is neither. Main statement: the reports, what the listener is told and the counts of
the progress agree with the sources that the run has come to.
-/

namespace SlimTemplate

open FileTree Files Screen

/-! Progress. -/

theorem Report.failure?_cases (report : Report) :
    report.success = true ∧ report.failure? = none ∨
      report.success = false ∧ ∃ message, report.failure? = some message := by
  rw [Report.failure?]
  cases report.success with
  | true => exact .inl ⟨rfl, rfl⟩
  | false =>
      refine .inr ⟨rfl, ?_⟩
      rw [if_neg Bool.false_ne_true]
      split <;> exact ⟨_, rfl⟩

/-- The fault with which a console refuses to show why a source failed. -/
def Screen.Console.refusal? (console : Console) (notice : Notice) : Option Fault :=
  notice.report.failure?.bind fun message =>
    console.fault? (Progress.errorText message (some notice.source))

namespace Screen.Progress

variable {console : Console} {notice : Notice} {p : Progress}

theorem track_shown {bar : Bar} (hbar : p.bar = some bar)
    (hshown : console.refusal? notice = none) :
    ∃ moved, track console notice p =
      ({ p with current := p.current + 1
                errors := p.errors + if notice.report.success then 0 else 1
                bar := some moved }, .ok ()) := by
  obtain ⟨current, total, errors, _⟩ := p
  cases hbar
  rcases notice.report.failure?_cases with ⟨hsuccess, hnone⟩ | ⟨hsuccess, message, hmessage⟩
  · rw [track, hnone, fileDone, hsuccess]
    exact ⟨_, rfl⟩
  · rw [Console.refusal?, hmessage, Option.bind_some] at hshown
    rw [track, hmessage, fileDone, error, hshown, hsuccess]
    exact ⟨_, rfl⟩

theorem track_refused {fault : Fault} (hrefused : console.refusal? notice = some fault) :
    track console notice p = ({ p with errors := p.errors + 1 }, .error fault) ∧
      notice.report.success = false := by
  rw [Console.refusal?] at hrefused
  rcases notice.report.failure?_cases with ⟨-, hnone⟩ | ⟨hsuccess, message, hmessage⟩
  · rw [hnone] at hrefused
    cases hrefused
  · rw [hmessage, Option.bind_some] at hrefused
    rw [track, hmessage, fileDone, error, hrefused]
    exact ⟨rfl, hsuccess⟩

/-- The progress fails at the first text that the console refuses. -/
theorem tellAll_track_ending (console : Console) (told : List Notice) {p : Progress} {bar : Bar}
    (hbar : p.bar = some bar) :
    (tellAll (track console) told p).2 =
      (told.findSome? console.refusal?).elim (.ok ()) .error := by
  induction told generalizing p bar with
  | nil => rfl
  | cons notice rest ih =>
      rw [List.findSome?_cons]
      cases hrefusal : console.refusal? notice with
      | some fault =>
          rw [tellAll_cons_error (track_refused hrefusal).1]
          rfl
      | none =>
          obtain ⟨moved, htrack⟩ := track_shown hbar hrefusal
          rw [tellAll_cons_ok htrack]
          exact ih rfl

/-- The counts after what was told, if the progress did not fail before the last of it. -/
theorem tellAll_track_counts (console : Console) {told : List Notice} {p : Progress} {bar : Bar}
    (hbar : p.bar = some bar)
    (hheeded : ∀ i < told.length, (tellAll (track console) (told.take i) p).2 = .ok ()) :
    let last := (tellAll (track console) told p).1
    last.errors = p.errors + told.countP (!·.report.success) ∧
      last.current + (if (told.findSome? console.refusal?).isSome then 1 else 0) =
        p.current + told.length := by
  induction told generalizing p bar with
  | nil => exact ⟨rfl, rfl⟩
  | cons notice rest ih =>
      rw [List.findSome?_cons, List.countP_cons, List.length_cons]
      cases hrefusal : console.refusal? notice with
      | some fault =>
          obtain ⟨htrack, hfailed⟩ := track_refused hrefusal (p := p)
          -- nothing was told after the progress failed
          have hlast : rest = [] := by
            cases rest with
            | nil => rfl
            | cons second rest =>
                have hfirst := hheeded 1 (Nat.succ_lt_succ (Nat.succ_pos rest.length))
                rw [List.take_succ_cons, tellAll_cons_error htrack] at hfirst
                cases hfirst
          rw [tellAll_cons_error htrack, hfailed, hlast]
          exact ⟨rfl, rfl⟩
      | none =>
          obtain ⟨moved, htrack⟩ := track_shown hbar hrefusal
          rw [tellAll_cons_ok htrack]
          obtain ⟨herrors, hcurrent⟩ := ih rfl fun i hi => by
            have hlater := hheeded (i + 1) (Nat.succ_lt_succ hi)
            rw [List.take_succ_cons, tellAll_cons_ok htrack] at hlater
            exact hlater
          dsimp only at herrors hcurrent ⊢
          refine ⟨?_, by omega⟩
          rw [herrors]
          cases notice.report.success with
          | true => simp
          | false =>
              simp only [Bool.false_eq_true, if_false, Bool.not_false, if_true]
              omega

end Screen.Progress

/-! Runs. -/

theorem tellAll_append_ok {σ : Type} {listener : Listener σ} {first second : List Notice}
    {heard : σ} (h : (tellAll listener (first ++ second) heard).2 = .ok ()) :
    (tellAll listener first heard).2 = .ok () := by
  induction first generalizing heard with
  | nil => rfl
  | cons notice rest ih =>
      rw [List.cons_append] at h
      cases htold : listener notice heard with
      | mk later ending =>
          cases ending with
          | error fault =>
              rw [tellAll_cons_error htold] at h
              cases h
          | ok _ =>
              rw [tellAll_cons_ok htold] at h ⊢
              exact ih h

theorem notices_prefix {first second : Batch} (h : first.steps <+: second.steps) (total : Nat) :
    notices total 0 first.reported <+: notices total 0 second.reported := by
  obtain ⟨rest, hrest⟩ := h
  rw [notices, notices, Batch.reported, Batch.reported, ← hrest, List.map_append,
    List.mapIdx_append]
  exact List.prefix_append _ _

theorem notices_reports (total done : Nat) (reported : List (Path × Report)) :
    (notices total done reported).map (·.report) = reported.map Prod.snd := by
  induction reported generalizing done with
  | nil => rfl
  | cons pair rest ih => rw [notices_cons, List.map_cons, List.map_cons, ih]

section Listened

variable {σ : Type} {listener : Listener σ} {total : Nat} {heard : σ} {quiet : Batch}
  {run : Batch × σ}

theorem Listened.ok_of_fault (h : Listened listener total 0 heard quiet run)
    (hfault : run.1.fault = none) :
    (tellAll listener (notices total 0 run.1.reported) heard).2 = .ok () := by
  cases hending : (tellAll listener (notices total 0 run.1.reported) heard).2 with
  | ok _ => rfl
  | error fault => cases hfault.symm.trans (h.broken fault hending)

theorem Listened.fault_eq_none_iff (h : Listened listener total 0 heard quiet run) :
    run.1.fault = none ↔ quiet.fault = none ∧
      (tellAll listener (notices total 0 quiet.reported) heard).2 = .ok () := by
  constructor
  · intro hfault
    have htold := h.ok_of_fault hfault
    have hsame := h.whole htold
    rw [hsame] at hfault htold
    exact ⟨hfault, htold⟩
  · rintro ⟨hfault, htold⟩
    obtain ⟨rest, hrest⟩ := notices_prefix h.steps total
    rw [← hrest] at htold
    rw [h.whole (tellAll_append_ok htold), hfault]

theorem Listened.sources {sources : List Path} (h : Listened listener total 0 heard quiet run)
    (hsources : quiet.steps.map (·.source) = sources.take quiet.steps.length) :
    run.1.steps.map (·.source) = sources.take run.1.steps.length := by
  have htake := congrArg (List.take run.1.steps.length) hsources
  rwa [← List.map_take, ← List.prefix_iff_eq_take.mp h.steps, List.take_take,
    Nat.min_eq_left h.steps.length_le] at htake

end Listened

theorem Summary.failed_ofReports (reports : List Report) (issues : List Issue) :
    (Summary.ofReports reports issues).failed = reports.countP (!·.success) := by
  have hsplit : reports.length =
      reports.countP Report.success + reports.countP (!·.success) := by
    simpa using List.length_eq_countP_add_countP Report.success (l := reports)
  exact Nat.sub_eq_of_eq_add' hsplit

def ResolvesInTurn (config : Config) (mode : Mode) (root : Option Path) (tree : FileTree)
    (sources : List Path) : Prop :=
  ∀ i source, sources[i]? = some source → ∃ output place,
    outputPath source config.outputDirectory root = .ok output ∧
      (filesAt config mode root sources tree i).resolve output = .ok place

/-- A run with a listener: how far it comes, and what the listener is told. -/
structure Completes {σ : Type} (config : Config) (mode : Mode) (root : Option Path)
    (tree : FileTree) (sources : List Path) (listener : Listener σ) (heard : σ)
    (run : Batch × σ) : Prop where
  reported : run.1.reports <+: (convertFiles config mode sources root tree).reports
  named : run.1.reports.map (·.filePath) = (sources.take run.1.reports.length).map Path.text
  files : run.1.tree = filesAt config mode root sources tree run.1.reports.length
  told : run.2 = (tellAll listener
    (notices sources.length 0 (sources.zip run.1.reports)) heard).1
  -- the listener did not fail before the last report
  heeded : ∀ i < run.1.reports.length, (tellAll listener
    ((notices sources.length 0 (sources.zip run.1.reports)).take i) heard).2 = .ok ()
  whole : run.1.fault = none → run.1.reports.length = sources.length
  unbroken : run.1.fault = none ↔ ResolvesInTurn config mode root tree sources ∧
    (tellAll listener (notices sources.length 0
      (sources.zip (convertFiles config mode sources root tree).reports)) heard).2 = .ok ()
  failed : ∀ fault, (tellAll listener
    (notices sources.length 0 (sources.zip run.1.reports)) heard).2 = .error fault →
      run.1.fault = some fault
  broken : ∀ fault, run.1.fault = some fault →
    let ending := (tellAll listener
      (notices sources.length 0 (sources.zip run.1.reports)) heard).2
    ending = .error fault ∨ ending = .ok () ∧ ∃ source output error,
      sources[run.1.reports.length]? = some source ∧
        outputPath source config.outputDirectory root = .ok output ∧
        (filesAt config mode root sources tree run.1.reports.length).resolve output =
          .error error ∧
        fault = .resolve error

/-- A run that the progress listens to: the counts agree with the reports. -/
structure Tracks (config : Config) (mode : Mode) (root : Option Path) (tree : FileTree)
    (sources : List Path) (console : Console) (run : Batch × Progress) : Prop where
  errors : run.2.errors = run.1.reports.countP (!·.success)
  failed : ∀ issues, (Summary.ofReports run.1.reports issues).failed = run.2.errors
  done : run.1.fault = none → run.2.current = sources.length
  -- what the console refuses is an error, but the source does not count as done
  shown : (notices sources.length 0 (sources.zip run.1.reports)).findSome? console.refusal? =
    none → run.2.current = run.1.reports.length
  refused : ∀ fault, (notices sources.length 0 (sources.zip run.1.reports)).findSome?
      console.refusal? = some fault →
    run.2.current + 1 = run.1.reports.length ∧ run.1.fault = some fault
  unbroken : run.1.fault = none ↔ ResolvesInTurn config mode root tree sources ∧
    ∀ notice ∈ notices sources.length 0
      (sources.zip (convertFiles config mode sources root tree).reports),
      console.refusal? notice = none

section Runs

variable {config : Config} {mode : Mode} {root : Option Path} {tree : FileTree}
  {sources : List Path}

theorem zip_reports {batch : Batch}
    (h : batch.steps.map (·.source) = sources.take batch.steps.length) :
    sources.zip (batch.steps.map (·.report)) = batch.reported := by
  have hlength : (sources.take batch.steps.length).length =
      (batch.steps.map (·.report)).length := by
    rw [← h, List.length_map, List.length_map]
  calc sources.zip (batch.steps.map (·.report))
      = (sources.take batch.steps.length ++ sources.drop batch.steps.length).zip
          (batch.steps.map (·.report) ++ []) := by rw [List.take_append_drop, List.append_nil]
    _ = (sources.take batch.steps.length).zip (batch.steps.map (·.report)) := by
        rw [List.zip_append hlength, List.zip_nil_right, List.append_nil]
    _ = batch.reported := by
        rw [← h, List.zip_map', Batch.reported]

theorem resolvesInTurn_iff :
    (convertFiles config mode sources root tree).fault = none ↔
      ResolvesInTurn config mode root tree sources := by
  rw [convertFiles_eq]
  refine (convertQuietly_fault_eq_none_iff config mode root tree [] sources).trans
    (forall_congr' fun i => forall_congr' fun source => imp_congr_right fun hsource => ?_)
  rw [← convertFiles_eq, ← filesAt]
  constructor
  · rintro ⟨place, hplace⟩
    obtain ⟨output, houtput, hresolve⟩ := outputPlace_eq_ok hplace
    exact ⟨output, place, houtput, hresolve⟩
  · rintro ⟨output, place, houtput, hresolve⟩
    refine ⟨place, ?_⟩
    rw [outputPlace, houtput]
    dsimp only
    rw [hresolve]

/-- The fault of a run that nobody listens to is that of the first output without a place. -/
theorem fault_of_named (hnamed : ∀ source ∈ sources, source.name ≠ "") {fault : Fault}
    (h : (convertFiles config mode sources root tree).fault = some fault) :
    let reached := (convertFiles config mode sources root tree).steps.length
    ∃ source output error, sources[reached]? = some source ∧
      outputPath source config.outputDirectory root = .ok output ∧
      (filesAt config mode root sources tree reached).resolve output = .error error ∧
      fault = .resolve error := by
  rw [convertFiles_eq] at h
  obtain ⟨source, hsource, hplace⟩ := convertQuietly_fault_eq_some h
  rw [← convertFiles_eq] at hsource
  rw [← convertFiles_eq, ← convertFiles_eq, ← filesAt] at hplace
  obtain ⟨output, houtput⟩ := exists_outputPath_of_named config root
    (hnamed source (List.mem_of_getElem? hsource))
  rw [outputPlace, houtput] at hplace
  dsimp only at hplace
  split at hplace
  · cases hplace
    exact ⟨source, output, _, hsource, houtput, ‹_›, rfl⟩
  · cases hplace

theorem convertFilesTelling_completes {σ : Type} (hnamed : ∀ source ∈ sources, source.name ≠ "")
    (listener : Listener σ) (heard : σ) :
    Completes config mode root tree sources listener heard
      (convertFilesTelling listener heard config mode sources root tree) := by
  obtain ⟨hlistened, htree, hothers⟩ :=
    convertEach_listened listener config mode root sources.length 0 heard tree [] sources
  obtain ⟨hsources, hpaths⟩ := convertQuietly_reported config mode root tree [] sources
  have hquiet := convertFiles_reports config mode root tree sources
  rw [← convertFiles_eq] at hlistened htree hsources hpaths
  rw [← filesAt] at htree
  rw [convertFilesTelling]
  generalize convertEach config mode root _ tree [] 0 heard sources = run
    at hlistened htree hothers ⊢
  have hreports : run.1.reports = run.1.steps.map (·.report) := by
    rw [Batch.reports, hothers, List.nil_append]
  have hlength : run.1.reports.length = run.1.steps.length := by
    rw [hreports, List.length_map]
  have hreached := hlistened.sources hsources
  have hzip : sources.zip run.1.reports = run.1.reported := by rw [hreports, zip_reports hreached]
  have hzipQuiet : sources.zip (convertFiles config mode sources root tree).reports =
      (convertFiles config mode sources root tree).reported := by rw [hquiet, zip_reports hsources]
  constructor
  · rw [hreports, hquiet]
    exact hlistened.steps.map (·.report)
  · rw [hlength, ← hreached, hreports, List.map_map, List.map_map]
    exact List.map_congr_left fun step hstep => hpaths step (hlistened.steps.subset hstep)
  · rw [hlength]
    exact htree
  · rw [hzip]
    exact hlistened.told
  · rw [hzip, hlength]
    exact hlistened.heeded
  · intro hfault
    have hsame := hlistened.whole (hlistened.ok_of_fault hfault)
    rw [hlength, hsame, convertFiles_eq]
    rw [hsame, convertFiles_eq] at hfault
    exact convertQuietly_length hfault
  · rw [hzipQuiet, ← resolvesInTurn_iff]
    exact hlistened.fault_eq_none_iff
  · rw [hzip]
    exact hlistened.broken
  · intro fault hfault
    rw [hzip]
    cases htold : (tellAll listener (notices sources.length 0 run.1.reported) heard).2 with
    | error other =>
        cases hfault.symm.trans (hlistened.broken other htold)
        exact .inl rfl
    | ok _ =>
        have hsame := hlistened.whole htold
        rw [hlength, hsame]
        rw [hsame] at hfault
        exact .inr ⟨rfl, fault_of_named hnamed hfault⟩

section Progress

variable {console : Console} {run : Batch × Progress}

theorem Completes.told_reports (h : Completes config mode root tree sources
      (Progress.track console) (.start sources.length) run) :
    (notices sources.length 0 (sources.zip run.1.reports)).map (·.report) = run.1.reports := by
  have hlength := congrArg List.length h.named
  rw [List.length_map, List.length_map, List.length_take] at hlength
  rw [notices_reports, List.map_snd_zip (by omega)]

theorem Completes.progress (h : Completes config mode root tree sources
      (Progress.track console) (.start sources.length) run) :
    run.2.errors = run.1.reports.countP (!·.success) ∧
      run.2.current + (if ((notices sources.length 0 (sources.zip run.1.reports)).findSome?
        console.refusal?).isSome then 1 else 0) = run.1.reports.length := by
  have hlength := congrArg List.length h.told_reports
  have hfailed := congrArg (List.countP (!·.success)) h.told_reports
  rw [List.length_map] at hlength
  rw [List.countP_map] at hfailed
  obtain ⟨herrors, hcurrent⟩ := Progress.tellAll_track_counts console rfl
    (p := .start sources.length) fun i hi => h.heeded i (hlength ▸ hi)
  rw [← h.told] at herrors hcurrent
  rw [hlength] at hcurrent
  exact ⟨herrors.trans ((Nat.zero_add _).trans hfailed), hcurrent.trans (Nat.zero_add _)⟩

theorem Completes.fault_of_refusal {fault : Fault} (h : Completes config mode root tree sources
      (Progress.track console) (.start sources.length) run)
    (hrefused : (notices sources.length 0 (sources.zip run.1.reports)).findSome?
      console.refusal? = some fault) : run.1.fault = some fault := by
  refine h.failed fault ?_
  rw [Progress.tellAll_track_ending console _ rfl, hrefused]
  rfl

theorem Completes.tracks (h : Completes config mode root tree sources
      (Progress.track console) (.start sources.length) run) :
    Tracks config mode root tree sources console run := by
  obtain ⟨herrors, hcurrent⟩ := h.progress
  constructor
  · exact herrors
  · intro issues
    rw [Summary.failed_ofReports, herrors]
  · intro hfault
    rw [← h.whole hfault, ← hcurrent]
    cases hrefused : (notices sources.length 0 (sources.zip run.1.reports)).findSome?
        console.refusal? with
    | none => rfl
    | some fault => cases hfault.symm.trans (h.fault_of_refusal hrefused)
  · intro hnone
    rw [hnone] at hcurrent
    exact hcurrent
  · intro fault hrefused
    have hfault := h.fault_of_refusal hrefused
    rw [hrefused] at hcurrent
    exact ⟨hcurrent, hfault⟩
  · rw [h.unbroken, Progress.tellAll_track_ending console _ rfl, ← List.findSome?_eq_none_iff]
    refine and_congr_right fun _ => ?_
    cases (notices sources.length 0 (sources.zip
      (convertFiles config mode sources root tree).reports)).findSome? console.refusal? with
    | none => exact iff_of_true rfl rfl
    | some fault => exact iff_of_false (by simp) (by simp)

end Progress

end Runs

/-- A run over sources that have names goes on as long as their outputs can be resolved and its
listener does not fail, whatever else fails: without links, outputs can be resolved if they have no
null byte. It ends before the first source for which that fails, and tells of all before it. -/
theorem convertFiles_completes (config : Config) (mode : Mode) (root : Option Path)
    (tree : FileTree) {sources : List Path} (hnamed : ∀ source ∈ sources, source.name ≠ "") :
    (∀ (σ : Type) (listener : Listener σ) (heard : σ),
      Completes config mode root tree sources listener heard
        (convertFilesTelling listener heard config mode sources root tree)) ∧
    (∀ console, Tracks config mode root tree sources console
      (convertFilesTelling (Progress.track console) (.start sources.length) config mode sources
        root tree)) ∧
    (tree.LinkFree → (ResolvesInTurn config mode root tree sources ↔
      ∀ source ∈ sources, ∀ output,
        outputPath source config.outputDirectory root = .ok output → output.hasNull = false)) := by
  refine ⟨fun σ => convertFilesTelling_completes hnamed,
    fun console => (convertFilesTelling_completes hnamed _ _).tracks, fun hlinks => ?_⟩
  rw [← resolvesInTurn_iff, convertFiles_eq, convertQuietly_fault_iff hlinks]
  refine forall₂_congr fun source hsource => ?_
  obtain ⟨output, houtput⟩ := exists_outputPath_of_named config root (hnamed source hsource)
  simp [Placed, houtput]

/-- Three sources: a directory, a proper one, and one whose output is a link to itself. -/
def obstructedSources : FileTree :=
  ⟨[(["a.slim"], .directory), (["b.slim"], .file [112]), (["c.slim"], .file [112]),
    (["c.erb"], .link "c.erb")], []⟩

/-- The first source cannot be read, which does not stop the run; the third one stops it. -/
theorem convertFiles_completes_obstructedSources :
    let sources := [Path.ofText "a.slim", .ofText "b.slim", .ofText "c.slim"]
    let run := convertFilesTelling (Progress.track .plain) (.start 3) Config.standard
      ⟨false, false⟩ sources none obstructedSources
    (∀ source ∈ sources, source.name ≠ "") ∧
      run.1.reports.map (·.status) = [.readError, .converted] ∧
      run.1.reports.map (·.filePath) = ["a.slim", "b.slim"] ∧
      run.2.current = 2 ∧ run.2.errors = 1 ∧
      ∃ error, run.1.fault = some (.resolve error) := by
  intro sources run
  have hnamed : ∀ source ∈ sources, source.name ≠ "" := by decide +kernel
  have hstatus : run.1.reports.map (·.status) = [.readError, .converted] := by decide +kernel
  have hfault : run.1.fault.isSome = true := by decide +kernel
  have hlength : run.1.reports.length = 2 := by
    simpa using congrArg List.length hstatus
  have hshown : (notices sources.length 0 (sources.zip run.1.reports)).findSome?
      Console.plain.refusal? = none := by
    rw [List.findSome?_eq_none_iff]
    intro notice _
    exact Option.bind_fun_none _
  obtain ⟨hcompletes, htracks, -⟩ :=
    convertFiles_completes Config.standard ⟨false, false⟩ none obstructedSources hnamed
  have hrun := hcompletes Progress (Progress.track .plain) (.start 3)
  have htrack := htracks .plain
  obtain ⟨fault, hsome⟩ := Option.isSome_iff_exists.mp hfault
  refine ⟨hnamed, hstatus, hrun.named.trans ?_, (htrack.shown hshown).trans hlength,
    htrack.errors.trans ?_, ?_⟩
  · rw [hlength]
    decide +kernel
  · decide +kernel
  · rcases hrun.broken fault hsome with hfailed | ⟨-, source, output, error, -, -, -, rfl⟩
    · rw [Progress.tellAll_track_ending .plain _ rfl, hshown] at hfailed
      cases hfailed
    · exact ⟨error, hsome⟩

end SlimTemplate
