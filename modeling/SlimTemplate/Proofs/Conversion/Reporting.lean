import SlimTemplate.Proofs.Conversion.Stages
import SlimTemplate.Proofs.Files.Hindrances

/-!
When a conversion ends in a report. Failures of the file system are reported, and each leaves an
issue in the journal. Main statement: a conversion ends without a report exactly if a name that it
meets is too long, the output directory has a null byte in its path, a directory stands in the
place of the temporary file, or links keep the source and the output from being told apart.
-/

namespace SlimTemplate

open FileTree Files SlimTemplate.Action

namespace ConvertFile

inductive Hindrance (config : Config) (mode : Mode) (source : Path) (root : Option Path)
    (tree : FileTree) : Fault → Prop
  | sourceName (hextension : hasExtension source.name config.extension = true)
      (h : tree.locate .target source = .error .nameTooLong) :
      Hindrance config mode source root tree (.os ⟨.nameTooLong, source.text, none⟩)
  | outputName {conversion : Conversion} {output : Path}
      (hdue : Due config mode source root tree conversion output)
      (h : tree.locate .target output = .error .nameTooLong) :
      Hindrance config mode source root tree (.os ⟨.nameTooLong, output.text, none⟩)
  | writing {conversion : Conversion} {output : Path} {fault : Fault}
      (hdue : Due config mode source root tree conversion output)
      (hshort : tree.locate .target output ≠ .error .nameTooLong)
      (hnot : ¬ UpToDate config tree output conversion.output)
      (h : WriteHindrance tree source output (Text.encode conversion.output)
        config.createBackup config.deleteSource fault) :
      Hindrance config mode source root tree fault

inductive Setback (config : Config) (mode : Mode) (source : Path) (root : Option Path)
    (tree : FileTree) : Status → Failure → Prop
  | reading {failure : Failure} (h : Refused config source tree .readError failure) :
      Setback config mode source root tree .readError failure
  | writing {conversion : Conversion} {output : Path} {failure : Failure}
      (hdue : Due config mode source root tree conversion output)
      (hshort : tree.locate .target output ≠ .error .nameTooLong)
      (hnot : ¬ UpToDate config tree output conversion.output)
      (h : WriteSetback tree source output (Text.encode conversion.output)
        config.createBackup config.deleteSource failure) :
      Setback config mode source root tree .writeError failure

inductive WriteEnding (config : Config) (source output : Path) (text : String) (report : Report)
    (world : World) : Except Fault Report → World → Prop
  | fault {fault : Fault} {after : World}
      (h : OutputEnding world.tree source output (Text.encode text) config.createBackup
        config.deleteSource (.error (.fault fault)) after.tree) :
      WriteEnding config source output text report world (.error fault) after
  | failure {failure : Failure} {after : World}
      (h : OutputEnding world.tree source output (Text.encode text) config.createBackup
        config.deleteSource (.error (.failure failure)) after.tree)
      (hjournal : ∃ notes, after.journal = world.journal ++ notes ++ [.issue failure.toIssue]) :
      WriteEnding config source output text report world
        (.ok { report with status := .writeError, error := some failure.message }) after
  | written {written : Written} {after : World}
      (h : OutputEnding world.tree source output (Text.encode text) config.createBackup
        config.deleteSource (.ok written) after.tree) :
      WriteEnding config source output text report world
        (.ok { report with
          written := true
          outputPath := some written.output.text
          backup := written.backup.map Path.text
          deleted := written.deleted }) after

section Reporting

variable {config : Config} {mode : Mode} {source output : Path} {root : Option Path}
  {tree : FileTree} {world after : World} {conversion : Conversion} {status : Status}
  {failure : Failure} {fault : Fault} {result : Except Fault Report}

theorem write_ending (houtput : outputPath source config.outputDirectory root = .ok output)
    (world : World) (text : String) (report : Report) :
    Ensures (write config source root text report) world
      (WriteEnding config source output text report world) := by
  rw [write]
  refine ensures_bind.mpr (ensures_attempt.mpr ?_)
  have hending := writeOutput_ending houtput world text config.createBackup config.deleteSource
  have hjournal := addsNotes_writeOutput source text config.createBackup config.deleteSource
    config.outputDirectory root world
  refine (hending.and hjournal).mono fun result after h => ?_
  obtain ⟨hending, notes, hnotes, -⟩ := h
  cases result with
  | ok written => exact .written hending
  | error trouble =>
      cases trouble with
      | fault fault => exact .fault hending
      | failure failure =>
          have hissue : after.journal ++ [Record.issue failure.toIssue] =
              world.journal ++ notes ++ [.issue failure.toIssue] := by rw [hnotes]
          exact .failure hending ⟨notes, hissue⟩

theorem Due.begins (h : Due config mode source root tree conversion output)
    (hshort : tree.locate .target output ≠ .error .nameTooLong) :
    Begins tree source output where
  name := outputPath_name h.output
  parts := parts_ne_nil_of_hasExtension config.extension_dotted h.extension
  isFile := by
    obtain ⟨location, entry, hlocate, htest⟩ := probe_eq_true h.isFile
    cases entry with
    | file bytes => exact ⟨location, bytes, hlocate⟩
    | directory | link _ => cases htest
  short := hshort

theorem Due.hindrance_iff (h : Due config mode source root tree conversion output) :
    Hindrance config mode source root tree fault ↔
      tree.locate .target output = .error .nameTooLong ∧
          fault = .os ⟨.nameTooLong, output.text, none⟩ ∨
        tree.locate .target output ≠ .error .nameTooLong ∧
          ¬ UpToDate config tree output conversion.output ∧
          WriteHindrance tree source output (Text.encode conversion.output)
            config.createBackup config.deleteSource fault := by
  constructor
  · intro hhindrance
    cases hhindrance with
    | sourceName _ hlong =>
        cases (probe_eq_error_iff.mpr ⟨hlong, rfl⟩).symm.trans h.isFile
    | outputName hdue hlong =>
        obtain ⟨-, rfl⟩ := h.unique hdue
        exact .inl ⟨hlong, rfl⟩
    | writing hdue hshort hnot hwrite =>
        obtain ⟨rfl, rfl⟩ := h.unique hdue
        exact .inr ⟨hshort, hnot, hwrite⟩
  · rintro (⟨hlong, rfl⟩ | ⟨hshort, hnot, hwrite⟩)
    · exact .outputName h hlong
    · exact .writing h hshort hnot hwrite

theorem Due.setback_iff (h : Due config mode source root tree conversion output) :
    Setback config mode source root tree status failure ↔
      status = .writeError ∧ tree.locate .target output ≠ .error .nameTooLong ∧
        ¬ UpToDate config tree output conversion.output ∧
        WriteSetback tree source output (Text.encode conversion.output)
          config.createBackup config.deleteSource failure := by
  constructor
  · intro hsetback
    cases hsetback with
    | reading hrefused => exact absurd h hrefused.not_due
    | writing hdue hshort hnot hwrite =>
        obtain ⟨rfl, rfl⟩ := h.unique hdue
        exact ⟨rfl, hshort, hnot, hwrite⟩
  · rintro ⟨rfl, hshort, hnot, hwrite⟩
    exact .writing h hshort hnot hwrite

/-- The report on a failure names its message, and its issue is the last in the journal. -/
structure Records (world : World) (status : Status) (failure : Failure)
    (result : Except Fault Report) (after : World) : Prop where
  report : ∃ report, result = .ok report ∧ report.status = status ∧
    report.error = some failure.message
  journal : ∃ notes, after.journal = world.journal ++ notes ++ [.issue failure.toIssue]

/-- What is said of faults and failures, for one ending of a conversion. -/
structure Agrees (config : Config) (mode : Mode) (source : Path) (root : Option Path)
    (world : World) (result : Except Fault Report) (after : World) : Prop where
  fault : ∀ fault, result = .error fault ↔ Hindrance config mode source root world.tree fault
  recorded : ∀ status failure, Setback config mode source root world.tree status failure →
    Records world status failure result after
  failed : ∀ report, result = .ok report →
    report.status = .readError ∨ report.status = .writeError →
    ∃ failure, Setback config mode source root world.tree report.status failure

theorem Refused.unique {status' : Status} {failure' : Failure}
    (h : Refused config source tree status failure)
    (h' : Refused config source tree status' failure') : status' = status ∧ failure' = failure := by
  cases h <;> cases h' <;> simp_all

theorem Refused.not_hindrance (h : Refused config source tree status failure) :
    ¬ Hindrance config mode source root tree fault := by
  intro hhindrance
  cases hhindrance with
  | sourceName hextension hlong =>
      have herror : tree.isFile source = .error _ := probe_eq_error_iff.mpr ⟨hlong, rfl⟩
      cases h with
      | notSource hnot => cases hnot.symm.trans hextension
      | missing _ hmissing => cases hmissing.symm.trans herror
      | unreadable _ hfile _ => cases hfile.symm.trans herror
  | outputName hdue _ | writing hdue _ _ _ => exact h.not_due hdue

theorem Refused.agrees (h : Refused config source world.tree status failure) (mode : Mode)
    (root : Option Path) :
    Agrees config mode source root world (.ok (.failed source.text status failure.message))
      { world with journal := world.journal ++ [.issue failure.toIssue] } where
  fault _ := iff_of_false (by simp) h.not_hindrance
  recorded status' failure' hsetback := by
    cases hsetback with
    | writing hdue _ _ _ => exact absurd hdue h.not_due
    | reading hrefused =>
        obtain ⟨rfl, rfl⟩ := h.unique hrefused
        exact ⟨⟨_, rfl, rfl, rfl⟩, [], by simp⟩
  failed report hreport hstatus := by
    cases hreport
    cases h with
    | notSource _ => simp [Report.failed] at hstatus
    | missing hextension hfile => exact ⟨_, .reading (.missing hextension hfile)⟩
    | unreadable hextension hfile hread => exact ⟨_, .reading (.unreadable hextension hfile hread)⟩

/-- What the writing of an output ends with is what the conversion ends with. -/
theorem WriteEnding.agrees {between : World} (htree : world.tree.Housed)
    (hbetween : between.tree = world.tree) (hjournal : world.journal <+: between.journal)
    (hdue : Due config mode source root world.tree conversion output)
    (hshort : world.tree.locate .target output ≠ .error .nameTooLong)
    (hnot : ¬ UpToDate config world.tree output conversion.output)
    (h : WriteEnding config source output conversion.output
      (draft source output mode conversion) between result after) :
    Agrees config mode source root world result after := by
  have hbegins := hdue.begins hshort
  have hhindrance : ∀ fault, Hindrance config mode source root world.tree fault ↔
      WriteHindrance world.tree source output (Text.encode conversion.output)
        config.createBackup config.deleteSource fault := by
    intro fault
    rw [hdue.hindrance_iff]
    simp [hshort, hnot]
  have hsetback : ∀ status failure,
      Setback config mode source root world.tree status failure ↔ status = .writeError ∧
        WriteSetback world.tree source output (Text.encode conversion.output)
          config.createBackup config.deleteSource failure := by
    intro status failure
    rw [hdue.setback_iff]
    simp [hshort, hnot]
  have hdraft : (draft source output mode conversion).status = .converted := by
    rw [draft, hdue.real]
    rfl
  cases h with
  | @fault fault _ hending =>
      rw [hbetween] at hending
      obtain ⟨hfaults, hfailures⟩ := hending.trouble_iff hbegins htree
      refine ⟨fun fault' => ?_, fun status failure h => ?_, by simp⟩
      · rw [hhindrance, ← hfaults]
        simp
      · cases (hfailures failure).mpr ((hsetback status failure).mp h).2
  | @failure failure _ hending hnotes =>
      rw [hbetween] at hending
      obtain ⟨hfaults, hfailures⟩ := hending.trouble_iff hbegins htree
      refine ⟨fun fault' => ?_, fun status failure' h => ?_, fun report hreport _ => ?_⟩
      · rw [hhindrance, ← hfaults]
        simp
      · obtain ⟨rfl, hwrite⟩ := (hsetback status failure').mp h
        cases (hfailures failure').mpr hwrite
        obtain ⟨before, hbefore⟩ := hjournal
        obtain ⟨notes, hnotes⟩ := hnotes
        refine ⟨⟨_, rfl, rfl, rfl⟩, before ++ notes, ?_⟩
        rw [hnotes, ← hbefore, List.append_assoc world.journal]
      · cases hreport
        exact ⟨failure, (hsetback _ _).mpr ⟨rfl, (hfailures failure).mp rfl⟩⟩
  | written hending =>
      rw [hbetween] at hending
      obtain ⟨hfaults, hfailures⟩ := hending.trouble_iff hbegins htree
      refine ⟨fun fault' => ?_, fun status failure h => ?_, fun report hreport hstatus => ?_⟩
      · rw [hhindrance, ← hfaults]
        simp
      · cases (hfailures failure).mpr ((hsetback status failure).mp h).2
      · cases hreport
        simp [hdraft] at hstatus

theorem FileEnding.agrees (htree : world.tree.Housed)
    (h : FileEnding config mode source root world result after) :
    Agrees config mode source root world result after := by
  cases h with
  | refused hrefused => exact hrefused.agrees mode root
  | @unseen e hextension herror =>
      obtain ⟨hlong, rfl⟩ := probe_eq_error_iff.mp herror
      have hhindered : Hindrance config mode source root world.tree _ :=
        .sourceName hextension hlong
      have hnot : ∀ conversion output,
          ¬ Due config mode source root world.tree conversion output := by
        intro conversion output hdue
        cases herror.symm.trans hdue.isFile
      refine ⟨fun fault => ⟨fun hfault => ?_, fun hhindrance => ?_⟩,
        fun status failure hsetback => ?_, by simp⟩
      · cases hfault
        exact hhindered
      · cases hhindrance with
        | sourceName _ _ => rfl
        | outputName hdue _ | writing hdue _ _ _ => exact absurd hdue (hnot _ _)
      · cases hsetback with
        | reading hrefused => exact absurd hhindered hrefused.not_hindrance
        | writing hdue _ _ _ => exact absurd hdue (hnot _ _)
  | idle _ hfile hallowed _ hstatus hnot =>
      refine ⟨fun fault => iff_of_false (by simp) fun hhindrance => ?_,
        fun status failure hsetback => ?_, fun report hreport hfailed => ?_⟩
      · cases hhindrance with
        | sourceName _ hlong => cases (probe_eq_error_iff.mpr ⟨hlong, rfl⟩).symm.trans hfile
        | outputName hdue _ | writing hdue _ _ _ => exact hnot _ _ hdue
      · cases hsetback with
        | reading hrefused => exact absurd hrefused (hallowed _ _)
        | writing hdue _ _ _ => exact absurd hdue (hnot _ _)
      · cases hreport
        exact absurd hfailed (by simp [hstatus])
  | @unanswered conversion output e _ _ hdue herror =>
      obtain ⟨hlong, rfl⟩ := probe_eq_error_iff.mp herror
      refine ⟨fun fault => ?_, fun status failure hsetback => ?_, by simp⟩
      · rw [hdue.hindrance_iff]
        simp [hlong, eq_comm]
      · exact absurd hlong (hdue.setback_iff.mp hsetback).2.1
  | @unchanged conversion output _ _ hdue hsame =>
      have hshort : world.tree.locate .target output ≠ .error .nameTooLong := by
        intro hlong
        cases (probe_eq_error_iff.mpr ⟨hlong, rfl⟩).symm.trans hsame.isFile
      refine ⟨fun fault => iff_of_false (by simp) fun hhindrance => ?_,
        fun status failure hsetback => ?_, fun report hreport hstatus => ?_⟩
      · rcases hdue.hindrance_iff.mp hhindrance with ⟨hlong, -⟩ | ⟨-, hnot, -⟩
        · exact hshort hlong
        · exact hnot hsame
      · exact absurd hsame (hdue.setback_iff.mp hsetback).2.2.1
      · cases hreport
        simp at hstatus
  | @writing conversion output between _ _ hbetween hjournal hdue hseen hnot hrun =>
      have hshort : world.tree.locate .target output ≠ .error .nameTooLong := fun hlong =>
        hseen _ (probe_eq_error_iff.mpr ⟨hlong, rfl⟩)
      have hending := write_ending hdue.output between conversion.output
        (draft source output mode conversion)
      rw [Ensures, hrun] at hending
      exact hending.agrees htree hbetween hjournal hdue hshort hnot

end Reporting

end ConvertFile

open ConvertFile in
/-- A conversion ends without a report exactly if it is hindered. Every failure of the file system
that it meets is reported and recorded, and no other source is reported to have failed so. -/
theorem convertFile_reports (config : Config) (mode : Mode) (source : Path) (root : Option Path)
    (world : World) (htree : world.tree.Housed) :
    let run := (convertFile config mode source root).run.run world
    (∀ fault, run.1 = .error fault ↔ Hindrance config mode source root world.tree fault) ∧
      (∀ status failure, Setback config mode source root world.tree status failure →
        ∃ report, run.1 = .ok report ∧ report.status = status ∧
          report.error = some failure.message ∧
          ∃ notes, run.2.journal = world.journal ++ notes ++ [.issue failure.toIssue]) ∧
      ∀ report, run.1 = .ok report → report.status = .readError ∨ report.status = .writeError →
        ∃ failure, Setback config mode source root world.tree report.status failure := by
  intro run
  have hagrees : Agrees config mode source root world run.1 run.2 :=
    (convertFile_ending config mode source root world).agrees htree
  refine ⟨hagrees.fault, fun status failure hsetback => ?_, hagrees.failed⟩
  obtain ⟨⟨report, hreport, hstatus, herror⟩, hjournal⟩ := hagrees.recorded status failure hsetback
  exact ⟨report, hreport, hstatus, herror, hjournal⟩

def besideDirectory (name : String) : FileTree :=
  ((⟨[], []⟩ : FileTree).set ["a.slim"] (.file [112])).set [name] .directory

theorem besideDirectory_housed {name : String} (hname : ¬ IsDots name) :
    (besideDirectory name).Housed := by
  have hroot : ∀ tree : FileTree, tree.get? [] = some .directory := fun _ => rfl
  have hsource : ((⟨[], []⟩ : FileTree).set ["a.slim"] (.file [112])).Housed :=
    Sound.empty.housed.set (hroot _) (by simp [IsDots]) (by decide)
  refine hsource.set (hroot _) hname ?_
  rw [get?_set _ _ _ _ (by simp)]
  split
  · simp
  · simp [FileTree.get?]

def convertBeside (name : String) : Except Fault Report × World :=
  (convertFile Config.standard ⟨false, false⟩ (.ofText "a.slim") none).run.run
    ⟨besideDirectory name, []⟩

open ConvertFile in
/-- A directory in the place of the temporary file hinders the conversion, one in the place of the
output sets it back. -/
theorem convertFile_reports_besideDirectory :
    let source := Path.ofText "a.slim"
    let hindered := besideDirectory "a.erb.slim2erb.tmp"
    let setBack := besideDirectory "a.erb"
    hindered.Housed ∧ setBack.Housed ∧
      (∃ fault, (convertBeside "a.erb.slim2erb.tmp").1 = .error fault ∧
        fault.message = "[Errno 21] Is a directory: 'a.erb.slim2erb.tmp'" ∧
        Hindrance Config.standard ⟨false, false⟩ source none hindered fault) ∧
      ∃ failure, Setback Config.standard ⟨false, false⟩ source none setBack .writeError failure ∧
        ∃ notes, (convertBeside "a.erb").2.journal = notes ++ [.issue failure.toIssue] := by
  intro source hindered setBack
  have hfirst : hindered.Housed := besideDirectory_housed (by simp [IsDots])
  have hsecond : setBack.Housed := besideDirectory_housed (by simp [IsDots])
  have hmessage : (convertBeside "a.erb.slim2erb.tmp").1.mapError Fault.message =
      .error "[Errno 21] Is a directory: 'a.erb.slim2erb.tmp'" := by decide +kernel
  have hstatus : (convertBeside "a.erb").1.toOption.map (·.status) = some .writeError := by
    decide +kernel
  obtain ⟨hfault, -, -⟩ :=
    convertFile_reports Config.standard ⟨false, false⟩ source none ⟨hindered, []⟩ hfirst
  obtain ⟨-, hrecorded, hfailed⟩ :=
    convertFile_reports Config.standard ⟨false, false⟩ source none ⟨setBack, []⟩ hsecond
  rw [convertBeside] at hmessage hstatus
  rw [convertBeside, convertBeside]
  refine ⟨hfirst, hsecond, ?_, ?_⟩
  · generalize (convertFile Config.standard ⟨false, false⟩ source none).run.run ⟨hindered, []⟩ = run
      at hfault hmessage ⊢
    cases hrun : run.1 with
    | ok report =>
        rw [hrun] at hmessage
        cases hmessage
    | error fault =>
        rw [hrun] at hmessage
        exact ⟨fault, rfl, Except.error.inj hmessage, (hfault fault).mp hrun⟩
  · generalize (convertFile Config.standard ⟨false, false⟩ source none).run.run ⟨setBack, []⟩ = run
      at hrecorded hfailed hstatus ⊢
    cases hrun : run.1 with
    | error fault =>
        rw [hrun] at hstatus
        cases hstatus
    | ok report =>
        rw [hrun] at hstatus
        have hstatus : report.status = .writeError := Option.some.inj hstatus
        obtain ⟨failure, hsetback⟩ := hfailed report hrun (.inr hstatus)
        rw [hstatus] at hsetback
        obtain ⟨-, -, -, -, notes, hnotes⟩ := hrecorded _ _ hsetback
        exact ⟨failure, hsetback, notes, hnotes⟩

end SlimTemplate
