import Mathlib.Data.List.Nodup
import SlimTemplate.Proofs.Conversion.Batch
import SlimTemplate.Proofs.Conversion.Reporting

/-!
Reports and issues. Both are kept apart: a report is the answer to one conversion, issues are
recorded wherever something is met. Main statement: in a run the issues fall into one group for each
source, a failure leaves an issue of the type of its status as the last of its group, and the counts
of a run agree with each other and with the issues.
-/

namespace SlimTemplate

open FileTree Files SlimTemplate.Action

def Status.issueType? : Status → Option IssueType
  | .readError => some .fileRead
  | .writeError => some .fileWrite
  | .invalidOutput | .validationError => some .validation
  | .engineError => some .conversion
  | .preview | .converted | .unchanged => none

/-- The issue of an output that is not balanced; it tells of the first fault only. -/
def unbalanced (source : Path) (faults : List String) : Option Issue :=
  faults.head?.map fun fault => {
    type := .validation
    message := "Generated ERB is unbalanced: " ++ fault
    filePath := some source.text }

/-- The issues that were recorded for a source agree with its report, and the report with itself. -/
structure Documents (source : Path) (report : Report) (group : List Issue) : Prop where
  success : report.success = true →
    group = Issue.ofDiagnostics report.diagnostics (some source.text) ++
      (unbalanced source report.faults).toList
  failure : report.success = false →
    ∃ issue, group.getLast? = some issue ∧ report.status.issueType? = some issue.type
  written : report.written = true → report.success = true
  backup : report.backup.isSome = true → report.written = true
  deleted : report.deleted = true → report.written = true

def Reports (source : Path) (earlier : List Issue) (result : Except Fault Report) (after : World) :
    Prop :=
  ∀ report, result = .ok report → ∃ group, after.journal.issues = earlier ++ group ∧
    Documents source report group

theorem Status.isSuccess_eq_false {status : Status} {type : IssueType}
    (h : status.issueType? = some type) : status.isSuccess = false := by
  cases status with
  | preview | converted | unchanged => cases h
  | readError | writeError | invalidOutput | validationError | engineError => rfl

/-- A source that was not converted goes with any issues of which the last has the right type. -/
theorem documents_failure {source : Path} {report : Report} {issue : Issue}
    (h : report.status.issueType? = some issue.type) (hwritten : report.written = false)
    (hbackup : report.backup = none) (hdeleted : report.deleted = false) (before : List Issue) :
    Documents source report (before ++ [issue]) where
  success hsuccess := by cases (Status.isSuccess_eq_false h).symm.trans hsuccess
  failure _ := ⟨issue, List.getLast?_concat, h⟩
  written htrue := by cases hwritten.symm.trans htrue
  backup hsome := by simp [hbackup] at hsome
  deleted htrue := by cases hdeleted.symm.trans htrue

section Failures

/-- If it is a failure at all, it is one to write. -/
def Trouble.IsWriting (trouble : Trouble) : Prop :=
  ∀ failure, trouble = .failure failure → failure.type = .fileWrite

theorem Trouble.isWriting_fault (fault : Fault) : (Trouble.fault fault).IsWriting := by
  intro failure h
  cases h

theorem Trouble.isWriting_ofOs {foreseen : OsError → Failure} (e : OsError)
    (h : (foreseen e).type = .fileWrite) : (Trouble.ofOs foreseen e).IsWriting := by
  rw [Trouble.ofOs]
  split
  · exact isWriting_fault (.os e)
  · intro failure heq
    cases heq
    exact h

theorem isWriting_of_ending {tree after : FileTree} {source output : Path} {content : Text.Bytes}
    {keep delete : Bool} {trouble : Trouble}
    (h : OutputEnding tree source output content keep delete (.error trouble) after) :
    trouble.IsWriting := by
  cases h with
  | directory hmade =>
      cases hmade with
      | unseen _ => exact Trouble.isWriting_fault _
      | failed _ _ => exact Trouble.isWriting_ofOs _ rfl
  | backup _ _ hbackup =>
      cases hbackup with
      | unseen _ | unnamed _ _ => exact Trouble.isWriting_fault _
      | failed _ _ _ => exact Trouble.isWriting_ofOs _ rfl
  | placing _ hplaced =>
      cases hplaced with
      | unseen _ | unnamed _ _ | lost _ _ _ _ | stuck _ _ _ _ _ => exact Trouble.isWriting_fault _
      | noAccess _ =>
          intro failure heq
          cases heq
          rfl
      | clear _ _ _ _ | cleared _ _ _ _ _ => exact Trouble.isWriting_ofOs _ rfl
  | deletion _ _ _ hdeleted =>
      cases hdeleted with
      | unseen _ | unresolved _ _ | looped _ _ _ => exact Trouble.isWriting_fault _
      | failed _ _ _ _ _ => exact Trouble.isWriting_ofOs _ rfl

end Failures

namespace Issue

/-- One more type goes to the end of the types that have occurred, unless it is among them. -/
theorem eraseDups_concat (types : List IssueType) (type : IssueType) :
    (types ++ [type]).eraseDups =
      if type ∈ types then types.eraseDups else types.eraseDups ++ [type] := by
  rw [List.eraseDups_append]
  split
  · simp [List.removeAll, *]
  · simp [List.removeAll, List.eraseDups_cons, *]

theorem nodup_eraseDups (types : List IssueType) : types.eraseDups.Nodup := by
  induction types using List.reverseRecOn with
  | nil => exact List.nodup_nil
  | append_singleton types type ih =>
      rw [eraseDups_concat]
      split
      · exact ih
      · rename_i hnot
        rw [← List.concat_eq_append]
        exact ih.concat (mt List.mem_eraseDups.mp hnot)

/-- A type that is counted is counted once more, and one that is not comes last. -/
theorem tally_map {types : List IssueType} (hnodup : types.Nodup) (count : IssueType → Nat)
    (type : IssueType) :
    tally type (types.map fun other => (other, count other)) =
      if type ∈ types then
        types.map fun other => (other, count other + if other = type then 1 else 0)
      else types.map (fun other => (other, count other)) ++ [(type, 1)] := by
  induction types with
  | nil => rfl
  | cons first rest ih =>
      obtain ⟨hfirst, hrest⟩ := List.nodup_cons.mp hnodup
      rw [List.map_cons, tally]
      by_cases heq : first = type
      · subst heq
        have hsame : ∀ other ∈ rest, (other, count other) =
            (other, count other + if other = first then 1 else 0) := by
          intro other hother
          have hne : other ≠ first := fun heq => hfirst (heq ▸ hother)
          rw [if_neg hne, Nat.add_zero]
        rw [if_pos rfl, if_pos List.mem_cons_self, List.map_cons, if_pos rfl,
          List.map_congr_left hsame]
      · rw [if_neg heq, ih hrest]
        have hiff : type ∈ first :: rest ↔ type ∈ rest := by simp [Ne.symm heq]
        simp only [hiff, List.map_cons, if_neg heq, Nat.add_zero]
        split <;> rfl

/-- The count of the types, in the order of their first occurrence. -/
theorem countByType_eq (issues : List Issue) :
    countByType issues =
      (issues.map (·.type)).eraseDups.map fun type => (type, (issues.map (·.type)).count type) := by
  induction issues using List.reverseRecOn with
  | nil => rfl
  | append_singleton issues issue ih =>
      have hlast : countByType (issues ++ [issue]) = tally issue.type (countByType issues) := by
        rw [countByType, List.foldl_append]
        rfl
      rw [hlast, ih, tally_map (nodup_eraseDups _), List.map_append, List.map_singleton,
        eraseDups_concat]
      simp only [List.mem_eraseDups, List.count_append, List.count_singleton]
      by_cases hmem : issue.type ∈ issues.map (·.type)
      · rw [if_pos hmem, if_pos hmem]
        refine List.map_congr_left fun type _ => ?_
        by_cases heq : type = issue.type
        · simp [heq]
        · simp [heq, Ne.symm heq]
      · have hsame : ∀ type ∈ (issues.map (·.type)).eraseDups,
            (type, (issues.map (·.type)).count type) =
              (type, (issues.map (·.type)).count type + if issue.type == type then 1 else 0) := by
          intro type htype
          have hne : issue.type ≠ type := fun heq => hmem (heq ▸ List.mem_eraseDups.mp htype)
          simp [hne]
        rw [if_neg hmem, if_neg hmem, List.map_append, List.map_congr_left hsame]
        simp [List.count_eq_zero_of_not_mem hmem]

end Issue

namespace ConvertFile

variable {config : Config} {mode : Mode} {source output : Path} {root : Option Path}
  {world : World} {conversion : Conversion} {earlier : List Issue}

theorem refuse_reports {status : Status} {failure : Failure}
    (h : status.issueType? = some failure.type) :
    Ensures (refuse source status failure) world (Reports source world.journal.issues) := by
  rw [refuse]
  refine (ensures_bind.trans ensures_recordAll).mpr (ensures_pure.mpr ?_)
  intro report hreport
  cases hreport
  exact ⟨_, Journal.issues_append _ _, documents_failure h rfl rfl rfl []⟩

theorem excuse_reports (source : Path) (context : String) (fault : Fault) (world : World) :
    Ensures (excuse source context fault) world (Reports source world.journal.issues) := by
  rw [excuse]
  refine (ensures_bind.trans ensures_recordAll).mpr (ensures_pure.mpr ?_)
  intro report hreport
  cases hreport
  exact ⟨_, Journal.issues_append _ _, documents_failure rfl rfl rfl rfl []⟩

def draftIssues (source : Path) (conversion : Conversion) : List Issue :=
  Issue.ofDiagnostics (conversion.document.diagnostics.map (·.message)) (some source.text) ++
    (unbalanced source (conversion.faults.map (·.message))).toList

/-- A report that is right about a conversion goes with the issues of it. -/
theorem reports_draft {report : Report} {after : World}
    (hissues : after.journal.issues = earlier ++ draftIssues source conversion)
    (hsuccess : report.success = true)
    (hdiagnostics : report.diagnostics = conversion.document.diagnostics.map (·.message))
    (hfaults : report.faults = conversion.faults.map (·.message))
    (hbackup : report.backup.isSome = true → report.written = true)
    (hdeleted : report.deleted = true → report.written = true) :
    Reports source earlier (.ok report) after := by
  intro other hother
  cases hother
  refine ⟨_, hissues, fun _ => ?_, fun hfailure => ?_, fun _ => hsuccess, hbackup, hdeleted⟩
  · rw [hdiagnostics, hfaults]
    rfl
  · cases hsuccess.symm.trans hfailure

theorem success_draft (source output : Path) (mode : Mode) (conversion : Conversion) :
    (draft source output mode conversion).success = true := by
  rw [Report.success, draft]
  dsimp only
  split
  · rfl
  · rfl

theorem write_reports (houtput : outputPath source config.outputDirectory root = .ok output)
    (hissues : world.journal.issues = earlier ++ draftIssues source conversion) :
    Ensures (write config source root conversion.output (draft source output mode conversion))
      world (Reports source earlier) := by
  rw [write]
  refine ensures_bind.mpr (ensures_attempt.mpr ?_)
  have hending := writeOutput_ending houtput world conversion.output config.createBackup
    config.deleteSource
  have hnotes := addsNotes_writeOutput source conversion.output config.createBackup
    config.deleteSource config.outputDirectory root world
  refine (hending.and hnotes).mono fun result after h => ?_
  obtain ⟨hending, hnotes⟩ := h
  rw [← hnotes.issues_eq] at hissues
  cases result with
  | ok written =>
      exact reports_draft hissues (success_draft source output mode conversion) rfl rfl
        (fun _ => rfl) (fun _ => rfl)
  | error trouble =>
      cases trouble with
      | fault fault =>
          intro report hreport
          cases hreport
      | failure failure =>
          intro report hreport
          cases hreport
          have htype : Status.writeError.issueType? = some failure.toIssue.type :=
            congrArg some (isWriting_of_ending hending failure rfl).symm
          refine ⟨draftIssues source conversion ++ [failure.toIssue], ?_,
            documents_failure htype rfl rfl rfl _⟩
          rw [← List.append_assoc, ← hissues]
          exact Journal.issues_append _ _

/-- Output that is not refused is reported with the issues of the conversion. -/
theorem settle_reports (houtput : outputPath source config.outputDirectory root = .ok output)
    (hissues : world.journal.issues = earlier ++ draftIssues source conversion) :
    Ensures (do
        if mode.dryRun then return draft source output mode conversion
        if ← isUpToDate config output conversion.output then
          return { draft source output mode conversion with status := .unchanged }
        write config source root conversion.output (draft source output mode conversion))
      world (Reports source earlier) := by
  cases mode.dryRun with
  | true =>
      exact reports_draft hissues (success_draft source output mode conversion) rfl rfl
        (fun hsome => by cases hsome) (fun htrue => by cases htrue)
  | false =>
      refine (isUpToDate_ensures world config output conversion.output).bind
        (fun found after hfound => ?_) (fun fault after _ report hreport => by cases hreport)
      obtain ⟨-, hnotes, -⟩ := hfound
      rw [← hnotes.issues_eq] at hissues
      cases found with
      | true =>
          exact reports_draft hissues rfl rfl rfl (fun hsome => by cases hsome)
            (fun htrue => by cases htrue)
      | false => exact write_reports houtput hissues

theorem finish_reports (hissues : world.journal.issues = earlier ++
      Issue.ofDiagnostics (conversion.document.diagnostics.map (·.message)) (some source.text)) :
    Ensures (finish config mode source root conversion) world (Reports source earlier) := by
  rw [finish]
  refine (ensures_bind.trans ensures_orThrow).mpr ?_
  cases houtput : outputPath source config.outputDirectory root with
  | error e =>
      intro report hreport
      cases hreport
  | ok output =>
      dsimp only [Except.mapError]
      cases hfaults : conversion.faults with
      | nil =>
          refine settle_reports houtput ?_
          rw [hissues, draftIssues, hfaults]
          simp [unbalanced]
      | cons fault more =>
          have hnoted : Journal.issues (world.journal ++ [.issue {
                type := .validation
                message := "Generated ERB is unbalanced: " ++ fault.message
                filePath := some source.text }]) = earlier ++ draftIssues source conversion := by
            rw [Journal.issues_append, hissues, draftIssues, hfaults, List.append_assoc]
            rfl
          refine ensures_bind.mpr ?_
          cases mode.force with
          | true => exact settle_reports houtput hnoted
          | false =>
              intro report hreport
              cases hreport
              refine ⟨_, hnoted, ?_⟩
              rw [draftIssues, hfaults]
              exact documents_failure rfl rfl rfl rfl _

theorem issues_conversionJournal (source : Path) (conversion : Conversion) :
    (conversionJournal source conversion).issues =
      Issue.ofDiagnostics (conversion.document.diagnostics.map (·.message))
        (some source.text) := by
  have hnotes : ∀ faults : List Erb.Imbalance,
      Journal.issues (faults.map fun fault =>
        .note .debug .validator ("Validation: " ++ fault.message)) = [] := by
    intro faults
    simp [Journal.issues, Record.issue?]
  have hissues : ∀ issues : List Issue, Journal.issues (issues.map .issue) = issues := by
    intro issues
    simp [Journal.issues, List.filterMap_map, Function.comp_def, Record.issue?]
  rw [conversionJournal, Journal.issues_append, hnotes, hissues, List.nil_append]

end ConvertFile

open ConvertFile in
/-- The report of a conversion and the issues that it adds agree. -/
theorem convertFile_documents (config : Config) (mode : Mode) (source : Path) (root : Option Path)
    (world : World) :
    Ensures (convertFile config mode source root) world (Reports source world.journal.issues) := by
  have hexcuse : ∀ (text : String) (fault : Fault),
      Ensures (do
          Action.note .error .engine text
          excuse source "conversion" fault) world (Reports source world.journal.issues) := by
    intro text fault
    refine (ensures_bind.trans ensures_recordAll).mpr ?_
    have hnotes := world.journal.goesOn_note .error .engine text
    rw [← hnotes.issues_eq]
    exact excuse_reports source "conversion" fault _
  rw [convertFile]
  cases hasExtension source.name config.extension with
  | false => exact refuse_reports rfl
  | true =>
      refine (ensures_bind.trans ensures_probe).mpr ?_
      cases world.tree.isFile source with
      | error e =>
          intro report hreport
          cases hreport
      | ok found =>
          cases found with
          | false => exact refuse_reports rfl
          | true =>
              refine (ensures_bind.trans ensures_tree).mpr ?_
              dsimp only
              cases hread : readSource world.tree source with
              | error trouble =>
                  cases trouble with
                  | failure failure =>
                      obtain ⟨cause, rfl⟩ := readSource_failure hread
                      exact refuse_reports rfl
                  | fault fault => exact hexcuse _ fault
              | ok text =>
                  dsimp only
                  cases convert config.options text with
                  | error overflow => exact hexcuse _ (.overflow overflow)
                  | ok conversion =>
                      refine (ensures_bind.trans ensures_recordAll).mpr (finish_reports ?_)
                      rw [Journal.issues_append, issues_conversionJournal]

theorem convertInBatch_documents (config : Config) (mode : Mode) (source : Path)
    (root : Option Path) (tree : FileTree) :
    Documents source (convertInBatch config mode source root tree).1.report
      (convertInBatch config mode source root tree).1.journal.issues := by
  have h := convertFile_documents config mode source root { tree }
  rw [Ensures] at h
  rw [convertInBatch, Action.start]
  generalize (convertFile config mode source root).run.run { tree } = run at h ⊢
  obtain ⟨result, after⟩ := run
  cases result with
  | ok report =>
      obtain ⟨group, hissues, hdocuments⟩ := h report rfl
      change Documents source report after.journal.issues
      rw [hissues]
      exact hdocuments
  | error fault =>
      -- the issue of the fault comes after those of the conversion
      change Documents source _ (Journal.issues (after.journal ++ [_, _]))
      rw [Journal.issues_append]
      exact documents_failure rfl rfl rfl rfl _

theorem takeTurn_documents (config : Config) (mode : Mode) (root : Option Path) (tree : FileTree)
    (produced : Produced) (source place : Path) :
    Documents source (takeTurn config mode root tree produced source place).1.step.report
      (takeTurn config mode root tree produced source place).1.step.journal.issues := by
  cases hlookup : produced.lookup place with
  | some earlier =>
      rw [takeTurn_of_earlier hlookup]
      exact documents_failure rfl rfl rfl rfl []
  | none =>
      rw [takeTurn_of_new hlookup]
      dsimp only
      exact convertInBatch_documents config mode source root tree

theorem convertQuietly_documents (config : Config) (mode : Mode) (root : Option Path)
    (tree : FileTree) (produced : Produced) (sources : List Path) :
    ∀ step ∈ (convertQuietly config mode root tree produced sources).steps,
      Documents step.source step.report step.journal.issues := by
  induction sources generalizing tree produced with
  | nil => exact List.forall_mem_nil _
  | cons source rest ih =>
      cases hplace : outputPlace config tree source root with
      | error fault =>
          rw [convertQuietly_cons_error hplace]
          exact List.forall_mem_nil _
      | ok place =>
          rw [convertQuietly_cons hplace]
          have hsource := (takeTurn_first config mode root tree produced source place).2
          have hfirst := takeTurn_documents config mode root tree produced source place
          generalize takeTurn config mode root tree produced source place = first
            at hsource hfirst ⊢
          dsimp only
          exact List.forall_mem_cons.mpr ⟨by rwa [hsource], ih first.1.after first.2⟩

/-- The issues of a run are one group for each source, in order, in agreement with its report. -/
structure Grouped (sources : List Path) (batch : Batch) (groups : List (List Issue)) : Prop where
  issues : batch.journal.issues = groups.flatten
  length : groups.length = sources.length
  reports : batch.reports.length = sources.length
  documents : ∀ (i : Nat) source report group, sources[i]? = some source →
    batch.reports[i]? = some report → groups[i]? = some group → Documents source report group

theorem convertFiles_grouped {config : Config} {mode : Mode} {root : Option Path} {tree : FileTree}
    {sources : List Path} (h : (convertFiles config mode sources root tree).fault = none) :
    Grouped sources (convertFiles config mode sources root tree)
      ((convertFiles config mode sources root tree).steps.map (·.journal.issues)) := by
  have hlength : (convertFiles config mode sources root tree).steps.length = sources.length := by
    rw [convertFiles_eq] at h ⊢
    exact convertQuietly_length h
  have hsources : (convertFiles config mode sources root tree).steps.map (·.source) = sources := by
    have hreported := (convertQuietly_reported config mode root tree [] sources).1
    rw [← convertFiles_eq, hlength, List.take_length] at hreported
    exact hreported
  have hreports := convertFiles_reports config mode root tree sources
  constructor
  · rw [convertFiles_journal, Journal.issues, List.filterMap_flatMap, List.flatMap_def]
    rfl
  · rw [List.length_map, hlength]
  · rw [hreports, List.length_map, hlength]
  · intro i source report group hsource hreport hgroup
    rw [← hsources, List.getElem?_map] at hsource
    obtain ⟨step, hstep, rfl⟩ := Option.map_eq_some_iff.mp hsource
    rw [hreports, List.getElem?_map, hstep] at hreport
    rw [List.getElem?_map, hstep] at hgroup
    cases hreport
    cases hgroup
    rw [convertFiles_eq] at hstep
    exact convertQuietly_documents config mode root tree [] sources step
      (List.mem_of_getElem? hstep)

/-- What follows from the agreement of a report is counted at least as often. -/
theorem Grouped.countP_le {sources : List Path} {batch : Batch} {groups : List (List Issue)}
    (h : Grouped sources batch groups) {p q : Report → Bool}
    (hle : ∀ source report group, Documents source report group → p report = true →
      q report = true) : batch.reports.countP p ≤ batch.reports.countP q := by
  refine List.countP_mono_left fun report hmem => ?_
  obtain ⟨i, hi, hreport⟩ := List.mem_iff_getElem.mp hmem
  have hsource : i < sources.length := h.reports ▸ hi
  have hgroup : i < groups.length := h.length ▸ hsource
  exact hle _ report _ (h.documents i _ report _ (List.getElem?_eq_getElem hsource)
    (hreport ▸ List.getElem?_eq_getElem hi) (List.getElem?_eq_getElem hgroup))

/-- In a run that comes to its end, the issues are one group for each source, in order, each in
agreement with the report; and the counts of the reports and of all issues, earlier ones included,
agree. -/
theorem convertFiles_documented (config : Config) (mode : Mode) (root : Option Path)
    (tree : FileTree) (sources : List Path) (earlier : List Issue)
    (h : (convertFiles config mode sources root tree).fault = none) :
    let batch := convertFiles config mode sources root tree
    let issues := earlier ++ batch.journal.issues
    let summary := Summary.ofReports batch.reports issues
    (∃ groups, Grouped sources batch groups) ∧
    summary.total = sources.length ∧ summary.total = summary.successful + summary.failed ∧
    summary.deleted ≤ summary.written ∧ summary.backups ≤ summary.written ∧
    summary.written ≤ summary.successful ∧
    summary.issues =
      (issues.map (·.type)).eraseDups.map fun type => (type, (issues.map (·.type)).count type) := by
  intro batch issues summary
  have hgrouped := convertFiles_grouped h
  refine ⟨⟨_, hgrouped⟩, hgrouped.reports, ?_, ?_, ?_, ?_, Issue.countByType_eq issues⟩
  · exact (Nat.add_sub_cancel' List.countP_le_length).symm
  · exact hgrouped.countP_le fun _ _ _ hdocument => hdocument.deleted
  · exact hgrouped.countP_le fun _ _ _ hdocument => hdocument.backup
  · exact hgrouped.countP_le fun _ _ _ hdocument => hdocument.written

/-- Sources that meet with everything: the first one has a tab in its indentation and is not
balanced, the second one has the same output, the last one finds a directory in its way. -/
def mixedSources : FileTree :=
  ⟨[(["a.slim"], .file "\t| </b>".toUTF8.toList), (["a.SLIM"], .file []), (["b.txt"], .file []),
    (["d.slim"], .file []), (["d.erb.slim2erb.tmp"], .directory)], []⟩

theorem convertFiles_documented_mixedSources :
    let sources := [Path.ofText "a.slim", .ofText "a.SLIM", .ofText "b.txt", .ofText "c.slim",
      .ofText "d.slim"]
    let batch := convertFiles Config.standard ⟨false, true⟩ sources none mixedSources
    let earlier : List Issue := [{ type := .validation, message := "" }]
    batch.fault = none ∧
      batch.reports.map (·.status) =
        [.converted, .writeError, .validationError, .readError, .engineError] ∧
      (∃ groups, Grouped sources batch groups) ∧
      (Summary.ofReports batch.reports (earlier ++ batch.journal.issues)).issues =
        [(.validation, 3), (.parse, 1), (.fileWrite, 1), (.fileRead, 1), (.conversion, 1)] := by
  intro sources batch earlier
  have hfault : batch.fault = none := by
    have hnone : batch.fault.isNone = true := by decide +kernel
    exact Option.isNone_iff_eq_none.mp hnone
  have hstatus : batch.reports.map (·.status) =
      [.converted, .writeError, .validationError, .readError, .engineError] := by decide +kernel
  obtain ⟨hgroups, -, -, -, -, -, hcounts⟩ :=
    convertFiles_documented Config.standard ⟨false, true⟩ none mixedSources sources earlier hfault
  refine ⟨hfault, hstatus, hgroups, hcounts.trans ?_⟩
  decide +kernel

end SlimTemplate
