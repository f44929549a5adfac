import SlimTemplate.Proofs.Conversion.Reporting
import SlimTemplate.Proofs.Files.Traces

/-!
Whether reports tell the truth about the files. A conversion that has written nothing and was not
set back in writing has changed nothing. Main statement: where no links stand in the way, a report
tells of the output, the backup and the deletion as they are; what a failed attempt to write can
leave is new directories and a backup, and a temporary file that stood there before is gone.
-/

namespace SlimTemplate

open FileTree Files SlimTemplate.Action

namespace ConvertFile

structure Accurate (config : Config) (tree : FileTree) (source output : Path) (report : Report)
    (after : FileTree) : Prop where
  written : report.written = true → report.outputPath = some output.text ∧
    ∃ text, report.output = some text ∧
      after.get? (tree.entryLocation output) = some (.file (Text.encode text))
  unwritten : report.written = false → ∀ content,
    after.get? (tree.entryLocation output) = some (.file content) →
    tree.get? (tree.entryLocation output) = some (.file content)
  backup : ∀ text, report.backup = some text →
    ∃ n bytes, text = (backupPath source n).text ∧ tree.readFile source = .ok bytes ∧
      tree.get? (tree.entryLocation (backupPath source n)) = none ∧
      after.get? (tree.entryLocation (backupPath source n)) = some (.file bytes)
  unbacked : report.backup = none → report.status ≠ .writeError → ∀ location content,
    tree.get? location = none → after.get? location = some (.file content) →
    location = tree.entryLocation output
  kept : report.deleted = false → Plain tree output → Apart tree source output →
    after.isPresent source = .ok true
  frame : ∀ location,
    Trace tree source output (fun path => report.backup = some path.text ∨
        report.status = .writeError ∧ config.createBackup = true ∧
          ∃ n, path = backupPath source n) after location ∨
      report.written = true ∧ location = tree.entryLocation output ∨
      location = tree.entryLocation (temporaryOf output) ∧ after.get? location = none ∨
      report.deleted = true ∧
        ∃ entry, tree.locate .entry source = .ok (.taken location entry)
  unchanged : report.written = false → tree.isDirectory output.parent = .ok true →
    config.createBackup = false →
    tree.get? (tree.entryLocation (temporaryOf output)) = none →
    ∀ location, after.get? location = tree.get? location

section Accuracy

variable {config : Config} {mode : Mode} {source output : Path} {root : Option Path}
  {tree after : FileTree} {report : Report}

theorem accurate_of_failed (h : FailedTraces tree source output config.createBackup after)
    (hbegins : Begins tree source output) (hstatus : report.status = .writeError)
    (hwritten : report.written = false) (hbackup : report.backup = none) :
    Accurate config tree source output report after where
  written htrue := by cases hwritten.symm.trans htrue
  unwritten _ content hfile := by
    rcases h.frame (tree.entryLocation output) with htrace | ⟨-, hgone⟩
    · cases htrace with
      | same hsame => exact hsame.symm.trans hfile
      | directory _ _ hdirectory => cases hfile.symm.trans hdirectory
      | backup hpath hlocation _ _ _ =>
          obtain ⟨-, n, rfl⟩ := hpath
          exact absurd hlocation.symm (hbegins.backup_ne n).1
    · cases hgone.symm.trans hfile
  backup text htext := by cases hbackup.symm.trans htext
  unbacked _ hother := absurd hstatus hother
  kept _ _ := h.present
  frame location := by
    rcases h.frame location with htrace | htemporary
    · exact .inl (htrace.mono fun path hpath => .inr ⟨hstatus, hpath⟩)
    · exact .inr (.inr (.inl htemporary))
  unchanged _ hdirectory hkeep hfree location := by
    rcases h.frame location with htrace | ⟨hsite, hgone⟩
    · cases htrace with
      | same hsame => exact hsame
      | directory hnew _ _ => exact absurd hdirectory hnew
      | backup hpath _ _ _ _ => cases hkeep.symm.trans hpath.1
    · rw [hgone, hsite, hfree]

theorem accurate_of_written {text : String} {written : Written}
    (h : WrittenTraces tree source output (Text.encode text) written after)
    (hwritten : report.written = true) (hpath : report.outputPath = some written.output.text)
    (htext : report.output = some text) (hbackup : report.backup = written.backup.map Path.text)
    (hdeleted : report.deleted = written.deleted) :
    Accurate config tree source output report after where
  written _ := ⟨h.path ▸ hpath, text, htext, h.holds⟩
  unwritten hfalse := by cases hfalse.symm.trans hwritten
  backup name hname := by
    rw [hbackup] at hname
    obtain ⟨path, hpath, rfl⟩ := Option.map_eq_some_iff.mp hname
    obtain ⟨n, bytes, rfl, hread, hfree, hholds⟩ := h.backup path hpath
    exact ⟨n, bytes, rfl, hread, hfree, hholds⟩
  unbacked hnone _ location content hfree hfile := by
    rcases h.frame location with htrace | houtput | ⟨-, hgone⟩ | ⟨-, entry, hsource⟩
    · cases htrace with
      | same hsame => cases hfile.symm.trans (hsame.trans hfree)
      | directory _ _ hdirectory => cases hfile.symm.trans hdirectory
      | backup hpath _ _ _ _ =>
          rw [hbackup, hpath] at hnone
          cases hnone
    · exact houtput
    · cases hfile.symm.trans hgone
    · cases hfree.symm.trans (locate_get? hsource)
  kept hfalse := h.present (hdeleted.symm.trans hfalse)
  frame location := by
    rcases h.frame location with htrace | houtput | htemporary | ⟨hgone, hsource⟩
    · refine .inl (htrace.mono fun path hpath => .inl ?_)
      rw [hbackup, hpath]
      rfl
    · exact .inr (.inl ⟨hwritten, houtput⟩)
    · exact .inr (.inr (.inl htemporary))
    · exact .inr (.inr (.inr ⟨hdeleted.trans hgone, hsource⟩))
  unchanged hfalse := by cases hfalse.symm.trans hwritten

/-- A report on a conversion that left the files alone, or on one that came to writing. -/
inductive Told (config : Config) (source : Path) (root : Option Path) (tree : FileTree)
    (report : Report) (after : FileTree) : Prop
  | idle (hwritten : report.written = false) (hstatus : report.status ≠ .writeError)
      (hbackup : report.backup = none) (hdeleted : report.deleted = false)
      (htree : after = tree)
  | writing {output : Path}
      (houtput : outputPath source config.outputDirectory root = .ok output)
      (hstatus : report.status = .converted ∧ report.written = true ∨
        report.status = .writeError ∧ report.written = false ∧ report.backup = none ∧
          report.deleted = false)
      (hpresent : tree.isPresent source = .ok true)
      (hdeleted : report.deleted = true → after.isPresent source = .ok false)
      (haccurate : Clear tree source output config.deleteSource →
        Accurate config tree source output report after)

theorem Idle.told (h : Idle source mode report) (hstatus : report.status ≠ .writeError)
    (config : Config) (root : Option Path) (tree : FileTree) :
    Told config source root tree report tree :=
  .idle h.written hstatus h.backup h.deleted rfl

theorem WriteEnding.told {conversion : Conversion} {between after : World}
    (hdue : Due config mode source root between.tree conversion output)
    (hshort : between.tree.locate .target output ≠ .error .nameTooLong)
    (h : WriteEnding config source output conversion.output
      (draft source output mode conversion) between (.ok report) after) :
    Told config source root between.tree report after.tree := by
  have hbegins := hdue.begins hshort
  have hpresent := hbegins.present_later (Fills.refl between.tree)
  have hdraft : (draft source output mode conversion).status = .converted := by
    rw [draft, hdue.real]
    rfl
  cases h with
  | failure hending _ =>
      refine .writing hdue.output (.inr ⟨rfl, rfl, rfl, rfl⟩) hpresent (fun hdeleted => ?_)
        fun hclear => accurate_of_failed (hending.failed_traces hclear hbegins) hbegins rfl rfl rfl
      cases hdeleted
  | written hending =>
      refine .writing hdue.output (.inl ⟨hdraft, rfl⟩) hpresent hending.absent_of_deleted
        fun hclear => ?_
      exact accurate_of_written (hending.written_traces hclear hbegins) rfl rfl rfl rfl rfl

end Accuracy

end ConvertFile

open ConvertFile in
/-- A report tells the truth about the files. Only where writing failed may there be new
directories and a backup that it does not tell of. -/
theorem convertFile_accurate (config : Config) (mode : Mode) (source : Path) (root : Option Path)
    (world : World) {report : Report} {after : World}
    (hrun : (convertFile config mode source root).run.run world = (.ok report, after)) :
    Told config source root world.tree report after.tree := by
  have hending := convertFile_ending config mode source root world
  rw [Ensures, hrun] at hending
  generalize hresult : (.ok report : Except Fault Report) = result at hending
  cases hending with
  | unseen _ _ | unanswered _ _ _ => cases hresult
  | refused hrefused =>
      cases hresult
      refine (hrefused.idle mode).told ?_ config root world.tree
      cases hrefused <;> simp [Report.failed]
  | idle htree _ _ hidle hstatus _ =>
      cases hresult
      exact htree ▸ hidle.told hstatus.2 config root world.tree
  | unchanged htree hdue _ =>
      cases hresult
      exact .idle rfl (by simp) rfl rfl htree
  | @writing conversion output between _ _ hbetween _ hdue hseen _ hwrite =>
      have hshort : world.tree.locate .target output ≠ .error .nameTooLong := fun hlong =>
        hseen _ (probe_eq_error_iff.mpr ⟨hlong, rfl⟩)
      have hending := write_ending hdue.output between conversion.output
        (draft source output mode conversion)
      rw [Ensures, hwrite, ← hresult] at hending
      rw [← hbetween] at hdue hshort ⊢
      exact hending.told hdue hshort

theorem besideDirectory_linkFree (name : String) : (besideDirectory name).LinkFree := by
  intro location target
  rw [besideDirectory, get?_set _ _ _ _ (by simp), get?_set _ _ _ _ (by simp)]
  split
  · simp
  split
  · simp
  · simp [FileTree.get?]

open ConvertFile in
/-- A backup that the report does not tell of is left where the output could not be written. -/
theorem convertFile_accurate_besideDirectory :
    let tree := besideDirectory "a.erb"
    ∃ report after, convertBeside "a.erb" = (.ok report, after) ∧
      report.status = .writeError ∧ report.backup = none ∧
      Accurate Config.standard tree (.ofText "a.slim") (.ofText "a.erb") report after.tree ∧
      after.tree.isPresent (.ofText "a.slim") = .ok true ∧
      tree.get? ["a.slim.backup"] = none ∧
      after.tree.get? ["a.slim.backup"] = some (.file [112]) := by
  intro tree
  have hstatus : (convertBeside "a.erb").1.toOption.map (·.status) = some .writeError := by
    decide +kernel
  have hcopy : (convertBeside "a.erb").2.tree.get? ["a.slim.backup"] = some (.file [112]) := by
    decide +kernel
  have houtput : outputPath (.ofText "a.slim") Config.standard.outputDirectory none =
      .ok (.ofText "a.erb") := by decide +kernel
  have hname : (Path.ofText "a.slim").name = "a.slim" := by decide +kernel
  have hlinks := besideDirectory_linkFree "a.erb"
  rcases hrun : convertBeside "a.erb" with ⟨result, after⟩
  rw [hrun] at hstatus hcopy
  cases result with
  | error fault => cases hstatus
  | ok report =>
      have hstatus : report.status = .writeError := Option.some.inj hstatus
      have htold := convertFile_accurate Config.standard ⟨false, false⟩ (.ofText "a.slim") none
        ⟨tree, []⟩ hrun
      cases htold with
      | idle _ hother _ _ _ => exact absurd hstatus hother
      | writing hpath hcase _ _ haccurate =>
          cases houtput.symm.trans hpath
          have haccurate := haccurate (.of_linkFree hlinks _)
          rcases hcase with ⟨hother, -⟩ | ⟨-, -, hbackup, hdeleted⟩
          · cases hother.symm.trans hstatus
          · have hapart : Apart tree (.ofText "a.slim") (.ofText "a.erb") :=
              apart_of_linkFree hlinks (by simp [hname, IsDots]) (by decide)
            exact ⟨report, after, rfl, hstatus, hbackup, haccurate,
              haccurate.kept hdeleted ⟨hlinks _, hlinks _⟩ hapart, by decide, hcopy⟩

end SlimTemplate
