import SlimTemplate.Conversion.File
import SlimTemplate.Proofs.Files.Endings
import SlimTemplate.Proofs.Files.Names

/-!
The ways in which the conversion of a file can go: it leaves the files alone, it finds its output
in place already, or it comes to writing it. All that is said of conversions rests on these.
-/

namespace SlimTemplate

open FileTree Files SlimTemplate.Action

theorem exists_outputPath_of_named (config : Config) (root : Option Path) {source : Path}
    (hname : source.name ≠ "") :
    ∃ output, outputPath source config.outputDirectory root = .ok output := by
  rw [outputPath]
  cases givenDirectory? config.outputDirectory with
  | some directory => exact ⟨_, rfl⟩
  | none =>
      have hparts : source.parts ≠ [] := by
        intro hnil
        simp [Path.name, hnil] at hname
      exact ⟨_, by rw [Path.withName, if_neg hparts]⟩

/-- A source that cannot be read is no other failure than that. -/
theorem readSource_failure {tree : FileTree} {p : Path} {failure : Failure}
    (h : readSource tree p = .error (.failure failure)) :
    ∃ cause, failure = .unreadable p cause := by
  rw [readSource] at h
  split at h
  · rw [Trouble.ofOs] at h
    split at h
    · cases h
    · cases h
      exact ⟨_, rfl⟩
  · split at h
    · cases h
      exact ⟨_, rfl⟩
    · cases h

namespace ConvertFile

/-- The report on a source whose files were left alone; it is a success only in a dry run. -/
structure Idle (source : Path) (mode : Mode) (report : Report) : Prop where
  filePath : report.filePath = source.text
  written : report.written = false
  backup : report.backup = none
  deleted : report.deleted = false
  preview : report.success = true → mode.dryRun = true

/-- A source whose output is to be in place: it could be read and converted, and its output is
balanced or forced. -/
structure Due (config : Config) (mode : Mode) (source : Path) (root : Option Path)
    (tree : FileTree) (conversion : Conversion) (output : Path) : Prop where
  extension : hasExtension source.name config.extension = true
  isFile : tree.isFile source = .ok true
  converted : ∃ text, readSource tree source = .ok text ∧
    convert config.options text = .ok conversion
  output : outputPath source config.outputDirectory root = .ok output
  passes : conversion.faults = [] ∨ mode.force = true
  real : mode.dryRun = false

structure UpToDate (config : Config) (tree : FileTree) (output : Path) (text : String) : Prop where
  keeps : config.deleteSource = false
  isFile : tree.isFile output = .ok true
  same : readText tree output = .ok text

section Stages

variable {config : Config} {mode : Mode} {source : Path} {root : Option Path} {tree : FileTree}
  {world : World} {conversion conversion' : Conversion} {output output' : Path}

theorem Due.unique (h : Due config mode source root tree conversion output)
    (h' : Due config mode source root tree conversion' output') :
    conversion' = conversion ∧ output' = output := by
  obtain ⟨text, hread, hconvert⟩ := h.converted
  obtain ⟨text', hread', hconvert'⟩ := h'.converted
  cases hread.symm.trans hread'
  exact ⟨Except.ok.inj (hconvert'.symm.trans hconvert),
    Except.ok.inj (h'.output.symm.trans h.output)⟩

theorem idle_failed (source : Path) (mode : Mode) {status : Status} (error : String)
    (h : status.isSuccess = false) : Idle source mode (.failed source.text status error) :=
  ⟨rfl, rfl, rfl, rfl, fun hsuccess => by simp [Report.success, Report.failed, h] at hsuccess⟩

/-- The output is compared with what is there, unless its path is too long. -/
theorem isUpToDate_ensures (world : World) (config : Config) (output : Path) (text : String) :
    Ensures (isUpToDate config output text) world fun result after =>
      after.tree = world.tree ∧ world.journal.GoesOn after.journal ∧
        (∀ fault, result = .error fault →
          ∃ e, fault = .os e ∧ world.tree.isFile output = .error e) ∧
        ∀ found, result = .ok found → (∀ e, world.tree.isFile output ≠ .error e) ∧
          (found = true ↔ UpToDate config world.tree output text) := by
  rw [isUpToDate]
  refine (ensures_bind.trans ensures_probe).mpr ?_
  cases hfile : world.tree.isFile output with
  | error e =>
      refine ⟨rfl, .refl _, fun fault hfault => ?_, by simp⟩
      cases hfault
      exact ⟨e, rfl, rfl⟩
  | ok isFile =>
      have hanswer : ∀ found (after : World), after.tree = world.tree →
          world.journal.GoesOn after.journal →
          (found = true ↔ UpToDate config world.tree output text) →
          after.tree = world.tree ∧ world.journal.GoesOn after.journal ∧
            (∀ fault, (.ok found : Except Fault Bool) = .error fault →
              ∃ e, fault = .os e ∧ Except.ok isFile = .error e) ∧
            ∀ found', (.ok found : Except Fault Bool) = .ok found' →
              (∀ e : OsError, Except.ok isFile ≠ .error e) ∧
                (found' = true ↔ UpToDate config world.tree output text) := by
        intro found after htree hjournal hiff
        refine ⟨htree, hjournal, by simp, fun found' hfound => ⟨by simp, ?_⟩⟩
        cases hfound
        exact hiff
      dsimp only [Except.mapError]
      cases isFile with
      | false =>
          refine hanswer _ _ rfl (.refl _) (iff_of_false (by simp) fun h => ?_)
          cases hfile.symm.trans h.isFile
      | true =>
          cases hdelete : config.deleteSource with
          | true =>
              refine hanswer _ _ rfl (.refl _) (iff_of_false (by simp) fun h => ?_)
              cases hdelete.symm.trans h.keeps
          | false =>
              refine (ensures_bind.trans ensures_tree).mpr ?_
              dsimp only
              cases hread : readText world.tree output with
              | error cause =>
                  refine hanswer _ _ rfl (world.journal.goesOn_note _ _ _)
                    (iff_of_false (by simp) fun h => ?_)
                  cases hread.symm.trans h.same
              | ok existing =>
                  refine hanswer _ _ rfl (.refl _) ⟨fun hsame => ?_, fun h => ?_⟩
                  · exact ⟨hdelete, hfile, by rw [hread, beq_iff_eq.mp hsame]⟩
                  · cases hread.symm.trans h.same
                    exact beq_self_eq_true text

inductive Refused (config : Config) (source : Path) (tree : FileTree) : Status → Failure → Prop
  | notSource (h : hasExtension source.name config.extension = false) :
      Refused config source tree .validationError (.notSource config.extension source)
  | missing (hextension : hasExtension source.name config.extension = true)
      (h : tree.isFile source = .ok false) :
      Refused config source tree .readError (.missing source)
  | unreadable {failure : Failure} (hextension : hasExtension source.name config.extension = true)
      (hfile : tree.isFile source = .ok true)
      (h : readSource tree source = .error (.failure failure)) :
      Refused config source tree .readError failure

theorem Refused.not_due {status : Status} {failure : Failure}
    (h : Refused config source tree status failure) :
    ¬ Due config mode source root tree conversion output := by
  intro hdue
  cases h with
  | notSource hnot => cases hnot.symm.trans hdue.extension
  | missing _ hmissing => cases hmissing.symm.trans hdue.isFile
  | unreadable _ _ hread =>
      obtain ⟨text, htext, -⟩ := hdue.converted
      cases hread.symm.trans htext

theorem not_refused (hextension : hasExtension source.name config.extension = true)
    (hfile : tree.isFile source = .ok true)
    (hread : ∀ failure, readSource tree source ≠ .error (.failure failure)) (status : Status)
    (failure : Failure) : ¬ Refused config source tree status failure := by
  intro h
  cases h with
  | notSource hnot => cases hnot.symm.trans hextension
  | missing _ hmissing => cases hmissing.symm.trans hfile
  | unreadable _ _ herror => exact hread failure herror

theorem Refused.idle {status : Status} {failure : Failure}
    (h : Refused config source tree status failure) (mode : Mode) :
    Idle source mode (.failed source.text status failure.message) := by
  cases h with
  | notSource _ | missing _ _ | unreadable _ _ _ => exact idle_failed source mode _ rfl

inductive FileEnding (config : Config) (mode : Mode) (source : Path) (root : Option Path)
    (world : World) : Except Fault Report → World → Prop
  | refused {status : Status} {failure : Failure}
      (h : Refused config source world.tree status failure) :
      FileEnding config mode source root world
        (.ok (.failed source.text status failure.message))
        { world with journal := world.journal ++ [.issue failure.toIssue] }
  | unseen {e : OsError} (hextension : hasExtension source.name config.extension = true)
      (h : world.tree.isFile source = .error e) :
      FileEnding config mode source root world (.error (.os e)) world
  | idle {report : Report} {after : World} (htree : after.tree = world.tree)
      (hfile : world.tree.isFile source = .ok true)
      (hallowed : ∀ status failure, ¬ Refused config source world.tree status failure)
      (hreport : Idle source mode report)
      (hstatus : report.status ≠ .readError ∧ report.status ≠ .writeError)
      (hnot : ∀ conversion output, ¬ Due config mode source root world.tree conversion output) :
      FileEnding config mode source root world (.ok report) after
  | unanswered {conversion : Conversion} {output : Path} {e : OsError} {after : World}
      (htree : after.tree = world.tree)
      (hdue : Due config mode source root world.tree conversion output)
      (h : world.tree.isFile output = .error e) :
      FileEnding config mode source root world (.error (.os e)) after
  | unchanged {conversion : Conversion} {output : Path} {after : World}
      (htree : after.tree = world.tree)
      (hdue : Due config mode source root world.tree conversion output)
      (h : UpToDate config world.tree output conversion.output) :
      FileEnding config mode source root world
        (.ok { draft source output mode conversion with status := .unchanged }) after
  | writing {conversion : Conversion} {output : Path} {between after : World}
      {result : Except Fault Report} (htree : between.tree = world.tree)
      (hjournal : world.journal <+: between.journal)
      (hdue : Due config mode source root world.tree conversion output)
      (hseen : ∀ e, world.tree.isFile output ≠ .error e)
      (hnot : ¬ UpToDate config world.tree output conversion.output)
      (h : (write config source root conversion.output
        (draft source output mode conversion)).run.run between = (result, after)) :
      FileEnding config mode source root world result after

/-- Output that is not refused is written, unless it is a dry run or the output is there already. -/
theorem settle_ending {between : World} (htree : between.tree = world.tree)
    (hjournal : world.journal <+: between.journal) (hfile : world.tree.isFile source = .ok true)
    (hallowed : ∀ status failure, ¬ Refused config source world.tree status failure)
    (hdue : mode.dryRun = false → Due config mode source root world.tree conversion output) :
    Ensures (do
        if mode.dryRun then return draft source output mode conversion
        if ← isUpToDate config output conversion.output then
          return { draft source output mode conversion with status := .unchanged }
        write config source root conversion.output (draft source output mode conversion))
      between (FileEnding config mode source root world) := by
  cases hdry : mode.dryRun with
  | true =>
      have hstatus : (draft source output mode conversion).status = .preview := by
        rw [draft, if_pos hdry]
      refine .idle htree hfile hallowed ⟨rfl, rfl, rfl, rfl, fun _ => hdry⟩ (by simp [hstatus]) ?_
      intro conversion' output' hnot
      cases hdry.symm.trans hnot.real
  | false =>
      have hdue := hdue hdry
      refine (isUpToDate_ensures between config output conversion.output).bind
        (fun found after hfound => ?_) (fun fault after hfound => ?_)
      · obtain ⟨hsame, hmore, -, hfound⟩ := hfound
        obtain ⟨hseen, hiff⟩ := hfound found rfl
        rw [htree] at hsame hseen hiff
        cases found with
        | true => exact .unchanged hsame hdue (hiff.mp rfl)
        | false =>
            exact .writing hsame (hjournal.trans hmore.isPrefix) hdue hseen (by simp [← hiff]) rfl
      · obtain ⟨hsame, -, hfault, -⟩ := hfound
        obtain ⟨e, rfl, herror⟩ := hfault fault rfl
        rw [htree] at hsame herror
        exact .unanswered hsame hdue herror

theorem finish_ending {between : World} (htree : between.tree = world.tree)
    (hjournal : world.journal <+: between.journal)
    (hextension : hasExtension source.name config.extension = true)
    (hfile : world.tree.isFile source = .ok true)
    (hconverted : ∃ text, readSource world.tree source = .ok text ∧
      convert config.options text = .ok conversion) :
    Ensures (finish config mode source root conversion) between
      (FileEnding config mode source root world) := by
  obtain ⟨output, houtput⟩ := exists_outputPath_of_named config root
    (ne_empty_of_hasExtension config.extension_dotted hextension)
  have hallowed := not_refused hextension hfile (by
    obtain ⟨text, hread, -⟩ := hconverted
    simp [hread])
  have hsettle : ∀ between : World, between.tree = world.tree →
      world.journal <+: between.journal →
      (conversion.faults = [] ∨ mode.force = true) → Ensures (do
        if mode.dryRun then return draft source output mode conversion
        if ← isUpToDate config output conversion.output then
          return { draft source output mode conversion with status := .unchanged }
        write config source root conversion.output (draft source output mode conversion))
      between (FileEnding config mode source root world) := by
    intro between htree hjournal hpasses
    exact settle_ending htree hjournal hfile hallowed fun hreal =>
      ⟨hextension, hfile, hconverted, houtput, hpasses, hreal⟩
  rw [finish, houtput]
  refine (ensures_bind.trans ensures_orThrow).mpr ?_
  dsimp only [Except.mapError]
  cases hfaults : conversion.faults with
  | nil => exact hsettle between htree hjournal (.inl hfaults)
  | cons fault more =>
      refine ensures_bind.mpr ?_
      cases hforce : mode.force with
      | true =>
          exact hsettle _ htree (hjournal.trans (List.prefix_append _ _)) (.inr hforce)
      | false =>
          refine .idle htree hfile hallowed
            ⟨rfl, rfl, rfl, rfl, fun hsuccess => by cases hsuccess⟩ (by simp) ?_
          intro conversion' output' hdue
          obtain ⟨text, hread, hconvert⟩ := hconverted
          obtain ⟨text', hread', hconvert'⟩ := hdue.converted
          cases hread.symm.trans hread'
          cases hconvert.symm.trans hconvert'
          exact absurd hdue.passes (by simp [hfaults, hforce])

theorem convertFile_ending (config : Config) (mode : Mode) (source : Path) (root : Option Path)
    (world : World) :
    Ensures (convertFile config mode source root) world
      (FileEnding config mode source root world) := by
  have hexcuse : ∀ (between : World) (fault : Fault), between.tree = world.tree →
      world.tree.isFile source = .ok true →
      (∀ status failure, ¬ Refused config source world.tree status failure) →
      (∀ conversion output, ¬ Due config mode source root world.tree conversion output) →
      Ensures (excuse source "conversion" fault) between
        (FileEnding config mode source root world) := by
    intro between fault htree hfile hallowed hnot
    exact .idle htree hfile hallowed (idle_failed source mode _ rfl) (by simp [Report.failed]) hnot
  rw [convertFile]
  cases hextension : hasExtension source.name config.extension with
  | false => exact .refused (.notSource hextension)
  | true =>
      refine (ensures_bind.trans ensures_probe).mpr ?_
      cases hfile : world.tree.isFile source with
      | error e => exact .unseen hextension hfile
      | ok found =>
          cases found with
          | false => exact .refused (.missing hextension hfile)
          | true =>
              refine (ensures_bind.trans ensures_tree).mpr ?_
              dsimp only
              cases hread : readSource world.tree source with
              | error trouble =>
                  cases trouble with
                  | failure failure => exact .refused (.unreadable hextension hfile hread)
                  | fault fault =>
                      refine hexcuse _ _ rfl hfile
                        (not_refused hextension hfile (by simp [hread]))
                        fun conversion output hdue => ?_
                      obtain ⟨text, htext, -⟩ := hdue.converted
                      cases hread.symm.trans htext
              | ok text =>
                  dsimp only
                  cases hconvert : convert config.options text with
                  | error overflow =>
                      refine hexcuse _ _ rfl hfile
                        (not_refused hextension hfile (by simp [hread]))
                        fun conversion output hdue => ?_
                      obtain ⟨text', htext, hconverted⟩ := hdue.converted
                      cases hread.symm.trans htext
                      cases hconvert.symm.trans hconverted
                  | ok conversion =>
                      refine (ensures_bind.trans ensures_recordAll).mpr ?_
                      exact finish_ending rfl (List.prefix_append _ _) hextension hfile
                        ⟨text, hread, hconvert⟩

/-- A property of all the ways in which a conversion can go is one of the conversion. -/
structure Covers (config : Config) (mode : Mode) (source : Path) (root : Option Path)
    (world : World) (post : Except Fault Report → World → Prop) : Prop where
  idle : ∀ result after, after.tree = world.tree →
    (∀ report, result = .ok report → Idle source mode report) →
    (∀ conversion output, Due config mode source root world.tree conversion output →
      ¬ UpToDate config world.tree output conversion.output) → post result after
  unchanged : ∀ conversion output after, after.tree = world.tree →
    Due config mode source root world.tree conversion output →
    UpToDate config world.tree output conversion.output →
    post (.ok { draft source output mode conversion with status := .unchanged }) after
  write : ∀ conversion output between, between.tree = world.tree →
    Due config mode source root world.tree conversion output →
    ¬ UpToDate config world.tree output conversion.output →
    Ensures (write config source root conversion.output (draft source output mode conversion))
      between post

/-- What covers all the ways in which a conversion can go holds of it. -/
theorem convertFile_ensures_of {post : Except Fault Report → World → Prop}
    (h : Covers config mode source root world post) :
    Ensures (convertFile config mode source root) world post := by
  refine (convertFile_ending config mode source root world).mono fun result after hending => ?_
  cases hending with
  | refused hrefused =>
      refine h.idle _ _ rfl (fun report hreport => ?_) fun _ _ hdue => absurd hdue hrefused.not_due
      cases hreport
      exact hrefused.idle mode
  | unseen _ herror =>
      refine h.idle _ _ rfl (by simp) fun _ _ hdue => ?_
      cases herror.symm.trans hdue.isFile
  | idle htree _ _ hidle _ hnot =>
      refine h.idle _ _ htree (fun report hreport => ?_) fun _ _ hdue => absurd hdue (hnot _ _)
      cases hreport
      exact hidle
  | unanswered htree hdue herror =>
      refine h.idle _ _ htree (by simp) fun _ _ hdue' hsame => ?_
      obtain ⟨-, rfl⟩ := hdue.unique hdue'
      cases herror.symm.trans hsame.isFile
  | unchanged htree hdue hsame => exact h.unchanged _ _ _ htree hdue hsame
  | writing htree _ hdue _ hnot hrun =>
      have hpost := h.write _ _ _ htree hdue hnot
      rwa [Ensures, hrun] at hpost

end Stages

end ConvertFile

end SlimTemplate
