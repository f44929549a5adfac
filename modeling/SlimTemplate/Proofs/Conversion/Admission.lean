import SlimTemplate.Proofs.Conversion.Batch
import SlimTemplate.Proofs.Files.Discovery

/-!
Which sources a run over a directory turns away. What a scan finds has the extension, so that none
is turned away for its name; one that is still a file when its turn comes is not called missing.
Main statement: a scan finds exactly the files below the directory that have the extension, unless
it meets something that it cannot look at, and the run admits all of them.
-/

namespace SlimTemplate

open FileTree Files SlimTemplate.Action ConvertFile

/-- A report on a source that was not turned away for its name. Where the source is a file, it is
never called missing: a failure to read it is told as such. -/
structure Admits (source : Path) (tree : FileTree) (report : Report) : Prop where
  valid : report.status ≠ .validationError
  present : tree.isFile source = .ok true → report.status = .readError →
    ∃ cause, report.error = some (Failure.unreadable source cause).message

theorem admits_of_status {source : Path} {tree : FileTree} {report : Report}
    (hvalid : report.status ≠ .validationError) (hread : report.status ≠ .readError) :
    Admits source tree report :=
  ⟨hvalid, fun _ hstatus => absurd hstatus hread⟩

section Convert

variable {config : Config} {mode : Mode} {source : Path} {root : Option Path} {tree : FileTree}
  {world : World}

theorem write_admits {report : Report} (hvalid : report.status ≠ .validationError)
    (hread : report.status ≠ .readError) (config : Config) (source : Path) (root : Option Path)
    (text : String) (world : World) :
    Ensures (write config source root text report) world fun result _ =>
      ∀ other, result = .ok other → Admits source tree other := by
  rw [write]
  refine ensures_bind.mpr (ensures_attempt.mpr (ensures_of_forall fun result after => ?_))
  cases result with
  | ok written =>
      rintro other ⟨⟩
      exact admits_of_status hvalid hread
  | error trouble =>
      cases trouble with
      | fault fault => simp
      | failure failure =>
          rintro other ⟨⟩
          exact admits_of_status (by simp) (by simp)

theorem finish_admits (config : Config) (mode : Mode) (source : Path) (root : Option Path)
    (conversion : Conversion) (world : World) :
    Ensures (finish config mode source root conversion) world fun result _ =>
      ∀ report, result = .ok report → Admits source tree report := by
  rw [finish]
  refine (ensures_bind.trans ensures_orThrow).mpr ?_
  cases outputPath source config.outputDirectory root with
  | error e => simp [Except.mapError]
  | ok output =>
      have hdraft : (draft source output mode conversion).status ≠ .validationError ∧
          (draft source output mode conversion).status ≠ .readError := by
        rw [draft]
        split <;> simp
      have hsettle : ∀ between : World, Ensures (do
          if mode.dryRun then return draft source output mode conversion
          if ← isUpToDate config output conversion.output then
            return { draft source output mode conversion with status := .unchanged }
          write config source root conversion.output (draft source output mode conversion))
          between fun result _ => ∀ report, result = .ok report → Admits source tree report := by
        intro between
        cases mode.dryRun with
        | true =>
            rintro report ⟨⟩
            exact admits_of_status hdraft.1 hdraft.2
        | false =>
            refine ensures_bind.mpr (ensures_of_forall fun found after => ?_)
            cases found with
            | error fault => simp
            | ok same =>
                cases same with
                | true =>
                    rintro report ⟨⟩
                    exact admits_of_status (by simp) (by simp)
                | false => exact write_admits hdraft.1 hdraft.2 config source root _ after
      dsimp only [Except.mapError]
      cases conversion.faults with
      | nil => exact hsettle world
      | cons fault more =>
          refine ensures_bind.mpr ?_
          cases mode.force with
          | true => exact hsettle _
          | false =>
              rintro report ⟨⟩
              exact admits_of_status (by simp) (by simp)

theorem convertFile_admits (hextension : hasExtension source.name config.extension = true)
    (mode : Mode) (root : Option Path) (world : World) :
    Ensures (convertFile config mode source root) world fun result _ =>
      ∀ report, result = .ok report → Admits source world.tree report := by
  rw [convertFile, hextension]
  refine (ensures_bind.trans ensures_probe).mpr ?_
  cases hfile : world.tree.isFile source with
  | error e => simp [Except.mapError]
  | ok found =>
      cases found with
      | false =>
          rintro report ⟨⟩
          exact ⟨by simp [Report.failed], fun htrue => by cases hfile.symm.trans htrue⟩
      | true =>
          refine (ensures_bind.trans ensures_tree).mpr ?_
          dsimp only
          cases hread : readSource world.tree source with
          | error trouble =>
              cases trouble with
              | failure failure =>
                  obtain ⟨cause, rfl⟩ := readSource_failure hread
                  rintro report ⟨⟩
                  exact ⟨by simp [Report.failed], fun _ _ => ⟨cause, rfl⟩⟩
              | fault fault =>
                  rintro report ⟨⟩
                  exact admits_of_status (by simp [Report.failed]) (by simp [Report.failed])
          | ok text =>
              dsimp only
              cases hconvert : convert config.options text with
              | error overflow =>
                  rintro report ⟨⟩
                  exact admits_of_status (by simp [Report.failed]) (by simp [Report.failed])
              | ok conversion =>
                  refine (ensures_bind.trans ensures_recordAll).mpr ?_
                  exact finish_admits config mode source root conversion _

theorem convertInBatch_admits (hextension : hasExtension source.name config.extension = true)
    (mode : Mode) (root : Option Path) (tree : FileTree) :
    Admits source tree (convertInBatch config mode source root tree).1.report := by
  obtain ⟨result, after, hadmits, -, hreport⟩ :=
    convertInBatch_ensures (convertFile_admits hextension mode root { tree })
  rcases hreport with ⟨report, rfl, hreport⟩ | ⟨fault, error, rfl, hreport⟩
  · rw [hreport]
    exact hadmits report rfl
  · rw [hreport]
    exact admits_of_status (by simp [Report.failed]) (by simp [Report.failed])

theorem takeTurn_admits (hextension : hasExtension source.name config.extension = true)
    (mode : Mode) (root : Option Path) (tree : FileTree) (produced : Produced) (place : Path) :
    Admits source tree (takeTurn config mode root tree produced source place).1.step.report := by
  cases hlookup : produced.lookup place with
  | some earlier =>
      rw [takeTurn_of_earlier hlookup]
      exact admits_of_status (by simp [refusal, Report.failed]) (by simp [refusal, Report.failed])
  | none =>
      rw [takeTurn_of_new hlookup]
      dsimp only
      exact convertInBatch_admits hextension mode root tree

end Convert

/-- The sources of a run are admitted in their turns, if all of them have the extension. -/
theorem turns_admit {config : Config} {sources : List Path}
    (h : ∀ source ∈ sources, hasExtension source.name config.extension = true) (mode : Mode)
    (root : Option Path) (tree : FileTree) (produced : Produced) :
    ∀ turn ∈ turns config mode root tree produced sources,
      Admits turn.step.source turn.before turn.step.report := by
  induction sources generalizing tree produced with
  | nil => exact List.forall_mem_nil _
  | cons source rest ih =>
      obtain ⟨hsource, hrest⟩ := List.forall_mem_cons.mp h
      cases hplace : outputPlace config tree source root with
      | error fault =>
          rw [turns_cons_error hplace]
          exact List.forall_mem_nil _
      | ok place =>
          obtain ⟨hbefore, hsame⟩ := takeTurn_first config mode root tree produced source place
          rw [turns_cons hplace]
          refine List.forall_mem_cons.mpr ⟨?_, ih hrest _ _⟩
          rw [hbefore, hsame]
          exact takeTurn_admits hsource mode root tree produced place

theorem unreadable_message_ne (p q : Path) (cause : ReadCause) :
    (Failure.unreadable p cause).message ≠ (Failure.missing q).message := by
  intro h
  rw [Failure.message.eq_def, Failure.message.eq_def] at h
  dsimp only at h
  have hfirst := congrArg (fun message : String => message.toList.head?) h
  simp at hfirst

/-- A run over a directory reports no source as one without the extension, and none as missing that
is a file when its turn comes. -/
structure AdmitsSources (config : Config) (mode : Mode) (directory : String) (tree : FileTree) :
    Prop where
  valid : ∀ report ∈ (convertDirectory config mode directory tree).reports,
    report.status ≠ .validationError
  present : ∀ sources, findSources tree (.ofText directory) config.extension = .ok sources →
    ∀ i step, (convertDirectory config mode directory tree).steps[i]? = some step →
      (filesAt config mode (some (.ofText directory)) sources tree i).isFile step.source =
        .ok true →
      step.report.status = .readError →
      step.report.error ≠ some (Failure.missing step.source).message

theorem convertDirectory_admits {config : Config} {directory : String} {tree : FileTree}
    (h : ∀ sources, findSources tree (.ofText directory) config.extension = .ok sources →
      ∀ source ∈ sources, hasExtension source.name config.extension = true) (mode : Mode) :
    AdmitsSources config mode directory tree := by
  cases hfind : findSources tree (.ofText directory) config.extension with
  | error trouble =>
      refine ⟨?_, fun sources hsources => by cases hfind.symm.trans hsources⟩
      cases trouble with
      | fault fault =>
          rw [convertDirectory_of_fault hfind]
          exact List.forall_mem_nil _
      | failure failure =>
          rw [convertDirectory_of_failure hfind]
          simp [Batch.reports, Report.failed]
  | ok sources =>
      have hturns := turns_admit (h sources hfind) mode (some (.ofText directory)) tree []
      refine ⟨?_, fun others hothers i step hstep hfile hread => ?_⟩
      · rw [convertDirectory_of_found hfind, convertFiles_reports, convertFiles_eq,
          convertQuietly_steps, List.map_map]
        intro report hreport
        obtain ⟨turn, hturn, rfl⟩ := List.mem_map.mp hreport
        exact (hturns turn hturn).valid
      · cases hfind.symm.trans hothers
        rw [convertDirectory_of_found hfind] at hstep
        have hadmits := hturns _ (List.mem_of_getElem? (exists_turn hstep))
        obtain ⟨cause, hcause⟩ := hadmits.present hfile hread
        rw [hcause]
        exact fun hsame => unreadable_message_ne _ _ _ (Option.some.inj hsame)

/-- A scan of a directory finds exactly the files below it that have the extension, in order and
once each, if all that it looks at is in sight, and fails if something is not; files and directories
are in sight if their paths are not too long. A run over the directory admits what was found. -/
theorem discovery_exact {tree : FileTree} (htree : tree.Orderly) {directory : String}
    {location : Location}
    (hdirectory : tree.locate .target (.ofText directory) = .ok (.taken location .directory)) :
    (∀ extension, Discovers tree (.ofText directory) location extension
      (findSources tree (.ofText directory) extension)) ∧
    (∀ names entry, Descends tree entry location names → (∀ target, entry ≠ .link target) →
      (InSight tree ((Path.ofText directory).descend names) ↔
        ((Path.ofText directory).descend names).text.utf8ByteSize ≤ maxPathBytes ∧
          ∀ name ∈ names, name.utf8ByteSize ≤ maxNameBytes)) ∧
    ∀ config mode, AdmitsSources config mode directory tree := by
  have hscan := findSources_discovers htree hdirectory
  refine ⟨hscan, fun _ _ => inSight_descend_iff htree hdirectory, fun config mode => ?_⟩
  refine convertDirectory_admits (fun sources hsources source hsource => ?_) mode
  exact ((hscan config.extension).accepted sources hsources source hsource).1

/-- A directory with sources at two depths, links in a loop and to the root, and a directory whose
name is that of a source. -/
def loopedTree : FileTree :=
  ⟨[(["d"], .directory), (["d", "b.slim"], .file [112]), (["d", "b"], .directory),
    (["d", "b", "c.SLIM"], .file [112]), (["d", "e.slim"], .directory),
    (["d", "loop.slim"], .link "loop.slim"), (["d", "up"], .link "..")], []⟩

def longName : String :=
  String.ofList (List.replicate 256 'x')

/-- A source beside a link to a name that is too long. -/
def longLinkTree : FileTree :=
  ⟨[(["a.slim"], .file [112]), (["b.slim"], .link longName)], []⟩

theorem locate_longLinkTree :
    longLinkTree.locate .target (.ofText "b.slim") = .error .nameTooLong := by
  have hlong : ¬ longName.utf8ByteSize ≤ maxNameBytes := by decide +kernel
  have hname : ¬ IsDots longName := by
    unfold IsDots
    decide +kernel
  have hslash : '/' ∉ longName.toList := by
    have hlist : longName.toList = List.replicate 256 'x' := String.toList_ofList
    simp only [hlist, List.mem_replicate]
    decide
  have hwalk : longLinkTree.walk .target (39 + 1) [] ["b.slim"] = .error .nameTooLong := by
    rw [walk_link rfl (by simp [IsDots]) (by decide) (by simp) (by simp) rfl,
      Path.splitNames_eq_singleton hslash]
    exact walk_tooLong (by cases Path.readAnchor longName.toList <;> rfl) hname (by simp) hlong
  rw [locate, if_neg (by decide), if_neg (by decide)]
  exact hwalk

/-- The sources of the one are found in the order of their names, which is not that of their texts,
and the other cannot be scanned. -/
theorem discovery_exact_linkedTrees :
    findSources loopedTree (.ofText "d") ".slim" =
        .ok [.ofText "d/b/c.SLIM", .ofText "d/b.slim"] ∧
      loopedTree.isFile (.ofText "d/b/c.SLIM") = .ok true ∧
      InSight loopedTree ((Path.ofText "d").descend ["b"]) ∧
      AdmitsSources Config.standard ⟨false, false⟩ "d" loopedTree ∧
      ∀ sources, findSources longLinkTree (.ofText ".") ".slim" ≠ .ok sources := by
  have hlooped : loopedTree.Orderly :=
    orderly_of_entries (by decide) (by unfold IsDots; decide)
  have hlocate : loopedTree.locate .target (.ofText "d") = .ok (.taken ["d"] .directory) := by rfl
  have hcollect : collectSources loopedTree (.ofText "d") ".slim" (loopedTree.below ["d"]) =
      .ok [.ofText "d/b.slim", .ofText "d/b/c.SLIM"] := by rfl
  have hbefore : [Path.ofText "d/b/c.SLIM", .ofText "d/b.slim"].Pairwise Path.Before := by
    unfold Path.Before Path.NameBefore
    decide
  have hfind : findSources loopedTree (.ofText "d") ".slim" =
      .ok [.ofText "d/b/c.SLIM", .ofText "d/b.slim"] := by
    rw [(findSources_of_locate hlocate).1 _ hcollect]
    refine congrArg Except.ok (Path.eq_of_pairwise_before ?_ hbefore fun p => ?_)
    · exact Path.pairwise_before_mergeSort (by decide)
    · rw [List.mem_mergeSort]
      simp [or_comm]
  obtain ⟨hscan, hsight, hadmits⟩ := discovery_exact hlooped hlocate
  have hlong : longLinkTree.Orderly := orderly_of_entries (by decide) (by unfold IsDots; decide)
  have hhere : longLinkTree.locate .target (.ofText ".") = .ok (.taken [] .directory) := by rfl
  refine ⟨hfind, ?_, ?_, hadmits _ _, fun sources hsources => ?_⟩
  · exact ((hscan ".slim").accepted _ hfind _ List.mem_cons_self).2
  · exact (hsight ["b"] .directory (.last rfl rfl) (by simp)).mpr (by decide)
  · obtain ⟨hseen, -⟩ := (((discovery_exact hlong hhere).1 ".slim").found sources).mp hsources
    refine hseen (.ofText "b.slim") ⟨["b.slim"], _, .last rfl rfl, rfl, .inr ?_⟩ ?_
    · exact hasExtension_iff.mp (by decide)
    · exact locate_longLinkTree

end SlimTemplate
