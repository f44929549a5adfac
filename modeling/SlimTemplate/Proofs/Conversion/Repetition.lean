import SlimTemplate.Proofs.Conversion.Batch
import SlimTemplate.Proofs.Erb.Characters
import SlimTemplate.Proofs.Files.Upkeep

/-!
A second run over a directory. A conversion that succeeds leaves its output in place, and the rest
of the run disturbs neither the output nor the source, so that all outputs are in place at the end;
a run over such files changes nothing. Main statement: a second run does exactly that, unless the
first one made a directory that a scan cannot look at.
-/

namespace SlimTemplate

open FileTree Files SlimTemplate.Action ConvertFile

def InPlace (config : Config) (mode : Mode) (source : Path) (root : Option Path) (tree : FileTree)
    (output : Path) : Prop :=
  ∃ conversion, Due config mode source root tree conversion output ∧
    UpToDate config tree output conversion.output

section InPlace

variable {config : Config} {mode : Mode} {source output : Path} {root : Option Path}
  {tree before after : FileTree} {world : World}

section Later

variable {lost made : Location → Prop} (hevolves : Evolves lost made before after)
  (hsound : before.Sound) (hsource : ¬ lost (source.address before.working))

include hevolves hsound hsource

theorem ConvertFile.Due.later {conversion : Conversion}
    (h : Due config mode source root before conversion output) :
    Due config mode source root after conversion output := by
  obtain ⟨text, hread, hconvert⟩ := h.converted
  obtain ⟨hfile, hsame⟩ := hevolves.isFile hsound hsource h.isFile
  refine { h with isFile := hfile, converted := ⟨text, ?_, hconvert⟩ }
  rwa [readSource, hsame]

/-- An output stays in place if neither its file nor the source is lost. -/
theorem InPlace.later (h : InPlace config mode source root before output)
    (houtput : ¬ lost (output.address before.working)) :
    InPlace config mode source root after output := by
  obtain ⟨conversion, hdue, hplace⟩ := h
  obtain ⟨hfile, hsame⟩ := hevolves.isFile hsound houtput hplace.isFile
  refine ⟨conversion, hdue.later hevolves hsound hsource, ⟨hplace.keeps, hfile, ?_⟩⟩
  rw [readText, hsame]
  exact hplace.same

end Later

/-- Where the output is in place, a conversion changes nothing. -/
theorem convertInBatch_of_inPlace (h : InPlace config mode source root tree output) :
    (convertInBatch config mode source root tree).2 = tree ∧
      (convertInBatch config mode source root tree).1.report.status = .unchanged ∧
      (convertInBatch config mode source root tree).1.report.written = false := by
  obtain ⟨conversion, hdue, hsame⟩ := h
  have hconvert : Ensures (convertFile config mode source root) { tree } fun result after =>
      after.tree = tree ∧ ∃ report, result = .ok report ∧ report.status = .unchanged ∧
        report.written = false := by
    refine convertFile_ensures_of ⟨fun result after _ _ hnot => ?_,
      fun conversion' output' after hafter _ _ => ?_,
      fun conversion' output' between _ hdue' hnot => ?_⟩
    · exact absurd hsame (hnot conversion output hdue)
    · exact ⟨hafter, _, rfl, rfl, rfl⟩
    · obtain ⟨rfl, rfl⟩ := hdue.unique hdue'
      exact absurd hsame hnot
  obtain ⟨result, after, ⟨hafter, report, rfl, hunchanged⟩, htree, hreport⟩ :=
    convertInBatch_ensures hconvert
  rcases hreport with ⟨_, ⟨⟩, hreport⟩ | ⟨_, _, ⟨⟩, -⟩
  rw [htree, hreport]
  exact ⟨hafter, hunchanged⟩

/-- What a conversion does to the files if the source is kept: it overwrites the output and its
temporary file only, and if it succeeds then the output is in place. -/
structure Installs (config : Config) (mode : Mode) (source : Path) (root : Option Path)
    (output : Path) (before after : FileTree) (success : Bool) : Prop where
  carries : Carries config.extension (fun location => location = output.address before.working ∨
    location = (temporaryOf output).address before.working) before after
  inPlace : success = true → InPlace config mode source root after output

section Installs

variable (hkeeps : config.deleteSource = false) (hsafe : IsSafe config.extension)
  (hproper : source.Proper)

include hkeeps hsafe hproper

/-- What was written is read as it was meant, so a second conversion finds its output there. -/
theorem inPlace_of_outcome {conversion : Conversion} {written : Written} (hsound : before.Sound)
    (hdue : Due config mode source root before conversion output)
    (h : WriteOutcome (fun _ => Carries config.extension (fun _ => False) before) source output
      (Text.encode conversion.output) false (.ok written) after) :
    InPlace config mode source root after output := by
  have hdotted := config.extension_dotted
  obtain ⟨houtput, htemporary⟩ := isWritten_output hproper hdue.output
  obtain ⟨hcarries, hread⟩ := h.carries hdotted hsafe hsound houtput htemporary
  have hread := hread written rfl
  have hsource := isSource_of_isFile hdotted hsound hdue.extension hdue.isFile
  refine ⟨conversion, hdue.later hcarries.evolves hsound ?_, hkeeps,
    isFile_of_readFile hread, ?_⟩
  · rintro (heq | heq)
    · exact hsource.not_endsIn hdotted hsafe (by decide) (heq ▸ houtput.ends _)
    · exact hsource.not_endsIn hdotted hsafe (by decide) (heq ▸ htemporary.ends _)
  · obtain ⟨text, -, hconvert⟩ := hdue.converted
    rw [readText, hread]
    dsimp only
    rw [decodeText_encode_output hconvert]

theorem write_installs {conversion : Conversion} (hsound : world.tree.Sound)
    (hdue : Due config mode source root world.tree conversion output) (report : Report) :
    Ensures (write config source root conversion.output report) world fun result after =>
      Installs config mode source root output world.tree after.tree
        (result.toOption.any Report.success) := by
  obtain ⟨houtput, htemporary⟩ := isWritten_output hproper hdue.output
  have hdotted := config.extension_dotted
  rw [write, hkeeps]
  refine ensures_bind.mpr (ensures_attempt.mpr ?_)
  refine (writeOutput_outcome hdue.output
    (carries_prepares hdotted hsafe hsound hproper houtput.proper config.createBackup)
    (Carries.refl config.extension _ world.tree) conversion.output false).mono
    fun result after houtcome => ?_
  have hcarries := (houtcome.carries hdotted hsafe hsound houtput htemporary).1
  cases result with
  | error trouble =>
      cases trouble with
      | fault fault | failure failure => exact ⟨hcarries, fun hsuccess => by cases hsuccess⟩
  | ok written =>
      exact ⟨hcarries, fun _ => inPlace_of_outcome hkeeps hsafe hproper hsound hdue houtcome⟩

variable (hreal : mode.dryRun = false)

include hreal

theorem convertFile_installs (hsound : world.tree.Sound)
    (houtput : outputPath source config.outputDirectory root = .ok output) :
    Ensures (convertFile config mode source root) world fun result after =>
      Installs config mode source root output world.tree after.tree
        (result.toOption.any Report.success) := by
  have hsame : ∀ {after : World}, after.tree = world.tree → Carries config.extension
      (fun location => location = output.address world.tree.working ∨
        location = (temporaryOf output).address world.tree.working) world.tree after.tree := by
    intro after hafter
    exact hafter ▸ Carries.refl _ _ _
  refine convertFile_ensures_of ⟨fun result after hafter hidle _ => ?_,
    fun conversion found after hafter hdue hplace => ?_,
    fun conversion found between hbetween hdue _ => ?_⟩
  · refine ⟨hsame hafter, fun hsuccess => ?_⟩
    cases result with
    | error fault => cases hsuccess
    | ok report => cases hreal.symm.trans ((hidle report rfl).preview hsuccess)
  · cases houtput.symm.trans hdue.output
    exact ⟨hsame hafter, fun _ => ⟨conversion, hafter ▸ hdue, hafter ▸ hplace⟩⟩
  · cases houtput.symm.trans hdue.output
    rw [← hbetween] at hsound hdue ⊢
    exact write_installs hkeeps hsafe hproper hsound hdue _

theorem convertInBatch_installs (hsound : tree.Sound)
    (houtput : outputPath source config.outputDirectory root = .ok output) :
    Installs config mode source root output tree (convertInBatch config mode source root tree).2
      (convertInBatch config mode source root tree).1.report.success := by
  have hconvert : Ensures (convertFile config mode source root) { tree } fun result after =>
      Installs config mode source root output tree after.tree
        (result.toOption.any Report.success) :=
    convertFile_installs hkeeps hsafe hproper hreal hsound houtput
  obtain ⟨result, after, hinstalls, htree, hreport⟩ := convertInBatch_ensures hconvert
  rw [htree]
  rcases hreport with ⟨report, rfl, hreport⟩ | ⟨fault, error, rfl, hreport⟩
  · rw [hreport]
    exact hinstalls
  · rw [hreport]
    exact hinstalls

end Installs

end InPlace

/-- Where a run may still overwrite files: not at the outputs that it has produced. -/
def Unclaimed (produced : Produced) (location : Location) : Prop :=
  Disposable location ∧ ∀ pair ∈ produced, pair.1 ≠ ⟨.root, location⟩

def AreOutputs (produced : Produced) : Prop :=
  ∀ pair ∈ produced, EndsIn ".erb" pair.1.parts

structure Rests (tree : FileTree) (batch : Batch) : Prop where
  tree : batch.tree = tree
  fault : batch.fault = none
  unchanged : ∀ step ∈ batch.steps,
    step.report.status = .unchanged ∧ step.report.written = false

section Runs

variable {config : Config} {mode : Mode} {root : Option Path} {tree : FileTree}

theorem outputPlace_eq_address (hlinks : tree.LinkFree) {source place : Path}
    (h : outputPlace config tree source root = .ok place) :
    ∃ output, outputPath source config.outputDirectory root = .ok output ∧
      place = ⟨.root, output.address tree.working⟩ := by
  obtain ⟨output, houtput, hresolve⟩ := outputPlace_eq_ok h
  exact ⟨output, houtput, (leadsTo_address hlinks output).resolve_eq hresolve⟩

/-- Without links, an output has the same place as long as the working directory is the same. -/
theorem outputPlace_later {after : FileTree} {source place : Path} (hlinks : tree.LinkFree)
    (hlinks' : after.LinkFree) (hworking : after.working = tree.working)
    (h : outputPlace config tree source root = .ok place) :
    outputPlace config after source root = .ok place := by
  obtain ⟨place', hplace'⟩ := (outputPlace_eq_ok_iff hlinks').mpr
    ((outputPlace_eq_ok_iff hlinks).mp ⟨place, h⟩)
  obtain ⟨output, houtput, rfl⟩ := outputPlace_eq_address hlinks h
  obtain ⟨output', houtput', rfl⟩ := outputPlace_eq_address hlinks' hplace'
  cases houtput.symm.trans houtput'
  rwa [hworking] at hplace'

theorem lookup_of_success {produced : Produced} {source place : Path}
    (h : (takeTurn config mode root tree produced source place).1.step.report.success = true) :
    produced.lookup place = none := by
  cases hlookup : produced.lookup place with
  | none => rfl
  | some earlier =>
      rw [takeTurn_of_earlier hlookup] at h
      cases h

/-- One conversion overwrites no output of an earlier one. -/
theorem Installs.unclaimed {source output : Path} {after : FileTree} {produced : Produced}
    {success : Bool} (h : Installs config mode source root output tree after success)
    (hproper : source.Proper)
    (houtput : outputPath source config.outputDirectory root = .ok output)
    (hproduced : AreOutputs produced)
    (hnew : produced.lookup ⟨.root, output.address tree.working⟩ = none) :
    Carries config.extension (Unclaimed produced) tree after := by
  obtain ⟨hends, htemporary⟩ := isWritten_output hproper houtput
  refine h.carries.mono ?_
  rintro location (rfl | rfl)
  · refine ⟨.inl (hends.ends _), fun pair hpair heq => ?_⟩
    have hother := List.lookup_eq_none_iff.mp hnew pair hpair
    rw [heq, bne_self_eq_false] at hother
    cases hother
  · refine ⟨.inr (htemporary.ends _), fun pair hpair heq => ?_⟩
    have herb := hproduced pair hpair
    rw [heq] at herb
    exact not_endsIn_temporary herb (htemporary.ends _)

/-- A run is at rest if its first output is in place and the rest of the run is at rest. -/
theorem rests_cons {produced : Produced} {source output place : Path} {rest : List Path}
    (hplace : outputPlace config tree source root = .ok place)
    (hnew : produced.lookup place = none) (h : InPlace config mode source root tree output)
    (hrest : Rests tree
      (convertQuietly config mode root tree (produced ++ [(place, source)]) rest)) :
    Rests tree (convertQuietly config mode root tree produced (source :: rest)) := by
  obtain ⟨htree, hstatus, hwritten⟩ := convertInBatch_of_inPlace h
  rw [convertQuietly_cons hplace, takeTurn_of_new hnew]
  dsimp only
  rw [htree]
  exact ⟨hrest.tree, hrest.fault, List.forall_mem_cons.mpr ⟨⟨hstatus, hwritten⟩, hrest.unchanged⟩⟩

variable (hkeeps : config.deleteSource = false) (hsafe : IsSafe config.extension)
  (hreal : mode.dryRun = false)

include hkeeps hsafe hreal

/-- A source that succeeds in its turn: its output is new, and whatever the run overwrites later,
the output stays in place. -/
theorem turn_succeeds {source place : Path} {produced : Produced} (hsound : tree.Sound)
    (hproper : source.Proper) (hproduced : AreOutputs produced)
    (hplace : outputPlace config tree source root = .ok place)
    (hnew : produced.lookup place = none)
    (hsuccess : (convertInBatch config mode source root tree).1.report.success = true) :
    let after := (convertInBatch config mode source root tree).2
    AreOutputs (produced ++ [(place, source)]) ∧
      Carries config.extension (Unclaimed produced) tree after ∧
      ∀ last, Carries config.extension (Unclaimed (produced ++ [(place, source)])) after last →
        ∃ output, InPlace config mode source root last output := by
  obtain ⟨output, houtput, rfl⟩ := outputPlace_eq_address hsound.linkFree hplace
  have hinstalls := convertInBatch_installs hkeeps hsafe hproper hreal hsound houtput
  have hcarries := hinstalls.unclaimed hproper houtput hproduced hnew
  refine ⟨?_, hcarries, fun last hlast => ⟨output, ?_⟩⟩
  · intro pair hpair
    cases List.mem_append.mp hpair with
    | inl hmem => exact hproduced pair hmem
    | inr hmem =>
        cases List.mem_singleton.mp hmem
        exact (isWritten_output hproper houtput).1.ends _
  · have hinPlace := hinstalls.inPlace hsuccess
    have hafter := hcarries.evolves.sound hsound
    obtain ⟨conversion, hdue, -⟩ := id hinPlace
    have hsource := isSource_of_isFile config.extension_dotted hafter hdue.extension hdue.isFile
    refine hinPlace.later hlast.evolves hafter ?_ ?_
    · exact fun hlost => hsource.not_disposable config.extension_dotted hsafe hlost.1
    · rw [hcarries.evolves.working]
      exact fun hlost =>
        hlost.2 _ (List.mem_append_right _ (List.mem_singleton_self _)) rfl

/-- A run in which every source succeeds leaves all outputs in place: the same run from there
changes nothing. -/
theorem convertQuietly_rests {sources : List Path} {produced : Produced} (hsound : tree.Sound)
    (hproper : ∀ source ∈ sources, source.Proper) (hproduced : AreOutputs produced)
    (hfault : (convertQuietly config mode root tree produced sources).fault = none)
    (hsuccess : ∀ step ∈ (convertQuietly config mode root tree produced sources).steps,
      step.report.success = true) :
    let last := (convertQuietly config mode root tree produced sources).tree
    Carries config.extension (Unclaimed produced) tree last ∧
      Rests last (convertQuietly config mode root last produced sources) := by
  induction sources generalizing tree produced with
  | nil => exact ⟨Carries.refl _ _ tree, rfl, rfl, List.forall_mem_nil _⟩
  | cons source rest ih =>
      obtain ⟨hsource, hrest⟩ := List.forall_mem_cons.mp hproper
      cases hplace : outputPlace config tree source root with
      | error fault =>
          rw [convertQuietly_cons_error hplace] at hfault
          cases hfault
      | ok place =>
          rw [convertQuietly_cons hplace] at hfault hsuccess ⊢
          obtain ⟨hfirst, hlater⟩ := List.forall_mem_cons.mp hsuccess
          have hnew := lookup_of_success hfirst
          rw [takeTurn_of_new hnew] at hfault hfirst hlater ⊢
          dsimp only at hfault hfirst hlater ⊢
          obtain ⟨houtputs, hcarries, hstays⟩ := turn_succeeds hkeeps hsafe hreal hsound hsource
            hproduced hplace hnew hfirst
          generalize convertInBatch config mode source root tree = first at *
          obtain ⟨step, between⟩ := first
          have hbetween := hcarries.evolves.sound hsound
          obtain ⟨hgoesOn, hrests⟩ := ih hbetween hrest houtputs hfault hlater
          -- from the last tree the source has its turn under the same earlier outputs, so it is
          -- not refused and comes to an output that nothing since has touched
          obtain ⟨output, hinPlace⟩ := hstays _ hgoesOn
          refine ⟨hcarries.trans (hgoesOn.mono fun location hunclaimed => ?_), ?_⟩
          · exact ⟨hunclaimed.1, fun pair hpair =>
              hunclaimed.2 pair (List.mem_append_left _ hpair)⟩
          · refine rests_cons (outputPlace_later hsound.linkFree ?_ ?_ hplace) hnew hinPlace hrests
            · exact (hgoesOn.evolves.sound hbetween).linkFree
            · exact hgoesOn.evolves.working.trans hcarries.evolves.working

theorem convertFiles_rests {sources : List Path} (hsound : tree.Sound)
    (hproper : ∀ source ∈ sources, source.Proper)
    (hfault : (convertFiles config mode sources root tree).fault = none)
    (hsuccess : ∀ report ∈ (convertFiles config mode sources root tree).reports,
      report.success = true) :
    Carries config.extension Disposable tree (convertFiles config mode sources root tree).tree ∧
      Rests (convertFiles config mode sources root tree).tree (convertFiles config mode sources
        root (convertFiles config mode sources root tree).tree) := by
  rw [convertFiles_reports, List.forall_mem_map] at hsuccess
  simp only [convertFiles_eq] at hfault hsuccess ⊢
  obtain ⟨hcarries, hrests⟩ := convertQuietly_rests hkeeps hsafe hreal hsound hproper
    (List.forall_mem_nil _) hfault hsuccess
  exact ⟨hcarries.mono fun _ => And.left, hrests⟩

end Runs

theorem convertFiles_filePaths {config : Config} {mode : Mode} {root : Option Path}
    {tree : FileTree} {sources : List Path}
    (h : (convertFiles config mode sources root tree).fault = none) :
    (convertFiles config mode sources root tree).reports.map (·.filePath) =
      sources.map Path.text := by
  obtain ⟨hsources, hpaths⟩ := convertQuietly_reported config mode root tree [] sources
  rw [convertFiles_eq] at h
  rw [convertQuietly_length h, List.take_length] at hsources
  rw [convertFiles_reports, convertFiles_eq, List.map_map]
  calc (convertQuietly config mode root tree [] sources).steps.map (·.report.filePath)
      = (convertQuietly config mode root tree [] sources).steps.map (·.source.text) :=
        List.map_congr_left hpaths
    _ = ((convertQuietly config mode root tree [] sources).steps.map (·.source)).map Path.text :=
        by rw [List.map_map]; rfl
    _ = sources.map Path.text := by rw [hsources]

section Directories

variable {config : Config} {mode : Mode} {tree : FileTree} {directory : String}

theorem exists_sources (hfault : (convertDirectory config mode directory tree).fault = none)
    (hsuccess : ∀ report ∈ (convertDirectory config mode directory tree).reports,
      report.success = true) :
    ∃ sources, findSources tree (.ofText directory) config.extension = .ok sources := by
  cases hfind : findSources tree (.ofText directory) config.extension with
  | ok sources => exact ⟨sources, rfl⟩
  | error trouble =>
      cases trouble with
      | fault fault =>
          rw [convertDirectory_of_fault hfind] at hfault
          cases hfault
      | failure failure =>
          rw [convertDirectory_of_failure hfind] at hsuccess
          cases hsuccess _ List.mem_cons_self

end Directories

/-- A second run tells of the same files as the first, and that it did not change them. -/
structure Confirms (first second : Batch) : Prop where
  filePaths : second.reports.map (·.filePath) = first.reports.map (·.filePath)
  unchanged : ∀ report ∈ second.reports,
    report.success = true ∧ report.status = .unchanged ∧ report.written = false

theorem Rests.confirms {config : Config} {mode : Mode} {root : Option Path} {tree : FileTree}
    {sources : List Path}
    (hfault : (convertFiles config mode sources root tree).fault = none)
    (h : Rests (convertFiles config mode sources root tree).tree (convertFiles config mode sources
      root (convertFiles config mode sources root tree).tree)) :
    Confirms (convertFiles config mode sources root tree)
      (convertFiles config mode sources root
        (convertFiles config mode sources root tree).tree) := by
  refine ⟨(convertFiles_filePaths h.fault).trans (convertFiles_filePaths hfault).symm, ?_⟩
  rw [convertFiles_reports, List.forall_mem_map]
  intro step hstep
  obtain ⟨hstatus, hwritten⟩ := h.unchanged step hstep
  exact ⟨by rw [Report.success, hstatus]; rfl, hstatus, hwritten⟩

/-- If all goes well in a run over a directory, the same run again changes nothing. It confirms
the first one, unless that made a directory which the scan cannot look at: then it fails. -/
theorem convertDirectory_repeats {config : Config} {mode : Mode} {tree : FileTree}
    (hsound : tree.Sound) (hkeeps : config.deleteSource = false) (hsafe : IsSafe config.extension)
    (hreal : mode.dryRun = false) (directory : String)
    (hsuccess : ∀ report ∈ (convertDirectory config mode directory tree).reports,
      report.success = true) :
    let first := convertDirectory config mode directory tree
    let second := convertDirectory config mode directory first.tree
    second.tree = first.tree ∧ second.fault = first.fault ∧
      (WithinReach (.ofText directory) tree first.tree → Confirms first second) ∧
      (¬ WithinReach (.ofText directory) tree first.tree →
        ∃ error, second.reports = [.failed directory .readError error]) := by
  dsimp only
  by_cases hfault : (convertDirectory config mode directory tree).fault = none
  · obtain ⟨sources, hfind⟩ := exists_sources hfault hsuccess
    have hfound := findSources_found hsound (Path.proper_ofText directory) hfind
    rw [convertDirectory_of_found hfind] at hfault hsuccess ⊢
    obtain ⟨hcarries, hrests⟩ := convertFiles_rests hkeeps hsafe hreal hsound
      (fun source hsource => (hfound source hsource).proper) hfault hsuccess
    obtain ⟨hagain, hfails⟩ := hcarries.rescans.findSources hsound
      (hcarries.evolves.sound hsound) hcarries.evolves.working hfind
    have hconfirms := Rests.confirms hfault hrests
    by_cases hreach : WithinReach (.ofText directory) tree
        (convertFiles config mode sources (some (.ofText directory)) tree).tree
    · rw [convertDirectory_of_found (hagain hreach)]
      exact ⟨hrests.tree, hrests.fault.trans hfault.symm, fun _ => hconfirms, absurd hreach⟩
    · obtain ⟨e, hfail⟩ := hfails hreach
      rw [convertDirectory_of_failure hfail]
      exact ⟨rfl, hfault.symm, fun h => absurd h hreach, fun _ => ⟨_, rfl⟩⟩
  · obtain ⟨hreports, htree⟩ := convertDirectory_fault hsound mode directory hfault
    rw [htree]
    refine ⟨htree, rfl, fun _ => ⟨rfl, by simp [hreports]⟩, fun hnot => absurd ?_ hnot⟩
    exact fun names hdirectory hnew => absurd hdirectory hnew

/-- A directory with a source that has a byte order mark and one in a directory of its own. -/
def nestedSources : FileTree :=
  ((((⟨[], []⟩ : FileTree).set ["d"] .directory).set ["d", "s"] .directory).set ["d", "a.slim"]
    (.file [239, 187, 191, 112, 13, 10, 112])).set ["d", "s", "b.SLIM"] (.file [112])

theorem nestedSources_sound : nestedSources.Sound := by
  refine (((Sound.empty.set ⟨?_, [], "d", rfl, by decide⟩ (by decide) (by simp)).set
    ⟨?_, ["d"], "s", rfl, by decide⟩ (by decide) (by simp)).set
    ⟨?_, ["d"], "a.slim", rfl, by decide⟩ (by decide) (by simp)).set
    ⟨?_, ["d", "s"], "b.SLIM", rfl, by decide⟩ (by decide) (by simp)
  all_goals simp [IsName, IsDots]

theorem findSources_nestedSources :
    findSources nestedSources (.ofText "d") ".slim" =
      .ok [.ofText "d/a.slim", .ofText "d/s/b.SLIM"] := by
  have hlocate : nestedSources.locate .target (.ofText "d") = .ok (.taken ["d"] .directory) := by
    rfl
  have hcollect : collectSources nestedSources (.ofText "d") ".slim" (nestedSources.below ["d"]) =
      .ok [.ofText "d/a.slim", .ofText "d/s/b.SLIM"] := by rfl
  rw [(findSources_of_locate hlocate).1 _ hcollect,
    List.mergeSort_of_pairwise (by decide +kernel)]

/-- Both outputs are written, with backups beside the sources, and found again. -/
theorem convertDirectory_repeats_nestedSources :
    let first := convertDirectory Config.standard ⟨false, false⟩ "d" nestedSources
    let second := convertDirectory Config.standard ⟨false, false⟩ "d" first.tree
    nestedSources.Sound ∧ IsSafe Config.standard.extension ∧
      first.reports.map (·.written) = [true, true] ∧ first.fault = none ∧
      second.tree = first.tree ∧ second.fault = none ∧ Confirms first second := by
  intro first second
  have hfirst : first = convertFiles Config.standard ⟨false, false⟩
      [.ofText "d/a.slim", .ofText "d/s/b.SLIM"] (some (.ofText "d")) nestedSources :=
    convertDirectory_of_found findSources_nestedSources
  have hfault : first.fault = none := by
    rw [hfirst]
    decide +kernel
  have hwritten : first.reports.map (·.written) = [true, true] := by
    rw [hfirst]
    decide +kernel
  have hsuccess : ∀ report ∈ first.reports, report.success = true := by
    rw [hfirst]
    decide +kernel
  have hreach : WithinReach (.ofText "d") nestedSources first.tree := by
    have hall : ∀ item ∈ first.tree.entries, item.2 = .directory →
        nestedSources.get? item.1 = some .directory := by
      rw [hfirst]
      decide +kernel
    intro names hdirectory hnew
    have hroot : Path.address nestedSources.working (.ofText "d") ++ names ≠ [] := by
      rintro heq
      rw [heq] at hnew
      exact hnew rfl
    exact absurd (hall _ (mem_entries_of_get? hroot hdirectory) rfl) hnew
  obtain ⟨htree, hsame, hconfirms, -⟩ := convertDirectory_repeats nestedSources_sound
    (by decide) (by decide) (by decide) "d" hsuccess
  exact ⟨nestedSources_sound, by decide, hwritten, hfault, htree, hsame.trans hfault,
    hconfirms hreach⟩

end SlimTemplate
