import SlimTemplate.Conversion.Batch
import SlimTemplate.Proofs.Conversion.Stages
import SlimTemplate.Proofs.Files.Placement

/-!
Runs taken apart. Each source has its turn: it is refused because its output was produced before,
or it is converted, which disturbs the files no more than the writing of one output does. The files
before and after each turn are those that shorter runs leave. A listener has no part in that: it
may only end a run early.
-/

namespace SlimTemplate

open FileTree Files SlimTemplate.Action ConvertFile

/-- A report that tells of an output in place is right about it, if no links are in the way. -/
structure Places (output : Path) (before : FileTree) (report : Report) (after : FileTree) :
    Prop where
  path : report.outputPath = some output.text
  directory : ∃ directory, LeadsTo before output.parent directory
  content : Plain before output → ∃ text, report.output = some text ∧
    after.get? (before.entryLocation output) = some (.file (Text.encode text))

/-- What one conversion does: it may fill free names and disturb the entries of its output, which
it comes to only if there is a directory for it. -/
structure Settles (output : Path) (before after : FileTree) : Prop where
  disturbs : Disturbs (before.entryLocation output) (before.entryLocation (temporaryOf output))
    before after
  reached : Fills before after ∨ ∃ directory, LeadsTo before output.parent directory

theorem Settles.refl (output : Path) (tree : FileTree) : Settles output tree tree :=
  ⟨Disturbs.refl _ _ tree, .inl (Fills.refl tree)⟩

/-- Unless the directory of an output is reached, nothing is written to it. -/
theorem settles_of_outcome {source output : Path} {content : Text.Bytes} {delete : Bool}
    {result : Except Trouble Written} {before after : FileTree} (hname : ¬ IsDots output.name)
    (h : WriteOutcome (fun _ => Fills before) source output content delete result after) :
    Settles output before after := by
  refine ⟨h.disturbs hname, ?_⟩
  have htemporary : ∀ {aim place} {tree : FileTree}, SameLinks before tree →
      tree.locate aim (temporaryOf output) = .ok place →
      ∃ directory, LeadsTo before output.parent directory := by
    intro aim place tree hsame hlocate
    obtain ⟨directory, hleads, -⟩ := locate_child
      (temporaryOf_name output ▸ not_isDots_temporaryName output) hlocate
    exact ⟨directory, hsame.leadsTo hleads⟩
  cases h with
  | failed hfills hwritten hcleared =>
      have hsame := written_sameLinks hfills hwritten
      cases hcleared with
      | inl heq =>
          cases hwritten with
          | inl heq' => exact .inl (heq ▸ heq' ▸ hfills)
          | inr hwrite =>
              obtain ⟨place, hlocate, -⟩ := writeFile_ok hwrite
              exact .inr (htemporary hfills.sameLinks hlocate)
      | inr hremove =>
          obtain ⟨location, entry, hlocate, -⟩ := removeFile_ok hremove
          exact .inr (htemporary hsame hlocate)
  | placed hfills hwrite _ _ | deleted _ hfills hwrite _ _ _ _ _ =>
      obtain ⟨place, hlocate, -⟩ := writeFile_ok hwrite
      exact .inr (htemporary hfills.sameLinks hlocate)

section Convert

variable {config : Config} {mode : Mode} {source output : Path} {root : Option Path}
  {tree : FileTree} {world : World}

theorem write_settles (houtput : outputPath source config.outputDirectory root = .ok output)
    {report : Report} {text : String} (htext : report.output = some text)
    (hwritten : report.written = false) :
    Ensures (write config source root text report) world fun result after =>
      Settles output world.tree after.tree ∧
        ∀ other, result = .ok other → other.written = true →
          Places output world.tree other after.tree := by
  have hname := not_isDots_outputName houtput
  rw [write]
  refine ensures_bind.mpr (ensures_attempt.mpr ?_)
  refine (writeOutput_outcome houtput (fills_prepares world.tree config.createBackup source output)
    (Fills.refl world.tree) text config.deleteSource).mono fun result after houtcome => ?_
  have hsettles := settles_of_outcome hname houtcome
  cases result with
  | error trouble =>
      cases trouble with
      | fault fault => exact ⟨hsettles, by simp⟩
      | failure failure =>
          refine ⟨hsettles, fun other hother htrue => ?_⟩
          cases hother
          rw [hwritten] at htrue
          cases htrue
  | ok written =>
      refine ⟨hsettles, fun other hother _ => ?_⟩
      cases hother
      have hdirectory : ∃ directory, LeadsTo world.tree output.parent directory := by
        cases houtcome with
        | placed hfills hwrite hplaced _ | deleted _ hfills hwrite hplaced _ _ _ _ =>
            exact (rename_eq_set (written_sameLinks hfills (.inr hwrite)) hname hplaced).1
      have hsame : written.output = output := by
        cases houtcome with
        | placed _ _ _ hresult => exact congrArg Written.output (hresult written rfl)
        | deleted => rfl
      exact ⟨congrArg (some ∘ Path.text) hsame, hdirectory, fun hplain =>
        ⟨text, htext, houtcome.holds hplain hname⟩⟩

theorem convertFile_settles (config : Config) (mode : Mode) (root : Option Path) (world : World)
    (houtput : outputPath source config.outputDirectory root = .ok output) :
    Ensures (convertFile config mode source root) world fun result after =>
      Settles output world.tree after.tree ∧
        ∀ report, result = .ok report → report.written = true →
          Places output world.tree report after.tree := by
  have hsame : ∀ {result : Except Fault Report} {after : World}, after.tree = world.tree →
      (∀ report, result = .ok report → report.written = false) →
      Settles output world.tree after.tree ∧ ∀ report, result = .ok report →
        report.written = true → Places output world.tree report after.tree := by
    intro result after hafter hnot
    refine ⟨hafter ▸ Settles.refl output world.tree, fun report hreport hwritten => ?_⟩
    rw [hnot report hreport] at hwritten
    cases hwritten
  refine convertFile_ensures_of ⟨fun result after hafter hidle _ => ?_,
    fun conversion found after hafter _ _ => ?_,
    fun conversion found between hbetween hdue _ => ?_⟩
  · exact hsame hafter fun report hreport => (hidle report hreport).written
  · refine hsame hafter fun report hreport => ?_
    cases hreport
    rfl
  · cases houtput.symm.trans hdue.output
    rw [← hbetween]
    exact write_settles houtput rfl rfl

/-- Every report on a source names it. -/
theorem convertFile_filePath (config : Config) (mode : Mode) (source : Path) (root : Option Path)
    (world : World) :
    Ensures (convertFile config mode source root) world fun result _ =>
      ∀ report, result = .ok report → report.filePath = source.text := by
  refine convertFile_ensures_of ⟨fun result after _ hidle _ report hreport => ?_,
    fun conversion output after _ _ _ report hreport => ?_,
    fun conversion output between _ _ _ => ?_⟩
  · exact (hidle report hreport).filePath
  · cases hreport
    rfl
  · rw [write]
    refine ensures_bind.mpr (ensures_attempt.mpr (ensures_of_forall fun result after => ?_))
    cases result with
    | ok written =>
        intro report hreport
        cases hreport
        rfl
    | error trouble =>
        cases trouble with
        | fault fault => simp
        | failure failure =>
            intro report hreport
            cases hreport
            rfl

/-- What a conversion ensures holds of it in a run, where a fault is reported as a failure. -/
theorem convertInBatch_ensures {post : Except Fault Report → World → Prop}
    (h : Ensures (convertFile config mode source root) { tree } post) :
    ∃ result after, post result after ∧
      (convertInBatch config mode source root tree).2 = after.tree ∧
      ((∃ report, result = .ok report ∧
          (convertInBatch config mode source root tree).1.report = report) ∨
        ∃ fault error, result = .error fault ∧
          (convertInBatch config mode source root tree).1.report =
            .failed source.text .engineError error) := by
  rw [Ensures] at h
  rw [convertInBatch, Action.start]
  generalize (convertFile config mode source root).run.run { tree } = run at h ⊢
  obtain ⟨result, world⟩ := run
  refine ⟨result, world, h, ?_⟩
  cases result with
  | ok report => exact ⟨rfl, .inl ⟨report, rfl, rfl⟩⟩
  | error fault => exact ⟨rfl, .inr ⟨fault, _, rfl, rfl⟩⟩

theorem convertInBatch_settles (config : Config) (mode : Mode) (root : Option Path)
    (tree : FileTree) (houtput : outputPath source config.outputDirectory root = .ok output) :
    Settles output tree (convertInBatch config mode source root tree).2 ∧
      ((convertInBatch config mode source root tree).1.report.written = true →
        Places output tree (convertInBatch config mode source root tree).1.report
          (convertInBatch config mode source root tree).2) := by
  obtain ⟨result, after, ⟨hsettles, hplaces⟩, htree, hreport⟩ :=
    convertInBatch_ensures (convertFile_settles config mode root { tree } houtput)
  rw [htree]
  rcases hreport with ⟨report, rfl, hreport⟩ | ⟨fault, error, rfl, hreport⟩
  · rw [hreport]
    exact ⟨hsettles, hplaces report rfl⟩
  · rw [hreport]
    exact ⟨hsettles, fun hwritten => by cases hwritten⟩

theorem convertInBatch_filePath (config : Config) (mode : Mode) (source : Path)
    (root : Option Path) (tree : FileTree) :
    (convertInBatch config mode source root tree).1.report.filePath = source.text := by
  obtain ⟨result, after, hpath, -, hreport⟩ :=
    convertInBatch_ensures (convertFile_filePath config mode source root { tree })
  rcases hreport with ⟨report, rfl, hreport⟩ | ⟨fault, error, rfl, hreport⟩
  · rw [hreport]
    exact hpath report rfl
  · rw [hreport]
    rfl

end Convert

section Turns

theorem outputPlace_eq_ok {config : Config} {tree : FileTree} {source place : Path}
    {root : Option Path} (h : outputPlace config tree source root = .ok place) :
    ∃ output, outputPath source config.outputDirectory root = .ok output ∧
      tree.resolve output = .ok place := by
  rw [outputPlace] at h
  split at h
  · cases h
  rename_i output houtput
  split at h <;> cases h
  exact ⟨output, houtput, ‹_›⟩

variable {config : Config} {mode : Mode} {root : Option Path} {tree : FileTree}
  {produced : Produced} {source : Path} {sources : List Path}

theorem convertInBatch_source (config : Config) (mode : Mode) (source : Path) (root : Option Path)
    (tree : FileTree) : (convertInBatch config mode source root tree).1.source = source := by
  rw [convertInBatch]
  generalize (convertFile config mode source root).start tree = run
  obtain ⟨result, world⟩ := run
  cases result with
  | ok report | error fault => rfl

/-- A run that nobody listens to, given the outputs of earlier sources. -/
def convertQuietly (config : Config) (mode : Mode) (root : Option Path) (tree : FileTree)
    (produced : Produced) : List Path → Batch
  | [] => { tree }
  | source :: rest =>
      match outputPlace config tree source root with
      | .error fault => { tree, fault := some fault }
      | .ok place =>
          let first := takeTurn config mode root tree produced source place
          let batch := convertQuietly config mode root first.1.after first.2 rest
          { batch with steps := first.1.step :: batch.steps }

def turns (config : Config) (mode : Mode) (root : Option Path) (tree : FileTree)
    (produced : Produced) : List Path → List Turn
  | [] => []
  | source :: rest =>
      match outputPlace config tree source root with
      | .error _ => []
      | .ok place =>
          let (turn, produced) := takeTurn config mode root tree produced source place
          turn :: turns config mode root turn.after produced rest

theorem takeTurn_of_earlier {place earlier : Path} (h : produced.lookup place = some earlier) :
    takeTurn config mode root tree produced source place =
      (⟨tree, refusal place earlier source, tree⟩, produced) := by
  rw [takeTurn, h]

theorem takeTurn_of_new {place : Path} (h : produced.lookup place = none) :
    takeTurn config mode root tree produced source place =
      (⟨tree, (convertInBatch config mode source root tree).1,
        (convertInBatch config mode source root tree).2⟩, produced ++ [(place, source)]) := by
  rw [takeTurn, h]

theorem takeTurn_first (config : Config) (mode : Mode) (root : Option Path) (tree : FileTree)
    (produced : Produced) (source place : Path) :
    (takeTurn config mode root tree produced source place).1.before = tree ∧
      (takeTurn config mode root tree produced source place).1.step.source = source := by
  cases hlookup : produced.lookup place with
  | some earlier =>
      rw [takeTurn_of_earlier hlookup]
      exact ⟨rfl, rfl⟩
  | none =>
      rw [takeTurn_of_new hlookup]
      dsimp only
      exact ⟨rfl, convertInBatch_source config mode source root tree⟩

theorem convertQuietly_cons {place : Path}
    (hplace : outputPlace config tree source root = .ok place) (rest : List Path) :
    let first := takeTurn config mode root tree produced source place
    let batch := convertQuietly config mode root first.1.after first.2 rest
    convertQuietly config mode root tree produced (source :: rest) =
      { batch with steps := first.1.step :: batch.steps } := by
  rw [convertQuietly, hplace]

theorem convertQuietly_cons_error {fault : Fault}
    (hplace : outputPlace config tree source root = .error fault) (rest : List Path) :
    convertQuietly config mode root tree produced (source :: rest) =
      { tree, fault := some fault } := by
  rw [convertQuietly, hplace]

theorem turns_cons {place : Path} (hplace : outputPlace config tree source root = .ok place)
    (rest : List Path) :
    turns config mode root tree produced (source :: rest) =
      (takeTurn config mode root tree produced source place).1 ::
        turns config mode root (takeTurn config mode root tree produced source place).1.after
          (takeTurn config mode root tree produced source place).2 rest := by
  rw [turns, hplace]

theorem turns_cons_error {fault : Fault}
    (hplace : outputPlace config tree source root = .error fault) (rest : List Path) :
    turns config mode root tree produced (source :: rest) = [] := by
  rw [turns, hplace]

theorem convertQuietly_steps (config : Config) (mode : Mode) (root : Option Path) (tree : FileTree)
    (produced : Produced) (sources : List Path) :
    (convertQuietly config mode root tree produced sources).steps =
      (turns config mode root tree produced sources).map Turn.step := by
  induction sources generalizing tree produced with
  | nil => rfl
  | cons source rest ih =>
      cases hplace : outputPlace config tree source root with
      | error fault =>
          rw [convertQuietly_cons_error hplace, turns_cons_error hplace]
          rfl
      | ok place =>
          rw [convertQuietly_cons hplace, turns_cons hplace, List.map_cons, ← ih]

/-- The files that a turn finds and leaves are those that shorter runs leave. -/
theorem turns_getElem? {i : Nat} {turn : Turn}
    (h : (turns config mode root tree produced sources)[i]? = some turn) :
    turn.before = (convertQuietly config mode root tree produced (sources.take i)).tree ∧
      turn.after = (convertQuietly config mode root tree produced (sources.take (i + 1))).tree ∧
      sources[i]? = some turn.step.source := by
  induction sources generalizing tree produced i with
  | nil => simp [turns] at h
  | cons source rest ih =>
      cases hplace : outputPlace config tree source root with
      | error fault => simp [turns_cons_error hplace] at h
      | ok place =>
          rw [turns_cons hplace] at h
          have hfirst := takeTurn_first config mode root tree produced source place
          cases i with
          | zero =>
              cases h
              rw [List.take_succ_cons, List.take_zero, convertQuietly_cons hplace]
              exact ⟨hfirst.1, rfl, congrArg some hfirst.2.symm⟩
          | succ i =>
              rw [List.getElem?_cons_succ] at h
              rw [List.take_succ_cons, List.take_succ_cons, convertQuietly_cons hplace,
                convertQuietly_cons hplace, List.getElem?_cons_succ]
              exact ih h

theorem takeTurn_filePath (config : Config) (mode : Mode) (root : Option Path) (tree : FileTree)
    (produced : Produced) (source place : Path) :
    (takeTurn config mode root tree produced source place).1.step.report.filePath =
      source.text := by
  cases hlookup : produced.lookup place with
  | some earlier =>
      rw [takeTurn_of_earlier hlookup]
      rfl
  | none =>
      rw [takeTurn_of_new hlookup]
      dsimp only
      exact convertInBatch_filePath config mode source root tree

/-- A turn makes no links where there are none. -/
theorem takeTurn_linkFree {place : Path} (hplace : outputPlace config tree source root = .ok place)
    (hlinks : tree.LinkFree) :
    (takeTurn config mode root tree produced source place).1.after.LinkFree := by
  obtain ⟨output, houtput, -⟩ := outputPlace_eq_ok hplace
  cases hlookup : produced.lookup place with
  | some earlier =>
      rw [takeTurn_of_earlier hlookup]
      exact hlinks
  | none =>
      rw [takeTurn_of_new hlookup]
      dsimp only
      have hsettles := (convertInBatch_settles config mode root tree houtput).1
      intro location target hlink
      cases hsettles.disturbs.links location target hlink with
      | inl hold => exact hlinks location target hold
      | inr hmoved => exact hlinks _ target hmoved.2

/-- A fault ends a run exactly if the output of some source cannot be resolved in its turn. -/
theorem convertQuietly_fault_eq_none_iff (config : Config) (mode : Mode) (root : Option Path)
    (tree : FileTree) (produced : Produced) (sources : List Path) :
    (convertQuietly config mode root tree produced sources).fault = none ↔
      ∀ i source, sources[i]? = some source → ∃ place, outputPlace config
        (convertQuietly config mode root tree produced (sources.take i)).tree source root =
          .ok place := by
  induction sources generalizing tree produced with
  | nil => simp [convertQuietly]
  | cons source rest ih =>
      cases hplace : outputPlace config tree source root with
      | error fault =>
          rw [convertQuietly_cons_error hplace]
          refine iff_of_false (by simp) fun hall => ?_
          obtain ⟨place, hok⟩ := hall 0 source rfl
          cases hplace.symm.trans hok
      | ok place =>
          rw [convertQuietly_cons hplace]
          refine (ih _ _).trans ⟨fun hall i => ?_, fun hall i => ?_⟩
          · cases i with
            | zero =>
                rintro _ ⟨⟩
                exact ⟨place, hplace⟩
            | succ i =>
                rw [List.getElem?_cons_succ, List.take_succ_cons, convertQuietly_cons hplace]
                exact hall i
          · have hlater := hall (i + 1)
            rw [List.getElem?_cons_succ, List.take_succ_cons, convertQuietly_cons hplace] at hlater
            exact hlater

/-- The fault that ends a run is that of the first source without a report. -/
theorem convertQuietly_fault_eq_some {fault : Fault}
    (h : (convertQuietly config mode root tree produced sources).fault = some fault) :
    let reached := (convertQuietly config mode root tree produced sources).steps.length
    ∃ source, sources[reached]? = some source ∧ outputPlace config
      (convertQuietly config mode root tree produced (sources.take reached)).tree source root =
        .error fault := by
  induction sources generalizing tree produced with
  | nil => cases h
  | cons source rest ih =>
      cases hplace : outputPlace config tree source root with
      | error other =>
          rw [convertQuietly_cons_error hplace] at h ⊢
          cases h
          exact ⟨source, rfl, hplace⟩
      | ok place =>
          rw [convertQuietly_cons hplace] at h ⊢
          dsimp only at h ⊢
          rw [List.length_cons, List.getElem?_cons_succ, List.take_succ_cons,
            convertQuietly_cons hplace]
          exact ih h

/-- The sources that a run has come to are reported on in order, each under its own path. -/
theorem convertQuietly_reported (config : Config) (mode : Mode) (root : Option Path)
    (tree : FileTree) (produced : Produced) (sources : List Path) :
    let steps := (convertQuietly config mode root tree produced sources).steps
    steps.map (·.source) = sources.take steps.length ∧
      ∀ step ∈ steps, step.report.filePath = step.source.text := by
  induction sources generalizing tree produced with
  | nil => exact ⟨rfl, List.forall_mem_nil _⟩
  | cons source rest ih =>
      cases hplace : outputPlace config tree source root with
      | error fault =>
          rw [convertQuietly_cons_error hplace]
          exact ⟨rfl, List.forall_mem_nil _⟩
      | ok place =>
          rw [convertQuietly_cons hplace]
          have hsource := (takeTurn_first config mode root tree produced source place).2
          have hpath := takeTurn_filePath config mode root tree produced source place
          generalize takeTurn config mode root tree produced source place = first at hsource hpath ⊢
          obtain ⟨hrest, hpaths⟩ := ih first.1.after first.2
          dsimp only
          rw [List.map_cons, List.length_cons, List.take_succ_cons, hsource, hrest]
          exact ⟨rfl, List.forall_mem_cons.mpr ⟨by rw [hpath, hsource], hpaths⟩⟩

/-- A run that no fault ends reports on every source. -/
theorem convertQuietly_length
    (h : (convertQuietly config mode root tree produced sources).fault = none) :
    (convertQuietly config mode root tree produced sources).steps.length = sources.length := by
  induction sources generalizing tree produced with
  | nil => rfl
  | cons source rest ih =>
      cases hplace : outputPlace config tree source root with
      | error fault =>
          rw [convertQuietly_cons_error hplace] at h
          cases h
      | ok place =>
          rw [convertQuietly_cons hplace] at h ⊢
          exact congrArg (· + 1) (ih h)

end Turns

/-! Listeners. -/

/-- Tells a listener one thing after the other, up to the first at which it fails. -/
def tellAll {σ : Type} (listener : Listener σ) : List Notice → σ → σ × Except Fault Unit
  | [], heard => (heard, .ok ())
  | notice :: rest, heard =>
      match listener notice heard with
      | (heard, .error fault) => (heard, .error fault)
      | (heard, .ok ()) => tellAll listener rest heard

/-- What there is to tell of sources and their reports, after those that are done. -/
def notices (total done : Nat) (reported : List (Path × Report)) : List Notice :=
  reported.mapIdx fun i pair => ⟨done + i + 1, total, pair.1, pair.2⟩

theorem notices_cons (total done : Nat) (pair : Path × Report) (rest : List (Path × Report)) :
    notices total done (pair :: rest) =
      ⟨done + 1, total, pair.1, pair.2⟩ :: notices total (done + 1) rest := by
  rw [notices, List.mapIdx_cons, notices]
  simp only [Nat.add_zero, Nat.add_assoc, Nat.add_comm 1]

def Batch.reported (batch : Batch) : List (Path × Report) :=
  batch.steps.map fun step => (step.source, step.report)

theorem Batch.reported_cons (batch : Batch) (step : Step) :
    Batch.reported { batch with steps := step :: batch.steps } =
      (step.source, step.report) :: batch.reported :=
  rfl

section Listeners

variable {σ : Type} {listener : Listener σ} {notice : Notice} {heard later : σ}

theorem tellAll_cons_ok (h : listener notice heard = (later, .ok ())) (rest : List Notice) :
    tellAll listener (notice :: rest) heard = tellAll listener rest later := by
  rw [tellAll, h]

theorem tellAll_cons_error {fault : Fault} (h : listener notice heard = (later, .error fault))
    (rest : List Notice) : tellAll listener (notice :: rest) heard = (later, .error fault) := by
  rw [tellAll, h]

/-- A run as against the same one that nobody listens to: it tells of its steps, and goes on as long
as the listener does not fail. -/
structure Listened (listener : Listener σ) (total done : Nat) (heard : σ) (quiet : Batch)
    (run : Batch × σ) : Prop where
  steps : run.1.steps <+: quiet.steps
  told : run.2 = (tellAll listener (notices total done run.1.reported) heard).1
  heeded : ∀ i < run.1.steps.length,
    (tellAll listener ((notices total done run.1.reported).take i) heard).2 = .ok ()
  whole : (tellAll listener (notices total done run.1.reported) heard).2 = .ok () → run.1 = quiet
  broken : ∀ fault, (tellAll listener (notices total done run.1.reported) heard).2 = .error fault →
    run.1.fault = some fault

theorem Listened.refl (listener : Listener σ) (total done : Nat) (heard : σ) {quiet : Batch}
    (h : quiet.steps = []) : Listened listener total done heard quiet (quiet, heard) := by
  constructor
  · exact List.prefix_refl _
  · rw [Batch.reported, h]
    rfl
  · simp [h]
  · exact fun _ => rfl
  · simp [Batch.reported, h, notices, tellAll]

/-- The listener fails when it hears of a step. -/
theorem Listened.stop {total done : Nat} {step : Step} {fault : Fault}
    (hfails : listener ⟨done + 1, total, step.source, step.report⟩ heard = (later, .error fault))
    (quiet : Batch) (tree : FileTree) :
    Listened listener total done heard { quiet with steps := step :: quiet.steps }
      ({ tree, steps := [step], fault := some fault }, later) := by
  have htold : tellAll listener (notices total done [(step.source, step.report)]) heard =
      (later, .error fault) := by
    rw [notices_cons, tellAll_cons_error hfails]
  constructor
  · exact (List.prefix_cons_inj step).mpr List.nil_prefix
  · exact (congrArg Prod.fst htold).symm
  · intro i hi
    obtain rfl := Nat.lt_one_iff.mp hi
    rfl
  · intro hok
    cases (congrArg Prod.snd htold).symm.trans hok
  · intro other hother
    cases (congrArg Prod.snd htold).symm.trans hother
    rfl

/-- The listener hears of a step, and then of those after it. -/
theorem Listened.cons {total done : Nat} {quiet : Batch} {run : Batch × σ} {step : Step}
    (htold : listener ⟨done + 1, total, step.source, step.report⟩ heard = (later, .ok ()))
    (h : Listened listener total (done + 1) later quiet run) :
    Listened listener total done heard { quiet with steps := step :: quiet.steps }
      ({ run.1 with steps := step :: run.1.steps }, run.2) := by
  have htell (rest : List (Path × Report)) :
      tellAll listener (notices total done ((step.source, step.report) :: rest)) heard =
        tellAll listener (notices total (done + 1) rest) later := by
    rw [notices_cons, tellAll_cons_ok htold]
  constructor
  · exact (List.prefix_cons_inj step).mpr h.steps
  · rw [Batch.reported_cons, htell]
    exact h.told
  · intro i hi
    rw [Batch.reported_cons]
    cases i with
    | zero => rfl
    | succ i =>
        rw [notices_cons, List.take_succ_cons, tellAll_cons_ok htold]
        exact h.heeded i (Nat.lt_of_succ_lt_succ hi)
  · intro hok
    rw [Batch.reported_cons, htell] at hok
    rw [h.whole hok]
  · intro fault hfault
    rw [Batch.reported_cons, htell] at hfault
    exact h.broken fault hfault

theorem convertEach_listened (listener : Listener σ) (config : Config) (mode : Mode)
    (root : Option Path) (total done : Nat) (heard : σ) (tree : FileTree) (produced : Produced)
    (sources : List Path) :
    let run := convertEach config mode root
      (fun processed source report => listener ⟨processed, total, source, report⟩)
      tree produced done heard sources
    Listened listener total done heard (convertQuietly config mode root tree produced sources) run ∧
      run.1.tree =
        (convertQuietly config mode root tree produced (sources.take run.1.steps.length)).tree ∧
      run.1.otherReports = [] := by
  induction sources generalizing tree produced done heard with
  | nil => exact ⟨Listened.refl listener total done heard rfl, rfl, rfl⟩
  | cons source rest ih =>
      rw [convertEach]
      cases hplace : outputPlace config tree source root with
      | error fault =>
          rw [convertQuietly_cons_error hplace]
          exact ⟨Listened.refl listener total done heard rfl, rfl, rfl⟩
      | ok place =>
          have hquiet := @convertQuietly_cons config mode root tree produced source place hplace
          have hsource := (takeTurn_first config mode root tree produced source place).2
          dsimp only at hquiet ⊢
          simp only [hquiet]
          generalize takeTurn config mode root tree produced source place = first
            at hquiet hsource ⊢
          obtain ⟨turn, outputs⟩ := first
          subst hsource
          cases htold : listener ⟨done + 1, total, turn.step.source, turn.step.report⟩ heard with
          | mk later ending =>
              cases ending with
              | error fault =>
                  refine ⟨Listened.stop htold _ _, ?_, rfl⟩
                  exact (congrArg Batch.tree (hquiet [])).symm
              | ok _ =>
                  obtain ⟨hlistened, htree, hothers⟩ := ih (done + 1) later turn.after outputs
                  refine ⟨hlistened.cons htold, ?_, hothers⟩
                  dsimp only
                  rw [List.length_cons, List.take_succ_cons, hquiet]
                  exact htree

theorem tellAll_silent (told : List Notice) : (tellAll .silent told ()).2 = .ok () := by
  induction told with
  | nil => rfl
  | cons notice rest ih => exact ih

theorem convertFiles_eq (config : Config) (mode : Mode) (sources : List Path) (root : Option Path)
    (tree : FileTree) :
    convertFiles config mode sources root tree = convertQuietly config mode root tree [] sources :=
  (convertEach_listened .silent config mode root sources.length 0 () tree [] sources).1.whole
    (tellAll_silent _)

end Listeners

/-- The files when the source with a number has its turn in a run. -/
def filesAt (config : Config) (mode : Mode) (root : Option Path) (sources : List Path)
    (tree : FileTree) (i : Nat) : FileTree :=
  (convertFiles config mode (sources.take i) root tree).tree

theorem exists_turn {config : Config} {mode : Mode} {root : Option Path} {sources : List Path}
    {tree : FileTree} {i : Nat} {step : Step}
    (h : (convertFiles config mode sources root tree).steps[i]? = some step) :
    (turns config mode root tree [] sources)[i]? =
      some ⟨filesAt config mode root sources tree i, step,
        filesAt config mode root sources tree (i + 1)⟩ := by
  rw [convertFiles_eq, convertQuietly_steps, List.getElem?_map] at h
  obtain ⟨turn, hturn, rfl⟩ := Option.map_eq_some_iff.mp h
  obtain ⟨hbefore, hafter, -⟩ := turns_getElem? hturn
  rw [filesAt, filesAt, convertFiles_eq, convertFiles_eq, ← hbefore, ← hafter]
  exact hturn

end SlimTemplate
