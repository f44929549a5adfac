import SlimTemplate.Command.Run
import SlimTemplate.Proofs.Conversion.Repetition
import SlimTemplate.Proofs.Text.Lowercase

/-!
Commands that do not write. A preview and a dry run stop short of writing at every source, and a run
over several sources that is not agreed to does not even start. So such a command leaves the files
as they are, whatever the configuration says and however the command ends.
-/

namespace SlimTemplate

open FileTree Files SlimTemplate.Action ConvertFile

section DryRun

variable {mode : Mode} (hdry : mode.dryRun = true) (config : Config) (root : Option Path)

include hdry

theorem convertFile_dryRun (source : Path) (world : World) :
    Ensures (convertFile config mode source root) world fun _ after =>
      after.tree = world.tree := by
  refine convertFile_ensures_of ⟨?_, ?_, ?_⟩
  · intro result after htree _ _
    exact htree
  · intro conversion output after htree _ _
    exact htree
  · intro conversion output between _ hdue _
    cases hdry.symm.trans hdue.real

theorem takeTurn_dryRun (tree : FileTree) (produced : Produced) (source place : Path) :
    (takeTurn config mode root tree produced source place).1.after = tree := by
  cases hlookup : produced.lookup place with
  | some earlier => rw [takeTurn_of_earlier hlookup]
  | none =>
      obtain ⟨result, after, htree, hafter, -⟩ :=
        convertInBatch_ensures (convertFile_dryRun hdry config root source { tree })
      rw [takeTurn_of_new hlookup]
      dsimp only
      rw [hafter, htree]

theorem convertQuietly_dryRun (tree : FileTree) (produced : Produced) (sources : List Path) :
    (convertQuietly config mode root tree produced sources).tree = tree := by
  induction sources generalizing produced with
  | nil => rfl
  | cons source rest ih =>
      cases hplace : outputPlace config tree source root with
      | error fault => rw [convertQuietly_cons_error hplace]
      | ok place =>
          rw [convertQuietly_cons hplace, takeTurn_dryRun hdry]
          exact ih _

theorem convertFilesTelling_dryRun {σ : Type} (listener : Listener σ) (heard : σ)
    (sources : List Path) (tree : FileTree) :
    (convertFilesTelling listener heard config mode sources root tree).1.tree = tree := by
  obtain ⟨-, htree, -⟩ :=
    convertEach_listened listener config mode root sources.length 0 heard tree [] sources
  exact htree.trans (convertQuietly_dryRun hdry config root tree [] _)

end DryRun

namespace Command

theorem viewEach_tree (threshold : Level) (arguments : Arguments) (config : Config)
    (root : Option Path) (viewing : Viewing) (sources : List Path) :
    (viewEach threshold arguments config root viewing sources).1.tree = viewing.tree := by
  induction sources generalizing viewing with
  | nil => rfl
  | cons source rest ih =>
      have hmode : (⟨true, true⟩ : Mode).dryRun = true := rfl
      have htree := (convertFile_dryRun hmode config root source { tree := viewing.tree }).start
      rw [viewEach]
      generalize (convertFile config ⟨true, true⟩ source root).start viewing.tree = run at htree ⊢
      obtain ⟨result, world⟩ := run
      cases result with
      | error fault => exact htree
      | ok report =>
          dsimp only
          cases previewEvent world.tree arguments config root source report with
          | error fault => exact htree
          | ok event => exact (ih _).trans htree

theorem runPreview_tree (tree : FileTree) (memory : Yaml.Memory) (threshold : Level)
    (arguments : Arguments) : (runPreview tree memory threshold arguments).tree = tree := by
  rw [runPreview]
  dsimp only
  cases (prepare tree memory threshold arguments).outcome with
  | error ending => rfl
  | ok prepared =>
      obtain ⟨settings, sources⟩ := prepared
      dsimp only
      split
      · rfl
      · rename_i config root _
        have htree := viewEach_tree threshold arguments config root
          { tree, events := (prepare tree memory threshold arguments).events ++
            Screen.logged threshold (Config.warnings settings) } sources
        generalize viewEach threshold arguments config root _ sources = run at htree ⊢
        obtain ⟨viewing, fault⟩ := run
        cases fault with
        | none => exact htree
        | some fault => exact htree

theorem convertTargets_dryRun (tree : FileTree) (memory : Yaml.Memory) (threshold : Level)
    {arguments : Arguments} (hdry : arguments.dryRun = true) (settings : Settings)
    (sources : List Path) :
    (convertTargets tree memory threshold arguments settings sources).tree = tree := by
  rw [convertTargets]
  dsimp only
  split
  · rfl
  · rename_i config root existing _
    have hmode : (⟨arguments.dryRun, arguments.force⟩ : Mode).dryRun = true := hdry
    have htree := convertFilesTelling_dryRun hmode config root (showFile existing)
      { progress := .start sources.length "Converting Slim files..." } sources tree
    split
    · exact htree
    · exact htree

theorem gather_eq_ok {tree : FileTree} {path : Path} {loaded : Except Trouble Settings}
    {settings : Settings} {extension : String} {found : List Path}
    (h : gather tree path loaded = .ok (settings, extension, found)) :
    loaded = .ok settings ∧ settings.extension.characters = .ok extension ∧
      targets tree path extension = .ok found := by
  cases loaded with
  | error trouble => cases h
  | ok settings =>
      simp only [gather, bind, Except.bind] at h
      cases hextension : settings.extension.characters with
      | error e =>
          rw [hextension] at h
          cases h
      | ok extension =>
          rw [hextension] at h
          dsimp only [Except.mapError] at h
          cases htargets : targets tree path extension with
          | error trouble =>
              rw [htargets] at h
              cases h
          | ok found =>
              rw [htargets] at h
              cases h
              exact ⟨rfl, hextension, htargets⟩

theorem prepare_eq_ok {tree : FileTree} {memory : Yaml.Memory} {threshold : Level}
    {arguments : Arguments} {settings : Settings} {found : List Path}
    (h : (prepare tree memory threshold arguments).outcome = .ok (settings, found)) :
    ∃ extension, (loadSettings tree memory arguments).outcome = .ok settings ∧
      settings.extension.characters = .ok extension ∧
      targets tree (.ofText arguments.path) extension = .ok found := by
  have hstop : ∀ events memory trouble,
      (Preparation.stop events memory trouble).outcome ≠ .ok (settings, found) := by
    intro events memory trouble
    cases trouble <;> exact nofun
  rw [prepare] at h
  dsimp only at h
  split at h
  · exact absurd h (hstop _ _ _)
  · cases h
  · split at h
    · exact absurd h (hstop _ _ _)
    · cases h
    · rename_i extension _ _ hgather
      cases h
      exact ⟨extension, gather_eq_ok hgather⟩

def Agrees (answers : List Answer) : Prop :=
  answers.head? = some (some "y") ∨ answers.head? = some (some "Y")

theorem confirm_ne_true {arguments : Arguments} {count : Nat} {answers : List Answer}
    (hdry : arguments.dryRun = false) (hyes : arguments.yes = false) (hmany : 1 < count)
    (hanswers : ¬ Agrees answers) : (confirm arguments count answers).2 ≠ .ok true := by
  rw [confirm, hdry, hyes, if_neg (by simpa using hmany)]
  cases answers with
  | nil => exact nofun
  | cons first rest =>
      cases first with
      | none => exact nofun
      | some answer =>
          intro hagreed
          have hlower : Text.lower answer = "y" := by simpa using hagreed
          refine hanswers ?_
          cases Text.lower_eq_y_iff.mp hlower with
          | inl heq => exact .inl (by rw [heq]; rfl)
          | inr heq => exact .inr (by rw [heq]; rfl)

/-- A command that promises not to write: a preview, a dry run, or a conversion of several sources
that is neither agreed to beforehand nor when it is asked about. -/
inductive Promises (tree : FileTree) (memory : Yaml.Memory) (answers : List Answer) :
    Verb → Arguments → Prop
  | preview (arguments : Arguments) : Promises tree memory answers .preview arguments
  | dryRun {arguments : Arguments} (h : arguments.dryRun = true) :
      Promises tree memory answers .convert arguments
  | declined {arguments : Arguments} (hyes : arguments.yes = false)
      (hmany : ∀ settings extension found,
        (loadSettings tree memory arguments).outcome = .ok settings →
        settings.extension.characters = .ok extension →
        targets tree (.ofText arguments.path) extension = .ok found → 1 < found.length)
      (hanswers : ¬ Agrees answers) : Promises tree memory answers .convert arguments

theorem runConvert_tree {tree : FileTree} {memory : Yaml.Memory} {answers : List Answer}
    {arguments : Arguments} (h : Promises tree memory answers .convert arguments)
    (threshold : Level) : (runConvert tree memory threshold arguments answers).tree = tree := by
  rw [runConvert]
  dsimp only
  cases hprepared : (prepare tree memory threshold arguments).outcome with
  | error ending => rfl
  | ok prepared =>
      obtain ⟨settings, found⟩ := prepared
      dsimp only
      cases hdry : arguments.dryRun with
      | true =>
          split
          · rfl
          · rfl
          · exact convertTargets_dryRun tree _ threshold hdry settings found
      | false =>
          cases h with
          | dryRun hdry' => cases hdry.symm.trans hdry'
          | declined hyes hmany hanswers =>
              obtain ⟨extension, hloaded, hextension, hfound⟩ := prepare_eq_ok hprepared
              have hnot := confirm_ne_true hdry hyes
                (hmany settings extension found hloaded hextension hfound) hanswers
              split
              · rfl
              · rfl
              · rename_i hconfirmed
                rw [hconfirmed] at hnot
                exact absurd rfl hnot

/-- A command that promises not to write leaves the files exactly as they were. -/
theorem run_tree_of_promises {words : List String} {answers : List Answer} {tree : FileTree}
    {memory : Yaml.Memory} {invocation : Invocation} {verb : Verb} {arguments : Arguments}
    (hread : readInvocation words = .ok invocation)
    (hcommand : invocation.command = some (verb, arguments))
    (h : Promises tree memory answers verb arguments) :
    (run words answers tree memory).tree = tree := by
  rw [run]
  split
  · rfl
  · rw [hread]
    dsimp only
    rw [hcommand]
    dsimp only
    cases verb with
    | preview => exact runPreview_tree tree memory _ arguments
    | convert => exact runConvert_tree h _

/-- All three promises are kept, where the plain command writes. -/
theorem run_tree_of_promises_nestedSources :
    (run ["preview", "d/a.slim", "--diff"] [] nestedSources).tree = nestedSources ∧
      (run ["convert", "d/a.slim", "--dry-run", "--force", "--delete-original"] []
        nestedSources).tree = nestedSources ∧
      (run ["convert", "d"] [some "yes"] nestedSources).tree = nestedSources ∧
      (run ["convert", "d/a.slim"] [] nestedSources).tree ≠ nestedSources := by
  have hpreview : readInvocation ["preview", "d/a.slim", "--diff"] =
      .ok ⟨false, some (.preview, { path := "d/a.slim", diff := true })⟩ := by decide +kernel
  have hdry : readInvocation ["convert", "d/a.slim", "--dry-run", "--force", "--delete-original"] =
      .ok ⟨false, some (.convert,
        { path := "d/a.slim", dryRun := true, force := true, deleteSource := true })⟩ := by
    decide +kernel
  have hmany : readInvocation ["convert", "d"] =
      .ok ⟨false, some (.convert, { path := "d" })⟩ := by decide +kernel
  refine ⟨run_tree_of_promises hpreview rfl (.preview _),
    run_tree_of_promises hdry rfl (.dryRun rfl),
    run_tree_of_promises hmany rfl (.declined rfl ?_ (by simp [Agrees])), by decide +kernel⟩
  intro settings extension found hloaded hextension hfound
  have hslim : (loadSettings nestedSources {} { path := "d" }).outcome.toOption.map
      (·.extension) = some (.plain ".slim") := by decide +kernel
  have hdirectory : nestedSources.isFile (.ofText "d") = .ok false := by decide +kernel
  rw [hloaded] at hslim
  rw [show settings.extension = .plain ".slim" from Option.some.inj hslim] at hextension
  cases hextension
  rw [targets, hdirectory] at hfound
  cases findSources_nestedSources.symm.trans hfound
  decide

end Command

end SlimTemplate
