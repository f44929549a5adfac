import SlimTemplate.Files.Action

/-!
Reasoning about actions. What an action ensures is said of its result and of the world it leaves,
also where it ends in an error; sequences of actions are taken apart step by step.
-/

namespace SlimTemplate
namespace Action

variable {ε α β : Type} {action : Action ε α} {world : World}

/-- An action, run in a world, ends with a result and a world as described. -/
def Ensures (action : Action ε α) (world : World) (post : Except ε α → World → Prop) : Prop :=
  post (action.run.run world).1 (action.run.run world).2

theorem Ensures.mono {post post' : Except ε α → World → Prop} (h : Ensures action world post)
    (himp : ∀ result world, post result world → post' result world) :
    Ensures action world post' :=
  himp _ _ h

theorem Ensures.and {post post' : Except ε α → World → Prop} (h : Ensures action world post)
    (h' : Ensures action world post') :
    Ensures action world fun result after => post result after ∧ post' result after :=
  ⟨h, h'⟩

theorem Ensures.start {tree : FileTree} {post : Except ε α → World → Prop}
    (h : Ensures action { tree } post) : post (action.start tree).1 (action.start tree).2 :=
  h

theorem ensures_of_forall {post : Except ε α → World → Prop}
    (h : ∀ result after, post result after) : Ensures action world post :=
  h _ _

/-- A sequence ends in an error of its first action, or goes on from its value. -/
theorem ensures_bind {next : α → Action ε β} {post : Except ε β → World → Prop} :
    Ensures (action >>= next) world post ↔
      Ensures action world fun result between =>
        match result with
        | .ok a => Ensures (next a) between post
        | .error e => post (.error e) between := by
  change post (StateT.run (ExceptT.run (action >>= next)) world).1 _ ↔ _
  rw [ExceptT.run_bind]
  simp only [Ensures, StateT.run_bind]
  rcases action.run.run world with ⟨result, between⟩
  cases result with
  | ok a => exact Iff.rfl
  | error e => exact Iff.rfl

theorem Ensures.bind {next : α → Action ε β} {middle : Except ε α → World → Prop}
    {post : Except ε β → World → Prop} (h : Ensures action world middle)
    (hok : ∀ a between, middle (.ok a) between → Ensures (next a) between post)
    (herror : ∀ e between, middle (.error e) between → post (.error e) between) :
    Ensures (action >>= next) world post := by
  refine ensures_bind.mpr (h.mono fun result between hmiddle => ?_)
  cases result with
  | ok a => exact hok a between hmiddle
  | error e => exact herror e between hmiddle

section Steps

variable {post : Except ε α → World → Prop}

theorem ensures_pure {a : α} : Ensures (pure a) world post ↔ post (.ok a) world :=
  Iff.rfl

theorem ensures_tree {post : Except ε FileTree → World → Prop} :
    Ensures Action.tree world post ↔ post (.ok world.tree) world :=
  Iff.rfl

theorem ensures_setTree {tree : FileTree} {post : Except ε Unit → World → Prop} :
    Ensures (setTree tree) world post ↔ post (.ok ()) { world with tree } :=
  Iff.rfl

theorem ensures_recordAll {entries : Journal} {post : Except ε Unit → World → Prop} :
    Ensures (recordAll entries) world post ↔
      post (.ok ()) { world with journal := world.journal ++ entries } :=
  Iff.rfl

theorem ensures_orThrow {δ : Type} {toError : δ → ε} {result : Except δ α} :
    Ensures (orThrow toError result) world post ↔ post (result.mapError toError) world := by
  cases result with
  | ok a => exact Iff.rfl
  | error e => exact Iff.rfl

theorem ensures_change {toError : OsError → ε} {operation : FileTree → Except OsError FileTree}
    {post : Except ε Unit → World → Prop} :
    Ensures (change toError operation) world post ↔
      match operation world.tree with
      | .ok tree => post (.ok ()) { world with tree }
      | .error e => post (.error (toError e)) world := by
  simp only [change, ensures_bind, ensures_tree, ensures_orThrow]
  cases operation world.tree with
  | ok tree => exact Iff.rfl
  | error e => exact Iff.rfl

theorem ensures_probe {question : FileTree → Path → Except OsError Bool} {p : Path}
    {post : Except Fault Bool → World → Prop} :
    Ensures (probe question p) world post ↔
      post ((question world.tree p).mapError .os) world := by
  simp only [probe, ensures_bind, ensures_tree, ensures_orThrow]

/-- An action that can only end in faults, among those that end in trouble. -/
theorem ensures_lift {action : Action Fault α} {post : Except Trouble α → World → Prop} :
    Ensures (liftM action) world post ↔
      Ensures action world fun result after => post (result.mapError .fault) after := by
  change post (StateT.run (Except.mapError Trouble.fault <$> action.run) world).1 _ ↔ _
  rw [StateT.run_map]
  exact Iff.rfl

theorem ensures_attempt {action : Action Trouble α}
    {post : Except Fault (Except Failure α) → World → Prop} :
    Ensures (attempt action) world post ↔
      Ensures action world fun result after =>
        match result with
        | .ok a => post (.ok (.ok a)) after
        | .error (.failure failure) => post (.ok (.error failure)) after
        | .error (.fault fault) => post (.error fault) after := by
  simp only [Ensures, attempt, ExceptT.run_mk, StateT.run_bind]
  rcases action.run.run world with ⟨result, after⟩
  rcases result with (failure | fault) | a
  · exact Iff.rfl
  · exact Iff.rfl
  · exact Iff.rfl

end Steps

end Action

def Journal.GoesOn (before after : Journal) : Prop :=
  ∃ notes : Journal, after = before ++ notes ∧ notes.issues = []

section GoesOn

variable {before between after : Journal}

theorem Journal.issues_append (journal more : Journal) :
    Journal.issues (journal ++ more) = journal.issues ++ more.issues :=
  List.filterMap_append

theorem Journal.GoesOn.refl (journal : Journal) : journal.GoesOn journal :=
  ⟨[], (List.append_nil journal).symm, rfl⟩

theorem Journal.GoesOn.trans (h : before.GoesOn between) (h' : between.GoesOn after) :
    before.GoesOn after := by
  obtain ⟨notes, rfl, hnotes⟩ := h
  obtain ⟨more, rfl, hmore⟩ := h'
  exact ⟨notes ++ more, List.append_assoc before notes more, by
    rw [Journal.issues_append, hnotes, hmore, List.append_nil]⟩

theorem Journal.goesOn_note (journal : Journal) (level : Level) (origin : Origin) (text : String) :
    journal.GoesOn (journal ++ [.note level origin text]) :=
  ⟨_, rfl, rfl⟩

theorem Journal.GoesOn.isPrefix (h : before.GoesOn after) : before <+: after := by
  obtain ⟨notes, rfl, -⟩ := h
  exact List.prefix_append before notes

theorem Journal.GoesOn.issues_eq (h : before.GoesOn after) : after.issues = before.issues := by
  obtain ⟨notes, rfl, hnotes⟩ := h
  rw [Journal.issues_append, hnotes, List.append_nil]

end GoesOn

namespace Action

variable {ε α β : Type} {action : Action ε α}

def AddsNotes (action : Action ε α) : Prop :=
  ∀ world, Ensures action world fun _ after => world.journal.GoesOn after.journal

section AddsNotes

theorem AddsNotes.bind {next : α → Action ε β} (h : AddsNotes action)
    (hnext : ∀ a, AddsNotes (next a)) : AddsNotes (action >>= next) := by
  intro world
  refine (h world).bind (fun a between hbetween => ?_) (fun _ _ hbetween => hbetween)
  exact (hnext a between).mono fun _ _ hafter => hbetween.trans hafter

theorem addsNotes_pure (a : α) : AddsNotes (pure a : Action ε α) :=
  fun world => .refl world.journal

theorem addsNotes_throw (e : ε) : AddsNotes (throw e : Action ε α) :=
  fun world => .refl world.journal

theorem addsNotes_tree : AddsNotes (tree : Action ε FileTree) :=
  fun world => .refl world.journal

theorem addsNotes_setTree (tree : FileTree) : AddsNotes (setTree tree : Action ε Unit) :=
  fun world => .refl world.journal

theorem addsNotes_note (level : Level) (origin : Origin) (text : String) :
    AddsNotes (note level origin text : Action ε Unit) :=
  fun world => world.journal.goesOn_note level origin text

theorem addsNotes_orThrow {δ : Type} (toError : δ → ε) (result : Except δ α) :
    AddsNotes (orThrow toError result) :=
  fun world => ensures_orThrow.mpr (.refl world.journal)

theorem addsNotes_change (toError : OsError → ε)
    (operation : FileTree → Except OsError FileTree) : AddsNotes (change toError operation) :=
  addsNotes_tree.bind fun _ => (addsNotes_orThrow toError _).bind addsNotes_setTree

theorem addsNotes_probe (question : FileTree → Path → Except OsError Bool) (p : Path) :
    AddsNotes (probe question p) :=
  fun world => ensures_probe.mpr (.refl world.journal)

theorem AddsNotes.lift {action : Action Fault α} (h : AddsNotes action) :
    AddsNotes (liftM action : Action Trouble α) :=
  fun world => ensures_lift.mpr (h world)

end AddsNotes

end Action
end SlimTemplate
