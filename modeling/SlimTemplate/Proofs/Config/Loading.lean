import SlimTemplate.Config.File
import SlimTemplate.Proofs.FileTree.Retention

/-!
What a configuration file comes to. A document that says nothing, or a mapping from the names of
settings to values that fit them, is a configuration; anything else is refused with the path of the
file. Main statement: exactly which documents are accepted, and exactly which end in a fault where a
refusal was meant.
-/

namespace SlimTemplate.Settings

def fits : Setting → Value → Bool
  | .indentSize, .int n => 0 < n
  | .extension, .text s => s.toList.head? == some '.'
  | .extension, .ragged r => r.codePoints.head? == some '.'.toNat
  | .emitComments, .bool _ | .closeStatements, .bool _ | .voidElements, .bool _
  | .createBackup, .bool _ | .deleteSource, .bool _ => true
  | .outputDirectory, .null | .outputDirectory, .text _ | .outputDirectory, .ragged _ => true
  | _, _ => false

def complaint (setting : Setting) (given : Value) : ConfigError :=
  if given.isDisplayable then
    match setting with
    | .indentSize => .indentSize given
    | .extension => .extension given
    | .outputDirectory => .outputDirectory given
    | flag => .flag flag given
  else .unshowable

def checkOrder : List Setting :=
  [.indentSize, .extension, .emitComments, .closeStatements, .voidElements, .createBackup,
   .deleteSource, .outputDirectory]

def misfit? (draft : Draft) (order : List Setting) : Option Setting :=
  order.find? fun setting => !fits setting (draft setting)

/-- A check of a setting takes what fits and refuses the rest. -/
def Checks {α : Type} (setting : Setting) (check : Value → Except ConfigError α)
    (write : α → Value) : Prop :=
  ∀ given, if fits setting given then ∃ a, check given = .ok a ∧ write a = given
    else check given = .error (complaint setting given)

theorem checks_indentSize : Checks .indentSize checkIndentSize fun n => .int (n.1 : Nat) := by
  intro given
  cases given with
  | int n =>
      cases n with
      | ofNat n =>
          cases n with
          | zero => rfl
          | succ n =>
              have hpos : fits .indentSize (.int (.ofNat (n + 1))) = true :=
                decide_eq_true (Int.natCast_pos.mpr (Nat.succ_pos n))
              rw [if_pos hpos]
              exact ⟨⟨n + 1, Nat.succ_pos n⟩, rfl, rfl⟩
      | negSucc n => rfl
  | _ => rfl

/-- A text, with or without characters throughout, is taken if it has a dot in front. -/
theorem checkDotted_cases (text : AnyText) :
    if fits .extension (.ofText text) then
      ∃ a, checkDotted text = .ok a ∧ Value.ofText a.1 = .ofText text
    else checkDotted text = .error (complaint .extension (.ofText text)) := by
  have hfits : fits .extension (.ofText text) = true ↔ text.IsDotted := by
    cases text <;> exact beq_iff_eq
  by_cases hdot : text.IsDotted
  · rw [if_pos (hfits.mpr hdot), checkDotted, dif_pos hdot]
    exact ⟨_, rfl, rfl⟩
  · rw [if_neg (mt hfits.mp hdot), checkDotted, dif_neg hdot]
    cases text <;> rfl

theorem checks_extension : Checks .extension checkExtension fun text => .ofText text.1 := by
  intro given
  cases given with
  | text s => exact checkDotted_cases (.plain s)
  | ragged r => exact checkDotted_cases (.ragged r)
  | _ => rfl

theorem checks_flag {setting : Setting} (hflag : fits setting (.bool true) = true) :
    Checks setting (checkFlag setting) .bool := by
  intro given
  cases setting with
  | indentSize | outputDirectory | extension => cases hflag
  | _ =>
      cases given with
      | bool b => exact ⟨b, rfl, rfl⟩
      | _ => rfl

theorem checks_directory :
    Checks .outputDirectory checkDirectory fun text => (text.map Value.ofText).getD .null := by
  intro given
  cases given with
  | null | text _ | ragged _ => exact ⟨_, rfl, rfl⟩
  | _ => rfl

/-- The settings still to be checked decide: if all fit, they are as the draft has them;
otherwise the first that does not is refused. -/
def Settles (draft : Draft) (order : List Setting) (checked : Except ConfigError Settings) : Prop :=
  match misfit? draft order with
  | none => ∃ settings, checked = .ok settings ∧ settings.toDraft = draft
  | some setting => checked = .error (complaint setting (draft setting))

theorem Checks.settles {α : Type} {setting : Setting} {check : Value → Except ConfigError α}
    {write : α → Value} {draft : Draft} {order : List Setting}
    {next : α → Except ConfigError Settings} (h : Checks setting check write)
    (hnext : ∀ a, write a = draft setting → Settles draft order (next a)) :
    Settles draft (setting :: order) (check (draft setting) >>= next) := by
  have hcheck := h (draft setting)
  rw [Settles, misfit?, List.find?_cons]
  cases hfits : fits setting (draft setting) with
  | true =>
      rw [hfits] at hcheck
      obtain ⟨a, hok, hwrite⟩ := hcheck
      rw [hok]
      exact hnext a hwrite
  | false =>
      rw [hfits] at hcheck
      rw [if_neg (by simp)] at hcheck
      rw [hcheck]
      rfl

theorem ofDraft_settles (draft : Draft) : Settles draft checkOrder (ofDraft draft) := by
  refine checks_indentSize.settles ?_
  rintro ⟨indentSize, _⟩ hindentSize
  refine checks_extension.settles ?_
  rintro ⟨extension, _⟩ hextension
  refine (checks_flag rfl).settles fun emitComments hemit => ?_
  refine (checks_flag rfl).settles fun closeStatements hclose => ?_
  refine (checks_flag rfl).settles fun voidElements hvoid => ?_
  refine (checks_flag rfl).settles fun createBackup hbackup => ?_
  refine (checks_flag rfl).settles fun deleteSource hdelete => ?_
  refine checks_directory.settles fun outputDirectory hdirectory => ?_
  -- nothing is left to check, and each setting was written back as the draft gives it
  refine ⟨_, rfl, ?_⟩
  funext setting
  cases setting <;> assumption

/-! Mappings. -/

def isKeyOf (setting : Setting) : Value → Bool
  | .text name => name == setting.name
  | _ => false

/-- The value that entries give for a setting, the last of them if there are several, and the
default if there is none. -/
def given (entries : List (Value × Value)) : Draft := fun setting =>
  ((entries.reverse.find? fun entry => isKeyOf setting entry.1).map Prod.snd).getD
    (Settings.standard.toDraft setting)

theorem ofName?_eq_some_iff {name : String} {setting : Setting} :
    Setting.ofName? name = some setting ↔ name = setting.name := by
  constructor
  · intro h
    rw [Setting.ofName?] at h
    have hname := List.find?_some h
    exact (beq_iff_eq.mp hname).symm
  · rintro rfl
    cases setting <;> rfl

theorem readKey_eq_ok_iff {key : Value} {setting : Setting} :
    readKey key = .ok setting ↔ isKeyOf setting key = true := by
  cases key with
  | text name =>
      rw [isKeyOf, beq_iff_eq, ← ofName?_eq_some_iff, readKey]
      cases Setting.ofName? name <;> simp
  | _ => simp [readKey, isKeyOf]

def unknownKey? (entry : Value × Value) : Option Value :=
  match readKey entry.1 with
  | .error key => some key
  | .ok _ => none

def assignment? (entry : Value × Value) : Option (Setting × Value) :=
  match readKey entry.1 with
  | .error _ => none
  | .ok setting => some (setting, entry.2)

theorem ofMapping_eq (source : String) (entries : List (Value × Value)) :
    ofMapping source entries =
      if (entries.filterMap unknownKey?).isEmpty then
        ofDraft (draftOf (entries.filterMap assignment?))
      else .error (unknownKeysError source (entries.filterMap unknownKey?)) := by
  rw [ofMapping]
  simp only [List.filterMap_map]
  congr 3
  case e_t =>
    congr 3
    funext entry
    rw [Function.comp, assignment?]
    cases readKey entry.1 <;> rfl
  all_goals
    congr 1
    funext entry
    rw [Function.comp, unknownKey?]
    cases readKey entry.1 <;> rfl

/-- Settings are changed one after the other, so that the last change of each counts. -/
theorem foldl_assignments (entries : List (Value × Value)) (draft : Draft) (setting : Setting) :
    (entries.filterMap assignment?).foldl (fun draft (setting, value) => draft.set setting value)
        draft setting =
      ((entries.reverse.find? fun entry => isKeyOf setting entry.1).map Prod.snd).getD
        (draft setting) := by
  induction entries generalizing draft with
  | nil => rfl
  | cons entry entries ih =>
      rw [List.reverse_cons, List.find?_append, List.find?_singleton, List.filterMap_cons]
      cases hkey : readKey entry.1 with
      | error key =>
          have hnot : isKeyOf setting entry.1 = false := by
            rw [← Bool.not_eq_true, ← readKey_eq_ok_iff, hkey]
            simp
          simp only [assignment?, hkey, hnot, Bool.false_eq_true, if_false, Option.or_none]
          exact ih draft
      | ok named =>
          have hiff : isKeyOf setting entry.1 = true ↔ setting = named := by
            rw [← readKey_eq_ok_iff, hkey, Except.ok.injEq, eq_comm]
          simp only [assignment?, hkey, List.foldl_cons]
          rw [ih]
          -- this entry counts only if none of the later ones names the setting
          cases entries.reverse.find? fun entry => isKeyOf setting entry.1 with
          | some later => rfl
          | none =>
              by_cases hnamed : setting = named
              · rw [if_pos (hiff.mpr hnamed)]
                exact if_pos hnamed
              · rw [if_neg (mt hiff.mp hnamed)]
                exact if_neg hnamed

def isText : Value → Bool
  | .text _ | .ragged _ => true
  | _ => false

def Known (entries : List (Value × Value)) : Prop :=
  ∀ entry ∈ entries, ∃ setting : Setting, entry.1 = .text setting.name

theorem eq_of_readKey_error {key unknown : Value} (h : readKey key = .error unknown) :
    unknown = key := by
  cases key with
  | text name =>
      rw [readKey] at h
      cases hname : Setting.ofName? name with
      | none =>
          rw [hname] at h
          cases h
          rfl
      | some setting =>
          rw [hname] at h
          cases h
  | _ =>
      cases h
      rfl

theorem isKeyOf_iff {setting : Setting} {key : Value} :
    isKeyOf setting key = true ↔ key = .text setting.name := by
  cases key <;> simp [isKeyOf]

theorem unknownKey?_eq_some_iff {entry : Value × Value} {key : Value} :
    unknownKey? entry = some key ↔
      key = entry.1 ∧ ¬ ∃ setting : Setting, entry.1 = .text setting.name := by
  have hnamed : (∃ setting : Setting, entry.1 = .text setting.name) ↔
      ∃ setting, readKey entry.1 = .ok setting :=
    exists_congr fun setting => isKeyOf_iff.symm.trans readKey_eq_ok_iff.symm
  rw [hnamed, unknownKey?]
  cases hkey : readKey entry.1 with
  | error unknown => simp [eq_of_readKey_error hkey, eq_comm]
  | ok setting => simp

theorem known_iff {entries : List (Value × Value)} :
    Known entries ↔ entries.filterMap unknownKey? = [] := by
  rw [List.filterMap_eq_nil_iff]
  refine forall_congr' fun entry => imp_congr_right fun _ => ?_
  rw [Option.eq_none_iff_forall_not_mem]
  constructor
  · intro hnamed key hkey
    exact (unknownKey?_eq_some_iff.mp hkey).2 hnamed
  · intro hnone
    by_contra hnot
    exact hnone entry.1 (unknownKey?_eq_some_iff.mpr ⟨rfl, hnot⟩)

theorem ofMapping_of_known {entries : List (Value × Value)} (h : Known entries)
    (source : String) : ofMapping source entries = ofDraft (given entries) := by
  rw [ofMapping_eq, known_iff.mp h, if_pos List.isEmpty_nil]
  congr 1
  funext setting
  exact foldl_assignments entries Settings.standard.toDraft setting

theorem ofMapping_of_not_known {entries : List (Value × Value)} (h : ¬ Known entries)
    (source : String) :
    ofMapping source entries =
      .error (unknownKeysError source (entries.filterMap unknownKey?)) := by
  rw [known_iff, ← List.isEmpty_iff] at h
  rw [ofMapping_eq, if_neg h]

theorem isSome_listed? (key : Value) : key.listed?.isSome = isText key := by
  cases key <;> rfl

/-- Unknown keys are listed if all of them are texts. -/
theorem unknownKeysError_of_isText {keys : List Value} (h : ∀ key ∈ keys, isText key = true)
    (source : String) : ∃ listed, unknownKeysError source keys = .unknownKeys source listed := by
  have hlength : ((keys.filterMap Value.listed?).length == keys.length) = true := by
    rw [beq_iff_eq, List.filterMap_length_eq_length]
    intro key hkey
    rw [isSome_listed?, h key hkey]
  cases keys with
  | nil => exact ⟨_, rfl⟩
  | cons key keys =>
      rw [unknownKeysError, if_pos hlength]
      exact ⟨_, rfl⟩

theorem unknownKeysError_of_not_isText {keys : List Value} {key : Value} (hkey : key ∈ keys)
    (h : isText key = false) (source : String) :
    (∃ kind, unknownKeysError source keys = .unlistableKey kind) ∨
      ∃ cause, unknownKeysError source keys = .unorderedKeys cause := by
  have hlength : ¬ ((keys.filterMap Value.listed?).length == keys.length) = true := by
    rw [beq_iff_eq, List.filterMap_length_eq_length]
    intro hall
    have hlisted := hall key hkey
    rw [isSome_listed?, h] at hlisted
    cases hlisted
  cases keys with
  | nil => cases hkey
  | cons first rest =>
      rw [unknownKeysError, if_neg hlength]
      cases Value.least first rest with
      | ok least => exact .inl ⟨_, rfl⟩
      | error cause => exact .inr ⟨_, rfl⟩

def MakesUp (entries : List (Value × Value)) (settings : Settings) : Prop :=
  Known entries ∧ (∀ setting, fits setting (given entries setting) = true) ∧
    settings.toDraft = given entries

/-- Entries that are not accepted and for which no refusal can be worded: a key is not a text, or
the first value that does not fit cannot be shown. -/
def Unsayable (entries : List (Value × Value)) : Prop :=
  (∃ entry ∈ entries, isText entry.1 = false) ∨
    Known entries ∧ ∃ setting, misfit? (given entries) checkOrder = some setting ∧
      (given entries setting).isDisplayable = false

theorem misfit?_eq_none_iff {draft : Draft} :
    misfit? draft checkOrder = none ↔ ∀ setting, fits setting (draft setting) = true := by
  simp only [misfit?, List.find?_eq_none, Bool.not_eq_true', Bool.not_eq_false]
  constructor
  · intro h setting
    apply h
    cases setting <;> decide
  · intro h setting _
    exact h setting

theorem ofDraft_of_fits {draft : Draft} (h : ∀ setting, fits setting (draft setting) = true) :
    ∃ settings, ofDraft draft = .ok settings ∧ settings.toDraft = draft := by
  have hsettles := ofDraft_settles draft
  rw [Settles, misfit?_eq_none_iff.mpr h] at hsettles
  exact hsettles

theorem ofDraft_of_misfit {draft : Draft} {setting : Setting}
    (h : misfit? draft checkOrder = some setting) :
    ofDraft draft = .error (complaint setting (draft setting)) := by
  have hsettles := ofDraft_settles draft
  rw [Settles, h] at hsettles
  exact hsettles

theorem ofText_injective : Function.Injective Value.ofText := by
  rintro (s | r) (s' | r') h <;> cases h <;> rfl

theorem getD_map_ofText_injective :
    Function.Injective fun text : Option AnyText => (text.map Value.ofText).getD .null := by
  rintro (_ | (s | r)) (_ | (s' | r')) h <;> cases h <;> rfl

theorem eq_of_toDraft_eq {settings settings' : Settings}
    (h : settings.toDraft = settings'.toDraft) : settings = settings' := by
  have hindent := Int.ofNat.inj (Value.int.inj (congrFun h .indentSize))
  have hcomments := Value.bool.inj (congrFun h .emitComments)
  have hstatements := Value.bool.inj (congrFun h .closeStatements)
  have hvoid := Value.bool.inj (congrFun h .voidElements)
  have hbackup := Value.bool.inj (congrFun h .createBackup)
  have hdelete := Value.bool.inj (congrFun h .deleteSource)
  have hextension := ofText_injective (congrFun h .extension)
  have hdirectory := getD_map_ofText_injective (congrFun h .outputDirectory)
  cases settings
  cases settings'
  simp_all

theorem Known.isText {entries : List (Value × Value)} {entry : Value × Value}
    (h : Known entries) (hentry : entry ∈ entries) : Settings.isText entry.1 = true := by
  obtain ⟨setting, hname⟩ := h entry hentry
  rw [hname]
  rfl

end SlimTemplate.Settings

namespace SlimTemplate.Config

open Settings

inductive Verdict (path : Path) (entries : List (Value × Value)) : Except Trouble Settings → Prop
  | accepted {settings : Settings} (hknown : Known entries)
      (hfits : misfit? (given entries) checkOrder = none)
      (hholds : settings.toDraft = given entries) : Verdict path entries (.ok settings)
  | unfit {setting : Setting} (hknown : Known entries)
      (hmisfit : misfit? (given entries) checkOrder = some setting)
      (hshown : (given entries setting).isDisplayable = true) :
      Verdict path entries
        (.error (.failure (.config (complaint setting (given entries setting)) (some path))))
  | unshowable {setting : Setting} (hknown : Known entries)
      (hmisfit : misfit? (given entries) checkOrder = some setting)
      (hshown : (given entries setting).isDisplayable = false) :
      Verdict path entries (.error (.fault (.settings .unshowable)))
  | unknown {keys : List String} (hunknown : ¬ Known entries)
      (htexts : ∀ entry ∈ entries, isText entry.1 = true) :
      Verdict path entries (.error (.failure (.config (.unknownKeys path.text keys) (some path))))
  | unlistable {entry : Value × Value} {e : ConfigError} (hentry : entry ∈ entries)
      (htext : isText entry.1 = false) : Verdict path entries (.error (.fault (.settings e)))

theorem verdict_of_misfit {path : Path} {entries : List (Value × Value)} {setting : Setting}
    (hknown : Known entries) (hmisfit : misfit? (given entries) checkOrder = some setting) :
    Verdict path entries
      (accept (some path) (.error (complaint setting (given entries setting)))).outcome := by
  cases hshown : (given entries setting).isDisplayable with
  | true =>
      have hfailure :
          Trouble.ofConfigError (some path) (complaint setting (given entries setting)) =
            .failure (.config (complaint setting (given entries setting)) (some path)) := by
        unfold complaint
        rw [if_pos hshown]
        cases setting <;> rfl
      rw [accept, hfailure]
      exact .unfit hknown hmisfit hshown
  | false =>
      unfold complaint
      rw [hshown]
      exact .unshowable hknown hmisfit hshown

theorem accept_verdict (path : Path) (entries : List (Value × Value)) :
    Verdict path entries (accept (some path) (Settings.ofMapping path.text entries)).outcome := by
  by_cases hknown : Known entries
  · rw [ofMapping_of_known hknown]
    cases hmisfit : misfit? (given entries) checkOrder with
    | none =>
        obtain ⟨settings, hchecked, hholds⟩ := ofDraft_of_fits (misfit?_eq_none_iff.mp hmisfit)
        rw [hchecked]
        exact .accepted hknown hmisfit hholds
    | some setting =>
        rw [ofDraft_of_misfit hmisfit]
        exact verdict_of_misfit hknown hmisfit
  · rw [ofMapping_of_not_known hknown]
    by_cases htexts : ∀ entry ∈ entries, isText entry.1 = true
    · have hkeys : ∀ key ∈ entries.filterMap unknownKey?, isText key = true := by
        intro key hkey
        obtain ⟨entry, hentry, hunknown⟩ := List.mem_filterMap.mp hkey
        rw [(unknownKey?_eq_some_iff.mp hunknown).1]
        exact htexts entry hentry
      obtain ⟨listed, herror⟩ := unknownKeysError_of_isText hkeys path.text
      rw [herror]
      exact .unknown hknown htexts
    · simp only [not_forall, Bool.not_eq_true] at htexts
      obtain ⟨entry, hentry, htext⟩ := htexts
      -- a key that is no text is no name of a setting either, so it is among the unknown ones
      have hunknown : unknownKey? entry = some entry.1 := by
        refine unknownKey?_eq_some_iff.mpr ⟨rfl, ?_⟩
        rintro ⟨setting, hname⟩
        rw [hname] at htext
        cases htext
      have hkey := List.mem_filterMap.mpr ⟨entry, hentry, hunknown⟩
      rcases unknownKeysError_of_not_isText hkey htext path.text with
        ⟨kind, herror⟩ | ⟨cause, herror⟩
      · rw [herror]
        exact .unlistable hentry htext
      · rw [herror]
        exact .unlistable hentry htext

def Refused (path : Path) (outcome : Except Trouble Settings) : Prop :=
  ∃ failure, outcome = .error (.failure failure) ∧ failure.type = .configuration ∧
    failure.path? = some path

section Verdict

variable {path : Path} {entries : List (Value × Value)} {outcome : Except Trouble Settings}

theorem Verdict.eq_ok_iff (h : Verdict path entries outcome) (settings : Settings) :
    outcome = .ok settings ↔ MakesUp entries settings := by
  constructor
  · rintro rfl
    cases h with
    | accepted hknown hfits hholds => exact ⟨hknown, misfit?_eq_none_iff.mp hfits, hholds⟩
  · rintro ⟨hknown, hfits, hholds⟩
    have hnone := misfit?_eq_none_iff.mpr hfits
    cases h with
    | accepted _ _ hsame => rw [eq_of_toDraft_eq (hsame.trans hholds.symm)]
    | unfit _ hmisfit _ | unshowable _ hmisfit _ => cases hnone.symm.trans hmisfit
    | unknown hunknown _ => exact absurd hknown hunknown
    | unlistable hentry htext => cases htext.symm.trans (hknown.isText hentry)

theorem Verdict.fault_iff (h : Verdict path entries outcome) :
    (∃ e, outcome = .error (.fault (.settings e))) ↔ Unsayable entries := by
  constructor
  · rintro ⟨e, rfl⟩
    cases h with
    | unshowable hknown hmisfit hshown => exact .inr ⟨hknown, _, hmisfit, hshown⟩
    | unlistable hentry htext => exact .inl ⟨_, hentry, htext⟩
  · intro hunsayable
    cases h with
    | unshowable _ _ _ | unlistable _ _ => exact ⟨_, rfl⟩
    | accepted hknown hfits _ =>
        rcases hunsayable with ⟨entry, hentry, htext⟩ | ⟨-, setting, hmisfit, -⟩
        · cases htext.symm.trans (hknown.isText hentry)
        · cases hfits.symm.trans hmisfit
    | unfit hknown hfirst hshown =>
        rcases hunsayable with ⟨entry, hentry, htext⟩ | ⟨-, setting, hmisfit, hhidden⟩
        · cases htext.symm.trans (hknown.isText hentry)
        · cases hfirst.symm.trans hmisfit
          cases hshown.symm.trans hhidden
    | unknown hunknown htexts =>
        rcases hunsayable with ⟨entry, hentry, htext⟩ | ⟨hknown, -⟩
        · cases htext.symm.trans (htexts entry hentry)
        · exact absurd hknown hunknown

theorem Verdict.refused_iff (h : Verdict path entries outcome) :
    Refused path outcome ↔ (¬ ∃ settings, MakesUp entries settings) ∧ ¬ Unsayable entries := by
  rw [← h.fault_iff]
  simp only [← h.eq_ok_iff]
  constructor
  · rintro ⟨failure, rfl, -⟩
    exact ⟨by simp, by simp⟩
  · rintro ⟨hok, hfault⟩
    cases h with
    | accepted _ _ _ => exact absurd ⟨_, rfl⟩ hok
    | unshowable _ _ _ | unlistable _ _ => exact absurd ⟨_, rfl⟩ hfault
    | unfit _ _ _ | unknown _ _ => exact ⟨_, rfl, rfl, rfl⟩

end Verdict

/-! Documents. -/

/-- A document says what the entries say: it is a mapping with these entries, or it is blank and
there are none. -/
def Describes (value : Value) (entries : List (Value × Value)) : Prop :=
  value = .map entries ∨ value = .orderedMap entries ∨ value.isBlank = true ∧ entries = []

theorem describes_iff_of_not_mapping {value : Value} {listed : List (Value × Value)}
    (hmap : ∀ given, value = .map given → False)
    (hordered : ∀ given, value = .orderedMap given → False) :
    Describes value listed ↔ value.isBlank = true ∧ listed = [] := by
  constructor
  · rintro (h | h | h)
    · exact (hmap _ h).elim
    · exact (hordered _ h).elim
    · exact h
  · intro h
    exact .inr (.inr h)

/-- A document is described by the entries that are found in it, and by no others. -/
theorem entries_cases (path : Path) (value : Value) :
    (∃ listed, entries path value = .ok listed ∧ ∀ other, Describes value other ↔ other = listed) ∨
      entries path value = .error (.failure (.configNotMapping path)) ∧
        ∀ other, ¬ Describes value other := by
  fun_cases entries path value with
  | case1 given | case2 given =>
      refine .inl ⟨given, rfl, fun other => ?_⟩
      cases given <;> simp [Describes, Value.isBlank, eq_comm]
  | case3 _ hmap hordered hblank =>
      exact .inl ⟨[], rfl, fun other => by
        simp [describes_iff_of_not_mapping hmap hordered, hblank]⟩
  | case4 _ hmap hordered hblank =>
      exact .inr ⟨rfl, fun other => by
        simp [describes_iff_of_not_mapping hmap hordered, hblank]⟩

structure Answers (path : Path) (value : Value) (outcome : Except Trouble Settings) : Prop where
  accepted : ∀ settings, outcome = .ok settings ↔
    ∃ entries, Describes value entries ∧ MakesUp entries settings
  faulty : (∃ e, outcome = .error (.fault (.settings e))) ↔
    ∃ entries, Describes value entries ∧ Unsayable entries
  refused : Refused path outcome ↔ ∀ entries, Describes value entries →
    (¬ ∃ settings, MakesUp entries settings) ∧ ¬ Unsayable entries

theorem ofDocument_answers (path : Path) (value : Value) :
    Answers path value (ofDocument path value).outcome := by
  rw [ofDocument]
  rcases entries_cases path value with ⟨listed, hentries, honly⟩ | ⟨hentries, hnone⟩
  · have hverdict := accept_verdict path listed
    rw [hentries]
    exact {
      accepted := by simpa [honly] using hverdict.eq_ok_iff
      faulty := by simpa [honly] using hverdict.fault_iff
      refused := by simpa [honly] using hverdict.refused_iff }
  · rw [hentries]
    exact {
      accepted := by simp [hnone]
      faulty := by simp [hnone]
      refused := ⟨fun _ listed hdescribes => absurd hdescribes (hnone listed),
        fun _ => ⟨_, rfl, rfl, rfl⟩⟩ }

theorem load_of_read {μ : Type} {loader : Loader μ} {tree : FileTree} {path : Path}
    {bytes : Text.Bytes} (hfile : tree.readFile path = .ok bytes)
    (hwhole : (Text.readStream bytes).broken = none) (memory : μ) :
    (load loader tree memory (some path)).outcome =
      match (loader memory true (Text.readStream bytes).text).1 with
      | .ok value => (ofDocument path value).outcome
      | .error problem => .error (.ofProblem path problem) := by
  have hpresent : tree.isPresent path = .ok true := by
    rw [FileTree.readFile] at hfile
    split at hfile
    · exact FileTree.isPresent_eq_true ‹_›
    all_goals cases hfile
  rw [load, hpresent]
  dsimp only
  rw [document, hfile]
  dsimp only
  rw [hwhole]
  cases hread : loader memory true (Text.readStream bytes).text with
  | mk value memory =>
      rw [Option.isNone_none, hread]
      cases value with
      | ok value => rfl
      | error problem => cases problem <;> rfl

/-- A configuration file that can be read, whatever reads the document in it: if that has a value,
the document decides; if it is malformed, it is refused. -/
theorem load_answers {μ : Type} (loader : Loader μ) {tree : FileTree} {path : Path}
    {bytes : Text.Bytes} (hfile : tree.readFile path = .ok bytes)
    (hwhole : (Text.readStream bytes).broken = none) (memory : μ) :
    (∀ value, (loader memory true (Text.readStream bytes).text).1 = .ok value →
      Answers path value (load loader tree memory (some path)).outcome) ∧
    ∀ problem ∈ [Yaml.Problem.malformed, .unfinished],
      (loader memory true (Text.readStream bytes).text).1 = .error problem →
        Refused path (load loader tree memory (some path)).outcome := by
  rw [load_of_read hfile hwhole]
  constructor
  · intro value hvalue
    rw [hvalue]
    exact ofDocument_answers path value
  · intro problem hproblem herror
    rw [herror]
    rw [List.mem_pair] at hproblem
    rcases hproblem with rfl | rfl
    · exact ⟨_, rfl, rfl, rfl⟩
    · exact ⟨_, rfl, rfl, rfl⟩

/-- An empty list and a mapping from a number. -/
def looseTree : FileTree :=
  ((⟨[], []⟩ : FileTree).set ["a"] (.file (Text.encode "[]"))).set ["b"]
    (.file (Text.encode "1: 2"))

def hasOtherKey : Value → Bool
  | .map entries => entries.any fun entry => !isText entry.1
  | _ => false

/-- The list passes for a configuration; the number cannot be listed as an unknown key. -/
theorem load_answers_looseTree :
    (load Yaml.read looseTree {} (some (.ofText "a"))).outcome = .ok .standard ∧
      ∃ e, (load Yaml.read looseTree {} (some (.ofText "b"))).outcome =
        .error (.fault (.settings e)) := by
  constructor
  · have hfile : looseTree.readFile (.ofText "a") = .ok (Text.encode "[]") := by rfl
    have hwhole : (Text.readStream (Text.encode "[]")).broken = none := by decide
    have hread : (Yaml.read {} true (Text.readStream (Text.encode "[]")).text).1 =
        .ok (.list []) := by rfl
    refine (((load_answers Yaml.read hfile hwhole {}).1 _ hread).accepted .standard).mpr
      ⟨[], .inr (.inr ⟨rfl, rfl⟩), ?_, ?_, ?_⟩
    · intro entry hentry
      cases hentry
    · intro setting
      cases setting <;> decide
    · funext setting
      cases setting <;> rfl
  · have hfile : looseTree.readFile (.ofText "b") = .ok (Text.encode "1: 2") := by rfl
    have hwhole : (Text.readStream (Text.encode "1: 2")).broken = none := by decide
    have hread : ((Yaml.read {} true (Text.readStream (Text.encode "1: 2")).text).1.toOption.any
        hasOtherKey) = true := by decide +kernel
    cases hvalue : (Yaml.read {} true (Text.readStream (Text.encode "1: 2")).text).1 with
    | error problem =>
        rw [hvalue] at hread
        cases hread
    | ok value =>
        rw [hvalue] at hread
        refine ((load_answers Yaml.read hfile hwhole {}).1 value hvalue).faulty.mpr ?_
        cases value with
        | map entries =>
            obtain ⟨entry, hentry, htext⟩ := List.any_eq_true.mp hread
            exact ⟨entries, .inl rfl, .inl ⟨entry, hentry, by simpa using htext⟩⟩
        | _ => cases hread

end SlimTemplate.Config
