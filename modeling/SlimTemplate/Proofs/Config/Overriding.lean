import SlimTemplate.Proofs.Config.Loading

/-!
Changing settings. A change by name puts values on top of those there are, and is refused as a whole
if one of them does not fit. Main statement: whatever a mapping and changes come to has values that
fit, so that an engine can be made with it, and two changes one after the other are one change,
though a name that is refused may not be the same.
-/

namespace SlimTemplate.Settings

/-! Values on top of others. -/

/-- The values of a draft, except where entries give another one; the last of them counts. -/
def overlay (draft : Draft) (entries : List (Value × Value)) : Draft := fun setting =>
  ((entries.reverse.find? fun entry => isKeyOf setting entry.1).map Prod.snd).getD (draft setting)

theorem overlay_append (draft : Draft) (first second : List (Value × Value)) :
    overlay draft (first ++ second) = overlay (overlay draft first) second := by
  funext setting
  simp only [overlay, List.reverse_append, List.find?_append]
  cases second.reverse.find? fun entry => isKeyOf setting entry.1 with
  | none | some entry => rfl

def isGiven (change : String × Value) : Bool :=
  match change.2 with
  | .null => false
  | _ => true

def isUnknown (name : String) : Bool :=
  (Setting.ofName? name).isNone

def unknown? (changes : List (String × Value)) : Option String :=
  (changes.find? fun change => isGiven change && isUnknown change.1).map Prod.fst

theorem unknown?_append (first second : List (String × Value)) :
    unknown? (first ++ second) = (unknown? first).or (unknown? second) := by
  rw [unknown?, List.find?_append, Option.map_or]
  rfl

theorem unknown?_cons (change : String × Value) (rest : List (String × Value)) :
    unknown? (change :: rest) = (unknown? [change]).or (unknown? rest) :=
  unknown?_append [change] rest

theorem unknown?_singleton (change : String × Value) :
    unknown? [change] = if isGiven change && isUnknown change.1 then some change.1 else none := by
  rw [unknown?, List.find?_singleton]
  split <;> rfl

theorem find?_isUnknown (changes : List (String × Value)) :
    ((changes.filter isGiven).map Prod.fst).find? isUnknown = unknown? changes := by
  rw [List.find?_map, List.find?_filter, unknown?]
  simp only [Bool.decide_and, Bool.decide_eq_true, Function.comp]

def asEntry (change : String × Value) : Value × Value :=
  (.text change.1, change.2)

def givenBy (changes : List (String × Value)) : List (Value × Value) :=
  (changes.filter isGiven).map asEntry

def revise (draft : Draft) (changes : List (String × Value)) : Draft :=
  overlay draft (givenBy changes)

theorem revise_append (draft : Draft) (first second : List (String × Value)) :
    revise draft (first ++ second) = revise (revise draft first) second := by
  rw [revise, givenBy, List.filter_append, List.map_append, overlay_append]
  rfl

theorem revise_cons (draft : Draft) (change : String × Value) (rest : List (String × Value)) :
    revise draft (change :: rest) = revise (revise draft [change]) rest :=
  revise_append draft [change] rest

theorem revise_congr {draft draft' : Draft} {setting : Setting}
    (h : draft setting = draft' setting) (changes : List (String × Value)) :
    revise draft changes setting = revise draft' changes setting := by
  rw [revise, overlay, h]
  rfl

theorem revise_of_not_isGiven {change : String × Value} (h : isGiven change = false)
    (draft : Draft) : revise draft [change] = draft := by
  rw [revise, givenBy, List.filter_singleton, h]
  rfl

theorem revise_of_isGiven {change : String × Value} (h : isGiven change = true) (draft : Draft)
    (setting : Setting) :
    revise draft [change] setting =
      if change.1 = setting.name then change.2 else draft setting := by
  rw [revise, givenBy, List.filter_singleton, h, overlay]
  by_cases hname : change.1 = setting.name
  · have hkey : isKeyOf setting (asEntry change).1 = true := beq_iff_eq.mpr hname
    have hvalue : (asEntry change).2 = change.2 := rfl
    simp [hkey, hvalue, hname]
  · have hkey : isKeyOf setting (asEntry change).1 = false := beq_eq_false_iff_ne.mpr hname
    simp [hkey, hname]

theorem revise_of_ne {change : String × Value} {setting : Setting} (h : change.1 ≠ setting.name)
    (draft : Draft) : revise draft [change] setting = draft setting := by
  cases hgiven : isGiven change with
  | false => rw [revise_of_not_isGiven hgiven]
  | true => rw [revise_of_isGiven hgiven, if_neg h]

theorem assignment?_asEntry {name : String} {setting : Setting} (value : Value)
    (h : Setting.ofName? name = some setting) :
    assignment? (asEntry (name, value)) = some (setting, value) := by
  rw [assignment?, asEntry, readKey, h]
  rfl

/-- Settings are found by their names, up to the first name that is unknown. -/
theorem findNamed_eq (changes : List (String × Value)) :
    findNamed changes = ((changes.map Prod.fst).find? isUnknown).elim
      (.ok ((changes.map asEntry).filterMap assignment?))
      fun name =>
        .error (if name = reservedName then .reservedSetting else .unknownSetting name) := by
  induction changes with
  | nil => rfl
  | cons change rest ih =>
      obtain ⟨name, value⟩ := change
      rw [findNamed, List.map_cons, List.map_cons, List.find?_cons]
      cases hname : Setting.ofName? name with
      | none =>
          have hunknown : isUnknown name = true := by rw [isUnknown, hname]; rfl
          rw [hunknown]
          rfl
      | some setting =>
          have hknown : isUnknown name = false := by rw [isUnknown, hname]; rfl
          rw [hknown, List.filterMap_cons_some (assignment?_asEntry value hname), ih]
          cases (rest.map Prod.fst).find? isUnknown with
          | none | some other => rfl

theorem isGiven_eq_false_iff {change : String × Value} :
    isGiven change = false ↔ change.2 = .null := by
  obtain ⟨name, value⟩ := change
  cases value <;> simp [isGiven]

/-- What is changed without nulls is put on top. -/
theorem override_givenBy (settings : Settings) (changes : List (String × Value)) :
    settings.override ((givenBy changes).filterMap assignment?) =
      ofDraft (revise settings.toDraft changes) := by
  rw [override]
  congr 1
  funext setting
  rw [revise, overlay, ← foldl_assignments]
  refine congrFun (List.foldl_ext _ _ _ fun draft assignment hassignment => ?_) setting
  obtain ⟨entry, hentry, hsome⟩ := List.mem_filterMap.mp hassignment
  obtain ⟨change, hchange, rfl⟩ := List.mem_map.mp hentry
  have hvalue : assignment.2 = change.2 := by
    rw [assignment?] at hsome
    split at hsome
    · cases hsome
    · cases hsome
      rfl
  have hgiven : assignment.2 ≠ .null := by
    rw [hvalue, ne_eq, ← isGiven_eq_false_iff, (List.mem_filter.mp hchange).2]
    simp
  dsimp only
  split
  · exact absurd ‹_› hgiven
  · rfl

/-- A change by name: the reserved name is refused first, then the first name that is unknown, and
then what does not fit. -/
theorem overrideByName_eq (settings : Settings) (changes : List (String × Value)) :
    settings.overrideByName changes =
      if changes.any (·.1 == reservedName) then .error .reservedChange
      else (unknown? changes).elim (ofDraft (revise settings.toDraft changes))
        fun name => .error (.unknownSetting name) := by
  rw [overrideByName]
  split
  · rfl
  · rename_i hreserved
    refine (congrArg (findNamed · >>= settings.override)
      (List.filter_congr (q := isGiven) fun change _ => ?_)).trans ?_
    · obtain ⟨name, value⟩ := change
      cases value <;> rfl
    rw [findNamed_eq, find?_isUnknown]
    cases hunknown : unknown? changes with
    | none => exact override_givenBy settings changes
    | some name =>
        have hname : name ≠ reservedName := by
          rintro rfl
          obtain ⟨change, hchange, heq⟩ := Option.map_eq_some_iff.mp hunknown
          refine hreserved (List.any_eq_true.mpr ⟨change, List.mem_of_find?_eq_some hchange, ?_⟩)
          rw [heq, beq_self_eq_true]
        rw [Option.elim_some, Option.elim_some, if_neg hname]
        rfl

/-! Values that fit. -/

/-- What is checked holds the values it was checked on. -/
theorem fits_of_ofDraft {draft : Draft} {settings : Settings} (h : ofDraft draft = .ok settings) :
    settings.toDraft = draft ∧ ∀ setting, fits setting (draft setting) = true := by
  cases hmisfit : misfit? draft checkOrder with
  | none =>
      have hfits := misfit?_eq_none_iff.mp hmisfit
      obtain ⟨checked, hchecked, hdraft⟩ := ofDraft_of_fits hfits
      cases h.symm.trans hchecked
      exact ⟨hdraft, hfits⟩
  | some setting => cases h.symm.trans (ofDraft_of_misfit hmisfit)

theorem ofDraft_of_ofMapping {source : String} {entries : List (Value × Value)}
    {settings : Settings} (h : ofMapping source entries = .ok settings) : ofDraft (given entries) = .ok settings := by
  by_cases hknown : Known entries
  · rw [← ofMapping_of_known hknown source, h]
  · cases h.symm.trans (ofMapping_of_not_known hknown source)

/-- Settings hold the values of a draft, which all fit, and an engine can be made with them. -/
structure Stands (draft : Draft) (settings : Settings) : Prop where
  holds : settings.toDraft = draft
  fits : ∀ setting, Settings.fits setting (draft setting) = true
  checked : ofDraft draft = .ok settings
  engine : Engine.ofDraft draft = .ok ⟨settings, settings.options⟩

theorem checkIndentSize_of_pos {n : Nat} (h : 0 < n) : checkIndentSize (.int n) = .ok ⟨n, h⟩ := by
  cases n with
  | zero => cases h
  | succ n => rfl

theorem stands_of_ofDraft {draft : Draft} {settings : Settings} (h : ofDraft draft = .ok settings) :
    Stands draft settings := by
  obtain ⟨rfl, hfits⟩ := fits_of_ofDraft h
  refine ⟨rfl, hfits, h, ?_⟩
  rw [Engine.ofDraft, h, toDraft, checkIndentSize_of_pos settings.indentSize_pos]
  rfl

/-! Calls one after the other. -/

/-- Why changes of a draft are refused, if they are: a name is reserved or unknown, or a value does
not fit then. -/
def refusal? (draft : Draft) (changes : List (String × Value)) : Option ConfigError :=
  if changes.any (·.1 == reservedName) then some .reservedChange
  else
    match unknown? changes with
    | some name => some (.unknownSetting name)
    | none =>
        (misfit? (revise draft changes) checkOrder).map fun setting =>
          complaint setting (revise draft changes setting)

def reviseIfAccepted (draft : Draft) (changes : List (String × Value)) : Draft :=
  if (refusal? draft changes).isNone then revise draft changes else draft

def amend (settings : Settings) (changes : List (String × Value)) : Settings :=
  (settings.overrideByName changes).toOption.getD settings

theorem overrideByName_of_refusal {settings : Settings} {changes : List (String × Value)}
    {e : ConfigError} (h : refusal? settings.toDraft changes = some e) :
    settings.overrideByName changes = .error e := by
  rw [overrideByName_eq]
  rw [refusal?] at h
  split at h
  · rw [if_pos ‹_›]
    cases h
    rfl
  · rw [if_neg ‹_›]
    split at h
    · rename_i name hname
      rw [hname]
      cases h
      rfl
    · rename_i hnone
      obtain ⟨setting, hmisfit, rfl⟩ := Option.map_eq_some_iff.mp h
      rw [hnone]
      exact ofDraft_of_misfit hmisfit

theorem overrideByName_of_no_refusal {settings : Settings} {changes : List (String × Value)}
    (h : refusal? settings.toDraft changes = none) :
    ∃ settings', settings.overrideByName changes = .ok settings' ∧
      ofDraft (revise settings.toDraft changes) = .ok settings' := by
  rw [overrideByName_eq]
  rw [refusal?] at h
  split at h
  · cases h
  · rw [if_neg ‹_›]
    split at h
    · cases h
    · rename_i hnone
      rw [Option.map_eq_none_iff] at h
      obtain ⟨settings', hchecked, -⟩ := ofDraft_of_fits (misfit?_eq_none_iff.mp h)
      rw [hnone]
      exact ⟨settings', hchecked, hchecked⟩

theorem amend_of_error {settings : Settings} {changes : List (String × Value)} {e : ConfigError}
    (h : settings.overrideByName changes = .error e) : settings.amend changes = settings := by
  rw [amend, h]
  rfl

theorem Stands.amend {draft : Draft} {settings : Settings} (h : Stands draft settings)
    (changes : List (String × Value)) :
    Stands (reviseIfAccepted draft changes) (settings.amend changes) := by
  obtain rfl := h.holds
  cases hrefusal : refusal? settings.toDraft changes with
  | some e =>
      rw [amend_of_error (overrideByName_of_refusal hrefusal), reviseIfAccepted, hrefusal]
      exact h
  | none =>
      obtain ⟨settings', hok, hchecked⟩ := overrideByName_of_no_refusal hrefusal
      rw [Settings.amend, hok, reviseIfAccepted, hrefusal]
      exact stands_of_ofDraft hchecked

theorem Stands.foldl_amend {draft : Draft} {settings : Settings} (h : Stands draft settings)
    (calls : List (List (String × Value))) :
    Stands (calls.foldl reviseIfAccepted draft) (calls.foldl Settings.amend settings) := by
  induction calls generalizing draft settings with
  | nil => exact h
  | cons changes calls ih => exact ih (h.amend changes)

/-- What a call comes to, for settings that hold the values of a draft. -/
structure Decides (draft : Draft) (settings : Settings) (changes : List (String × Value)) :
    Prop where
  refused : ∀ e, settings.overrideByName changes = .error e ↔ refusal? draft changes = some e
  kept : ∀ e, settings.overrideByName changes = .error e → settings.amend changes = settings
  taken : ∀ settings', settings.overrideByName changes = .ok settings' ↔
    refusal? draft changes = none ∧ settings'.toDraft = revise draft changes

theorem Stands.decides {draft : Draft} {settings : Settings} (h : Stands draft settings)
    (changes : List (String × Value)) : Decides draft settings changes := by
  obtain rfl := h.holds
  cases hrefusal : refusal? settings.toDraft changes with
  | some e =>
      have herror := overrideByName_of_refusal hrefusal
      exact {
        refused := by simp [herror, hrefusal]
        kept := fun _ => amend_of_error
        taken := by simp [herror, hrefusal] }
  | none =>
      obtain ⟨settings', hok, hchecked⟩ := overrideByName_of_no_refusal hrefusal
      have hholds := (stands_of_ofDraft hchecked).holds
      exact {
        refused := by simp [hok, hrefusal]
        kept := fun _ => amend_of_error
        taken := by
          intro other
          rw [hok, hrefusal, Except.ok.injEq, ← hholds]
          exact ⟨fun heq => ⟨rfl, heq ▸ rfl⟩, fun hsame => (eq_of_toDraft_eq hsame.2).symm⟩ }

/-! One call for two. -/

def replace (name : String) (value : Value) (change : String × Value) : String × Value :=
  if change.1 = name then (name, value) else change

/-- Gives a name a value: in the place where the name stands, or at the end. -/
def put (changes : List (String × Value)) (name : String) (value : Value) :
    List (String × Value) :=
  if name ∈ changes.map Prod.fst then changes.map (replace name value)
  else changes ++ [(name, value)]

def updated (changes others : List (String × Value)) : List (String × Value) :=
  (others.filter isGiven).foldl (fun changes other => put changes other.1 other.2) changes

theorem updated_cons_of_not_isGiven {other : String × Value} (h : isGiven other = false)
    (changes others : List (String × Value)) :
    updated changes (other :: others) = updated changes others := by
  rw [updated, List.filter_cons, h]
  rfl

theorem updated_cons_of_isGiven {other : String × Value} (h : isGiven other = true)
    (changes others : List (String × Value)) :
    updated changes (other :: others) = updated (put changes other.1 other.2) others := by
  rw [updated, List.filter_cons, h]
  rfl

section Put

variable {name : String} {value : Value}

theorem revise_replaced_of_ne {setting : Setting} (h : name ≠ setting.name)
    (changes : List (String × Value)) (draft : Draft) :
    revise draft (changes.map (replace name value)) setting = revise draft changes setting := by
  induction changes generalizing draft with
  | nil => rfl
  | cons change rest ih =>
      rw [List.map_cons, revise_cons, revise_cons draft change rest, ih]
      apply revise_congr
      rw [replace]
      by_cases hname : change.1 = name
      · rw [if_pos hname, revise_of_ne h, revise_of_ne (hname ▸ h)]
      · rw [if_neg hname]

theorem revise_replaced {setting : Setting} (hgiven : isGiven (setting.name, value) = true)
    (changes : List (String × Value)) (draft : Draft) :
    revise draft (changes.map (replace setting.name value)) setting =
      if setting.name ∈ changes.map Prod.fst then value else draft setting := by
  induction changes generalizing draft with
  | nil => rfl
  | cons change rest ih =>
      rw [List.map_cons, revise_cons, ih, replace]
      by_cases hname : change.1 = setting.name
      · rw [if_pos hname, revise_of_isGiven hgiven]
        rw [ite_eq_left_iff.mpr fun _ => if_pos rfl, List.map_cons, hname]
        rw [if_pos List.mem_cons_self]
      · rw [if_neg hname, revise_of_ne hname]
        simp only [List.map_cons, List.mem_cons, Ne.symm hname, false_or]

/-- A value that is put among changes counts, as if it were changed after them. -/
theorem revise_put (hgiven : isGiven (name, value) = true) (changes : List (String × Value))
    (draft : Draft) :
    revise draft (put changes name value) = revise (revise draft changes) [(name, value)] := by
  rw [put]
  split
  · rename_i hmem
    funext setting
    by_cases hname : name = setting.name
    · subst hname
      rw [revise_replaced hgiven, if_pos hmem, revise_of_isGiven hgiven, if_pos rfl]
    · rw [revise_replaced_of_ne hname, revise_of_ne hname]
  · rw [revise_append]

theorem names_put (changes : List (String × Value)) (name : String) (value : Value) :
    (put changes name value).map Prod.fst =
      if name ∈ changes.map Prod.fst then changes.map Prod.fst
      else changes.map Prod.fst ++ [name] := by
  rw [put]
  split
  · rw [List.map_map]
    refine List.map_congr_left fun change _ => ?_
    rw [Function.comp, replace]
    split
    · exact (‹change.1 = name›).symm
    · rfl
  · rw [List.map_append]
    rfl

/-- A value makes an unknown name count only where it replaces a null under that name. -/
theorem unknown?_replace (hgiven : isGiven (name, value) = true) (change : String × Value) :
    unknown? [replace name value change] = unknown? [change] ∨
      unknown? [replace name value change] = some name ∧ isUnknown name = true ∧
        change = (name, .null) := by
  rw [unknown?_singleton, unknown?_singleton, replace]
  by_cases hname : change.1 = name
  · rw [if_pos hname, hgiven, hname, Bool.true_and]
    cases isUnknown name with
    | false => exact .inl (by rw [Bool.and_false])
    | true =>
        cases hchange : isGiven change with
        | true => exact .inl rfl
        | false => exact .inr ⟨rfl, rfl, Prod.ext hname (isGiven_eq_false_iff.mp hchange)⟩
  · rw [if_neg hname]
    exact .inl rfl

theorem unknown?_replaced (hgiven : isGiven (name, value) = true)
    (changes : List (String × Value)) :
    unknown? (changes.map (replace name value)) = unknown? changes ∨
      unknown? (changes.map (replace name value)) = some name ∧ isUnknown name = true ∧
        (name, .null) ∈ changes := by
  induction changes with
  | nil => exact .inl rfl
  | cons change rest ih =>
      rw [List.map_cons, unknown?_cons, unknown?_cons change rest]
      rcases unknown?_replace hgiven change with hsame | ⟨hname, hunknown, rfl⟩
      · rw [hsame]
        rcases ih with hrest | ⟨hname, hunknown, hnull⟩
        · exact .inl (by rw [hrest])
        · cases unknown? [change] with
          | some first => exact .inl rfl
          | none => exact .inr ⟨hname, hunknown, List.mem_cons_of_mem change hnull⟩
      · rw [hname]
        exact .inr ⟨rfl, hunknown, List.mem_cons_self⟩

theorem unknown?_put (hgiven : isGiven (name, value) = true) (changes : List (String × Value)) :
    unknown? (put changes name value) = (unknown? changes).or (unknown? [(name, value)]) ∨
      unknown? (put changes name value) = some name ∧
        (unknown? [(name, value)]).isSome = true ∧ (name, .null) ∈ changes := by
  have hone := unknown?_singleton (name, value)
  rw [hgiven, Bool.true_and] at hone
  rw [put]
  split
  · rename_i hmem
    rcases unknown?_replaced hgiven changes with hsame | ⟨hname, hunknown, hnull⟩
    · left
      rw [hsame, hone]
      cases hunknown : isUnknown name with
      | false => exact Option.or_none.symm
      | true =>
          -- the name stands among the changes and has a value now, so one was found before
          obtain ⟨change, hchange, hname⟩ := List.mem_map.mp hmem
          have hfound : (unknown? (changes.map (replace name value))).isSome = true := by
            rw [unknown?, Option.isSome_map, List.find?_isSome]
            refine ⟨replace name value change, List.mem_map_of_mem hchange, ?_⟩
            rw [replace, if_pos hname, hgiven, hunknown]
            rfl
          rw [hsame] at hfound
          rw [Option.or_of_isSome hfound]
    · right
      rw [hone, hunknown]
      exact ⟨hname, rfl, hnull⟩
  · rw [unknown?_append]
    exact .inl rfl

theorem mem_put {change : String × Value} {changes : List (String × Value)}
    (h : change ∈ put changes name value) : change = (name, value) ∨ change ∈ changes := by
  rw [put] at h
  split at h
  · obtain ⟨old, hold, heq⟩ := List.mem_map.mp h
    rw [replace] at heq
    split at heq
    · exact .inl heq.symm
    · exact .inr (heq ▸ hold)
  · rw [List.mem_append, List.mem_singleton] at h
    exact h.symm

end Put

theorem revise_updated (draft : Draft) (changes others : List (String × Value)) :
    revise draft (updated changes others) = revise (revise draft changes) others := by
  induction others generalizing changes with
  | nil => rfl
  | cons other others ih =>
      rw [revise_cons]
      cases hgiven : isGiven other with
      | false => rw [updated_cons_of_not_isGiven hgiven, ih, revise_of_not_isGiven hgiven]
      | true => rw [updated_cons_of_isGiven hgiven, ih, revise_put hgiven]

theorem mem_names_put {name other : String} {value : Value} {changes : List (String × Value)} :
    name ∈ (put changes other value).map Prod.fst ↔ name ∈ changes.map Prod.fst ∨ name = other := by
  rw [names_put]
  split
  · exact ⟨.inl, fun h => h.elim id fun heq => heq ▸ ‹_›⟩
  · rw [List.mem_append, List.mem_singleton]

theorem mem_names_updated {name : String} {changes others : List (String × Value)} :
    name ∈ (updated changes others).map Prod.fst ↔
      name ∈ changes.map Prod.fst ∨ name ∈ (others.filter isGiven).map Prod.fst := by
  induction others generalizing changes with
  | nil => exact (or_iff_left List.not_mem_nil).symm
  | cons other others ih =>
      rw [List.filter_cons]
      cases hgiven : isGiven other with
      | false =>
          rw [updated_cons_of_not_isGiven hgiven, ih]
          rfl
      | true =>
          rw [updated_cons_of_isGiven hgiven, ih, mem_names_put, or_assoc, if_pos rfl,
            List.map_cons, List.mem_cons]

/-- The first unknown name of two calls is that of the second, or one that the first call passed
over because its value was a null. -/
theorem unknown?_updated (changes others : List (String × Value)) :
    unknown? (updated changes others) = (unknown? changes).or (unknown? others) ∨
      ∃ name, unknown? (updated changes others) = some name ∧ (unknown? others).isSome = true ∧
        (name, .null) ∈ changes := by
  induction others generalizing changes with
  | nil => exact .inl Option.or_none.symm
  | cons other others ih =>
      rw [unknown?_cons]
      cases hgiven : isGiven other with
      | false =>
          have hone : unknown? [other] = none := by
            rw [unknown?_singleton, hgiven]
            rfl
          rw [updated_cons_of_not_isGiven hgiven, hone, Option.none_or]
          exact ih changes
      | true =>
          rw [updated_cons_of_isGiven hgiven]
          rcases ih (put changes other.1 other.2) with hfirst | ⟨name, hname, hsome, hnull⟩
          · rcases unknown?_put hgiven changes with hput | ⟨hput, hsome, hnull⟩
            · rw [hfirst, hput, Option.or_assoc]
              exact .inl rfl
            · rw [hfirst, hput]
              exact .inr ⟨other.1, rfl, by rw [Option.isSome_or, hsome, Bool.true_or], hnull⟩
          · refine .inr ⟨name, hname, by rw [Option.isSome_or, hsome, Bool.or_true], ?_⟩
            rcases mem_put hnull with heq | hold
            · cases (isGiven_eq_false_iff.mpr (congrArg Prod.snd heq).symm).symm.trans hgiven
            · exact hold

theorem of_overrideByName_eq_ok {settings settings' : Settings} {changes : List (String × Value)}
    (h : settings.overrideByName changes = .ok settings') :
    reservedName ∉ changes.map Prod.fst ∧ unknown? changes = none ∧
      settings'.toDraft = revise settings.toDraft changes := by
  rw [overrideByName_eq] at h
  split at h
  · cases h
  · rename_i hreserved
    cases hunknown : unknown? changes with
    | some name =>
        rw [hunknown] at h
        cases h
    | none =>
        rw [hunknown] at h
        refine ⟨fun hmem => hreserved ?_, rfl, (fits_of_ofDraft h).1⟩
        obtain ⟨change, hchange, hname⟩ := List.mem_map.mp hmem
        exact List.any_eq_true.mpr ⟨change, hchange, beq_iff_eq.mpr hname⟩

theorem any_reserved_updated {changes others : List (String × Value)}
    (hchanges : reservedName ∉ changes.map Prod.fst)
    (hothers : (reservedName, Value.null) ∉ others) :
    (updated changes others).any (·.1 == reservedName) = others.any (·.1 == reservedName) := by
  have hany : ∀ changes : List (String × Value),
      changes.any (·.1 == reservedName) = true ↔ reservedName ∈ changes.map Prod.fst := by
    intro changes
    simp only [List.any_eq_true, List.mem_map, beq_iff_eq]
  rw [Bool.eq_iff_iff, hany, hany, mem_names_updated, or_iff_right hchanges]
  constructor
  · intro hmem
    exact List.map_subset Prod.fst (List.filter_subset_self others) hmem
  · intro hmem
    obtain ⟨⟨name, value⟩, hother, rfl⟩ := List.mem_map.mp hmem
    refine List.mem_map.mpr ⟨_, List.mem_filter.mpr ⟨hother, ?_⟩, rfl⟩
    rw [← Bool.not_eq_false, isGiven_eq_false_iff]
    rintro rfl
    exact hothers hother

/-- Two calls one after the other come to the same as one call with the changes of both, except that
another unknown name may be refused. -/
theorem overrideByName_updated {settings settings' : Settings}
    {changes others : List (String × Value)}
    (hok : settings.overrideByName changes = .ok settings')
    (hothers : (reservedName, Value.null) ∉ others) :
    settings'.overrideByName others = settings.overrideByName (updated changes others) ∨
      ∃ first second, (second, Value.null) ∈ changes ∧
        settings'.overrideByName others = .error (.unknownSetting first) ∧
        settings.overrideByName (updated changes others) = .error (.unknownSetting second) := by
  obtain ⟨hreserved, hknown, hdraft⟩ := of_overrideByName_eq_ok hok
  rw [overrideByName_eq, overrideByName_eq, any_reserved_updated hreserved hothers, hdraft,
    revise_updated]
  cases others.any (·.1 == reservedName) with
  | true => exact .inl rfl
  | false =>
      rcases unknown?_updated changes others with hsame | ⟨second, hsecond, hsome, hnull⟩
      · rw [hsame, hknown, Option.none_or]
        exact .inl rfl
      · obtain ⟨first, hfirst⟩ := Option.isSome_iff_exists.mp hsome
        rw [hfirst, hsecond]
        exact .inr ⟨first, second, hnull, rfl, rfl⟩

/-- Whatever a mapping and calls after it come to stands, so that an engine can be made with it; the
next call is refused for the first cause there is, and then nothing has changed, or its values are
put on top of those there are; and two calls are one, up to the unknown name that is refused. -/
theorem overriding_sound {source : String} {entries : List (Value × Value)} {start : Settings}
    (hstart : ofMapping source entries = .ok start) (calls : List (List (String × Value))) :
    Stands (calls.foldl reviseIfAccepted (given entries)) (calls.foldl amend start) ∧
      (∀ changes, Decides (calls.foldl reviseIfAccepted (given entries))
        (calls.foldl amend start) changes) ∧
      ∀ settings settings' changes others,
        overrideByName settings changes = .ok settings' →
        (reservedName, Value.null) ∉ others →
          settings'.overrideByName others = settings.overrideByName (updated changes others) ∨
          ∃ first second, (second, Value.null) ∈ changes ∧
            settings'.overrideByName others = .error (.unknownSetting first) ∧
            settings.overrideByName (updated changes others) =
              .error (.unknownSetting second) := by
  have hstands := (stands_of_ofDraft (ofDraft_of_ofMapping hstart)).foldl_amend calls
  exact ⟨hstands, hstands.decides, fun _ _ _ _ => overrideByName_updated⟩

/-- Three spaces, and no output directory, given as a null. -/
def spacedEntries : List (Value × Value) :=
  [(.text "indent_size", .int 3), (.text "output_directory", .null)]

def spaced : Settings :=
  { Settings.standard with indentSize := 3, indentSize_pos := Nat.succ_pos 2 }

/-- A call that is refused for its indentation, and one that is taken. -/
def mixedCalls : List (List (String × Value)) :=
  [[("extension", .text ".haml"), ("indent_size", .bool true)],
   [("emit_comments", .null), ("void_elements", .bool true)]]

/-- The flag is set after the calls, the extension is not, and another extension is refused; the
spaces and then the flag are one call. -/
theorem overriding_sound_mixedCalls :
    Stands (mixedCalls.foldl reviseIfAccepted (given spacedEntries))
        (mixedCalls.foldl amend spaced) ∧
      (mixedCalls.foldl amend spaced).toDraft .voidElements = .bool true ∧
      (mixedCalls.foldl amend spaced).toDraft .extension = .text ".slim" ∧
      (mixedCalls.foldl amend spaced).overrideByName [("extension", .text "erb")] =
        .error (.extension (.text "erb")) ∧
      spaced.overrideByName [("indent_size", .null), ("void_elements", .bool true)] =
        Settings.standard.overrideByName
          [("indent_size", .int 3), ("void_elements", .bool true)] := by
  have hstart : ofMapping "config" spacedEntries = .ok spaced := rfl
  obtain ⟨hstands, hdecides, hcomposes⟩ := overriding_sound hstart mixedCalls
  refine ⟨hstands, ?_, ?_, ((hdecides _).refused _).mpr rfl, ?_⟩
  · rw [hstands.holds]
    rfl
  · rw [hstands.holds]
    rfl
  · have htaken : Settings.standard.overrideByName
        [("indent_size", .int 3), ("void_elements", .null)] = .ok spaced := rfl
    rcases hcomposes .standard spaced _ [("indent_size", .null), ("void_elements", .bool true)]
      htaken (by simp [reservedName]) with hsame | ⟨first, second, -, hrefused, -⟩
    · exact hsame
    · cases hrefused

/-- A null under an unknown name is passed over, but keeps its place: a value that comes to it later
is refused before another one. -/
theorem overrideByName_updated_null :
    Settings.standard.overrideByName [("zork", .null)] = .ok .standard ∧
      Settings.standard.overrideByName [("bogus", .int 1), ("zork", .int 2)] =
        .error (.unknownSetting "bogus") ∧
      updated [("zork", .null)] [("bogus", .int 1), ("zork", .int 2)] =
        [("zork", .int 2), ("bogus", .int 1)] ∧
      Settings.standard.overrideByName [("zork", .int 2), ("bogus", .int 1)] =
        .error (.unknownSetting "zork") :=
  ⟨rfl, rfl, rfl, rfl⟩

end SlimTemplate.Settings
