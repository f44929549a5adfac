import Mathlib.Data.List.TakeWhile

/-!
Patterns that are matched with backtracking. A pattern has a list of ways to take the start of a
text, the preferred ones first, and matches in the first of them. A text is scanned for the matches
of a pattern from left to right, each of them behind the one before. Main statements: the ways of a
pattern are exactly the texts it describes, every text has exactly one scan, and what a scan leaves
between its matches holds no match.
-/

namespace SlimTemplate.Text

/-- A pattern for the start of a text. A repetition takes as often as it can before it takes less
often, and a choice tries its first pattern before its second. The text that a numbered group takes
is kept. -/
inductive Pattern where
  | empty
  | one (accepts : Char → Bool)
  | seq (first second : Pattern)
  | choice (first second : Pattern)
  | star (body : Pattern)
  | group (number : Nat) (body : Pattern)

/-- One way to take the start of a text: the texts of the groups, all that is taken, and what is
left. -/
structure Way where
  groups : List (Nat × List Char)
  text : List Char
  rest : List Char
  deriving DecidableEq, Repr

namespace Way

def stay (cs : List Char) : Way :=
  ⟨[], [], cs⟩

def join (first second : Way) : Way :=
  ⟨first.groups ++ second.groups, first.text ++ second.text, second.rest⟩

def inGroup (number : Nat) (way : Way) : Way :=
  { way with groups := (number, way.text) :: way.groups }

def group? (way : Way) (number : Nat) : Option (List Char) :=
  way.groups.lookup number

end Way

/-- The ways to repeat a step. Each repetition has to take something. -/
def repeated (step : List Char → List Way) (cs : List Char) : List Way :=
  ((step cs).flatMap fun way =>
    if _ : way.rest.length < cs.length then (repeated step way.rest).map way.join else []) ++
    [.stay cs]
termination_by cs.length

namespace Pattern

def char (c : Char) : Pattern :=
  .one (· == c)

/-- A run of characters that is not empty. -/
def run (accepts : Char → Bool) : Pattern :=
  .seq (.one accepts) (.star (.one accepts))

def optional (body : Pattern) : Pattern :=
  .choice body .empty

/-- The ways to take the start of a text, the preferred ones first. -/
def ways : Pattern → List Char → List Way
  | .empty, cs => [.stay cs]
  | .one _, [] => []
  | .one accepts, c :: cs => if accepts c then [⟨[], [c], cs⟩] else []
  | .seq first second, cs =>
      (first.ways cs).flatMap fun way => (second.ways way.rest).map way.join
  | .choice first second, cs => first.ways cs ++ second.ways cs
  | .star body, cs => repeated body.ways cs
  | .group number body, cs => (body.ways cs).map (Way.inGroup number)

def match? (p : Pattern) (cs : List Char) : Option Way :=
  (p.ways cs).head?

/-! What patterns describe. -/

/-- The texts that a pattern describes, with the texts of its groups. -/
inductive Takes : Pattern → List Char → List (Nat × List Char) → Prop
  | empty : Takes .empty [] []
  | one {accepts : Char → Bool} {c : Char} (hc : accepts c = true) : Takes (.one accepts) [c] []
  | seq {first second : Pattern} {text text' : List Char} {groups groups' : List (Nat × List Char)}
      (hfirst : Takes first text groups) (hsecond : Takes second text' groups') :
      Takes (.seq first second) (text ++ text') (groups ++ groups')
  | left {first second : Pattern} {text : List Char} {groups : List (Nat × List Char)}
      (hfirst : Takes first text groups) : Takes (.choice first second) text groups
  | right {first second : Pattern} {text : List Char} {groups : List (Nat × List Char)}
      (hsecond : Takes second text groups) : Takes (.choice first second) text groups
  | stop {body : Pattern} : Takes (.star body) [] []
  | more {body : Pattern} {text text' : List Char} {groups groups' : List (Nat × List Char)}
      (hbody : Takes body text groups) (hne : text ≠ [])
      (hstar : Takes (.star body) text' groups') :
      Takes (.star body) (text ++ text') (groups ++ groups')
  | group {number : Nat} {body : Pattern} {text : List Char} {groups : List (Nat × List Char)}
      (hbody : Takes body text groups) :
      Takes (.group number body) text ((number, text) :: groups)

section Takes

variable {text : List Char} {groups : List (Nat × List Char)}

theorem takes_empty_iff : Takes .empty text groups ↔ text = [] ∧ groups = [] := by
  constructor
  · rintro ⟨⟩
    exact ⟨rfl, rfl⟩
  · rintro ⟨rfl, rfl⟩
    exact .empty

theorem takes_one_iff {accepts : Char → Bool} :
    Takes (.one accepts) text groups ↔ ∃ c, accepts c = true ∧ text = [c] ∧ groups = [] := by
  constructor
  · intro h
    cases h with
    | one hc => exact ⟨_, hc, rfl, rfl⟩
  · rintro ⟨c, hc, rfl, rfl⟩
    exact .one hc

theorem takes_char_iff {c : Char} : Takes (.char c) text groups ↔ text = [c] ∧ groups = [] := by
  rw [char, takes_one_iff]
  constructor
  · rintro ⟨d, hd, rfl, rfl⟩
    rw [beq_iff_eq.mp hd]
    exact ⟨rfl, rfl⟩
  · rintro ⟨rfl, rfl⟩
    exact ⟨c, beq_self_eq_true c, rfl, rfl⟩

theorem takes_seq_iff {first second : Pattern} :
    Takes (.seq first second) text groups ↔
      ∃ before after groups₁ groups₂, Takes first before groups₁ ∧ Takes second after groups₂ ∧
        text = before ++ after ∧ groups = groups₁ ++ groups₂ := by
  constructor
  · intro h
    cases h with
    | seq hfirst hsecond => exact ⟨_, _, _, _, hfirst, hsecond, rfl, rfl⟩
  · rintro ⟨before, after, groups₁, groups₂, hfirst, hsecond, rfl, rfl⟩
    exact .seq hfirst hsecond

theorem takes_choice_iff {first second : Pattern} :
    Takes (.choice first second) text groups ↔
      Takes first text groups ∨ Takes second text groups := by
  constructor
  · intro h
    cases h with
    | left hfirst => exact .inl hfirst
    | right hsecond => exact .inr hsecond
  · rintro (hfirst | hsecond)
    · exact .left hfirst
    · exact .right hsecond

theorem takes_group_iff {number : Nat} {body : Pattern} :
    Takes (.group number body) text groups ↔
      ∃ inner, Takes body text inner ∧ groups = (number, text) :: inner := by
  constructor
  · intro h
    cases h with
    | group hbody => exact ⟨_, hbody, rfl⟩
  · rintro ⟨inner, hbody, rfl⟩
    exact .group hbody

theorem takes_optional_iff {body : Pattern} :
    Takes (.optional body) text groups ↔ Takes body text groups ∨ text = [] ∧ groups = [] := by
  rw [optional, takes_choice_iff, takes_empty_iff]

/-- What holds of no repetition and is kept by one more holds of all that a repetition takes. -/
theorem Takes.star_induction {body : Pattern} {motive : List Char → List (Nat × List Char) → Prop}
    (stop : motive [] [])
    (more : ∀ {text text' groups groups'}, Takes body text groups → motive text' groups' →
      motive (text ++ text') (groups ++ groups'))
    (h : Takes (.star body) text groups) : motive text groups := by
  generalize hp : Pattern.star body = p at h
  induction h with
  | stop => exact stop
  | more hbody _ _ _ ih =>
      cases hp
      exact more hbody (ih rfl)
  | empty | one | seq | left | right | group => cases hp

theorem takes_star_one_iff {accepts : Char → Bool} :
    Takes (.star (.one accepts)) text groups ↔ (∀ c ∈ text, accepts c = true) ∧ groups = [] := by
  constructor
  · intro h
    apply h.star_induction
    · exact ⟨List.forall_mem_nil _, rfl⟩
    · rintro text text' groups groups' hbody ⟨hall, rfl⟩
      obtain ⟨c, hc, rfl, rfl⟩ := takes_one_iff.mp hbody
      exact ⟨List.forall_mem_cons.mpr ⟨hc, hall⟩, rfl⟩
  · rintro ⟨hall, rfl⟩
    induction text with
    | nil => exact .stop
    | cons c text ih =>
        obtain ⟨hc, hall⟩ := List.forall_mem_cons.mp hall
        exact .more (.one hc) (List.cons_ne_nil c []) (ih hall)

theorem takes_run_iff {accepts : Char → Bool} :
    Takes (.run accepts) text groups ↔
      (text ≠ [] ∧ ∀ c ∈ text, accepts c = true) ∧ groups = [] := by
  rw [run, takes_seq_iff]
  constructor
  · rintro ⟨before, after, groups₁, groups₂, hone, hstar, rfl, rfl⟩
    obtain ⟨c, hc, rfl, rfl⟩ := takes_one_iff.mp hone
    obtain ⟨hall, rfl⟩ := takes_star_one_iff.mp hstar
    exact ⟨⟨List.cons_ne_nil c after, List.forall_mem_cons.mpr ⟨hc, hall⟩⟩, rfl⟩
  · rintro ⟨⟨hne, hall⟩, rfl⟩
    obtain ⟨c, after, rfl⟩ := List.exists_cons_of_ne_nil hne
    obtain ⟨hc, hall⟩ := List.forall_mem_cons.mp hall
    exact ⟨[c], after, [], [], .one hc, takes_star_one_iff.mpr ⟨hall, rfl⟩, rfl, rfl⟩

end Takes

/-- A pattern without groups, by the texts that it describes. -/
def Describes (p : Pattern) (described : List Char → Prop) : Prop :=
  ∀ text groups, p.Takes text groups ↔ described text ∧ groups = []

section Describes

variable {p second : Pattern} {described : List Char → Prop} {text : List Char}
  {groups : List (Nat × List Char)}

theorem Describes.takes_seq_iff (h : p.Describes described) :
    (seq p second).Takes text groups ↔
      ∃ before after, described before ∧ second.Takes after groups ∧ text = before ++ after := by
  rw [Pattern.takes_seq_iff]
  constructor
  · rintro ⟨before, after, groups₁, groups₂, hfirst, hsecond, rfl, rfl⟩
    obtain ⟨hbefore, rfl⟩ := (h _ _).mp hfirst
    exact ⟨before, after, hbefore, hsecond, rfl⟩
  · rintro ⟨before, after, hbefore, hsecond, rfl⟩
    exact ⟨before, after, [], groups, (h _ _).mpr ⟨hbefore, rfl⟩, hsecond, rfl, rfl⟩

theorem Describes.takes_group_seq_iff (h : p.Describes described) {number : Nat} :
    (seq (group number p) second).Takes text groups ↔
      ∃ before after groups', described before ∧ second.Takes after groups' ∧
        text = before ++ after ∧ groups = (number, before) :: groups' := by
  rw [Pattern.takes_seq_iff]
  constructor
  · rintro ⟨before, after, groups₁, groups₂, hfirst, hsecond, rfl, rfl⟩
    obtain ⟨inner, hinner, rfl⟩ := takes_group_iff.mp hfirst
    obtain ⟨hbefore, rfl⟩ := (h _ _).mp hinner
    exact ⟨before, after, groups₂, hbefore, hsecond, rfl, rfl⟩
  · rintro ⟨before, after, groups', hbefore, hsecond, rfl, rfl⟩
    exact ⟨before, after, [(number, before)], groups', .group ((h _ _).mpr ⟨hbefore, rfl⟩), hsecond,
      rfl, rfl⟩

theorem Describes.seq {described' : List Char → Prop} (h : p.Describes described)
    (h' : second.Describes described') :
    (Pattern.seq p second).Describes fun text =>
      ∃ before after, described before ∧ described' after ∧ text = before ++ after := by
  intro text groups
  rw [h.takes_seq_iff]
  constructor
  · rintro ⟨before, after, hbefore, hafter, rfl⟩
    obtain ⟨hdescribed, rfl⟩ := (h' _ _).mp hafter
    exact ⟨⟨before, after, hbefore, hdescribed, rfl⟩, rfl⟩
  · rintro ⟨⟨before, after, hbefore, hafter, rfl⟩, rfl⟩
    exact ⟨before, after, hbefore, (h' _ _).mpr ⟨hafter, rfl⟩, rfl⟩

theorem describes_char (c : Char) : (char c).Describes (· = [c]) :=
  fun _ _ => takes_char_iff

theorem describes_star_one (accepts : Char → Bool) :
    (star (one accepts)).Describes (∀ c ∈ ·, accepts c = true) :=
  fun _ _ => takes_star_one_iff

theorem describes_run (accepts : Char → Bool) :
    (run accepts).Describes fun text => text ≠ [] ∧ ∀ c ∈ text, accepts c = true :=
  fun _ _ => takes_run_iff

theorem Describes.optional (h : p.Describes described) :
    (Pattern.optional p).Describes fun text => described text ∨ text = [] := by
  intro text groups
  rw [takes_optional_iff, h, or_and_right]

theorem Describes.congr {described' : List Char → Prop} (h : p.Describes described)
    (hiff : ∀ text, described text ↔ described' text) : p.Describes described' := by
  intro text groups
  rw [h, hiff]

end Describes

theorem mem_repeated_iff {body : Pattern} {step : List Char → List Way}
    (hstep : ∀ cs way, way ∈ step cs ↔ body.Takes way.text way.groups ∧ cs = way.text ++ way.rest)
    (cs : List Char) (way : Way) :
    way ∈ repeated step cs ↔
      (Pattern.star body).Takes way.text way.groups ∧ cs = way.text ++ way.rest := by
  -- a repetition takes something, so the text behind it is shorter
  induction hlength : cs.length using Nat.strongRecOn generalizing cs way with
  | _ n ih =>
      rw [repeated, List.mem_append, List.mem_flatMap, List.mem_singleton]
      constructor
      · rintro (⟨first, hfirst, hmem⟩ | rfl)
        · split at hmem
          · rename_i hless
            obtain ⟨hbody, rfl⟩ := (hstep cs first).mp hfirst
            obtain ⟨second, hsecond, rfl⟩ := List.mem_map.mp hmem
            obtain ⟨hstar, hrest⟩ := (ih _ (hlength ▸ hless) first.rest second rfl).mp hsecond
            have hne : first.text ≠ [] := by
              intro hnil
              rw [hnil] at hless
              exact Nat.lt_irrefl _ hless
            refine ⟨.more hbody hne hstar, ?_⟩
            rw [hrest, Way.join, List.append_assoc]
          · cases hmem
        · exact ⟨.stop, rfl⟩
      · obtain ⟨groups, text, rest⟩ := way
        rintro ⟨hstar, rfl⟩
        dsimp only at hstar hlength ⊢
        cases hstar with
        | stop => exact .inr rfl
        | @more _ text text' groups groups' hbody hne hstar =>
            have hless : (text' ++ rest).length < (text ++ text' ++ rest).length := by
              have := List.length_pos_iff.mpr hne
              simp only [List.length_append]
              omega
            refine .inl ⟨⟨groups, text, text' ++ rest⟩, (hstep _ _).mpr ⟨hbody, by simp⟩, ?_⟩
            rw [dif_pos hless]
            exact List.mem_map.mpr ⟨⟨groups', text', rest⟩,
              (ih _ (hlength ▸ hless) _ _ rfl).mpr ⟨hstar, rfl⟩, rfl⟩

/-- The ways of a pattern are exactly the texts it describes, where the text starts with them. -/
theorem mem_ways_iff (p : Pattern) (cs : List Char) (way : Way) :
    way ∈ p.ways cs ↔ p.Takes way.text way.groups ∧ cs = way.text ++ way.rest := by
  induction p generalizing cs way with
  | empty =>
      rw [ways, List.mem_singleton, takes_empty_iff]
      obtain ⟨groups, text, rest⟩ := way
      constructor
      · rintro ⟨⟩
        exact ⟨⟨rfl, rfl⟩, rfl⟩
      · rintro ⟨⟨rfl, rfl⟩, rfl⟩
        rfl
  | one accepts =>
      rw [takes_one_iff]
      obtain ⟨groups, text, rest⟩ := way
      constructor
      · intro hmem
        cases cs with
        | nil => cases hmem
        | cons c cs =>
            rw [ways] at hmem
            split at hmem
            · cases List.mem_singleton.mp hmem
              exact ⟨⟨c, ‹_›, rfl, rfl⟩, rfl⟩
            · cases hmem
      · rintro ⟨⟨c, hc, rfl, rfl⟩, rfl⟩
        rw [List.singleton_append, ways, if_pos hc]
        exact List.mem_singleton_self _
  | seq first second ihfirst ihsecond =>
      rw [ways, List.mem_flatMap, takes_seq_iff]
      constructor
      · rintro ⟨before, hbefore, hmem⟩
        obtain ⟨after, hafter, rfl⟩ := List.mem_map.mp hmem
        obtain ⟨hfirst, rfl⟩ := (ihfirst _ _).mp hbefore
        obtain ⟨hsecond, hrest⟩ := (ihsecond _ _).mp hafter
        refine ⟨⟨_, _, _, _, hfirst, hsecond, rfl, rfl⟩, ?_⟩
        rw [hrest, Way.join, List.append_assoc]
      · obtain ⟨groups, text, rest⟩ := way
        rintro ⟨⟨before, after, groups₁, groups₂, hfirst, hsecond, rfl, rfl⟩, rfl⟩
        refine ⟨⟨groups₁, before, after ++ rest⟩, (ihfirst _ _).mpr ⟨hfirst, by simp⟩, ?_⟩
        exact List.mem_map.mpr ⟨⟨groups₂, after, rest⟩, (ihsecond _ _).mpr ⟨hsecond, rfl⟩, rfl⟩
  | choice first second ihfirst ihsecond =>
      rw [ways, List.mem_append, ihfirst, ihsecond, takes_choice_iff, or_and_right]
  | star body ih => exact mem_repeated_iff ih cs way
  | group number body ih =>
      rw [ways, List.mem_map, takes_group_iff]
      constructor
      · rintro ⟨inner, hinner, rfl⟩
        obtain ⟨hbody, hcs⟩ := (ih _ _).mp hinner
        exact ⟨⟨_, hbody, rfl⟩, hcs⟩
      · obtain ⟨groups, text, rest⟩ := way
        dsimp only
        rintro ⟨⟨inner, hbody, rfl⟩, hcs⟩
        exact ⟨⟨inner, text, rest⟩, (ih _ _).mpr ⟨hbody, hcs⟩, rfl⟩

/-! Matches. -/

section Match

variable {p : Pattern} {cs : List Char} {way : Way}

theorem text_of_match? (h : p.match? cs = some way) : cs = way.text ++ way.rest :=
  ((mem_ways_iff p cs way).mp (List.mem_of_head? h)).2

theorem match?_eq_none_iff : p.match? cs = none ↔ ∀ way, way ∉ p.ways cs := by
  rw [match?, List.head?_eq_none_iff, List.eq_nil_iff_forall_not_mem]

/-- A pattern that matches still matches when the text goes on. -/
theorem match?_eq_none_of_append {more : List Char} (h : p.match? (cs ++ more) = none) :
    p.match? cs = none := by
  rw [match?_eq_none_iff] at h ⊢
  intro way hway
  obtain ⟨htakes, rfl⟩ := (mem_ways_iff p cs way).mp hway
  refine h ⟨way.groups, way.text, way.rest ++ more⟩ ((mem_ways_iff _ _ _).mpr ⟨htakes, ?_⟩)
  exact List.append_assoc _ _ _

/-- Where there is only one way, the pattern matches in it. -/
theorem match?_eq_some_of_unique (hmem : way ∈ p.ways cs)
    (honly : ∀ other ∈ p.ways cs, other = way) : p.match? cs = some way := by
  rw [match?]
  cases hways : p.ways cs with
  | nil =>
      rw [hways] at hmem
      cases hmem
  | cons first others =>
      rw [honly first (by rw [hways]; exact List.mem_cons_self)]
      rfl

end Match

theorem ways_char_cons (c d : Char) (cs : List Char) :
    (char c).ways (d :: cs) = if d = c then [⟨[], [d], cs⟩] else [] := by
  rw [char, ways]
  simp only [beq_iff_eq]

theorem ways_char_of_ne {c d : Char} (h : d ≠ c) (cs : List Char) :
    (char c).ways (d :: cs) = [] := by
  rw [ways_char_cons, if_neg h]

theorem match?_choice (first second : Pattern) (cs : List Char) :
    (choice first second).match? cs = (first.match? cs).or (second.match? cs) := by
  rw [match?, ways, List.head?_append]
  rfl

theorem match?_group (number : Nat) (body : Pattern) (cs : List Char) :
    (group number body).match? cs = (body.match? cs).map (Way.inGroup number) := by
  rw [match?, ways, List.head?_map]
  rfl

/-! Runs. -/

section Runs

variable {accepts : Char → Bool}

theorem ways_star_one_cons (c : Char) (cs : List Char) :
    (star (one accepts)).ways (c :: cs) =
      if accepts c then
        ((star (one accepts)).ways cs).map (Way.join ⟨[], [c], cs⟩) ++ [.stay (c :: cs)]
      else [.stay (c :: cs)] := by
  rw [ways, repeated, ways]
  split
  · simp [ways]
  · simp

/-- A run is matched as far as it goes. -/
theorem match?_star_one (cs : List Char) :
    (star (one accepts)).match? cs = some ⟨[], cs.takeWhile accepts, cs.dropWhile accepts⟩ := by
  induction cs with
  | nil =>
      rw [match?, ways, repeated]
      rfl
  | cons c cs ih =>
      rw [match?] at ih
      rw [match?, ways_star_one_cons]
      by_cases hc : accepts c = true
      · rw [if_pos hc, List.head?_append, List.head?_map, ih, List.takeWhile_cons_of_pos hc,
          List.dropWhile_cons_of_pos hc]
        rfl
      · rw [if_neg hc, List.takeWhile_cons_of_neg hc, List.dropWhile_cons_of_neg hc]
        rfl

theorem match?_run_cons (c : Char) (cs : List Char) :
    (run accepts).match? (c :: cs) =
      if accepts c then some ⟨[], c :: cs.takeWhile accepts, cs.dropWhile accepts⟩ else none := by
  have hstar := @match?_star_one accepts cs
  rw [match?] at hstar
  rw [match?, run, ways, ways]
  by_cases hc : accepts c = true
  · rw [if_pos hc, if_pos hc, List.flatMap_singleton, List.head?_map, hstar]
    rfl
  · rw [if_neg hc, if_neg hc]
    rfl

/-- Backtracking into a run is in vain where nothing can go on inside it. -/
theorem flatMap_star_one {β : Type} {f : Way → List β}
    (hf : ∀ way c tail, way.rest = c :: tail → accepts c = true → f way = []) (cs : List Char) :
    ((star (one accepts)).ways cs).flatMap f =
      f ⟨[], cs.takeWhile accepts, cs.dropWhile accepts⟩ := by
  induction cs generalizing f with
  | nil =>
      rw [ways, repeated]
      exact List.append_nil _
  | cons c cs ih =>
      rw [ways_star_one_cons]
      by_cases hc : accepts c = true
      · have hshorter := ih (f := fun way => f (Way.join ⟨[], [c], cs⟩ way))
          fun way d tail hrest hd => hf _ d tail hrest hd
        rw [if_pos hc, List.flatMap_append, List.flatMap_map, hshorter, List.flatMap_singleton,
          hf (.stay (c :: cs)) c cs rfl hc, List.append_nil, List.takeWhile_cons_of_pos hc,
          List.dropWhile_cons_of_pos hc]
        rfl
      · rw [if_neg hc, List.flatMap_singleton, List.takeWhile_cons_of_neg hc,
          List.dropWhile_cons_of_neg hc]
        rfl

theorem flatMap_run {β : Type} {f : Way → List β}
    (hf : ∀ way c tail, way.rest = c :: tail → accepts c = true → f way = []) (cs : List Char) :
    ((run accepts).ways cs).flatMap f =
      if cs.takeWhile accepts = [] then []
      else f ⟨[], cs.takeWhile accepts, cs.dropWhile accepts⟩ := by
  cases cs with
  | nil => rfl
  | cons c cs =>
      rw [run, ways, ways]
      by_cases hc : accepts c = true
      · have hstar := flatMap_star_one (f := fun way => f (Way.join ⟨[], [c], cs⟩ way))
          (fun way d tail hrest hd => hf _ d tail hrest hd) cs
        rw [if_pos hc, List.flatMap_singleton, List.flatMap_map, hstar,
          List.takeWhile_cons_of_pos hc, List.dropWhile_cons_of_pos hc,
          if_neg (List.cons_ne_nil _ _)]
        rfl
      · rw [if_neg hc, List.takeWhile_cons_of_neg hc, if_pos rfl]
        rfl

theorem ways_group_seq (number : Nat) (body p : Pattern) (cs : List Char) :
    (seq (group number body) p).ways cs =
      (body.ways cs).flatMap fun way => (p.ways way.rest).map (way.inGroup number).join := by
  rw [ways, ways, List.flatMap_map]
  rfl

/-- Nothing described by the pattern starts with a character of the class. -/
def Avoids (p : Pattern) (accepts : Char → Bool) : Prop :=
  ∀ c cs, accepts c = true → p.ways (c :: cs) = []

theorem ways_star_one_seq {p : Pattern} (h : p.Avoids accepts) (cs : List Char) :
    (seq (star (one accepts)) p).ways cs =
      (p.ways (cs.dropWhile accepts)).map
        (Way.join ⟨[], cs.takeWhile accepts, cs.dropWhile accepts⟩) := by
  rw [ways, flatMap_star_one]
  intro way c tail hrest hc
  rw [hrest, h c tail hc, List.map_nil]

end Runs

/-! Scans. -/

/-- The scan of a text: its matches from left to right, each with the gap before it, and what comes
after the last of them. At no place in a gap the pattern matches. -/
inductive Scan (p : Pattern) : List Char → List (List Char × Way) → List Char → Prop
  | done {cs : List Char} (hnone : ∀ rest, rest <:+ cs → p.match? rest = none) : Scan p cs [] cs
  | next {gap last : List Char} {way : Way} {found : List (List Char × Way)}
      (hgap : ∀ c tail, c :: tail <:+ gap → p.match? (c :: tail ++ (way.text ++ way.rest)) = none)
      (hmatch : p.match? (way.text ++ way.rest) = some way) (hrest : Scan p way.rest found last) :
      Scan p (gap ++ (way.text ++ way.rest)) ((gap, way) :: found) last

section Scan

variable {p : Pattern} {cs last : List Char} {found : List (List Char × Way)}

theorem Scan.text_eq (h : Scan p cs found last) :
    cs = found.flatMap (fun item => item.1 ++ item.2.text) ++ last := by
  induction h with
  | done => rfl
  | next _ _ _ ih =>
      rw [List.flatMap_cons, List.append_assoc, List.append_assoc, ← ih]

/-- A match stands where the pattern matches. -/
theorem Scan.of_mem (h : Scan p cs found last) {gap : List Char} {way : Way}
    (hmem : (gap, way) ∈ found) :
    (∃ before, cs = before ++ (way.text ++ way.rest)) ∧
      p.match? (way.text ++ way.rest) = some way := by
  induction h with
  | done => cases hmem
  | @next first _ firstWay _ _ hmatch _ ih =>
      cases List.mem_cons.mp hmem with
      | inl heq =>
          cases heq
          exact ⟨⟨gap, rfl⟩, hmatch⟩
      | inr hmem =>
          obtain ⟨⟨before, hbefore⟩, hmatch⟩ := ih hmem
          refine ⟨⟨first ++ (firstWay.text ++ before), ?_⟩, hmatch⟩
          rw [hbefore]
          simp only [List.append_assoc]

/-- A character at which the pattern does not match is added to the first gap. -/
theorem Scan.cons {c : Char} (hnone : p.match? (c :: cs) = none) (h : Scan p cs found last) :
    ∃ found last, Scan p (c :: cs) found last := by
  cases h with
  | done hrest =>
      refine ⟨[], c :: cs, .done fun rest hsuffix => ?_⟩
      cases List.suffix_cons_iff.mp hsuffix with
      | inl heq => exact heq ▸ hnone
      | inr hsuffix => exact hrest rest hsuffix
  | @next gap _ way found hgap hmatch hrest =>
      refine ⟨(c :: gap, way) :: found, last,
        @Scan.next p (c :: gap) last way found ?_ hmatch hrest⟩
      intro d tail hsuffix
      cases List.suffix_cons_iff.mp hsuffix with
      | inl heq => exact heq ▸ hnone
      | inr hsuffix => exact hgap d tail hsuffix

/-- Every text has a scan, if the pattern never matches without taking anything. -/
theorem exists_scan (hne : ∀ groups, ¬ p.Takes [] groups) (cs : List Char) :
    ∃ found last, Scan p cs found last := by
  induction hlength : cs.length using Nat.strongRecOn generalizing cs with
  | _ n ih =>
      cases hmatch : p.match? cs with
      | some way =>
          have hcs := text_of_match? hmatch
          have htakes := ((mem_ways_iff p cs way).mp (List.mem_of_head? hmatch)).1
          have hpos : 0 < way.text.length := by
            apply List.length_pos_iff.mpr
            intro hnil
            exact hne way.groups (hnil ▸ htakes)
          have hless : way.rest.length < n := by
            rw [← hlength, hcs, List.length_append]
            omega
          obtain ⟨found, last, hscan⟩ := ih _ hless way.rest rfl
          refine ⟨([], way) :: found, last, ?_⟩
          rw [hcs] at hmatch ⊢
          exact @Scan.next p [] last way found
            (fun c tail hsuffix => by cases List.suffix_nil.mp hsuffix) hmatch hscan
      | none =>
          cases cs with
          | nil =>
              refine ⟨[], [], .done fun rest hsuffix => ?_⟩
              rw [List.suffix_nil.mp hsuffix, hmatch]
          | cons c cs =>
              obtain ⟨found, last, hscan⟩ :=
                ih _ (by rw [← hlength, List.length_cons]; omega) cs rfl
              exact hscan.cons hmatch

/-- A gap ends no later than at any place where the pattern matches. -/
theorem length_gap_le {gap gap' rest rest' : List Char} (hcs : gap ++ rest = gap' ++ rest')
    (hmatch : p.match? rest ≠ none)
    (hgap' : ∀ c tail, c :: tail <:+ gap' → p.match? (c :: tail ++ rest') = none) :
    gap'.length ≤ gap.length := by
  rcases List.append_eq_append_iff.mp hcs with ⟨more, rfl, heq⟩ | ⟨more, rfl, -⟩
  · cases more with
    | nil => rw [List.append_nil]
    | cons c tail =>
        rw [heq] at hmatch
        exact absurd (hgap' c tail (List.suffix_append _ _)) hmatch
  · rw [List.length_append]
    omega

theorem Scan.unique {found' : List (List Char × Way)} {last' : List Char}
    (h : Scan p cs found last) (h' : Scan p cs found' last') : found' = found ∧ last' = last := by
  induction h generalizing found' last' with
  | done hnone =>
      cases h' with
      | done => exact ⟨rfl, rfl⟩
      | next _ hmatch _ =>
          rw [hnone _ (List.suffix_append _ _)] at hmatch
          cases hmatch
  | @next gap last way found hgap hmatch hrest ih =>
      generalize hcs : gap ++ (way.text ++ way.rest) = cs at h'
      cases h' with
      | done hnone =>
          rw [hnone _ ⟨gap, hcs⟩] at hmatch
          cases hmatch
      | @next gap' _ way' found' hgap' hmatch' hrest' =>
          have hlength : gap.length = gap'.length := Nat.le_antisymm
            (length_gap_le hcs.symm (by rw [hmatch']; exact Option.some_ne_none _) hgap)
            (length_gap_le hcs (by rw [hmatch]; exact Option.some_ne_none _) hgap')
          obtain ⟨rfl, heq⟩ := List.append_inj hcs hlength
          rw [heq, hmatch'] at hmatch
          cases hmatch
          obtain ⟨rfl, rfl⟩ := ih hrest'
          exact ⟨rfl, rfl⟩

theorem exists_scan_iff (hne : ∀ groups, ¬ p.Takes [] groups) (cs : List Char) :
    ∃ found last, ∀ found' last', Scan p cs found' last' ↔ found' = found ∧ last' = last := by
  obtain ⟨found, last, hscan⟩ := exists_scan hne cs
  refine ⟨found, last, fun found' last' => ⟨hscan.unique, ?_⟩⟩
  rintro ⟨rfl, rfl⟩
  exact hscan

/-- No gap holds a match, not even if it is taken for itself. -/
theorem Scan.match?_gap (hne : ∀ groups, ¬ p.Takes [] groups) (h : Scan p cs found last) :
    ∀ gap ∈ found.map Prod.fst ++ [last], ∀ rest, rest <:+ gap → p.match? rest = none := by
  induction h with
  | done hnone =>
      intro gap hmem
      rw [List.mem_singleton.mp hmem]
      exact hnone
  | @next first _ way _ hgap _ _ ih =>
      intro gap hmem rest hsuffix
      cases List.mem_cons.mp hmem with
      | inr hmem => exact ih gap hmem rest hsuffix
      | inl heq =>
          subst heq
          cases rest with
          | cons c tail => exact match?_eq_none_of_append (hgap c tail hsuffix)
          | nil =>
              rw [match?_eq_none_iff]
              intro way hway
              obtain ⟨htakes, hnil⟩ := (mem_ways_iff p [] way).mp hway
              rw [(List.append_eq_nil_iff.mp hnil.symm).1] at htakes
              exact hne way.groups htakes

end Scan

end Pattern
end SlimTemplate.Text
