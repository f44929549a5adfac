import SlimTemplate.Proofs.Erb.Recognition

/-!
What the check of balance accepts. Elements have to nest as in the grammar of brackets, one kind of
bracket for each name; blocks are counted. Main statement: no fault is found in a text if and only
if the tags at which it is cut are balanced in this sense, and recovery from a fault never closes
an element when none is open.
-/

namespace SlimTemplate.Erb

/-! Elements. -/

/-- The words of the grammar `S → ε | <n> S </n> S`. -/
inductive WellNested : List ElementMark → Prop
  | empty : WellNested []
  | element (name : String) {inner rest : List ElementMark} (hinner : WellNested inner)
      (hrest : WellNested rest) : WellNested (.opening name :: (inner ++ .closing name :: rest))

/-- The marks close the elements of a stack, innermost first, and nest otherwise. -/
inductive Closes : List String → List ElementMark → Prop
  | none {marks : List ElementMark} (h : WellNested marks) : Closes [] marks
  | top {name : String} {stack : List String} {inner rest : List ElementMark}
      (hinner : WellNested inner) (hrest : Closes stack rest) :
      Closes (name :: stack) (inner ++ .closing name :: rest)

theorem Closes.element (name : String) {stack : List String} {inner rest : List ElementMark}
    (hinner : WellNested inner) (h : Closes stack rest) :
    Closes stack (.opening name :: (inner ++ .closing name :: rest)) := by
  cases h with
  | none hnested => exact .none (.element name hinner hnested)
  | @top outer stack inner' rest hnested hrest =>
      have hcloses : Closes (outer :: stack) _ := .top (.element name hinner hnested) hrest
      simpa using hcloses

theorem closes_of_elementFaults {stack : List String} {marks : List ElementMark}
    (h : elementFaults stack marks = []) : Closes stack marks := by
  fun_induction elementFaults stack marks with
  | case1 stack =>
      rw [List.map_eq_nil_iff.mp h]
      exact .none .empty
  | case2 stack name marks ih =>
      -- the rest closes the element that is opened here before those of the stack
      cases ih h with
      | top hinner hrest => exact hrest.element name hinner
  | case3 | case5 | case6 => cases h
  | case4 stack name marks ih => exact .top .empty (ih h)

/-- A word of the grammar leaves the open elements as they are. -/
theorem WellNested.elementFaults_append {inner : List ElementMark} (h : WellNested inner)
    (stack : List String) (rest : List ElementMark) :
    elementFaults stack (inner ++ rest) = elementFaults stack rest := by
  induction h generalizing stack rest with
  | empty => rfl
  | element name _ _ ihInner ihRest =>
      simp only [List.cons_append, List.append_assoc, elementFaults]
      rw [ihInner, elementFaults, if_pos rfl, ihRest]

theorem elementFaults_eq_nil_iff {marks : List ElementMark} :
    elementFaults [] marks = [] ↔ WellNested marks := by
  constructor
  · intro h
    cases closes_of_elementFaults h with
    | none hnested => exact hnested
  · intro h
    have happend := h.elementFaults_append [] []
    rwa [List.append_nil] at happend

/-! Recovery. -/

/-- Elements are closed one by one up to the first of a name; there has to be one to close. -/
def closeThrough? (name : String) : List String → Option (List String)
  | [] => none
  | top :: stack => if top = name then some stack else closeThrough? name stack

/-- The check as it closes elements one by one. It has no result if it ever closes an element when
none is open. -/
def stepwiseFaults? : List String → List ElementMark → Option (List Imbalance)
  | stack, [] => some (stack.map .unclosed)
  | stack, .opening name :: marks => stepwiseFaults? (name :: stack) marks
  | [], .closing name :: marks => (stepwiseFaults? [] marks).map (.unexpected name :: ·)
  | top :: stack, .closing name :: marks =>
      if top = name then stepwiseFaults? stack marks
      else if (top :: stack).contains name then do
        let open' ← closeThrough? name (top :: stack)
        (stepwiseFaults? open' marks).map (.mismatched name top :: ·)
      else (stepwiseFaults? (top :: stack) marks).map (.mismatched name top :: ·)

theorem closeThrough?_of_mem {name : String} {stack : List String} (h : name ∈ stack) :
    closeThrough? name stack = some ((stack.dropWhile (· != name)).drop 1) := by
  induction stack with
  | nil => cases h
  | cons top stack ih =>
      rw [closeThrough?]
      by_cases htop : top = name
      · simp [htop]
      · rw [if_neg htop, ih ((List.mem_cons.mp h).resolve_left (Ne.symm htop))]
        simp [htop]

theorem stepwiseFaults?_eq (stack : List String) (marks : List ElementMark) :
    stepwiseFaults? stack marks = some (elementFaults stack marks) := by
  fun_induction elementFaults stack marks with
  | case1 stack => simp [stepwiseFaults?]
  | case2 stack name marks ih => rw [stepwiseFaults?, ih]
  | case3 name marks ih => rw [stepwiseFaults?, ih, Option.map_some]
  | case4 stack name marks ih => rw [stepwiseFaults?, if_pos rfl, ih]
  | case5 top stack name marks htop hmem ih =>
      -- elements are closed only when one of the name is open, so there is always one to close
      have hmem : name ∈ top :: stack := List.mem_cons_of_mem top (List.contains_iff_mem.mp hmem)
      have hdrop : (top :: stack).dropWhile (· != name) = stack.dropWhile (· != name) :=
        List.dropWhile_cons_of_pos (by simpa using htop)
      rw [stepwiseFaults?, if_neg htop, if_pos (List.contains_iff_mem.mpr hmem),
        closeThrough?_of_mem hmem, hdrop, Option.bind_eq_bind, Option.bind_some, ih,
        Option.map_some]
  | case6 top stack name marks htop hmem ih =>
      have hmem : name ∉ top :: stack := by simpa [Ne.symm htop] using hmem
      rw [stepwiseFaults?, if_neg htop, if_neg (by simpa using hmem), ih, Option.map_some]

/-! Blocks. -/

/-- Roles end the open blocks and all that they open: never more than are open, in the end all of
them, and branches stand only inside a block. -/
structure Paired (opened : Nat) (roles : List Role) : Prop where
  ends_le : ∀ before, before <+: roles → before.count .closes ≤ opened + before.count .opens
  ends_eq : roles.count .closes = opened + roles.count .opens
  inside : ∀ before after, roles = before ++ .middle :: after →
    before.count .closes < opened + before.count .opens

theorem paired_nil {opened : Nat} : Paired opened [] ↔ opened = 0 := by
  constructor
  · intro h
    simpa using h.ends_eq.symm
  · rintro rfl
    exact ⟨by simp, rfl, by simp⟩

theorem paired_cons {opened : Nat} {role : Role} {roles : List Role} :
    Paired opened (role :: roles) ↔
      [role].count .closes ≤ opened ∧ (role = .middle → 0 < opened) ∧
        Paired (opened + [role].count .opens - [role].count .closes) roles := by
  have hcount : ∀ (counted : Role) (before : List Role),
      (role :: before).count counted = [role].count counted + before.count counted :=
    fun counted before => @List.count_append _ _ counted [role] before
  constructor
  · intro h
    have hfirst : [role].count .closes ≤ opened := by
      have hle := h.ends_le [role] ⟨roles, rfl⟩
      cases role with
      | closes => exact hle
      | opens | middle | plain => exact Nat.zero_le _
    refine ⟨hfirst, ?_, ?_, ?_, ?_⟩
    · rintro rfl
      simpa using h.inside [] roles rfl
    · intro before hbefore
      have hle := h.ends_le (role :: before) (List.cons_prefix_cons.mpr ⟨rfl, hbefore⟩)
      rw [hcount .closes before, hcount .opens before] at hle
      omega
    · have heq := h.ends_eq
      rw [hcount .closes roles, hcount .opens roles] at heq
      omega
    · intro before after hroles
      have hlt := h.inside (role :: before) after (by rw [hroles]; rfl)
      rw [hcount .closes before, hcount .opens before] at hlt
      omega
  · rintro ⟨hfirst, hmiddle, h⟩
    refine ⟨?_, ?_, ?_⟩
    · intro before hbefore
      cases before with
      | nil => simp
      | cons first before =>
          obtain ⟨rfl, htail⟩ := List.cons_prefix_cons.mp hbefore
          have hle := h.ends_le before htail
          rw [hcount .closes before, hcount .opens before]
          omega
    · have heq := h.ends_eq
      rw [hcount .closes roles, hcount .opens roles]
      omega
    · intro before after hroles
      cases before with
      | nil => simpa using hmiddle (List.cons.inj hroles).1
      | cons first before =>
          obtain ⟨rfl, htail⟩ := List.cons.inj hroles
          have hlt := h.inside before after htail
          rw [hcount .closes before, hcount .opens before]
          omega

theorem blockFaults_eq_nil_iff {opened : Nat} {roles : List (Role × String)} :
    blockFaults opened roles = [] ↔ Paired opened (roles.map Prod.fst) := by
  fun_induction blockFaults opened roles with
  | case1 => simp [paired_nil]
  | case2 opened => simp [paired_nil]
  | case3 opened code roles ih => simpa [paired_cons] using ih
  | case4 opened code roles ih => simpa [paired_cons] using ih
  | case5 code roles ih => simp [paired_cons]
  | case6 opened code roles ih => simpa [paired_cons] using ih
  | case7 code roles ih => simp [paired_cons]
  | case8 opened code roles ih => simpa [paired_cons] using ih

/-! Texts. -/

def stepwiseImbalances? (checkStatements : Bool) (text : String) : Option (List Imbalance) :=
  (stepwiseFaults? [] (elementMarks text.toList)).map fun faults =>
    faults ++ if checkStatements then blockFaults 0 (blockRoles text.toList) else []

/-- The check comes to a result for every text and finds nothing exactly if the text is balanced:
cut into embedded tags and markup, and the markup at its HTML tags, the marks of the elements are
nested and, where blocks are checked too, the roles of the embedded tags are paired. -/
theorem imbalances_eq_nil_iff (checkStatements : Bool) (text : String) :
    stepwiseImbalances? checkStatements text = some (imbalances checkStatements text) ∧
      ∃ pieces tags, (∀ other, Cut EmbeddedForm text.toList other ↔ other = pieces) ∧
        (∀ other, Cut TagForm (pieces.filterMap Sum.getLeft?) other ↔ other = tags) ∧
        (imbalances checkStatements text = [] ↔
          WellNested ((tags.filterMap Sum.getRight?).filterMap HtmlTag.mark?) ∧
            (checkStatements = true → Paired 0
              (((pieces.filterMap Sum.getRight?).filterMap embeddedRole?).map Prod.fst))) := by
  refine ⟨by rw [stepwiseImbalances?, stepwiseFaults?_eq]; rfl, ?_⟩
  obtain ⟨pieces, hpieces⟩ := exists_embeddedCut text.toList
  obtain ⟨tags, htags⟩ := exists_tagCut (pieces.filterMap Sum.getLeft?)
  refine ⟨pieces, tags, hpieces, htags, ?_⟩
  have hcut := (hpieces pieces).mpr rfl
  have hmarks : elementMarks text.toList =
      (tags.filterMap Sum.getRight?).filterMap HtmlTag.mark? := by
    rw [elementMarks, hcut.markup_eq, ((htags tags).mpr rfl).htmlTags_eq]
  have hroles : blockRoles text.toList =
      (pieces.filterMap Sum.getRight?).filterMap embeddedRole? := by
    rw [blockRoles_eq, hcut.embeddedTags_eq]
  rw [imbalances, hmarks, hroles, List.append_eq_nil_iff, elementFaults_eq_nil_iff]
  cases checkStatements with
  | true => simp [blockFaults_eq_nil_iff]
  | false => simp

end SlimTemplate.Erb
