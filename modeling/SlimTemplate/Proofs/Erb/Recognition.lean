import SlimTemplate.Proofs.Erb.Reading
import SlimTemplate.Proofs.Slim.Names

/-!
What the scans of a text find. The written forms of embedded tags and of HTML tags are described
without their readers, and a text is cut at the leftmost places where something of such a form
starts. Main statements: the readers accept exactly these forms, and the scans make exactly these
cuts.
-/

namespace SlimTemplate.Erb

open Slim (IsTagName isNameChar isBlank_of_isNameChar isNameChar_of_isAlphanum)

/-! Cuts. -/

/-- A text is cut from left to right into items of a form and the characters between them. A
character stands between items only where no item starts. -/
inductive Cut {α : Type} (form : α → List Char → Prop) : List Char → List (Char ⊕ α) → Prop
  | done : Cut form [] []
  | item {item : α} {text rest : List Char} {pieces : List (Char ⊕ α)} (hform : form item text)
      (hrest : Cut form rest pieces) : Cut form (text ++ rest) (.inr item :: pieces)
  | between {c : Char} {rest : List Char} {pieces : List (Char ⊕ α)}
      (hnone : ∀ item text after, form item text → c :: rest ≠ text ++ after)
      (hrest : Cut form rest pieces) : Cut form (c :: rest) (.inl c :: pieces)

section Cut

variable {α : Type} {form : α → List Char → Prop}

/-- Every text has a cut into items that are not empty. -/
theorem exists_cut (hne : ∀ item, ¬ form item []) (cs : List Char) :
    ∃ pieces, Cut form cs pieces := by
  induction hlength : cs.length using Nat.strongRecOn generalizing cs with
  | _ n ih =>
      cases cs with
      | nil => exact ⟨[], .done⟩
      | cons c rest =>
          by_cases hsome : ∃ item text after, form item text ∧ c :: rest = text ++ after
          · obtain ⟨item, text, after, hform, heq⟩ := hsome
            have hpos : 0 < text.length := by
              apply List.length_pos_iff.mpr
              rintro rfl
              exact hne item hform
            have hless : after.length < n := by
              rw [← hlength, heq, List.length_append]
              omega
            obtain ⟨pieces, hpieces⟩ := ih _ hless after rfl
            rw [heq]
            exact ⟨_, .item hform hpieces⟩
          · have hnone : ∀ item text after, form item text → c :: rest ≠ text ++ after :=
              fun item text after hform heq => hsome ⟨item, text, after, hform, heq⟩
            obtain ⟨pieces, hpieces⟩ := ih _ (by rw [← hlength, List.length_cons]; omega) rest rfl
            exact ⟨_, .between hnone hpieces⟩

/-- At every place at most one item of the form starts. -/
def StartsOnce (form : α → List Char → Prop) : Prop :=
  ∀ {first second text text' rest rest'}, form first text → form second text' →
    text ++ rest = text' ++ rest' → first = second ∧ rest = rest'

theorem Cut.unique (hne : ∀ item, ¬ form item []) (honce : StartsOnce form) {cs : List Char}
    {pieces pieces' : List (Char ⊕ α)} (h : Cut form cs pieces) (h' : Cut form cs pieces') :
    pieces' = pieces := by
  have hnot : ∀ {item text rest}, form item text → text ++ rest ≠ [] := by
    intro item text rest hform hnil
    rw [(List.append_eq_nil_iff.mp hnil).1] at hform
    exact hne item hform
  induction h generalizing pieces' with
  | done =>
      generalize hcs : [] = cs at h'
      cases h' with
      | done => rfl
      | item hform _ => exact absurd hcs.symm (hnot hform)
      | between _ _ => cases hcs
  | @item item text rest pieces hform _ ih =>
      generalize hcs : text ++ rest = cs at h'
      cases h' with
      | done => exact absurd hcs (hnot hform)
      | item hform' hrest' =>
          obtain ⟨rfl, rfl⟩ := honce hform hform' hcs
          rw [ih hrest']
      | between hnone _ => exact absurd hcs.symm (hnone _ _ _ hform)
  | @between c rest pieces hnone _ ih =>
      generalize hcs : c :: rest = cs at h'
      cases h' with
      | done => cases hcs
      | item hform _ => exact absurd hcs (hnone _ _ _ hform)
      | between _ hrest' =>
          cases hcs
          rw [ih hrest']

theorem exists_cut_iff (hne : ∀ item, ¬ form item []) (honce : StartsOnce form)
    (cs : List Char) : ∃ pieces, ∀ other, Cut form cs other ↔ other = pieces := by
  obtain ⟨pieces, hpieces⟩ := exists_cut hne cs
  refine ⟨pieces, fun other => ⟨hpieces.unique hne honce, ?_⟩⟩
  rintro rfl
  exact hpieces

end Cut

/-! Embedded tags. -/

def Marker.sign : Marker → List Char
  | .run => []
  | .output => ['=']
  | .comment => ['#']

/-- How an embedded tag is written: its code ends at the first closing delimiter, and a sign right
after the opening delimiter is never code. -/
structure EmbeddedForm (tag : Marker × List Char) (text : List Char) : Prop where
  written : text = '<' :: '%' :: (tag.1.sign ++ (tag.2 ++ ['%', '>']))
  noClose : NoClose tag.2
  unsigned : tag.1 = .run → tag.2.head? ≠ some '=' ∧ tag.2.head? ≠ some '#'

theorem splitAtClose_eq_some_iff {cs code rest : List Char} :
    splitAtClose cs = some (code, rest) ↔ NoClose code ∧ cs = code ++ '%' :: '>' :: rest := by
  constructor
  · intro h
    fun_induction splitAtClose cs generalizing code with
    | case1 => cases h
    | case2 tail =>
        cases h
        exact ⟨by decide, rfl⟩
    | case3 c cs hnot ih =>
        obtain ⟨⟨code', rest'⟩, hsplit, hpair⟩ := Option.map_eq_some_iff.mp h
        cases hpair
        obtain ⟨hnone, rfl⟩ := ih hsplit
        refine ⟨fun hclose => ?_, rfl⟩
        rcases List.infix_cons_iff.mp hclose with hstart | hinside
        · -- the delimiter would have been found here
          obtain ⟨tail, htail⟩ := hstart
          cases htail
          exact hnot _ rfl rfl
        · exact hnone hinside
  · rintro ⟨hnone, rfl⟩
    exact splitAtClose_append hnone rest

theorem readEmbedded?_run {cs : List Char} (h : cs.head? ≠ some '=' ∧ cs.head? ≠ some '#') :
    readEmbedded? ('<' :: '%' :: cs) = (splitAtClose cs).map (.run, ·) := by
  rw [readEmbedded?]
  · rintro tail rfl
    exact h.1 rfl
  · rintro tail rfl
    exact h.2 rfl

theorem readEmbedded?_eq_some_iff {cs code rest : List Char} {marker : Marker} :
    readEmbedded? cs = some (marker, code, rest) ↔
      ∃ text, EmbeddedForm (marker, code) text ∧ cs = text ++ rest := by
  constructor
  · intro h
    rw [readEmbedded?.eq_def] at h
    split at h
    · obtain ⟨split, hsplit, hpair⟩ := Option.map_eq_some_iff.mp h
      cases hpair
      obtain ⟨hnone, rfl⟩ := splitAtClose_eq_some_iff.mp hsplit
      exact ⟨_, ⟨rfl, hnone, by simp⟩, by simp [Marker.sign]⟩
    · obtain ⟨split, hsplit, hpair⟩ := Option.map_eq_some_iff.mp h
      cases hpair
      obtain ⟨hnone, rfl⟩ := splitAtClose_eq_some_iff.mp hsplit
      exact ⟨_, ⟨rfl, hnone, by simp⟩, by simp [Marker.sign]⟩
    · rename_i hequals hhash
      obtain ⟨split, hsplit, hpair⟩ := Option.map_eq_some_iff.mp h
      cases hpair
      obtain ⟨hnone, rfl⟩ := splitAtClose_eq_some_iff.mp hsplit
      refine ⟨_, ⟨rfl, hnone, fun _ => ?_⟩, by simp [Marker.sign]⟩
      cases code with
      | nil => simp
      | cons c code =>
          constructor
          · rintro ⟨rfl⟩
            exact hequals _ rfl
          · rintro ⟨rfl⟩
            exact hhash _ rfl
    · cases h
  · rintro ⟨text, ⟨rfl, hnone, hunsigned⟩, rfl⟩
    have hsplit : splitAtClose (code ++ '%' :: '>' :: rest) = some (code, rest) :=
      splitAtClose_append hnone rest
    cases marker with
    | output | comment => simp [Marker.sign, readEmbedded?, hsplit]
    | run =>
        have hhead : (code ++ '%' :: '>' :: rest).head? ≠ some '=' ∧
            (code ++ '%' :: '>' :: rest).head? ≠ some '#' := by
          cases code with
          | nil => simp
          | cons c code => simpa using hunsigned rfl
        simp only [Marker.sign, List.nil_append, List.cons_append, List.append_assoc]
        rw [readEmbedded?_run hhead, hsplit]
        rfl

theorem startsOnce_embeddedForm : StartsOnce EmbeddedForm := by
  intro (marker, code) (marker', code') text text' rest rest' hform hform' heq
  have hread : readEmbedded? (text ++ rest) = some (marker, code, rest) :=
    readEmbedded?_eq_some_iff.mpr ⟨text, hform, rfl⟩
  rw [heq, readEmbedded?_eq_some_iff.mpr ⟨text', hform', rfl⟩] at hread
  cases hread
  exact ⟨rfl, rfl⟩

theorem exists_embeddedCut (cs : List Char) :
    ∃ pieces, ∀ other, Cut EmbeddedForm cs other ↔ other = pieces := by
  apply exists_cut_iff _ startsOnce_embeddedForm
  intro tag hform
  cases hform.written

/-- The scan for embedded tags makes the cut at their form. -/
theorem Cut.segments_eq {cs : List Char} {pieces : List (Char ⊕ Marker × List Char)}
    (h : Cut EmbeddedForm cs pieces) :
    segments cs = pieces.map (Sum.elim .char fun (marker, code) => .embedded marker code) := by
  induction h with
  | done => exact segments_nil
  | @item tag text rest pieces hform _ ih =>
      obtain ⟨marker, code⟩ := tag
      rw [segments_of_some (readEmbedded?_eq_some_iff.mpr ⟨text, hform, rfl⟩), ih]
      rfl
  | @between c rest pieces hnone _ ih =>
      have hread : readEmbedded? (c :: rest) = none := by
        cases hread : readEmbedded? (c :: rest) with
        | none => rfl
        | some found =>
            obtain ⟨marker, code, after⟩ := found
            obtain ⟨text, hform, heq⟩ := readEmbedded?_eq_some_iff.mp hread
            exact absurd heq (hnone _ text after hform)
      rw [segments_cons_of_none hread, ih]
      rfl

theorem Cut.markup_eq {cs : List Char} {pieces : List (Char ⊕ Marker × List Char)}
    (h : Cut EmbeddedForm cs pieces) : markup cs = pieces.filterMap Sum.getLeft? := by
  rw [markup, h.segments_eq, List.filterMap_map]
  congr 1
  funext piece
  cases piece <;> rfl

theorem Cut.embeddedTags_eq {cs : List Char} {pieces : List (Char ⊕ Marker × List Char)}
    (h : Cut EmbeddedForm cs pieces) : embeddedTags cs = pieces.filterMap Sum.getRight? := by
  rw [embeddedTags, h.segments_eq, List.filterMap_map]
  congr 1
  funext piece
  cases piece <;> rfl

/-! HTML tags. -/

def quotedValue : Option (List Char) → List Char
  | none => []
  | some value => '=' :: '"' :: (value ++ ['"'])

inductive AttributesForm : List (List Char × Option (List Char)) → List Char → Prop
  | none : AttributesForm [] []
  | one {blanks name text : List Char} {value : Option (List Char)}
      {attributes : List (List Char × Option (List Char))}
      (hblanks : blanks ≠ [] ∧ ∀ c ∈ blanks, Text.isBlank c = true)
      (hname : name ≠ [] ∧ ∀ c ∈ name, isAttributeChar c = true)
      (hvalue : ∀ content ∈ value, '"' ∉ content) (hrest : AttributesForm attributes text) :
      AttributesForm ((name, value) :: attributes)
        (blanks ++ (name ++ (quotedValue value ++ text)))

theorem isAttributeChar_of_isNameChar {c : Char} (h : isNameChar c = true) :
    isAttributeChar c = true := by
  have hmem : c ∉ ['"', '\'', '<', '>', '/', '='] := by
    intro hmem
    have hall : ['"', '\'', '<', '>', '/', '='].all (fun d => !isNameChar d) = true := by decide
    have hnot := List.all_eq_true.mp hall c hmem
    rw [h] at hnot
    cases hnot
  simpa [isAttributeChar, isBlank_of_isNameChar h] using hmem

theorem isBlank_of_isAttributeChar {c : Char} (h : isAttributeChar c = true) :
    Text.isBlank c = false := by
  simp only [isAttributeChar, Bool.not_eq_true', Bool.or_eq_false_iff] at h
  exact h.1

inductive TagForm (tag : HtmlTag) : List Char → Prop
  | written {attributes blanks : List Char} (hname : IsTagName tag.name)
      (hattributes : AttributesForm tag.attributes attributes)
      (hblanks : ∀ c ∈ blanks, Text.isBlank c = true) :
      TagForm tag ('<' :: ((if tag.closing then ['/'] else []) ++ (tag.name ++ (attributes ++
        (blanks ++ ((if tag.selfClosing then ['/'] else []) ++ ['>']))))))

theorem readAttributeValue?_eq_some_iff {cs rest : List Char} {value : Option (List Char)} :
    readAttributeValue? cs = some (value, rest) ↔
      (∀ content ∈ value, '"' ∉ content) ∧ cs = quotedValue value ++ rest ∧
        (value = none → rest.head? ≠ some '=') := by
  constructor
  · intro h
    rw [readAttributeValue?.eq_def] at h
    split at h
    · rename_i cs
      split at h
      · cases h
      · rename_i quote tail hdrop
        cases h
        have hquote : quote = '"' := by
          have hhead := List.head?_dropWhile_not (· != '"') cs
          rw [hdrop] at hhead
          simpa using hhead
        subst hquote
        refine ⟨?_, ?_, by simp⟩
        · rintro content ⟨rfl⟩ hmem
          have hquote := List.all_eq_true.mp List.all_takeWhile _ hmem
          cases hquote
        · rw [quotedValue, List.cons_append, List.cons_append, List.append_assoc,
            List.singleton_append, ← hdrop, List.takeWhile_append_dropWhile]
    · cases h
    · rename_i hvalue hequals
      cases h
      refine ⟨by simp, rfl, fun _ hhead => ?_⟩
      obtain ⟨tail, rfl⟩ := List.head?_eq_some_iff.mp hhead
      exact hequals tail rfl
  · rintro ⟨hvalue, rfl, hhead⟩
    cases value with
    | none =>
        have hhead := hhead rfl
        cases rest with
        | nil => rfl
        | cons c rest =>
            have hc : c ≠ '=' := by
              rintro rfl
              exact hhead rfl
            simp [quotedValue, readAttributeValue?, hc]
    | some content =>
        have hquotes : ∀ c ∈ content, (c != '"') = true := by
          intro c hc
          simp only [bne_iff_ne]
          rintro rfl
          exact hvalue content rfl hc
        simp [quotedValue, readAttributeValue?, List.dropWhile_append_of_pos hquotes,
          List.takeWhile_append_of_pos hquotes]

/-- What follows an attribute cannot be taken for a part of it. -/
def EndsAttribute (rest : List Char) : Prop :=
  ∃ c tail, rest = c :: tail ∧ isAttributeChar c = false ∧ c ≠ '='

theorem endsAttribute_of_isBlank {blanks : List Char} (hne : blanks ≠ [])
    (h : ∀ c ∈ blanks, Text.isBlank c = true) (rest : List Char) :
    EndsAttribute (blanks ++ rest) := by
  obtain ⟨c, blanks, rfl⟩ := List.exists_cons_of_ne_nil hne
  have hc := h c (by simp)
  refine ⟨c, blanks ++ rest, rfl, by simp [isAttributeChar, hc], ?_⟩
  rintro rfl
  cases hc

/-- An attribute is read from its form, whatever follows it. -/
theorem readAttributes?_one {blanks name rest : List Char} {value : Option (List Char)}
    (hblanks : blanks ≠ [] ∧ ∀ c ∈ blanks, Text.isBlank c = true)
    (hname : name ≠ [] ∧ ∀ c ∈ name, isAttributeChar c = true)
    (hvalue : ∀ content ∈ value, '"' ∉ content) (hrest : EndsAttribute rest) :
    readAttributes? (blanks ++ (name ++ (quotedValue value ++ rest))) =
      (readAttributes? rest).map fun (attributes, after) =>
        ((name, value) :: attributes, after) := by
  have hnext : ∃ c tail, quotedValue value ++ rest = c :: tail ∧ isAttributeChar c = false := by
    cases value with
    | none =>
        obtain ⟨c, tail, hcons, hc, -⟩ := hrest
        exact ⟨c, tail, hcons, hc⟩
    | some content => exact ⟨_, _, rfl, by decide⟩
  have hstart : ∀ c ∈ name, Text.isBlank c = false :=
    fun c hc => isBlank_of_isAttributeChar (hname.2 c hc)
  have htrim : Text.trimStart (blanks ++ (name ++ (quotedValue value ++ rest))) =
      name ++ (quotedValue value ++ rest) := by
    obtain ⟨c, cs, rfl⟩ := List.exists_cons_of_ne_nil hname.1
    rw [Text.trimStart, List.dropWhile_append_of_pos hblanks.2, List.cons_append,
      List.dropWhile_cons_of_neg (by simp [hstart c (by simp)])]
  obtain ⟨c, tail, hcons, hc⟩ := hnext
  have htake : (name ++ (quotedValue value ++ rest)).takeWhile isAttributeChar = name := by
    rw [List.takeWhile_append_of_pos hname.2, hcons, List.takeWhile_cons_of_neg (by simp [hc]),
      List.append_nil]
  have hdrop : (name ++ (quotedValue value ++ rest)).dropWhile isAttributeChar =
      quotedValue value ++ rest := by
    rw [List.dropWhile_append_of_pos hname.2, hcons, List.dropWhile_cons_of_neg (by simp [hc])]
  have hread : readAttributeValue? (quotedValue value ++ rest) = some (value, rest) := by
    refine readAttributeValue?_eq_some_iff.mpr ⟨hvalue, rfl, fun _ => ?_⟩
    obtain ⟨c, tail, rfl, -, hc⟩ := hrest
    simpa using hc
  have hhead : (blanks ++ (name ++ (quotedValue value ++ rest))).head?.any Text.isBlank = true := by
    obtain ⟨b, bs, rfl⟩ := List.exists_cons_of_ne_nil hblanks.1
    exact hblanks.2 b (by simp)
  rw [readAttributes?]
  simp only [htrim, htake]
  rw [dif_pos ⟨hhead, hname.1⟩]
  split
  · rename_i hnone
    rw [htrim, hdrop, hread] at hnone
    cases hnone
  · rename_i value' rest' hsome
    rw [htrim, hdrop, hread] at hsome
    cases hsome
    rfl

def EndsTag (rest : List Char) : Prop :=
  ∃ tail, rest = '/' :: tail ∨ rest = '>' :: tail

theorem EndsTag.endsAttribute {rest : List Char} (h : EndsTag rest) : EndsAttribute rest := by
  obtain ⟨tail, rfl | rfl⟩ := h
  · exact ⟨_, _, rfl, by decide⟩
  · exact ⟨_, _, rfl, by decide⟩

theorem readAttributes?_none {blanks rest : List Char} (h : ∀ c ∈ blanks, Text.isBlank c = true)
    (hrest : EndsTag rest) : readAttributes? (blanks ++ rest) = some ([], rest) := by
  have htrim : Text.trimStart (blanks ++ rest) = rest := by
    rw [Text.trimStart, List.dropWhile_append_of_pos h]
    obtain ⟨tail, rfl | rfl⟩ := hrest
    · rfl
    · rfl
  have hname : rest.takeWhile isAttributeChar = [] := by
    obtain ⟨c, tail, rfl, hc, -⟩ := hrest.endsAttribute
    exact List.takeWhile_cons_of_neg (by simp [hc])
  rw [readAttributes?]
  simp [htrim, hname]

theorem AttributesForm.endsAttribute {attributes : List (List Char × Option (List Char))}
    {text blanks rest : List Char} (h : AttributesForm attributes text)
    (hblanks : ∀ c ∈ blanks, Text.isBlank c = true) (hrest : EndsTag rest) :
    EndsAttribute (text ++ (blanks ++ rest)) := by
  cases h with
  | none =>
      by_cases hnil : blanks = []
      · subst hnil
        exact hrest.endsAttribute
      · exact endsAttribute_of_isBlank hnil hblanks rest
  | one hfirst _ _ _ =>
      rw [List.append_assoc]
      exact endsAttribute_of_isBlank hfirst.1 hfirst.2 _

theorem AttributesForm.readAttributes?_eq {attributes : List (List Char × Option (List Char))}
    {text blanks rest : List Char} (h : AttributesForm attributes text)
    (hblanks : ∀ c ∈ blanks, Text.isBlank c = true) (hrest : EndsTag rest) :
    readAttributes? (text ++ (blanks ++ rest)) = some (attributes, rest) := by
  induction h with
  | none => exact readAttributes?_none hblanks hrest
  | one hfirst hname hvalue hform ih =>
      have hends := hform.endsAttribute hblanks hrest
      simp only [List.append_assoc]
      rw [readAttributes?_one hfirst hname hvalue hends, ih]
      rfl

/-- What is read as attributes is written in their form. -/
theorem attributesForm_of_readAttributes? {cs rest : List Char}
    {attributes : List (List Char × Option (List Char))}
    (h : readAttributes? cs = some (attributes, rest)) :
    ∃ text blanks, AttributesForm attributes text ∧ (∀ c ∈ blanks, Text.isBlank c = true) ∧
      cs = text ++ (blanks ++ rest) := by
  have hsplit : ∀ cs : List Char, cs = cs.takeWhile Text.isBlank ++ Text.trimStart cs :=
    fun cs => List.takeWhile_append_dropWhile.symm
  have hblank : ∀ cs : List Char, ∀ c ∈ cs.takeWhile Text.isBlank, Text.isBlank c = true :=
    fun cs => List.all_eq_true.mp List.all_takeWhile
  fun_induction readAttributes? cs generalizing attributes with
  | case1 => cases h
  | case2 =>
      rename_i cs after name hname value rest' hvalue hless ih
      obtain ⟨⟨attributes', rest''⟩, hread, hpair⟩ := Option.map_eq_some_iff.mp h
      cases hpair
      obtain ⟨text, blanks, hform, hblanks, rfl⟩ := ih hread
      obtain ⟨hcontent, hdrop, -⟩ := readAttributeValue?_eq_some_iff.mp hvalue
      have hfirst : cs.takeWhile Text.isBlank ≠ [] := by
        cases cs with
        | nil => cases hname.1
        | cons c cs =>
            have hc : Text.isBlank c = true := hname.1
            simp [hc]
      refine ⟨_, blanks, .one ⟨hfirst, hblank cs⟩
        ⟨hname.2, List.all_eq_true.mp List.all_takeWhile⟩ hcontent hform, hblanks, ?_⟩
      simp only [List.append_assoc]
      rw [← hdrop, List.takeWhile_append_dropWhile]
      exact hsplit cs
  | case3 =>
      rename_i cs after name hname
      obtain ⟨rfl, rfl⟩ := Prod.mk.inj (Option.some.inj h)
      exact ⟨[], _, .none, hblank cs, hsplit cs⟩

theorem readTagEnd?_eq_some_iff {cs rest : List Char} {selfClosing : Bool} :
    readTagEnd? cs = some (selfClosing, rest) ↔
      cs = (if selfClosing then ['/'] else []) ++ '>' :: rest := by
  constructor
  · intro h
    rw [readTagEnd?.eq_def] at h
    split at h
    · cases h
      rfl
    · cases h
      rfl
    · cases h
  · rintro rfl
    cases selfClosing <;> rfl

theorem readNamed?_eq_some_iff {closing : Bool} {cs rest : List Char} {tag : HtmlTag} :
    readNamed? closing cs = some (tag, rest) ↔
      tag.closing = closing ∧ IsTagName tag.name ∧
        ∃ attributes blanks, AttributesForm tag.attributes attributes ∧
          (∀ c ∈ blanks, Text.isBlank c = true) ∧
          cs = tag.name ++ (attributes ++ (blanks ++
            ((if tag.selfClosing then ['/'] else []) ++ '>' :: rest))) := by
  constructor
  · intro h
    rw [readNamed?] at h
    split at h
    · rename_i hhead
      simp only [Option.bind_eq_bind, Option.bind_eq_some_iff, Option.some.injEq,
        Prod.mk.injEq] at h
      obtain ⟨⟨attributes, after⟩, hattributes, ⟨selfClosing, rest'⟩, hend, rfl, rfl⟩ := h
      obtain ⟨text, blanks, hform, hblanks, hdrop⟩ := attributesForm_of_readAttributes? hattributes
      have hafter : after = _ := readTagEnd?_eq_some_iff.mp hend
      have hname : IsTagName (cs.takeWhile Char.isAlphanum) := by
        refine ⟨?_, List.all_eq_true.mp List.all_takeWhile⟩
        cases cs with
        | nil => cases hhead
        | cons c cs =>
            have hc : c.isAlpha = true := hhead
            have halnum : c.isAlphanum = true := by simp [Char.isAlphanum, hc]
            simp [halnum, hc]
      refine ⟨rfl, hname, text, blanks, hform, hblanks, ?_⟩
      dsimp only
      rw [← hafter, ← hdrop, List.takeWhile_append_dropWhile]
    · cases h
  · rintro ⟨rfl, hname, attributes, blanks, hform, hblanks, rfl⟩
    have hends : EndsTag ((if tag.selfClosing then ['/'] else []) ++ '>' :: rest) := by
      cases tag.selfClosing
      · exact ⟨_, .inr rfl⟩
      · exact ⟨_, .inl rfl⟩
    have hread := hform.readAttributes?_eq hblanks hends
    obtain ⟨c, tail, hcons, hc, -⟩ := hform.endsAttribute hblanks hends
    generalize attributes ++ (blanks ++ ((if tag.selfClosing then ['/'] else []) ++
      '>' :: rest)) = after at hread hcons ⊢
    have hnot : ¬ c.isAlphanum = true := by
      intro halnum
      rw [isAttributeChar_of_isNameChar (isNameChar_of_isAlphanum halnum)] at hc
      cases hc
    have htake : (tag.name ++ after).takeWhile Char.isAlphanum = tag.name := by
      rw [List.takeWhile_append_of_pos hname.2, hcons, List.takeWhile_cons_of_neg hnot,
        List.append_nil]
    have hdrop : (tag.name ++ after).dropWhile Char.isAlphanum = after := by
      rw [List.dropWhile_append_of_pos hname.2, hcons, List.dropWhile_cons_of_neg hnot]
    have hhead : (tag.name ++ after).head?.any Char.isAlpha = true := by
      cases hcs : tag.name with
      | nil => simp [IsTagName, hcs] at hname
      | cons c cs => simpa [hcs] using hname.1
    rw [readNamed?, if_pos hhead, htake, hdrop, hread]
    simp [readTagEnd?_eq_some_iff.mpr rfl]

theorem readHtmlTag?_opening {cs : List Char} (h : cs.head? ≠ some '/') :
    readHtmlTag? ('<' :: cs) = readNamed? false cs := by
  rw [readHtmlTag?]
  rintro tail rfl
  exact h rfl

theorem readHtmlTag?_eq_some_iff {cs rest : List Char} {tag : HtmlTag} :
    readHtmlTag? cs = some (tag, rest) ↔ ∃ text, TagForm tag text ∧ cs = text ++ rest := by
  constructor
  · intro h
    rw [readHtmlTag?.eq_def] at h
    split at h
    · obtain ⟨hclosing, hname, attributes, blanks, hform, hblanks, rfl⟩ :=
        readNamed?_eq_some_iff.mp h
      exact ⟨_, .written hname hform hblanks, by simp [hclosing]⟩
    · obtain ⟨hclosing, hname, attributes, blanks, hform, hblanks, rfl⟩ :=
        readNamed?_eq_some_iff.mp h
      exact ⟨_, .written hname hform hblanks, by simp [hclosing]⟩
    · cases h
  · rintro ⟨text, @⟨attributes, blanks, hname, hform, hblanks⟩, rfl⟩
    have hread : readNamed? tag.closing (tag.name ++ (attributes ++ (blanks ++
        ((if tag.selfClosing then ['/'] else []) ++ '>' :: rest)))) = some (tag, rest) :=
      readNamed?_eq_some_iff.mpr ⟨rfl, hname, attributes, blanks, hform, hblanks, rfl⟩
    simp only [List.cons_append, List.append_assoc, List.nil_append]
    cases hclosing : tag.closing with
    | true =>
        rw [hclosing] at hread
        exact hread
    | false =>
        rw [hclosing] at hread
        refine (readHtmlTag?_opening ?_).trans hread
        cases hcs : tag.name with
        | nil => simp [IsTagName, hcs] at hname
        | cons c cs =>
            have hc := hname.2 c (by simp [hcs])
            rintro ⟨rfl⟩
            cases hc

theorem startsOnce_tagForm : StartsOnce TagForm := by
  intro tag tag' text text' rest rest' hform hform' heq
  have hread : readHtmlTag? (text ++ rest) = some (tag, rest) :=
    readHtmlTag?_eq_some_iff.mpr ⟨text, hform, rfl⟩
  rw [heq, readHtmlTag?_eq_some_iff.mpr ⟨text', hform', rfl⟩] at hread
  cases hread
  exact ⟨rfl, rfl⟩

theorem exists_tagCut (cs : List Char) :
    ∃ pieces, ∀ other, Cut TagForm cs other ↔ other = pieces := by
  apply exists_cut_iff _ startsOnce_tagForm
  intro tag hform
  cases hform

/-- The scan for HTML tags makes the cut at their form, and drops what stands between them. -/
theorem Cut.htmlTags_eq {cs : List Char} {pieces : List (Char ⊕ HtmlTag)}
    (h : Cut TagForm cs pieces) : htmlTags cs = pieces.filterMap Sum.getRight? := by
  induction h with
  | done => exact htmlTags_nil
  | @item tag text rest pieces hform _ ih =>
      rw [htmlTags_of_some (readHtmlTag?_eq_some_iff.mpr ⟨text, hform, rfl⟩), ih]
      rfl
  | @between c rest pieces hnone _ ih =>
      have hread : readHtmlTag? (c :: rest) = none := by
        cases hread : readHtmlTag? (c :: rest) with
        | none => rfl
        | some found =>
            obtain ⟨tag, after⟩ := found
            obtain ⟨text, hform, heq⟩ := readHtmlTag?_eq_some_iff.mp hread
            exact absurd heq (hnone tag text after hform)
      rw [htmlTags_cons_of_none hread, ih]
      rfl

end SlimTemplate.Erb
