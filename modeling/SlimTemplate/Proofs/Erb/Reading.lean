import Mathlib.Data.List.Infix
import SlimTemplate.Erb.Balance

/-!
How the check of balance reads a text piece by piece. A text is contained if both scans, the one
for embedded tags and the one for HTML tags, come to its end together with it, so that whatever
follows is read on its own. What is written for an element, for code and for plain text is
contained, and the marks and roles read from it are those that were meant.
-/

namespace SlimTemplate.Erb

/-- Both scans stop at the end of the text. -/
structure Contained (text : List Char) : Prop where
  segments_append : ∀ rest, segments (text ++ rest) = segments text ++ segments rest
  htmlTags_append : ∀ rest,
    htmlTags (markup text ++ rest) = htmlTags (markup text) ++ htmlTags rest

def embeddedRole? : Marker × List Char → Option (Role × String)
  | (.comment, _) => none
  | (.output, code) =>
      let code := String.ofList (Text.trim code)
      some (if endsInDo code then .opens else .plain, code)
  | (.run, code) =>
      let code := String.ofList (Text.trim code)
      some (statementRole code, code)

theorem blockRoles_eq (cs : List Char) :
    blockRoles cs = (embeddedTags cs).filterMap embeddedRole? := by
  rw [blockRoles]
  congr 1
  funext ⟨marker, code⟩
  cases marker <;> rfl

theorem Contained.append {a b : List Char} (ha : Contained a) (hb : Contained b) :
    Contained (a ++ b) := by
  have hmarkup : markup (a ++ b) = markup a ++ markup b := by
    simp only [markup, ha.segments_append, List.filterMap_append]
  refine ⟨fun rest => ?_, fun rest => ?_⟩
  · rw [List.append_assoc, ha.segments_append, hb.segments_append, ha.segments_append,
      List.append_assoc]
  · rw [hmarkup, List.append_assoc, ha.htmlTags_append, hb.htmlTags_append, ha.htmlTags_append,
      List.append_assoc]

/-- A text is contained and is read as these marks of elements and these roles of code. -/
structure ReadsAs (text : List Char) (marks : List ElementMark) (roles : List (Role × String)) :
    Prop where
  contained : Contained text
  marks_eq : elementMarks text = marks
  roles_eq : blockRoles text = roles

/-- What is read from a contained text does not depend on what follows it. -/
theorem ReadsAs.append {a b : List Char} {marks marks' : List ElementMark}
    {roles roles' : List (Role × String)} (ha : ReadsAs a marks roles)
    (hb : ReadsAs b marks' roles') : ReadsAs (a ++ b) (marks ++ marks') (roles ++ roles') := by
  refine ⟨ha.contained.append hb.contained, ?_, ?_⟩
  · rw [← ha.marks_eq, ← hb.marks_eq]
    simp only [elementMarks, markup, ha.contained.segments_append, List.filterMap_append]
    have h := ha.contained.htmlTags_append (markup b)
    unfold markup at h
    rw [h, List.filterMap_append]
  · rw [← ha.roles_eq, ← hb.roles_eq]
    simp only [blockRoles_eq, embeddedTags, ha.contained.segments_append, List.filterMap_append]

@[simp] theorem segments_nil : segments [] = [] := by
  rw [segments]

@[simp] theorem htmlTags_nil : htmlTags [] = [] := by
  rw [htmlTags]

/-- A text is read as it is scanned, if both scans treat it alike before any rest. -/
theorem ReadsAs.of_scan {text : List Char} (segs : List Segment) (tags : List HtmlTag)
    (hscan : ∀ rest, segments (text ++ rest) = segs ++ segments rest)
    (htags : ∀ rest, htmlTags (segs.filterMap Segment.char? ++ rest) = tags ++ htmlTags rest) :
    ReadsAs text (tags.filterMap HtmlTag.mark?)
      ((segs.filterMap Segment.embedded?).filterMap embeddedRole?) := by
  have hsegs : segments text = segs := by simpa using hscan []
  have hmarkup : markup text = segs.filterMap Segment.char? := by rw [markup, hsegs]
  have hread : htmlTags (markup text) = tags := by simpa [hmarkup] using htags []
  refine ⟨⟨fun rest => ?_, fun rest => ?_⟩, ?_, ?_⟩
  · rw [hsegs, hscan]
  · rw [hread, hmarkup, htags]
  · rw [elementMarks, hread]
  · rw [blockRoles_eq, embeddedTags, hsegs]

theorem ReadsAs.nil : ReadsAs [] [] [] :=
  ReadsAs.of_scan [] [] (fun _ => rfl) (fun _ => rfl)

/-! Plain text. Only an angle bracket can start anything. -/

theorem segments_cons_of_none {c : Char} {rest : List Char}
    (h : readEmbedded? (c :: rest) = none) :
    segments (c :: rest) = .char c :: segments rest := by
  rw [segments]
  split
  · rename_i hsome
    rw [h] at hsome
    cases hsome
  · rfl

theorem segments_of_some {cs code after : List Char} {marker : Marker}
    (h : readEmbedded? cs = some (marker, code, after)) :
    segments cs = .embedded marker code :: segments after := by
  cases cs with
  | nil => simp [readEmbedded?] at h
  | cons c rest =>
      rw [segments]
      split
      · rename_i hsome
        rw [h] at hsome
        cases hsome
        rfl
      · rename_i hnone
        rw [h] at hnone
        cases hnone

theorem htmlTags_cons_of_none {c : Char} {rest : List Char} (h : readHtmlTag? (c :: rest) = none) :
    htmlTags (c :: rest) = htmlTags rest := by
  rw [htmlTags]
  split
  · rename_i hsome
    rw [h] at hsome
    cases hsome
  · rfl

theorem htmlTags_of_some {cs after : List Char} {tag : HtmlTag}
    (h : readHtmlTag? cs = some (tag, after)) : htmlTags cs = tag :: htmlTags after := by
  cases cs with
  | nil => simp [readHtmlTag?] at h
  | cons c rest =>
      rw [htmlTags]
      split
      · rename_i hsome
        rw [h] at hsome
        cases hsome
        rfl
      · rename_i hnone
        rw [h] at hnone
        cases hnone

theorem readEmbedded?_of_ne {c : Char} {rest : List Char} (h : c ≠ '<') :
    readEmbedded? (c :: rest) = none := by
  unfold readEmbedded?
  split <;> simp_all

theorem readHtmlTag?_of_ne {c : Char} {rest : List Char} (h : c ≠ '<') :
    readHtmlTag? (c :: rest) = none := by
  unfold readHtmlTag?
  split <;> simp_all

theorem segments_append_of_notMem {text : List Char} (h : '<' ∉ text) (rest : List Char) :
    segments (text ++ rest) = text.map Segment.char ++ segments rest := by
  induction text with
  | nil => rfl
  | cons c text ih =>
      obtain ⟨hc, htext⟩ := List.ne_and_not_mem_of_not_mem_cons h
      rw [List.cons_append, segments_cons_of_none (readEmbedded?_of_ne (Ne.symm hc)), ih htext]
      rfl

theorem htmlTags_append_of_notMem {text : List Char} (h : '<' ∉ text) (rest : List Char) :
    htmlTags (text ++ rest) = htmlTags rest := by
  induction text with
  | nil => rfl
  | cons c text ih =>
      obtain ⟨hc, htext⟩ := List.ne_and_not_mem_of_not_mem_cons h
      rw [List.cons_append, htmlTags_cons_of_none (readHtmlTag?_of_ne (Ne.symm hc)), ih htext]

theorem filterMap_char?_map_char (text : List Char) :
    (text.map Segment.char).filterMap Segment.char? = text := by
  induction text with
  | nil => rfl
  | cons c text ih => simp [Segment.char?, ih]

theorem filterMap_embedded?_map_char (text : List Char) :
    (text.map Segment.char).filterMap Segment.embedded? = [] := by
  induction text with
  | nil => rfl
  | cons c text ih => exact ih

theorem readsAs_plain {text : List Char} (h : '<' ∉ text) : ReadsAs text [] [] := by
  have hread := ReadsAs.of_scan (text.map Segment.char) [] (segments_append_of_notMem h)
    (fun rest => by rw [filterMap_char?_map_char, htmlTags_append_of_notMem h]; rfl)
  simpa only [filterMap_embedded?_map_char, List.filterMap_nil] using hread

/-! Markup. A bracket that is not followed by a percent sign starts no embedded tag. -/

theorem segments_bracket {c : Char} {text : List Char} (hc : c ≠ '%') (h : '<' ∉ c :: text)
    (rest : List Char) :
    segments ('<' :: c :: text ++ rest) =
      ('<' :: c :: text).map Segment.char ++ segments rest := by
  have hnone : readEmbedded? ('<' :: (c :: text ++ rest)) = none := by
    rw [List.cons_append]
    unfold readEmbedded?
    split <;> simp_all
  rw [List.cons_append, segments_cons_of_none hnone, segments_append_of_notMem h]
  rfl

/-- Markup is read as the tags found in it. -/
theorem readsAs_markup {c : Char} {text : List Char} (tags : List HtmlTag) (hc : c ≠ '%')
    (h : '<' ∉ c :: text)
    (htags : ∀ rest, htmlTags ('<' :: c :: text ++ rest) = tags ++ htmlTags rest) :
    ReadsAs ('<' :: c :: text) (tags.filterMap HtmlTag.mark?) [] := by
  have hread := ReadsAs.of_scan (('<' :: c :: text).map Segment.char) tags
    (segments_bracket hc h) (fun rest => by rw [filterMap_char?_map_char, htags])
  simpa only [filterMap_embedded?_map_char, List.filterMap_nil] using hread

/-- A declaration or a comment of the page is no element. -/
theorem readsAs_declaration {text : List Char} (h : '<' ∉ text) :
    ReadsAs ('<' :: '!' :: text) [] [] := by
  have hmem : '<' ∉ '!' :: text := by simp [h]
  refine readsAs_markup [] (by decide) hmem fun rest => ?_
  have hnone : readHtmlTag? ('<' :: ('!' :: text ++ rest)) = none := by
    simp [readHtmlTag?, readNamed?]
  rw [List.cons_append, htmlTags_cons_of_none hnone, htmlTags_append_of_notMem hmem]
  rfl

/-! Embedded tags. Code is read up to the first closing delimiter, so it must hold none itself. -/

def NoClose (text : List Char) : Prop :=
  ¬ ['%', '>'] <:+: text

instance (text : List Char) : Decidable (NoClose text) :=
  inferInstanceAs (Decidable (¬ _))

theorem splitAtClose_append {code : List Char} (h : NoClose code) (rest : List Char) :
    splitAtClose (code ++ '%' :: '>' :: rest) = some (code, rest) := by
  induction code with
  | nil => rfl
  | cons c code ih =>
      have htail : NoClose code := fun hclose => h (hclose.trans (List.suffix_cons c code).isInfix)
      have hhead : ∀ tail, c = '%' → code ++ '%' :: '>' :: rest ≠ '>' :: tail := by
        rintro tail rfl htail
        cases code with
        | nil => cases htail
        | cons d code =>
            cases htail
            exact h ⟨[], code, rfl⟩
      rw [List.cons_append, splitAtClose, ih htail]
      · rfl
      · exact hhead

def spaced (code : List Char) : List Char :=
  ' ' :: (code ++ [' '])

/-- Blanks around code cannot complete a delimiter. -/
theorem NoClose.spaced {code : List Char} (h : NoClose code) : NoClose (spaced code) := by
  intro hclose
  rcases List.infix_cons_iff.mp hclose with hstart | hinside
  · simp [List.cons_prefix_cons] at hstart
  · rcases List.infix_concat_iff.mp hinside with hend | hcode
    · obtain ⟨before, hbefore⟩ := hend
      have hlast := congrArg List.getLast? hbefore
      simp at hlast
    · exact h hcode

def embeddedText : Marker → List Char → List Char
  | .run, code => '<' :: '%' :: (spaced code ++ ['%', '>'])
  | .output, code => '<' :: '%' :: '=' :: (spaced code ++ ['%', '>'])
  | .comment, code => '<' :: '%' :: '#' :: (spaced code ++ ['%', '>'])

theorem readEmbedded?_embeddedText (marker : Marker) {code : List Char} (h : NoClose code)
    (rest : List Char) :
    readEmbedded? (embeddedText marker code ++ rest) = some (marker, spaced code, rest) := by
  have hsplit : splitAtClose (spaced code ++ ['%', '>'] ++ rest) = some (spaced code, rest) := by
    rw [List.append_assoc]
    exact splitAtClose_append h.spaced rest
  cases marker with
  | run =>
      simp only [embeddedText, List.cons_append]
      rw [readEmbedded?, hsplit]
      · rfl
      · intro tail htail
        cases htail
      · intro tail htail
        cases htail
  | output | comment =>
      simp only [embeddedText, List.cons_append]
      rw [readEmbedded?, hsplit]
      rfl

theorem readsAs_embedded (marker : Marker) {code : List Char} (h : NoClose code) :
    ReadsAs (embeddedText marker code) [] (embeddedRole? (marker, spaced code)).toList := by
  have hread := ReadsAs.of_scan [Segment.embedded marker (spaced code)] []
    (fun rest => segments_of_some (readEmbedded?_embeddedText marker h rest)) (fun _ => rfl)
  have hroles : ([Segment.embedded marker (spaced code)].filterMap Segment.embedded?).filterMap
      embeddedRole? = (embeddedRole? (marker, spaced code)).toList := by
    simp only [List.filterMap_cons, Segment.embedded?, List.filterMap_nil]
    cases embeddedRole? (marker, spaced code) <;> rfl
  rwa [hroles] at hread

end SlimTemplate.Erb
