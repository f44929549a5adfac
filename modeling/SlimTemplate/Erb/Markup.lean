import SlimTemplate.Text.Blank

/-!
HTML tags in a text, as far as they can be told by their form: a name, attributes whose values
stand in double quotes, and the slashes of closing and self-closing tags. Whatever does not have
this form is skipped.
-/

namespace SlimTemplate.Erb

/-- A tag found in a text. An attribute without a value is boolean. -/
structure HtmlTag where
  closing : Bool
  name : List Char
  attributes : List (List Char × Option (List Char))
  selfClosing : Bool
  deriving DecidableEq, Repr

/-- The characters of attribute names: all but blanks, quotes, angle brackets, slashes and equals
signs. -/
def isAttributeChar (c : Char) : Bool :=
  !(Text.isBlank c || ['"', '\'', '<', '>', '/', '='].contains c)

/-- Reads the value that follows an attribute name, if there is one, and what follows it. -/
def readAttributeValue? : List Char → Option (Option (List Char) × List Char)
  | '=' :: '"' :: cs =>
      match cs.dropWhile (· != '"') with
      | [] => none
      | _ :: rest => some (some (cs.takeWhile (· != '"')), rest)
  | '=' :: _ => none
  | cs => some (none, cs)

theorem readAttributeValue?_length {cs rest : List Char} {value : Option (List Char)}
    (h : readAttributeValue? cs = some (value, rest)) : rest.length ≤ cs.length := by
  fun_cases readAttributeValue? cs with
  | case1 cs hnil => simp [readAttributeValue?, hnil] at h
  | case2 cs q tail hcons =>
      simp only [readAttributeValue?, hcons, Option.some.injEq, Prod.mk.injEq] at h
      have hle := (List.dropWhile_sublist (l := cs) (· != '"')).length_le
      rw [hcons, List.length_cons] at hle
      simp only [List.length_cons, ← h.2]
      omega
  | case3 => simp_all [readAttributeValue?]
  | case4 =>
      simp_all [readAttributeValue?]

/-- What follows a run that is not empty is shorter. -/
theorem length_dropWhile_lt {p : Char → Bool} {cs : List Char} (h : cs.takeWhile p ≠ []) :
    (cs.dropWhile p).length < cs.length := by
  have hsplit := congrArg List.length (List.takeWhile_append_dropWhile (p := p) (l := cs))
  have hpos := List.length_pos_iff.mpr h
  rw [List.length_append] at hsplit
  omega

/-- Reads the attributes of a tag, each of which follows a blank, and what follows them without
further blanks. -/
def readAttributes? (cs : List Char) :
    Option (List (List Char × Option (List Char)) × List Char) :=
  let after := Text.trimStart cs
  let name := after.takeWhile isAttributeChar
  if hname : cs.head?.any Text.isBlank ∧ name ≠ [] then
    match h : readAttributeValue? (after.dropWhile isAttributeChar) with
    | none => none
    | some (value, rest) =>
        have : rest.length < cs.length := by
          have h1 := readAttributeValue?_length h
          have h2 := length_dropWhile_lt hname.2
          have h3 : after.length ≤ cs.length := (List.dropWhile_sublist _).length_le
          omega
        (readAttributes? rest).map fun (attributes, rest) => ((name, value) :: attributes, rest)
  else some ([], after)
termination_by cs.length

/-- Reads what ends a tag: whether it closes itself, and what follows. -/
def readTagEnd? : List Char → Option (Bool × List Char)
  | '/' :: '>' :: rest => some (true, rest)
  | '>' :: rest => some (false, rest)
  | _ => none

/-- Reads a tag from its name on, and what follows it. -/
def readNamed? (closing : Bool) (cs : List Char) : Option (HtmlTag × List Char) :=
  if cs.head?.any Char.isAlpha then do
    let (attributes, rest) ← readAttributes? (cs.dropWhile Char.isAlphanum)
    let (selfClosing, rest) ← readTagEnd? rest
    some (⟨closing, cs.takeWhile Char.isAlphanum, attributes, selfClosing⟩, rest)
  else none

/-- Reads a tag at the start of a text, and what follows it. -/
def readHtmlTag? : List Char → Option (HtmlTag × List Char)
  | '<' :: '/' :: cs => readNamed? true cs
  | '<' :: cs => readNamed? false cs
  | _ => none

theorem readAttributes?_length {cs rest : List Char}
    {attributes : List (List Char × Option (List Char))}
    (h : readAttributes? cs = some (attributes, rest)) : rest.length ≤ cs.length := by
  fun_induction readAttributes? cs generalizing attributes with
  | case1 cs after name hnone => simp at h
  | case2 =>
      rename_i hlt ih
      obtain ⟨⟨attributes', rest''⟩, hread, hpair⟩ := Option.map_eq_some_iff.mp h
      simp only [Prod.mk.injEq] at hpair
      have := ih (hpair.2 ▸ hread)
      omega
  | case3 cs after name =>
      simp only [Option.some.injEq, Prod.mk.injEq] at h
      rw [← h.2]
      exact (List.dropWhile_sublist _).length_le

theorem readTagEnd?_length {cs rest : List Char} {selfClosing : Bool}
    (h : readTagEnd? cs = some (selfClosing, rest)) : rest.length < cs.length := by
  fun_cases readTagEnd? cs with
  | case1 tail | case2 tail =>
      simp only [readTagEnd?, Option.some.injEq, Prod.mk.injEq] at h
      simp only [List.length_cons, ← h.2]
      omega
  | case3 => simp_all [readTagEnd?]

theorem readNamed?_length {closing : Bool} {cs rest : List Char} {tag : HtmlTag}
    (h : readNamed? closing cs = some (tag, rest)) : rest.length < cs.length := by
  simp only [readNamed?] at h
  split at h
  · simp only [Option.bind_eq_bind, Option.bind_eq_some_iff, Option.some.injEq,
      Prod.mk.injEq] at h
    obtain ⟨⟨attributes, afterAttributes⟩, hattributes, ⟨selfClosing, rest'⟩, hend, _, hrest⟩ := h
    have h1 := readAttributes?_length hattributes
    have h2 : rest'.length < afterAttributes.length := readTagEnd?_length hend
    have h3 := (List.dropWhile_sublist (l := cs) Char.isAlphanum).length_le
    have h4 : rest'.length = rest.length := congrArg List.length hrest
    omega
  · simp at h

/-- A tag takes up at least one character. -/
theorem readHtmlTag?_length {cs rest : List Char} {tag : HtmlTag}
    (h : readHtmlTag? cs = some (tag, rest)) : rest.length < cs.length := by
  fun_cases readHtmlTag? cs with
  | case1 cs | case2 cs =>
      have := readNamed?_length (by simpa [readHtmlTag?] using h)
      simp only [List.length_cons]
      omega
  | case3 => simp_all [readHtmlTag?]

/-- The tags of a text, leftmost first and without overlap. -/
def htmlTags (cs : List Char) : List HtmlTag :=
  match cs with
  | [] => []
  | c :: rest =>
      match h : readHtmlTag? (c :: rest) with
      | some (tag, after) =>
          have : after.length < rest.length + 1 := readHtmlTag?_length h
          tag :: htmlTags after
      | none => htmlTags rest
termination_by cs.length

end SlimTemplate.Erb
