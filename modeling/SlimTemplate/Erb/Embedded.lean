/-!
Embedded tags of an ERB text, found by their delimiters alone. A text is cut into embedded tags and
the characters between them, leftmost first; a delimiter that is never closed is plain text.
-/

namespace SlimTemplate.Erb

/-- What an embedded tag does with its code. -/
inductive Marker where
  | run
  | output
  | comment
  deriving DecidableEq, Repr

/-- A stretch of an ERB text: one character of markup, or an embedded tag with its code. -/
inductive Segment where
  | char (c : Char)
  | embedded (marker : Marker) (code : List Char)
  deriving DecidableEq, Repr

/-- The characters before the first closing delimiter and those after it. -/
def splitAtClose : List Char → Option (List Char × List Char)
  | [] => none
  | '%' :: '>' :: rest => some ([], rest)
  | c :: cs => (splitAtClose cs).map fun (code, rest) => (c :: code, rest)

/-- Reads an embedded tag at the start of a text, and what follows it. -/
def readEmbedded? : List Char → Option (Marker × List Char × List Char)
  | '<' :: '%' :: '=' :: cs => (splitAtClose cs).map (.output, ·)
  | '<' :: '%' :: '#' :: cs => (splitAtClose cs).map (.comment, ·)
  | '<' :: '%' :: cs => (splitAtClose cs).map (.run, ·)
  | _ => none

theorem splitAtClose_length {cs code rest : List Char} (h : splitAtClose cs = some (code, rest)) :
    rest.length < cs.length := by
  fun_induction splitAtClose cs generalizing code with
  | case1 => simp at h
  | case2 tail =>
      simp only [Option.some.injEq, Prod.mk.injEq] at h
      simp only [List.length_cons, ← h.2]
      omega
  | case3 c cs _ ih =>
      obtain ⟨⟨code', rest'⟩, hsplit, hpair⟩ := Option.map_eq_some_iff.mp h
      simp only [Prod.mk.injEq] at hpair
      have := ih (hpair.2 ▸ hsplit)
      simp only [List.length_cons]
      omega

/-- An embedded tag takes up at least one character. -/
theorem readEmbedded?_length {cs code rest : List Char} {marker : Marker}
    (h : readEmbedded? cs = some (marker, code, rest)) : rest.length < cs.length := by
  fun_cases readEmbedded? cs with
  | case1 cs | case2 cs | case3 cs =>
      simp only [readEmbedded?, Option.map_eq_some_iff, Prod.mk.injEq] at h
      obtain ⟨split, hsplit, _, rfl⟩ := h
      have := splitAtClose_length hsplit
      simp only [List.length_cons]
      omega
  | case4 => simp_all [readEmbedded?]

/-- Cuts an ERB text into embedded tags and the characters between them. -/
def segments (cs : List Char) : List Segment :=
  match cs with
  | [] => []
  | c :: rest =>
      match h : readEmbedded? (c :: rest) with
      | some (marker, code, after) =>
          have : after.length < rest.length + 1 := readEmbedded?_length h
          .embedded marker code :: segments after
      | none => .char c :: segments rest
termination_by cs.length

def Segment.char? : Segment → Option Char
  | .char c => some c
  | .embedded .. => none

def Segment.embedded? : Segment → Option (Marker × List Char)
  | .char _ => none
  | .embedded marker code => some (marker, code)

/-- The text with its embedded tags taken out. -/
def markup (cs : List Char) : List Char :=
  (segments cs).filterMap Segment.char?

/-- The embedded tags of a text, in order. -/
def embeddedTags (cs : List Char) : List (Marker × List Char) :=
  (segments cs).filterMap Segment.embedded?

end SlimTemplate.Erb
