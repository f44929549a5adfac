import SlimTemplate.Proofs.Erb.Markup
import SlimTemplate.Proofs.Text.Pattern
import SlimTemplate.Proofs.Text.Words

/-!
Attributes that are written and read back. The form of HTML tags is stated as a pattern with groups
for the slashes, the name and the text of the attributes. Main statement: at the start of a written
opening tag the pattern has exactly one way to match, whatever the values hold and whatever follows;
the keys and values come back from the text of the attributes exactly if no value holds the
character reference that stands for a quote.
-/

namespace SlimTemplate.Erb

open Slim (Attributes IsTagName IsKey HasKeys isNameChar)
open Text (Pattern Way)

/-! The pattern. -/

def quotedValuePattern : Pattern :=
  .seq (.char '=') (.seq (.char '"') (.seq (.star (.one (· != '"'))) (.char '"')))

def attributePattern : Pattern :=
  .seq (.run Text.isBlank) (.seq (.run isAttributeChar) (.optional quotedValuePattern))

/-- An HTML tag, with groups for the slash of a closing tag, the name, the text of the attributes
and the slash of a tag that closes itself. -/
def tagPattern : Pattern :=
  .seq (.char '<') (.seq (.group 1 (.optional (.char '/')))
    (.seq (.group 2 (.seq (.one Char.isAlpha) (.star (.one Char.isAlphanum))))
      (.seq (.group 3 (.star attributePattern)) (.seq (.star (.one Text.isBlank))
        (.seq (.group 4 (.optional (.char '/'))) (.char '>'))))))

/-! What it describes. -/

theorem describes_quotedValuePattern :
    quotedValuePattern.Describes fun text =>
      ∃ content, '"' ∉ content ∧ text = quotedValue (some content) := by
  have hcontent : ∀ text : List Char, (∀ c ∈ text, (c != '"') = true) ↔ '"' ∉ text := by
    intro text
    simp only [bne_iff_ne]
    exact List.forall_mem_ne'
  refine ((Pattern.describes_char '=').seq ((Pattern.describes_char '"').seq
    (((Pattern.describes_star_one _).congr hcontent).seq (Pattern.describes_char '"')))).congr
      fun text => ⟨?_, ?_⟩
  · rintro ⟨_, _, rfl, ⟨_, _, rfl, ⟨content, _, hquote, rfl, rfl⟩, rfl⟩, rfl⟩
    exact ⟨content, hquote, rfl⟩
  · rintro ⟨content, hquote, rfl⟩
    exact ⟨['='], _, rfl, ⟨['"'], _, rfl, ⟨content, ['"'], hquote, rfl, rfl⟩, rfl⟩, rfl⟩

theorem describes_attributePattern :
    attributePattern.Describes fun text => ∃ blanks name value,
      (blanks ≠ [] ∧ ∀ c ∈ blanks, Text.isBlank c = true) ∧
      (name ≠ [] ∧ ∀ c ∈ name, isAttributeChar c = true) ∧
      (∀ content ∈ value, '"' ∉ content) ∧ text = blanks ++ (name ++ quotedValue value) := by
  refine ((Pattern.describes_run _).seq ((Pattern.describes_run _).seq
    describes_quotedValuePattern.optional)).congr fun text => ⟨?_, ?_⟩
  · rintro ⟨blanks, _, hblanks, ⟨name, value, hname, ⟨content, hcontent, rfl⟩ | rfl, rfl⟩, rfl⟩
    · refine ⟨blanks, name, some content, hblanks, hname, ?_, rfl⟩
      rintro _ ⟨rfl⟩
      exact hcontent
    · exact ⟨blanks, name, none, hblanks, hname, by simp, rfl⟩
  · rintro ⟨blanks, name, value, hblanks, hname, hvalue, rfl⟩
    refine ⟨blanks, _, hblanks, ⟨name, quotedValue value, hname, ?_, rfl⟩, rfl⟩
    cases value with
    | none => exact .inr rfl
    | some content => exact .inl ⟨content, hvalue content rfl, rfl⟩

/-- Repeating the pattern of an attribute gives the form of attributes. -/
theorem describes_attributes :
    (Pattern.star attributePattern).Describes fun text =>
      ∃ attributes, AttributesForm attributes text := by
  intro text groups
  constructor
  · intro h
    apply h.star_induction
    · exact ⟨⟨[], .none⟩, rfl⟩
    · rintro first text groups groups' hfirst ⟨⟨attributes, hform⟩, rfl⟩
      obtain ⟨⟨blanks, name, value, hblanks, hname, hvalue, rfl⟩, rfl⟩ :=
        (describes_attributePattern _ _).mp hfirst
      refine ⟨⟨(name, value) :: attributes, ?_⟩, rfl⟩
      simp only [List.append_assoc]
      exact .one hblanks hname hvalue hform
  · rintro ⟨⟨attributes, hform⟩, rfl⟩
    induction hform with
    | none => exact .stop
    | @one blanks name text value attributes hblanks hname hvalue _ ih =>
        have hfirst : attributePattern.Takes (blanks ++ (name ++ quotedValue value)) [] :=
          (describes_attributePattern _ _).mpr
            ⟨⟨blanks, name, value, hblanks, hname, hvalue, rfl⟩, rfl⟩
        have hmore := hfirst.more (by simp [hblanks.1]) ih
        simpa only [List.append_assoc, List.nil_append] using hmore

theorem describes_name :
    (Pattern.seq (.one Char.isAlpha) (.star (.one Char.isAlphanum))).Describes IsTagName := by
  have hone : (Pattern.one Char.isAlpha).Describes fun text =>
      ∃ c, c.isAlpha = true ∧ text = [c] := by
    intro text groups
    rw [Pattern.takes_one_iff]
    simp only [← and_assoc, exists_and_right]
  refine (hone.seq (Pattern.describes_star_one _)).congr fun text => ⟨?_, ?_⟩
  · rintro ⟨_, rest, ⟨c, hc, rfl⟩, hrest, rfl⟩
    refine ⟨hc, List.forall_mem_cons.mpr ⟨?_, hrest⟩⟩
    simp [Char.isAlphanum, hc]
  · rintro ⟨hhead, hall⟩
    cases text with
    | nil => cases hhead
    | cons c rest => exact ⟨[c], rest, ⟨c, hhead, rfl⟩, (List.forall_mem_cons.mp hall).2, rfl⟩

theorem describes_slash :
    (Pattern.optional (.char '/')).Describes fun text =>
      ∃ slash : Bool, text = if slash then ['/'] else [] := by
  refine (Pattern.describes_char '/').optional.congr fun text => ⟨?_, ?_⟩
  · rintro (rfl | rfl)
    · exact ⟨true, rfl⟩
    · exact ⟨false, rfl⟩
  · rintro ⟨slash, rfl⟩
    cases slash with
    | true => exact .inl rfl
    | false => exact .inr rfl

def tagGroups (tag : HtmlTag) (attributes : List Char) : List (Nat × List Char) :=
  [(1, if tag.closing then ['/'] else []), (2, tag.name), (3, attributes),
    (4, if tag.selfClosing then ['/'] else [])]

theorem takes_tagPattern_iff {text : List Char} {groups : List (Nat × List Char)} :
    tagPattern.Takes text groups ↔
      ∃ tag attributes blanks, IsTagName tag.name ∧ AttributesForm tag.attributes attributes ∧
        (∀ c ∈ blanks, Text.isBlank c = true) ∧ groups = tagGroups tag attributes ∧
        text = '<' :: ((if tag.closing then ['/'] else []) ++ (tag.name ++ (attributes ++
          (blanks ++ ((if tag.selfClosing then ['/'] else []) ++ ['>']))))) := by
  rw [tagPattern, (Pattern.describes_char '<').takes_seq_iff]
  simp only [describes_slash.takes_group_seq_iff, describes_name.takes_group_seq_iff,
    describes_attributes.takes_group_seq_iff, (Pattern.describes_star_one _).takes_seq_iff,
    Pattern.takes_char_iff]
  constructor
  · rintro ⟨_, _, rfl, hclosing, rfl⟩
    obtain ⟨_, _, _, ⟨closing, rfl⟩, hnamed, rfl, rfl⟩ := hclosing
    obtain ⟨name, _, _, hname, hattributes, rfl, rfl⟩ := hnamed
    obtain ⟨attributes, _, _, ⟨read, hform⟩, hspaced, rfl, rfl⟩ := hattributes
    obtain ⟨blanks, _, hblanks, hend, rfl⟩ := hspaced
    obtain ⟨_, _, _, ⟨selfClosing, rfl⟩, ⟨rfl, rfl⟩, rfl, rfl⟩ := hend
    exact ⟨⟨closing, name, read, selfClosing⟩, attributes, blanks, hname, hform, hblanks, rfl, rfl⟩
  · rintro ⟨tag, attributes, blanks, hname, hform, hblanks, rfl, rfl⟩
    refine ⟨['<'], _, rfl, ?_, rfl⟩
    refine ⟨_, _, _, ⟨tag.closing, rfl⟩, ?_, rfl, rfl⟩
    refine ⟨tag.name, _, _, hname, ?_, rfl, rfl⟩
    refine ⟨attributes, _, _, ⟨tag.attributes, hform⟩, ?_, rfl, rfl⟩
    refine ⟨blanks, _, hblanks, ?_, rfl⟩
    exact ⟨_, ['>'], [], ⟨tag.selfClosing, rfl⟩, ⟨rfl, rfl⟩, rfl, rfl⟩

/-! Only one way to match. -/

/-- Attributes do not end in a blank. -/
theorem AttributesForm.isBlank_getLast {attributes : List (List Char × Option (List Char))}
    {text : List Char} (h : AttributesForm attributes text) :
    ∀ c ∈ text.getLast?, Text.isBlank c = false := by
  induction h with
  | none => simp
  | @one blanks name text value attributes _ hname _ _ ih =>
      intro c hc
      rw [List.getLast?_append, List.getLast?_append, List.getLast?_append] at hc
      cases htext : text.getLast? with
      | some d =>
          rw [htext] at hc
          cases hc
          exact ih c htext
      | none =>
          cases value with
          | some content =>
              have hquote : (quotedValue (some content)).getLast? = some '"' := by
                simp [quotedValue, List.getLast?_cons]
              rw [htext, hquote] at hc
              cases hc
              decide
          | none =>
              rw [htext, List.getLast?_eq_some_getLast hname.1] at hc
              cases hc
              exact isBlank_of_isAttributeChar (hname.2 _ (List.getLast_mem hname.1))

/-- The pattern of tags never has two ways to take the start of a text. -/
theorem ways_tagPattern_unique {cs : List Char} {way other : Way} (h : way ∈ tagPattern.ways cs)
    (hother : other ∈ tagPattern.ways cs) : other = way := by
  obtain ⟨groups, text, rest⟩ := way
  obtain ⟨groups', text', rest'⟩ := other
  obtain ⟨htakes, rfl⟩ := (Pattern.mem_ways_iff _ _ _).mp h
  obtain ⟨htakes', hcs⟩ := (Pattern.mem_ways_iff _ _ _).mp hother
  dsimp only at htakes htakes' hcs
  obtain ⟨tag, attributes, blanks, hname, hform, hblanks, rfl, rfl⟩ :=
    takes_tagPattern_iff.mp htakes
  obtain ⟨tag', attributes', blanks', hname', hform', hblanks', rfl, rfl⟩ :=
    takes_tagPattern_iff.mp htakes'
  -- the tag and what follows it are settled by its form, and so is the text taken
  obtain ⟨rfl, rfl⟩ := startsOnce_tagForm (.written hname hform hblanks)
    (.written hname' hform' hblanks') hcs
  have htext := List.append_cancel_right hcs
  have hspaced : attributes ++ blanks = attributes' ++ blanks' := by
    have hnamed := List.append_cancel_left (List.append_cancel_left (List.cons.inj htext).2)
    rw [← List.append_assoc attributes, ← List.append_assoc attributes'] at hnamed
    exact List.append_cancel_right hnamed
  have hattributes : attributes' = attributes := by
    rw [← Text.trimEnd_append_of_blank hform.isBlank_getLast hblanks, hspaced,
      Text.trimEnd_append_of_blank hform'.isBlank_getLast hblanks']
  rw [htext, hattributes]

/-! Quotes. -/

/-- Character references for double quotes are read as quotes, from left to right. -/
def unescapeQuotes : List Char → List Char
  | '&' :: 'q' :: 'u' :: 'o' :: 't' :: ';' :: cs => '"' :: unescapeQuotes cs
  | c :: cs => c :: unescapeQuotes cs
  | [] => []

def quoteReference : List Char :=
  "&quot;".toList

theorem unescapeQuotes_reference (cs : List Char) :
    unescapeQuotes (quoteReference ++ cs) = '"' :: unescapeQuotes cs :=
  rfl

theorem unescapeQuotes_cons {c : Char} {cs : List Char} (h : ¬ quoteReference <+: c :: cs) :
    unescapeQuotes (c :: cs) = c :: unescapeQuotes cs := by
  rw [unescapeQuotes.eq_def]
  split
  · rename_i heq
    rw [heq] at h
    exact absurd ⟨_, rfl⟩ h
  · rename_i heq
    cases heq
    rfl
  · rename_i heq
    cases heq

def escaped (cs : List Char) : List Char :=
  cs.flatMap fun c => if c == '"' then quoteReference else [c]

theorem escaped_quote (cs : List Char) : escaped ('"' :: cs) = quoteReference ++ escaped cs :=
  rfl

theorem escaped_cons {c : Char} (h : c ≠ '"') (cs : List Char) :
    escaped (c :: cs) = c :: escaped cs := by
  rw [escaped, List.flatMap_cons, if_neg (by simpa using h)]
  rfl

theorem escaped_reference (cs : List Char) :
    escaped (quoteReference ++ cs) = quoteReference ++ escaped cs := by
  rw [escaped, List.flatMap_append]
  rfl

/-- A word without ampersands at the start of an escaped text is at the start of the text. -/
theorem prefix_of_prefix_escaped {word cs : List Char} (hword : '&' ∉ word)
    (h : word <+: escaped cs) : word <+: cs := by
  induction word generalizing cs with
  | nil => exact List.nil_prefix
  | cons d word ih =>
      rw [List.mem_cons, not_or] at hword
      cases cs with
      | nil => exact h
      | cons c cs =>
          by_cases hc : c = '"'
          · rw [hc, escaped_quote] at h
            exact absurd (List.cons_prefix_cons.mp h).1.symm hword.1
          · rw [escaped_cons hc, List.cons_prefix_cons] at h
            exact List.cons_prefix_cons.mpr ⟨h.1, ih hword.2 h.2⟩

/-- A text comes back from its escaped form exactly if it does not hold the reference itself. -/
theorem unescapeQuotes_escaped_iff (cs : List Char) :
    unescapeQuotes (escaped cs) = cs ↔ ¬ quoteReference <:+: cs := by
  induction cs with
  | nil => exact iff_of_true rfl (by decide)
  | cons c cs ih =>
      rw [List.infix_cons_iff, not_or]
      by_cases hc : c = '"'
      · have hstart : ¬ quoteReference <+: c :: cs := by
          rw [hc]
          intro hstart
          exact absurd (List.cons_prefix_cons.mp hstart).1 (by decide)
        rw [hc, escaped_quote, unescapeQuotes_reference, List.cons.injEq, ← hc]
        simp [hstart, ih]
      · by_cases hstart : quoteReference <+: c :: cs
        · -- the reference is taken for a quote that was never there
          obtain ⟨rest, hrest⟩ := hstart
          refine iff_of_false ?_ fun hnot => hnot.1 ⟨rest, hrest⟩
          rw [← hrest, escaped_reference, unescapeQuotes_reference]
          intro heq
          exact absurd (List.cons.inj heq).1 (by decide)
        · -- a reference that starts here would end before the next escaped quote
          have hescaped : ¬ quoteReference <+: c :: escaped cs := by
            intro hreference
            obtain ⟨hc, hword⟩ := List.cons_prefix_cons.mp hreference
            exact hstart (List.cons_prefix_cons.mpr
              ⟨hc, prefix_of_prefix_escaped (by decide) hword⟩)
          rw [escaped_cons hc, unescapeQuotes_cons hescaped, List.cons.injEq, ih]
          simp [hstart]

/-! Attributes. -/

/-- The value of an attribute. One with an empty value, or a value equal to its key, is boolean. -/
def plainValue? (key value : String) : Option String :=
  if value = "" || value = key then none else some value

/-- The keys and values that are read off attributes, with the quotes put back. -/
def recovered (read : List (List Char × Option (List Char))) : List (String × Option String) :=
  read.map fun pair =>
    (String.ofList pair.1, pair.2.map fun value => String.ofList (unescapeQuotes value))

theorem not_reference_of_isNameChar {cs : List Char} (h : ∀ c ∈ cs, isNameChar c = true) :
    ¬ quoteReference <:+: cs := by
  intro hreference
  have hampersand := h '&' (hreference.subset (by decide))
  cases hampersand

theorem recovered_value_iff {key value : String} (hkey : IsKey key.toList) :
    ((writtenValue? key value).map fun written => String.ofList (unescapeQuotes written)) =
        plainValue? key value ↔ ¬ quoteReference <:+: value.toList := by
  rw [writtenValue?, plainValue?]
  by_cases hbare : (decide (value = "") || decide (value = key)) = true
  · rw [if_pos hbare, if_pos hbare]
    refine iff_of_true rfl (not_reference_of_isNameChar ?_)
    simp only [Bool.or_eq_true, decide_eq_true_eq] at hbare
    rcases hbare with rfl | rfl
    · exact List.forall_mem_nil _
    · exact hkey.2
  · have hescaped : (escapeQuotes value).toList = escaped value.toList := String.toList_ofList
    rw [if_neg hbare, if_neg hbare, Option.map_some, Option.some.injEq, hescaped,
      ← String.toList_inj, String.toList_ofList]
    exact unescapeQuotes_escaped_iff value.toList

/-- Keys and values come back in their order exactly if no value holds the reference for a quote. -/
theorem recovered_written_iff {attributes : Attributes} (hkeys : HasKeys attributes) :
    recovered (writtenAttributes attributes) =
        attributes.map (fun pair => (pair.1, plainValue? pair.1 pair.2)) ↔
      ∀ pair ∈ attributes, ¬ quoteReference <:+: pair.2.toList := by
  rw [recovered, writtenAttributes, List.map_map, List.map_inj_left]
  refine forall₂_congr fun pair hpair => ?_
  rw [← recovered_value_iff (hkeys pair hpair), Function.comp_apply, Prod.mk.injEq,
    String.ofList_toList]
  exact and_iff_right rfl

/-- Attributes are read off a text in only one way. -/
theorem AttributesForm.unique {read other : List (List Char × Option (List Char))}
    {text : List Char} (h : AttributesForm read text) (hother : AttributesForm other text) :
    other = read := by
  have hends : EndsTag ['>'] := ⟨[], .inr rfl⟩
  have hread := h.readAttributes?_eq (List.forall_mem_nil _) hends
  rw [hother.readAttributes?_eq (List.forall_mem_nil _) hends] at hread
  cases hread
  rfl

theorem openingTag_toList (name : String) (attributes : Attributes) :
    (openingTag name attributes).toList =
      '<' :: (name.toList ++ ((attributesText attributes).toList ++ ['>'])) := by
  simp [openingTag, String.toList_append]

/-- The way in which the pattern of tags takes a written opening tag. -/
theorem mem_ways_openingTag {name : String} {attributes : Attributes}
    (hname : IsTagName name.toList) (hkeys : HasKeys attributes) (following : List Char) :
    ⟨[(1, []), (2, name.toList), (3, (attributesText attributes).toList), (4, [])],
        (openingTag name attributes).toList, following⟩ ∈
      tagPattern.ways ((openingTag name attributes).toList ++ following) := by
  refine (Pattern.mem_ways_iff _ _ _).mpr ⟨takes_tagPattern_iff.mpr ?_, rfl⟩
  exact ⟨⟨false, name.toList, writtenAttributes attributes, false⟩, _, [], hname,
    attributesForm_attributesText hkeys, List.forall_mem_nil _, rfl,
    openingTag_toList name attributes⟩

/-- At the start of a written opening tag the pattern of tags has one way to match, whatever
follows: it takes the tag as written, with its name and the text of its attributes. The tag is read
accordingly. The attributes are read off their text in one way, and keys and values come back from
it exactly if no value holds the reference for a quote. -/
theorem openingTag_readBack {name : String} {attributes : Attributes}
    (hname : IsTagName name.toList) (hkeys : HasKeys attributes) (following : List Char) :
    tagPattern.match? ((openingTag name attributes).toList ++ following) =
        some ⟨[(1, []), (2, name.toList), (3, (attributesText attributes).toList), (4, [])],
          (openingTag name attributes).toList, following⟩ ∧
      (∀ way ∈ tagPattern.ways ((openingTag name attributes).toList ++ following),
        tagPattern.match? ((openingTag name attributes).toList ++ following) = some way) ∧
      ∃ read, readHtmlTag? ((openingTag name attributes).toList ++ following) =
          some (⟨false, name.toList, read, false⟩, following) ∧
        (∀ other, AttributesForm other (attributesText attributes).toList ↔ other = read) ∧
        (recovered read = attributes.map (fun pair => (pair.1, plainValue? pair.1 pair.2)) ↔
          ∀ pair ∈ attributes, ¬ "&quot;".toList <:+: pair.2.toList) := by
  have hmem := mem_ways_openingTag hname hkeys following
  have hmatch := Pattern.match?_eq_some_of_unique hmem fun other => ways_tagPattern_unique hmem
  have hform := attributesForm_attributesText hkeys
  have hread : readHtmlTag? ((openingTag name attributes).toList ++ following) =
      some (⟨false, name.toList, writtenAttributes attributes, false⟩, following) := by
    refine readHtmlTag?_eq_some_iff.mpr ⟨_, ?_, rfl⟩
    rw [openingTag_toList]
    exact @TagForm.written ⟨false, name.toList, writtenAttributes attributes, false⟩ _ [] hname
      hform (List.forall_mem_nil _)
  refine ⟨hmatch, fun way hway => ?_, _, hread, fun other => ⟨hform.unique, ?_⟩,
    recovered_written_iff hkeys⟩
  · rw [hmatch, ways_tagPattern_unique hmem hway]
  · rintro rfl
    exact hform

/-- Values with all the characters that could end a tag, a boolean and a key that is its value. -/
def awkwardAttributes : Attributes :=
  [("href", "/?a=\"1\">\n</a>"), ("data-on", ""), ("hidden", "hidden"), ("title", "'R&D' &quot")]

theorem openingTag_readBack_awkwardAttributes :
    IsTagName "a".toList ∧ HasKeys awkwardAttributes ∧
      ∃ read, readHtmlTag? ((openingTag "a" awkwardAttributes).toList ++ "b=\"\">".toList) =
          some (⟨false, ['a'], read, false⟩, "b=\"\">".toList) ∧
        recovered read = [("href", some "/?a=\"1\">\n</a>"), ("data-on", none), ("hidden", none),
          ("title", some "'R&D' &quot")] := by
  have hname : IsTagName "a".toList := ⟨by decide, List.all_eq_true.mp (by decide)⟩
  have hkeys : HasKeys awkwardAttributes := by
    simp only [HasKeys, awkwardAttributes, List.forall_mem_cons]
    exact ⟨by decide, by decide, by decide, by decide, List.forall_mem_nil _⟩
  obtain ⟨-, -, read, hread, -, hrecovered⟩ :=
    openingTag_readBack hname hkeys "b=\"\">".toList
  refine ⟨hname, hkeys, read, hread, hrecovered.mpr ?_⟩
  simp only [awkwardAttributes, List.forall_mem_cons]
  exact ⟨by decide, by decide, by decide, by decide, List.forall_mem_nil _⟩

end SlimTemplate.Erb
