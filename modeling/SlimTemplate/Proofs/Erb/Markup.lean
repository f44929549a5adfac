import SlimTemplate.Proofs.Erb.Recognition

/-!
Elements are read back as they are written. An opening tag with a proper name and proper keys is
found by the scan for HTML tags as one tag that ends with the last character written, whatever its
attribute values hold: quotes are escaped, and everything else inside double quotes is skipped.
-/

namespace SlimTemplate.Erb

open Slim (Attributes IsTagName IsKey HasKeys isNameChar isBlank_of_isNameChar
  isNameChar_of_isAlphanum)

/-! Characters of names. -/

theorem notMem_of_isNameChar {cs : List Char} (h : ∀ c ∈ cs, isNameChar c = true) :
    '<' ∉ cs := by
  intro hmem
  have := h '<' hmem
  cases this

/-! Attributes. -/

/-- The value that is read back from a written attribute; a bare key has none. -/
def writtenValue? (key value : String) : Option (List Char) :=
  if value = "" || value = key then none else some (escapeQuotes value).toList

def valueText (key value : String) : List Char :=
  match writtenValue? key value with
  | none => []
  | some escaped => '=' :: '"' :: (escaped ++ ['"'])

theorem attributeText_toList (key value : String) :
    (attributeText key value).toList = key.toList ++ valueText key value := by
  rw [attributeText, valueText, writtenValue?]
  split
  · rw [List.append_nil]
  · simp [String.toList_append]

theorem mem_escapeQuotes {value : String} {c : Char} (h : c ∈ (escapeQuotes value).toList) :
    c ≠ '"' ∧ (c ∈ value.toList ∨ c ∈ "&quot;".toList) := by
  rw [escapeQuotes, String.toList_ofList] at h
  obtain ⟨d, hd, hc⟩ := List.mem_flatMap.mp h
  by_cases hquote : d = '"'
  · rw [hquote] at hc
    refine ⟨?_, .inr hc⟩
    rintro rfl
    revert hc
    decide
  · have hcd : c = d := by simpa [hquote] using hc
    exact ⟨hcd ▸ hquote, .inl (hcd ▸ hd)⟩

def writtenAttributes (attributes : Attributes) : List (List Char × Option (List Char)) :=
  attributes.map fun (key, value) => (key.toList, writtenValue? key value)

theorem attributesText_nil : (attributesText []).toList = [] := rfl

theorem attributesText_cons (key value : String) (attributes : Attributes) :
    (attributesText ((key, value) :: attributes)).toList =
      ' ' :: (key.toList ++ (valueText key value ++ (attributesText attributes).toList)) := by
  simp [attributesText, String.toList_join, String.toList_append, attributeText_toList]

theorem valueText_eq (key value : String) :
    valueText key value = quotedValue (writtenValue? key value) := by
  rw [valueText]
  cases writtenValue? key value <;> rfl

theorem notMem_writtenValue? {key value : String} {content : List Char}
    (h : content ∈ writtenValue? key value) : '"' ∉ content := by
  rw [writtenValue?] at h
  split at h
  · cases h
  · cases h
    exact fun hmem => (mem_escapeQuotes hmem).1 rfl

/-- Attributes are written in the form in which they are read, each after one space. -/
theorem attributesForm_attributesText {attributes : Attributes} (h : HasKeys attributes) :
    AttributesForm (writtenAttributes attributes) (attributesText attributes).toList := by
  induction attributes with
  | nil => exact .none
  | cons first attributes ih =>
      obtain ⟨key, value⟩ := first
      obtain ⟨hkey, hattributes⟩ := List.forall_mem_cons.mp h
      rw [attributesText_cons, valueText_eq]
      exact .one ⟨List.cons_ne_nil ' ' [], by simp [Text.isBlank]⟩
        ⟨hkey.1, fun c hc => isAttributeChar_of_isNameChar (hkey.2 c hc)⟩
        (fun _ => notMem_writtenValue?) (ih hattributes)

/-! Tags. -/

theorem readNamed?_written (closing : Bool) {name : String} {attributes : Attributes}
    (hname : IsTagName name.toList) (hkeys : HasKeys attributes) (rest : List Char) :
    readNamed? closing (name.toList ++ ((attributesText attributes).toList ++ '>' :: rest)) =
      some (⟨closing, name.toList, writtenAttributes attributes, false⟩, rest) :=
  readNamed?_eq_some_iff.mpr ⟨rfl, hname, _, [], attributesForm_attributesText hkeys,
    List.forall_mem_nil _, rfl⟩

def elementName (name : String) : String :=
  String.ofList (name.toList.map Char.toLower)

/-- What the opening tag of an element is read as; void elements leave no mark. -/
def openingMark? (name : String) : Option ElementMark :=
  if voidElements.contains (elementName name) then none else some (.opening (elementName name))

def closingMark? (name : String) : Option ElementMark :=
  if voidElements.contains (elementName name) then none else some (.closing (elementName name))

theorem marks_opening (name : String) (attributes : List (List Char × Option (List Char))) :
    [HtmlTag.mk false name.toList attributes false].filterMap HtmlTag.mark? =
      (openingMark? name).toList := by
  by_cases hvoid : elementName name ∈ voidElements
  · simp_all [HtmlTag.mark?, openingMark?, elementName]
  · simp_all [HtmlTag.mark?, openingMark?, elementName]

theorem marks_closing (name : String) (attributes : List (List Char × Option (List Char))) :
    [HtmlTag.mk true name.toList attributes false].filterMap HtmlTag.mark? =
      (closingMark? name).toList := by
  by_cases hvoid : elementName name ∈ voidElements
  · simp_all [HtmlTag.mark?, closingMark?, elementName]
  · simp_all [HtmlTag.mark?, closingMark?, elementName]

theorem notMem_attributesText {attributes : Attributes} (hkeys : HasKeys attributes)
    (hvalues : ∀ pair ∈ attributes, '<' ∉ pair.2.toList) :
    '<' ∉ (attributesText attributes).toList := by
  induction attributes with
  | nil => simp [attributesText_nil]
  | cons first attributes ih =>
      obtain ⟨key, value⟩ := first
      obtain ⟨hkey, hkeys⟩ := List.forall_mem_cons.mp hkeys
      obtain ⟨hvalue, hvalues⟩ := List.forall_mem_cons.mp hvalues
      have htext : '<' ∉ valueText key value := by
        rw [valueText, writtenValue?]
        intro hmem
        split at hmem
        · cases hmem
        · rename_i escaped hsome
          split at hsome
          · cases hsome
          · cases hsome
            have hescaped : '<' ∈ (escapeQuotes value).toList := by simpa using hmem
            cases (mem_escapeQuotes hescaped).2 with
            | inl hmem => exact hvalue hmem
            | inr hmem => revert hmem; decide
      rw [attributesText_cons]
      simp [notMem_of_isNameChar hkey.2, htext, ih hkeys hvalues]

theorem readsAs_openingTag {name : String} {attributes : Attributes}
    (hname : IsTagName name.toList) (hkeys : HasKeys attributes)
    (hvalues : ∀ pair ∈ attributes, '<' ∉ pair.2.toList) :
    ReadsAs (openingTag name attributes).toList (openingMark? name).toList [] := by
  have hchars : '<' ∉ name.toList :=
    notMem_of_isNameChar fun c hc => isNameChar_of_isAlphanum (hname.2 c hc)
  obtain ⟨c, cs, hcs⟩ : ∃ c cs, name.toList = c :: cs := by
    cases hcs : name.toList with
    | nil => simp [IsTagName, hcs] at hname
    | cons c cs => exact ⟨c, cs, rfl⟩
  have hc : c.isAlphanum = true := hname.2 c (by simp [hcs])
  have htext : (openingTag name attributes).toList =
      '<' :: c :: (cs ++ ((attributesText attributes).toList ++ ['>'])) := by
    simp [openingTag, String.toList_append, hcs]
  have hmem : '<' ∉ c :: (cs ++ ((attributesText attributes).toList ++ ['>'])) := by
    rw [← List.cons_append, ← hcs]
    simp [hchars, notMem_attributesText hkeys hvalues]
  have htags := readsAs_markup [⟨false, name.toList, writtenAttributes attributes, false⟩]
    (by rintro rfl; cases hc) hmem fun rest => by
      refine htmlTags_of_some ?_
      have hread := readNamed?_written false hname hkeys rest
      rw [hcs] at hread ⊢
      simp only [List.cons_append, List.append_assoc, List.nil_append] at hread ⊢
      refine (readHtmlTag?_opening ?_).trans hread
      rintro ⟨rfl⟩
      cases hc
  rwa [marks_opening, ← htext] at htags

theorem readsAs_closingTag {name : String} (hname : IsTagName name.toList) :
    ReadsAs (closingTag name).toList (closingMark? name).toList [] := by
  have hchars : '<' ∉ name.toList :=
    notMem_of_isNameChar fun c hc => isNameChar_of_isAlphanum (hname.2 c hc)
  have htext : (closingTag name).toList = '<' :: '/' :: (name.toList ++ ['>']) := by
    simp [closingTag, String.toList_append]
  have hmem : '<' ∉ '/' :: (name.toList ++ ['>']) := by simp [hchars]
  have htags := readsAs_markup [⟨true, name.toList, writtenAttributes [], false⟩] (by decide) hmem
    fun rest => by
      refine htmlTags_of_some ?_
      have hread := readNamed?_written true hname (List.forall_mem_nil _) rest
      simpa only [attributesText_nil, List.nil_append, List.cons_append, List.append_assoc,
        readHtmlTag?] using hread
  rwa [marks_closing, ← htext] at htags

end SlimTemplate.Erb
