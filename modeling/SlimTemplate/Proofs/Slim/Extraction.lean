import SlimTemplate.Proofs.Slim.Attributes
import SlimTemplate.Proofs.Slim.Pieces
import SlimTemplate.Proofs.Text.Pattern

/-!
The explicit attributes of a tag line as matches of a pattern. The pattern is stated on its own,
with the groups for the key and for the three kinds of values, and is matched with backtracking.
Main statement: the text behind the head of a tag is cut at the leftmost matches of the pattern; the
attributes are read from the matches, the inline content is what lies between them, and a value is
suspicious exactly if its quote does not occur again.
-/

namespace SlimTemplate.Slim

open Text (Pattern Way)

/-! The pattern. -/

def quotedPattern (number : Nat) (quote : Char) : Pattern :=
  .seq (.char quote) (.seq (.group number (.star (.one (· != quote)))) (.char quote))

def valuePattern : Pattern :=
  .choice (quotedPattern 2 '"')
    (.choice (quotedPattern 3 '\'') (.group 4 (.run (!Text.isBlank ·))))

def signPattern : Pattern :=
  .seq (.star (.one Text.isBlank))
    (.seq (.char '=') (.seq (.star (.one Text.isBlank)) valuePattern))

def assignmentPattern : Pattern :=
  .seq (.group 1 (.run isNameChar)) signPattern

def matchedAssignment (way : Way) : Assignment :=
  let quoted := (way.group? 2).or (way.group? 3)
  ⟨(way.group? 1).getD [], (quoted.or (way.group? 4)).getD [], quoted.isSome, way.text⟩

/-! Its matches. -/

theorem dropWhile_ne_of_mem {quote : Char} {cs : List Char} (h : quote ∈ cs) :
    cs.dropWhile (· != quote) = quote :: (cs.dropWhile (· != quote)).drop 1 := by
  induction cs with
  | nil => cases h
  | cons c cs ih =>
      by_cases hc : c = quote
      · rw [hc, List.dropWhile_cons_of_neg (by simp)]
        rfl
      · rw [List.dropWhile_cons_of_pos (by simpa using hc)]
        exact ih ((List.mem_cons.mp h).resolve_left (Ne.symm hc))

theorem dropWhile_ne_of_notMem {quote : Char} {cs : List Char} (h : quote ∉ cs) :
    cs.dropWhile (· != quote) = [] := by
  refine List.dropWhile_eq_nil_iff.mpr fun d hd => ?_
  simp only [bne_iff_ne]
  rintro rfl
  exact h hd

/-- A quoted value ends at the next quote, if there is one. -/
theorem match?_quotedPattern (number : Nat) (quote c : Char) (cs : List Char) :
    (quotedPattern number quote).match? (c :: cs) =
      if c = quote ∧ quote ∈ cs then
        some ⟨[(number, cs.takeWhile (· != quote))], c :: (cs.takeWhile (· != quote) ++ [quote]),
          (cs.dropWhile (· != quote)).drop 1⟩
      else none := by
  rw [Pattern.match?, quotedPattern, Pattern.ways, Pattern.ways_char_cons]
  by_cases hc : c = quote
  · rw [if_pos hc, List.flatMap_singleton, Pattern.ways_group_seq, Pattern.flatMap_star_one]
    · dsimp only
      by_cases hmem : quote ∈ cs
      · rw [if_pos ⟨hc, hmem⟩, dropWhile_ne_of_mem hmem, Pattern.ways_char_cons, if_pos rfl]
        rfl
      · rw [if_neg fun h => hmem h.2, dropWhile_ne_of_notMem hmem]
        rfl
    · -- a shorter content would have to be followed by a quote that is not there
      intro way d tail hrest hd
      rw [hrest, Pattern.ways_char_of_ne (by simpa using hd), List.map_nil]
  · rw [if_neg hc, if_neg fun h => hc h.1]
    rfl

/-- Which kind of value wins is decided by what follows: the quoted ones need their quote again. -/
theorem match?_valuePattern (q : Char) (cs : List Char) :
    valuePattern.match? (q :: cs) =
      if isQuote q && cs.contains q then
        some ⟨[(if q = '"' then 2 else 3, cs.takeWhile (· != q))],
          q :: (cs.takeWhile (· != q) ++ [q]), (cs.dropWhile (· != q)).drop 1⟩
      else if Text.isBlank q then none
      else some ⟨[(4, q :: cs.takeWhile (!Text.isBlank ·))], q :: cs.takeWhile (!Text.isBlank ·),
        cs.dropWhile (!Text.isBlank ·)⟩ := by
  rw [valuePattern, Pattern.match?_choice, Pattern.match?_choice, Pattern.match?_group,
    Pattern.match?_run_cons, match?_quotedPattern, match?_quotedPattern]
  by_cases hclosed : isQuote q = true ∧ q ∈ cs
  · obtain ⟨hquote, hmem⟩ := hclosed
    rw [if_pos (c := (isQuote q && cs.contains q) = true) (by simp [hquote, hmem])]
    simp only [isQuote, Bool.or_eq_true, beq_iff_eq] at hquote
    rcases hquote with rfl | rfl
    · rw [if_pos ⟨rfl, hmem⟩, if_pos rfl]
      rfl
    · rw [if_neg fun h => absurd h.1 (by decide), if_pos ⟨rfl, hmem⟩]
      rfl
  · -- neither kind of quoted value is closed, so the value is bare
    have hopen : ∀ quote, isQuote quote = true → ¬ (q = quote ∧ quote ∈ cs) := by
      rintro quote hquote ⟨rfl, hmem⟩
      exact hclosed ⟨hquote, hmem⟩
    rw [if_neg (hopen '"' rfl), if_neg (hopen '\'' rfl),
      if_neg (c := (isQuote q && cs.contains q) = true) (by simpa using hclosed)]
    cases hblank : Text.isBlank q <;> rfl

theorem valuePattern_avoids_blank : valuePattern.Avoids Text.isBlank := by
  intro q cs hq
  have hquote : isQuote q = false := by
    cases hquote : isQuote q with
    | false => rfl
    | true =>
        simp only [isQuote, Bool.or_eq_true, beq_iff_eq] at hquote
        rcases hquote with rfl | rfl <;> cases hq
  have hnone := match?_valuePattern q cs
  rw [hquote, Bool.false_and, if_neg Bool.false_ne_true, if_pos hq] at hnone
  exact List.head?_eq_none_iff.mp hnone

theorem match?_signPattern (cs : List Char) :
    signPattern.match? cs =
      ((Pattern.seq (.char '=') (.seq (.star (.one Text.isBlank)) valuePattern)).match?
        (Text.trimStart cs)).map (Way.join ⟨[], cs.takeWhile Text.isBlank, Text.trimStart cs⟩) := by
  have hsign : (Pattern.seq (.char '=') (.seq (.star (.one Text.isBlank)) valuePattern)).Avoids
      Text.isBlank := by
    intro c cs hc
    rw [Pattern.ways, Pattern.ways_char_of_ne (by rintro rfl; cases hc)]
    rfl
  rw [Pattern.match?, signPattern, Pattern.ways_star_one_seq hsign, List.head?_map]
  rfl

theorem match?_signPattern_of_eq {cs after : List Char} (h : Text.trimStart cs = '=' :: after) :
    signPattern.match? cs =
      (valuePattern.match? (Text.trimStart after)).map
        (Way.join ⟨[], cs.takeWhile Text.isBlank ++ '=' :: after.takeWhile Text.isBlank,
          Text.trimStart after⟩) := by
  rw [match?_signPattern, h, Pattern.match?, Pattern.ways, Pattern.ways_char_cons, if_pos rfl,
    List.flatMap_singleton, Pattern.ways_star_one_seq valuePattern_avoids_blank, List.head?_map,
    List.head?_map, Option.map_map, Option.map_map]
  refine congrArg (Option.map · _) (funext fun way => ?_)
  simp [Way.join]

theorem match?_signPattern_of_ne {cs : List Char} (h : ∀ after, Text.trimStart cs ≠ '=' :: after) :
    signPattern.match? cs = none := by
  rw [match?_signPattern, Option.map_eq_none_iff, Pattern.match?, Pattern.ways]
  cases hcs : Text.trimStart cs with
  | nil => rfl
  | cons c after =>
      rw [Pattern.ways_char_of_ne (by rintro rfl; exact h after hcs)]
      rfl

theorem match?_assignmentPattern (cs : List Char) :
    assignmentPattern.match? cs =
      if cs.takeWhile isNameChar = [] then none
      else (signPattern.match? (cs.dropWhile isNameChar)).map
        (Way.join ⟨[(1, cs.takeWhile isNameChar)], cs.takeWhile isNameChar,
          cs.dropWhile isNameChar⟩) := by
  rw [Pattern.match?, assignmentPattern, Pattern.ways_group_seq, Pattern.flatMap_run]
  · split
    · rfl
    · rw [List.head?_map]
      rfl
  · -- inside a key there is neither a blank nor an equals sign
    intro way c tail hrest hc
    have htrim : Text.trimStart (c :: tail) = c :: tail :=
      List.dropWhile_cons_of_neg (by simp [isBlank_of_isNameChar hc])
    have hnone : signPattern.match? (c :: tail) = none := by
      refine match?_signPattern_of_ne fun after heq => ?_
      rw [htrim] at heq
      cases heq
      cases hc
    rw [hrest, List.head?_eq_none_iff.mp hnone, List.map_nil]

/-! The pattern and the reader. -/

theorem readValue?_eq_match? (cs : List Char) :
    readValue? cs = (valuePattern.match? cs).map fun way =>
      ((matchedAssignment way).value, (matchedAssignment way).quoted, way.rest) := by
  cases cs with
  | nil => rfl
  | cons q cs =>
      rw [readValue?, match?_valuePattern]
      by_cases hclosed : (isQuote q && cs.contains q) = true
      · rw [if_pos hclosed, if_pos hclosed]
        by_cases hquote : q = '"'
        · rw [if_pos hquote]
          rfl
        · rw [if_neg hquote]
          rfl
      · rw [if_neg hclosed, if_neg hclosed]
        by_cases hblank : Text.isBlank q = true
        · rw [if_pos hblank, if_pos hblank]
          rfl
        · rw [if_neg hblank, if_neg hblank]
          rfl

/-- Reading an assignment is matching the pattern. -/
theorem readAssignment?_eq_match? (cs : List Char) :
    readAssignment? cs =
      (assignmentPattern.match? cs).map fun way => (matchedAssignment way, way.rest) := by
  have htext : ∀ way, assignmentPattern.match? cs = some way →
      cs.take (cs.length - way.rest.length) = way.text := by
    intro way hway
    rw [Pattern.text_of_match? hway, List.length_append, Nat.add_sub_cancel, List.take_left]
  rw [match?_assignmentPattern] at htext ⊢
  rw [readAssignment?]
  by_cases hkey : cs.takeWhile isNameChar = []
  · rw [if_pos hkey, if_pos (List.isEmpty_iff.mpr hkey)]
    rfl
  · rw [if_neg hkey] at htext ⊢
    rw [if_neg fun hempty => hkey (List.isEmpty_iff.mp hempty)]
    split
    · rename_i after hafter
      rw [match?_signPattern_of_eq hafter] at htext ⊢
      rw [readValue?_eq_match?]
      cases hvalue : valuePattern.match? (Text.trimStart after) with
      | none => rfl
      | some way =>
          rw [hvalue] at htext
          have hfull := htext _ rfl
          dsimp only [Option.map_some, Way.join] at hfull ⊢
          rw [hfull]
          rfl
    · rename_i hother
      rw [match?_signPattern_of_ne fun after heq => hother after heq]
      rfl

theorem readAssignment?_of_match? {cs : List Char} {way : Way}
    (h : assignmentPattern.match? cs = some way) :
    readAssignment? cs = some (matchedAssignment way, way.rest) := by
  rw [readAssignment?_eq_match?, h]
  rfl

theorem readAssignment?_of_no_match {cs : List Char} (h : assignmentPattern.match? cs = none) :
    readAssignment? cs = none := by
  rw [readAssignment?_eq_match?, h]
  rfl

theorem not_takes_nil (groups : List (Nat × List Char)) : ¬ assignmentPattern.Takes [] groups := by
  intro h
  obtain ⟨before, after, _, _, hkey, -, hnil, -⟩ := Pattern.takes_seq_iff.mp h
  obtain ⟨inner, hrun, -⟩ := Pattern.takes_group_iff.mp hkey
  exact (Pattern.takes_run_iff.mp hrun).1.1 (List.append_eq_nil_iff.mp hnil.symm).1

/-! The values. -/

/-- After a key, an equals sign and the blanks around it, a text goes on with a character that is
not blank. -/
def ValueStarts (key cs : List Char) (q : Char) (tail : List Char) : Prop :=
  ∃ before after, cs = key ++ (before ++ '=' :: (after ++ q :: tail)) ∧
    (∀ c ∈ before, Text.isBlank c = true) ∧ (∀ c ∈ after, Text.isBlank c = true) ∧
    Text.isBlank q = false

theorem readAssignment?_value {cs rest : List Char} {a : Assignment}
    (h : readAssignment? cs = some (a, rest)) :
    ∃ q tail, ValueStarts a.key cs q tail ∧
      readValue? (q :: tail) = some (a.value, a.quoted, rest) := by
  have hblanks : ∀ cs : List Char, ∀ c ∈ cs.takeWhile Text.isBlank, Text.isBlank c = true :=
    fun cs => List.all_eq_true.mp List.all_takeWhile
  rw [readAssignment?] at h
  split at h
  · cases h
  · split at h
    · rename_i after hafter
      split at h
      · rename_i value quoted rest hvalue
        cases h
        cases htrim : Text.trimStart after with
        | nil =>
            rw [htrim] at hvalue
            cases hvalue
        | cons q tail =>
            rw [htrim] at hvalue
            have hq : Text.isBlank q = false := Text.isBlank_head_trimStart (by rw [htrim]; rfl)
            refine ⟨q, tail, ⟨(cs.dropWhile isNameChar).takeWhile Text.isBlank,
              after.takeWhile Text.isBlank, ?_, hblanks _, hblanks _, hq⟩, hvalue⟩
            dsimp only
            rw [← htrim, Text.trimStart, List.takeWhile_append_dropWhile, ← hafter, Text.trimStart,
              List.takeWhile_append_dropWhile, List.takeWhile_append_dropWhile]
      · cases h
    · cases h

/-- A value is suspicious exactly if it starts with a quote that does not occur again. Such a value
goes on to the next blank. -/
theorem suspicion?_of_readValue? {a : Assignment} {q : Char} {tail rest : List Char}
    (h : readValue? (q :: tail) = some (a.value, a.quoted, rest)) :
    (a.suspicion? ≠ none ↔ isQuote q = true ∧ q ∉ tail) ∧
      (isQuote q = true → q ∉ tail →
        a.suspicion? = some (.unterminatedValue (String.ofList a.text)) ∧
          a.value = (q :: tail).takeWhile (!Text.isBlank ·)) := by
  obtain ⟨key, value, quoted, text⟩ := a
  rw [readValue?] at h
  split at h
  · rename_i hclosed
    cases h
    simp only [Bool.and_eq_true, List.contains_iff_mem] at hclosed
    refine ⟨iff_of_false (fun hne => hne rfl) fun hopen => hopen.2 hclosed.2, fun _ hnot => ?_⟩
    exact absurd hclosed.2 hnot
  · rename_i hclosed
    split at h
    · cases h
    · rename_i hblank
      cases h
      have hsuspicion : (Assignment.mk key (q :: tail.takeWhile (!Text.isBlank ·)) false
          text).suspicion? =
            if isQuote q then some (.unterminatedValue (String.ofList text)) else none :=
        rfl
      have hvalue : (q :: tail).takeWhile (!Text.isBlank ·) =
          q :: tail.takeWhile (!Text.isBlank ·) :=
        List.takeWhile_cons_of_pos (by simpa using hblank)
      rw [hsuspicion, hvalue]
      simp only [Bool.and_eq_true, List.contains_iff_mem, not_and] at hclosed
      refine ⟨?_, fun hquote _ => ⟨by rw [if_pos hquote], rfl⟩⟩
      by_cases hquote : isQuote q = true
      · rw [if_pos hquote]
        exact iff_of_true (Option.some_ne_none _) ⟨hquote, hclosed hquote⟩
      · rw [if_neg hquote]
        exact iff_of_false (fun hne => hne rfl) fun hopen => hquote hopen.1

/-! Scans of a text. -/

theorem pieces_gap {gap rest : List Char}
    (h : ∀ c tail, c :: tail <:+ gap → assignmentPattern.match? (c :: tail ++ rest) = none) :
    pieces (gap ++ rest) = gap.map .char ++ pieces rest := by
  induction gap with
  | nil => rfl
  | cons c gap ih =>
      have hnone : readAssignment? (c :: (gap ++ rest)) = none :=
        readAssignment?_of_no_match (h c gap (List.suffix_refl _))
      rw [List.cons_append, pieces_cons_of_none hnone,
        ih fun d tail hsuffix => h d tail (hsuffix.trans (List.suffix_cons c gap)), List.map_cons,
        List.cons_append]

/-- The pieces of a text are the characters of the gaps and the assignments of the matches. -/
theorem pieces_of_scan {cs last : List Char} {found : List (List Char × Way)}
    (h : assignmentPattern.Scan cs found last) :
    pieces cs =
      found.flatMap (fun item => item.1.map .char ++ [.assignment (matchedAssignment item.2)]) ++
        last.map .char := by
  induction h with
  | @done cs hnone =>
      have hgap := @pieces_gap cs [] fun c tail hsuffix => by
        rw [List.append_nil]
        exact hnone _ hsuffix
      rw [List.append_nil] at hgap
      rw [hgap, pieces, List.append_nil, List.flatMap_nil, List.nil_append]
  | next hgap hmatch _ ih =>
      rw [pieces_gap hgap, pieces_of_some (readAssignment?_of_match? hmatch), ih,
        List.flatMap_cons, List.append_assoc, List.append_assoc, List.singleton_append]

section Scan

variable {cs last : List Char} {found : List (List Char × Way)}

theorem assignments_of_scan (h : assignmentPattern.Scan cs found last) :
    assignments (pieces cs) = found.map fun item => matchedAssignment item.2 := by
  rw [assignments, pieces_of_scan h, List.filterMap_append, (filterMap_chars last).1,
    List.append_nil, List.filterMap_flatMap, List.map_eq_flatMap]
  congr 1
  funext item
  rw [List.filterMap_append, (filterMap_chars item.1).1]
  rfl

theorem leftover_of_scan (h : assignmentPattern.Scan cs found last) :
    leftover (pieces cs) = Text.trim (found.flatMap Prod.fst ++ last) := by
  rw [leftover, pieces_of_scan h, List.filterMap_append, (filterMap_chars last).2,
    List.filterMap_flatMap]
  congr 3
  funext item
  rw [List.filterMap_append, (filterMap_chars item.1).2]
  exact List.append_nil _

end Scan

def matchedPair (way : Way) : String × String :=
  (String.ofList (matchedAssignment way).key, String.ofList (matchedAssignment way).value)

/-- The attributes and the inline text that are taken from a text, by its scan. The text is the gaps
and the matches in turn, and no gap holds a match. The attributes are those of the matches: a key
stands where it is matched first, with the value matched last. The gaps are left over. A match is
suspicious if its value starts with a quote that does not occur again in the text. -/
structure Extracted (cs : List Char) (found : List (List Char × Way)) (last : List Char) :
    Prop where
  text_eq : cs = found.flatMap (fun item => item.1 ++ item.2.text) ++ last
  gaps : ∀ gap ∈ found.map Prod.fst ++ [last], ∀ rest, rest <:+ gap →
    assignmentPattern.match? rest = none
  assignments_eq : assignments (pieces cs) = found.map fun item => matchedAssignment item.2
  leftover_eq : leftover (pieces cs) = Text.trim (found.flatMap Prod.fst ++ last)
  keys_eq : (explicitAttributes (pieces cs)).keys =
    (found.map fun item => (matchedPair item.2).1).eraseDups
  get?_eq : ∀ key, (explicitAttributes (pieces cs)).get? key =
    (found.map fun item => matchedPair item.2).reverse.lookup key
  suspicions : ∀ gap way, (gap, way) ∈ found → ∃ before q tail,
    cs = before ++ (way.text ++ way.rest) ∧
    ValueStarts (matchedAssignment way).key (way.text ++ way.rest) q tail ∧
    ((matchedAssignment way).suspicion? ≠ none ↔ isQuote q = true ∧ q ∉ tail) ∧
    (isQuote q = true → q ∉ tail →
      (matchedAssignment way).suspicion? = some (.unterminatedValue (String.ofList way.text)) ∧
        (matchedAssignment way).value = (q :: tail).takeWhile (!Text.isBlank ·))

theorem extracted_of_scan {cs last : List Char} {found : List (List Char × Way)}
    (h : assignmentPattern.Scan cs found last) : Extracted cs found last := by
  have hpairs : explicitAttributes (pieces cs) =
      .ofPairs (found.map fun item => matchedPair item.2) := by
    rw [explicitAttributes, assignments_of_scan h, List.map_map]
    rfl
  refine ⟨h.text_eq, h.match?_gap not_takes_nil, assignments_of_scan h, leftover_of_scan h, ?_, ?_,
    ?_⟩
  · rw [hpairs, Attributes.keys_ofPairs, List.map_map]
    rfl
  · intro key
    rw [hpairs, Attributes.get?_ofPairs]
  · intro gap way hmem
    obtain ⟨⟨before, hbefore⟩, hmatch⟩ := h.of_mem hmem
    obtain ⟨q, tail, hstarts, hvalue⟩ := readAssignment?_value (readAssignment?_of_match? hmatch)
    exact ⟨before, q, tail, hbefore, hstarts, suspicion?_of_readValue? hvalue⟩

/-- Every text has one scan by the pattern of assignments, and from it come the explicit attributes,
the inline text and the suspicious values of a tag line with this text behind its head. -/
theorem attributes_extracted (cs : List Char) :
    ∃ found last,
      (∀ found' last', assignmentPattern.Scan cs found' last' ↔ found' = found ∧ last' = last) ∧
      Extracted cs found last ∧
      ∀ content depth line raw, splitOutput? content = none → afterHead content = cs →
        ∃ name shortcuts, splitHead ((Text.words content).headD []) = (name, shortcuts) ∧
          readTag content depth line raw =
            (⟨.tag name (shortcuts.merge (explicitAttributes (pieces cs)))
                (readInline (Text.trim (found.flatMap Prod.fst ++ last)) depth line raw),
              depth, line, raw⟩,
              found.filterMap fun item => (matchedAssignment item.2).suspicion?) := by
  obtain ⟨found, last, hscan⟩ := Pattern.exists_scan_iff not_takes_nil cs
  have hextracted := extracted_of_scan ((hscan found last).mpr ⟨rfl, rfl⟩)
  refine ⟨found, last, hscan, hextracted, ?_⟩
  rintro content depth line raw houtput rfl
  refine ⟨_, _, rfl, ?_⟩
  rw [readTag, houtput, ← hextracted.leftover_eq]
  dsimp only
  rw [hextracted.assignments_eq, List.filterMap_map]
  rfl

/-- A line with a value in quotes, a key that is given twice and a quote that is left open. -/
def crowdedContent : List Char :=
  "a href='/a b' x=1 go x = \"open on".toList

theorem attributes_extracted_crowdedContent :
    splitOutput? crowdedContent = none ∧
      ∃ found last, assignmentPattern.Scan (afterHead crowdedContent) found last ∧
        Extracted (afterHead crowdedContent) found last ∧
        (readTag crowdedContent 0 1 "").1.construct =
          .tag "a" [("href", "/a b"), ("x", "\"open")] [⟨.text, "go  on", 0, 1, ""⟩] ∧
        (found.filterMap fun item => (matchedAssignment item.2).suspicion?) =
          [.unterminatedValue "x = \"open"] := by
  have houtput : splitOutput? crowdedContent = none := by decide +kernel
  obtain ⟨found, last, hscan, hextracted, hread⟩ :=
    attributes_extracted (afterHead crowdedContent)
  obtain ⟨name, shortcuts, -, htag⟩ := hread crowdedContent 0 1 "" houtput rfl
  refine ⟨houtput, found, last, (hscan found last).mpr ⟨rfl, rfl⟩, hextracted, by decide +kernel,
    ?_⟩
  have hsuspicions : (readTag crowdedContent 0 1 "").2 = [.unterminatedValue "x = \"open"] := by
    decide +kernel
  rwa [htag] at hsuspicions

end SlimTemplate.Slim
