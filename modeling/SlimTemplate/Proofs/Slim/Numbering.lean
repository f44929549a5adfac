import SlimTemplate.Proofs.Text.Utf8
import SlimTemplate.Proofs.Text.Words
import SlimTemplate.Slim.Document

/-!
Line numbers. A document is what its lines are read as, one by one, and the number of a line only
marks what is read from it. So two sources with a line break between them are read one after the
other, and the lines of the second are counted on.
-/

namespace SlimTemplate

/-- Line ends are unified on both sides of a break that is not the second half of a line end. -/
theorem Text.unifyBreaks_append_break {cs : List Char} (hreturn : cs.getLast? ≠ some '\r')
    (ds : List Char) :
    unifyBreaks (cs ++ '\n' :: ds) = unifyBreaks cs ++ '\n' :: unifyBreaks ds := by
  fun_induction unifyBreaks cs with
  | case1 cs ih =>
      have hrest : cs.getLast? ≠ some '\r' := by
        cases cs with
        | nil => simp
        | cons c cs => simpa using hreturn
      simp only [List.cons_append, unifyBreaks, ih hrest]
  | case2 cs hnot ih =>
      cases cs with
      | nil => simp at hreturn
      | cons c cs =>
          have hc : c ≠ '\n' := fun heq => hnot cs (heq ▸ rfl)
          have hrest := ih (by simpa using hreturn)
          rw [List.cons_append] at hrest ⊢
          rw [List.cons_append, unifyBreaks, hrest]
          · rfl
          · simpa using hc
  | case3 c cs hbreak hlone ih =>
      have hrest : cs.getLast? ≠ some '\r' := by
        cases cs with
        | nil => simp
        | cons d cs => simpa using hreturn
      have hc : c ≠ '\r' := fun heq => hlone heq
      rw [List.cons_append, unifyBreaks, ih hrest]
      · rfl
      · simp [hc]
      · simp [hc]
  | case4 => rfl

namespace Slim

def Inline.later (n : Nat) (part : Inline) : Inline :=
  { part with line := part.line + n }

def Construct.later (n : Nat) : Construct → Construct
  | .tag name attributes inline => .tag name attributes (inline.map (·.later n))
  | .text s => .text s
  | .statement s => .statement s
  | .expression s => .expression s
  | .comment s => .comment s
  | .doctype s => .doctype s

def Node.later (n : Nat) (node : Node) : Node :=
  { node with construct := node.construct.later n, line := node.line + n }

def Diagnostic.later (n : Nat) (diagnostic : Diagnostic) : Diagnostic :=
  { diagnostic with line := diagnostic.line + n }

theorem readInline_later (cs : List Char) (depth : Int) (line n : Nat) (raw : String) :
    readInline cs depth (line + n) raw = (readInline cs depth line raw).map (·.later n) := by
  rw [readInline.eq_def, readInline.eq_def]
  split <;> rfl

theorem readTag_later (content : List Char) (depth : Int) (line n : Nat) (raw : String) :
    readTag content depth (line + n) raw =
      ((readTag content depth line raw).1.later n, (readTag content depth line raw).2) := by
  rw [readTag, readTag]
  split
  · rfl
  · simp only [Node.later, Construct.later, readInline_later]

/-- A line further down is read as the same, but for its number. -/
theorem readLine_later (line n : Nat) (cs : List Char) :
    readLine (line + n) cs =
      ((readLine line cs).1.map (·.later n), (readLine line cs).2) := by
  rw [readLine, readLine]
  dsimp only
  split
  · rfl
  · split
    · rfl
    · rfl
    · rfl
    · rfl
    · split
      · rfl
      · rw [readTag_later]
        rfl

inductive LineForm (content : List Char) : Construct → Prop
  | comment {text : List Char} (h : content = '/' :: text) :
      LineForm content (.comment (String.ofList (Text.trim text)))
  | expression {code : List Char} (h : content = '=' :: ' ' :: code) :
      LineForm content (.expression (String.ofList code))
  | statement {code : List Char} (h : content = '-' :: ' ' :: code) :
      LineForm content (.statement (String.ofList code))
  | text {text : List Char} (h : content = '|' :: ' ' :: text) :
      LineForm content (.text (String.ofList text))
  | doctype (h : ∀ text, content ≠ '/' :: text) :
      LineForm content (.doctype (String.ofList content))
  | tag {name : String} {attributes : Attributes} {inline : List Inline}
      (h : ∀ text, content ≠ '/' :: text) : LineForm content (.tag name attributes inline)

/-- A node keeps its line, the number of the line and its indentation. -/
structure ReadsLine (line : Nat) (cs : List Char) (node : Node) : Prop where
  line : node.line = line
  raw : node.raw = String.ofList cs
  depth : node.depth = (cs.takeWhile Text.isBlank).length
  form : LineForm (Text.trim cs) node.construct

theorem readsLine_readTag {line : Nat} {cs : List Char}
    (h : ∀ text, Text.trim cs ≠ '/' :: text) :
    ReadsLine line cs
      (readTag (Text.trim cs) (cs.takeWhile Text.isBlank).length line (String.ofList cs)).1 := by
  rw [readTag]
  split
  · exact ⟨rfl, rfl, rfl, .tag h⟩
  · exact ⟨rfl, rfl, rfl, .tag h⟩

theorem readsLine_of_readLine {line : Nat} {cs : List Char} {node : Node}
    (h : (readLine line cs).1 = some node) : ReadsLine line cs node := by
  rw [readLine] at h
  dsimp only at h
  split at h
  · cases h
  split at h
  · rename_i hcontent
    cases h
    exact ⟨rfl, rfl, rfl, .comment hcontent⟩
  · rename_i hcontent
    cases h
    exact ⟨rfl, rfl, rfl, .expression hcontent⟩
  · rename_i hcontent
    cases h
    exact ⟨rfl, rfl, rfl, .statement hcontent⟩
  · rename_i hcontent
    cases h
    exact ⟨rfl, rfl, rfl, .text hcontent⟩
  · rename_i hcomment _ _ _
    split at h
    · cases h
      exact ⟨rfl, rfl, rfl, .doctype hcomment⟩
    · cases h
      exact readsLine_readTag hcomment

theorem readLine_eq_none_iff {line : Nat} {cs : List Char} :
    (readLine line cs).1 = none ↔ (Text.trim cs).isEmpty = true := by
  rw [readLine]
  dsimp only
  split
  · simp [*]
  · rename_i hblank
    refine iff_of_false ?_ hblank
    split
    · simp
    · simp
    · simp
    · simp
    · split <;> simp

/-- A line that is no node gives no cause for suspicion. -/
theorem readLine_suspicions {line : Nat} {cs : List Char} (h : (readLine line cs).1 = none) :
    (readLine line cs).2 = [] := by
  have hblank := readLine_eq_none_iff.mp h
  rw [readLine]
  dsimp only
  rw [if_pos hblank]

section Members

variable {first : Nat} {lines : List (List Char)}

/-- The nodes of a document are what its lines are read as, each at its own number. -/
theorem mem_readLines_iff {node : Node} :
    node ∈ (readLines first lines).nodes ↔
      ∃ i cs, lines[i]? = some cs ∧ (readLine (first + i) cs).1 = some node := by
  induction lines generalizing first with
  | nil => simp [readLines]
  | cons line rest ih =>
      rw [readLines]
      dsimp only
      rw [List.mem_append, Option.mem_toList, ih]
      constructor
      · rintro (hline | ⟨i, cs, hcs, hnode⟩)
        · exact ⟨0, line, rfl, hline⟩
        · exact ⟨i + 1, cs, hcs, by rwa [Nat.add_comm i, ← Nat.add_assoc]⟩
      · rintro ⟨i, cs, hcs, hnode⟩
        cases i with
        | zero =>
            cases hcs
            exact .inl hnode
        | succ i => exact .inr ⟨i, cs, hcs, by rwa [Nat.add_assoc, Nat.add_comm 1]⟩

/-- The diagnostics are the suspicions of the lines, each at the number of its line. -/
theorem mem_diagnostics_iff {diagnostic : Diagnostic} :
    diagnostic ∈ (readLines first lines).diagnostics ↔
      ∃ i cs, lines[i]? = some cs ∧ diagnostic.line = first + i ∧
        diagnostic.suspicion ∈ (readLine (first + i) cs).2 := by
  induction lines generalizing first with
  | nil => simp [readLines]
  | cons line rest ih =>
      rw [readLines]
      dsimp only
      rw [List.mem_append, List.mem_map, ih]
      constructor
      · rintro (⟨suspicion, hsuspicion, rfl⟩ | ⟨i, cs, hcs, hline, hmem⟩)
        · exact ⟨0, line, rfl, rfl, hsuspicion⟩
        · rw [Nat.add_assoc, Nat.add_comm 1] at hline hmem
          exact ⟨i + 1, cs, hcs, hline, hmem⟩
      · rintro ⟨i, cs, hcs, hline, hmem⟩
        cases i with
        | zero =>
            cases hcs
            exact .inl ⟨_, hmem, congrArg (Diagnostic.mk · _) hline.symm⟩
        | succ i =>
            rw [Nat.add_comm i, ← Nat.add_assoc] at hline hmem
            exact .inr ⟨i, cs, hcs, hline, hmem⟩

end Members

/-- Numbers grow from node to node, and from one diagnostic to the next they do not shrink. -/
theorem readLines_ordered (first : Nat) (lines : List (List Char)) :
    (readLines first lines).nodes.Pairwise (·.line < ·.line) ∧
      (readLines first lines).diagnostics.Pairwise (·.line ≤ ·.line) := by
  induction lines generalizing first with
  | nil => exact ⟨.nil, .nil⟩
  | cons cs rest ih =>
      obtain ⟨hnodes, hdiagnostics⟩ := ih (first + 1)
      have hone : ∀ node : Option Node, node.toList.Pairwise (·.line < ·.line) := by
        intro node
        cases node with
        | none => exact .nil
        | some node => exact List.pairwise_singleton _ node
      constructor
      · refine List.pairwise_append.mpr ⟨hone _, hnodes, fun node hnode later hlater => ?_⟩
        have hfirst := (readsLine_of_readLine (Option.mem_toList.mp hnode)).line
        obtain ⟨i, ds, -, hread⟩ := mem_readLines_iff.mp hlater
        rw [hfirst, (readsLine_of_readLine hread).line]
        omega
      · refine List.pairwise_append.mpr ⟨?_, hdiagnostics, fun earlier hearlier later hlater => ?_⟩
        · exact List.pairwise_map.mpr (List.pairwise_of_forall fun _ _ => Nat.le_refl first)
        · obtain ⟨suspicion, -, rfl⟩ := List.mem_map.mp hearlier
          obtain ⟨i, ds, -, hline, -⟩ := mem_diagnostics_iff.mp hlater
          rw [hline]
          change first ≤ first + 1 + i
          omega

theorem readLines_append (line : Nat) (lines more : List (List Char)) :
    readLines line (lines ++ more) =
      { nodes := (readLines line lines).nodes ++ (readLines (line + lines.length) more).nodes
        diagnostics := (readLines line lines).diagnostics ++
          (readLines (line + lines.length) more).diagnostics } := by
  induction lines generalizing line with
  | nil => rfl
  | cons cs rest ih =>
      rw [List.cons_append, readLines, readLines, ih, List.length_cons, Nat.add_right_comm,
        ← Nat.add_assoc]
      simp only [List.append_assoc]

theorem readLines_later (line n : Nat) (lines : List (List Char)) :
    readLines (line + n) lines =
      { nodes := (readLines line lines).nodes.map (·.later n)
        diagnostics := (readLines line lines).diagnostics.map (·.later n) } := by
  induction lines generalizing line with
  | nil => rfl
  | cons cs rest ih =>
      rw [readLines, readLines, readLine_later, Nat.add_right_comm, ih]
      simp [Option.toList_map, Diagnostic.later]

/-- No line of a source has a line end in it. -/
theorem sourceLines_unbroken {source : String} {cs : List Char} (h : cs ∈ sourceLines source) :
    ∀ c ∈ cs, c ≠ '\n' ∧ c ≠ '\r' := by
  intro c hc
  rw [sourceLines, Text.splitLines, List.splitOn_eq_splitOnP] at h
  obtain ⟨hmem, hfeed⟩ := Text.of_mem_splitOnP h c hc
  refine ⟨by simpa using hfeed, ?_⟩
  rintro rfl
  exact Text.notMem_unifyBreaks _ hmem

/-- A line break parts the lines of one source from those of another. -/
theorem sourceLines_join {first second : String} (hreturn : first.toList.getLast? ≠ some '\r')
    (hmark : second.toList.head? ≠ some '\uFEFF') :
    sourceLines (first ++ "\n" ++ second) = sourceLines first ++ sourceLines second := by
  have hsecond : second.toList.dropWhile (· == '\uFEFF') = second.toList := by
    cases hchars : second.toList with
    | nil => rfl
    | cons c cs =>
        rw [hchars] at hmark
        have hc : c ≠ '\uFEFF' := fun heq => hmark (congrArg some heq)
        simp [hc]
  have hdrop : (first ++ "\n" ++ second).toList.dropWhile (· == '\uFEFF') =
      first.toList.dropWhile (· == '\uFEFF') ++ '\n' :: second.toList := by
    simp only [String.toList_append, List.append_assoc]
    rw [List.dropWhile_append]
    split
    · rename_i hmarks
      rw [List.isEmpty_iff.mp hmarks]
      rfl
    · rfl
  have hlast : (first.toList.dropWhile (· == '\uFEFF')).getLast? ≠ some '\r' := by
    intro hlast
    obtain ⟨marks, hmarks⟩ := List.dropWhile_suffix (l := first.toList) (· == '\uFEFF')
    rw [← hmarks, List.getLast?_append, hlast] at hreturn
    exact hreturn rfl
  rw [sourceLines, hdrop, Text.unifyBreaks_append_break hlast, Text.splitLines,
    List.splitOn_append_cons_self, sourceLines, sourceLines, hsecond]
  rfl

/-- The second source is read as on its own, with its lines counted on. -/
theorem parse_join {first second : String} (hreturn : first.toList.getLast? ≠ some '\r')
    (hmark : second.toList.head? ≠ some '\uFEFF') :
    Document.parse (first ++ "\n" ++ second) =
      { nodes := (Document.parse first).nodes ++
          (Document.parse second).nodes.map (·.later (sourceLines first).length)
        diagnostics := (Document.parse first).diagnostics ++
          (Document.parse second).diagnostics.map (·.later (sourceLines first).length) } := by
  rw [Document.parse, sourceLines_join hreturn hmark, readLines_append, readLines_later]
  rfl

end Slim

end SlimTemplate
