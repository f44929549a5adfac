import SlimTemplate.Proofs.Erb.Relabelling
import SlimTemplate.Proofs.Erb.Tree
import SlimTemplate.Proofs.Slim.Numbering

/-!
Sources one after another. A line at the margin that continues no block ends all blocks before it,
just as the end of the source does, so what comes before it and what comes after it are converted
as if each stood alone.
-/

namespace SlimTemplate.Erb

open Slim (Node Document Diagnostic)

/-- A node that can follow any document without being a part of it. -/
def StartsAnew (node : Node) : Prop :=
  node.depth = 0 ∧ isContinuation node = false

section Seam

variable {options : Options} {stack rest more : List Node} {node next : Node} {takesOver : Bool}

/-- Before such a node all blocks are closed, as they are at the end. -/
theorem closeBlocks_anew (hnext : StartsAnew next) (hstack : ∀ block ∈ stack, 0 ≤ block.depth) :
    closeBlocks next.depth (some next) stack = ((closeBlocks 0 none stack).1, [], false) := by
  rw [hnext.1]
  induction stack with
  | nil => rfl
  | cons block outer ih =>
      obtain ⟨hblock, houter⟩ := List.forall_mem_cons.mp hstack
      simp [closeBlocks, Int.not_lt.mpr hblock, hnext.2, ih houter]

/-- A node is not around one at the margin. -/
theorem isNested_anew (hnext : StartsAnew next) (hnode : 0 ≤ node.depth) :
    isNested node (some next) = isNested node none := by
  simp [isNested, hnext.1, hnode]

/-- A run goes through the nodes before the seam as if they were all, and then begins anew. -/
theorem written_append (hdepth : ∀ block ∈ stack ++ node :: rest, 0 ≤ block.depth)
    (hmore : ∀ next ∈ more.head?, StartsAnew next) :
    written options stack takesOver (node :: rest ++ more) =
      written options stack takesOver (node :: rest) ++ written options [] false more := by
  induction rest generalizing stack takesOver node with
  | nil =>
      cases more with
      | nil => simp [written, closeBlocks]
      | cons next more =>
          have hnext := hmore next rfl
          have hnested := isNested_anew hnext (hdepth node (by simp))
          have hpush : pushBlock options takesOver node (some next) stack =
              pushBlock options takesOver node none stack := by
            rw [pushBlock, pushBlock, opensBlock_of_alike (.same _) hnested]
          have hstack : ∀ block ∈ pushBlock options takesOver node none stack, 0 ≤ block.depth :=
            fun block hblock => hdepth block (mem_append_of_mem_pushBlock hblock)
          rw [List.cons_append, List.nil_append, written, List.head?_cons, hpush,
            ownLine?_congr options node hnested]
          simp only [closeBefore, closeBlocks_anew hnext hstack]
          simp only [written, closeBefore, List.head?_nil, List.append_nil]
  | cons following rest ih =>
      rw [List.cons_append, List.cons_append, written, List.head?_cons, ← List.cons_append,
        ih fun block hblock => hdepth block (mem_append_of_mem_closeBefore hblock)]
      simp only [written, List.head?_cons, List.append_assoc]

theorem written_join {nodes : List Node} (hdepth : ∀ node ∈ nodes, 0 ≤ node.depth)
    (hmore : ∀ next ∈ more.head?, StartsAnew next) :
    written options [] false (nodes ++ more) =
      written options [] false nodes ++ written options [] false more := by
  cases nodes with
  | nil => rfl
  | cons node rest => exact written_append hdepth hmore

end Seam

/-- Counting lines from elsewhere changes nothing in what is written. -/
theorem relabels_later (n : Nat) : Relabels (·.later n) where
  alike node := by
    obtain ⟨construct, _, _, _⟩ := node
    cases construct with
    | tag name attributes inline =>
        refine .tag ?_
        simp [InlineAlike, Slim.Inline.later]
    | text | statement | expression | comment | doctype => exact .same _
  less _ _ := Iff.rfl
  negative _ := Iff.rfl

theorem StartsAnew.later {node : Node} (h : StartsAnew node) (n : Nat) :
    StartsAnew (node.later n) :=
  ⟨h.1, (isContinuation_of_alike ((relabels_later n).alike node)).trans h.2⟩

theorem ownDepth_later (n : Nat) (node : Node) : ownDepth (node.later n) = ownDepth node :=
  ownDepth_of_alike ((relabels_later n).alike node) rfl

def outputLines (options : Options) (source : String) : Except Overflow (List String) :=
  (documentLines options (Document.parse source).nodes).map fun lines =>
    lines.map (·.render options.indentSize)

theorem outputLines_eq {options : Options} {source : String}
    (hfits : ∀ node ∈ (Document.parse source).nodes, Fits options node) :
    outputLines options source =
      .ok ((written options [] false (Document.parse source).nodes).map
        (·.render options.indentSize)) := by
  rw [outputLines, documentLines_eq options _ (overflows_parse hfits)]
  rfl

/-- Whether a line is at the margin and continues no block. -/
def isTopLine (cs : List Char) : Bool :=
  (cs.takeWhile Text.isBlank).isEmpty &&
    match Text.trim cs with
    | '-' :: ' ' :: code => !isContinuationCode (String.ofList code)
    | _ => true

/-- The first line of a source that is not blank, if it has one. -/
def firstLine? (source : String) : Option (List Char) :=
  (Slim.sourceLines source).find? fun cs => !(Text.trim cs).isEmpty

theorem startsAnew_of_readLine {line : Nat} {cs : List Char} {node : Node}
    (htop : isTopLine cs = true) (h : (Slim.readLine line cs).1 = some node) : StartsAnew node := by
  rw [isTopLine, Bool.and_eq_true] at htop
  have hread := Slim.readsLine_of_readLine h
  refine ⟨?_, ?_⟩
  · rw [hread.depth, List.isEmpty_iff.mp htop.1]
    rfl
  · have hform := hread.form
    rw [isContinuation]
    split
    · rename_i code hcode
      rw [hcode] at hform
      cases hform with
      | statement hcontent =>
          have hnot := htop.2
          rw [hcontent] at hnot
          simpa using hnot
    · rfl

/-- The first node of a document comes from the first line that is not blank. -/
theorem head_readLines {line : Nat} {lines : List (List Char)} {node : Node}
    (h : (Slim.readLines line lines).nodes.head? = some node) :
    ∃ cs number, lines.find? (fun cs => !(Text.trim cs).isEmpty) = some cs ∧
      (Slim.readLine number cs).1 = some node := by
  induction lines generalizing line with
  | nil => cases h
  | cons cs rest ih =>
      rw [Slim.readLines] at h
      dsimp only at h
      cases hfirst : (Slim.readLine line cs).1 with
      | none =>
          rw [hfirst] at h
          obtain ⟨found, number, hfound, hnode⟩ := ih h
          refine ⟨found, number, ?_, hnode⟩
          rw [List.find?_cons_of_neg (by simp [Slim.readLine_eq_none_iff.mp hfirst]), hfound]
      | some first =>
          rw [hfirst] at h
          cases h
          refine ⟨cs, line, List.find?_cons_of_pos ?_, hfirst⟩
          rw [Bool.not_eq_true', ← Bool.not_eq_true, ← Slim.readLine_eq_none_iff, hfirst]
          simp

/-- A source after which another one starts at the margin is converted as if it ended there, and
the other one as if it started there, with its lines counted on. -/
theorem conversion_joins (options : Options) {first second : String}
    (hreturn : first.toList.getLast? ≠ some '\r') (hmark : second.toList.head? ≠ some '\uFEFF')
    (htop : (firstLine? second).all isTopLine = true)
    (hfirst : ∀ node ∈ (Document.parse first).nodes, Fits options node)
    (hsecond : ∀ node ∈ (Document.parse second).nodes, Fits options node) :
    ∃ lines more, outputLines options first = .ok lines ∧ outputLines options second = .ok more ∧
      outputLines options (first ++ "\n" ++ second) = .ok (lines ++ more) ∧
      (convert options (first ++ "\n" ++ second)).map (·.output) =
        .ok ("\n".intercalate (lines ++ more)) ∧
      (Document.parse (first ++ "\n" ++ second)).diagnostics =
        (Document.parse first).diagnostics ++
          (Document.parse second).diagnostics.map (·.later (Slim.sourceLines first).length) := by
  have hparse := Slim.parse_join hreturn hmark
  have hfits : ∀ node ∈ (Document.parse (first ++ "\n" ++ second)).nodes, Fits options node := by
    intro node hnode
    rw [hparse] at hnode
    cases List.mem_append.mp hnode with
    | inl hold => exact hfirst node hold
    | inr hnew =>
        obtain ⟨other, hother, rfl⟩ := List.mem_map.mp hnew
        rw [Fits, ownDepth_later]
        exact hsecond other hother
  have hanew : ∀ next ∈ ((Document.parse second).nodes.map
      (·.later (Slim.sourceLines first).length)).head?, StartsAnew next := by
    intro next hnext
    rw [List.head?_map] at hnext
    obtain ⟨start, hstart, rfl⟩ := Option.map_eq_some_iff.mp hnext
    obtain ⟨cs, number, hfound, hread⟩ := head_readLines hstart
    rw [firstLine?, hfound] at htop
    exact (startsAnew_of_readLine htop hread).later _
  have hlines : (written options [] false (Document.parse (first ++ "\n" ++ second)).nodes).map
        (·.render options.indentSize) =
      (written options [] false (Document.parse first).nodes).map (·.render options.indentSize) ++
        (written options [] false (Document.parse second).nodes).map
          (·.render options.indentSize) := by
    have hdepth := fun node hnode => (Slim.parse_wellNamed first node hnode).2
    rw [hparse, written_join hdepth hanew, List.map_append, (relabels_later _).render fun _ => rfl]
  refine ⟨_, _, outputLines_eq hfirst, outputLines_eq hsecond, ?_, ?_, by rw [hparse]⟩
  · rw [outputLines_eq hfits, hlines]
  · rw [convert_eq_writtenText hfits, ← hlines]
    rfl

/-- Blocks of tags and of code that are open at the end, behind a byte order mark. -/
def unfinishedSource : String :=
  "\uFEFFul\r\n\t- if ready\r\n\t  li title=\"a\r\n      b One\r\n"

def followingSource : String :=
  "  \n- while more\n\tp Two"

theorem conversion_joins_unfinishedSource :
    unfinishedSource.toList.getLast? ≠ some '\r' ∧
      followingSource.toList.head? ≠ some '\uFEFF' ∧
      (firstLine? followingSource).all isTopLine = true ∧
      (∀ node ∈ (Document.parse unfinishedSource).nodes, Fits {} node) ∧
      (∀ node ∈ (Document.parse followingSource).nodes, Fits {} node) ∧
      (outputLines {} (unfinishedSource ++ "\n" ++ followingSource)).toOption =
        some ["<ul>", " <% if ready %>", "   <li title=\"&quot;a\">", "      <b>One</b>", "   </li>",
          " <% end %>", "</ul>", "<% while more %>", " <p>Two</p>", "<% end %>"] ∧
      (Document.parse (unfinishedSource ++ "\n" ++ followingSource)).diagnostics.map (·.line) =
        [2, 3, 3, 8] := by
  have hreturn : unfinishedSource.toList.getLast? ≠ some '\r' := by decide +kernel
  have hmark : followingSource.toList.head? ≠ some '\uFEFF' := by decide +kernel
  have htop : (firstLine? followingSource).all isTopLine = true := by decide +kernel
  have hfirst : ∀ node ∈ (Document.parse unfinishedSource).nodes, Fits {} node := by decide +kernel
  have hsecond : ∀ node ∈ (Document.parse followingSource).nodes, Fits {} node := by
    decide +kernel
  obtain ⟨lines, more, hlines, hmore, hjoined, -, hdiagnostics⟩ :=
    conversion_joins {} hreturn hmark htop hfirst hsecond
  refine ⟨hreturn, hmark, htop, hfirst, hsecond, ?_, ?_⟩
  · have hbefore : (outputLines {} unfinishedSource).toOption =
        some ["<ul>", " <% if ready %>", "   <li title=\"&quot;a\">", "      <b>One</b>", "   </li>",
          " <% end %>", "</ul>"] := by decide +kernel
    have hafter : (outputLines {} followingSource).toOption =
        some ["<% while more %>", " <p>Two</p>", "<% end %>"] := by decide +kernel
    rw [hlines] at hbefore
    rw [hmore] at hafter
    cases hbefore
    cases hafter
    rw [hjoined]
    rfl
  · rw [hdiagnostics]
    decide +kernel

end SlimTemplate.Erb
