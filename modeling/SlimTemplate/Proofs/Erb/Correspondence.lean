import SlimTemplate.Proofs.Erb.Characters

/-!
Lines of the source and lines of the output. Apart from the lines that close blocks, the output has
one line for each line of the source that is not blank, in the same order, except for comments of
the template that are left out; code and text stand in it as they stand in the source.
-/

namespace SlimTemplate.Erb

open Slim (Node Document)

/-- Whether a line is a comment of the template that does not reach the output. -/
def isLeftOut (options : Options) (cs : List Char) : Bool :=
  match Text.trim cs with
  | '/' :: comment => !options.emitComments && (Text.trim comment).head? != some '!'
  | _ => false

def isShown (options : Options) (cs : List Char) : Bool :=
  !(Text.trim cs).isEmpty && !isLeftOut options cs

/-- A line of content: an indentation, a mark with a space, and the content, which does not end in
a blank. -/
structure IsContentLine (cs blanks : List Char) (mark : Char) (content : String) : Prop where
  eq : cs = blanks ++ mark :: ' ' :: content.toList
  indentation : ∀ c ∈ blanks, Text.isBlank c = true
  ends : ∃ c, content.toList.getLast? = some c ∧ Text.isBlank c = false

def contentBody? : Char → String → Option String
  | '=', content => some ("<%= " ++ content ++ " %>")
  | '-', content => some ("<% " ++ content ++ " %>")
  | '|', content => some content
  | _, _ => none

/-- A line of output is the own line of a numbered line of the source. -/
structure IsOwnLine (options : Options) (numbered : List Char × Nat) (line : Line) : Prop where
  number : line.origin.line = numbered.2
  raw : line.origin.raw = String.ofList numbered.1
  own : (Slim.readLine numbered.2 numbered.1).1 = some line.origin ∧
    ∃ next, ownLine? options line.origin next = some line
  content : ∀ blanks mark content body, IsContentLine numbered.1 blanks mark content →
    contentBody? mark content = some body →
      line.render options.indentSize =
        String.ofList (List.replicate (blanks.length * options.indentSize) ' ') ++ body

theorem IsContentLine.trim_eq {cs blanks : List Char} {mark : Char} {content : String}
    (h : IsContentLine cs blanks mark content) (hmark : Text.isBlank mark = false) :
    Text.trim cs = mark :: ' ' :: content.toList := by
  obtain ⟨last, hlast, hnot⟩ := h.ends
  have htrimmed : Text.Trimmed (mark :: ' ' :: content.toList) := by
    constructor
    · intro c hc
      cases hc
      exact hmark
    · intro c hc
      have hne : content.toList ≠ [] := by
        intro hempty
        rw [hempty] at hlast
        cases hlast
      rw [List.getLast?_cons_cons, ← List.singleton_append, List.getLast?_append_of_ne_nil _ hne,
        hlast] at hc
      cases hc
      exact hnot
  have htrim := htrimmed.trim_eq h.indentation (List.forall_mem_nil _)
  rwa [List.append_nil, ← h.eq] at htrim

theorem IsContentLine.takeWhile_eq {cs blanks : List Char} {mark : Char} {content : String}
    (h : IsContentLine cs blanks mark content) (hmark : Text.isBlank mark = false) :
    cs.takeWhile Text.isBlank = blanks := by
  rw [h.eq, Text.takeWhile_blanks h.indentation hmark]

/-- Content is written behind its own indentation, whatever comes next. -/
theorem IsContentLine.ownLine?_eq {options : Options} {cs blanks : List Char} {mark : Char}
    {content body : String} {n : Nat} {node : Node} (h : IsContentLine cs blanks mark content)
    (hbody : contentBody? mark content = some body) (hnode : (Slim.readLine n cs).1 = some node)
    (next : Option Node) :
    ownLine? options node next = some ⟨blanks.length, body, node, false⟩ := by
  rw [contentBody?.eq_def] at hbody
  split at hbody
  case h_4 => cases hbody
  all_goals
    cases hbody
    rw [Slim.readLine, h.trim_eq (by decide), h.takeWhile_eq (by decide)] at hnode
    cases hnode
    simp [ownLine?, ownBody?, ownDepth]

theorem isOwnLine_of_readLine {options : Options} {n : Nat} {cs : List Char} {node : Node}
    {next : Option Node} {line : Line} (hnode : (Slim.readLine n cs).1 = some node)
    (hline : ownLine? options node next = some line) : IsOwnLine options (cs, n) line := by
  have horigin : line.origin = node := by
    obtain ⟨body, -, rfl⟩ := Option.map_eq_some_iff.mp hline
    rfl
  have hread := Slim.readsLine_of_readLine hnode
  refine ⟨horigin ▸ hread.line, horigin ▸ hread.raw, ?_, ?_⟩
  · rw [horigin]
    exact ⟨hnode, next, hline⟩
  · intro blanks mark content body hcontent hbody
    rw [hcontent.ownLine?_eq hbody hnode next] at hline
    cases hline
    rw [Line.render, ← Int.natCast_mul, Int.toNat_natCast]

/-- A line that is read as a node is written unless it is left out. -/
theorem isSome_ownLine? (options : Options) {n : Nat} {cs : List Char} {node : Node}
    (hnode : (Slim.readLine n cs).1 = some node) (next : Option Node) :
    (ownLine? options node next).isSome = !isLeftOut options cs := by
  have hform := (Slim.readsLine_of_readLine hnode).form
  obtain ⟨construct, _, _, _⟩ := node
  rw [ownLine?, Option.isSome_map, isLeftOut]
  cases hform with
  | @comment comment hcontent =>
      rw [hcontent]
      simp only [ownBody?, commentBody?, String.toList_ofList]
      split
      · rename_i hbang
        simp [hbang]
      · rename_i hother
        have hbang : (Text.trim comment).head? ≠ some '!' := by
          intro hhead
          obtain ⟨rest, hrest⟩ := List.head?_eq_some_iff.mp hhead
          exact hother rest hrest
        cases options.emitComments <;> simp [hbang]
  | expression hcontent | statement hcontent | text hcontent =>
      rw [hcontent]
      rfl
  | doctype hother | tag hother =>
      split
      · rename_i comment hcontent
        exact absurd hcontent (hother comment)
      · rfl

def ownLines (options : Options) : List Node → List Line
  | [] => []
  | node :: rest => (ownLine? options node rest.head?).toList ++ ownLines options rest

/-- Without the lines that close blocks a run has the own lines of its nodes. -/
theorem filter_written (options : Options) (stack : List Node) (takesOver : Bool)
    (nodes : List Node) :
    (written options stack takesOver nodes).filter (!·.closes) = ownLines options nodes := by
  induction nodes generalizing stack takesOver with
  | nil =>
      refine List.filter_eq_nil_iff.mpr fun line hline => ?_
      obtain ⟨block, -, rfl⟩ := mem_closeBlocks hline
      simp [closerLine]
  | cons node rest ih =>
      have hown : (ownLine? options node rest.head?).toList.filter (!·.closes) =
          (ownLine? options node rest.head?).toList := by
        refine List.filter_eq_self.mpr fun line hline => ?_
        obtain ⟨body, -, rfl⟩ := Option.map_eq_some_iff.mp (Option.mem_toList.mp hline)
        rfl
      have hclosed : (closeBefore rest.head?
          (pushBlock options takesOver node rest.head? stack)).1.filter (!·.closes) = [] := by
        refine List.filter_eq_nil_iff.mpr fun line hline => ?_
        obtain ⟨block, -, rfl⟩ := mem_closeBefore hline
        simp [closerLine]
      rw [written, List.filter_append, List.filter_append, hown, hclosed, ih, List.append_nil]
      rfl

/-- The lines that are shown and the own lines of the nodes read from them go together. -/
theorem forall₂_ownLines (options : Options) (n : Nat) (lines : List (List Char)) :
    List.Forall₂ (IsOwnLine options) ((lines.zipIdx n).filter fun numbered =>
      isShown options numbered.1) (ownLines options (Slim.readLines n lines).nodes) := by
  induction lines generalizing n with
  | nil => exact .nil
  | cons cs rest ih =>
      rw [List.zipIdx_cons, Slim.readLines]
      dsimp only
      cases hnode : (Slim.readLine n cs).1 with
      | none =>
          have hblank : isShown options cs = false := by
            simp [isShown, Slim.readLine_eq_none_iff.mp hnode]
          rw [List.filter_cons_of_neg (by simp [hblank])]
          exact ih (n + 1)
      | some node =>
          have hfull : (Text.trim cs).isEmpty = false := by
            refine Bool.not_eq_true _ ▸ fun hempty => ?_
            rw [Slim.readLine_eq_none_iff.mpr hempty] at hnode
            cases hnode
          have hshown := isSome_ownLine? options hnode (Slim.readLines (n + 1) rest).nodes.head?
          rw [Option.toList_some, List.singleton_append, ownLines]
          cases hline : ownLine? options node (Slim.readLines (n + 1) rest).nodes.head? with
          | none =>
              rw [hline] at hshown
              rw [List.filter_cons_of_neg (by simp [isShown, ← hshown])]
              exact ih (n + 1)
          | some line =>
              rw [hline] at hshown
              rw [List.filter_cons_of_pos (by simp [isShown, ← hshown, hfull])]
              exact .cons (isOwnLine_of_readLine hnode hline) (ih (n + 1))

theorem notMem_render {options : Options} {source : String} {lines : List Line}
    (h : documentLines options (Document.parse source).nodes = .ok lines) :
    ∀ line ∈ lines, '\n' ∉ (line.render options.indentSize).toList := by
  have hprinted : ∀ c, Text.isPrinted c = true → c ≠ '\n' := by
    rintro c hc rfl
    revert hc
    decide
  have hsource : ∀ cs ∈ Slim.sourceLines source, ∀ c ∈ cs, c ≠ '\n' :=
    fun _ hcs c hc => (Slim.sourceLines_unbroken hcs c hc).1
  intro line hline hbreak
  have hnodes := Slim.readLines_spelled hprinted 1 hsource
  exact documentLines_spelled hprinted hnodes h line hline '\n' hbreak rfl

/-- Every line of the source that is not blank and not left out has its own line in the output, in
order, and all other lines of the output close blocks. -/
theorem lines_correspond (options : Options) (source : String)
    (hfits : ∀ node ∈ (Document.parse source).nodes, Fits options node) :
    ∃ lines output, documentLines options (Document.parse source).nodes = .ok lines ∧
      (convert options source).map (·.output) = .ok output ∧
      output = "\n".intercalate (lines.map (·.render options.indentSize)) ∧
      (lines ≠ [] → Text.splitLines output.toList =
        lines.map fun line => (line.render options.indentSize).toList) ∧
      (∀ line ∈ lines, line.closes = true →
        ∃ block ∈ (Document.parse source).nodes, line = closerLine block) ∧
      List.Forall₂ (IsOwnLine options)
        (((Slim.sourceLines source).zipIdx 1).filter fun numbered => isShown options numbered.1)
        (lines.filter (!·.closes)) := by
  have hlines := documentLines_eq options _ (overflows_parse hfits)
  refine ⟨_, _, hlines, ?_, rfl, ?_, ?_, ?_⟩
  · rw [convert_eq_writtenText hfits]
    rfl
  · intro hne
    have hbreak : ∀ cs ∈ (written options [] false (Document.parse source).nodes).map
        (fun line => (line.render options.indentSize).toList), '\n' ∉ cs := by
      intro cs hcs
      obtain ⟨line, hline, rfl⟩ := List.mem_map.mp hcs
      exact notMem_render hlines line hline
    rw [String.toList_intercalate, List.map_map]
    exact List.splitOn_intercalate '\n' hbreak (by simpa using hne)
  · intro line hline hcloses
    rcases mem_written hline with ⟨node, -, next, hown⟩ | ⟨block, hblock, heq⟩
    · obtain ⟨body, -, rfl⟩ := Option.map_eq_some_iff.mp hown
      cases hcloses
    · exact ⟨block, hblock, heq⟩
  · rw [filter_written]
    exact forall₂_ownLines options 1 (Slim.sourceLines source)

/-- Blank lines, comments of both kinds, blocks that are closed, and contents with blanks. -/
def mixedSource : String :=
  "\uFEFFul\r\n\t- if a  <b\r\n\r\n    =   c %\r  / hidden\n" ++
    "  /! shown\n\u00a0\u2003| d \u2028e\n \n"

def quietOptions : Options :=
  { indentSize := 2, emitComments := false }

theorem lines_correspond_mixedSource :
    (∀ node ∈ (Document.parse mixedSource).nodes, Fits quietOptions node) ∧
      ∃ lines, documentLines quietOptions (Document.parse mixedSource).nodes = .ok lines ∧
        lines.map (·.render quietOptions.indentSize) =
          ["<ul>", "  <% if a  <b %>", "        <%=   c % %>", "    <!-- shown -->",
            "    d \u2028e", "  <% end %>", "</ul>"] ∧
        (((Slim.sourceLines mixedSource).zipIdx 1).filter fun numbered =>
          isShown quietOptions numbered.1).map (·.2) = [1, 2, 4, 6, 7] ∧
        List.Forall₂ (IsOwnLine quietOptions)
          (((Slim.sourceLines mixedSource).zipIdx 1).filter fun numbered =>
            isShown quietOptions numbered.1)
          (lines.filter (!·.closes)) := by
  have hfits : ∀ node ∈ (Document.parse mixedSource).nodes, Fits quietOptions node := by
    decide +kernel
  have htexts : (documentLines quietOptions (Document.parse mixedSource).nodes).toOption.map
        (fun lines => lines.map (·.render quietOptions.indentSize)) =
      some ["<ul>", "  <% if a  <b %>", "        <%=   c % %>", "    <!-- shown -->",
        "    d \u2028e", "  <% end %>", "</ul>"] := by decide +kernel
  obtain ⟨lines, -, hlines, -, -, -, -, hown⟩ := lines_correspond quietOptions mixedSource hfits
  rw [hlines] at htexts
  exact ⟨hfits, lines, hlines, Option.some.inj htexts, by decide +kernel, hown⟩

end SlimTemplate.Erb
