import SlimTemplate.Proofs.Erb.Correspondence
import SlimTemplate.Proofs.Erb.Relabelling

/-!
What the options do to a document. Nodes are told apart by their places, so that every line shows
which node it comes from. The document under any options is the one that leaves nothing out, line by
line: a line is dropped, or loses its closing tag, or stays, and its own node and the node after
that decide which.
-/

namespace SlimTemplate.Erb

open Slim (Node)

namespace Options

/-- The same width of indentation with nothing left out: comments are kept, blocks of code are
ended, and all tags are closed. -/
def full (options : Options) : Options :=
  { options with emitComments := true, closeStatements := true, voidElements := false }

/-- Whether the block of a node has a closing line, once it is open. -/
def ends (options : Options) (node : Node) : Bool :=
  options.closeStatements || !isCode node

def keeps (options : Options) (node : Node) : Bool :=
  match node.construct with
  | .comment content => options.emitComments || content.toList.head? == some '!'
  | _ => true

/-- Whether a tag goes without its closing tag: a void element with nothing in it. -/
def shortens (options : Options) (node : Node) (next : Option Node) : Bool :=
  match node.construct with
  | .tag name _ inline =>
      options.voidElements && isVoid (tagName name) && inline.isEmpty && !isNested node next
  | _ => false

end Options

def Line.shorten (line : Line) : Line :=
  let body := line.body.toList
  { line with body := String.ofList (body.take (body.length - (closer line.origin).toList.length)) }

def Options.edit (options : Options) (next : Node → Option Node) (line : Line) : Option Line :=
  if line.closes then if options.ends line.origin then some line else none
  else if !options.keeps line.origin then none
  else if options.shortens line.origin (next line.origin) then some line.shorten
  else some line

/-! One node. -/

section Node

variable {options : Options} {node : Node} {following : Option Node}

theorem shorten_append (depth : Int) (body : String) (node : Node) :
    Line.shorten ⟨depth, body ++ closer node, node, false⟩ = ⟨depth, body, node, false⟩ := by
  simp [Line.shorten]

theorem shortens_congr {next : Option Node} (h : isNested node next = isNested node following) :
    options.shortens node next = options.shortens node following := by
  rw [Options.shortens, h]
  rfl

theorem ownBody?_of_shortens (h : options.shortens node following = true) :
    ∃ body, ownBody? options.full node following = some (body ++ closer node) ∧
      ownBody? options node following = some body := by
  obtain ⟨construct, depth, line, raw⟩ := node
  cases construct with
  | tag name attributes inline =>
      simp only [Options.shortens, Bool.and_eq_true, Bool.not_eq_true', List.isEmpty_iff] at h
      obtain ⟨⟨⟨hvoid, hname⟩, rfl⟩, hnested⟩ := h
      refine ⟨openingTag (tagName name) attributes, ?_, ?_⟩
      · simp [ownBody?, tagBody, hnested, Options.full, inlineText, closer]
      · simp [ownBody?, tagBody, hvoid, hname]
  | text | statement | expression | comment | doctype => cases h

theorem keeps_of_shortens (h : options.shortens node following = true) :
    options.keeps node = true := by
  obtain ⟨construct, depth, line, raw⟩ := node
  cases construct with
  | tag => rfl
  | text | statement | expression | comment | doctype => cases h

theorem tagBody_of_not_shortens {name : String} {attributes : Slim.Attributes}
    {inline : List Slim.Inline} {nested : Bool}
    (h : (options.voidElements && isVoid name && inline.isEmpty && !nested) = false) :
    tagBody options name attributes inline nested =
      tagBody options.full name attributes inline nested := by
  have hsame : (inline.isEmpty && (nested || options.voidElements && isVoid name)) =
      (inline.isEmpty && (nested || false && isVoid name)) := by
    revert h
    cases nested <;> cases options.voidElements <;> cases isVoid name <;> simp
  rw [tagBody, tagBody, hsame]
  rfl

theorem ownBody?_of_not_shortens (h : options.shortens node following = false) :
    ownBody? options node following =
      if options.keeps node then ownBody? options.full node following else none := by
  obtain ⟨construct, depth, line, raw⟩ := node
  cases construct with
  | tag name attributes inline => exact congrArg some (tagBody_of_not_shortens h)
  | comment content =>
      simp only [ownBody?, commentBody?, Options.keeps, Options.full]
      split
      · rename_i text hbang
        simp [hbang]
      · rename_i hother
        have hbang : content.toList.head? ≠ some '!' := by
          intro hhead
          obtain ⟨text, htext⟩ := List.head?_eq_some_iff.mp hhead
          exact hother text htext
        cases options.emitComments <;> simp [hbang]
  | text | statement | expression | doctype => rfl

/-- The own line of a node under any options is that of the full document, edited. -/
theorem ownLine?_eq_edit {next : Node → Option Node}
    (h : isNested node (next node) = isNested node following) :
    ownLine? options node following =
      (ownLine? options.full node following).bind (options.edit next) := by
  have hedit : ∀ body, options.edit next ⟨ownDepth node, body, node, false⟩ =
      if !options.keeps node then none
      else if options.shortens node following then
        some (Line.shorten ⟨ownDepth node, body, node, false⟩)
      else some ⟨ownDepth node, body, node, false⟩ := by
    intro body
    rw [← shortens_congr h]
    rfl
  rw [ownLine?, ownLine?, Option.bind_map]
  cases hshort : options.shortens node following with
  | true =>
      obtain ⟨body, hfull, hown⟩ := ownBody?_of_shortens hshort
      simp [hfull, hown, hedit, hshort, keeps_of_shortens hshort, shorten_append]
  | false =>
      rw [ownBody?_of_not_shortens hshort]
      cases hkeeps : options.keeps node with
      | true => cases ownBody? options.full node following <;> simp [hedit, hshort, hkeeps]
      | false => cases ownBody? options.full node following <;> simp [hedit, hkeeps]

end Node

/-! Open blocks. The blocks that no line ends are missing from the stack, and nothing else is. -/

section Blocks

variable {options : Options} {next : Option Node} {stack : List Node}

theorem pushBlock_filter {takesOver takesOver' : Bool} {node : Node}
    (htaken : options.closeStatements = true → takesOver' = takesOver) :
    pushBlock options takesOver' node next (stack.filter options.ends) =
      (pushBlock options.full takesOver node next stack).filter options.ends := by
  have hopens : opensBlock options takesOver' node next =
      (options.ends node && opensBlock options.full takesOver node next) := by
    obtain ⟨construct, depth, line, raw⟩ := node
    cases construct with
    | tag | text | comment | doctype => simp [opensBlock, Options.ends, isCode]
    | statement | expression =>
        cases hclose : options.closeStatements with
        | true => simp [opensBlock, Options.ends, Options.full, hclose, htaken hclose]
        | false => simp [opensBlock, Options.ends, isCode, hclose]
  rw [pushBlock, pushBlock, hopens]
  cases hends : options.ends node <;> cases opensBlock options.full takesOver node next <;>
    simp [hends]

theorem closeBlocks_filter (follows : Node → Option Node) (depth : Int) (hnested : Nested stack) :
    closeBlocks depth next (stack.filter options.ends) =
      ((closeBlocks depth next stack).1.filterMap (options.edit follows),
        (closeBlocks depth next stack).2.1.filter options.ends,
        options.closeStatements && (closeBlocks depth next stack).2.2) := by
  induction stack with
  | nil => simp [closeBlocks]
  | cons block outer ih =>
      obtain ⟨hblock, houter⟩ := List.pairwise_cons.mp hnested
      by_cases hlt : block.depth < depth
      · have hall : Encloses (block :: outer) depth := List.forall_mem_cons.mpr
          ⟨hlt, fun other hother => Int.lt_trans (hblock other hother) hlt⟩
        rw [closeBlocks_of_encloses hall, closeBlocks_of_encloses fun other hother =>
          hall other (List.mem_of_mem_filter hother)]
        simp
      · by_cases htaken : (isCode block && block.depth == depth && next.any isContinuation) = true
        · -- The block that is taken over has no closing line, and those around it stay open.
          have hcode : isCode block = true ∧ block.depth = depth := by
            simp only [Bool.and_eq_true, beq_iff_eq] at htaken
            exact htaken.1
          have hstay : Encloses outer depth := fun other hother => hcode.2 ▸ hblock other hother
          cases hclose : options.closeStatements with
          | true =>
              rw [List.filter_cons_of_pos (by simp [Options.ends, hclose])]
              simp [closeBlocks, hlt, htaken]
          | false =>
              rw [List.filter_cons_of_neg (by simp [Options.ends, hclose, hcode.1]),
                closeBlocks_of_encloses fun other hother =>
                  hstay other (List.mem_of_mem_filter hother)]
              simp [closeBlocks, hlt, htaken]
        · simp only [closeBlocks, hlt, htaken, ite_false]
          have hclosed := ih houter
          have hedit : options.edit follows (closerLine block) =
            if options.ends block then some (closerLine block) else none := rfl
          cases hends : options.ends block with
          | true =>
              rw [List.filter_cons_of_pos hends, closeBlocks, hclosed]
              simp [hlt, htaken, hedit, hends]
          | false =>
              rw [List.filter_cons_of_neg (by simp [hends]), hclosed]
              simp [hedit, hends]

theorem closeBefore_filter (follows : Node → Option Node) (hnested : Nested stack) :
    closeBefore next (stack.filter options.ends) =
      ((closeBefore next stack).1.filterMap (options.edit follows),
        (closeBefore next stack).2.1.filter options.ends,
        options.closeStatements && (closeBefore next stack).2.2) := by
  cases next with
  | none => simp [closeBefore]
  | some node => exact closeBlocks_filter follows node.depth hnested

end Blocks

/-! Whole runs. -/

/-- A function that finds the node after each node of a list, as far as its depth goes. -/
def LooksAhead (follows : Node → Option Node) : List Node → Prop
  | [] => True
  | node :: rest =>
      isNested node (follows node) = isNested node rest.head? ∧ LooksAhead follows rest

/-- A run under any options writes the lines of the full run, edited. -/
theorem written_eq_edit {options : Options} {follows : Node → Option Node} {stack nodes : List Node}
    {takesOver takesOver' : Bool} (hnested : Nested stack)
    (hstack : ∀ node ∈ nodes.head?, Encloses stack node.depth)
    (htaken : options.closeStatements = true → takesOver' = takesOver)
    (hfollows : LooksAhead follows nodes) :
    written options (stack.filter options.ends) takesOver' nodes =
      (written options.full stack takesOver nodes).filterMap (options.edit follows) := by
  induction nodes generalizing stack takesOver takesOver' with
  | nil => exact congrArg Prod.fst (closeBlocks_filter follows 0 hnested)
  | cons node rest ih =>
      have hpushed : Nested (pushBlock options.full takesOver node rest.head? stack) :=
        pushBlock_nested hnested (hstack node rfl)
      rw [written, written, pushBlock_filter htaken, closeBefore_filter follows hpushed,
        ownLine?_eq_edit hfollows.1]
      simp only [List.filterMap_append]
      congr 2
      · cases ownLine? options.full node rest.head? with
        | none => rfl
        | some line => cases hline : options.edit follows line <;> simp [hline]
      · refine ih (closeBefore_nested hpushed) (closeBefore_encloses hpushed) ?_ hfollows.2
        intro hclose
        rw [hclose, Bool.true_and]

/-! Places. -/

/-- A node with its place among the nodes in place of its number. -/
def mark (numbered : Node × Nat) : Node :=
  { numbered.1 with line := numbered.2 }

def marked (nodes : List Node) : List Node :=
  nodes.zipIdx.map mark

def nextOf (nodes : List Node) (node : Node) : Option Node :=
  nodes[node.line + 1]?

theorem looksAhead_marked (nodes : List Node) : LooksAhead (nextOf nodes) (marked nodes) := by
  suffices ∀ before rest : List Node,
      LooksAhead (nextOf (before ++ rest)) ((rest.zipIdx before.length).map mark) from this [] nodes
  intro before rest
  induction rest generalizing before with
  | nil => trivial
  | cons node rest ih =>
      refine ⟨?_, ?_⟩
      · have hnext : nextOf (before ++ node :: rest) (mark (node, before.length)) = rest.head? := by
          simp [nextOf, mark, List.getElem?_append_right, List.head?_eq_getElem?]
        rw [hnext]
        cases rest <;> rfl
      · have hrest := ih (before ++ [node])
        rwa [List.append_assoc, List.length_append] at hrest

def unmark (nodes : List Node) (node : Node) : Node :=
  { node with line := (nodes[node.line]?.map (·.line)).getD node.line }

theorem map_unmark (nodes : List Node) : (marked nodes).map (unmark nodes) = nodes := by
  refine List.ext_getElem? fun place => ?_
  rw [marked, List.map_map, List.getElem?_map, List.getElem?_zipIdx]
  cases hnode : nodes[place]? with
  | none => rfl
  | some node => simp [unmark, mark, hnode]

theorem relabels_unmark (nodes : List Node) : Relabels (unmark nodes) where
  alike node := .same node.construct
  less _ _ := Iff.rfl
  negative _ := Iff.rfl

theorem any_overflows_marked (options : Options) (nodes : List Node) :
    (marked nodes).any (overflows options) = nodes.any (overflows options) := by
  conv_rhs => rw [← map_unmark nodes, List.any_map]
  rfl

/-- Marks do not show in the text. -/
theorem documentText_marked (options : Options) (nodes : List Node) :
    documentText options (marked nodes) = documentText options nodes := by
  have hrender := (relabels_unmark nodes).render (fun _ => rfl) options (marked nodes)
    options.indentSize
  rw [map_unmark] at hrender
  rw [documentText_eq_map, documentText_eq_map, documentLines_eq_ite, documentLines_eq_ite,
    any_overflows_marked]
  split
  · rfl
  · exact congrArg (fun texts => Except.ok ("\n".intercalate texts)) hrender.symm

theorem map_origin_ownLines (options : Options) (nodes : List Node) :
    (ownLines options.full nodes).map (·.origin) = nodes := by
  induction nodes with
  | nil => rfl
  | cons node rest ih =>
      have hown : ∃ body, ownLine? options.full node rest.head? =
          some ⟨ownDepth node, body, node, false⟩ := by
        obtain ⟨construct, depth, line, raw⟩ := node
        cases construct with
        | comment content =>
            simp only [ownLine?, ownBody?, commentBody?, Options.full, ite_true]
            split <;> exact ⟨_, rfl⟩
        | tag | text | statement | expression | doctype => exact ⟨_, rfl⟩
      obtain ⟨body, hown⟩ := hown
      simp [ownLines, hown, ih]

theorem mem_ownLines {options : Options} {follows : Node → Option Node} {nodes : List Node}
    {line : Line} (hfollows : LooksAhead follows nodes) (h : line ∈ ownLines options nodes) :
    ∃ node following, isNested node (follows node) = isNested node following ∧
      ownLine? options node following = some line := by
  induction nodes with
  | nil => cases h
  | cons node rest ih =>
      cases List.mem_append.mp h with
      | inl hown => exact ⟨node, rest.head?, hfollows.1, Option.mem_toList.mp hown⟩
      | inr hrest => exact ih hfollows.2 hrest

/-- The lines of the full document of marked nodes: each node has one line of its own, in order, all
other lines close blocks of nodes, and where a closing tag is to go there is one. -/
structure Labelled (options : Options) (nodes : List Node) (lines : List Line) : Prop where
  own : (lines.filter (!·.closes)).map (·.origin) = marked nodes
  closing : ∀ line ∈ lines, line.closes = true →
    ∃ node ∈ marked nodes, line = closerLine node
  closed : ∀ line ∈ lines, line.closes = false →
    options.shortens line.origin (nextOf nodes line.origin) = true →
      line.body = line.shorten.body ++ closer line.origin

theorem labelled_written (options : Options) (nodes : List Node) :
    Labelled options nodes (written options.full [] false (marked nodes)) where
  own := by rw [filter_written, map_origin_ownLines]
  closing line hline hcloses := by
    rcases mem_written hline with ⟨node, -, next, hown⟩ | hblock
    · obtain ⟨body, -, rfl⟩ := Option.map_eq_some_iff.mp hown
      cases hcloses
    · exact hblock
  closed line hline hcloses hshort := by
    have hmem : line ∈ ownLines options.full (marked nodes) := by
      rw [← filter_written options.full [] false]
      exact List.mem_filter.mpr ⟨hline, by simp [hcloses]⟩
    obtain ⟨node, following, hsame, hown⟩ := mem_ownLines (looksAhead_marked nodes) hmem
    obtain ⟨full, hfull, rfl⟩ := Option.map_eq_some_iff.mp hown
    rw [shortens_congr hsame] at hshort
    obtain ⟨body, hbody, -⟩ := ownBody?_of_shortens hshort
    rw [hfull] at hbody
    cases hbody
    rw [shorten_append]

/-- The document under any options is the full document with its lines edited one by one. -/
theorem document_eq_edit (options : Options) (nodes : List Node) :
    documentLines options (marked nodes) =
        (documentLines options.full (marked nodes)).map
          (·.filterMap (options.edit (nextOf nodes))) ∧
      documentText options nodes = (documentLines options (marked nodes)).map
        (fun lines => "\n".intercalate (lines.map (·.render options.indentSize))) ∧
      ((∀ node ∈ nodes, overflows options node = false) →
        ∃ lines, documentLines options.full (marked nodes) = .ok lines ∧
          Labelled options nodes lines) := by
  have hrun : written options [] false (marked nodes) =
      (written options.full [] false (marked nodes)).filterMap (options.edit (nextOf nodes)) :=
    written_eq_edit List.Pairwise.nil (fun _ _ => List.forall_mem_nil _) (fun _ => rfl)
      (looksAhead_marked nodes)
  have hsame : (marked nodes).any (overflows options.full) = nodes.any (overflows options) :=
    any_overflows_marked options nodes
  refine ⟨?_, ?_, fun hfits => ?_⟩
  · rw [documentLines_eq_ite, documentLines_eq_ite, any_overflows_marked, hsame, hrun]
    split <;> rfl
  · rw [← documentText_eq_map, documentText_marked]
  · refine ⟨_, ?_, labelled_written options nodes⟩
    rw [documentLines_eq_ite, hsame, if_neg (by simpa using hfits)]

/-- Void elements that are empty and that are not, comments of both kinds, a code block that is
taken over, and a tag that is left open at a negative depth. -/
def variedNodes : List Node :=
  [{ construct := .tag "main" [] [], depth := -1 }, { construct := .comment "hidden" },
   { construct := .statement "if ready" }, { construct := .tag "BR" [("id", "a")] [], depth := 2 },
   { construct := .statement "else" }, { construct := .tag "br" [] [], depth := 2 },
   { construct := .comment "! shown", depth := 3 },
   { construct := .expression "form do |f|", depth := 1 },
   { construct := .tag "img" [] [⟨.text, "t", 0, 0, ""⟩], depth := 2 }]

def sparseOptions : Options :=
  { emitComments := false, closeStatements := false, voidElements := true
    indentSize_pos := Nat.one_pos }

theorem document_eq_edit_variedNodes :
    (∀ node ∈ variedNodes, overflows sparseOptions node = false) ∧
      (documentText sparseOptions.full variedNodes).toOption = some ("<main>\n<%# hidden %>\n" ++
        "<% if ready %>\n  <BR id=\"a\"></BR>\n<% else %>\n  <br>\n   <!-- shown -->\n  </br>\n" ++
        " <%= form do |f| %>\n  <img>t</img>\n <% end %>\n<% end %>") ∧
      (documentText sparseOptions variedNodes).toOption = some ("<main>\n" ++
        "<% if ready %>\n  <BR id=\"a\">\n<% else %>\n  <br>\n   <!-- shown -->\n  </br>\n" ++
        " <%= form do |f| %>\n  <img>t</img>") ∧
      documentLines sparseOptions (marked variedNodes) =
        (documentLines sparseOptions.full (marked variedNodes)).map
          (·.filterMap (sparseOptions.edit (nextOf variedNodes))) ∧
      ∃ lines, documentLines sparseOptions.full (marked variedNodes) = .ok lines ∧
        Labelled sparseOptions variedNodes lines := by
  have hfits : ∀ node ∈ variedNodes, overflows sparseOptions node = false := by decide
  obtain ⟨hedit, -, hlines⟩ := document_eq_edit sparseOptions variedNodes
  exact ⟨hfits, by decide +kernel, by decide +kernel, hedit, hlines hfits⟩

end SlimTemplate.Erb
