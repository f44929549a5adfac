import SlimTemplate.Conversion.Basic
import SlimTemplate.Proofs.Erb.Markup
import SlimTemplate.Proofs.Erb.Run
import SlimTemplate.Proofs.Text.Words

/-!
What the lines of a document are read as. If the contents of the nodes hold nothing that could be
taken for a tag, every line is contained, so the marks and roles of the whole text are those of its
lines in order.
-/

namespace SlimTemplate.Erb

open Slim (Node Inline IsTagName HasKeys WellNamed Document)

/-- Text and code on the line of a tag hold nothing that could be taken for a tag. -/
def CleanInline (inline : Inline) : Prop :=
  match inline.kind with
  | .text => '<' ∉ inline.content.toList
  | .expression => NoClose inline.content.toList
  | _ => True

/-- What reaches the page has no opening bracket, and what reaches an embedded tag has no closing
delimiter. -/
def Clean (node : Node) : Prop :=
  match node.construct with
  | .tag _ attributes inline =>
      (∀ pair ∈ attributes, '<' ∉ pair.2.toList) ∧ ∀ part ∈ inline, CleanInline part
  | .text content | .doctype content => '<' ∉ content.toList
  | .statement code | .expression code => NoClose code.toList
  | .comment content =>
      if content.toList.head? = some '!' then '<' ∉ content.toList else NoClose content.toList

instance (part : Inline) : Decidable (CleanInline part) :=
  match part with
  | ⟨.text, content, _, _, _⟩ => inferInstanceAs (Decidable ('<' ∉ content.toList))
  | ⟨.expression, content, _, _, _⟩ => inferInstanceAs (Decidable (NoClose content.toList))
  | ⟨.tag, _, _, _, _⟩ | ⟨.statement, _, _, _, _⟩ | ⟨.comment, _, _, _, _⟩
  | ⟨.doctype, _, _, _, _⟩ => .isTrue trivial

instance (node : Node) : Decidable (Clean node) :=
  match node with
  | ⟨.tag _ attributes inline, _, _, _⟩ =>
      inferInstanceAs (Decidable ((∀ pair ∈ attributes, '<' ∉ pair.2.toList) ∧
        ∀ part ∈ inline, CleanInline part))
  | ⟨.text content, _, _, _⟩ | ⟨.doctype content, _, _, _⟩ =>
      inferInstanceAs (Decidable ('<' ∉ content.toList))
  | ⟨.statement code, _, _, _⟩ | ⟨.expression code, _, _, _⟩ =>
      inferInstanceAs (Decidable (NoClose code.toList))
  | ⟨.comment content, _, _, _⟩ =>
      inferInstanceAs (Decidable (if content.toList.head? = some '!' then '<' ∉ content.toList
        else NoClose content.toList))

def inlineRoles : List Inline → List (Role × String)
  | [⟨.expression, code, _, _, _⟩] => (embeddedRole? (.output, spaced code.toList)).toList
  | _ => []

def ownRoles (node : Node) : List (Role × String) :=
  match node.construct with
  | .tag _ _ inline => inlineRoles inline
  | .statement code => (embeddedRole? (.run, spaced code.toList)).toList
  | .expression code => (embeddedRole? (.output, spaced code.toList)).toList
  | _ => []

def ownMarks (options : Options) (node : Node) (next : Option Node) : List ElementMark :=
  match node.construct with
  | .tag name _ inline =>
      let name := tagName name
      if inline.isEmpty && (isNested node next || options.voidElements && isVoid name) then
        (openingMark? name).toList
      else (openingMark? name).toList ++ (closingMark? name).toList
  | _ => []

def closerMarks (node : Node) : List ElementMark :=
  match node.construct with
  | .tag name _ _ => (closingMark? (tagName name)).toList
  | _ => []

def closerRoles (node : Node) : List (Role × String) :=
  match node.construct with
  | .tag .. => []
  | _ => [(.closes, "end")]

theorem isTagName_tagName {name : String} (h : IsTagName name.toList) :
    IsTagName (tagName name).toList := by
  rw [tagName]
  split
  · exact Slim.isTagName_defaultTag
  · exact h

theorem embeddedText_toList (marker : Marker) (code : String) :
    embeddedText marker code.toList =
      match marker with
      | .run => ("<% " ++ code ++ " %>").toList
      | .output => ("<%= " ++ code ++ " %>").toList
      | .comment => ("<%# " ++ code ++ " %>").toList := by
  cases marker <;> simp [embeddedText, spaced, String.toList_append]

theorem readsAs_inlineText {inline : List Inline} (h : ∀ part ∈ inline, CleanInline part) :
    ReadsAs (inlineText inline).toList [] (inlineRoles inline) := by
  unfold inlineText inlineRoles
  split
  · exact readsAs_plain (h _ List.mem_cons_self)
  · rename_i code _ _ _
    have hread := readsAs_embedded .output (h _ List.mem_cons_self)
    rwa [embeddedText_toList] at hread
  · rename_i htext hcode
    split
    · exact absurd rfl (hcode _ _ _ _)
    · exact ReadsAs.nil

theorem readsAs_tagBody (options : Options) {name : String} {attributes : Slim.Attributes}
    {inline : List Inline} (nested : Bool) (hname : IsTagName name.toList)
    (hkeys : HasKeys attributes) (hvalues : ∀ pair ∈ attributes, '<' ∉ pair.2.toList)
    (hinline : ∀ part ∈ inline, CleanInline part) :
    ReadsAs (tagBody options name attributes inline nested).toList
      (if inline.isEmpty && (nested || options.voidElements && isVoid name) then
        (openingMark? name).toList
      else (openingMark? name).toList ++ (closingMark? name).toList)
      (inlineRoles inline) := by
  have hopening := readsAs_openingTag hname hkeys hvalues
  unfold tagBody
  dsimp only
  split
  · rename_i hopen
    simp only [Bool.and_eq_true, List.isEmpty_iff] at hopen
    rw [hopen.1]
    exact hopening
  · have hread := (hopening.append (readsAs_inlineText hinline)).append (readsAs_closingTag hname)
    simpa only [String.toList_append, List.append_nil, List.nil_append] using hread

theorem readsAs_commentBody {options : Options} {content body : String}
    (hclean : if content.toList.head? = some '!' then '<' ∉ content.toList
      else NoClose content.toList)
    (h : commentBody? options content = some body) : ReadsAs body.toList [] [] := by
  rw [commentBody?] at h
  split at h
  · rename_i text htext
    cases h
    have hmem : '<' ∉ text := by
      rw [htext] at hclean
      simpa using hclean
    have htrim : '<' ∉ Text.trim text := fun hlt => hmem (Text.trim_subset text hlt)
    have hbody : ("<!-- " ++ String.ofList (Text.trim text) ++ " -->").toList =
        '<' :: '!' :: ("-- ".toList ++ (Text.trim text ++ " -->".toList)) := by
      simp [String.toList_append]
    rw [hbody]
    exact readsAs_declaration (by simp [htrim])
  · rename_i hstart
    split at h
    · cases h
      have hclose : NoClose content.toList := by
        split at hclean
        · rename_i hhead
          cases hcs : content.toList with
          | nil => simp [hcs] at hhead
          | cons c cs =>
              rw [hcs] at hhead
              cases hhead
              exact absurd hcs (hstart cs)
        · exact hclean
      have hread := readsAs_embedded .comment hclose
      rwa [embeddedText_toList] at hread
    · cases h

theorem readsAs_doctypeBody {content : String} (h : '<' ∉ content.toList) :
    ReadsAs (doctypeBody content).toList [] [] := by
  rw [doctypeBody]
  split
  · have hfixed : '<' ∉ "DOCTYPE html>".toList := by decide
    exact readsAs_declaration hfixed
  · have hbody : ("<!DOCTYPE " ++ content ++ ">").toList =
        '<' :: '!' :: ("DOCTYPE ".toList ++ (content.toList ++ ['>'])) := by
      simp [String.toList_append]
    rw [hbody]
    exact readsAs_declaration (by simp [h])

theorem readsAs_ownBody {options : Options} {node : Node} {next : Option Node} {body : String}
    (hnamed : WellNamed node) (hclean : Clean node) (h : ownBody? options node next = some body) :
    ReadsAs body.toList (ownMarks options node next) (ownRoles node) := by
  rw [ownBody?] at h
  rw [WellNamed] at hnamed
  rw [Clean] at hclean
  rw [ownMarks, ownRoles]
  split at h <;> rename_i hconstruct <;> simp only [hconstruct] at hnamed hclean ⊢
  · cases h
    exact readsAs_tagBody options _ (isTagName_tagName hnamed.1) hnamed.2 hclean.1 hclean.2
  · cases h
    exact readsAs_plain hclean
  · cases h
    have hread := readsAs_embedded .run hclean
    rwa [embeddedText_toList] at hread
  · cases h
    have hread := readsAs_embedded .output hclean
    rwa [embeddedText_toList] at hread
  · exact readsAs_commentBody hclean h
  · cases h
    exact readsAs_doctypeBody hclean

theorem readsAs_end : ReadsAs "<% end %>".toList [] [(.closes, "end")] := by
  have hclose : NoClose "end".toList := by
    rw [NoClose]
    decide
  have hread := readsAs_embedded .run hclose
  rwa [embeddedText_toList] at hread

theorem readsAs_closer {node : Node} (hnamed : WellNamed node) :
    ReadsAs (closer node).toList (closerMarks node) (closerRoles node) := by
  rw [WellNamed] at hnamed
  rw [closer, closerMarks, closerRoles]
  cases hconstruct : node.construct with
  | tag name attributes inline =>
      rw [hconstruct] at hnamed
      exact readsAs_closingTag (isTagName_tagName hnamed.1)
  | text _ | statement _ | expression _ | comment _ | doctype _ => exact readsAs_end

theorem readsAs_render {line : Line} {marks : List ElementMark} {roles : List (Role × String)}
    (indentSize : Nat) (h : ReadsAs line.body.toList marks roles) :
    ReadsAs (line.render indentSize).toList marks roles := by
  have hspaces : '<' ∉ List.replicate (line.depth * indentSize).toNat ' ' := by
    intro hmem
    cases (List.mem_replicate.mp hmem).2
  rw [Line.render, String.toList_append, String.toList_ofList]
  exact (readsAs_plain hspaces).append h

def marksOf (indentSize : Nat) (lines : List Line) : List ElementMark :=
  lines.flatMap fun line => elementMarks (line.render indentSize).toList

def rolesOf (indentSize : Nat) (lines : List Line) : List (Role × String) :=
  lines.flatMap fun line => blockRoles (line.render indentSize).toList

theorem marksOf_append (indentSize : Nat) (lines lines' : List Line) :
    marksOf indentSize (lines ++ lines') = marksOf indentSize lines ++ marksOf indentSize lines' :=
  List.flatMap_append

theorem rolesOf_append (indentSize : Nat) (lines lines' : List Line) :
    rolesOf indentSize (lines ++ lines') = rolesOf indentSize lines ++ rolesOf indentSize lines' :=
  List.flatMap_append

/-- Contained lines are read one by one: the line feeds between them mean nothing. -/
theorem readsAs_lines (indentSize : Nat) {lines : List Line}
    (h : ∀ line ∈ lines, Contained (line.render indentSize).toList) :
    ReadsAs ("\n".intercalate (lines.map (·.render indentSize))).toList
      (marksOf indentSize lines) (rolesOf indentSize lines) := by
  rw [String.toList_intercalate]
  induction lines with
  | nil => exact ReadsAs.nil
  | cons line rest ih =>
      obtain ⟨hline, hrest⟩ := List.forall_mem_cons.mp h
      have hfirst : ReadsAs (line.render indentSize).toList _ _ := ⟨hline, rfl, rfl⟩
      cases rest with
      | nil => simpa [marksOf, rolesOf] using hfirst
      | cons next rest =>
          have hbreak : ReadsAs "\n".toList [] [] := readsAs_plain (by decide)
          have hread := hfirst.append (hbreak.append (ih hrest))
          simpa [marksOf, rolesOf, List.intercalate_cons_cons] using hread

/-- A node that can be read back: its names are proper and its contents are clean. -/
def Readable (node : Node) : Prop :=
  WellNamed node ∧ Clean node

theorem readsAs_ownLine {options : Options} {node : Node} {next : Option Node} {line : Line}
    (indentSize : Nat) (hnode : Readable node) (h : ownLine? options node next = some line) :
    ReadsAs (line.render indentSize).toList (ownMarks options node next) (ownRoles node) := by
  obtain ⟨body, hbody, rfl⟩ := Option.map_eq_some_iff.mp h
  exact readsAs_render indentSize (readsAs_ownBody hnode.1 hnode.2 hbody)

/-- What is read from a node's own line, if it has one. -/
theorem read_ownLine (options : Options) {node : Node} (next : Option Node)
    (hnode : Readable node) :
    marksOf options.indentSize (ownLine? options node next).toList = ownMarks options node next ∧
      rolesOf options.indentSize (ownLine? options node next).toList = ownRoles node := by
  cases hline : ownLine? options node next with
  | none =>
      -- Only a comment may have no line, and nothing is read from it either.
      simp only [ownLine?, Option.map_eq_none_iff, ownBody?] at hline
      simp only [ownMarks, ownRoles]
      cases hconstruct : node.construct <;> simp_all [marksOf, rolesOf]
  | some line =>
      have hread := readsAs_ownLine options.indentSize hnode hline
      simp [marksOf, rolesOf, hread.marks_eq, hread.roles_eq]

theorem readsAs_closerLine {node : Node} (indentSize : Nat) (hnode : Readable node) :
    ReadsAs ((closerLine node).render indentSize).toList (closerMarks node) (closerRoles node) :=
  readsAs_render indentSize (readsAs_closer hnode.1)

/-- A document of readable nodes is read line by line. -/
theorem readsAs_written (options : Options) {nodes : List Node}
    (hnodes : ∀ node ∈ nodes, Readable node) :
    ReadsAs (writtenText options nodes).toList
      (marksOf options.indentSize (written options [] false nodes))
      (rolesOf options.indentSize (written options [] false nodes)) := by
  refine readsAs_lines options.indentSize fun line hline => ?_
  rcases mem_written hline with ⟨node, hnode, next, hown⟩ | ⟨block, hblock, rfl⟩
  · exact (readsAs_ownLine _ (hnodes node hnode) hown).contained
  · exact (readsAs_closerLine _ (hnodes block (by simpa using hblock))).contained

theorem parse_readable {source : String}
    (hclean : ∀ node ∈ (Document.parse source).nodes, Clean node) :
    ∀ node ∈ (Document.parse source).nodes, Readable node :=
  fun node hnode => ⟨(Slim.parse_wellNamed source node hnode).1, hclean node hnode⟩

/-- A source with clean contents that can be indented is converted, and its output is read line by
line. -/
theorem convert_readsAs (options : Options) (source : String)
    (hfits : ∀ node ∈ (Document.parse source).nodes, Fits options node)
    (hclean : ∀ node ∈ (Document.parse source).nodes, Clean node) :
    ∃ conversion, convert options source = .ok conversion ∧
      ReadsAs conversion.output.toList
        (marksOf options.indentSize (written options [] false (Document.parse source).nodes))
        (rolesOf options.indentSize (written options [] false (Document.parse source).nodes)) := by
  exact ⟨_, convert_eq_writtenText hfits, readsAs_written options (parse_readable hclean)⟩

end SlimTemplate.Erb
