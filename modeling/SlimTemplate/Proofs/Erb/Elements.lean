import SlimTemplate.Proofs.Erb.Lines
import SlimTemplate.Proofs.Text.Lowercase

/-!
Balance of elements. While a document is written, the elements that the check takes for open are
the tags on the writer's stack; so the check ends with none open and finds no fault on the way.
Main statement: the output of every source with clean contents has balanced elements.
-/

namespace SlimTemplate.Erb

open Slim (Node IsTagName WellNamed Document)

/-- The element that a block opens, unless it is code or a void element. -/
def openName? (block : Node) : Option String :=
  match block.construct with
  | .tag name _ _ =>
      let name := elementName (tagName name)
      if voidElements.contains name then none else some name
  | _ => none

def openNames (stack : List Node) : List String :=
  stack.filterMap openName?

/-- Lower case of a tag name is that of its characters, all of which are ASCII. -/
theorem lower_eq_elementName {name : String} (h : IsTagName name.toList) :
    Text.lower name = elementName name := by
  have hascii : ∀ c ∈ name.toList, c.toNat < 128 := by
    intro c hc
    have hrange := Slim.isAlphanum_range (h.2 c hc)
    omega
  rw [Text.lower, elementName, Text.lowerFrom_of_ascii [] hascii]

/-- An opening tag that is not closed again leaves its element open; void elements are not
tracked. -/
theorem elementFaults_opening (stack : List String) (name : String) (more : List ElementMark) :
    elementFaults stack ((openingMark? name).toList ++ more) =
      elementFaults
        ((if voidElements.contains (elementName name) then [] else [elementName name]) ++ stack)
        more := by
  rw [openingMark?]
  split
  · rfl
  · rfl

theorem elementFaults_closing (stack : List String) (name : String) (more : List ElementMark) :
    elementFaults
        ((if voidElements.contains (elementName name) then [] else [elementName name]) ++ stack)
        ((closingMark? name).toList ++ more) =
      elementFaults stack more := by
  rw [closingMark?]
  split
  · rfl
  · simp [elementFaults]

/-- A node's own line opens exactly the element of the block that is pushed for it. -/
theorem elementFaults_ownMarks (options : Options) (takesOver : Bool) {node : Node}
    (next : Option Node) (stack : List Node) (more : List ElementMark)
    (hnamed : WellNamed node) :
    elementFaults (openNames stack) (ownMarks options node next ++ more) =
      elementFaults (openNames (pushBlock options takesOver node next stack)) more := by
  rw [WellNamed] at hnamed
  rw [ownMarks, pushBlock, opensBlock]
  cases hconstruct : node.construct with
  | tag name attributes inline =>
      rw [hconstruct] at hnamed
      have hname := isTagName_tagName hnamed.1
      dsimp only
      by_cases hopen : (inline.isEmpty && isNested node next) = true
      · have hboth := Bool.and_eq_true_iff.mp hopen
        simp only [hboth.1, hboth.2, Bool.true_or, Bool.and_self, ite_true]
        rw [elementFaults_opening]
        unfold openNames
        rw [List.filterMap_cons]
        simp only [openName?, hconstruct]
        split <;> rfl
      · rw [if_neg hopen]
        split
        · -- Left open without being pushed: only a void element is.
          rename_i hvoid
          have hvoid : voidElements.contains (elementName (tagName name)) = true := by
            rw [← lower_eq_elementName hname]
            simp only [Bool.and_eq_true, Bool.or_eq_true] at hvoid hopen
            rcases hvoid with ⟨hinline, hnested | hvoid⟩
            · exact absurd ⟨hinline, hnested⟩ hopen
            · exact hvoid.2
          rw [elementFaults_opening, if_pos hvoid]
          rfl
        · rw [List.append_assoc, elementFaults_opening, elementFaults_closing]
  | statement code | expression code =>
      dsimp only
      split
      · simp [openNames, openName?, hconstruct]
      · rfl
  | text _ | comment _ | doctype _ => rfl

/-- A closing line closes the element of its block, which is the innermost one. -/
theorem elementFaults_closerMarks (block : Node) (stack : List Node) (more : List ElementMark) :
    elementFaults (openNames (block :: stack)) (closerMarks block ++ more) =
      elementFaults (openNames stack) more := by
  rw [openNames, closerMarks]
  rw [List.filterMap_cons]
  rw [openName?]
  cases hconstruct : block.construct with
  | tag name attributes inline =>
      have hclose := elementFaults_closing (openNames stack) (tagName name) more
      dsimp only
      split at hclose
      · rename_i hvoid
        rw [if_pos hvoid]
        exact hclose
      · rename_i hvoid
        rw [if_neg hvoid]
        exact hclose
  | text _ | statement _ | expression _ | comment _ | doctype _ => rfl

/-- Closing blocks closes their elements, last opened first. -/
theorem elementFaults_closeBlocks (indentSize : Nat) (depth : Int) (next : Option Node)
    {stack : List Node} (more : List ElementMark) (hstack : ∀ block ∈ stack, Readable block) :
    elementFaults (openNames stack)
        (marksOf indentSize (closeBlocks depth next stack).1 ++ more) =
      elementFaults (openNames (closeBlocks depth next stack).2.1) more := by
  induction stack with
  | nil => rfl
  | cons block outer ih =>
      obtain ⟨hblock, houter⟩ := List.forall_mem_cons.mp hstack
      simp only [closeBlocks]
      split
      · rfl
      · split
        · -- Only code is taken over, and code opens no element.
          rename_i htaken
          simp only [Bool.and_eq_true] at htaken
          have hnone : openName? block = none := by
            have hcode := htaken.1.1
            rw [isCode] at hcode
            rw [openName?]
            split at hcode <;> simp_all
          simp [openNames, hnone, marksOf]
        · have hmarks : marksOf indentSize
              (closerLine block :: (closeBlocks depth next outer).1) =
              closerMarks block ++ marksOf indentSize (closeBlocks depth next outer).1 := by
            simp only [marksOf, List.flatMap_cons,
              (readsAs_closerLine indentSize hblock).marks_eq]
          rw [hmarks, List.append_assoc, elementFaults_closerMarks]
          exact ih houter

theorem elementFaults_closeBefore (indentSize : Nat) (next : Option Node) {stack : List Node}
    (more : List ElementMark) (hstack : ∀ block ∈ stack, Readable block) :
    elementFaults (openNames stack) (marksOf indentSize (closeBefore next stack).1 ++ more) =
      elementFaults (openNames (closeBefore next stack).2.1) more := by
  cases next with
  | none => rfl
  | some node => exact elementFaults_closeBlocks indentSize node.depth (some node) more hstack

/-- A run from a stack on closes the elements of the stack and all that it opens itself. -/
theorem elementFaults_written (options : Options) (stack : List Node) (takesOver : Bool)
    (nodes : List Node) (hreadable : ∀ node ∈ stack ++ nodes, Readable node)
    (hdepth : ∀ node ∈ stack ++ nodes, 0 ≤ node.depth) :
    elementFaults (openNames stack)
      (marksOf options.indentSize (written options stack takesOver nodes)) = [] := by
  induction nodes generalizing stack takesOver with
  | nil =>
      rw [List.append_nil] at hreadable hdepth
      have hclose := elementFaults_closeBlocks options.indentSize 0 none [] hreadable
      rw [closeBlocks_all hdepth, List.append_nil] at hclose
      exact hclose
  | cons node rest ih =>
      have hnode : Readable node := hreadable node (by simp)
      simp only [written, marksOf_append, (read_ownLine options _ hnode).1, List.append_assoc]
      rw [elementFaults_ownMarks options takesOver rest.head? stack _ hnode.1,
        elementFaults_closeBefore options.indentSize rest.head? _
          fun block hblock => hreadable block (mem_append_of_mem_pushBlock hblock)]
      exact ih _ _ (fun block hblock => hreadable block (mem_append_of_mem_closeBefore hblock))
        (fun block hblock => hdepth block (mem_append_of_mem_closeBefore hblock))

/-- Every source whose contents are clean and whose lines can be indented is converted, and the
check of its output finds all elements balanced. -/
theorem elements_balanced (options : Options) (source : String)
    (hfits : ∀ node ∈ (Document.parse source).nodes, Fits options node)
    (hclean : ∀ node ∈ (Document.parse source).nodes, Clean node) :
    ∃ conversion, convert options source = .ok conversion ∧
      elementFaults [] (elementMarks conversion.output.toList) = [] := by
  obtain ⟨conversion, hconvert, hread⟩ := convert_readsAs options source hfits hclean
  refine ⟨conversion, hconvert, ?_⟩
  rw [hread.marks_eq]
  exact elementFaults_written options [] false _ (by simpa using parse_readable hclean)
    (by simpa using fun node hnode => (Slim.parse_wellNamed source node hnode).2)

/-- Ragged columns, a void element with a body, brackets in values and in code. -/
def bracketedSource : String :=
  "doctype html\ndiv.a#b title=\"x > 'y'\"\n   p= f(\"</p>\") < 2\n  br\n      | 5 > 3\n" ++
    "/! note\nIMG data-x=\"a\"b"

theorem elements_balanced_bracketedSource :
    (∀ node ∈ (Document.parse bracketedSource).nodes, Fits { voidElements := true } node) ∧
      (∀ node ∈ (Document.parse bracketedSource).nodes, Clean node) ∧
      ∃ conversion, convert { voidElements := true } bracketedSource = .ok conversion ∧
        elementFaults [] (elementMarks conversion.output.toList) = [] :=
  have hfits : ∀ node ∈ (Document.parse bracketedSource).nodes,
      Fits { voidElements := true } node := by decide +kernel
  have hclean : ∀ node ∈ (Document.parse bracketedSource).nodes, Clean node := by decide +kernel
  ⟨hfits, hclean, elements_balanced _ _ hfits hclean⟩

end SlimTemplate.Erb
