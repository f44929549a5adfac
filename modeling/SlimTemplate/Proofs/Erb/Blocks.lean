import SlimTemplate.Proofs.Erb.Code
import SlimTemplate.Proofs.Erb.Layout
import SlimTemplate.Proofs.Erb.Lines

/-!
Balance of blocks of code. While a document is written, the number of blocks that the check takes
for open is the number of blocks on the writer's stack that `end` closes, and one more where a block
is taken over or has its body only after a continuation. Main statement: the output of every source
with clean contents whose code is laid out properly has balanced blocks.
-/

namespace SlimTemplate.Erb

open Slim (Node Document)

def isEnded (block : Node) : Bool :=
  match block.construct with
  | .tag .. => false
  | _ => true

def openEnds (stack : List Node) : Nat :=
  stack.countP isEnded

theorem openEnds_cons (block : Node) (stack : List Node) :
    openEnds (block :: stack) = openEnds stack + (isEnded block).toNat := by
  cases hended : isEnded block <;> simp [openEnds, hended]

theorem isEnded_of_isCode {block : Node} (h : isCode block = true) : isEnded block = true := by
  simp only [isCode] at h
  simp only [isEnded]
  split at h <;> simp_all

theorem blockFaults_opens (count : Nat) (code : String) (more : List (Role × String)) :
    blockFaults count ((.opens, code) :: more) = blockFaults (count + 1) more := by
  cases count <;> rfl

theorem blockFaults_plain (count : Nat) (code : String) (more : List (Role × String)) :
    blockFaults count ((.plain, code) :: more) = blockFaults count more := by
  cases count <;> rfl

theorem blockFaults_middle {count : Nat} (code : String) (more : List (Role × String))
    (h : 0 < count) : blockFaults count ((.middle, code) :: more) = blockFaults count more := by
  cases count with
  | zero => cases h
  | succ count => rfl

/-- A closing line ends the block it closes. -/
theorem blockFaults_closerRoles (block : Node) (count : Nat) (more : List (Role × String)) :
    blockFaults (count + (isEnded block).toNat) (closerRoles block ++ more) =
      blockFaults count more := by
  simp only [isEnded, closerRoles]
  cases block.construct <;> rfl

/-- Closing blocks ends those of code; one that is taken over stays counted. -/
theorem blockFaults_closeBlocks (indentSize : Nat) (depth : Int) (next : Option Node)
    {stack : List Node} (pending : Nat) (more : List (Role × String))
    (hstack : ∀ block ∈ stack, Readable block) :
    blockFaults (openEnds stack + pending)
        (rolesOf indentSize (closeBlocks depth next stack).1 ++ more) =
      blockFaults (openEnds (closeBlocks depth next stack).2.1 +
        (closeBlocks depth next stack).2.2.toNat + pending) more := by
  induction stack with
  | nil => rfl
  | cons block outer ih =>
      obtain ⟨hblock, houter⟩ := List.forall_mem_cons.mp hstack
      simp only [closeBlocks]
      split
      · rfl
      · split
        · rename_i htaken
          simp only [Bool.and_eq_true] at htaken
          rw [openEnds_cons, isEnded_of_isCode htaken.1.1]
          rfl
        · have hroles : rolesOf indentSize
              (closerLine block :: (closeBlocks depth next outer).1) =
              closerRoles block ++ rolesOf indentSize (closeBlocks depth next outer).1 := by
            simp only [rolesOf, List.flatMap_cons,
              (readsAs_closerLine indentSize hblock).roles_eq]
          rw [hroles, List.append_assoc, openEnds_cons, Nat.add_right_comm,
            blockFaults_closerRoles]
          exact ih houter

theorem blockFaults_closeBefore (indentSize : Nat) (next : Option Node) {stack : List Node}
    (pending : Nat) (more : List (Role × String)) (hstack : ∀ block ∈ stack, Readable block) :
    blockFaults (openEnds stack + pending)
        (rolesOf indentSize (closeBefore next stack).1 ++ more) =
      blockFaults (openEnds (closeBefore next stack).2.1 +
        (closeBefore next stack).2.2.toNat + pending) more := by
  cases next with
  | none => rfl
  | some node =>
      exact blockFaults_closeBlocks indentSize node.depth (some node) pending more hstack

/-- The writer and the check agree on what continues a block. -/
theorem statementRole_eq_middle_iff {code : String} :
    statementRole code = .middle ↔ isContinuationCode code = true := by
  simp only [statementRole, isContinuationCode]
  cases Text.firstWord? code with
  | none => simp
  | some word =>
      by_cases hend : word = "end"
      · subst hend
        simp [continuationWords]
      · simp only [hend, ite_false, Option.any_some]
        split
        · simp_all
        · split <;> simp_all

theorem isPending_cons (node : Node) (earlier after : List Node) :
    isPending (node :: earlier) after = (isOpener node && isContinued node after) := rfl

theorem isContinuation_of_isPending {earlier rest : List Node} {node : Node}
    (h : isPending earlier (node :: rest) = true) : isContinuation node = true := by
  cases earlier with
  | nil => cases h
  | cons previous earlier =>
      simp only [isPending_cons, isContinued, Bool.and_eq_true] at h
      exact h.2.1.1

theorem isNested_of_isPending {earlier rest : List Node} {node : Node}
    (h : isPending earlier (node :: rest) = true) : isNested node rest.head? = true := by
  cases earlier with
  | nil => cases h
  | cons previous earlier =>
      simp only [isPending_cons, isContinued, Bool.and_eq_true] at h
      exact h.2.2

/-- A continuation at a node's own depth is not nested in it. -/
theorem not_isNested_of_isContinued {node : Node} {rest : List Node}
    (h : isContinued node rest = true) : isNested node rest.head? = false := by
  cases rest with
  | nil => cases h
  | cons next after =>
      simp only [isContinued, Bool.and_eq_true, beq_iff_eq] at h
      simp [isNested, h.1.2]

theorem not_isContinuation_of_isOpener {node : Node} (h : isOpener node = true) :
    isContinuation node = false := by
  simp only [isOpener] at h
  simp only [isContinuation]
  split at h
  · rename_i code hconstruct
    rw [hconstruct]
    rw [beq_iff_eq] at h
    rw [← Bool.not_eq_true, ← statementRole_eq_middle_iff, h]
    decide
  · rename_i hconstruct
    rw [hconstruct]
  · cases h

/-- A line that opens a block has its own block on the stack exactly if it has a body. -/
theorem pushBlock_of_isOpener {options : Options} (hclose : options.closeStatements = true)
    {node : Node} (next : Option Node) (stack : List Node) (h : isOpener node = true) :
    pushBlock options false node next stack =
      if isNested node next then node :: stack else stack := by
  simp only [isOpener] at h
  simp only [pushBlock, opensBlock]
  split at h
  · rename_i hconstruct
    simp [hconstruct, hclose]
  · rename_i hconstruct
    simp [hconstruct, hclose, h]
  · cases h

/-- Such a block is counted once: on the stack, or as one whose body is to come. -/
theorem openEnds_of_isOpener {options : Options} (hclose : options.closeStatements = true)
    {node : Node} (rest stack : List Node) (h : isOpener node = true)
    (hbody : (isNested node rest.head? || isContinued node rest) = true) :
    openEnds (pushBlock options false node rest.head? stack) + (isContinued node rest).toNat =
      openEnds stack + 1 := by
  have hended : isEnded node = true := by
    apply isEnded_of_isCode
    simp only [isOpener] at h
    simp only [isCode]
    split at h <;> simp_all
  rw [pushBlock_of_isOpener hclose rest.head? stack h]
  cases hcontinued : isContinued node rest with
  | true =>
      rw [not_isNested_of_isContinued hcontinued]
      rfl
  | false =>
      rw [hcontinued, Bool.or_false] at hbody
      rw [if_pos hbody, openEnds_cons, hended]
      rfl

theorem body_of_isOpener {options : Options} {earlier rest : List Node} {node : Node}
    (hproper : isProper options earlier node rest = true) (h : isOpener node = true) :
    (isNested node rest.head? || isContinued node rest) = true := by
  simp only [isOpener] at h
  simp only [isProper] at hproper
  split at h
  · rename_i hconstruct
    simpa only [hconstruct, beq_iff_eq.mp h] using hproper
  · rename_i hconstruct
    simpa only [hconstruct, h, Bool.not_true, Bool.false_or] using hproper
  · cases h

theorem ownRoles_of_isOpener {node : Node} (h : isOpener node = true) :
    ∃ code, ownRoles node = [(.opens, code)] := by
  simp only [isOpener] at h
  simp only [ownRoles]
  split at h
  · rename_i code hconstruct
    rw [hconstruct]
    simp only [embeddedRole?_run, beq_iff_eq.mp h]
    exact ⟨readCode code, rfl⟩
  · rename_i code hconstruct
    rw [hconstruct]
    simp only [embeddedRole?_output, outputRole, h]
    exact ⟨readCode code, rfl⟩
  · cases h

theorem ownRoles_of_isContinuation {node : Node} (h : isContinuation node = true) :
    ∃ code, ownRoles node = [(.middle, code)] := by
  simp only [isContinuation] at h
  simp only [ownRoles]
  split at h
  · rename_i code hconstruct
    rw [hconstruct]
    simp only [embeddedRole?_run, statementRole_eq_middle_iff.mpr h]
    exact ⟨readCode code, rfl⟩
  · cases h

section Plain

variable {options : Options} {earlier rest : List Node} {node : Node}
  (hproper : isProper options earlier node rest = true) (hopener : isOpener node = false)
  (hcontinuation : isContinuation node = false)

include hproper hopener hcontinuation

/-- A statement that neither opens nor continues a block is plain and has no body. -/
theorem plain_of_statement {code : String} (hconstruct : node.construct = .statement code) :
    statementRole code = .plain ∧ isNested node rest.head? = false := by
  simp only [isProper, hconstruct] at hproper
  simp only [isOpener, hconstruct] at hopener
  simp only [isContinuation, hconstruct] at hcontinuation
  cases hrole : statementRole code with
  | plain => exact ⟨rfl, by simpa [hrole] using hproper⟩
  | opens => simp [hrole] at hopener
  | middle => simp [statementRole_eq_middle_iff.mp hrole] at hcontinuation
  | closes => simp [hrole] at hproper

theorem ownRoles_plain : ∀ role ∈ ownRoles node, role.1 = .plain := by
  simp only [ownRoles]
  cases hconstruct : node.construct with
  | tag name attributes inline =>
      simp only [isProper, hconstruct] at hproper
      simp only [inlineRoles]
      split
      · simp_all [embeddedRole?_output, outputRole]
      · simp
  | statement code =>
      have hplain := (plain_of_statement hproper hopener hcontinuation hconstruct).1
      simp [embeddedRole?_run, hplain]
  | expression code =>
      simp only [isOpener, hconstruct] at hopener
      simp [embeddedRole?_output, outputRole, hopener]
  | text _ | comment _ | doctype _ => simp

/-- All that it may put on the stack is a tag. -/
theorem openEnds_plain (stack : List Node) :
    openEnds (pushBlock options false node rest.head? stack) = openEnds stack := by
  rw [pushBlock]
  split
  · rename_i hopens
    have hended : isEnded node = false := by
      simp only [opensBlock] at hopens
      simp only [isEnded]
      cases hconstruct : node.construct with
      | tag name attributes inline => rfl
      | statement code =>
          have hnested := (plain_of_statement hproper hopener hcontinuation hconstruct).2
          simp [hconstruct, hnested] at hopens
      | expression code =>
          simp only [isOpener, hconstruct] at hopener
          simp [hconstruct, hopener] at hopens
      | text _ | comment _ | doctype _ => simp [hconstruct] at hopens
    rw [openEnds_cons, hended]
    rfl
  · rfl

end Plain

theorem blockFaults_allPlain (count : Nat) {roles : List (Role × String)}
    (more : List (Role × String)) (h : ∀ role ∈ roles, role.1 = .plain) :
    blockFaults count (roles ++ more) = blockFaults count more := by
  induction roles with
  | nil => rfl
  | cons role roles ih =>
      obtain ⟨hrole, hroles⟩ := List.forall_mem_cons.mp h
      obtain ⟨kind, code⟩ := role
      cases hrole
      rw [List.cons_append, blockFaults_plain]
      exact ih hroles

/-- A continuation keeps the block it continues: that is on the stack from then on. -/
theorem blockFaults_continuation {options : Options} (hclose : options.closeStatements = true)
    {earlier rest stack : List Node} {node : Node} {takesOver : Bool}
    (harrives : Arrives options earlier (some node) stack takesOver)
    (hproper : isProper options earlier node rest = true)
    (honce : isPending earlier (node :: rest) = true → takesOver = false)
    (hcontinuation : isContinuation node = true) (more : List (Role × String)) :
    blockFaults (openEnds stack + takesOver.toNat + (isPending earlier (node :: rest)).toNat)
        (ownRoles node ++ more) =
      blockFaults (openEnds (pushBlock options takesOver node rest.head? stack)) more := by
  obtain ⟨code, hroles⟩ := ownRoles_of_isContinuation hcontinuation
  have hconstruct : ∃ code, node.construct = .statement code ∧ isContinuationCode code = true := by
    simp only [isContinuation] at hcontinuation
    split at hcontinuation
    · exact ⟨_, ‹_›, hcontinuation⟩
    · cases hcontinuation
  obtain ⟨statement, hstatement, hcode⟩ := hconstruct
  have hfound : isPending earlier (node :: rest) = true ∨ takesOver = true := by
    simp only [isProper, hstatement, statementRole_eq_middle_iff.mpr hcode,
      Bool.or_eq_true] at hproper
    exact hproper.imp_right (harrives.takesOver_of_findsBlock hcontinuation)
  have hpush : pushBlock options takesOver node rest.head? stack = node :: stack := by
    have hbody : isNested node rest.head? = true ∨ takesOver = true :=
      hfound.imp_left isNested_of_isPending
    rw [pushBlock, if_pos]
    simpa [opensBlock, hstatement, hclose] using hbody
  have hcount : openEnds stack + takesOver.toNat + (isPending earlier (node :: rest)).toNat =
      openEnds (node :: stack) := by
    rw [openEnds_cons, isEnded_of_isCode (by simp [isCode, hstatement])]
    cases hpending : isPending earlier (node :: rest) with
    | true => rw [honce hpending]; rfl
    | false => rw [hfound.resolve_left (by simp [hpending])]; rfl
  rw [hroles, hcount, hpush]
  refine blockFaults_middle code more ?_
  rw [openEnds_cons, isEnded_of_isCode (by simp [isCode, hstatement])]
  exact Nat.succ_pos _

/-- One step of a run: after a node's own line, the check counts the blocks on the stack and the
one whose body is to come. -/
theorem blockFaults_ownRoles {options : Options} (hclose : options.closeStatements = true)
    {earlier rest stack : List Node} {node : Node} {takesOver : Bool}
    (harrives : Arrives options earlier (some node) stack takesOver)
    (hproper : isProper options earlier node rest = true)
    (honce : isPending earlier (node :: rest) = true → takesOver = false)
    (more : List (Role × String)) :
    blockFaults (openEnds stack + takesOver.toNat + (isPending earlier (node :: rest)).toNat)
        (ownRoles node ++ more) =
      blockFaults (openEnds (pushBlock options takesOver node rest.head? stack) +
        (isPending (node :: earlier) rest).toNat) more := by
  rw [isPending_cons node]
  cases hcontinuation : isContinuation node with
  | true =>
      have hopener : isOpener node = false := by
        cases hopener : isOpener node with
        | true => rw [not_isContinuation_of_isOpener hopener] at hcontinuation; cases hcontinuation
        | false => rfl
      rw [blockFaults_continuation hclose harrives hproper honce hcontinuation, hopener]
      rfl
  | false =>
      have htakes : takesOver = false := harrives.not_takesOver hcontinuation
      have hpending : isPending earlier (node :: rest) = false := by
        rw [← Bool.not_eq_true]
        intro hpending
        rw [isContinuation_of_isPending hpending] at hcontinuation
        cases hcontinuation
      subst htakes
      rw [hpending]
      cases hopener : isOpener node with
      | true =>
          obtain ⟨code, hroles⟩ := ownRoles_of_isOpener hopener
          have hbody : (isNested node rest.head? || isContinued node rest) = true :=
            body_of_isOpener hproper hopener
          rw [hroles, Bool.true_and, openEnds_of_isOpener hclose rest stack hopener hbody]
          exact blockFaults_opens _ code more
      | false =>
          rw [openEnds_plain hproper hopener hcontinuation,
            blockFaults_allPlain _ more (ownRoles_plain hproper hopener hcontinuation)]
          rfl

/-- A block whose body is to come is not on the stack, so its continuation takes nothing over. -/
theorem not_taken_of_isPending {options : Options} (hclose : options.closeStatements = true)
    {earlier rest stack : List Node} {node : Node} {takesOver : Bool}
    (harrives : Arrives options earlier (some node) stack takesOver)
    (h : isPending (node :: earlier) rest = true) :
    (closeBefore rest.head? (pushBlock options takesOver node rest.head? stack)).2.2 = false := by
  rw [isPending_cons, Bool.and_eq_true] at h
  obtain ⟨hopener, hcontinued⟩ := h
  have htakes : takesOver = false :=
    harrives.not_takesOver (not_isContinuation_of_isOpener hopener)
  rw [htakes, pushBlock_of_isOpener hclose rest.head? stack hopener,
    not_isNested_of_isContinued hcontinued]
  cases rest with
  | nil => cases hcontinued
  | cons next after =>
      simp only [isContinued, Bool.and_eq_true, beq_iff_eq] at hcontinued
      have hencloses : Encloses stack next.depth := hcontinued.1.2 ▸ harrives.encloses
      exact congrArg (·.2.2) (closeBlocks_of_encloses hencloses)

theorem closeBlocks_none_taken (depth : Int) (stack : List Node) :
    (closeBlocks depth none stack).2.2 = false := by
  rw [← Bool.not_eq_true]
  intro htaken
  cases closeBlocks_continuation htaken

/-- A run ends all blocks that are open when it starts and all that it opens itself. -/
theorem blockFaults_written {options : Options} (hclose : options.closeStatements = true)
    (earlier : List Node) {stack : List Node} {takesOver : Bool} (nodes : List Node)
    (hreadable : ∀ node ∈ stack ++ nodes, Readable node)
    (hdepth : ∀ node ∈ stack ++ nodes, 0 ≤ node.depth)
    (hfits : ∀ node ∈ nodes, overflows options node = false)
    (harrives : Arrives options earlier nodes.head? stack takesOver)
    (honce : isPending earlier nodes = true → takesOver = false)
    (hlaid : isLaidOutFrom options earlier nodes = true) :
    blockFaults (openEnds stack + takesOver.toNat + (isPending earlier nodes).toNat)
      (rolesOf options.indentSize (written options stack takesOver nodes)) = [] := by
  induction nodes generalizing earlier stack takesOver with
  | nil =>
      obtain ⟨writer, -, -, -, hclosed⟩ := harrives
      have htakes : takesOver = false := (congrArg Prod.snd hclosed).symm
      have hpending : isPending earlier [] = false := by
        cases earlier with
        | nil => rfl
        | cons previous earlier => simp [isPending_cons, isContinued]
      rw [List.append_nil] at hreadable hdepth
      have hends := blockFaults_closeBlocks options.indentSize 0 none 0 [] hreadable
      rw [closeBlocks_all hdepth, List.append_nil, Nat.add_zero] at hends
      rw [htakes, hpending]
      refine hends.trans ?_
      rw [closeBlocks_none_taken]
      rfl
  | cons node rest ih =>
      have hnode : Readable node := hreadable node (by simp)
      obtain ⟨hnodeFits, hrestFits⟩ := List.forall_mem_cons.mp hfits
      obtain ⟨hproper, hrest⟩ := Bool.and_eq_true_iff.mp hlaid
      simp only [written, rolesOf_append, (read_ownLine options _ hnode).2, List.append_assoc]
      rw [blockFaults_ownRoles hclose harrives hproper honce,
        blockFaults_closeBefore options.indentSize rest.head? _ _
          fun block hblock => hreadable block (mem_append_of_mem_pushBlock hblock)]
      exact ih (node :: earlier)
        (fun block hblock => hreadable block (mem_append_of_mem_closeBefore hblock))
        (fun block hblock => hdepth block (mem_append_of_mem_closeBefore hblock))
        hrestFits (harrives.next hnodeFits rest.head?)
        (not_taken_of_isPending hclose harrives) hrest

/-- With blocks closed by `end`, every source whose contents are clean, whose lines can be indented
and whose code is laid out properly is converted, and the check of its output finds all blocks
balanced. -/
theorem blocks_balanced (options : Options) (source : String)
    (hclose : options.closeStatements = true)
    (hfits : ∀ node ∈ (Document.parse source).nodes, Fits options node)
    (hclean : ∀ node ∈ (Document.parse source).nodes, Clean node)
    (hlaid : isLaidOut options (Document.parse source).nodes = true) :
    ∃ conversion, convert options source = .ok conversion ∧
      blockFaults 0 (blockRoles conversion.output.toList) = [] := by
  obtain ⟨conversion, hconvert, hread⟩ := convert_readsAs options source hfits hclean
  refine ⟨conversion, hconvert, ?_⟩
  rw [hread.roles_eq]
  have hnamed := Slim.parse_wellNamed source
  have hover : ∀ node ∈ (Document.parse source).nodes, overflows options node = false :=
    fun node hnode => overflows_eq_false (hnamed node hnode).2 (hfits node hnode)
  exact blockFaults_written hclose [] _ (by simpa using parse_readable hclean)
    (by simpa using fun node hnode => (hnamed node hnode).2) hover
    (arrives_first options _) (fun _ => rfl) hlaid

/-- A `case` with its branches, an empty `else`, a `rescue`, and a block of output in a tag. -/
def branchedSource : String :=
  "- case kind\n- when 1\n  p one\n- when 2\n- else\n  - if a\n  - elsif b\n      | x\n" ++
    "div\n  = form_for @user do |f|\n      p= f.label\n  - begin\n    - todo\n  - rescue\n- go"

theorem blocks_balanced_branchedSource :
    (∀ node ∈ (Document.parse branchedSource).nodes, Fits {} node) ∧
      (∀ node ∈ (Document.parse branchedSource).nodes, Clean node) ∧
      isLaidOut {} (Document.parse branchedSource).nodes = true ∧
      ∃ conversion, convert {} branchedSource = .ok conversion ∧
        blockFaults 0 (blockRoles conversion.output.toList) = [] :=
  have hfits : ∀ node ∈ (Document.parse branchedSource).nodes, Fits {} node := by decide +kernel
  have hclean : ∀ node ∈ (Document.parse branchedSource).nodes, Clean node := by decide +kernel
  have hlaid : isLaidOut {} (Document.parse branchedSource).nodes = true := by decide +kernel
  ⟨hfits, hclean, hlaid, blocks_balanced _ _ rfl hfits hclean hlaid⟩

end SlimTemplate.Erb
