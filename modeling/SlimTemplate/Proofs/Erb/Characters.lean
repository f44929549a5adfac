import SlimTemplate.Conversion.Basic
import SlimTemplate.Proofs.Erb.Run
import SlimTemplate.Proofs.Slim.Characters
import SlimTemplate.Proofs.Text.Utf8

/-!
The characters of the output. The writer puts the texts of the nodes between fixed texts of
printable ASCII, so converting brings in no other characters, and no carriage returns in particular:
the output is read back as it was written.
-/

namespace SlimTemplate

open Text (Spelled spelled_append spelled_ofList spelled_of_own)
open Slim (Node Inline Attributes SpelledPairs)

namespace Erb

variable {P : Char → Prop} (hown : ∀ c, Text.isPrinted c = true → P c)

include hown

theorem escapeQuotes_spelled {value : String} (h : Spelled P value) :
    Spelled P (escapeQuotes value) := by
  have hquote : Spelled P "&quot;" := spelled_of_own hown (by decide)
  refine spelled_ofList.mpr fun c hc => ?_
  obtain ⟨d, hd, hmem⟩ := List.mem_flatMap.mp hc
  split at hmem
  · exact hquote c hmem
  · exact List.mem_singleton.mp hmem ▸ h d hd

theorem attributesText_spelled {attributes : Attributes} (h : SpelledPairs P attributes) :
    Spelled P (attributesText attributes) := by
  have hspace : Spelled P " " := spelled_of_own hown (by decide)
  have hassign : Spelled P "=\"" := spelled_of_own hown (by decide)
  have hquote : Spelled P "\"" := spelled_of_own hown (by decide)
  intro c hc
  rw [attributesText, String.toList_join] at hc
  obtain ⟨text, htext, hmem⟩ := List.mem_flatMap.mp hc
  obtain ⟨pair, hpair, rfl⟩ := List.mem_map.mp htext
  obtain ⟨hkey, hvalue⟩ := h pair hpair
  have hattribute : Spelled P (" " ++ attributeText pair.1 pair.2) := by
    rw [attributeText]
    split
    · exact spelled_append.mpr ⟨hspace, hkey⟩
    · simp only [spelled_append]
      exact ⟨hspace, ⟨⟨hkey, hassign⟩, escapeQuotes_spelled hown hvalue⟩, hquote⟩
  exact hattribute c hmem

theorem tagName_spelled {name : String} (h : Spelled P name) : Spelled P (tagName name) := by
  rw [tagName]
  split
  · exact spelled_of_own hown (by decide)
  · exact h

theorem closingTag_spelled {name : String} (h : Spelled P name) : Spelled P (closingTag name) := by
  have hopen : Spelled P "</" := spelled_of_own hown (by decide)
  have hclose : Spelled P ">" := spelled_of_own hown (by decide)
  exact spelled_append.mpr ⟨spelled_append.mpr ⟨hopen, h⟩, hclose⟩

theorem embedded_spelled {opening code : String}
    (hopening : opening.toList.all Text.isPrinted = true)
    (h : Spelled P code) : Spelled P (opening ++ code ++ " %>") := by
  have hclose : Spelled P " %>" := spelled_of_own hown (by decide)
  exact spelled_append.mpr ⟨spelled_append.mpr ⟨spelled_of_own hown hopening, h⟩, hclose⟩

theorem inlineText_spelled {inline : List Inline} (h : ∀ part ∈ inline, Spelled P part.content) :
    Spelled P (inlineText inline) := by
  rw [inlineText.eq_def]
  split
  · exact h _ (List.mem_singleton_self _)
  · exact embedded_spelled hown (by decide) (h _ (List.mem_singleton_self _))
  · exact spelled_of_own hown (by decide)

theorem tagBody_spelled (options : Options) {name : String} {attributes : Attributes}
    {inline : List Inline} (hname : Spelled P name) (hattributes : SpelledPairs P attributes)
    (hinline : ∀ part ∈ inline, Spelled P part.content) (nested : Bool) :
    Spelled P (tagBody options name attributes inline nested) := by
  have hopen : Spelled P "<" := spelled_of_own hown (by decide)
  have hclose : Spelled P ">" := spelled_of_own hown (by decide)
  have hopening : Spelled P (openingTag name attributes) := by
    simp only [openingTag, spelled_append]
    exact ⟨⟨⟨hopen, hname⟩, attributesText_spelled hown hattributes⟩, hclose⟩
  rw [tagBody]
  split
  · exact hopening
  · simp only [spelled_append]
    exact ⟨⟨hopening, inlineText_spelled hown hinline⟩, closingTag_spelled hown hname⟩

theorem commentBody?_spelled {options : Options} {content body : String} (h : Spelled P content)
    (hbody : commentBody? options content = some body) : Spelled P body := by
  have hopen : Spelled P "<!-- " := spelled_of_own hown (by decide)
  have hclose : Spelled P " -->" := spelled_of_own hown (by decide)
  rw [commentBody?] at hbody
  split at hbody
  · rename_i text htext
    cases hbody
    refine spelled_append.mpr
      ⟨spelled_append.mpr ⟨hopen, spelled_ofList.mpr fun c hc => ?_⟩, hclose⟩
    refine h c ?_
    rw [htext]
    exact List.mem_cons_of_mem _ (Text.trim_subset _ hc)
  · split at hbody
    · cases hbody
      exact embedded_spelled hown (by decide) h
    · cases hbody

theorem doctypeBody_spelled {content : String} (h : Spelled P content) :
    Spelled P (doctypeBody content) := by
  have hopen : Spelled P "<!DOCTYPE " := spelled_of_own hown (by decide)
  have hclose : Spelled P ">" := spelled_of_own hown (by decide)
  rw [doctypeBody]
  split
  · exact spelled_of_own hown (by decide)
  · exact spelled_append.mpr ⟨spelled_append.mpr ⟨hopen, h⟩, hclose⟩

section Lines

variable {options : Options} {node : Node} (hnode : node.Spelled P)

include hnode

theorem ownBody?_spelled {next : Option Node} {body : String}
    (h : ownBody? options node next = some body) : Spelled P body := by
  rw [ownBody?] at h
  rw [Node.Spelled] at hnode
  split at h <;> rename_i hconstruct <;> rw [hconstruct] at hnode
  · cases h
    exact tagBody_spelled hown options (tagName_spelled hown hnode.1) hnode.2.1 hnode.2.2 _
  · cases h
    exact hnode
  · cases h
    exact embedded_spelled hown (by decide) hnode
  · cases h
    exact embedded_spelled hown (by decide) hnode
  · exact commentBody?_spelled hown hnode h
  · cases h
    exact doctypeBody_spelled hown hnode

theorem closer_spelled : Spelled P (closer node) := by
  have hend : Spelled P "<% end %>" := spelled_of_own hown (by decide)
  rw [closer]
  rw [Node.Spelled] at hnode
  split
  · rename_i hconstruct
    rw [hconstruct] at hnode
    exact closingTag_spelled hown (tagName_spelled hown hnode.1)
  · exact hend

end Lines

theorem render_spelled {line : Line} (h : Spelled P line.body) (indentSize : Nat) :
    Spelled P (line.render indentSize) := by
  refine spelled_append.mpr ⟨spelled_ofList.mpr fun c hc => ?_, h⟩
  rw [(List.mem_replicate.mp hc).2]
  exact hown ' ' (by decide)

/-- The characters of the lines written so far, and of those that the open blocks will lead to. -/
structure Writer.Spelled (P : Char → Prop) (writer : Writer) : Prop where
  lines : ∀ line ∈ writer.lines, Text.Spelled P line.body
  stack : ∀ block ∈ writer.stack, block.Spelled P

theorem Writer.Spelled.closeTo {writer : Writer} (h : writer.Spelled P) (depth : Int)
    (next : Option Node) : (writer.closeTo depth next).Spelled P where
  lines line hline := by
    cases List.mem_append.mp hline with
    | inl hold => exact h.lines line hold
    | inr hclosed =>
        obtain ⟨block, hblock, rfl⟩ := mem_closeBlocks hclosed
        exact closer_spelled hown (h.stack block hblock)
  stack block hblock := h.stack block ((closeBlocks_suffix depth next writer.stack).subset hblock)

theorem Writer.Spelled.write {options : Options} {writer after : Writer} {node : Node}
    {next : Option Node} (h : writer.Spelled P) (hnode : node.Spelled P)
    (hwrite : writer.write options node next = .ok after) : after.Spelled P := by
  rw [Writer.write] at hwrite
  split at hwrite
  · cases hwrite
  cases hwrite
  constructor
  · intro line hline
    cases List.mem_append.mp hline with
    | inl hold => exact h.lines line hold
    | inr hown' =>
        obtain ⟨body, hbody, rfl⟩ := Option.map_eq_some_iff.mp (Option.mem_toList.mp hown')
        exact ownBody?_spelled hown hnode hbody
  · intro block hblock
    dsimp only at hblock
    split at hblock
    · exact (List.mem_cons.mp hblock).elim (fun heq => heq ▸ hnode) (h.stack block)
    · exact h.stack block hblock

theorem Writer.Spelled.writeAll {options : Options} {writer : Writer} {nodes : List Node}
    (h : writer.Spelled P) (hnodes : ∀ node ∈ nodes, node.Spelled P) :
    (writer.writeAll options nodes).1.Spelled P := by
  induction nodes generalizing writer with
  | nil => exact h.closeTo hown 0 none
  | cons node rest ih =>
      obtain ⟨hnode, hrest⟩ := List.forall_mem_cons.mp hnodes
      simp only [Writer.writeAll]
      split
      · exact h
      · rename_i between hwrite
        have hbetween := h.write hown hnode hwrite
        split
        · exact ih hbetween hrest
        · exact ih (hbetween.closeTo hown _ _) hrest

theorem documentLines_spelled {options : Options} {nodes : List Node} {lines : List Line}
    (hnodes : ∀ node ∈ nodes, node.Spelled P) (h : documentLines options nodes = .ok lines) :
    ∀ line ∈ lines, Text.Spelled P (line.render options.indentSize) := by
  have hwriter : ({} : Writer).Spelled P := ⟨List.forall_mem_nil _, List.forall_mem_nil _⟩
  have hrun : (({} : Writer).writeAll options nodes).1.Spelled P := hwriter.writeAll hown hnodes
  rw [documentLines] at h
  generalize ({} : Writer).writeAll options nodes = run at h hrun
  obtain ⟨writer, result⟩ := run
  cases result with
  | error overflow => cases h
  | ok _ =>
      cases h
      exact fun line hmem => render_spelled hown (hrun.lines line hmem) _

theorem documentText_spelled {options : Options} {nodes : List Node} {text : String}
    (hbreak : P '\n') (hnodes : ∀ node ∈ nodes, node.Spelled P)
    (h : documentText options nodes = .ok text) : Text.Spelled P text := by
  rw [documentText_eq_map] at h
  cases hlines : documentLines options nodes with
  | error overflow =>
      rw [hlines] at h
      cases h
  | ok lines =>
      rw [hlines] at h
      cases h
      refine Text.spelled_intercalate (List.forall_mem_singleton.mpr hbreak) fun line hline => ?_
      obtain ⟨line, hmem, rfl⟩ := List.mem_map.mp hline
      exact documentLines_spelled hown hnodes hlines line hmem

end Erb

/-- Converting brings in no characters but line feeds and printable ASCII. -/
theorem convert_characters {options : Erb.Options} {source : String} {conversion : Conversion}
    (h : convert options source = .ok conversion) :
    ∀ c ∈ conversion.output.toList,
      (∃ line ∈ Slim.sourceLines source, c ∈ line) ∨ Text.isOwn c = true := by
  rw [convert] at h
  cases htext : Erb.documentText options (Slim.Document.parse source).nodes with
  | error overflow =>
      rw [htext] at h
      cases h
  | ok text =>
      rw [htext] at h
      cases h
      have hown : ∀ c, Text.isPrinted c = true →
          (∃ line ∈ Slim.sourceLines source, c ∈ line) ∨ Text.isOwn c = true :=
        fun c hc => .inr (Bool.or_eq_true_iff.mpr (.inr hc))
      have hlines := Slim.readLines_spelled
        (P := fun c => (∃ line ∈ Slim.sourceLines source, c ∈ line) ∨ Text.isOwn c = true)
        hown 1 fun cs hcs c hc => .inl ⟨cs, hcs, hc⟩
      exact Erb.documentText_spelled hown (.inr rfl) hlines htext

/-- The output is read back as it was written. -/
theorem decodeText_encode_output {options : Erb.Options} {source : String}
    {conversion : Conversion} (h : convert options source = .ok conversion) :
    Text.decodeText (Text.encode conversion.output) = .ok conversion.output := by
  refine Text.decodeText_encode fun hmem => ?_
  cases convert_characters h _ hmem with
  | inl hsource =>
      obtain ⟨line, hline, hreturn⟩ := hsource
      exact (Slim.sourceLines_unbroken hline _ hreturn).2 rfl
  | inr hown => revert hown; decide

end SlimTemplate
