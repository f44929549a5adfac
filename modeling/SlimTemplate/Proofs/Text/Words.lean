import Mathlib.Data.List.Chain
import Mathlib.Data.List.TakeWhile
import SlimTemplate.Text.Blank

/-!
Words and spaces. A text whose blanks are single spaces between other characters is its words joined
by spaces, so nothing is lost when it is cut into words and joined again.
-/

namespace SlimTemplate.Text

structure SingleSpaced (cs : List Char) : Prop where
  spaces : ∀ c ∈ cs, isBlank c = true → c = ' '
  apart : cs.IsChain fun a b => isBlank a = true → isBlank b = false

structure Trimmed (cs : List Char) : Prop where
  start : ∀ c ∈ cs.head?, isBlank c = false
  stop : ∀ c ∈ cs.getLast?, isBlank c = false

instance (cs : List Char) : Decidable (SingleSpaced cs) :=
  decidable_of_iff
    (cs.all (fun c => !isBlank c || c == ' ') = true ∧
      cs.IsChain fun a b => isBlank a = true → isBlank b = false)
    ⟨fun ⟨hspaces, hapart⟩ => ⟨fun c hc hblank => by
        simpa [hblank] using List.all_eq_true.mp hspaces c hc, hapart⟩,
      fun ⟨hspaces, hapart⟩ => ⟨List.all_eq_true.mpr fun c hc => by
        cases hblank : isBlank c with
        | true => simp [hspaces c hc hblank]
        | false => rfl, hapart⟩⟩

theorem all_notBlank_iff (o : Option Char) :
    o.all (!isBlank ·) = true ↔ ∀ c ∈ o, isBlank c = false := by
  cases o with
  | none => simp
  | some c => simp

instance (cs : List Char) : Decidable (Trimmed cs) :=
  decidable_of_iff (cs.head?.all (!isBlank ·) = true ∧ cs.getLast?.all (!isBlank ·) = true)
    ⟨fun h => ⟨(all_notBlank_iff _).mp h.1, (all_notBlank_iff _).mp h.2⟩,
      fun h => ⟨(all_notBlank_iff _).mpr h.start, (all_notBlank_iff _).mpr h.stop⟩⟩

theorem isBlank_space : isBlank ' ' = true := by decide

theorem trimStart_append_of_blank {blanks cs : List Char} (h : ∀ c ∈ blanks, isBlank c = true) :
    trimStart (blanks ++ cs) = trimStart cs :=
  List.dropWhile_append_of_pos h

theorem takeWhile_blanks {blanks rest : List Char} {c : Char}
    (h : ∀ b ∈ blanks, isBlank b = true) (hc : isBlank c = false) :
    (blanks ++ c :: rest).takeWhile isBlank = blanks := by
  rw [List.takeWhile_append_of_pos h, List.takeWhile_cons_of_neg (by simp [hc]), List.append_nil]

theorem Trimmed.trimStart_eq {cs : List Char} (h : Trimmed cs) : trimStart cs = cs := by
  cases cs with
  | nil => rfl
  | cons c cs => simp [trimStart, h.start c rfl]

theorem Trimmed.reverse {cs : List Char} (h : Trimmed cs) : Trimmed cs.reverse where
  start c hc := h.stop c (by simpa using hc)
  stop c hc := h.start c (by simpa using hc)

/-- Blanks around a text are trimmed off. -/
theorem Trimmed.trim_eq {before cs after : List Char} (h : Trimmed cs)
    (hbefore : ∀ c ∈ before, isBlank c = true) (hafter : ∀ c ∈ after, isBlank c = true) :
    trim (before ++ cs ++ after) = cs := by
  by_cases hempty : cs = []
  · have hall : ∀ c ∈ before ++ after, isBlank c = true := fun c hc =>
      (List.mem_append.mp hc).elim (hbefore c) (hafter c)
    have hnone : trimStart (before ++ after ++ []) = [] := trimStart_append_of_blank hall
    rw [List.append_nil] at hnone
    rw [hempty, List.append_nil, trim, hnone]
    rfl
  · have hstart : trimStart (cs ++ after) = cs ++ after := by
      obtain ⟨c, rest, rfl⟩ := List.exists_cons_of_ne_nil hempty
      simp [trimStart, h.start c rfl]
    rw [trim, trimEnd, List.append_assoc, trimStart_append_of_blank hbefore, hstart,
      List.reverse_append,
      trimStart_append_of_blank fun c hc => hafter c (List.mem_reverse.mp hc),
      h.reverse.trimStart_eq, List.reverse_reverse]

theorem Trimmed.trim_self {cs : List Char} (h : Trimmed cs) : trim cs = cs := by
  simpa using h.trim_eq (List.forall_mem_nil _) (List.forall_mem_nil _)

theorem trimmed_of_notBlank {cs : List Char} (h : ∀ c ∈ cs, isBlank c = false) : Trimmed cs where
  start c hc := h c (List.mem_of_mem_head? hc)
  stop c hc := h c (List.mem_of_getLast? hc)

theorem singleSpaced_of_notBlank {cs : List Char} (h : ∀ c ∈ cs, isBlank c = false) :
    SingleSpaced cs where
  spaces c hc hblank := by
    rw [h c hc] at hblank
    cases hblank
  apart := by
    induction cs with
    | nil => exact .nil
    | cons c cs ih =>
        obtain ⟨-, hcs⟩ := List.forall_mem_cons.mp h
        exact List.isChain_cons.mpr
          ⟨fun d hd _ => hcs d (List.mem_of_mem_head? hd), ih hcs⟩

/-- Two texts follow each other, and no blank of one meets a blank of the other. -/
theorem SingleSpaced.append {cs ds : List Char} (h : SingleSpaced cs) (h' : SingleSpaced ds)
    (hmeet : ∀ a ∈ cs.getLast?, ∀ b ∈ ds.head?, isBlank a = true → isBlank b = false) :
    SingleSpaced (cs ++ ds) where
  spaces c hc := (List.mem_append.mp hc).elim (h.spaces c) (h'.spaces c)
  apart := List.isChain_append.mpr ⟨h.apart, h'.apart, hmeet⟩

theorem singleSpaced_space : SingleSpaced [' '] where
  spaces _ hc _ := List.mem_singleton.mp hc
  apart := .singleton _

/-- Two trimmed texts with a space between them. -/
theorem SingleSpaced.spaced {cs ds : List Char} (h : SingleSpaced cs) (h' : SingleSpaced ds)
    (hcs : Trimmed cs) (hds : Trimmed ds) : SingleSpaced (cs ++ ' ' :: ds) := by
  have hright : SingleSpaced ([' '] ++ ds) :=
    singleSpaced_space.append h' fun _ _ b hb _ => hds.start b hb
  refine h.append hright fun a ha _ _ hblank => ?_
  rw [hcs.stop a ha] at hblank
  cases hblank

theorem Trimmed.spaced {cs ds : List Char} (hcs : Trimmed cs) (hds : Trimmed ds) (hne : cs ≠ [])
    (hne' : ds ≠ []) : Trimmed (cs ++ ' ' :: ds) where
  start c hc := by
    rw [List.head?_append_of_ne_nil cs hne] at hc
    exact hcs.start c hc
  stop c hc := by
    rw [List.getLast?_append_of_ne_nil cs (List.cons_ne_nil ' ' ds),
      List.getLast?_cons_of_ne_nil hne'] at hc
    exact hds.stop c hc

/-- Where no two blanks meet, and none is at the end, only the first piece can be empty. -/
theorem nil_notMem_tail_splitOnP {cs : List Char}
    (hapart : cs.IsChain fun a b => isBlank a = true → isBlank b = false)
    (hstop : ∀ c ∈ cs.getLast?, isBlank c = false) : [] ∉ (cs.splitOnP isBlank).tail := by
  induction cs with
  | nil => simp
  | cons c cs ih =>
      obtain ⟨hnext, hrest⟩ := List.isChain_cons.mp hapart
      rw [List.splitOnP_cons_eq_if_modifyHead]
      cases cs with
      | nil => split <;> simp_all
      | cons d ds =>
          have hlater := ih hrest fun e he => hstop e (by rwa [List.getLast?_cons_cons])
          split
          · rename_i hblank
            have hd : isBlank d = false := hnext d rfl hblank
            obtain ⟨first, more, hsplit⟩ :=
              List.exists_cons_of_ne_nil (List.splitOnP_ne_nil isBlank ds)
            simp only [List.splitOnP_cons_eq_if_modifyHead, hd, hsplit] at hlater ⊢
            simpa using hlater
          · rwa [List.tail_modifyHead]

theorem splitOnP_isBlank {cs : List Char} (h : ∀ c ∈ cs, isBlank c = true → c = ' ') :
    cs.splitOnP isBlank = cs.splitOn ' ' := by
  induction cs with
  | nil => rfl
  | cons c cs ih =>
      obtain ⟨hc, hcs⟩ := List.forall_mem_cons.mp h
      have hsame : isBlank c = (c == ' ') := by
        rw [Bool.eq_iff_iff, beq_iff_eq]
        exact ⟨hc, fun heq => heq ▸ isBlank_space⟩
      rw [List.splitOnP_cons_eq_if_modifyHead, List.splitOn_cons_eq_if_modifyHead, hsame, ih hcs]

/-- The words of such a text, joined by spaces, are the text. -/
theorem intercalate_words {cs : List Char} (h : SingleSpaced cs) (htrim : Trimmed cs) :
    [' '].intercalate (words cs) = cs := by
  cases cs with
  | nil => rfl
  | cons c cs =>
      have hfirst : isBlank c = false := htrim.start c rfl
      have hkept : [] ∉ (c :: cs).splitOnP isBlank := by
        have htail := nil_notMem_tail_splitOnP h.apart htrim.stop
        obtain ⟨first, more, hsplit⟩ :=
          List.exists_cons_of_ne_nil (List.splitOnP_ne_nil isBlank cs)
        simp only [List.splitOnP_cons_eq_if_modifyHead, hfirst, hsplit] at htail ⊢
        simpa using htail
      have hwords : words (c :: cs) = (c :: cs).splitOnP isBlank := by
        refine List.filter_eq_self.mpr fun piece hpiece => ?_
        cases piece with
        | nil => exact absurd hpiece hkept
        | cons _ _ => rfl
      rw [hwords, splitOnP_isBlank h.spaces, List.intercalate_splitOn]

theorem words_of_notBlank {cs : List Char} (h : ∀ c ∈ cs, isBlank c = false) (hne : cs ≠ []) :
    words cs = [cs] := by
  rw [words, List.splitOnP_eq_singleton h]
  simpa using hne

theorem words_append_space {cs ds : List Char} (h : ∀ c ∈ cs, isBlank c = false) (hne : cs ≠ []) :
    words (cs ++ ' ' :: ds) = cs :: words ds := by
  rw [words, List.splitOnP_append_cons cs ds isBlank_space, List.splitOnP_eq_singleton h,
    List.singleton_append]
  exact List.filter_cons_of_pos (by simpa using hne)

theorem trimStart_subset (cs : List Char) : trimStart cs ⊆ cs :=
  (List.dropWhile_sublist _).subset

theorem trim_sublist (cs : List Char) : (trim cs).Sublist cs := by
  have hend : (trimStart (trimStart cs).reverse).reverse.Sublist (trimStart cs).reverse.reverse :=
    (List.dropWhile_sublist _).reverse
  rw [List.reverse_reverse] at hend
  exact hend.trans (List.dropWhile_sublist _)

theorem trim_subset (cs : List Char) : trim cs ⊆ cs :=
  (trim_sublist cs).subset

theorem isBlank_head_trimStart {cs : List Char} {c : Char} (h : c ∈ (trimStart cs).head?) :
    isBlank c = false := by
  have hhead := List.head?_dropWhile_not isBlank cs
  rw [trimStart, Option.mem_def] at h
  rwa [h] at hhead

theorem trimEnd_prefix (cs : List Char) : trimEnd cs <+: cs := by
  have hsuffix : trimStart cs.reverse <:+ cs.reverse := List.dropWhile_suffix _
  rw [trimEnd, ← List.reverse_suffix, List.reverse_reverse]
  exact hsuffix

theorem trimEnd_append_of_blank {text blanks : List Char}
    (hlast : ∀ c ∈ text.getLast?, isBlank c = false)
    (hblanks : ∀ c ∈ blanks, isBlank c = true) : trimEnd (text ++ blanks) = text := by
  have hstart : trimStart text.reverse = text.reverse := by
    rw [← List.head?_reverse] at hlast
    cases hcs : text.reverse with
    | nil => rfl
    | cons c cs =>
        rw [hcs] at hlast
        exact List.dropWhile_cons_of_neg (by simp [hlast c rfl])
  rw [trimEnd, List.reverse_append,
    trimStart_append_of_blank fun c hc => hblanks c (List.mem_reverse.mp hc), hstart,
    List.reverse_reverse]

theorem trimmed_trim (cs : List Char) : Trimmed (trim cs) where
  start c hc := by
    obtain ⟨rest, hrest⟩ := trimEnd_prefix (trimStart cs)
    have hhead : c ∈ (trimStart cs).head? := by
      rw [trim, Option.mem_def] at hc
      rw [← hrest, List.head?_append, hc]
      rfl
    exact isBlank_head_trimStart hhead
  stop c hc := by
    rw [trim, trimEnd, List.getLast?_reverse] at hc
    exact isBlank_head_trimStart hc

/-- Nothing is left of a text exactly if all of it is blank. -/
theorem trim_eq_nil_iff {cs : List Char} : trim cs = [] ↔ ∀ c ∈ cs, isBlank c = true := by
  rw [← List.dropWhile_eq_nil_iff]
  constructor
  · intro h
    cases hstart : trimStart cs with
    | nil => exact hstart
    | cons c rest =>
        -- the first character that is left at the start is left at the end as well
        have hall : ∀ d ∈ (trimStart cs).reverse, isBlank d = true :=
          List.dropWhile_eq_nil_iff.mp (List.reverse_eq_nil_iff.mp h)
        have hblank : isBlank c = true := hall c (by simp [hstart])
        have hhead : c ∈ (trimStart cs).head? := by simp [hstart]
        cases hblank.symm.trans (isBlank_head_trimStart hhead)
  · intro h
    rw [trim, trimStart, h]
    rfl

/-- The characters of a piece are characters of the text, and none of them is a separator. -/
theorem of_mem_splitOnP {p : Char → Bool} {cs piece : List Char} (h : piece ∈ cs.splitOnP p) :
    ∀ c ∈ piece, c ∈ cs ∧ p c = false := by
  induction cs generalizing piece with
  | nil => simp_all
  | cons c cs ih =>
      have hlater : ∀ piece ∈ cs.splitOnP p, ∀ d ∈ piece, d ∈ c :: cs ∧ p d = false :=
        fun piece hpiece d hd => (ih hpiece d hd).imp_left (List.mem_cons_of_mem c)
      rw [List.splitOnP_cons_eq_if_modifyHead] at h
      split at h
      · cases List.mem_cons.mp h with
        | inl heq => simp [heq]
        | inr hmem => exact hlater piece hmem
      · rename_i hc
        obtain ⟨first, pieces, hsplit⟩ := List.exists_cons_of_ne_nil (List.splitOnP_ne_nil p cs)
        rw [hsplit] at h hlater
        cases List.mem_cons.mp h with
        | inl heq =>
            rw [heq]
            exact List.forall_mem_cons.mpr
              ⟨⟨List.mem_cons_self, by simpa using hc⟩, hlater first List.mem_cons_self⟩
        | inr hmem => exact hlater piece (List.mem_cons_of_mem _ hmem)

theorem of_mem_words {cs word : List Char} (h : word ∈ words cs) :
    ∀ c ∈ word, c ∈ cs ∧ isBlank c = false :=
  of_mem_splitOnP (List.mem_filter.mp h).1

theorem mem_intercalate {sep : List Char} {texts : List (List Char)} {c : Char}
    (h : c ∈ sep.intercalate texts) : c ∈ sep ∨ ∃ text ∈ texts, c ∈ text := by
  induction texts with
  | nil => simp at h
  | cons text rest ih =>
      cases rest with
      | nil => exact .inr ⟨text, List.mem_singleton_self _, by simpa using h⟩
      | cons next rest =>
          rw [List.intercalate_cons_cons, List.mem_append, List.mem_append] at h
          rcases h with (hfirst | hsep) | hrest
          · exact .inr ⟨text, List.mem_cons_self, hfirst⟩
          · exact .inl hsep
          · obtain hsep | ⟨other, hother, hmem⟩ := ih hrest
            · exact .inl hsep
            · exact .inr ⟨other, List.mem_cons_of_mem _ hother, hmem⟩

/-! What words joined by spaces look like, whatever the text was. -/

theorem singleSpaced_intercalate {texts : List (List Char)}
    (h : ∀ text ∈ texts, text ≠ [] ∧ ∀ c ∈ text, isBlank c = false) :
    SingleSpaced ([' '].intercalate texts) ∧ Trimmed ([' '].intercalate texts) ∧
      (texts ≠ [] → [' '].intercalate texts ≠ []) := by
  induction texts with
  | nil => exact ⟨by decide, by decide, fun hne => absurd rfl hne⟩
  | cons text rest ih =>
      obtain ⟨⟨hne, hnotBlank⟩, hrest⟩ := List.forall_mem_cons.mp h
      have hspaced := singleSpaced_of_notBlank hnotBlank
      have htrimmed := trimmed_of_notBlank hnotBlank
      cases rest with
      | nil =>
          rw [List.intercalate_singleton]
          exact ⟨hspaced, htrimmed, fun _ => hne⟩
      | cons next rest =>
          obtain ⟨hspaced', htrimmed', hne'⟩ := ih hrest
          rw [List.intercalate_cons_cons, List.append_assoc, List.singleton_append]
          exact ⟨hspaced.spaced hspaced' htrimmed htrimmed',
            htrimmed.spaced htrimmed' hne (hne' (List.cons_ne_nil _ _)), fun _ => by simp⟩

theorem singleSpaced_words (cs : List Char) :
    SingleSpaced ([' '].intercalate (words cs)) ∧ Trimmed ([' '].intercalate (words cs)) := by
  have hwords : ∀ word ∈ words cs, word ≠ [] ∧ ∀ c ∈ word, isBlank c = false := by
    intro word hword
    refine ⟨?_, fun c hc => (of_mem_words hword c hc).2⟩
    simpa using (List.mem_filter.mp hword).2
  exact ⟨(singleSpaced_intercalate hwords).1, (singleSpaced_intercalate hwords).2.1⟩

theorem length_intercalate_splitOnP (cs : List Char) :
    ([' '].intercalate (cs.splitOnP isBlank)).length = cs.length := by
  induction cs with
  | nil => rfl
  | cons c cs ih =>
      obtain ⟨first, pieces, hsplit⟩ :=
        List.exists_cons_of_ne_nil (List.splitOnP_ne_nil isBlank cs)
      rw [hsplit] at ih
      rw [List.splitOnP_cons_eq_if_modifyHead, hsplit]
      split
      · rw [List.intercalate_cons_cons]
        simp [ih]
      · cases pieces with
        | nil => simpa using ih
        | cons next pieces =>
            rw [List.intercalate_cons_cons] at ih
            rw [List.modifyHead_cons, List.intercalate_cons_cons, List.cons_append,
              List.cons_append, List.length_cons, ih, List.length_cons]

theorem length_intercalate_filter_le (p : List Char → Bool) (texts : List (List Char)) :
    ([' '].intercalate (texts.filter p)).length ≤ ([' '].intercalate texts).length := by
  induction texts with
  | nil => rfl
  | cons text rest ih =>
      cases rest with
      | nil => cases hp : p text <;> simp [hp]
      | cons next rest =>
          rw [List.intercalate_cons_cons]
          simp only [List.length_append, List.length_singleton]
          cases hp : p text with
          | false =>
              rw [List.filter_cons_of_neg (by simp [hp])]
              omega
          | true =>
              rw [List.filter_cons_of_pos hp]
              cases hkept : (next :: rest).filter p with
              | nil =>
                  rw [List.intercalate_singleton]
                  omega
              | cons first kept =>
                  rw [hkept] at ih
                  rw [List.intercalate_cons_cons]
                  simp only [List.length_append, List.length_singleton]
                  omega

/-- No text gets longer when it is cut into words and joined again. -/
theorem length_intercalate_words_le (cs : List Char) :
    ([' '].intercalate (words cs)).length ≤ cs.length :=
  (length_intercalate_filter_le _ _).trans_eq (length_intercalate_splitOnP cs)

end SlimTemplate.Text
