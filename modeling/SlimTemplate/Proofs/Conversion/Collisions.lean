import SlimTemplate.Proofs.Conversion.Turns

/-!
No two sources of a run are written to the same place. An output is told by the directory entry that
its path names when its source has its turn; what comes later in the run cannot make another source
name the same entry without being found out. Main statement: an output that was put in place is not
overwritten by a later source of the run, which is refused, unless links stood in the way.
-/

namespace SlimTemplate

open FileTree Files

/-- An entry is the place of an output of the run, and no link stands there. -/
structure Established (tree : FileTree) (produced : Produced) (location : Location) : Prop where
  produced : ∃ source, produced.lookup ⟨.root, location⟩ = some source
  plain : ∀ target, tree.get? location ≠ some (.link target)

structure Avoids (location : Location) (turn : Turn) (output : Path) : Prop where
  different : turn.step.report.written = true → turn.before.entryLocation output ≠ location
  refused : ∀ place, turn.before.locate .entry output = .ok place → place.location = location →
    turn.step.report.status = .writeError ∧ turn.step.report.written = false
  kept : (∀ target, turn.before.get? (turn.before.entryLocation (temporaryOf output)) ≠
      some (.link target)) →
    ∀ content, turn.before.get? location = some (.file content) →
      turn.after.get? location = some (.file content) ∨ turn.after.get? location = none

section Avoids

variable {config : Config} {mode : Mode} {root : Option Path} {tree : FileTree}
  {produced : Produced} {source place output : Path} {location : Location}

/-- A path that names an entry without a link is resolved to it. -/
theorem resolve_eq_of_entry (hname : ¬ IsDots output.name)
    (hplain : ∀ target, tree.get? (tree.entryLocation output) ≠ some (.link target))
    (hdirectory : ∃ directory, LeadsTo tree output.parent directory)
    (hresolve : tree.resolve output = .ok place) : place = ⟨.root, tree.entryLocation output⟩ := by
  obtain ⟨directory, hleads⟩ := hdirectory
  have hentry := hleads.entryLocation_child output.name
  rw [child_name_of_not_isDots hname] at hentry
  have hchild := hleads.child hname (hentry ▸ hplain)
  rw [child_name_of_not_isDots hname, ← hentry] at hchild
  exact hchild.resolve_eq hresolve

theorem endsIn_entryLocation {ending : String} (tree : FileTree) {p : Path}
    (h : ending.toList <:+ p.name.toList) : EndsIn ending (tree.entryLocation p) :=
  endsIn_concat.mpr h

/-- A temporary file is not an output. -/
theorem entryLocation_temporaryOf_ne (tree : FileTree) (output : Path)
    (h : EndsIn ".erb" location) : location ≠ tree.entryLocation (temporaryOf output) := by
  rintro rfl
  exact not_endsIn_temporary h (endsIn_entryLocation tree (temporaryOf_ending output))

/-- A source whose output is not among those produced has another entry for it. -/
theorem entryLocation_ne_of_established (hname : ¬ IsDots output.name)
    (hestablished : Established tree produced location)
    (hdirectory : ∃ directory, LeadsTo tree output.parent directory)
    (hresolve : tree.resolve output = .ok place) (hlookup : produced.lookup place = none) :
    tree.entryLocation output ≠ location := by
  rintro rfl
  obtain ⟨earlier, hproduced⟩ := hestablished.produced
  rw [resolve_eq_of_entry hname hestablished.plain hdirectory hresolve, hproduced] at hlookup
  cases hlookup

theorem takeTurn_avoids (hplace : outputPlace config tree source root = .ok place)
    (houtput : outputPath source config.outputDirectory root = .ok output)
    (hends : EndsIn ".erb" location) (hestablished : Established tree produced location) :
    Avoids location (takeTurn config mode root tree produced source place).1 output ∧
      Established (takeTurn config mode root tree produced source place).1.after
        (takeTurn config mode root tree produced source place).2 location := by
  obtain ⟨found, hfound, hresolve⟩ := outputPlace_eq_ok hplace
  cases houtput.symm.trans hfound
  have hname := not_isDots_outputName houtput
  cases hlookup : produced.lookup place with
  | some earlier =>
      rw [takeTurn_of_earlier hlookup]
      refine ⟨⟨fun hwritten => ?_, fun _ _ _ => ⟨rfl, rfl⟩, fun _ _ => .inl⟩, hestablished⟩
      cases hwritten
  | none =>
      rw [takeTurn_of_new hlookup]
      have hdifferent := fun hdirectory =>
        entryLocation_ne_of_established hname hestablished hdirectory hresolve hlookup
      obtain ⟨hsettles, hplaces⟩ := convertInBatch_settles config mode root tree houtput
      generalize convertInBatch config mode source root tree = first at hsettles hplaces ⊢
      obtain ⟨step, after⟩ := first
      dsimp only at hsettles hplaces ⊢
      have hother := entryLocation_temporaryOf_ne tree output hends
      refine ⟨⟨fun hwritten => hdifferent (hplaces hwritten).directory,
        fun found hlocate hsite => ?_, fun hplain content hfile => ?_⟩, ?_, fun target hlink => ?_⟩
      · -- a path that names the entry would have been found among the outputs
        have hsame : SameLinks tree tree := (Fills.refl tree).sameLinks
        obtain ⟨hdirectory, hentry⟩ := hsame.locate_entry hname hlocate
        exact absurd (hentry.symm.trans hsite) (hdifferent hdirectory)
      · cases hsettles.reached with
        | inl hfills => exact .inl (hfills.kept _ _ hfile)
        | inr hdirectory =>
            exact hsettles.disturbs.files hplain location content
              (Ne.symm (hdifferent hdirectory)) hother hfile
      · obtain ⟨earlier, hproduced⟩ := hestablished.produced
        exact ⟨earlier, by rw [List.lookup_append, hproduced]; rfl⟩
      · cases hsettles.reached with
        | inl hfills => exact hestablished.plain target (hfills.links _ _ hlink)
        | inr hdirectory =>
            cases hsettles.disturbs.links location target hlink with
            | inl hold => exact hestablished.plain target hold
            | inr hmoved => exact hdifferent hdirectory hmoved.1.symm

/-- A report that tells of an output in place is not that of a refusal, so the entry is noted. -/
theorem takeTurn_establishes (hplace : outputPlace config tree source root = .ok place)
    (houtput : outputPath source config.outputDirectory root = .ok output)
    (hwritten :
      (takeTurn config mode root tree produced source place).1.step.report.written = true) :
    Places output tree (takeTurn config mode root tree produced source place).1.step.report
        (takeTurn config mode root tree produced source place).1.after ∧
      (Plain tree output →
        Established (takeTurn config mode root tree produced source place).1.after
          (takeTurn config mode root tree produced source place).2
          (tree.entryLocation output)) := by
  obtain ⟨found, hfound, hresolve⟩ := outputPlace_eq_ok hplace
  cases houtput.symm.trans hfound
  cases hlookup : produced.lookup place with
  | some earlier =>
      rw [takeTurn_of_earlier hlookup] at hwritten
      cases hwritten
  | none =>
      rw [takeTurn_of_new hlookup] at hwritten ⊢
      obtain ⟨-, hplaces⟩ := convertInBatch_settles config mode root tree houtput
      generalize convertInBatch config mode source root tree = first at hplaces hwritten ⊢
      obtain ⟨step, after⟩ := first
      have hplaces : Places output tree step.report after := hplaces hwritten
      refine ⟨hplaces, fun hplain => ⟨⟨source, ?_⟩, fun target hlink => ?_⟩⟩
      · rw [resolve_eq_of_entry (not_isDots_outputName houtput) hplain.entry hplaces.directory
          hresolve] at hlookup ⊢
        rw [List.lookup_append, hlookup]
        simp
      · obtain ⟨text, -, hfile⟩ := hplaces.content hplain
        cases hfile.symm.trans hlink

end Avoids

section Runs

variable {config : Config} {mode : Mode} {root : Option Path} {tree : FileTree}
  {produced : Produced} {sources : List Path} {turn : Turn} {output : Path} {location : Location}

/-- All turns of a run leave the entries of earlier outputs to them. -/
theorem turns_avoid (hends : EndsIn ".erb" location)
    (hestablished : Established tree produced location)
    (hturn : turn ∈ turns config mode root tree produced sources)
    (houtput : outputPath turn.step.source config.outputDirectory root = .ok output) :
    Avoids location turn output := by
  induction sources generalizing tree produced with
  | nil => cases hturn
  | cons source rest ih =>
      cases hplace : outputPlace config tree source root with
      | error fault =>
          rw [turns_cons_error hplace] at hturn
          cases hturn
      | ok place =>
          rw [turns_cons hplace] at hturn
          have hsource := (takeTurn_first config mode root tree produced source place).2
          obtain ⟨found, hfound, -⟩ := outputPlace_eq_ok hplace
          have hfirst : Avoids location (takeTurn config mode root tree produced source place).1
              found ∧ _ := takeTurn_avoids hplace hfound hends hestablished
          cases List.mem_cons.mp hturn with
          | inl heq =>
              rw [heq, hsource] at houtput
              cases hfound.symm.trans houtput
              exact heq ▸ hfirst.1
          | inr hrest => exact ih hfirst.2 hrest

/-- Of two turns of a run the later one avoids the output of the earlier one. -/
theorem turns_pairwise (config : Config) (mode : Mode) (root : Option Path) (tree : FileTree)
    (produced : Produced) (sources : List Path) :
    (turns config mode root tree produced sources).Pairwise fun first later =>
      ∀ output output', outputPath first.step.source config.outputDirectory root = .ok output →
        outputPath later.step.source config.outputDirectory root = .ok output' →
        first.step.report.written = true → Plain first.before output →
        Avoids (first.before.entryLocation output) later output' := by
  induction sources generalizing tree produced with
  | nil => exact List.Pairwise.nil
  | cons source rest ih =>
      cases hplace : outputPlace config tree source root with
      | error fault =>
          rw [turns_cons_error hplace]
          exact List.Pairwise.nil
      | ok place =>
          rw [turns_cons hplace, List.pairwise_cons]
          refine ⟨fun later hlater output output' houtput houtput' hwritten hplain => ?_, ih _ _⟩
          obtain ⟨hbefore, hsource⟩ := takeTurn_first config mode root tree produced source place
          rw [hsource] at houtput
          rw [hbefore] at hplain ⊢
          have hends := endsIn_entryLocation tree
            (outputPath_name houtput ▸ outputName_ending source)
          exact turns_avoid hends ((takeTurn_establishes hplace houtput hwritten).2 hplain) hlater
            houtput'

theorem turns_places (hturn : turn ∈ turns config mode root tree produced sources)
    (houtput : outputPath turn.step.source config.outputDirectory root = .ok output)
    (hwritten : turn.step.report.written = true) :
    Places output turn.before turn.step.report turn.after := by
  induction sources generalizing tree produced with
  | nil => cases hturn
  | cons source rest ih =>
      cases hplace : outputPlace config tree source root with
      | error fault =>
          rw [turns_cons_error hplace] at hturn
          cases hturn
      | ok place =>
          rw [turns_cons hplace] at hturn
          obtain ⟨hbefore, hsource⟩ := takeTurn_first config mode root tree produced source place
          cases List.mem_cons.mp hturn with
          | inl heq =>
              subst heq
              rw [hsource] at houtput
              rw [hbefore]
              exact (takeTurn_establishes hplace houtput hwritten).1
          | inr hrest => exact ih hrest

end Runs

/-- An output that a source was written to, with no links in the way, is where its report says it
is. No later source of the run is written to the same entry: one whose output has the same entry is
refused, and none overwrites the file unless its own temporary file is a link. -/
theorem outputs_distinct {config : Config} {mode : Mode} {root : Option Path}
    {sources : List Path} {tree : FileTree} {i j : Nat} {first later : Step}
    {output output' : Path} (hij : i < j)
    (hfirst : (convertFiles config mode sources root tree).steps[i]? = some first)
    (hlater : (convertFiles config mode sources root tree).steps[j]? = some later)
    (houtput : outputPath first.source config.outputDirectory root = .ok output)
    (houtput' : outputPath later.source config.outputDirectory root = .ok output')
    (hwritten : first.report.written = true)
    (hplain : Plain (filesAt config mode root sources tree i) output) :
    Places output (filesAt config mode root sources tree i) first.report
        (filesAt config mode root sources tree (i + 1)) ∧
      Avoids ((filesAt config mode root sources tree i).entryLocation output)
        ⟨filesAt config mode root sources tree j, later,
          filesAt config mode root sources tree (j + 1)⟩ output' := by
  have hearlier := exists_turn hfirst
  obtain ⟨hi, heq⟩ := List.getElem?_eq_some_iff.mp hearlier
  obtain ⟨hj, heq'⟩ := List.getElem?_eq_some_iff.mp (exists_turn hlater)
  have hpair := List.pairwise_iff_getElem.mp
    (turns_pairwise config mode root tree [] sources) i j hi hj hij
  rw [heq, heq'] at hpair
  exact ⟨turns_places (List.mem_of_getElem? hearlier) houtput hwritten,
    hpair output output' houtput houtput' hwritten hplain⟩

/-- Two sources whose outputs have the same entry, by way of a link to their directory. -/
def linkedSources : FileTree :=
  ⟨[(["a.slim"], .file [112]), (["a.SLIM"], .file [112]), (["d"], .link ".")], []⟩

/-- The second output is named through the link, and its source is refused. -/
theorem outputs_distinct_linkedSources :
    let batch := convertFiles Config.standard ⟨false, false⟩
      [.ofText "a.slim", .ofText "d/a.SLIM"] none linkedSources
    ∃ first later, batch.steps = [first, later] ∧ first.report.written = true ∧
      Plain linkedSources (.ofText "a.erb") ∧
      later.report.status = .writeError ∧ later.report.written = false ∧
      linkedSources.entryLocation (.ofText "a.erb") = ["a.erb"] ∧
      ∃ text, first.report.output = some text ∧
        (filesAt Config.standard ⟨false, false⟩ none [.ofText "a.slim", .ofText "d/a.SLIM"]
          linkedSources 1).get? ["a.erb"] = some (.file (Text.encode text)) := by
  intro batch
  have hlength : batch.steps.length = 2 := by decide +kernel
  obtain ⟨first, later, hsteps⟩ := List.length_eq_two.mp hlength
  have hsources : batch.steps.map (·.source) = [.ofText "a.slim", .ofText "d/a.SLIM"] := by
    decide +kernel
  have hwrittens : batch.steps.map (·.report.written) = [true, false] := by decide +kernel
  rw [hsteps] at hsources hwrittens
  obtain ⟨hsource, hsource'⟩ : first.source = .ofText "a.slim" ∧
      later.source = .ofText "d/a.SLIM" := by simpa using hsources
  have hwritten : first.report.written = true := by simpa using congrArg List.head? hwrittens
  have hentry : linkedSources.entryLocation (.ofText "a.erb") = ["a.erb"] := by decide +kernel
  have hplain : Plain linkedSources (.ofText "a.erb") := by
    have hnone : linkedSources.get? (linkedSources.entryLocation (.ofText "a.erb")) = none ∧
        linkedSources.get? (linkedSources.entryLocation (temporaryOf (.ofText "a.erb"))) =
          none := by decide +kernel
    exact ⟨fun target => by simp [hnone.1], fun target => by simp [hnone.2]⟩
  have houtput : outputPath first.source none none = .ok (.ofText "a.erb") := by
    rw [hsource]
    decide +kernel
  have houtput' : outputPath later.source none none = .ok (.ofText "d/a.erb") := by
    rw [hsource']
    decide +kernel
  have hfirst : batch.steps[0]? = some first := by rw [hsteps]; rfl
  have hlater : batch.steps[1]? = some later := by rw [hsteps]; rfl
  obtain ⟨hplaces, havoids⟩ := outputs_distinct (by decide) hfirst hlater houtput houtput' hwritten
    hplain
  obtain ⟨text, htext, hcontent⟩ := hplaces.content hplain
  have hlocate : (filesAt Config.standard ⟨false, false⟩ none
      [.ofText "a.slim", .ofText "d/a.SLIM"] linkedSources 1).locate .entry (.ofText "d/a.erb") =
      .ok (.taken ["a.erb"] (.file (Text.encode "<p></p>"))) := by decide +kernel
  obtain ⟨hstatus, hrefused⟩ := havoids.refused _ hlocate hentry.symm
  exact ⟨first, later, hsteps, hwritten, hplain, hstatus, hrefused, hentry, text, htext,
    hentry ▸ hcontent⟩

end SlimTemplate
