import SlimTemplate.Files.Writing
import SlimTemplate.Proofs.FileTree.Retention
import SlimTemplate.Proofs.Files.Action

/-!
How the writing of an output ends, step by step: what each step finds in the files, what it ends
with and the files that it leaves. Every step has exactly one ending.
-/

namespace SlimTemplate.Files

open FileTree SlimTemplate.Action

def temporaryOf (output : Path) : Path :=
  output.parent.child (output.name ++ temporarySuffix)

theorem withName_eq_ok {p q : Path} {name : String} (h : p.withName name = .ok q) :
    p.parts ≠ [] ∧ q = p.parent.child name := by
  rw [Path.withName] at h
  split at h <;> cases h
  exact ⟨‹_›, rfl⟩

inductive DirectoryEnding (tree : FileTree) (directory : Path) :
    Except Trouble Unit → FileTree → Prop
  | unseen {e : OsError} (h : tree.isDirectory directory = .error e) :
      DirectoryEnding tree directory (.error (.fault (.os e))) tree
  | failed {e : OsError} {made : FileTree} (hseen : ∀ e, tree.isDirectory directory ≠ .error e)
      (h : tree.createDirectories directory = (made, .error e)) :
      DirectoryEnding tree directory (.error (.ofOs (.directory directory) e)) made
  | made {made : FileTree} (hseen : ∀ e, tree.isDirectory directory ≠ .error e)
      (h : tree.createDirectories directory = (made, .ok ())) :
      DirectoryEnding tree directory (.ok ()) made

inductive BackupEnding (tree : FileTree) (source : Path) :
    Except Trouble (Option Path) → FileTree → Prop
  | unseen {e : OsError} (h : tree.isPresent source = .error e) :
      BackupEnding tree source (.error (.fault (.os e))) tree
  | absent (h : tree.isPresent source = .ok false) : BackupEnding tree source (.ok none) tree
  | unnamed {fault : Fault} (hpresent : tree.isPresent source = .ok true)
      (h : freeBackup tree source (tree.entries.length + 1) 0 = .error fault) :
      BackupEnding tree source (.error (.fault fault)) tree
  | failed {path : Path} {e : OsError} (hpresent : tree.isPresent source = .ok true)
      (hpath : freeBackup tree source (tree.entries.length + 1) 0 = .ok path)
      (h : tree.copyFile source path = .error e) :
      BackupEnding tree source (.error (.ofOs (.backup source) e)) tree
  | copied {path : Path} {after : FileTree} (hpresent : tree.isPresent source = .ok true)
      (hpath : freeBackup tree source (tree.entries.length + 1) 0 = .ok path)
      (h : tree.copyFile source path = .ok after) :
      BackupEnding tree source (.ok (some path)) after

inductive PlacingEnding (tree : FileTree) (output : Path) (content : Text.Bytes) :
    Except Trouble Unit → FileTree → Prop
  | unseen {e : OsError} (h : tree.isWritable output.parent = .error e) :
      PlacingEnding tree output content (.error (.fault (.os e))) tree
  | noAccess (h : tree.isWritable output.parent = .ok false) :
      PlacingEnding tree output content (.error (.failure (.noAccess output))) tree
  | unnamed {e : Path.EmptyName} (haccess : tree.isWritable output.parent = .ok true)
      (h : output.withName (output.name ++ temporarySuffix) = .error e) :
      PlacingEnding tree output content (.error (.fault (.emptyName e))) tree
  | placed {after : FileTree} (haccess : tree.isWritable output.parent = .ok true)
      (hname : output.parts ≠ [])
      (h : placeFile tree (temporaryOf output) output content = (after, .ok ())) :
      PlacingEnding tree output content (.ok ()) after
  | lost {e e' : OsError} {between : FileTree}
      (haccess : tree.isWritable output.parent = .ok true) (hname : output.parts ≠ [])
      (hfailed : placeFile tree (temporaryOf output) output content = (between, .error e))
      (h : between.isPresent (temporaryOf output) = .error e') :
      PlacingEnding tree output content (.error (.fault (.os e'))) between
  | clear {e : OsError} {between : FileTree}
      (haccess : tree.isWritable output.parent = .ok true) (hname : output.parts ≠ [])
      (hfailed : placeFile tree (temporaryOf output) output content = (between, .error e))
      (h : between.isPresent (temporaryOf output) = .ok false) :
      PlacingEnding tree output content (.error (.ofOs (.write output) e)) between
  | stuck {e e' : OsError} {between : FileTree}
      (haccess : tree.isWritable output.parent = .ok true) (hname : output.parts ≠ [])
      (hfailed : placeFile tree (temporaryOf output) output content = (between, .error e))
      (hpresent : between.isPresent (temporaryOf output) = .ok true)
      (h : between.removeFile (temporaryOf output) = .error e') :
      PlacingEnding tree output content (.error (.fault (.os e'))) between
  | cleared {e : OsError} {between after : FileTree}
      (haccess : tree.isWritable output.parent = .ok true) (hname : output.parts ≠ [])
      (hfailed : placeFile tree (temporaryOf output) output content = (between, .error e))
      (hpresent : between.isPresent (temporaryOf output) = .ok true)
      (h : between.removeFile (temporaryOf output) = .ok after) :
      PlacingEnding tree output content (.error (.ofOs (.write output) e)) after

inductive DeletionEnding (tree : FileTree) (source output : Path) :
    Except Trouble Bool → FileTree → Prop
  | unseen {e : OsError} (h : tree.isPresent source = .error e) :
      DeletionEnding tree source output (.error (.fault (.os e))) tree
  | absent (h : tree.isPresent source = .ok false) :
      DeletionEnding tree source output (.ok false) tree
  | unresolved {e : ResolveError} (hpresent : tree.isPresent source = .ok true)
      (h : tree.resolve source = .error e) :
      DeletionEnding tree source output (.error (.fault (.resolve e))) tree
  | looped {place : Path} {e : ResolveError} (hpresent : tree.isPresent source = .ok true)
      (hsource : tree.resolve source = .ok place) (h : tree.resolve output = .error e) :
      DeletionEnding tree source output (.error (.fault (.resolve e))) tree
  | same {place : Path} (hpresent : tree.isPresent source = .ok true)
      (hsource : tree.resolve source = .ok place) (houtput : tree.resolve output = .ok place) :
      DeletionEnding tree source output (.ok false) tree
  | failed {place place' : Path} {e : OsError} (hpresent : tree.isPresent source = .ok true)
      (hsource : tree.resolve source = .ok place) (houtput : tree.resolve output = .ok place')
      (hother : place ≠ place') (h : tree.removeFile source = .error e) :
      DeletionEnding tree source output (.error (.ofOs (.deletion source) e)) tree
  | deleted {place place' : Path} {after : FileTree} (hpresent : tree.isPresent source = .ok true)
      (hsource : tree.resolve source = .ok place) (houtput : tree.resolve output = .ok place')
      (hother : place ≠ place') (h : tree.removeFile source = .ok after) :
      DeletionEnding tree source output (.ok true) after

/-- The directory of an output is there, and the source is backed up if that is asked for. -/
inductive Prepared (tree : FileTree) (source output : Path) (keep : Bool) :
    Option Path → FileTree → Prop
  | plain {made : FileTree} (hmade : DirectoryEnding tree output.parent (.ok ()) made)
      (hkeep : keep = false) : Prepared tree source output keep none made
  | backedUp {backup : Option Path} {made after : FileTree}
      (hmade : DirectoryEnding tree output.parent (.ok ()) made) (hkeep : keep = true)
      (hbackup : BackupEnding made source (.ok backup) after) :
      Prepared tree source output keep backup after

inductive OutputEnding (tree : FileTree) (source output : Path) (content : Text.Bytes)
    (keep delete : Bool) : Except Trouble Written → FileTree → Prop
  | directory {trouble : Trouble} {after : FileTree}
      (h : DirectoryEnding tree output.parent (.error trouble) after) :
      OutputEnding tree source output content keep delete (.error trouble) after
  | backup {trouble : Trouble} {made after : FileTree}
      (hmade : DirectoryEnding tree output.parent (.ok ()) made) (hkeep : keep = true)
      (h : BackupEnding made source (.error trouble) after) :
      OutputEnding tree source output content keep delete (.error trouble) after
  | placing {trouble : Trouble} {backup : Option Path} {prepared after : FileTree}
      (hprepared : Prepared tree source output keep backup prepared)
      (h : PlacingEnding prepared output content (.error trouble) after) :
      OutputEnding tree source output content keep delete (.error trouble) after
  | deletion {trouble : Trouble} {backup : Option Path} {prepared placed after : FileTree}
      (hprepared : Prepared tree source output keep backup prepared)
      (hplaced : PlacingEnding prepared output content (.ok ()) placed) (hdelete : delete = true)
      (h : DeletionEnding placed source output (.error trouble) after) :
      OutputEnding tree source output content keep delete (.error trouble) after
  | kept {backup : Option Path} {prepared placed : FileTree}
      (hprepared : Prepared tree source output keep backup prepared)
      (hplaced : PlacingEnding prepared output content (.ok ()) placed)
      (hdelete : delete = false) :
      OutputEnding tree source output content keep delete (.ok ⟨output, backup, false⟩) placed
  | decided {backup : Option Path} {deleted : Bool} {prepared placed after : FileTree}
      (hprepared : Prepared tree source output keep backup prepared)
      (hplaced : PlacingEnding prepared output content (.ok ()) placed) (hdelete : delete = true)
      (h : DeletionEnding placed source output (.ok deleted) after) :
      OutputEnding tree source output content keep delete (.ok ⟨output, backup, deleted⟩) after

section Endings

variable {tree : FileTree} {source output directory : Path}

theorem createDirectories_of_isDirectory (h : tree.isDirectory directory = .ok true) :
    tree.createDirectories directory = (tree, .ok ()) := by
  obtain ⟨location, entry, htarget, -⟩ := probe_eq_true h
  obtain ⟨location', entry', hentry, -⟩ := locate_entry_of_target htarget
  have hmade : tree.createDirectory directory = .error ⟨.alreadyExists, directory.text, none⟩ := by
    rw [createDirectory, hentry]
  rw [createDirectories, hmade]
  simp [excuseDirectory, h]

theorem ensureDirectory_ending (world : World) (directory : Path) :
    Ensures (ensureDirectory directory) world fun result after =>
      DirectoryEnding world.tree directory result after.tree := by
  rw [ensureDirectory]
  simp only [ensures_bind, ensures_lift, ensures_probe]
  cases hseen : world.tree.isDirectory directory with
  | error e => exact .unseen hseen
  | ok found =>
      have hanswered : ∀ e, world.tree.isDirectory directory ≠ .error e := by simp [hseen]
      cases found with
      | true => exact .made hanswered (createDirectories_of_isDirectory hseen)
      | false =>
          simp only [Except.mapError, note, record, Bool.false_eq_true, ite_false, ensures_bind,
            ensures_recordAll, ensures_tree, ensures_setTree, ensures_orThrow]
          generalize hmade : world.tree.createDirectories directory = made
          obtain ⟨tree, result⟩ := made
          cases result with
          | error e => exact .failed hanswered hmade
          | ok _ => exact .made hanswered hmade

theorem backUp_ending (world : World) (source : Path) :
    Ensures (backUp source) world fun result after =>
      BackupEnding world.tree source result after.tree := by
  rw [backUp]
  simp only [ensures_bind, ensures_lift, ensures_probe]
  cases hpresent : world.tree.isPresent source with
  | error e => exact .unseen hpresent
  | ok present =>
      cases present with
      | false => exact .absent hpresent
      | true =>
          simp only [Except.mapError, ite_true, createBackup, ensures_bind, ensures_tree,
            ensures_orThrow, ensures_change, ensures_pure]
          cases hsearch : freeBackup world.tree source (world.tree.entries.length + 1) 0 with
          | error fault => exact .unnamed hpresent hsearch
          | ok path =>
              dsimp only [Except.mapError]
              cases hcopy : world.tree.copyFile source path with
              | error e => exact .failed hpresent hsearch hcopy
              | ok after => exact .copied hpresent hsearch hcopy

theorem placeFile_eq_ok {temporary : Path} {content : Text.Bytes} {after : FileTree}
    (h : placeFile tree temporary output content = (after, .ok ())) :
    ∃ written, tree.writeFile temporary content = .ok written ∧
      written.rename temporary output = .ok after := by
  rw [placeFile] at h
  split at h
  · cases h
  rename_i written hwrite
  split at h <;> cases h
  exact ⟨written, hwrite, ‹_›⟩

/-- A file that could not be placed was not written, or stays under its temporary name. -/
theorem placeFile_eq_error {temporary : Path} {content : Text.Bytes} {between : FileTree}
    {e : OsError} (h : placeFile tree temporary output content = (between, .error e)) :
    tree.writeFile temporary content = .error e ∧ between = tree ∨
      tree.writeFile temporary content = .ok between ∧
        between.rename temporary output = .error e := by
  rw [placeFile] at h
  split at h
  · cases h
    exact .inl ⟨‹_›, rfl⟩
  rename_i written hwrite
  split at h <;> cases h
  exact .inr ⟨hwrite, ‹_›⟩

theorem encode_plain (s : String) : (AnyText.plain s).encode = .ok (Text.encode s) :=
  rfl

theorem giveUp_ensures {world : World} {temporary : Path} {trouble : Trouble}
    {post : Except Trouble Unit → World → Prop}
    (hlost : ∀ e, world.tree.isPresent temporary = .error e →
      post (.error (.fault (.os e))) world)
    (hclear : world.tree.isPresent temporary = .ok false → post (.error trouble) world)
    (hstuck : ∀ e, world.tree.isPresent temporary = .ok true →
      world.tree.removeFile temporary = .error e → post (.error (.fault (.os e))) world)
    (hcleared : ∀ after, world.tree.isPresent temporary = .ok true →
      world.tree.removeFile temporary = .ok after →
        post (.error trouble) { world with tree := after }) :
    Ensures (giveUp temporary trouble) world post := by
  rw [giveUp]
  simp only [ensures_bind, ensures_lift, ensures_probe]
  cases hpresent : world.tree.isPresent temporary with
  | error e => exact hlost e hpresent
  | ok present =>
      cases present with
      | false => exact hclear hpresent
      | true =>
          simp only [Except.mapError, ite_true, ensures_bind, ensures_change]
          cases hremove : world.tree.removeFile temporary with
          | error e => exact hstuck e hpresent hremove
          | ok after => exact hcleared after hpresent hremove

theorem atomicWrite_ensures {world : World} {output : Path} {content : AnyText}
    {post : Except Trouble Unit → World → Prop}
    (hunseen : ∀ e, world.tree.isWritable output.parent = .error e →
      post (.error (.fault (.os e))) world)
    (hnoAccess : world.tree.isWritable output.parent = .ok false →
      post (.error (.failure (.noAccess output))) world)
    (hunnamed : ∀ e, world.tree.isWritable output.parent = .ok true →
      output.withName (output.name ++ temporarySuffix) = .error e →
        post (.error (.fault (.emptyName e))) world)
    (hnamed : world.tree.isWritable output.parent = .ok true → output.parts ≠ [] →
      Ensures (putInPlace (temporaryOf output) output content) world post) :
    Ensures (atomicWrite output content) world post := by
  rw [atomicWrite]
  simp only [ensures_bind, ensures_lift, ensures_probe]
  cases haccess : world.tree.isWritable output.parent with
  | error e => exact hunseen e haccess
  | ok writable =>
      cases writable with
      | false => exact hnoAccess haccess
      | true =>
          simp only [Except.mapError, Bool.not_true, Bool.false_eq_true, ite_false, ensures_bind,
            ensures_orThrow]
          cases htemporary : output.withName (output.name ++ temporarySuffix) with
          | error e => exact hunnamed e haccess htemporary
          | ok temporary =>
              obtain ⟨hname, heq⟩ := withName_eq_ok htemporary
              obtain rfl : temporary = temporaryOf output := heq
              exact hnamed haccess hname

theorem atomicWrite_ending (world : World) (output : Path) (content : String) :
    Ensures (atomicWrite output content) world fun result after =>
      PlacingEnding world.tree output (Text.encode content) result after.tree := by
  refine atomicWrite_ensures (fun _ => .unseen) .noAccess (fun _ => .unnamed)
    fun haccess hname => ?_
  rw [putInPlace]
  simp only [encode_plain, ensures_bind, ensures_tree]
  generalize hplace : placeFile world.tree (temporaryOf output) output
    (Text.encode content) = placed
  obtain ⟨tree, result⟩ := placed
  simp only [ensures_setTree]
  cases result with
  | ok _ => exact .placed haccess hname hplace
  | error e =>
      exact giveUp_ensures (fun _ => .lost haccess hname hplace) (.clear haccess hname hplace)
        (fun _ => .stuck haccess hname hplace) (fun _ => .cleared haccess hname hplace)

theorem deleteSource_ending (world : World) (source output : Path) :
    Ensures (deleteSource source output) world fun result after =>
      DeletionEnding world.tree source output result after.tree := by
  rw [deleteSource]
  simp only [ensures_bind, ensures_lift, ensures_probe]
  cases hpresent : world.tree.isPresent source with
  | error e => exact .unseen hpresent
  | ok present =>
      cases present with
      | false => exact .absent hpresent
      | true =>
          simp only [Except.mapError, Bool.not_true, Bool.false_eq_true, ite_false, ensures_bind,
            ensures_tree, ensures_orThrow]
          cases hsource : world.tree.resolve source with
          | error e => exact .unresolved hpresent hsource
          | ok place =>
              cases houtput : world.tree.resolve output with
              | error e => exact .looped hpresent hsource houtput
              | ok place' =>
                  dsimp only [Except.mapError]
                  split
                  · rename_i hsame
                    subst hsame
                    exact .same hpresent hsource houtput
                  · rename_i hother
                    simp only [ensures_bind, ensures_change, ensures_pure]
                    cases hremove : world.tree.removeFile source with
                    | error e => exact .failed hpresent hsource houtput hother hremove
                    | ok after => exact .deleted hpresent hsource houtput hother hremove

theorem writeOutput_ending {outputDirectory : Option String} {root : Option Path}
    (houtput : outputPath source outputDirectory root = .ok output) (world : World)
    (content : String) (keep delete : Bool) :
    Ensures (writeOutput source content keep delete outputDirectory root) world
      fun result after =>
        OutputEnding world.tree source output (Text.encode content) keep delete result
          after.tree := by
  have hplace : ∀ (backup : Option Path) (between : World),
      Prepared world.tree source output keep backup between.tree →
      Ensures (do
          atomicWrite output content
          let deleted ← if delete then deleteSource source output else pure false
          return (⟨output, backup, deleted⟩ : Written)) between
        fun result after =>
          OutputEnding world.tree source output (Text.encode content) keep delete result
            after.tree := by
    intro backup between hprepared
    refine (atomicWrite_ending between output content).bind (fun _ placed hplaced => ?_)
      (fun _ placed hfailed => .placing hprepared hfailed)
    cases delete with
    | false => exact .kept hprepared hplaced rfl
    | true =>
        exact (deleteSource_ending placed source output).bind
          (fun deleted last hlast => .decided hprepared hplaced rfl hlast)
          (fun _ last hlast => .deletion hprepared hplaced rfl hlast)
  rw [writeOutput, houtput]
  refine (ensureDirectory_ending world output.parent).bind (fun _ made hmade => ?_)
    (fun _ made hfailed => .directory hfailed)
  cases keep with
  | false => exact hplace none made (.plain hmade rfl)
  | true =>
      exact (backUp_ending made source).bind
        (fun backup copied hcopied => hplace backup copied (.backedUp hmade rfl hcopied))
        (fun _ copied hfailed => .backup hmade rfl hfailed)

end Endings

section Journal

theorem addsNotes_ensureDirectory (directory : Path) : AddsNotes (ensureDirectory directory) := by
  rw [ensureDirectory]
  refine (addsNotes_probe isDirectory directory).lift.bind fun found => ?_
  cases found with
  | true => exact addsNotes_pure ()
  | false =>
      refine (addsNotes_note _ _ _).bind fun _ => addsNotes_tree.bind fun tree => ?_
      exact (addsNotes_setTree _).bind fun _ => addsNotes_orThrow _ _

theorem addsNotes_backUp (source : Path) : AddsNotes (backUp source) := by
  rw [backUp]
  refine (addsNotes_probe isPresent source).lift.bind fun found => ?_
  cases found with
  | false => exact addsNotes_pure none
  | true =>
      refine AddsNotes.bind (addsNotes_tree.bind fun tree => ?_)
        fun path => addsNotes_pure (some path)
      refine (addsNotes_orThrow _ _).bind fun path => ?_
      exact (addsNotes_change _ _).bind fun _ => addsNotes_pure path

theorem addsNotes_giveUp (temporary : Path) (trouble : Trouble) :
    AddsNotes (giveUp temporary trouble) := by
  rw [giveUp]
  refine (addsNotes_probe isPresent temporary).lift.bind fun present => ?_
  cases present with
  | false => exact addsNotes_throw _
  | true => exact (addsNotes_change _ _).bind fun _ => addsNotes_throw _

theorem addsNotes_putInPlace (temporary target : Path) (content : AnyText) :
    AddsNotes (putInPlace temporary target content) := by
  rw [putInPlace]
  refine addsNotes_tree.bind fun tree => ?_
  split
  refine (addsNotes_setTree _).bind fun _ => ?_
  split
  · exact addsNotes_giveUp temporary _
  · exact addsNotes_throw _
  · exact addsNotes_pure ()

theorem addsNotes_atomicWrite (output : Path) (content : AnyText) :
    AddsNotes (atomicWrite output content) := by
  rw [atomicWrite]
  refine (addsNotes_probe isWritable output.parent).lift.bind fun writable => ?_
  cases writable with
  | false => exact addsNotes_throw _
  | true =>
      exact (addsNotes_orThrow _ _).bind fun temporary =>
        addsNotes_putInPlace temporary output content

theorem addsNotes_deleteSource (source output : Path) : AddsNotes (deleteSource source output) := by
  rw [deleteSource]
  refine (addsNotes_probe isPresent source).lift.bind fun found => ?_
  cases found with
  | false => exact addsNotes_pure false
  | true =>
      refine addsNotes_tree.bind fun tree => (addsNotes_orThrow _ _).bind fun place => ?_
      refine (addsNotes_orThrow _ _).bind fun place' => ?_
      split
      · exact addsNotes_pure false
      · exact (addsNotes_change _ _).bind fun _ => addsNotes_pure true

theorem addsNotes_writeOutput (source : Path) (content : AnyText) (keep delete : Bool)
    (outputDirectory : Option String) (root : Option Path) :
    AddsNotes (writeOutput source content keep delete outputDirectory root) := by
  rw [writeOutput]
  refine (addsNotes_orThrow _ _).bind fun output => ?_
  have hplace : ∀ backup, AddsNotes (do
      atomicWrite output content
      let deleted ← if delete then deleteSource source output else pure false
      return (⟨output, backup, deleted⟩ : Written)) := by
    intro backup
    refine (addsNotes_atomicWrite output content).bind fun _ => ?_
    cases delete with
    | false => exact addsNotes_pure _
    | true => exact (addsNotes_deleteSource source output).bind fun _ => addsNotes_pure _
  refine (addsNotes_ensureDirectory output.parent).bind fun _ => ?_
  cases keep with
  | false => exact hplace none
  | true => exact (addsNotes_backUp source).bind hplace

end Journal

section Unique

variable {tree after after' : FileTree} {source output directory : Path} {content : Text.Bytes}
  {keep delete : Bool}

theorem DirectoryEnding.unique {result result' : Except Trouble Unit}
    (h : DirectoryEnding tree directory result after)
    (h' : DirectoryEnding tree directory result' after') : result' = result ∧ after' = after := by
  cases h <;> cases h' <;> simp_all

theorem BackupEnding.unique {result result' : Except Trouble (Option Path)}
    (h : BackupEnding tree source result after)
    (h' : BackupEnding tree source result' after') : result' = result ∧ after' = after := by
  cases h <;> cases h' <;> simp_all

theorem PlacingEnding.unique {result result' : Except Trouble Unit}
    (h : PlacingEnding tree output content result after)
    (h' : PlacingEnding tree output content result' after') :
    result' = result ∧ after' = after := by
  cases h <;> cases h' <;> simp_all [Path.withName]

theorem DeletionEnding.unique {result result' : Except Trouble Bool}
    (h : DeletionEnding tree source output result after)
    (h' : DeletionEnding tree source output result' after') :
    result' = result ∧ after' = after := by
  cases h <;> cases h' <;> simp_all

theorem Prepared.exists_made {backup : Option Path}
    (h : Prepared tree source output keep backup after) :
    ∃ made, DirectoryEnding tree output.parent (.ok ()) made := by
  cases h with
  | plain hmade _ => exact ⟨_, hmade⟩
  | backedUp hmade _ _ => exact ⟨_, hmade⟩

theorem Prepared.backedUp_of {backup : Option Path} {made : FileTree}
    (h : Prepared tree source output keep backup after) (hkeep : keep = true)
    (hmade : DirectoryEnding tree output.parent (.ok ()) made) :
    BackupEnding made source (.ok backup) after := by
  cases h with
  | plain _ hnot => cases hkeep.symm.trans hnot
  | backedUp hmade' _ hbackup =>
      obtain ⟨-, rfl⟩ := hmade'.unique hmade
      exact hbackup

theorem Prepared.unique {backup backup' : Option Path}
    (h : Prepared tree source output keep backup after)
    (h' : Prepared tree source output keep backup' after') :
    backup' = backup ∧ after' = after := by
  cases h with
  | plain hmade hkeep =>
      cases h' with
      | plain hmade' _ => exact ⟨rfl, (hmade.unique hmade').2⟩
      | backedUp _ hkeep' _ => cases hkeep.symm.trans hkeep'
  | backedUp hmade hkeep hbackup =>
      obtain ⟨hresult, hafter⟩ := hbackup.unique (h'.backedUp_of hkeep hmade)
      exact ⟨Except.ok.inj hresult, hafter⟩

/-- Where the writing ends in trouble, it ends in no other way. -/
theorem OutputEnding.unique_error {trouble : Trouble} {result : Except Trouble Written}
    (h : OutputEnding tree source output content keep delete (.error trouble) after)
    (h' : OutputEnding tree source output content keep delete result after') :
    result = .error trouble := by
  cases h with
  | directory h =>
      have hnever : ∀ {made}, ¬ DirectoryEnding tree output.parent (.ok ()) made := by
        intro made hmade
        cases (h.unique hmade).1
      cases h' with
      | directory h' => exact congrArg _ (Except.error.inj (h.unique h').1)
      | backup hmade _ _ => exact absurd hmade hnever
      | placing hprepared _ | deletion hprepared _ _ _ | kept hprepared _ _
      | decided hprepared _ _ _ => exact absurd hprepared.exists_made.choose_spec hnever
  | backup hmade hkeep h =>
      have hnever : ∀ {backup prepared},
          ¬ Prepared tree source output keep backup prepared := by
        intro backup prepared hprepared
        cases (h.unique (hprepared.backedUp_of hkeep hmade)).1
      cases h' with
      | directory h' => cases (hmade.unique h').1
      | backup hmade' _ h' =>
          obtain ⟨-, rfl⟩ := hmade.unique hmade'
          exact congrArg _ (Except.error.inj (h.unique h').1)
      | placing hprepared _ | deletion hprepared _ _ _ | kept hprepared _ _
      | decided hprepared _ _ _ => exact absurd hprepared hnever
  | placing hprepared h =>
      have hnever : ∀ {backup prepared placed},
          Prepared tree source output keep backup prepared →
          ¬ PlacingEnding prepared output content (.ok ()) placed := by
        intro backup prepared placed hprepared' hplaced
        obtain ⟨-, rfl⟩ := hprepared.unique hprepared'
        cases (h.unique hplaced).1
      cases h' with
      | directory h' => cases (hprepared.exists_made.choose_spec.unique h').1
      | backup hmade hkeep h' => cases ((hprepared.backedUp_of hkeep hmade).unique h').1
      | placing hprepared' h' =>
          obtain ⟨-, rfl⟩ := hprepared.unique hprepared'
          exact congrArg _ (Except.error.inj (h.unique h').1)
      | deletion hprepared' hplaced _ _ | kept hprepared' hplaced _
      | decided hprepared' hplaced _ _ => exact absurd hplaced (hnever hprepared')
  | deletion hprepared hplaced hdelete h =>
      cases h' with
      | directory h' => cases (hprepared.exists_made.choose_spec.unique h').1
      | backup hmade hkeep h' => cases ((hprepared.backedUp_of hkeep hmade).unique h').1
      | placing hprepared' h' =>
          obtain ⟨-, rfl⟩ := hprepared.unique hprepared'
          cases (hplaced.unique h').1
      | kept _ _ hnot => cases hdelete.symm.trans hnot
      | deletion hprepared' hplaced' _ h' =>
          obtain ⟨-, rfl⟩ := hprepared.unique hprepared'
          obtain ⟨-, rfl⟩ := hplaced.unique hplaced'
          exact congrArg _ (Except.error.inj (h.unique h').1)
      | decided hprepared' hplaced' _ h' =>
          obtain ⟨-, rfl⟩ := hprepared.unique hprepared'
          obtain ⟨-, rfl⟩ := hplaced.unique hplaced'
          cases (h.unique h').1

end Unique

end SlimTemplate.Files
