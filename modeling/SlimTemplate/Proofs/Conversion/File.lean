import SlimTemplate.Proofs.Conversion.Stages
import SlimTemplate.Proofs.Files.Writing

/-!
Reports account for the files. Whatever happens to a source, no file but output and temporary files
is overwritten, and a file is gone only if a report says so and names a backup that holds its
content. This composes over several reports.
-/

namespace SlimTemplate

open FileTree Files SlimTemplate.Action

def Report.address (working : Location) (report : Report) : Location :=
  (Path.ofText report.filePath).address working

/-- Reports on sources with an extension account for what became of the files. -/
structure Accounts (extension : String) (reports : List Report) (before after : FileTree) :
    Prop where
  evolves : Evolves
    (fun location => Disposable location ∨
      ∃ report ∈ reports, report.deleted = true ∧ report.address before.working = location)
    (fun location => Disposable location ∨ EndsIn ".backup" location) before after
  isSource : ∀ report ∈ reports, report.deleted = true →
    IsSource extension (report.address before.working)
  gone : ∀ report ∈ reports, report.deleted = true →
    ∀ content, after.get? (report.address before.working) ≠ some (.file content)
  backedUp : ∀ report ∈ reports, report.deleted = true → ∃ backup content,
    report.backup = some backup ∧ EndsIn ".backup" ((Path.ofText backup).address before.working) ∧
      before.get? (report.address before.working) = some (.file content) ∧
      after.readFile (.ofText backup) = .ok content

/-- Where no source was deleted there is nothing to account for. -/
theorem accounts_of_evolves {extension : String} {reports : List Report} {before after : FileTree}
    (h : Evolves Disposable (fun location => Disposable location ∨ EndsIn ".backup" location)
      before after)
    (hreports : ∀ report ∈ reports, report.deleted = false) :
    Accounts extension reports before after := by
  have hnone : ∀ report ∈ reports, report.deleted ≠ true := by
    intro report hreport
    simp [hreports report hreport]
  exact {
    evolves := h.mono (fun _ => .inl) (fun _ => id)
    isSource := fun report hreport hdeleted => absurd hdeleted (hnone report hreport)
    gone := fun report hreport hdeleted => absurd hdeleted (hnone report hreport)
    backedUp := fun report hreport hdeleted => absurd hdeleted (hnone report hreport) }

/-- The report on a converted source accounts for it. -/
theorem accounts_of_converts {extension : String} {report : Report} {source : Path}
    {backup : Option Path} {before after : FileTree} (hsound : before.Sound)
    (hsource : source.Proper) (hextension : IsSource extension (source.address before.working))
    (hpath : report.filePath = source.text) (hbackup : report.backup = backup.map Path.text)
    (h : Converts source backup report.deleted before after) :
    Accounts extension [report] before after := by
  have haddress : report.address before.working = source.address before.working := by
    rw [Report.address, hpath, Path.ofText_text hsource]
  refine ⟨h.evolves.mono ?_ (fun _ => id), ?_, ?_, ?_⟩
  · rintro location (hdisposable | ⟨hdeleted, rfl⟩)
    · exact .inl hdisposable
    · exact .inr ⟨report, List.mem_singleton_self _, hdeleted, haddress⟩
  · rintro other hother -
    rw [List.mem_singleton.mp hother, haddress]
    exact hextension
  · intro other hother hdeleted content
    rw [List.mem_singleton.mp hother] at hdeleted ⊢
    rw [haddress, h.gone hdeleted]
    simp
  · intro other hother hdeleted
    rw [List.mem_singleton.mp hother] at hdeleted ⊢
    obtain ⟨path, rfl, ⟨i, rfl⟩, content, hread, hcopy⟩ := h.backedUp hdeleted
    have hwritten := isWritten_backup hsource i
    obtain ⟨location, hreaches⟩ := (readFile_eq_ok_iff hsound.linkFree).mp hread
    refine ⟨_, content, hbackup, ?_⟩
    rw [Path.ofText_text hwritten.proper, haddress]
    exact ⟨hwritten.ends before.working, hreaches.entry_eq, hcopy⟩

/-- Accounts of one run after another add up. -/
theorem Accounts.append {extension : String} {reports reports' : List Report}
    {before between after : FileTree} (hdotted : extension.toList.head? = some '.')
    (hsafe : IsSafe extension) (hsound : before.Sound)
    (h : Accounts extension reports before between)
    (h' : Accounts extension reports' between after) :
    Accounts extension (reports ++ reports') before after := by
  have hworking := h.evolves.working
  obtain ⟨hevolves', hsource', hgone', hbackedUp'⟩ := h'
  rw [hworking] at hevolves' hsource' hgone' hbackedUp'
  have hmade : ∀ location, IsSource extension location →
      ¬ (Disposable location ∨ EndsIn ".backup" location) := by
    rintro location hlocation (hdisposable | hends)
    · exact hlocation.not_disposable hdotted hsafe hdisposable
    · exact hlocation.not_endsIn hdotted hsafe (by decide) hends
  refine ⟨?_, ?_, ?_, ?_⟩
  · refine (h.evolves.mono ?_ (fun _ => id)).trans (hevolves'.mono ?_ (fun _ => id))
    · rintro location (hdisposable | ⟨report, hreport, hdeleted⟩)
      · exact .inl hdisposable
      · exact .inr ⟨report, List.mem_append_left _ hreport, hdeleted⟩
    · rintro location (hdisposable | ⟨report, hreport, hdeleted⟩)
      · exact .inl hdisposable
      · exact .inr ⟨report, List.mem_append_right _ hreport, hdeleted⟩
  · intro report hreport
    exact (List.mem_append.mp hreport).elim (h.isSource report) (hsource' report)
  · intro report hreport hdeleted content
    cases List.mem_append.mp hreport with
    | inl hmem =>
        intro hfile
        have hnot := hmade _ (h.isSource report hmem hdeleted)
        exact h.gone report hmem hdeleted content (hevolves'.found _ content hnot hfile)
    | inr hmem => exact hgone' report hmem hdeleted content
  · intro report hreport hdeleted
    cases List.mem_append.mp hreport with
    | inl hmem =>
        obtain ⟨backup, content, hbackup, hends, hfile, hread⟩ := h.backedUp report hmem hdeleted
        refine ⟨backup, content, hbackup, hends, hfile, ?_⟩
        refine hevolves'.readFile (h.evolves.sound hsound) ?_ hread
        rw [hworking]
        rintro (hdisposable | ⟨other, hother, hgone, heq⟩)
        · exact not_disposable_of_backup hends hdisposable
        · exact (hsource' other hother hgone).not_endsIn hdotted hsafe (by decide) (heq ▸ hends)
    | inr hmem =>
        obtain ⟨backup, content, hbackup, hends, hfile, hread⟩ := hbackedUp' report hmem hdeleted
        have hnot := hmade _ (hsource' report hmem hdeleted)
        exact ⟨backup, content, hbackup, hends, h.evolves.found _ content hnot hfile, hread⟩

namespace ConvertFile

def reportsOf : Except Fault Report → List Report
  | .ok report => [report]
  | .error _ => []

theorem mem_reportsOf {result : Except Fault Report} {report : Report} :
    report ∈ reportsOf result ↔ result = .ok report := by
  cases result with
  | ok other => simp [reportsOf, eq_comm]
  | error fault => simp [reportsOf]

/-- A source that is there, to be converted under settings that keep backups and tell sources from
other files. -/
structure Ready (config : Config) (source : Path) (tree : FileTree) : Prop where
  sound : tree.Sound
  proper : source.Proper
  keeps : config.createBackup = true
  safe : IsSafe config.extension
  isSource : IsSource config.extension (source.address tree.working)
  there : ∃ location bytes, Reaches tree source (.taken location (.file bytes))

/-- A file whose name has the extension lies where a source can. -/
theorem isSource_of_isFile {extension : String} {source : Path} {tree : FileTree}
    (hdotted : extension.toList.head? = some '.') (hsound : tree.Sound)
    (hextension : hasExtension source.name extension = true)
    (hfile : tree.isFile source = .ok true) :
    IsSource extension (source.address tree.working) := by
  obtain ⟨location, bytes, hreaches⟩ := isFile_eq_true hsound hfile
  have hparts := parts_ne_nil_of_hasExtension hdotted hextension
  rw [hreaches.address_of_file hsound hparts]
  exact isSource_concat hextension

theorem ready_of_isFile {config : Config} {source : Path} {tree : FileTree}
    (hsound : tree.Sound) (hproper : source.Proper) (hkeeps : config.createBackup = true)
    (hsafe : IsSafe config.extension)
    (hextension : hasExtension source.name config.extension = true)
    (hfile : tree.isFile source = .ok true) : Ready config source tree :=
  ⟨hsound, hproper, hkeeps, hsafe,
    isSource_of_isFile config.extension_dotted hsound hextension hfile,
    isFile_eq_true hsound hfile⟩

section Ready

variable {config : Config} {source : Path} {world : World}

theorem write_ensures (hready : Ready config source world.tree) (root : Option Path)
    (text : String) {report : Report} (hpath : report.filePath = source.text)
    (hkept : report.deleted = false) :
    Ensures (write config source root text report) world fun result after =>
      Accounts config.extension (reportsOf result) world.tree after.tree := by
  obtain ⟨hsound, hproper, hkeeps, hsafe, hsource, location, bytes, hthere⟩ := hready
  have hnot := hsource.not_endsIn config.extension_dotted hsafe (by decide : ".backup" ∈ _)
  rw [write, hkeeps]
  refine ensures_bind.mpr (ensures_attempt.mpr ?_)
  refine (writeOutput_ensures hsound hproper hnot hthere text config.deleteSource
    config.outputDirectory root).mono fun result after hpost => ?_
  cases result with
  | ok written => exact accounts_of_converts hsound hproper hsource hpath rfl hpost
  | error trouble =>
      have hevolves : Evolves Disposable
          (fun location => Disposable location ∨ EndsIn ".backup" location)
          world.tree after.tree := hpost.evolves.mono (by simp [Except.toOption]) (fun _ => id)
      cases trouble with
      | fault fault => exact accounts_of_evolves hevolves (List.forall_mem_nil _)
      | failure failure =>
          refine accounts_of_evolves hevolves fun other hother => ?_
          cases List.mem_singleton.mp hother
          exact hkept

end Ready

end ConvertFile

open ConvertFile in
/-- The report on a file, or the lack of one, accounts for what became of the files. -/
theorem convertFile_ensures {config : Config} {source : Path} {world : World}
    (hsound : world.tree.Sound) (hproper : source.Proper) (hkeeps : config.createBackup = true)
    (hsafe : IsSafe config.extension) (mode : Mode) (root : Option Path) :
    Ensures (convertFile config mode source root) world fun result after =>
      Accounts config.extension (reportsOf result) world.tree after.tree := by
  have hsame : ∀ {result : Except Fault Report} {after : World}, after.tree = world.tree →
      (∀ report, result = .ok report → report.deleted = false) →
      Accounts config.extension (reportsOf result) world.tree after.tree := by
    intro result after hafter hdeleted
    exact accounts_of_evolves (hafter ▸ Evolves.refl _) fun report hreport =>
      hdeleted report (mem_reportsOf.mp hreport)
  refine convertFile_ensures_of ⟨fun result after hafter hidle _ => ?_,
    fun conversion output after hafter _ _ => ?_,
    fun conversion output between hbetween hdue _ => ?_⟩
  · exact hsame hafter fun report hreport => (hidle report hreport).deleted
  · refine hsame hafter fun report hreport => ?_
    cases hreport
    rfl
  · have hready := ready_of_isFile hsound hproper hkeeps hsafe hdue.extension hdue.isFile
    rw [← hbetween] at hready ⊢
    exact write_ensures hready root conversion.output rfl rfl

end SlimTemplate
