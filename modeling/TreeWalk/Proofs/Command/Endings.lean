import TreeWalk.Command.Run
import TreeWalk.Proofs.Indentation
import TreeWalk.Proofs.Listing
import TreeWalk.Proofs.Settings.RoundTrip

/-!
How a command ends. The first thing that goes wrong decides the exit code: the command line, then the
settings, then the document, and for a walk the indentation. Nothing else can go wrong. The nodes of a
document always form a tree, and settings that were loaded can be written, so the failures that are there
for the opposite never occur.
-/

namespace TreeWalk

/-! ### Failures -/

namespace Failure

/-- The failures that a command can end with. A document is always a tree, and no command writes one. -/
def Arises : Failure → Prop
  | notATree _ => False
  | unwritable _ _ => False
  | _ => True

theorem Arises.exitCode_ne {failure : Failure} (h : failure.Arises) : failure.exitCode ≠ 70 := by
  cases failure with
  | unwritable kind text => exact h.elim
  | unreadable action path fault =>
      rw [exitCode]
      split <;> decide
  | _ => simp [exitCode]

end Failure

namespace Command

variable {context : Context} {command : Command} {file : String} {settings : Settings} {R : Rooted Symbol}

/-- The document that a command reads. -/
def document? : Command → Option String
  | walk file _ _ => some file
  | parents file => some file
  | tree file => some file
  | showSettings _ => none
  | showPaths => none
  | completion _ => none

/-- The directory whose settings file counts for a document. -/
def directoryOf (file : String) : Option String := (Path.parent? file).filter (· ≠ "")

/-- The directory whose settings file counts for a command that loads settings; there may be none. -/
def directory? : Command → Option (Option String)
  | walk file _ _ => some (directoryOf file)
  | parents file => some (directoryOf file)
  | tree file => some (directoryOf file)
  | showSettings directory => some directory
  | showPaths => none
  | completion _ => none

theorem directory?_of_document? (h : command.document? = some file) :
    command.directory? = some (directoryOf file) := by
  cases command <;> simp_all [document?, directory?]

/-- A command would indent a line of the tree too far. -/
def TooWide (command : Command) (settings : Settings) (t : Tree Symbol) : Prop :=
  ∃ file order indent, command = .walk file order indent ∧ (settings.indent || indent) = true ∧
    maxIndent < t.height * settings.indentWidth.toNat

/-- The command asks for the settings of a directory that is none. -/
def NotADirectory (context : Context) (command : Command) : Prop :=
  ∃ d, command = .showSettings (some d) ∧ context.disk.isDirectory d = false

/-- The settings for the command cannot be loaded. -/
def SettingsFail (context : Context) (command : Command) : Prop :=
  ∃ directory error, command.directory? = some directory ∧
    context.settings directory = .error error

/-- Nothing is found where the document should be. -/
def DocumentMissing (context : Context) (command : Command) : Prop :=
  ∃ file fault, command.document? = some file ∧ context.disk.read file = .error fault ∧ fault.isMissing = true

/-- The document cannot be read, but not because nothing is there. -/
def DocumentUnreadable (context : Context) (command : Command) : Prop :=
  ∃ file fault, command.document? = some file ∧ context.disk.read file = .error fault ∧ fault.isMissing = false

/-- The document can be read but is none. -/
def DocumentMalformed (context : Context) (command : Command) : Prop :=
  ∃ file content error, command.document? = some file ∧ context.disk.read file = .ok content ∧
    Document.parse content = .error error

/-- A line of the document would be indented too far. -/
def DocumentTooWide (context : Context) (command : Command) : Prop :=
  ∃ directory settings file content t, command.directory? = some directory ∧
    context.settings directory = .ok settings ∧ command.document? = some file ∧
    context.disk.read file = .ok content ∧ Document.parse content = .ok t ∧ command.TooWide settings t

/-! ### Stages -/

theorem openDocument_of_load_error {error : ConfigError}
    (h : context.settings (directoryOf file) = .error error) :
    openDocument context file = .error (.ofConfig error) := by
  rw [openDocument, settingsFor, ← directoryOf, h]
  rfl

theorem openDocument_of_load_ok (h : context.settings (directoryOf file) = .ok settings) :
    openDocument context file = (Document.load context.disk file).map fun R => (settings, R) := by
  rw [openDocument, settingsFor, ← directoryOf, h]
  cases Document.load context.disk file <;> rfl

/-- A document is opened in three stages, of which the first that fails decides. -/
theorem openDocument_cases (context : Context) (file : String) :
    (∃ error, context.settings (directoryOf file) = .error error ∧
      openDocument context file = .error (.ofConfig error)) ∨
    ∃ settings, context.settings (directoryOf file) = .ok settings ∧
      ((∃ fault, context.disk.read file = .error fault ∧
        openDocument context file = .error (.unreadable "read" file fault)) ∨
      ∃ content, context.disk.read file = .ok content ∧
        ((∃ error, Document.decode content = .error error ∧
          openDocument context file = .error (.malformed file error.message)) ∨
        ∃ R, Document.decode content = .ok R ∧ openDocument context file = .ok (settings, R))) := by
  cases hload : context.settings (directoryOf file) with
  | error error => exact Or.inl ⟨error, rfl, openDocument_of_load_error hload⟩
  | ok settings =>
      refine Or.inr ⟨settings, rfl, ?_⟩
      rw [openDocument_of_load_ok hload, Document.load]
      cases context.disk.read file with
      | error fault => exact Or.inl ⟨fault, rfl, rfl⟩
      | ok content =>
          refine Or.inr ⟨content, rfl, ?_⟩
          simp only [Document.decodeFrom]
          cases Document.decode content with
          | error error => exact Or.inl ⟨error, rfl, rfl⟩
          | ok R => exact Or.inr ⟨R, rfl, rfl⟩

theorem isTree_of_openDocument (h : openDocument context file = .ok (settings, R)) : R.graph.IsTree R.root := by
  rcases openDocument_cases context file with ⟨error, -, hopen⟩ | ⟨_, -, ⟨fault, -, hopen⟩ |
    ⟨content, -, ⟨error, -, hopen⟩ | ⟨_, hdecode, hopen⟩⟩⟩
  all_goals
    rw [hopen] at h
    cases h
  exact Document.isTree_of_decode hdecode

theorem run_of_openDocument_error (h : command.document? = some file) {failure : Failure}
    (hopen : openDocument context file = .error failure) :
    command.run context = ⟨"", some (.failed failure)⟩ := by
  have hperform : (command.perform context).run "" = .error (.failed failure) "" := by
    cases command <;> simp_all [document?, perform, runWalk, runParents, runTree]
  rw [run, Outcome.of, hperform]

/-- The text of a walk, or a line of it that is indented too far. -/
theorem renderWalk_cases (htree : R.graph.IsTree R.root) (settings : Settings) (order : Option Order) :
    (settings.indent = true ∧ maxIndent < R.tree.height * settings.indentWidth.toNat ∧
      ∃ error, R.graph.renderWalk settings order R.root = .error (.indent error)) ∨
    (¬(settings.indent = true ∧ maxIndent < R.tree.height * settings.indentWidth.toNat) ∧
      ∃ text, R.graph.renderWalk settings order R.root = .ok text) := by
  obtain ⟨map, hmap⟩ := ParentMap.exists_build_of_isTree htree
  have hlines := htree.exists_walkLines_iff settings order
  rw [← Rooted.tree] at hlines
  rw [Graph.renderWalk]
  cases hwalk : R.graph.walkLines settings order R.root with
  | ok lines =>
      rw [hwalk] at hlines
      refine Or.inr ⟨fun h => ?_, _, rfl⟩
      have hle := hlines.mp ⟨lines, rfl⟩ h.1
      omega
  | error error =>
      cases error with
      | duplicateParent duplicate =>
          exact absurd hwalk (Graph.walkLines_ne_duplicateParent hmap settings order duplicate)
      | indent error =>
          rw [hwalk] at hlines
          have hwide : ¬(settings.indent = true → R.tree.height * settings.indentWidth.toNat ≤ maxIndent) :=
            fun hle => by simpa using hlines.mpr hle
          rw [Classical.not_imp, Nat.not_le] at hwide
          exact Or.inl ⟨hwide.1, hwide.2, error, rfl⟩

/-- Printing the lines of some nodes and their parents. -/
theorem run_forM_edge (colours : Bool) (pairs : List (String × String)) (printed : String) :
    ∃ text, (pairs.forM (Printing.edge colours)).run printed = .ok () text := by
  induction pairs generalizing printed with
  | nil => exact ⟨printed, rfl⟩
  | cons pair pairs ih =>
      simp only [List.forM_eq_forM] at *
      rw [List.forM_cons, EStateM.run_bind, Printing.edge, Printing.run_info]
      exact ih _

theorem run_of_openDocument_ok (h : command.document? = some file)
    (hopen : openDocument context file = .ok (settings, R)) :
    (command.TooWide settings R.tree ∧ ∃ error, command.run context = ⟨"", some (.crashed error)⟩) ∨
      (¬command.TooWide settings R.tree ∧ ∃ text, command.run context = ⟨text, none⟩) := by
  have htree := isTree_of_openDocument hopen
  cases command with
  | walk file' order indent =>
      cases h
      rcases renderWalk_cases htree { settings with indent := settings.indent || indent } order with
        ⟨hindent, hwide, error, hrender⟩ | ⟨hfits, text, hrender⟩
      · refine Or.inl ⟨⟨file, order, indent, rfl, hindent, hwide⟩, error, ?_⟩
        simp [run, Outcome.of, perform, runWalk, hopen, hrender, Stop.ofListing]
      · refine Or.inr ⟨?_, text ++ "\n", ?_⟩
        · rintro ⟨_, _, _, heq, hindent, hwide⟩
          cases heq
          exact hfits ⟨hindent, hwide⟩
        · simp [run, Outcome.of, perform, runWalk, hopen, hrender]
  | parents file' =>
      cases h
      obtain ⟨map, hmap⟩ := ParentMap.exists_build_of_isTree htree
      obtain ⟨pairs, hpairs⟩ := Graph.exists_parentPairs hmap
      refine Or.inr ⟨by simp [TooWide], ?_⟩
      simp only [run, Outcome.of, perform, runParents, hopen, hpairs, EStateM.run_bind, Printing.run_orStop_ok]
      cases pairs with
      | nil => exact ⟨_, rfl⟩
      | cons pair pairs =>
          obtain ⟨text, hprints⟩ := run_forM_edge context.colours (pair :: pairs) ""
          rw [if_neg (by simp), hprints]
          exact ⟨text, rfl⟩
  | tree file' =>
      cases h
      refine Or.inr ⟨by simp [TooWide], ?_⟩
      simp only [run, Outcome.of, perform, runTree, hopen, EStateM.run_bind, Printing.run_orStop_ok, Printing.run_info]
      exact ⟨_, rfl⟩
  | showSettings directory => cases h
  | showPaths => cases h
  | completion shell => cases h

open Classical in
theorem exitCode_run_of_document? (h : command.document? = some file) :
    (command.run context).exitCode =
      if command.SettingsFail context then 78
      else if command.DocumentMissing context then 66
      else if command.DocumentUnreadable context then 74
      else if command.DocumentMalformed context then 65
      else if command.DocumentTooWide context then 101
      else 0 := by
  have hdirectory := directory?_of_document? h
  rcases openDocument_cases context file with ⟨error, hload, hopen⟩ | ⟨settings, hload, hopen⟩
  · rw [run_of_openDocument_error h hopen, if_pos ⟨_, error, hdirectory, hload⟩]
    rfl
  have hsettings : ¬command.SettingsFail context := by
    simp [SettingsFail, hdirectory, hload]
  rw [if_neg hsettings]
  rcases hopen with ⟨fault, hread, hopen⟩ | ⟨content, hread, hopen⟩
  · rw [run_of_openDocument_error h hopen]
    cases hmissing : fault.isMissing with
    | true =>
        rw [if_pos ⟨file, fault, h, hread, hmissing⟩]
        simp [Outcome.exitCode, Stop.exitCode, Failure.exitCode, hmissing]
    | false =>
        rw [if_neg (by simp [DocumentMissing, h, hread, hmissing]), if_pos ⟨file, fault, h, hread, hmissing⟩]
        simp [Outcome.exitCode, Stop.exitCode, Failure.exitCode, hmissing]
  have hmissing : ¬command.DocumentMissing context := by simp [DocumentMissing, h, hread]
  have hunreadable : ¬command.DocumentUnreadable context := by simp [DocumentUnreadable, h, hread]
  rw [if_neg hmissing, if_neg hunreadable]
  rcases hopen with ⟨error, hdecode, hopen⟩ | ⟨R, hdecode, hopen⟩
  · have hparse : Document.parse content = .error error := map_eq_error_iff.mpr hdecode
    rw [run_of_openDocument_error h hopen, if_pos ⟨file, content, error, h, hread, hparse⟩]
    rfl
  have hparse := Document.parse_of_decode hdecode
  have hmalformed : ¬command.DocumentMalformed context := by simp [DocumentMalformed, h, hread, hparse]
  have hwide : command.DocumentTooWide context ↔ command.TooWide settings R.tree := by
    simp [DocumentTooWide, hdirectory, hload, h, hread, hparse]
  rw [if_neg hmalformed]
  rcases run_of_openDocument_ok h hopen with ⟨htoo, error, hrun⟩ | ⟨htoo, text, hrun⟩
  · rw [hrun, if_pos (hwide.mpr htoo)]
    rfl
  · rw [hrun, if_neg (mt hwide.mp htoo)]
    rfl

theorem run_showSettings_cases (context : Context) (directory : Option String) :
    (NotADirectory context (.showSettings directory) ∧
      ∃ text, run context (.showSettings directory) = ⟨"", some (.failed (.invalidArguments text))⟩) ∨
    (¬NotADirectory context (.showSettings directory) ∧
      ((∃ error, context.settings directory = .error error ∧
        run context (.showSettings directory) = ⟨"", some (.failed (.ofConfig error))⟩) ∨
      ∃ settings, context.settings directory = .ok settings ∧
        ∃ text, run context (.showSettings directory) = ⟨text, none⟩)) := by
  rw [run, Outcome.of, perform, runShowSettings]
  cases hfilter : directory.filter fun d => !context.disk.isDirectory d with
  | some d =>
      obtain ⟨rfl, hd⟩ := Option.filter_eq_some_iff.mp hfilter
      exact Or.inl ⟨⟨d, rfl, by simpa using hd⟩, _, rfl⟩
  | none =>
      refine Or.inr ⟨?_, ?_⟩
      · rintro ⟨d, heq, hd⟩
        cases heq
        simp [Option.filter, hd] at hfilter
      · cases hload : context.settings directory with
        | error error => exact Or.inl ⟨error, rfl, rfl⟩
        | ok settings =>
            have hwritten := Settings.toToml_eq_openText (Settings.loadable_of_loadFrom hload)
            refine Or.inr ⟨settings, rfl, ?_⟩
            simp only [EStateM.run_bind, Printing.run_orStop_ok, hwritten, Printing.run_info]
            exact ⟨_, rfl⟩

theorem arises_of_openDocument {failure : Failure} (h : openDocument context file = .error failure) :
    failure.Arises := by
  rcases openDocument_cases context file with ⟨error, -, hopen⟩ | ⟨settings, -, ⟨fault, -, hopen⟩ |
    ⟨content, -, ⟨error, -, hopen⟩ | ⟨R, -, hopen⟩⟩⟩
  all_goals
    rw [hopen] at h
    cases h
  all_goals trivial

/-- A command that stops has printed nothing by then. -/
theorem run_cases (context : Context) (command : Command) :
    (∃ text, command.run context = ⟨text, none⟩) ∨
      (∃ failure, failure.Arises ∧ command.run context = ⟨"", some (.failed failure)⟩) ∨
      ∃ error, command.run context = ⟨"", some (.crashed error)⟩ := by
  cases hfile : command.document? with
  | some file =>
      cases hopen : openDocument context file with
      | error failure =>
          exact Or.inr (Or.inl ⟨failure, arises_of_openDocument hopen, run_of_openDocument_error hfile hopen⟩)
      | ok opened =>
          rcases run_of_openDocument_ok hfile hopen with ⟨-, error, hrun⟩ | ⟨-, text, hrun⟩
          · exact Or.inr (Or.inr ⟨error, hrun⟩)
          · exact Or.inl ⟨text, hrun⟩
  | none =>
      cases command with
      | walk file order indent => cases hfile
      | parents file => cases hfile
      | tree file => cases hfile
      | showSettings directory =>
          rcases run_showSettings_cases context directory with ⟨-, text, hrun⟩ | ⟨-, ⟨error, -, hrun⟩ |
            ⟨settings, -, text, hrun⟩⟩
          · exact Or.inr (Or.inl ⟨.invalidArguments text, trivial, hrun⟩)
          · exact Or.inr (Or.inl ⟨.ofConfig error, trivial, hrun⟩)
          · exact Or.inl ⟨text, hrun⟩
      | showPaths => exact Or.inl ⟨_, rfl⟩
      | completion shell => exact Or.inl ⟨_, rfl⟩

open Classical in
theorem exitCode_run (context : Context) (command : Command) :
    (command.run context).exitCode =
      if command.NotADirectory context then 64
      else if command.SettingsFail context then 78
      else if command.DocumentMissing context then 66
      else if command.DocumentUnreadable context then 74
      else if command.DocumentMalformed context then 65
      else if command.DocumentTooWide context then 101
      else 0 := by
  cases hfile : command.document? with
  | some file =>
      have hdirectory : ¬command.NotADirectory context := by
        rintro ⟨d, rfl, -⟩
        cases hfile
      rw [if_neg hdirectory, exitCode_run_of_document? hfile]
  | none =>
      have hmissing : ¬command.DocumentMissing context := by simp [DocumentMissing, hfile]
      have hunreadable : ¬command.DocumentUnreadable context := by simp [DocumentUnreadable, hfile]
      have hmalformed : ¬command.DocumentMalformed context := by simp [DocumentMalformed, hfile]
      have hwide : ¬command.DocumentTooWide context := by simp [DocumentTooWide, hfile]
      rw [if_neg hmissing, if_neg hunreadable, if_neg hmalformed, if_neg hwide]
      cases command with
      | walk file order indent => cases hfile
      | parents file => cases hfile
      | tree file => cases hfile
      | showSettings directory =>
          rcases run_showSettings_cases context directory with ⟨hnot, text, hrun⟩ | ⟨hdirectory, hload⟩
          · rw [hrun, if_pos hnot]
            rfl
          rw [if_neg hdirectory]
          rcases hload with ⟨error, hload, hrun⟩ | ⟨settings, hload, text, hrun⟩
          · rw [hrun, if_pos ⟨directory, error, rfl, hload⟩]
            rfl
          · rw [hrun, if_neg (by simp [SettingsFail, directory?, hload])]
            rfl
      | showPaths =>
          rw [if_neg (by simp [NotADirectory]), if_neg (by simp [SettingsFail, directory?])]
          rfl
      | completion shell =>
          rw [if_neg (by simp [NotADirectory]), if_neg (by simp [SettingsFail, directory?])]
          rfl

end Command

namespace Invocation

open Command (Context)

open Classical in
/-- The exit code tells the first thing that goes wrong: the command line, the settings, the document, the
indentation of a walk. Only a run without any of them prints something. No run finds that a document is
not a tree, and none ends with a fault of the program. -/
theorem run_ends_with_first_fault (context : Context) (invocation : Invocation) :
    ((invocation.run context).exitCode =
      if invocation.command = none ∨ ∃ command ∈ invocation.command, command.NotADirectory context then 64
      else if ∃ command ∈ invocation.command, command.SettingsFail context then 78
      else if ∃ command ∈ invocation.command, command.DocumentMissing context then 66
      else if ∃ command ∈ invocation.command, command.DocumentUnreadable context then 74
      else if ∃ command ∈ invocation.command, command.DocumentMalformed context then 65
      else if ∃ command ∈ invocation.command, command.DocumentTooWide context then 101
      else 0) ∧
    ((invocation.run context).exitCode = 0 ∨ (invocation.run context).stdout = "") ∧
    (∀ text, (invocation.run context).stop ≠ some (.failed (.notATree text))) ∧
    (invocation.run context).exitCode ≠ 70 := by
  rw [run]
  cases invocation.command with
  | none =>
      have hrun : Outcome.of (throw (.failed (.usage "no command given, see --help"))) =
          ⟨"", some (.failed (.usage "no command given, see --help"))⟩ := rfl
      simp [hrun, Outcome.exitCode, Stop.exitCode, Failure.exitCode]
  | some command =>
      simp only [reduceCtorEq, false_or, Option.mem_def, Option.some.injEq, exists_eq_left']
      refine ⟨command.exitCode_run context, ?_⟩
      rcases command.run_cases context with ⟨text, hrun⟩ | ⟨failure, harises, hrun⟩ | ⟨error, hrun⟩
      · simp [hrun, Outcome.exitCode]
      · rw [hrun]
        refine ⟨Or.inr rfl, ?_, harises.exitCode_ne⟩
        rintro text heq
        cases heq
        exact harises
      · simp [hrun, Outcome.exitCode, Stop.exitCode, Stop.crashCode]

end Invocation

end TreeWalk
