import TreeWalk.Proofs.Command.Endings
import TreeWalk.Proofs.Files.Dotted

/-!
Spellings of the path of a document. Whether a path has `./` in front or not, a command looks at the same
settings file and prints the same, as long as the path names a directory at all. The path of a bare name
does not, and the settings file that lies beside such a document counts only with `./` in front.
-/

namespace TreeWalk

/-! ### Settings -/

theorem Disk.contains_congr {disk : Disk} {path path' : String} (h : disk path' = disk path) :
    disk.contains path' = disk.contains path := by
  rw [contains, h, ← contains]

theorem Disk.read_congr {disk : Disk} {path path' : String} (h : disk path' = disk path) :
    disk.read path' = disk.read path := by
  rw [read, h, ← read]

namespace Settings

variable {disk : Disk} {env : Environment} {settings : Settings}

theorem FileSays.of_disk_eq {path path' : String} (hsame : disk path' = disk path) {layer : Layer}
    (h : FileSays disk (some path) layer) : FileSays disk (some path') layer := by
  cases h with
  | absent hfound => exact .absent ((Disk.contains_congr hsame).trans hfound)
  | present hfound hread hparse hlayer =>
      exact .present ((Disk.contains_congr hsame).trans hfound) ((Disk.read_congr hsame).trans hread)
        hparse hlayer

theorem load_eq_ok_of_fileSays {systemHome directory directory' : Option String}
    (h : ∀ layer, FileSays disk (directory.map localPath) layer →
      FileSays disk (directory'.map localPath) layer)
    (hload : load disk env systemHome directory = .ok settings) :
    load disk env systemHome directory' = .ok settings := by
  obtain ⟨globalLayer, localLayer, envLayer, hlayered, hhighest⟩ := loadFrom_eq_ok_iff.mp hload
  exact loadFrom_eq_ok_iff.mpr ⟨globalLayer, localLayer, envLayer,
    ⟨hlayered.globalFile, h _ hlayered.localFile, hlayered.environment⟩, hhighest⟩

end Settings

namespace Command

variable {context : Context} {command : Command} {file file' : String}

/-- The settings files of a path and of the path with `./` in front say the same. Only with the dot in front
does a bare name have a directory. -/
theorem fileSays_directoryOf_dot_slash (hdisk : context.disk.IgnoresDot) (hne : file ≠ "")
    (hrelative : Path.isAbsolute file = false)
    (hshort : ∀ d ∈ directoryOf file, ("./" ++ Settings.localPath d).utf8ByteSize < FileTree.pathLimit)
    (hhome : Path.parent? file ≠ some "" ∨ Settings.FileSays context.disk (some "./.astwalk.toml") {})
    (layer : Layer) :
    Settings.FileSays context.disk ((directoryOf ("./" ++ file)).map Settings.localPath) layer ↔
      Settings.FileSays context.disk ((directoryOf file).map Settings.localPath) layer := by
  obtain ⟨d, hparent, habsolute, hdotted | ⟨rfl, hdotted⟩ | ⟨hd, hdotted⟩⟩ :=
    Path.parent?_dot_slash hne hrelative
  · rw [directoryOf, directoryOf, hdotted, hparent]
  · have hplain : directoryOf file = none := by simp [directoryOf, hparent, Option.filter]
    have hdot : directoryOf ("./" ++ file) = some "." := by simp [directoryOf, hdotted, Option.filter]
    have hpath : Settings.localPath "." = "./.astwalk.toml" := by decide
    have hnothing := Settings.fileLayer?_eq_ok_iff.mpr (hhome.resolve_left (absurd hparent))
    rw [hplain, hdot, Option.map_some, Option.map_none, hpath, ← Settings.fileLayer?_eq_ok_iff, hnothing,
      ← Settings.fileLayer?_eq_ok_iff]
    rfl
  · have hplain : directoryOf file = some d := by simp [directoryOf, hparent, Option.filter, hd]
    have hdot : directoryOf ("./" ++ file) = some ("./" ++ d) := by simp [directoryOf, hdotted, Option.filter]
    have hpath : Settings.localPath ("./" ++ d) = "./" ++ Settings.localPath d := Path.join_dot_slash hd _
    have hjoined : Path.isAbsolute (Settings.localPath d) = false := (Path.isAbsolute_join hd _).trans habsolute
    have hjoined_ne : Settings.localPath d ≠ "" := by
      rw [Settings.localPath, Path.join]
      split <;> simp
    have hsame := hdisk (Settings.localPath d) hjoined_ne hjoined (hshort d hplain)
    rw [hplain, hdot, Option.map_some, Option.map_some, hpath]
    exact ⟨Settings.FileSays.of_disk_eq hsame.symm, Settings.FileSays.of_disk_eq hsame⟩

/-! ### Two runs -/

/-- Documents with the same settings that lie at the same place are opened alike. -/
theorem openDocument_alike
    (hload : ∀ settings, context.settings (directoryOf file') = .ok settings ↔
      context.settings (directoryOf file) = .ok settings)
    (hsame : context.disk file' = context.disk file) :
    (∃ opened, openDocument context file = .ok opened ∧ openDocument context file' = .ok opened) ∨
    ∃ failure failure', openDocument context file = .error failure ∧
      openDocument context file' = .error failure' ∧ failure'.exitCode = failure.exitCode := by
  cases hsettings : context.settings (directoryOf file) with
  | error error =>
      cases hsettings' : context.settings (directoryOf file') with
      | error error' =>
          exact Or.inr ⟨_, _, openDocument_of_load_error hsettings, openDocument_of_load_error hsettings', rfl⟩
      | ok settings =>
          rw [(hload settings).mp hsettings'] at hsettings
          cases hsettings
  | ok settings =>
      rw [openDocument_of_load_ok hsettings, openDocument_of_load_ok ((hload settings).mpr hsettings),
        Document.load, Document.load, Disk.read_congr hsame]
      cases context.disk.read file with
      | error fault => exact Or.inr ⟨_, _, rfl, rfl, rfl⟩
      | ok content =>
          simp only [Document.decodeFrom]
          cases Document.decode content with
          | error error => exact Or.inr ⟨_, _, rfl, rfl, rfl⟩
          | ok R => exact Or.inl ⟨(settings, R), rfl, rfl⟩

/-- The command with `./` in front of the path of its document. -/
def dotted : Command → Command
  | walk file order indent => walk ("./" ++ file) order indent
  | parents file => parents ("./" ++ file)
  | tree file => tree ("./" ++ file)
  | command => command

theorem document?_dotted (h : command.document? = some file) :
    command.dotted.document? = some ("./" ++ file) := by
  cases command <;> simp_all [document?, dotted]

theorem run_dotted_of_open (h : command.document? = some file) {opened : Settings × Rooted Symbol}
    (hopen : openDocument context file = .ok opened)
    (hopen' : openDocument context ("./" ++ file) = .ok opened) :
    command.dotted.run context = command.run context := by
  cases command <;> simp_all [document?, dotted, run, perform, runWalk, runParents, runTree]

/-- A command prints the same and ends with the same code for a path and for the path with `./` in front, if
the path is more than a bare name or the settings file beside the document sets nothing. -/
theorem run_dotted (hdisk : context.disk.IgnoresDot) (hfile : command.document? = some file) (hne : file ≠ "")
    (hrelative : Path.isAbsolute file = false) (hshort : ("./" ++ file).utf8ByteSize < FileTree.pathLimit)
    (hsettings : ∀ d ∈ directoryOf file, ("./" ++ Settings.localPath d).utf8ByteSize < FileTree.pathLimit)
    (hhome : Path.parent? file ≠ some "" ∨ Settings.FileSays context.disk (some "./.astwalk.toml") {}) :
    (command.dotted.run context).stdout = (command.run context).stdout ∧
      (command.dotted.run context).exitCode = (command.run context).exitCode := by
  have hfiles := fileSays_directoryOf_dot_slash hdisk hne hrelative hsettings hhome
  rcases openDocument_alike
    (fun settings => ⟨Settings.load_eq_ok_of_fileSays fun layer => (hfiles layer).mp,
      Settings.load_eq_ok_of_fileSays fun layer => (hfiles layer).mpr⟩)
    (hdisk file hne hrelative hshort) with ⟨opened, hopen, hopen'⟩ | ⟨failure, failure', hopen, hopen', hcode⟩
  · rw [run_dotted_of_open hfile hopen hopen']
    exact ⟨rfl, rfl⟩
  · rw [run_of_openDocument_error hfile hopen, run_of_openDocument_error (document?_dotted hfile) hopen']
    exact ⟨rfl, hcode⟩

/-- A document and a settings file that asks for another order, side by side in the working directory and
once more in a directory below it. -/
def desk : Context where
  disk :=
    let papers : List (String × FileTree) :=
      [("t.toml", .file "kind = \"a\"\n\n[[children]]\nkind = \"b\"\n".toUTF8),
        (".astwalk.toml", .file "order = \"post\"\n".toUTF8)]
    FileTree.disk (.directory (("drawer", .directory papers) :: papers)) []
  env := []
  home := none
  completions := fun _ => ""
  colours := false

theorem run_dotted_drawer :
    (run desk (.walk "drawer/t.toml" none false)).stdout = "b\na\n" ∧
      (run desk (.walk "./drawer/t.toml" none false)).stdout = "b\na\n" := by
  have hplain : (run desk (.walk "drawer/t.toml" none false)).stdout = "b\na\n" := by decide +kernel
  have hfile : (walk "drawer/t.toml" none false).document? = some "drawer/t.toml" := rfl
  have hdirectory : directoryOf "drawer/t.toml" = some "drawer" := by decide +kernel
  have hshort : ∀ d ∈ directoryOf "drawer/t.toml",
      ("./" ++ Settings.localPath d).utf8ByteSize < FileTree.pathLimit := by
    rw [hdirectory]
    rintro d ⟨⟩
    decide
  have hparent : Path.parent? "drawer/t.toml" ≠ some "" := by decide +kernel
  have hdisk : desk.disk.IgnoresDot := FileTree.ignoresDot_disk _ _
  have hsame := run_dotted hdisk hfile (by decide) (by decide) (by decide) hshort (Or.inl hparent)
  exact ⟨hplain, hsame.1.trans hplain⟩

/-- For a bare name, the settings file beside the document counts only with `./` in front. -/
theorem run_dotted_ne_desk :
    (run desk (.walk "t.toml" none false)).stdout = "a\nb\n" ∧
      (run desk (.walk "./t.toml" none false)).stdout = "b\na\n" := by
  decide +kernel

end Command

end TreeWalk
