import TreeWalk.Command.Arguments
import TreeWalk.Document
import TreeWalk.Listing
import TreeWalk.Settings.Environment
import TreeWalk.Settings.Load

/-!
Carrying out a command, and the colours in which it prints.
-/

namespace TreeWalk

/-! ### Styles

Colours on a terminal. A style is a code; painted text stands between the code and the code that ends
all styles, and where the text itself ends all styles the style is taken up again. -/

/-- The code of a style. -/
structure Style where
  code : String

namespace Style

def error : Style := ⟨"1;31"⟩

def header : Style := ⟨"1;36"⟩

def dimmed : Style := ⟨"2"⟩

def highlight : Style := ⟨"32"⟩

/-- What switches a style on. -/
def begin (style : Style) : List Char := '\x1b' :: '[' :: style.code.toList ++ ['m']

/-- What ends all styles. -/
def reset : List Char := ['\x1b', '[', '0', 'm']

/-- The text with the style taken up again behind each end of all styles; `skip` characters of one are
still to pass. -/
def resume (style : Style) : Nat → List Char → List Char
  | _, [] => []
  | skip + 1, c :: rest => c :: (if skip = 0 then style.begin else []) ++ resume style skip rest
  | 0, c :: rest =>
      if reset.isPrefixOf (c :: rest) then c :: resume style (reset.length - 1) rest
      else c :: resume style 0 rest

/-- The text in a style, if colours are on. -/
def paint (style : Style) (colours : Bool) (text : String) : String :=
  if colours then String.ofList (style.begin ++ style.resume 0 text.toList ++ reset) else text

/-- Whether colours are on: they are for a terminal, unless a variable switches them off, and wherever
another one forces them on. -/
def coloursOn (env : Environment) (terminal : Bool) : Bool :=
  (env.get? "CLICOLOR_FORCE").any (· ≠ "0")
    || (terminal && (env.get? "NO_COLOR").isNone && env.get? "CLICOLOR" ≠ some "0")

end Style

/-! ### Commands

Carrying out a command. The settings are loaded before the document is read, and a command prints as it
goes on. A failure has a text and an exit code by its cause; a line that cannot be indented ends the program
in another way, as a crash. -/

/-- Why a command fails. -/
inductive Failure where
  | usage (text : String)
  | invalidArguments (text : String)
  /-- The nodes of a document do not form a tree. -/
  | notATree (text : String)
  | unreadable (action path : String) (fault : FileFault)
  | malformed (origin text : String)
  | unwritable (kind text : String)
  | config (text : String)
deriving DecidableEq, Repr

namespace Failure

def message : Failure → String
  | usage text => text
  | invalidArguments text => "invalid arguments: " ++ text
  | notATree text => text
  | unreadable action path fault => "cannot " ++ action ++ " " ++ path ++ ": " ++ fault.message
  | malformed origin text => "invalid tree document " ++ origin ++ ": " ++ text
  | unwritable kind text => "cannot write tree document for " ++ kind ++ ": " ++ text
  | config text => "config error: " ++ text

/-- The exit code of a failure, by the custom of system programs: 64 for a wrong command line, 65 for
wrong data, 66 for a missing file, 70 for a fault of the program, 74 for a file that cannot be read,
and 78 for wrong settings. -/
def exitCode : Failure → Nat
  | usage _ => 64
  | invalidArguments _ => 64
  | notATree _ => 65
  | unreadable _ _ fault => if fault.isMissing then 66 else 74
  | malformed _ _ => 65
  | unwritable _ _ => 70
  | config _ => 78

def ofConfig (error : ConfigError) : Failure := config error.message

end Failure

/-- The nodes that a document of the given origin describes. -/
def Document.decodeFrom (origin content : String) : Except Failure (Rooted Symbol) :=
  (Document.decode content).mapError fun error => .malformed origin error.message

/-- The tree that a document of the given origin describes. -/
def Document.parseFrom (origin content : String) : Except Failure (Tree Symbol) :=
  (Document.decodeFrom origin content).map Rooted.tree

/-- The nodes of a document. -/
def Document.load (disk : Disk) (path : String) : Except Failure (Rooted Symbol) :=
  match disk.read path with
  | .error fault => .error (.unreadable "read" path fault)
  | .ok content => Document.decodeFrom path content

/-- How a command ends that does not succeed. -/
inductive Stop where
  | failed (failure : Failure)
  | crashed (error : IndentError)

namespace Stop

/-- The exit code of a crash. -/
def crashCode : Nat := 101

def exitCode : Stop → Nat
  | failed failure => failure.exitCode
  | crashed _ => crashCode

def ofConfig (error : ConfigError) : Stop := failed (.ofConfig error)

def ofListing {ν : Type} : ListingError ν → Stop
  | .duplicateParent duplicate => failed (.notATree (duplicate.message fun _ => "node"))
  | .indent error => crashed error

end Stop

/-- A command under way. It prints one text behind another until it is done or stops, and what was printed
before it stops stays printed. -/
abbrev Printing : Type → Type := EStateM Stop String

namespace Printing

def print (text : String) : Printing Unit := modify (· ++ text)

def info (text : String) : Printing Unit := print (text ++ "\n")

def header (colours : Bool) (text : String) : Printing Unit := info (Style.header.paint colours text)

/-- Prints the line of a node and its parent. -/
def edge (colours : Bool) (pair : String × String) : Printing Unit :=
  info (pair.1 ++ " " ++ Style.dimmed.paint colours "<-" ++ " " ++ Style.highlight.paint colours pair.2)

/-- Prints a named text. -/
def action (colours : Bool) (name text : String) : Printing Unit :=
  info (Style.highlight.paint colours name ++ ": " ++ text)

/-- Goes on with a result, or stops because of the error that is there in its place. -/
def orStop {ε α : Type} (stop : ε → Stop) : Except ε α → Printing α
  | .ok a => pure a
  | .error error => throw (stop error)

@[simp] theorem run_info (text printed : String) :
    (info text).run printed = .ok () (printed ++ (text ++ "\n")) := rfl

@[simp] theorem run_orStop_ok {ε α : Type} (stop : ε → Stop) (a : α) (printed : String) :
    (orStop stop (.ok a)).run printed = .ok a printed := rfl

@[simp] theorem run_orStop_error {ε α : Type} (stop : ε → Stop) (error : ε) (printed : String) :
    (orStop (α := α) stop (.error error)).run printed = .error (stop error) printed := rfl

end Printing

/-- What a command comes to: all that it has printed, and how it stopped if it did not succeed. -/
structure Outcome where
  stdout : String
  stop : Option Stop

namespace Outcome

/-- The outcome of a command that starts with nothing printed. -/
def of (printing : Printing Unit) : Outcome :=
  match printing.run "" with
  | .ok () printed => ⟨printed, none⟩
  | .error stop printed => ⟨printed, some stop⟩

def exitCode (outcome : Outcome) : Nat :=
  match outcome.stop with
  | none => 0
  | some stop => stop.exitCode

/-- What is written about a failure. -/
def stderr (colours : Bool) (outcome : Outcome) : String :=
  match outcome.stop with
  | some (.failed failure) => Style.error.paint colours "error" ++ ": " ++ failure.message ++ "\n"
  | _ => ""

end Outcome

namespace Command

open Printing

/-- Where a command runs: the files and the environment it sees, the home directory that the system knows
where the environment names none, the scripts there are to make a shell complete its arguments, and whether
it prints in colour. -/
structure Context where
  disk : Disk
  env : Environment
  home : Option String
  completions : Shell → String
  colours : Bool

/-- The settings in a context, with those of a directory if one is given. -/
def Context.settings (context : Context) (directory : Option String) : Except ConfigError Settings :=
  Settings.load context.disk context.env context.home directory

/-- The settings for a document: its directory, if its path has one, may hold a settings file. -/
def settingsFor (context : Context) (file : String) : Except Failure Settings :=
  (context.settings ((Path.parent? file).filter (· ≠ ""))).mapError .ofConfig

/-- The settings and the nodes for a command on a document. -/
def openDocument (context : Context) (file : String) : Except Failure (Settings × Rooted Symbol) := do
  let settings ← settingsFor context file
  let document ← Document.load context.disk file
  .ok (settings, document)

def runWalk (context : Context) (file : String) (order : Option Order) (indent : Bool) : Printing Unit := do
  let (settings, document) ← orStop .failed (openDocument context file)
  let settings := { settings with indent := settings.indent || indent }
  let text ← orStop .ofListing (document.graph.renderWalk settings order document.root)
  info text

def runParents (context : Context) (file : String) : Printing Unit := do
  let (_, document) ← orStop .failed (openDocument context file)
  let pairs ← orStop (fun duplicate => .ofListing (.duplicateParent duplicate))
    (document.graph.parentPairs document.root)
  if pairs.isEmpty then header context.colours "root has no children"
  pairs.forM (edge context.colours)

def runTree (context : Context) (file : String) : Printing Unit := do
  let (_, document) ← orStop .failed (openDocument context file)
  info (Text.trimEnd (document.graph.renderTree document.root))

def runShowSettings (context : Context) (directory : Option String) : Printing Unit :=
  match directory.filter fun d => !context.disk.isDirectory d with
  | some d => throw (.failed (.invalidArguments ("not a directory: " ++ d)))
  | none => do
      let settings ← orStop .ofConfig (context.settings directory)
      let text ← orStop .ofConfig settings.toToml
      info (Text.trimEnd text)

def runShowPaths (context : Context) : Printing Unit := do
  action context.colours "global"
    ((Settings.globalPath? context.env context.home).getD "unavailable (no home directory)")
  action context.colours "local" (Settings.localPath "<tree dir>")

/-- What a command does, from the first to the last text that it prints. -/
def perform (context : Context) : Command → Printing Unit
  | walk file order indent => runWalk context file order indent
  | parents file => runParents context file
  | tree file => runTree context file
  | showSettings directory => runShowSettings context directory
  | showPaths => runShowPaths context
  | completion shell => print (context.completions shell)

def run (context : Context) (command : Command) : Outcome := .of (command.perform context)

/-- The paths that a command looks at. -/
def paths (env : Environment) (home : Option String) : Command → List String
  | walk file _ _ => documentPaths file
  | parents file => documentPaths file
  | tree file => documentPaths file
  | showSettings directory =>
      (Settings.globalPath? env home).toList ++ directory.toList
        ++ (directory.map Settings.localPath).toList
  | showPaths => []
  | completion _ => []
where
  documentPaths (file : String) : List String :=
    file :: (Settings.globalPath? env home).toList
      ++ (((Path.parent? file).filter (· ≠ "")).map Settings.localPath).toList

end Command

namespace Invocation

/-- Carries out what a command line asks for. -/
def run (context : Command.Context) (invocation : Invocation) : Outcome :=
  match invocation.command with
  | none => .of (throw (.failed (.usage "no command given, see --help")))
  | some command => command.run context

/-- The warning that more log output was asked for than there is. -/
def warning (invocation : Invocation) : String :=
  if 3 < invocation.debug then "Don't be crazy, max is -d -d -d\n" else ""

/-- What is logged at the start, if log output was asked for. -/
def logLine? (invocation : Invocation) : Option String :=
  match invocation.debug with
  | 0 => none
  | 1 => some "Debug mode: info"
  | 2 => some "Debug mode: debug"
  | _ => some "Debug mode: trace"

end Invocation

end TreeWalk
