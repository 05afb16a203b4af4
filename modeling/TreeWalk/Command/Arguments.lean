import TreeWalk.Walk

/-!
The command line: what the program can be asked to do, how that is read, and what the program says about it.
-/

namespace TreeWalk

/-! ### Commands

What the program can be asked to do. -/

/-- Shells for which completions are written. -/
inductive Shell where
  | bash
  | elvish
  | fish
  | powershell
  | zsh
deriving DecidableEq, Repr

namespace Shell

def name : Shell → String
  | bash => "bash"
  | elvish => "elvish"
  | fish => "fish"
  | powershell => "powershell"
  | zsh => "zsh"

def all : List Shell := [bash, elvish, fish, powershell, zsh]

def ofName? (name : String) : Option Shell := all.find? fun shell => shell.name = name

end Shell

inductive Command where
  /-- List the labels of a document in an order, or in that of the settings. -/
  | walk (file : String) (order : Option Order) (indent : Bool)
  /-- List each node below the root with its parent. -/
  | parents (file : String)
  /-- Draw the tree of a document. -/
  | tree (file : String)
  /-- Show the settings, perhaps with those of a directory. -/
  | showSettings (directory : Option String)
  /-- Show where settings are looked for. -/
  | showPaths
  | completion (shell : Shell)
deriving DecidableEq, Repr

/-- A command line that was understood: how often more log output was asked for, and the command. -/
structure Invocation where
  debug : Nat
  command : Option Command
deriving DecidableEq, Repr

/-! ### Arguments

Reading the command line. A command has options with a long and perhaps a short name, at most one
operand, and perhaps further commands below it. Short options can be written together, a value can stand
in the same argument as its option or in the next one, and `--` makes operands of all that follows. What
an argument means is decided from left to right, and an option's value is checked when the next option
or operand, or the end, shows that it is complete. -/

/-- Why a command line is not carried out. The first two are what it asked for. -/
inductive ArgumentError where
  | help
  | version (title : String)
  | missingOperand
  | invalidValue
  | unknownArgument
  | unknownCommand
  /-- An option given twice that counts once. -/
  | repeated
  /-- A value for an option that takes none. -/
  | unexpectedValue
  | missingCommand
  /-- A command that needs one below it, with nothing behind it. -/
  | noArguments
deriving DecidableEq, Repr

namespace ArgumentError

def exitCode : ArgumentError → Nat
  | help => 0
  | version _ => 0
  | _ => 2

/-- The line that tells the version of a command. -/
def versionLine (title : String) : String := title ++ " 0.1.0\n"

end ArgumentError

/-- What an option does. -/
inductive OptionEffect where
  /-- Counts how often it is given. -/
  | count
  | flag
  /-- Takes a value that the test accepts. -/
  | value (accepts : String → Bool)
  | help
  | version

structure OptionSpec where
  long : String
  short : Option Char
  effect : OptionEffect

/-- A command: the title under which it tells its version, its options, the test for its operand if it
takes one, and the commands below it. -/
inductive CommandSpec where
  | mk (title : String) (options : List OptionSpec) (operand : Option (String → Bool))
    (commands : List (String × CommandSpec)) (needsCommand : Bool)

namespace CommandSpec

def title : CommandSpec → String
  | mk title _ _ _ _ => title

/-- Options that every command has. -/
def commonOptions : List OptionSpec :=
  [⟨"debug", some 'd', .count⟩, ⟨"help", some 'h', .help⟩, ⟨"version", some 'V', .version⟩]

def options : CommandSpec → List OptionSpec
  | mk _ options _ _ _ => options ++ commonOptions

def operand : CommandSpec → Option (String → Bool)
  | mk _ _ operand _ _ => operand

def commands : CommandSpec → List (String × CommandSpec)
  | mk _ _ _ commands _ => commands

def needsCommand : CommandSpec → Bool
  | mk _ _ _ _ needsCommand => needsCommand

def isPath (s : String) : Bool := s ≠ ""

def isOrder (s : String) : Bool := (Order.ofName? s).isSome

def isShell (s : String) : Bool := (Shell.ofName? s).isSome

/-- The commands of the program. -/
def program : CommandSpec :=
  mk "astwalk" [] none
    [ ("walk", mk "astwalk-walk"
        [⟨"order", some 'o', .value isOrder⟩, ⟨"indent", some 'i', .flag⟩] (some isPath) [] false),
      ("parents", mk "astwalk-parents" [] (some isPath) [] false),
      ("tree", mk "astwalk-tree" [] (some isPath) [] false),
      ("config", mk "astwalk-config" [] none
        [ ("show", mk "astwalk-config-show" [⟨"dir", none, .value isPath⟩] none [] false),
          ("path", mk "astwalk-config-path" [] none [] false)] true),
      ("completion", mk "astwalk-completion" [] (some isShell) [] false)]
    false

/-- What asking for help on a row of commands leads to. A command with others below it also has the
command `help`. -/
def helpOn : CommandSpec → List String → ArgumentError
  | _, [] => .help
  | spec, name :: rest =>
      match spec.commands.lookup name with
      | some below => helpOn below rest
      | none =>
          if name = "help" && !spec.commands.isEmpty && rest.isEmpty then .help else .unknownCommand

end CommandSpec

/-- An argument whose value is not yet checked. -/
inductive Pending where
  /-- An option, with its value if that has been seen. -/
  | option (name : String) (accepts : String → Bool) (value : Option String)
  | operand (accepts : String → Bool) (value : String)

/-- What the arguments so far have said. -/
structure Scan where
  /-- The names of the commands, the outermost first. -/
  path : List String := []
  /-- How often debug was asked for before the innermost command. -/
  debugBefore : Nat := 0
  /-- How often debug was asked for behind the innermost command. -/
  debugHere : Nat := 0
  flags : List String := []
  values : List (String × String) := []
  operand : Option String := none
  pending : Option Pending := none

namespace Scan

/-- The greatest count of an option. -/
def maxCount : Nat := 255

/-- Whether an option still lacks its value. -/
def isWaiting (scan : Scan) : Bool :=
  match scan.pending with
  | some (.option _ _ none) => true
  | _ => false

/-- Whether the command has already taken its operand. -/
def hasOperand (scan : Scan) : Bool :=
  match scan.pending with
  | some (.operand _ _) => true
  | _ => scan.operand.isSome

/-- Gives an option its value. -/
def setValue (scan : Scan) (name : String) (accepts : String → Bool) (value : String) :
    Except ArgumentError Scan :=
  if (scan.values.lookup name).isSome then .error .repeated
  else if accepts value then .ok { scan with values := scan.values ++ [(name, value)] }
  else .error .invalidValue

/-- Checks the argument that is not yet checked. -/
def settle (scan : Scan) : Except ArgumentError Scan :=
  let settled := { scan with pending := none }
  match scan.pending with
  | none => .ok scan
  | some (.option _ _ none) => .error .invalidValue
  | some (.option name accepts (some value)) => settled.setValue name accepts value
  | some (.operand accepts value) =>
      if accepts value then .ok { settled with operand := some value } else .error .invalidValue

/-- Carries out an option that takes no value. -/
def applyFlag (title : String) (option : OptionSpec) (scan : Scan) : Except ArgumentError Scan := do
  let scan ← scan.settle
  match option.effect with
  | .count => .ok { scan with debugHere := min maxCount (scan.debugHere + 1) }
  | .flag =>
      if option.long ∈ scan.flags then .error .repeated
      else .ok { scan with flags := option.long :: scan.flags }
  | .help => .error .help
  | .version => .error (.version title)
  | .value _ => .ok scan

/-- Takes an option that takes a value, which may be there already. -/
def applyValue (name : String) (accepts : String → Bool) (attached : Option String) (scan : Scan) :
    Except ArgumentError Scan := do
  let scan ← scan.settle
  match attached with
  | some value => scan.setValue name accepts value
  | none => .ok { scan with pending := some (.option name accepts none) }

/-- Takes an argument that starts with two dashes, given what follows them. -/
def takeLong (spec : CommandSpec) (text : List Char) (scan : Scan) : Except ArgumentError Scan :=
  let name := String.ofList (text.takeWhile (· ≠ '='))
  let attached : Option String :=
    match text.dropWhile (· ≠ '=') with
    | _ :: value => some (String.ofList value)
    | [] => none
  match spec.options.find? fun option => option.long = name with
  | none => .error .unknownArgument
  | some option =>
      match option.effect with
      | .value accepts => scan.applyValue name accepts attached
      | _ => if attached.isSome then .error .unexpectedValue else scan.applyFlag spec.title option

/-- Takes the short options written together behind a dash. -/
def takeShort (spec : CommandSpec) : List Char → Scan → Except ArgumentError Scan
  | [], scan => .ok scan
  | c :: rest, scan =>
      match spec.options.find? fun option => option.short = some c with
      | none => .error .unknownArgument
      | some option =>
          match option.effect with
          | .value accepts =>
              let attached : Option String :=
                match rest with
                | [] => none
                | '=' :: value => some (String.ofList value)
                | value => some (String.ofList value)
              scan.applyValue option.long accepts attached
          | _ => do takeShort spec rest (← scan.applyFlag spec.title option)

/-- Takes an argument that is no option and no command. Behind `--` even the name of a command is
none. -/
def takeOperand (spec : CommandSpec) (onlyOperands : Bool) (arg : String) (scan : Scan) :
    Except ArgumentError Scan :=
  match spec.operand with
  | some accepts =>
      if scan.hasOperand then .error .unknownArgument
      else do
        let scan ← scan.settle
        .ok { scan with pending := some (.operand accepts arg) }
  | none =>
      if spec.commands.isEmpty || (onlyOperands && (arg = "help" || (spec.commands.lookup arg).isSome))
      then .error .unknownArgument
      else .error .unknownCommand

/-- Gives the waiting option its value. -/
def takeValue (arg : String) (scan : Scan) : Scan :=
  match scan.pending with
  | some (.option name accepts none) =>
      { scan with pending := some (.option name accepts (some arg)) }
  | _ => scan

/-- How often debug was asked for: the innermost command that was asked counts. -/
def debug (scan : Scan) : Nat := if scan.debugHere = 0 then scan.debugBefore else scan.debugHere

/-- Goes on to a command below. -/
def enter (name : String) (scan : Scan) : Scan :=
  { path := scan.path ++ [name], debugBefore := scan.debug }

/-- Checks at the end that nothing is missing. -/
def finish (spec : CommandSpec) (scan : Scan) : Except ArgumentError Scan := do
  let scan ← scan.settle
  if spec.needsCommand then
    if scan.debugHere = 0 && scan.flags.isEmpty && scan.values.isEmpty then .error .noArguments
    else .error .missingCommand
  else if spec.operand.isSome && scan.operand.isNone then .error .missingOperand
  else .ok scan

/-- Takes operands up to the end. -/
def takeOperands (spec : CommandSpec) : List String → Scan → Except ArgumentError Scan
  | [], scan => scan.finish spec
  | arg :: rest, scan => do takeOperands spec rest (← scan.takeOperand spec true arg)

/-- Takes all arguments of a command. -/
def takeAll : CommandSpec → List String → Scan → Except ArgumentError Scan
  | spec, [], scan => scan.finish spec
  | spec, arg :: rest, scan =>
      match if scan.isWaiting then none else spec.commands.lookup arg with
      | some below => takeAll below rest (scan.enter arg)
      | none =>
          if !scan.isWaiting && arg = "help" && !spec.commands.isEmpty then .error (spec.helpOn rest)
          else
            match arg.toList with
            | ['-', '-'] => takeOperands spec rest scan
            | '-' :: '-' :: text => do takeAll spec rest (← scan.takeLong spec text)
            | '-' :: c :: text => do takeAll spec rest (← scan.takeShort spec (c :: text))
            | _ =>
                if scan.isWaiting then takeAll spec rest (scan.takeValue arg)
                else do takeAll spec rest (← scan.takeOperand spec false arg)

/-- The command that the arguments name. -/
def command? (scan : Scan) : Option Command :=
  let operand := scan.operand.getD ""
  match scan.path with
  | ["walk"] =>
      some (.walk operand ((scan.values.lookup "order").bind Order.ofName?) ("indent" ∈ scan.flags))
  | ["parents"] => some (.parents operand)
  | ["tree"] => some (.tree operand)
  | ["config", "show"] => some (.showSettings (scan.values.lookup "dir"))
  | ["config", "path"] => some .showPaths
  | ["completion"] => (Shell.ofName? operand).map .completion
  | _ => none

end Scan

/-- Reads a command line, given without the program's name. -/
def Invocation.parse (args : List String) : Except ArgumentError Invocation := do
  let scan ← Scan.takeAll .program args {}
  .ok ⟨scan.debug, scan.command?⟩

/-! ### Help

What the program says about its command line. -/

/-- How the program is used. -/
def Invocation.help : String :=
  "\n".intercalate
    [ "Usage: astwalk [OPTIONS] [COMMAND]",
      "",
      "Commands:",
      "  walk [--order pre|post|level] [--indent] FILE   list the labels of a tree",
      "  parents FILE                                    list each node with its parent",
      "  tree FILE                                       draw a tree",
      "  config show [--dir DIR]                         show the settings",
      "  config path                                     show where settings are looked for",
      "  completion SHELL                                write completions for a shell",
      "  help [COMMAND]...                               show this help",
      "",
      "Options:",
      "  -d, --debug     log more, up to three times",
      "  -h, --help      show this help",
      "  -V, --version   show the version",
      "" ]

namespace ArgumentError

/-- What is wrong with the command line, in words. -/
def reason : ArgumentError → String
  | help => "help was asked for"
  | version _ => "the version was asked for"
  | missingOperand => "a required argument is missing"
  | invalidValue => "a value is missing or not accepted"
  | unknownArgument => "an argument was not expected"
  | unknownCommand => "there is no such command"
  | repeated => "an option is given more than once"
  | unexpectedValue => "an option that takes no value is given one"
  | missingCommand => "a command is missing"
  | noArguments => "a command is missing"

def stdout : ArgumentError → String
  | help => Invocation.help
  | version title => versionLine title
  | _ => ""

def stderr : ArgumentError → String
  | help => ""
  | version _ => ""
  | error => "error: " ++ error.reason ++ "\n\n" ++ Invocation.help

end ArgumentError

end TreeWalk
