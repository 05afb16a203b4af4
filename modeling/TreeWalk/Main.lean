import TreeWalk.Command.Run

/-!
The command line program. It takes a snapshot of the files that a command looks at, so that carrying
out the command is a function of what was found.
-/

namespace TreeWalk.Program

/-- What the system says about a path. -/
def faultOf : IO.Error → FileFault
  | .noFileOrDirectory _ code details => if code = 2 then .notFound else coded code details
  | .inappropriateType _ code details => coded code details
  | .permissionDenied _ code details => coded code details
  | .invalidArgument _ code details => coded code details
  | .resourceExhausted _ code details => coded code details
  | .otherError code details => coded code details
  | error => .reported false (toString error)
where
  coded (code : UInt32) (details : String) : FileFault :=
    .reported false (details ++ " (os error " ++ toString code ++ ")")

/-- What a file holds. -/
def readAt (path : String) : IO FileEntry := do
  try return .file (← IO.FS.readBinFile path) catch error => return .unreadable (faultOf error)

/-- What is found at a path. -/
def lookAt (path : String) : IO (Except FileFault FileEntry) := do
  if '\x00' ∈ path.toList then return .error .nulInName
  try
    let found ← IO.FS.realPath path
    return .ok (← if ← found.isDir then pure .directory else readAt path)
  catch error => return .error (faultOf error)

/-- The disk of the given paths. -/
def snapshot (paths : List String) : IO Disk := do
  let found ← paths.mapM fun path => do return (path, ← lookAt path)
  return fun path => (found.lookup path).getD (.error .notFound)

/-- The names that the program asks for where the whole environment cannot be read. -/
def knownNames : List String :=
  ["HOME", "XDG_CONFIG_HOME", "CLICOLOR_FORCE", "CLICOLOR", "NO_COLOR", "ASTWALK_ORDER",
    "ASTWALK_INDENT", "ASTWALK_INDENT_WIDTH", "ASTWALK_SEPARATOR"]

def environment : IO Environment := do
  try
    let block ← IO.FS.readBinFile "/proc/self/environ"
    match String.fromUTF8? block with
    | some text => return .ofBlock text
    | none => known
  catch _ => known
where
  known : IO Environment :=
    knownNames.filterMapM fun name => do return (← IO.getEnv name).map ((name, ·))

/-- The home directory of a user, by the number of the user, in a database of users. -/
def homeIn? (database user : String) : Option String :=
  (Text.splitLines database).findSome? fun line =>
    match (Text.splitAt ':' line.toList).map String.ofList with
    | _ :: _ :: number :: _ :: _ :: home :: _ => if number = user then some home else none
    | _ => none

/-- The number of the user, in what the system says about a process. -/
def userIn? (status : String) : Option String :=
  (Text.splitLines status).findSome? fun line =>
    match (Text.splitAt '\t' line.toList).map String.ofList with
    | "Uid:" :: number :: _ => some number
    | _ => none

/-- The home directory that the system knows. -/
def systemHome : IO (Option String) := do
  try
    let status ← IO.FS.readFile "/proc/self/status"
    let database ← IO.FS.readFile "/etc/passwd"
    return (userIn? status).bind (homeIn? database)
  catch _ => return none

/-- A script that makes a shell complete the names of the commands. -/
def completionScript (shell : Shell) : String :=
  let words := " ".intercalate (CommandSpec.program.commands.map (·.1))
  match shell with
  | .bash => "complete -W \"" ++ words ++ "\" astwalk\n"
  | .zsh => "#compdef astwalk\n_arguments '1:command:(" ++ words ++ ")'\n"
  | .fish => "complete -c astwalk -f -n __fish_use_subcommand -a \"" ++ words ++ "\"\n"
  | .elvish =>
      "set edit:completion:arg-completer[astwalk] = \x7b|@args| put " ++ words ++ " \x7d\n"
  | .powershell =>
      "Register-ArgumentCompleter -Native -CommandName astwalk -ScriptBlock \x7b '" ++ words
        ++ "'.Split(' ') \x7d\n"

/-- Carries out a command line that was understood. -/
def execute (invocation : Invocation) : IO UInt32 := do
  let env ← environment
  let home ← systemHome
  let colours := Style.coloursOn env (← (← IO.getStdout).isTty)
  let disk ← snapshot ((invocation.command.map (·.paths env home)).getD [])
  IO.eprint invocation.warning
  if let some line := invocation.logLine? then IO.eprintln line
  let outcome := invocation.run ⟨disk, env, home, completionScript, colours⟩
  IO.print outcome.stdout
  IO.eprint (outcome.stderr colours)
  if let some (.crashed error) := outcome.stop then IO.eprintln error.message
  return outcome.exitCode.toUInt32

end TreeWalk.Program

def main (args : List String) : IO UInt32 := do
  match TreeWalk.Invocation.parse args with
  | .ok invocation => TreeWalk.Program.execute invocation
  | .error error =>
      IO.print error.stdout
      IO.eprint error.stderr
      return error.exitCode.toUInt32
