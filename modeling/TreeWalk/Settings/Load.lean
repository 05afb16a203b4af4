import TreeWalk.Files
import TreeWalk.Settings.Environment
import TreeWalk.Toml.Writer

/-!
Loading settings: the defaults, then the global settings file, the settings file in a directory, and the
environment, each over the ones before. A file that does not exist sets nothing, and one that exists
must be right even if all it sets is set again above it. Only the final separator must not be empty.
-/

namespace TreeWalk

/-- What is wrong with the settings. -/
inductive ConfigError where
  | unreadable (path : String) (fault : FileFault)
  | malformed (path : String) (error : Toml.ReadError)
  | environment (error : EnvError)
  | emptySeparator
  /-- The width is no signed 64-bit integer, so it cannot be written. -/
  | widthTooLarge
deriving Repr

def ConfigError.message : ConfigError → String
  | unreadable path fault => "read " ++ path ++ ": " ++ fault.message
  | malformed path error => "parse " ++ path ++ ": " ++ error.message
  | environment error => error.message
  | emptySeparator => "separator must not be empty"
  | widthTooLarge => "out-of-range value for u64 type"

namespace Settings

/-- The settings file of a directory. -/
def localPath (directory : String) : String := Path.join directory ".astwalk.toml"

/-- The directory of settings. It lies in the home directory, which is the one that the environment names or
else the one that the system knows, unless the environment names another directory. -/
def configHome? (env : Environment) (systemHome : Option String) : Option String :=
  match (env.get? "HOME").filter (· ≠ "") <|> systemHome with
  | none => none
  | some home =>
      match (env.get? "XDG_CONFIG_HOME").filter Path.isAbsolute with
      | some directory => some directory
      | none => some (Path.join home ".config")

/-- The global settings file. -/
def globalPath? (env : Environment) (systemHome : Option String) : Option String :=
  (configHome? env systemHome).map fun directory => Path.join (Path.join directory "astwalk") "astwalk.toml"

/-- The layer of a settings file, which sets nothing if it does not exist. -/
def fileLayer (disk : Disk) (path : String) : Except ConfigError Layer :=
  if disk.contains path then
    match disk.read path with
    | .error fault => .error (.unreadable path fault)
    | .ok content => (Layer.parse content).mapError (.malformed path)
  else .ok {}

/-- The layer of a settings file that may not be named at all. -/
def fileLayer? (disk : Disk) : Option String → Except ConfigError Layer
  | none => .ok {}
  | some path => fileLayer disk path

/-- The settings from a global file, a directory and the environment. -/
def loadFrom (disk : Disk) (env : Environment) (globalPath directory : Option String) :
    Except ConfigError Settings := do
  let globalLayer ← fileLayer? disk globalPath
  let localLayer ← fileLayer? disk (directory.map localPath)
  let envLayer ← env.layer.mapError .environment
  let settings := (({} : Settings).overlay globalLayer |>.overlay localLayer).overlay envLayer
  if settings.separator = "" then .error .emptySeparator else .ok settings

/-- The settings from the global file, a directory and the environment. -/
def load (disk : Disk) (env : Environment) (systemHome directory : Option String) :
    Except ConfigError Settings :=
  loadFrom disk env (globalPath? env systemHome) directory

/-- The settings as a settings file. -/
def toToml (settings : Settings) : Except ConfigError String :=
  if !Decimal.fitsInt64 settings.indentWidth.toNat then .error .widthTooLarge
  else
    .ok (String.ofList
      (Toml.writeField "order" (Toml.writeString settings.order.name.toList)
        ++ Toml.writeField "indent" (toString settings.indent).toList
        ++ Toml.writeField "indent_width" (toString settings.indentWidth.toNat).toList
        ++ Toml.writeField "separator" (Toml.writeString settings.separator.toList)))

end Settings

end TreeWalk
