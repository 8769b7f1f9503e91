import Fibers.Config

/-! Configuration from the environment.

Each tunable has an environment variable of its own. A variable holds bytes; one
whose bytes are no UTF-8 text counts as not set. -/
namespace Fibers.Config

/-- The environment variable of a named tunable: the name in capitals, with underscores
for dots, after the common first part. Only ASCII letters have capitals here. -/
def variableName (key : String) : String :=
  "SPINDLE_" ++ String.ofList (key.toList.map fun c => if c = '.' then '_' else c.toUpper)

/-- What an environment variable is set to. -/
inductive Setting
  | text (value : String)
  | bytes (value : ByteArray)

/-- The text of a setting, if it is one. -/
def Setting.text? : Setting → Option String
  | .text value => some value
  | .bytes value => String.fromUTF8? value

/-- The environment of a process, as far as it is consulted: the variable of the default
stack size. -/
abbrev Environment := Option Setting

/-- The text of a variable. -/
def Environment.lookup (environment : Environment) (name : String) : Option String :=
  if name = variableName stackSizeKey then environment.bind Setting.text? else none

/-- The configuration that an environment gives. -/
def ofEnvironment (environment : Environment) : Except Error Config :=
  Id.run (ofLookup fun key => pure (environment.lookup (variableName key)))

end Fibers.Config
