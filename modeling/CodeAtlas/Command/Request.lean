namespace CodeAtlas

/-- What is done with a project. -/
inductive Task where
  | index
  | search (query : String) (limit : Option Nat)
  | stats
  | neighbors (id : String)
  deriving Repr, DecidableEq

structure Request where
  task : Task
  /-- The root of the project. -/
  path : String
  /-- A file of settings in the place of the one that the project has. -/
  config : Option String
  json : Bool
  deriving Repr, DecidableEq

/-- Why words are no request. -/
inductive UsageError where
  | unknownOption (text : String)
  | unexpectedValue (name : String)
  | repeatedOption (name : String)
  | missingValue (name : String)
  | invalidValue (name value : String)
  | unexpectedWord (text : String)
  | missingWord (name : String)
  | unknownTask (name : String)
  | missingTask
  deriving Repr, DecidableEq

def UsageError.message : UsageError → String
  | unknownOption text => s!"unknown option '{text}'"
  | unexpectedValue name => s!"'{name}' takes no value"
  | repeatedOption name => s!"'{name}' is given more than once"
  | missingValue name => s!"'{name}' needs a value"
  | invalidValue name value => s!"'{value}' is no value for '{name}'"
  | unexpectedWord text => s!"unexpected word '{text}'"
  | missingWord name => s!"{name} is missing"
  | unknownTask name => s!"unknown command '{name}'"
  | missingTask => "a command is missing"

/-- Why there is nothing to be done. -/
inductive Refusal where
  | help
  | version
  | misuse (error : UsageError)
  deriving Repr, DecidableEq

namespace Refusal

/-- How the program is called. -/
def usage : String :=
  "Usage: context-graph [OPTIONS] <COMMAND>\n\n" ++
  "Commands:\n" ++
  "  index <PATH>                     Build the code graph and vector index of a project\n" ++
  "  search [-k LIMIT] <PATH> <QUERY> Search indexed code with graph-aware ranking\n" ++
  "  stats <PATH>                     Show node and edge counts of the indexed graph\n" ++
  "  neighbors <PATH> <NODE_ID>       Show the direct graph neighbourhood of a node\n\n" ++
  "Options:\n" ++
  "  -v, --verbose        Enable verbose logging\n" ++
  "      --quiet          Quiet mode: log only warnings/errors\n" ++
  "      --config <FILE>  Engine config (TOML)\n" ++
  "      --json           Print JSON on stdout\n" ++
  "  -h, --help           Print help\n" ++
  "  -V, --version        Print version\n"

/-- The status with which the program ends. -/
def status : Refusal → Nat
  | help => 0
  | version => 0
  | misuse _ => 2

/-- What the program says about itself. -/
def output : Refusal → String
  | help => usage
  | version => "context-graph 0.1.1\n"
  | misuse _ => ""

end Refusal

/-- Options without a value. -/
inductive Switch where
  | verbose | quiet | json | help | version
  deriving Repr, DecidableEq

/-- Options with a value. -/
inductive Setting where
  | config | limit
  deriving Repr, DecidableEq

def Switch.long : Switch → String
  | verbose => "verbose"
  | quiet => "quiet"
  | json => "json"
  | help => "help"
  | version => "version"

def Switch.short? : Switch → Option Char
  | verbose => some 'v'
  | help => some 'h'
  | version => some 'V'
  | _ => none

def Setting.long : Setting → String
  | config => "config"
  | limit => "limit"

def Setting.short? : Setting → Option Char
  | config => none
  | limit => some 'k'

/-- What may be said at a place among the words. -/
structure Form where
  switches : List Switch
  settings : List Setting
  /-- Names of the words that are no options. -/
  operands : List String

namespace Form

/-- What may be said before the task. -/
def general : Form := ⟨[.verbose, .quiet, .json, .help, .version], [.config], []⟩

/-- What may be said after the name of a task. -/
def ofTask? : String → Option Form
  | "index" => some ⟨[.verbose, .quiet, .json, .help], [.config], ["PATH"]⟩
  | "search" => some ⟨[.verbose, .quiet, .json, .help], [.config, .limit], ["PATH", "QUERY"]⟩
  | "stats" => some ⟨[.verbose, .quiet, .json, .help], [.config], ["PATH"]⟩
  | "neighbors" => some ⟨[.verbose, .quiet, .json, .help], [.config], ["PATH", "NODE_ID"]⟩
  | _ => none

end Form

/-- What was said so far. -/
structure Given where
  switches : List Switch
  config : Option String
  limit : Option Nat
  operands : List String

namespace Given

def nothing : Given := ⟨[], none, none, []⟩

def addSwitch (given : Given) (switch : Switch) : Except Refusal Given :=
  match switch with
  | .help => .error .help
  | .version => .error .version
  | _ =>
    if given.switches.contains switch then .error (.misuse (.repeatedOption switch.long))
    else .ok { given with switches := switch :: given.switches }

/-- A number below 2 to the 64th in decimal digits; a plus may stand before them. -/
def count? (text : String) : Option Nat :=
  let digits := match text.toList with
    | '+' :: digits => digits
    | digits => digits
  if digits.isEmpty || !digits.all Char.isDigit then none
  else
    let value := digits.foldl (fun n c => 10 * n + (c.toNat - '0'.toNat)) 0
    if value < UInt64.size then some value else none

def addSetting (given : Given) (setting : Setting) (value : String) : Except Refusal Given :=
  let repeated : Except Refusal Given := .error (.misuse (.repeatedOption setting.long))
  let invalid : Except Refusal Given := .error (.misuse (.invalidValue setting.long value))
  match setting with
  | .config =>
    if given.config.isSome then repeated
    else if value.isEmpty then invalid
    else .ok { given with config := some value }
  | .limit =>
    if given.limit.isSome then repeated
    else
      match count? value with
      | some limit => .ok { given with limit := some limit }
      | none => invalid

/-- Adds a word that is no option. The first one is a path, which is not empty. -/
def addOperand (given : Given) (form : Form) (word : String) : Except Refusal Given :=
  match form.operands[given.operands.length]? with
  | none => .error (.misuse (.unexpectedWord word))
  | some name =>
    if given.operands.isEmpty && word.isEmpty then .error (.misuse (.invalidValue name word))
    else .ok { given with operands := given.operands ++ [word] }

/-- Reads options of one letter each after a dash; yields the setting that awaits its value in the
next word, if there is one. -/
def readLetters (form : Form) : Given → List Char → Except Refusal (Given × Option Setting)
  | given, [] => .ok (given, none)
  | given, c :: rest =>
    match form.switches.find? (·.short? == some c), form.settings.find? (·.short? == some c) with
    | some switch, _ => do readLetters form (← given.addSwitch switch) rest
    | none, some setting =>
      match rest with
      | [] => .ok (given, some setting)
      | '=' :: value => do return (← given.addSetting setting (String.ofList value), none)
      | value => do return (← given.addSetting setting (String.ofList value), none)
    | none, none => .error (.misuse (.unknownOption (String.ofList ['-', c])))

/-- Reads an option after two dashes, with the value that may follow an equals sign. -/
def readName (form : Form) (given : Given) (text : List Char) :
    Except Refusal (Given × Option Setting) :=
  let name := String.ofList (text.takeWhile (· != '='))
  let value? := match text.dropWhile (· != '=') with
    | _ :: value => some (String.ofList value)
    | [] => none
  match form.switches.find? (·.long == name), form.settings.find? (·.long == name), value? with
  | some switch, _, none => do return (← given.addSwitch switch, none)
  | some _, _, some _ => .error (.misuse (.unexpectedValue name))
  | none, some setting, some value => do return (← given.addSetting setting value, none)
  | none, some setting, none => .ok (given, some setting)
  | none, none, _ => .error (.misuse (.unknownOption ("--" ++ name)))

/-- Reads the options in a word, none if it has no options. -/
def readOptions? (form : Form) (given : Given) (word : String) :
    Option (Except Refusal (Given × Option Setting)) :=
  match word.toList with
  | '-' :: '-' :: c :: rest => some (readName form given (c :: rest))
  | ['-', '-'] => none
  | '-' :: c :: rest => some (readLetters form given (c :: rest))
  | _ => none

/-- Whether a word can be the value of an option before it. -/
def isValue (word : String) : Bool := !word.startsWith "-" || word == "-"

/-- Reads words up to the first that does not belong here. After two dashes there are no more
options. -/
def readWords (form : Form) : Given → List String → Except Refusal (Given × List String)
  | given, [] => .ok (given, [])
  | given, word :: rest =>
    if form.operands.isEmpty && (readOptions? form given word).isNone then .ok (given, word :: rest)
    else if word == "--" then do
      return (← rest.foldlM (fun given word => given.addOperand form word) given, [])
    else
      match readOptions? form given word with
      | none => do readWords form (← given.addOperand form word) rest
      | some (.error refusal) => .error refusal
      | some (.ok (given, none)) => readWords form given rest
      | some (.ok (given, some setting)) =>
        match rest with
        | value :: rest =>
          if isValue value then do readWords form (← given.addSetting setting value) rest
          else .error (.misuse (.missingValue setting.long))
        | [] => .error (.misuse (.missingValue setting.long))

end Given

namespace Request

/-- The task of a name with its words. -/
def taskOf (name : String) (given : Given) : Task :=
  let second := (given.operands[1]?).getD ""
  match name with
  | "search" => .search second given.limit
  | "stats" => .stats
  | "neighbors" => .neighbors second
  | _ => .index

/-- What is asked for in help of a task. -/
def readHelp (words : List String) : Refusal :=
  match words with
  | [] => .help
  | [name] =>
    if name == "help" || (Form.ofTask? name).isSome then .help else .misuse (.unknownTask name)
  | name :: _ => .misuse (.unknownTask name)

/-- Reads a request. Options that are said before the task hold for it too; what is said after it
counts more. -/
def read (words : List String) : Except Refusal Request := do
  let (before, rest) ← Given.readWords .general .nothing words
  match rest with
  | [] => throw (.misuse .missingTask)
  | "help" :: rest => throw (readHelp rest)
  | name :: rest =>
    match Form.ofTask? name with
    | none => throw (.misuse (.unknownTask name))
    | some form =>
      let (given, _) ← Given.readWords form .nothing rest
      match form.operands[given.operands.length]? with
      | some missing => throw (.misuse (.missingWord missing))
      | none =>
        return {
          task := taskOf name given
          path := (given.operands.head?).getD ""
          config := given.config.or before.config
          json := given.switches.contains .json || before.switches.contains .json }

end Request

end CodeAtlas
