import RuleBase.Text.Numeral

/-!
# Arguments of a command line

A command line names a command with its path, and options before and after the command. Options
have a long name behind two dashes, some a letter behind one; letters may stand together, and the
value of an option follows it, perhaps behind a `=`. Two dashes alone end the options.

* `Task`, `Request`: what is asked for; `Refusal`: why nothing is run;
* `Level`: the options that are allowed at some place; `readLevel`: the options read there;
* `Request.ofArguments`.
-/

namespace RuleBase.Command

/-- What to do with the rule bases at a path. -/
inductive Task where
  | flatten (path : String) (json : Bool)
  | possibilities (path : String) (rule : Option String)
  | outline (path rule : String)
  deriving DecidableEq

/-- The path that a task reads. -/
def Task.path : Task → String
  | .flatten path _ => path
  | .possibilities path _ => path
  | .outline path _ => path

/-- A task with the options of all tasks. -/
structure Request where
  task : Task
  maxRulePossibilities : Option Nat
  deriving DecidableEq

/-- Why a command line runs no task. -/
inductive Refusal where
  | malformed
  | version
  | usage
  deriving DecidableEq

/-! ## Options -/

/-- The options. -/
inductive Flag where
  | verbose
  | maxRulePossibilities
  | json
  | rule
  | version
  | usage
  deriving DecidableEq

/-- The long name of an option. -/
def Flag.name : Flag → String
  | .verbose => "verbose"
  | .maxRulePossibilities => "max-rule-possibilities"
  | .json => "json"
  | .rule => "rule"
  | .version => "version"
  | .usage => "help"

/-- The letter of an option. -/
def Flag.letter? : Flag → Option Char
  | .verbose => some 'v'
  | .rule => some 'r'
  | .version => some 'V'
  | .usage => some 'h'
  | .maxRulePossibilities | .json => none

/-- Whether an option has a value. -/
def Flag.takesValue : Flag → Bool
  | .maxRulePossibilities | .rule => true
  | _ => false

/-- A place in the command line: its options, and how many other arguments it has. Without any,
the first other argument ends the place. -/
structure Level where
  flags : List Flag
  positionals : Nat

/-- The option of a level with the given name. -/
def Level.named? (level : Level) (name : List Char) : Option Flag :=
  level.flags.find? (·.name.toList == name)

/-- The option of a level with the given letter. -/
def Level.lettered? (level : Level) (letter : Char) : Option Flag :=
  level.flags.find? (·.letter? == some letter)

/-- What has been read at a level. -/
structure Given where
  flags : List (Flag × String) := []
  positionals : List String := []
  deriving DecidableEq

/-- The value that an option was given. -/
def Given.value? (given : Given) (flag : Flag) : Option String := given.flags.lookup flag

/-- Whether an option was given. -/
def Given.has (given : Given) (flag : Flag) : Bool := (given.value? flag).isSome

/-- A number of 64 bits. -/
def number? (text : String) : Option Nat := Text.unsigned? 18446744073709551616 text.toList

/-- One more option with its value. No option is given twice, and a number has to be one. -/
def give (given : Given) (flag : Flag) (value : String) : Except Refusal Given :=
  if flag = .version then .error .version
  else if flag = .usage then .error .usage
  else if given.has flag then .error .malformed
  else if flag = .maxRulePossibilities ∧ number? value = none then .error .malformed
  else .ok { given with flags := given.flags ++ [(flag, value)] }

/-- One more argument that is no option. The first one is a path, which is not empty. -/
def place (level : Level) (given : Given) (text : String) : Except Refusal Given :=
  if level.positionals ≤ given.positionals.length then .error .malformed
  else if given.positionals.isEmpty ∧ text = "" then .error .malformed
  else .ok { given with positionals := given.positionals ++ [text] }

/-! ## Reading -/

/-- The form of an argument. -/
inductive Form where
  /-- Two dashes alone. -/
  | terminator
  /-- A long name, perhaps with a value. -/
  | long (name : List Char) (value : Option (List Char))
  /-- Letters. -/
  | letters (letters : List Char)
  | plain
  deriving DecidableEq

/-- The form of an argument; a dash alone is plain. -/
def Form.of (argument : List Char) : Form :=
  match argument with
  | ['-', '-'] => .terminator
  | '-' :: '-' :: text =>
    match text.dropWhile (· != '=') with
    | _ :: value => .long (text.takeWhile (· != '=')) (some value)
    | [] => .long text none
  | '-' :: c :: rest => .letters (c :: rest)
  | _ => .plain

/-- Reads letters. An option with a value takes what is left, without a `=` in front; if nothing
is left, the value is still to come. -/
def readLetters (level : Level) (given : Given) : List Char → Except Refusal (Given × Option Flag)
  | [] => .ok (given, none)
  | c :: rest =>
    match level.lettered? c with
    | none => .error .malformed
    | some flag =>
      if flag.takesValue then
        match rest with
        | [] => .ok (given, some flag)
        | '=' :: value => (give given flag (String.ofList value)).map (·, none)
        | value => (give given flag (String.ofList value)).map (·, none)
      else
        match give given flag "" with
        | .error e => .error e
        | .ok given => readLetters level given rest

/-- Reads a long name. -/
def readLong (level : Level) (given : Given) (name : List Char) (value : Option (List Char)) :
    Except Refusal (Given × Option Flag) :=
  match level.named? name, value with
  | none, _ => .error .malformed
  | some flag, some value =>
    if flag.takesValue then (give given flag (String.ofList value)).map (·, none)
    else .error .malformed
  | some flag, none =>
    if flag.takesValue then .ok (given, some flag) else (give given flag "").map (·, none)

/-- Reads the options and arguments of a level; `pending` is an option whose value is to come.
What follows the first plain argument of a level without any is left over. -/
def readLevel (level : Level) (given : Given) (pending : Option Flag) :
    List String → Except Refusal (Given × List String)
  | [] => if pending.isSome then .error .malformed else .ok (given, [])
  | argument :: rest =>
    match Form.of argument.toList, pending with
    | .plain, some flag => do readLevel level (← give given flag argument) none rest
    | _, some _ => .error .malformed
    | .plain, none =>
      if level.positionals = 0 then .ok (given, argument :: rest)
      else do readLevel level (← place level given argument) none rest
    | .terminator, none => do
      if level.positionals = 0 then .error .malformed
      else return (← rest.foldlM (place level) given, [])
    | .long name value, none => do
      let (given, pending) ← readLong level given name value
      readLevel level given pending rest
    | .letters letters, none => do
      let (given, pending) ← readLetters level given letters
      readLevel level given pending rest

/-! ## Commands -/

/-- The place before the command. -/
def outerLevel : Level := ⟨[.verbose, .maxRulePossibilities, .version, .usage], 0⟩

/-- The place behind a command, by its name. -/
def innerLevel? (name : String) : Option Level :=
  let common : List Flag := [.verbose, .maxRulePossibilities, .usage]
  if name = "flatten" then some ⟨.json :: common, 1⟩
  else if name = "possibilities" then some ⟨.rule :: common, 1⟩
  else if name = "show" then some ⟨common, 2⟩
  else none

/-- The task of the command with the given name. -/
def task? (name : String) (given : Given) : Option Task :=
  match name, given.positionals with
  | "flatten", [path] => some (.flatten path (given.has .json))
  | "possibilities", [path] => some (.possibilities path (given.value? .rule))
  | "show", [path, rule] => some (.outline path rule)
  | _, _ => none

/-- The request of a command line. An option counts in its last place. -/
def Request.ofArguments (arguments : List String) : Except Refusal Request := do
  let (outer, rest) ← readLevel outerLevel {} none arguments
  match rest with
  | [] => throw .malformed
  | name :: rest =>
    if name = "help" then throw .usage
    match innerLevel? name with
    | none => throw .malformed
    | some level =>
      let (inner, _) ← readLevel level {} none rest
      match task? name inner with
      | none => throw .malformed
      | some task =>
        let value? := (inner.value? .maxRulePossibilities).or (outer.value? .maxRulePossibilities)
        return ⟨task, value?.bind number?⟩

end RuleBase.Command
