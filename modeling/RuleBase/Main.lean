import RuleBase.Command.Run
import RuleBase.Json.Reader

/-!
# The command line

The files of the workspace come from standard input as one JSON object, in which each path has the
content of its file; a path that ends in `/` is an empty directory.
-/

namespace RuleBase.Command

/-- The files that a text lists. -/
def filesOf (text : String) : List (String × String) :=
  match Json.read 2 text with
  | .ok (.object members) =>
    members.filterMap fun
      | (path, .string content) => some (path, content)
      | _ => none
  | _ => []

end RuleBase.Command

open RuleBase.Command

/-- Runs the command line. -/
def main (arguments : List String) : IO UInt32 := do
  let input ← (← IO.getStdin).readToEnd
  let outcome := run (Workspace.ofFiles (filesOf input)) arguments
  IO.print outcome.stdout
  IO.eprint outcome.stderr
  return outcome.exit.toUInt32
