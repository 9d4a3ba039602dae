/-!
# Workspaces

A workspace is a directory of files. Paths in it are relative to it; they may go back up by `..`,
but not out of it. The documents below a path are its `json` files, directory by directory in the
order of their names.

* `Node`, `Workspace`, `Workspace.ofFiles`: files and directories;
* `Workspace.find`: what stands at a path; `PathError`;
* `Node.documents`: the documents below a node.
-/

namespace RuleBase.Command

/-- A file, or a directory with the names of its entries in order. -/
inductive Node where
  | file (content : String)
  | directory (entries : List (String × Node))

/-- The entries of a workspace. -/
abbrev Workspace : Type := List (String × Node)

/-- The entries of a directory; a file has none. -/
def Node.entries : Node → List (String × Node)
  | .file _ => []
  | .directory entries => entries

/-- Entries with one of them put in its place. -/
def putEntry (name : String) (node : Node) : List (String × Node) → List (String × Node)
  | [] => [(name, node)]
  | (other, n) :: rest =>
    if other = name then (name, node) :: rest
    else if name < other then (name, node) :: (other, n) :: rest
    else (other, n) :: putEntry name node rest

/-- Adds a file at a path, or a directory if there is no content. -/
def Workspace.insert (entries : Workspace) (path : List String) (content : Option String) :
    Workspace :=
  match path with
  | [] => entries
  | [name] =>
    match content with
    | some content => putEntry name (.file content) entries
    | none => putEntry name (.directory (((entries.lookup name).map Node.entries).getD [])) entries
  | name :: rest =>
    let below := ((entries.lookup name).map Node.entries).getD []
    putEntry name (.directory (Workspace.insert below rest content)) entries

/-! ## Paths -/

/-- Why there is nothing at a path. -/
inductive PathError where
  | missing
  | notDirectory
  deriving DecidableEq

/-- The text of an error. -/
def PathError.message : PathError → String
  | .missing => "No such file or directory (os error 2)"
  | .notDirectory => "Not a directory (os error 20)"

/-- The segments of a path. -/
def segments (path : String) : List String :=
  path.toList.foldr (fun c acc =>
    if c = '/' then "" :: acc
    else match acc with
      | [] => [c.toString]
      | first :: rest => (c.toString ++ first) :: rest) [""]

/-- Goes on from a directory by one segment; the directories on the way are kept for going back. -/
def go : List Node → String → Except PathError (List Node)
  | .directory entries :: above, segment =>
    if segment = "" ∨ segment = "." then .ok (.directory entries :: above)
    else if segment = ".." then if above.isEmpty then .error .missing else .ok above
    else
      match entries.lookup segment with
      | none => .error .missing
      | some node => .ok (node :: .directory entries :: above)
  | _, _ => .error .notDirectory

/-- What stands at a path, with its name. A path from the root of the file system leads out of
the workspace. -/
def Workspace.find (workspace : Workspace) (path : String) : Except PathError (String × Node) := do
  if path.startsWith "/" then throw .missing
  match ← (segments path).foldlM go [.directory workspace] with
  | node :: _ => return ((segments path).getLastD "", node)
  | [] => throw .missing

/-- The workspace with the given files; a path that ends in `/` is an empty directory. -/
def Workspace.ofFiles (files : List (String × String)) : Workspace :=
  files.foldl (fun workspace (path, content) =>
    let path := segments path
    if path.getLast? = some "" then workspace.insert path.dropLast none
    else workspace.insert path (some content)) []

/-! ## Documents -/

/-- Whether a file holds a document: its name goes on after its last dot with `json`, and does not
start with that dot. -/
def isDocument (name : String) : Bool :=
  match name.toList.reverse with
  | 'n' :: 'o' :: 's' :: 'j' :: '.' :: rest => !rest.isEmpty
  | _ => false

mutual
/-- The documents at and below a node. -/
def Node.documents (name : String) : Node → List String
  | .file content => if isDocument name then [content] else []
  | .directory entries => documentsOf entries

/-- The documents at and below some nodes. -/
def documentsOf : List (String × Node) → List String
  | [] => []
  | (name, node) :: rest => node.documents name ++ documentsOf rest
end

end RuleBase.Command
