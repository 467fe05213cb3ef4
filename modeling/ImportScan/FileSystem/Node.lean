/-!
A tree of files, directories and symbolic links. The entries of a directory are listed in the order
in which the system enumerates them. Names are texts: an entry whose name is not UTF-8 has no
counterpart here, and with it the rule that a directory of such a name is never left out of a walk.
-/

namespace ImportScan

/-- A file with its bytes, a directory with its entries, or a link with the path it stands for. -/
inductive Node where
  | file (content : ByteArray)
  | dir (entries : List (String × Node))
  | link (target : String)

namespace Node

/-- The entry of this name, when the node is a directory that has one. -/
def entry? (name : String) : Node → Option Node
  | dir entries => entries.lookup name
  | _ => none

/-- Replaces the entry of a name, or adds it at the end. -/
def setEntry (name : String) (node : Node) : List (String × Node) → List (String × Node)
  | [] => [(name, node)]
  | (other, old) :: rest =>
    if other = name then (name, node) :: rest else (other, old) :: setEntry name node rest

/-- Puts `new` at a place below a directory. Missing directories on the way are made; a file or
link in the way gives place to one. -/
def put (node : Node) (place : List String) (new : Node) : Node :=
  match place with
  | [] => new
  | name :: rest =>
    let entries := match node with
      | dir entries => entries
      | _ => []
    dir (setEntry name (((entries.lookup name).getD (dir [])).put rest new) entries)

/-- The node at a place below this one, links not followed. -/
def at? : List String → Node → Option Node
  | [], node => some node
  | name :: rest, node => (node.entry? name).bind (at? rest)

end Node

end ImportScan
