import Polish.Source

/-! # File trees

The files around a working directory, and what it means to open one of them by a path.

* `FileTree.resolve` follows a path from the working directory, or from the top.  Every name but the
  last has to be that of a directory.
* `FileTree.read` gives the source that a path names, `FileTree.create` empties the file that a path
  names or makes a new one.
* Of what lies above the working directory a tree knows the directories alone, by the way up to them,
  and the files that are made there.
-/

namespace Polish

inductive Node where
  | file (content : List UInt8)
  | directory
  deriving DecidableEq, Repr

inductive PathFault where
  | missing
  | notDirectory
  | isDirectory
  | nameTooLong
  deriving DecidableEq, Repr

def PathFault.message : PathFault → String
  | missing => "No such file or directory (os error 2)"
  | notDirectory => "Not a directory (os error 20)"
  | isDirectory => "Is a directory (os error 21)"
  | nameTooLong => "File name too long (os error 36)"

/-- What reading a node gives.  A directory can be opened, but its first read fails. -/
def Node.source : Node → Source
  | file content => [.data content]
  | directory => [.failure PathFault.isDirectory.message]

/-- The way to a node: the names from the working directory down to it, behind a `..` for each
    directory that the way goes up first, or behind a single `/` if it starts at the top. -/
abbrev Location := List String

def Location.isUpward (location : Location) : Bool :=
  location.all (· ∈ ["..", "/"])

def Location.parent (location : Location) : Location :=
  if location = ["/"] then location
  else if location.isUpward then ".." :: location
  else location.dropLast

/-- The nodes around the working directory.  A directory need not be listed if something below it
    is. -/
structure FileTree where
  nodes : List (Location × Node)
  deriving DecidableEq, Repr

def pathNames : List Char → List (List Char)
  | [] => [[]]
  | c :: rest =>
    if c = '/' then [] :: pathNames rest
    else
      match pathNames rest with
      | [] => [[c]]
      | name :: names => (c :: name) :: names

def longestName : Nat := 255

def longestPath : Nat := 4095

namespace FileTree

/-- The node at a location.  Whatever lies above the working directory or above a node is a
    directory. -/
def node? (tree : FileTree) (location : Location) : Option Node :=
  if location.isUpward then some .directory
  else
    match tree.nodes.lookup location with
    | some node => some node
    | none =>
      if tree.nodes.any fun node => location.isPrefixOf node.1 then some .directory else none

def put (tree : FileTree) (location : Location) (content : List UInt8) : FileTree :=
  if tree.nodes.any (·.1 == location) then
    ⟨tree.nodes.map fun node => if node.1 = location then (location, .file content) else node⟩
  else ⟨tree.nodes ++ [(location, .file content)]⟩

def step (tree : FileTree) (location : Location) (name : String) : Except PathFault Location :=
  match tree.node? location with
  | none => .error .missing
  | some (.file _) => .error .notDirectory
  | some .directory =>
    if name ∈ ["", "."] then .ok location
    else if name = ".." then .ok location.parent
    else if longestName < name.utf8ByteSize then .error .nameTooLong
    else .ok (location ++ [name])

def follow (tree : FileTree) (absolute : Bool) (names : List String) : Except PathFault Location :=
  names.foldlM tree.step (if absolute then ["/"] else [])

/-- Where a path leads.  The last name need not be that of a node. -/
def resolve (tree : FileTree) (path : String) : Except PathFault Location :=
  if longestPath < path.utf8ByteSize then .error .nameTooLong
  else
    tree.follow (path.toList.head? = some '/') ((pathNames path.toList).map String.ofList)

def target (tree : FileTree) (path : String) : Except PathFault Node :=
  match tree.resolve path with
  | .error fault => .error fault
  | .ok location =>
    match tree.node? location with
    | some node => .ok node
    | none => .error .missing

def read (tree : FileTree) (path : String) : Except PathFault Source :=
  (tree.target path).map Node.source

def withoutSlashes (path : String) : String :=
  String.ofList (path.toList.reverse.dropWhile (· == '/')).reverse

def parentPath (path : String) : String :=
  String.ofList (path.toList.reverse.dropWhile (· != '/')).reverse

/-- Opens the file behind a path for writing, and empties or makes it.  A path that ends in a slash
    can only be that of a directory. -/
def create (tree : FileTree) (path : String) : Except PathFault (Location × FileTree) :=
  if longestPath < path.utf8ByteSize then .error .nameTooLong
  else if withoutSlashes path ≠ path then
    match tree.resolve (parentPath (withoutSlashes path)) with
    | .error fault => .error fault
    | .ok _ => .error .isDirectory
  else
    match tree.resolve path with
    | .error fault => .error fault
    | .ok location =>
      match tree.node? location with
      | some .directory => .error .isDirectory
      | _ => .ok (location, tree.put location [])

end FileTree

end Polish
