import HookLint.Parse
import HookLint.Project.Path

namespace HookLint.Project

inductive Entry where
  | directory
  | file (source : Source)

/-- Files and directories by their names from here on. The directories that a file lies in need no
entry of their own, and of two files with one path the later counts. -/
structure Directory where
  entries : List (List String × Entry) := []

inductive Missing where
  | absent
  | notDirectory
  | longName
  | badName
deriving DecidableEq, Repr, Inhabited

inductive Found where
  | directory (place : List String)
  | file (source : Source)

def Missing.message (path : String) : Missing → String
  | .absent => "[Errno 2] No such file or directory: " ++ Text.quoted path
  | .notDirectory => "[Errno 20] Not a directory: " ++ Text.quoted path
  | .longName => "[Errno 36] File name too long: " ++ Text.quoted path
  | .badName => "embedded null byte"

def nameLimit : Nat := 255

def hasBadName (text : String) : Bool := text.toList.contains (Char.ofNat 0)

namespace Directory

def isDirectory (tree : Directory) (place : List String) : Bool :=
  place.isEmpty || tree.entries.any fun (names, entry) =>
    match entry with
    | .directory => place.isPrefixOf names
    | .file _ => place.isPrefixOf names && names ≠ place

def source? (tree : Directory) (place : List String) : Option Source :=
  tree.entries.reverse.findSome? fun (names, entry) =>
    match entry with
    | .file source => if names = place then some source else none
    | .directory => none

def follow (tree : Directory) (place : List String) : List String → Except Missing Found
  | [] => .ok (.directory place)
  | name :: rest =>
    if name = "" || name = "." then follow tree place rest
    else if name = ".." then if place.isEmpty then .error .absent else follow tree place.dropLast rest
    else
      let next := place ++ [name]
      if name.utf8ByteSize > nameLimit then .error .longName
      else if tree.isDirectory next then follow tree next rest
      else match tree.source? next with
        | some source => if rest.isEmpty then .ok (.file source) else .error .notDirectory
        | none => .error .absent

def find (tree : Directory) (path : Path) : Except Missing Found :=
  if path.parts.any hasBadName then .error .badName
  else if path.root = "" then tree.follow [] path.parts
  else .error .absent

def findText (tree : Directory) (text : String) : Except Missing Found :=
  if hasBadName text then .error .badName
  else if text.isEmpty || text.startsWith "/" then .error .absent
  else tree.follow [] (text.splitOn "/")

def filesBelow (tree : Directory) (place : List String) : List (List String) :=
  (tree.entries.filterMap fun (names, entry) =>
    match entry with
    | .file _ => if place.isPrefixOf names then some (names.drop place.length) else none
    | .directory => none).eraseDups

def isWritable (tree : Directory) (path : Path) : Bool :=
  let places := path.parts.foldl (fun (places : List (List String)) name =>
    let here := places.head?.getD []
    (if name = ".." then here.dropLast else here ++ [name]) :: places) [[]]
  match places with
  | [] => false
  | last :: before =>
    path.parts.all (·.utf8ByteSize ≤ nameLimit)
      && (path.root ≠ "" || (!tree.isDirectory last && before.all fun place => (tree.source? place).isNone))

end Directory

end HookLint.Project
