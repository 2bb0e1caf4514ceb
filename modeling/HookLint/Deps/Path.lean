import HookLint.Value.Display
import HookLint.Value.Key
import HookLint.Value.Letters

/-!
Dependencies are compared as dotted paths such as `props.user.id`. A path is a text, unless it is the
name of an identifier that has something else for a name.
-/

namespace HookLint.Deps

def isAncestorText (ancestor path : String) : Bool := (ancestor.toList ++ ['.']).isPrefixOf path.toList

def isAncestor (ancestor path : Value) : Except Fault Bool :=
  match ancestor, path with
  | .str ancestor, .str path => .ok (isAncestorText ancestor path)
  | other, .str _ => .error (.notJoinable other.form)
  | _, other => .error (.notText other.form)

def isCurrent (path : Value) : Except Fault Bool := do
  return ".current".toList.isSuffixOf (← path.letters)

def quoted (path : Value) : String := "'" ++ path.plain ++ "'"

def formatList (paths : List Value) : Except Fault String :=
  match paths.reverse with
  | [] => .error .emptyList
  | [path] => .ok (quoted path)
  | last :: before => .ok (", ".intercalate (before.reverse.map quoted) ++ " and " ++ quoted last)

def listText (paths : List Value) : Except Fault String := do
  let texts ← paths.mapM fun path =>
    match path with
    | .str text => .ok text
    | other => .error (Fault.notJoinable other.form)
  return "[" ++ ", ".intercalate texts ++ "]"

def sortPaths (paths : List Value) : Except Fault (List Value) := sortBy (fun path => [path]) paths

end HookLint.Deps
