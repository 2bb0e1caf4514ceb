namespace HookLint.Project

structure Path where
  root : String := ""
  parts : List String := []
deriving DecidableEq, Repr, Inhabited

def partsLe : List String → List String → Bool
  | [], _ => true
  | _ :: _, [] => false
  | a :: as, b :: bs => if a = b then partsLe as bs else a < b

namespace Path

def rootOf (text : String) : String :=
  match (text.toList.takeWhile (· = '/')).length with
  | 0 => ""
  | 2 => "//"
  | _ => "/"

def ofText (text : String) : Path :=
  { root := rootOf text, parts := (text.splitOn "/").filter fun name => name ≠ "" && name ≠ "." }

def text (path : Path) : String :=
  if path.root = "" && path.parts.isEmpty then "." else path.root ++ "/".intercalate path.parts

def components (path : Path) : List String := if path.root = "" then path.parts else path.root :: path.parts

def le (a b : Path) : Bool := partsLe a.components b.components

def suffix (path : Path) : String :=
  let reversed := (path.parts.getLast?.getD "").toList.reverse
  let ending := reversed.takeWhile (· ≠ '.')
  let stem := (reversed.dropWhile (· ≠ '.')).drop 1
  if ending.isEmpty || stem.isEmpty then "" else "." ++ String.ofList ending.reverse

end Path

end HookLint.Project
