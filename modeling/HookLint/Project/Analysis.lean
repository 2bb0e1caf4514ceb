import HookLint.Project.Directory

/-!
The report on many files. Files are analysed on their own and may finish in any order; their
reports are merged in that order and then sorted.
-/

namespace HookLint.Project

structure Selection where
  extensions : List String := [".js", ".jsx", ".mjs", ".cjs"]
  exclude : List String := ["node_modules", ".git", "dist", "build", "coverage"]
deriving DecidableEq, Repr, Inhabited

def Selection.takes (selection : Selection) (path : Path) (names : List String) : Bool :=
  selection.extensions.contains path.suffix && !names.any selection.exclude.contains

def candidates (tree : Directory) (selection : Selection) (path : Path) : Except Fault (List Path) :=
  match tree.find path with
  | .ok (.directory place) =>
    let files := (tree.filesBelow place).map fun names => (({ path with parts := path.parts ++ names } : Path), names)
    .ok (((files.filter fun (file, names) => selection.takes file names).map (·.1)).mergeSort Path.le)
  | .error .longName => .error .longName
  | _ => .ok [path]

def collect (tree : Directory) (selection : Selection) (paths : List String) : Except Fault (List Path) := do
  let groups ← paths.mapM fun text => candidates tree selection (.ofText text)
  return groups.flatten.eraseDups

def analyzeFile (registry : Registry) (tree : Directory) (path : Path) : Except Fault Report :=
  match tree.find path with
  | .ok (.file source) => analyzeSource registry path.text source
  | .ok (.directory _) =>
    .ok { failures := [.unreadable path.text ("[Errno 21] Is a directory: " ++ Text.quoted path.text)] }
  | .error .badName => .error .badPath
  | .error missing => .ok { failures := [.unreadable path.text (missing.message path.text)] }

structure Outcome where
  file : String
  result : Except Fault Report

def outcomeOf (registry : Registry) (tree : Directory) (path : Path) : Outcome :=
  { file := path.text, result := analyzeFile registry tree path }

def Outcome.addTo (report : Report) (outcome : Outcome) : Report :=
  match outcome.result with
  | .ok other => report.merge other
  | .error fault => { report with failures := report.failures ++ [.whole outcome.file fault] }

def gather (outcomes : List Outcome) : Report := (outcomes.foldl Outcome.addTo {}).sort

def analyzePaths (registry : Registry) (tree : Directory) (selection : Selection) (paths : List String) : Except Fault Report := do
  let files ← collect tree selection paths
  return gather (files.map (outcomeOf registry tree))

def workers (wanted : Value) : Except Fault Value :=
  match (Value.int 1).below? wanted with
  | some more => .ok (if more then wanted else .int 1)
  | none => .error (.incomparable wanted.form .int)

end HookLint.Project
