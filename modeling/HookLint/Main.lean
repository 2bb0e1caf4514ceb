import HookLint.Command.Plain
import HookLint.Command.Run
import HookLint.Json.Writer

namespace HookLint.Main

def sourceOf (text : String) : Source :=
  let outcome : Except Complaint Value := match Json.read text with
    | .ok tree => .ok tree
    | .error _ => .error { message := "The text is not a syntax tree" }
  { asModule := outcome, asScript := outcome }

partial def entriesBelow (names : List String) : IO (List (List String × Project.Entry)) := do
  let place := names.foldl (fun place name => place / name) (← IO.currentDir)
  if ← place.isDir then
    let children := (← place.readDir).toList
    let below ← children.mapM fun child => entriesBelow (names ++ [child.fileName])
    return (names, .directory) :: below.flatten
  else if ← place.pathExists then
    return [(names, .file (sourceOf (← IO.FS.readFile place)))]
  else return []

def filesOf (words : List String) : IO Project.Directory := do
  let paths := (words.filter (!isOption ·)).map Project.Path.ofText
  let entries ← paths.mapM fun path => entriesBelow path.parts
  return { entries := entries.flatten }
where
  isOption (word : String) : Bool := word.startsWith "-"

def readIfThere (name : String) : IO (Option String) := do
  let place := (← IO.currentDir) / name
  if ← place.pathExists then return some (← IO.FS.readFile place) else return none

def environmentOf (names : List String) : IO (List (String × String)) :=
  names.filterMapM fun name => do return (← IO.getEnv name).map (name, ·)

def message : Fault → String
  | .notRecord found => "a field was asked of a value of type " ++ found.name
  | .notTree found => "the fields were asked of a value of type " ++ found.name
  | .notSequence found => "the items were asked of a value of type " ++ found.name
  | .notKey found => "something was to be filed under a value of type " ++ found.name
  | .incomparable left right => "values of types " ++ left.name ++ " and " ++ right.name ++ " had to be sorted"
  | .notText found => "the characters were asked of a value of type " ++ found.name
  | .notLetters found => "the first letter was asked of a value of type " ++ found.name
  | .notStem found => "the stem of hook names is of type " ++ found.name
  | .notSearchable found => "a pattern was looked for in, or made of, a value of type " ++ found.name
  | .notJoinable found => "a text was to be made with a value of type " ++ found.name
  | .notPlace found => "a place was given by a value of type " ++ found.name
  | .noSuchPlace => "a place lies outside of a list"
  | .noSuchEntry => "a place was asked of a record"
  | .unguardedTry => "a try statement has neither a handler nor a finalizer"
  | .endless => "a node would have to be visited for its own visit"
  | .incomplete => "a node does not tell what its visit needs"
  | .surplus => "a node can not be visited inside another one"
  | .emptyList => "a list without entries was to be read out"
  | .malformedPattern => "the text of a pattern is not one"
  | .unknownName => "a name is not known"
  | .unknownBlock => "a block is none of the graph"
  | .tooLong => "a number has too many digits"
  | .tooDeep => "a document is nested too deeply"
  | .badPath => "a path holds a character that no path can"
  | .longName => "a name is too long for any file"

def wording : Wording := { inUnit := message, inFile := message }

def contextOf (words : List String) : IO Command.Context := do
  return {
    files := ← filesOf words
    sources := {
      settings := ← readIfThere Config.settingsFile
      environment := ← environmentOf (Config.Key.all.map (·.variableName)) }
    requestId := (← IO.getEnv "HOOKAUDITOR_REQUEST_ID").getD ""
    wording }

def emit (outcome : Command.Outcome) : IO Unit := do
  for item in outcome.printed do
    for line in item.lines do IO.println line
  if let some text := outcome.plain then IO.print text
  if let some (path, fields) := outcome.saved then
    IO.FS.writeFile path (Json.write (.made fields))
  if let some fields := outcome.document then IO.println (Json.write (.made fields))

end HookLint.Main

def main (words : List String) : IO UInt32 := do
  let outcome := HookLint.Command.run (← HookLint.Main.contextOf words) words
  HookLint.Main.emit outcome
  return UInt32.ofNat outcome.exitCode
