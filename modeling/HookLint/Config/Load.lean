import HookLint.Config.Settings
import HookLint.Json.Reader
import HookLint.Text.Numeral
import HookLint.Text.Quoted

/-!
Where settings come from: the initial values, then the project file, then the settings file, then
the environment. For each key the last source with a value of the right type wins.
-/

namespace HookLint.Config

def projectFile : String := "pyproject.toml"

def settingsFile : String := ".hookauditor.json"

inductive Notice where
  | unknownKey (group name origin : String)
  | wrongType (key : Key) (origin : String) (got : Value)
  | brokenProject
  | brokenSettings
  | settingsNotRecord
  | invalidVariable (key : Key) (text reason : String)
deriving Inhabited

def Notice.text : Notice → String
  | .unknownKey group name origin => "Unknown config key " ++ group ++ "." ++ name ++ " in " ++ origin
  | .wrongType key origin got =>
    "Ignoring " ++ key.group ++ "." ++ key.name ++ " from " ++ origin ++ ": expected " ++ key.type.name
      ++ ", got " ++ got.form.name
  | .brokenProject => "Could not read " ++ projectFile
  | .brokenSettings => "Could not load config file from " ++ settingsFile
  | .settingsNotRecord => "Ignoring " ++ settingsFile ++ ": top level must be an object"
  | .invalidVariable key text reason =>
    "Invalid value for environment variable " ++ key.variableName ++ ": '" ++ text ++ "' - " ++ reason

structure Loaded where
  settings : Settings := .initial
  notices : List Notice := []

namespace Loaded

def note (loaded : Loaded) (notice : Notice) : Loaded := { loaded with notices := loaded.notices ++ [notice] }

def set (loaded : Loaded) (key : Key) (value : Value) : Loaded :=
  { loaded with settings := loaded.settings.set key value }

def addField (origin group : String) (loaded : Loaded) (field : String × Value) : Loaded :=
  match Key.named? group field.1 with
  | none => loaded.note (.unknownKey group field.1 origin)
  | some key =>
    if key.type.accepts field.2 then loaded.set key field.2
    else loaded.note (.wrongType key origin field.2)

def addRecord (origin : String) (loaded : Loaded) (source : Value) : Loaded :=
  Key.groups.foldl (fun loaded group =>
    (source.get group).fields.foldl (addField origin group) loaded) loaded

end Loaded

inductive ProjectFile where
  | missing
  | broken
  | data (value : Value)
deriving Inhabited

structure Sources where
  project : ProjectFile := .missing
  settings : Option String := none
  environment : List (String × String) := []
deriving Inhabited

def trueWords : List String := ["1", "true", "yes", "on"]

def falseWords : List String := ["0", "false", "no", "off"]

/-- What a variable says for a key, or why it says nothing. Only plain letters occur in the words
for true and false, so other letters need no folding. -/
def readVariable (key : Key) (text : String) : Except String Value :=
  match key.type with
  | .flag =>
    let word := (Text.strip text).toLower
    if trueWords.contains word then .ok (.bool true)
    else if falseWords.contains word then .ok (.bool false)
    else .error "expected a boolean"
  | .number =>
    match Text.integer text with
    | .ok number => .ok (.int number)
    | .error .malformed =>
      .error ("invalid literal for int() with base 10: " ++ String.ofList ((Text.quoted text).toList.take 200))
    | .error (.tooLong digits) =>
      .error ("Exceeds the limit (" ++ toString Text.numeralLimit ++ " digits) for integer string conversion: "
        ++ "value has " ++ toString digits ++ " digits; use sys.set_int_max_str_digits() to increase the limit")
  | .list => .ok (.list (((text.splitOn ",").map Text.strip).filter (!·.isEmpty) |>.map .str))
  | .text => .ok (.str text)

namespace Loaded

def addVariable (environment : List (String × String)) (loaded : Loaded) (key : Key) : Loaded :=
  match environment.lookup key.variableName with
  | none => loaded
  | some text =>
    match readVariable key text with
    | .ok value => loaded.set key value
    | .error reason => loaded.note (.invalidVariable key text reason)

def addEnvironment (environment : List (String × String)) (loaded : Loaded) : Loaded :=
  Key.all.foldl (addVariable environment) loaded

def addProject (loaded : Loaded) : ProjectFile → Except Fault Loaded
  | .missing => .ok loaded
  | .broken => .ok (loaded.note .brokenProject)
  | .data value => do
    if !value.isRecord then throw (.notRecord value.form)
    let tools := (value.fields.find? "tool").getD (.made [])
    return loaded.addRecord projectFile (← tools.ask "hookauditor")

def addSettings (loaded : Loaded) : Option String → Except Fault Loaded
  | none => .ok loaded
  | some text =>
    match Json.read text with
    | .error .malformed => .ok (loaded.note .brokenSettings)
    | .error .tooLong => .error .tooLong
    | .error .tooDeep => .error .tooDeep
    | .ok (.record id fields) => .ok (loaded.addRecord settingsFile (.record id fields))
    | .ok _ => .ok (loaded.note .settingsNotRecord)

end Loaded

def load (sources : Sources) : Except Fault Loaded := do
  let loaded ← ({} : Loaded).addProject sources.project
  return (← loaded.addSettings sources.settings).addEnvironment sources.environment

def Settings.report (settings : Settings) : Value :=
  .made (Key.groups.map fun group =>
    (group, .made ((Key.all.filter (·.group = group)).map fun key => (key.name, settings key))))

end HookLint.Config
