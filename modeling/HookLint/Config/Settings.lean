import HookLint.Options
import HookLint.Value.Key

/-!
Settings: what a user can set, by key. Each key belongs to a group, has an initial value and takes
only values of the same type.
-/

namespace HookLint.Config

inductive Key where
  | stem
  | effectPattern
  | stableNames
  | flagStable
  | strictMembers
  | workers
  | extensions
  | exclude
  | maxRows
deriving DecidableEq, Repr, Inhabited

inductive ValueType where
  | text
  | flag
  | number
  | list
deriving DecidableEq, Repr, Inhabited

namespace ValueType

def accepts : ValueType → Value → Bool
  | .text, .str _ | .flag, .bool _ | .number, .int _ | .list, .list _ => true
  | _, _ => false

def name : ValueType → String
  | .text => "str"
  | .flag => "bool"
  | .number => "int"
  | .list => "list"

end ValueType

namespace Key

def all : List Key :=
  [.stem, .effectPattern, .stableNames, .flagStable, .strictMembers, .workers, .extensions, .exclude, .maxRows]

def groups : List String := ["hooks", "analysis", "report"]

def group : Key → String
  | .stem | .effectPattern | .stableNames | .flagStable | .strictMembers => "hooks"
  | .workers | .extensions | .exclude => "analysis"
  | .maxRows => "report"

def name : Key → String
  | .stem => "helper_prefix"
  | .effectPattern => "additional_hooks"
  | .stableNames => "additional_stable_identifiers"
  | .flagStable => "flag_stable_dependencies"
  | .strictMembers => "strict_member_dependencies"
  | .workers => "workers"
  | .extensions => "extensions"
  | .exclude => "exclude"
  | .maxRows => "max_rows"

def type : Key → ValueType
  | .stem | .effectPattern => .text
  | .flagStable | .strictMembers => .flag
  | .workers | .maxRows => .number
  | .stableNames | .extensions | .exclude => .list

def initial : Key → Value
  | .stem => .str "use"
  | .effectPattern => .str ""
  | .stableNames => .list []
  | .flagStable | .strictMembers => .bool false
  | .workers => .int 4
  | .extensions => .list ([".js", ".jsx", ".mjs", ".cjs"].map .str)
  | .exclude => .list (["node_modules", ".git", "dist", "build", "coverage"].map .str)
  | .maxRows => .int 200

def named? (group name : String) : Option Key := all.find? fun key => key.group = group && key.name = name

def variableName (key : Key) : String := "HOOKAUDITOR_" ++ key.group.toUpper ++ "_" ++ key.name.toUpper

end Key

abbrev Settings := Key → Value

namespace Settings

def initial : Settings := Key.initial

def set (settings : Settings) (key : Key) (value : Value) : Settings :=
  fun other => if other = key then value else settings other

def number (settings : Settings) (key : Key) : Int := (settings key).int?.getD 0

def names (settings : Settings) (key : Key) : List String := (settings key).parts.filterMap Value.text?

def ensureFlat (settings : Settings) (key : Key) : Except Fault Unit := do
  let _ ← (settings key).parts.mapM Value.key

def options (settings : Settings) : Options :=
  { stem := if (settings .stem).given then settings .stem else .str "use"
    effectPattern := if (settings .effectPattern).given then settings .effectPattern else .null
    stableNames := settings .stableNames
    flagStable := (settings .flagStable).given
    strictMembers := (settings .strictMembers).given }

end Settings

end HookLint.Config
