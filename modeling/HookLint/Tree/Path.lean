import HookLint.Tree.Kind
import HookLint.Value.Display

namespace HookLint.Value

def unwrap (node : Value) : Except Fault Value :=
  match node with
  | .record id fields => do
    if ← (Value.record id fields).filedKindIs Kind.isWrapper then unwrap (Fields.get fields "expression")
    else return .record id fields
  | other => .ok other
termination_by sizeOf node

/-- The dotted path of `a`, `a.b.c` or `a?.b`, seen through wrappers; null for anything else. The
path of an identifier is its name, whatever that is. -/
def memberPath (node : Value) : Except Fault Value :=
  match node with
  | .record id fields => do
    match ← (Value.record id fields).filedKind with
    | some .identifier => return Fields.get fields "name"
    | some .chainExpression => memberPath (Fields.get fields "expression")
    | some .memberExpression | some .optionalMemberExpression =>
      if (Fields.get fields "computed").given then return .null
      let base ← memberPath (Fields.get fields "object")
      let property := Fields.get fields "property"
      if base.isNull || !property.isA .identifier then return .null
      return .str (base.plain ++ "." ++ (property.get "name").plain)
    | some kind => if kind.isWrapper then memberPath (Fields.get fields "expression") else return .null
    | none => return .null
  | _ => .ok .null
termination_by sizeOf node

def rootIdentifier (node : Value) : Except Fault (Option Value) :=
  match node with
  | .record id fields => do
    match ← (Value.record id fields).filedKind with
    | some .identifier => return some (.record id fields)
    | some .chainExpression => rootIdentifier (Fields.get fields "expression")
    | some .memberExpression | some .optionalMemberExpression => rootIdentifier (Fields.get fields "object")
    | some kind => if kind.isWrapper then rootIdentifier (Fields.get fields "expression") else return none
    | none => return none
  | _ => .ok none
termination_by sizeOf node

def stripChain (node : Value) : Except Fault Value :=
  match node with
  | .record id fields => do
    if ← (Value.record id fields).filedKindIs fun kind => kind.isWrapper || kind = .chainExpression then
      stripChain (Fields.get fields "expression")
    else return .record id fields
  | other => .ok other
termination_by sizeOf node

end HookLint.Value
