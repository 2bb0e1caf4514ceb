import HookLint.Value

/-!
Hooks: functions whose calls are told apart by the order in which they happen, and what is known
of each of them.
-/

namespace HookLint

inductive HookKind where
  | state
  | effect
  | helper
deriving DecidableEq, Repr, Inhabited

def HookKind.name : HookKind → String
  | .state => "state"
  | .effect => "effect"
  | .helper => "helper"

def HookKind.ofName? : String → Option HookKind
  | "state" => some .state
  | "effect" => some .effect
  | "helper" => some .helper
  | _ => none

structure Hook where
  name : Value
  kind : HookKind
  callbackIndex : Value := .null
  depsIndex : Value := .null
  isEffect : Bool := false
  requiresDeps : Bool := false
  stableIndex : Value := .null
  stableWhole : Bool := false
  returnsSetter : Bool := false
  orderExempt : Bool := false
deriving Repr, Inhabited

namespace Hook

def effect (name : Value) : Hook :=
  { name, kind := .effect, callbackIndex := .int 0, depsIndex := .int 1, isEffect := true }

def memo (name : Value) : Hook :=
  { name, kind := .effect, callbackIndex := .int 0, depsIndex := .int 1, requiresDeps := true }

def helper (name : Value) : Hook := { name, kind := .helper }

def builtin : List Hook := [
  { name := .str "useState", kind := .state, stableIndex := .int 1, returnsSetter := true },
  { name := .str "useReducer", kind := .state, stableIndex := .int 1, returnsSetter := true },
  { name := .str "useRef", kind := .state, stableWhole := true },
  { name := .str "useContext", kind := .state },
  { name := .str "useId", kind := .state },
  { name := .str "useDebugValue", kind := .state },
  { name := .str "useDeferredValue", kind := .state },
  { name := .str "useSyncExternalStore", kind := .state },
  { name := .str "useTransition", kind := .state, stableIndex := .int 1 },
  { name := .str "useActionState", kind := .state, stableIndex := .int 1 },
  { name := .str "useOptimistic", kind := .state, stableIndex := .int 1 },
  effect (.str "useEffect"),
  effect (.str "useLayoutEffect"),
  effect (.str "useInsertionEffect"),
  memo (.str "useCallback"),
  memo (.str "useMemo"),
  { name := .str "useImperativeHandle", kind := .effect, callbackIndex := .int 1, depsIndex := .int 2 }]

def use : Hook := { name := .str "use", kind := .state, orderExempt := true }

def report (hook : Hook) : Value :=
  .made [
    ("name", hook.name),
    ("kind", .str hook.kind.name),
    ("callback_index", hook.callbackIndex),
    ("deps_index", hook.depsIndex),
    ("is_effect", .bool hook.isEffect),
    ("requires_deps", .bool hook.requiresDeps),
    ("stable_index", hook.stableIndex),
    ("stable_whole", .bool hook.stableWhole),
    ("returns_setter", .bool hook.returnsSetter),
    ("order_exempt", .bool hook.orderExempt)]

end Hook

end HookLint
