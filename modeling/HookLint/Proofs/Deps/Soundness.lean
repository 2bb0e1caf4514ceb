import HookLint.Deps.Check
import HookLint.Proofs.Deps.Comparison
import HookLint.Proofs.Deps.Usage
import HookLint.Proofs.Scope.Coverage

namespace HookLint.Deps

open List

section
variable {scopes : Scopes} {registry : Registry} {unit : CodeUnit} {site : Site} {callback deps : Value} {findings : List Finding}

-- An entry that is compared stands for an element of the list.
structure Entered (scopes : Scopes) (element : Value) (entry : Declaration) : Prop where
  path : element.memberPath = .ok entry.path
  given : entry.path.isNull = false
  binding : ∃ root, element.rootIdentifier = .ok root ∧ entry.binding = root.bind scopes.resolve

theorem entries_listed {elements : List Value} {declared : Declared} (run : Declared.ofElements scopes elements = .ok declared) :
    ∀ entry ∈ declared.entries, ∃ element ∈ elements, Entered scopes element entry := by
  induction elements generalizing declared with
  | nil =>
    cases run
    exact nofun
  | cons element rest ih =>
    have later {others : Declared} (run : Declared.ofElements scopes rest = .ok others) :
        ∀ entry ∈ others.entries, ∃ found ∈ element :: rest, Entered scopes found entry := by
      intro entry member
      obtain ⟨found, isFound, entered⟩ := ih run entry member
      exact ⟨found, mem_cons_of_mem _ isFound, entered⟩
    rw [Declared.ofElements] at run
    split at run
    · exact later run
    obtain ⟨path, isPath, run⟩ := bind_ok run
    split at run
    · obtain ⟨others, isOthers, run⟩ := bind_ok run
      cases run
      intro entry member
      exact later isOthers entry member
    rename_i given
    obtain ⟨root, isRoot, run⟩ := bind_ok run
    obtain ⟨others, isOthers, run⟩ := bind_ok run
    cases run
    rw [Bool.not_eq_true] at given
    exact forall_mem_cons.mpr ⟨⟨element, mem_cons_self, isPath, given, root, isRoot, rfl⟩, later isOthers⟩

-- A clean check of a callback with a list has looked for everything that the callback reads.
theorem check_clean {argument listArgument : Value} (given : site.callback = .ok argument) (unwrapped : argument.unwrap = .ok callback)
    (isFunction : callback.isFunction = true) (givenList : site.deps = .ok listArgument) (unwrappedList : listArgument.unwrap = .ok deps)
    (isArray : deps.isA .arrayExpression = true) (clean : check registry scopes unit site = .ok []) :
    ∃ pure usage, pureScopes scopes unit site.call = .ok pure ∧ usageOf registry scopes pure callback = .ok usage ∧
      checkList registry.options scopes pure usage.required deps = .ok [] := by
  have notNull : callback.isNull = false := by
    cases callback with
    | null => cases isFunction
    | _ => rfl
  have isResolved : resolveCallback scopes callback deps = .ok (.function callback) := by
    rw [resolveCallback, notNull, isFunction]
    rfl
  obtain ⟨_, isGiven, clean⟩ := bind_ok clean
  cases given.symm.trans isGiven
  obtain ⟨_, isCallback, clean⟩ := bind_ok clean
  cases unwrapped.symm.trans isCallback
  obtain ⟨_, isGivenList, clean⟩ := bind_ok clean
  cases givenList.symm.trans isGivenList
  obtain ⟨_, isList, clean⟩ := bind_ok clean
  cases unwrappedList.symm.trans isList
  obtain ⟨_, isFound, clean⟩ := bind_ok clean
  cases isResolved.symm.trans isFound
  obtain ⟨pure, isPure, clean⟩ := bind_ok clean
  obtain ⟨usage, isUsage, clean⟩ := bind_ok clean
  obtain ⟨async, _, clean⟩ := bind_ok clean
  obtain ⟨beside, isBeside, clean⟩ := bind_ok clean
  have nothing := (append_eq_nil_iff.mp (Except.ok.inj clean)).2
  rw [nothing] at isBeside
  refine ⟨pure, usage, isPure, isUsage, ?_⟩
  have listed : deps.isNull = false := by
    cases deps with
    | null => cases isArray
    | _ => rfl
  unfold checkBeside at isBeside
  split at isBeside
  · next writes =>
      have none := forall₂_nil_right_iff.mp (map_all_ok isBeside)
      rw [none] at writes
      cases writes
  · rw [listed, isArray] at isBeside
    exact isBeside

theorem record_of_path {node path : Value} (run : node.memberPath = .ok path) (given : path.isNull = false) : node.isRecord = true := by
  cases node with
  | record id fields => rfl
  | _ =>
    simp only [Value.memberPath] at run
    cases run
    cases given

end

-- An effect that reads a member of the properties of its component, which are listed as a whole.
def placedName (id : Nat) (name : String) (place : Int) : Value :=
  .record id [("type", .str "Identifier"), ("name", .str name), ("range", .list [.int place, .int (place + 1)])]

def readMember : Value := .record 9 [
  ("type", .str "MemberExpression"), ("object", placedName 10 "props" 34), ("property", placedName 11 "user" 40),
  ("computed", .bool false)]

def readingEffect : Value := .record 8 [("type", .str "ArrowFunctionExpression"), ("params", .list []), ("body", readMember)]

def wholeList : Value := .record 12 [("type", .str "ArrayExpression"), ("elements", .list [placedName 13 "props" 47])]

def effectCall : Value := .record 6 [
  ("type", .str "CallExpression"), ("callee", placedName 7 "useEffect" 18), ("arguments", .list [readingEffect, wholeList])]

def effectSite : Site := {
  call := effectCall, name := .str "useEffect", block := 0, ordinal := 0, location := {},
  hook := {
    name := .str "useEffect", kind := .effect, callbackIndex := .int 0, depsIndex := .int 1, isEffect := true } }

end HookLint.Deps
