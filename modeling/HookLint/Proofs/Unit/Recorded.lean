import HookLint.Proofs.Flow.Accounted
import HookLint.Proofs.Order.Loops
import HookLint.Proofs.Scope.References

namespace HookLint

open List

variable {call program : Value}

namespace FlowGraph

end FlowGraph

namespace Value

theorem function_not_program {node : Value} (opens : node.isFunction = true) : node.isA .program = false := by
  unfold isFunction kindIs at opens
  unfold isA
  cases isKind : node.kind with
  | none => rfl
  | some kind =>
    rw [isKind] at opens
    cases kind <;> first | rfl | cases opens

end Value

-- The units are the program and its functions.
section
variable {registry : Registry} {scopes : Scopes}

theorem adopt_nodes (units : List CodeUnit) (parent child : Nat) : (units.modify parent (·.adopt child)).map (·.node) = units.map (·.node) := by
  refine ext_getElem? fun number => ?_
  rw [getElem?_map, getElem?_map, getElem?_modify]
  cases units[number]? with
  | none => rfl
  | some unit =>
    by_cases same : parent = number <;> simp [same, CodeUnit.adopt]

theorem add_function_units {found next : Discovery} {function : Value} (run : found.addFunction registry scopes function = .ok next) :
    next.units.map (·.node) = found.units.map (·.node) ++ [function] := by
  obtain ⟨named, _, run⟩ := bind_ok run
  obtain ⟨host, _, run⟩ := bind_ok run
  cases run
  rw [map_append, adopt_nodes]
  rfl

theorem code_units_nodes {units : List CodeUnit} (found : codeUnits registry scopes program = .ok units) :
    units.map (·.node) = program :: program.walk.filter (·.isFunction) := by
  obtain ⟨_, _, run⟩ := bind_ok found
  obtain ⟨last, folded, run⟩ := bind_ok run
  cases run
  have fold (functions : List Value) (start last : Discovery)
      (run : functions.foldlM (fun found function => found.addFunction registry scopes function) start = .ok last) :
      last.units.map (·.node) = start.units.map (·.node) ++ functions := by
    induction functions generalizing start with
    | nil =>
      cases run
      simp
    | cons function rest ih =>
      rw [foldlM_cons] at run
      obtain ⟨next, added, run⟩ := bind_ok run
      rw [ih next run, add_function_units added, append_assoc, singleton_append]
  rw [fold _ _ _ folded]
  rfl

end

-- The calls of a graph, told apart.
section
variable {program node : Value} {graph : FlowGraph} (distinct : program.Distinct) (located : Flow.Located node graph)
  (inside : ∀ entry ∈ graph.calls, entry.2.2 ∈ program.records)
include distinct inside

include located

section
variable (isCall : call ∈ program.records)
include isCall

end

end

theorem units_apart {registry : Registry} {scopes : Scopes} {units : List CodeUnit}
    (isRecord : program.isRecord = true) (isProgram : program.kind = some .program) (distinct : program.Distinct)
    (discovered : codeUnits registry scopes program = .ok units) : (units.map (·.node)).Nodup := by
  rw [code_units_nodes discovered]
  refine nodup_cons.mpr ⟨fun member => ?_, (List.Nodup.of_map _ (Value.walk_apart isRecord distinct)).filter _⟩
  have opens := (mem_filter.mp member).2
  rw [Value.isFunction, Value.kindIs, isProgram] at opens
  cases opens

theorem inner_call_plain : handedFunction.returnsMarkup = .ok false := by
  have inner : innerCall.children = [nameNode 7 "inner"] := rfl
  have name : (nameNode 7 "inner").children = [] := rfl
  have own : innerCall.walkOwn = [innerCall, nameNode 7 "inner"] := by
    simp only [Value.walkOwn, Value.walkOwnAll, inner, name, append_nil, ite_self]
  have plain : innerCall.containsMarkup = .ok false := by
    unfold Value.containsMarkup
    rw [own]
    rfl
  exact plain

end HookLint
