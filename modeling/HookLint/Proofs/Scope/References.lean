import HookLint.Proofs.Scope.Surveyed

/-!
The uses of names inside a function. Main statement: they are those whose identifiers lie in the function, each listed once.
-/

namespace HookLint

open List

namespace Scopes

variable {scopes : Scopes} {callback : Value} {references : List Reference}

theorem sorted_perm {sorted : List Reference} (run : sortByPosition references = .ok sorted) : sorted.Perm references := by
  obtain ⟨placed, isPlaced, run⟩ := bind_ok run
  obtain ⟨ordered, isOrdered, run⟩ := bind_ok run
  cases run
  have same : placed.map (·.2) = references.map id := map_all_same isPlaced fun reference result made => by
    obtain ⟨_, _, made⟩ := bind_ok made
    cases made
    rfl
  rw [map_id] at same
  rw [← same]
  exact (sort_by_perm isOrdered).map _

theorem references_listed (run : scopes.referencesWithin callback = .ok references) : references ⊆ scopes.references := by
  rw [referencesWithin] at run
  intro reference member
  split at run
  · cases run
    cases member
  · obtain ⟨number, _, member⟩ := mem_flatMap.mp ((sorted_perm run).mem_iff.mp member)
    exact (mem_filter.mp member).1

theorem mem_references_within {root : Nat} (valid : scopes.Valid) (acquired : scopes.acquire callback = some root)
    (present : root < scopes.scopes.length) (run : scopes.referencesWithin callback = .ok references) (reference : Reference) :
    reference ∈ references ↔ reference ∈ scopes.references ∧ root ∈ scopes.chain reference.scope := by
  rw [referencesWithin, acquired] at run
  rw [(sorted_perm run).mem_iff, mem_flatMap]
  constructor
  · rintro ⟨number, inside, member⟩
    obtain ⟨listed, here⟩ := mem_filter.mp member
    obtain ⟨other, isOther, within⟩ := within_of_spread valid.nested _ _ (fun _ isRoot => mem_singleton.mp isRoot ▸ present) inside
    rw [of_decide_eq_true here, ← mem_singleton.mp isOther]
    exact ⟨listed, within⟩
  · rintro ⟨listed, inside⟩
    exact ⟨reference.scope, mem_spread valid.nested inside, mem_filter.mpr ⟨listed, decide_eq_true rfl⟩⟩

-- Scopes are met once each, since those still to come lie apart.
theorem spread_nodup (nested : scopes.Nested) (fuel : Nat) (stack : List Nat) (present : ∀ root ∈ stack, root < scopes.scopes.length)
    (apart : (stack.flatMap scopes.within).Nodup) : (scopes.spread fuel stack).Nodup := by
  induction fuel generalizing stack with
  | zero => exact nodup_nil
  | succ fuel ih =>
    cases stack with
    | nil => exact nodup_nil
    | cons first rest =>
      rw [flatMap_cons] at apart
      obtain ⟨_, others, disjoint⟩ := nodup_append.mp apart
      obtain ⟨own, children⟩ := nodup_cons.mp (children_apart nested first)
      have here := chain_self nested (present first mem_cons_self)
      have below {number : Nat} (member : number ∈ (scopes.childScopes first).flatMap scopes.within) : number ∈ scopes.within first := by
        obtain ⟨child, isChild, inside⟩ := mem_flatMap.mp member
        refine mem_within.mpr (chain_trans nested ?_ (mem_within.mp inside))
        rw [chain_under nested (mem_child_scopes.mp isChild)]
        exact mem_cons_of_mem _ here
      rw [spread]
      refine nodup_cons.mpr ⟨fun again => ?_, ih _ (stack_present present) ?_⟩
      · obtain ⟨root, isRoot, inside⟩ := within_of_spread nested fuel _ (stack_present present) again
        rcases mem_append.mp isRoot with isChild | isOther
        · exact own (mem_flatMap.mpr ⟨root, mem_reverse.mp isChild, mem_within.mpr inside⟩)
        · exact disjoint first (mem_within.mpr here) first (mem_flatMap.mpr ⟨root, isOther, mem_within.mpr inside⟩) rfl
      · rw [flatMap_append]
        have reordered := (reverse_perm (scopes.childScopes first)).flatMap_right scopes.within
        refine nodup_append.mpr ⟨reordered.nodup_iff.mpr children, others, fun number isBelow other isOther => ?_⟩
        exact disjoint number (below (reordered.mem_iff.mp isBelow)) other isOther

theorem rows_ordered (rows : List (List Value)) (each : ∀ row ∈ rows, ∃ line column, row = [.int line, .int column]) :
    ensureOrdered rows = .ok () := by
  induction rows with
  | nil => rfl
  | cons row rest ih =>
    obtain ⟨⟨line, column, rfl⟩, others⟩ := forall_mem_cons.mp each
    have comparable : (rest.find? fun other => (Value.belowItems? other [.int line, .int column]).isNone) = none := by
      refine List.find?_eq_none.mpr fun other isOther => ?_
      obtain ⟨first, second, rfl⟩ := others other isOther
      simp only [Value.belowItems?, Value.below?]
      split
      · split <;> simp
      · simp
    rw [ensureOrdered, comparable]
    exact ih others

theorem sorts (placed : ∀ reference ∈ references, ∃ line column, position reference.identifier = .ok [.int line, .int column]) :
    ∃ sorted, sortByPosition references = .ok sorted := by
  have rows : ∃ rows : List (List Value × Reference),
      (references.mapM fun reference => do return (← position reference.identifier, reference)) = .ok rows ∧
        ∀ row ∈ rows, ∃ line column, row.1 = [.int line, .int column] := by
    induction references with
    | nil => exact ⟨[], rfl, nofun⟩
    | cons reference rest ih =>
      obtain ⟨⟨line, column, isPlace⟩, others⟩ := forall_mem_cons.mp placed
      obtain ⟨rows, isRows, each⟩ := ih others
      refine ⟨(_, reference) :: rows, ?_, forall_mem_cons.mpr ⟨⟨line, column, rfl⟩, each⟩⟩
      rw [mapM_cons, isPlace, isRows]
      rfl
  obtain ⟨rows, isRows, each⟩ := rows
  have ordered := rows_ordered (rows.map (·.1)) (forall_mem_map.mpr each)
  exact ⟨_, (bind_of isRows).trans (bind_of (bind_of ordered))⟩

end Scopes

namespace Survey

open Scopes

-- The uses inside a function are those of the identifiers in it, and no identifier is used twice.
theorem references_within_exact (program function : Value) (scopes : Scopes) (isProgram : program.isA .program = true)
    (distinct : program.Distinct) (surveyed : Scopes.ofProgram program = .ok scopes)
    (shut : ∀ node ∈ program.records, ∀ child ∈ exposed node, child.isFunction = false)
    (placed : ∀ node ∈ program.records, ∃ line column, position node = .ok [.int line, .int column])
    (isMember : function ∈ program.records) (isFunction : function.isFunction = true) :
    (∃ found, scopes.referencesWithin function = .ok found ∧ found.Nodup ∧
      ∀ reference, reference ∈ found ↔ reference ∈ scopes.references ∧ reference.identifier ∈ function.records) ∧
    (scopes.references.map (·.identifier)).Nodup := by
  have known := survey_surveyed surveyed distinct
  have guarded : Guarded program.records function :=
    ⟨isFunction, fun node isNode shown => by rw [shut node isNode function shown] at isFunction; cases isFunction⟩
  have inner : function ≠ program := by
    rintro rfl
    rw [Value.isFunction, Value.kindIs, beq_iff_eq.mp isProgram] at isFunction
    cases isFunction
  have caught := (known.caught function isMember inner guarded).1
  refine ⟨?_, known.apart⟩
  cases acquired : scopes.acquire function with
  | none =>
    refine ⟨[], by rw [referencesWithin, acquired], nodup_nil, fun reference => ⟨fun inside => (by cases inside), fun inside => ?_⟩⟩
    obtain ⟨root, isRoot, _⟩ := caught reference inside.1 inside.2
    rw [acquired] at isRoot
    cases isRoot
  | some root =>
    obtain ⟨scope, isScope, isNode⟩ := acquired_scope known distinct isMember inner guarded acquired
    have present := lt_of_found isScope
    obtain ⟨found, isFound⟩ : ∃ found, scopes.referencesWithin function = .ok found := by
      rw [referencesWithin, acquired]
      refine sorts fun reference member => ?_
      obtain ⟨_, _, listed⟩ := mem_flatMap.mp member
      exact placed _ (known.inside reference (mem_filter.mp listed).1)
    refine ⟨found, isFound, ?_, fun reference => ?_⟩
    · rw [referencesWithin, acquired] at isFound
      have once := spread_nodup known.valid.nested scopes.scopes.length [root] (fun _ isRoot => mem_singleton.mp isRoot ▸ present)
        (by rw [flatMap_singleton]; exact within_nodup)
      refine (sorted_perm isFound).nodup_iff.mpr (nodup_flatMap.mpr ⟨fun _ _ => known.apart.of_map.filter _, once.imp ?_⟩)
      intro first second different reference inFirst inSecond
      exact different ((of_decide_eq_true (mem_filter.mp inFirst).2).symm.trans (of_decide_eq_true (mem_filter.mp inSecond).2))
    rw [mem_references_within known.valid acquired present isFound]
    refine and_congr_right fun member => ⟨fun around => ?_, fun inside => ?_⟩
    · obtain ⟨host, isHost, holds⟩ := hosts_around known.valid (known.hosted reference member) around
      rw [isScope] at isHost
      rw [← isNode, Option.some.inj isHost]
      exact holds mem_cons_self
    · obtain ⟨root', isRoot, within, _⟩ := caught reference member inside
      rw [acquired] at isRoot
      exact Option.some.inj isRoot ▸ within

end Survey

-- A call in a function that is handed to another call.
def innerCall : Value := .record 6 [("type", .str "CallExpression"), ("callee", nameNode 7 "inner"), ("arguments", .list [])]

def handedFunction : Value := .record 5 [("type", .str "ArrowFunctionExpression"), ("params", .list []), ("body", innerCall)]

def outerCall : Value := .record 3 [("type", .str "CallExpression"), ("callee", nameNode 4 "outer"), ("arguments", .list [handedFunction])]

def outerStatement : Value := .record 2 [("type", .str "ExpressionStatement"), ("expression", outerCall)]

def nestedCalls : Value := .record 1 [("type", .str "Program"), ("body", .list [outerStatement])]

theorem nested_calls_walk : nestedCalls.walk =
    [nestedCalls, outerStatement, outerCall, nameNode 4 "outer", handedFunction, innerCall, nameNode 7 "inner"] := by
  have program : nestedCalls.children = [outerStatement] := rfl
  have statement : outerStatement.children = [outerCall] := rfl
  have outer : outerCall.children = [nameNode 4 "outer", handedFunction] := rfl
  have function : handedFunction.children = [innerCall] := rfl
  have inner : innerCall.children = [nameNode 7 "inner"] := rfl
  have name (id : Nat) (text : String) : (nameNode id text).children = [] := rfl
  simp only [Value.walk, Value.walkAll, program, statement, outer, function, inner, name, append_nil, nil_append]

open Survey

def nestedScopes : Scopes where
  scopes := [{ kind := .module, node := nestedCalls, parent := none }, { kind := .function, node := handedFunction, parent := some 0 }]
  references := [⟨nameNode 4 "outer", 0, .read⟩, ⟨nameNode 7 "inner", 1, .read⟩]
  opened := [(5, 1), (1, 0)]
  parents := nestedCalls.parents

theorem nested_calls_surveyed : Scopes.ofProgram nestedCalls = .ok nestedScopes := by
  have statement (number : Nat) : visit .value outerStatement number = performAll [.visit .value outerCall] number := visit_eq ..
  have outer (number : Nat) : visit .value outerCall number =
      performAll [.visit .value (nameNode 4 "outer"), .visit .value handedFunction] number := visit_eq ..
  have function (number : Nat) : visit .value handedFunction number =
      performAll [.scope .function handedFunction [.declare (.ok []), .check (.ok ()), .visit .value innerCall]] number := visit_eq ..
  have inner (number : Nat) : visit .value innerCall number = performAll [.visit .value (nameNode 7 "inner")] number := visit_eq ..
  have name (id : Nat) (text : String) (number : Nat) : visit .value (nameNode id text) number =
      performAll [.refer (.ok true) (nameNode id text) .read] number := visit_eq ..
  have vars : hoistedVars (nestedCalls.get "body") = .ok [] := by
    have past (node : Value) (rest : List Value) (stays : node.filedKindIs (fun kind => kind.isFunction || kind.isClass) = .ok false)
        (quiet : ownVars node = .ok []) : varDeclarations (node :: rest) = varDeclarations (node.children.reverse ++ rest) := by
      rw [varDeclarations, stays, quiet]
      change (do return [] ++ (← varDeclarations (node.children.reverse ++ rest)) : Except Fault _) = _
      cases varDeclarations (node.children.reverse ++ rest) <;> rfl
    have skip : varDeclarations (handedFunction :: [nameNode 4 "outer"]) = varDeclarations [nameNode 4 "outer"] := by
      rw [varDeclarations]
      rfl
    change varDeclarations [outerStatement] = .ok []
    rw [past outerStatement [] rfl rfl]
    change varDeclarations [outerCall] = .ok []
    rw [past outerCall [] rfl rfl]
    change varDeclarations [handedFunction, nameNode 4 "outer"] = .ok []
    rw [skip, past (nameNode 4 "outer") [] rfl rfl]
    change varDeclarations [] = .ok []
    rw [varDeclarations]
  have parts : programParts nestedCalls = [.declare (.ok []), .declare (.ok []), .visit .value outerStatement] := by
    rw [programParts, vars]
    rfl
  have run : visitProgram nestedCalls { parents := nestedCalls.parents } = .ok ((), nestedScopes) := by
    rw [visit_program_eq, parts]
    simp only [performAll, perform, statement, outer, function, inner, name]
    rfl
  unfold Scopes.ofProgram
  change (do let done ← visitProgram nestedCalls { parents := nestedCalls.parents }; done.2.ensureNames; return done.2 : Except Fault Scopes) = _
  rw [run]
  rfl

theorem inner_name_within : ∃ found, nestedScopes.referencesWithin handedFunction = .ok found ∧
    ⟨nameNode 7 "inner", 1, .read⟩ ∈ found ∧ ⟨nameNode 4 "outer", 0, .read⟩ ∉ found := by
  have isRecords : nestedCalls.records =
    [nestedCalls, outerStatement, outerCall, nameNode 4 "outer", handedFunction, innerCall, nameNode 7 "inner"] := rfl
  obtain ⟨⟨found, isFound, _, within⟩, _⟩ := references_within_exact nestedCalls handedFunction nestedScopes rfl ⟨by decide, by decide⟩
    nested_calls_surveyed (by decide) (fun node member => ⟨0, 0, by
      rw [isRecords] at member
      simp only [mem_cons, not_mem_nil, or_false] at member
      rcases member with rfl | rfl | rfl | rfl | rfl | rfl | rfl <;> rfl⟩) (by simp [isRecords]) rfl
  refine ⟨found, isFound, (within _).mpr ⟨by simp [nestedScopes], ?_⟩, fun member => ?_⟩
  · exact mem_cons_of_mem _ (mem_cons_of_mem _ mem_cons_self)
  · have inside : nameNode 4 "outer" ∈ [handedFunction, innerCall, nameNode 7 "inner"] := ((within _).mp member).2
    simp [nameNode, handedFunction, innerCall] at inside

end HookLint
