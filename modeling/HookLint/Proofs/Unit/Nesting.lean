import HookLint.Proofs.Scope.Surveyed
import HookLint.Proofs.Tree.Lineage
import HookLint.Proofs.Unit.Recorded

namespace HookLint

open List

variable {program function : Value} {units : List CodeUnit} {done : List Value}

namespace Value

-- In a walk a node comes after its parent, and so after all nodes around it.
theorem parent_before_all {node parent : Value} {stack before after : List Value} (apart : ((walkAll stack).map identity).Nodup)
    (isList : walkAll stack = before ++ node :: after) (member : parent ∈ walkAll stack) (distinct : parent.Distinct)
    (isChild : node ∈ parent.children) : parent ∈ before := by
  fun_induction walkAll stack generalizing before with
  | case1 => cases member
  | case2 value rest ih =>
    obtain ⟨fresh, others⟩ := nodup_cons.mp apart
    cases before with
    | nil =>
      cases isList
      rcases mem_cons.mp member with rfl | later
      · exact absurd isChild (not_own_child distinct)
      · exact absurd (mem_map_of_mem (child_mem_walk_all later isChild)) fresh
    | cons first before =>
      obtain ⟨rfl, isRest⟩ := cons.inj isList
      rcases mem_cons.mp member with rfl | later
      · exact mem_cons_self
      · exact mem_cons_of_mem _ (ih others isRest later)

theorem Lineage.before {node : Value} {above before after : List Value} (around : Lineage program node above)
    (isRecord : program.isRecord = true) (distinct : program.Distinct) (isList : program.walk = before ++ node :: after) : above ⊆ before := by
  induction around generalizing before after with
  | root => exact nil_subset _
  | inside node parent above isParent isChild _ ih =>
    have inside := parent_before_all (walk_apart isRecord distinct) isList isParent
      (distinct.of_mem (walk_mem_records isRecord isParent)) isChild
    obtain ⟨first, second, rfl⟩ := append_of_mem inside
    have split : program.walk = first ++ parent :: (second ++ node :: after) := by rw [isList, append_assoc, cons_append]
    exact cons_subset.mpr ⟨inside, fun outer isOuter => mem_append_left _ (ih split isOuter)⟩

end Value

-- Every unit but the first lies right inside a unit that comes before it.
def UnitsNested (units : List CodeUnit) : Prop :=
  ∀ number unit, units[number]? = some unit → (number = 0 ∧ unit.parent = none) ∨
    ∃ outer around, unit.parent = some outer ∧ outer < number ∧ units[outer]? = some around ∧ around.node.Encloses unit.node

-- Every unit lists the units that lie right inside of it, each once and in the order of their numbers.
def UnitsListed (units : List CodeUnit) : Prop :=
  ∀ number unit, units[number]? = some unit → unit.children = (range units.length).filter fun child => units[child]?.bind (·.parent) == some number

theorem child_units_listed (nested : UnitsNested units) (listed : UnitsListed units) (outer : Nat) :
    childUnits units outer = (range units.length).filter fun child => units[child]?.bind (·.parent) == some outer := by
  rw [childUnits]
  cases found : units[outer]? with
  | some unit => exact listed outer unit found
  | none =>
    refine (filter_eq_nil_iff.mpr fun child present isParent => ?_).symm
    obtain ⟨unit, isUnit, isParent⟩ := Option.bind_eq_some_iff.mp (beq_iff_eq.mp isParent)
    rcases nested child unit isUnit with ⟨_, outermost⟩ | ⟨other, around, isOther, _, isAround, _⟩
    · rw [outermost] at isParent
      cases isParent
    · obtain rfl : other = outer := Option.some.inj (isOther.symm.trans isParent)
      rw [found] at isAround
      cases isAround

section
variable {parent child number : Nat} {unit : CodeUnit}

theorem adopt_parent : (units.modify parent (·.adopt child))[number]?.bind (·.parent) = units[number]?.bind (·.parent) := by
  rw [getElem?_modify]
  cases units[number]? with
  | none => rfl
  | some unit =>
    by_cases same : parent = number <;> simp [same, CodeUnit.adopt]

-- What stands in the list after a unit was filed with its parent and added.
theorem added_entry {entry : CodeUnit} (found : (units.modify parent (·.adopt units.length) ++ [unit])[number]? = some entry) :
    (∃ old, units[number]? = some old ∧ old.node = entry.node ∧ old.parent = entry.parent ∧
      entry.children = old.children ++ if parent = number then [units.length] else []) ∨ number = units.length ∧ entry = unit := by
  rw [getElem?_append, length_modify] at found
  split at found
  · rw [getElem?_modify] at found
    obtain ⟨old, isOld, rfl⟩ := Option.map_eq_some_iff.mp found
    refine .inl ⟨old, isOld, ?_⟩
    by_cases same : parent = number <;> simp [same, CodeUnit.adopt]
  · rw [getElem?_singleton] at found
    split at found
    · exact .inr ⟨by omega, (Option.some.inj found).symm⟩
    · cases found

variable (nested : UnitsNested units) (within : parent < units.length) (isParent : unit.parent = some parent)
include nested within isParent

-- A unit that is added lies in an earlier one, and is filed with that one only.
theorem add_nested (encloses : units[parent].node.Encloses unit.node) :
    UnitsNested (units.modify parent (·.adopt units.length) ++ [unit]) := by
  have present (outer : Nat) (around : CodeUnit) (known : units[outer]? = some around) : ∃ later,
      (units.modify parent (·.adopt units.length) ++ [unit])[outer]? = some later ∧ later.node = around.node := by
    have bound := (List.getElem?_eq_some_iff.mp known).1
    rw [getElem?_append_left (by rwa [length_modify]), getElem?_modify, known]
    refine ⟨_, rfl, ?_⟩
    by_cases same : parent = outer <;> simp [same, CodeUnit.adopt]
  intro number found isFound
  rcases added_entry isFound with ⟨before, isBefore, sameNode, sameParent, _⟩ | ⟨rfl, rfl⟩
  · rw [← sameNode, ← sameParent]
    refine (nested number before isBefore).imp_right ?_
    rintro ⟨outer, around, isOuter, earlier, known, encloses⟩
    obtain ⟨later, isLater, same⟩ := present outer around known
    exact ⟨outer, later, isOuter, earlier, isLater, same ▸ encloses⟩
  · obtain ⟨later, isLater, same⟩ := present parent _ (getElem?_eq_getElem within)
    exact .inr ⟨parent, later, isParent, within, isLater, same ▸ encloses⟩

theorem add_listed (listed : UnitsListed units) (fresh : unit.children = []) :
    UnitsListed (units.modify parent (·.adopt units.length) ++ [unit]) := by
  have size : (units.modify parent (·.adopt units.length)).length = units.length := length_modify ..
  have early (outer : Nat) : (range units.length).filter (fun child =>
        (units.modify parent (·.adopt units.length) ++ [unit])[child]?.bind (·.parent) == some outer) =
      (range units.length).filter fun child => units[child]?.bind (·.parent) == some outer := by
    refine filter_congr fun child isChild => ?_
    rw [getElem?_append_left (by rw [size]; exact mem_range.mp isChild), adopt_parent]
  have last : (units.modify parent (·.adopt units.length) ++ [unit])[units.length]? = some unit := by
    rw [getElem?_append_right (by rw [size]), size, Nat.sub_self]
    rfl
  intro number found isFound
  rw [length_append, size, length_singleton, range_succ, filter_append, early, filter_singleton, last, Option.bind_some, isParent,
    Bool.cond_eq_ite]
  rcases added_entry isFound with ⟨before, isBefore, _, _, children⟩ | ⟨rfl, rfl⟩
  · rw [children, listed number before isBefore]
    by_cases same : parent = number <;> simp [same]
  · -- No unit lies in one that comes after it, so the new unit lists none.
    have none := child_units_listed nested listed units.length
    rw [childUnits, getElem?_eq_none (Nat.le_refl _)] at none
    rw [fresh, ← none]
    simp [Nat.ne_of_lt within]

end

-- The units found so far: the program and some of its functions, each filed under its number.
structure Discovery.Mirrors (program : Value) (done : List Value) (found : Discovery) : Prop where
  nodes : found.units.map (·.node) = program :: done
  filed : found.owners = ((program :: done).zipIdx.map fun entry => (entry.1.identity, entry.2)).reverse
  nested : UnitsNested found.units
  listed : UnitsListed found.units

theorem Discovery.Mirrors.mem_owners {found : Discovery} (mirrors : found.Mirrors program done) {id number : Nat} :
    (id, number) ∈ found.owners ↔ ∃ node, (program :: done)[number]? = some node ∧ node.identity = id := by
  simp only [mirrors.filed, mem_reverse, mem_map, Prod.exists, mem_zipIdx_iff_getElem?, Prod.mk.injEq, ← and_assoc,
    exists_eq_right]

section
variable {registry : Registry} {scopes : Scopes} {found : Discovery} (distinct : program.Distinct) (isRecord : program.isRecord = true)
include distinct isRecord

theorem owner_found {node target : Value} {above : List Value} (mirrors : found.Mirrors program done) (inside : done ⊆ program.walk)
    (around : Value.Lineage program node above) (inner : node ≠ program)
    (known : ∀ outer ∈ above, outer.isFunction = true → outer ∈ done) (reaches : node.Reaches target) :
    ∃ number outer, (above.findSome? fun outer => outer.id?.bind fun id => found.owners.lookup id) = some number ∧
      (program :: done)[number]? = some outer ∧ outer.Encloses target := by
  induction around with
  | root => exact absurd rfl inner
  | inside node parent above isParent isChild around ih =>
    have isNode := Value.walk_mem_records isRecord isParent
    rw [findSome?_cons, distinct.id isNode, Option.bind_some]
    cases owned : found.owners.lookup parent.identity with
    | some number =>
      obtain ⟨before, after, isList, _⟩ := lookup_eq_some_iff.mp owned
      obtain ⟨outer, listed, same⟩ := mirrors.mem_owners.mp (isList ▸ mem_append_right before mem_cons_self)
      have isOuter : outer ∈ program.records := by
        rcases mem_cons.mp (mem_of_getElem? listed) with rfl | isDone
        · exact Value.mem_records_self isRecord
        · exact Value.walk_mem_records isRecord (inside isDone)
      rw [distinct.eq_of_identity isOuter isNode same] at listed
      exact ⟨number, parent, rfl, listed, node, isChild, reaches⟩
    | none =>
      -- A parent that is no unit is neither the program nor a function, so the search goes on outside of it.
      have missing : parent ∉ program :: done := by
        intro listed
        obtain ⟨number, isParent⟩ := getElem?_of_mem listed
        exact absurd rfl (bne_iff_ne.mp (lookup_eq_none_iff.mp owned _ (mirrors.mem_owners.mpr ⟨parent, isParent, rfl⟩)))
      obtain ⟨outermost, unlisted⟩ := not_or.mp (mt mem_cons.mpr missing)
      have own : parent.isFunction = false :=
        Bool.eq_false_iff.mpr fun opens => unlisted (known parent mem_cons_self opens)
      exact ih outermost (fun outer isOuter => known outer (mem_cons_of_mem _ isOuter)) (.inner parent node target own isChild reaches)

theorem add_function_mirrors {rest : List Value} (parents : scopes.parents = program.parents) (isProgram : program.isA .program = true)
    (isList : program.walk.filter (·.isFunction) = done ++ function :: rest) (mirrors : found.Mirrors program done)
    (classified : ∃ named, functionName scopes function = .ok named ∧ ∀ top, ∃ host, hostKind registry scopes function named top = .ok host) :
    ∃ next, found.addFunction registry scopes function = .ok next ∧ next.Mirrors program (done ++ [function]) := by
  obtain ⟨before, after, isWalk, isDone, _⟩ := filter_eq_append_iff.mp isList
  obtain ⟨between, behind, rfl, skipped, opens, _⟩ := filter_eq_cons_iff.mp ‹after.filter _ = _›
  have isMember : function ∈ program.walk := by
    rw [isWalk]
    exact mem_append_right _ (mem_append_right _ mem_cons_self)
  have inside : done ⊆ program.walk := by
    intro node member
    rw [← isDone] at member
    rw [isWalk]
    exact mem_append_left _ (mem_filter.mp member).1
  have inner : function ≠ program := by
    rintro rfl
    rw [Value.function_not_program opens] at isProgram
    cases isProgram
  obtain ⟨above, around⟩ := Value.lineage isMember
  have known : ∀ outer ∈ above, outer.isFunction = true → outer ∈ done := by
    intro outer isOuter opensOuter
    have split : program.walk = (before ++ between) ++ function :: behind := by rw [isWalk, append_assoc]
    have early := around.before isRecord distinct split isOuter
    rcases mem_append.mp early with first | second
    · rw [← isDone]
      exact mem_filter.mpr ⟨first, opensOuter⟩
    · exact absurd opensOuter (skipped outer second)
  obtain ⟨number, outer, owned, listed, encloses⟩ := owner_found distinct isRecord mirrors inside around inner known (.self function)
  obtain ⟨named, isNamed, hosts⟩ := classified
  obtain ⟨host, isHost⟩ := hosts (decide (found.around scopes function = 0))
  have isParent : found.around scopes function = number := by
    rw [Discovery.around, Scopes.ancestors_lineage distinct isRecord parents around, owned]
    rfl
  have size : found.units.length = done.length + 1 := by
    rw [← length_map (fun unit : CodeUnit => unit.node), mirrors.nodes, length_cons]
  have within : number < found.units.length := by
    rw [size]
    exact (List.getElem?_eq_some_iff.mp listed).1
  have encloses : found.units[number].node.Encloses function := by
    have same : (found.units.map (·.node))[number]? = some outer := by rw [mirrors.nodes, listed]
    rw [getElem?_map, getElem?_eq_getElem within] at same
    rwa [← Option.some.inj same] at encloses
  subst isParent
  refine ⟨_, (bind_of isNamed).trans (bind_of isHost), ⟨?_, ?_, add_nested mirrors.nested within rfl encloses,
    add_listed mirrors.nested within rfl mirrors.listed rfl⟩⟩
  · rw [map_append, adopt_nodes, mirrors.nodes]
    rfl
  · rw [distinct.id (Value.walk_mem_records isRecord isMember), Option.getD_some, size, mirrors.filed, ← cons_append, zipIdx_append,
      map_append, reverse_append, length_cons, Nat.zero_add]
    rfl

end

section
variable (nested : UnitsNested units)
include nested

theorem units_around_climb (number fuel : Nat) (present : number < units.length) (enough : number < fuel) :
    (number :: unitsAroundFrom units fuel number).IsChain (fun inner outer => units[inner]?.bind (·.parent) = some outer) ∧
      (number :: unitsAroundFrom units fuel number).getLast? = some 0 := by
  induction number using Nat.strongRecOn generalizing fuel with
  | _ number ih =>
    cases fuel with
    | zero => cases enough
    | succ fuel =>
      have found := getElem?_eq_getElem present
      rw [unitsAroundFrom, found, Option.bind_some]
      rcases nested number _ found with ⟨rfl, outermost⟩ | ⟨outer, around, isParent, earlier, _⟩
      · rw [outermost]
        exact ⟨.singleton 0, rfl⟩
      · rw [isParent]
        obtain ⟨chain, last⟩ := ih outer earlier fuel (Nat.lt_trans earlier present) (by omega)
        refine ⟨.cons_cons ?_ chain, by rw [getLast?_cons_cons, last]⟩
        rw [found, Option.bind_some, isParent]

end

-- Units mirror the nesting of functions: each lies in the unit of the nearest function around it, which lists it once among its
-- children, and the host around a unit is the first one on the way out.
theorem units_mirror_nesting (registry : Registry) (program : Value) (scopes : Scopes) (isProgram : program.isA .program = true)
    (distinct : program.Distinct) (surveyed : Scopes.ofProgram program = .ok scopes)
    (classified : ∀ function ∈ program.walk, function.isFunction = true → ∃ named, functionName scopes function = .ok named ∧
      ∀ top, ∃ host, hostKind registry scopes function named top = .ok host) :
    ∃ units, codeUnits registry scopes program = .ok units ∧
      units.map (·.node) = program :: program.walk.filter (·.isFunction) ∧ (units.map (·.node)).Nodup ∧
      (∀ number unit, units[number]? = some unit → (number = 0 ∧ unit.parent = none) ∨
        ∃ outer around, unit.parent = some outer ∧ outer < number ∧ units[outer]? = some around ∧ around.node.Encloses unit.node) ∧
      (∀ number outer, number ∈ childUnits units outer ↔ units[number]?.bind (·.parent) = some outer) ∧
      (∀ outer, (childUnits units outer).Pairwise (· < ·)) ∧
      ∀ number < units.length,
        (number :: unitsAround units number).IsChain (fun inner outer => units[inner]?.bind (·.parent) = some outer) ∧
        (number :: unitsAround units number).getLast? = some 0 ∧
        (∀ host, enclosingHost units number = some host ↔ (units[host]?.map (·.isHost)).getD false = true ∧
          ∃ inside outside, unitsAround units number = inside ++ host :: outside ∧
            ∀ other ∈ inside, (units[other]?.map (·.isHost)).getD false = false) ∧
        (enclosingHost units number = none ↔ ∀ other ∈ unitsAround units number, (units[other]?.map (·.isHost)).getD false = false) := by
  have isRecord := Survey.is_record_of_is_a isProgram
  have parents := (Survey.survey_surveyed surveyed distinct).parents
  have filed : ∃ kind, program.filedKind = .ok kind := by
    obtain ⟨id, fields, rfl, filed⟩ := Flow.kind_record program _ (beq_iff_eq.mp isProgram)
    exact ⟨_, filed⟩
  have fold (rest done : List Value) (found : Discovery) (mirrors : found.Mirrors program done)
      (isList : program.walk.filter (·.isFunction) = done ++ rest) :
      ∃ last, rest.foldlM (fun found function => found.addFunction registry scopes function) found = .ok last ∧
        last.Mirrors program (done ++ rest) := by
    induction rest generalizing done found with
    | nil => exact ⟨found, rfl, by rw [append_nil]; exact mirrors⟩
    | cons function rest ih =>
      have isMember := mem_filter.mp (isList ▸ mem_append_right done (mem_cons_self))
      obtain ⟨next, added, mirrors⟩ := add_function_mirrors distinct isRecord parents isProgram isList mirrors
        (classified function isMember.1 isMember.2)
      obtain ⟨last, folded, mirrors⟩ := ih (done ++ [function]) next mirrors (by rw [isList, append_assoc]; rfl)
      rw [append_assoc] at mirrors
      exact ⟨last, by rw [foldlM_cons, added]; exact folded, mirrors⟩
  obtain ⟨kind, isKind⟩ := filed
  obtain ⟨last, folded, mirrors⟩ := fold (program.walk.filter (·.isFunction)) []
    { units := [{ node := program, isProgram := true }], owners := [(program.id?.getD 0, 0)] } (by
      refine ⟨rfl, ?_, fun number unit found => ?_, fun number unit found => ?_⟩
      · rw [distinct.id (Value.mem_records_self isRecord)]
        rfl
      · cases number <;> simp at found
        exact .inl ⟨rfl, by rw [← found]⟩
      · cases number <;> simp at found
        subst found
        rfl) rfl
  have discovered : codeUnits registry scopes program = .ok last.units := (bind_of isKind).trans (bind_of folded)
  refine ⟨last.units, discovered, mirrors.nodes, units_apart isRecord (beq_iff_eq.mp isProgram) distinct discovered, mirrors.nested,
    fun number outer => ?_, fun outer => ?_, fun number present => ?_⟩
  · rw [child_units_listed mirrors.nested mirrors.listed, mem_filter, mem_range, beq_iff_eq]
    refine and_iff_right_of_imp fun isParent => ?_
    obtain ⟨unit, found, _⟩ := Option.bind_eq_some_iff.mp isParent
    exact (List.getElem?_eq_some_iff.mp found).1
  · rw [child_units_listed mirrors.nested mirrors.listed]
    exact pairwise_lt_range.filter _
  · obtain ⟨chain, last⟩ := units_around_climb mirrors.nested number _ present present
    refine ⟨chain, last, fun host => ?_, ?_⟩
    · rw [enclosingHost, find?_eq_some_iff_append]
      simp
    · rw [enclosingHost, find?_eq_none]
      simp

theorem nested_calls_mirrored : ∃ units, codeUnits {} nestedScopes nestedCalls = .ok units ∧
    units.map (·.node) = [nestedCalls, handedFunction] ∧ 1 ∈ childUnits units 0 := by
  have inside : handedFunction ∈ nestedCalls.walk ∧ outerCall ∈ nestedCalls.walk := by simp [nested_calls_walk]
  have isParent : nestedScopes.parent? handedFunction = some outerCall :=
    (Scopes.parent_iff ⟨by decide, by decide⟩ rfl rfl (Value.walk_mem_records rfl inside.1)).mpr ⟨inside.2, .tail _ (.head _)⟩
  have named : functionName nestedScopes handedFunction = .ok {} := by
    unfold functionName
    rw [isParent]
    rfl
  have unwrapped : isWrapped nestedScopes handedFunction = .ok false := by
    have callee : (nameNode 4 "outer").stripChain = .ok (nameNode 4 "outer") := by
      rw [nameNode, Value.stripChain]
      rfl
    have wrapper : wrapperName outerCall = .ok none := by
      change (nameNode 4 "outer").stripChain >>= _ = _
      rw [callee]
      rfl
    rw [isWrapped, isParent]
    change (wrapperName outerCall >>= fun name => pure name.isSome) = _
    rw [wrapper]
    rfl
  have only : nestedCalls.walk.filter (·.isFunction) = [handedFunction] := by
    rw [nested_calls_walk]
    rfl
  obtain ⟨units, found, nodes, _, nested, children, _⟩ := units_mirror_nesting {} nestedCalls nestedScopes rfl ⟨by decide, by decide⟩
    nested_calls_surveyed (fun function member isFunction => by
      have listed : function ∈ nestedCalls.walk.filter (·.isFunction) := mem_filter.mpr ⟨member, isFunction⟩
      rw [only] at listed
      rw [mem_singleton.mp listed]
      refine ⟨{}, named, fun top => ⟨.none, ?_⟩⟩
      unfold hostKind
      rw [unwrapped, inner_call_plain]
      cases top <;> rfl)
  rw [only] at nodes
  refine ⟨units, found, nodes, (children 1 0).mpr ?_⟩
  obtain ⟨unit, isUnit⟩ : ∃ unit, units[1]? = some unit := by
    have size := congrArg length nodes
    rw [length_map] at size
    exact ⟨_, getElem?_eq_getElem (by rw [size]; decide)⟩
  rcases nested 1 unit isUnit with ⟨impossible, _⟩ | ⟨outer, _, isOuter, earlier, _⟩
  · cases impossible
  · rw [isUnit, Option.bind_some, isOuter, Nat.lt_one_iff.mp earlier]

end HookLint
