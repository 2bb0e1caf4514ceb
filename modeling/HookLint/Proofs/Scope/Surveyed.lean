import HookLint.Proofs.Scope.Steps

namespace HookLint.Survey

open List Value Option

variable {number : Nat} {program : Value} {start : Scopes}

open Scopes

section
variable {id : Nat} {fields : Fields} {scopes : Scopes}

theorem program_parts_stay : AllStay id fields (programParts (.record id fields)) := by
  have within {record : Value} (present : record ∈ (fields.get "body").records) : record ∈ (Value.record id fields).records :=
    mem_cons_of_mem _ ((get_records_sublist fields "body").subset present)
  refine ⟨fun made run declaration member => (hoisted_vars_among run member).mono fun _ present => within present, ?_,
    visits_stay .value fun _ => reached_part⟩
  exact lexicals_stay

theorem program_takes : takesAll (programParts (.record id fields)) = recordsOfItems (fields.get "body").parts := by
  rw [programParts, takes_declare, takes_declare, takes_visits]
  rfl

-- The state in which the parts of a program are surveyed.
structure Started (program : Value) (start : Scopes) : Prop where
  valid : start.Valid
  first : ∃ scope, start.scopes[0]? = some scope ∧ scope.node = program
  unused : start.references = []
  parents : start.parents = program.parents
  opened : start.opened = (program.id?.map (·, 0)).toList

theorem enter_started
    (run : enter .module program none { parents := program.parents } = .ok (number, start)) : number = 0 ∧ Started program start := by
  obtain ⟨rfl, isScopes, references, parents, opened⟩ := enter_run run
  have only : start.scopes = [{ kind := .module, node := program, parent := none }] := isScopes
  have first (number : Nat) (scope : Scope) (found : start.scopes[number]? = some scope) :
      number = 0 ∧ scope = { kind := .module, node := program, parent := none } := by
    rw [only] at found
    cases number with
    | zero => exact ⟨rfl, (Option.some.inj found).symm⟩
    | succ number => cases found
  have outermost (inner outer : Nat) : ¬ start.Under inner outer := by
    rintro ⟨scope, found, around⟩
    rw [(first inner scope found).2] at around
    cases around
  refine ⟨rfl, ⟨fun inner outer under => absurd under (outermost inner outer), fun number scope found _ => (first number scope found).1,
    fun inner outer under => absurd under (outermost inner outer), fun number scope found binding member => ?_⟩,
    ⟨_, by rw [only]; rfl, rfl⟩, references, parents, by rw [opened, append_nil]; rfl⟩
  rw [(first number scope found).2] at member
  cases member

theorem Started.hosts (started : Started program start) : start.Hosts 0 program.records := by
  obtain ⟨scope, found, isProgram⟩ := started.first
  exact ⟨scope, found, by rw [isProgram]; exact List.Subset.refl _⟩

theorem survey_run (run : Scopes.ofProgram program = .ok scopes) :
    program.isRecord = true ∧ (∃ start, Started program start ∧ performAll (programParts program) 0 start = .ok ((), scopes)) ∧
      scopes.ensureNames = .ok () := by
  unfold Scopes.ofProgram at run
  cases isRecord : program.isRecord with
  | false =>
    rw [isRecord] at run
    cases run
  | true =>
    rw [isRecord] at run
    obtain ⟨⟨_, found⟩, visited, run⟩ := bind_ok run
    obtain ⟨_, named, run⟩ := bind_ok run
    cases run
    rw [visit_program_eq] at visited
    obtain ⟨number, start, entered, performed⟩ := run_bind visited
    obtain ⟨rfl, started⟩ := enter_started entered
    exact ⟨rfl, ⟨start, started, performed⟩, named⟩

-- What is known of the scopes of a program.
structure Surveyed (program : Value) (scopes : Scopes) : Prop where
  valid : scopes.Valid
  parents : scopes.parents = program.parents
  within : ∀ (number : Nat) (scope : Scope), scopes.scopes[number]? = some scope → scope.node.records ⊆ program.records
  inside : ∀ reference ∈ scopes.references, reference.identifier ∈ program.records
  used : ∀ reference ∈ scopes.references, Used program.records reference.identifier
  keyed : ∀ reference ∈ scopes.references, ∃ key, reference.identifier.spellingKey = .ok key
  apart : (scopes.references.map (·.identifier)).Nodup
  hosted : ∀ reference ∈ scopes.references, scopes.Hosts reference.scope [reference.identifier]
  caught : ∀ function ∈ program.records, function ≠ program → Guarded program.records function →
    (∀ reference ∈ scopes.references, reference.identifier ∈ function.records → scopes.Caught function reference.scope) ∧
      ∀ entry ∈ scopes.opened, ∃ node ∈ program.records, node.id? = some entry.1 ∧
        (node ∈ function.records → scopes.Caught function entry.2)

theorem outermost_around (valid : scopes.Valid) (present : number < scopes.scopes.length) : 0 ∈ scopes.chain number := by
  induction number using Nat.strongRecOn with
  | _ number ih =>
    rcases chain_cases scopes number with missing | ⟨scope, found, outermost⟩ | ⟨outer, under⟩
    · rw [List.getElem?_eq_none_iff] at missing
      omega
    · rw [chain_outermost found outermost, valid.single number scope found outermost]
      exact mem_singleton.mpr rfl
    · have smaller := valid.nested number outer under
      rw [chain_under valid.nested under]
      exact mem_cons_of_mem _ (ih outer smaller (Nat.lt_trans smaller present))

theorem names_ensured {references : List Reference}
    (run : (references.forM fun reference => do let _ ← reference.identifier.spellingKey : Except Fault Unit) = .ok ()) :
    ∀ reference ∈ references, ∃ key, reference.identifier.spellingKey = .ok key := by
  induction references with
  | nil => exact nofun
  | cons reference rest ih =>
    rw [List.forM] at run
    obtain ⟨_, first, others⟩ := bind_ok run
    obtain ⟨key, keyed, _⟩ := bind_ok first
    exact forall_mem_cons.mpr ⟨⟨key, keyed⟩, ih others⟩

theorem is_record_of_spelling {identifier : Value} {key : Key} (keyed : identifier.spellingKey = .ok key) : identifier.isRecord = true := by
  unfold spellingKey at keyed
  split at keyed
  · assumption
  · cases keyed

theorem survey_surveyed (run : Scopes.ofProgram program = .ok scopes) (distinct : program.Distinct) : Surveyed program scopes := by
  obtain ⟨isRecord, ⟨start, started, performed⟩, named⟩ := survey_run run
  have keyed := names_ensured named
  cases program with
  | record id fields =>
    have included : (takesAll (programParts (.record id fields))).Sublist (recordsOfFields fields) := by
      rw [program_takes]
      exact (parts_records_sublist _).trans (get_records_sublist fields "body")
    have apart := (included.map identity).nodup (fields_apart distinct)
    have visits (inner : Value) (reached : Reached (.record id fields) inner) (role : Role) :
        Visits (Value.record id fields).records role inner := by
      have inside : inner.records.Sublist (Value.record id fields).records := (reached_records_inside reached).cons _
      exact visit_adds role inner (distinct.of_sublist inside) inside.subset
    have adds := perform_all_adds distinct mem_cons_self visits _ program_parts_stay apart 0 start scopes started.valid
      started.hosts performed
    obtain ⟨noted, isNoted, took, each⟩ := adds.noted
    rw [started.unused, nil_append] at isNoted
    subst isNoted
    have records (reference : Reference) (member : reference ∈ scopes.references) : reference.identifier.self = [reference.identifier] := by
      obtain ⟨_, isKey⟩ := keyed reference member
      have isRecord := is_record_of_spelling isKey
      cases isName : reference.identifier with
      | record _ _ => rfl
      | _ =>
        rw [isName] at isRecord
        cases isRecord
    have isMap : scopes.references.flatMap (·.identifier.self) = scopes.references.map (·.identifier) := by
      rw [flatMap_congr records, ← map_eq_flatMap]
    rw [isMap] at took
    refine ⟨adds.valid, adds.parents.trans started.parents, fun number scope found => ?_, fun reference member => ?_,
      fun reference member => (each reference member).1, keyed, ?_, fun reference member => ?_,
      fun function isFunction inner guarded => ?_⟩
    · obtain ⟨first, foundFirst, isProgram⟩ := started.first
      obtain ⟨later, foundLater, same, _⟩ := scope_kept adds.frame foundFirst
      obtain ⟨host, foundHost, around⟩ := hosts_around adds.valid ⟨scope, found, List.Subset.refl _⟩
        (outermost_around adds.valid (lt_of_found found))
      rw [foundLater] at foundHost
      rw [← Option.some.inj foundHost, same, isProgram] at around
      exact around
    · exact mem_cons_of_mem _ (included.subset (took.subset (mem_map_of_mem member)))
    · obtain ⟨some, reordered, part⟩ := took
      exact reordered.nodup_iff.mp (part.nodup apart.of_map)
    · rw [← records reference member]
      exact (each reference member).2.1
    · have deeper := (mem_cons.mp isFunction).resolve_left inner
      refine ⟨fun reference member inside => ((each reference member).2.2.caught function deeper guarded inside).1, ?_⟩
      obtain ⟨made, isMade, opened⟩ := adds.opened
      rw [isMade, started.opened]
      refine forall_mem_append.mpr ⟨fun entry member => ?_, fun entry member => ?_⟩
      · obtain ⟨node, isNode, isId, lies⟩ := opened entry member
        exact ⟨node, mem_cons_of_mem _ (included.subset isNode), isId, fun inside => (lies.caught function deeper guarded inside).1⟩
      · rw [mem_toList] at member
        obtain ⟨number, isId, rfl⟩ := map_eq_some_iff.mp member
        exact ⟨_, mem_cons_self, isId, fun inside =>
          absurd ((inner_records_fields fields function deeper).subset inside) (not_in_own_fields distinct)⟩
  | _ => cases isRecord

-- The scope that was opened for a function.
theorem acquired_scope {function : Value} {root : Nat} (surveyed : Surveyed program scopes) (distinct : program.Distinct)
    (isFunction : function ∈ program.records) (inner : function ≠ program) (guarded : Guarded program.records function)
    (acquired : scopes.acquire function = some root) : ∃ scope, scopes.scopes[root]? = some scope ∧ scope.node = function := by
  obtain ⟨id, isId, listed⟩ := bind_eq_some_iff.mp acquired
  obtain ⟨before, after, isList, _⟩ := lookup_eq_some_iff.mp listed
  obtain ⟨node, isNode, isOpened, caught⟩ := (surveyed.caught function isFunction inner guarded).2 (id, root)
    (by rw [isList]; exact mem_append_right _ mem_cons_self)
  obtain rfl := distinct.eq_of_identity isNode isFunction ((identity_of_id isOpened).trans (identity_of_id isId).symm)
  obtain ⟨_, again, _, scope, found, same⟩ := caught (mem_records_self (is_record_of_mem_records _ _ isNode))
  rw [acquired] at again
  exact ⟨scope, Option.some.inj again ▸ found, same⟩

-- The name that a use refers to is spelled the same, and it is declared by an identifier in its scope.
theorem bound_kept {reference : Reference} {binding : Binding} (surveyed : Surveyed program scopes)
    (bound : scopes.bindingOf reference = some binding) :
    reference.name.key? = some binding.key ∧ scopes.lookup reference.scope binding.key = some binding ∧
      ∃ scope, scopes.scopes[binding.scope]? = some scope ∧ Kept binding.scope scope.node binding := by
  obtain ⟨key, isKey, found⟩ := bind_eq_some_iff.mp bound
  obtain ⟨number, _, here⟩ := exists_of_findSome?_eq_some found
  obtain ⟨scope, isScope, listed⟩ := bind_eq_some_iff.mp here
  have same : binding.key = key := by
    have chosen := List.find?_some (p := fun other : Binding => decide (other.key = key)) listed
    exact of_decide_eq_true chosen
  have kept := surveyed.valid.kept number scope isScope binding (mem_of_find?_eq_some listed)
  rw [← kept.scope] at isScope kept
  rw [same]
  exact ⟨isKey, found, scope, isScope, kept⟩

end

end HookLint.Survey
