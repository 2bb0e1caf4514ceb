import HookLint.Proofs.Scope.Nesting
import HookLint.Proofs.Scope.Taken
import HookLint.Proofs.Tree.Lineage

namespace HookLint

open List Value Option

variable {kind : ScopeKind} {scope : Scope} {scopes : Scopes}

variable {fewer all held taken : List Value} {identifier node : Value} {inner home : Nat} {before after : Scopes} {fresh : Binding}

namespace Scopes

-- What never changes of the scopes that are open: the node that each was opened for, and its place.
def frame (scopes : Scopes) : List (Value × Option Nat) := scopes.scopes.map fun scope => (scope.node, scope.parent)

-- A scope that was opened for a node around all of the given ones.
def Hosts (scopes : Scopes) (number : Nat) (records : List Value) : Prop :=
  ∃ scope, scopes.scopes[number]? = some scope ∧ records ⊆ scope.node.records

-- A name is filed under the scope that it is kept in, by the identifier that declares it.
structure Kept (number : Nat) (node : Value) (binding : Binding) : Prop where
  scope : binding.scope = number
  inside : binding.identifier ∈ node.records
  isName : binding.identifier.isA .identifier = true
  name : binding.name = binding.identifier.spelling
  key : binding.identifier.spellingKey = .ok binding.key

structure Valid (scopes : Scopes) : Prop where
  nested : scopes.Nested
  single : ∀ number scope, scopes.scopes[number]? = some scope → scope.parent = none → number = 0
  inside : ∀ number outer, scopes.Under number outer → ∀ scope, scopes.scopes[number]? = some scope → scopes.Hosts outer [scope.node]
  kept : ∀ number scope, scopes.scopes[number]? = some scope → ∀ binding ∈ scope.bindings, Kept number scope.node binding

section
variable {before middle after scopes : Scopes} {number inner outer : Nat} {records : List Value}

theorem frame_entry : scopes.frame[number]? = scopes.scopes[number]?.map fun scope => (scope.node, scope.parent) := by
  rw [frame, List.getElem?_map]

theorem frame_kept {entry : Value × Option Nat} (grows : before.frame <+: after.frame)
    (found : before.frame[number]? = some entry) : after.frame[number]? = some entry := by
  obtain ⟨added, same⟩ := grows
  have present := (List.getElem?_eq_some_iff.mp found).1
  rw [← same, List.getElem?_append_left present, found]

theorem under_iff : scopes.Under inner outer ↔ ∃ node, scopes.frame[inner]? = some (node, some outer) := by
  rw [frame_entry]
  constructor
  · rintro ⟨scope, found, around⟩
    exact ⟨scope.node, by rw [found, map_some, around]⟩
  · rintro ⟨node, entry⟩
    obtain ⟨scope, found, same⟩ := map_eq_some_iff.mp entry
    exact ⟨scope, found, congrArg Prod.snd same⟩

section
variable (grows : before.frame <+: after.frame)
include grows

theorem under_kept (under : before.Under inner outer) : after.Under inner outer := by
  obtain ⟨node, entry⟩ := under_iff.mp under
  exact under_iff.mpr ⟨node, frame_kept grows entry⟩

theorem scope_kept (found : before.scopes[number]? = some scope) :
    ∃ later, after.scopes[number]? = some later ∧ later.node = scope.node ∧ later.parent = scope.parent := by
  have entry : before.frame[number]? = some (scope.node, scope.parent) := by rw [frame_entry, found, map_some]
  have later := frame_kept grows entry
  rw [frame_entry] at later
  obtain ⟨later, found, same⟩ := map_eq_some_iff.mp later
  exact ⟨later, found, congrArg Prod.fst same, congrArg Prod.snd same⟩

theorem length_kept : before.scopes.length ≤ after.scopes.length := by
  have shorter := grows.length_le
  rwa [frame, frame, length_map, length_map] at shorter

theorem hosts_kept (hosts : before.Hosts number records) : after.Hosts number records := by
  obtain ⟨scope, found, included⟩ := hosts
  obtain ⟨later, foundLater, same, _⟩ := scope_kept grows found
  exact ⟨later, foundLater, by rw [same]; exact included⟩

end

theorem hosts_present (hosts : scopes.Hosts number records) : number < scopes.scopes.length := by
  obtain ⟨scope, found, _⟩ := hosts
  exact lt_of_found found

theorem hosts_mono (hosts : scopes.Hosts number records) (included : fewer ⊆ records) : scopes.Hosts number fewer := by
  obtain ⟨scope, found, around⟩ := hosts
  exact ⟨scope, found, List.Subset.trans included around⟩

section
variable (nested : after.Nested) (earlier : before.Nested) (grows : before.frame <+: after.frame)
include nested earlier grows

theorem chain_kept (number : Nat) (present : number < before.scopes.length) : after.chain number = before.chain number := by
  induction number using Nat.strongRecOn with
  | _ number ih =>
    rcases chain_cases before number with missing | ⟨scope, found, outermost⟩ | ⟨outer, under⟩
    · exact absurd missing (by simpa using present)
    · obtain ⟨later, foundLater, _, around⟩ := scope_kept grows found
      rw [chain_outermost found outermost, chain_outermost foundLater (around.trans outermost)]
    · have smaller := earlier number outer under
      rw [chain_under earlier under, chain_under nested (under_kept grows under), ih outer smaller (Nat.lt_trans smaller present)]

theorem within_kept (member : outer ∈ before.chain inner) : outer ∈ after.chain inner := by
  rw [chain_kept nested earlier grows inner (present_of_mem_chain member)]
  exact member

end

theorem hosts_around (valid : scopes.Valid) (hosts : scopes.Hosts inner records) (member : outer ∈ scopes.chain inner) :
    scopes.Hosts outer records := by
  refine chain_induction (motive := fun inner => scopes.Hosts inner records → scopes.Hosts outer records) valid.nested id
    (fun inner middle under _ ih hosts => ?_) inner member hosts
  obtain ⟨scope, found, around⟩ := hosts
  obtain ⟨wider, foundWider, inside⟩ := valid.inside inner middle under scope found
  have within := inner_records_sublist wider.node scope.node (inside mem_cons_self)
  exact ih ⟨wider, foundWider, List.Subset.trans around within.subset⟩

theorem function_scope_mem (nested : scopes.Nested) (present : number < scopes.scopes.length) :
    scopes.functionScope number ∈ scopes.chain number := by
  rw [functionScope]
  cases found : (scopes.chain number).find? fun scope => (scopes.scopes[scope]?.map (·.kind.takesVars)).getD false with
  | some home => exact mem_of_find?_eq_some found
  | none =>
    rw [getD_none]
    cases last : (scopes.chain number).getLast? with
    | none =>
      have self := chain_self nested present
      rw [List.getLast?_eq_none_iff.mp last] at self
      cases self
    | some home => exact mem_of_getLast? last

theorem home_mem (kind : BindingKind) (nested : scopes.Nested) (present : number < scopes.scopes.length) :
    (if kind.isVariable then scopes.functionScope number else number) ∈ scopes.chain number := by
  split
  · exact function_scope_mem nested present
  · exact chain_self nested present

-- A place lies inside the scope that was opened for a function.
def Caught (scopes : Scopes) (function : Value) (place : Nat) : Prop :=
  ∃ inner, scopes.acquire function = some inner ∧ inner ∈ scopes.chain place ∧
    ∃ scope, scopes.scopes[inner]? = some scope ∧ scope.node = function

end

end Scopes

namespace Survey

open Scopes

-- What a use of a name is recorded for: an identifier, or the name that an export hands on.
def Used (records : List Value) (identifier : Value) : Prop :=
  isName identifier = true ∨ ∃ id fields, Value.record id fields ∈ records ∧ Exported id fields identifier

-- A function that is visited wherever something in it is.
def Guarded (all : List Value) (function : Value) : Prop := function.isFunction = true ∧ ∀ node ∈ all, function ∉ exposed node

-- Where a node is dealt with: inside a scope, and if it lies in a function, then inside the scope of the function.
structure Lies (all held taken : List Value) (number : Nat) (scopes : Scopes) (node : Value) (place : Nat) : Prop where
  within : number ∈ scopes.chain place
  caught : ∀ function ∈ held, Guarded all function → node ∈ function.records → scopes.Caught function place ∧ function ∈ taken

-- What visiting something inside a scope adds is about what is taken, each for itself.
structure Adds (all held taken : List Value) (number : Nat) (before after : Scopes) : Prop where
  frame : before.frame <+: after.frame
  parents : after.parents = before.parents
  valid : after.Valid
  noted : ∃ noted, after.references = before.references ++ noted ∧ (noted.flatMap (·.identifier.self)).Subperm taken ∧
    ∀ reference ∈ noted, Used all reference.identifier ∧ after.Hosts reference.scope reference.identifier.self ∧
      Lies all held taken number after reference.identifier reference.scope
  opened : ∃ made, after.opened = made ++ before.opened ∧
    ∀ entry ∈ made, ∃ node ∈ taken, node.id? = some entry.1 ∧ Lies all held taken number after node entry.2

section
variable {more wide : List Value} {number other : Nat} {before middle after : Scopes}

theorem adds_still (frame : before.frame <+: after.frame) (parents : after.parents = before.parents) (valid : after.Valid)
    (references : after.references = before.references) (opened : after.opened = before.opened) :
    Adds all held taken number before after :=
  ⟨frame, parents, valid, ⟨[], by rw [references, append_nil], nil_subperm, nofun⟩, [], opened, nofun⟩

theorem adds_refl (valid : before.Valid) : Adds all held taken number before before :=
  adds_still prefix_rfl rfl valid rfl rfl

section
variable (adds : Adds all held taken number before after)
include adds

theorem Adds.map (included : taken.Subperm more)
    (carry : ∀ node place, (node.isRecord = true → node ∈ taken) → Lies all held taken number after node place →
      Lies all wide more other after node place) : Adds all wide more other before after := by
  obtain ⟨noted, isNoted, took, each⟩ := adds.noted
  obtain ⟨made, opened, fromTaken⟩ := adds.opened
  refine ⟨adds.frame, adds.parents, adds.valid, ⟨noted, isNoted, took.trans included, fun reference member => ?_⟩, made, opened,
    fun entry member => ?_⟩
  · obtain ⟨used, hosted, lies⟩ := each reference member
    exact ⟨used, hosted, carry _ _ (fun isRecord => took.subset (mem_flatMap.mpr ⟨reference, member, mem_self isRecord⟩)) lies⟩
  · obtain ⟨node, isNode, isOpened, lies⟩ := fromTaken entry member
    exact ⟨node, included.subset isNode, isOpened, carry _ _ (fun _ => isNode) lies⟩

theorem Adds.wider (included : taken.Subperm more) : Adds all held more number before after :=
  adds.map included fun _ _ _ lies => ⟨lies.within, fun function isHeld guarded inside =>
    (lies.caught function isHeld guarded inside).imp_right fun isTaken => included.subset isTaken⟩

-- A scope for a node stays the one that was opened for it as long as none is opened for it again.
theorem acquire_kept (fresh : node.identity ∉ taken.map Value.identity) : after.acquire node = before.acquire node := by
  obtain ⟨made, opened, fromTaken⟩ := adds.opened
  rw [acquire, acquire, opened]
  cases isId : node.id? with
  | none => rfl
  | some id =>
    have missing : made.lookup id = none := by
      rw [lookup_eq_none_iff]
      intro entry member
      rw [bne_iff_ne]
      rintro rfl
      obtain ⟨other, isOther, identity, _⟩ := fromTaken entry member
      exact fresh (mem_map.mpr ⟨other, isOther, (identity_of_id identity).trans (identity_of_id isId).symm⟩)
    rw [bind_some, bind_some, lookup_append, missing, none_or]

end

theorem Lies.kept {place : Nat} (lies : Lies all held taken number middle node place) (earlier : middle.Valid)
    (later : Adds all held more number middle after) (apart : ((taken ++ more).map Value.identity).Nodup) :
    Lies all held (taken ++ more) number after node place := by
  refine ⟨within_kept later.valid.nested earlier.nested later.frame lies.within, fun function isHeld guarded inside => ?_⟩
  obtain ⟨⟨inner, acquired, around, scope, found, isNode⟩, isTaken⟩ := lies.caught function isHeld guarded inside
  -- What was taken first is not opened again.
  have fresh : function.identity ∉ more.map Value.identity := by
    rw [map_append] at apart
    exact fun again => (nodup_append.mp apart).2.2 _ (mem_map_of_mem isTaken) _ again rfl
  obtain ⟨scope, foundLater, sameNode, _⟩ := scope_kept later.frame found
  exact ⟨⟨inner, (acquire_kept later fresh).trans acquired, within_kept later.valid.nested earlier.nested later.frame around, scope,
    foundLater, sameNode.trans isNode⟩, mem_append_left _ isTaken⟩

theorem Adds.trans (first : Adds all held taken number before middle) (second : Adds all held more number middle after)
    (apart : ((taken ++ more).map Value.identity).Nodup) : Adds all held (taken ++ more) number before after := by
  have later : Adds all held (taken ++ more) number middle after := second.wider (sublist_append_right _ _).subperm
  obtain ⟨early, isEarly, tookEarly, eachEarly⟩ := first.noted
  obtain ⟨late, isLate, tookLate, _⟩ := second.noted
  obtain ⟨same, isSame, _, eachLate⟩ := later.noted
  obtain rfl : late = same := append_cancel_left (isLate.symm.trans isSame)
  obtain ⟨made, openedFirst, fromFirst⟩ := first.opened
  obtain ⟨others, openedSecond, fromSecond⟩ := later.opened
  refine ⟨first.frame.trans second.frame, second.parents.trans first.parents, second.valid,
    ⟨early ++ late, by rw [isLate, isEarly, append_assoc], by rw [flatMap_append]; exact tookEarly.append tookLate,
      forall_mem_append.mpr ⟨fun reference member => ?_, eachLate⟩⟩,
    others ++ made, by rw [openedSecond, openedFirst, append_assoc], forall_mem_append.mpr ⟨fromSecond, fun entry member => ?_⟩⟩
  · obtain ⟨used, hosted, lies⟩ := eachEarly reference member
    exact ⟨used, hosts_kept second.frame hosted, lies.kept first.valid second apart⟩
  · obtain ⟨node, isNode, isOpened, lies⟩ := fromFirst entry member
    exact ⟨node, mem_append_left _ isNode, isOpened, lies.kept first.valid second apart⟩

end

section
variable {α β : Type} {records : List Value} {number : Nat}

theorem run_bind {action : Survey α} {rest : α → Survey β} {answer : β} (run : (action >>= rest) before = .ok (answer, after)) :
    ∃ produced middle, action before = .ok (produced, middle) ∧ rest produced middle = .ok (answer, after) := by
  obtain ⟨⟨produced, middle⟩, first, second⟩ := bind_ok run
  exact ⟨produced, middle, first, second⟩

theorem run_lift {check : Except Fault α} {answer : α}
    (run : (liftM check : Survey α) before = .ok (answer, after)) : check = .ok answer ∧ after = before := by
  cases check with
  | error fault => cases run
  | ok produced =>
    cases run
    exact ⟨rfl, rfl⟩

theorem refer_adds {access : Access} (used : Used all identifier) (valid : before.Valid) (hosts : before.Hosts number identifier.self)
    (free : ∀ function ∈ held, Guarded all function → identifier ∉ function.records)
    (run : refer identifier number access before = .ok ((), after)) : Adds all held identifier.self number before after := by
  cases run
  refine ⟨prefix_rfl, rfl, ⟨valid.nested, valid.single, valid.inside, valid.kept⟩, ⟨[_], rfl, ?_, ?_⟩, [], rfl, nofun⟩
  · rw [flatMap_singleton]
  · intro reference member
    rw [mem_singleton.mp member]
    exact ⟨used, hosts, chain_self valid.nested (hosts_present hosts),
      fun function isHeld guarded inside => absurd inside (free function isHeld guarded)⟩

theorem frame_modify {change : Scope → Scope} (same : ∀ scope, (change scope).node = scope.node ∧ (change scope).parent = scope.parent) :
    ({ scopes with scopes := scopes.scopes.modify home change } : Scopes).frame = scopes.frame := by
  refine ext_getElem? fun number => ?_
  rw [frame_entry, frame_entry, List.getElem?_modify]
  cases scopes.scopes[number]? with
  | none => rfl
  | some scope =>
    by_cases here : home = number
    · simp only [here, if_true, Option.map_eq_map, Option.map_some, (same scope).1, (same scope).2]
    · simp only [here, if_false, Option.map_eq_map, Option.map_some]

theorem kept_declare (kept : ∀ binding ∈ scope.bindings, Kept home scope.node binding)
    (isKept : Kept home scope.node fresh) : ∀ binding ∈ (scope.declare fresh).bindings, Kept home scope.node binding := by
  intro binding member
  rw [Scope.declare] at member
  split at member
  · rcases mem_append.mp member with old | new
    · exact kept binding old
    · rw [mem_singleton.mp new]
      exact isKept
  split at member
  · obtain ⟨old, isOld, changed⟩ := mem_map.mp member
    have known := kept old isOld
    split at changed
    · rw [← changed]
      exact ⟨known.scope, known.inside, known.isName, known.name, known.key⟩
    · rw [← changed]
      exact known
  · exact kept binding member

theorem declare_same (scope : Scope) (fresh : Binding) :
    (scope.declare fresh).node = scope.node ∧ (scope.declare fresh).parent = scope.parent := by
  rw [Scope.declare]
  split
  · exact ⟨rfl, rfl⟩
  · split
    · exact ⟨rfl, rfl⟩
    · exact ⟨rfl, rfl⟩

theorem valid_declare (valid : scopes.Valid)
    (isKept : ∀ scope, scopes.scopes[fresh.scope]? = some scope → Kept fresh.scope scope.node fresh) : (scopes.declare fresh).Valid := by
  have same : (scopes.declare fresh).frame = scopes.frame := frame_modify fun scope => declare_same scope fresh
  have backwards : (scopes.declare fresh).frame <+: scopes.frame := by rw [same]
  have forwards : scopes.frame <+: (scopes.declare fresh).frame := by rw [same]
  refine ⟨fun inner outer under => valid.nested inner outer (under_kept backwards under), ?_, ?_, ?_⟩
  · intro number scope found outermost
    obtain ⟨old, foundOld, _, sameParent⟩ := scope_kept backwards found
    exact valid.single number old foundOld (sameParent.trans outermost)
  · intro number outer under scope found
    obtain ⟨old, foundOld, sameNode, _⟩ := scope_kept backwards found
    rw [← sameNode]
    exact hosts_kept forwards (valid.inside number outer (under_kept backwards under) old foundOld)
  intro number scope found
  rw [Scopes.declare, List.getElem?_modify] at found
  obtain ⟨old, foundOld, rfl⟩ := map_eq_some_iff.mp found
  by_cases here : fresh.scope = number
  · subst here
    rw [if_pos rfl]
    rw [(declare_same old fresh).1]
    exact kept_declare (valid.kept _ old foundOld) (isKept old foundOld)
  · rw [if_neg here]
    exact valid.kept number old foundOld

theorem valid_of_scopes {first second : Scopes} (same : first.scopes = second.scopes) (valid : second.Valid) : first.Valid := by
  obtain ⟨scopes, references, declared, opened, parents⟩ := first
  subst same
  exact ⟨valid.nested, valid.single, valid.inside, valid.kept⟩

theorem adds_declared (valid : before.Valid) (hosts : before.Hosts fresh.scope records)
    (inside : fresh.identifier ∈ records) (isName : fresh.identifier.isA .identifier = true)
    (named : fresh.name = fresh.identifier.spelling) (keyed : fresh.identifier.spellingKey = .ok fresh.key)
    (scopes : after.scopes = (before.declare fresh).scopes) (references : after.references = before.references)
    (opened : after.opened = before.opened) (parents : after.parents = before.parents) : Adds all held taken number before after := by
  have fits : (before.declare fresh).Valid := by
    refine valid_declare valid fun scope found => ⟨rfl, ?_, isName, named, keyed⟩
    obtain ⟨host, foundHost, around⟩ := hosts
    rw [foundHost] at found
    rw [← Option.some.inj found]
    exact around inside
  have same : after.frame = before.frame := by
    rw [frame, scopes]
    exact frame_modify fun scope => declare_same scope fresh
  exact adds_still (by rw [same]) parents (valid_of_scopes scopes fits) references opened

theorem declare_adds {declaration : Declaration}
    (among : Among records declaration) (valid : before.Valid) (hosts : before.Hosts home records)
    (run : declare home declaration before = .ok ((), after)) : Adds all held [] number before after := by
  unfold declare at run
  cases identity : declaration.identifier.id? with
  | none | some id =>
    simp only [identity] at run
    cases run
    exact adds_declared valid hosts among.identifier among.isName rfl among.keyed rfl rfl rfl rfl

theorem declare_all_adds {declarations : List Declaration}
    (among : ∀ declaration ∈ declarations, Among records declaration) (valid : before.Valid) (hosts : before.Hosts home records)
    (run : declareAll home declarations before = .ok ((), after)) : Adds all held [] number before after := by
  induction declarations generalizing before with
  | nil =>
    cases run
    exact adds_refl valid
  | cons declaration rest ih =>
    obtain ⟨first, others⟩ := forall_mem_cons.mp among
    obtain ⟨_, middle, early, late⟩ := run_bind run
    have adds : Adds all held [] number before middle := declare_adds first valid hosts early
    exact adds.trans (ih others adds.valid (hosts_kept adds.frame hosts) late) nodup_nil

theorem is_declared_run {answer : Bool} (run : isDeclared identifier before = .ok (answer, after)) : after = before := by
  cases run
  rfl

theorem declare_missing_adds {kind : BindingKind} {definition : Value} {identifiers : List Value}
    (inside : ∀ identifier ∈ identifiers, identifier ∈ records) (isDefinition : definition ∈ records)
    (valid : before.Valid) (hosts : before.Hosts home records)
    (run : declareMissing home kind definition identifiers before = .ok ((), after)) : Adds all held [] number before after := by
  induction identifiers generalizing before with
  | nil =>
    cases run
    exact adds_refl valid
  | cons identifier rest ih =>
    obtain ⟨here, others⟩ := forall_mem_cons.mp inside
    obtain ⟨known, same, asked, run⟩ := run_bind run
    rw [is_declared_run asked] at run
    cases known with
    | true => exact ih others valid hosts run
    | false =>
      obtain ⟨declarations, _, made, remaining⟩ := run_bind run
      obtain ⟨isMade, rfl⟩ := run_lift made
      obtain ⟨_, middle, early, late⟩ := run_bind remaining
      have among : ∀ declaration ∈ declarations, Among records declaration := fun declaration member =>
        declares_among (declaration_of_declares isMade member) here isDefinition
      have adds : Adds all held [] number _ middle := declare_all_adds among valid hosts early
      exact adds.trans (ih others adds.valid (hosts_kept adds.frame hosts) late) nodup_nil

theorem enter_run {parent : Option Nat} (run : enter kind node parent before = .ok (inner, after)) :
    inner = before.scopes.length ∧ after.scopes = before.scopes ++ [{ kind := kind, node := node, parent := parent }] ∧
      after.references = before.references ∧ after.parents = before.parents ∧
      after.opened = (node.id?.map (·, inner)).toList ++ before.opened := by
  unfold enter Scopes.add at run
  cases identity : node.id? with
  | none | some id =>
    simp only [identity] at run
    cases run
    exact ⟨rfl, rfl, rfl, rfl, rfl⟩

theorem enter_valid (isNode : node ∈ records)
    (valid : before.Valid) (hosts : before.Hosts number records) (run : enter kind node (some number) before = .ok (inner, after)) :
    before.frame <+: after.frame ∧ after.Valid ∧ after.Under inner number ∧ after.Hosts inner node.records := by
  obtain ⟨rfl, scopes, _⟩ := enter_run run
  have present := hosts_present hosts
  have grows : before.frame <+: after.frame := by
    rw [frame, frame, scopes, map_append]
    exact prefix_append _ _
  have fresh : after.scopes[before.scopes.length]? = some { kind := kind, node := node, parent := some number } := by
    rw [scopes, List.getElem?_append_right (Nat.le_refl _), Nat.sub_self]
    rfl
  have old (other : Nat) (scope : Scope) (found : after.scopes[other]? = some scope) (different : other ≠ before.scopes.length) :
      before.scopes[other]? = some scope := by
    have bound := lt_of_found found
    rw [scopes, length_append, length_singleton] at bound
    rw [scopes, List.getElem?_append_left (by omega)] at found
    exact found
  have under : after.Under before.scopes.length number := ⟨_, fresh, rfl⟩
  have fits : after.Valid := by
    refine ⟨fun other outer under => ?_, fun other scope found outermost => ?_, fun other outer under scope found => ?_,
      fun other scope found => ?_⟩
    · obtain ⟨scope, found, around⟩ := under
      by_cases isFresh : other = before.scopes.length
      · rw [isFresh, fresh] at found
        cases found
        cases around
        rw [isFresh]
        exact present
      · exact valid.nested other outer ⟨scope, old other scope found isFresh, around⟩
    · by_cases isFresh : other = before.scopes.length
      · rw [isFresh, fresh] at found
        cases found
        cases outermost
      · exact valid.single other scope (old other scope found isFresh) outermost
    · obtain ⟨scope, foundAgain, around⟩ := under
      rw [foundAgain] at found
      cases found
      by_cases isFresh : other = before.scopes.length
      · rw [isFresh, fresh] at foundAgain
        cases foundAgain
        cases around
        exact hosts_kept grows (hosts_mono hosts (cons_subset.mpr ⟨isNode, nil_subset _⟩))
      · have known := old other scope foundAgain isFresh
        exact hosts_kept grows (valid.inside other outer ⟨scope, known, around⟩ scope known)
    · by_cases isFresh : other = before.scopes.length
      · rw [isFresh, fresh] at found
        cases found
        exact nofun
      · exact valid.kept other scope (old other scope found isFresh)
  exact ⟨grows, fits, under, _, fresh, fun _ => id⟩

theorem assign_adds (valid : before.Valid) (present : number < before.scopes.length)
    (free : ∀ function ∈ held, Guarded all function → node ∉ function.records)
    (run : assign node number before = .ok ((), after)) : Adds all held node.self number before after := by
  unfold assign at run
  cases identity : node.id? with
  | none =>
    simp only [identity] at run
    cases run
    exact adds_refl valid
  | some id =>
    simp only [identity] at run
    cases run
    refine ⟨prefix_rfl, rfl, ⟨valid.nested, valid.single, valid.inside, valid.kept⟩,
      ⟨[], (append_nil _).symm, nil_subperm, nofun⟩, [(id, number)], rfl, fun entry member => ?_⟩
    rw [mem_singleton.mp member]
    refine ⟨node, ?_, identity, chain_self valid.nested present, fun function isHeld guarded inside =>
      absurd inside (free function isHeld guarded)⟩
    cases node with
    | record _ _ => exact mem_singleton_self _
    | _ => cases identity

end

section
variable {id : Nat} {fields : Fields}

theorem not_function_of_name (isName : isName identifier = true) : identifier.isFunction = false := by
  unfold Survey.isName kindIs at isName
  unfold Value.isFunction kindIs
  cases isKind : identifier.kind with
  | none => rfl
  | some kind =>
    rw [isKind] at isName
    cases kind <;> first | rfl | cases isName

-- What is dealt with in the outline of a record lies in no guarded function that is deeper inside.
theorem reached_free {function : Value} (distinct : (Value.record id fields).Distinct) (known : Value.record id fields ∈ all)
    (isHeld : function ∈ recordsOfFields fields) (guarded : Guarded all function)
    (place : node = .record id fields ∨ Reached (.record id fields) node) (other : node.isFunction = true → node ∈ exposed (.record id fields)) :
    node ∉ function.records := by
  intro within
  rcases place with rfl | reached
  · exact not_in_own_fields distinct ((inner_records_fields fields function isHeld).subset within)
  · have isRecord := is_record_of_mem_records _ _ within
    have whole := reached_holds distinct isHeld guarded.1 (guarded.2 _ known) within reached (mem_records_self isRecord)
    obtain rfl := records_antisymm whole within
    exact guarded.2 _ known (other guarded.1)

theorem used_free (used : isName identifier = true ∨ Exported id fields identifier) (isFunction : identifier.isFunction = true) :
    identifier ∈ exposed (.record id fields) := by
  rcases used with isName | ⟨isExport, _, _, specifier, isPart, rfl⟩
  · rw [not_function_of_name isName] at isFunction
    cases isFunction
  · rw [exposed, beq_iff_eq.mp isExport]
    exact mem_append_right _ (mem_map_of_mem isPart)

-- The scope of a function is the one that was opened for it.
theorem scope_adds {number : Nat} {middle : Scopes} (distinct : (Value.record id fields).Distinct)
    (apart : ((Value.record id fields :: taken).map Value.identity).Nodup) (valid : before.Valid)
    (hosts : before.Hosts number (Value.record id fields).records)
    (entered : enter kind (.record id fields) (some number) before = .ok (inner, middle))
    (later : Adds all (recordsOfFields fields) taken inner middle after) :
    Adds all (Value.record id fields).records (.record id fields :: taken) number before after := by
  obtain ⟨grows, _, under, opens⟩ := enter_valid mem_cons_self valid hosts entered
  obtain ⟨isLast, scopes, references, parents, newest⟩ := enter_run entered
  have isId : (Value.record id fields).id? = some id := distinct.id mem_cons_self
  rw [isId] at newest
  have present := hosts_present (hosts_kept later.frame opens)
  have around : number ∈ after.chain inner := by
    rw [chain_under later.valid.nested (under_kept later.frame under)]
    exact mem_cons_of_mem _ (chain_self later.valid.nested
      (Nat.lt_of_lt_of_le (hosts_present hosts) (length_kept (grows.trans later.frame))))
  have caught {place : Nat} (within : inner ∈ after.chain place) : after.Caught (.record id fields) place := by
    have acquired : middle.acquire (.record id fields) = some inner := by
      rw [acquire, newest, isId]
      exact lookup_cons_self
    have found : middle.scopes[inner]? = some { kind := kind, node := .record id fields, parent := some number } := by
      rw [scopes, isLast, List.getElem?_append_right (Nat.le_refl _), Nat.sub_self]
      rfl
    obtain ⟨scope, foundLater, sameNode, _⟩ := scope_kept later.frame found
    exact ⟨inner, (acquire_kept later (nodup_cons.mp apart).1).trans acquired, within, scope, foundLater, sameNode⟩
  have widened : Adds all (Value.record id fields).records (.record id fields :: taken) number middle after := by
    refine later.map (sublist_cons_self _ _).subperm fun node place _ lies =>
      ⟨chain_trans later.valid.nested around lies.within, fun function isHeld guarded inside => ?_⟩
    rcases mem_cons.mp isHeld with rfl | deeper
    · exact ⟨caught lies.within, mem_cons_self⟩
    · exact (lies.caught function deeper guarded inside).imp_right fun isTaken => mem_cons_of_mem _ isTaken
  obtain ⟨noted, isNoted, notes⟩ := widened.noted
  obtain ⟨made, isMade, opened⟩ := widened.opened
  refine ⟨grows.trans later.frame, later.parents.trans parents, later.valid, ⟨noted, by rw [isNoted, references], notes⟩,
    made ++ [(id, inner)], by rw [isMade, newest, append_assoc]; rfl, forall_mem_append.mpr ⟨opened, fun entry member => ?_⟩⟩
  rw [mem_singleton.mp member]
  refine ⟨_, mem_cons_self, isId, around, fun function isHeld guarded inside => ?_⟩
  rcases mem_cons.mp isHeld with rfl | deeper
  · exact ⟨caught (chain_self later.valid.nested present), mem_cons_self⟩
  · exact absurd ((inner_records_fields fields function deeper).subset inside) (not_in_own_fields distinct)

-- What visiting a node adds.
def Visits (all : List Value) (role : Role) (node : Value) : Prop :=
  ∀ number before after, before.Valid → before.Hosts number node.records → visit role node number before = .ok ((), after) →
    Adds all node.records node.records number before after

-- Every part of a visit adds only what belongs to the record that is visited, if the visits in it do.
mutual
theorem perform_adds (distinct : (Value.record id fields).Distinct) (known : Value.record id fields ∈ all)
    (visits : ∀ inner, Reached (.record id fields) inner → ∀ role, Visits all role inner) (part : Part)
    (stays : part.Stays id fields) (apart : (part.takes.map Value.identity).Nodup) (number : Nat) (before after : Scopes)
    (valid : before.Valid) (hosts : before.Hosts number (Value.record id fields).records) (run : perform part number before = .ok ((), after)) :
    Adds all (recordsOfFields fields) part.takes number before after := by
  have included {value : Value} (reached : Reached (.record id fields) value) : value.records ⊆ (Value.record id fields).records :=
    fun _ member => mem_cons_of_mem _ ((reached_records_inside reached).subset member)
  match part, stays with
  | .visit role node, reached =>
    rw [perform] at run
    refine (visits node reached role number before after valid (hosts_mono hosts (included reached)) run).map (.refl _)
      fun inner place present lies => ⟨lies.within, fun function isHeld guarded inside => lies.caught function ?_ guarded inside⟩
    exact reached_holds distinct isHeld guarded.1 (guarded.2 _ known) inside reached (present (is_record_of_mem_records _ _ inside))
  | .refer happens identifier access, stays =>
    obtain ⟨answer, middle, lifted, remaining⟩ := run_bind run
    obtain ⟨_, same⟩ := run_lift lifted
    rw [same] at remaining
    cases answer with
    | false =>
      cases remaining
      exact adds_refl valid
    | true =>
      refine refer_adds ?_ valid (hosts_mono hosts fun record member => ?_)
        (fun function isHeld guarded => reached_free distinct known isHeld guarded stays.1 (used_free stays.2)) remaining
      · exact stays.2.imp_right fun exported => ⟨id, fields, known, exported⟩
      · obtain ⟨rfl, isRecord⟩ := is_record_of_mem member
        rcases stays.1 with rfl | reached
        · exact mem_cons_self
        · exact reached_among reached isRecord
  | .writeUndeclared identifier, stays =>
    obtain ⟨answer, middle, asked, remaining⟩ := run_bind run
    rw [is_declared_run asked] at remaining
    cases answer with
    | true =>
      cases remaining
      exact adds_refl valid
    | false =>
      refine refer_adds (.inl stays.2) valid (hosts_mono hosts fun record member => ?_)
        (fun function isHeld guarded => reached_free distinct known isHeld guarded (.inl stays.1) (used_free (.inl stays.2))) remaining
      rw [(is_record_of_mem member).1, stays.1]
      exact mem_cons_self
  | .declare declarations, stays =>
    obtain ⟨made, middle, lifted, remaining⟩ := run_bind run
    obtain ⟨isMade, same⟩ := run_lift lifted
    rw [same] at remaining
    exact declare_all_adds (stays made isMade) valid hosts remaining
  | .declareMissing kind definition identifiers, stays =>
    obtain ⟨_, _, got, remaining⟩ := run_bind run
    cases got
    obtain ⟨found, middle, lifted, remaining⟩ := run_bind remaining
    obtain ⟨isFound, same⟩ := run_lift lifted
    rw [same] at remaining
    have around := home_mem kind valid.nested (hosts_present hosts)
    exact declare_missing_adds (stays.2 found isFound) stays.1 valid (hosts_around valid hosts around) remaining
  | .assign node, ⟨reached, other⟩ =>
    refine assign_adds valid (hosts_present hosts) (fun function isHeld guarded => ?_) run
    exact reached_free distinct known isHeld guarded (.inr reached) fun opens => absurd opens (by rw [other]; nofun)
  | .check outcome, _ =>
    obtain ⟨_, same⟩ := run_lift run
    rw [same]
    exact adds_refl valid
  | .scope kind node parts, stays =>
    obtain ⟨rfl, stay⟩ := stays
    obtain ⟨inner, middle, entered, remaining⟩ := run_bind run
    obtain ⟨_, fits, _, opened⟩ := enter_valid mem_cons_self valid hosts entered
    have later := perform_all_adds distinct known visits parts stay (nodup_cons.mp apart).2 inner middle after fits opened remaining
    exact (scope_adds distinct apart valid hosts entered later).map (.refl _) fun node place _ lies =>
      ⟨lies.within, fun function isHeld => lies.caught function (mem_cons_of_mem _ isHeld)⟩
theorem perform_all_adds (distinct : (Value.record id fields).Distinct) (known : Value.record id fields ∈ all)
    (visits : ∀ inner, Reached (.record id fields) inner → ∀ role, Visits all role inner) (parts : List Part)
    (stay : AllStay id fields parts) (apart : ((takesAll parts).map Value.identity).Nodup)
    (number : Nat) (before after : Scopes) (valid : before.Valid) (hosts : before.Hosts number (Value.record id fields).records)
    (run : performAll parts number before = .ok ((), after)) :
    Adds all (recordsOfFields fields) (takesAll parts) number before after := by
  match parts, stay with
  | [], _ =>
    cases run
    exact adds_refl valid
  | part :: rest, ⟨stays, others⟩ =>
    obtain ⟨_, middle, early, late⟩ := run_bind run
    have split := apart
    rw [takesAll, map_append] at split
    obtain ⟨firstApart, restApart, _⟩ := nodup_append.mp split
    have adds := perform_adds distinct known visits part stays firstApart number before middle valid hosts early
    exact adds.trans (perform_all_adds distinct known visits rest others restApart number middle after adds.valid
      (hosts_kept adds.frame hosts) late) apart
end

theorem form_of_function {kind : Option Kind} (isFunction : kind.any Kind.isFunction = true) :
    Form.of kind = .function ∧ kind.any isPattern = false := by
  cases kind with
  | none => cases isFunction
  | some kind => cases kind <;> first | exact ⟨rfl, rfl⟩ | cases isFunction

theorem function_outline (role : Role) (isFunction : (Value.record id fields).isFunction = true) :
    outline role (.record id fields) = [] ∨ ∃ parts, outline role (.record id fields) = [.scope .function (.record id fields) parts] := by
  obtain ⟨isForm, notPattern⟩ := form_of_function isFunction
  rw [outline, kindIs, notPattern, Bool.and_false, if_neg (by decide), valueParts, isForm]
  split
  · exact .inl rfl
  · exact .inr ⟨_, rfl⟩

-- By induction on the size of the node: all that is visited on the way is smaller.
theorem visit_adds (role : Role) (node : Value) (distinct : node.Distinct) (inside : node.records ⊆ all) : Visits all role node := by
  match node with
  | .record id fields =>
    intro number before after valid hosts run
    have visits (inner : Value) (reached : Reached (.record id fields) inner) (role : Role) : Visits all role inner := by
      have smaller := reached_smaller reached
      have included := (reached_records_inside reached).cons (.record id fields)
      exact visit_adds role inner (distinct.of_sublist included) fun _ member => inside (included.subset member)
    have known := inside mem_cons_self
    have stay : AllStay id fields (outline role (.record id fields)) := outline_stays role
    have apart := outline_apart role distinct
    rw [visit_eq] at run
    by_cases isFunction : (Value.record id fields).isFunction = true
    · rcases function_outline role isFunction with isOutline | ⟨parts, isOutline⟩
      · rw [isOutline] at run
        cases run
        exact adds_refl valid
      have taken : (takesAll (outline role (.record id fields))).Subperm (Value.record id fields).records := outline_takes role
      rw [isOutline] at run stay apart taken
      have isTaken : takesAll [.scope .function (.record id fields) parts] = .record id fields :: takesAll parts := append_nil _
      rw [isTaken] at apart taken
      rw [perform_all_single] at run
      obtain ⟨inner, middle, entered, remaining⟩ := run_bind run
      obtain ⟨_, fits, _, opened⟩ := enter_valid mem_cons_self valid hosts entered
      have later := perform_all_adds distinct known visits parts stay.1.2 (nodup_cons.mp apart).2 inner middle after fits opened remaining
      exact (scope_adds distinct apart valid hosts entered later).wider taken
    · refine (perform_all_adds distinct known visits _ stay apart number before after valid hosts run).wider (outline_takes role) |>.map
        (.refl _) fun inner place _ lies => ⟨lies.within, fun function isHeld guarded => ?_⟩
      refine lies.caught function ((mem_cons.mp isHeld).resolve_left ?_) guarded
      rintro rfl
      exact isFunction guarded.1
  | .null | .bool _ | .int _ | .float _ | .str _ | .list _ =>
    intro number before after valid hosts run
    rw [visit_eq] at run
    cases run
    exact adds_refl valid
termination_by sizeOf node
decreasing_by exact smaller

end

end Survey

end HookLint
