import Mathlib
import HookLint.Scope.Query

namespace HookLint.Scopes

open List

variable {key : Key} {other : Nat} {scope : Scope}

-- One scope lies right inside another one.
def Under (scopes : Scopes) (inner outer : Nat) : Prop := ∃ scope, scopes.scopes[inner]? = some scope ∧ scope.parent = some outer

-- Scopes are numbered from the outside in.
def Nested (scopes : Scopes) : Prop := ∀ inner outer, scopes.Under inner outer → outer < inner

section
variable {scopes : Scopes} {number inner outer root : Nat}

theorem chain_from_under (found : scopes.scopes[inner]? = some scope) (around : scope.parent = some outer)
    (fuel : Nat) : scopes.chainFrom (fuel + 1) inner = inner :: scopes.chainFrom fuel outer := by
  rw [chainFrom, found]
  dsimp only
  rw [around]

theorem chain_from_outermost (found : scopes.scopes[number]? = some scope) (outermost : scope.parent = none)
    (fuel : Nat) : scopes.chainFrom (fuel + 1) number = [number] := by
  rw [chainFrom, found]
  dsimp only
  rw [outermost]

theorem chain_from_missing (missing : scopes.scopes[number]? = none) (fuel : Nat) : scopes.chainFrom fuel number = [] := by
  cases fuel with
  | zero => rfl
  | succ fuel => rw [chainFrom, missing]

theorem chain_cases (scopes : Scopes) (number : Nat) : scopes.scopes[number]? = none ∨
    (∃ scope, scopes.scopes[number]? = some scope ∧ scope.parent = none) ∨ ∃ outer, scopes.Under number outer := by
  cases found : scopes.scopes[number]? with
  | none => exact .inl rfl
  | some scope =>
    cases around : scope.parent with
    | none => exact .inr (.inl ⟨scope, rfl, around⟩)
    | some outer => exact .inr (.inr ⟨outer, scope, found, around⟩)

theorem chain_from_enough (nested : scopes.Nested) (number fuel : Nat) (enough : number < fuel) :
    scopes.chainFrom fuel number = scopes.chainFrom (number + 1) number := by
  induction number using Nat.strongRecOn generalizing fuel with
  | _ number ih =>
    cases fuel with
    | zero => cases enough
    | succ fuel =>
      rcases chain_cases scopes number with missing | ⟨scope, found, outermost⟩ | ⟨outer, under⟩
      · rw [chain_from_missing missing, chain_from_missing missing]
      · rw [chain_from_outermost found outermost, chain_from_outermost found outermost]
      · have smaller := nested number outer under
        obtain ⟨scope, found, around⟩ := under
        rw [chain_from_under found around, chain_from_under found around, ih outer smaller fuel (by omega), ih outer smaller number smaller]

theorem chain_missing (missing : scopes.scopes[number]? = none) : scopes.chain number = [] := chain_from_missing missing _

theorem lt_of_found (found : scopes.scopes[number]? = some scope) : number < scopes.scopes.length :=
  (List.getElem?_eq_some_iff.mp found).1

theorem chain_outermost (found : scopes.scopes[number]? = some scope) (outermost : scope.parent = none) :
    scopes.chain number = [number] := by
  obtain ⟨fuel, length⟩ := Nat.exists_eq_add_of_lt (lt_of_found found)
  rw [chain, length, chain_from_outermost found outermost]

theorem present_of_mem_chain (member : outer ∈ scopes.chain inner) : inner < scopes.scopes.length := by
  by_contra missing
  rw [chain_missing (List.getElem?_eq_none (Nat.not_lt.mp missing))] at member
  cases member

section
variable (nested : scopes.Nested)
include nested

theorem chain_under (under : scopes.Under inner outer) : scopes.chain inner = inner :: scopes.chain outer := by
  have smaller := nested inner outer under
  obtain ⟨scope, found, around⟩ := under
  have present := lt_of_found found
  rw [chain, chain, chain_from_enough nested inner _ present, chain_from_under found around,
    chain_from_enough nested outer inner smaller, chain_from_enough nested outer _ (Nat.lt_trans smaller present)]

theorem chain_self (present : number < scopes.scopes.length) : number ∈ scopes.chain number := by
  rcases chain_cases scopes number with missing | ⟨scope, found, outermost⟩ | ⟨outer, under⟩
  · exact absurd missing (by simpa using present)
  · rw [chain_outermost found outermost]
    exact mem_singleton_self number
  · rw [chain_under nested under]
    exact mem_cons_self

-- What holds of a scope and is handed on from each scope to those right inside it.
theorem chain_induction {motive : Nat → Prop} (self : motive outer)
    (step : ∀ inner middle, scopes.Under inner middle → outer ∈ scopes.chain middle → motive middle → motive inner)
    (inner : Nat) (member : outer ∈ scopes.chain inner) : motive inner := by
  induction inner using Nat.strongRecOn with
  | _ inner ih =>
    rcases chain_cases scopes inner with missing | ⟨scope, found, outermost⟩ | ⟨middle, under⟩
    · rw [chain_missing missing] at member
      cases member
    · rw [chain_outermost found outermost] at member
      exact mem_singleton.mp member ▸ self
    · rw [chain_under nested under] at member
      rcases mem_cons.mp member with rfl | later
      · exact self
      · exact step inner middle under later (ih middle (nested inner middle under) later)

theorem chain_suffix (member : outer ∈ scopes.chain inner) : scopes.chain outer <:+ scopes.chain inner := by
  refine chain_induction (motive := (scopes.chain outer <:+ scopes.chain ·)) nested suffix_rfl (fun inner middle under _ ih => ?_) inner member
  rw [chain_under nested under]
  exact ih.trans (suffix_cons _ _)

theorem chain_le (member : outer ∈ scopes.chain inner) : outer ≤ inner :=
  chain_induction (motive := (outer ≤ ·)) nested (Nat.le_refl _) (fun inner middle under _ ih => Nat.le_trans ih (Nat.le_of_lt (nested inner middle under))) inner member

theorem chain_trans (first : root ∈ scopes.chain outer) (second : outer ∈ scopes.chain inner) :
    root ∈ scopes.chain inner := (chain_suffix nested second).subset first

theorem chain_present (member : outer ∈ scopes.chain inner) : outer < scopes.scopes.length :=
  Nat.lt_of_le_of_lt (chain_le nested member) (present_of_mem_chain member)

theorem chain_linear (first : outer ∈ scopes.chain inner) (second : root ∈ scopes.chain inner) :
    outer ∈ scopes.chain root ∨ root ∈ scopes.chain outer := by
  have ofFirst := chain_self nested (chain_present nested first)
  have ofSecond := chain_self nested (chain_present nested second)
  rcases suffix_or_suffix_of_suffix (chain_suffix nested first) (chain_suffix nested second) with shorter | longer
  · exact .inl (shorter.subset ofFirst)
  · exact .inr (longer.subset ofSecond)

theorem chain_beyond (under : scopes.Under inner outer) (member : root ∈ scopes.chain inner)
    (different : root ≠ inner) : root ∈ scopes.chain outer := by
  rw [chain_under nested under] at member
  exact (mem_cons.mp member).resolve_left different

end

theorem mem_child_scopes : inner ∈ scopes.childScopes outer ↔ scopes.Under inner outer := by
  rw [childScopes, mem_filter, mem_range]
  constructor
  · rintro ⟨present, around⟩
    rw [List.getElem?_eq_getElem present, Option.bind_some, beq_iff_eq] at around
    exact ⟨_, List.getElem?_eq_getElem present, around⟩
  · rintro ⟨scope, found, around⟩
    refine ⟨lt_of_found found, ?_⟩
    rw [found, Option.bind_some, beq_iff_eq]
    exact around

-- A scope and all those inside it.
def within (scopes : Scopes) (root : Nat) : List Nat := (List.range scopes.scopes.length).filter (scopes.isWithin · root)

theorem mem_within : number ∈ scopes.within root ↔ root ∈ scopes.chain number := by
  rw [within, mem_filter, mem_range, isWithin, contains_iff_mem]
  exact ⟨And.right, fun member => ⟨present_of_mem_chain member, member⟩⟩

theorem within_nodup : (scopes.within root).Nodup := nodup_range.filter _

theorem children_apart (nested : scopes.Nested) (root : Nat) : (root :: (scopes.childScopes root).flatMap scopes.within).Nodup := by
  refine nodup_cons.mpr ⟨fun member => ?_, nodup_flatMap.mpr ⟨fun _ _ => within_nodup, ?_⟩⟩
  · obtain ⟨child, isChild, inside⟩ := mem_flatMap.mp member
    have smaller := nested child root (mem_child_scopes.mp isChild)
    exact absurd (chain_le nested (mem_within.mp inside)) (Nat.not_le.mpr smaller)
  refine (nodup_range.filter _).imp_of_mem fun {first second} isFirst isSecond different number inFirst inSecond => ?_
  -- Siblings lie right inside one scope, so neither is around the other.
  have apart (one other : Nat) (isOne : one ∈ scopes.childScopes root) (isOther : other ∈ scopes.childScopes root)
      (different : one ≠ other) : one ∉ scopes.chain other := by
    intro member
    have beyond := chain_beyond nested (mem_child_scopes.mp isOther) member different
    exact absurd (chain_le nested beyond) (Nat.not_le.mpr (nested one root (mem_child_scopes.mp isOne)))
  rcases chain_linear nested (mem_within.mp inFirst) (mem_within.mp inSecond) with around | around
  · exact apart first second isFirst isSecond different around
  · exact apart second first isSecond isFirst different.symm around

theorem within_children (nested : scopes.Nested) (present : root < scopes.scopes.length) :
    1 + ((scopes.childScopes root).map fun child => (scopes.within child).length).sum ≤ (scopes.within root).length := by
  have included : root :: (scopes.childScopes root).flatMap scopes.within ⊆ scopes.within root := by
    intro number member
    rcases mem_cons.mp member with rfl | later
    · exact mem_within.mpr (chain_self nested present)
    obtain ⟨child, isChild, inside⟩ := mem_flatMap.mp later
    have under := mem_child_scopes.mp isChild
    have around : root ∈ scopes.chain child := by
      rw [chain_under nested under]
      exact mem_cons_of_mem _ (chain_self nested present)
    exact mem_within.mpr (chain_trans nested around (mem_within.mp inside))
  have shorter := (subperm_of_subset (children_apart nested root) included).length_le
  rw [length_cons, length_flatMap] at shorter
  omega

theorem child_between (nested : scopes.Nested) (member : root ∈ scopes.chain number) (different : root ≠ number) :
    ∃ child ∈ scopes.childScopes root, child ∈ scopes.chain number := by
  refine chain_induction (motive := fun number => root ≠ number → ∃ child ∈ scopes.childScopes root, child ∈ scopes.chain number) nested
    (absurd rfl) (fun number outer under _ ih _ => ?_) number member different
  by_cases here : root = outer
  · obtain ⟨scope, found, _⟩ := id under
    exact ⟨number, mem_child_scopes.mpr (here ▸ under), chain_self nested (lt_of_found found)⟩
  · obtain ⟨child, isChild, inside⟩ := ih here
    rw [chain_under nested under]
    exact ⟨child, isChild, mem_cons_of_mem _ inside⟩

theorem stack_present {first : Nat} {rest : List Nat} (present : ∀ root ∈ first :: rest, root < scopes.scopes.length) :
    ∀ root ∈ (scopes.childScopes first).reverse ++ rest, root < scopes.scopes.length := by
  intro root member
  rcases mem_append.mp member with isChild | isOther
  · obtain ⟨scope, found, _⟩ := mem_child_scopes.mp (mem_reverse.mp isChild)
    exact lt_of_found found
  · exact present root (mem_cons_of_mem _ isOther)

theorem spread_reaches (nested : scopes.Nested) (fuel : Nat) (stack : List Nat) (present : ∀ root ∈ stack, root < scopes.scopes.length)
    (enough : (stack.map fun root => (scopes.within root).length).sum ≤ fuel)
    (isRoot : root ∈ stack) (inside : root ∈ scopes.chain number) : number ∈ scopes.spread fuel stack := by
  induction fuel generalizing stack root with
  | zero =>
    cases stack with
    | nil => cases isRoot
    | cons first rest =>
      have counted := within_children nested (present first mem_cons_self)
      rw [map_cons, sum_cons] at enough
      omega
  | succ fuel ih =>
    cases stack with
    | nil => cases isRoot
    | cons first rest =>
      rw [spread]
      by_cases same : number = first
      · rw [same]
        exact mem_cons_self
      refine mem_cons_of_mem _ ?_
      have left : (((scopes.childScopes first).reverse ++ rest).map fun root => (scopes.within root).length).sum ≤ fuel := by
        have counted := within_children nested (present first mem_cons_self)
        rw [map_cons, sum_cons] at enough
        rw [map_append, sum_append, map_reverse, sum_reverse]
        omega
      have stillPresent := stack_present present
      rcases mem_cons.mp isRoot with rfl | later
      · obtain ⟨child, isChild, around⟩ := child_between nested inside (Ne.symm same)
        exact ih _ stillPresent left (mem_append_left _ (mem_reverse.mpr isChild)) around
      · exact ih _ stillPresent left (mem_append_right _ later) inside

theorem mem_spread (nested : scopes.Nested) (inside : root ∈ scopes.chain number) : number ∈ scopes.spread scopes.scopes.length [root] := by
  have present := chain_present nested inside
  refine spread_reaches nested _ [root] (fun _ member => mem_singleton.mp member ▸ present) ?_ mem_cons_self inside
  rw [map_singleton, sum_singleton]
  exact Nat.le_trans (length_filter_le _ _) (Nat.le_of_eq length_range)

theorem within_of_spread (nested : scopes.Nested) (fuel : Nat) (stack : List Nat)
    (present : ∀ root ∈ stack, root < scopes.scopes.length) (member : number ∈ scopes.spread fuel stack) :
    ∃ root ∈ stack, root ∈ scopes.chain number := by
  induction fuel generalizing stack with
  | zero => cases member
  | succ fuel ih =>
    cases stack with
    | nil => cases member
    | cons first rest =>
      have here := chain_self nested (present first mem_cons_self)
      rcases mem_cons.mp member with rfl | later
      · exact ⟨number, mem_cons_self, here⟩
      obtain ⟨root, isRoot, inside⟩ := ih _ (stack_present present) later
      rcases mem_append.mp isRoot with isChild | isOther
      · have around : first ∈ scopes.chain root := by
          rw [chain_under nested (mem_child_scopes.mp (mem_reverse.mp isChild))]
          exact mem_cons_of_mem _ here
        exact ⟨first, mem_cons_self, chain_trans nested around inside⟩
      · exact ⟨root, mem_cons_of_mem _ isOther, inside⟩

-- Every name is kept in the scope that it says it belongs to.
def Placed (scopes : Scopes) : Prop := ∀ number key binding, scopes.binding? number key = some binding → binding.scope = number

end

end HookLint.Scopes
