import HookLint.Proofs.Flow.Origins
import HookLint.Proofs.Flow.Sound
import HookLint.Proofs.Tree.Grammar

namespace HookLint.Flow

open List

variable {call item node : Value} {rest : List Value} {role : Role}

open Grammar

variable {marks : Marks} {value left : Value} {sound : Prop}

-- Every call that is run is marked, and outside of regions that are not modelled.
def Covers (value : Value) (marks : Marks) : Prop :=
  ∀ node ∈ value.nodes, ∀ call, node.Evaluates call → call.kindIs Kind.isInvocation = true →
    ∃ mark : Mark, mark.blurred = false ∧ (mark, call) ∈ marks

section
variable {value : Value} {marks more : Marks}

theorem Covers.mono (covers : Covers value marks) (included : marks ⊆ more) : Covers value more := by
  intro node isNode call runs invokes
  obtain ⟨mark, exactly, member⟩ := covers node isNode call runs invokes
  exact ⟨mark, exactly, included member⟩

theorem covers_plain (plain : value.nodes = []) (marks : Marks) : Covers value marks := by
  intro node isNode
  rw [plain] at isNode
  cases isNode

end

section
variable {role : Role} {arity : Arity} {kind : Kind} {id : Nat} {fields : Fields} {slots : List Slot}

theorem quiet_kind (fits : Fits role id fields slots) (quiet : role.isQuiet = true) :
    (Value.record id fields).kindIs Kind.isInvocation = false ∧
      (slots.all fun slot => slot.role.isQuiet && slot.arity.takesRecord) = true := by
  have form := fits.form
  unfold slots? at form
  cases isKind : (Value.record id fields).kind with
  | none =>
    rw [isKind] at form
    rw [Value.kindIs, isKind]
    refine ⟨rfl, ?_⟩
    cases role with
    | name => cases form
    | specifier =>
      dsimp only at form
      split at form <;> cases form
      all_goals first | rfl | contradiction
    | _ => cases quiet
  | some kind =>
    rw [isKind] at form
    rw [Value.kindIs, isKind, Option.any_some]
    cases role with
    | name =>
      cases kind <;> first | (cases form; done) | (cases form; exact ⟨rfl, rfl⟩) | (obtain rfl := identifier_slots form; exact ⟨rfl, rfl⟩)
    | specifier => cases kind <;> first | (cases form; done) | (cases form; exact ⟨rfl, rfl⟩)
    | _ => cases quiet

theorem quiet_runs (runs : node.Evaluates call) (quiet : role.isQuiet = true)
    (admitted : admits .maybe role node = true) : call.kindIs Kind.isInvocation = false := by
  induction runs generalizing role with
  | self node =>
    obtain rfl | ⟨id, fields, slots, rfl, fits⟩ := admits_maybe admitted
    · rfl
    · exact (quiet_kind fits quiet).1
  | inner node child call member _ ih =>
    obtain rfl | ⟨id, fields, slots, rfl, fits⟩ := admits_maybe admitted
    · cases member
    by_cases opens : (Value.record id fields).isFunction = true
    · rw [Value.evaluated, if_pos opens] at member
      cases member
    obtain ⟨field, isField, _, inside⟩ := (Value.mem_evaluated (Bool.eq_false_iff.mpr opens)).mp member
    obtain ⟨slot, isSlot, _, found, inside⟩ := fits.child isField inside
    obtain ⟨quiet, single⟩ := Bool.and_eq_true_iff.mp (all_eq_true.mp (quiet_kind fits quiet).2 slot isSlot)
    have admitted := admits_single (fits.slot slot found) single
    obtain ⟨_, same⟩ := (mem_nodes_single admitted).mp (field_nodes_subset _ _ inside)
    exact ih quiet (same ▸ admitted)

theorem quiet_covers (quiet : role.isQuiet = true) (admitted : admits arity role node = true) (marks : Marks) : Covers node marks := by
  have silent {inner call : Value} (admitted : admits .maybe role inner = true) (runs : inner.Evaluates call)
      (invokes : call.kindIs Kind.isInvocation = true) : False := by
    rw [quiet_runs runs quiet admitted] at invokes
    cases invokes
  by_cases single : arity.takesRecord = true
  · have admitted := admits_single admitted single
    intro inner isNode call runs invokes
    obtain ⟨_, rfl⟩ := (mem_nodes_single admitted).mp isNode
    exact (silent admitted runs invokes).elim
  obtain ⟨itemArity, listed, itemSingle⟩ : ∃ inner, arity.ofItems = some inner ∧ inner.takesRecord = true := by
    cases arity <;> first | exact absurd rfl single | exact ⟨_, rfl, rfl⟩
  obtain ⟨rfl, _⟩ | ⟨items, rfl, each⟩ := admits_items admitted listed
  · exact covers_plain rfl marks
  · intro inner isNode call runs invokes
    exact (silent (admits_single (each inner (mem_filter.mp isNode).1) itemSingle) runs invokes).elim

-- A node of which some fields are read, where nothing is run in the others.
theorem covers_node (fits : Fits role id fields slots) (isKind : (Value.record id fields).kind = some kind) (keys : List String)
    (called : kind.isInvocation = true → ∃ mark : Mark, mark.blurred = false ∧ (mark, .record id fields) ∈ marks)
    (each : kind.isFunction = true ∨ ∀ slot ∈ slots, slot.key ∈ keys ∨ slot.role.isQuiet = true ∨
      (kind.isClass && Value.isClassPart slot.key) = true)
    (covered : ∀ key ∈ keys, Covers (fields.get key) marks) : Covers (.record id fields) marks := by
  intro node isNode call runs invokes
  have same : node = .record id fields := by
    unfold Value.nodes at isNode
    split at isNode <;> simp_all
  subst same
  cases runs with
  | self =>
    rw [Value.kindIs, isKind] at invokes
    exact called invokes
  | inner _ child _ member runs =>
    have opens : (Value.record id fields).isFunction = kind.isFunction := by
      rw [Value.isFunction, Value.kindIs, isKind]
      rfl
    rcases Bool.eq_false_or_eq_true kind.isFunction with isFunction | own
    · rw [Value.evaluated, if_pos (opens.trans isFunction)] at member
      cases member
    obtain ⟨field, isField, outside, inside⟩ := (Value.mem_evaluated (opens.trans own)).mp member
    obtain ⟨slot, isSlot, sameKey, found, inside⟩ := fits.child isField inside
    have isNode := field_nodes_subset _ _ inside
    rcases each with isFunction | each
    · cases own.symm.trans isFunction
    rcases each slot isSlot with isKey | quiet | isPart
    · exact covered _ isKey child isNode call runs invokes
    · exact quiet_covers quiet (fits.slot slot found) marks child isNode call runs invokes
    · rw [Value.isClass, Value.kindIs, isKind, ← sameKey] at outside
      cases isPart.symm.trans outside

end

end HookLint.Flow
