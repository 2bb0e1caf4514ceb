import Mathlib.Algebra.Order.BigOperators.Group.List
import Mathlib.Algebra.Order.Group.Nat
import HookLint.Proofs.Flow.Marks
import HookLint.Proofs.Tree.Shape

namespace HookLint.Flow

open List Value

variable {fields : Fields} {inLoop : Bool} {item node value : Value} {key : String} {kind : Kind} {marks : Marks} {rest : List Value}

-- Where the calls come from that are read from a value: each from a record of its own. What is
-- marked as lying in a loop lies in the rounds of one, and what is not marked lies in none.
structure Sourced (value : Value) (inLoop : Bool) (marks : Marks) : Prop where
  once : ∀ number, (marks.map fun entry => entry.2.identity).count number ≤ (value.records.map identity).count number
  isRecord : ∀ entry ∈ marks, entry.2.isRecord = true
  held : ∀ entry ∈ marks, value.Holds entry.2
  straight : ∀ entry ∈ marks, entry.1.inLoop = false → entry.1.blurred = false → value.Straight entry.2
  looped : inLoop = false → ∀ entry ∈ marks, entry.1.inLoop = true →
    ∃ loop key, value.Holds loop ∧ key ∈ loop.roundFields ∧ (loop.get key).Holds entry.2
  uniform : inLoop = true → ∀ entry ∈ marks, entry.1.inLoop = true

section
variable {value : Value} {inLoop : Bool} {marks : Marks}

theorem sourced_nil (value : Value) (inLoop : Bool) : Sourced value inLoop [] := ⟨by simp, by simp, by simp, by simp, by simp, by simp⟩

theorem sourced_item {more : Marks} (first : Sourced item inLoop marks)
    (others : Sourced (.list rest) inLoop more) : Sourced (.list (item :: rest)) inLoop (marks ++ more) := by
  have later {inner : Value} (holds : (Value.list rest).Holds inner) (isRecord : inner.isRecord = true) :
      (Value.list (item :: rest)).Holds inner := by
    cases holds with
    | self => cases isRecord
    | item _ other _ member holds => exact .item _ other inner (mem_cons_of_mem _ member) holds
  refine ⟨fun number => ?_, ?_, ?_, ?_, ?_, ?_⟩
  · have early := first.once number
    have late := others.once number
    simp only [records, recordsOfItems, map_append, count_append] at early late ⊢
    omega
  all_goals simp only [forall_mem_append]
  · exact ⟨first.isRecord, others.isRecord⟩
  · exact ⟨fun entry member => .item _ item _ mem_cons_self (first.held entry member),
      fun entry member => later (others.held entry member) (others.isRecord entry member)⟩
  · refine ⟨fun entry member outside exactly => .item _ item _ mem_cons_self (first.straight entry member outside exactly),
      fun entry member outside exactly => ?_⟩
    have isRecord := others.isRecord entry member
    have straight := others.straight entry member outside exactly
    generalize entry.2 = call at isRecord straight
    cases straight with
    | self => cases isRecord
    | item _ other _ member straight => exact .item _ other _ (mem_cons_of_mem _ member) straight
  · intro outside
    refine ⟨fun entry member inside => ?_, fun entry member inside => ?_⟩
    · obtain ⟨loop, key, holds, round, body⟩ := first.looped outside entry member inside
      exact ⟨loop, key, .item _ item _ mem_cons_self holds, round, body⟩
    · obtain ⟨loop, key, holds, round, body⟩ := others.looped outside entry member inside
      obtain ⟨id, fields, rfl⟩ := round_fields_record round
      exact ⟨_, key, later holds rfl, round, body⟩
  · exact fun inside => ⟨first.uniform inside, others.uniform inside⟩

end

section
variable {id : Nat} {fields : Fields} {inLoop : Bool}

theorem parts_once (parts : List (String × Marks)) (apart : (parts.map (·.1)).Nodup) (number : Nat)
    (each : ∀ part ∈ parts, (part.2.map fun entry => entry.2.identity).count number ≤
      ((fields.get part.1).records.map identity).count number) :
    ((parts.flatMap (·.2)).map fun entry => entry.2.identity).count number ≤ ((recordsOfFields fields).map identity).count number := by
  calc ((parts.flatMap (·.2)).map fun entry => entry.2.identity).count number
    _ = (parts.map fun part => (part.2.map fun entry => entry.2.identity).count number).sum := by
        rw [map_flatMap, count_flatMap]
        rfl
    _ ≤ (parts.map fun part => ((fields.get part.1).records.map identity).count number).sum := sum_le_sum each
    _ = ((parts.map (·.1)).map fun key => ((fields.get key).records.map identity).count number).sum := by
        rw [map_map]
        rfl
    _ ≤ ((recordsOfFields fields).map identity).count number := keys_count_le _ apart number

section
variable (inLoop) (own : (Value.record id fields).isFunction = false) (parts : List (String × Marks)) (apart : (parts.map (·.1)).Nodup)
  (each : ∀ part ∈ parts, Sourced (fields.get part.1) (inLoop || (Value.record id fields).roundFields.contains part.1) part.2)
include own apart each

-- What is read from the fields of a node, each of them once. In the fields that a loop runs
-- through in each round everything is marked as lying in a loop.
theorem sourced_node : Sourced (.record id fields) inLoop (parts.flatMap (·.2)) := by
  have step {inner : Value} {key : String} (holds : (fields.get key).Holds inner) (isRecord : inner.isRecord = true) :
      (Value.record id fields).Holds inner :=
    .field id fields _ inner own (get_eq_of_mem (holds.mem_records isRecord)) holds
  refine ⟨fun number => ?_, ?_, ?_, ?_, ?_, ?_⟩
  · rw [records, map_cons]
    exact (parts_once parts apart number fun part member => (each part member).once number).trans count_le_count_cons
  all_goals simp only [mem_flatMap]
  · rintro entry ⟨part, isPart, member⟩
    exact (each part isPart).isRecord entry member
  · rintro entry ⟨part, isPart, member⟩
    exact step ((each part isPart).held entry member) ((each part isPart).isRecord entry member)
  · rintro entry ⟨part, isPart, member⟩ outside exactly
    have sourced := each part isPart
    have isRecord := sourced.isRecord entry member
    have present := (sourced.held entry member).mem_records isRecord
    refine .field id fields _ entry.2 (fun round => ?_) (get_eq_of_mem present) (sourced.straight entry member outside exactly)
    have marked := sourced.uniform (by simp [round]) entry member
    rw [outside] at marked
    cases marked
  · rintro rfl entry ⟨part, isPart, member⟩ inside
    have sourced := each part isPart
    by_cases round : part.1 ∈ (Value.record id fields).roundFields
    · exact ⟨.record id fields, part.1, .self _, round, sourced.held entry member⟩
    · obtain ⟨loop, key, holds, round, body⟩ := sourced.looped (by simpa using round) entry member inside
      obtain ⟨loopId, loopFields, rfl⟩ := round_fields_record round
      exact ⟨_, key, step holds rfl, round, body⟩
  · rintro rfl entry ⟨part, isPart, member⟩
    exact (each part isPart).uniform (by simp) entry member

theorem sourced_call : Sourced (.record id fields) inLoop (parts.flatMap (·.2) ++ [(⟨inLoop, false⟩, .record id fields)]) := by
  have sourced := sourced_node inLoop own parts apart each
  refine ⟨fun number => ?_, ?_, ?_, ?_, ?_, ?_⟩
  · have less := parts_once parts apart number fun part member => (each part member).once number
    simp only [records, map_append, count_append, map_cons, map_nil, count_cons, count_nil]
    omega
  all_goals simp only [forall_mem_append, forall_mem_singleton]
  · exact ⟨sourced.isRecord, rfl⟩
  · exact ⟨sourced.held, .self _⟩
  · exact ⟨sourced.straight, fun _ _ => .self _⟩
  · rintro rfl
    exact ⟨sourced.looped rfl, by simp⟩
  · exact fun inside => ⟨sourced.uniform inside, inside⟩

end

section
variable (own : (Value.record id fields).isFunction = false)
include own

theorem sourced_region : Sourced (.record id fields) inLoop ((Region.of (.record id fields)).marks inLoop) := by
  have included : (Value.record id fields).ownInvocations.Sublist _ := own_invocations_sublist rfl
  refine ⟨fun number => ?_, ?_, ?_, ?_, ?_, ?_⟩
  · have less := (included.map identity).count_le number
    simpa [Region.marks, Region.of, Function.comp_def] using less
  all_goals simp only [Region.marks, Region.of, forall_mem_map]
  · intro call member
    have invokes := (mem_filter.mp member).2
    cases call with
    | record => rfl
    | _ => cases invokes
  · exact fun call member => own_invocation_held member own
  · simp
  · rintro rfl
    simp
  · exact fun inside _ _ => inside

end

end

theorem own_of_kind (isKind : node.kind = some kind) (own : kind.isFunction = false) : node.isFunction = false := by
  simp [isFunction, kindIs, isKind, own]

theorem round_fields_eq (isKind : node.kind = some kind) : node.roundFields = kind.roundFields := by
  simp [roundFields, isKind]

theorem round_only (notLeft : key ≠ "left") (notBody : key ≠ "body") : value.roundFields.contains key = false := by
  unfold roundFields
  cases value.kind with
  | none => rfl
  | some kind => cases kind <;> simp [Kind.roundFields, notLeft, notBody]

theorem Sourced.of_perm {others : Marks} (sourced : Sourced value inLoop marks)
    (same : marks.Perm others) : Sourced value inLoop others := by
  have back {entry : Mark × Value} : entry ∈ others → entry ∈ marks := same.mem_iff.mpr
  refine ⟨fun number => ?_, fun entry member => sourced.isRecord entry (back member),
    fun entry member => sourced.held entry (back member), fun entry member => sourced.straight entry (back member),
    fun outside entry member => sourced.looped outside entry (back member),
    fun inside entry member => sourced.uniform inside entry (back member)⟩
  rw [← (same.map _).count_eq]
  exact sourced.once number

theorem item_orderly (orderly : (Value.list (item :: rest)).Orderly) : item.Orderly ∧ (Value.list rest).Orderly :=
  ⟨orderly.of_sublist (sublist_append_left _ _), orderly.of_sublist (sublist_append_right _ _)⟩

-- Where the calls of a function or program lie in it.
structure Laid (root : Value) (marks : Marks) : Prop where
  once : ∀ number, (marks.map fun entry => entry.2.identity).count number ≤ (root.records.map Value.identity).count number
  isRecord : ∀ entry ∈ marks, entry.2.isRecord = true
  owned : ∀ entry ∈ marks, root.Owns entry.2
  straight : ∀ entry ∈ marks, entry.1.inLoop = false → entry.1.blurred = false → ∃ field ∈ root.fields, field.2.Straight entry.2
  looped : ∀ entry ∈ marks, entry.1.inLoop = true → root.InLoop entry.2

theorem laid_of_parts (id : Nat) (fields : Fields) (parts : List (String × Marks)) (apart : (parts.map (·.1)).Nodup)
    (each : ∀ part ∈ parts, Sourced (fields.get part.1) false part.2) : Laid (.record id fields) (parts.flatMap (·.2)) := by
  have present {inner : Value} {key : String} (holds : (fields.get key).Holds inner) (isRecord : inner.isRecord = true) :
      (key, fields.get key) ∈ fields := Value.get_eq_of_mem (holds.mem_records isRecord)
  refine ⟨fun number => ?_, ?_, ?_, ?_, ?_⟩
  · rw [Value.records, map_cons]
    exact (parts_once parts apart number fun part member => (each part member).once number).trans count_le_count_cons
  all_goals simp only [mem_flatMap]
  · rintro entry ⟨part, isPart, member⟩
    exact (each part isPart).isRecord entry member
  · rintro entry ⟨part, isPart, member⟩
    have held := (each part isPart).held entry member
    exact ⟨_, present held ((each part isPart).isRecord entry member), held⟩
  · rintro entry ⟨part, isPart, member⟩ outside exactly
    have sourced := each part isPart
    exact ⟨_, present (sourced.held entry member) (sourced.isRecord entry member), sourced.straight entry member outside exactly⟩
  · rintro entry ⟨part, isPart, member⟩ inside
    obtain ⟨loop, key, holds, round, body⟩ := (each part isPart).looped rfl entry member inside
    obtain ⟨loopId, loopFields, rfl⟩ := Value.round_fields_record round
    exact ⟨_, key, ⟨_, present holds rfl, holds⟩, round, body⟩

theorem sourced_null (sourced : Sourced .null inLoop marks) : marks = [] := by
  refine eq_nil_iff_forall_not_mem.mpr fun entry member => ?_
  cases (sourced.held entry member).mem_records (sourced.isRecord entry member)

end HookLint.Flow
