import Mathlib.Data.List.Nodup
import Mathlib.Data.List.Pairwise
import Mathlib.Data.List.Perm.Subperm
import HookLint.Tree.Walk

namespace HookLint

open List

variable {field : String × Value} {fields : Fields} {key : String} {record value : Value}

namespace Value

mutual
-- All records of a value, each before those that it holds.
def records : Value → List Value
  | .record id fields => .record id fields :: recordsOfFields fields
  | .list items => recordsOfItems items
  | _ => []
def recordsOfItems : List Value → List Value
  | [] => []
  | item :: rest => item.records ++ recordsOfItems rest
def recordsOfFields : List (String × Value) → List Value
  | [] => []
  | (_, value) :: rest => value.records ++ recordsOfFields rest
end

-- The number that tells a record apart.
def identity : Value → Nat
  | .record id _ => id
  | _ => 0

-- A value itself, if it is a record.
def self : Value → List Value
  | .record id fields => [.record id fields]
  | _ => []

-- Records in different places of a value are told apart.
structure Distinct (value : Value) : Prop where
  apart : (value.records.map identity).Nodup
  counted : ∀ record ∈ value.records, record.identity ≠ 0

theorem records_of_items_eq (items : List Value) : recordsOfItems items = items.flatMap records := by
  induction items with
  | nil => rfl
  | cons item rest ih => rw [recordsOfItems, ih, flatMap_cons]

theorem records_of_fields_eq (fields : Fields) : recordsOfFields fields = fields.flatMap fun field => field.2.records := by
  induction fields with
  | nil => rfl
  | cons field rest ih => rw [recordsOfFields, ih, flatMap_cons]

theorem records_of_items_append (first second : List Value) :
    recordsOfItems (first ++ second) = recordsOfItems first ++ recordsOfItems second := by
  rw [records_of_items_eq, records_of_items_eq, records_of_items_eq, flatMap_append]

theorem items_records_sublist {first second : List Value} (included : first.Sublist second) :
    (recordsOfItems first).Sublist (recordsOfItems second) := by
  induction included with
  | slnil => exact nil_sublist _
  | cons item included ih => exact ih.trans (sublist_append_right _ _)
  | cons_cons item included ih => exact ih.append_left _

theorem mem_records_self (isRecord : value.isRecord = true) : value ∈ value.records := by
  cases value with
  | record id fields => exact mem_cons_self
  | _ => cases isRecord

theorem mem_self (isRecord : value.isRecord = true) : value ∈ value.self := by
  cases value with
  | record id fields => exact mem_singleton_self _
  | _ => cases isRecord

theorem is_record_of_mem (member : record ∈ value.self) : record = value ∧ value.isRecord = true := by
  cases value with
  | record id fields => exact ⟨mem_singleton.mp member, rfl⟩
  | _ => cases member

theorem mem_of_find (found : fields.find? key = some value) : (key, value) ∈ fields := by
  induction fields with
  | nil => cases found
  | cons field rest ih =>
    obtain ⟨name, other⟩ := field
    rw [Fields.find?] at found
    by_cases same : name = key
    · rw [if_pos same] at found
      cases found
      exact same ▸ mem_cons_self
    · rw [if_neg same] at found
      exact mem_cons_of_mem _ (ih found)

theorem field_records_inside (isField : field ∈ fields) : field.2.records.Sublist (recordsOfFields fields) := by
  induction fields with
  | nil => cases isField
  | cons first rest ih =>
    rcases mem_cons.mp isField with rfl | later
    · exact sublist_append_left _ _
    · exact (ih later).trans (sublist_append_right _ _)

theorem find_records_sublist (fields : Fields) (key : String) (value : Value) (found : fields.find? key = some value) :
    value.records.Sublist (recordsOfFields fields) := field_records_inside (mem_of_find found)

theorem get_records_sublist (fields : Fields) (key : String) : (fields.get key).records.Sublist (recordsOfFields fields) := by
  rw [Fields.get]
  cases found : fields.find? key with
  | none => exact nil_sublist _
  | some value => exact find_records_sublist fields key value found

theorem parts_records_sublist (value : Value) : (recordsOfItems value.parts).Sublist value.records := by
  cases value with
  | list items => exact .refl _
  | _ => exact nil_sublist _

theorem field_nodes_records_sublist (key : String) (value : Value) : (recordsOfItems (fieldNodes key value)).Sublist value.records := by
  unfold fieldNodes
  split
  · exact nil_sublist _
  split
  · rw [recordsOfItems, recordsOfItems, append_nil]
  · split
    · exact items_records_sublist filter_sublist
    · exact nil_sublist _

theorem children_records_sublist (fields : Fields) : (recordsOfItems (childNodes fields)).Sublist (recordsOfFields fields) := by
  induction fields with
  | nil => exact nil_sublist _
  | cons field rest ih =>
    obtain ⟨key, value⟩ := field
    rw [childNodes, records_of_items_append]
    exact (field_nodes_records_sublist key value).append ih

theorem two_keys_subperm (fields : Fields) (first second : String) (different : first ≠ second) :
    ((fields.get first).records ++ (fields.get second).records).Subperm (recordsOfFields fields) := by
  induction fields with
  | nil => exact nil_subperm
  | cons field rest ih =>
    obtain ⟨name, value⟩ := field
    by_cases isFirst : name = first
    · have skipped : name ≠ second := fun same => different (isFirst.symm.trans same)
      simp only [Fields.get, Fields.find?, if_pos isFirst, if_neg skipped, Option.getD_some, recordsOfFields]
      exact ((get_records_sublist rest second).append_left _).subperm
    by_cases isSecond : name = second
    · simp only [Fields.get, Fields.find?, if_neg isFirst, if_pos isSecond, Option.getD_some, recordsOfFields]
      have swapped := (get_records_sublist rest first).append_left value.records
      exact (perm_append_comm.subperm).trans swapped.subperm
    · simp only [Fields.get, Fields.find?, if_neg isFirst, if_neg isSecond, recordsOfFields]
      exact ih.trans (sublist_append_right _ _).subperm

mutual
theorem inner_records_sublist (value record : Value) (member : record ∈ value.records) : record.records.Sublist value.records := by
  cases value with
  | record id fields =>
    rcases mem_cons.mp member with rfl | inside
    · exact .refl _
    · exact (inner_records_fields fields record inside).cons _
  | list items => exact inner_records_items items record member
  | _ => cases member
theorem inner_records_items (items : List Value) (record : Value) (member : record ∈ recordsOfItems items) :
    record.records.Sublist (recordsOfItems items) := by
  cases items with
  | nil => cases member
  | cons item rest =>
    rcases mem_append.mp member with first | later
    · exact (inner_records_sublist item record first).trans (sublist_append_left _ _)
    · exact (inner_records_items rest record later).trans (sublist_append_right _ _)
theorem inner_records_fields (fields : List (String × Value)) (record : Value)
    (member : record ∈ recordsOfFields fields) : record.records.Sublist (recordsOfFields fields) := by
  cases fields with
  | nil => cases member
  | cons field rest =>
    obtain ⟨key, value⟩ := field
    rcases mem_append.mp member with first | later
    · exact (inner_records_sublist value record first).trans (sublist_append_left _ _)
    · exact (inner_records_fields rest record later).trans (sublist_append_right _ _)
end

section
variable (distinct : value.Distinct)
include distinct

theorem Distinct.of_sublist {inner : Value} (included : inner.records.Sublist value.records) : inner.Distinct :=
  ⟨(included.map identity).nodup distinct.apart, fun record member => distinct.counted record (included.subset member)⟩

theorem Distinct.of_mem (member : record ∈ value.records) :
    record.Distinct := distinct.of_sublist (inner_records_sublist value record member)

theorem Distinct.eq_of_identity {first second : Value} (isFirst : first ∈ value.records) (isSecond : second ∈ value.records) (same : first.identity = second.identity) : first = second :=
  inj_on_of_nodup_map distinct.apart isFirst isSecond same

end

-- Where the parts of a list have their records in different places, a record tells its part.
theorem part_unique {α : Type} {parts : List α} (recordsOf : α → List Value) {first second : α}
    (apart : ((parts.flatMap recordsOf).map identity).Nodup) (isFirst : first ∈ parts) (isSecond : second ∈ parts)
    (inFirst : record ∈ recordsOf first) (inSecond : record ∈ recordsOf second) : first = second := by
  have disjoint := (nodup_flatMap.mp (List.Nodup.of_map identity apart)).2
  by_contra different
  have symmetric : Std.Symm (Function.onFun List.Disjoint recordsOf) := ⟨fun _ _ disjoint _ inSecond inFirst => disjoint inFirst inSecond⟩
  exact disjoint.forall isFirst isSecond different inFirst inSecond

section
variable {id : Nat} {fields : Fields} {outer record : Value}

theorem fields_apart (distinct : (Value.record id fields).Distinct) : ((recordsOfFields fields).map identity).Nodup :=
  (nodup_cons.mp distinct.apart).2

theorem get_eq_of_mem (present : record ∈ (fields.get key).records) : (key, fields.get key) ∈ fields := by
  rw [Fields.get] at present ⊢
  induction fields with
  | nil => cases present
  | cons field rest ih =>
    obtain ⟨name, other⟩ := field
    rw [Fields.find?] at present ⊢
    by_cases same : name = key
    · rw [if_pos same, Option.getD_some, same]
      exact mem_cons_self
    · rw [if_neg same] at present ⊢
      exact mem_cons_of_mem _ (ih present)

theorem held_by_field (distinct : (Value.record id fields).Distinct) (isField : field ∈ fields)
    (inside : outer ∈ recordsOfFields fields) (held : record ∈ outer.records) (present : record ∈ field.2.records) :
    outer ∈ field.2.records := by
  have apart := fields_apart distinct
  rw [records_of_fields_eq] at inside apart
  obtain ⟨other, member, within⟩ := mem_flatMap.mp inside
  have shared := (inner_records_sublist other.2 outer within).subset held
  have same := part_unique (fun field => field.2.records) apart member isField shared present
  rw [same] at within
  exact within

theorem held_by_item {items : List Value} {item : Value} (apart : ((recordsOfItems items).map identity).Nodup)
    (inside : outer ∈ recordsOfItems items) (held : record ∈ outer.records) (isItem : item ∈ items)
    (present : record ∈ item.records) : outer ∈ item.records := by
  rw [records_of_items_eq] at inside apart
  obtain ⟨other, member, within⟩ := mem_flatMap.mp inside
  have shared := (inner_records_sublist other outer within).subset held
  rw [part_unique records apart member isItem shared present] at within
  exact within

end

end Value

theorem filed_kind {node : Value} {kind : Option Kind} (filed : node.filedKind = .ok kind) : node.kind = kind := by
  unfold Value.filedKind at filed
  cases isKey : (node.get "type").key with
  | error fault =>
    rw [isKey] at filed
    cases filed
  | ok key =>
    rw [isKey] at filed
    exact Except.ok.inj filed

end HookLint
