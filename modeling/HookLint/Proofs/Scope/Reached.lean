import HookLint.Proofs.Scope.Outline
import HookLint.Proofs.Tree.Records

namespace HookLint.Survey

open List Value

variable {key : String} {value item outer record : Value}

-- What a node deals with without visiting it.
def exposed (node : Value) : List Value :=
  match node.kind with
  | some .objectPattern => (node.get "properties").parts
  | some .variableDeclaration => (node.get "declarations").parts
  | some .switchStatement => (node.get "cases").parts
  | some .classDeclaration | some .classExpression | some .classStep => [node.get "body"]
  | some .exportNamedDeclaration => (node.get "specifiers").parts ++ (node.get "specifiers").parts.map (·.get "local")
  | _ => []

-- What visiting a node can get at: its fields and their items, and from there what stands in them,
-- where a function is opened only if it is exposed.
inductive Reached (node : Value) : Value → Prop where
  | null : Reached node .null
  | field (field : String × Value) (isField : field ∈ node.fields) : Reached node field.2
  | item (field : String × Value) (item : Value) (isField : field ∈ node.fields) (isItem : item ∈ field.2.parts) : Reached node item
  | inner (outer : Value) (key : String) (reached : Reached node outer) (shown : outer.isFunction = true → outer ∈ exposed node) :
      Reached node (outer.get key)
  | innerItem (outer : Value) (key : String) (item : Value) (reached : Reached node outer)
      (shown : outer.isFunction = true → outer ∈ exposed node) (isItem : item ∈ (outer.get key).parts) : Reached node item

section
variable {id : Nat} {fields : Fields}

theorem reached_get (key : String) : Reached (.record id fields) (fields.get key) := by
  rw [Fields.get]
  cases found : fields.find? key with
  | none => exact .null
  | some value => exact .field (key, value) (mem_of_find found)

theorem reached_part (isItem : item ∈ (fields.get key).parts) : Reached (.record id fields) item := by
  rw [Fields.get] at isItem
  cases found : fields.find? key with
  | none =>
    rw [found] at isItem
    exact absurd isItem not_mem_nil
  | some value =>
    rw [found] at isItem
    exact .item (key, value) item (mem_of_find found) isItem

theorem parts_smaller (isItem : item ∈ value.parts) : sizeOf item < sizeOf value := by
  cases value with
  | list items =>
    have smaller : sizeOf item < sizeOf items := sizeOf_lt_of_mem isItem
    rw [Value.list.sizeOf_spec]
    omega
  | _ => exact absurd isItem not_mem_nil

theorem get_no_larger (value : Value) (key : String) : sizeOf (value.get key) ≤ sizeOf value := by
  cases value with
  | record id fields => exact Nat.le_of_lt (sizeOf_get_record id fields key)
  | _ => simp [Value.get, Value.fields, Fields.get, Fields.find?]

theorem reached_smaller (reached : Reached (.record id fields) value) : sizeOf value < sizeOf (Value.record id fields) := by
  have below {field : String × Value} (isField : field ∈ fields) : sizeOf field.2 < sizeOf (Value.record id fields) := by
    have smaller := sizeOf_lt_of_mem isField
    obtain ⟨key, value⟩ := field
    rw [Prod.mk.sizeOf_spec] at smaller
    rw [Value.record.sizeOf_spec]
    dsimp only
    omega
  induction reached with
  | null =>
    rw [Value.null.sizeOf_spec, Value.record.sizeOf_spec]
    cases fields <;> grind
  | field field isField => exact below isField
  | item field item isField isItem => exact Nat.lt_trans (parts_smaller isItem) (below isField)
  | inner outer key _ _ ih => exact Nat.lt_of_le_of_lt (get_no_larger outer key) ih
  | innerItem outer key item _ _ isItem ih =>
    exact Nat.lt_trans (Nat.lt_of_lt_of_le (parts_smaller isItem) (get_no_larger outer key)) ih

theorem get_records_inside (value : Value) (key : String) : (value.get key).records.Sublist value.records := by
  cases value with
  | record id fields => exact (get_records_sublist fields key).cons _
  | _ => exact nil_sublist _

theorem item_records_inside {items : List Value} (isItem : item ∈ items) : item.records.Sublist (recordsOfItems items) := by
  have single := items_records_sublist (singleton_sublist.mpr isItem)
  rwa [recordsOfItems, recordsOfItems, append_nil] at single

theorem part_records_inside (isItem : item ∈ value.parts) : item.records.Sublist value.records :=
  (item_records_inside isItem).trans (parts_records_sublist value)

theorem reached_records_inside (reached : Reached (.record id fields) value) : value.records.Sublist (recordsOfFields fields) := by
  induction reached with
  | null => exact nil_sublist _
  | field field isField => exact field_records_inside isField
  | item field item isField isItem => exact (part_records_inside isItem).trans (field_records_inside isField)
  | inner outer key _ _ ih => exact (get_records_inside outer key).trans ih
  | innerItem outer key item _ _ isItem ih => exact ((part_records_inside isItem).trans (get_records_inside outer key)).trans ih

theorem held_by_part (distinct : value.Distinct) (within : outer ∈ value.records)
    (held : record ∈ outer.records) (isItem : item ∈ value.parts) (present : record ∈ item.records) : outer ∈ item.records := by
  cases value with
  | list items => exact held_by_item distinct.apart within held isItem present
  | _ => exact absurd isItem not_mem_nil

theorem held_by_get {middle : Value} (distinct : middle.Distinct) (within : outer ∈ middle.records) (different : outer ≠ middle)
    (held : record ∈ outer.records) (present : record ∈ (middle.get key).records) : outer ∈ (middle.get key).records := by
  cases middle with
  | record id fields =>
    exact held_by_field distinct (get_eq_of_mem present) ((mem_cons.mp within).resolve_left different) held present
  | _ => exact absurd present not_mem_nil

-- What is reached shares nothing with a function that is not exposed, or holds the whole.
theorem reached_holds (distinct : (Value.record id fields).Distinct) (inside : outer ∈ recordsOfFields fields)
    (isFunction : outer.isFunction = true) (hidden : outer ∉ exposed (.record id fields)) (held : record ∈ outer.records)
    (reached : Reached (.record id fields) value) (present : record ∈ value.records) : outer ∈ value.records := by
  have distinctInside {value : Value} (reached : Reached (.record id fields) value) : value.Distinct :=
    distinct.of_sublist ((reached_records_inside reached).cons _)
  have other {middle : Value} (shown : middle.isFunction = true → middle ∈ exposed (.record id fields)) : outer ≠ middle := by
    rintro rfl
    exact hidden (shown isFunction)
  induction reached with
  | null => exact absurd present not_mem_nil
  | field field isField => exact held_by_field distinct isField inside held present
  | item field item isField isItem =>
    have within := held_by_field distinct isField inside held ((part_records_inside isItem).subset present)
    exact held_by_part (distinctInside (.field field isField)) within held isItem present
  | inner middle key reached shown ih =>
    exact held_by_get (distinctInside reached) (ih ((get_records_inside middle key).subset present)) (other shown) held present
  | innerItem middle key item reached shown isItem ih =>
    have shared := (part_records_inside isItem).subset present
    have around := held_by_get (distinctInside reached) (ih ((get_records_inside middle key).subset shared)) (other shown) held shared
    exact held_by_part (distinctInside (.inner middle key reached shown)) around held isItem present

end

end HookLint.Survey
