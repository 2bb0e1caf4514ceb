import HookLint.Proofs.Tree.Records

namespace HookLint

open List

variable {fields : Fields} {items : List Value} {record : Value}

-- The fields of a loop that are run through once in each round.
def Kind.roundFields : Kind → List String
  | .forInStatement | .forOfStatement => ["left", "body"]
  | .forStatement | .whileStatement | .doWhileStatement => ["body"]
  | _ => []

namespace Value

def roundFields (value : Value) : List String := (value.kind.map Kind.roundFields).getD []

-- What lies inside a value, but not inside a function in it.
inductive Holds : Value → Value → Prop where
  | self (value : Value) : Holds value value
  | item (items : List Value) (item inner : Value) (member : item ∈ items) (rest : Holds item inner) :
      Holds (.list items) inner
  | field (id : Nat) (fields : Fields) (field : String × Value) (inner : Value)
      (own : (Value.record id fields).isFunction = false) (member : field ∈ fields) (rest : Holds field.2 inner) :
      Holds (.record id fields) inner

-- What belongs to a function or program itself.
def Owns (root inner : Value) : Prop := ∃ field ∈ root.fields, field.2.Holds inner

-- What a loop of a function or program runs through in each round.
def InLoop (root inner : Value) : Prop := ∃ loop key, root.Owns loop ∧ key ∈ loop.roundFields ∧ (loop.get key).Holds inner

-- What lies inside a value, but not in the rounds of a loop in it.
inductive Straight : Value → Value → Prop where
  | self (value : Value) : Straight value value
  | item (items : List Value) (item inner : Value) (member : item ∈ items) (rest : Straight item inner) :
      Straight (.list items) inner
  | field (id : Nat) (fields : Fields) (field : String × Value) (inner : Value)
      (outside : field.1 ∉ (Value.record id fields).roundFields) (member : field ∈ fields)
      (rest : Straight field.2 inner) : Straight (.record id fields) inner

section
variable {value inner : Value}

theorem round_fields_record {loop : Value} {key : String} (member : key ∈ loop.roundFields) : ∃ id fields, loop = .record id fields := by
  cases loop with
  | record id fields => exact ⟨id, fields, rfl⟩
  | _ => cases member

theorem item_records_subset {item : Value} (member : item ∈ items) : item.records ⊆ recordsOfItems items := by
  rw [records_of_items_eq]
  exact fun record inside => mem_flatMap.mpr ⟨item, member, inside⟩

theorem field_records_subset {field : String × Value} (member : field ∈ fields) : field.2.records ⊆ recordsOfFields fields := by
  rw [records_of_fields_eq]
  exact fun record inside => mem_flatMap.mpr ⟨field, member, inside⟩

theorem Holds.mem_records (holds : value.Holds inner) (isRecord : inner.isRecord = true) : inner ∈ value.records := by
  induction holds with
  | self value => exact mem_records_self isRecord
  | item items item inner member _ ih => exact item_records_subset member (ih isRecord)
  | field id fields field inner _ member _ ih => exact mem_cons_of_mem _ (field_records_subset member (ih isRecord))

theorem Straight.mem_records (straight : value.Straight inner) (isRecord : inner.isRecord = true) : inner ∈ value.records := by
  induction straight with
  | self value => exact mem_records_self isRecord
  | item items item inner member _ ih => exact item_records_subset member (ih isRecord)
  | field id fields field inner _ member _ ih => exact mem_cons_of_mem _ (field_records_subset member (ih isRecord))

theorem Holds.trans {outer : Value} (first : outer.Holds value) (second : value.Holds inner) : outer.Holds inner := by
  induction first with
  | self value => exact second
  | item items item value member _ ih => exact .item items item inner member (ih second)
  | field id fields field value own member _ ih => exact .field id fields field inner own member (ih second)

end

theorem field_unique {id : Nat} {first second : String × Value}
    (distinct : (Value.record id fields).Distinct) (isFirst : first ∈ fields) (isSecond : second ∈ fields)
    (inFirst : record ∈ first.2.records) (inSecond : record ∈ second.2.records) : first = second := by
  have apart := fields_apart distinct
  rw [records_of_fields_eq] at apart
  exact part_unique (fun field => field.2.records) apart isFirst isSecond inFirst inSecond

theorem item_unique {first second : Value} (distinct : (Value.list items).Distinct)
    (isFirst : first ∈ items) (isSecond : second ∈ items) (inFirst : record ∈ first.records)
    (inSecond : record ∈ second.records) : first = second := by
  have apart : ((recordsOfItems items).map identity).Nodup := distinct.apart
  rw [records_of_items_eq] at apart
  exact part_unique records apart isFirst isSecond inFirst inSecond

theorem Distinct.item {item : Value} (distinct : (Value.list items).Distinct) (member : item ∈ items) : item.Distinct := by
  refine distinct.of_sublist ?_
  show item.records.Sublist (recordsOfItems items)
  rw [records_of_items_eq, flatMap_def]
  exact sublist_flatten_of_mem (mem_map_of_mem member)

theorem Distinct.field {id : Nat} {field : String × Value}
    (distinct : (Value.record id fields).Distinct) (member : field ∈ fields) : field.2.Distinct := by
  refine distinct.of_sublist ?_
  show field.2.records.Sublist (_ :: recordsOfFields fields)
  rw [records_of_fields_eq, flatMap_def]
  exact (sublist_flatten_of_mem (mem_map_of_mem (f := fun field => field.2.records) member)).cons _

section
variable {value loop call : Value} {key : String}

theorem round_mem_records (round : key ∈ loop.roundFields) (body : (loop.get key).Holds call)
    (isRecord : call.isRecord = true) : call ∈ loop.records := by
  obtain ⟨id, fields, rfl⟩ := round_fields_record round
  exact mem_cons_of_mem _ ((get_records_sublist fields key).subset (body.mem_records isRecord))

-- By induction on the straight way: wherever it goes, the loop has to be on it too, since
-- what leads to the call is one thing only.
theorem straight_not_looped (distinct : value.Distinct) (straight : value.Straight call)
    (isRecord : call.isRecord = true) (holds : value.Holds loop) (round : key ∈ loop.roundFields)
    (body : (loop.get key).Holds call) : False := by
  have loopRecord : loop.isRecord = true := by
    obtain ⟨id, fields, rfl⟩ := round_fields_record round
    rfl
  have inLoop : ∀ {outer : Value}, loop ∈ outer.records → call ∈ outer.records := fun member =>
    (inner_records_sublist _ loop member).subset (round_mem_records round body isRecord)
  induction straight with
  | self call =>
    obtain ⟨id, fields, rfl⟩ := round_fields_record round
    have inside := (get_records_sublist fields key).subset (body.mem_records isRecord)
    have smaller := inner_records_fields fields call inside
    have larger := inner_records_sublist call _ (holds.mem_records loopRecord)
    have impossible := (larger.trans smaller).length_le
    simp only [records, length_cons] at impossible
    omega
  | item items item call member straight ih =>
    cases holds with
    | self => exact absurd round not_mem_nil
    | item _ other _ isItem holds =>
      have same := item_unique distinct isItem member (inLoop (holds.mem_records loopRecord)) (straight.mem_records isRecord)
      exact ih (distinct.item member) isRecord (same ▸ holds) body inLoop
  | field id fields field call outside member straight ih =>
    have present := straight.mem_records isRecord
    cases holds with
    | self =>
      have inBody := body.mem_records isRecord
      have same := field_unique distinct member (get_eq_of_mem inBody) present inBody
      rw [same] at outside
      exact outside round
    | field _ _ other _ _ isField holds =>
      have same := field_unique distinct isField member (inLoop (holds.mem_records loopRecord)) present
      exact ih (distinct.field member) isRecord (same ▸ holds) body inLoop

end

theorem straight_not_in_loop {root call : Value} (distinct : root.Distinct)
    (straight : ∃ field ∈ root.fields, field.2.Straight call) (isRecord : call.isRecord = true) : ¬ root.InLoop call := by
  rintro ⟨loop, key, ⟨other, isField, holds⟩, round, body⟩
  obtain ⟨field, member, straight⟩ := straight
  obtain ⟨loopId, loopFields, rfl⟩ := round_fields_record round
  cases root with
  | record id fields =>
    have inLoop := (inner_records_sublist _ _ (holds.mem_records rfl)).subset (round_mem_records round body isRecord)
    have same := field_unique distinct isField member inLoop (straight.mem_records isRecord)
    exact straight_not_looped (distinct.field member) straight isRecord (same ▸ holds) round body
  | _ => cases member

end Value

end HookLint
