import HookLint.Proofs.Tree.Shape

namespace HookLint.Value

open List

variable {stack : List Value} {motive : Value → Prop}

def isClass (value : Value) : Bool := value.kindIs Kind.isClass

-- What a class holds that is not run where the class stands.
def isClassPart (key : String) : Bool := key = "body" || key = "decorators"

-- The child nodes that are run in place: none of a function, and what a class extends.
def evaluated (node : Value) : List Value :=
  if node.isFunction then [] else childNodes (node.fields.filter fun field => !(node.isClass && isClassPart field.1))

-- What is run when a node is run.
inductive Evaluates : Value → Value → Prop where
  | self (node : Value) : Evaluates node node
  | inner (node child call : Value) (member : child ∈ node.evaluated) (rest : Evaluates child call) : Evaluates node call

-- The nearest function or program around a node.
def Encloses (outer inner : Value) : Prop := ∃ child ∈ outer.children, child.Reaches inner

-- What runs in a function or program itself.
def Runs (root call : Value) : Prop := ∃ child ∈ root.children, child.Evaluates call

-- A place in the body of a class or in its decorators, but in no function there.
def InClassBody (program inner : Value) : Prop :=
  ∃ owner ∈ program.walk, owner.isClass = true ∧
    ∃ field ∈ owner.fields, isClassPart field.1 = true ∧ ∃ part ∈ fieldNodes field.1 field.2, part.Reaches inner

section
variable {root node child call : Value}

theorem mem_child_nodes {fields : Fields} : child ∈ childNodes fields ↔ ∃ field ∈ fields, child ∈ fieldNodes field.1 field.2 := by
  induction fields with
  | nil => simp [childNodes]
  | cons field rest ih =>
    obtain ⟨key, value⟩ := field
    simp only [childNodes, mem_append, ih, exists_mem_cons_iff]

theorem mem_evaluated (own : node.isFunction = false) : child ∈ node.evaluated ↔
    ∃ field ∈ node.fields, (node.isClass && isClassPart field.1) = false ∧ child ∈ fieldNodes field.1 field.2 := by
  simp only [evaluated, own, Bool.false_eq_true, if_false, mem_child_nodes, mem_filter, Bool.not_eq_true', and_assoc]

theorem Reaches.trans (first : root.Reaches node) (second : node.Reaches call) : root.Reaches call := by
  induction first with
  | self => exact second
  | inner node child _ own member _ ih => exact .inner node child call own member (ih second)

theorem mem_walk_all_of_mem (member : node ∈ stack) : node ∈ walkAll stack := by
  fun_induction walkAll stack with
  | case1 => cases member
  | case2 value rest ih =>
    rcases mem_cons.mp member with rfl | later
    · exact mem_cons_self
    · exact mem_cons_of_mem _ (ih (mem_append_right _ later))

theorem child_mem_walk_all (member : node ∈ walkAll stack) (isChild : child ∈ node.children) : child ∈ walkAll stack := by
  fun_induction walkAll stack with
  | case1 => cases member
  | case2 value rest ih =>
    refine mem_cons_of_mem _ ?_
    rcases mem_cons.mp member with rfl | later
    · exact mem_walk_all_of_mem (mem_append_left _ isChild)
    · exact ih later

theorem mem_walk_self (root : Value) : root ∈ root.walk := mem_walk_all_of_mem mem_cons_self

theorem child_mem_walk (member : node ∈ root.walk) (isChild : child ∈ node.children) : child ∈ root.walk :=
  child_mem_walk_all member isChild

theorem walk_all_induction (step : ∀ node child, motive node → child ∈ node.children → motive child)
    (start : ∀ node ∈ stack, motive node) (member : node ∈ walkAll stack) : motive node := by
  fun_induction walkAll stack with
  | case1 => cases member
  | case2 value rest ih =>
    obtain ⟨first, others⟩ := forall_mem_cons.mp start
    rcases mem_cons.mp member with rfl | later
    · exact first
    · refine ih (fun node isNode => ?_) later
      exact (mem_append.mp isNode).elim (step value node first) (others node)

theorem walk_induction (start : motive root) (step : ∀ node child, node ∈ root.walk → motive node → child ∈ node.children → motive child)
    (member : node ∈ root.walk) : motive node := by
  have both : node ∈ root.walk ∧ motive node := by
    refine walk_all_induction (motive := fun node => node ∈ root.walk ∧ motive node) (fun node child known isChild => ?_) ?_ member
    · exact ⟨child_mem_walk known.1 isChild, step node child known.1 known.2 isChild⟩
    · simpa using ⟨mem_walk_self root, start⟩
  exact both.2

theorem child_mem_records (isChild : child ∈ node.children) : child ∈ node.records := by
  cases node with
  | record id fields =>
    obtain ⟨isRecord, field, isField, holds⟩ := child_held fields child isChild
    exact mem_cons_of_mem _ (field_records_subset isField (holds.mem_records isRecord))
  | _ => cases isChild

theorem walk_mem_records (isRecord : root.isRecord = true) (member : node ∈ root.walk) : node ∈ root.records :=
  walk_induction (mem_records_self isRecord)
    (fun node _ _ inside isChild => (inner_records_sublist root node inside).subset (child_mem_records isChild)) member

theorem reached_evaluated (isNode : node ∈ root.walk) (reaches : node.Reaches call) (outside : ¬ root.InClassBody call) :
    node.Evaluates call := by
  induction reaches with
  | self => exact .self _
  | inner node child call own member rest ih =>
    obtain ⟨field, isField, inside⟩ := mem_child_nodes.mp member
    refine .inner node child call ((mem_evaluated own).mpr ⟨field, isField, ?_, inside⟩) (ih (child_mem_walk isNode member) outside)
    refine Bool.eq_false_iff.mpr fun isPart => outside ?_
    obtain ⟨isClass, isPart⟩ := Bool.and_eq_true_iff.mp isPart
    exact ⟨node, isNode, isClass, field, isField, isPart, child, inside, rest⟩

theorem Encloses.runs (isNode : node ∈ root.walk) (encloses : node.Encloses call) (outside : ¬ root.InClassBody call) : node.Runs call := by
  obtain ⟨child, isChild, reaches⟩ := encloses
  exact ⟨child, isChild, reached_evaluated (child_mem_walk isNode isChild) reaches outside⟩

theorem Encloses.owns (encloses : node.Encloses call) : node.Owns call := by
  obtain ⟨child, isChild, reaches⟩ := encloses
  cases node with
  | record id fields =>
    obtain ⟨_, field, isField, holds⟩ := child_held fields child isChild
    exact ⟨field, isField, holds.trans reaches.holds⟩
  | _ => cases isChild

end

theorem walk_all_sublist (stack : List Value) (records : ∀ value ∈ stack, value.isRecord = true) :
    (walkAll stack).Sublist (recordsOfItems stack) := by
  fun_induction walkAll stack with
  | case1 => exact .refl _
  | case2 value rest ih =>
    obtain ⟨isRecord, others⟩ := forall_mem_cons.mp records
    cases value with
    | record id fields =>
      have inside := ih fun child member => by
        rcases mem_append.mp member with isChild | isOther
        · exact (child_held fields child isChild).1
        · exact others child isOther
      rw [records_of_items_append] at inside
      exact (inside.trans ((children_records_sublist fields).append_right _)).cons_cons _
    | _ => cases isRecord

theorem walk_apart {root : Value} (isRecord : root.isRecord = true) (distinct : root.Distinct) : (root.walk.map identity).Nodup := by
  have included := walk_all_sublist [root] (by simpa using isRecord)
  rw [recordsOfItems, recordsOfItems, append_nil] at included
  exact (included.map identity).nodup distinct.apart

-- Two records that both hold a third lie one in the other.
theorem nested_records {first second call : Value} (inFirst : call ∈ first.records) (inSecond : call ∈ second.records) (value : Value)
    (distinct : value.Distinct) (isFirst : first ∈ value.records) (isSecond : second ∈ value.records) :
    first ∈ second.records ∨ second ∈ first.records := by
  match value with
  | .record id fields =>
    rcases mem_cons.mp isFirst with rfl | innerFirst
    · exact .inr isSecond
    rcases mem_cons.mp isSecond with rfl | innerSecond
    · exact .inl isFirst
    rw [records_of_fields_eq] at innerFirst
    obtain ⟨⟨key, part⟩, isField, inside⟩ := mem_flatMap.mp innerFirst
    have smaller := sizeOf_lt_of_mem isField
    have present := (inner_records_sublist part first inside).subset inFirst
    exact nested_records inFirst inSecond part (distinct.field isField) inside (held_by_field distinct isField innerSecond inSecond present)
  | .list items =>
    have innerFirst : first ∈ recordsOfItems items := isFirst
    rw [records_of_items_eq] at innerFirst
    obtain ⟨item, isItem, inside⟩ := mem_flatMap.mp innerFirst
    have smaller := sizeOf_lt_of_mem isItem
    have present := (inner_records_sublist item first inside).subset inFirst
    exact nested_records inFirst inSecond item (distinct.item isItem) inside (held_by_item distinct.apart isSecond inSecond isItem present)
  | .null | .bool _ | .int _ | .float _ | .str _ => cases isFirst
termination_by sizeOf value
decreasing_by all_goals simp_all; omega

section
variable {value outer inner call : Value}

mutual
theorem is_record_of_mem_records (value record : Value) (member : record ∈ value.records) : record.isRecord = true := by
  match value with
  | .record id fields =>
    rcases mem_cons.mp member with rfl | inside
    · rfl
    · exact is_record_of_mem_fields fields record inside
  | .list items => exact is_record_of_mem_items items record member
  | .null | .bool _ | .int _ | .float _ | .str _ => cases member
theorem is_record_of_mem_items (items : List Value) (record : Value) (member : record ∈ recordsOfItems items) : record.isRecord = true := by
  match items with
  | [] => cases member
  | item :: rest => exact (mem_append.mp member).elim (is_record_of_mem_records item record) (is_record_of_mem_items rest record)
theorem is_record_of_mem_fields (fields : List (String × Value)) (record : Value)
    (member : record ∈ recordsOfFields fields) : record.isRecord = true := by
  match fields with
  | [] => cases member
  | (_, value) :: rest =>
    exact (mem_append.mp member).elim (is_record_of_mem_records value record) (is_record_of_mem_fields rest record)
end

theorem records_antisymm (first : outer ∈ inner.records) (second : inner ∈ outer.records) : outer = inner := by
  have same := (inner_records_sublist inner outer first).antisymm (inner_records_sublist outer inner second)
  have isFirst := is_record_of_mem_records inner outer first
  have isSecond := is_record_of_mem_records outer inner second
  cases outer <;> cases isFirst
  cases inner <;> cases isSecond
  exact (List.cons.inj same).1

theorem Owns.mem_records (owns : value.Owns call) (isRecord : call.isRecord = true) : call ∈ value.records := by
  obtain ⟨field, isField, holds⟩ := owns
  cases value with
  | record id fields => exact mem_cons_of_mem _ (field_records_subset isField (holds.mem_records isRecord))
  | _ => cases isField

end

end HookLint.Value
