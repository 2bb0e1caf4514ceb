import Mathlib
import HookLint.Proofs.Tree.Holding

namespace HookLint

open List Option

-- Which nodes may stand in the fields that hold neither expressions nor declarations.
def Kind.admits : Kind → String → Option Kind → Bool
  | .jsxElement, "openingElement", inner => inner = some .jsxOpeningElement
  | .objectExpression, "properties", inner | .objectPattern, "properties", inner => !inner.any Kind.isFunction
  | .variableDeclaration, "declarations", inner => inner = some .variableDeclarator
  | .switchStatement, "cases", inner => inner = some .switchCase
  | .tryStatement, "block", inner | .tryStatement, "finalizer", inner => inner = some .blockStatement
  | .tryStatement, "handler", inner => inner = some .catchClause
  | .program, "body", inner | .blockStatement, "body", inner | .staticBlock, "body", inner
  | .labeledStatement, "body", inner | .whileStatement, "body", inner | .doWhileStatement, "body", inner
  | .forStatement, "body", inner | .forInStatement, "body", inner | .forOfStatement, "body", inner
  | .withStatement, "body", inner | .catchClause, "body", inner
  | .ifStatement, "consequent", inner | .ifStatement, "alternate", inner | .switchCase, "consequent", inner
  | .exportNamedDeclaration, "declaration", inner => inner ≠ some .functionExpression && inner ≠ some .arrowFunction
  | _, _, _ => true

namespace Value

-- A function stands only where an expression or a declaration may stand.
def Orderly (value : Value) : Prop :=
  ∀ node ∈ value.records, ∀ kind, node.kind = some kind → ∀ key, ∀ child ∈ node.get key :: (node.get key).parts,
    child.isRecord = true → kind.admits key child.kind = true

-- It suffices to look at the fields that are there.
def isOrderly (value : Value) : Bool :=
  value.records.all fun node => node.kind.all fun kind => node.fields.all fun field =>
    (field.2 :: field.2.parts).all fun child => !child.isRecord || kind.admits field.1 child.kind

theorem get_mem_fields {node child : Value} {key : String} (isChild : child ∈ node.get key :: (node.get key).parts)
    (isRecord : child.isRecord = true) : (key, node.get key) ∈ node.fields := by
  cases node with
  | record id fields =>
    have inside : child ∈ (Fields.get fields key).records := by
      rcases mem_cons.mp isChild with rfl | isPart
      · exact mem_records_self isRecord
      · exact (parts_records_sublist _).subset (item_records_subset isPart (mem_records_self isRecord))
    exact get_eq_of_mem inside
  | _ =>
    rcases mem_cons.mp isChild with rfl | isPart
    · cases isRecord
    · cases isPart

theorem orderly_of_check {value : Value} (checked : value.isOrderly = true) : value.Orderly := by
  intro node isNode kind isKind key child isChild isRecord
  have each := all_eq_true.mp checked node isNode
  rw [isKind, Option.all_some] at each
  have admitted := all_eq_true.mp (all_eq_true.mp each _ (get_mem_fields isChild isRecord)) child isChild
  simpa [isRecord] using admitted

theorem Orderly.of_sublist {value inner : Value} (orderly : value.Orderly)
    (included : inner.records.Sublist value.records) : inner.Orderly :=
  fun node member => orderly node (included.subset member)

section
variable {id : Nat} {fields : Fields}

theorem Orderly.get (orderly : (Value.record id fields).Orderly) (key : String) : (fields.get key).Orderly :=
  orderly.of_sublist ((get_records_sublist fields key).cons _)

theorem Orderly.admits {kind : Kind} (orderly : (Value.record id fields).Orderly)
    (isKind : (Value.record id fields).kind = some kind) (key : String) (child : Value)
    (member : child ∈ fields.get key :: (fields.get key).parts) (isRecord : child.isRecord = true) : kind.admits key child.kind = true :=
  orderly _ mem_cons_self kind isKind key child member isRecord

theorem keys_count_le (keys : List String) (apart : keys.Nodup) (number : Nat) :
    (keys.map fun key => ((fields.get key).records.map identity).count number).sum ≤
      ((recordsOfFields fields).map identity).count number := by
  induction fields generalizing keys with
  | nil =>
    have none : (keys.map fun key => ((Fields.get [] key).records.map identity).count number) = keys.map fun _ => 0 := rfl
    simp [none]
  | cons field rest ih =>
    obtain ⟨name, value⟩ := field
    have here : Fields.get ((name, value) :: rest) name = value := by simp [Fields.get, Fields.find?]
    have elsewhere (key : String) (other : key ≠ name) : Fields.get ((name, value) :: rest) key = Fields.get rest key := by
      simp [Fields.get, Fields.find?, Ne.symm other]
    rw [recordsOfFields, map_append, count_append]
    by_cases member : name ∈ keys
    · have split := (perm_cons_erase member).map fun key => ((Fields.get ((name, value) :: rest) key).records.map identity).count number
      have others : ((keys.erase name).map fun key =>
          ((Fields.get ((name, value) :: rest) key).records.map identity).count number) =
          (keys.erase name).map fun key => ((Fields.get rest key).records.map identity).count number := by
        refine map_congr_left fun key isKey => ?_
        rw [elsewhere key ((apart.mem_erase_iff.mp isKey).1)]
      rw [split.sum_nat, map_cons, sum_cons, here, others]
      exact Nat.add_le_add_left (ih (keys.erase name) (apart.erase name)) _
    · have others : (keys.map fun key =>
          ((Fields.get ((name, value) :: rest) key).records.map identity).count number) =
          keys.map fun key => ((Fields.get rest key).records.map identity).count number := by
        refine map_congr_left fun key isKey => ?_
        rw [elsewhere key fun same => member (same ▸ isKey)]
      rw [others]
      exact Nat.le_add_left_of_le (ih keys apart)

end

section
variable {root inner : Value}

theorem is_node_record {value : Value} (isNode : value.isNode = true) : value.isRecord = true := by
  cases value with
  | record id fields => rfl
  | _ => cases isNode

theorem child_held (fields : Fields) (child : Value) (member : child ∈ childNodes fields) :
    child.isRecord = true ∧ ∃ field ∈ fields, field.2.Holds child := by
  induction fields with
  | nil => cases member
  | cons field rest ih =>
    obtain ⟨key, value⟩ := field
    rcases mem_append.mp member with first | later
    · unfold fieldNodes at first
      split at first
      · cases first
      split at first
      · rename_i isNode
        rw [mem_singleton.mp first]
        exact ⟨is_node_record isNode, (key, value), mem_cons_self, .self value⟩
      split at first
      · rename_i items _
        obtain ⟨isItem, isNode⟩ := mem_filter.mp first
        exact ⟨is_node_record isNode, (key, .list items), mem_cons_self, .item items child child isItem (.self child)⟩
      · cases first
    · obtain ⟨isRecord, field, isField, holds⟩ := ih later
      exact ⟨isRecord, field, mem_cons_of_mem _ isField, holds⟩

theorem held_by_child {child : Value} (isChild : child ∈ root.children) (own : root.isFunction = false)
    (holds : child.Holds inner) : root.Holds inner := by
  cases root with
  | record id fields =>
    obtain ⟨_, field, isField, held⟩ := child_held fields child isChild
    exact .field id fields field inner own isField (held.trans holds)
  | _ => cases isChild

-- What lies below a node, but not below a function there.
inductive Reaches : Value → Value → Prop where
  | self (node : Value) : Reaches node node
  | inner (node child call : Value) (own : node.isFunction = false) (member : child ∈ node.children)
      (rest : Reaches child call) : Reaches node call

theorem Reaches.holds (reaches : root.Reaches inner) : root.Holds inner := by
  induction reaches with
  | self => exact .self _
  | inner node child call own member _ ih => exact held_by_child member own ih

theorem own_of_open (opens : ¬ root.opensBody = true) : root.isFunction = false := by
  unfold opensBody kindIs at opens
  unfold isFunction kindIs
  cases isKind : root.kind with
  | none => rfl
  | some kind =>
    simp only [isKind, any_some, Bool.or_eq_true, not_or] at opens
    simpa using opens.1

theorem walk_own_all_sublist (stack : List Value) (records : ∀ value ∈ stack, value.isRecord = true) :
    (walkOwnAll stack).Sublist (recordsOfItems stack) := by
  fun_induction walkOwnAll stack with
  | case1 => exact .refl _
  | case2 value rest later inside =>
    obtain ⟨isRecord, others⟩ := forall_mem_cons.mp records
    cases value with
    | record id fields =>
      by_cases opens : (Value.record id fields).opensBody = true
      · rw [if_pos opens]
        exact ((later others).trans (sublist_append_right _ _)).cons_cons _
      rw [if_neg opens]
      have inside := inside fun child member => by
        rcases mem_append.mp member with isChild | isOther
        · exact (child_held fields child isChild).1
        · exact others child isOther
      rw [records_of_items_append] at inside
      exact (inside.trans ((children_records_sublist fields).append_right _)).cons_cons _
    | _ => cases isRecord

theorem walk_own_all_reached (stack : List Value) (node : Value) (member : node ∈ walkOwnAll stack) :
    ∃ value ∈ stack, value.Reaches node := by
  fun_induction walkOwnAll stack with
  | case1 => cases member
  | case2 value rest later inside =>
    rcases mem_cons.mp member with rfl | member
    · exact ⟨node, mem_cons_self, .self node⟩
    by_cases opens : value.opensBody = true
    · rw [if_pos opens] at member
      obtain ⟨other, isOther, reaches⟩ := later member
      exact ⟨other, mem_cons_of_mem _ isOther, reaches⟩
    rw [if_neg opens] at member
    obtain ⟨other, isOther, reaches⟩ := inside member
    rcases mem_append.mp isOther with isChild | isLater
    · exact ⟨value, mem_cons_self, .inner value other node (own_of_open opens) isChild reaches⟩
    · exact ⟨other, mem_cons_of_mem _ isLater, reaches⟩

theorem own_invocations_sublist (isRecord : root.isRecord = true) : root.ownInvocations.Sublist root.records := by
  refine filter_sublist.trans ?_
  cases root with
  | record id fields =>
    refine List.Sublist.cons_cons _ ((walk_own_all_sublist _ fun child member => ?_).trans (children_records_sublist fields))
    exact (child_held fields child member).1
  | _ => cases isRecord

theorem own_invocation_held (member : inner ∈ root.ownInvocations) (own : root.isFunction = false) : root.Holds inner := by
  rcases mem_cons.mp (mem_filter.mp member).1 with rfl | later
  · exact .self inner
  · obtain ⟨child, isChild, reaches⟩ := walk_own_all_reached _ inner later
    exact held_by_child isChild own reaches.holds

end

end Value

end HookLint
