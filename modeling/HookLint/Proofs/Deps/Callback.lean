import HookLint.Hook.Site
import HookLint.Proofs.Scope.Surveyed

namespace HookLint

open List

variable {item node place program value : Value} {test : Kind → Bool}

namespace Value

theorem filed_kind_is_ok {answer : Bool} (filed : node.filedKindIs test = .ok answer) : node.kindIs test = answer := by
  obtain ⟨kind, isKind, same⟩ := bind_ok filed
  rw [kindIs, filed_kind isKind]
  exact Except.ok.inj same

theorem is_node_of_kind (isKind : value.kindIs test = true) : value.isNode = true := by
  unfold kindIs kind at isKind
  unfold isNode
  cases word : value.kind? with
  | none =>
    rw [word] at isKind
    cases isKind
  | some text => rfl

section
variable {fields : Fields} {key : String} {item : Value}

theorem get_among_children (isNode : (fields.get key).isNode = true) (plain : childless.contains key = false) :
    fields.get key ∈ childNodes fields := by
  have present := get_eq_of_mem (mem_records_self (is_node_record isNode))
  refine mem_child_nodes.mpr ⟨_, present, ?_⟩
  unfold fieldNodes
  rw [plain, isNode]
  exact mem_singleton.mpr rfl

theorem part_among_children (isItem : item ∈ (fields.get key).parts) (isNode : item.isNode = true)
    (plain : childless.contains key = false) : item ∈ childNodes fields := by
  have inside := item_records_subset isItem (mem_records_self (is_node_record isNode))
  have present := get_eq_of_mem ((parts_records_sublist _).subset inside)
  refine mem_child_nodes.mpr ⟨_, present, ?_⟩
  generalize fields.get key = value at isItem
  cases value with
  | list items =>
    rw [fieldNodes, plain]
    exact mem_filter.mpr ⟨isItem, isNode⟩
  | _ => cases isItem

end

end Value

namespace Survey

open Scopes

section
variable {callback : Value}

theorem unwrapped_node (run : node.unwrap = .ok callback) (isNode : callback.isNode = true) : node.isNode = true := by
  cases node with
  | record id fields =>
    rw [Value.unwrap] at run
    obtain ⟨wraps, filed, run⟩ := bind_ok run
    cases wraps with
    | false =>
      cases run
      exact isNode
    | true => exact Value.is_node_of_kind (Value.filed_kind_is_ok filed)
  | _ =>
    simp only [Value.unwrap] at run
    cases run
    cases isNode

theorem unwrapped_held (node : Value) (run : node.unwrap = .ok callback) (isFunction : callback.isFunction = true) :
    callback = node ∨ ∃ holder ∈ node.records, callback = holder.get "expression" := by
  match node with
  | .record id fields =>
    rw [Value.unwrap] at run
    obtain ⟨wraps, filed, run⟩ := bind_ok run
    cases wraps with
    | false =>
      cases run
      exact .inl rfl
    | true =>
      have smaller := Value.sizeOf_get_record id fields "expression"
      rcases unwrapped_held (Fields.get fields "expression") run isFunction with same | ⟨holder, isHolder, same⟩
      · exact .inr ⟨.record id fields, mem_cons_self, same⟩
      · exact .inr ⟨holder, mem_cons_of_mem _ ((Value.get_records_sublist fields "expression").subset isHolder), same⟩
  | .null | .bool _ | .int _ | .float _ | .str _ | .list _ =>
    simp only [Value.unwrap] at run
    cases run
    cases isFunction
termination_by sizeOf node
decreasing_by exact smaller

theorem unwrapped_inside (node : Value) (run : node.unwrap = .ok callback) (isFunction : callback.isFunction = true) :
    callback ∈ node.records := by
  have isRecord := Value.is_node_record (Value.is_node_of_kind isFunction)
  rcases unwrapped_held node run isFunction with rfl | ⟨holder, isHolder, rfl⟩
  · exact Value.mem_records_self isRecord
  · exact (Value.inner_records_sublist _ _ isHolder).subset ((get_records_inside holder "expression").subset (Value.mem_records_self isRecord))

end

end Survey

namespace Site

open Scopes Survey

variable {site : Site} {index argument : Value}

theorem item_ok (run : value.item place = .ok item) : value.isRecord = false ∧ ∃ items, value.items = .ok items ∧ item ∈ items := by
  unfold Value.item at run
  cases isRecord : value.isRecord with
  | true =>
    rw [isRecord] at run
    cases run
  | false =>
    rw [isRecord] at run
    obtain ⟨items, isItems, run⟩ := bind_ok run
    obtain ⟨number, _, run⟩ := bind_ok run
    dsimp only at run
    split at run
    · rename_i found
      cases run
      generalize (if number < 0 then number + items.length else number) = place at found
      split at found
      · cases found
      · exact ⟨rfl, items, isItems, mem_of_getElem? found⟩
    · cases run

theorem node_listed (run : value.item place = .ok item) (isNode : item.isNode = true) : item ∈ value.parts := by
  obtain ⟨notRecord, items, isItems, member⟩ := item_ok run
  cases value with
  | record id fields => cases notRecord
  | list own =>
    cases isItems
    exact member
  | str text =>
    cases isItems
    obtain ⟨letter, _, rfl⟩ := mem_map.mp member
    cases isNode
  | _ => cases isItems

theorem argument_listed (run : site.argument index = .ok argument) (isNode : argument.isNode = true) :
    argument ∈ (site.call.get "arguments").parts := by
  obtain ⟨found, isFound, run⟩ := bind_ok run
  cases run
  cases found with
  | none => cases isNode
  | some item =>
    unfold Value.itemBefore? at isFound
    split at isFound
    · cases isFound
    obtain ⟨size, _, isFound⟩ := bind_ok isFound
    obtain ⟨before, _, isFound⟩ := bind_ok isFound
    cases before with
    | false => cases isFound
    | true =>
      obtain ⟨item, isItem, isFound⟩ := bind_ok isFound
      cases isFound
      have listed := node_listed isItem isNode
      split at listed
      · exact listed
      · cases listed

end Site

end HookLint
