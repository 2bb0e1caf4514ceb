import HookLint.Proofs.Tree.Enclosing

/-!
The loops that go through a tree with a stack, and the recursion they stand for. Main statement: in a
tree without shared nodes the walk is the recursive listing of the nodes, the walk of what is a
root's own leaves out what lies inside a nested function or class, and the table of parents holds the
one parent of each node but the root.
-/

namespace HookLint.Value

open List

variable {root node child : Value} {stack : List Value}

mutual
/-- A node, then those that its fields hold, field after field. -/
def preorder : Value → List Value
  | .record id fields => .record id fields :: preorderOfFields fields
  | other => [other]
def preorderOfFields : List (String × Value) → List Value
  | [] => []
  | (key, .record id fields) :: rest =>
    (if childless.contains key || !isNode (.record id fields) then [] else preorder (.record id fields)) ++ preorderOfFields rest
  | (key, .list items) :: rest => (if childless.contains key then [] else preorderOfItems items) ++ preorderOfFields rest
  | _ :: rest => preorderOfFields rest
def preorderOfItems : List Value → List Value
  | [] => []
  | item :: rest => (if item.isNode then item.preorder else []) ++ preorderOfItems rest
end

-- A tree in which no node stands in two places: what the nodes have as children are different nodes,
-- and none of them is the root.
structure Unshared (root : Value) : Prop where
  counted : ∀ node ∈ root.preorder, node.identity ≠ 0
  apart : ((root :: root.preorder.flatMap children).map identity).Nodup

-- A function or class lies strictly between a root and a node.
def Hidden (root node : Value) : Prop :=
  ∃ outer ∈ root.preorder, outer ≠ root ∧ outer ≠ node ∧ outer.opensBody = true ∧ node ∈ outer.preorder

theorem preorder_items (items : List Value) : preorderOfItems items = (items.filter isNode).flatMap preorder := by
  induction items with
  | nil => rfl
  | cons item rest ih =>
    rw [preorderOfItems, ih, filter_cons]
    split <;> rfl

theorem preorder_fields (fields : Fields) : preorderOfFields fields = (childNodes fields).flatMap preorder := by
  induction fields with
  | nil => rfl
  | cons field rest ih =>
    obtain ⟨key, value⟩ := field
    rw [childNodes, flatMap_append, ← ih]
    cases value with
    | record id fields =>
      refine congrArg (· ++ _) ?_
      unfold fieldNodes
      cases childless.contains key <;> cases isNode (.record id fields) <;> first | rfl | exact (append_nil _).symm
    | list items =>
      refine congrArg (· ++ _) ?_
      rw [preorder_items]
      unfold fieldNodes
      cases childless.contains key <;> rfl
    | _ =>
      unfold fieldNodes
      cases childless.contains key <;> rfl

theorem preorder_eq (node : Value) : node.preorder = node :: node.children.flatMap preorder := by
  cases node with
  | record id fields => rw [preorder, preorder_fields]; rfl
  | _ => rfl

theorem walk_all_eq (stack : List Value) : walkAll stack = stack.flatMap preorder := by
  fun_induction walkAll stack with
  | case1 => rfl
  | case2 value rest ih => rw [ih, flatMap_append, flatMap_cons, preorder_eq value, cons_append]

theorem walk_eq (root : Value) : root.walk = root.preorder := by rw [walk, walk_all_eq, flatMap_singleton]

theorem walk_all_append (first second : List Value) : walkAll (first ++ second) = walkAll first ++ walkAll second := by
  rw [walk_all_eq, walk_all_eq, walk_all_eq, flatMap_append]

theorem walk_cons (root : Value) : root.walk = root :: walkAll root.children := by rw [walk, walkAll, append_nil]

theorem walk_subset_all (member : node ∈ walkAll stack) : node.walk ⊆ walkAll stack :=
  fun _ inside => walk_induction member (fun _ _ _ known isChild => child_mem_walk_all known isChild) inside

theorem root_or_child (member : node ∈ root.walk) : node = root ∨ ∃ parent ∈ root.walk, node ∈ parent.children :=
  walk_induction (motive := fun node => node = root ∨ ∃ parent ∈ root.walk, node ∈ parent.children) (.inl rfl)
    (fun parent _ isParent _ isChild => .inr ⟨parent, isParent, isChild⟩) member

-- Each node of a walk is on the stack or a child of one node of the walk.
theorem walk_all_perm (stack : List Value) : (walkAll stack).Perm (stack ++ (walkAll stack).flatMap children) := by
  fun_induction walkAll stack with
  | case1 => exact .refl _
  | case2 value rest ih =>
    rw [cons_append, flatMap_cons, ← append_assoc]
    exact (ih.trans (perm_append_comm.append_right _)).cons value

section
variable (unshared : root.Unshared)
include unshared

theorem Unshared.once : (root.walk.map identity).Nodup := by
  rw [walk, ((walk_all_perm [root]).map identity).nodup_iff, ← walk, walk_eq]
  exact unshared.apart

theorem Unshared.parent_eq {first second one other : Value} (isFirst : first ∈ root.walk) (isSecond : second ∈ root.walk)
    (isOne : one ∈ first.children) (isOther : other ∈ second.children) (same : one.identity = other.identity) : first = second := by
  have inner : one = other :=
    inj_on_of_nodup_map unshared.once (child_mem_walk isFirst isOne) (child_mem_walk isSecond isOther) same
  have apart := (nodup_cons.mp unshared.apart).2
  rw [← walk_eq] at apart
  exact part_unique children apart isFirst isSecond isOne (inner ▸ isOther)

theorem Unshared.rooted (isNode : node ∈ root.walk) (isChild : child ∈ node.children) : child ≠ root := by
  rintro rfl
  refine (nodup_cons.mp unshared.apart).1 (mem_map_of_mem (mem_flatMap.mpr ⟨node, ?_, isChild⟩))
  rwa [← walk_eq]

end

-- A function or class among the nodes from a stack lies strictly around a node.
def Veiled (stack : List Value) (node : Value) : Prop :=
  ∃ outer ∈ walkAll stack, outer ≠ node ∧ outer.opensBody = true ∧ node ∈ outer.walk

section
variable {value : Value} {rest : List Value}

theorem veiled_cons : Veiled (value :: rest) node ↔
    (value ≠ node ∧ value.opensBody = true ∧ node ∈ value.walk) ∨ Veiled (value.children ++ rest) node := by
  rw [Veiled, walkAll, exists_mem_cons_iff, Veiled]

theorem not_veiled_first (alone : value ∉ walkAll (value.children ++ rest)) : ¬ Veiled (value :: rest) value := by
  rw [veiled_cons]
  rintro (⟨different, -⟩ | ⟨outer, isOuter, -, -, inside⟩)
  · exact different rfl
  · exact alone (walk_subset_all isOuter inside)

theorem veiled_beside (away : node ∉ walkAll value.children) : Veiled (value :: rest) node ↔ Veiled rest node := by
  rw [veiled_cons, or_iff_right, Veiled, walk_all_append]
  · constructor
    · rintro ⟨outer, isOuter, different, opens, inside⟩
      refine ⟨outer, (mem_append.mp isOuter).resolve_left fun below => away ?_, different, opens, inside⟩
      exact walk_subset_all below inside
    · rintro ⟨outer, isOuter, around⟩
      exact ⟨outer, mem_append_right _ isOuter, around⟩
  · rintro ⟨different, -, inside⟩
    rw [walk_cons] at inside
    exact away ((mem_cons.mp inside).resolve_left different.symm)

end

section
open Classical

theorem walk_own_all_eq (stack : List Value) (apart : (walkAll stack).Nodup) :
    walkOwnAll stack = (walkAll stack).filter fun node => ¬ Veiled stack node := by
  fun_induction walkOwnAll stack with
  | case1 => rw [walkAll, filter_nil]
  | case2 value rest outside inside =>
    rw [walkAll, nodup_cons] at apart
    obtain ⟨alone, apart⟩ := apart
    rw [walkAll, filter_cons, if_pos (decide_eq_true (not_veiled_first alone))]
    refine congrArg _ ?_
    by_cases opens : value.opensBody = true
    · rw [if_pos opens]
      rw [walk_all_append] at alone apart ⊢
      obtain ⟨-, others, disjoint⟩ := nodup_append'.mp apart
      rw [filter_append, filter_eq_nil_iff.mpr, nil_append, outside others]
      · refine filter_congr fun node isNode => decide_eq_decide.mpr (not_congr ?_)
        exact (veiled_beside fun again => disjoint again isNode).symm
      · intro node isNode
        have shown : Veiled (value :: rest) node := by
          refine veiled_cons.mpr (.inl ⟨fun same => alone (mem_append_left _ (same ▸ isNode)), opens, ?_⟩)
          rw [walk_cons]
          exact mem_cons_of_mem _ isNode
        simpa using shown
    · rw [if_neg opens, inside apart]
      refine filter_congr fun node _ => decide_eq_decide.mpr (not_congr ?_)
      rw [veiled_cons, or_iff_right fun known => opens known.2.1]

theorem hidden_iff (alone : root ∉ walkAll root.children) : root.Hidden node ↔ Veiled root.children node := by
  constructor
  · rintro ⟨outer, isOuter, inner, different, opens, inside⟩
    rw [← walk_eq] at isOuter inside
    rw [walk_cons] at isOuter
    exact ⟨outer, (mem_cons.mp isOuter).resolve_left inner, different, opens, inside⟩
  · rintro ⟨outer, isOuter, different, opens, inside⟩
    refine ⟨outer, ?_, fun same => alone (same ▸ isOuter), different, opens, walk_eq outer ▸ inside⟩
    rw [← walk_eq, walk_cons]
    exact mem_cons_of_mem _ isOuter

theorem walk_own_eq (apart : root.walk.Nodup) : root.walkOwn = root.walk.filter fun node => ¬ root.Hidden node := by
  rw [walk_cons, nodup_cons] at apart
  have shown : ¬ root.Hidden root := by
    rw [hidden_iff apart.1]
    rintro ⟨outer, isOuter, -, -, inside⟩
    exact apart.1 (walk_subset_all isOuter inside)
  rw [walkOwn, walk_own_all_eq _ apart.2, walk_cons, filter_cons, if_pos (decide_eq_true shown)]
  exact congrArg _ (filter_congr fun node _ => decide_eq_decide.mpr (not_congr (hidden_iff apart.1).symm))

end

theorem parents_all_perm (stack : List Value) (found : List (Nat × Value)) : (parentsAll stack found).Perm
    (found ++ (walkAll stack).flatMap fun parent => parent.children.filterMap fun child => child.id?.map (·, parent)) := by
  fun_induction parentsAll stack found with
  | case1 found => rw [walkAll, flatMap_nil, append_nil]
  | case2 parent rest found ih =>
    have turned : (walkAll (parent.children.reverse ++ rest)).Perm (walkAll (parent.children ++ rest)) := by
      rw [walk_all_eq, walk_all_eq]
      exact ((reverse_perm _).append_right _).flatMap_right _
    rw [walkAll, flatMap_cons, ← append_assoc]
    exact ih.trans (perm_append_comm.append (turned.flatMap_right _))

section
variable {id : Nat} {parent : Value} {entries : List (Nat × Value)}

theorem mem_parents :
    (id, parent) ∈ root.parents ↔ ∃ child ∈ parent.children, child.id? = some id ∧ parent ∈ root.walk := by
  rw [parents, (parents_all_perm [root] []).mem_iff, nil_append, mem_flatMap]
  constructor
  · rintro ⟨other, isOther, entry⟩
    obtain ⟨child, isChild, entry⟩ := mem_filterMap.mp entry
    obtain ⟨number, isNumber, entry⟩ := Option.map_eq_some_iff.mp entry
    cases entry
    exact ⟨child, isChild, isNumber, isOther⟩
  · rintro ⟨child, isChild, isNumber, isParent⟩
    exact ⟨parent, isParent, mem_filterMap.mpr ⟨child, isChild, by rw [isNumber, Option.map_some]⟩⟩

theorem mem_of_lookup (found : entries.lookup id = some parent) : (id, parent) ∈ entries := by
  obtain ⟨before, after, isList, _⟩ := lookup_eq_some_iff.mp found
  rw [isList]
  exact mem_append_right _ mem_cons_self

theorem lookup_of_mem (present : (id, parent) ∈ entries)
    (only : ∀ other, (id, other) ∈ entries → other = parent) : entries.lookup id = some parent := by
  cases found : entries.lookup id with
  | none => exact absurd rfl (bne_iff_ne.mp (lookup_eq_none_iff.mp found _ present))
  | some other => rw [only other (mem_of_lookup found)]

theorem id_of_identity (counted : node.identity ≠ 0) : node.id? = some node.identity := by
  cases node with
  | record id fields => exact if_neg counted
  | _ => exact absurd rfl counted

theorem identity_of_id (isId : node.id? = some id) : node.identity = id := by
  cases node with
  | record number fields =>
    rw [Value.id?] at isId
    split at isId
    · cases isId
    · exact Option.some.inj isId
  | _ => cases isId

end

section
open Classical

theorem traversals_recursive (root : Value) (unshared : root.Unshared) :
    root.walk = root.preorder ∧ (root.walk.map identity).Nodup ∧
    root.walkOwn = root.preorder.filter (fun node => ¬ root.Hidden node) ∧
    (∀ node ∈ root.walk, node ≠ root → ∃ parent ∈ root.walk, node ∈ parent.children ∧
      root.parents.lookup node.identity = some parent ∧ ∀ other ∈ root.walk, node ∈ other.children → other = parent) ∧
    ∀ id parent, root.parents.lookup id = some parent → ∃ node ∈ root.walk, node ≠ root ∧ node.identity = id := by
  have once := unshared.once
  refine ⟨walk_eq root, once, ?_, fun node isNode inner => ?_, fun id parent found => ?_⟩
  · rw [walk_own_eq (Nodup.of_map identity once), walk_eq]
  · obtain ⟨parent, isParent, isChild⟩ := (root_or_child isNode).resolve_left inner
    have counted := unshared.counted node (walk_eq root ▸ isNode)
    have entry : (node.identity, parent) ∈ root.parents := mem_parents.mpr ⟨node, isChild, id_of_identity counted, isParent⟩
    refine ⟨parent, isParent, isChild, lookup_of_mem entry fun other known => ?_, fun other isOther inOther => ?_⟩
    · obtain ⟨child, inOther, isId, isOther⟩ := mem_parents.mp known
      exact unshared.parent_eq isOther isParent inOther isChild (identity_of_id isId)
    · exact unshared.parent_eq isOther isParent inOther isChild rfl
  · obtain ⟨node, isNode, isId, isParent⟩ := mem_parents.mp (mem_of_lookup found)
    exact ⟨node, child_mem_walk isParent isNode, unshared.rooted isParent isNode, identity_of_id isId⟩

def viewBody : Value := .record 3 [("type", .str "ClassBody"), ("body", .list [])]

def viewClass : Value := .record 2 [("type", .str "ClassDeclaration"), ("id", .null), ("body", viewBody)]

def viewProgram : Value := .record 1 [("type", .str "Program"), ("body", .list [viewClass])]

theorem class_body_left_out : viewProgram.Unshared ∧ viewBody ∈ viewProgram.walk ∧ viewBody ∉ viewProgram.walkOwn := by
  have nodes : viewProgram.preorder = [viewProgram, viewClass, viewBody] := rfl
  have children : viewProgram.children = [viewClass] ∧ viewClass.children = [viewBody] ∧ viewBody.children = [] := ⟨rfl, rfl, rfl⟩
  have numbers : viewProgram.identity = 1 ∧ viewClass.identity = 2 ∧ viewBody.identity = 3 := ⟨rfl, rfl, rfl⟩
  have unshared : viewProgram.Unshared := by constructor <;> simp [nodes, children, numbers]
  obtain ⟨walks, _, owns, _⟩ := traversals_recursive viewProgram unshared
  refine ⟨unshared, by simp [walks, nodes], fun own => ?_⟩
  rw [owns, mem_filter] at own
  exact of_decide_eq_true own.2 ⟨viewClass, by simp [nodes], by rintro ⟨⟩, by rintro ⟨⟩, rfl, mem_cons_of_mem _ mem_cons_self⟩

end

end HookLint.Value
