import HookLint.Proofs.Tree.Traversal
import HookLint.Scope.Query

/-!
The nodes around a node of a tree, from the inside out. Main statements: a node has one parent, and
climbing the table of parents leads through all nodes around it.
-/

namespace HookLint

open List Option

namespace Value

variable {program node parent child : Value}

theorem Distinct.id (distinct : program.Distinct) (member : node ∈ program.records) : node.id? = some node.identity :=
  id_of_identity (distinct.counted _ member)

theorem not_in_own_fields {id : Nat} {fields : Fields} (distinct : (Value.record id fields).Distinct) :
    Value.record id fields ∉ recordsOfFields fields :=
  fun member => (nodup_cons.mp distinct.apart).1 (mem_map_of_mem member)

-- A record that stands in a field, by itself or in a list.
def Field (node child : Value) (field : String × Value) : Prop :=
  field ∈ node.fields ∧ child ∈ field.2 :: field.2.parts ∧ child.isRecord = true

theorem Field.of_child (isChild : child ∈ node.children) : ∃ field, node.Field child field := by
  obtain ⟨field, isField, isNode⟩ := mem_child_nodes.mp isChild
  refine ⟨field, isField, ?_, is_record_of_mem_records _ _ (child_mem_records isChild)⟩
  unfold fieldNodes at isNode
  split at isNode
  · cases isNode
  split at isNode
  · exact mem_cons.mpr (.inl (mem_singleton.mp isNode))
  · split at isNode
    · next items isList => exact isList ▸ mem_cons_of_mem _ (mem_filter.mp isNode).1
    · cases isNode

section
variable {field : String × Value} (stands : node.Field child field)
include stands

theorem Field.inside : child ∈ field.2.records := by
  rcases mem_cons.mp stands.2.1 with same | isPart
  · exact same ▸ mem_records_self stands.2.2
  · exact (parts_records_sublist _).subset (item_records_subset isPart (mem_records_self stands.2.2))

theorem Field.below (distinct : node.Distinct) : child ∈ node.records ∧ child ≠ node := by
  cases node with
  | record id fields =>
    have deeper := field_records_subset stands.1 stands.inside
    exact ⟨mem_cons_of_mem _ deeper, fun same => not_in_own_fields distinct (same ▸ deeper)⟩
  | _ => cases stands.1

-- What lies between a node and what stands in it is one of the two.
theorem Field.next {middle : Value} (distinct : node.Distinct) (inside : middle ∈ node.records) (holds : child ∈ middle.records) :
    middle = node ∨ middle = child := by
  cases node with
  | record id fields =>
    refine (mem_cons.mp inside).imp_right fun deeper => records_antisymm ?_ holds
    have around := held_by_field distinct stands.1 deeper holds stands.inside
    rcases mem_cons.mp stands.2.1 with same | isPart
    · exact same ▸ around
    · obtain ⟨key, value⟩ := field
      cases value with
      | list items => exact held_by_item (distinct.field stands.1).apart around holds isPart (mem_records_self stands.2.2)
      | _ => cases isPart
  | _ => cases stands.1

end

theorem Field.unique {first second : Value} {one other : String × Value} (distinct : program.Distinct) (isFirst : first ∈ program.records)
    (isSecond : second ∈ program.records) (inFirst : first.Field child one) (inSecond : second.Field child other) :
    first = second ∧ one = other := by
  have step {outer inner : Value} {one other : String × Value} (isOuter : outer ∈ program.records) (inOuter : outer.Field child one)
      (inInner : inner.Field child other) (isInner : inner ∈ outer.records) : inner = outer := by
    have below := inInner.below ((distinct.of_mem isOuter).of_mem isInner)
    exact (inOuter.next (distinct.of_mem isOuter) isInner below.1).resolve_right below.2.symm
  have same : first = second := by
    rcases nested_records (inFirst.below (distinct.of_mem isFirst)).1 (inSecond.below (distinct.of_mem isSecond)).1 program distinct
      isFirst isSecond with inside | inside
    · exact step isSecond inSecond inFirst inside
    · exact (step isFirst inFirst inSecond inside).symm
  subst same
  refine ⟨rfl, ?_⟩
  cases first with
  | record id fields => exact field_unique (distinct.of_mem isFirst) inFirst.1 inSecond.1 inFirst.inside inSecond.inside
  | _ => cases inFirst.1

theorem not_own_child (distinct : node.Distinct) : node ∉ node.children := by
  intro isChild
  obtain ⟨_, stands⟩ := Field.of_child isChild
  exact (stands.below distinct).2 rfl

theorem parent_unique {first second : Value} (distinct : program.Distinct) (isFirst : first ∈ program.records)
    (isSecond : second ∈ program.records) (inFirst : child ∈ first.children) (inSecond : child ∈ second.children) : first = second := by
  obtain ⟨_, one⟩ := Field.of_child inFirst
  obtain ⟨_, other⟩ := Field.of_child inSecond
  exact (Field.unique distinct isFirst isSecond one other).1

-- A node with all those around it, up to the root of the tree.
inductive Lineage (program : Value) : Value → List Value → Prop where
  | root : Lineage program program []
  | inside (node parent : Value) (above : List Value) (isParent : parent ∈ program.walk) (isChild : node ∈ parent.children)
      (around : Lineage program parent above) : Lineage program node (parent :: above)

theorem lineage (member : node ∈ program.walk) : ∃ above, Lineage program node above := by
  refine walk_induction (motive := fun node => ∃ above, Lineage program node above) ⟨[], .root⟩ ?_ member
  rintro parent child isParent ⟨above, around⟩ isChild
  exact ⟨parent :: above, .inside child parent above isParent isChild around⟩

section
variable {above : List Value} (around : Lineage program node above)
include around

theorem Lineage.smaller : ∀ outer ∈ above, sizeOf node < sizeOf outer := by
  induction around with
  | root => exact nofun
  | inside node parent above isParent isChild _ ih =>
    have below : sizeOf node < sizeOf parent := by
      have inside := sizeOf_lt_of_mem isChild
      have whole := sizeOf_children parent
      omega
    exact forall_mem_cons.mpr ⟨below, fun outer isOuter => Nat.lt_trans below (ih outer isOuter)⟩

-- Each node of a lineage but the first is listed as a parent.
theorem Lineage.length_le (isRecord : program.isRecord = true) (distinct : program.Distinct) : above.length ≤ program.parents.length := by
  have listed : above.Nodup ∧ above ⊆ program.parents.map (·.2) := by
    induction around with
    | root => exact ⟨.nil, nil_subset _⟩
    | inside node parent above isParent isChild around ih =>
      have entry := mem_parents.mpr ⟨node, isChild, distinct.id (walk_mem_records isRecord (child_mem_walk isParent isChild)), isParent⟩
      exact ⟨nodup_cons.mpr ⟨fun again => Nat.lt_irrefl _ (around.smaller parent again), ih.1⟩,
        cons_subset.mpr ⟨mem_map_of_mem entry, ih.2⟩⟩
  have shorter := (subperm_of_subset listed.1 listed.2).length_le
  rwa [length_map] at shorter

end

end Value

namespace Scopes

open Value

section
variable {program node : Value} {scopes : Scopes} (distinct : program.Distinct) (isRecord : program.isRecord = true)
  (parents : scopes.parents = program.parents)
include distinct isRecord parents

theorem parent_iff {parent : Value} (member : node ∈ program.records) :
    scopes.parent? node = some parent ↔ parent ∈ program.walk ∧ node ∈ parent.children := by
  have listed (outer : Value) : (node.identity, outer) ∈ program.parents ↔ outer ∈ program.walk ∧ node ∈ outer.children := by
    refine mem_parents.trans ⟨?_, fun known => ⟨node, known.2, distinct.id member, known.1⟩⟩
    rintro ⟨child, isChild, isId, isOuter⟩
    have within := (inner_records_sublist program _ (walk_mem_records isRecord isOuter)).subset (child_mem_records isChild)
    rw [distinct.eq_of_identity member within (identity_of_id isId).symm]
    exact ⟨isOuter, isChild⟩
  rw [parent?, distinct.id member, bind_some, parents, ← listed]
  refine ⟨mem_of_lookup, fun entry => lookup_of_mem entry fun other isOther => ?_⟩
  obtain ⟨isOuter, inOuter⟩ := (listed other).mp isOther
  obtain ⟨isParent, inParent⟩ := (listed parent).mp entry
  exact parent_unique distinct (walk_mem_records isRecord isOuter) (walk_mem_records isRecord isParent) inOuter inParent

theorem lineage_climbed {above : List Value} (around : Lineage program node above) (fuel : Nat) (enough : above.length ≤ fuel) :
    scopes.ancestorsFrom fuel node = above := by
  induction around generalizing fuel with
  | root =>
    cases fuel with
    | zero => rfl
    | succ fuel =>
      have rooted : scopes.parent? program = none := by
        refine eq_none_iff_forall_not_mem.mpr fun parent found => ?_
        have isProgram := mem_records_self isRecord
        obtain ⟨isParent, isChild⟩ := (parent_iff distinct isRecord parents isProgram).mp found
        have same := records_antisymm (walk_mem_records isRecord isParent) (child_mem_records isChild)
        exact not_own_child distinct (same ▸ isChild)
      rw [ancestorsFrom, rooted]
  | inside node parent above isParent isChild around ih =>
    cases fuel with
    | zero => cases enough
    | succ fuel =>
      have found := (parent_iff distinct isRecord parents (walk_mem_records isRecord (child_mem_walk isParent isChild))).mpr ⟨isParent, isChild⟩
      rw [ancestorsFrom, found]
      exact congrArg _ (ih fuel (Nat.le_of_succ_le_succ enough))

theorem ancestors_lineage {above : List Value} (around : Lineage program node above) : scopes.ancestors node = above :=
  lineage_climbed distinct isRecord parents around _ (by rw [parents]; exact around.length_le isRecord distinct)

end

end Scopes

def nameNode (id : Nat) (name : String) : Value := .record id [("type", .str "Identifier"), ("name", .str name)]

end HookLint
