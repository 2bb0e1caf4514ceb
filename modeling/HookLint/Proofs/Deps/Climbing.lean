import HookLint.Proofs.Deps.Paths

/-!
What a use of a name stands for. Main statement: it is a chain of named members that starts at the name,
stops before a property that is called or is `current`, and is not assigned to.
-/

namespace HookLint

open List

namespace Deps

open Value

-- The grammar leaves no choice in a chain and assigns to none.
theorem dependency_paths_rooted (program name : Value) (scopes : Scopes) (text : String) (distinct : program.Distinct)
    (isRecord : program.isRecord = true) (parents : scopes.parents = program.parents)
    (chained : ∀ chain ∈ program.walk, chain.isA .chainExpression = true → ∀ child ∈ chain.children, child = chain.get "expression")
    (targets : ∀ assignment ∈ program.walk, assignment.isA .assignmentExpression = true → (assignment.get "left").isA .chainExpression = false)
    (member : name ∈ program.walk) (isName : name.isA .identifier = true) (spelled : name.get "name" = .str text) :
    ∃ members, Reads name members (dependencyNode scopes name) ∧ (dependencyNode scopes name).rootIdentifier = .ok (some name) ∧
      (dependencyNode scopes name).memberPath = .ok (.str (spelledPath text members)) ∧ (∀ member ∈ members, Free program member) ∧
      ∀ assignment ∈ program.walk, assignment.isA .assignmentExpression = true →
        assignment.get "left" = dependencyNode scopes name → dependencyNode scopes name = name := by
  obtain ⟨outer, around⟩ := lineage member
  obtain ⟨members, reads, free, climbed⟩ := climb_reads distinct isRecord parents chained around .name nofun
  rw [← Scopes.ancestors_lineage distinct isRecord parents around] at reads climbed
  unfold dependencyNode
  generalize climb name (scopes.ancestors name) = reached at reads climbed
  obtain ⟨node, above⟩ := reached
  dsimp only at reads climbed ⊢
  split
  · rename_i assigned
    cases reads with
    | name => cases (not_member_of_is_a isName rfl).symm.trans (Bool.and_eq_true_iff.mp assigned).1
    | chain _ isChain => cases (not_member_of_is_a isChain rfl).symm.trans (Bool.and_eq_true_iff.mp assigned).1
    | member _ isMember _ _ reads =>
      refine ⟨_, reads, reads.root isName, reads.path_eq isName spelled, (forall_mem_append.mp free).1, fun assignment walked isKind left => ?_⟩
      -- What is read from the member stands in the member alone, and that is no assignment.
      have inner := Lineage.inside _ node above climbed.walked (child_of_get (reads.isNode isName) (by decide)) climbed
      obtain ⟨rest, heads⟩ := assigned_head distinct isRecord parents inner (reads.isNode isName) walked left
      cases heads
      cases (not_member_of_is_a isKind rfl).symm.trans isMember
  · rename_i kept
    refine ⟨members, reads, reads.root isName, reads.path_eq isName spelled, free, fun assignment walked isKind left => ?_⟩
    obtain ⟨rest, rfl⟩ := assigned_head distinct isRecord parents climbed (reads.isNode isName) walked left
    have self : node.same node = true := by simp [Value.same, distinct.id (walk_mem_records isRecord climbed.walked)]
    cases reads with
    | name => rfl
    | chain _ isChain => cases (left ▸ targets assignment walked isKind).symm.trans isChain
    | member _ isMember => exact absurd (by simp [isMember, isKind, left, self]) kept

-- A property that is read through a chain.
def readName : Value := nameNode 4 "props"

def readProperty : Value := nameNode 5 "user"

def optionalRead : Value :=
  .record 3 [("type", .str "MemberExpression"), ("object", readName), ("property", readProperty), ("optional", .bool true)]

def chainedRead : Value := .record 2 [("type", .str "ChainExpression"), ("expression", optionalRead)]

def readProgram : Value := .record 1 [("type", .str "Program"), ("body", .list [chainedRead])]

theorem chained_read_rooted : ∃ members, Reads readName members (dependencyNode { parents := readProgram.parents } readName) ∧
    (dependencyNode { parents := readProgram.parents } readName).memberPath = .ok (.str (spelledPath "props" members)) := by
  have plain := plain_of_check (by decide : readProgram.isPlain = true)
  have unassigned : ∀ node ∈ readProgram.records, node.isA .assignmentExpression = false := by decide
  have walked : readName ∈ readProgram.walk := child_mem_walk (child_mem_walk (child_mem_walk (mem_walk_self readProgram)
    (mem_singleton_self chainedRead)) (mem_singleton_self optionalRead)) mem_cons_self
  obtain ⟨members, reads, _, path, _⟩ := dependency_paths_rooted readProgram readName { parents := readProgram.parents } "props"
    ⟨by decide, by decide⟩ rfl rfl (fun chain walked => plain.chained chain (walk_mem_records rfl walked))
    (fun assignment walked isKind => absurd isKind (by simp [unassigned _ (walk_mem_records rfl walked)])) walked rfl rfl
  exact ⟨members, reads, path⟩

end Deps

end HookLint
