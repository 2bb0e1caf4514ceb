import HookLint.Proofs.Flow.Finalizers

namespace HookLint.Flow

open List

-- What a statement of a try block evaluates before control splits can reach the block that the building of
-- this very try statement makes for its catch clause, or for its finalizer if it has no clause.
theorem leading_calls_escape {name node : Value} {graph : FlowGraph} (built : FlowGraph.ofUnit name node = .ok graph) :
    ∀ attempt ∈ (readUnit node).attempts, ∃ place start before,
      Keeps ((attempt.stmt.build place start).run before).2 (readUnit node).draft ∧
      attempt.Shielded graph.blocks graph.edges (attempt.receiver before.blocks.length) := by
  obtain ⟨_, _, drawing⟩ := body_drawn (readUnit node)
  rw [(built_draft built).1, (built_draft built).2]
  exact drawing.fact.shields

-- A try block with one statement, and a finalizer.
def guardedNode (tried : Value) : Value :=
  .made [("type", .str "FunctionDeclaration"), ("params", .list []), ("body", blockNode [guardNode tried "release"])]

def guardedBody (tried : Stmt) : Body where
  statements := [guardForm tried "release"]

theorem guarded_read {form : Stmt} {tried : Value} (spelled : form.Spelled tried) : readUnit (guardedNode tried) = guardedBody form :=
  (guardedBody form).read _ ⟨by rfl, ⟨[], rfl, rfl⟩, by rfl, _, rfl, _, _, rfl, guard_form_spelled spelled "release", rfl⟩

theorem guarded_built {form : Stmt} {tried : Value} (spelled : form.Spelled tried) (sound : (guardedBody form).draft.fault = none) :
    FlowGraph.ofUnit .null (guardedNode tried) = .ok ((guardedBody form).draft.graph .null) := by
  rw [FlowGraph.ofUnit, guarded_read spelled]
  simp only [sound]

def workForm : Stmt := .evaluate (callStatement "work") (callForm "work")

theorem guarded_work_escapes : ∃ graph target start block, FlowGraph.ofUnit .null (guardedNode (callStatement "work")) = .ok graph ∧
    ⟨start, target, .exception⟩ ∈ graph.edges ∧ graph.blocks[start]? = some block ∧ namedCall "work" ∈ block.calls ∧
    ∃ entry, graph.blocks[target]? = some entry ∧ Block.Grows { kind := .finallyBody } entry := by
  have spelled : workForm.Spelled (callStatement "work") := call_statement_spelled "work"
  have built := guarded_built spelled (by cbv)
  have shielded := leading_calls_escape built
  rw [guarded_read spelled] at shielded
  obtain ⟨_, _, before, _, received, escapes⟩ := shielded _ mem_cons_self
  obtain ⟨start, made, has⟩ := escapes workForm mem_cons_self
  obtain ⟨block, found, listed⟩ := has (namedCall "work") mem_cons_self
  exact ⟨_, _, start, block, built, made, found, listed, received _ rfl⟩

end HookLint.Flow
