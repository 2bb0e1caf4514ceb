import Mathlib
import HookLint.Graph.Query
import HookLint.Proofs.Outcome

namespace HookLint

open List

variable {a b final start : Nat} {after before path : List Nat} {graph : Graph}

-- A walk lists every block it visits, its two ends included; a walk without
-- steps visits one block.
inductive Walk (next : Nat → List Nat) : Nat → List Nat → Nat → Prop where
  | single (block : Nat) : Walk next block [block] block
  | step (start via final : Nat) (path : List Nat) (edge : via ∈ next start)
      (rest : Walk next via path final) : Walk next start (start :: path) final

section
variable {next : Nat → List Nat} {start middle final : Nat} {path : List Nat}

theorem walk_start_mem (walk : Walk next start path final) : start ∈ path := by cases walk <;> simp

theorem walk_final_mem (walk : Walk next start path final) : final ∈ path := by
  induction walk with
  | single => simp
  | step start via final path edge rest ih => exact mem_cons_of_mem start ih

theorem walk_snoc (walk : Walk next start path middle) (edge : final ∈ next middle) : Walk next start (path ++ [final]) final := by
  induction walk with
  | single block => exact .step block final final [final] edge (.single final)
  | step start via middle path first rest ih => exact .step start via final (path ++ [final]) first (ih edge)

theorem walk_snoc_cases (walk : Walk next start path final) : (start = final ∧ path = [final]) ∨
      ∃ before last, path = before ++ [final] ∧ Walk next start before last ∧ final ∈ next last := by
  induction walk with
  | single block => exact .inl ⟨rfl, rfl⟩
  | step start via final path edge rest ih =>
    refine .inr ?_
    rcases ih with ⟨rfl, rfl⟩ | ⟨before, last, rfl, walk, final⟩
    · exact ⟨[start], start, rfl, .single start, edge⟩
    · exact ⟨start :: before, last, rfl, .step start via last before edge walk, final⟩

theorem walk_ends (walk : Walk next start path final) : ∃ before, path = before ++ [final] := by
  rcases walk_snoc_cases walk with ⟨_, rfl⟩ | ⟨before, _, rfl, _, _⟩
  · exact ⟨[], rfl⟩
  · exact ⟨before, rfl⟩

theorem walk_snoc_induction {motive : List Nat → Nat → Prop} (single : motive [start] start)
    (snoc : ∀ before last final, Walk next start before last → final ∈ next last → motive before last → motive (before ++ [final]) final)
    (walk : Walk next start path final) : motive path final := by
  induction size : path.length generalizing path final with
  | zero => cases walk <;> simp at size
  | succ length ih =>
    rcases walk_snoc_cases walk with ⟨rfl, rfl⟩ | ⟨before, last, rfl, walk, edge⟩
    · exact single
    · exact snoc before last final walk edge (ih walk (by simpa using size))

theorem walk_append {path' : List Nat} (walk : Walk next start path middle)
    (rest : Walk next middle (middle :: path') final) : Walk next start (path ++ path') final := by
  induction walk with
  | single block => exact rest
  | step start via middle path edge _ ih => exact .step start via final (path ++ path') edge (ih rest)

theorem walk_cons_cases {head : Nat} {tail : List Nat} (walk : Walk next start (head :: tail) final) :
    head = start ∧ ((tail = [] ∧ start = final) ∨ ∃ via ∈ next start, Walk next via tail final) := by
  cases walk with
  | single => exact ⟨rfl, .inl ⟨rfl, rfl⟩⟩
  | step _ via _ _ edge rest => exact ⟨rfl, .inr ⟨via, edge, rest⟩⟩

theorem walk_cut (walk : Walk next start (before ++ middle :: after) final) :
    Walk next start (before ++ [middle]) middle ∧ Walk next middle (middle :: after) final := by
  induction before generalizing start with
  | nil =>
    obtain ⟨rfl, _⟩ := walk_cons_cases walk
    exact ⟨.single middle, walk⟩
  | cons head before ih =>
    obtain ⟨rfl, ⟨none, _⟩ | ⟨via, edge, rest⟩⟩ := walk_cons_cases walk
    · simp at none
    · obtain ⟨first, second⟩ := ih rest
      exact ⟨.step head via middle _ edge first, second⟩

theorem walk_split (walk : Walk next start path final) (visited : middle ∈ path) :
    ∃ before after, path = before ++ middle :: after ∧ Walk next start (before ++ [middle]) middle ∧
      Walk next middle (middle :: after) final := by
  obtain ⟨before, after, rfl⟩ := append_of_mem visited
  exact ⟨before, after, rfl, walk_cut walk⟩

theorem walk_reverse {back : Nat → List Nat} (inverse : ∀ a b, b ∈ next a → a ∈ back b)
    (walk : Walk next start path final) : Walk back final path.reverse start := by
  induction walk with
  | single block => exact .single block
  | step start via final path edge rest ih =>
    rw [reverse_cons]
    exact walk_snoc ih (inverse start via edge)

theorem walk_mono {wider : Nat → List Nat} (sub : ∀ a b, b ∈ next a → b ∈ wider a)
    (walk : Walk next start path final) : Walk wider start path final := by
  induction walk with
  | single block => exact .single block
  | step start via final path edge rest ih => exact .step start via final path (sub start via edge) ih

theorem walk_avoiding {avoid : List Nat} (walk : Walk next start path final) (avoids : ∀ block ∈ path, block ∉ avoid) :
    Walk (fun block => (next block).filter fun other => !avoid.contains other) start path final := by
  induction walk with
  | single block => exact .single block
  | step start via final path edge rest ih =>
    have later : ∀ block ∈ path, block ∉ avoid := fun block member => avoids block (by simp [member])
    refine .step start via final path ?_ (ih later)
    simpa [edge] using later via (walk_start_mem rest)

theorem walk_closed (closed : List Nat) (isClosed : ∀ a ∈ closed, ∀ b ∈ next a, b ∈ closed)
    (walk : Walk next start path final) (inside : start ∈ closed) : ∀ block ∈ path, block ∈ closed := by
  induction walk with
  | single block => simpa using inside
  | step start via final path edge rest ih =>
    intro block member
    rcases mem_cons.mp member with rfl | later
    · exact inside
    · exact ih (isClosed start inside via edge) block later

end

def Reachable (next : Nat → List Nat) (root block : Nat) : Prop := ∃ path, Walk next root path block

-- Some steps, at least one, lead from the one block to the other.
def Leads (next : Nat → List Nat) (a b : Nat) : Prop := ∃ via ∈ next a, ∃ path, Walk next via path b

def OnCycle (next : Nat → List Nat) (block : Nat) : Prop := Leads next block block

theorem leads_trans {next : Nat → List Nat} {c : Nat} (first : Leads next a b) (second : Leads next b c) : Leads next a c := by
  obtain ⟨via, edge, path, walk⟩ := first
  obtain ⟨next, edgeNext, rest, walkNext⟩ := second
  exact ⟨via, edge, _, walk_append walk (.step b next c rest edgeNext walkNext)⟩

theorem walk_leads {next : Nat → List Nat} (walk : Walk next start (before ++ b :: after) final) (early : a ∈ before) : Leads next a b := by
  obtain ⟨first, between, rfl⟩ := append_of_mem early
  have regrouped : Walk next start (first ++ a :: (between ++ b :: after)) final := by simpa using walk
  have second := (walk_cut regrouped).2
  obtain ⟨_, ⟨none, _⟩ | ⟨via, edge, rest⟩⟩ := walk_cons_cases second
  · simp at none
  · exact ⟨via, edge, _, (walk_cut rest).1⟩

theorem walk_count_le_one {next : Nat → List Nat} {block : Nat}
    (walk : Walk next start path final) (acyclic : ¬ OnCycle next block) : path.count block ≤ 1 := by
  by_contra more
  obtain ⟨before, rest, rfl⟩ := append_of_mem (count_pos_iff.mp (by omega : 0 < path.count block))
  by_cases again : block ∈ before
  · obtain ⟨first, between, rfl⟩ := append_of_mem again
    exact acyclic (walk_leads walk (by simp : block ∈ first ++ block :: between))
  have second : block ∈ rest := by
    apply count_pos_iff.mp
    have none : before.count block = 0 := count_eq_zero.mpr again
    simp only [count_append, count_cons_self] at more
    omega
  obtain ⟨between, after, rfl⟩ := append_of_mem second
  have regrouped : Walk next start ((before ++ block :: between) ++ block :: after) final := by simpa using walk
  exact acyclic (walk_leads regrouped (by simp))

namespace Graph

-- The graphs that blocks and edges are added to one by one: an edge joins two
-- blocks of the graph.
structure WellFormed (graph : Graph) : Prop where
  entry_mem : graph.entry ∈ graph.nodes
  source_mem : ∀ edge ∈ graph.edges, edge.source ∈ graph.nodes
  target_mem : ∀ edge ∈ graph.edges, edge.target ∈ graph.nodes

theorem mem_successors (graph : Graph) (a b : Nat) : b ∈ graph.successors a ↔ ∃ edge ∈ graph.edges, edge.source = a ∧ edge.target = b := by
  rw [successors, graph.wiring.outgoing_edges]
  constructor
  · rintro ⟨kind, member⟩
    exact ⟨_, member, rfl, rfl⟩
  · rintro ⟨edge, member, rfl, rfl⟩
    exact ⟨edge.kind, member⟩

theorem mem_predecessors (graph : Graph) (a b : Nat) :
    a ∈ graph.predecessors b ↔ ∃ edge ∈ graph.edges, edge.source = a ∧ edge.target = b := by
  rw [predecessors, graph.wiring.incoming_edges, ← graph.wiring.outgoing_edges]
  exact mem_successors graph a b

theorem successors_iff_predecessors (graph : Graph) (a b : Nat) : b ∈ graph.successors a ↔ a ∈ graph.predecessors b := by
  rw [mem_successors, mem_predecessors]

theorem next_iff_previous (graph : Graph) (direction : Direction) (a b : Nat) :
    b ∈ graph.next direction a ↔ a ∈ graph.previous direction b := by
  cases direction with
  | forward => exact successors_iff_predecessors graph a b
  | backward => exact (successors_iff_predecessors graph b a).symm

theorem WellFormed.successor_mem (wellFormed : graph.WellFormed) (a b : Nat) (ahead : b ∈ graph.successors a) : b ∈ graph.nodes := by
  obtain ⟨edge, member, _, rfl⟩ := (mem_successors graph a b).mp ahead
  exact wellFormed.target_mem edge member

theorem WellFormed.walk_mem (wellFormed : graph.WellFormed) (walk : Walk graph.successors start path final) (inside : start ∈ graph.nodes) :
    ∀ block ∈ path, block ∈ graph.nodes :=
  walk_closed graph.nodes (fun a _ b edge => wellFormed.successor_mem a b edge) walk inside

def EdgesInside (graph : Graph) : Prop := ∀ edge ∈ graph.edges, edge.source ∈ graph.nodes ∧ edge.target ∈ graph.nodes

end Graph

end HookLint
