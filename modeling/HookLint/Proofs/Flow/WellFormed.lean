import HookLint.Proofs.Flow.Coverage
import HookLint.Proofs.Flow.Shaped

namespace HookLint.Flow

open List

-- Some edge leads out of a block.
def Draft.Exits (draft : Draft) (block : Nat) : Prop := ∃ edge ∈ draft.edges, edge.source = block

-- Apart from exceptions a single jump leads out of a block.
def Draft.OneWay (draft : Draft) (block : Nat) : Prop :=
  ∃ edge ∈ draft.edges, edge.source = block ∧ edge.kind.isJump = true ∧
    ∀ other ∈ draft.edges, other.source = block → other.kind ≠ .exception → other = edge

-- A block that is neither of the exits.
def Inner (block : Nat) : Prop := block ≠ 1 ∧ block ≠ 2

-- Only the blocks that are still alive may be without a way out, and a block that a jump ended has one.
structure Sheet.Wired (sheet : Sheet) : Prop where
  sources : ∀ edge ∈ sheet.draft.edges, Inner edge.source ∧ edge.source < sheet.draft.blocks.length
  targets : ∀ edge ∈ sheet.draft.edges, edge.target ≠ 0
  inner : ∀ block, sheet.opened block → Inner block
  settled : ∀ block < sheet.draft.blocks.length, Inner block → sheet.alive block ∨ sheet.draft.Exits block
  quiet : ∀ block, sheet.alive block → ¬ sheet.draft.Leaves block
  closed : ∀ block ∈ sheet.draft.closed, sheet.draft.OneWay block

section
variable {first last : Sheet} {marks : Marks}

theorem Sheet.Wired.link (wired : first.Wired) (sane : first.Sane) {edge : Edge} (isOpen : first.opened edge.source)
    (ahead : edge.target ≠ 0) :
    Sheet.Wired ⟨first.draft.link edge, fun block => first.alive block ∧ (block ≠ edge.source ∨ edge.kind = .exception),
      first.opened, first.lies⟩ := by
  have linked := linked first.draft edge
  have made : edge ∈ (first.draft.link edge).edges := linked.made trivial
  have kept (other : Edge) (member : other ∈ first.draft.edges) : other ∈ (first.draft.link edge).edges :=
    (linked.edges other).mpr (.inl member)
  have old (other : Edge) (member : other ∈ (first.draft.link edge).edges) : other ∈ first.draft.edges ∨ other = edge :=
    ((linked.edges other).mp member).imp_right (·.2)
  refine ⟨fun other member => ?_, fun other member => ?_, wired.inner, fun block inside inner => ?_,
    fun block lives leaves => ?_, fun block member => ?_⟩
  · rw [linked.size]
    rcases old other member with known | rfl
    · exact wired.sources other known
    · exact ⟨wired.inner _ isOpen, (sane.isOpen _ isOpen).1⟩
  · rcases old other member with known | rfl
    · exact wired.targets other known
    · exact ahead
  · rw [linked.size] at inside
    rcases wired.settled block inside inner with lives | ⟨other, member, same⟩
    · by_cases same : block = edge.source
      · exact .inr ⟨edge, made, same.symm⟩
      · exact .inl ⟨lives, .inl same⟩
    · exact .inr ⟨other, kept other member, same⟩
  · exact wired.quiet block lives.1 (linked.leaves block (lives.2.imp_left Ne.symm) leaves)
  · rw [linked.closed] at member
    obtain ⟨sole, found, rfl, jumps, alone⟩ := wired.closed block member
    refine ⟨sole, kept sole found, rfl, jumps, fun other leads same normal => ?_⟩
    rcases old other leads with known | rfl
    · exact alone other known same normal
    · exact absurd (same ▸ member) (sane.isOpen _ isOpen).2

theorem Move.wired (move : Move first marks last) (sane : first.Sane) (wired : first.Wired) : last.Wired := by
  cases move with
  | wait | remark => exact ⟨wired.sources, wired.targets, wired.inner, wired.settled, wired.quiet, wired.closed⟩
  | narrow alive opened lies fits =>
    refine ⟨wired.sources, wired.targets, fun block isOpen => wired.inner block ((fits block).2.2.1 isOpen),
      fun block inside inner => (wired.settled block inside inner).imp_left (fits block).1.mpr,
      fun block lives => wired.quiet block ((fits block).1.mp lives), wired.closed⟩
  | note number change | record _ number call =>
    have size (change : Block → Block) : (first.draft.change number change).blocks.length = first.draft.blocks.length := length_modify ..
    refine ⟨by rw [size]; exact wired.sources, wired.targets, wired.inner, by rw [size]; exact wired.settled,
      wired.quiet, wired.closed⟩
  | add inLoop kind =>
    have size : (first.draft.add inLoop kind).blocks.length = first.draft.blocks.length + 1 := length_append
    refine ⟨fun edge member => ?_, wired.targets, fun block isOpen => ?_, fun block inside inner => ?_,
      fun block lives => ?_, wired.closed⟩
    · rw [size]
      exact ⟨(wired.sources edge member).1, Nat.lt_succ_of_lt (wired.sources edge member).2⟩
    · rcases isOpen with rfl | isOpen
      · have := sane.size
        exact ⟨by omega, by omega⟩
      · exact wired.inner block isOpen
    · rw [size] at inside
      rcases Nat.lt_succ_iff_lt_or_eq.mp inside with old | new
      · exact (wired.settled block old inner).imp_left .inr
      · exact .inl (.inl new)
    · rcases lives with rfl | lives
      · rintro ⟨edge, member, source, _⟩
        exact Nat.lt_irrefl _ (source ▸ (wired.sources edge member).2)
      · exact wired.quiet block lives
  | link edge isOpen ahead => exact wired.link sane isOpen ahead
  | leave edge lives ahead jumps =>
    have linked := linked first.draft edge
    have rest := wired.link sane (sane.within _ lives) ahead
    refine ⟨rest.sources, rest.targets, fun block isOpen => wired.inner block isOpen.1, fun block inside inner => ?_,
      fun block alive => rest.quiet block ⟨alive.1, .inl alive.2⟩, fun block member => ?_⟩
    · refine (rest.settled block inside inner).imp_left fun alive => ⟨alive.1, alive.2.resolve_right fun same => ?_⟩
      rw [same] at jumps
      cases jumps
    · rcases mem_cons.mp member with rfl | earlier
      · refine ⟨edge, linked.made trivial, rfl, jumps, fun other leads same normal => ?_⟩
        rcases (linked.edges other).mp leads with known | ⟨_, rfl⟩
        · exact absurd ⟨other, known, same, normal⟩ (wired.quiet _ lives)
        · rfl
      · exact rest.closed block earlier

theorem Moves.wired (moves : Moves first marks last) (sane : first.Sane) (wired : first.Wired) : last.Wired := by
  induction moves with
  | none => exact wired
  | next moves move ih => exact move.wired (moves.sane sane) ih

end

theorem body_wired (body : Body) : ∃ opened lies, Sheet.Wired ⟨body.draft, fun _ => False, opened, lies⟩ := by
  obtain ⟨opened, lies, drawing⟩ := body_drawn body
  obtain ⟨_, _, moves⟩ := drawing.moves
  refine ⟨opened, lies, moves.wired blank_sane ⟨fun _ member => absurd member not_mem_nil, fun _ member => absurd member not_mem_nil, ?_, ?_, ?_, by simp [blank, Draft.add]⟩⟩
  · rintro block rfl
    exact ⟨by decide, by decide⟩
  · intro block (inside : block < 3) inner
    have := inner.1
    have := inner.2
    exact .inl (by show block = 0; omega)
  · rintro block rfl ⟨edge, member, _⟩
    cases member

theorem successors_empty (graph : Graph) (block : Nat) : graph.successors block = [] ↔ ∀ edge ∈ graph.edges, edge.source ≠ block := by
  rw [eq_nil_iff_forall_not_mem]
  constructor
  · intro empty edge member same
    exact empty edge.target ((Graph.mem_successors _ _ _).mpr ⟨edge, member, same, rfl⟩)
  · intro none target found
    obtain ⟨edge, member, source, _⟩ := (Graph.mem_successors _ _ _).mp found
    exact none edge member source

theorem predecessors_empty (graph : Graph) (block : Nat) (none : ∀ edge ∈ graph.edges, edge.target ≠ block) :
    graph.predecessors block = [] := by
  rw [eq_nil_iff_forall_not_mem]
  intro source found
  obtain ⟨edge, member, _, target⟩ := (Graph.mem_predecessors _ _ _).mp found
  exact none edge member target

theorem unit_graph_wired {name node : Value} {graph : FlowGraph} (built : FlowGraph.ofUnit name node = .ok graph) : graph.edges.Nodup ∧
    (∀ edge ∈ graph.edges, edge.source ∈ graph.nodes ∧ edge.target ∈ graph.nodes) ∧ (∀ source target,
      (target ∈ graph.successors source ↔ source ∈ graph.predecessors target) ∧
      (source ∈ graph.predecessors target ↔ graph.edgeKinds source target ≠ []) ∧
      (graph.edgeKinds source target ≠ [] ↔ ∃ kind, ⟨source, target, kind⟩ ∈ graph.edges) ∧ (graph.edgeKinds source target).Nodup ∧
      ∀ kind, kind ∈ graph.edgeKinds source target ↔ ⟨source, target, kind⟩ ∈ graph.edges) ∧ graph.predecessors graph.entry = [] ∧
    graph.successors graph.exit = [] ∧ ∃ throwExit, graph.throwExit = some throwExit ∧ graph.successors throwExit = [] ∧
      ∀ block ∈ graph.nodes, block ≠ graph.exit → block ≠ throwExit → graph.successors block ≠ [] := by
  have inside := of_unit_well_formed name node graph built
  obtain ⟨_, _, wired⟩ := body_wired (readUnit node)
  simp only [FlowGraph.ofUnit] at built
  split at built
  · cases built
  cases built
  let wiring := (readUnit node).draft.wiring
  refine ⟨wiring.edges_nodup, fun edge member => ⟨inside.source_mem edge member, inside.target_mem edge member⟩,
    fun source target => ?_, ?_, ?_, 2, rfl, ?_, fun block member notExit notThrow empty => ?_⟩
  · have some_kind : wiring.kinds.find (source, target) ≠ [] ↔ ∃ kind, ⟨source, target, kind⟩ ∈ wiring.edges := by
      simp only [← wiring.kinds_edges]
      exact ⟨exists_mem_of_ne_nil _, fun found => ne_nil_of_mem found.choose_spec⟩
    exact ⟨Graph.successors_iff_predecessors _ _ _, (wiring.incoming_edges source target).trans some_kind.symm, some_kind,
      wiring.kinds_nodup _, wiring.kinds_edges source target⟩
  · exact predecessors_empty _ _ wired.targets
  · exact (successors_empty _ _).mpr fun edge member => (wired.sources edge member).1.1
  · exact (successors_empty _ _).mpr fun edge member => (wired.sources edge member).1.2
  · rcases wired.settled block (mem_range.mp member) ⟨notExit, notThrow⟩ with owed | ⟨edge, member, source⟩
    · exact owed
    · exact (successors_empty _ _).mp empty edge member source

theorem guarded_loop_wired : ∃ graph, FlowGraph.ofUnit .null guardedLoopNode = .ok graph ∧ graph.edges.Nodup ∧
    graph.predecessors graph.entry = [] ∧ graph.successors graph.exit = [] ∧
    ∃ throwExit, graph.throwExit = some throwExit ∧ graph.successors throwExit = [] ∧
      ∀ block ∈ graph.nodes, block ≠ graph.exit → block ≠ throwExit → graph.successors block ≠ [] := by
  have lawful : guardedLoopBody.Lawful := by
    simp [guardedLoopBody, Body.Lawful, LawfulAll, LawfulIf, Stmt.Lawful, LawfulHandler, Surrounding.takesBreak]
  have covered : Covered guardedLoopBody guardedLoopBody.draft := ends_body guardedLoopBody
  have built : FlowGraph.ofUnit .null guardedLoopNode = .ok (guardedLoopBody.draft.graph .null) := by
    rw [FlowGraph.ofUnit, guardedLoopBody.read guardedLoopNode guarded_loop_spelled]
    simp only [covered.faultless lawful ⟨_, guarded_loop_spelled⟩]
  obtain ⟨distinct, _, _, entry, exit, thrown⟩ := unit_graph_wired built
  exact ⟨_, built, distinct, entry, exit, thrown⟩

end HookLint.Flow
