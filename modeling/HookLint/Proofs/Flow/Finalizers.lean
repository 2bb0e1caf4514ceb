import HookLint.Proofs.Flow.WellFormed

namespace HookLint

-- The edges out of a block, exceptions apart.
def Graph.leaving (graph : Graph) (block : Nat) : List Edge := graph.edges.filter fun edge => edge.source = block && edge.kind ≠ .exception

end HookLint

namespace HookLint.Flow

open List

-- The block at which a jump stops first.
def firstStop (stops : List Finalizer) (goal : Nat) : Nat := (stops.head?.map (·.entry)).getD goal

-- A jump from a block takes one edge to the first finalizer that it leaves, and from the end of each
-- finalizer one to the next, unless a jump of its own ended that; the last one leads to the goal.
structure Passes (graph : Graph) (kind : EdgeKind) (block : Nat) (stops : List Finalizer) (goal : Nat) : Prop where
  leaves : graph.leaving block = [⟨block, firstStop stops goal, kind⟩]
  onward : ∀ passed stop rest, stops = passed ++ stop :: rest → (∀ other ∈ passed ++ [stop], other.ended = false) →
    ⟨stop.last, firstStop rest goal, kind⟩ ∈ graph.edges
  stuck : ∀ stop ∈ stops, stop.ended = true → ∃ edge, edge.kind.isJump = true ∧ graph.leaving stop.last = [edge]

section
variable {leap : Leap} {goal source : Nat} {draft : Draft} {frames : List Frame} {stop : Finalizer}

theorem reach_body (leap : Leap) (frames : List Frame) : leap.reach {} frames = leap.lands frames := by
  induction frames with
  | nil => cases leap <;> rfl
  | cons frame rest ih =>
    cases frame with
    | guard finalizer => cases leap <;> exact ih
    | within target =>
      simp only [Leap.reach, ih]
      cases leap with
      | back => rfl
      | «break» label => by_cases takes : target.takes false label = true <;> simp [Leap.lands, Leap.takes, Leap.target, takes]
      | «continue» label => by_cases takes : target.takes true label = true <;> simp [Leap.lands, Leap.takes, Leap.target, takes]

theorem carried_first (carried : leap.Carried {} draft goal frames source) :
    ⟨source, firstStop (leap.crossed frames) goal, leap.kind⟩ ∈ draft.edges := by
  induction frames generalizing source with
  | nil =>
    obtain ⟨_, _, sends⟩ := carried
    exact sends.1
  | cons frame rest ih =>
    cases frame with
    | guard finalizer => exact carried.1
    | within target =>
      simp only [Leap.Carried, Leap.crossed] at carried ⊢
      split at carried
      · rename_i takes
        rw [if_pos takes]
        exact carried
      · rename_i other
        rw [if_neg other]
        exact ih carried

theorem carried_onward (carried : leap.Carried {} draft goal frames source)
    {passed rest : List Finalizer} (crosses : leap.crossed frames = passed ++ stop :: rest)
    (runs : ∀ other ∈ passed ++ [stop], other.ended = false) : ⟨stop.last, firstStop rest goal, leap.kind⟩ ∈ draft.edges := by
  induction frames generalizing source passed with
  | nil => simp [Leap.crossed] at crosses
  | cons frame frames ih =>
    cases frame with
    | guard finalizer =>
      rw [Leap.crossed, cons_eq_append_iff] at crosses
      rcases crosses with ⟨rfl, same⟩ | ⟨before, rfl, same⟩
      · obtain ⟨rfl, rfl⟩ := List.cons.inj same
        exact carried_first (carried.2 (runs _ (by simp)))
      · exact ih (carried.2 (runs _ (by simp))) same fun other member => runs other (by simp_all)
    | within target =>
      simp only [Leap.Carried, Leap.crossed] at carried crosses
      split at carried
      · rename_i takes
        simp [takes] at crosses
      · rename_i other
        rw [if_neg other] at crosses
        exact ih carried crosses runs

theorem crossed_around (crosses : stop ∈ leap.crossed frames) : .guard stop ∈ frames := by
  induction frames with
  | nil => cases crosses
  | cons frame rest ih =>
    cases frame with
    | guard finalizer =>
      rcases mem_cons.mp crosses with rfl | later
      · exact mem_cons_self
      · exact mem_cons_of_mem _ (ih later)
    | within target =>
      simp only [Leap.crossed] at crosses
      split at crosses
      · cases crosses
      · exact mem_cons_of_mem _ (ih crosses)

theorem leaving_one {graph : Graph} {block : Nat} (same : graph.edges = draft.edges) (distinct : draft.edges.Nodup)
    (oneWay : draft.OneWay block) : ∃ edge, edge.kind.isJump = true ∧ graph.leaving block = [edge] := by
  obtain ⟨edge, member, source, jumps, only⟩ := oneWay
  have normal : edge.kind ≠ .exception := fun exception => by simp [exception, EdgeKind.isJump] at jumps
  refine ⟨edge, jumps, perm_singleton.mp ?_⟩
  rw [Graph.leaving, same]
  refine (perm_ext_iff_of_nodup (distinct.filter _) (nodup_singleton _)).mpr fun other => ?_
  simp only [mem_filter, Bool.and_eq_true, decide_eq_true_eq, mem_singleton]
  constructor
  · rintro ⟨known, starts, other⟩
    exact only _ known starts other
  · rintro rfl
    exact ⟨member, source, normal⟩

end

theorem built_draft {graph : FlowGraph} {name node : Value} (built : FlowGraph.ofUnit name node = .ok graph) :
    graph.blocks = (readUnit node).draft.blocks ∧ graph.edges = (readUnit node).draft.edges := by
  simp only [FlowGraph.ofUnit] at built
  split at built <;> cases built
  exact ⟨rfl, rfl⟩

theorem jump_passes {graph : FlowGraph} {name node : Value} (built : FlowGraph.ofUnit name node = .ok graph) {jump : Jump}
    (member : jump ∈ (readUnit node).outline.jumps []) {goal : Nat} (lands : jump.leap.lands jump.frames = some goal) :
    Passes graph.toGraph jump.leap.kind jump.block (jump.leap.crossed jump.frames) goal := by
  obtain ⟨_, _, drawing⟩ := body_drawn (readUnit node)
  obtain ⟨_, _, wired⟩ := body_wired (readUnit node)
  obtain ⟨carried, ended, _⟩ := drawing.fact.holds jump member
  obtain ⟨closed, carried⟩ := carried goal ((reach_body _ _).trans lands)
  have edges := (built_draft built).2
  have only (block : Nat) (closed : block ∈ (readUnit node).draft.closed) := leaving_one edges (readUnit node).draft.wiring.edges_nodup (wired.closed block closed)
  refine ⟨?_, fun passed stop rest crosses runs => ?_, fun stop crossed stops => only _ (ended stop ?_ stops)⟩
  · obtain ⟨edge, _, leaving⟩ := only jump.block closed
    have normal : jump.leap.kind ≠ .exception := by cases jump.leap <;> simp [Leap.kind]
    have first : ⟨jump.block, firstStop (jump.leap.crossed jump.frames) goal, jump.leap.kind⟩ ∈ graph.leaving jump.block :=
      mem_filter.mpr ⟨edges ▸ carried_first carried, by simp [normal]⟩
    rw [leaving, mem_singleton] at first
    rw [leaving, first]
  · rw [edges]
    exact carried_onward carried crosses runs
  · exact crossed_around crossed

theorem jumps_pass_finalizers {name node : Value} {graph : FlowGraph} (built : FlowGraph.ofUnit name node = .ok graph) :
    ((readUnit node).outline.jumps []).map Jump.spot = (readUnit node).spots ∧
    ∀ jump ∈ (readUnit node).outline.jumps [], ∀ goal, jump.leap.lands jump.frames = some goal →
      Passes graph.toGraph jump.leap.kind jump.block (jump.leap.crossed jump.frames) goal := by
  obtain ⟨_, _, drawing⟩ := body_drawn (readUnit node)
  exact ⟨drawing.fact.lists [], fun jump member goal lands => jump_passes built member lands⟩

-- A loop with two labels and a jump to the outer one, under two finalizers.
def labelNode (name : String) : Value := .made [("type", .str "Identifier"), ("name", .str name)]

def labeledNode (name : String) (body : Value) : Value :=
  .made [("type", .str "LabeledStatement"), ("label", labelNode name), ("body", body)]

def leapNode (kind : String) : Value := .made [("type", .str kind), ("label", labelNode "outer")]

def guardNode (tried : Value) (last : String) : Value :=
  .made [("type", .str "TryStatement"), ("block", blockNode [tried]), ("finalizer", blockNode [callStatement last])]

def twiceGuardedNode (leap : Value) : Value :=
  .made [("type", .str "FunctionDeclaration"), ("params", .list []), ("body", blockNode [
    labeledNode "outer" (labeledNode "inner" (.made [("type", .str "WhileStatement"), ("test", namedCall "more"),
      ("body", blockNode [guardNode (guardNode leap "release") "finish"])]))])]

def guardForm (tried : Stmt) (last : String) : Stmt :=
  .tryCatch [tried] none (some (.block [.evaluate (callStatement last) (callForm last)]))

def twiceGuarded (leap : Stmt) : Body where
  statements := [.labeled (some (.str "outer")) (.whileLoop (some (.str "inner")) (callForm "more")
    (some (.block [guardForm (guardForm leap "release") "finish"])))]

variable {form : Stmt}

theorem guard_form_spelled {tried : Value} (spelled : form.Spelled tried) (last : String) :
    (guardForm form last).Spelled (guardNode tried last) := by
  have release : (Stmt.block [.evaluate (callStatement last) (callForm last)]).Spelled (blockNode [callStatement last]) :=
    ⟨by rfl, _, rfl, _, _, rfl, call_statement_spelled last, rfl⟩
  exact ⟨by rfl, by rfl, ⟨_, rfl, _, _, rfl, spelled, rfl⟩, rfl, release, .inr rfl⟩

theorem twice_guarded_spelled {leap : Value} (spelled : form.Spelled leap) : (twiceGuarded form).Spelled (twiceGuardedNode leap) := by
  have inside := guard_form_spelled (guard_form_spelled spelled "release") "finish"
  have labeled (name : String) (body : Value) : (labeledNode name body).kind = some .labeledStatement := by rfl
  refine ⟨by rfl, ⟨[], rfl, rfl⟩, by rfl, _, rfl, _, _, rfl, ⟨rfl, labeled _ _, ⟨_, rfl, rfl⟩, ?_, ?_⟩, rfl⟩
  · intro kind isLoop same
    cases (labeled "inner" _).symm.trans same
    exact absurd isLoop (by decide)
  · exact ⟨_, .inr ⟨rfl, labeled _ _, ⟨_, rfl, rfl⟩, rfl⟩, by rfl, call_form_spelled "more", by rfl, _, rfl, _, _, rfl, inside, rfl⟩

theorem twice_guarded_built {leap : Value} (spelled : form.Spelled leap) (sound : (twiceGuarded form).draft.fault = none) :
    FlowGraph.ofUnit .null (twiceGuardedNode leap) = .ok ((twiceGuarded form).draft.graph .null) := by
  rw [FlowGraph.ofUnit, (twiceGuarded form).read _ (twice_guarded_spelled spelled)]
  simp only [sound]

def breakOuter : Stmt := .breakTo (Region.of (leapNode "BreakStatement")) (some (.str "outer"))

theorem break_outer_spelled : breakOuter.Spelled (leapNode "BreakStatement") := ⟨rfl, by rfl, _, rfl, rfl⟩

theorem break_outer_sound (area : Region) : (twiceGuarded (.breakTo area (some (.str "outer")))).draft.fault = none := by cbv

-- The break leaves the inner finalizer for the outer one, and that one for the end of the labelled statement.
theorem twice_guarded_break_passes : ∃ graph, FlowGraph.ofUnit .null (twiceGuardedNode (leapNode "BreakStatement")) = .ok graph ∧
    graph.leaving 14 = [⟨14, 11, .break⟩] ∧ ⟨11, 7, .break⟩ ∈ graph.edges ∧ ⟨7, 3, .break⟩ ∈ graph.edges := by
  have jumps (area : Region) : ((twiceGuarded (.breakTo area (some (.str "outer")))).outline.jumps []).map
      (fun jump => (jump.block, jump.leap.kind, jump.leap.crossed jump.frames, jump.leap.lands jump.frames)) =
        [(14, .break, [⟨11, 11, false⟩, ⟨7, 7, false⟩], some 3)] := by cbv
  have built := twice_guarded_built break_outer_spelled (break_outer_sound _)
  have passes := (jumps_pass_finalizers built).2
  rw [(twiceGuarded breakOuter).read _ (twice_guarded_spelled break_outer_spelled)] at passes
  obtain ⟨jump, member, same⟩ := mem_map.mp ((jumps _).symm ▸ mem_singleton_self _)
  simp only [Prod.mk.injEq] at same
  obtain ⟨block, kind, crossed, lands⟩ := same
  have passes := passes jump member 3 lands
  rw [block, kind, crossed] at passes
  refine ⟨_, built, passes.leaves, ?_, ?_⟩
  · exact passes.onward [] ⟨11, 11, false⟩ [⟨7, 7, false⟩] rfl (by simp)
  · exact passes.onward [⟨11, 11, false⟩] ⟨7, 7, false⟩ [] rfl (by simp)

end HookLint.Flow
