import HookLint.Proofs.Flow.Guarded
import HookLint.Proofs.Graph.Walk
import HookLint.Proofs.Flow.Reading
import HookLint.Proofs.Flow.Switch

namespace HookLint.Flow

open List

theorem completes_jump_to {place : Place} {around : List Surrounding} {Safe : Prop} {runs : Runs} {area : Region}
    {target : Option (Nat × Nat)} {kind : EdgeKind} {reason : Reason} (normal : kind ≠ .exception)
    (small : ∀ goal, target = some goal → ∀ size, place.Fits around size → goal.1 < size)
    (lands : Safe → ∀ size, place.Fits around size → ∃ goal, target = some goal ∧
      ∀ trace completion, runs trace completion → trace = [] ∧ completion ≠ .normal ∧
        ∀ draft final finalOffset landing, place.Aims draft goal.1 goal.2 landing →
          place.Lands draft final finalOffset completion landing 0) :
    Completes place around (buildJump place area target kind reason) Safe runs := by
  intro before start valid ready fits
  cases target with
  | none =>
    have never : ¬ Safe := fun safe => by
      obtain ⟨_, impossible, _⟩ := lands safe _ fits
      cases impossible
    have completes : Completes place around (approximate place.inLoop area reason) False fun _ _ => False :=
      completes_approximate place.inLoop area reason
    exact ends_mono (completes_noted area.node completes before start valid ready fits) fun _ _ done =>
      done.weaken never fun safe => (never safe).elim
  | some goal =>
    refine completes_noted area.node (completes_jump normal (small goal rfl) fun safe => ?_) before start valid ready fits
    obtain ⟨_, ⟨⟩, lands⟩ := lands safe _ fits
    exact lands

theorem safe_cases {around : List Surrounding} {items : List Value} (cases : List Case)
    (lawful : LawfulCases around cases) (spelled : SpelledCases cases items) :
    ∀ branch ∈ cases, branch.Lawful around ∧ ∃ node, branch.Spelled node := by
  induction cases generalizing items with
  | nil => simp
  | cons branch rest ih =>
    obtain ⟨item, others, rfl, first, spelled⟩ := spelled
    exact forall_mem_cons.mpr ⟨⟨lawful.1, item, first⟩, ih lawful.2 spelled⟩

mutual
theorem Stmt.completes (place : Place) (around : List Surrounding) : (stmt : Stmt) →
    Completes place around (stmt.build place) (stmt.Lawful around ∧ ∃ node, stmt.Spelled node) stmt.Runs
  | .note node => by
    refine completes_of (completes_noted node (completes_ready (completes_nothing place around))) (fun _ => trivial)
      (fun _ trace completion run => ?_)
    exact run
  | .block body => by
    refine completes_of (completes_ready (completes_all place around body)) ?_
    rintro ⟨lawful, node, _, items, _, spelled⟩
    exact ⟨lawful, items, spelled⟩
  | .evaluate node value => by
    refine completes_of (completes_noted node (completes_evaluated rfl (value.builds place.scene))) ?_
    rintro ⟨_, node, _, _, spelled⟩
    exact ⟨_, .inr spelled⟩
  | .bare value => by
    refine completes_of (completes_evaluated rfl (value.builds place.scene)) ?_ ?_
    all_goals
      rintro ⟨_, node, spelled⟩
      exact spelled.elim
  | .declare declared => by
    refine completes_of (completes_evaluated rfl (builds_variables place.scene declared)) ?_
    rintro ⟨_, spelled⟩
    exact spelled
  | .returnValue node value => by
    have returns : Completes place around (fun start => do jump place start 1 .earlyReturn 0; close start; return start)
        True fun trace completion => trace = [] ∧ completion = .returned := by
      refine completes_jump (by simp) (fun size fits => fits.exit) ?_
      rintro _ trace completion ⟨rfl, rfl⟩
      exact ⟨rfl, by simp, fun draft final finalOffset landing aims => ⟨aims, rfl⟩⟩
    refine completes_of (completes_before rfl (value.builds place.scene) (completes_noted node returns)) ?_ ?_
    · rintro ⟨_, node, _, _, spelled⟩
      exact ⟨⟨_, spelled⟩, trivial⟩
    · intro _ trace completion run
      exact ⟨trace, [], run.1, ⟨rfl, run.2⟩, by simp⟩
  | .throwValue node value => by
    refine completes_of (completes_before rfl (value.builds place.scene) (completes_noted node completes_throw)) ?_ ?_
    · rintro ⟨_, node, _, _, spelled⟩
      exact ⟨⟨_, .inr spelled⟩, trivial⟩
    · intro _ trace completion run
      exact ⟨trace, [], run.1, ⟨rfl, run.2⟩, by simp⟩
  | .ifElse subject test consequent (some alternate) => by
    have branches := completes_if_else place.inLoop (completes_optional place around consequent) (alternate.completes place around)
    have marked := completes_marked (fun block => { block with kind := .ifCondition }) (fun _ => rfl) branches
    refine completes_of (completes_noted subject (completes_before rfl (test.builds place.scene) marked)) ?_
    rintro ⟨⟨lawful, lawfulElse⟩, node, _, _, test, spelled, spelledElse⟩
    exact ⟨⟨_, .inr test⟩, ⟨lawful, _, spelled⟩, ⟨lawfulElse, _, spelledElse⟩⟩
  | .ifElse subject test consequent none => by
    have branches := completes_if place.inLoop (completes_optional place around consequent)
    have marked := completes_marked (fun block => { block with kind := .ifCondition }) (fun _ => rfl) branches
    refine completes_of (completes_noted subject (completes_before rfl (test.builds place.scene) marked)) ?_
    rintro ⟨⟨lawful, _⟩, node, _, _, test, spelled, _⟩
    exact ⟨⟨_, .inr test⟩, ⟨lawful, _, spelled⟩⟩
  | .labeled label body => by
    refine completes_of (completes_labeled place.inLoop label fun inner => body.completes inner _) ?_
    rintro ⟨lawful, node, _, _, _, _, spelled⟩
    exact ⟨lawful, _, spelled⟩
  | .whileLoop label test body => by
    refine completes_of (completes_while place.inLoop label rfl (test.builds place.scene) fun inner =>
      completes_optional inner _ body) ?_
    rintro ⟨lawful, node, loop, _, _, test, spelled⟩
    exact ⟨⟨_, .inr test⟩, lawful, _, spelled⟩
  | .doWhileLoop label body test => by
    refine completes_of (completes_do_while place.inLoop label rfl (test.builds place.scene) fun inner =>
      completes_optional inner _ body) ?_
    rintro ⟨lawful, node, loop, _, _, spelled, test⟩
    exact ⟨⟨lawful, _, spelled⟩, ⟨_, .inr test⟩⟩
  | .forLoop label start test update body => by
    have head (before : Draft) (header after : Nat) (valid : before.Valid) (ready : before.Ready header)
        (small : after < before.blocks.length) :=
      ends_for_head (rfl : place.scene.chainEnd = none) test valid ready small
    have loop := completes_for place place.inLoop label rfl head (update.builds place.scene) fun inner =>
      completes_optional inner (.loop label :: around) body
    refine completes_of (completes_before rfl (start.builds place.scene) loop) ?_ (fun _ _ _ run => run) fun _ => by cases test <;> rfl
    rintro ⟨lawful, node, loop, _, _, start, test, update, spelled⟩
    exact ⟨⟨_, start⟩, ⟨_, test⟩, ⟨lawful, _, spelled⟩, ⟨_, update⟩⟩
  | .forEach label source targets body => by
    have loop := completes_for_each place place.inLoop label rfl (builds_patterns { inLoop := true } targets)
      fun inner => completes_optional inner (.loop label :: around) body
    refine completes_of (completes_before rfl (source.builds place.scene) loop) ?_
    rintro ⟨lawful, node, loop, _, _, source, ⟨target, rfl, head⟩, spelled⟩
    refine ⟨⟨_, .inr source⟩, ?_, ⟨lawful, _, spelled⟩⟩
    rcases head with ⟨_, declarator, _, _, _, target⟩ | ⟨_, target⟩
    · exact ⟨[_], _, _, rfl, target, rfl⟩
    · exact ⟨[_], _, _, rfl, target, rfl⟩
  | .breakTo area label => by
    refine completes_of (completes_jump_to (by simp : EdgeKind.break ≠ .exception) ?_ ?_) (fun safe => safe.1)
    · rintro _ found size fits
      obtain ⟨target, search, rfl⟩ := Option.map_eq_some_iff.mp found
      obtain ⟨_, one⟩ := fits.jump (mem_of_find?_eq_some search)
      exact one.breakTo
    intro lawful size fits
    obtain ⟨target, search⟩ := break_found fits lawful
    refine ⟨(target.breakTo, target.depth), by rw [search]; rfl, ?_⟩
    rintro trace completion ⟨rfl, rfl⟩
    exact ⟨rfl, by simp, fun draft final finalOffset landing aims => ⟨⟨target, search, aims⟩, rfl⟩⟩
  | .continueTo area label => by
    refine completes_of (completes_jump_to (by simp : EdgeKind.continue ≠ .exception) ?_ ?_) (fun safe => safe.1)
    · rintro _ found size fits
      obtain ⟨target, search, goes⟩ := Option.bind_eq_some_iff.mp found
      obtain ⟨next, continues, rfl⟩ := Option.map_eq_some_iff.mp goes
      obtain ⟨_, one⟩ := fits.jump (mem_of_find?_eq_some search)
      exact one.continueTo next continues
    intro lawful size fits
    obtain ⟨target, next, search, continues⟩ := continue_found fits lawful
    refine ⟨(next, target.depth), by rw [search, Option.bind_some, continues]; rfl, ?_⟩
    rintro trace completion ⟨rfl, rfl⟩
    exact ⟨rfl, by simp, fun draft final finalOffset landing aims => ⟨⟨target, next, search, continues, aims⟩, rfl⟩⟩
  | .switch subject discriminant cases => by
    have dispatch := completes_switch place cases (fun inner => completes_cases inner (.switch :: around) cases) id (fun _ _ run => run)
    have marked := completes_marked (fun block => { block with kind := .switchDiscriminant }) (fun _ => rfl) dispatch
    refine completes_of (completes_noted subject (completes_before rfl (discriminant.builds place.scene) marked)) ?_
    rintro ⟨⟨single, lawful⟩, node, _, _, discriminant, items, _, spelled⟩
    exact ⟨⟨_, .inr discriminant⟩, safe_cases cases lawful spelled, ⟨items, spelled⟩, single⟩
  | .tryCatch body none none => by
    refine completes_of (completes_try_alone place.inLoop (fun inner thrown => buildTried inner thrown body)
      fun inner => completes_ready (completes_tries inner around body)) ?_ ?_
    · rintro ⟨_, node, _, _, _, _, _, impossible | impossible⟩
      · cases impossible
      · cases impossible
    · exact fun _ trace completion run => run
  | .tryCatch body (some handler) none => by
    refine completes_of (completes_try_catch place.inLoop (fun inner thrown => buildTried inner thrown body)
      (fun inner => completes_ready (completes_tries inner around body))
      fun inner => handler.completes inner around) ?_
    rintro ⟨⟨lawful, lawfulHandler, _⟩, node, _, _, ⟨items, _, spelled⟩, spelledHandler, _⟩
    exact ⟨⟨lawful, items, spelled⟩, lawfulHandler, _, spelledHandler⟩
  | .tryCatch body none (some finalizer) => by
    refine completes_of (completes_try_finally place.inLoop (fun inner thrown => buildTried inner thrown body)
      (fun inner => completes_ready (completes_tries inner around body))
      (finalizer.completes place around)) ?_ (fun _ _ _ run => run) fun start => by rw [Stmt.build]; rfl
    rintro ⟨⟨lawful, _, lawfulFinal⟩, node, _, _, ⟨items, _, spelled⟩, _, spelledFinal, _⟩
    exact ⟨⟨lawful, items, spelled⟩, lawfulFinal, _, spelledFinal⟩
  | .tryCatch body (some handler) (some finalizer) => by
    refine completes_of (completes_try_catch_finally place.inLoop (fun inner thrown => buildTried inner thrown body)
      (fun inner => completes_ready (completes_tries inner around body)) (fun inner => handler.completes inner around)
      (finalizer.completes place around)) ?_ (fun _ _ _ run => run) fun start => by rw [Stmt.build]; rfl
    rintro ⟨⟨lawful, lawfulHandler, lawfulFinal⟩, node, _, _, ⟨items, _, spelled⟩, spelledHandler, spelledFinal, _⟩
    exact ⟨⟨⟨lawful, items, spelled⟩, lawfulHandler, _, spelledHandler⟩, lawfulFinal, _, spelledFinal⟩
  | .withObject object body => by
    refine completes_of (completes_before rfl (object.builds place.scene) (completes_optional place around body)) ?_ ?_
    all_goals
      rintro ⟨_, node, spelled⟩
      exact spelled.elim
  | .region area => by
    refine completes_of (completes_approximate place.inLoop area .unsupportedStatement) ?_ ?_
    all_goals
      rintro ⟨_, node, spelled⟩
      exact spelled.elim
  | .broken fault => by
    refine completes_of (completes_evaluated rfl (builds_broken place.scene fault)) ?_ ?_
    all_goals
      rintro ⟨_, node, spelled⟩
      exact spelled.elim
theorem completes_all (place : Place) (around : List Surrounding) : (stmts : List Stmt) →
    CompletesAny place around (buildStmts place stmts) (LawfulAll around stmts ∧ ∃ items, SpelledStmts stmts items) (RunsAll stmts)
  | [] => by
    refine completes_any_of (completes_nothing place around) (fun _ => trivial)
  | stmt :: rest => by
    refine completes_any_of (completes_refreshed (completes_in_turn (stmt.completes place around) (completes_all place around rest))) ?_
    rintro ⟨⟨lawful, lawfulRest⟩, _, item, others, rfl, spelled, spelledRest⟩
    exact ⟨⟨lawful, item, spelled⟩, lawfulRest, others, spelledRest⟩
theorem completes_tries (place : Place) (around : List Surrounding) : (stmts : List Stmt) →
    CompletesAny place around (buildTried place place.handler stmts)
      (LawfulAll around stmts ∧ ∃ items, SpelledStmts stmts items) (RunsAll stmts)
  | [] => by
    refine completes_any_of (completes_nothing place around) (fun _ => trivial)
  | stmt :: rest => by
    refine completes_any_of (completes_tried (completes_in_turn (stmt.completes place around) (completes_tries place around rest))) ?_
    rintro ⟨⟨lawful, lawfulRest⟩, _, item, others, rfl, spelled, spelledRest⟩
    exact ⟨⟨lawful, item, spelled⟩, lawfulRest, others, spelledRest⟩
theorem completes_optional (place : Place) (around : List Surrounding) : (stmt : Option Stmt) →
    Completes place around (buildOptional place stmt) (LawfulIf around stmt ∧ ∃ node, SpelledStmtIf stmt node) (RunsIf stmt)
  | none => by
    refine completes_of (completes_ready (completes_nothing place around)) (fun _ => trivial)
  | some stmt => by
    refine completes_of (stmt.completes place around) ?_
    exact id
theorem completes_cases (place : Place) (around : List Surrounding) : (cases : List Case) → ∀ branch ∈ cases,
    Completes place around (branch.build place) (branch.Lawful around ∧ ∃ node, branch.Spelled node) branch.Runs
  | [] => by simp
  | first :: rest => forall_mem_cons.mpr ⟨first.completes place around, completes_cases place around rest⟩
theorem Case.completes (place : Place) (around : List Surrounding) : (branch : Case) →
    Completes place around (branch.build place) (branch.Lawful around ∧ ∃ node, branch.Spelled node) branch.Runs
  | .mk test body => by
    refine completes_of (completes_ready (completes_all place around body)) ?_
    rintro ⟨lawful, node, _, _, items, _, spelled⟩
    exact ⟨lawful, items, spelled⟩
theorem Handler.completes (place : Place) (around : List Surrounding) : (handler : Handler) →
    Completes place around (handler.build place) (handler.Lawful around ∧ ∃ node, handler.Spelled node) handler.Runs
  | .mk param body => by
    refine completes_of (completes_before rfl (param.builds place.scene) (completes_optional place around body)) ?_
    rintro ⟨lawful, node, _, param, spelled⟩
    exact ⟨⟨_, param⟩, lawful, _, spelled⟩
end

-- What the building of a body comes to.
structure Covered (body : Body) (draft : Draft) : Prop where
  valid : draft.Valid
  size : 3 ≤ draft.blocks.length
  exitEmpty : draft.callsOf 1 = []
  throwEmpty : draft.callsOf 2 = []
  faultless : body.Lawful → (∃ node, body.Spelled node) → draft.fault = none
  reaches : body.Lawful → (∃ node, body.Spelled node) → ∀ trace completion, body.Runs trace completion →
    ({} : Place).Reaches draft 1 0 0 0 trace completion

theorem ends_body (body : Body) : Ends body.build {} fun _ draft => Covered body draft := by
  have inside := completes_before (rfl : ({} : Scene).chainEnd = none) (builds_patterns {} body.params)
    (completes_ready (completes_all {} [] body.statements))
  have empty : ({} : Draft).Valid := ⟨fun _ member => absurd member not_mem_nil, by simp, by simp⟩
  refine ends_add fun d1 added1 fault1 _ => ends_add fun d2 added2 fault2 size2 => ?_
  refine ends_add fun d3 added3 fault3 size3 => ?_
  have size1 : d1.blocks.length = 1 := added1.size
  have stage3 := (((stage_begin {} 0 empty).add added1).add added2).add added3
  have entryReady : d3.Ready 0 := stage3.ready
  have fits : ({} : Place).Fits [] d3.blocks.length := ⟨by omega, by simp; omega, by simp, .nil⟩
  rw [size1, ← bind_assoc]
  refine ends_after (inside d3 0 stage3.valid entryReady fits) fun last d4 done => ends_flow fun d5 linked5 size5 => ?_
  have size4 := done.grows.size
  have kept (block : Nat) (listed : block ∈ [d2.blocks.length, d1.blocks.length]) : d5.callsOf block = [] := by
    have none : d3.callsOf block = [] := length_eq_zero_iff.mp (stage3.tip (mem_append_left [({} : Draft).blocks.length] listed))
    have member : block < d3.blocks.length ∧ block ≠ 0 := by
      simp only [mem_cons, not_mem_nil, or_false] at listed
      omega
    rw [linked5.calls, (done.grows.kept block member.1 member.2).1, none]
  have parts (lawful : body.Lawful) (spelled : ∃ node, body.Spelled node) : (∃ items, SpelledPatterns body.params items) ∧
        LawfulAll [] body.statements ∧ ∃ items, SpelledStmts body.statements items := by
    obtain ⟨node, _, ⟨params, _, spelledParams⟩, _, items, _, spelled⟩ := spelled
    exact ⟨⟨params, spelledParams⟩, lawful, items, spelled⟩
  refine ⟨linked5.valid done.valid done.inside (by simp; omega), by omega, kept 1 (by simp; omega), kept 2 (by simp; omega), ?_, ?_⟩
  · intro lawful spelled
    rw [linked5.fault]
    refine done.faultless (parts lawful spelled) ?_
    rw [fault3, fault2, fault1]
  · intro lawful spelled trace completion run
    have reaches := completed_flows done (padded_refl d4) linked5 (by simp) (parts lawful spelled) trace completion run
    rwa [stage3.tip] at reaches

end HookLint.Flow

namespace HookLint

-- The calls that a walk makes, block by block.
def FlowGraph.callsAlong (graph : FlowGraph) (path : List Nat) : List Value :=
  path.flatMap fun block => (graph.blocks[block]?.map (·.calls)).getD []

-- The block in which a run ends.
def FlowGraph.endOf (graph : FlowGraph) : Flow.Completion → Option Nat
  | .normal | .returned => some graph.exit
  | .thrown => graph.throwExit
  | .broke _ | .continued _ => none

namespace Flow

open List

theorem flows_walk {draft : Draft} (name : Value) {block offset final finalOffset : Nat} {trace : List Value}
    (flows : Flows draft block offset trace final finalOffset) : ∃ path, Walk (draft.graph name).successors block path final ∧
      path.flatMap draft.callsOf = (draft.callsOf block).take offset ++ trace ++ (draft.callsOf final).drop finalOffset := by
  induction flows with
  | stay block offset => exact ⟨[block], .single block, by simp⟩
  | call block offset call trace final finalOffset made _ ih =>
    obtain ⟨path, walk, calls⟩ := ih
    refine ⟨path, walk, ?_⟩
    rw [calls, take_add_one, made]
    simp
  | edge edge trace final finalOffset member _ _ ih =>
    obtain ⟨path, walk, calls⟩ := ih
    have ahead : edge.target ∈ (draft.graph name).successors edge.source := (Graph.mem_successors _ _ _).mpr ⟨edge, member, rfl, rfl⟩
    refine ⟨edge.source :: path, .step _ _ _ path ahead walk, ?_⟩
    rw [flatMap_cons, calls, Draft.tip, take_length]
    simp

theorem lands_at_end {draft : Draft} (name : Value) {completion : Completion} {block offset : Nat}
    (lands : ({} : Place).Lands draft 1 0 completion block offset) :
    (draft.graph name).endOf completion = some block ∧ offset = 0 ∧ (block = 1 ∨ block = 2) := by
  cases completion with
  | normal => exact ⟨congrArg some lands.1.symm, lands.2, .inl lands.1⟩
  | thrown => exact ⟨congrArg some lands.1.symm, lands.2, .inr lands.1⟩
  | returned => exact ⟨congrArg some lands.1.symm, lands.2, .inl lands.1⟩
  | broke label =>
    obtain ⟨⟨_, impossible, _⟩, _⟩ := lands
    cases impossible
  | continued label =>
    obtain ⟨⟨_, _, impossible, _⟩, _⟩ := lands
    cases impossible

theorem of_unit_well_formed (name node : Value) (graph : FlowGraph) (built : FlowGraph.ofUnit name node = .ok graph) :
    graph.WellFormed := by
  have covered : Covered (readUnit node) (readUnit node).draft := ends_body (readUnit node)
  have size := covered.size
  simp only [FlowGraph.ofUnit] at built
  split at built
  · cases built
  · cases built
    refine ⟨mem_range.mpr (Nat.lt_of_lt_of_le (by decide : 0 < 3) size), fun edge member => ?_, fun edge member => ?_⟩
    · exact mem_range.mpr (covered.valid.edges edge member).1
    · exact mem_range.mpr (covered.valid.edges edge member).2

theorem run_has_walk (name node : Value) (body : Body) (spelled : body.Spelled node) (lawful : body.Lawful) :
    ∃ graph, FlowGraph.ofUnit name node = .ok graph ∧
      ∀ trace completion, body.Runs trace completion → ∃ final path, graph.endOf completion = some final ∧
        Walk graph.successors graph.entry path final ∧ graph.callsAlong path = trace := by
  have covered : Covered body body.draft := ends_body body
  have spelledSome : ∃ node, body.Spelled node := ⟨node, spelled⟩
  refine ⟨body.draft.graph name, ?_, fun trace completion run => ?_⟩
  · rw [FlowGraph.ofUnit, body.read node spelled]
    simp only [covered.faultless lawful spelledSome]
  obtain ⟨block, offset, lands, flows⟩ := covered.reaches lawful spelledSome trace completion run
  obtain ⟨ends, rfl, which⟩ := lands_at_end name lands
  obtain ⟨path, walk, calls⟩ := flows_walk name flows
  have quiet : body.draft.callsOf block = [] := by
    rcases which with rfl | rfl
    · exact covered.exitEmpty
    · exact covered.throwEmpty
  refine ⟨block, path, ends, walk, ?_⟩
  rw [quiet] at calls
  show path.flatMap body.draft.callsOf = trace
  simpa using calls

-- A loop that is left in the middle of a round, through a finalizer.
def namedCall (name : String) : Value :=
  .made [("type", .str "CallExpression"), ("callee", .made [("type", .str "Identifier"), ("name", .str name)]), ("arguments", .list [])]

def callStatement (name : String) : Value := .made [("type", .str "ExpressionStatement"), ("expression", namedCall name)]

def breakNode : Value := .made [("type", .str "BreakStatement"), ("label", .null)]

def blockNode (statements : List Value) : Value := .made [("type", .str "BlockStatement"), ("body", .list statements)]

def guardedLoop : Value :=
  .made [("type", .str "WhileStatement"), ("test", namedCall "more"), ("body", blockNode [
    .made [("type", .str "TryStatement"),
      ("block", blockNode [.made [("type", .str "IfStatement"), ("test", namedCall "done"), ("consequent", breakNode)]]),
      ("finalizer", blockNode [callStatement "release"])]])]

def guardedLoopNode : Value :=
  .made [("type", .str "FunctionDeclaration"), ("params", .list []), ("body", blockNode [guardedLoop, callStatement "finish"])]

def callForm (name : String) : Expr := .call (namedCall name) false .leaf []

def guardedLoopBody : Body where
  statements := [
    .whileLoop none (callForm "more") (some (.block [
      .tryCatch [.ifElse (namedCall "done") (callForm "done") (some (.breakTo (Region.of breakNode) none)) none] none
        (some (.block [.evaluate (callStatement "release") (callForm "release")]))])),
    .evaluate (callStatement "finish") (callForm "finish")]

theorem call_form_spelled (name : String) : (callForm name).Spelled (namedCall name) := by
  refine ⟨rfl, .inl (by rfl), .inr ⟨rfl, rfl⟩, by rfl, [], rfl, rfl⟩

theorem call_statement_spelled (name : String) : (Stmt.evaluate (callStatement name) (callForm name)).Spelled (callStatement name) :=
  ⟨rfl, by rfl, call_form_spelled name⟩

theorem break_if_done_spelled : (Stmt.ifElse (namedCall "done") (callForm "done") (some (.breakTo (Region.of breakNode) none)) none).Spelled
    (.made [("type", .str "IfStatement"), ("test", namedCall "done"), ("consequent", breakNode)]) :=
  ⟨rfl, by rfl, call_form_spelled "done", ⟨rfl, by rfl, rfl⟩, rfl⟩

theorem guarded_loop_spelled : guardedLoopBody.Spelled guardedLoopNode := by
  have release : (Stmt.block [.evaluate (callStatement "release") (callForm "release")]).Spelled (blockNode [callStatement "release"]) :=
    ⟨by rfl, _, rfl, _, _, rfl, call_statement_spelled "release", rfl⟩
  refine ⟨by rfl, ⟨[], rfl, rfl⟩, by rfl, _, rfl, _, _, rfl, ?_, _, _, rfl, call_statement_spelled "finish", rfl⟩
  refine ⟨_, .inl ⟨rfl, rfl⟩, by rfl, call_form_spelled "more", by rfl, _, rfl, _, _, rfl, ?_, rfl⟩
  exact ⟨by rfl, by rfl, ⟨_, rfl, _, _, rfl, break_if_done_spelled, rfl⟩, rfl, release, .inr rfl⟩

theorem call_form_evaluates (name : String) : (callForm name).Evaluates .value [namedCall name] := by
  simp [callForm, Expr.Evaluates, EvaluatesAll, Then, Silent]

theorem guarded_loop_runs : guardedLoopBody.Runs [namedCall "more", namedCall "done", namedCall "release", namedCall "finish"] .normal := by
  have finish : RunsAll [.evaluate (callStatement "finish") (callForm "finish")] [namedCall "finish"] .normal := by
    exact .inr ⟨_, [], ⟨call_form_evaluates "finish", rfl⟩, ⟨rfl, rfl⟩, rfl⟩
  have guarded : RunsAll [.ifElse (namedCall "done") (callForm "done") (some (.breakTo (Region.of breakNode) none)) none]
      [namedCall "done"] (.broke none) := by
    exact .inl ⟨⟨_, [], call_form_evaluates "done", .inl ⟨rfl, rfl⟩, rfl⟩, by simp⟩
  have release : RunsAll [.evaluate (callStatement "release") (callForm "release")] [namedCall "release"] .normal := by
    exact .inr ⟨_, [], ⟨call_form_evaluates "release", rfl⟩, ⟨rfl, rfl⟩, rfl⟩
  refine ⟨[], _, rfl, .inr ⟨[namedCall "more", namedCall "done", namedCall "release"], _, ?_, finish, rfl⟩, rfl⟩
  refine .broken [namedCall "more"] _ (.broke none) (call_form_evaluates "more") (.inl ⟨?_, by simp⟩) trivial
  simp only [RunsAll, Stmt.Runs, RunsIf] at guarded release
  exact ⟨_, _, .broke none, .normal, guarded, release, rfl, .inl ⟨rfl, rfl⟩⟩

theorem guarded_loop_covered : guardedLoopBody.Spelled guardedLoopNode ∧ guardedLoopBody.Lawful ∧
    ∃ graph, FlowGraph.ofUnit .null guardedLoopNode = .ok graph ∧
      ∃ final path, graph.endOf .normal = some final ∧ Walk graph.successors graph.entry path final ∧
        graph.callsAlong path = [namedCall "more", namedCall "done", namedCall "release", namedCall "finish"] := by
  have lawful : guardedLoopBody.Lawful := by
    simp [guardedLoopBody, Body.Lawful, LawfulAll, LawfulIf, Stmt.Lawful, LawfulHandler, Surrounding.takesBreak]
  obtain ⟨graph, built, covers⟩ := run_has_walk .null guardedLoopNode guardedLoopBody guarded_loop_spelled lawful
  exact ⟨guarded_loop_spelled, lawful, graph, built, covers _ _ guarded_loop_runs⟩
end Flow

end HookLint
