import HookLint.Proofs.Flow.Coverage
import HookLint.Proofs.Flow.Dispatch

namespace HookLint.Flow

open List

-- Statements without try, nothing of which is approximated.
mutual
def Stmt.Plain : Stmt → Prop
  | .note _ | .breakTo _ _ | .continueTo _ _ => True
  | .block body => PlainAll body
  | .evaluate _ value | .returnValue _ value | .throwValue _ value => value.Chained false
  | .declare declared => declared.Chained
  | .ifElse _ test consequent alternate => test.Chained false ∧ PlainIf consequent ∧ PlainIf alternate
  | .labeled _ body => body.Plain
  | .whileLoop _ test body | .doWhileLoop _ body test => test.Chained false ∧ PlainIf body
  | .forLoop _ start test update body => start.Chained ∧ ChainedIf test ∧ update.Chained false ∧ PlainIf body
  | .forEach _ source targets body => source.Chained false ∧ ChainedPatterns targets ∧ PlainIf body
  | .switch _ discriminant cases => discriminant.Chained false ∧ PlainCases cases
  | .bare _ | .tryCatch _ _ _ | .withObject _ _ | .region _ | .broken _ => False
def PlainAll : List Stmt → Prop
  | [] => True
  | stmt :: rest => stmt.Plain ∧ PlainAll rest
def PlainIf : Option Stmt → Prop
  | none => True
  | some stmt => stmt.Plain
def PlainCases : List Case → Prop
  | [] => True
  | branch :: rest => branch.Plain ∧ PlainCases rest
def Case.Plain : Case → Prop
  | .mk test body => ChainedIf test ∧ PlainAll body
end

def Body.Plain (body : Body) : Prop := ChainedPatterns body.params ∧ PlainAll body.statements

section
variable {place : Place} {around : List Surrounding}

theorem jump_alone (alone : place.finalizers = []) (block target : Nat) (kind : EdgeKind) (depth : Nat) :
    jump place block target kind depth = connect block target kind := by
  rw [jump, alone]

theorem aims_alone (alone : place.finalizers = []) (draft : Draft) (target depth : Nat) : place.Aims draft target depth target := by
  rw [Place.Aims, gate_none (alone ▸ Nat.zero_le _)]

theorem plain_tests : (cases : List Case) → PlainCases cases → ∀ branch ∈ cases, ChainedIf branch.test
  | [], _ => by simp
  | .mk test body :: rest, plain => forall_mem_cons.mpr ⟨plain.1.1, plain_tests rest plain.2⟩

end

-- By cases on the form: what is built mirrors the runs part by part.
mutual
theorem Stmt.follows (place : Place) (around : List Surrounding) (alone : place.finalizers = []) : (stmt : Stmt) →
    stmt.Lawful around → stmt.Plain → Follows place around (stmt.build place) stmt.Runs
  | .note node, _, _ => follows_of (follows_noted node (follows_ready (follows_nothing place around)))
  | .block body, lawful, plain => follows_of (follows_ready (follows_all place around alone body lawful plain))
  | .evaluate node value, _, plain => follows_of (follows_noted node (follows_evaluated rfl (value.decodes_alone place.scene plain)))
  | .declare declared, _, plain => follows_of (follows_evaluated rfl (decodes_variables place.scene declared plain))
  | .returnValue node value, _, plain => by
    have returns : Follows place around (fun start => do connect start 1 .earlyReturn; close start; return start)
        fun trace ending => trace = [] ∧ ending = .returned :=
      follows_jump (by simp) (fun size fits => fits.exit) fun draft _ _ => ⟨aims_alone alone draft 1 0, rfl⟩
    refine follows_of (follows_before rfl (value.decodes_alone place.scene plain) (follows_noted node returns)) ?_
      fun start => by simp only [Stmt.build, jump_alone alone]
    rintro trace completion ⟨head, tail, values, ⟨rfl, rfl⟩, rfl⟩
    simpa only [Stmt.Runs, append_nil, and_true] using values
  | .throwValue node value, _, plain => by
    have throws : Follows place around (fun start => do connect start place.handler .throw; close start; return start)
        fun trace ending => trace = [] ∧ ending = .thrown :=
      follows_jump (by simp) (fun size fits => fits.handler) fun draft _ _ => ⟨rfl, rfl⟩
    refine follows_of (follows_before rfl (value.decodes_alone place.scene plain) (follows_noted node throws)) ?_
    rintro trace completion ⟨head, tail, values, ⟨rfl, rfl⟩, rfl⟩
    simpa only [Stmt.Runs, append_nil, and_true] using values
  | .ifElse subject test consequent (some alternate), lawful, plain => by
    have branches := follows_if_else place.inLoop (follows_optional place around alone consequent lawful.1 plain.2.1)
      (alternate.follows place around alone lawful.2 plain.2.2)
    have marked := follows_marked (fun block => { block with kind := .ifCondition }) (fun _ => rfl) branches
    exact follows_of (follows_noted subject (follows_before rfl (test.decodes_alone place.scene plain.1) marked))
  | .ifElse subject test consequent none, lawful, plain => by
    have branches := follows_if place.inLoop (follows_optional place around alone consequent lawful.1 plain.2.1)
    have marked := follows_marked (fun block => { block with kind := .ifCondition }) (fun _ => rfl) branches
    exact follows_of (follows_noted subject (follows_before rfl (test.decodes_alone place.scene plain.1) marked))
  | .labeled label body, lawful, plain =>
    follows_of (follows_labeled place.inLoop label fun inner same =>
      body.follows inner _ (same.trans alone) lawful plain)
  | .whileLoop label test body, lawful, plain =>
    follows_of (follows_while place.inLoop label rfl (test.decodes_alone place.scene plain.1) fun inner same =>
      follows_optional inner _ (same.trans alone) body lawful plain.2)
  | .doWhileLoop label body test, lawful, plain =>
    follows_of (follows_do_while place.inLoop label rfl (test.decodes_alone place.scene plain.1) fun inner same =>
      follows_optional inner _ (same.trans alone) body lawful plain.2)
  | .forLoop label start test update body, lawful, plain => by
    obtain ⟨startPlain, testPlain, updatePlain, bodyPlain⟩ := plain
    have heads (before : Draft) (header after : Nat) (valid : before.Valid) (bare : before.Bare header)
        (small : after < before.blocks.length) :=
      ends_for_headed (rfl : place.scene.chainEnd = none) test testPlain valid bare small
    have loop := follows_for place place.inLoop label rfl heads (update.decodes_alone place.scene updatePlain)
      fun inner same => follows_optional inner (.loop label :: around) (same.trans alone) body lawful bodyPlain
    exact follows_of (follows_before rfl (start.decodes place.scene startPlain) loop) (fun _ _ run => run) fun _ => by cases test <;> rfl
  | .forEach label source targets body, lawful, plain => by
    have loop := follows_for_each place place.inLoop label rfl (decodes_patterns { inLoop := true } targets plain.2.1)
      fun inner same => follows_optional inner (.loop label :: around) (same.trans alone) body lawful plain.2.2
    exact follows_of (follows_before rfl (source.decodes_alone place.scene plain.1) loop)
  | .breakTo area label, lawful, _ => by
    intro before start valid bare fits
    obtain ⟨target, found⟩ := break_found fits lawful
    have breaks : Follows place around (fun start => do connect start target.breakTo .break; close start; return start)
        fun trace ending => trace = [] ∧ ending = .broke label := by
      refine follows_jump (by simp) (fun size fits => ?_) fun draft _ _ => ⟨⟨target, found, aims_alone alone draft _ _⟩, rfl⟩
      obtain ⟨_, one⟩ := fits.jump (mem_of_find?_eq_some found)
      exact one.breakTo
    refine follows_of (follows_noted area.node breaks) (fun _ _ run => run) (fun start => ?_) before start valid bare fits
    simp only [Stmt.build, found, Option.map_some, buildJump, jump_alone alone]
  | .continueTo area label, lawful, _ => by
    intro before start valid bare fits
    obtain ⟨target, next, found, goes⟩ := continue_found fits lawful
    have continues : Follows place around (fun start => do connect start next .continue; close start; return start)
        fun trace ending => trace = [] ∧ ending = .continued label := by
      refine follows_jump (by simp) (fun size fits => ?_) fun draft _ _ => ⟨⟨target, next, found, goes, aims_alone alone draft _ _⟩, rfl⟩
      obtain ⟨_, one⟩ := fits.jump (mem_of_find?_eq_some found)
      exact one.continueTo next goes
    refine follows_of (follows_noted area.node continues) (fun _ _ run => run) (fun start => ?_) before start valid bare fits
    simp only [Stmt.build, found, goes, Option.bind_some, Option.map_some, buildJump, jump_alone alone]
  | .switch subject discriminant cases, lawful, plain => by
    have dispatch := follows_switch place around cases (fun inner same =>
      follows_cases inner _ (same.trans alone) cases lawful.2 plain.2) (plain_tests cases plain.2) lawful.1
    have marked := follows_marked (fun block => { block with kind := .switchDiscriminant }) (fun _ => rfl) dispatch
    exact follows_of (follows_noted subject (follows_before rfl (discriminant.decodes_alone place.scene plain.1) marked))
  | .bare _, _, plain | .tryCatch _ _ _, _, plain | .withObject _ _, _, plain | .region _, _, plain
  | .broken _, _, plain => by simp [Stmt.Plain] at plain
theorem follows_all (place : Place) (around : List Surrounding) (alone : place.finalizers = []) : (stmts : List Stmt) →
    LawfulAll around stmts → PlainAll stmts → FollowsAny place around (buildStmts place stmts) (RunsAll stmts)
  | [], _, _ => follows_any_of (follows_nothing place around)
  | stmt :: rest, lawful, plain =>
    follows_any_of (follows_refreshed (follows_in_turn (stmt.follows place around alone lawful.1 plain.1)
      (follows_all place around alone rest lawful.2 plain.2)))
theorem follows_optional (place : Place) (around : List Surrounding) (alone : place.finalizers = []) : (stmt : Option Stmt) →
    LawfulIf around stmt → PlainIf stmt → Follows place around (buildOptional place stmt) (RunsIf stmt)
  | none, _, _ => follows_of (follows_ready (follows_nothing place around))
  | some stmt, lawful, plain => follows_of (stmt.follows place around alone lawful plain)

theorem follows_cases (place : Place) (around : List Surrounding) (alone : place.finalizers = []) : (cases : List Case) →
    LawfulCases around cases → PlainCases cases → ∀ branch ∈ cases, Follows place around (branch.build place) branch.Runs
  | [], _, _ => by simp
  | branch :: rest, lawful, plain =>
    forall_mem_cons.mpr ⟨branch.follows place around alone lawful.1 plain.1, follows_cases place around alone rest lawful.2 plain.2⟩
theorem Case.follows (place : Place) (around : List Surrounding) (alone : place.finalizers = []) : (branch : Case) →
    branch.Lawful around → branch.Plain → Follows place around (branch.build place) branch.Runs
  | .mk test body, lawful, plain => follows_of (follows_ready (follows_all place around alone body lawful plain.2))

end

section
variable {draft : Draft} {goal length block offset : Nat} {trace : List Value}

theorem trail_end (out : draft.Out block []) (empty : draft.callsOf block = [])
    (trail : Trail draft goal length block offset trace) : block = goal ∧ trace = [] := by
  cases trail with
  | done => exact ⟨rfl, rfl⟩
  | call _ _ _ _ _ made => simp [empty] at made
  | edge _ edge _ member => cases out edge member rfl

theorem trail_calls (trail : Trail draft goal length block (draft.tip block) trace) (remaining : Nat) (offset : Nat)
    (ends : offset + remaining = draft.tip block) :
    ∃ more, Trail draft goal more block offset ((draft.callsOf block).drop offset ++ trace) := by
  induction remaining generalizing offset with
  | zero =>
    obtain rfl : offset = draft.tip block := by omega
    rw [Draft.tip, drop_length]
    exact ⟨length, trail⟩
  | succ remaining ih =>
    obtain ⟨more, rest⟩ := ih (offset + 1) (by omega)
    have small : offset < (draft.callsOf block).length := by
      rw [Draft.tip] at ends
      omega
    rw [drop_eq_getElem_cons small, cons_append]
    exact ⟨more + 1, .call more block offset _ _ (List.getElem?_eq_getElem small) rest⟩

theorem walk_trail (name : Value) {start final : Nat} {path : List Nat}
    (walk : Walk (draft.graph name).successors start path final) (empty : draft.callsOf final = []) :
    ∃ length, Trail draft final length start 0 (path.flatMap draft.callsOf) := by
  induction walk with
  | single block =>
    rw [flatMap_singleton, empty]
    exact ⟨0, .done⟩
  | step start via final path ahead _ ih =>
    obtain ⟨length, rest⟩ := ih empty
    obtain ⟨edge, member, rfl, rfl⟩ := (Graph.mem_successors _ _ _).mp ahead
    rw [flatMap_cons]
    exact trail_calls (.edge length edge _ member rest) (draft.tip edge.source) 0 (Nat.zero_add _)

end

-- What the building of a body lets through to its ends.
def Confined (body : Body) (draft : Draft) : Prop :=
  body.Lawful → body.Plain → ∀ goal length trace, goal = 1 ∨ goal = 2 → Trail draft goal length 0 0 trace →
    ∃ completion, body.Runs trace completion ∧ ({} : Place).Lands draft 1 0 completion goal 0

theorem ends_body_confined (body : Body) : Ends body.build {} fun _ draft => Confined body draft := by
  have empty : ({} : Draft).Valid := ⟨fun _ member => absurd member not_mem_nil, by simp, by simp⟩
  by_cases asked : body.Lawful ∧ body.Plain
  · obtain ⟨lawful, plain⟩ := asked
    have inside := follows_before (rfl : ({} : Scene).chainEnd = none) (decodes_patterns {} body.params plain.1)
      (follows_ready (follows_all {} [] rfl body.statements lawful plain.2))
    refine ends_add fun d1 added1 _ _ => ends_add fun d2 added2 _ size2 => ?_
    refine ends_add fun d3 added3 _ size3 => ?_
    have size1 : d1.blocks.length = 1 := added1.size
    have stage3 := (((staged_begin {} 0 empty).add added1).add added2).add added3
    have fits : ({} : Place).Fits [] d3.blocks.length := ⟨by omega, by simp; omega, by simp, .nil⟩
    rw [size1, ← bind_assoc]
    refine ends_after (inside d3 0 stage3.valid stage3.bare fits) fun last d4 done => ends_flow fun d5 linked5 _ => ?_
    have lastOwn := done.own
    have changes := done.changes.trans linked5.changes
    have ends (block : Nat) (listed : block ∈ [d2.blocks.length, d1.blocks.length]) : d5.Out block [] ∧ d5.callsOf block = [] := by
      have bare := stage3.bare (mem_append_left [({} : Draft).blocks.length] listed)
      have none := stage3.tip (mem_append_left [({} : Draft).blocks.length] listed)
      have fixed : ¬ (block = 0 ∨ block = last) := by
        simp only [mem_cons, not_mem_nil, or_false] at listed
        omega
      exact ⟨changes.out bare.inside fixed bare.out, length_eq_zero_iff.mp ((changes.tip bare.inside fixed).trans none)⟩
    intro _ _ goal length trace isEnd trail
    have splits := done.flows goal (padded_refl d4) linked5 (changes_refl (fun _ => False) d5) fun _ touch => touch.elim
    rw [stage3.tip] at splits
    obtain ⟨_, head, tail, block, offset, _, rfl, ⟨completion, run, lands⟩, rest⟩ := splits length trace trail
    obtain ⟨_, rfl, atEnd⟩ := lands_at_end .null lands
    obtain ⟨out, quiet⟩ := ends block (by simp; omega)
    obtain ⟨rfl, rfl⟩ := trail_end out quiet rest
    rw [append_nil]
    exact ⟨completion, run, lands⟩
  · exact fun lawful plain => absurd ⟨lawful, plain⟩ asked

theorem walk_has_run (name node : Value) (body : Body) (spelled : body.Spelled node) (lawful : body.Lawful) (plain : body.Plain) :
    ∃ graph, FlowGraph.ofUnit name node = .ok graph ∧ (∀ path, Walk graph.successors graph.entry path graph.exit →
        body.Runs (graph.callsAlong path) .normal ∨ body.Runs (graph.callsAlong path) .returned) ∧
      ∃ throwExit, graph.throwExit = some throwExit ∧ ∀ path, Walk graph.successors graph.entry path throwExit →
        body.Runs (graph.callsAlong path) .thrown := by
  have covered : Covered body body.draft := ends_body body
  have confined : Confined body body.draft := ends_body_confined body
  refine ⟨body.draft.graph name, ?_, fun path walk => ?_, 2, rfl, fun path walk => ?_⟩
  · rw [FlowGraph.ofUnit, body.read node spelled]
    simp only [covered.faultless lawful ⟨node, spelled⟩]
  · obtain ⟨length, trail⟩ := walk_trail name walk covered.exitEmpty
    obtain ⟨completion, run, lands⟩ := confined lawful plain 1 length _ (.inl rfl) trail
    cases completion with
    | normal => exact .inl run
    | returned => exact .inr run
    | thrown => cases lands.1
    | broke label => obtain ⟨⟨_, ⟨⟩, _⟩, _⟩ := lands
    | continued label => obtain ⟨⟨_, _, ⟨⟩, _⟩, _⟩ := lands
  · obtain ⟨length, trail⟩ := walk_trail name walk covered.throwEmpty
    obtain ⟨completion, run, lands⟩ := confined lawful plain 2 length _ (.inr rfl) trail
    cases completion with
    | thrown => exact run
    | normal | returned => cases lands.1
    | broke label => obtain ⟨⟨_, ⟨⟩, _⟩, _⟩ := lands
    | continued label => obtain ⟨⟨_, _, ⟨⟩, _⟩, _⟩ := lands

-- A loop that is left in the middle of a round.
def brokenLoopNode : Value :=
  .made [("type", .str "FunctionDeclaration"), ("params", .list []), ("body", blockNode [
    .made [("type", .str "WhileStatement"), ("test", namedCall "more"), ("body",
      .made [("type", .str "IfStatement"), ("test", namedCall "done"), ("consequent", breakNode)])],
    callStatement "finish"])]

def brokenLoopBody : Body where
  statements := [
    .whileLoop none (callForm "more")
      (some (.ifElse (namedCall "done") (callForm "done") (some (.breakTo (Region.of breakNode) none)) none)),
    .evaluate (callStatement "finish") (callForm "finish")]

theorem broken_loop_spelled : brokenLoopBody.Spelled brokenLoopNode := by
  refine ⟨by rfl, ⟨[], rfl, rfl⟩, by rfl, _, rfl, _, _, rfl, ?_, _, _, rfl, call_statement_spelled "finish", rfl⟩
  exact ⟨_, .inl ⟨rfl, rfl⟩, by rfl, call_form_spelled "more", break_if_done_spelled⟩

theorem broken_loop_confined : brokenLoopBody.Spelled brokenLoopNode ∧ brokenLoopBody.Lawful ∧ brokenLoopBody.Plain ∧
    ∃ graph, FlowGraph.ofUnit .null brokenLoopNode = .ok graph ∧
      (∀ path, Walk graph.successors graph.entry path graph.exit → brokenLoopBody.Runs (graph.callsAlong path) .normal ∨
        brokenLoopBody.Runs (graph.callsAlong path) .returned) := by
  have lawful : brokenLoopBody.Lawful := by simp [brokenLoopBody, Body.Lawful, LawfulAll, LawfulIf, Stmt.Lawful, Surrounding.takesBreak]
  have plain : brokenLoopBody.Plain := by
    simp [brokenLoopBody, Body.Plain, ChainedPatterns, PlainAll, PlainIf, Stmt.Plain, callForm, Expr.Chained, ChainedAll]
  obtain ⟨graph, built, confined, _⟩ := walk_has_run .null brokenLoopNode brokenLoopBody broken_loop_spelled lawful plain
  exact ⟨broken_loop_spelled, lawful, plain, graph, built, confined⟩

end HookLint.Flow
