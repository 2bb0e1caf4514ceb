import HookLint.Proofs.Flow.Completed
import HookLint.Proofs.Flow.Drawn

namespace HookLint.Flow

open List

variable {target goal depth start : Nat} {stmt : Stmt} {outline : Outline} {Post : PUnit → Draft → Prop}

-- No jump out of a place goes to the entry, and what it may be aimed at lies under no more finalizers
-- than the place itself.
structure Place.Apt (place : Place) : Prop where
  handler : place.handler ≠ 0
  finalizers : ∀ block ∈ place.finalizers, block ≠ 0
  breaks : ∀ target ∈ place.targets, target.breakTo ≠ 0
  continues : ∀ target ∈ place.targets, ∀ block ∈ target.continueTo, block ≠ 0
  level : place.Level

section
variable {place inner : Place}

theorem Place.Apt.enter {target : JumpTarget} (apt : place.Apt) (within : inner.Within place target) (breaks : target.breakTo ≠ 0)
    (continues : ∀ block ∈ target.continueTo, block ≠ 0) : inner.Apt := by
  obtain ⟨targets, handler, finalizers, depth⟩ := within
  refine ⟨handler ▸ apt.handler, finalizers ▸ apt.finalizers, ?_, ?_, ?_⟩
  · rw [targets, forall_mem_cons]
    exact ⟨breaks, apt.breaks⟩
  · rw [targets, forall_mem_cons]
    exact ⟨continues, apt.continues⟩
  · rw [Place.Level, targets, finalizers, forall_mem_cons]
    exact ⟨Nat.le_of_eq depth, apt.level⟩

theorem Place.Apt.guard (apt : place.Apt) (more : List Nat) (targets : inner.targets = place.targets)
    (finalizers : inner.finalizers = more ++ place.finalizers) (positive : inner.handler ≠ 0) (all : ∀ block ∈ more, block ≠ 0) :
    inner.Apt := by
  refine ⟨positive, ?_, targets ▸ apt.breaks, targets ▸ apt.continues, fun target member => ?_⟩
  · rw [finalizers, forall_mem_append]
    exact ⟨all, apt.finalizers⟩
  · rw [finalizers, length_append]
    exact Nat.le_add_left_of_le (apt.level target (targets ▸ member))

theorem Place.Apt.aim (apt : place.Apt) {leap : Leap} (aims : leap.aim place = some (goal, depth)) : goal ≠ 0 := by
  cases leap with
  | back =>
    cases aims
    decide
  | «break» label =>
    obtain ⟨target, found, same⟩ := Option.map_eq_some_iff.mp aims
    obtain ⟨rfl, _⟩ := Prod.mk.inj same
    exact apt.breaks target (mem_of_find?_eq_some found)
  | «continue» label =>
    obtain ⟨target, found, mapped⟩ := Option.bind_eq_some_iff.mp aims
    obtain ⟨block, isTarget, same⟩ := Option.map_eq_some_iff.mp mapped
    obtain ⟨rfl, _⟩ := Prod.mk.inj same
    exact apt.continues target (mem_of_find?_eq_some found) block isTarget

end

-- What statements say: where their jumps stand, their try statements, the calls that they start with, and
-- which of them are guarded by which block.
structure Text where
  spots : List (Option Surrounding) → List Spot
  attempts : List Attempt
  lead : Lead
  guarded : List (Nat × Stmt)

-- Somewhere on the way the try statement was built, and exceptions go to the block that was made for its own clause.
def Attempt.Guarded (attempt : Attempt) (draft : Draft) : Prop :=
  ∃ place start before, Keeps ((attempt.stmt.build place start).run before).2 draft ∧
    attempt.Shielded draft.blocks draft.edges (attempt.receiver before.blocks.length)

-- An outline has the jumps of the text, those that are aimed at something have been led there, and
-- exceptions go where they are caught.
structure Outline.Tells (outline : Outline) (place : Place) (text : Text) (draft : Draft) : Prop where
  holds : outline.Holds place draft
  lists : ∀ frames, (outline.jumps frames).map Jump.spot = text.spots (frames.map Frame.text)
  shields : ∀ attempt ∈ text.attempts, attempt.Guarded draft
  escapes : ∀ pair ∈ text.guarded, pair.2.Escapes draft.blocks draft.edges pair.1

section
variable {place inner : Place} {early late : Text} {lead : Lead} {draft after : Draft}

theorem Stmt.Escapes.keep (keeps : Keeps draft after) (escapes : stmt.Escapes draft.blocks draft.edges target) :
    stmt.Escapes after.blocks after.edges target := by
  obtain ⟨start, made, has⟩ := escapes
  exact ⟨start, keeps.edges _ made, Draft.Has.keep has keeps⟩

theorem Attempt.Guarded.keep {attempt : Attempt} (keeps : Keeps draft after) (guarded : attempt.Guarded draft) : attempt.Guarded after := by
  obtain ⟨place, start, before, built, shielded⟩ := guarded
  refine ⟨place, start, before, built.trans keeps, fun kind entry => ?_, fun stmt member => (shielded.escapes stmt member).keep keeps⟩
  obtain ⟨block, found, grows⟩ := shielded.received kind entry
  obtain ⟨grown, found, more⟩ := keeps.blocks _ block found
  exact ⟨grown, found, grows.trans more⟩

theorem tells_nothing : Outline.nothing.Tells place ⟨fun _ => [], [], .split, []⟩ draft := ⟨holds_nothing _ _, fun _ => rfl, nofun, nofun⟩

theorem tells_both {first second : Outline} (one : first.Tells place early draft) (other : second.Tells place late draft) :
    (Outline.both first second).Tells place
      ⟨fun around => early.spots around ++ late.spots around, early.attempts ++ late.attempts, .split, early.guarded ++ late.guarded⟩ draft := by
  refine ⟨holds_both.mpr ⟨one.holds, other.holds⟩, fun frames => ?_, forall_mem_append.mpr ⟨one.shields, other.shields⟩,
    forall_mem_append.mpr ⟨one.escapes, other.escapes⟩⟩
  rw [Outline.jumps, map_append, one.lists, other.lists]

theorem tells_inside {target : JumpTarget} {part : Outline} (within : inner.Within place target) (made : target.Made draft.blocks)
    (tells : part.Tells inner early draft) :
    (Outline.inside target part).Tells place ⟨fun around => early.spots (some target.text :: around), early.attempts, lead, early.guarded⟩ draft :=
  ⟨holds_inside within made tells.holds, fun frames => tells.lists (.within target :: frames), tells.shields, tells.escapes⟩

theorem Outline.Tells.same (tells : outline.Tells inner early draft) (targets : inner.targets = place.targets)
    (finalizers : inner.finalizers = place.finalizers) : outline.Tells place early draft :=
  ⟨holds_same targets finalizers tells.holds, tells.lists, tells.shields, tells.escapes⟩

theorem Outline.Tells.leading (tells : outline.Tells place early draft) : outline.Tells place { early with lead } draft :=
  ⟨tells.holds, tells.lists, tells.shields, tells.escapes⟩

theorem tells_guarded {finalizer : Finalizer} {tried last : Outline} (apt : place.Apt) (targets : inner.targets = place.targets)
    (finalizers : inner.finalizers = finalizer.entry :: place.finalizers) (keeps : Keeps draft after)
    (resumed : finalizer.Resumed place draft after) (ended : finalizer.ended = true → finalizer.last ∈ after.closed)
    (tells : tried.Tells inner early draft) (lasts : last.Tells place late after) : (Outline.guarded finalizer tried last).Tells place
      ⟨fun around => early.spots (none :: around) ++ late.spots around, early.attempts ++ late.attempts, lead, early.guarded⟩ after := by
  refine ⟨holds_guarded apt.level targets finalizers keeps resumed ended tells.holds lasts.holds, fun frames => ?_, ?_,
    fun pair member => (tells.escapes pair member).keep keeps⟩
  · rw [Outline.jumps, map_append, tells.lists, lasts.lists]
    rfl
  · refine forall_mem_append.mpr ⟨fun attempt member => ?_, lasts.shields⟩
    exact (tells.shields attempt member).keep keeps

theorem tells_escape (tells : outline.Tells place early draft)
    (starts : stmt.lead.calls ⊆ early.lead.calls) (made : ⟨start, target, .exception⟩ ∈ draft.edges)
    (has : draft.Has start early.lead.calls) :
    outline.Tells place ⟨early.spots, early.attempts, lead, (target, stmt) :: early.guarded⟩ draft :=
  ⟨tells.holds, tells.lists, tells.shields, forall_mem_cons.mpr ⟨⟨start, made, fun call member => has call (starts member)⟩, tells.escapes⟩⟩

theorem tells_attempt (attempt : Attempt) (before : Draft) (tells : outline.Tells place early draft)
    (built : Keeps ((attempt.stmt.outline place start).run before).2 draft) (same : attempt.receiver before.blocks.length = target)
    (received : ∀ kind, attempt.entry = some kind → ∃ block, draft.blocks[target]? = some block ∧ Block.Grows { kind } block)
    (all : ∀ stmt ∈ attempt.tried, (target, stmt) ∈ early.guarded) :
    outline.Tells place ⟨early.spots, attempt :: early.attempts, lead, []⟩ draft := by
  subst same
  refine ⟨tells.holds, tells.lists, forall_mem_cons.mpr ⟨⟨place, start, before, ?_, received, fun stmt member => ?_⟩, tells.shields⟩, nofun⟩
  · rw [← attempt.stmt.outline_build place]
    exact built
  · exact tells.escapes _ (all stmt member)

end

-- What building a statement gives: it uses up the block that it starts from, and either hands on the
-- block in which it ends or has ended that in a jump. The block that it starts from has the calls of its lead.
def Shaped (sheet : Sheet) (place : Place) (marks : Marks) (text : Text) (start : Nat) (result : Nat × Outline) (after : Draft) : Prop :=
  ((∀ block, sheet.opened block → block ≠ start → block ≠ result.1) ∧
    (start ∉ sheet.draft.closed → text.lead.whole = true → result.1 = start ∧ start ∉ after.closed)) ∧
    Drawing sheet marks (fun draft => result.2.Tells place text draft ∧ (start ∉ sheet.draft.closed → draft.Has start text.lead.calls))
      (fun block => block = result.1 ∧ result.1 ∉ after.closed ∨ sheet.alive block ∧ block ≠ start)
      (fun block => block = result.1 ∧ result.1 ∉ after.closed ∨ sheet.opened block ∧ block ≠ start)
      (fun side block => side = place.inLoop ∧ block = result.1 ∨ sheet.lies side block) after

def Shapes (place : Place) (marks : Marks) (text : Text) (action : Nat → Build (Nat × Outline)) : Prop :=
  ∀ (sheet : Sheet) (start : Nat), sheet.Sane → sheet.alive start → sheet.lies place.inLoop start →
    Ends (action start) sheet.draft (Shaped sheet place marks text start)

-- The same from a block that may have ended in a jump already.
def ShapesAny (place : Place) (marks : Marks) (text : Text) (action : Nat → Build (Nat × Outline)) : Prop :=
  ∀ (sheet : Sheet) (start : Nat), sheet.Sane → (start ∉ sheet.draft.closed → sheet.alive start) → sheet.lies place.inLoop start →
    Ends (action start) sheet.draft (Shaped sheet place marks text start)

theorem ends_run {α : Type} {Post : α → Draft → Prop} {action : Build α} {draft : Draft}
    (next : ∀ last, last = (action.run draft).2 → Ends action draft fun answer after => after = last → Post answer after) :
    Ends action draft Post := next _ rfl rfl

theorem ends_get {Post : Draft → Draft → Prop} {draft : Draft} (next : Post draft draft) : Ends get draft Post := next

theorem ends_chain {α β γ : Type} {action : Build α} {middle : α → Build β} {rest : β → Build γ} {Post : γ → Draft → Prop} {draft : Draft}
    (ends : Ends (action >>= middle) draft fun answer next => Ends (rest answer) next Post) :
    Ends action draft fun answer next => Ends (middle answer >>= rest) next Post := ends

theorem ShapesAny.shapes {place : Place} {marks : Marks} {text : Text} {action : Nat → Build (Nat × Outline)}
    (shapes : ShapesAny place marks text action) : Shapes place marks text action :=
  fun sheet start sane lives => shapes sheet start sane fun _ => lives

section
variable {origin : Sheet} {marks others : Marks} {known : Draft → Prop} {alive opened : Nat → Prop}
  {lies : Bool → Nat → Prop} {draft : Draft} {place inner : Place} {text : Text}

theorem Drawing.shape {most : Marks} {final : Nat} (drawing : Drawing origin marks known alive opened lies draft)
    (included : Included marks most)
    (tells : ∀ later, known later → outline.Tells place text later ∧ (start ∉ origin.draft.closed → later.Has start text.lead.calls))
    (whole : start ∉ origin.draft.closed → text.lead.whole = true → final = start ∧ start ∉ draft.closed)
    (apart : ∀ block, origin.opened block → block ≠ start → block ≠ final)
    (fits : (∀ block, alive block → opened block) → (∀ block, opened block → block ∉ draft.closed) → ∀ block,
      ((block = final ∧ final ∉ draft.closed ∨ origin.alive block ∧ block ≠ start) ↔ alive block) ∧
      (block = final ∧ final ∉ draft.closed ∨ origin.alive block ∧ block ≠ start →
        block = final ∧ final ∉ draft.closed ∨ origin.opened block ∧ block ≠ start) ∧
      (block = final ∧ final ∉ draft.closed ∨ origin.opened block ∧ block ≠ start → opened block) ∧
      ∀ side, side = place.inLoop ∧ block = final ∨ origin.lies side block → lies side block) :
    Shaped origin place most text start (final, outline) draft :=
  ⟨⟨apart, whole⟩, drawing.finish included tells (fits drawing.within fun block isOpen => (drawing.sane.isOpen block isOpen).2)⟩

variable (drawing : Drawing origin marks known alive opened lies draft)
include drawing

theorem draw_shape {Post : Nat × Outline → Draft → Prop} {action : Nat → Build (Nat × Outline)}
    (shapes : Shapes inner others text action) (lives : alive start) (inside : lies inner.inLoop start)
    (next : ∀ result after, (∀ block, opened block → block ≠ start → block ≠ result.1) →
      Drawing origin (marks ++ others) (fun draft => known draft ∧ result.2.Tells inner text draft)
        (fun block => block = result.1 ∧ result.1 ∉ after.closed ∨ alive block ∧ block ≠ start)
        (fun block => block = result.1 ∧ result.1 ∉ after.closed ∨ opened block ∧ block ≠ start)
        (fun side block => side = inner.inLoop ∧ block = result.1 ∨ lies side block) after → Post result after) :
    Ends (action start) draft Post :=
  ends_mono (shapes _ start drawing.sane lives inside) fun result after done =>
    next result after done.1.1 ((drawing.more done.2.moves).know fun later keeps => (done.2.knows later keeps).1)

theorem draw_gate {Post : Unit → Draft → Prop} {block : Nat} {kind : EdgeKind} (apt : place.Apt) (positive : goal ≠ 0)
    (next : ∀ landing between, landing ≠ 0 →
      Drawing origin marks (fun draft => known draft ∧ (⟨block, landing, kind⟩ ∈ draft.edges → place.Sends draft block goal depth kind))
        alive opened lies between → Ends (connect block landing kind) between Post) :
    Ends (jump place block goal kind depth) draft Post := by
  have direct (none : place.gate depth = none) : Ends (connect block goal kind) draft Post :=
    next goal draft positive (drawing.know fun later _ made => by simpa [Place.Sends, none] using made)
  unfold jump
  cases listed : place.finalizers with
  | nil => exact direct (by rw [Place.gate, listed])
  | cons finalizer rest =>
    by_cases deep : rest.length + 1 > depth
    · simp only [deep, if_true]
      have gate := gate_some listed (show depth ≤ rest.length by omega)
      have drawing := drawing.move (.wait _ ⟨finalizer, goal, kind, depth⟩ positive)
      refine next finalizer _ (apt.finalizers finalizer (by simp [listed])) (drawing.know fun later keeps made => ?_)
      refine ⟨by rwa [gate], fun other member => ?_⟩
      cases gate.symm.trans member
      exact keeps.pending _ (mem_append_right _ (mem_singleton.mpr rfl))
    · simp only [deep, if_false]
      exact direct (gate_none (by rw [listed, length_cons]; omega))

theorem draw_jumps {block : Nat} (apt : place.Apt) (isOpen : opened block) (left : ¬ alive block)
    (waiting : List Pending) (ahead : ∀ jumping ∈ waiting, jumping.target ≠ 0) (next : ∀ after, Drawing origin marks
      (fun draft => known draft ∧ ∀ jumping ∈ waiting, place.Sends draft block jumping.target jumping.depth jumping.kind)
      alive opened lies after → Post () after) :
    Ends (waiting.forM fun jumping => jump place block jumping.target jumping.kind jumping.depth) draft Post := by
  have within := drawing.within
  induction waiting generalizing known draft with
  | nil => exact ends_pure _ (next draft (drawing.know fun _ _ => by simp))
  | cons jumping rest ih =>
    obtain ⟨positive, ahead⟩ := forall_mem_cons.mp ahead
    refine ends_bind (draw_gate drawing apt positive fun landing between landingAhead drawing => ?_)
    refine draw_link drawing isOpen landingAhead fun d1 drawing => ?_
    have drawing : Drawing origin marks (fun draft => known draft ∧ place.Sends draft block jumping.target jumping.depth jumping.kind)
      alive opened lies d1 := drawing.finish (included_refl _) (fun _ facts => ⟨facts.1.1, facts.1.2 facts.2⟩) (by grind)
    refine ih drawing ahead fun d2 drawing => next d2 ?_
    refine drawing.finish (included_refl _) (fun _ facts => ⟨facts.1.1, ?_⟩) (by grind)
    exact forall_mem_cons.mpr ⟨facts.1.2, facts.2⟩

theorem draw_leave {source : Nat} {kind : EdgeKind} (lives : alive source) (ahead : target ≠ 0)
    (jumps : kind.isJump = true) (next : ∀ after, source ∈ after.closed →
      Drawing origin marks (fun draft => known draft ∧ ⟨source, target, kind⟩ ∈ draft.edges ∧ source ∈ draft.closed)
        (fun block => alive block ∧ block ≠ source) (fun block => opened block ∧ block ≠ source) lies after → Post () after) :
    Ends (do connect source target kind; close source) draft Post := by
  have made := (linked draft ⟨source, target, kind⟩).made trivial
  refine next _ mem_cons_self ((drawing.move (.leave _ ⟨source, target, kind⟩ lives ahead jumps)).know fun later keeps => ?_)
  exact ⟨keeps.edges _ made, keeps.closed _ mem_cons_self⟩

theorem draw_leap {source : Nat} (apt : place.Apt) (leap : Leap)
    (aims : leap.aim place = some (goal, depth)) (lives : alive source) (next : ∀ after, source ∈ after.closed →
      Drawing origin marks (fun draft => known draft ∧ (Outline.jump leap source).Tells place ⟨fun around => [⟨leap, around⟩], [], .split, []⟩ draft)
        (fun block => alive block ∧ block ≠ source) (fun block => opened block ∧ block ≠ source) lies after → Post () after) :
    Ends (do jump place source goal leap.kind depth; close source) draft Post := by
  have jumps : leap.kind.isJump = true := by cases leap <;> rfl
  refine ends_bind (draw_gate drawing apt (apt.aim aims) fun landing between ahead drawing => ?_)
  refine draw_leave drawing lives ahead jumps fun after closed drawing => next after closed ?_
  have within := drawing.within
  refine drawing.finish (included_refl _) (fun later facts => ⟨facts.1.1, ?_, fun _ => rfl, nofun, nofun⟩) (by grind)
  exact holds_jump aims (facts.1.2 facts.2.1) facts.2.2

end

-- Statements without jumps, and what statements evaluate.

theorem Expr.drawn (place : Place) (expr : Expr) : Draws place.inLoop (expr.marks place.inLoop) expr.lead (expr.build place.scene) :=
  expr.draws place.scene (by simp [Scene.Ahead, Place.scene])

theorem Pattern.drawn (place : Place) (pattern : Pattern) :
    Draws place.inLoop (pattern.marks place.inLoop) pattern.lead (pattern.build place.scene) :=
  pattern.draws place.scene (by simp [Scene.Ahead, Place.scene])

theorem draws_noted {inLoop : Bool} {marks : Marks} {lead : Lead} {action : Nat → Build Nat} (node : Value)
    (draws : Draws inLoop marks lead action) : Draws inLoop marks lead (fun start => do noteStatement start node; action start) := by
  intro sheet start sane lives inside
  have within := sane.within
  refine ends_bind (draw_statement (draw_begin sane) fun d1 drawing => draw_lead drawing draws lives inside fun final d2 away drawing => ?_)
  exact drawing.drawn away.2 (fun _ facts => facts.2) away.1 (by grind)

theorem draws_variables (place : Place) (declared : Variables) :
    Draws place.inLoop (declared.marks place.inLoop) (leadOfDeclarators declared.declarators) (buildVariables place.scene declared) := by
  refine draws_noted declared.node ?_
  unfold Variables.marks
  induction declared.declarators with
  | nil => exact draws_pure
  | cons declarator rest ih =>
    rw [flatMap_cons]
    exact draws_bind (draws_bind (declarator.value.drawn place) (declarator.target.drawn place)) ih

theorem Start.drawn (place : Place) (start : Start) : Draws place.inLoop (start.marks place.inLoop) start.lead (start.build place.scene) := by
  cases start with
  | nothing => exact draws_pure
  | declare declared => exact draws_variables place declared
  | expression value => exact value.drawn place

theorem draws_tests (place : Place) (tests : List (Option Expr × Nat)) (ahead : ∀ test ∈ tests, test.2 ≠ 0) :
    Draws place.inLoop (tests.flatMap fun test => marksOfIf place.inLoop test.1) .split (buildTests place.scene tests) := by
  induction tests with
  | nil => exact draws_pure.split
  | cons test rest ih =>
    obtain ⟨test, body⟩ := test
    obtain ⟨positive, ahead⟩ := forall_mem_cons.mp ahead
    have ih := ih ahead
    rw [flatMap_cons]
    cases test with
    | none => simpa only [buildTests, marksOfIf, nil_append] using ih
    | some test =>
      intro sheet start sane lives inside
      have within := sane.within
      refine ends_bind (draw_build (draw_begin sane) (test.drawn place) lives inside fun tested d1 away drawing => ?_)
      refine ends_bind (draw_connect drawing (.inl rfl) positive nofun fun d2 drawing => ?_)
      refine ends_bind (draw_new drawing fun next d3 ahead new _ drawing => ?_)
      refine ends_bind (draw_connect drawing (by grind) ahead nofun fun d4 drawing => ?_)
      refine draw_build drawing ih (by grind) (.inl ⟨rfl, rfl⟩) fun final d5 apart drawing => ?_
      exact drawing.drawn nofun (fun _ _ => nofun) (by grind) (by grind)

section
variable {marks others : Marks} {lead : Lead} {place : Place} {early late text : Text} {action : Nat → Build (Nat × Outline)}

theorem shapes_plain {action : Nat → Build Nat} (draws : Draws place.inLoop marks lead action) :
    Shapes place marks ⟨fun _ => [], [], lead, []⟩ (fun start => withoutJumps (action start)) := by
  intro sheet start sane lives inside
  refine ends_bind (draw_lead (draw_begin sane) draws lives inside fun final d1 away drawing => ends_pure _ ?_)
  have isOpen : final ∉ d1.closed := (drawing.sane.isOpen final (.inl rfl)).2
  exact drawing.shape (included_refl _) (fun _ facts => ⟨tells_nothing.leading, fun _ => facts.2⟩) (by grind) away.1 (by grind)

theorem shapes_nothing {whole : Bool} : ShapesAny place [] ⟨fun _ => [], [], ⟨[], whole⟩, []⟩ fun start => pure (start, .nothing) := by
  intro sheet start sane lives inside
  refine ends_pure _ ((draw_begin sane).shape (included_refl _) (fun _ _ => ⟨tells_nothing.leading, fun _ => nofun⟩) ?_ (fun _ _ => id) (by grind))
  exact fun isOpen _ => ⟨rfl, isOpen⟩

theorem shapes_before {first : Nat → Build Nat} (draws : Draws place.inLoop marks lead first) (shapes : Shapes place others text action) :
    Shapes place (marks ++ others) { text with lead := lead.andThen text.lead } fun start => first start >>= action := by
  intro sheet start sane lives inside
  have within := sane.within
  refine ends_bind (draw_lead (draw_begin sane) draws lives inside fun middle d1 away drawing => ?_)
  have isOpen : middle ∉ d1.closed := (drawing.sane.isOpen middle (.inl rfl)).2
  refine ends_mono (shapes _ middle drawing.sane (.inl rfl) (.inl ⟨rfl, rfl⟩)) fun final d2 ⟨⟨apart, stays⟩, rest⟩ => ?_
  have drawing := (drawing.more rest.moves).know rest.knows
  refine drawing.shape (included_refl _) (fun _ facts => ⟨facts.2.1.leading, fun _ => has_and_then away.2 facts.1.2 (facts.2.2 isOpen)⟩)
    (fun _ whole => ?_) (by grind) (by grind)
  obtain ⟨early, late⟩ := and_then_whole whole
  exact away.2 early ▸ stays isOpen late

theorem shapes_pair {second : Nat → Build (Nat × Outline)} (one : Shapes place marks early action) (other : ShapesAny place others late second) :
    Shapes place (marks ++ others) ⟨fun around => early.spots around ++ late.spots around, early.attempts ++ late.attempts,
        early.lead.andThen late.lead, early.guarded ++ late.guarded⟩ fun start => do
      let first ← action start
      let more ← second first.1
      return (more.1, .both first.2 more.2) := by
  intro sheet start sane lives inside
  have within := sane.within
  have isOpen : start ∉ sheet.draft.closed := (sane.isOpen start (within start lives)).2
  refine ends_after (one sheet start sane lives inside) fun first d1 ⟨⟨away, ends⟩, drawing⟩ => ?_
  refine ends_after (other _ first.1 drawing.sane (fun isOpen => .inl ⟨rfl, isOpen⟩) (.inl ⟨rfl, rfl⟩)) fun more d2 done => ?_
  obtain ⟨⟨apart, stays⟩, rest⟩ := done
  have drawing := (drawing.more rest.moves).know rest.knows
  refine ends_pure _ (drawing.shape (included_refl _) (fun _ facts => ⟨(tells_both facts.1.1 facts.2.1).leading, fun _ => ?_⟩) (fun _ whole => ?_)
    (by grind) (by grind))
  · unfold Lead.andThen
    split
    · rename_i whole
      obtain ⟨same, stillOpen⟩ := ends isOpen whole
      rw [same] at facts
      exact forall_mem_append.mpr ⟨facts.1.2 isOpen, facts.2.2 stillOpen⟩
    · exact facts.1.2 isOpen
  · obtain ⟨early, late⟩ := and_then_whole whole
    obtain ⟨same, stillOpen⟩ := ends isOpen early
    rw [same] at stays
    exact stays stillOpen late

theorem shapes_refreshed {kind : BlockKind} (shapes : Shapes place marks text action) : ShapesAny place marks text (fun start => do
      let block ← if ← isClosed start then newBlock place.inLoop kind else pure start
      action block) := by
  intro sheet start sane lives inside
  have within := sane.within
  refine ends_bind (ends_is_closed ?_)
  cases isClosed : sheet.draft.closed.contains start with
  | true =>
    have ended := contains_iff_mem.mp isClosed
    have isOpen := sane.isOpen
    refine ends_bind (draw_new (draw_begin sane) fun block d1 ahead new _ drawing => ?_)
    refine draw_shape drawing shapes (.inl rfl) (.inl ⟨rfl, rfl⟩) fun final d2 away drawing => ?_
    exact drawing.shape (included_refl _) (fun _ facts => ⟨facts.2, (absurd ended ·)⟩) (absurd ended ·) (by grind) (by grind)
  | false =>
    refine shapes sheet start sane (lives fun member => ?_) inside
    rw [contains_iff_mem.mpr member] at isClosed
    cases isClosed

theorem shapes_tried_step {thrown : Nat} (positive : thrown ≠ 0) (shapes : Shapes place marks text action)
    (starts : stmt.lead.calls ⊆ text.lead.calls) :
    ShapesAny place marks { text with lead := .split, guarded := (thrown, stmt) :: text.guarded } (fun start => do
      let block ←
        if ← isClosed start then newBlock place.inLoop .unreachable
        else do
          let next ← newBlock place.inLoop .tryBody
          connect start next .unconditional
          pure next
      connect block thrown .exception
      action block) := by
  intro sheet start sane lives inside
  have within := sane.within
  refine ends_bind (ends_is_closed ?_)
  cases isClosed : sheet.draft.closed.contains start with
  | true =>
    have ended := contains_iff_mem.mp isClosed
    have isOpen := sane.isOpen
    refine ends_bind (draw_new (draw_begin sane) fun block d1 ahead new _ drawing => ?_)
    refine ends_bind (draw_guard drawing (.inl rfl) positive fun d2 drawing => ?_)
    have living : block ∉ d2.closed := (drawing.sane.isOpen block (.inl rfl)).2
    refine ends_mono (shapes _ block drawing.sane (.inl rfl) (.inl ⟨rfl, rfl⟩)) fun final d3 ⟨⟨away, _⟩, rest⟩ => ?_
    have drawing := (drawing.more rest.moves).know rest.knows
    exact drawing.shape (included_refl _) (fun _ facts => ⟨tells_escape facts.2.1 starts facts.1.2 (facts.2.2 living), fun _ => nofun⟩) nofun
      (by grind) (by grind)
  | false =>
    have lives : sheet.alive start := lives fun member => by
      rw [contains_iff_mem.mpr member] at isClosed
      cases isClosed
    refine ends_bind (draw_new (draw_begin sane) fun block d1 ahead new _ drawing => ?_)
    refine ends_bind (draw_connect drawing (by grind) ahead nofun fun d2 drawing => ends_bind (ends_pure block ?_))
    refine ends_bind (draw_guard drawing (.inl rfl) positive fun d3 drawing => ?_)
    have living : block ∉ d3.closed := (drawing.sane.isOpen block (.inl rfl)).2
    refine ends_mono (shapes _ block drawing.sane (by grind) (.inl ⟨rfl, rfl⟩)) fun final d4 ⟨⟨away, _⟩, rest⟩ => ?_
    have drawing := (drawing.more rest.moves).know rest.knows
    exact drawing.shape (included_refl _) (fun _ facts => ⟨tells_escape facts.2.1 starts facts.1.2 (facts.2.2 living), fun _ => nofun⟩) nofun
      (by grind) (by grind)

end

theorem blurred_included (area : Region) (inLoop : Bool) : Included [] (area.marks inLoop) := by
  refine ⟨nil_sublist _, fun entry member exact => ?_⟩
  obtain ⟨call, _, rfl⟩ := mem_map.mp member
  cases exact

theorem shapes_jump {place : Place} {reason : Reason} (apt : place.Apt) (leap : Leap) (area : Region) :
    Shapes place (area.marks place.inLoop) ⟨fun around => [⟨leap, around⟩], [], .split, []⟩ fun start => do
      let last ← buildJump place area (leap.aim place) leap.kind reason start
      return (last, .jump leap start) := by
  intro sheet start sane lives inside
  have within := sane.within
  refine ends_bind (ends_bind (draw_statement (draw_begin sane) fun d1 drawing => ?_))
  cases aims : leap.aim place with
  | none =>
    refine draw_build drawing (draws_approximate area reason) lives inside fun final d2 away drawing => ends_pure _ ?_
    exact drawing.shape (included_refl _) (fun later _ => ⟨⟨holds_lost aims _ _, fun _ => rfl, nofun, nofun⟩, fun _ => nofun⟩) nofun away (by grind)
  | some goal =>
    refine ends_bind (ends_chain (draw_leap drawing apt leap aims lives fun d2 closed drawing => ends_pure _ (ends_pure _ ?_)))
    exact drawing.shape (blurred_included area place.inLoop) (fun _ facts => ⟨facts.2, fun _ => nofun⟩) nofun (fun _ _ => id) (by grind)

end HookLint.Flow
