import HookLint.Proofs.Flow.Carried
import HookLint.Proofs.Flow.Marks

namespace HookLint

-- Why control leaves a block that a return, throw, break or continue ends.
def EdgeKind.isJump : EdgeKind → Bool
  | .earlyReturn | .throw | .break | .continue => true
  | _ => false

end HookLint

namespace HookLint.Flow

open List

variable {lead : Lead} {start block source target : Nat} {Post : Unit → Draft → Prop} {inLoop : Bool} {kind : EdgeKind}

-- A draft under way: the blocks that nothing but exceptions leads out of yet, the blocks that may still
-- get edges, and blocks that are known to lie in the body of a loop or outside.
structure Sheet where
  draft : Draft
  alive : Nat → Prop
  opened : Nat → Prop
  lies : Bool → Nat → Prop

def Draft.add (draft : Draft) (inLoop : Bool) (kind : BlockKind) : Draft :=
  { draft with
    blocks := draft.blocks ++ [{ kind }]
    loopBody := if inLoop then draft.loopBody ++ [draft.blocks.length] else draft.loopBody }

def Draft.link (draft : Draft) (edge : Edge) : Draft := { draft with wiring := draft.wiring.add edge }

def Draft.change (draft : Draft) (number : Nat) (change : Block → Block) : Draft :=
  { draft with blocks := draft.blocks.modify number change }

-- The steps of building, with the calls that they record. Everything that is said of whole graphs is
-- said of these first.
inductive Move : Sheet → Marks → Sheet → Prop where
  | add (sheet : Sheet) (inLoop : Bool) (kind : BlockKind) :
      Move sheet [] ⟨sheet.draft.add inLoop kind, fun block => block = sheet.draft.blocks.length ∨ sheet.alive block,
        fun block => block = sheet.draft.blocks.length ∨ sheet.opened block,
        fun side block => side = inLoop ∧ block = sheet.draft.blocks.length ∨ sheet.lies side block⟩
  | link (sheet : Sheet) (edge : Edge) (isOpen : sheet.opened edge.source) (ahead : edge.target ≠ 0) :
      Move sheet [] ⟨sheet.draft.link edge,
        fun block => sheet.alive block ∧ (block ≠ edge.source ∨ edge.kind = .exception), sheet.opened, sheet.lies⟩
  | leave (sheet : Sheet) (edge : Edge) (lives : sheet.alive edge.source) (ahead : edge.target ≠ 0)
      (jumps : edge.kind.isJump = true) :
      Move sheet [] ⟨{ sheet.draft.link edge with closed := edge.source :: (sheet.draft.link edge).closed },
        fun block => sheet.alive block ∧ block ≠ edge.source, fun block => sheet.opened block ∧ block ≠ edge.source, sheet.lies⟩
  | wait (sheet : Sheet) (jumping : Pending) (ahead : jumping.target ≠ 0) :
      Move sheet [] { sheet with draft := { sheet.draft with pending := sheet.draft.pending ++ [jumping] } }
  | note (sheet : Sheet) (number : Nat) (change : Block → Block) (quiet : ∀ block, (change block).calls = block.calls)
      (grows : ∀ block : Block, block.Grows (change block)) :
      Move sheet [] { sheet with draft := sheet.draft.change number change }
  | record (sheet : Sheet) (mark : Mark) (block : Nat) (call : Value) (lies : sheet.lies mark.inLoop block)
      (repeats : mark.blurred = true → ⟨block, block, .loopBack⟩ ∈ sheet.draft.edges) :
      Move sheet [(mark, call)] { sheet with draft := sheet.draft.change block fun b => { b with calls := b.calls ++ [call] } }
  | remark (sheet : Sheet) (approximations : List Approximation) (fault : Option Fault) :
      Move sheet [] { sheet with draft := { sheet.draft with approximations, fault } }
  | narrow (sheet : Sheet) (alive opened : Nat → Prop) (lies : Bool → Nat → Prop)
      (fits : ∀ block, (alive block ↔ sheet.alive block) ∧ (alive block → opened block) ∧ (opened block → sheet.opened block) ∧
        ∀ side, lies side block → sheet.lies side block) :
      Move sheet [] ⟨sheet.draft, alive, opened, lies⟩

inductive Moves : Sheet → Marks → Sheet → Prop where
  | none (sheet : Sheet) : Moves sheet [] sheet
  | next {first middle last : Sheet} {marks more : Marks} (moves : Moves first marks middle) (move : Move middle more last) :
      Moves first (marks ++ more) last

structure Sheet.Sane (sheet : Sheet) : Prop where
  size : 3 ≤ sheet.draft.blocks.length
  within : ∀ block, sheet.alive block → sheet.opened block
  isOpen : ∀ block, sheet.opened block → block < sheet.draft.blocks.length ∧ block ∉ sheet.draft.closed
  closed : ∀ block ∈ sheet.draft.closed, block < sheet.draft.blocks.length
  pending : ∀ jumping ∈ sheet.draft.pending, jumping.target ≠ 0

section
variable {first middle last : Sheet} {marks more : Marks}

theorem Moves.trans (early : Moves first marks middle) (late : Moves middle more last) : Moves first (marks ++ more) last := by
  induction late with
  | none => simpa using early
  | next _ move ih =>
    rw [← append_assoc]
    exact ih.next move

theorem linked (draft : Draft) (edge : Edge) : Connected True edge draft (draft.link edge) :=
  have ends : Ends (connect edge.source edge.target edge.kind) draft fun _ after => Connected True edge draft after :=
    ends_connect fun _ linked _ => linked
  ends

theorem link_blocks (draft : Draft) (edge : Edge) : (draft.link edge).blocks = draft.blocks := rfl

theorem change_keeps (draft : Draft) (number : Nat) {change : Block → Block} (grows : ∀ block : Block, block.Grows (change block)) :
    Keeps draft (draft.change number change) := by
  refine ⟨fun _ => id, fun _ => id, fun _ => id, fun other block known => ?_⟩
  simp only [Draft.change, List.getElem?_modify, known, Option.map_eq_map, Option.map_some, Option.some.injEq, exists_eq_left']
  split
  · exact grows block
  · exact block_grows_refl block

theorem Move.keeps (move : Move first marks last) : Keeps first.draft last.draft := by
  cases move with
  | remark | narrow => exact keeps_same (fun _ => id) (fun _ => id) (fun _ => id) rfl
  | wait => exact keeps_same (fun _ => id) (fun _ => mem_append_left _) (fun _ => id) rfl
  | note number change quiet grows => exact change_keeps first.draft number grows
  | record mark block call => exact change_keeps first.draft block fun _ => ⟨subset_append_left _ _, .inl rfl⟩
  | add inLoop kind =>
    refine ⟨fun _ => id, fun _ => id, fun _ => id, fun number block known => ⟨block, ?_, block_grows_refl block⟩⟩
    exact (List.getElem?_append_left (List.getElem?_eq_some_iff.mp known).1).trans known
  | link edge =>
    have linked := linked first.draft edge
    exact keeps_same (fun other member => (linked.edges other).mpr (.inl member)) (fun _ member => linked.pending ▸ member)
      (fun _ member => linked.closed ▸ member) (link_blocks first.draft edge)
  | leave edge =>
    have linked := linked first.draft edge
    exact keeps_same (fun other member => (linked.edges other).mpr (.inl member)) (fun _ member => linked.pending ▸ member)
      (fun _ member => mem_cons_of_mem _ (linked.closed ▸ member)) (link_blocks first.draft edge)

theorem Move.sane (move : Move first marks last) (sane : first.Sane) : last.Sane := by
  obtain ⟨size, within, isOpen, closed, pending⟩ := sane
  cases move with
  | remark => exact ⟨size, within, isOpen, closed, pending⟩
  | wait jumping ahead =>
    refine ⟨size, within, isOpen, closed, fun other member => ?_⟩
    rcases mem_append.mp member with known | new
    · exact pending other known
    · exact mem_singleton.mp new ▸ ahead
  | note | record =>
    have same (number : Nat) (change : Block → Block) :
        (first.draft.change number change).blocks.length = first.draft.blocks.length := length_modify ..
    exact ⟨by rwa [same], within, by rwa [same], by rwa [same], pending⟩
  | narrow alive opened lies fits =>
    exact ⟨size, fun block => (fits block).2.1, fun block isOpened => isOpen block ((fits block).2.2.1 isOpened), closed, pending⟩
  | add inLoop kind =>
    have more : (first.draft.add inLoop kind).blocks.length = first.draft.blocks.length + 1 := length_append
    refine ⟨by rw [more]; omega, fun block => Or.imp_right (within block), ?_, ?_, pending⟩
    · rw [more]
      rintro block (rfl | isOpened)
      · exact ⟨Nat.lt_succ_self _, fun member => Nat.lt_irrefl _ (closed _ member)⟩
      · exact ⟨Nat.lt_succ_of_lt (isOpen block isOpened).1, (isOpen block isOpened).2⟩
    · rw [more]
      exact fun block member => Nat.lt_succ_of_lt (closed block member)
  | link edge =>
    have linked := linked first.draft edge
    refine ⟨by rwa [linked.size], fun block lives => within block lives.1, ?_, ?_, by rwa [linked.pending]⟩
    · rwa [linked.size, linked.closed]
    · rwa [linked.size, linked.closed]
  | leave edge lives =>
    have linked := linked first.draft edge
    refine ⟨by rwa [linked.size], fun block lives => ⟨within block lives.1, lives.2⟩, ?_, ?_, by rwa [linked.pending]⟩
    · simp only [linked.size, linked.closed, mem_cons, not_or]
      exact fun block isOpened => ⟨(isOpen block isOpened.1).1, isOpened.2, (isOpen block isOpened.1).2⟩
    · simp only [linked.size, linked.closed, mem_cons, forall_eq_or_imp]
      exact ⟨(isOpen _ (within _ lives)).1, closed⟩

theorem Moves.keeps (moves : Moves first marks last) : Keeps first.draft last.draft := by
  induction moves with
  | none => exact keeps_refl _
  | next _ move ih => exact ih.trans move.keeps

theorem Moves.sane (moves : Moves first marks last) (sane : first.Sane) : last.Sane := by
  induction moves with
  | none => exact sane
  | next _ move ih => exact move.sane ih

end

-- Building since it began: the moves that were made, and what is known by now and stays true.
structure Drawing (origin : Sheet) (marks : Marks) (known : Draft → Prop) (alive opened : Nat → Prop)
    (lies : Bool → Nat → Prop) (draft : Draft) : Prop where
  moves : ∃ fewer, Included fewer marks ∧ Moves origin fewer ⟨draft, alive, opened, lies⟩
  sane : Sheet.Sane ⟨draft, alive, opened, lies⟩
  knows : ∀ later, Keeps draft later → known later

-- Where a chain ends there is no entry.
def Scene.Ahead (scene : Scene) : Prop := ∀ block ∈ scene.chainEnd, block ≠ 0

-- The calls that a block has by now.
def Draft.Has (draft : Draft) (number : Nat) (calls : List Value) : Prop :=
  ∀ call ∈ calls, ∃ block, draft.blocks[number]? = some block ∧ call ∈ block.calls

theorem Draft.Has.keep {draft later : Draft} {number : Nat} {calls : List Value} (has : draft.Has number calls)
    (keeps : Keeps draft later) : later.Has number calls := by
  intro call member
  obtain ⟨block, found, listed⟩ := has call member
  obtain ⟨grown, found, grows⟩ := keeps.blocks number block found
  exact ⟨grown, found, grows.calls listed⟩

theorem has_and_then {draft : Draft} {more : Lead} {middle : Nat} (same : lead.whole = true → middle = start)
    (early : draft.Has start lead.calls) (late : draft.Has middle more.calls) : draft.Has start (lead.andThen more).calls := by
  unfold Lead.andThen
  split
  · rename_i whole
    exact forall_mem_append.mpr ⟨early, same whole ▸ late⟩
  · exact early

-- Building that uses up the block it starts from and hands on the block in which it ends. That is the same one
-- if control does not split, and the calls before it splits are in the first one.
def Draws (inLoop : Bool) (marks : Marks) (lead : Lead) (action : Nat → Build Nat) : Prop :=
  ∀ (sheet : Sheet) (start : Nat), sheet.Sane → sheet.alive start → sheet.lies inLoop start →
    Ends (action start) sheet.draft fun final after =>
      ((∀ block, sheet.opened block → block ≠ start → block ≠ final) ∧ (lead.whole = true → final = start)) ∧
      Drawing sheet marks (·.Has start lead.calls) (fun block => block = final ∨ sheet.alive block ∧ block ≠ start)
        (fun block => block = final ∨ sheet.opened block ∧ block ≠ start)
        (fun side block => side = inLoop ∧ block = final ∨ sheet.lies side block) after

section
variable {origin : Sheet} {marks others : Marks} {known : Draft → Prop} {alive opened alive' opened' : Nat → Prop}
  {lies lies' : Bool → Nat → Prop} {draft after : Draft}

theorem draw_begin (sane : origin.Sane) : Drawing origin [] (fun _ => True) origin.alive origin.opened origin.lies origin.draft :=
  ⟨⟨[], included_refl _, .none origin⟩, sane, fun _ _ => trivial⟩

section
variable (drawing : Drawing origin marks known alive opened lies draft)
include drawing

theorem Drawing.within : ∀ block, alive block → opened block :=
  drawing.sane.within

theorem Drawing.more (moves : ∃ fewer, Included fewer others ∧ Moves ⟨draft, alive, opened, lies⟩ fewer ⟨after, alive', opened', lies'⟩) :
    Drawing origin (marks ++ others) known alive' opened' lies' after := by
  obtain ⟨early, listed, begun⟩ := drawing.moves
  obtain ⟨late, rest, moves⟩ := moves
  exact ⟨⟨early ++ late, listed.append rest, begun.trans moves⟩, moves.sane drawing.sane,
    fun later keeps => drawing.knows later (moves.keeps.trans keeps)⟩

theorem Drawing.move (move : Move ⟨draft, alive, opened, lies⟩ [] ⟨after, alive', opened', lies'⟩) :
    Drawing origin marks known alive' opened' lies' after := by
  simpa using drawing.more ⟨[], included_refl [], by simpa using (Moves.none _).next move⟩

theorem Drawing.know {fact : Draft → Prop} (stays : ∀ later, Keeps draft later → fact later) :
    Drawing origin marks (fun draft => known draft ∧ fact draft) alive opened lies draft :=
  ⟨drawing.moves, drawing.sane, fun later keeps => ⟨drawing.knows later keeps, stays later keeps⟩⟩

theorem Drawing.fact : known draft := drawing.knows _ (keeps_refl _)

theorem Drawing.finish {most : Marks} {fact : Draft → Prop} (included : Included marks most) (implies : ∀ later, known later → fact later)
    (fits : ∀ block, (alive' block ↔ alive block) ∧ (alive' block → opened' block) ∧ (opened' block → opened block) ∧
      ∀ side, lies' side block → lies side block) : Drawing origin most fact alive' opened' lies' draft := by
  obtain ⟨⟨fewer, listed, moves⟩, sane, knows⟩ := drawing.move (.narrow _ alive' opened' lies' fits)
  exact ⟨⟨fewer, listed.trans included, moves⟩, sane, fun later keeps => implies later (knows later keeps)⟩

end

section
variable (drawing : Drawing origin marks known alive opened lies draft)
include drawing

theorem draw_new {Post : Nat → Draft → Prop} {kind : BlockKind} (next : ∀ block after, block ≠ 0 → ¬ opened block →
      block ∉ after.closed ∧ after.closed = draft.closed ∧ after.blocks[block]? = some { kind } ∧
        block = draft.blocks.length ∧ after.blocks.length = draft.blocks.length + 1 →
      Drawing origin marks known (fun other => other = block ∨ alive other) (fun other => other = block ∨ opened other)
        (fun side other => side = inLoop ∧ other = block ∨ lies side other) after → Post block after) :
    Ends (newBlock inLoop kind) draft Post := by
  obtain ⟨size, _, isOpen, closed, _⟩ := drawing.sane
  refine next draft.blocks.length (draft.add inLoop kind) ?_ ?_ ⟨?_, rfl, List.getElem?_concat_length, rfl, length_append⟩
    (drawing.move (.add _ inLoop kind))
  · exact Nat.ne_of_gt (Nat.lt_of_lt_of_le (by decide) size)
  · exact fun isOpened => Nat.lt_irrefl _ (isOpen _ isOpened).1
  · exact fun member => Nat.lt_irrefl _ (closed _ member)

theorem draw_made {Post : Nat → Draft → Prop} {kind : BlockKind} (next : ∀ block after, block ≠ 0 → ¬ opened block →
      Drawing origin marks (fun later => known later ∧ ∃ grown, later.blocks[block]? = some grown ∧ Block.Grows { kind } grown)
        (fun other => other = block ∨ alive other) (fun other => other = block ∨ opened other)
        (fun side other => side = inLoop ∧ other = block ∨ lies side other) after → Post block after) :
    Ends (newBlock inLoop kind) draft Post :=
  draw_new drawing fun block after ahead new made drawing => next block after ahead new (drawing.know fun _ keeps => keeps.blocks _ _ made.2.2.1)

theorem draw_note {number : Nat} {change : Block → Block}
    (quiet : ∀ block, (change block).calls = block.calls) (grows : ∀ block : Block, block.Grows (change block))
    (next : ∀ after, Drawing origin marks known alive opened lies after → Post () after) :
    Ends (modifyBlock number change) draft Post := next _ (drawing.move (.note _ number change quiet grows))

theorem draw_statement {node : Value} (next : ∀ after, Drawing origin marks known alive opened lies after → Post () after) :
    Ends (noteStatement block node) draft Post := draw_note drawing (fun _ => rfl) (fun _ => ⟨fun _ => id, .inl rfl⟩) next

theorem draw_kind {kind : BlockKind} (tests : kind = .ifCondition ∨ kind = .switchDiscriminant)
    (next : ∀ after, Drawing origin marks known alive opened lies after → Post () after) :
    Ends (setKind block kind) draft Post := draw_note drawing (fun _ => rfl) (fun _ => ⟨fun _ => id, .inr tests⟩) next

theorem draw_fault {fault : Fault} (next : ∀ after, Drawing origin marks known alive opened lies after → Post () after) :
    Ends (noteFault fault) draft Post := next _ (drawing.move (.remark _ draft.approximations _))

theorem draw_remark {Post : PUnit → Draft → Prop} {remark : Approximation}
    (next : ∀ after, Drawing origin marks known alive opened lies after → Post () after) :
    Ends (modify fun draft => { draft with approximations := draft.approximations ++ [remark] }) draft Post :=
  next _ (drawing.move (.remark _ _ draft.fault))

theorem draw_record {call : Value} (mark : Mark) (inside : lies mark.inLoop block)
    (repeats : mark.blurred = true → ⟨block, block, .loopBack⟩ ∈ draft.edges)
    (next : ∀ after, after.edges = draft.edges → (opened block → after.Has block [call]) →
      Drawing origin (marks ++ [(mark, call)]) known alive opened lies after → Post () after) :
    Ends (recordCall block call) draft Post := by
  have has (isOpen : opened block) : (draft.change block fun b => { b with calls := b.calls ++ [call] }).Has block [call] := by
    simp [Draft.Has, Draft.change, List.getElem?_eq_getElem (show block < draft.blocks.length from (drawing.sane.isOpen block isOpen).1)]
  exact next _ rfl has (drawing.more ⟨_, included_refl _, (Moves.none _).next (.record _ mark block call inside repeats)⟩)

theorem draw_records {Post : PUnit → Draft → Prop} (calls : List Value) (inside : lies inLoop block)
    (repeats : ⟨block, block, .loopBack⟩ ∈ draft.edges)
    (next : ∀ after, Drawing origin (marks ++ calls.map (⟨inLoop, true⟩, ·)) known alive opened lies after → Post () after) :
    Ends (calls.forM (recordCall block)) draft Post := by
  induction calls generalizing draft marks with
  | nil => exact ends_pure _ (next draft (by simpa using drawing))
  | cons call rest ih =>
    refine ends_bind (draw_record drawing ⟨inLoop, true⟩ inside (fun _ => repeats) fun d1 edges _ drawing => ?_)
    exact ih drawing (edges ▸ repeats) fun after drawing => next after (by simpa using drawing)

section
variable (isOpen : opened source) (ahead : target ≠ 0)
include isOpen ahead

theorem draw_link (next : ∀ after, Drawing origin marks (fun draft => known draft ∧ ⟨source, target, kind⟩ ∈ draft.edges)
      (fun block => alive block ∧ (block ≠ source ∨ kind = .exception)) opened lies after → Post () after) :
    Ends (connect source target kind) draft Post := by
  have made := (linked draft ⟨source, target, kind⟩).made trivial
  exact next _ ((drawing.move (.link _ ⟨source, target, kind⟩ isOpen ahead)).know fun later keeps => keeps.edges _ made)

theorem draw_connect (normal : kind ≠ .exception)
    (next : ∀ after, Drawing origin marks known (fun block => alive block ∧ block ≠ source) opened lies after → Post () after) :
    Ends (connect source target kind) draft Post := by
  refine next _ ((drawing.move (.link _ ⟨source, target, kind⟩ isOpen ahead)).move (.narrow _ _ opened lies fun block => ?_))
  have within := drawing.sane.within
  grind

theorem draw_guard (next : ∀ after, Drawing origin marks (fun draft => known draft ∧ ⟨source, target, .exception⟩ ∈ draft.edges) alive opened lies after →
      Post () after) : Ends (connect source target .exception) draft Post := by
  refine draw_link drawing isOpen ahead fun after drawing => next after (drawing.move (.narrow _ _ opened lies fun block => ?_))
  have within := drawing.within
  grind

end

theorem draw_flow (isOpen : source ∉ draft.closed → opened source) (ahead : target ≠ 0) (normal : kind ≠ .exception)
    (next : ∀ after, Drawing origin marks known (fun block => alive block ∧ block ≠ source) opened lies after → Post () after) :
    Ends (flow source target kind) draft Post := by
  refine ends_bind (ends_is_closed ?_)
  cases isClosed : draft.closed.contains source with
  | true =>
    have ended := contains_iff_mem.mp isClosed
    have isOpened := drawing.sane.isOpen
    have within := drawing.sane.within
    exact next draft (drawing.move (.narrow _ _ opened lies fun block => by grind))
  | false =>
    refine draw_connect drawing (isOpen fun member => ?_) ahead normal next
    rw [contains_iff_mem.mpr member] at isClosed
    cases isClosed

theorem draw_lead {Post : Nat → Draft → Prop} {action : Nat → Build Nat}
    (draws : Draws inLoop others lead action) (lives : alive start) (inside : lies inLoop start)
    (next : ∀ final after, (∀ block, opened block → block ≠ start → block ≠ final) ∧ (lead.whole = true → final = start) →
      Drawing origin (marks ++ others) (fun draft => known draft ∧ draft.Has start lead.calls)
        (fun block => block = final ∨ alive block ∧ block ≠ start) (fun block => block = final ∨ opened block ∧ block ≠ start)
        (fun side block => side = inLoop ∧ block = final ∨ lies side block) after → Post final after) : Ends (action start) draft Post :=
  ends_mono (draws _ start drawing.sane lives inside) fun final after done =>
    next final after done.1 ((drawing.more done.2.moves).know done.2.knows)

theorem draw_build {Post : Nat → Draft → Prop} {action : Nat → Build Nat}
    (draws : Draws inLoop others lead action) (lives : alive start) (inside : lies inLoop start)
    (next : ∀ final after, (∀ block, opened block → block ≠ start → block ≠ final) →
      Drawing origin (marks ++ others) known (fun block => block = final ∨ alive block ∧ block ≠ start)
        (fun block => block = final ∨ opened block ∧ block ≠ start)
        (fun side block => side = inLoop ∧ block = final ∨ lies side block) after → Post final after) : Ends (action start) draft Post :=
  ends_mono (draws _ start drawing.sane lives inside) fun final after done => next final after done.1.1 (drawing.more done.2.moves)

end

end

end HookLint.Flow
