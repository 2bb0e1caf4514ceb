import HookLint.Proofs.Flow.Finalizers

namespace HookLint.Flow

open List

-- Whether a jump means a statement around it when no nearer one is meant: with a label the one that has it, without one a loop,
-- and for a break also a switch.
def Leap.means : Leap → Option Surrounding → Bool
  | .break label, some statement => statement.takesBreak label
  | .continue label, some statement => statement.takesContinue label
  | _, _ => false

-- The nearest statement that a jump means, by its place around the jump. Only a loop has a next round.
structure Spot.Designates (spot : Spot) (position : Nat) (statement : Surrounding) : Prop where
  nearest : spot.around.findIdx? spot.leap.means = some position
  here : spot.around[position]? = some (some statement)
  loops : ∀ label, spot.leap = .continue label → statement.isLoop = true

-- As what the block is made to which a jump out of a statement goes.
def Leap.ways : Leap → Surrounding → List BlockKind
  | .continue _, _ => rounds
  | .back, statement | .break _, statement => statement.exits

def Frame.finalizer? : Frame → Option Finalizer
  | .guard finalizer => some finalizer
  | .within _ => none

theorem text_is_loop (target : JumpTarget) : target.text.isLoop = target.continueTo.isSome := by
  unfold JumpTarget.text
  split
  · rename_i loops
    rw [loops]
    rfl
  · rename_i once
    rw [Bool.eq_false_iff.mpr once]
    split <;> rfl

section
variable {leap : Leap} {blocks : List Block}

theorem takes_means {target : JumpTarget} (made : target.Made blocks) : leap.takes target = leap.means (some target.text) := by
  obtain ⟨_, _, named, plain⟩ := made
  cases leap with
  | back => rfl
  | «break» label =>
    cases label with
    | none => simp [Leap.takes, JumpTarget.takes, Leap.means, plain]
    | some name => simp [Leap.takes, JumpTarget.takes, Leap.means, Surrounding.takesBreak, named]
  | «continue» label =>
    cases label with
    | none =>
      simp only [Leap.takes, JumpTarget.takes, Leap.means, plain, ← text_is_loop]
      cases target.text <;> rfl
    | some name => simp [Leap.takes, JumpTarget.takes, Leap.means, Surrounding.takesContinue, named]

-- By induction on what stands around the jump: the search of the graph stops where that of the text does.
theorem designated_found {frames : List Frame} (made : ∀ target, .within target ∈ frames → target.Made blocks) {position : Nat}
    (nearest : (frames.map Frame.text).findIdx? leap.means = some position) : ∃ target, frames[position]? = some (.within target) ∧
      leap.target frames = some target ∧ leap.crossed frames = (frames.take position).filterMap Frame.finalizer? := by
  induction frames generalizing position with
  | nil => cases nearest
  | cons frame rest ih =>
    have ih {position : Nat} := @ih (fun target member => made target (mem_cons_of_mem _ member)) position
    rw [map_cons, List.findIdx?_cons] at nearest
    cases frame with
    | guard finalizer =>
      rw [Frame.text, if_neg (by cases leap <;> simp [Leap.means])] at nearest
      obtain ⟨before, found, rfl⟩ := Option.map_eq_some_iff.mp nearest
      obtain ⟨target, isFrame, isTarget, crossed⟩ := ih found
      exact ⟨target, isFrame, isTarget, congrArg (finalizer :: ·) crossed⟩
    | within target =>
      rw [Frame.text, ← takes_means (made target mem_cons_self)] at nearest
      rw [Leap.target, Leap.crossed]
      by_cases takes : leap.takes target = true
      · rw [if_pos takes] at nearest ⊢
        cases nearest
        exact ⟨target, rfl, rfl, if_pos takes⟩
      · rw [if_neg takes] at nearest ⊢
        obtain ⟨before, found, rfl⟩ := Option.map_eq_some_iff.mp nearest
        obtain ⟨other, isFrame, isTarget, crossed⟩ := ih found
        exact ⟨other, isFrame, isTarget, (if_neg takes).trans crossed⟩

theorem designated_goal {frames : List Frame} {target : JumpTarget} (made : target.Made blocks) (isTarget : leap.target frames = some target)
    (loops : ∀ label, leap = .continue label → target.text.isLoop = true) :
    ∃ goal, leap.lands frames = some goal ∧ leap.goal target = some goal ∧ MadeAs blocks (leap.ways target.text) goal := by
  cases leap with
  | back =>
    have none (frames : List Frame) : Leap.back.target frames = none := by
      induction frames with
      | nil => rfl
      | cons frame rest ih => cases frame <;> exact ih
    cases (none frames).symm.trans isTarget
  | «break» label => exact ⟨target.breakTo, by rw [Leap.lands, isTarget]; rfl, rfl, made.behind⟩
  | «continue» label =>
    obtain ⟨goal, next⟩ := Option.isSome_iff_exists.mp ((text_is_loop target).symm.trans (loops label rfl))
    exact ⟨goal, by rw [Leap.lands, isTarget]; exact next, next, made.again goal next⟩

end

-- A break or continue that means a statement leaves its block by one edge, through the finalizers that stand before that statement,
-- for the block behind it or for the next round of it.
theorem jumps_reach_designated {name node : Value} {graph : FlowGraph} (built : FlowGraph.ofUnit name node = .ok graph) :
    ((readUnit node).outline.jumps []).map Jump.spot = (readUnit node).spots ∧
    ∀ jump ∈ (readUnit node).outline.jumps [], ∀ position statement, jump.spot.Designates position statement →
      ∃ target goal, jump.frames[position]? = some (.within target) ∧ target.text = statement ∧ jump.leap.goal target = some goal ∧
        MadeAs graph.blocks (jump.leap.ways statement) goal ∧
        Passes graph.toGraph jump.leap.kind jump.block ((jump.frames.take position).filterMap Frame.finalizer?) goal := by
  obtain ⟨_, _, drawing⟩ := body_drawn (readUnit node)
  refine ⟨drawing.fact.lists [], fun jump member position statement designates => ?_⟩
  have made := (drawing.fact.holds jump member).made
  obtain ⟨target, isFrame, isTarget, crossed⟩ := designated_found made designates.nearest
  have text : target.text = statement := by simpa [Jump.spot, isFrame, Frame.text] using designates.here
  subst text
  obtain ⟨goal, lands, aims, kinds⟩ := designated_goal (made target (mem_of_getElem? isFrame)) isTarget designates.loops
  exact ⟨target, goal, isFrame, rfl, aims, (built_draft built).1 ▸ kinds, crossed ▸ jump_passes built member lands⟩

theorem break_outer_reaches_label : ∃ graph goal, FlowGraph.ofUnit .null (twiceGuardedNode (leapNode "BreakStatement")) = .ok graph ∧
    graph.leaving 14 = [⟨14, 11, .break⟩] ∧ ⟨7, goal, .break⟩ ∈ graph.edges ∧ MadeAs graph.blocks [.labelExit] goal := by
  have jumps (area : Region) : ((twiceGuarded (.breakTo area (some (.str "outer")))).outline.jumps []).map
      (fun jump => (jump.block, jump.spot, (jump.frames.take 3).filterMap Frame.finalizer?)) =
        [(14, ⟨.break (some (.str "outer")), [none, none, some (.loop (some (.str "inner"))), some (.labeled (some (.str "outer")))]⟩,
          [⟨11, 11, false⟩, ⟨7, 7, false⟩])] := by cbv
  have built := twice_guarded_built break_outer_spelled (break_outer_sound _)
  have reached := (jumps_reach_designated built).2
  rw [(twiceGuarded breakOuter).read _ (twice_guarded_spelled break_outer_spelled)] at reached
  obtain ⟨jump, member, same⟩ := mem_map.mp ((jumps _).symm ▸ mem_singleton_self _)
  simp only [Prod.mk.injEq] at same
  obtain ⟨block, spot, stops⟩ := same
  have leap : jump.leap = .break (some (.str "outer")) := congrArg Spot.leap spot
  obtain ⟨_, goal, _, _, _, made, passes⟩ := reached jump member 3 (.labeled (some (.str "outer"))) (spot ▸ ⟨by cbv, rfl, by simp⟩)
  rw [block, stops, leap] at passes
  rw [leap] at made
  exact ⟨_, goal, built, passes.leaves, passes.onward [⟨11, 11, false⟩] ⟨7, 7, false⟩ [] rfl (by simp), made⟩

end HookLint.Flow
