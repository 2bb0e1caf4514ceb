import HookLint.Proofs.Flow.Leading
import HookLint.Proofs.Flow.Spots

namespace HookLint.Flow

open List Option

variable {depth source : Nat} {target : JumpTarget}

-- What is known of a draft stays true while building goes on.
structure Keeps (before after : Draft) : Prop where
  edges : ∀ edge ∈ before.edges, edge ∈ after.edges
  pending : ∀ jumping ∈ before.pending, jumping ∈ after.pending
  closed : ∀ block ∈ before.closed, block ∈ after.closed
  blocks : ∀ (number : Nat) (block : Block), before.blocks[number]? = some block →
    ∃ grown, after.blocks[number]? = some grown ∧ block.Grows grown

theorem keeps_same {before after : Draft} (edges : ∀ edge ∈ before.edges, edge ∈ after.edges)
    (pending : ∀ jumping ∈ before.pending, jumping ∈ after.pending) (closed : ∀ block ∈ before.closed, block ∈ after.closed)
    (blocks : after.blocks = before.blocks) : Keeps before after :=
  ⟨edges, pending, closed, fun _ block known => ⟨block, blocks ▸ known, block_grows_refl block⟩⟩

theorem keeps_refl (draft : Draft) : Keeps draft draft := keeps_same (fun _ => id) (fun _ => id) (fun _ => id) rfl

theorem Keeps.trans {first second third : Draft} (early : Keeps first second) (late : Keeps second third) : Keeps first third :=
  ⟨fun edge member => late.edges edge (early.edges edge member), fun jumping member => late.pending jumping (early.pending jumping member),
    fun block member => late.closed block (early.closed block member), fun number block known => by
      obtain ⟨middle, found, grows⟩ := early.blocks number block known
      obtain ⟨last, found, more⟩ := late.blocks number middle found
      exact ⟨last, found, grows.trans more⟩⟩

-- Where a jump out of a place is aimed, and the number of finalizers around its target.
def Leap.aim (leap : Leap) (place : Place) : Option (Nat × Nat) :=
  match leap with
  | .back => some (1, 0)
  | .break label => (place.find label false).map fun target => (target.breakTo, target.depth)
  | .continue label => (place.find label true).bind fun target => target.continueTo.map (·, target.depth)

-- The block that a jump is aimed at, when the frames around it stand in a place.
def Leap.reach (leap : Leap) (place : Place) : List Frame → Option Nat
  | [] => (leap.aim place).map (·.1)
  | .guard _ :: rest => leap.reach place rest
  | .within target :: rest => if leap.takes target then leap.goal target else leap.reach place rest

-- A jump goes from a block to its goal, or waits at the first finalizer that it leaves.
def Place.Sends (place : Place) (draft : Draft) (source goal depth : Nat) (kind : EdgeKind) : Prop :=
  ⟨source, (place.gate depth).getD goal, kind⟩ ∈ draft.edges ∧
    ∀ finalizer ∈ place.gate depth, ⟨finalizer, goal, kind, depth⟩ ∈ draft.pending

-- A jump has been led from a block through the finalizers of the frames around it, and out of them.
def Leap.Carried (leap : Leap) (place : Place) (draft : Draft) (goal : Nat) : List Frame → Nat → Prop
  | [], source => ∃ depth, leap.aim place = some (goal, depth) ∧ place.Sends draft source goal depth leap.kind
  | .within target :: rest, source =>
    if leap.takes target then ⟨source, goal, leap.kind⟩ ∈ draft.edges else leap.Carried place draft goal rest source
  | .guard finalizer :: rest, source => ⟨source, finalizer.entry, leap.kind⟩ ∈ draft.edges ∧
      (finalizer.ended = false → leap.Carried place draft goal rest finalizer.last)

-- A block has been made as one of some kinds.
def MadeAs (blocks : List Block) (kinds : List BlockKind) (number : Nat) : Prop :=
  ∃ kind ∈ kinds, ∃ block, blocks[number]? = some block ∧ Block.Grows { kind } block

-- The blocks that stand for the ways out of a statement have been made for that.
structure JumpTarget.Made (target : JumpTarget) (blocks : List Block) : Prop where
  behind : MadeAs blocks target.text.exits target.breakTo
  again : ∀ goal, target.continueTo = some goal → MadeAs blocks rounds goal
  named : target.label = target.text.label
  plain : target.takesPlainBreak = target.text.takesBreak none

section
variable {blocks : List Block} {target : JumpTarget} {kind : BlockKind}

theorem made_once (once : target.continueTo = none) (exits : target.text.exits = [kind])
    (named : target.label = target.text.label) (plain : target.takesPlainBreak = target.text.takesBreak none)
    (behind : ∃ block, blocks[target.breakTo]? = some block ∧ Block.Grows { kind } block) : target.Made blocks :=
  ⟨⟨kind, exits ▸ mem_singleton_self _, behind⟩, fun _ goes => absurd (once.symm.trans goes) nofun, named, plain⟩

theorem made_loop {label : Option Value} {breakTo continueTo : Nat} (round : kind ∈ rounds)
    (again : ∃ block, blocks[continueTo]? = some block ∧ Block.Grows { kind } block)
    (behind : ∃ block, blocks[breakTo]? = some block ∧ Block.Grows { kind := .loopExit } block) :
    (⟨label, breakTo, some continueTo, depth, true⟩ : JumpTarget).Made blocks :=
  ⟨⟨_, mem_singleton_self _, behind⟩, by rintro _ ⟨⟩; exact ⟨kind, round, again⟩, rfl, rfl⟩

end

structure Jump.Holds (place : Place) (draft : Draft) (jump : Jump) : Prop where
  carried : ∀ goal, jump.leap.reach place jump.frames = some goal → jump.block ∈ draft.closed ∧
    jump.leap.Carried place draft goal jump.frames jump.block
  ended : ∀ finalizer, .guard finalizer ∈ jump.frames → finalizer.ended = true → finalizer.last ∈ draft.closed
  made : ∀ target, .within target ∈ jump.frames → target.Made draft.blocks

def Outline.Holds (place : Place) (draft : Draft) (outline : Outline) : Prop := ∀ jump ∈ outline.jumps [], jump.Holds place draft

section
variable {place inner : Place} {draft after : Draft} {leap : Leap} {goal : Nat}

theorem MadeAs.keep {kinds : List BlockKind} (keeps : Keeps draft after) (made : MadeAs draft.blocks kinds goal) :
    MadeAs after.blocks kinds goal := by
  obtain ⟨kind, member, block, found, grows⟩ := made
  obtain ⟨grown, found, more⟩ := keeps.blocks goal block found
  exact ⟨kind, member, grown, found, grows.trans more⟩

theorem holds_nothing (place : Place) (draft : Draft) : Outline.nothing.Holds place draft := fun _ member => absurd member not_mem_nil

theorem holds_both {first second : Outline} :
    (Outline.both first second).Holds place draft ↔ first.Holds place draft ∧ second.Holds place draft := by
  simp only [Outline.Holds, Outline.jumps, mem_append, or_imp, forall_and]

theorem jumps_around (outline : Outline) (frames around : List Frame) :
    outline.jumps (frames ++ around) = (outline.jumps frames).map fun jump => { jump with frames := jump.frames ++ around } := by
  induction outline generalizing frames with
  | nothing => rfl
  | both first second early late => simp only [Outline.jumps, early, late, map_append]
  | jump leap block => rfl
  | inside target part ih => exact ih (.within target :: frames)
  | guarded finalizer tried last early late =>
    simp only [Outline.jumps, map_append, ← late]
    rw [← cons_append, early]

theorem aim_same (targets : inner.targets = place.targets) : leap.aim inner = leap.aim place := by
  cases leap <;> simp only [Leap.aim, Place.find, targets]

theorem holds_same {outline : Outline} (targets : inner.targets = place.targets) (finalizers : inner.finalizers = place.finalizers)
    (holds : outline.Holds inner draft) : outline.Holds place draft := by
  have reach (leap : Leap) (frames : List Frame) : leap.reach inner frames = leap.reach place frames := by
    induction frames with
    | nil => simp only [Leap.reach, aim_same targets]
    | cons frame rest ih => cases frame <;> simp only [Leap.reach, ih]
  have carried (leap : Leap) (goal : Nat) (frames : List Frame) (source : Nat) :
      leap.Carried inner draft goal frames source ↔ leap.Carried place draft goal frames source := by
    induction frames generalizing source with
    | nil => simp only [Leap.Carried, aim_same targets, Place.Sends, Place.gate, finalizers]
    | cons frame rest ih => cases frame <;> simp only [Leap.Carried, ih]
  intro jump member
  obtain ⟨carries, ended, made⟩ := holds jump member
  exact ⟨fun goal reaches => (carries goal ((reach _ _).trans reaches)).imp_right (carried _ _ _ _).mp, ended, made⟩

section
variable (within : inner.Within place target)
include within

theorem aim_within : leap.aim inner = if leap.takes target then (leap.goal target).map (·, target.depth) else leap.aim place := by
  cases leap with
  | back => rfl
  | «break» label =>
    simp only [Leap.aim, Leap.takes, Leap.goal, find_within within]
    by_cases takes : target.takes false label = true <;> simp [takes]
  | «continue» label =>
    simp only [Leap.aim, Leap.takes, Leap.goal, find_within within]
    by_cases takes : target.takes true label = true <;> simp [takes]

theorem reach_within (frames : List Frame) : leap.reach place (frames ++ [.within target]) = leap.reach inner frames := by
  induction frames with
  | nil =>
    simp only [nil_append, Leap.reach, aim_within within]
    split
    · cases leap.goal target <;> rfl
    · rfl
  | cons frame rest ih => cases frame <;> simp only [cons_append, Leap.reach, ih]

theorem carried_within (frames : List Frame)
    (carried : leap.Carried inner draft goal frames source) : leap.Carried place draft goal (frames ++ [.within target]) source := by
  induction frames generalizing source with
  | nil =>
    obtain ⟨depth, aims, sends⟩ := carried
    rw [aim_within within] at aims
    simp only [nil_append, Leap.Carried]
    split
    · rename_i takes
      rw [if_pos takes, map_eq_some_iff] at aims
      obtain ⟨_, _, same⟩ := aims
      obtain ⟨rfl, rfl⟩ := Prod.mk.inj same
      -- No finalizer stands between a statement and what it contains at once.
      have direct : inner.gate target.depth = none := gate_none (Nat.le_of_eq (by rw [within.finalizers, within.depth]))
      simpa only [direct, getD_none] using sends.1
    · rename_i other
      rw [if_neg other] at aims
      refine ⟨depth, aims, ?_⟩
      simpa only [Place.Sends, Place.gate, within.finalizers] using sends
  | cons frame rest ih =>
    cases frame with
    | within frame =>
      simp only [cons_append, Leap.Carried] at carried ⊢
      split at carried
      · rename_i takes
        rwa [if_pos takes]
      · rename_i other
        rw [if_neg other]
        exact ih carried
    | guard finalizer => exact ⟨carried.1, fun runs => ih (carried.2 runs)⟩

theorem holds_inside {part : Outline} (isMade : target.Made draft.blocks)
    (holds : part.Holds inner draft) : (Outline.inside target part).Holds place draft := by
  intro jump member
  rw [Outline.jumps, ← nil_append [Frame.within target], jumps_around] at member
  obtain ⟨jump, known, rfl⟩ := mem_map.mp member
  obtain ⟨carried, ended, made⟩ := holds jump known
  refine ⟨fun goal reaches => ?_, fun finalizer around => ended finalizer (by simpa using around), fun other around => ?_⟩
  · rw [reach_within within] at reaches
    exact (carried goal reaches).imp_right (carried_within within jump.frames)
  · rcases mem_append.mp around with here | new
    · exact made other here
    · cases mem_singleton.mp new
      exact isMade

end

-- The targets of a place lie under no more finalizers than the place itself.
def Place.Level (place : Place) : Prop := ∀ target ∈ place.targets, target.depth ≤ place.finalizers.length

theorem aim_level (level : place.Level) (aims : leap.aim place = some (goal, depth)) : depth ≤ place.finalizers.length := by
  cases leap with
  | back =>
    cases aims
    exact Nat.zero_le _
  | «break» label =>
    obtain ⟨target, found, same⟩ := map_eq_some_iff.mp aims
    obtain ⟨_, rfl⟩ := Prod.mk.inj same
    exact level target (mem_of_find?_eq_some found)
  | «continue» label =>
    obtain ⟨target, found, mapped⟩ := bind_eq_some_iff.mp aims
    obtain ⟨_, _, same⟩ := map_eq_some_iff.mp mapped
    obtain ⟨_, rfl⟩ := Prod.mk.inj same
    exact level target (mem_of_find?_eq_some found)

-- Every jump that waits at a finalizer goes on from its end, unless a jump of its own ended that.
def Finalizer.Resumed (finalizer : Finalizer) (place : Place) (before after : Draft) : Prop :=
  finalizer.ended = false → ∀ goal kind depth, ⟨finalizer.entry, goal, kind, depth⟩ ∈ before.pending →
    place.Sends after finalizer.last goal depth kind

theorem reach_guard (targets : inner.targets = place.targets) (finalizer : Finalizer) (frames : List Frame) :
    leap.reach place (frames ++ [.guard finalizer]) = leap.reach inner frames := by
  induction frames with
  | nil => simp only [nil_append, Leap.reach, aim_same targets]
  | cons frame rest ih => cases frame <;> simp only [cons_append, Leap.reach, ih]

section
variable {finalizer : Finalizer} (level : place.Level) (targets : inner.targets = place.targets)
  (finalizers : inner.finalizers = finalizer.entry :: place.finalizers) (keeps : Keeps draft after)
  (resumed : finalizer.Resumed place draft after)
include level targets finalizers keeps resumed

theorem carried_guard (frames : List Frame) (carried : leap.Carried inner draft goal frames source) :
    leap.Carried place after goal (frames ++ [.guard finalizer]) source := by
  induction frames generalizing source with
  | nil =>
    obtain ⟨depth, aims, sends⟩ := carried
    rw [aim_same targets] at aims
    have gate : inner.gate depth = some finalizer.entry := gate_some finalizers (aim_level level aims)
    simp only [Place.Sends, gate] at sends
    exact ⟨keeps.edges _ sends.1, fun runs => ⟨depth, aims, resumed runs _ _ _ (sends.2 _ rfl)⟩⟩
  | cons frame rest ih =>
    cases frame with
    | within frame =>
      simp only [cons_append, Leap.Carried] at carried ⊢
      split at carried
      · rename_i takes
        rw [if_pos takes]
        exact keeps.edges _ carried
      · rename_i other
        rw [if_neg other]
        exact ih carried
    | guard finalizer => exact ⟨keeps.edges _ carried.1, fun runs => ih (carried.2 runs)⟩

theorem holds_guarded {tried last : Outline} (ended : finalizer.ended = true → finalizer.last ∈ after.closed)
    (holds : tried.Holds inner draft) (lasts : last.Holds place after) : (Outline.guarded finalizer tried last).Holds place after := by
  intro jump member
  rw [Outline.jumps, mem_append, ← nil_append [Frame.guard finalizer], jumps_around] at member
  rcases member with inside | outside
  · obtain ⟨jump, known, rfl⟩ := mem_map.mp inside
    obtain ⟨carried, stops, made⟩ := holds jump known
    refine ⟨fun goal reaches => ?_, fun other around isEnded => ?_, fun other around => ?_⟩
    · rw [reach_guard targets] at reaches
      obtain ⟨closed, carried⟩ := carried goal reaches
      exact ⟨keeps.closed _ closed, carried_guard level targets finalizers keeps resumed jump.frames carried⟩
    · rcases mem_append.mp around with here | new
      · exact keeps.closed _ (stops other here isEnded)
      · cases mem_singleton.mp new
        exact ended isEnded
    · have isMade := made other (by simpa using around)
      exact { isMade with behind := isMade.behind.keep keeps, again := fun goal goes => (isMade.again goal goes).keep keeps }
  · exact lasts jump outside

end

theorem holds_jump {block : Nat} (aims : leap.aim place = some (goal, depth))
    (sends : place.Sends draft block goal depth leap.kind) (closed : block ∈ draft.closed) :
    (Outline.jump leap block).Holds place draft := by
  intro jump member
  cases mem_singleton.mp member
  refine ⟨fun other reaches => ?_, nofun, nofun⟩
  simp only [Leap.reach, aims, map_some, Option.some.injEq] at reaches
  subst other
  exact ⟨closed, depth, aims, sends⟩

theorem holds_lost (lost : leap.aim place = none) (block : Nat) (draft : Draft) : (Outline.jump leap block).Holds place draft := by
  intro jump member
  cases mem_singleton.mp member
  refine ⟨fun goal reaches => ?_, nofun, nofun⟩
  simp [Leap.reach, lost] at reaches

end

end HookLint.Flow
