import HookLint.Proofs.Flow.Growth
import HookLint.Proofs.Flow.Spelling

namespace HookLint.Flow

open List

variable {target : JumpTarget} {depth landing after other otherOffset block offset finalizer : Nat} {tail : List Value}
  {label : Option Value} {body : Runs} {guarded : Place} {surrounding : Surrounding}

-- The finalizer that a jump from a place has to pass first.
def Place.gate (place : Place) (depth : Nat) : Option Nat :=
  match place.finalizers with
  | finalizer :: rest => if rest.length + 1 > depth then some finalizer else none
  | [] => none

-- Where a jump to a target lands. One that has to pass a finalizer waits there.
def Place.Aims (place : Place) (draft : Draft) (target depth landing : Nat) : Prop :=
  match place.gate depth with
  | none => landing = target
  | some finalizer => landing = finalizer ∧ ∃ kind, kind ≠ .exception ∧ ⟨finalizer, target, kind, depth⟩ ∈ draft.pending

-- Where the run of a statement lands that would end normally at the final block.
def Place.Lands (place : Place) (draft : Draft) (final finalOffset : Nat) : Completion → Nat → Nat → Prop
  | .normal, block, offset => block = final ∧ offset = finalOffset
  | .thrown, block, offset => block = place.handler ∧ offset = 0
  | .returned, block, offset => place.Aims draft 1 0 block ∧ offset = 0
  | .broke label, block, offset =>
    (∃ target, place.find label false = some target ∧ place.Aims draft target.breakTo target.depth block) ∧ offset = 0
  | .continued label, block, offset =>
    (∃ target next, place.find label true = some target ∧ target.continueTo = some next ∧
      place.Aims draft next target.depth block) ∧ offset = 0

def Place.Reaches (place : Place) (draft : Draft) (final finalOffset start startOffset : Nat) (trace : List Value)
    (completion : Completion) : Prop :=
  ∃ block offset, place.Lands draft final finalOffset completion block offset ∧ Flows draft start startOffset trace block offset

section
variable {draft : Draft} {place inner : Place} {final finalOffset start startOffset : Nat} {trace : List Value} {completion : Completion}

theorem aims_grow {base origin target : Nat} {after : Draft} (aims : place.Aims draft target depth landing)
    (grows : Grows base origin draft after) : place.Aims after target depth landing := by
  unfold Place.Aims at aims ⊢
  cases gate : place.gate depth with
  | none => simpa only [gate] using aims
  | some finalizer =>
    simp only [gate] at aims ⊢
    obtain ⟨same, kind, normal, waiting⟩ := aims
    exact ⟨same, kind, normal, grows.pending _ waiting⟩

theorem reaches_grow {base origin : Nat} {after : Draft}
    (reaches : place.Reaches draft final finalOffset start startOffset trace completion) (grows : Grows base origin draft after) :
    place.Reaches after final finalOffset start startOffset trace completion := by
  obtain ⟨block, offset, lands, flows⟩ := reaches
  refine ⟨block, offset, ?_, flows_grow flows grows⟩
  cases completion with
  | normal | thrown => exact lands
  | returned => exact ⟨aims_grow lands.1 grows, lands.2⟩
  | broke label =>
    obtain ⟨⟨target, found, aims⟩, zero⟩ := lands
    exact ⟨⟨target, found, aims_grow aims grows⟩, zero⟩
  | continued label =>
    obtain ⟨⟨target, next, found, continues, aims⟩, zero⟩ := lands
    exact ⟨⟨target, next, found, continues, aims_grow aims grows⟩, zero⟩

theorem reaches_before {middle middleOffset : Nat} {head : List Value} (flows : Flows draft start startOffset head middle middleOffset)
    (reaches : place.Reaches draft final finalOffset middle middleOffset trace completion) :
    place.Reaches draft final finalOffset start startOffset (head ++ trace) completion := by
  obtain ⟨block, offset, lands, more⟩ := reaches
  exact ⟨block, offset, lands, flows_trans flows more⟩

theorem reaches_normal : place.Reaches draft final finalOffset start startOffset trace .normal ↔
    Flows draft start startOffset trace final finalOffset := by
  constructor
  · rintro ⟨block, offset, ⟨rfl, rfl⟩, flows⟩
    exact flows
  · exact fun flows => ⟨final, finalOffset, ⟨rfl, rfl⟩, flows⟩

theorem lands_abrupt (lands : place.Lands draft final finalOffset completion block offset)
    (abrupt : completion ≠ .normal) : place.Lands draft other otherOffset completion block offset := by
  cases completion with
  | normal => exact absurd rfl abrupt
  | thrown | returned | broke label | continued label => exact lands

theorem reaches_abrupt (reaches : place.Reaches draft final finalOffset start startOffset trace completion)
    (abrupt : completion ≠ .normal) : place.Reaches draft other otherOffset start startOffset trace completion := by
  obtain ⟨block, offset, lands, flows⟩ := reaches
  exact ⟨block, offset, lands_abrupt lands abrupt, flows⟩

theorem reaches_on {next nextOffset : Nat} {last : Completion}
    (reaches : place.Reaches draft final finalOffset start startOffset trace .normal)
    (more : place.Reaches draft next nextOffset final finalOffset tail last) :
    place.Reaches draft next nextOffset start startOffset (trace ++ tail) last :=
  reaches_before (reaches_normal.mp reaches) more

theorem reaches_extend {next nextOffset : Nat} (reaches : place.Reaches draft final finalOffset start startOffset trace completion)
    (more : completion = .normal → Flows draft final finalOffset [] next nextOffset) :
    place.Reaches draft next nextOffset start startOffset trace completion := by
  by_cases normal : completion = .normal
  · subst completion
    rw [reaches_normal] at reaches ⊢
    simpa using flows_trans reaches (more rfl)
  · exact reaches_abrupt reaches normal

theorem gate_none (deep : place.finalizers.length ≤ depth) : place.gate depth = none := by
  unfold Place.gate
  split
  · rename_i finalizer rest listed
    rw [listed, length_cons] at deep
    rw [if_neg (by omega)]
  · rfl

theorem gate_some {rest : List Nat} (listed : place.finalizers = finalizer :: rest)
    (shallow : depth ≤ rest.length) : place.gate depth = some finalizer := by
  unfold Place.gate
  rw [listed]
  exact if_pos (by omega)

end

-- Whether a jump means a target.
def JumpTarget.takes (target : JumpTarget) (isContinue : Bool) : Option Value → Bool
  | some name => target.label.any (·.equal name)
  | none => target.takesPlainBreak && (!isContinue || target.continueTo.isSome)

-- A place with one more target around it.
structure Place.Within (inner place : Place) (target : JumpTarget) : Prop where
  targets : inner.targets = target :: place.targets
  handler : inner.handler = place.handler
  finalizers : inner.finalizers = place.finalizers
  depth : target.depth = place.finalizers.length

section
variable {draft : Draft} {place inner : Place} {target : JumpTarget} {final finalOffset start startOffset : Nat}
  {trace : List Value} {completion : Completion}

theorem find_takes (place : Place) (label : Option Value) (isContinue : Bool) :
    place.find label isContinue = place.targets.find? (·.takes isContinue label) := rfl

section
variable (within : inner.Within place target)
include within

theorem find_within (label : Option Value) (isContinue : Bool) :
    inner.find label isContinue = if target.takes isContinue label then some target else place.find label isContinue := by
  rw [find_takes, find_takes, within.targets, List.find?_cons]
  cases target.takes isContinue label <;> rfl

theorem aims_within {goal : Nat} : inner.Aims draft goal depth landing ↔ place.Aims draft goal depth landing := by
  unfold Place.Aims Place.gate
  rw [within.finalizers]

theorem break_lands (takes : target.takes false label = true) (lands : inner.Lands draft final finalOffset (.broke label) block offset) :
    block = target.breakTo ∧ offset = 0 := by
  obtain ⟨⟨found, search, aims⟩, zero⟩ := lands
  rw [find_within within, if_pos takes, Option.some.injEq] at search
  subst found
  rw [aims_within within, Place.Aims, gate_none (Nat.le_of_eq within.depth.symm)] at aims
  exact ⟨aims, zero⟩

theorem continue_lands (takes : target.takes true label = true) (lands : inner.Lands draft final finalOffset (.continued label) block offset) :
    target.continueTo = some block ∧ offset = 0 := by
  obtain ⟨⟨found, next, search, continues, aims⟩, zero⟩ := lands
  rw [find_within within, if_pos takes, Option.some.injEq] at search
  subst found
  rw [aims_within within, Place.Aims, gate_none (Nat.le_of_eq within.depth.symm)] at aims
  exact ⟨aims ▸ continues, zero⟩

theorem lands_outward (breaks : ∀ label, completion = .broke label → target.takes false label = false)
    (continues : ∀ label, completion = .continued label → target.takes true label = false)
    (lands : inner.Lands draft final finalOffset completion block offset) :
    place.Lands draft final finalOffset completion block offset := by
  cases completion with
  | normal => exact lands
  | thrown => exact ⟨lands.1.trans within.handler, lands.2⟩
  | returned => exact ⟨(aims_within within).mp lands.1, lands.2⟩
  | broke label =>
    obtain ⟨⟨found, search, aims⟩, zero⟩ := lands
    rw [find_within within, breaks label rfl] at search
    exact ⟨⟨found, search, (aims_within within).mp aims⟩, zero⟩
  | continued label =>
    obtain ⟨⟨found, next, search, goes, aims⟩, zero⟩ := lands
    rw [find_within within, continues label rfl] at search
    exact ⟨⟨found, next, search, goes, (aims_within within).mp aims⟩, zero⟩

end

end

section
variable {draft : Draft} {place inner : Place} {label : Option Value} {after next block offset start startOffset : Nat}
  {trace : List Value} {completion : Completion}

section
variable (within : inner.Within place ⟨label, after, some next, place.finalizers.length, true⟩)
include within

theorem loop_left {final finalOffset : Nat}
    (leaves : completion.LeavesLoop label) (lands : inner.Lands draft final finalOffset completion block offset) :
    block = after ∧ offset = 0 := by
  cases completion with
  | normal | thrown | returned | continued _ => exact leaves.elim
  | broke name =>
    refine break_lands within ?_ lands
    cases name with
    | none => rfl
    | some name => exact leaves

theorem loop_continued
    (goesOn : completion.GoesOn label) (lands : inner.Lands draft next 0 completion block offset) : block = next ∧ offset = 0 := by
  cases completion with
  | normal => exact lands
  | thrown | returned | broke _ => exact goesOn.elim
  | continued name =>
    have takes : JumpTarget.takes ⟨label, after, some next, place.finalizers.length, true⟩ true name = true := by
      cases name with
      | none => rfl
      | some name => exact goesOn
    obtain ⟨same, zero⟩ := continue_lands within takes lands
    exact ⟨(Option.some.inj same).symm, zero⟩

theorem loop_abrupt {final finalOffset : Nat} (stays : ¬ completion.LeavesLoop label) (stops : ¬ completion.GoesOn label)
    (lands : inner.Lands draft final finalOffset completion block offset) :
    place.Lands draft other otherOffset completion block offset := by
  have abrupt : completion ≠ .normal := fun same => stops (same ▸ trivial)
  refine lands_abrupt (lands_outward within ?_ ?_ lands) abrupt
  · rintro (_ | name) rfl
    · exact absurd trivial stays
    · exact Bool.eq_false_iff.mpr stays
  · rintro (_ | name) rfl
    · exact absurd trivial stops
    · exact Bool.eq_false_iff.mpr stops

end

section
variable (within : inner.Within place ⟨none, after, none, place.finalizers.length, true⟩)
include within

theorem switch_left (leaves : completion.LeavesLoop none) (lands : inner.Lands draft after 0 completion block offset) : block = after ∧ offset = 0 := by
  cases completion with
  | normal | thrown | returned | continued _ => exact leaves.elim
  | broke name =>
    cases name with
    | none => exact break_lands within rfl lands
    | some name => exact absurd leaves (by simp [Completion.LeavesLoop, Named])

theorem switch_outward (stays : ¬ completion.LeavesLoop none) (lands : inner.Lands draft after 0 completion block offset) :
    place.Lands draft after 0 completion block offset := by
  refine lands_outward within ?_ ?_ lands
  · rintro (_ | name) rfl
    · exact absurd trivial stays
    · rfl
  · rintro (_ | name) rfl
    · rfl
    · rfl

end

section
variable (within : inner.Within place ⟨label, after, none, place.finalizers.length, false⟩)
include within

theorem labeled_left (leaves : completion.LeavesLabel label) (lands : inner.Lands draft after 0 completion block offset) : block = after ∧ offset = 0 := by
  cases completion with
  | normal | thrown | returned | continued _ => exact leaves.elim
  | broke name =>
    cases name with
    | none => exact leaves.elim
    | some name =>
      have takes : JumpTarget.takes ⟨label, after, none, place.finalizers.length, false⟩ false (some name) = true := leaves
      exact break_lands within takes lands

theorem labeled_outward (stays : ¬ completion.LeavesLabel label) (lands : inner.Lands draft after 0 completion block offset) :
    place.Lands draft after 0 completion block offset := by
  refine lands_outward within ?_ ?_ lands
  · rintro (_ | name) rfl
    · rfl
    · exact Bool.eq_false_iff.mpr stays
  · rintro name rfl
    refine Bool.eq_false_iff.mpr fun takes => ?_
    -- Only a loop can be continued.
    cases (continue_lands within takes lands).1

end

theorem loop_reaches {enter leave again finish : Traces} {top inside insideOffset : Nat}
    (within : inner.Within place ⟨label, after, some next, place.finalizers.length, true⟩)
    (enters : ∀ trace, enter trace → Flows draft top 0 trace inside insideOffset)
    (leaves : ∀ trace, leave trace → Flows draft top 0 trace after 0) (rounds : ∀ trace completion, body trace completion →
      inner.Reaches draft next 0 inside insideOffset trace completion) (returns : ∀ trace, again trace → Flows draft next 0 trace top 0)
    (finishes : ∀ trace, finish trace → Flows draft next 0 trace after 0)
    (run : Loop label enter leave body again finish trace completion) : place.Reaches draft after 0 top 0 trace completion := by
  induction run with
  | left head isLeft => exact reaches_normal.mpr (leaves head isLeft)
  | broken head inside completion entered ran left =>
    obtain ⟨block, offset, lands, round⟩ := rounds inside completion ran
    obtain ⟨rfl, rfl⟩ := loop_left within left lands
    exact reaches_normal.mpr (flows_trans (enters head entered) round)
  | abrupt head inside completion entered ran stays stops =>
    obtain ⟨block, offset, lands, round⟩ := rounds inside completion ran
    exact reaches_before (enters head entered) ⟨block, offset, loop_abrupt within stays stops lands, round⟩
  | finished head inside tail completion entered ran goesOn finished =>
    obtain ⟨block, offset, lands, round⟩ := rounds inside completion ran
    obtain ⟨rfl, rfl⟩ := loop_continued within goesOn lands
    exact reaches_normal.mpr (flows_trans (enters head entered) (flows_trans round (finishes tail finished)))
  | next head inside tail rest completion final entered ran goesOn returned _ ih =>
    obtain ⟨block, offset, lands, round⟩ := rounds inside completion ran
    obtain ⟨rfl, rfl⟩ := loop_continued within goesOn lands
    exact reaches_before (enters head entered) (reaches_before round (reaches_before (returns tail returned) ih))

theorem switch_reaches (within : inner.Within place ⟨none, after, none, place.finalizers.length, true⟩)
    (inside : ∀ trace completion, body trace completion → inner.Reaches draft after 0 start startOffset trace completion)
    (run : Catching (Completion.LeavesLoop none) body trace completion) :
    place.Reaches draft after 0 start startOffset trace completion := by
  rcases run with ⟨run, stays⟩ | ⟨rfl, caught, run, leaves⟩
  · obtain ⟨block, offset, lands, flows⟩ := inside trace completion run
    exact ⟨block, offset, switch_outward within stays lands, flows⟩
  · obtain ⟨block, offset, lands, flows⟩ := inside trace caught run
    obtain ⟨rfl, rfl⟩ := switch_left within leaves lands
    exact reaches_normal.mpr flows

theorem labeled_reaches (within : inner.Within place ⟨label, after, none, place.finalizers.length, false⟩)
    (inside : ∀ trace completion, body trace completion → inner.Reaches draft after 0 start startOffset trace completion)
    (run : Catching (Completion.LeavesLabel label) body trace completion) :
    place.Reaches draft after 0 start startOffset trace completion := by
  rcases run with ⟨run, stays⟩ | ⟨rfl, caught, run, leaves⟩
  · obtain ⟨block, offset, lands, flows⟩ := inside trace completion run
    exact ⟨block, offset, labeled_outward within stays lands, flows⟩
  · obtain ⟨block, offset, lands, flows⟩ := inside trace caught run
    obtain ⟨rfl, rfl⟩ := labeled_left within leaves lands
    exact reaches_normal.mpr flows

end

section
variable {draft : Draft} {place : Place} {final finalOffset start startOffset : Nat} {trace : List Value} {completion : Completion}

theorem handled_reaches {tried rescue : Runs} {caught : Nat} (inside : ∀ trace completion, tried trace completion →
      ({ place with handler := caught } : Place).Reaches draft final finalOffset start startOffset trace completion)
    (rescues : ∀ trace completion, rescue trace completion → place.Reaches draft final finalOffset caught 0 trace completion)
    (run : Rescued tried rescue trace completion) : place.Reaches draft final finalOffset start startOffset trace completion := by
  rcases run with ⟨run, other⟩ | ⟨head, tail, thrown, rescued, rfl⟩
  · obtain ⟨block, offset, lands, flows⟩ := inside trace completion run
    refine ⟨block, offset, ?_, flows⟩
    cases completion with
    | thrown => exact absurd rfl other
    | normal | returned | broke label | continued label => exact lands
  · obtain ⟨block, offset, ⟨rfl, rfl⟩, flows⟩ := inside head .thrown thrown
    exact reaches_before flows (rescues tail completion rescued)

-- From the end of a finalizer control goes on to wherever it was going before.
structure Place.Resumes (place : Place) (draft : Draft) (finalizer after : Nat) (block offset : Nat) (trace : List Value) : Prop where
  onward : Flows draft block offset trace after 0
  thrown : Flows draft block offset trace place.handler 0
  waiting : ∀ jumping ∈ draft.pending, jumping.finalizer = finalizer → jumping.kind ≠ .exception →
    ∃ landing, place.Aims draft jumping.target jumping.depth landing ∧ Flows draft block offset trace landing 0

-- A place with one more finalizer around it, where exceptions go too.
structure Place.GuardedBy (guarded place : Place) (finalizer : Nat) : Prop where
  finalizers : guarded.finalizers = finalizer :: place.finalizers
  handler : guarded.handler = finalizer
  targets : guarded.targets = place.targets
  shallow : ∀ target ∈ place.targets, target.depth ≤ place.finalizers.length

theorem Place.GuardedBy.found {isContinue : Bool} (guard : guarded.GuardedBy place finalizer)
    (found : guarded.find label isContinue = some target) :
    place.find label isContinue = some target ∧ guarded.gate target.depth = some finalizer := by
  rw [Place.find, guard.targets] at found
  exact ⟨found, gate_some guard.finalizers (guard.shallow target (mem_of_find?_eq_some found))⟩

theorem Place.GuardedBy.enters (guard : guarded.GuardedBy place finalizer)
    (reaches : guarded.Reaches draft finalizer 0 start startOffset trace completion) : Flows draft start startOffset trace finalizer 0 := by
  obtain ⟨block, offset, lands, flows⟩ := reaches
  cases completion with
  | normal =>
    obtain ⟨rfl, rfl⟩ := lands
    exact flows
  | thrown =>
    obtain ⟨rfl, rfl⟩ := lands
    exact guard.handler ▸ flows
  | returned =>
    obtain ⟨aims, rfl⟩ := lands
    rw [Place.Aims, gate_some guard.finalizers (Nat.zero_le _)] at aims
    exact aims.1 ▸ flows
  | broke label =>
    obtain ⟨⟨target, found, aims⟩, rfl⟩ := lands
    rw [Place.Aims, (guard.found found).2] at aims
    exact aims.1 ▸ flows
  | continued label =>
    obtain ⟨⟨target, goal, found, _, aims⟩, rfl⟩ := lands
    rw [Place.Aims, (guard.found found).2] at aims
    exact aims.1 ▸ flows

theorem waiting_lands {target : Nat}
    (gate : guarded.gate depth = some finalizer) (resumes : place.Resumes draft finalizer after finalizer 0 tail)
    (aims : guarded.Aims draft target depth landing) (flows : Flows draft start startOffset trace landing 0) :
    ∃ next, place.Aims draft target depth next ∧ Flows draft start startOffset (trace ++ tail) next 0 := by
  rw [Place.Aims, gate] at aims
  obtain ⟨rfl, kind, normal, waits⟩ := aims
  obtain ⟨next, aims, more⟩ := resumes.waiting _ waits rfl normal
  exact ⟨next, aims, flows_trans flows more⟩

theorem resumed_reaches (guard : guarded.GuardedBy place finalizer) (resumes : place.Resumes draft finalizer after finalizer 0 tail)
    (reaches : guarded.Reaches draft finalizer 0 start startOffset trace completion) :
    place.Reaches draft after 0 start startOffset (trace ++ tail) completion := by
  obtain ⟨block, offset, lands, flows⟩ := reaches
  cases completion with
  | normal =>
    obtain ⟨rfl, rfl⟩ := lands
    exact reaches_normal.mpr (flows_trans flows resumes.onward)
  | thrown =>
    obtain ⟨rfl, rfl⟩ := lands
    rw [guard.handler] at flows
    exact ⟨place.handler, 0, ⟨rfl, rfl⟩, flows_trans flows resumes.thrown⟩
  | returned =>
    obtain ⟨aims, rfl⟩ := lands
    have gate := gate_some guard.finalizers (Nat.zero_le _)
    obtain ⟨next, further, flows⟩ := waiting_lands gate resumes aims flows
    exact ⟨next, 0, ⟨further, rfl⟩, flows⟩
  | broke label =>
    obtain ⟨⟨target, found, aims⟩, rfl⟩ := lands
    obtain ⟨outside, gate⟩ := guard.found found
    obtain ⟨next, further, flows⟩ := waiting_lands gate resumes aims flows
    exact ⟨next, 0, ⟨⟨target, outside, further⟩, rfl⟩, flows⟩
  | continued label =>
    obtain ⟨⟨target, goal, found, continues, aims⟩, rfl⟩ := lands
    obtain ⟨outside, gate⟩ := guard.found found
    obtain ⟨next, further, flows⟩ := waiting_lands gate resumes aims flows
    exact ⟨next, 0, ⟨⟨target, goal, outside, continues, further⟩, rfl⟩, flows⟩

theorem finalized_reaches {final : Runs} (guard : guarded.GuardedBy place finalizer)
    (inside : ∀ trace completion, body trace completion → guarded.Reaches draft finalizer 0 start startOffset trace completion)
    (abrupt : ∀ trace completion, final trace completion → completion ≠ .normal → place.Reaches draft after 0 finalizer 0 trace completion)
    (resumes : ∀ trace, final trace .normal → place.Resumes draft finalizer after finalizer 0 trace)
    (run : Finalized body final trace completion) : place.Reaches draft after 0 start startOffset trace completion := by
  obtain ⟨head, tail, inner, last, ran, ended, rfl, ⟨rfl, rfl⟩ | ⟨other, rfl⟩⟩ := run
  · exact resumed_reaches guard (resumes tail ended) (inside head completion ran)
  · exact reaches_before (guard.enters (inside head inner ran)) (abrupt tail completion ended other)

end

-- How the targets of a place stand for the statements around it.
structure JumpTarget.Fits (size depth : Nat) (around : Surrounding) (target : JumpTarget) : Prop where
  label : target.label = around.label
  breakTo : target.breakTo < size
  continueTo : ∀ next, target.continueTo = some next → next < size
  isLoop : target.continueTo.isSome = around.isLoop
  depth : target.depth ≤ depth
  plain : target.takesPlainBreak = around.takesBreak none

structure Place.Fits (place : Place) (around : List Surrounding) (size : Nat) : Prop where
  exit : 1 < size
  handler : place.handler < size
  finalizers : ∀ finalizer ∈ place.finalizers, finalizer < size
  targets : List.Forall₂ (JumpTarget.Fits size place.finalizers.length) around place.targets

section
variable {place : Place} {around : List Surrounding} {size : Nat}

section
variable (fits : place.Fits around size)
include fits

theorem Place.Fits.mono {larger : Nat} (le : size ≤ larger := by omega) : place.Fits around larger := by
  refine ⟨by have := fits.exit; omega, by have := fits.handler; omega, fun finalizer member => ?_, ?_⟩
  · have := fits.finalizers finalizer member
    omega
  · refine fits.targets.imp fun _ target one => ?_
    exact ⟨one.label, Nat.lt_of_lt_of_le one.breakTo le, fun next goes => Nat.lt_of_lt_of_le (one.continueTo next goes) le,
      one.isLoop, one.depth, one.plain⟩

theorem Place.Fits.enter {inner : Place} (within : inner.Within place target) (one : target.Fits size place.finalizers.length surrounding) :
    inner.Fits (surrounding :: around) size := by
  refine ⟨fits.exit, within.handler ▸ fits.handler, within.finalizers ▸ fits.finalizers, ?_⟩
  rw [within.targets, within.finalizers]
  exact .cons one fits.targets

theorem Place.Fits.jump (member : target ∈ place.targets) : ∃ surrounding, target.Fits size place.finalizers.length surrounding := by
  obtain ⟨_, _, _, targets⟩ := fits
  generalize place.targets = others at targets member
  induction targets with
  | nil => cases member
  | cons one _ ih =>
    rcases mem_cons.mp member with rfl | later
    · exact ⟨_, one⟩
    · exact ih later

end

theorem fits_takes_break
    (fits : target.Fits size depth surrounding) (label : Option Value) : target.takes false label = surrounding.takesBreak label := by
  cases label with
  | none => simp [JumpTarget.takes, fits.plain]
  | some name => simp [JumpTarget.takes, Surrounding.takesBreak, fits.label]

theorem fits_takes_continue
    (fits : target.Fits size depth surrounding) (label : Option Value) : target.takes true label = surrounding.takesContinue label := by
  cases label with
  | none =>
    simp only [JumpTarget.takes, fits.plain, fits.isLoop]
    cases surrounding <;> rfl
  | some name => simp [JumpTarget.takes, Surrounding.takesContinue, fits.label]

theorem find_related {targets : List JumpTarget} {picks : Surrounding → Bool} {takes : JumpTarget → Bool}
    (fits : List.Forall₂ (JumpTarget.Fits size depth) around targets)
    (same : ∀ surrounding target, JumpTarget.Fits size depth surrounding target → takes target = picks surrounding)
    (surrounding : Surrounding) (found : around.find? picks = some surrounding) :
    ∃ target, targets.find? takes = some target ∧ JumpTarget.Fits size depth surrounding target := by
  induction fits with
  | nil => cases found
  | @cons first target _ _ fit _ ih =>
    rw [List.find?_cons] at found ⊢
    rw [same first target fit]
    cases picked : picks first with
    | true =>
      rw [picked, Option.some.injEq] at found
      exact ⟨target, rfl, found ▸ fit⟩
    | false =>
      rw [picked] at found
      exact ih found

theorem break_found (fits : place.Fits around size)
    (lawful : (around.find? (·.takesBreak label)).isSome = true) : ∃ target, place.find label false = some target := by
  obtain ⟨surrounding, found⟩ := Option.isSome_iff_exists.mp lawful
  obtain ⟨target, search, _⟩ := find_related fits.targets (fun _ _ fit => fits_takes_break fit label) surrounding found
  exact ⟨target, (find_takes place label false).trans search⟩

theorem continue_found (fits : place.Fits around size) (lawful : (around.find? (·.takesContinue label)).any Surrounding.isLoop = true) :
    ∃ target next, place.find label true = some target ∧ target.continueTo = some next := by
  obtain ⟨surrounding, found, isLoop⟩ := (Option.any_eq_true _ _).mp lawful
  obtain ⟨target, search, fit⟩ := find_related fits.targets (fun _ _ fit => fits_takes_continue fit label) surrounding found
  obtain ⟨next, goes⟩ := Option.isSome_iff_exists.mp (fit.isLoop.trans isLoop)
  exact ⟨target, next, (find_takes place label true).trans search, goes⟩

end

section
variable {draft : Draft} {place : Place}

theorem waiting_grows (base start : Nat) (waiting : List Pending) :
    Grows base start draft { draft with pending := draft.pending ++ waiting } :=
  ⟨Nat.le_refl _, fun _ member => member, fun _ member => mem_append_left _ member, fun _ => prefix_refl _,
    fun _ _ => rfl, fun _ _ _ => ⟨rfl, id, id⟩⟩

theorem waiting_valid {waiting : List Pending} (valid : draft.Valid)
    (inside : ∀ jumping ∈ waiting, jumping.finalizer < draft.blocks.length ∧ jumping.target < draft.blocks.length) :
    ({ draft with pending := draft.pending ++ waiting } : Draft).Valid := by
  refine ⟨valid.edges, valid.closed, fun jumping member => ?_⟩
  rcases mem_append.mp member with old | new
  · exact valid.pending jumping old
  · exact inside jumping new

theorem ends_jump {Post : Unit → Draft → Prop} {target : Nat} {kind : EdgeKind} (next : ∀ waiting landing after,
      (∀ jumping ∈ waiting, jumping.finalizer ∈ place.finalizers ∧ jumping.target = target) →
      (landing = target ∨ landing ∈ place.finalizers) →
      Connected True ⟨block, landing, kind⟩ { draft with pending := draft.pending ++ waiting } after →
      (kind ≠ .exception → place.Aims after target depth landing) → Post () after) :
    Ends (jump place block target kind depth) draft Post := by
  have direct (none : place.gate depth = none) : Ends (connect block target kind) draft Post := by
    refine ends_connect fun after linked _ => next [] target after (by simp) (.inl rfl) (by simpa using linked) fun _ => ?_
    rw [Place.Aims, none]
  unfold jump
  cases listed : place.finalizers with
  | nil => exact direct (by rw [Place.gate, listed])
  | cons finalizer rest =>
    by_cases deep : rest.length + 1 > depth
    · simp only [deep, if_true]
      show Ends (connect block finalizer kind) { draft with pending := draft.pending ++ [⟨finalizer, target, kind, depth⟩] } Post
      refine ends_connect fun after linked _ => next [⟨finalizer, target, kind, depth⟩] finalizer after ?_ ?_ linked ?_
      · simp [listed]
      · simp [listed]
      intro normal
      rw [Place.Aims, gate_some listed (by omega)]
      refine ⟨rfl, kind, normal, ?_⟩
      rw [linked.pending]
      simp
    · simp only [deep, if_false]
      refine direct ?_
      rw [Place.gate, listed]
      exact if_neg deep

end

end HookLint.Flow
