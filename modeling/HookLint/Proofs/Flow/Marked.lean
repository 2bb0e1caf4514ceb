import HookLint.Proofs.Flow.Shaped

namespace HookLint.Flow

open List

namespace Draft

-- A block lies in the body of a loop, or it does not.
structure Lies (draft : Draft) (inLoop : Bool) (block : Nat) : Prop where
  inside : block < draft.blocks.length
  loop : block ∈ draft.loopBody ↔ inLoop = true

end Draft

-- A call that was recorded in a block.
structure Entry where
  block : Nat
  mark : Mark
  call : Value

def callsIn (entries : List Entry) (block : Nat) : List Value := (entries.filter (·.block = block)).map (·.call)

-- The block of an entry is as the mark says. A region that is not modelled leads back to itself.
structure Entry.Fits (entry : Entry) (draft : Draft) : Prop where
  lies : draft.Lies entry.mark.inLoop entry.block
  repeats : entry.mark.blurred = true → ⟨entry.block, entry.block, .loopBack⟩ ∈ draft.edges

-- The calls in the blocks are those that were marked, each of them once.
structure Sheet.Records (sheet : Sheet) (marks : Marks) : Prop where
  bounded : ∀ block ∈ sheet.draft.loopBody, block < sheet.draft.blocks.length
  lies : ∀ side block, sheet.lies side block → sheet.draft.Lies side block
  entries : ∃ entries : List Entry, (entries.map fun entry => (entry.mark, entry.call)) = marks ∧
    (∀ block, sheet.draft.callsOf block = callsIn entries block) ∧ ∀ entry ∈ entries, entry.Fits sheet.draft

section
variable {first last : Sheet} {marks more : Marks}

theorem Sheet.Records.extend (records : first.Records marks) (size : first.draft.blocks.length ≤ last.draft.blocks.length)
    (bounded : ∀ block ∈ last.draft.loopBody, block < last.draft.blocks.length)
    (loops : ∀ block < first.draft.blocks.length, (block ∈ last.draft.loopBody ↔ block ∈ first.draft.loopBody))
    (edges : ∀ edge ∈ first.draft.edges, edge ∈ last.draft.edges) (calls : ∀ block, last.draft.callsOf block = first.draft.callsOf block)
    (lies : ∀ side block, last.lies side block → last.draft.Lies side block ∨ first.lies side block) : last.Records marks := by
  obtain ⟨_, known, entries, listed, recorded, fits⟩ := records
  have stays {side : Bool} {block : Nat} (here : first.draft.Lies side block) : last.draft.Lies side block :=
    ⟨Nat.lt_of_lt_of_le here.inside size, (loops block here.inside).trans here.loop⟩
  refine ⟨bounded, fun side block here => ?_, entries, listed, fun block => (calls block).trans (recorded block), fun entry member => ?_⟩
  · exact (lies side block here).elim id fun old => stays (known side block old)
  · exact ⟨stays (fits entry member).lies, fun blurred => edges _ ((fits entry member).repeats blurred)⟩

theorem Move.records (move : Move first more last) (records : first.Records marks) : last.Records (marks ++ more) := by
  have bounded := records.bounded
  cases move with
  | wait | remark =>
    rw [append_nil]
    exact records.extend (Nat.le_refl _) bounded (fun _ _ => .rfl) (fun _ => id) (fun _ => rfl) fun _ _ => .inr
  | narrow alive opened lies fits =>
    rw [append_nil]
    exact records.extend (Nat.le_refl _) bounded (fun _ _ => .rfl) (fun _ => id) (fun _ => rfl)
      fun side block here => .inr ((fits block).2.2.2 side here)
  | note number change quiet grows =>
    rw [append_nil]
    have size : (first.draft.change number change).blocks.length = first.draft.blocks.length := length_modify ..
    refine records.extend (Nat.le_of_eq size.symm) (by rwa [size]) (fun _ _ => .rfl) (fun _ => id) (fun block => ?_) fun _ _ => .inr
    simp only [Draft.callsOf, Draft.change, calls_of_modify, quiet]
    split <;> rfl
  | link edge | leave edge =>
    rw [append_nil]
    have linked := linked first.draft edge
    have loops : (first.draft.link edge).loopBody = first.draft.loopBody := rfl
    exact records.extend (Nat.le_of_eq linked.size.symm) (by rwa [linked.size, loops]) (fun _ _ => by rw [loops])
      (fun other member => (linked.edges other).mpr (.inl member)) linked.calls fun _ _ => .inr
  | add inLoop kind =>
    rw [append_nil]
    have padded : Padded 1 first.draft (first.draft.add inLoop kind) :=
      have ends : Ends (newBlock inLoop kind) first.draft fun _ after => Padded 1 first.draft after :=
        ends_new_block fun _ padded _ _ => padded
      ends
    have loops (block : Nat) : block ∈ (first.draft.add inLoop kind).loopBody ↔
        block ∈ first.draft.loopBody ∨ inLoop = true ∧ block = first.draft.blocks.length := by
      cases inLoop <;> simp [Draft.add]
    have grown : first.draft.blocks.length < (first.draft.add inLoop kind).blocks.length := by
      rw [padded.size]
      exact Nat.lt_succ_self _
    refine records.extend (Nat.le_of_lt grown) (fun block member => ?_) (fun block small => ?_) (fun _ member => padded.edges ▸ member)
      padded.calls fun side block here => here.imp_left ?_
    · rcases (loops block).mp member with old | ⟨_, rfl⟩
      · exact Nat.lt_trans (bounded block old) grown
      · exact grown
    · rw [loops]
      exact or_iff_left fun new => Nat.ne_of_lt small new.2
    · rintro ⟨rfl, rfl⟩
      refine ⟨grown, ?_⟩
      rw [loops, or_iff_right fun old => Nat.lt_irrefl _ (bounded _ old)]
      exact and_iff_left rfl
  | record mark block call inside repeats =>
    have recorded : Recorded block call first.draft (first.draft.change block fun b => { b with calls := b.calls ++ [call] }) :=
      have ends : Ends (recordCall block call) first.draft fun _ after => Recorded block call first.draft after :=
        ends_record_call fun _ recorded => recorded
      ends
    obtain ⟨_, known, entries, listed, calls, fits⟩ := records
    have stays {side : Bool} {other : Nat} (here : first.draft.Lies side other) :
        (first.draft.change block fun b => { b with calls := b.calls ++ [call] }).Lies side other :=
      ⟨recorded.size ▸ here.inside, here.loop⟩
    have isIn := known _ _ inside
    refine ⟨by rwa [recorded.size], fun side other here => stays (known side other here), entries ++ [⟨block, mark, call⟩],
      by simp [listed], fun other => ?_, fun entry member => ?_⟩
    · by_cases same : other = block
      · subst other
        rw [recorded.here isIn.inside, calls]
        simp [callsIn]
      · rw [recorded.elsewhere other same, calls]
        simp [callsIn, Ne.symm same]
    · rcases mem_append.mp member with old | new
      · exact ⟨stays (fits entry old).lies, (fits entry old).repeats⟩
      · cases mem_singleton.mp new
        exact ⟨stays isIn, repeats⟩

theorem Moves.records {early : Marks} (moves : Moves first more last) (records : first.Records early) : last.Records (early ++ more) := by
  induction moves with
  | none => rwa [append_nil]
  | next _ move ih =>
    rw [← append_assoc]
    exact move.records ih

end

theorem body_entries (body : Body) : ∃ entries : List Entry, Included (entries.map fun entry => (entry.mark, entry.call)) body.marks ∧
      (∀ block, body.draft.callsOf block = callsIn entries block) ∧ ∀ entry ∈ entries, entry.Fits body.draft := by
  obtain ⟨opened, lies, drawing⟩ := body_drawn body
  obtain ⟨fewer, included, moves⟩ := drawing.moves
  have nothing : blank.Records [] := by
    refine ⟨by simp [blank, Draft.add], ?_, [], rfl, fun block => ?_, by simp⟩
    · rintro side block ⟨rfl, rfl⟩
      exact ⟨by decide, by simp [blank, Draft.add]⟩
    · rcases block with _ | _ | _ | block <;> rfl
  obtain ⟨_, _, entries, listed, calls, fits⟩ := moves.records nothing
  exact ⟨entries, listed ▸ included, calls, fits⟩

end HookLint.Flow
