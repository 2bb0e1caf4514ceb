import HookLint.Proofs.Flow.Shapes

namespace HookLint.Flow

open List

variable {Post : Nat × Outline → Draft → Prop} {cases : List Case} {inLoop : Bool} {rest : Nat × Outline → Build (Nat × Outline)}

def Stmt.text (stmt : Stmt) : Text := ⟨fun around => stmt.spots around, stmt.attempts, stmt.lead, []⟩

def textOfAll (stmts : List Stmt) : Text := ⟨fun around => spotsAll around stmts, attemptsOfAll stmts, leadOfStmts stmts, []⟩

def textIf (stmt : Option Stmt) : Text := ⟨fun around => spotsIf around stmt, attemptsOfOptional stmt, leadOfOptional stmt, []⟩

def textOfCases (cases : List Case) : Text := ⟨fun around => spotsCases around cases, attemptsOfCases cases, .split, []⟩

def Handler.lead : Handler → Lead
  | .mk param body => param.lead.andThen (leadOfOptional body)

def textOfHandler (handler : Handler) : Text :=
  ⟨fun around => spotsHandler around (some handler), attemptsOfHandler (some handler), handler.lead, []⟩

def textOfTried (thrown : Nat) (stmts : List Stmt) : Text :=
  ⟨fun around => spotsAll around stmts, attemptsOfAll stmts, .split, stmts.map (thrown, ·)⟩

def Stmt.Shapely (stmt : Stmt) : Prop := ∀ place : Place, place.Apt → Shapes place (stmt.marks place.inLoop) stmt.text (stmt.outline place)

def ShapelyIf (stmt : Option Stmt) : Prop := ∀ place : Place, place.Apt →
  Shapes place (marksOfOptional place.inLoop stmt) (textIf stmt) (outlineOptional place stmt)

@[grind =]
theorem in_loop_body (place : Place) (label : Option Value) (breakTo continueTo : Nat) :
    (place.inLoopBody label breakTo continueTo).inLoop = true := rfl

theorem shapely_return (node : Value) (value : Expr) : (Stmt.returnValue node value).Shapely := by
  intro place apt sheet start sane lives inside
  have within := sane.within
  simp only [Stmt.outline, Stmt.build, bind_assoc, pure_bind]
  refine ends_bind (draw_lead (draw_begin sane) (value.drawn place) lives inside fun final d1 away drawing => ?_)
  refine ends_bind (draw_statement drawing fun d2 drawing => ends_bind (ends_chain ?_))
  refine draw_leap drawing apt .back rfl (.inl rfl) fun d3 closed drawing => ends_pure _ ?_
  exact drawing.shape (included_refl _) (fun _ facts => ⟨facts.2.leading, fun _ => facts.1.2⟩) nofun away.1 (by grind)

theorem shapely_throw (node : Value) (value : Expr) : (Stmt.throwValue node value).Shapely := by
  intro place apt sheet start sane lives inside
  have within := sane.within
  simp only [Stmt.outline, withoutJumps, Stmt.build, bind_assoc, pure_bind]
  refine ends_bind (draw_lead (draw_begin sane) (value.drawn place) lives inside fun final d1 away drawing => ?_)
  refine ends_bind (draw_statement drawing fun d2 drawing => ends_bind (ends_chain ?_))
  refine draw_leave drawing (.inl rfl) apt.handler rfl fun d3 closed drawing => ends_pure _ ?_
  exact drawing.shape (included_refl _) (fun _ facts => ⟨tells_nothing.leading, fun _ => facts.1.2⟩) nofun away.1 (by grind)

theorem shapely_labeled (label : Option Value) {body : Stmt} (shapely : body.Shapely) : (Stmt.labeled label body).Shapely := by
  intro place apt sheet start sane lives inside
  have within := sane.within
  refine ends_bind (draw_made (draw_begin sane) fun next d1 ahead new drawing => ?_)
  extract_lets target
  have inner : { place with targets := target :: place.targets : Place }.Within place target := ⟨rfl, rfl, rfl, rfl⟩
  have shapes := shapely _ (apt.enter inner ahead (by simp [target]))
  have isOpen : start ∉ d1.closed := (drawing.sane.isOpen start (.inr (within start lives))).2
  refine ends_after (shapes _ start drawing.sane (.inr lives) (.inr inside)) fun result d2 ⟨⟨away, _⟩, rest⟩ => ?_
  have drawing := (drawing.more rest.moves).know rest.knows
  refine ends_bind (draw_flow drawing (by grind) ahead nofun fun d3 drawing => ends_pure _ ?_)
  exact drawing.shape (included_of_eq (by simp [Stmt.marks])) (fun _ facts => ⟨tells_inside inner (made_once rfl rfl rfl rfl facts.1.2) facts.2.1, fun _ => facts.2.2 isOpen⟩) nofun
    (by grind) (by grind)

section
variable {body : Option Stmt} (shapely : ShapelyIf body)
include shapely

theorem shapely_if (subject : Value) (test : Expr) {alternate : Option Stmt} (otherwise : ∀ other ∈ alternate, other.Shapely) :
    (Stmt.ifElse subject test body alternate).Shapely := by
  intro place apt sheet start sane lives inside
  have within := sane.within
  rw [Stmt.outline]
  refine ends_bind (draw_statement (draw_begin sane) fun d1 drawing => ?_)
  refine ends_bind (draw_lead drawing (test.drawn place) lives inside fun tested d2 ⟨away, _⟩ drawing => ?_)
  refine ends_bind (draw_kind drawing (.inl rfl) fun d3 drawing => ?_)
  refine ends_bind (draw_new drawing fun block d4 ahead new _ drawing => ?_)
  refine ends_bind (draw_connect drawing (by grind) ahead nofun fun d5 drawing => ?_)
  refine ends_bind (draw_shape drawing (shapely place apt) (by grind) (by grind) fun taken d6 apart drawing => ?_)
  refine ends_bind (draw_new drawing fun merge d7 mergeAhead newMerge _ drawing => ?_)
  refine ends_bind (draw_flow drawing (by grind) mergeAhead nofun fun d8 drawing => ?_)
  have drawing : Drawing sheet _ _ (fun other => other = merge ∨ sheet.alive other ∧ other ≠ start)
      (fun other => other = merge ∨ other = tested ∨ sheet.opened other ∧ other ≠ start)
      (fun side other => side = place.inLoop ∧ other = merge ∨ sheet.lies side other) d8 :=
    drawing.finish (included_refl _) (fun _ => id) (by grind)
  cases alternate with
  | none =>
    refine ends_bind (draw_connect drawing (by grind) mergeAhead nofun fun d9 drawing => ends_pure _ ?_)
    refine drawing.shape (included_of_eq (by simp [Stmt.marks, marksOfOptional])) (fun _ facts => ⟨?_, fun _ => facts.1.2⟩) nofun (by grind) (by grind)
    simpa only [Stmt.text, textIf, Stmt.spots, spotsIf, Stmt.attempts, attemptsOfOptional, append_nil] using facts.2.leading
  | some alternate =>
    refine ends_bind (draw_new drawing fun other d9 otherAhead newOther _ drawing => ?_)
    refine ends_bind (draw_connect drawing (by grind) otherAhead nofun fun d10 drawing => ?_)
    refine ends_bind (draw_shape drawing (otherwise alternate rfl place apt) (by grind) (by grind) fun skipped d11 beyond drawing => ?_)
    refine ends_bind (draw_flow drawing (by grind) mergeAhead nofun fun d12 drawing => ends_pure _ ?_)
    exact drawing.shape (included_of_eq (by simp [Stmt.marks, marksOfOptional])) (fun _ facts => ⟨(tells_both facts.1.2 facts.2).leading, fun _ => facts.1.1.2⟩)
      nofun (by grind) (by grind)

section
variable (label : Option Value)
include label

theorem shapely_while (test : Expr) : (Stmt.whileLoop label test body).Shapely := by
  intro place apt sheet start sane lives inside
  have within := sane.within
  refine ends_bind (draw_made (draw_begin sane) fun header d1 headerAhead newHeader drawing => ?_)
  refine ends_bind (draw_connect drawing (by grind) headerAhead nofun fun d2 drawing => ?_)
  refine ends_bind (draw_build drawing (test.drawn place) (by grind) (by grind) fun tested d3 away drawing => ?_)
  refine ends_bind (draw_made drawing fun next d4 ahead new drawing => ?_)
  refine ends_bind (draw_new drawing fun block d5 blockAhead newBlock _ drawing => ?_)
  refine ends_bind (draw_connect drawing (by grind) blockAhead nofun fun d6 drawing => ?_)
  refine ends_bind (draw_connect drawing (by grind) ahead nofun fun d7 drawing => ?_)
  have inner := within_loop_body place label next header
  have shapes := shapely _ (apt.enter inner ahead (by simpa using headerAhead))
  refine ends_bind (draw_shape drawing shapes (by grind) (by grind) fun result d8 apart drawing => ?_)
  refine ends_bind (draw_flow drawing (by grind) headerAhead nofun fun d9 drawing => ends_pure _ ?_)
  exact drawing.shape (included_of_eq (by simp [Stmt.marks, in_loop_body])) (fun _ facts => ⟨tells_inside inner (made_loop (by decide) facts.1.1.2 facts.1.2) facts.2, fun _ => nofun⟩) nofun
    (by grind) (by grind)

theorem shapely_do_while (test : Expr) : (Stmt.doWhileLoop label body test).Shapely := by
  intro place apt sheet start sane lives inside
  have within := sane.within
  refine ends_bind (draw_made (draw_begin sane) fun again d1 againAhead newAgain drawing => ?_)
  refine ends_bind (draw_made drawing fun next d2 ahead new drawing => ?_)
  refine ends_bind (draw_new drawing fun block d3 blockAhead newBlock _ drawing => ?_)
  refine ends_bind (draw_connect drawing (by grind) blockAhead nofun fun d4 drawing => ?_)
  have inner := within_loop_body place label next again
  have shapes := shapely _ (apt.enter inner ahead (by simpa using againAhead))
  refine ends_bind (draw_shape drawing shapes (by grind) (by grind) fun result d5 apart drawing => ?_)
  refine ends_bind (draw_flow drawing (by grind) againAhead nofun fun d6 drawing => ?_)
  refine ends_bind (draw_build drawing (test.drawn place) (by grind) (by grind) fun tested d7 away drawing => ?_)
  refine ends_bind (draw_connect drawing (by grind) blockAhead nofun fun d8 drawing => ?_)
  refine ends_bind (draw_connect drawing (by grind) ahead nofun fun d9 drawing => ends_pure _ ?_)
  exact drawing.shape (included_of_eq (by simp [Stmt.marks, in_loop_body])) (fun _ facts => ⟨tells_inside inner (made_loop (by decide) facts.1.1.2 facts.1.2) facts.2, fun _ => nofun⟩) nofun
    (by grind) (by grind)

theorem shapely_for (begin : Start) (test : Option Expr) (update : Expr) : (Stmt.forLoop label begin test update body).Shapely := by
  intro place apt sheet start sane lives inside
  have within := sane.within
  refine ends_bind (draw_lead (draw_begin sane) (begin.drawn place) lives inside fun block d1 ⟨away, _⟩ drawing => ?_)
  refine ends_bind (draw_new drawing fun header d2 headerAhead newHeader _ drawing => ?_)
  refine ends_bind (draw_connect drawing (by grind) headerAhead (by simp) fun d3 drawing => ?_)
  refine ends_bind (draw_made drawing fun advance d4 advanceAhead newAdvance drawing => ?_)
  refine ends_bind (draw_made drawing fun next d5 ahead new drawing => ?_)
  have inner := within_loop_body place label next advance
  have shapes := shapely _ (apt.enter inner ahead (by simpa using advanceAhead))
  extract_lets loops
  have looping (block : Nat) (d6 : Draft) (apart : block ≠ advance ∧ block ≠ next ∧ ∀ other, sheet.opened other → other ≠ start → other ≠ block)
      (drawing : Drawing sheet (begin.marks place.inLoop ++ marksOfIf place.inLoop test) (fun later => later.Has start begin.lead.calls ∧
          JumpTarget.Made ⟨label, next, some advance, place.finalizers.length, true⟩ later.blocks)
        (fun other => other = block ∨ other = advance ∨ other = next ∨ sheet.alive other ∧ other ≠ start)
        (fun other => other = block ∨ other = advance ∨ other = next ∨ sheet.opened other ∧ other ≠ start)
        (fun side other => side = true ∧ other = block ∨ side = place.inLoop ∧ (other = advance ∨ other = next) ∨ sheet.lies side other) d6) :
      Ends (loops block) d6 (Shaped sheet place ((Stmt.forLoop label begin test update body).marks place.inLoop)
        (Stmt.forLoop label begin test update body).text start) := by
    refine ends_bind (draw_shape drawing shapes (by grind) (by grind) fun result d7 beyond drawing => ?_)
    refine ends_bind (draw_flow drawing (by grind) advanceAhead (by simp) fun d8 drawing => ?_)
    refine ends_bind (draw_build drawing (update.drawn place) (by grind) (by grind) fun advanced d9 onward drawing => ?_)
    refine ends_bind (draw_connect drawing (by grind) headerAhead (by simp) fun d10 drawing => ends_pure _ ?_)
    exact drawing.shape (included_of_eq (by simp [Stmt.marks, in_loop_body])) (fun _ facts => ⟨tells_inside inner facts.1.2 facts.2, fun _ => facts.1.1⟩) (by rintro _ ⟨⟩)
      (by grind) (by grind)
  cases test with
  | none =>
    refine ends_bind (draw_new drawing fun block d6 blockAhead newBlock _ drawing => ?_)
    refine ends_bind (draw_connect drawing (by grind) blockAhead (by simp) fun d7 drawing => looping block d7 (by grind) ?_)
    exact drawing.finish (included_of_eq (by simp [marksOfIf])) (fun _ facts => ⟨facts.1.1.2, made_loop (by decide) facts.1.2 facts.2⟩) (by grind)
  | some test =>
    refine ends_bind (draw_build drawing (test.drawn place) (by grind) (by grind) fun tested d6 testAway drawing => ?_)
    refine ends_bind (draw_new drawing fun block d7 blockAhead newBlock _ drawing => ?_)
    refine ends_bind (draw_connect drawing (by grind) blockAhead (by simp) fun d8 drawing => ?_)
    refine ends_bind (draw_connect drawing (by grind) ahead (by simp) fun d9 drawing => looping block d9 (by grind) ?_)
    exact drawing.finish (included_of_eq (by simp [marksOfIf])) (fun _ facts => ⟨facts.1.1.2, made_loop (by decide) facts.1.2 facts.2⟩) (by grind)

theorem shapely_for_each (source : Expr) (targets : List Pattern) : (Stmt.forEach label source targets body).Shapely := by
  intro place apt sheet start sane lives inside
  have within := sane.within
  refine ends_bind (draw_lead (draw_begin sane) (source.drawn place) lives inside fun block d1 ⟨away, _⟩ drawing => ?_)
  refine ends_bind (draw_made drawing fun header d2 headerAhead newHeader drawing => ?_)
  refine ends_bind (draw_connect drawing (by grind) headerAhead nofun fun d3 drawing => ?_)
  refine ends_bind (draw_made drawing fun next d4 ahead new drawing => ?_)
  refine ends_bind (draw_new drawing fun block d5 blockAhead newBlock _ drawing => ?_)
  refine ends_bind (draw_connect drawing (by grind) blockAhead nofun fun d6 drawing => ?_)
  refine ends_bind (draw_connect drawing (by grind) ahead nofun fun d7 drawing => ?_)
  have binds := draws_patterns { inLoop := true } (by simp [Scene.Ahead]) targets
  refine ends_bind (draw_build drawing binds (by grind) (by grind) fun bound d8 boundAway drawing => ?_)
  have inner := within_loop_body place label next header
  have shapes := shapely _ (apt.enter inner ahead (by simpa using headerAhead))
  refine ends_bind (draw_shape drawing shapes (by grind) (by grind) fun result d9 apart drawing => ?_)
  refine ends_bind (draw_flow drawing (by grind) headerAhead nofun fun d10 drawing => ends_pure _ ?_)
  exact drawing.shape (included_of_eq (by simp [Stmt.marks, in_loop_body])) (fun _ facts => ⟨tells_inside inner (made_loop (by decide) facts.1.1.2 facts.1.2) facts.2, fun _ => facts.1.1.1.2⟩) nofun
    (by grind) (by grind)

end

end

-- The bodies of a switch: each is kept until it is reached.
def ShapesAll (place : Place) (bodies : List Nat) (previous : Option Nat) (marks : Marks)
    (text : Text) (action : Build (Option Nat × Outline)) : Prop :=
  ∀ sheet : Sheet, sheet.Sane → (∀ block ∈ bodies, block ≠ 0 ∧ sheet.alive block ∧ sheet.lies place.inLoop block ∧ block ∉ previous) →
    (∀ block ∈ previous, block ∉ sheet.draft.closed → sheet.alive block) →
    Ends action sheet.draft fun result after =>
      (∀ block, sheet.opened block → block ∉ bodies → block ∉ previous → block ∉ result.1) ∧
      Drawing sheet marks (result.2.Tells place text)
        (fun block => block ∈ result.1 ∧ block ∉ after.closed ∨ sheet.alive block ∧ block ∉ bodies ∧ block ∉ previous)
        (fun block => block ∈ result.1 ∧ block ∉ after.closed ∨ sheet.opened block ∧ block ∉ bodies ∧ block ∉ previous)
        sheet.lies after

theorem draw_new_all {α : Type} {origin : Sheet} {marks : Marks} {known : Draft → Prop} {alive opened : Nat → Prop}
    {lies : Bool → Nat → Prop} {draft : Draft} {kind : BlockKind} (items : List α) {Post : List Nat → Draft → Prop}
    (drawing : Drawing origin marks known alive opened lies draft)
    (next : ∀ blocks after, blocks.length = items.length → blocks.Nodup → (∀ block ∈ blocks, block ≠ 0 ∧ ¬ opened block) →
      Drawing origin marks known (fun other => other ∈ blocks ∨ alive other) (fun other => other ∈ blocks ∨ opened other)
        (fun side other => side = inLoop ∧ other ∈ blocks ∨ lies side other) after → Post blocks after) :
    Ends (items.mapM fun _ => newBlock inLoop kind) draft Post := by
  induction items generalizing alive opened lies draft Post with
  | nil =>
    rw [mapM_nil]
    exact ends_pure _ (next [] draft rfl .nil (by simp) (by simpa using drawing))
  | cons item rest ih =>
    rw [mapM_cons]
    refine ends_bind (draw_new drawing fun block d1 ahead new _ drawing => ends_bind (ih drawing fun blocks d2 size apart fresh drawing => ?_))
    have within := drawing.within
    refine ends_pure _ (next _ d2 (by simp [size]) (nodup_cons.mpr ⟨by grind, apart⟩) (by grind) ?_)
    exact drawing.finish (included_refl _) (fun _ => id) (by grind)

theorem marks_of_tests {bodies : List Nat} (inLoop : Bool) (size : bodies.length = cases.length) :
    (((cases.map Case.test).zip bodies).flatMap fun test => marksOfIf inLoop test.1) = marksOfTests inLoop cases := by
  induction cases generalizing bodies with
  | nil => rfl
  | cons branch rest ih =>
    cases bodies with
    | nil => cases size
    | cons body others => simp only [map_cons, zip_cons_cons, flatMap_cons, marksOfTests, ih (Nat.succ.inj size)]

theorem shapely_switch (subject : Value) (discriminant : Expr)
    (shapes : ∀ (place : Place) (bodies : List Nat), place.Apt → bodies.length = cases.length → bodies.Nodup →
      ShapesAll place bodies none (marksOfCases place.inLoop cases) (textOfCases cases)
        (outlineCases place cases bodies none)) : (Stmt.switch subject discriminant cases).Shapely := by
  intro place apt sheet start sane lives inside
  have within := sane.within
  refine ends_bind (draw_statement (draw_begin sane) fun d1 drawing => ?_)
  refine ends_bind (draw_lead drawing (discriminant.drawn place) lives inside fun dispatch d2 ⟨away, _⟩ drawing => ?_)
  refine ends_bind (draw_kind drawing (.inr rfl) fun d3 drawing => ?_)
  refine ends_bind (draw_made drawing fun next d4 ahead new drawing => ?_)
  refine ends_bind (draw_new_all cases drawing fun bodies d5 size distinct fresh drawing => ?_)
  have tests := draws_tests place ((cases.map Case.test).zip bodies) fun test member => (fresh _ (of_mem_zip member).2).1
  rw [marks_of_tests _ size] at tests
  refine ends_bind (draw_build drawing tests (by grind) (by grind) fun tested d6 apart drawing => ?_)
  have drawing : Drawing sheet _ _ (fun other => other = tested ∨ other = next ∨ other ∈ bodies ∨ sheet.alive other ∧ other ≠ start)
      (fun other => other = tested ∨ other = next ∨ other ∈ bodies ∨ sheet.opened other ∧ other ≠ start)
      (fun side other => side = place.inLoop ∧ (other = next ∨ other ∈ bodies) ∨ sheet.lies side other) d6 :=
    drawing.finish (included_refl _) (fun _ => id) (by grind)
  have outside : ∀ block, sheet.opened block → block ≠ start → block ∉ bodies ∧ block ≠ next ∧ block ≠ tested := by grind
  have others : next ≠ tested ∧ next ∉ bodies ∧ tested ∉ bodies := by grind
  extract_lets target runs
  have inner : { place with targets := target :: place.targets : Place }.Within place target := ⟨rfl, rfl, rfl, rfl⟩
  have running (goal : Nat) (kind : EdgeKind) (positive : goal ≠ 0) (normal : kind ≠ .exception) :
      Ends (do connect tested goal kind; runs ()) d6 (Shaped sheet place ((Stmt.switch subject discriminant cases).marks place.inLoop)
        (Stmt.switch subject discriminant cases).text start) := by
    refine ends_bind (draw_connect drawing (.inl rfl) positive normal fun d7 drawing => ?_)
    refine ends_after (shapes _ bodies (apt.enter inner ahead (by simp [target])) size distinct _ drawing.sane ?_ (by simp))
      fun result d8 done => ?_
    · intro block member
      exact ⟨(fresh block member).1, by grind, .inl ⟨rfl, .inr member⟩, by simp⟩
    · obtain ⟨beyond, rest⟩ := done
      have drawing := (drawing.more rest.moves).know rest.knows
      have included : Included (([] ++ discriminant.marks place.inLoop) ++ marksOfTests place.inLoop cases ++ marksOfCases place.inLoop cases)
        ((Stmt.switch subject discriminant cases).marks place.inLoop) := included_of_eq (by simp [Stmt.marks])
      cases last : result.1 with
      | none => exact ends_pure _ (drawing.shape included (fun _ facts => ⟨tells_inside inner (made_once rfl rfl rfl rfl facts.1.2) facts.2, fun _ => facts.1.1.2⟩) nofun (by grind) (by grind))
      | some last =>
        refine ends_bind (draw_flow drawing (by grind) ahead nofun fun d9 drawing => ends_pure _ ?_)
        exact drawing.shape included (fun _ facts => ⟨tells_inside inner (made_once rfl rfl rfl rfl facts.1.2) facts.2, fun _ => facts.1.1.2⟩) nofun (by grind) (by grind)
  cases found : defaultBody ((cases.map Case.test).zip bodies) with
  | none => exact running next .whenFalse ahead (by decide)
  | some body =>
    obtain ⟨test, listed, rfl⟩ := Option.map_eq_some_iff.mp found
    have member := mem_reverse.mp (mem_of_find?_eq_some listed)
    exact running test.2 .case (fresh _ (of_mem_zip member).2).1 (by decide)

section
variable {origin : Sheet} {marks others : Marks} {known : Draft → Prop} {alive opened : Nat → Prop}
  {lies : Bool → Nat → Prop} {draft : Draft} {place inner : Place} {early late : Text}

variable (drawing : Drawing origin marks known alive opened lies draft)
include drawing

theorem draw_tried {body : Nat → Build (Nat × Outline)} {start next thrown : Nat} (lives : alive start) (ahead : next ≠ 0)
    (positive : thrown ≠ 0) (shapes : Shapes inner others early body) (side : inner.inLoop = inLoop)
    (continues : ∀ tried after, Drawing origin (marks ++ others) (fun draft => known draft ∧ tried.2.Tells inner early draft)
      (fun block => alive block ∧ block ≠ start) (fun block => opened block ∧ block ≠ start) lies after → Ends (rest tried) after Post) :
    Ends (do
      let inside ← newBlock inLoop .tryBody
      connect start inside .unconditional
      connect inside thrown .exception
      let tried ← body inside
      flow tried.1 next .unconditional
      rest tried) draft Post := by
  have within := drawing.within
  refine ends_bind (draw_new drawing fun inside d1 insideAhead new _ drawing => ?_)
  refine ends_bind (draw_connect drawing (by grind) insideAhead nofun fun d2 drawing => ?_)
  refine ends_bind (draw_guard drawing (by grind) positive fun d3 drawing => ?_)
  refine ends_bind (draw_shape drawing shapes (by grind) (by grind) fun tried d4 away drawing => ?_)
  refine ends_bind (draw_flow drawing (by grind) ahead nofun fun d5 drawing => continues tried d5 ?_)
  exact drawing.finish (included_refl _) (fun _ facts => ⟨facts.1.1, facts.2⟩) (by grind)

theorem draw_handled {handler : Nat → Build (Nat × Outline)} {caught next : Nat} (lives : alive caught) (lying : lies inner.inLoop caught)
    (ahead : next ≠ 0) (shapes : Shapes inner others early handler)
    (continues : ∀ handled after, Drawing origin (marks ++ others) (fun draft => known draft ∧ handled.2.Tells inner early draft)
      (fun block => alive block ∧ block ≠ caught) (fun block => opened block ∧ block ≠ caught) lies after → Ends (rest handled) after Post) :
    Ends (do
      let handled ← handler caught
      flow handled.1 next .unconditional
      rest handled) draft Post := by
  have within := drawing.within
  refine ends_bind (draw_shape drawing shapes lives lying fun handled d1 away drawing => ?_)
  refine ends_bind (draw_flow drawing (by grind) ahead nofun fun d2 drawing => continues handled d2 ?_)
  exact drawing.finish (included_refl _) (fun _ => id) (by grind)

theorem draw_finally {finalizer : Nat → Build (Nat × Outline)} {finallyBlock next : Nat}
    {tried : Outline} (apt : place.Apt) (lives : alive finallyBlock) (lying : lies place.inLoop finallyBlock) (ahead : next ≠ 0)
    (shapes : Shapes place others late finalizer) (tells : tried.Tells inner early draft) (targets : inner.targets = place.targets)
    (finalizers : inner.finalizers = finallyBlock :: place.finalizers)
    (continues : ∀ outline after, Drawing origin (marks ++ others) (fun draft => known draft ∧ outline.Tells place
        ⟨fun around => early.spots (none :: around) ++ late.spots around, early.attempts ++ late.attempts, .split, early.guarded⟩ draft)
      (fun block => alive block ∧ block ≠ finallyBlock) (fun block => opened block ∧ block ≠ finallyBlock) lies after →
      Post (next, outline) after) : Ends (do
      let last ← finalizer finallyBlock
      let ended ← isClosed last.1
      unless ended do
        connect last.1 next .unconditional
        connect last.1 place.handler .throw
        let waiting := (← get).pending.filter (·.finalizer = finallyBlock)
        waiting.forM fun jumping => jump place last.1 jumping.target jumping.kind jumping.depth
      return (next, .guarded ⟨finallyBlock, last.1, ended⟩ tried last.2)) draft Post := by
  have within := drawing.within
  have begun := drawing.know fun later (keeps : Keeps draft later) => keeps
  refine ends_bind (draw_shape begun shapes lives lying fun last d1 away drawing => ends_bind (ends_is_closed ?_))
  cases isClosed : d1.closed.contains last.1 with
  | true =>
    have ended := contains_iff_mem.mp isClosed
    have drawing := drawing.know fun later (keeps : Keeps d1 later) => keeps.closed _ ended
    refine ends_pure _ (continues _ d1 (drawing.finish (included_refl _) (fun later facts => ?_) (by grind)))
    exact ⟨facts.1.1.1, tells_guarded apt targets finalizers facts.1.1.2 (fun runs => by cases runs) (fun _ => facts.2) tells facts.1.2⟩
  | false =>
    have isOpen : last.1 ∉ d1.closed := fun member => by
      rw [contains_iff_mem.mpr member] at isClosed
      cases isClosed
    refine ends_bind (draw_connect drawing (.inl ⟨rfl, isOpen⟩) ahead nofun fun d2 drawing => ?_)
    refine ends_bind (draw_connect drawing (.inl ⟨rfl, isOpen⟩) apt.handler nofun fun d3 drawing => ends_bind (ends_get ?_))
    have held := drawing.fact.1.2
    refine ends_bind (draw_jumps drawing apt (.inl ⟨rfl, isOpen⟩) (by grind) _ ?_ fun d4 drawing => ends_pure _ (continues _ d4 ?_))
    · exact fun jumping member => drawing.sane.pending jumping (mem_filter.mp member).1
    · refine drawing.finish (included_refl _) (fun later facts => ?_) (by grind)
      refine ⟨facts.1.1.1, tells_guarded apt targets finalizers facts.1.1.2 (fun _ goal kind depth waits => ?_) (fun runs => by cases runs)
        tells facts.1.2⟩
      exact facts.2 _ (mem_filter.mpr ⟨held.pending _ waits, by simp⟩)

end

section
attribute [local simp] Stmt.marks marksOfHandler marksOfOptional textOfTried textOfHandler

theorem shapely_try {body : List Stmt} {handler : Option Handler} {finalizer : Option Stmt}
    (tries : ∀ (place : Place) (thrown : Nat), place.Apt → thrown ≠ 0 →
      ShapesAny place (marksOfStmts place.inLoop body) (textOfTried thrown body) (outlineTried place thrown body))
    (handles : ∀ caught ∈ handler, ∀ place : Place, place.Apt →
      Shapes place (caught.marks place.inLoop) (textOfHandler caught) (caught.outline place))
    (finalizes : ∀ last ∈ finalizer, last.Shapely) : (Stmt.tryCatch body handler finalizer).Shapely := by
  intro place apt sheet start sane lives inside
  have within := sane.within
  -- what this building comes to is kept to the end of the whole one
  refine ends_run fun last isLast => ?_
  have kept {after later : Draft} (same : after = last) (keeps : Keeps after later) :
      Keeps (((Attempt.mk body handler finalizer).stmt.outline place start).run sheet.draft).2 later := by
    rw [same, isLast] at keeps
    exact keeps
  clear isLast
  cases handler with
  | none =>
    cases finalizer with
    | none =>
      simp only [Stmt.outline, pure_bind]
      refine ends_bind (draw_new (draw_begin sane) fun next d1 ahead new made drawing => ?_)
      refine draw_tried drawing (.inr lives) ahead ahead (tries _ next ?_ ahead).shapes rfl fun tried d2 drawing => ends_pure _ fun same => ?_
      · exact apt.guard [] rfl rfl ahead (by simp)
      · refine (drawing.know fun _ keeps => kept same keeps).shape (included_of_eq (by simp))
          (fun _ facts => ⟨?_, by rintro _ _ ⟨⟩⟩) (by rintro _ ⟨⟩) (by grind) (by grind)
        exact tells_attempt ⟨body, none, none⟩ sheet.draft (tells_both (show tried.2.Tells place _ _ from facts.1.2.same rfl rfl) tells_nothing)
          facts.2 made.2.2.2.1.symm (by rintro _ ⟨⟩) (by simp)
    | some finalizer =>
      simp only [Stmt.outline, pure_bind, bind_map_left]
      refine ends_bind (draw_new (draw_begin sane) fun finallyBlock d1 positive newFinally made drawing => ?_)
      have drawing := drawing.know fun _ keeps => keeps.blocks _ _ made.2.2.1
      refine ends_bind (draw_new drawing fun next d2 ahead new _ drawing => ?_)
      have tried := tries { place with finalizers := finallyBlock :: place.finalizers, handler := finallyBlock } finallyBlock
        (apt.guard [finallyBlock] rfl rfl positive (by simpa using positive)) positive
      refine draw_tried drawing (.inr (.inr lives)) positive positive tried.shapes rfl fun tried d3 drawing => ?_
      have tells := tells_both drawing.fact.2 tells_nothing
      refine draw_finally drawing apt (by grind) (by grind) ahead (finalizes finalizer rfl place apt) tells rfl rfl fun outline d4 drawing same => ?_
      refine (drawing.know fun _ keeps => kept same keeps).shape (included_of_eq (by simp))
        (fun _ facts => ⟨?_, by rintro _ _ ⟨⟩⟩) (by rintro _ ⟨⟩) (by grind) (by grind)
      exact tells_attempt ⟨body, none, some finalizer⟩ sheet.draft facts.1.2 facts.2 made.2.2.2.1.symm
        (by rintro _ ⟨⟩; exact facts.1.1.1.2) (by simp)
  | some handler =>
    have handles := handles handler rfl
    cases finalizer with
    | none =>
      simp only [Stmt.outline, pure_bind, bind_map_left]
      refine ends_bind (draw_new (draw_begin sane) fun catchBlock d1 positive newCatch made drawing => ?_)
      have drawing := drawing.know fun _ keeps => keeps.blocks _ _ made.2.2.1
      refine ends_bind (draw_new drawing fun next d2 ahead new _ drawing => ?_)
      have tried := tries { place with handler := catchBlock } catchBlock (apt.guard [] rfl rfl positive (by simp)) positive
      refine draw_tried drawing (.inr (.inr lives)) ahead positive tried.shapes rfl fun tried d3 drawing => ?_
      refine draw_handled drawing (by grind) (by grind) ahead (handles place apt) fun handled d4 drawing => ends_pure _ fun same => ?_
      refine (drawing.know fun _ keeps => kept same keeps).shape (included_of_eq (by simp))
        (fun _ facts => ⟨?_, by rintro _ _ ⟨⟩⟩) (by rintro _ ⟨⟩) (by grind) (by grind)
      exact tells_attempt ⟨body, some handler, none⟩ sheet.draft
        (tells_both (show tried.2.Tells place _ _ from facts.1.1.2.same rfl rfl) facts.1.2) facts.2 made.2.2.2.1.symm
        (by rintro _ ⟨⟩; exact facts.1.1.1.2) (by simp)
    | some finalizer =>
      simp only [Stmt.outline, pure_bind, bind_map_left]
      refine ends_bind (draw_new (draw_begin sane) fun finallyBlock d1 positive newFinally first drawing => ?_)
      refine ends_bind (draw_new drawing fun catchBlock d2 catches newCatch made drawing => ?_)
      have drawing := drawing.know fun _ keeps => keeps.blocks _ _ made.2.2.1
      refine ends_bind (draw_new drawing fun next d3 ahead new _ drawing => ?_)
      have tried := tries { place with finalizers := finallyBlock :: place.finalizers, handler := catchBlock } catchBlock
        (apt.guard [finallyBlock] rfl rfl catches (by simpa using positive)) catches
      refine draw_tried drawing (.inr (.inr (.inr lives))) positive catches tried.shapes rfl fun tried d4 drawing => ?_
      refine ends_bind (draw_guard drawing (by grind) positive fun d5 drawing => ?_)
      have handles := handles { place with finalizers := finallyBlock :: place.finalizers, handler := finallyBlock }
        (apt.guard [finallyBlock] rfl rfl positive (by simpa using positive))
      refine draw_handled drawing (by grind) (by grind) positive handles fun handled d6 drawing => ?_
      have tells := tells_both drawing.fact.1.1.2 (drawing.fact.2.same rfl rfl)
      refine draw_finally drawing apt (by grind) (by grind) ahead (finalizes finalizer rfl place apt) tells rfl rfl fun outline d7 drawing same => ?_
      refine (drawing.know fun _ keeps => kept same keeps).shape (included_of_eq (by simp))
        (fun _ facts => ⟨?_, by rintro _ _ ⟨⟩⟩) (by rintro _ ⟨⟩) (by grind) (by grind)
      exact tells_attempt ⟨body, some handler, some finalizer⟩ sheet.draft facts.1.2 facts.2 (made.2.2.2.1.trans first.2.2.2.2).symm
        (by rintro _ ⟨⟩; exact facts.1.1.1.1.1.2) (by simp)

end

-- By cases on the statement: only its jumps close blocks, and each of them is led to its goal.
mutual
theorem Stmt.shapely : (stmt : Stmt) → stmt.Shapely
  | .note node, _, _ => shapes_plain (draws_noted node draws_pure)
  | .block body, place, apt => (shapes_stmts place apt body).shapes
  | .evaluate node value, place, _ => shapes_plain (draws_noted node (value.drawn place))
  | .bare value, place, _ => shapes_plain (value.drawn place)
  | .declare declared, place, _ => shapes_plain (draws_variables place declared)
  | .returnValue node value, place, apt => shapely_return node value place apt
  | .throwValue node value, place, apt => shapely_throw node value place apt
  | .ifElse subject test consequent alternate, place, apt =>
    shapely_if (shapely_optional consequent) subject test (shapely_given alternate) place apt
  | .labeled label body, place, apt => shapely_labeled label body.shapely place apt
  | .whileLoop label test body, place, apt => shapely_while (shapely_optional body) label test place apt
  | .doWhileLoop label body test, place, apt => shapely_do_while (shapely_optional body) label test place apt
  | .forLoop label start test update body, place, apt => shapely_for (shapely_optional body) label start test update place apt
  | .forEach label source targets body, place, apt => shapely_for_each (shapely_optional body) label source targets place apt
  | .breakTo area label, _, apt => shapes_jump apt (.break label) area
  | .continueTo area label, _, apt => shapes_jump apt (.continue label) area
  | .switch subject discriminant cases, place, apt =>
    shapely_switch subject discriminant (fun inner bodies apt size distinct => shapes_cases inner apt cases bodies none size distinct)
      place apt
  | .tryCatch body handler finalizer, place, apt =>
    shapely_try (fun inner thrown apt positive => shapes_tried inner apt thrown positive body) (shapely_handler handler)
      (shapely_given finalizer) place apt
  | .withObject object body, place, apt => shapes_before (object.drawn place) (shapely_optional body place apt)
  | .region area, _, _ => shapes_plain (draws_approximate area .unsupportedStatement)
  | .broken fault, _, _ => shapes_plain (draws_broken fault)
theorem shapes_stmts (place : Place) (apt : place.Apt) : (stmts : List Stmt) →
    ShapesAny place (marksOfStmts place.inLoop stmts) (textOfAll stmts) (outlineStmts place stmts)
  | [] => shapes_nothing
  | stmt :: rest => by
    have steps := shapes_pair (stmt.shapely place apt) (shapes_stmts place apt rest)
    intro sheet start
    exact shapes_refreshed steps sheet start
theorem shapely_optional : (stmt : Option Stmt) → ShapelyIf stmt
  | none, _, _ => shapes_nothing.shapes
  | some stmt, place, apt => stmt.shapely place apt
theorem shapely_given : (stmt : Option Stmt) → ∀ given ∈ stmt, given.Shapely
  | none => by simp
  | some stmt => by simpa using stmt.shapely
theorem shapes_cases (place : Place) (apt : place.Apt) : (cases : List Case) → (bodies : List Nat) → (previous : Option Nat) →
    bodies.length = cases.length → bodies.Nodup → ShapesAll place bodies previous (marksOfCases place.inLoop cases)
      (textOfCases cases) (outlineCases place cases bodies previous)
  | [], [], previous, _, _ => by
    intro sheet sane _ lives
    have within := sane.within
    have isOpen := sane.isOpen
    refine ends_pure _ ⟨by grind, (draw_begin sane).finish (included_refl _) (fun _ _ => tells_nothing) (by grind)⟩
  | .mk test stmts :: rest, body :: others, previous, size, apart => by
    obtain ⟨absent, distinct⟩ := nodup_cons.mp apart
    have run : ShapesAll place (body :: others) none (marksOfStmts place.inLoop stmts ++ marksOfCases place.inLoop rest)
        ⟨fun around => spotsAll around stmts ++ spotsCases around rest, attemptsOfAll stmts ++ attemptsOfCases rest, .split, []⟩ (do
          let first ← outlineStmts place stmts body
          let more ← outlineCases place rest others (some first.1)
          return (more.1, .both first.2 more.2)) := by
      intro sheet sane ready _
      have within := sane.within
      obtain ⟨_, lives, lying, _⟩ := ready body mem_cons_self
      refine ends_bind (draw_shape (draw_begin sane) (shapes_stmts place apt stmts).shapes lives lying fun first d1 away drawing => ?_)
      have more := shapes_cases place apt rest others (some first.1) (by simpa using size) distinct _ drawing.sane
      refine ends_after (more ?_ ?_) fun more d2 done => ?_
      · intro block member
        obtain ⟨positive, here, lying, _⟩ := ready block (mem_cons_of_mem _ member)
        have other : block ≠ body := fun same => absent (same ▸ member)
        exact ⟨positive, .inr ⟨here, other⟩, .inr lying, by simpa using (away block (within block here) other).symm⟩
      · simpa using fun isOpen => .inl isOpen
      obtain ⟨beyond, rest⟩ := done
      have drawing := (drawing.more rest.moves).know rest.knows
      simp only [Option.mem_some_iff] at beyond drawing
      simp only [mem_cons]
      exact ends_pure _ ⟨by grind, drawing.finish (included_refl _) (fun _ facts => tells_both facts.1.2 facts.2) (by grind)⟩
    cases previous with
    | none => exact run
    | some previous =>
      intro sheet sane ready lives
      have within := sane.within
      refine ends_bind (draw_flow (draw_begin sane) (by grind) (ready body mem_cons_self).1 nofun fun d1 drawing => ?_)
      refine ends_mono (run _ drawing.sane (fun block member => ?_) (by simp)) fun result d2 done => ?_
      · obtain ⟨positive, here, lying, other⟩ := ready block member
        exact ⟨positive, ⟨here, by simpa [eq_comm] using other⟩, lying, by simp⟩
      · obtain ⟨beyond, rest⟩ := done
        have drawing := (drawing.more rest.moves).know rest.knows
        exact ⟨by grind, drawing.finish (included_refl _) (fun _ facts => facts.2) (by grind)⟩
theorem shapes_tried (place : Place) (apt : place.Apt) (thrown : Nat) (positive : thrown ≠ 0) : (stmts : List Stmt) →
    ShapesAny place (marksOfStmts place.inLoop stmts) (textOfTried thrown stmts) (outlineTried place thrown stmts)
  | [] => shapes_nothing
  | stmt :: rest => by
    have steps := shapes_pair (stmt.shapely place apt) (shapes_tried place apt thrown positive rest)
    intro sheet start
    exact shapes_tried_step positive steps (by simp [Stmt.text, textOfTried, and_then_split]) sheet start
theorem shapely_handler : (handler : Option Handler) → ∀ caught ∈ handler, ∀ place : Place, place.Apt →
    Shapes place (caught.marks place.inLoop) (textOfHandler caught) (caught.outline place)
  | none => by simp
  | some handler => by simpa using handler.shapely
theorem Handler.shapely : (handler : Handler) → ∀ place : Place, place.Apt →
    Shapes place (handler.marks place.inLoop) (textOfHandler handler) (handler.outline place)
  | .mk param body, place, apt => shapes_before (param.drawn place) (shapely_optional body place apt)
end

-- What a body starts from: the entry, and the exits, which nothing leads out of.
def blank : Sheet :=
  ⟨((({} : Draft).add false .entry).add false .exit).add false .throwExit, (· = 0), (· = 0), fun side block => side = false ∧ block = 0⟩

theorem blank_sane : blank.Sane := by
  refine ⟨Nat.le_refl 3, fun _ => id, ?_, by simp [blank, Draft.add], by simp [blank, Draft.add]⟩
  rintro block rfl
  exact ⟨by decide, by simp [blank, Draft.add]⟩

theorem body_drawn (body : Body) : ∃ opened lies, Drawing blank body.marks
    (body.outline.Tells {} (textOfAll body.statements)) (fun _ => False) opened lies body.draft := by
  have apt : ({} : Place).Apt := ⟨by decide, by simp, by simp, by simp, by simp [Place.Level]⟩
  have binds := draws_patterns {} (by simp [Scene.Ahead]) body.params
  have rest : Ends (do
      let block ← buildPatterns {} body.params 0
      let last ← outlineStmts {} body.statements block
      flow last.1 1 .unconditional
      return last.2) blank.draft fun outline after => ∃ opened lies, Drawing blank body.marks
        (outline.Tells {} (textOfAll body.statements)) (fun _ => False) opened lies after := by
    refine ends_bind (draw_build (draw_begin blank_sane) binds rfl ⟨rfl, rfl⟩ fun block d1 away drawing => ?_)
    refine ends_bind (draw_shape drawing (shapes_stmts {} apt body.statements).shapes (.inl rfl) (.inl ⟨rfl, rfl⟩) fun last d2 apart drawing => ?_)
    refine ends_bind (draw_flow drawing (by grind) (by decide) nofun fun d3 drawing => ends_pure _ ⟨fun _ => False, fun _ _ => False, ?_⟩)
    exact drawing.finish (included_refl _) (fun _ facts => facts.2) (by simp [blank])
  rw [← body.outlined_build]
  exact rest

end HookLint.Flow
