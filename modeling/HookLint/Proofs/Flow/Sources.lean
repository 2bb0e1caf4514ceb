import HookLint.Proofs.Flow.Manners

namespace HookLint.Flow

open List HookLint.Value Grammar

variable {inLoop : Bool} {manner each : Manner} {value item : Value} {rest : List Value} {id : Nat} {fields : Fields} {kind : Kind}
  {marks : Marks} {sound : Prop} {slots : List Slot}

theorem admits_given {role : Role} (admitted : admits .maybe role value = true) (given : value.isNull = false) :
    admits .one role value = true := by
  cases value with
  | record id fields => exact admitted
  | null => cases given
  | _ => cases admitted

theorem given_of_kind {id : Nat} {kind : Kind} (isKind : (Value.record id fields).kind = some kind) :
    (Value.record id fields).given = true := by
  cases fields with
  | nil => cases isKind
  | cons field rest => rfl

theorem label_read {label : Value} (admitted : admits .maybe .name label = true) : ∃ name, readLabel label = .ok name := by
  obtain rfl | ⟨id, fields, slots, rfl, _⟩ := admits_maybe admitted
  · exact ⟨_, rfl⟩
  · unfold readLabel orRecord
    split
    · exact ⟨_, rfl⟩
    · exact ⟨_, rfl⟩

theorem statements_listed {key : String} (listed : ∃ items, fields.get key = .list items) (statements : List Stmt) :
    checkedStmts (ensureStatements fields key) statements = statements := by
  obtain ⟨items, isList⟩ := listed
  have present : fields.find? key = some (.list items) := by
    rw [Fields.get] at isList
    cases found : fields.find? key with
    | none =>
      rw [found] at isList
      cases isList
    | some value =>
      rw [found, Option.getD_some] at isList
      rw [isList]
  rw [ensureStatements, present]
  rfl

theorem guarded_try (guarded : ¬ ((fields.get "handler").isNull && (fields.get "finalizer").isNull) = true)
    (handler : admits .maybe .handler (fields.get "handler") = true) (finalizer : admits .maybe .block (fields.get "finalizer") = true) :
    ¬ (!(fields.get "handler").given && !(fields.get "finalizer").given) = true := by
  have given {role : Role} {value : Value} (kinded : role.isKinded = true) (admitted : admits .maybe role value = true) :
      value.isNull = !value.given := by
    obtain rfl | ⟨id, fields, slots, rfl, fits⟩ := admits_maybe admitted
    · rfl
    · obtain ⟨kind, isKind, _, _⟩ := fits.kind kinded
      rw [given_of_kind isKind]
      rfl
  rw [← given rfl handler, ← given rfl finalizer]
  exact guarded

theorem noted_slots (noted : isNoted kind = true) (form : statementSlots kind fields = some slots) :
    kind.isInvocation = false ∧ kind.isFunction = true ∨ readsWhole false kind [] slots = true := by
  cases kind <;> cases noted <;> first | exact .inl ⟨rfl, rfl⟩ | (cases form; done) | (cases form; exact .inr rfl)

theorem own_invocations_nothing : (Value.made []).ownInvocations = [] := by cbv

theorem region_empty (inLoop : Bool) : (Region.of (.made [])).marks inLoop = [] := by
  simp [Region.marks, Region.of, own_invocations_nothing]

theorem read_nothing : readExpr (.made []) = .leaf := by
  have untyped : (Value.record 0 []).filedKind = .ok none := rfl
  rw [Value.made, readExpr, untyped]
  exact if_pos (isEmpty_iff.mpr own_invocations_nothing)

attribute [local simp] Manner.Steps Manner.marks Manner.Sound Manner.form Stmt.marks Stmt.Sound Expr.marks Expr.Sound marksOfIf SoundIf
  Pattern.marks Pattern.Sound marksOfPatterns SoundPatterns marksOfParts Manner.roles Manner.arities Manner.keeps Role.keeps Kind.admits Kind.roundFields isRecord isNull
  Variables.marks Variables.Sound Start.marks Start.Sound marksOfStmts SoundStmts marksOfOptional SoundOptional marksOfCases SoundCases
  Case.marks Case.Sound Case.test marksOfHandler SoundHandler Handler.marks Handler.Sound marksOfTests

-- A node that is taken in one manner is taken in another if the grammar has the same slots for it.
theorem takes_as {other : Manner} (single : .one ∈ other.arities) (weaker : ∀ kind, (Value.record id fields).kind = some kind →
      ∀ role ∈ manner.roles, ∃ inner ∈ other.roles, ∀ slots, slotsOf role kind fields = some slots → slotsOf inner kind fields = some slots)
    (takes : manner.Takes (.record id fields)) : other.Takes (.record id fields) := by
  obtain ⟨arity, _, role, isRole, admitted⟩ := takes
  obtain ⟨slots, fits⟩ := fits_of_admits admitted
  obtain ⟨kind, isKind, _, form⟩ := fits.kind (roles_kinded isRole)
  obtain ⟨inner, isInner, same⟩ := weaker kind isKind role isRole
  refine ⟨.one, single, inner, isInner, admits_given (admits_role (roles_kinded isRole) (fun other slots isOther form => ?_)
    (admits_lone admitted (by simp))) rfl⟩
  cases isKind.symm.trans isOther
  exact same slots form

theorem listed_of_takes (takes : Manner.stmts.Takes value) : ∃ items, value = .list items := by
  obtain ⟨arity, isArity, role, _, admitted⟩ := takes
  cases mem_singleton.mp isArity
  obtain ⟨_, impossible⟩ | ⟨items, isList, _⟩ := admits_items admitted rfl
  · cases impossible
  · exact ⟨items, isList⟩

theorem empty_checked (check : Except Fault Unit) : marksOfStmts inLoop (checkedStmts check (readStmts [])) = [] := by
  rw [readStmts]
  cases check <;> rfl

theorem stmts_step : Manner.stmts.Steps inLoop value := by
  refine step_list (.stmt none) rfl rfl rfl rfl (by simp [checkedStmts, ensureRecords, readStmts, parts])
    (fun item rest => .inl (by simp [checkedStmts, ensureRecords, readStmts, parts])) fun noList => ?_
  simp only [Manner.marks, Manner.form, Stmt.marks, parts_of_other noList, empty_checked]

theorem statements_marks (key : String) : marksOfStmts inLoop (checkedStmts (ensureStatements fields key) (readStmts (fields.get key).parts)) =
    Manner.marks inLoop .stmts (fields.get key) := by
  cases found : fields.get key with
  | list items =>
    rw [statements_listed ⟨items, found⟩]
    rfl
  | _ => simp only [Manner.marks, Manner.form, Stmt.marks, parts, empty_checked]

theorem block_step (isKind : (Value.record id fields).kind = some kind) (isBlock : kind = .blockStatement ∨ kind = .staticBlock)
    (whole : ∀ role ∈ manner.roles, ∀ slots, slotsOf role kind fields = some slots → [.many "body" .statement] = slots) :
    Step inLoop manner (.record id fields) (marksOfStmts inLoop (checkedStmts (ensureStatements fields "body") (readStmts (fields.get "body").parts)))
      (SoundStmts (checkedStmts (ensureStatements fields "body") (readStmts (fields.get "body").parts))) := by
  rw [statements_marks]
  have known (slots : List Slot) (isSlots : [.many "body" .statement] = slots) : fills false kind [("body", .stmts)] slots = true := by
    subst isSlots
    rcases isBlock with rfl | rfl <;> rfl
  refine step_node isKind false [("body", .stmts)] ⟨?_, by simp, ?_, fun role isRole slots form => known slots (whole role isRole slots form)⟩ ?_ ?_
  · rcases isBlock with rfl | rfl <;> rfl
  · rcases isBlock with rfl | rfl <;> simp
  · rcases isBlock with rfl | rfl <;> simp
  · intro takes sound
    have takes : Manner.stmts.Takes (fields.get "body") := by simpa using takes
    obtain ⟨items, isList⟩ := listed_of_takes takes
    rw [statements_listed ⟨items, isList⟩]
    have sound : Manner.stmts.Sound (fields.get "body") := sound ("body", .stmts) mem_cons_self
    rw [isList] at sound ⊢
    exact sound

theorem declarators_step : Manner.declarators.Steps inLoop value := by
  refine step_list .declarator rfl rfl rfl rfl (by simp [readDeclarators, ensureRecords, parts])
    (fun item rest => .inl (by simp [readDeclarators, ensureRecords, parts])) fun noList => ?_
  simp only [Manner.marks, Manner.form, Stmt.marks, Variables.marks, readDeclarators, parts_of_other noList]
  cases value.ensureRecords <;> rfl

theorem declarator_step (placed : Manner.declarator.Placed value) :
    Manner.declarator.Steps inLoop value := by
  cases value with
  | record id fields =>
    have isKind : (Value.record id fields).kind = some .variableDeclarator := by simpa using placed.whole rfl
    exact step_node isKind false [("init", .expr), ("id", .pattern)] ⟨rfl, by simp, by simp, slots_one rfl rfl⟩
      (by simp [readDeclarator, Value.get, Value.fields]) (by simp [readDeclarator, Value.get, Value.fields])
  | _ => exact step_plain rfl rfl (by simp [readDeclarator]) (by simp)

theorem binders_step : Manner.binders.Steps inLoop value := by
  refine step_list .binder rfl rfl rfl rfl (by simp [checkedPatterns, ensureRecords, parts])
    (fun item rest => .inl (by simp [checkedPatterns, ensureRecords, parts])) fun noList => ?_
  simp only [Manner.marks, Manner.form, Stmt.marks, Expr.marks, Pattern.marks, parts_of_other noList]
  cases value.ensureRecords <;> rfl

theorem binder_step (placed : Manner.binder.Placed value) :
    Manner.binder.Steps inLoop value := by
  cases value with
  | record id fields =>
    have isKind : (Value.record id fields).kind = some .variableDeclarator := by simpa using placed.whole rfl
    exact step_node isKind false [("id", .pattern)] ⟨rfl, by simp, by simp, slots_one rfl rfl⟩
      (by simp [readBinder, Value.get, Value.fields]) (by simp [readBinder, Value.get, Value.fields])
  | _ => exact step_plain rfl rfl (by simp [readBinder]) (by simp)

theorem variables_step (isKind : (Value.record id fields).kind = some .variableDeclaration)
    (whole : ∀ role ∈ manner.roles, ∀ slots, slotsOf role .variableDeclaration fields = some slots → [.many "declarations" .declarator] = slots) :
    Step inLoop manner (.record id fields) ((readVariables (.record id fields)).marks inLoop) (readVariables (.record id fields)).Sound := by
  have read : readVariables (.record id fields) = ⟨.record id fields, readDeclarators (fields.get "declarations")⟩ := by
    rw [readVariables, readDeclarators]
    dsimp only [Value.get, Value.fields]
    cases (Fields.get fields "declarations").ensureRecords <;> rfl
  rw [read]
  refine step_node isKind false [("declarations", .declarators)] ⟨rfl, by simp, by simp, fun role isRole slots form => ?_⟩ (by simp) (by simp)
  rw [← whole role isRole slots form]
  rfl

theorem start_step : Manner.start.Steps inLoop value := by
  cases value with
  | record id fields =>
    by_cases declares : (Value.record id fields).isA .variableDeclaration = true
    · have isKind : (Value.record id fields).kind = some .variableDeclaration := by simpa [isA] using declares
      have step : Step inLoop .start _ _ _ := variables_step isKind (slots_one rfl rfl)
      simpa [readStart, declares] using step
    · refine .same .expr (by decide) (free_placed fun _ => rfl) (by simp [readStart, declares]) fun takes =>
        ⟨takes_as (by simp) (fun kind isKind => forall_mem_singleton.mpr ⟨.expression, by simp, fun slots form => ?_⟩) takes,
          by simp [readStart, declares]⟩
      cases kind <;> first | exact form | exact absurd (by simp [isA, isKind]) declares
  | _ => exact step_plain rfl rfl (by simp [readStart]) (by simp [readStart])

theorem head_step : Manner.head.Steps inLoop value := by
  by_cases declares : value.isA .variableDeclaration = true
  · cases value with
    | record id fields =>
      have isKind : (Value.record id fields).kind = some .variableDeclaration := by simpa [isA] using declares
      have read : readHead (.record id fields) = checkedPatterns (Fields.get fields "declarations").ensureRecords
          ((Fields.get fields "declarations").parts.map readBinder) := if_pos declares
      exact step_node isKind false [("declarations", .binders)] ⟨rfl, by simp, by simp, slots_one rfl rfl⟩
        (by simp [read]) (by simp [read])
    | _ => cases declares
  · refine .same .pattern (by decide) (free_placed fun _ => rfl) (by simp [readHead, declares]) fun takes => ⟨?_, by simp [readHead, declares]⟩
    cases value with
    | record id fields =>
      refine takes_as (by simp) (fun kind isKind => forall_mem_singleton.mpr ⟨.pattern, by simp, fun slots form => ?_⟩) takes
      cases kind <;> first | exact form | exact absurd (by simp [isA, isKind]) declares
    | _ =>
      obtain ⟨_, isArity, _, _, admitted⟩ := takes
      cases mem_singleton.mp isArity
      cases admitted

theorem cases_step : Manner.cases.Steps inLoop value := by
  refine step_list .case rfl rfl rfl rfl (by simp [readCases, readCaseList]) (fun item rest => .inl ?_) fun noList => ?_
  · cases item with
    | record id fields => simpa [readCases, readCaseList] using (perm_append_comm_assoc _ _ _).append_left _
    | _ => simp [readCases, readCaseList]
  cases value with
  | list items => exact absurd rfl (noList items)
  | _ => simp only [Manner.marks, Manner.form, readCases]; split <;> simp

theorem case_step (placed : Manner.case.Placed value) : Manner.case.Steps inLoop value := by
  cases value with
  | record id fields =>
    have isKind : (Value.record id fields).kind = some .switchCase := by simpa using placed.whole rfl
    exact step_node isKind false [("test", .optional), ("consequent", .stmts)]
      ⟨rfl, by simp, by simp, slots_one rfl rfl⟩ (by simp [readCaseList]) (by simp [readCaseList])
  | _ => exact step_plain rfl rfl (by simp [readCaseList]) (by simp)

theorem tried_step (placed : Manner.tried.Placed value) : Manner.tried.Steps inLoop value := by
  cases value with
  | record id fields =>
    have isKind : (Value.record id fields).kind = some .blockStatement := by simpa using placed.whole rfl
    simp only [Manner.Steps, Manner.marks, Manner.Sound, Manner.form, readTried, Stmt.marks, Stmt.Sound]
    exact block_step isKind (.inl rfl) (slots_one rfl rfl)
  | _ => exact step_plain rfl rfl (by simp [readTried]; split <;> simp) (by simp)

theorem handler_step (placed : Manner.handler.Placed value) :
    Manner.handler.Steps inLoop value := by
  cases value with
  | record id fields =>
    have isKind : (Value.record id fields).kind = some .catchClause := by simpa using placed.whole rfl
    exact step_node isKind false [("param", .pattern), ("body", .body)]
      ⟨rfl, by simp, by simp +contextual, slots_one rfl rfl⟩
      (by simp [readHandler, given_of_kind isKind]) (by simp [readHandler, given_of_kind isKind])
  | _ => exact step_plain rfl rfl (by simp [readHandler]; split <;> simp) (by simp [readHandler, given])

-- What is read as a statement if it is there.
theorem standing_step {inner : Manner} (isInner : inner.roles = [.statement, .block] ∨ inner.roles = [.statement]) (higher : 3 < inner.rank)
    (label : Option Value) (placed : inner.Placed (.record id fields))
    (isMarks : (readStmt (.record id fields) label).marks inLoop = marks) (isSound : (readStmt (.record id fields) label).Sound → sound) :
    Step inLoop inner (.record id fields) marks sound := by
  refine .same (.stmt label) higher ⟨fun isRecord => ?_, by simp [Manner.isList, Arity.takesRecord]⟩ isMarks
    fun takes => ⟨takes_as (by simp) (fun kind isKind role isRole => ?_) takes, isSound⟩
  · have kept := placed.whole isRecord
    rcases isInner with isInner | isInner
    · rw [Manner.keeps, isInner] at kept
      simp only [any_cons, Role.keeps, any_nil, Bool.or_false, Bool.or_eq_true, decide_eq_true_eq] at kept
      rcases kept with kept | kept
      · simpa using kept
      · simp [kept]
    · rw [Manner.keeps, isInner] at kept
      exact kept
  · refine ⟨.statement, by simp, fun slots form => ?_⟩
    rcases isInner with isInner | isInner
    · rw [isInner, mem_pair] at isRole
      rcases isRole with rfl | rfl
      · exact form
      · cases kind <;> first | exact form | cases form
    · rw [isInner, mem_singleton] at isRole
      subst isRole
      exact form

theorem labeled_step (label : Option Value) (placed : (Manner.labeled label).Placed value) :
    (Manner.labeled label).Steps inLoop value := by
  cases value with
  | record id fields =>
    simp only [Manner.Steps, Manner.marks, Manner.Sound, Manner.form, readLabeled]
    cases filed : (Value.record id fields).filedKind with
    | error fault =>
      refine .nothing fun takes => ?_
      obtain ⟨_, _, _, _, _, _, known, _⟩ := takes.fits
      cases filed.symm.trans known
    | ok kind =>
      dsimp only
      split
      · exact standing_step (.inr rfl) (Nat.lt_succ_self 3) label placed rfl fun sound => sound
      · exact standing_step (.inr rfl) (Nat.lt_succ_self 3) none placed rfl fun sound => sound
  | _ => exact step_plain rfl rfl (by simp [readLabeled]; split <;> simp [region_empty]) (by simp)

theorem body_step (placed : Manner.body.Placed value) : Manner.body.Steps inLoop value := by
  cases value with
  | null => exact step_plain rfl rfl (by simp [readBody]) (by simp [readBody])
  | record id fields => exact standing_step (.inl rfl) (by decide) none placed (by simp [readBody]) (by simp [readBody])
  | _ => exact step_plain rfl rfl (by simp [readBody, readStmt]) (by simp [readBody])

theorem if_given_step (placed : Manner.ifGiven.Placed value) :
    Manner.ifGiven.Steps inLoop value := by
  cases value with
  | record id fields =>
    by_cases given : (Value.record id fields).given = true
    · exact standing_step (.inl rfl) (by decide) none placed (by simp [readIfGiven, given]) (by simp [readIfGiven, given])
    · simp [readIfGiven, given]
      refine .nothing fun takes => ?_
      obtain ⟨_, _, _, kind, _, isKind, _⟩ := takes.fits
      exact absurd (given_of_kind isKind) given
  | _ => exact step_plain rfl rfl (by simp [readIfGiven, readStmt]; split <;> simp) (by simp [readIfGiven, given])

theorem exported_step : Manner.exported.Steps inLoop value := by
  cases value with
  | record id fields =>
    by_cases declares : ((Value.record id fields).isA .functionDeclaration || (Value.record id fields).isA .classDeclaration) = true
    · refine .same (.stmt none) (by decide) ⟨fun _ => ?_, by simp [Manner.isList, Arity.takesRecord]⟩ (by simp [readExported, declares]) fun takes =>
        ⟨takes_as (by simp) (fun kind isKind => forall_mem_singleton.mpr ⟨.statement, by simp, fun slots form => ?_⟩) takes,
          by simp [readExported, declares]⟩
      · unfold isA at declares
        cases isKind : (Value.record id fields).kind with
        | none => simp
        | some kind =>
          rw [isKind] at declares
          cases kind <;> first | rfl | cases declares
      · unfold isA at declares
        rw [isKind] at declares
        cases kind <;> first | exact form | cases declares
    · refine .same .expr (by decide) (free_placed fun _ => rfl) (by simp [readExported, declares]) fun takes =>
        ⟨takes_as (by simp) (fun kind isKind => forall_mem_singleton.mpr ⟨.expression, by simp, fun slots form => ?_⟩) takes,
          by simp [readExported, declares]⟩
      unfold isA at declares
      rw [isKind] at declares
      cases kind <;> first | exact form | exact absurd rfl declares
  | _ => exact step_plain rfl rfl (by simp [readExported, readExpr, readStmt]; split <;> simp) (by simp)

theorem function_body_step : Manner.functionBody.Steps inLoop value := by
  cases value with
  | record id fields =>
    by_cases given : (Value.record id fields).given = true
    · by_cases isBlock : (Value.record id fields).isA .blockStatement = true
      · have isKind : (Value.record id fields).kind = some .blockStatement := by simpa [isA] using isBlock
        have read : readFunctionBody (Value.record id fields).orRecord =
            checkedStmts (ensureStatements fields "body") (readStmts (Fields.get fields "body").parts) := by
          rw [orRecord, if_pos given]
          exact if_pos isBlock
        simp only [Manner.Steps, Manner.marks, Manner.Sound, Manner.form, read, Stmt.marks, Stmt.Sound]
        exact block_step isKind (.inl rfl) (slots_one rfl rfl)
      · have read : readFunctionBody (Value.record id fields).orRecord = [conciseReturn (.record id fields)] := by
          rw [orRecord, if_pos given]
          exact if_neg isBlock
        refine .same .expr (by decide) (free_placed fun _ => rfl) (by simp [read, conciseReturn]) fun takes =>
          ⟨takes_as (by simp) (fun kind isKind => forall_mem_singleton.mpr ⟨.expression, by simp, fun slots form => ?_⟩) takes,
          by simp [read, conciseReturn]⟩
        cases kind <;> first | exact form | exact absurd (by simp [isA, isKind]) isBlock
    · have nothing : Manner.marks inLoop .functionBody (.record id fields) = [] := by
        have read : readFunctionBody (Value.record id fields).orRecord = [conciseReturn (.made [])] := by
          rw [orRecord, if_neg given]
          rfl
        simp [read, conciseReturn, read_nothing]
      rw [Manner.Steps, nothing]
      refine .nothing fun takes => ?_
      obtain ⟨_, _, _, kind, _, isKind, _⟩ := takes.fits
      exact absurd (given_of_kind isKind) given
  | _ =>
    refine step_plain rfl rfl ?_ (by simp)
    simp only [Manner.marks, Manner.form, orRecord]
    split
    · rfl
    · have read : readFunctionBody (.made []) = [conciseReturn (.made [])] := rfl
      simp [read, conciseReturn, read_nothing]

theorem region_step (own : (Value.record id fields).isFunction = false) (isKind : (Value.record id fields).kind = some kind)
    (quiet : ∀ role ∈ manner.roles, ∀ slots, slotsOf role kind fields = some slots →
      kind.isInvocation = false ∧ kind.isFunction = true ∨ readsWhole false kind [] slots = true) :
    Step inLoop manner (.record id fields) ((Region.of (.record id fields)).marks inLoop) (Region.of (.record id fields)).Sound := by
  refine .region own fun takes => ⟨covers_quiet isKind quiet takes, ?_⟩
  obtain ⟨_, _, _, _, fits, _⟩ := takes.fits
  obtain ⟨place, located⟩ := fits.located
  exact ⟨place.line, by rw [Region.of, located]; rfl⟩

theorem label_taken (isKind : (Value.record id fields).kind = some kind) (label : Option Value)
    (labeled : kind = .labeledStatement ∨ kind = .breakStatement ∨ kind = .continueStatement)
    (takes : (Manner.stmt label).Takes (.record id fields)) : ∃ name, readLabel (Fields.get fields "label") = .ok name := by
  obtain ⟨role, isRole, slots, other, fits, isOther, _, form⟩ := takes.fits
  cases isKind.symm.trans isOther
  cases mem_singleton.mp isRole
  rcases labeled with rfl | rfl | rfl <;> cases form
  · exact label_read (fits.maybe "label" .name (.inl rfl))
  · exact label_read (fits.maybe "label" .name (.inr rfl))
  · exact label_read (fits.maybe "label" .name (.inr rfl))

theorem stmt_step (label : Option Value) (placed : (Manner.stmt label).Placed value) :
    (Manner.stmt label).Steps inLoop value := by
  cases value with
  | record id fields =>
    simp only [Manner.Steps, Manner.marks, Manner.Sound, Manner.form, readStmt]
    cases filed : (Value.record id fields).filedKind with
    | error fault =>
      refine .nothing fun takes => ?_
      obtain ⟨_, _, _, _, _, _, known, _⟩ := takes.fits
      cases filed.symm.trans known
    | ok found =>
      have isKind := filed_kind filed
      cases found with
      | none => exact .region (by simp [isFunction, kindIs, isKind]) fun takes => absurd takes (takes_kinded isKind)
      | some kind =>
        split <;> rename_i same
        · cases same
        all_goals cases same
        iterate 2
          · exact block_step isKind (by simp) (forall_mem_singleton.mpr (by rintro _ ⟨⟩ <;> rfl))
        · exact step_node isKind false [("expression", .expr)]
            ⟨rfl, by simp, by simp, slots_one rfl rfl⟩ (by simp) (by simp)
        · exact variables_step isKind (slots_one rfl rfl)
        · exact step_node isKind false [("superClass", .expr)]
            ⟨rfl, by simp, by simp, slots_one rfl rfl⟩ (by simp) (by simp)
        · refine step_node isKind false [("declaration", .body)]
            ⟨rfl, by simp, by simp +contextual, slots_one rfl rfl⟩ ?_ ?_
          · by_cases absent : (Fields.get fields "declaration").isNull = true <;> simp [readBody, absent, -isNull]
          · by_cases absent : (Fields.get fields "declaration").isNull = true <;> simp [readBody, absent, -isNull]
        · by_cases broken : ((Fields.get fields "declaration").given && !(Fields.get fields "declaration").isRecord) = true
          · rw [if_pos broken]
            refine .nothing fun takes => ?_
            obtain ⟨role, isRole, slots, other, fits, isOther, _, form⟩ := takes.fits
            cases isKind.symm.trans isOther
            cases mem_singleton.mp isRole
            cases form
            obtain ⟨_, _, _, isRecord, _⟩ := admits_one (fits.one "declaration" .exported rfl)
            rw [isRecord, Bool.and_comm] at broken
            cases broken
          · rw [if_neg broken]
            refine step_node isKind false [("declaration", .exported)]
              ⟨rfl, by simp, by simp, slots_one rfl rfl⟩ ?_ ?_
            · simp [readExported]; split <;> simp
            · simp [readExported]; split <;> simp
        iterate 2
          · exact step_node isKind false [("argument", .expr)]
              ⟨rfl, by simp, by simp, slots_one rfl rfl⟩ (by simp) (by simp)
        · exact step_node isKind false [("test", .expr), ("consequent", .body), ("alternate", .ifGiven)]
            ⟨rfl, by simp, by simp +contextual, slots_one rfl rfl⟩ (by simp) (by simp)
        · cases read : readLabel (Fields.get fields "label") with
          | ok inner =>
            exact step_node isKind false [("body", .labeled inner)]
              ⟨rfl, by simp, by simp +contextual, slots_one rfl rfl⟩ (by simp) (by simp)
          | error fault =>
            refine .nothing fun takes => ?_
            obtain ⟨name, known⟩ := label_taken isKind label (.inl rfl) takes
            cases read.symm.trans known
        · exact step_node isKind false [("test", .expr), ("body", .body)]
            ⟨rfl, by simp, by simp +contextual, slots_one rfl rfl⟩ (by simp) (by simp)
        · exact step_node isKind false [("body", .body), ("test", .expr)]
            ⟨rfl, by simp, by simp +contextual, slots_one rfl rfl⟩ (by simp) (by simp +contextual)
        · exact step_node isKind false [("init", .start), ("test", .optional), ("body", .body), ("update", .expr)]
            ⟨rfl, by simp, by simp +contextual, slots_one rfl rfl⟩ (by simp) (by simp +contextual)
        iterate 2
          · exact step_node isKind false [("right", .expr), ("left", .head), ("body", .body)]
              ⟨rfl, by simp, by simp +contextual, slots_one rfl rfl⟩ (by simp) (by simp)
        iterate 2
          · cases read : readLabel (Fields.get fields "label") with
            | ok inner => exact region_step (own_of_kind isKind rfl) isKind (forall_mem_singleton.mpr (by rintro _ ⟨⟩; exact .inr rfl))
            | error fault =>
              refine .nothing fun takes => ?_
              obtain ⟨name, known⟩ := label_taken isKind label (by simp) takes
              cases read.symm.trans known
        · exact step_node isKind false [("discriminant", .expr), ("cases", .cases)]
            ⟨rfl, by simp, by simp, slots_one rfl rfl⟩ (by simp) (by simp)
        · by_cases unguarded : (!(Fields.get fields "handler").given && !(Fields.get fields "finalizer").given) = true
          · rw [if_pos unguarded]
            refine .nothing fun takes => ?_
            obtain ⟨role, isRole, slots, other, fits, isOther, _, form⟩ := takes.fits
            cases isKind.symm.trans isOther
            cases mem_singleton.mp isRole
            obtain ⟨guarded, rfl⟩ := try_slots form
            exact absurd unguarded (guarded_try guarded (fits.maybe "handler" .handler (.inr rfl)) (fits.maybe "finalizer" .block (.inr rfl)))
          · rw [if_neg unguarded]
            refine step_node isKind false [("block", .tried), ("handler", .handler), ("finalizer", .ifGiven)]
              ⟨rfl, by simp, by simp +contextual, forall_mem_singleton.mpr fun slots form => ?_⟩ (by simp) (by simp)
            obtain ⟨_, rfl⟩ := try_slots form
            rfl
        · exact step_node isKind false [("object", .expr), ("body", .body)]
            ⟨rfl, by simp, by simp +contextual, slots_one rfl rfl⟩ (by simp) (by simp)
        iterate 2
          · exact .nothing fun takes => absurd takes (takes_kind isKind (forall_mem_singleton.mpr rfl))
        · exact .same .expr (by simp [Manner.rank]) (free_placed fun _ => rfl) rfl
            fun takes => absurd takes (takes_kind isKind (forall_mem_singleton.mpr rfl))
        · exact call_step isKind rfl rfl (forall_mem_singleton.mpr (by rintro _ ⟨⟩))
        · rw [readMember]
          exact member_step isKind rfl rfl rfl (forall_mem_singleton.mpr (by rintro _ ⟨⟩))
        · exact assignment_step isKind rfl (forall_mem_singleton.mpr (by rintro _ ⟨⟩)) rfl rfl
        · exact .same .pattern (by simp [Manner.rank]) (free_placed fun _ => rfl) rfl
            fun takes => absurd takes (takes_kind isKind (forall_mem_singleton.mpr rfl))
        · exact .nothing fun takes => absurd takes (takes_kind isKind (forall_mem_singleton.mpr rfl))
        · by_cases noted : isNoted kind = true
          · rw [if_pos noted]
            exact .nothing fun takes => ⟨covers_quiet isKind (forall_mem_singleton.mpr fun slots form => noted_slots noted form) takes, trivial⟩
          · rw [if_neg noted]
            have own : kind.isFunction = false := by
              have kept := placed.whole rfl
              rw [isKind] at kept
              cases kind <;> first | rfl | exact absurd rfl noted | cases kept
            refine .region (own_of_kind isKind own) fun takes => absurd takes (takes_kind isKind (forall_mem_singleton.mpr ?_))
            cases kind <;> first | rfl | exact absurd rfl noted | contradiction
  | _ => exact step_plain rfl rfl (by simp [readStmt]) (by simp)

theorem Manner.step (inLoop : Bool) (manner : Manner) (value : Value) (placed : manner.Placed value) :
    manner.Steps inLoop value := by
  cases manner with
  | expr => exact expr_step
  | exprs => exact exprs_step
  | operands => exact operands_step
  | key present => exact key_step present
  | optional => exact optional_step
  | attributes => exact attributes_step placed
  | object => exact object_step
  | property => exact property_step placed
  | reference => exact reference_step
  | pattern => exact pattern_step
  | patterns => exact patterns_step
  | objectPattern => exact object_pattern_step
  | patternProperty => exact pattern_property_step placed
  | declarators => exact declarators_step
  | declarator => exact declarator_step placed
  | start => exact start_step
  | head => exact head_step
  | binders => exact binders_step
  | binder => exact binder_step placed
  | stmt label => exact stmt_step label placed
  | stmts => exact stmts_step
  | body => exact body_step placed
  | ifGiven => exact if_given_step placed
  | labeled label => exact labeled_step label placed
  | exported => exact exported_step
  | cases => exact cases_step
  | case => exact case_step placed
  | tried => exact tried_step placed
  | handler => exact handler_step placed
  | functionBody => exact function_body_step

-- What is said of the parts of a value and of what it is handed on to holds of all values.
theorem reading_induction {motive : Manner → Value → Prop} (step : ∀ manner value, (∀ other inner,
      sizeOf inner < sizeOf value ∨ inner = value ∧ other.rank < manner.rank → motive other inner) → motive manner value)
    (manner : Manner) (value : Value) : motive manner value :=
  step manner value fun other inner _ => reading_induction step other inner
termination_by (sizeOf value, manner.rank)
decreasing_by
  rename_i less
  rcases less with less | ⟨rfl, lower⟩
  · exact Prod.Lex.left _ _ less
  · exact Prod.Lex.right _ lower

theorem Manner.sourced (manner : Manner) (value : Value) (inLoop : Bool) (orderly : value.Orderly) (placed : manner.Placed value) :
    Sourced value inLoop (manner.marks inLoop value) := by
  induction manner, value using reading_induction generalizing inLoop with
  | step manner value ih =>
    have step := manner.step inLoop value placed
    unfold Manner.Steps at step
    generalize manner.marks inLoop value = marks, manner.Sound value = sound at step
    cases step with
    | nothing => exact sourced_nil _ _
    | region own => exact sourced_region own
    | same other lower taken isMarks => exact isMarks ▸ ih other _ (.inr ⟨rfl, lower⟩) inLoop orderly taken
    | item each single sameRoles listed isMarks =>
      have kept (kind : Option Kind) : each.keeps kind = manner.keeps kind := by rw [Manner.keeps, sameRoles, Manner.keeps]
      have items := placed.items listed
      refine (sourced_item (ih each _ (.inl (by simp; omega)) inLoop (item_orderly orderly).1 ⟨fun isRecord => ?_, by simp [single]⟩)
        (ih manner _ (.inl (by simp)) inLoop (item_orderly orderly).2 ⟨fun isRecord => (by cases isRecord),
          fun _ item isItem => items item (mem_cons_of_mem _ isItem)⟩)).of_perm isMarks
      rw [kept]
      exact items _ mem_cons_self isRecord
    | @node id fields _ _ parts calls own apart within isMarks =>
      let read (part : String × Manner) := (part.1, part.2.marks (inLoop || (Value.record id fields).roundFields.contains part.1) (fields.get part.1))
      have each : ∀ part ∈ parts.map read, Sourced (fields.get part.1) (inLoop || (Value.record id fields).roundFields.contains part.1) part.2 := by
        refine forall_mem_map.mpr fun part isPart => ?_
        exact ih part.2 _ (.inl (sizeOf_get_record ..)) _ (orderly.get part.1) (within orderly part isPart)
      have apart : ((parts.map read).map (·.1)).Nodup := by simpa [read, Function.comp_def] using apart
      refine Sourced.of_perm ?_ isMarks
      cases calls with
      | false => simpa [marksOfParts, flatMap_map, read] using sourced_node inLoop own _ apart each
      | true => simpa [marksOfParts, flatMap_map, read] using sourced_call inLoop own _ apart each

theorem read_record_laid (orderly : (Value.record id fields).Orderly) : Laid (.record id fields) (readUnit (.record id fields)).marks := by
  unfold readUnit
  split
  · rename_i isProgram
    have isKind : (Value.record id fields).kind = some .program := by simpa [isA] using isProgram
    have body := Manner.stmts.sourced (fields.get "body") false (orderly.get _) (placed_of fun child isChild isRecord => by
      simpa using orderly.admits isKind "body" child isChild isRecord)
    have laid := laid_of_parts id fields [("body", Manner.stmts.marks false (fields.get "body"))] (by simp) (forall_mem_singleton.mpr body)
    rw [flatMap_singleton, ← statements_marks] at laid
    exact laid
  · have params := Manner.patterns.sourced (fields.get "params") false (orderly.get _) (free_placed fun _ => rfl)
    have body := Manner.functionBody.sourced (fields.get "body") false (orderly.get _) (free_placed fun _ => rfl)
    have laid := laid_of_parts id fields [("params", _), ("body", _)] (by simp) (forall_mem_cons.mpr ⟨params, forall_mem_singleton.mpr body⟩)
    rwa [flatMap_cons, flatMap_singleton] at laid

theorem read_unit_laid (node : Value) (orderly : node.Orderly) : Laid node (readUnit node).marks := by
  by_cases isRecord : node.isRecord = true
  · cases node with
    | record id fields => exact read_record_laid orderly
    | _ => cases isRecord
  have blank (key : String) : node.get key = .null := by cases node <;> first | rfl | exact absurd rfl isRecord
  have untyped : ¬ node.isA .program = true := by cases node <;> first | exact absurd rfl isRecord | exact Bool.false_ne_true
  have nothing (manner : Manner) (free : ∀ inner, manner.keeps inner = true) : manner.marks false .null = [] :=
    sourced_null (manner.sourced .null false (fun node isNode => by cases isNode) (free_placed free))
  have empty : (readUnit node).marks = Manner.patterns.marks false .null ++ Manner.functionBody.marks false .null := by
    rw [readUnit, if_neg untyped, blank, blank]
    rfl
  rw [empty, nothing .patterns fun _ => rfl, nothing .functionBody fun _ => rfl]
  exact ⟨by simp, by simp, by simp, by simp, by simp⟩

end HookLint.Flow
