import HookLint.Proofs.Flow.Faithful

namespace HookLint.Flow

open List HookLint.Value Grammar

-- The manners in which the readers take a value.
inductive Manner where
  | expr | exprs | operands | key (present : Bool) | optional | attributes | object | property | reference
  | pattern | patterns | objectPattern | patternProperty
  | declarators | declarator | start | head | binders | binder
  | stmt (label : Option Value) | stmts | body | ifGiven | labeled (label : Option Value) | exported
  | cases | case | tried | handler | functionBody

def readDeclarators (declarations : Value) : List Declarator :=
  match declarations.ensureRecords with
  | .ok _ => declarations.parts.map readDeclarator
  | .error fault => [{ value := .broken fault, target := .plain }]

def readBinder (declarator : Value) : Pattern :=
  if declarator.isRecord then readPattern (declarator.get "id") else .broken (.notRecord declarator.form)

def readExported (declaration : Value) : Stmt :=
  if declaration.isA .functionDeclaration || declaration.isA .classDeclaration then readStmt declaration none else .bare (readExpr declaration)

namespace Manner

-- A form that holds nothing but what is read so.
def form : Manner → Value → Stmt
  | .expr, value => .bare (readExpr value)
  | .exprs, value => .bare (.sequence (checked value.ensureItems (readExprs value.parts)))
  | .operands, value => .bare (.sequence (readOperands value))
  | .key present, value => .bare (.member false .leaf (readIf present value))
  | .optional, value => .bare (.member false .leaf (readOptional value))
  | .attributes, value => .bare (.sequence (readAttributes value))
  | .object, value => .bare (readObject value)
  | .property, value => .bare (.object (readProperties [value]))
  | .reference, value => .bare (.assignIf .whenTrue (readReference value) .leaf)
  | .pattern, value => .bare (.destructure (readPattern value))
  | .patterns, value => .bare (.destructure (.array (checkedPatterns value.ensureRecordsIfGiven (readPatterns value.parts))))
  | .objectPattern, value => .bare (.destructure (readObjectPattern value))
  | .patternProperty, value => .bare (.destructure (.object (readPatternProperties [value])))
  | .declarators, value => .declare ⟨value, readDeclarators value⟩
  | .declarator, value => .declare ⟨value, [readDeclarator value]⟩
  | .start, value => .forLoop none (readStart value) none .leaf none
  | .head, value => .bare (.destructure (.array (readHead value)))
  | .binders, value => .bare (.destructure (.array (checkedPatterns value.ensureRecords (value.parts.map readBinder))))
  | .binder, value => .bare (.destructure (readBinder value))
  | .stmt label, value => readStmt value label
  | .stmts, value => .block (checkedStmts value.ensureRecords (readStmts value.parts))
  | .body, value => .withObject .leaf (readBody value)
  | .ifGiven, value => .withObject .leaf (readIfGiven value)
  | .labeled label, value => readLabeled label value
  | .exported, value => readExported value
  | .cases, value => .switch .null .leaf (readCases value)
  | .case, value => .switch .null .leaf (readCaseList [value])
  | .tried, value => .block (readTried value)
  | .handler, value => .tryCatch [] (readHandler value) none
  | .functionBody, value => .block (readFunctionBody value.orRecord)

def marks (inLoop : Bool) (manner : Manner) (value : Value) : Marks := (manner.form value).marks inLoop

def Sound (manner : Manner) (value : Value) : Prop := (manner.form value).Sound

-- What the grammar has in the places that are read so.
def roles : Manner → List Role
  | .expr | .exprs | .operands | .optional => [.expression]
  | .key present => [if present then .expression else .name]
  | .attributes => [.tag]
  | .object | .property => [.property]
  | .reference => [.reference]
  | .pattern | .patterns => [.pattern]
  | .objectPattern | .patternProperty => [.patternProperty]
  | .declarators | .declarator => [.declarator]
  | .start => [.start]
  | .head => [.head]
  | .binders | .binder => [.binder]
  | .stmt _ | .stmts | .labeled _ => [.statement]
  | .body | .ifGiven => [.statement, .block]
  | .exported => [.exported]
  | .cases | .case => [.switchCase]
  | .tried => [.block]
  | .handler => [.handler]
  | .functionBody => [.functionBody]

def arities : Manner → List Arity
  | .operands => [.one, .maybe, .many, .holes]
  | .exprs | .patterns => [.many, .holes]
  | .object | .objectPattern | .declarators | .binders | .stmts | .cases => [.many]
  | .property | .patternProperty | .declarator | .head | .binder | .stmt _ | .labeled _ | .exported | .case | .tried | .functionBody => [.one]
  | _ => [.one, .maybe]

def Takes (manner : Manner) (value : Value) : Prop := ∃ arity ∈ manner.arities, ∃ role ∈ manner.roles, admits arity role value = true

def isList (manner : Manner) : Bool := manner.arities.all (!·.takesRecord)

-- What an orderly tree has there.
def keeps (manner : Manner) (kind : Option Kind) : Bool := manner.roles.any (·.keeps kind)

structure Placed (manner : Manner) (value : Value) : Prop where
  whole : value.isRecord = true → manner.keeps value.kind = true
  items : manner.isList = true → ∀ item ∈ value.parts, item.isRecord = true → manner.keeps item.kind = true

-- Some readers hand a value on to another one, which comes before them.
def rank : Manner → Nat
  | .expr | .head => 1
  | .operands | .key _ | .optional | .start | .functionBody => 2
  | .stmt _ => 3
  | .body | .ifGiven | .labeled _ | .exported => 4
  | _ => 0

end Manner

-- Whether nothing is run in a node but in some fields, and that it is called, if it is.
def readsWhole (calls : Bool) (kind : Kind) (keys : List String) (slots : List Slot) : Bool :=
  (calls || !kind.isInvocation) && slots.all fun slot => keys.contains slot.key || slot.role.isQuiet || kind.isClass && isClassPart slot.key

-- Whether the grammar has the parts of a node in their places, and nothing else that is run.
def fills (calls : Bool) (kind : Kind) (parts : List (String × Manner)) (slots : List Slot) : Bool :=
  readsWhole calls kind (parts.map (·.1)) slots && parts.all fun part => (slots.find? (·.key = part.1)).any fun slot =>
    part.2.arities.contains slot.arity && part.2.roles.contains slot.role

def marksOfParts (inLoop calls : Bool) (rounds : List String) (id : Nat) (fields : Fields) (parts : List (String × Manner)) : Marks :=
  (parts.flatMap fun part => part.2.marks (inLoop || rounds.contains part.1) (fields.get part.1))
    ++ if calls then [(⟨inLoop, false⟩, .record id fields)] else []

-- What a reader does with a value: it leaves it alone, takes it for a region, hands it on, or goes on
-- with the items of a list or with some fields of a node.
inductive Step (inLoop : Bool) (manner : Manner) : Value → Marks → Prop → Prop where
  | nothing {value : Value} {sound : Prop} (known : manner.Takes value → Covers value [] ∧ sound) : Step inLoop manner value [] sound
  | region {id : Nat} {fields : Fields} {sound : Prop} (own : (Value.record id fields).isFunction = false)
      (known : manner.Takes (.record id fields) → Covers (.record id fields) [] ∧ sound) :
      Step inLoop manner (.record id fields) ((Region.of (.record id fields)).marks inLoop) sound
  | same {value : Value} {marks : Marks} {sound : Prop} (other : Manner) (lower : other.rank < manner.rank)
      (placed : other.Placed value) (isMarks : other.marks inLoop value = marks)
      (known : manner.Takes value → other.Takes value ∧ (other.Sound value → sound)) : Step inLoop manner value marks sound
  | item {item : Value} {rest : List Value} {marks : Marks} {sound : Prop} (each : Manner) (single : each.isList = false)
      (sameRoles : each.roles = manner.roles) (listed : manner.isList = true)
      (isMarks : (each.marks inLoop item ++ manner.marks inLoop (.list rest)).Perm marks)
      (known : manner.Takes (.list (item :: rest)) → each.Takes item ∧ manner.Takes (.list rest))
      (isSound : each.Sound item ∧ manner.Sound (.list rest) → sound) : Step inLoop manner (.list (item :: rest)) marks sound
  | node {id : Nat} {fields : Fields} {marks : Marks} {sound : Prop} (parts : List (String × Manner)) (calls : Bool)
      (own : (Value.record id fields).isFunction = false) (apart : (parts.map (·.1)).Nodup)
      (placed : (Value.record id fields).Orderly → ∀ part ∈ parts, part.2.Placed (fields.get part.1))
      (isMarks : (marksOfParts inLoop calls (Value.record id fields).roundFields id fields parts).Perm marks)
      (known : manner.Takes (.record id fields) → (∀ part ∈ parts, part.2.Takes (fields.get part.1)) ∧
        (∃ role slots kind, Fits role id fields slots ∧ (Value.record id fields).kind = some kind ∧
          readsWhole calls kind (parts.map (·.1)) slots = true) ∧ ((∀ part ∈ parts, part.2.Sound (fields.get part.1)) → sound)) :
      Step inLoop manner (.record id fields) marks sound

abbrev Manner.Steps (manner : Manner) (inLoop : Bool) (value : Value) : Prop :=
  Step inLoop manner value (manner.marks inLoop value) (manner.Sound value)

variable {inLoop : Bool} {manner each : Manner} {value item left : Value} {rest : List Value} {id : Nat} {fields : Fields} {kind : Kind}
  {marks : Marks} {sound : Prop} {slots : List Slot}

theorem placed_of (kept : ∀ child ∈ value :: value.parts, child.isRecord = true → manner.keeps child.kind = true) : manner.Placed value :=
  ⟨kept value mem_cons_self, fun _ item isItem => kept item (mem_cons_of_mem _ isItem)⟩

theorem free_placed (free : ∀ inner, manner.keeps inner = true) : manner.Placed value := placed_of fun _ _ _ => free _

theorem Manner.Takes.placed (takes : manner.Takes value) : manner.Placed value := by
  obtain ⟨arity, _, role, isRole, admitted⟩ := takes
  exact placed_of fun child isChild isRecord => any_eq_true.mpr ⟨role, isRole, slot_keeps admitted isChild isRecord⟩

theorem roles_kinded {role : Role} (isRole : role ∈ manner.roles) : role.isKinded = true := by
  cases manner with
  | key present => cases present <;> cases mem_singleton.mp isRole <;> rfl
  | body | ifGiven =>
    rw [Manner.roles, mem_pair] at isRole
    rcases isRole with rfl | rfl <;> rfl
  | _ =>
    cases mem_singleton.mp isRole
    rfl

theorem Manner.Takes.fits (takes : manner.Takes (.record id fields)) : ∃ role ∈ manner.roles, ∃ slots kind, Fits role id fields slots ∧
    (Value.record id fields).kind = some kind ∧ (Value.record id fields).filedKind = .ok (some kind) ∧ slotsOf role kind fields = some slots := by
  obtain ⟨arity, _, role, isRole, admitted⟩ := takes
  obtain ⟨slots, fits⟩ := fits_of_admits admitted
  obtain ⟨kind, isKind, filed, form⟩ := fits.kind (roles_kinded isRole)
  exact ⟨role, isRole, slots, kind, fits, isKind, filed, form⟩

theorem takes_item (sameRoles : each.roles = manner.roles)
    (items : (manner.arities.all fun arity => !arity.takesNull && arity.ofItems.any (each.arities.contains ·)) = true)
    (takes : manner.Takes (.list (item :: rest))) : each.Takes item ∧ manner.Takes (.list rest) := by
  obtain ⟨arity, isArity, role, isRole, admitted⟩ := takes
  rw [admits] at admitted
  obtain ⟨_, inner⟩ := Bool.and_eq_true_iff.mp (all_eq_true.mp items arity isArity)
  cases listed : arity.ofItems with
  | none =>
    rw [listed] at admitted
    cases admitted
  | some single =>
    rw [listed] at admitted inner
    obtain ⟨first, others⟩ := Bool.and_eq_true_iff.mp admitted
    exact ⟨⟨single, contains_iff_mem.mp inner, role, sameRoles ▸ isRole, first⟩,
      arity, isArity, role, isRole, by rw [admits, listed]; exact others⟩

-- A list, or nothing.
theorem step_list (each : Manner) (single : each.isList = false) (sameRoles : each.roles = manner.roles) (listed : manner.isList = true)
    (items : (manner.arities.all fun arity => !arity.takesNull && arity.ofItems.any (each.arities.contains ·)) = true)
    (empty : manner.marks inLoop (.list []) = [] ∧ manner.Sound (.list []))
    (more : ∀ item rest, (each.marks inLoop item ++ manner.marks inLoop (.list rest)).Perm (manner.marks inLoop (.list (item :: rest))) ∧
      (each.Sound item ∧ manner.Sound (.list rest) → manner.Sound (.list (item :: rest))) ∨
      item.isRecord = false ∧ each.arities = [.one] ∧ manner.marks inLoop (.list (item :: rest)) = [])
    (other : (∀ items, value ≠ .list items) → manner.marks inLoop value = []) :
    manner.Steps inLoop value := by
  unfold Manner.Steps
  cases value with
  | list values =>
    cases values with
    | nil =>
      rw [empty.1]
      exact .nothing fun _ => ⟨covers_plain rfl _, empty.2⟩
    | cons item rest =>
      obtain ⟨isMarks, isSound⟩ | ⟨noRecord, lone, noMarks⟩ := more item rest
      · exact .item each single sameRoles listed isMarks (takes_item sameRoles items) isSound
      · rw [noMarks]
        refine .nothing fun admitted => ?_
        obtain ⟨arity, isArity, role, _, admitted⟩ := (takes_item sameRoles items admitted).1
        rw [lone] at isArity
        cases mem_singleton.mp isArity
        obtain ⟨_, _, _, rfl, _⟩ := admits_one admitted
        cases noRecord
  | _ =>
    rw [other (by simp)]
    refine .nothing fun admitted => ?_
    obtain ⟨arity, isArity, role, _, admitted⟩ := admitted
    have known := all_eq_true.mp items arity isArity
    cases arity <;> first | (cases admitted; done) | cases known

theorem step_plain (single : (manner.arities.all (·.takesRecord)) = true) (noRecord : value.isRecord = false)
    (noMarks : manner.marks inLoop value = []) (atNull : .maybe ∈ manner.arities → manner.Sound .null) :
    manner.Steps inLoop value := by
  rw [Manner.Steps, noMarks]
  refine .nothing fun takes => ?_
  obtain ⟨arity, isArity, role, _, admitted⟩ := takes
  have known := all_eq_true.mp single arity isArity
  cases value with
  | record => cases noRecord
  | null =>
    refine ⟨covers_plain rfl _, atNull ?_⟩
    cases arity <;> cases known <;> first | exact isArity | cases admitted
  | list => cases arity <;> cases known <;> cases admitted
  | _ => cases admitted

theorem covers_whole {role : Role} {calls : Bool} {keys : List String} (fits : Fits role id fields slots)
    (isKind : (Value.record id fields).kind = some kind) (whole : readsWhole calls kind keys slots = true)
    (called : calls = true → ∃ mark : Mark, mark.blurred = false ∧ (mark, .record id fields) ∈ marks)
    (covered : ∀ key ∈ keys, Covers (fields.get key) marks) : Covers (.record id fields) marks := by
  obtain ⟨invokes, each⟩ := Bool.and_eq_true_iff.mp whole
  refine covers_node fits isKind keys (fun isCall => called ?_) (.inr fun slot isSlot => ?_) covered
  · simpa [isCall] using invokes
  · simpa [or_assoc] using all_eq_true.mp each slot isSlot

section
variable (isKind : (Value.record id fields).kind = some kind)
include isKind

-- A node in which nothing is run.
theorem covers_quiet (quiet : ∀ role ∈ manner.roles, ∀ slots, slotsOf role kind fields = some slots →
      kind.isInvocation = false ∧ kind.isFunction = true ∨ readsWhole false kind [] slots = true)
    (takes : manner.Takes (.record id fields)) : Covers (.record id fields) [] := by
  obtain ⟨role, isRole, slots, other, fits, isOther, _, form⟩ := takes.fits
  cases isKind.symm.trans isOther
  obtain ⟨silent, opens⟩ | whole := quiet role isRole slots form
  · exact covers_node fits isKind [] (fun invokes => absurd invokes (by simp [silent])) (.inl opens) (by simp)
  · exact covers_whole fits isKind whole (by simp) (by simp)

theorem takes_kind (none : ∀ role ∈ manner.roles, slotsOf role kind fields = none) : ¬ manner.Takes (.record id fields) := by
  intro takes
  obtain ⟨role, isRole, slots, other, _, isOther, _, form⟩ := takes.fits
  cases isKind.symm.trans isOther
  rw [none role isRole] at form
  cases form

end

theorem unmodelled_step (own : (Value.record id fields).isFunction = false) (never : ¬ manner.Takes (.record id fields)) :
    Step inLoop manner (.record id fields) ((unmodelled (.record id fields)).marks inLoop) sound := by
  unfold unmodelled
  split
  · exact .nothing fun takes => absurd takes never
  · exact .region own fun takes => absurd takes never

-- What is read of a node of some kind.
structure Reads (manner : Manner) (fields : Fields) (kind : Kind) (calls : Bool) (parts : List (String × Manner)) : Prop where
  own : kind.isFunction = false
  apart : (parts.map (·.1)).Nodup
  kept : ∀ part ∈ parts, ∀ inner, kind.admits part.1 inner = true → part.2.keeps inner = true
  whole : ∀ role ∈ manner.roles, ∀ slots, slotsOf role kind fields = some slots → fills calls kind parts slots = true

theorem slots_one {Post : List Slot → Prop} {role : Role} {slots : List Slot} (form : slotsOf role kind fields = some slots) (holds : Post slots) :
    ∀ other ∈ [role], ∀ slots, slotsOf other kind fields = some slots → Post slots := by
  rw [forall_mem_singleton]
  intro _ known
  cases form.symm.trans known
  exact holds

theorem fills_known {calls : Bool} {parts : List (String × Manner)} (whole : ∀ kind, (Value.record id fields).kind = some kind →
      ∀ role ∈ manner.roles, ∀ slots, slotsOf role kind fields = some slots → fills calls kind parts slots = true)
    (takes : manner.Takes (.record id fields)) : (∀ part ∈ parts, part.2.Takes (fields.get part.1)) ∧
      ∃ role slots kind, Fits role id fields slots ∧ (Value.record id fields).kind = some kind ∧
        readsWhole calls kind (parts.map (·.1)) slots = true := by
  obtain ⟨role, isRole, slots, kind, fits, isKind, _, form⟩ := takes.fits
  obtain ⟨whole, slotted⟩ := Bool.and_eq_true_iff.mp (whole kind isKind role isRole slots form)
  refine ⟨fun part isPart => ?_, role, slots, kind, fits, isKind, whole⟩
  have known := all_eq_true.mp slotted part isPart
  cases found : slots.find? (·.key = part.1) with
  | none =>
    rw [found] at known
    cases known
  | some slot =>
    rw [found, Option.any_some, Bool.and_eq_true, contains_iff_mem, contains_iff_mem] at known
    have same : slot.key = part.1 := by simpa using List.find?_some found
    rw [← same] at found ⊢
    exact ⟨_, known.1, _, known.2, fits.slot slot found⟩

theorem step_node (isKind : (Value.record id fields).kind = some kind) (calls : Bool) (parts : List (String × Manner))
    (reads : Reads manner fields kind calls parts)
    (isMarks : (marksOfParts inLoop calls kind.roundFields id fields parts).Perm marks)
    (isSound : (∀ part ∈ parts, part.2.Takes (fields.get part.1)) → (∀ part ∈ parts, part.2.Sound (fields.get part.1)) → sound) :
    Step inLoop manner (.record id fields) marks sound := by
  refine .node parts calls (own_of_kind isKind reads.own) reads.apart (fun orderly part isPart => placed_of
    fun child isChild isRecord => reads.kept part isPart _ (orderly.admits isKind part.1 child isChild isRecord))
    (by rwa [round_fields_eq isKind]) fun takes => ?_
  obtain ⟨taken, whole⟩ := fills_known (fun other isOther => by cases isKind.symm.trans isOther; exact reads.whole) takes
  exact ⟨taken, whole, isSound taken⟩

-- A node of which it is not known what it is, if it is not in its place.
theorem step_free (own : (Value.record id fields).isFunction = false) (parts : List (String × Manner)) (apart : (parts.map (·.1)).Nodup)
    (free : ∀ part ∈ parts, (∀ inner, part.2.keeps inner = true) ∧ part.1 ≠ "left" ∧ part.1 ≠ "body")
    (whole : ∀ kind, (Value.record id fields).kind = some kind →
      ∀ role ∈ manner.roles, ∀ slots, slotsOf role kind fields = some slots → fills false kind parts slots = true)
    (isMarks : marksOfParts inLoop false [] id fields parts = marks)
    (isSound : (∀ part ∈ parts, part.2.Sound (fields.get part.1)) → sound) : Step inLoop manner (.record id fields) marks sound := by
  refine .node parts false own apart (fun _ part isPart => free_placed (free part isPart).1) ?_ fun takes => ?_
  · rw [← isMarks]
    refine Perm.append_right _ (.of_eq (flatMap_congr fun part isPart => ?_))
    rw [round_only (free part isPart).2.1 (free part isPart).2.2, contains_nil]
  · obtain ⟨taken, whole⟩ := fills_known whole takes
    exact ⟨taken, whole, isSound⟩

theorem leaf_slots (leaf : isLeaf kind = true) (form : expressionSlots kind fields = some slots) :
    kind.isInvocation = false ∧ kind.isFunction = true ∨ readsWhole false kind [] slots = true := by
  cases kind <;> cases leaf <;> first | exact .inl ⟨rfl, rfl⟩ | (cases form; done) | (cases form; exact .inr rfl) |
    (obtain rfl := identifier_slots form; exact .inr rfl)

theorem target_reference (admitted : admits .maybe .target left = true)
    (notPattern : ¬ left.kindIs isTargetPattern = true) : admits .maybe .reference left = true := by
  refine admits_role rfl (fun kind slots isKind form => ?_) admitted
  rw [Value.kindIs, isKind] at notPattern
  cases kind <;> first | exact form | exact absurd rfl notPattern

theorem target_pattern (admitted : admits .maybe .target left = true) : admits .maybe .pattern left = true := by
  refine admits_role rfl (fun kind slots _ form => ?_) admitted
  cases kind <;> first | exact form | cases form

theorem reference_no_pattern (admitted : admits .maybe .reference left = true) : ¬ left.kindIs isTargetPattern = true := by
  obtain rfl | ⟨id, fields, slots, rfl, fits⟩ := admits_maybe admitted
  · exact Bool.false_ne_true
  · obtain ⟨kind, isKind, _, form⟩ := fits.kind rfl
    rw [Value.kindIs, isKind]
    cases kind <;> first | exact Bool.false_ne_true | cases form

theorem marks_of_all_append (inLoop : Bool) (first second : List Expr) :
    marksOfAll inLoop (first ++ second) = marksOfAll inLoop first ++ marksOfAll inLoop second := by
  induction first with
  | nil => rfl
  | cons expr rest ih => simp [marksOfAll, ih]

theorem sound_all_append (first second : List Expr) : SoundAll (first ++ second) = (SoundAll first ∧ SoundAll second) := by
  induction first with
  | nil => simp [SoundAll]
  | cons expr rest ih => simp [SoundAll, ih, and_assoc]

attribute [local simp] Manner.Steps Manner.marks Manner.Sound Manner.form Stmt.marks Stmt.Sound Expr.marks Expr.Sound marksOfAll SoundAll
  marksOfIf SoundIf marksOfProperties SoundProperties Property.marks Property.Sound Target.marksBefore Target.marksAfter Target.Sound Pattern.marks Pattern.Sound
  marksOfPatterns SoundPatterns marksOfPatternProperties SoundPatternProperties PatternProperty.marks PatternProperty.Sound marksOfParts
  Manner.roles Manner.arities Manner.keeps Role.keeps Kind.admits Kind.roundFields isRecord isNull

theorem keeps_key (present : Bool) (inner : Option Kind) : (Manner.key present).keeps inner = true := by cases present <;> rfl

theorem parts_of_other (noList : ∀ items, value ≠ .list items) : value.parts = [] := by
  cases value <;> first | rfl | exact absurd rfl (noList _)

theorem exprs_step : Manner.exprs.Steps inLoop value := by
  refine step_list .expr rfl rfl rfl rfl (by simp [checked, ensureItems, readExprs, parts])
    (fun item rest => .inl (by simp [checked, ensureItems, readExprs, parts])) fun noList => ?_
  simp only [Manner.marks, Manner.form, Stmt.marks, Expr.marks, parts_of_other noList, readExprs]
  cases value.ensureItems <;> rfl

theorem patterns_step : Manner.patterns.Steps inLoop value := by
  refine step_list .pattern rfl rfl rfl rfl (by simp [checkedPatterns, ensureRecordsIfGiven, ensureRecords, readPatterns, parts])
    (fun item rest => .inl (by simp [checkedPatterns, ensureRecordsIfGiven, ensureRecords, readPatterns, parts])) fun noList => ?_
  simp only [Manner.marks, Manner.form, Stmt.marks, Expr.marks, Pattern.marks, parts_of_other noList, readPatterns]
  cases value.ensureRecordsIfGiven <;> rfl

theorem object_step : Manner.object.Steps inLoop value := by
  refine step_list .property rfl rfl rfl rfl (by simp [readObject, readProperties]) (fun item rest => ?_) fun noList => ?_
  · cases item with
    | record id fields => exact .inl (by simp [readObject, readProperties])
    | _ => exact .inr (by simp [readObject, readProperties])
  cases value with
  | list items => exact absurd rfl (noList items)
  | _ => simp only [Manner.marks, Manner.form, readObject]; split <;> simp

theorem object_pattern_step : Manner.objectPattern.Steps inLoop value := by
  refine step_list .patternProperty rfl rfl rfl rfl (by simp [readObjectPattern, readPatternProperties]) (fun item rest => ?_) fun noList => ?_
  · cases item with
    | record id fields => exact .inl (by simp [readObjectPattern, readPatternProperties])
    | _ => exact .inr (by simp [readObjectPattern, readPatternProperties])
  cases value with
  | list items => exact absurd rfl (noList items)
  | _ => simp only [Manner.marks, Manner.form, readObjectPattern]; split <;> simp

theorem attributes_step (placed : Manner.attributes.Placed value) :
    Manner.attributes.Steps inLoop value := by
  cases value with
  | record id fields =>
    have isKind : (Value.record id fields).kind = some .jsxOpeningElement := by simpa using placed.whole rfl
    exact step_node isKind false [("attributes", .exprs)] ⟨rfl, by simp, by simp, slots_one rfl rfl⟩
      (by simp [readAttributes]) (by simp [readAttributes])
  | _ => exact step_plain rfl rfl (by simp [readAttributes]; split <;> simp) (by simp [readAttributes, given])

theorem key_step (present : Bool) : (Manner.key present).Steps inLoop value := by
  cases present with
  | true => exact .same .expr (by decide) (free_placed fun _ => rfl) (by simp [readIf]) fun takes => ⟨takes, by simp [readIf]⟩
  | false =>
    simp only [Manner.Steps, Manner.marks, Manner.Sound, Manner.form, readIf, Stmt.marks, Stmt.Sound]
    refine .nothing ?_
    rintro ⟨arity, isArity, role, isRole, admitted⟩
    cases mem_singleton.mp isRole
    exact ⟨quiet_covers rfl admitted _, by simp⟩

theorem optional_step : Manner.optional.Steps inLoop value := by
  cases value with
  | null => exact step_plain rfl rfl (by simp [readOptional]) (by simp [readOptional])
  | _ => exact .same .expr (by decide) (free_placed fun _ => rfl) (by simp [readOptional]) fun takes => ⟨takes, by simp [readOptional]⟩

theorem operands_step : Manner.operands.Steps inLoop value := by
  cases value with
  | list items =>
    refine .same .exprs (by decide) (free_placed fun _ => rfl) (by simp [readOperands, checked, ensureItems, parts])
      fun takes => ⟨?_, by simp [readOperands, checked, ensureItems, parts]⟩
    obtain ⟨arity, isArity, role, isRole, admitted⟩ := takes
    refine ⟨arity, ?_, role, isRole, admitted⟩
    cases arity <;> first | cases admitted | decide | exact absurd isArity (by decide)
  | _ =>
    refine .same .expr (by decide) (free_placed fun _ => rfl) (by simp [readOperands]) fun takes => ⟨?_, by simp [readOperands]⟩
    obtain ⟨arity, isArity, role, isRole, admitted⟩ := takes
    exact ⟨.maybe, by decide, role, isRole, admits_lone admitted (by simp)⟩

-- The parts of a member, whatever is done with it.
theorem member_step (isKind : (Value.record id fields).kind = some kind) (own : kind.isFunction = false) (quiet : kind.isInvocation = false)
    (simple : kind.roundFields = [])
    (whole : ∀ role ∈ manner.roles, ∀ slots, slotsOf role kind fields = some slots → memberSlots fields = slots) :
    Step inLoop manner (.record id fields) ((readExpr (Fields.get fields "object")).marks inLoop ++
        marksOfIf inLoop (readIf (Fields.get fields "computed").given (Fields.get fields "property")))
      ((readExpr (Fields.get fields "object")).Sound ∧ SoundIf (readIf (Fields.get fields "computed").given (Fields.get fields "property"))) := by
  refine step_node isKind false [("object", .expr), ("property", .key (Fields.get fields "computed").given)]
    ⟨own, by simp, ?_, fun role isRole slots form => ?_⟩ (by simp [simple, -Kind.roundFields]) (by simp)
  · cases (Fields.get fields "computed").given <;> simp
  · rw [← whole role isRole slots form]
    cases computed : (Fields.get fields "computed").given <;>
      simp [fills, readsWhole, memberSlots, keySlot, computed, quiet, Slot.one, Role.isQuiet]

theorem call_step (isKind : (Value.record id fields).kind = some kind) (own : kind.isFunction = false) (simple : kind.roundFields = [])
    (whole : ∀ role ∈ manner.roles, ∀ slots, slotsOf role kind fields = some slots →
      [.one "callee" .expression, .many "arguments" .expression] = slots) :
    Step inLoop manner (.record id fields) ((readCall (.record id fields)).marks inLoop) (readCall (.record id fields)).Sound := by
  refine step_node isKind true [("callee", .expr), ("arguments", .exprs)] ⟨own, by simp, by simp, fun role isRole slots form => ?_⟩
    (by simp [simple, -Kind.roundFields, readCall]) (by simp [readCall])
  rw [← whole role isRole slots form]
  simp [fills, readsWhole, Slot.one, Slot.many]

theorem takes_kinded (untyped : (Value.record id fields).kind = none) : ¬ manner.Takes (.record id fields) := by
  intro takes
  obtain ⟨_, _, _, _, _, isKind, _⟩ := takes.fits
  cases untyped.symm.trans isKind

theorem reference_step : Manner.reference.Steps inLoop value := by
  cases value with
  | record id fields =>
    cases isKind : (Value.record id fields).kind with
    | none =>
      simp [readReference, kindIs, isKind]
      exact .nothing fun takes => absurd takes (takes_kinded isKind)
    | some kind =>
      by_cases isMember : kind.isMember = true
      · simp [readReference, kindIs, isKind, isMember]
        cases kind <;> cases isMember <;> exact member_step isKind rfl rfl rfl (slots_one rfl rfl)
      · simp [readReference, kindIs, isKind, isMember]
        refine .nothing fun takes => ⟨covers_quiet isKind (forall_mem_singleton.mpr fun slots form => ?_) takes, trivial⟩
        cases kind <;> first | exact absurd rfl isMember | cases form | (obtain rfl := identifier_slots form; exact .inr rfl)
  | _ => exact step_plain rfl rfl (by simp [readReference]) (by simp [readReference])

theorem property_step (placed : Manner.property.Placed value) :
    Manner.property.Steps inLoop value := by
  cases value with
  | record id fields =>
    have own : (Value.record id fields).isFunction = false := by simpa [isFunction, kindIs] using placed.whole rfl
    by_cases spread : (Value.record id fields).isA .spreadElement = true
    · have isKind : (Value.record id fields).kind = some .spreadElement := by simpa [isA] using spread
      refine step_node isKind false [("argument", .expr)] ⟨rfl, by simp, by simp, slots_one rfl rfl⟩
        (by simp [readProperties, spread]) (by simp [readProperties, spread])
    · refine step_free own [("key", .key (Fields.get fields "computed").given), ("value", .expr)] (by simp)
        (forall_mem_cons.mpr ⟨⟨keeps_key _, by simp⟩, by simp⟩)
        (fun kind isKind => forall_mem_singleton.mpr fun slots form => ?_) (by simp [readProperties, spread]) (by simp [readProperties, spread])
      cases kind <;> cases form
      · cases computed : (Fields.get fields "computed").given <;> simp [fills, readsWhole, keySlot, computed, Slot.one] <;> decide
      · exact absurd (by simp [isA, isKind]) spread
  | _ => exact step_plain rfl rfl (by simp [readProperties]) (by simp)

theorem pattern_property_step (placed : Manner.patternProperty.Placed value) :
    Manner.patternProperty.Steps inLoop value := by
  cases value with
  | record id fields =>
    have own : (Value.record id fields).isFunction = false := by simpa [isFunction, kindIs] using placed.whole rfl
    by_cases isRest : ((Value.record id fields).kindIs fun kind => kind = .restElement || kind = .restProperty) = true
    · refine step_free own [("argument", .pattern)] (by simp) (by simp)
        (fun kind isKind => forall_mem_singleton.mpr fun slots form => ?_)
        (by simp [readPatternProperties, isRest]) (by simp [readPatternProperties, isRest])
      cases kind <;> cases form
      · simp [kindIs, isKind] at isRest
      · rfl
    · refine step_free own [("key", .key (Fields.get fields "computed").given), ("value", .pattern)] (by simp)
        (forall_mem_cons.mpr ⟨⟨keeps_key _, by simp⟩, by simp⟩)
        (fun kind isKind => forall_mem_singleton.mpr fun slots form => ?_)
        (by simp [readPatternProperties, isRest]) (by simp [readPatternProperties, isRest])
      cases kind <;> cases form
      · cases computed : (Fields.get fields "computed").given <;> simp [fills, readsWhole, keySlot, computed, Slot.one] <;> decide
      · exact absurd (by simp [kindIs, isKind]) isRest
  | _ => exact step_plain rfl rfl (by simp [readPatternProperties]) (by simp)

theorem pattern_step : Manner.pattern.Steps inLoop value := by
  cases value with
  | record id fields =>
    simp only [Manner.Steps, Manner.marks, Manner.Sound, Manner.form, readPattern, Stmt.marks, Stmt.Sound, Expr.marks, Expr.Sound]
    split
    · rename_i isKind
      exact step_node isKind false [("left", .pattern), ("right", .expr)]
        ⟨rfl, by simp, by simp, slots_one rfl rfl⟩ (by simp) (by simp)
    · rename_i isKind
      exact step_node isKind false [("properties", .objectPattern)]
        ⟨rfl, by simp, by simp, slots_one rfl rfl⟩ (by simp) (by simp)
    · rename_i isKind
      exact step_node isKind false [("elements", .patterns)]
        ⟨rfl, by simp, by simp, slots_one rfl rfl⟩ (by simp) (by simp)
    iterate 2
      · rename_i isKind
        exact step_node isKind false [("argument", .pattern)]
          ⟨rfl, by simp, by simp, forall_mem_singleton.mpr (by rintro _ ⟨⟩ <;> rfl)⟩ (by simp) (by simp)
    iterate 2
      · rename_i isKind
        exact member_step isKind rfl rfl rfl (slots_one rfl rfl)
    · refine .nothing fun takes => ⟨?_, trivial⟩
      obtain ⟨role, isRole, slots, kind, fits, isKind, _, form⟩ := takes.fits
      cases mem_singleton.mp isRole
      refine covers_quiet isKind (forall_mem_singleton.mpr fun slots form => ?_) takes
      cases kind <;> first | contradiction | cases form | (obtain rfl := identifier_slots form; exact .inr rfl)
  | _ => exact step_plain rfl rfl (by simp [readPattern]; split <;> simp) (by simp [readPattern, given])

theorem no_marks_after (left : Value) : (readReference left).marksAfter inLoop = [] := by
  cases left with
  | record id fields =>
    rw [readReference]
    split <;> rfl
  | _ => simp [readReference]

-- The left side of an assignment is a pattern only where the grammar has one.
section
variable (isKind : (Value.record id fields).kind = some kind) (quiet : kind.isInvocation = false)
  (whole : ∀ role ∈ manner.roles, ∀ slots, slotsOf role kind fields = some slots →
    [.one "left" (if (fields.get "operator").text? = some "=" then .target else .reference), .one "right" .expression] = slots)
include isKind quiet whole

theorem assignment_known (takes : manner.Takes (.record id fields)) :
    admits .maybe (if (fields.get "operator").text? = some "=" then .target else .reference) (fields.get "left") = true ∧
      Manner.expr.Takes (fields.get "right") ∧ ∃ role slots kind, Fits role id fields slots ∧ (Value.record id fields).kind = some kind ∧
        readsWhole false kind ["left", "right"] slots = true := by
  obtain ⟨role, isRole, slots, other, fits, isOther, _, form⟩ := takes.fits
  cases isKind.symm.trans isOther
  obtain rfl := whole role isRole slots form
  exact ⟨fits.maybe "left" _ (.inl rfl), ⟨.one, by simp, .expression, by simp, fits.one "right" .expression rfl⟩,
    role, _, kind, fits, isKind, by simp [readsWhole, quiet, Slot.one]⟩

variable (own : kind.isFunction = false) (simple : kind.roundFields = [])
include own simple

theorem assignment_parts (left : Manner) (free : ∀ inner, left.keeps inner = true)
    (isMarks : (left.marks inLoop (fields.get "left") ++ (readExpr (fields.get "right")).marks inLoop).Perm marks)
    (taken : admits .maybe (if (fields.get "operator").text? = some "=" then .target else .reference) (fields.get "left") = true →
      left.Takes (fields.get "left"))
    (isSound : left.Sound (fields.get "left") → (readExpr (fields.get "right")).Sound → sound) :
    Step inLoop manner (.record id fields) marks sound := by
  refine .node [("left", left), ("right", .expr)] false (own_of_kind isKind own) (by simp)
    (fun _ => forall_mem_cons.mpr ⟨free_placed free, forall_mem_singleton.mpr (free_placed fun _ => rfl)⟩) ?_ fun takes => ?_
  · rw [round_fields_eq isKind, simple]
    simpa using isMarks
  · obtain ⟨isLeft, right, known⟩ := assignment_known isKind quiet whole takes
    exact ⟨by simpa using ⟨taken isLeft, right⟩, known, by simpa using isSound⟩

theorem assignment_step :
    Step inLoop manner (.record id fields) ((readAssignment (.record id fields)).marks inLoop) (readAssignment (.record id fields)).Sound := by
  rw [readAssignment]
  split
  · rename_i broken
    refine .nothing fun takes => ?_
    obtain isNull | ⟨_, _, _, isRecord, _⟩ := admits_maybe (assignment_known isKind quiet whole takes).1
    · rw [isNull] at broken
      cases broken
    · rw [isRecord, Bool.and_comm] at broken
      cases broken
  split
  · rename_i logical
    refine assignment_parts isKind quiet whole own simple .reference (by simp) (by simp) (fun left => ?_) (by simp +contextual)
    have notPlain : (fields.get "operator").text? ≠ some "=" := by
      intro plain
      rw [isLogicalAssignment, plain] at logical
      cases logical
    rw [if_neg notPlain] at left
    exact ⟨.maybe, by simp, .reference, by simp, left⟩
  split
  · rename_i isPattern
    refine assignment_parts isKind quiet whole own simple .pattern (by simp) (by simpa using perm_append_comm) (fun left => ?_)
      (by simp +contextual)
    have plain : (fields.get "operator").text? = some "=" := by
      by_contra notPlain
      rw [if_neg notPlain] at left
      exact reference_no_pattern left isPattern
    rw [if_pos plain] at left
    exact ⟨.maybe, by simp, .pattern, by simp, target_pattern left⟩
  · rename_i notPattern
    refine assignment_parts isKind quiet whole own simple .reference (by simp) (by simp [no_marks_after]) (fun left => ?_)
      (by simp +contextual)
    refine ⟨.maybe, by simp, .reference, by simp, ?_⟩
    split at left
    · exact target_reference left notPattern
    · exact left

end

theorem operand_step {key : String} (isKind : (Value.record id fields).kind = some kind) (operand : operandField kind = some key) :
    Step inLoop .expr (.record id fields) (marksOfAll inLoop (readOperands (Fields.get fields key)))
      (SoundAll (readOperands (Fields.get fields key))) := by
  have plain : kind.isFunction = false ∧ kind.roundFields = [] := by cases kind <;> cases operand <;> exact ⟨rfl, rfl⟩
  refine step_node isKind false [(key, .operands)] ⟨plain.1, by simp, by simp, forall_mem_singleton.mpr fun slots form => ?_⟩
    (by simp [plain.2, -Kind.roundFields]) (by simp)
  cases kind <;> cases operand <;> cases form <;> rfl

theorem expr_step : Manner.expr.Steps inLoop value := by
  cases value with
  | record id fields =>
    simp only [Manner.Steps, Manner.marks, Manner.Sound, Manner.form, readExpr, Stmt.marks, Stmt.Sound]
    cases filed : (Value.record id fields).filedKind with
    | error fault =>
      refine .nothing fun takes => ?_
      obtain ⟨_, _, _, _, _, _, known, _⟩ := takes.fits
      cases filed.symm.trans known
    | ok found =>
      have isKind := filed_kind filed
      cases found with
      | none => exact unmodelled_step (by simp [isFunction, kindIs, isKind]) (takes_kinded isKind)
      | some kind =>
        dsimp only
        by_cases leaf : isLeaf kind = true
        · rw [if_pos leaf]
          exact .nothing fun takes => ⟨covers_quiet isKind (forall_mem_singleton.mpr fun slots form => leaf_slots leaf form) takes, trivial⟩
        rw [if_neg leaf]
        by_cases isClass : kind.isClass = true
        · rw [if_pos isClass]
          cases kind <;> cases isClass <;> exact step_node isKind false [("superClass", .expr)]
            ⟨rfl, by simp, by simp, forall_mem_singleton.mpr (by rintro _ ⟨⟩ <;> rfl)⟩ (by simp) (by simp)
        rw [if_neg isClass]
        by_cases isWrapper : kind.isWrapper = true
        · rw [if_pos isWrapper]
          cases kind <;> cases isWrapper <;> exact step_node isKind false [("expression", .expr)]
            ⟨rfl, by simp, by simp, forall_mem_singleton.mpr (by rintro _ ⟨⟩)⟩ (by simp) (by simp)
        rw [if_neg isWrapper]
        by_cases isInvocation : kind.isInvocation = true
        · rw [if_pos isInvocation]
          cases kind <;> cases isInvocation <;> exact call_step isKind rfl rfl (slots_one rfl rfl)
        rw [if_neg isInvocation]
        by_cases isMember : kind.isMember = true
        · rw [if_pos isMember, readMember]
          cases kind <;> cases isMember <;> exact member_step isKind rfl rfl rfl (slots_one rfl rfl)
        rw [if_neg isMember]
        split
        · exact step_node isKind false [("expression", .expr)]
            ⟨rfl, by simp, by simp, slots_one rfl rfl⟩ (by simp) (by simp)
        · exact step_node isKind false [("left", .expr), ("right", .expr)]
            ⟨rfl, by simp, by simp, slots_one rfl rfl⟩ (by simp) (by simp)
        · exact step_node isKind false [("test", .expr), ("consequent", .expr), ("alternate", .expr)]
            ⟨rfl, by simp, by simp, slots_one rfl rfl⟩ (by simp) (by simp)
        · exact assignment_step isKind rfl (slots_one rfl rfl) rfl rfl
        · exact step_node isKind false [("argument", .expr)]
            ⟨rfl, by simp, by simp, slots_one rfl rfl⟩ (by simp) (by simp)
        · exact step_node isKind false [("properties", .object)]
            ⟨rfl, by simp, by simp, slots_one rfl rfl⟩ (by simp) (by simp)
        · exact step_node isKind false [("openingElement", .attributes), ("children", .exprs)]
            ⟨rfl, by simp, by simp, slots_one rfl rfl⟩ (by simp [marks_of_all_append]) (by simp [sound_all_append])
        · exact step_node isKind false [("left", .operands), ("right", .operands)]
            ⟨rfl, by simp, by simp, slots_one rfl rfl⟩ (by simp [marks_of_all_append]) (by simp [sound_all_append])
        · exact step_node isKind false [("tag", .operands), ("quasi", .operands)]
            ⟨rfl, by simp, by simp, slots_one rfl rfl⟩ (by simp [marks_of_all_append]) (by simp [sound_all_append])
        iterate 4
          · exact .same .pattern (by decide) (free_placed fun _ => rfl) (by simp) fun takes =>
              absurd takes (takes_kind isKind (forall_mem_singleton.mpr rfl))
        split
        · rename_i operand
          exact operand_step isKind operand
        · rename_i noOperand
          have own : kind.isFunction = false := by cases kind <;> first | rfl | exact absurd rfl leaf
          refine unmodelled_step (own_of_kind isKind own) (takes_kind isKind (forall_mem_singleton.mpr ?_))
          cases kind <;> first | rfl | contradiction
  | _ => exact step_plain rfl rfl (by simp [readExpr]) (by simp [readExpr])

end HookLint.Flow
