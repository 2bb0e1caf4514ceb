import HookLint.Proofs.Scope.Hoisting
import HookLint.Proofs.Tree.Enclosing

namespace HookLint.Survey

open List Value

variable {key : String} {kind : Kind} {value : Value}

def isName (value : Value) : Bool := value.kindIs fun kind => kind = .identifier || kind = .jsxIdentifier

-- What an export without a source hands on.
def Exported (id : Nat) (fields : Fields) (identifier : Value) : Prop :=
  (Value.record id fields).isA .exportNamedDeclaration = true ∧ (fields.get "declaration").given = false ∧
    (fields.get "source").given = false ∧
    ∃ specifier ∈ (fields.get "specifiers").parts, identifier = specifier.get "local"

mutual
-- A part of the outline of a record works on what is reached from the record.
def Part.Stays (id : Nat) (fields : Fields) : Part → Prop
  | .visit _ node => Reached (.record id fields) node
  | .refer _ identifier _ =>
    (identifier = .record id fields ∨ Reached (.record id fields) identifier) ∧ (isName identifier = true ∨ Exported id fields identifier)
  | .writeUndeclared identifier => identifier = .record id fields ∧ isName identifier = true
  | .declare declarations => ∀ made, declarations = .ok made → ∀ declaration ∈ made, Among (Value.record id fields).records declaration
  | .declareMissing _ definition identifiers =>
    definition ∈ (Value.record id fields).records ∧
      ∀ found, identifiers = .ok found → ∀ identifier ∈ found, identifier ∈ (Value.record id fields).records
  | .assign node => Reached (.record id fields) node ∧ node.isFunction = false
  | .check _ => True
  | .scope _ node parts => node = .record id fields ∧ AllStay id fields parts
def AllStay (id : Nat) (fields : Fields) : List Part → Prop
  | [] => True
  | part :: rest => part.Stays id fields ∧ AllStay id fields rest
end

section
variable {id : Nat} {fields : Fields}

theorem all_stay_iff (parts : List Part) : AllStay id fields parts ↔ ∀ part ∈ parts, part.Stays id fields := by
  induction parts with
  | nil => exact ⟨fun _ part member => absurd member not_mem_nil, fun _ => trivial⟩
  | cons part rest ih => rw [AllStay, ih, forall_mem_cons]

theorem all_stay_append {first second : List Part} (early : AllStay id fields first) (late : AllStay id fields second) :
    AllStay id fields (first ++ second) := by
  rw [all_stay_iff] at *
  exact forall_mem_append.mpr ⟨early, late⟩

theorem if_stays {test : Prop} [Decidable test] {first second : List Part} (early : test → AllStay id fields first)
    (late : ¬ test → AllStay id fields second) : AllStay id fields (if test then first else second) := by
  split
  · next holds => exact early holds
  · next fails => exact late fails

theorem visits_stay (role : Role) {nodes : List Value} (reached : ∀ node ∈ nodes, Reached (.record id fields) node) :
    AllStay id fields (visits role nodes) := by
  rw [all_stay_iff]
  intro part member
  obtain ⟨node, isNode, rfl⟩ := mem_map.mp member
  exact reached node isNode

theorem flat_map_stay {α : Type} {items : List α} {make : α → List Part} (each : ∀ item ∈ items, AllStay id fields (make item)) :
    AllStay id fields (items.flatMap make) := by
  rw [all_stay_iff]
  intro part member
  obtain ⟨item, isItem, inItem⟩ := mem_flatMap.mp member
  exact (all_stay_iff _).mp (each item isItem) part inItem

-- What is exposed is reached, and so is what stands in it.
theorem exposed_get {outer : Value} (isPart : outer ∈ (fields.get key).parts)
    (shown : outer ∈ exposed (.record id fields)) (inner : String) : Reached (.record id fields) (outer.get inner) :=
  .inner outer inner (reached_part isPart) fun _ => shown

theorem property_parts_stay (role : Role) {property : Value} (isPart : property ∈ (fields.get "properties").parts)
    (isKind : (Value.record id fields).kind = some .objectPattern) : AllStay id fields (propertyParts role property) := by
  have shown : property ∈ exposed (.record id fields) := by
    rw [exposed, isKind]
    exact isPart
  cases property with
  | record inner others =>
    have field := exposed_get isPart shown
    refine if_stays (fun _ => ⟨field "argument", trivial⟩) fun _ => all_stay_append ?_ ⟨field "value", trivial⟩
    exact if_stays (fun _ => ⟨field "key", trivial⟩) fun _ => trivial
  | _ => exact ⟨trivial, trivial⟩

theorem reached_among (reached : Reached (.record id fields) value) (isRecord : value.isRecord = true) :
    value ∈ (Value.record id fields).records :=
  mem_cons_of_mem _ ((reached_records_inside reached).subset (mem_records_self isRecord))

theorem declarator_parts_stay (kind : BindingKind) {declarator : Value} (isPart : declarator ∈ (Fields.get fields "declarations").parts)
    (isKind : (Value.record id fields).kind = some .variableDeclaration) : AllStay id fields (declaratorParts kind declarator) := by
  have shown : declarator ∈ exposed (.record id fields) := by
    rw [exposed, isKind]
    exact isPart
  cases declarator with
  | record inner others =>
    have pattern : Reached (.record id fields) (Fields.get others "id") := exposed_get isPart shown "id"
    refine ⟨⟨reached_among (reached_part isPart) rfl, ?_⟩, pattern, exposed_get isPart shown "init", trivial⟩
    intro found run identifier member
    have within := (pattern_identifiers_inside _ found identifier run member).2
    exact mem_cons_of_mem _ ((reached_records_inside pattern).subset within)
  | _ => exact ⟨trivial, trivial⟩

theorem loop_parts_stay {field : String × Value} (isField : field ∈ fields) : AllStay id fields (loopParts field) := by
  have reached : Reached (.record id fields) field.2 := .field field isField
  exact if_stays (fun _ => trivial) fun _ => if_stays (fun _ => ⟨trivial, reached, trivial⟩) fun _ => ⟨reached, trivial⟩

theorem case_parts_stay {branch : Value} (isPart : branch ∈ (fields.get "cases").parts)
    (isKind : (Value.record id fields).kind = some .switchStatement) : AllStay id fields (caseParts branch) := by
  have shown : branch ∈ exposed (.record id fields) := by
    rw [exposed, isKind]
    exact isPart
  cases branch with
  | record inner others =>
    refine ⟨exposed_get isPart shown "test", visits_stay .value fun node isNode => ?_⟩
    exact .innerItem (.record inner others) "consequent" node (reached_part isPart) (fun _ => shown) isNode
  | _ => exact ⟨trivial, trivial⟩

theorem member_parts_stay (shown : fields.get "body" ∈ exposed (.record id fields)) :
    AllStay id fields (memberParts (fields.get "body")) := by
  have reached : Reached (.record id fields) (fields.get "body") := reached_get "body"
  generalize fields.get "body" = body at reached shown
  cases body with
  | record inner others =>
    refine ⟨trivial, visits_stay .value fun node isNode => ?_⟩
    exact .innerItem (.record inner others) "body" node reached (fun _ => shown) isNode
  | _ =>
    simp only [memberParts]
    exact if_stays (fun _ => ⟨trivial, trivial⟩) fun _ => trivial

theorem export_parts_stay {specifier : Value} (isPart : specifier ∈ (fields.get "specifiers").parts)
    (isExport : (Value.record id fields).isA .exportNamedDeclaration = true)
    (undeclared : (fields.get "declaration").given = false) (unsourced : (fields.get "source").given = false) :
    AllStay id fields (exportParts specifier) := by
  have shown : specifier ∈ exposed (.record id fields) := by
    rw [exposed, beq_iff_eq.mp isExport]
    exact mem_append_left _ isPart
  cases specifier with
  | record inner others =>
    exact ⟨⟨.inr (exposed_get isPart shown "local"), .inr ⟨isExport, undeclared, unsourced, _, isPart, rfl⟩⟩, trivial⟩
  | _ => exact ⟨trivial, trivial⟩

theorem is_name_of_is_a (isKind : value.isA kind = true)
    (isName : kind = .identifier ∨ kind = .jsxIdentifier) : Survey.isName value = true := by
  rw [isA, beq_iff_eq] at isKind
  rw [Survey.isName, kindIs, isKind]
  rcases isName with rfl | rfl
  · rfl
  · rfl

theorem not_function_of_is_a (isKind : value.isA kind = true) (other : kind.isFunction = false) : value.isFunction = false := by
  rw [isFunction, kindIs, beq_iff_eq.mp isKind, Option.any_some, other]

theorem markup_root_reached (name : Value) (reached : Reached (.record id fields) name) : Reached (.record id fields) (markupRoot name) := by
  match name with
  | .record inner others =>
    rw [markupRoot]
    split
    · next isMember =>
        exact markup_root_reached _ (.inner (.record inner others) "object" reached fun opens => by
          rw [not_function_of_is_a isMember rfl] at opens
          cases opens)
    · exact reached
  | .null | .bool _ | .int _ | .float _ | .str _ | .list _ =>
    rw [markupRoot]
    · exact reached
    · rintro _ _ ⟨⟩
termination_by sizeOf name
decreasing_by exact sizeOf_get_record ..

theorem element_parts_stay {name : Value} (reached : Reached (.record id fields) name) : AllStay id fields (elementParts name) := by
  refine if_stays (fun isName => ⟨⟨.inr reached, .inl (is_name_of_is_a isName (.inr rfl))⟩, trivial⟩) fun _ =>
    if_stays (fun isMember => ?_) fun _ => trivial
  have isName := (Bool.and_eq_true_iff.mp isMember).2
  exact ⟨⟨.inr (markup_root_reached name reached), .inl (is_name_of_is_a isName (.inr rfl))⟩, trivial⟩

theorem reached_items {record : Value} (present : record ∈ recordsOfItems (fields.get key).parts) :
    record ∈ (Value.record id fields).records :=
  mem_cons_of_mem _ ((get_records_sublist fields key).subset ((parts_records_sublist _).subset present))

theorem lexicals_stay : (Part.declare (hoistedLexicals (fields.get key).parts)).Stays id fields :=
  fun _ run _ member => (hoisted_lexicals_among run member).mono fun _ present => reached_items present

theorem pattern_declarations_stay {kind : BindingKind} {pattern : Value} (reached : Reached (.record id fields) pattern) :
    (Part.declare (patternDeclarations kind (.record id fields) pattern)).Stays id fields := by
  intro declarations run declaration member
  obtain ⟨identifier, within, declares⟩ := pattern_declarations_declare run member
  exact declares_among declares (mem_cons_of_mem _ ((reached_records_inside reached).subset within)) mem_cons_self

theorem own_declaration_stays {kind : BindingKind} {test : Bool} :
    (Part.declare (if test then Declaration.of kind (.record id fields) (fields.get key) else .ok [])).Stays id fields := by
  intro declarations run declaration member
  cases test with
  | false =>
    cases run
    cases member
  | true =>
    have declares := declaration_of_declares run member
    have isRecord := is_record_of_is_a declares.isName
    exact declares_among declares (reached_among (reached_get key) isRecord) mem_cons_self

theorem function_body_parts_stay {body : Value} (reached : Reached (.record id fields) body) (isBlock : body.isA .blockStatement = true) :
    AllStay id fields (functionBodyParts body) := by
  cases body with
  | record inner others =>
    have inside := (reached_records_inside reached).subset
    have within {key : String} {record : Value} (present : record ∈ (Fields.get others key).records) :
        record ∈ (Value.record id fields).records :=
      mem_cons_of_mem _ (inside (mem_cons_of_mem _ ((Value.get_records_sublist others key).subset present)))
    refine ⟨fun made run declaration member => (hoisted_vars_among run member).mono fun _ present => within present,
      fun made run declaration member => (hoisted_lexicals_among run member).mono fun _ present =>
        within ((Value.parts_records_sublist _).subset present), ⟨reached, not_function_of_is_a isBlock rfl⟩,
      visits_stay .value fun node isNode => ?_⟩
    refine .innerItem (.record inner others) "body" node reached (fun opens => ?_) isNode
    rw [not_function_of_is_a isBlock rfl] at opens
    cases opens
  | _ => trivial

theorem case_statements_inside {cases statements : List Value} (run : caseStatements cases = .ok statements) :
    recordsOfItems statements ⊆ recordsOfItems cases := by
  rw [caseStatements] at run
  obtain ⟨groups, grouped, run⟩ := bind_ok run
  cases run
  intro record present
  rw [records_of_items_eq] at present
  obtain ⟨statement, isStatement, inside⟩ := mem_flatMap.mp present
  obtain ⟨group, isGroup, inGroup⟩ := mem_flatten.mp isStatement
  obtain ⟨branch, isBranch, made⟩ := mem_of_map_all grouped isGroup
  obtain ⟨consequent, asked, made⟩ := bind_ok made
  obtain ⟨_, rfl⟩ := ask_ok asked
  have held := items_if_given_records made ((item_records_inside inGroup).subset inside)
  exact (item_records_inside isBranch).subset ((get_records_inside branch "consequent").subset held)

theorem cases_declared_stay :
    (Part.declare (caseStatements (fields.get "cases").parts >>= hoistedLexicals)).Stays id fields := by
  intro declarations run declaration member
  obtain ⟨statements, isStatements, run⟩ := bind_ok run
  exact (hoisted_lexicals_among run member).mono fun _ present => reached_items (case_statements_inside isStatements present)

theorem head_declared_stays {head : Value} (reached : Reached (.record id fields) head) :
    (Part.declare (hoistedLexicals [head])).Stays id fields := by
  intro declarations run declaration member
  refine (hoisted_lexicals_among run member).mono fun record present => ?_
  rw [recordsOfItems, recordsOfItems, append_nil] at present
  exact mem_cons_of_mem _ ((reached_records_inside reached).subset present)

-- The kinds of nodes of some forms.
def Form.kinds : Form → Option Kind → Prop
  | .name, kind => kind = some .identifier
  | .markupName, kind => kind = some .jsxIdentifier
  | .exported, kind => kind = some .exportNamedDeclaration
  | .declaration, kind => kind = some .variableDeclaration
  | .branches, kind => kind = some .switchStatement
  | .classLike, kind => kind = some .classDeclaration ∨ kind = some .classExpression ∨ kind = some .classStep
  | _, _ => True

theorem form_kind (kind : Option Kind) : (Form.of kind).kinds kind := by
  unfold Form.of
  split <;> simp [Form.kinds]

theorem value_parts_stay : AllStay id fields (valueParts id fields) := by
  rw [valueParts]
  generalize isForm : Form.of (Value.record id fields).kind = form
  have kinds := form_kind (Value.record id fields).kind
  rw [isForm] at kinds
  cases form with
  | name => exact ⟨⟨.inl rfl, .inl (is_name_of_is_a (is_a_of_kind kinds) (.inl rfl))⟩, trivial⟩
  | markupName => exact ⟨⟨.inl rfl, .inl (is_name_of_is_a (is_a_of_kind kinds) (.inr rfl))⟩, trivial⟩
  | opening => exact all_stay_append (element_parts_stay (reached_get _)) ⟨trivial, visits_stay .value fun _ => reached_part⟩
  | silent => trivial
  | failing fault => exact ⟨trivial, trivial⟩
  | markupValue | labeled => exact ⟨reached_get _, trivial⟩
  | member => exact ⟨reached_get _, if_stays (fun _ => ⟨reached_get _, trivial⟩) fun _ => trivial⟩
  | property =>
    exact all_stay_append (if_stays (fun _ => ⟨reached_get _, trivial⟩) fun _ => trivial) ⟨reached_get _, trivial⟩
  | exported =>
    refine if_stays (fun _ => ⟨reached_get _, trivial⟩) fun undeclared => if_stays (fun _ => trivial) fun unsourced => ?_
    exact ⟨trivial, flat_map_stay fun specifier isPart =>
      export_parts_stay isPart (is_a_of_kind kinds) (Bool.eq_false_iff.mpr undeclared) (Bool.eq_false_iff.mpr unsourced)⟩
  | declaration => exact ⟨trivial, flat_map_stay fun _ isPart => declarator_parts_stay _ isPart kinds⟩
  | assignment =>
    refine ⟨trivial, ?_, reached_get _, trivial⟩
    split
    · next isName => exact ⟨.inr (reached_get _), .inl (is_name_of_is_a isName (.inl rfl))⟩
    · exact reached_get _
  | update =>
    refine ⟨?_, trivial⟩
    split
    · next isName => exact ⟨.inr (reached_get _), .inl (is_name_of_is_a isName (.inl rfl))⟩
    · exact reached_get _
  | function =>
    refine ⟨⟨rfl, all_stay_append (all_stay_append ⟨own_declaration_stays, trivial, ?_⟩
      (visits_stay .binding fun _ => reached_part)) ?_⟩, trivial⟩
    · rw [all_stay_iff]
      intro part member
      obtain ⟨pattern, isPart, rfl⟩ := mem_map.mp member
      exact pattern_declarations_stay (reached_part isPart)
    · exact if_stays (function_body_parts_stay (reached_get _)) fun _ => ⟨reached_get _, trivial⟩
  | classLike =>
    refine ⟨reached_get _, ⟨rfl, own_declaration_stays, member_parts_stay ?_⟩, trivial⟩
    rcases kinds with isKind | isKind | isKind <;> rw [exposed, isKind] <;> exact mem_singleton.mpr rfl
  | block => exact ⟨⟨rfl, trivial, lexicals_stay, visits_stay .value fun _ => reached_part⟩, trivial⟩
  | loop =>
    have each : AllStay id fields (fields.flatMap loopParts) := flat_map_stay fun _ isField => loop_parts_stay isField
    rw [formParts]
    generalize (if (Value.record id fields).isA .forStatement = true then "init" else "left") = key
    exact if_stays (fun _ => ⟨⟨rfl, head_declared_stays (reached_get _), each⟩, trivial⟩) fun _ => each
  | branches =>
    exact ⟨reached_get _, ⟨rfl, trivial, cases_declared_stay, flat_map_stay fun _ isPart => case_parts_stay isPart kinds⟩, trivial⟩
  | handler => exact ⟨⟨rfl, pattern_declarations_stay (reached_get _), reached_get _, reached_get _, trivial⟩, trivial⟩
  | plain =>
    refine visits_stay .value fun node isChild => ?_
    obtain ⟨field, isField, inside⟩ := mem_child_nodes.mp isChild
    unfold fieldNodes at inside
    split at inside
    · cases inside
    split at inside
    · rw [mem_singleton.mp inside]
      exact .field field isField
    · split at inside
      · next items isList => exact .item field node isField (isList ▸ (mem_filter.mp inside).1)
      · cases inside

theorem pattern_parts_stay (role : Role) : AllStay id fields (patternParts role id fields) := by
  rw [patternParts]
  split
  · next isKind =>
      exact if_stays (fun _ => ⟨⟨rfl, is_name_of_is_a (is_a_of_kind isKind) (.inl rfl)⟩, trivial⟩) fun _ => trivial
  · exact ⟨reached_get _, reached_get _, trivial⟩
  · next isKind => exact ⟨trivial, flat_map_stay fun _ isPart => property_parts_stay role isPart isKind⟩
  · exact ⟨trivial, visits_stay role fun _ => reached_part⟩
  · exact ⟨reached_get _, trivial⟩

theorem outline_stays (role : Role) : AllStay id fields (outline role (.record id fields)) :=
  if_stays (fun _ => pattern_parts_stay role) fun _ => if_stays (fun _ => trivial) fun _ => value_parts_stay

end

end HookLint.Survey
