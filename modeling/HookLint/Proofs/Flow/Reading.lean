import HookLint.Proofs.Flow.Spelling

namespace HookLint.Flow

open List Value Option

theorem kind_record (node : Value) (kind : Kind) (known : node.kind = some kind) :
    ∃ id fields, node = .record id fields ∧ (Value.record id fields).filedKind = .ok (some kind) := by
  cases node with
  | record id fields =>
    refine ⟨id, fields, rfl, ?_⟩
    have text : ∃ name, (Value.record id fields).get "type" = .str name := by
      simp only [Value.kind, Value.kind?, bind_eq_some_iff] at known
      obtain ⟨name, isText, _⟩ := known
      cases type : (Value.record id fields).get "type" with
      | str text => exact ⟨text, rfl⟩
      | _ => simp [type, Value.text?] at isText
    obtain ⟨name, isText⟩ := text
    simp only [filedKind, isText, Value.key, Value.key?, known]
    rfl
  | _ => cases known

theorem flagged_given (node : Value) (key : String) (flag : Bool) (flagged : Flagged node key flag) : (node.get key).given = flag := by
  rcases flagged with set | ⟨missing, rfl⟩
  · rw [set]
    rfl
  · rw [missing]
    rfl

theorem read_exprs_append (items others : List Value) : readExprs (items ++ others) = readExprs items ++ readExprs others := by
  induction items with
  | nil => simp [readExprs]
  | cons item items ih => simp [readExprs, ih]

theorem read_null : readExpr .null = .leaf := by simp [readExpr]

theorem read_atom (id : Nat) (fields : Fields) (kind : Kind) (filed : (Value.record id fields).filedKind = .ok (some kind))
    (atom : isAtom kind = true) : readExpr (.record id fields) = .leaf := by
  have leaf : isLeaf kind = true := by cases kind <;> first | rfl | cases atom
  rw [readExpr]
  simp only [filed, leaf, if_true]

theorem read_parts (id : Nat) (fields : Fields) (kind : Kind) (key : String) (filed : (Value.record id fields).filedKind = .ok (some kind))
    (field : listField kind = some key ∨ partField kind = some key) :
    readExpr (.record id fields) = .sequence (readOperands ((Value.record id fields).get key)) := by
  have operand : operandField kind = some key := by rcases field with field | field <;> cases kind <;> cases field <;> rfl
  rw [readExpr]
  simp only [filed]
  cases kind <;> cases operand <;> rfl

theorem logical_outcome (operator : String) (runs : Outcome) (runsOf : operatorRuns operator = some runs) :
    logicalOutcome (.str operator) = runs := by
  unfold operatorRuns at runsOf
  split at runsOf <;> cases runsOf <;> rfl

theorem ensure_list (items : List Value) (parts : List Expr) : checked (Value.list items).ensureItems parts = parts := rfl

theorem read_list {value : Value} {items : List Value} {parts : List Expr} (list : value = .list items) (read : readExprs items = parts) :
    checked value.ensureItems (readExprs value.parts) = parts := by
  rw [list, ensure_list, Value.parts, read]

-- A list of parts is read part by part; a single part is read as it is, since no
-- expression is a list.
theorem read_single (node : Value) (single : node = .null ∨ node.isRecord = true) : readOperands node = readExprs [node] := by
  rcases single with rfl | record
  · simp [readOperands, readExprs]
  · cases node with
    | record id fields => simp [readOperands, readExprs]
    | _ => cases record

theorem kind_is_record (node : Value) (kind : Kind) (known : node.kind = some kind) : node.isRecord = true := by
  obtain ⟨id, fields, rfl, _⟩ := kind_record node kind known
  rfl

theorem parts_record (node : Value) (items : List Value) (inOrder : PartsInOrder node items) : node.isRecord = true := by
  rcases inOrder with ⟨kind, _, known, _⟩ | ⟨kind, _, known, _⟩ | ⟨known, _⟩ | ⟨known, _⟩
  all_goals exact kind_is_record node _ known

theorem spelled_record (expr : Expr) (node : Value) (spelled : expr.Spelled node) : node.isRecord = true := by
  cases expr with
  | leaf =>
    simp only [Expr.Spelled, Value.kindIs, Option.any_eq_true] at spelled
    obtain ⟨kind, known, _⟩ := spelled
    exact kind_is_record node kind known
  | sequence parts =>
    obtain ⟨items, parts, _⟩ := spelled
    exact parts_record node items parts
  | call =>
    rcases spelled.2.1 with known | known <;> exact kind_is_record node _ known
  | member | chain | logical | conditional | assign | assignIf | object =>
    exact kind_is_record node _ spelled.1
  | destructure | region | broken => simp only [Expr.Spelled] at spelled

theorem read_parts_in_order (node : Value) (items : List Value) (inOrder : PartsInOrder node items)
    (single : ∀ item ∈ items, item = .null ∨ item.isRecord = true) : readExpr node = .sequence (readExprs items) := by
  rcases inOrder with ⟨kind, key, known, field, list⟩ | ⟨kind, key, known, field, rfl⟩ | ⟨known, rfl⟩ |
    ⟨known, attributes, children, listAttributes, listChildren, rfl⟩
  · obtain ⟨id, fields, rfl, filed⟩ := kind_record node kind known
    rw [read_parts id fields kind key filed (.inl field), list, readOperands]
  · obtain ⟨id, fields, rfl, filed⟩ := kind_record node kind known
    rw [read_parts id fields kind key filed (.inr field), read_single _ (single _ (by simp))]
  · obtain ⟨id, fields, rfl, filed⟩ := kind_record node _ known
    have left := read_single ((Value.record id fields).get "left") (single _ (by simp))
    have right := read_single ((Value.record id fields).get "right") (single _ (by simp))
    rw [readExpr]
    simp only [filed]
    show Expr.sequence (readOperands ((Value.record id fields).get "left") ++ readOperands ((Value.record id fields).get "right")) = _
    rw [left, right, ← read_exprs_append]
    rfl
  · obtain ⟨id, fields, rfl, filed⟩ := kind_record node _ known
    have readsAttributes : readAttributes ((Value.record id fields).get "openingElement") = readExprs attributes := by
      cases opening : (Value.record id fields).get "openingElement" with
      | record id openingFields =>
        rw [opening] at listAttributes
        rw [readAttributes]
        exact read_list listAttributes rfl
      | _ =>
        rw [opening] at listAttributes
        cases listAttributes
    rw [readExpr, read_exprs_append]
    simp only [filed]
    exact (congrArg₂ (fun early late => Expr.sequence (early ++ late)) readsAttributes (read_list listChildren rfl) :)

theorem spelled_all_single : ∀ (exprs : List Expr) (items : List Value), SpelledAll exprs items →
    ∀ item ∈ items, item = .null ∨ item.isRecord = true
  | [], items, spelled => by
    simp only [SpelledAll] at spelled
    simp [spelled]
  | expr :: rest, items, spelled => by
    obtain ⟨item, others, rfl, spelled, spelledRest⟩ := spelled
    intro other member
    rcases mem_cons.mp member with rfl | later
    · exact spelled.imp And.left (spelled_record expr other)
    · exact spelled_all_single rest others spelledRest other later

theorem ensure_patterns (items : List Value) (patterns : List Pattern) :
    checkedPatterns (Value.list items).ensureRecordsIfGiven patterns = patterns := rfl

theorem read_name (node : Value) (name : node.kind = some .identifier) : readPattern node = .plain := by
  obtain ⟨id, fields, rfl, _⟩ := kind_record node _ name
  rw [readPattern]
  simp only [name]

theorem target_record (target : Target) (node : Value) (spelled : target.Spelled node) : node.isRecord = true := by
  cases target with
  | plain =>
    exact kind_is_record node _ spelled
  | member =>
    exact kind_is_record node _ spelled.1
  | pattern =>
    rcases spelled.1 with known | known <;> exact kind_is_record node _ known

theorem reference_kind (target : Target) (node : Value) (spelled : target.Spelled node)
    (reference : ∀ pattern, target ≠ .pattern pattern) : node.kindIs isTargetPattern = false := by
  cases target with
  | plain =>
    simp only [Target.Spelled] at spelled
    simp [kindIs, spelled, isTargetPattern]
  | member =>
    simp [kindIs, spelled.1, isTargetPattern]
  | pattern pattern => exact absurd rfl (reference pattern)

theorem logical_assignment (operator : String) (logical : operator ∈ ["&&=", "||=", "??="]) :
    isLogicalAssignment (.str operator) = true := by
  simp only [mem_cons, not_mem_nil, or_false] at logical
  rcases logical with rfl | rfl | rfl <;> rfl

theorem not_logical_assignment (operator : String) (plain : operator ∉ ["&&=", "||=", "??="]) :
    isLogicalAssignment (.str operator) = false := by
  simp only [mem_cons, not_mem_nil, or_false, not_or] at plain
  unfold isLogicalAssignment
  split
  · rename_i same
    exact absurd (Option.some.inj same) plain.1
  · rename_i same
    exact absurd (Option.some.inj same) plain.2.1
  · rename_i same
    exact absurd (Option.some.inj same) plain.2.2
  · rfl

theorem read_assignment (id : Nat) (fields : Fields) (record : ((Value.record id fields).get "left").isRecord = true) :
    readAssignment (.record id fields) =
      if isLogicalAssignment ((Value.record id fields).get "operator") = true then
        .assignIf (logicalOutcome ((Value.record id fields).get "operator"))
          (readReference ((Value.record id fields).get "left")) (readExpr ((Value.record id fields).get "right"))
      else if ((Value.record id fields).get "left").kindIs isTargetPattern = true then
        .assign (.pattern (readPattern ((Value.record id fields).get "left"))) (readExpr ((Value.record id fields).get "right"))
      else
        .assign (readReference ((Value.record id fields).get "left")) (readExpr ((Value.record id fields).get "right")) := by
  have there : ((fields.get "left").given && !(fields.get "left").isRecord) = false := by
    have record : (fields.get "left").isRecord = true := record
    simp [record]
  rw [readAssignment]
  simp only [there, Bool.false_eq_true, if_false]
  rfl

mutual
theorem Expr.read : ∀ (expr : Expr) (node : Value), expr.Spelled node → readExpr node = expr
  | .leaf, node, spelled => by
    simp only [Expr.Spelled, Value.kindIs, Option.any_eq_true] at spelled
    obtain ⟨kind, known, atom⟩ := spelled
    obtain ⟨id, fields, rfl, filed⟩ := kind_record node kind known
    exact read_atom id fields kind filed atom
  | .sequence parts, node, spelled => by
    obtain ⟨items, inOrder, spelled⟩ := spelled
    rw [read_parts_in_order node items inOrder (spelled_all_single parts items spelled), read_all parts items spelled]
  | .call call isOptional callee arguments, node, spelled => by
    obtain ⟨rfl, invocation, optional, spelledCallee, items, list, spelledArguments⟩ := spelled
    have readArguments := read_list list (read_all arguments items spelledArguments)
    rcases invocation with known | known <;>
    · obtain ⟨id, fields, rfl, filed⟩ := kind_record call _ known
      rw [readExpr]
      simp only [filed]
      refine (readCall.eq_def _).trans ?_
      exact congr (congrArg₂ (Expr.call _) (flagged_given _ _ _ optional) (Expr.read callee _ spelledCallee)) readArguments
  | .member isOptional object key, node, spelled => by
    obtain ⟨known, optional, spelledObject, spelledKey⟩ := spelled
    obtain ⟨id, fields, rfl, filed⟩ := kind_record node _ known
    rw [readExpr]
    simp only [filed]
    refine (readMember.eq_def _).trans ?_
    exact congr (congrArg₂ Expr.member (flagged_given _ _ _ optional) (Expr.read object _ spelledObject)) (read_key key _ "property" spelledKey)
  | .chain inner, node, spelled => by
    obtain ⟨known, spelled⟩ := spelled
    obtain ⟨id, fields, rfl, filed⟩ := kind_record node _ known
    rw [readExpr]
    simp only [filed]
    exact congrArg Expr.chain (Expr.read inner _ spelled)
  | .logical runs left right, node, spelled => by
    obtain ⟨known, ⟨operator, isLogical, isOperator, runsOf⟩, spelledLeft, spelledRight⟩ := spelled
    obtain ⟨id, fields, rfl, filed⟩ := kind_record node _ known
    have outcome := (congrArg logicalOutcome isOperator).trans (logical_outcome operator runs runsOf)
    rw [readExpr]
    simp only [filed]
    exact (congr (congrArg₂ Expr.logical outcome (Expr.read left _ spelledLeft)) (Expr.read right _ spelledRight) :)
  | .conditional test consequent alternate, node, spelled => by
    obtain ⟨known, spelledTest, spelledConsequent, spelledAlternate⟩ := spelled
    obtain ⟨id, fields, rfl, filed⟩ := kind_record node _ known
    rw [readExpr]
    simp only [filed]
    exact (congr (congrArg₂ Expr.conditional (Expr.read test _ spelledTest) (Expr.read consequent _ spelledConsequent))
      (Expr.read alternate _ spelledAlternate) :)
  | .assign target value, node, spelled => by
    obtain ⟨known, ⟨operator, isOperator, plain⟩, spelledTarget, spelledValue⟩ := spelled
    have readTarget := Target.read target _ spelledTarget
    have readValue := Expr.read value _ spelledValue
    obtain ⟨id, fields, rfl, filed⟩ := kind_record node _ known
    rw [readExpr]
    simp only [filed]
    show readAssignment (.record id fields) = _
    rw [read_assignment id fields (target_record target _ spelledTarget), isOperator,
      if_neg (by simp [not_logical_assignment operator plain]), readValue, ← readTarget]
    split <;> rfl
  | .assignIf runs target value, node, spelled => by
    obtain ⟨known, ⟨operator, logical, isOperator, runsOf⟩, reference, spelledTarget, spelledValue⟩ := spelled
    have readTarget := Target.read target _ spelledTarget
    have readValue := Expr.read value _ spelledValue
    obtain ⟨id, fields, rfl, filed⟩ := kind_record node _ known
    rw [readExpr]
    simp only [filed]
    show readAssignment (.record id fields) = _
    rw [read_assignment id fields (target_record target _ spelledTarget), isOperator,
      if_pos (logical_assignment operator logical), readValue, logical_outcome operator runs runsOf]
    rw [if_neg (by simp [reference_kind target _ spelledTarget reference])] at readTarget
    rw [readTarget]
  | .object properties, node, spelled => by
    obtain ⟨known, items, list, spelled⟩ := spelled
    obtain ⟨id, fields, rfl, filed⟩ := kind_record node _ known
    rw [readExpr]
    simp only [filed]
    refine (congrArg readObject list).trans ?_
    rw [readObject, read_properties properties items spelled]
  | .destructure _, _, spelled | .region _, _, spelled | .broken _, _, spelled => by simp only [Expr.Spelled] at spelled
theorem read_all : ∀ (exprs : List Expr) (items : List Value), SpelledAll exprs items → readExprs items = exprs
  | [], items, spelled => by
    rw [spelled, readExprs]
  | expr :: rest, items, spelled => by
    obtain ⟨item, others, rfl, spelled, spelledRest⟩ := spelled
    rw [readExprs, read_all rest others spelledRest]
    rcases spelled with ⟨rfl, rfl⟩ | spelled
    · rw [read_null]
    · rw [Expr.read expr item spelled]
theorem read_key : ∀ (key : Option Expr) (node : Value) (field : String), SpelledKey key node field →
    readIf (node.get "computed").given (node.get field) = key
  | none, node, field, spelled => by
    rw [flagged_given _ _ _ spelled, readIf]
    rfl
  | some expr, node, field, spelled => by
    rw [flagged_given _ _ _ spelled.1, readIf, Expr.read expr _ spelled.2]
    rfl
theorem read_properties : ∀ (properties : List Property) (items : List Value), SpelledProperties properties items →
    readProperties items = properties
  | [], items, spelled => by
    rw [spelled, readProperties]
  | property :: rest, items, spelled => by
    obtain ⟨item, others, rfl, spelled, spelledRest⟩ := spelled
    rw [Property.read property item others spelled, read_properties rest others spelledRest]
theorem Property.read : ∀ (property : Property) (item : Value) (others : List Value), property.Spelled item →
    readProperties (item :: others) = property :: readProperties others
  | .spread argument, item, others, spelled => by
    obtain ⟨known, spelled⟩ := spelled
    obtain ⟨id, fields, rfl, filed⟩ := kind_record item _ known
    rw [readProperties, if_pos (by simp [isA, known])]
    exact congrArg (Property.spread · :: _) (Expr.read argument _ spelled)
  | .entry key value, item, others, spelled => by
    obtain ⟨known, spelledKey, spelledValue⟩ := spelled
    obtain ⟨id, fields, rfl, filed⟩ := kind_record item _ known
    rw [readProperties, if_neg (by simp [isA, known])]
    exact congrArg₂ (Property.entry · · :: _) (read_key key _ "key" spelledKey) (Expr.read value _ spelledValue)
theorem Target.read : ∀ (target : Target) (node : Value), target.Spelled node →
    (if node.kindIs isTargetPattern = true then .pattern (readPattern node) else readReference node) = target
  | .plain, node, spelled => by
    simp only [Target.Spelled] at spelled
    obtain ⟨id, fields, rfl, _⟩ := kind_record node _ spelled
    rw [if_neg (by simp [kindIs, spelled, isTargetPattern]), readReference, if_neg (by simp [kindIs, spelled, Kind.isMember])]
  | .member object key, node, spelled => by
    obtain ⟨known, spelledObject, spelledKey⟩ := spelled
    obtain ⟨id, fields, rfl, _⟩ := kind_record node _ known
    rw [if_neg (by simp [kindIs, known, isTargetPattern]), readReference, if_pos (by simp [kindIs, known, Kind.isMember])]
    exact congrArg₂ Target.member (Expr.read object _ spelledObject) (read_key key _ "property" spelledKey)
  | .pattern pattern, node, spelled => by
    obtain ⟨known, spelled⟩ := spelled
    rw [if_pos (by rcases known with known | known <;> simp [kindIs, known, isTargetPattern]), Pattern.read pattern node spelled]
theorem Pattern.read : ∀ (pattern : Pattern) (node : Value), pattern.Spelled node → readPattern node = pattern
  | .plain, node, spelled => by
    rcases spelled with rfl | known
    · simp [readPattern, Value.given]
    · exact read_name node known
  | .withDefault target value, node, spelled => by
    obtain ⟨known, rfl, name, spelled⟩ := spelled
    obtain ⟨id, fields, rfl, _⟩ := kind_record node _ known
    rw [readPattern]
    simp only [known]
    exact congrArg₂ Pattern.withDefault (read_name _ name) (Expr.read value _ spelled)
  | .object properties, node, spelled => by
    obtain ⟨known, items, list, spelled⟩ := spelled
    obtain ⟨id, fields, rfl, _⟩ := kind_record node _ known
    rw [readPattern]
    simp only [known]
    refine (congrArg readObjectPattern list).trans ?_
    rw [readObjectPattern, read_pattern_properties properties items spelled]
  | .array elements, node, spelled => by
    obtain ⟨known, items, list, spelled⟩ := spelled
    have read := read_patterns elements items spelled
    obtain ⟨id, fields, rfl, _⟩ := kind_record node _ known
    rw [readPattern]
    simp only [known]
    show Pattern.array (checkedPatterns ((Value.record id fields).get "elements").ensureRecordsIfGiven
      (readPatterns ((Value.record id fields).get "elements").parts)) = _
    rw [list, ensure_patterns, Value.parts, read]
  | .rest target, node, spelled => by
    obtain ⟨known, spelled⟩ := spelled
    obtain ⟨id, fields, rfl, _⟩ := kind_record node _ known
    rw [readPattern]
    simp only [known]
    exact congrArg Pattern.rest (Pattern.read target _ spelled)
  | .member isOptional object key, node, spelled => by
    obtain ⟨known, rfl, optional, spelledObject, spelledKey⟩ := spelled
    obtain ⟨id, fields, rfl, _⟩ := kind_record node _ known
    rw [readPattern]
    simp only [known]
    exact congr (congrArg₂ Pattern.member (flagged_given _ _ _ optional) (Expr.read object _ spelledObject)) (read_key key _ "property" spelledKey)
  | .broken _, _, spelled => by simp only [Pattern.Spelled] at spelled
theorem read_patterns : ∀ (patterns : List Pattern) (items : List Value), SpelledPatterns patterns items → readPatterns items = patterns
  | [], items, spelled => by
    rw [spelled, readPatterns]
  | pattern :: rest, items, spelled => by
    obtain ⟨item, others, rfl, spelled, spelledRest⟩ := spelled
    rw [readPatterns, Pattern.read pattern item spelled, read_patterns rest others spelledRest]
theorem read_pattern_properties : ∀ (properties : List PatternProperty) (items : List Value),
    SpelledPatternProperties properties items → readPatternProperties items = properties
  | [], items, spelled => by
    rw [spelled, readPatternProperties]
  | property :: rest, items, spelled => by
    obtain ⟨item, others, rfl, spelled, spelledRest⟩ := spelled
    rw [PatternProperty.read property item others spelled, read_pattern_properties rest others spelledRest]
theorem PatternProperty.read : ∀ (property : PatternProperty) (item : Value) (others : List Value),
    property.Spelled item → readPatternProperties (item :: others) = property :: readPatternProperties others
  | .rest target, item, others, spelled => by
    obtain ⟨known, spelled⟩ := spelled
    obtain ⟨id, fields, rfl, filed⟩ := kind_record item _ known
    rw [readPatternProperties, if_pos (by simp [kindIs, known])]
    exact congrArg (PatternProperty.rest · :: _) (Pattern.read target _ spelled)
  | .entry key target, item, others, spelled => by
    obtain ⟨known, spelledKey, spelledTarget⟩ := spelled
    obtain ⟨id, fields, rfl, filed⟩ := kind_record item _ known
    rw [readPatternProperties, if_neg (by simp [kindIs, known])]
    exact congrArg₂ (PatternProperty.entry · · :: _) (read_key key _ "key" spelledKey) (Pattern.read target _ spelledTarget)
end

theorem read_if_spelled (expr : Expr) (node : Value) (spelled : expr.SpelledIf node) : readExpr node = expr := by
  rcases spelled with ⟨rfl, rfl⟩ | spelled
  · exact read_null
  · exact Expr.read expr node spelled

theorem read_optional (expr : Option Expr) (node : Value) (spelled : SpelledOptional expr node) : readOptional node = expr := by
  cases expr with
  | none =>
    rw [spelled]
    rfl
  | some expr =>
    have record := spelled_record expr node spelled
    have there : node.isNull = false := by cases node <;> first | rfl | cases record
    rw [readOptional, there, Expr.read expr node spelled]
    rfl

theorem read_declarator (declarator : Declarator) (node : Value) (spelled : declarator.Spelled node) :
    readDeclarator node = declarator := by
  obtain ⟨known, value, target⟩ := spelled
  rw [readDeclarator, if_pos (kind_is_record node _ known), read_if_spelled _ _ value, Pattern.read _ _ target]

theorem read_declarators (declarators : List Declarator) (items : List Value)
    (spelled : List.Forall₂ Declarator.Spelled declarators items) : items.map readDeclarator = declarators := by
  induction spelled with
  | nil => rfl
  | cons first _ ih => rw [map_cons, read_declarator _ _ first, ih]

theorem read_variables (declared : Variables) (node : Value) (spelled : declared.Spelled node) : readVariables node = declared := by
  obtain ⟨same, _, items, list, spelled⟩ := spelled
  simp only [readVariables, list, ensureRecords, Value.parts, read_declarators _ _ spelled]
  rw [← same]

theorem read_start (start : Start) (node : Value) (spelled : start.Spelled node) : readStart node = start := by
  cases start with
  | nothing =>
    rw [spelled]
    rfl
  | declare declared =>
    have known := spelled.2.1
    have read := read_variables declared node spelled
    obtain ⟨id, fields, rfl, _⟩ := kind_record node _ known
    simp [readStart, isNull, isRecord, isA, known, read]
  | expression value =>
    obtain ⟨other, spelled⟩ := spelled
    have record := spelled_record value node spelled
    have there : node.isNull = false := by cases node <;> first | rfl | cases record
    simp [readStart, there, record, isA, other, Expr.read value node spelled]

theorem read_head (target : Pattern) (head : Value) (spelled : HeadSpelled target head) : readHead head = [target] := by
  rcases spelled with ⟨known, declarator, list, isDeclarator, _, spelled⟩ | ⟨known, spelled⟩
  · simp [readHead, isA, known, list, ensureRecords, Value.parts, checkedPatterns,
      kind_is_record declarator _ isDeclarator, Pattern.read target _ spelled]
  · simp [readHead, isA, known, Pattern.read target _ spelled]

section
variable (value : Value) (key : String) (there : value.get key ≠ .null)
include value key there

theorem get_some : value.fields.find? key = some (value.get key) := by
  unfold Value.get Fields.get at *
  cases found : value.fields.find? key with
  | none => simp [found] at there
  | some item => rfl

theorem record_given : value.given = true := by
  have found := get_some value key there
  cases value with
  | record id fields =>
    cases fields with
    | nil => cases found
    | cons => rfl
  | _ => cases found

end

theorem read_label (node : Value) (label : Option Value) (spelled : LabelOf node label) : readLabel (node.get "label") = .ok label := by
  cases label with
  | none =>
    rw [spelled]
    rfl
  | some name =>
    obtain ⟨text, rfl, spelled⟩ := spelled
    have given := record_given (node.get "label") "name" (by simp [spelled])
    cases label : node.get "label" with
    | record id fields =>
      rw [label] at spelled given
      have name : Fields.get fields "name" = .str text := spelled
      simp only [readLabel, Value.orRecord, given, if_true, Value.ask, name]
      rfl
    | _ =>
      rw [label] at spelled
      cases spelled

theorem ensure_statements (id : Nat) (fields : Fields) (key : String) (items : List Value) (statements : List Stmt)
    (list : (Value.record id fields).get key = .list items) : checkedStmts (ensureStatements fields key) statements = statements := by
  have found : fields.find? key = some (.list items) := by
    rw [← list]
    exact get_some (.record id fields) key (by simp [list])
  simp [ensureStatements, found, ensureRecords, checkedStmts]

theorem get_or_record (id : Nat) (fields : Fields) (key : String) (record : ((Value.record id fields).get key).isRecord = true) :
    getOrRecord fields key = (Value.record id fields).get key := by
  have there : (Value.record id fields).get key ≠ .null := by
    intro missing
    rw [missing] at record
    cases record
  have found := get_some (.record id fields) key there
  simp only [Value.fields] at found
  rw [getOrRecord, found]
  rfl

theorem kind_given (node : Value) (kind : Kind) (known : node.kind = some kind) : node.given = true := by
  refine record_given node "type" fun missing => ?_
  simp [Value.kind, Value.kind?, missing, Value.text?] at known

section
variable (label : Option Value) (node loop : Value) (kind : Kind) (under : LoopNode label node loop) (known : loop.kind = some kind)
include label node loop kind under known

theorem read_loop (isLoop : kind ∈ loopKinds) : readStmt node none = readStmt loop label := by
  rcases under with ⟨rfl, rfl⟩ | ⟨_, labeled, spelled, rfl⟩
  · rfl
  have read := read_label node label spelled
  obtain ⟨id, fields, rfl, filed⟩ := kind_record node _ labeled
  rw [readStmt]
  simp only [filed]
  have read : readLabel (Fields.get fields "label") = .ok label := read
  simp only [read]
  show readLabeled label ((Value.record id fields).get "body") = _
  obtain ⟨loopId, loopFields, same, loopFiled⟩ := kind_record _ kind known
  rw [same, readLabeled]
  simp only [loopFiled, Option.any_some]
  rw [if_pos]
  simp only [loopKinds, mem_cons, not_mem_nil, or_false] at isLoop
  rcases isLoop with rfl | rfl | rfl | rfl | rfl <;> rfl

theorem loop_kind : ∃ kind, node.kind = some kind := by
  rcases under with ⟨_, rfl⟩ | ⟨_, labeled, _⟩
  · exact ⟨kind, known⟩
  · exact ⟨_, labeled⟩

end

theorem stmt_kind (stmt : Stmt) (node : Value) (spelled : stmt.Spelled node) : ∃ kind, node.kind = some kind := by
  cases stmt with
  | note =>
    rcases spelled.2 with known | known <;> exact ⟨_, known⟩
  | block | tryCatch =>
    exact ⟨_, spelled.1⟩
  | evaluate | declare | returnValue | throwValue | ifElse | labeled | breakTo | continueTo | switch =>
    exact ⟨_, spelled.2.1⟩
  | whileLoop label | doWhileLoop label | forLoop label =>
    obtain ⟨loop, under, known, _⟩ := spelled
    exact loop_kind label node loop _ under known
  | forEach label =>
    obtain ⟨loop, under, known | known, _⟩ := spelled <;> exact loop_kind label node loop _ under known
  | bare | withObject | region | broken => simp only [Stmt.Spelled] at spelled

mutual
theorem Stmt.read : ∀ (stmt : Stmt) (node : Value), stmt.Spelled node → readStmt node none = stmt
  | .note noted, node, spelled => by
    obtain ⟨rfl, known⟩ := spelled
    rcases known with known | known <;>
    · obtain ⟨id, fields, rfl, filed⟩ := kind_record noted _ known
      rw [readStmt]
      simp only [filed]
      rfl
  | .block body, node, spelled => by
    obtain ⟨known, items, list, spelled⟩ := spelled
    have read := read_stmts body items spelled
    obtain ⟨id, fields, rfl, filed⟩ := kind_record node _ known
    rw [readStmt]
    simp only [filed]
    rw [ensure_statements id fields "body" items _ list]
    show Stmt.block (readStmts ((Value.record id fields).get "body").parts) = _
    rw [list, Value.parts, read]
  | .evaluate noted value, node, spelled => by
    obtain ⟨rfl, known, spelled⟩ := spelled
    obtain ⟨id, fields, rfl, filed⟩ := kind_record noted _ known
    rw [readStmt]
    simp only [filed]
    exact congrArg (Stmt.evaluate _) (Expr.read value _ spelled)
  | .declare declared, node, spelled => by
    have read := read_variables declared node spelled
    obtain ⟨id, fields, rfl, filed⟩ := kind_record node _ spelled.2.1
    rw [readStmt]
    simp only [filed]
    exact congrArg Stmt.declare read
  | .returnValue noted value, node, spelled => by
    obtain ⟨rfl, known, spelled⟩ := spelled
    obtain ⟨id, fields, rfl, filed⟩ := kind_record noted _ known
    rw [readStmt]
    simp only [filed]
    exact congrArg (Stmt.returnValue _) (read_if_spelled value _ spelled)
  | .throwValue noted value, node, spelled => by
    obtain ⟨rfl, known, spelled⟩ := spelled
    obtain ⟨id, fields, rfl, filed⟩ := kind_record noted _ known
    rw [readStmt]
    simp only [filed]
    exact congrArg (Stmt.throwValue _) (Expr.read value _ spelled)
  | .ifElse subject test consequent alternate, node, spelled => by
    obtain ⟨rfl, known, spelledTest, spelledConsequent, spelledAlternate⟩ := spelled
    obtain ⟨id, fields, rfl, filed⟩ := kind_record node _ known
    rw [readStmt]
    simp only [filed]
    rw [get_or_record id fields "test" (spelled_record test _ spelledTest)]
    exact congr (congrArg₂ (Stmt.ifElse _) (Expr.read test _ spelledTest) (read_body consequent _ spelledConsequent))
      (read_if_given alternate _ spelledAlternate)
  | .labeled label body, node, spelled => by
    obtain ⟨_, known, spelledLabel, other, spelled⟩ := spelled
    have readsLabel := read_label node label spelledLabel
    have readsBody := Stmt.read body _ spelled
    obtain ⟨kind, bodyKnown⟩ := stmt_kind body _ spelled
    obtain ⟨id, fields, rfl, filed⟩ := kind_record node _ known
    have readsLabel : readLabel (Fields.get fields "label") = .ok label := readsLabel
    obtain ⟨bodyId, bodyFields, same, bodyFiled⟩ := kind_record _ kind bodyKnown
    have notLoop : kind.isLoop = false := by cases kind <;> first | rfl | exact absurd bodyKnown (other _ (by simp [loopKinds]))
    rw [readStmt]
    simp only [filed, readsLabel]
    show readLabeled label ((Value.record id fields).get "body") = _
    rw [same] at readsBody ⊢
    rw [readLabeled]
    simp only [bodyFiled, Option.any_some, notLoop, Bool.false_eq_true, if_false]
    rw [readsBody]
  | .whileLoop label test body, node, spelled => by
    obtain ⟨loop, under, known, spelledTest, spelledBody⟩ := spelled
    rw [read_loop label node loop _ under known (by simp [loopKinds])]
    obtain ⟨id, fields, rfl, filed⟩ := kind_record loop _ known
    rw [readStmt]
    simp only [filed]
    exact congrArg₂ (Stmt.whileLoop label) (Expr.read test _ spelledTest) (read_body body _ spelledBody)
  | .doWhileLoop label body test, node, spelled => by
    obtain ⟨loop, under, known, spelledBody, spelledTest⟩ := spelled
    rw [read_loop label node loop _ under known (by simp [loopKinds])]
    obtain ⟨id, fields, rfl, filed⟩ := kind_record loop _ known
    rw [readStmt]
    simp only [filed]
    exact congrArg₂ (Stmt.doWhileLoop label) (read_body body _ spelledBody) (Expr.read test _ spelledTest)
  | .forLoop label start test update body, node, spelled => by
    obtain ⟨loop, under, known, spelledStart, spelledTest, spelledUpdate, spelledBody⟩ := spelled
    rw [read_loop label node loop _ under known (by simp [loopKinds])]
    obtain ⟨id, fields, rfl, filed⟩ := kind_record loop _ known
    rw [readStmt]
    simp only [filed]
    exact congr (congr (congrArg₂ (Stmt.forLoop label) (read_start start _ spelledStart) (read_optional test _ spelledTest))
      (read_if_spelled update _ spelledUpdate)) (read_body body _ spelledBody)
  | .forEach label source targets body, node, spelled => by
    obtain ⟨loop, under, known, spelledSource, ⟨target, rfl, spelledHead⟩, spelledBody⟩ := spelled
    rcases known with known | known <;>
    · rw [read_loop label node loop _ under known (by simp [loopKinds])]
      obtain ⟨id, fields, rfl, filed⟩ := kind_record loop _ known
      rw [readStmt]
      simp only [filed]
      exact congr (congrArg₂ (Stmt.forEach label) (Expr.read source _ spelledSource) (read_head target _ spelledHead))
        (read_body body _ spelledBody)
  | .breakTo area label, node, spelled | .continueTo area label, node, spelled => by
    obtain ⟨rfl, known, spelled⟩ := spelled
    have read := read_label node label spelled
    obtain ⟨id, fields, rfl, filed⟩ := kind_record node _ known
    rw [readStmt]
    have read : readLabel (Fields.get fields "label") = .ok label := read
    simp only [filed, read]
  | .switch subject discriminant cases, node, spelled => by
    obtain ⟨rfl, known, spelledDiscriminant, items, list, spelledCases⟩ := spelled
    obtain ⟨id, fields, rfl, filed⟩ := kind_record node _ known
    rw [readStmt]
    simp only [filed]
    rw [get_or_record id fields "discriminant" (spelled_record discriminant _ spelledDiscriminant)]
    refine (congrArg₂ (Stmt.switch _) (Expr.read discriminant _ spelledDiscriminant) (congrArg readCases list)).trans ?_
    rw [readCases, read_cases cases items spelledCases]
  | .tryCatch body handler finalizer, node, spelled => by
    obtain ⟨known, knownBlock, ⟨items, list, spelledBody⟩, spelledHandler, spelledFinalizer, guarded⟩ := spelled
    have readsBody := read_stmts body items spelledBody
    have given : (!(node.get "handler").given && !(node.get "finalizer").given) = false := by
      rcases guarded with there | there
      · obtain ⟨⟨param, body⟩, rfl⟩ := Option.isSome_iff_exists.mp there
        simp [kind_given _ _ spelledHandler.1]
      · obtain ⟨stmt, rfl⟩ := Option.isSome_iff_exists.mp there
        obtain ⟨kind, known⟩ := stmt_kind stmt _ spelledFinalizer
        simp [kind_given _ _ known]
    obtain ⟨id, fields, rfl, filed⟩ := kind_record node _ known
    have readsTried : readTried ((Value.record id fields).get "block") = body := by
      obtain ⟨blockId, blockFields, same, _⟩ := kind_record _ _ knownBlock
      rw [same] at list ⊢
      rw [readTried, ensure_statements blockId blockFields "body" items _ list]
      show readStmts ((Value.record blockId blockFields).get "body").parts = _
      rw [list, Value.parts, readsBody]
    rw [readStmt]
    have given : (!(Fields.get fields "handler").given && !(Fields.get fields "finalizer").given) = false := given
    simp only [filed, given, Bool.false_eq_true, if_false]
    exact congr (congrArg₂ Stmt.tryCatch readsTried (Handler.read handler _ spelledHandler)) (read_if_given finalizer _ spelledFinalizer)
  | .bare _, _, spelled | .withObject _ _, _, spelled | .region _, _, spelled | .broken _, _, spelled => by
    simp only [Stmt.Spelled] at spelled
theorem read_stmts : ∀ (stmts : List Stmt) (items : List Value), SpelledStmts stmts items → readStmts items = stmts
  | [], items, spelled => by
    rw [spelled, readStmts]
  | stmt :: rest, items, spelled => by
    obtain ⟨item, others, rfl, spelled, spelledRest⟩ := spelled
    rw [readStmts, Stmt.read stmt item spelled, read_stmts rest others spelledRest]
theorem read_body : ∀ (stmt : Option Stmt) (node : Value), SpelledStmtIf stmt node → readBody node = stmt
  | none, node, spelled => by
    rw [spelled, readBody]
    rfl
  | some stmt, node, spelled => by
    obtain ⟨kind, known⟩ := stmt_kind stmt node spelled
    have record := kind_is_record node kind known
    have there : node.isNull = false := by cases node <;> first | rfl | cases record
    rw [readBody, there, Stmt.read stmt node spelled]
    rfl
theorem read_if_given : ∀ (stmt : Option Stmt) (node : Value), SpelledStmtIf stmt node → readIfGiven node = stmt
  | none, node, spelled => by
    rw [spelled, readIfGiven]
    rfl
  | some stmt, node, spelled => by
    obtain ⟨kind, known⟩ := stmt_kind stmt node spelled
    rw [readIfGiven, kind_given node kind known, Stmt.read stmt node spelled]
    rfl
theorem read_cases : ∀ (cases : List Case) (items : List Value), SpelledCases cases items → readCaseList items = cases
  | [], items, spelled => by
    rw [spelled, readCaseList]
  | branch :: rest, items, spelled => by
    obtain ⟨item, others, rfl, spelled, spelledRest⟩ := spelled
    rw [Case.read branch item others spelled, read_cases rest others spelledRest]
theorem Case.read : ∀ (branch : Case) (item : Value) (others : List Value), branch.Spelled item →
    readCaseList (item :: others) = branch :: readCaseList others
  | .mk test body, item, others, spelled => by
    obtain ⟨known, spelledTest, items, list, spelledBody⟩ := spelled
    have readTest := read_optional test _ spelledTest
    have readsBody := read_stmts body items spelledBody
    obtain ⟨id, fields, rfl, filed⟩ := kind_record item _ known
    rw [readCaseList]
    show Case.mk (readOptional ((Value.record id fields).get "test"))
      (checkedStmts ((Value.record id fields).get "consequent").ensureRecords
        (readStmts ((Value.record id fields).get "consequent").parts)) :: _ = _
    rw [readTest, list, Value.parts, readsBody]
    rfl
theorem Handler.read : ∀ (handler : Option Handler) (node : Value), SpelledHandler handler node → readHandler node = handler
  | none, node, spelled => by
    simp only [SpelledHandler] at spelled
    simp [spelled, readHandler, Value.given]
  | some (.mk param body), node, spelled => by
    obtain ⟨known, spelledParam, spelledBody⟩ := spelled
    obtain ⟨id, fields, rfl, filed⟩ := kind_record node _ known
    rw [readHandler, if_pos (kind_given _ _ known)]
    exact congrArg₂ (some <| Handler.mk · ·) (Pattern.read param _ spelledParam) (read_body body _ spelledBody)
end

theorem Body.read (body : Body) (node : Value) (spelled : body.Spelled node) : readUnit node = body := by
  obtain ⟨isFunction, ⟨params, listParams, spelledParams⟩, knownBody, items, list, spelled⟩ := spelled
  have notProgram : node.isA .program = false := by
    have other : node.kind ≠ some .program := fun known => by simp [kindIs, known, Kind.isFunction] at isFunction
    simp [isA, other]
  have readsBody : readFunctionBody (node.get "body").orRecord = body.statements := by
    rw [orRecord, if_pos (kind_given _ _ knownBody)]
    obtain ⟨id, fields, same, _⟩ := kind_record _ _ knownBody
    rw [same] at knownBody list ⊢
    have isBlock : (Value.record id fields).isA .blockStatement = true := by simp [isA, knownBody]
    simp only [readFunctionBody, isRecord, isBlock, Bool.not_true, Bool.false_eq_true, if_false, if_true]
    rw [list, Value.parts, read_stmts body.statements items spelled]
    exact ensure_statements id fields "body" items _ list
  simp only [readUnit, notProgram, Bool.false_eq_true, if_false, readsBody, listParams]
  rw [ensure_patterns, Value.parts, read_patterns body.params params spelledParams]

end HookLint.Flow
