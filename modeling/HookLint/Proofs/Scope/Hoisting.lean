import HookLint.Proofs.Outcome
import HookLint.Proofs.Scope.Reached

namespace HookLint.Survey

open List Value

variable {declarators identifier statement : Value} {key : String} {statements : List Value}

variable {value : Value} {items : List Value}

mutual
theorem pattern_identifiers_inside (pattern : Value) (found : List Value) (identifier : Value)
    (run : patternIdentifiers pattern = .ok found) (member : identifier ∈ found) :
    identifier.isA .identifier = true ∧ identifier ∈ pattern.records := by
  match pattern, run with
  | .record id fields, run =>
    have inside : ∀ key, (Fields.get fields key).records ⊆ (Value.record id fields).records := fun key =>
      ((Value.get_records_sublist fields key).cons _).subset
    rw [patternIdentifiers] at run
    split at run
    · next isName =>
        cases run
        cases mem_singleton.mp member
        exact ⟨by rw [Value.isA, isName]; rfl, mem_cons_self⟩
    · obtain ⟨isName, within⟩ := pattern_identifiers_inside _ found identifier run member
      exact ⟨isName, inside _ within⟩
    · obtain ⟨_, _, run⟩ := bind_ok run
      obtain ⟨isName, within⟩ := property_identifiers_inside _ found identifier run member
      exact ⟨isName, inside _ ((Value.parts_records_sublist _).subset within)⟩
    · obtain ⟨_, _, run⟩ := bind_ok run
      obtain ⟨isName, within⟩ := element_identifiers_inside _ found identifier run member
      exact ⟨isName, inside _ ((Value.parts_records_sublist _).subset within)⟩
    · obtain ⟨isName, within⟩ := pattern_identifiers_inside _ found identifier run member
      exact ⟨isName, inside _ within⟩
    · cases run
      cases member
  | .null, run | .bool _, run | .int _, run | .float _, run | .str _, run | .list _, run =>
    simp only [patternIdentifiers, Except.ok.injEq] at run
    rw [← run] at member
    cases member
termination_by sizeOf pattern
theorem property_identifiers_inside (properties : List Value) (found : List Value) (identifier : Value)
    (run : propertyIdentifiers properties = .ok found) (member : identifier ∈ found) :
    identifier.isA .identifier = true ∧ identifier ∈ Value.recordsOfItems properties := by
  match properties, run with
  | [], run =>
    rw [propertyIdentifiers] at run
    cases run
    cases member
  | property :: rest, run =>
    match property, run with
    | .record id fields, run =>
      have inside : ∀ key, (Fields.get fields key).records ⊆ Value.recordsOfItems (.record id fields :: rest) :=
        fun key => (((Value.get_records_sublist fields key).cons _).trans (sublist_append_left _ _)).subset
      rw [propertyIdentifiers] at run
      obtain ⟨later, isLater, run⟩ := bind_ok run
      have split : ∃ key own, patternIdentifiers (Fields.get fields key) = .ok own ∧ found = later ++ own := by
        split at run
        all_goals
          obtain ⟨own, isOwn, run⟩ := bind_ok run
          cases run
          exact ⟨_, own, isOwn, rfl⟩
      obtain ⟨key, own, isOwn, rfl⟩ := split
      rcases mem_append.mp member with among | among
      · obtain ⟨isName, within⟩ := property_identifiers_inside rest later identifier isLater among
        exact ⟨isName, mem_append_right _ within⟩
      · obtain ⟨isName, within⟩ := pattern_identifiers_inside _ own identifier isOwn among
        exact ⟨isName, inside key within⟩
    | .null, run | .bool _, run | .int _, run | .float _, run | .str _, run | .list _, run =>
      simp only [propertyIdentifiers] at run
      obtain ⟨isName, within⟩ := property_identifiers_inside rest found identifier run member
      exact ⟨isName, mem_append_right _ within⟩
termination_by sizeOf properties
theorem element_identifiers_inside (elements : List Value) (found : List Value) (identifier : Value)
    (run : elementIdentifiers elements = .ok found) (member : identifier ∈ found) :
    identifier.isA .identifier = true ∧ identifier ∈ recordsOfItems elements := by
  match elements, run with
  | [], run =>
    rw [elementIdentifiers] at run
    cases run
    cases member
  | element :: rest, run =>
    rw [elementIdentifiers] at run
    obtain ⟨later, isLater, run⟩ := bind_ok run
    obtain ⟨own, isOwn, run⟩ := bind_ok run
    cases run
    rcases mem_append.mp member with among | among
    · obtain ⟨isName, within⟩ := element_identifiers_inside rest later identifier isLater among
      exact ⟨isName, mem_append_right _ within⟩
    · obtain ⟨isName, within⟩ := pattern_identifiers_inside element own identifier isOwn among
      exact ⟨isName, mem_append_left _ within⟩
termination_by sizeOf elements
end

-- A declaration of an identifier, told apart by where it stands and what it defines it by.
structure Declares (kind : BindingKind) (definition identifier : Value) (declaration : Declaration) : Prop where
  names : declaration.identifier = identifier
  isName : identifier.isA .identifier = true
  keyed : identifier.spellingKey = .ok declaration.key
  ofKind : declaration.kind = kind
  defines : declaration.definition = definition

-- A declaration of an identifier under its name, where both its nodes stand among the given ones.
structure Among (records : List Value) (declaration : Declaration) : Prop where
  identifier : declaration.identifier ∈ records
  definition : declaration.definition ∈ records
  isName : declaration.identifier.isA .identifier = true
  keyed : declaration.identifier.spellingKey = .ok declaration.key

section
variable {kind : BindingKind} {definition : Value} {declaration : Declaration} {declarations : List Declaration}

theorem Among.mono {first second : List Value} (among : Among first declaration) (subset : first ⊆ second) :
    Among second declaration := ⟨subset among.identifier, subset among.definition, among.isName, among.keyed⟩

theorem declaration_of_declares (run : Declaration.of kind definition identifier = .ok declarations)
    (member : declaration ∈ declarations) : Declares kind definition identifier declaration := by
  rw [Declaration.of] at run
  by_cases isName : identifier.isA .identifier = true
  · rw [isName] at run
    obtain ⟨key, isKey, run⟩ := bind_ok run
    cases run
    cases mem_singleton.mp member
    exact ⟨rfl, isName, isKey, rfl, rfl⟩
  · rw [Bool.not_eq_true] at isName
    rw [isName] at run
    cases run
    cases member

theorem declarations_of_declare {identifiers : List Value} (run : declarationsOf kind definition identifiers = .ok declarations)
    (member : declaration ∈ declarations) : ∃ identifier ∈ identifiers, Declares kind definition identifier declaration := by
  induction identifiers generalizing declarations with
  | nil =>
    cases run
    cases member
  | cons identifier rest ih =>
    obtain ⟨first, isFirst, run⟩ := bind_ok run
    obtain ⟨later, isLater, run⟩ := bind_ok run
    cases run
    rcases mem_append.mp member with own | other
    · exact ⟨identifier, mem_cons_self, declaration_of_declares isFirst own⟩
    · obtain ⟨identifier, isLater, declares⟩ := ih isLater other
      exact ⟨identifier, mem_cons_of_mem _ isLater, declares⟩

theorem pattern_declarations_declare {pattern : Value} (run : patternDeclarations kind definition pattern = .ok declarations)
    (member : declaration ∈ declarations) : ∃ identifier ∈ pattern.records, Declares kind definition identifier declaration := by
  obtain ⟨identifiers, found, run⟩ := bind_ok run
  obtain ⟨identifier, isFound, declares⟩ := declarations_of_declare run member
  exact ⟨identifier, (pattern_identifiers_inside pattern identifiers identifier found isFound).2, declares⟩

theorem items_if_given_parts {item : Value} (run : value.itemsIfGiven = .ok items)
    (member : item ∈ items) (isRecord : item.isRecord = true) : item ∈ value.parts := by
  rw [itemsIfGiven] at run
  split at run
  · cases value with
    | list others =>
      cases run
      exact member
    | str text =>
      cases run
      obtain ⟨letter, _, rfl⟩ := mem_map.mp member
      cases isRecord
    | record id fields =>
      cases run
      obtain ⟨field, _, rfl⟩ := mem_map.mp member
      cases isRecord
    | _ => cases run
  · cases run
    cases member

theorem items_if_given_records (run : value.itemsIfGiven = .ok items) : recordsOfItems items ⊆ value.records := by
  intro record member
  rw [records_of_items_eq] at member
  obtain ⟨item, isItem, inside⟩ := mem_flatMap.mp member
  rw [itemsIfGiven] at run
  split at run
  · cases value with
    | list others =>
      cases run
      exact (item_records_inside isItem).subset inside
    | str text =>
      cases run
      obtain ⟨letter, _, rfl⟩ := mem_map.mp isItem
      exact absurd inside not_mem_nil
    | record id fields =>
      cases run
      obtain ⟨field, _, rfl⟩ := mem_map.mp isItem
      exact absurd inside not_mem_nil
    | _ => cases run
  · cases run
    exact absurd isItem not_mem_nil

theorem ask_ok {answer : Value} (run : value.ask key = .ok answer) : value.isRecord = true ∧ answer = value.get key := by
  cases value with
  | record id fields => exact ⟨rfl, (Except.ok.inj run).symm⟩
  | _ => cases run

theorem grouped_declare {groups : List (List Declaration)}
    {make : Value → Value → Except Fault (List Declaration)} (given : value.itemsIfGiven = .ok items)
    (run : items.mapM (fun item => do make item (← item.ask key)) = .ok groups) (member : declaration ∈ groups.flatten) :
    ∃ item ∈ value.parts, item.isRecord = true ∧ ∃ made, make item (item.get key) = .ok made ∧ declaration ∈ made := by
  obtain ⟨group, isGroup, inGroup⟩ := mem_flatten.mp member
  obtain ⟨item, isItem, made⟩ := mem_of_map_all run isGroup
  obtain ⟨asked, isAsked, made⟩ := bind_ok made
  obtain ⟨isRecord, rfl⟩ := ask_ok isAsked
  exact ⟨item, items_if_given_parts given isItem isRecord, isRecord, group, made, inGroup⟩

theorem declarator_declarations_declare
    (run : declaratorDeclarations kind declarators = .ok declarations) (member : declaration ∈ declarations) :
    ∃ declarator ∈ declarators.parts, declarator.isRecord = true ∧ ∃ identifier ∈ (declarator.get "id").records,
      Declares kind declarator identifier declaration := by
  obtain ⟨items, given, run⟩ := bind_ok run
  obtain ⟨groups, grouped, run⟩ := bind_ok run
  cases run
  obtain ⟨declarator, isPart, isRecord, made, isMade, inMade⟩ := grouped_declare given grouped member
  exact ⟨declarator, isPart, isRecord, pattern_declarations_declare isMade inMade⟩

theorem declares_among {records : List Value} (declares : Declares kind definition identifier declaration)
    (isIdentifier : identifier ∈ records) (isDefinition : definition ∈ records) : Among records declaration :=
  ⟨declares.names ▸ isIdentifier, declares.defines ▸ isDefinition, declares.names ▸ declares.isName, declares.names ▸ declares.keyed⟩

theorem declarator_declarations_among
    (run : declaratorDeclarations kind declarators = .ok declarations) (member : declaration ∈ declarations) :
    Among declarators.records declaration := by
  obtain ⟨declarator, isPart, isRecord, identifier, within, declares⟩ := declarator_declarations_declare run member
  have inside := (part_records_inside isPart).subset
  exact declares_among declares (inside ((get_records_inside declarator "id").subset within)) (inside (mem_records_self isRecord))

theorem own_vars_among {node : Value} (run : ownVars node = .ok declarations) (member : declaration ∈ declarations) :
    Among node.records declaration := by
  rw [ownVars] at run
  split at run
  · exact (declarator_declarations_among run member).mono (get_records_inside node "declarations").subset
  · cases run
    cases member

theorem children_records_inside (node : Value) : (recordsOfItems node.children).Sublist node.records := by
  cases node with
  | record id fields => exact (children_records_sublist fields).cons _
  | _ => exact nil_sublist _

theorem items_records_reverse : recordsOfItems items.reverse ⊆ recordsOfItems items := by
  intro record member
  rw [records_of_items_eq] at member ⊢
  obtain ⟨item, isItem, inside⟩ := mem_flatMap.mp member
  exact mem_flatMap.mpr ⟨item, mem_reverse.mp isItem, inside⟩

theorem var_declarations_among (stack : List Value) (declarations : List Declaration)
    (run : varDeclarations stack = .ok declarations) (member : declaration ∈ declarations) :
    Among (recordsOfItems stack) declaration := by
  match stack, run with
  | [], run =>
    rw [varDeclarations] at run
    cases run
    cases member
  | node :: rest, run =>
    rw [varDeclarations] at run
    obtain ⟨isBarrier, _, run⟩ := bind_ok run
    cases isBarrier with
    | true => exact (var_declarations_among rest declarations run member).mono (subset_append_right _ _)
    | false =>
      obtain ⟨own, isOwn, run⟩ := bind_ok run
      obtain ⟨later, isLater, run⟩ := bind_ok run
      cases run
      rcases mem_append.mp member with among | among
      · exact (own_vars_among isOwn among).mono (subset_append_left _ _)
      · refine (var_declarations_among _ later isLater among).mono ?_
        rw [records_of_items_append]
        refine append_subset.mpr ⟨fun record inside => ?_, subset_append_right _ _⟩
        exact mem_append_left _ ((children_records_inside node).subset (items_records_reverse inside))
termination_by sizeOf stack

theorem hoisted_vars_among {body : Value} (run : hoistedVars body = .ok declarations) (member : declaration ∈ declarations) :
    Among body.records declaration := by
  rw [hoistedVars] at run
  split at run
  · have among := var_declarations_among _ declarations run member
    rwa [reverse_singleton, recordsOfItems, recordsOfItems, append_nil] at among
  · obtain ⟨start, isStart, run⟩ := bind_ok run
    refine (var_declarations_among _ declarations run member).mono fun record inside => ?_
    exact items_if_given_records isStart (items_records_reverse inside)

theorem unwrap_export_records (statement : Value) : (unwrapExport statement).records.Sublist statement.records := by
  rw [unwrapExport]
  split
  · dsimp only
    split
    · exact get_records_inside statement "declaration"
    · exact .refl _
  · exact .refl _

-- The ways in which a statement declares a name from the start of its scope on.
inductive Lexical (statement : Value) (declaration : Declaration) : Prop where
  | declarator (kind : BindingKind) (isLexical : kind.isLexical = true)
      (isDeclaration : statement.isA .variableDeclaration = true) (declarator identifier : Value)
      (isPart : declarator ∈ (statement.get "declarations").parts) (isRecord : declarator.isRecord = true)
      (within : identifier ∈ (declarator.get "id").records) (declares : Declares kind declarator identifier declaration)
  | function (isFunction : statement.isA .functionDeclaration = true)
      (declares : Declares .function statement (statement.get "id") declaration)
  | classLike (isClass : statement.isA .classDeclaration = true)
      (declares : Declares .classLike statement (statement.get "id") declaration)
  | imported (specifier : Value) (isPart : specifier ∈ (statement.get "specifiers").parts)
      (isRecord : specifier.isRecord = true) (declares : Declares .imported specifier (specifier.get "local") declaration)

theorem is_a_of_kind {kind : Kind} (isKind : value.kind = some kind) : value.isA kind = true := by
  rw [isA, isKind]
  exact beq_self_eq_true _

theorem lexical_declarations_lexical (run : lexicalDeclarations statement = .ok declarations)
    (member : declaration ∈ declarations) : Lexical (unwrapExport statement) declaration := by
  rw [lexicalDeclarations] at run
  generalize unwrapExport statement = statement at run ⊢
  split at run
  · rename_i isKind
    split at run
    · obtain ⟨declarator, isPart, isRecord, identifier, within, declares⟩ := declarator_declarations_declare run member
      exact .declarator _ rfl (is_a_of_kind isKind) declarator identifier isPart isRecord within declares
    · obtain ⟨declarator, isPart, isRecord, identifier, within, declares⟩ := declarator_declarations_declare run member
      exact .declarator _ rfl (is_a_of_kind isKind) declarator identifier isPart isRecord within declares
    · cases run
      cases member
  · next isKind => exact .function (is_a_of_kind isKind) (declaration_of_declares run member)
  · next isKind => exact .classLike (is_a_of_kind isKind) (declaration_of_declares run member)
  · obtain ⟨items, given, run⟩ := bind_ok run
    obtain ⟨groups, grouped, run⟩ := bind_ok run
    cases run
    obtain ⟨specifier, isPart, isRecord, made, isMade, inMade⟩ := grouped_declare given grouped member
    exact .imported specifier isPart isRecord (declaration_of_declares isMade inMade)
  · cases run
    cases member

theorem is_record_of_is_a {kind : Kind} (isKind : value.isA kind = true) : value.isRecord = true := by
  cases value with
  | record id fields => rfl
  | _ => cases isKind

theorem lexical_among (lexical : Lexical statement declaration) : Among statement.records declaration := by
  cases lexical with
  | declarator kind isLexical isDeclaration declarator identifier isPart isRecord within declares =>
    have inside := ((part_records_inside isPart).trans (get_records_inside statement _)).subset
    exact declares_among declares (inside ((get_records_inside declarator "id").subset within)) (inside (mem_records_self isRecord))
  | function isFunction declares | classLike isFunction declares =>
    exact declares_among declares ((get_records_inside statement "id").subset (mem_records_self (is_record_of_is_a declares.isName)))
      (mem_records_self (is_record_of_is_a isFunction))
  | imported specifier isPart isRecord declares =>
    have inside := ((part_records_inside isPart).trans (get_records_inside statement _)).subset
    exact declares_among declares
      (inside ((get_records_inside specifier "local").subset (mem_records_self (is_record_of_is_a declares.isName))))
      (inside (mem_records_self isRecord))

section
variable (run : hoistedLexicals statements = .ok declarations) (member : declaration ∈ declarations)
include run member

theorem hoisted_lexicals_lexical : ∃ statement ∈ statements, Lexical (unwrapExport statement) declaration := by
  obtain ⟨groups, grouped, run⟩ := bind_ok run
  cases run
  obtain ⟨group, isGroup, inGroup⟩ := mem_flatten.mp member
  obtain ⟨statement, isStatement, declared⟩ := mem_of_map_all grouped isGroup
  exact ⟨statement, isStatement, lexical_declarations_lexical declared inGroup⟩

theorem hoisted_lexicals_among : Among (recordsOfItems statements) declaration := by
  obtain ⟨statement, isStatement, lexical⟩ := hoisted_lexicals_lexical run member
  exact (lexical_among lexical).mono ((unwrap_export_records statement).trans (item_records_inside isStatement)).subset

end

end

end HookLint.Survey
