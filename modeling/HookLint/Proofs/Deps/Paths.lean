import HookLint.Deps.Reference
import HookLint.Proofs.Deps.Callback

namespace HookLint

open List

variable {first path second : Value} {name property : String}

namespace Value

-- What a parser sees to: names are texts without dots, exports hand on names, and a chain has nothing but its content.
structure Plain (program : Value) : Prop where
  named : ∀ node ∈ program.records, node.isA .identifier = true → ∃ text, node.get "name" = .str text ∧ '.' ∉ text.toList
  exported : ∀ node ∈ program.records, node.isA .exportNamedDeclaration = true →
    ∀ specifier ∈ (node.get "specifiers").parts, (specifier.get "local").isRecord = true → (specifier.get "local").isA .identifier = true
  chained : ∀ node ∈ program.records, node.isA .chainExpression = true → ∀ child ∈ node.children, child = node.get "expression"

def isPlain (program : Value) : Bool :=
  program.records.all fun node =>
    (!node.isA .identifier || match node.get "name" with
      | .str text => !text.toList.contains '.'
      | _ => false)
    && (!node.isA .exportNamedDeclaration || (node.get "specifiers").parts.all fun specifier =>
      !(specifier.get "local").isRecord || (specifier.get "local").isA .identifier)
    && (!node.isA .chainExpression || ((node.get "expression").isNode && node.children.length = 1))

theorem plain_of_check {program : Value} (checked : program.isPlain = true) : program.Plain := by
  have each (node : Value) (member : node ∈ program.records) := all_eq_true.mp checked node member
  simp only [Bool.and_eq_true, Bool.or_eq_true, Bool.not_eq_true'] at each
  refine ⟨fun node member isKind => ?_, fun node member isKind specifier isSpecifier isRecord => ?_, fun node member isKind child isChild => ?_⟩
  · have named := (each node member).1.1.resolve_left (by rw [isKind]; nofun)
    split at named
    · next text isText => exact ⟨text, isText, by simpa using named⟩
    · cases named
  · have exported := (each node member).1.2.resolve_left (by rw [isKind]; nofun)
    have one := all_eq_true.mp exported specifier isSpecifier
    rw [isRecord] at one
    exact one
  obtain ⟨isNode, single⟩ := (each node member).2.resolve_left (by rw [isKind]; nofun)
  cases node with
  | record id fields =>
    obtain ⟨only, isOnly⟩ := length_eq_one_iff.mp (of_decide_eq_true single)
    have isContent : Fields.get fields "expression" ∈ (Value.record id fields).children := get_among_children isNode (by decide)
    rw [isOnly] at isChild isContent
    exact (mem_singleton.mp isChild).trans (mem_singleton.mp isContent).symm
  | _ => cases isKind

section
variable {program node child : Value} {above : List Value}

theorem filed_of_kind {kind : Kind} (isKind : node.kind = some kind) : node.filedKind = .ok (some kind) := by
  obtain ⟨text, isText, _⟩ := Option.bind_eq_some_iff.mp isKind
  unfold kind? at isText
  rw [filedKind, isKind]
  cases isType : node.get "type" with
  | str text => rfl
  | _ =>
    rw [isType] at isText
    cases isText

theorem node_of_is_a {kind : Kind} (isKind : node.isA kind = true) : node.isNode = true := by
  have known : node.kindIs (fun _ => true) = true := by
    rw [kindIs, beq_iff_eq.mp isKind]
    rfl
  exact is_node_of_kind known

theorem Lineage.walked (around : Lineage program node above) : node ∈ program.walk := by
  cases around with
  | root => exact mem_walk_self program
  | inside _ _ _ isParent isChild => exact child_mem_walk isParent isChild

theorem child_of_get {key : String} (isNode : (node.get key).isNode = true) (plain : childless.contains key = false) :
    node.get key ∈ node.children := by
  cases node with
  | record id fields => exact get_among_children isNode plain
  | _ => cases isNode

end

end Value

namespace Deps

open Value

-- The name that a path starts with.
def root (path : String) : List Char := path.toList.takeWhile (· ≠ '.')

theorem root_name (dotless : '.' ∉ name.toList) : root name = name.toList := by
  rw [root]
  generalize name.toList = letters at dotless
  induction letters with
  | nil => rfl
  | cons letter rest ih =>
    obtain ⟨here, later⟩ := not_or.mp (mt mem_cons.mpr dotless)
    rw [takeWhile_cons_of_pos (by simpa using Ne.symm here), ih later]

theorem root_member (base property : String) : root (base ++ "." ++ property) = root base := by
  rw [root, root, String.toList_append, String.toList_append, append_assoc]
  generalize base.toList = letters
  induction letters with
  | nil => rfl
  | cons letter rest ih => rw [cons_append, takeWhile_cons, takeWhile_cons, ih]

def endsCurrent (path : String) : Bool := ".current".toList.isSuffixOf path.toList

theorem last_part {letters rest : List Char} (dotless : '.' ∉ letters) : (letters ++ '.' :: rest).takeWhile (· ≠ '.') = letters := by
  induction letters with
  | nil => rfl
  | cons letter others ih =>
    obtain ⟨here, later⟩ := not_or.mp (mt mem_cons.mpr dotless)
    rw [cons_append, takeWhile_cons_of_pos (by simpa using Ne.symm here), ih later]

theorem name_not_current (dotless : '.' ∉ name.toList) : endsCurrent name = false := by
  rw [endsCurrent, Bool.eq_false_iff]
  intro ends
  obtain ⟨early, same⟩ := isSuffixOf_iff_suffix.mp ends
  rw [← same] at dotless
  exact dotless (mem_append_right _ mem_cons_self)

theorem member_not_current {base : String} (dotless : '.' ∉ property.toList) (other : property ≠ "current") :
    endsCurrent (base ++ "." ++ property) = false := by
  rw [endsCurrent, Bool.eq_false_iff]
  intro ends
  obtain ⟨early, same⟩ := isSuffixOf_iff_suffix.mp ends
  -- Read back to front, both texts have their first dot right before the last part.
  have left : (early ++ ".current".toList).reverse = "current".toList.reverse ++ '.' :: early.reverse := by
    rw [reverse_append]
    rfl
  have right : (base ++ "." ++ property).toList.reverse = property.toList.reverse ++ '.' :: base.toList.reverse := by
    rw [String.toList_append, String.toList_append, reverse_append, reverse_append]
    rfl
  have parts := congrArg (·.reverse.takeWhile (· ≠ '.')) same
  simp only [left, right] at parts
  rw [last_part (by decide), last_part (by rwa [mem_reverse])] at parts
  exact other (String.toList_inj.mp (reverse_injective parts)).symm

section
variable {name : String} {node : Value}

theorem path_of_identifier (isKind : node.isA .identifier = true) : node.memberPath = .ok (node.get "name") := by
  cases node with
  | record id fields =>
    rw [Value.memberPath, filed_of_kind (beq_iff_eq.mp isKind)]
    rfl
  | _ => cases isKind

theorem path_of_markup (isKind : node.isA .jsxIdentifier = true) : node.memberPath = .ok .null := by
  cases node with
  | record id fields =>
    rw [Value.memberPath, filed_of_kind (beq_iff_eq.mp isKind)]
    rfl
  | _ => cases isKind

theorem path_of_chain (isKind : node.isA .chainExpression = true) : node.memberPath = (node.get "expression").memberPath := by
  cases node with
  | record id fields =>
    rw [Value.memberPath, filed_of_kind (beq_iff_eq.mp isKind)]
    rfl
  | _ => cases isKind

theorem member_kinds {kind : Option Kind} (isMember : kind.any Kind.isMember = true) :
    kind = some .memberExpression ∨ kind = some .optionalMemberExpression := by
  cases kind with
  | none => cases isMember
  | some kind => cases kind <;> first | exact .inl rfl | exact .inr rfl | cases isMember

theorem path_of_member (isKind : node.kindIs Kind.isMember = true) : node.memberPath =
    if (node.get "computed").given then .ok .null else do
      let base ← (node.get "object").memberPath
      if base.isNull || !(node.get "property").isA .identifier then return .null
      return .str (base.plain ++ "." ++ ((node.get "property").get "name").plain) := by
  cases node with
  | record id fields =>
    rw [Value.memberPath]
    rcases member_kinds isKind with isKind | isKind
    · rw [filed_of_kind isKind]
      rfl
    · rw [filed_of_kind isKind]
      rfl
  | _ => cases isKind

theorem given_of_member (isKind : node.kindIs Kind.isMember = true) (run : node.memberPath = .ok path) :
    path = .null ∨ ∃ base, (node.get "object").memberPath = .ok base ∧ base.isNull = false ∧
      path = .str (base.plain ++ "." ++ ((node.get "property").get "name").plain) := by
  rw [path_of_member isKind] at run
  split at run
  · exact .inl (Except.ok.inj run).symm
  obtain ⟨base, ofObject, run⟩ := bind_ok run
  split at run
  · exact .inl (Except.ok.inj run).symm
  · next given =>
      rw [Bool.or_eq_true, not_or, Bool.not_eq_true] at given
      exact .inr ⟨base, ofObject, given.1, (Except.ok.inj run).symm⟩

end

section
variable {program node : Value}

theorem same_record (distinct : program.Distinct) (isFirst : first ∈ program.records)
    (isSecond : second ∈ program.records) (same : first.same second = true) : first = second := by
  obtain ⟨present, equal⟩ := Bool.and_eq_true_iff.mp same
  obtain ⟨id, isId⟩ := Option.isSome_iff_exists.mp present
  have isIdToo : second.id? = some id := (beq_iff_eq.mp equal).symm.trans isId
  exact distinct.eq_of_identity isFirst isSecond ((Value.identity_of_id isId).trans (Value.identity_of_id isIdToo).symm)

theorem is_record_of_same (same : first.same second = true) : first.isRecord = true := by
  cases first with
  | record id fields => rfl
  | _ => cases same

theorem not_member_of_is_a {kind : Kind} (isKind : node.isA kind = true) (other : kind.isMember = false) :
    node.kindIs Kind.isMember = false := by
  rw [Value.kindIs, beq_iff_eq.mp isKind, Option.any_some, other]

end

-- The members that are read one after the other from a name up to a node, whatever chains stand between.
inductive Reads (name : Value) : List Value → Value → Prop where
  | name : Reads name [] name
  | chain {members : List Value} (chain : Value) (isChain : chain.isA .chainExpression = true)
      (reads : Reads name members (chain.get "expression")) : Reads name members chain
  | member {members : List Value} (member : Value) (isMember : member.kindIs Kind.isMember = true)
      (fixed : (member.get "computed").given = false) (named : (member.get "property").isA .identifier = true)
      (reads : Reads name members (member.get "object")) : Reads name (members ++ [member]) member

def spelledPath (name : String) (members : List Value) : String :=
  members.foldl (fun path member => path ++ "." ++ ((member.get "property").get "name").plain) name

section
variable {name node : Value} {members : List Value}

section
variable (reads : Reads name members node) (isName : name.isA .identifier = true)
include reads isName

theorem Reads.isNode : node.isNode = true := by
  cases reads with
  | name => exact node_of_is_a isName
  | chain _ isChain => exact node_of_is_a isChain
  | member _ isMember => exact is_node_of_kind isMember

theorem Reads.root : node.rootIdentifier = .ok (some name) := by
  induction reads with
  | name =>
    cases name with
    | record id fields =>
      rw [rootIdentifier, filed_of_kind (beq_iff_eq.mp isName)]
      rfl
    | _ => cases isName
  | chain chain isChain _ ih =>
    cases chain with
    | record id fields =>
      rw [rootIdentifier, filed_of_kind (beq_iff_eq.mp isChain)]
      exact ih
    | _ => cases isChain
  | member member isMember _ _ _ ih =>
    cases member with
    | record id fields =>
      rw [rootIdentifier]
      rcases member_kinds isMember with isKind | isKind
      · rw [filed_of_kind isKind]
        exact ih
      · rw [filed_of_kind isKind]
        exact ih
    | _ => cases isMember

theorem Reads.path_eq {text : String}
    (spelled : name.get "name" = .str text) : node.memberPath = .ok (.str (spelledPath text members)) := by
  induction reads with
  | name => rw [path_of_identifier isName, spelled, spelledPath, foldl_nil]
  | chain chain isChain _ ih => rw [path_of_chain isChain, ih]
  | member member isMember fixed named _ ih =>
    rw [path_of_member isMember, fixed, ih, named]
    unfold spelledPath
    rw [foldl_append]
    rfl

end

theorem Reads.no_path (reads : Reads name members node) (isName : name.isA .jsxIdentifier = true) : node.memberPath = .ok .null := by
  induction reads with
  | name => exact path_of_markup isName
  | chain chain isChain _ ih => rw [path_of_chain isChain, ih]
  | member member isMember fixed _ _ ih =>
    rw [path_of_member isMember, fixed, ih]
    rfl

end

-- A member that takes part in a path: its property is neither what a reference object holds nor called.
structure Free (program member : Value) : Prop where
  walked : member ∈ program.walk
  named : (member.get "property").isA .identifier = true
  other : (member.get "property").get "name" ≠ .str "current"
  uncalled : ∀ call ∈ program.walk, call.kindIs Kind.isInvocation = true → chainContent (call.get "callee") ≠ member

-- What a chain stands for lies under chains only.
theorem content_lineage {program value : Value} {above : List Value} (known : (chainContent value).isNode = true)
    (around : value.isNode = true → Lineage program value above) :
    ∃ chains, (∀ chain ∈ chains, chain.isA .chainExpression = true) ∧ Lineage program (chainContent value) (chains ++ above) := by
  fun_induction chainContent value generalizing above with
  | case1 id fields isChain ih =>
    have outer := around (node_of_is_a isChain)
    have inside (isNode : ((Value.record id fields).get "expression").isNode = true) :=
      Lineage.inside _ _ _ outer.walked (child_of_get isNode (by decide)) outer
    obtain ⟨chains, all, inner⟩ := ih known inside
    refine ⟨chains ++ [.record id fields], forall_mem_append.mpr ⟨all, by simpa using isChain⟩, ?_⟩
    rwa [append_assoc]
  | case2 | case3 => exact ⟨[], nofun, around known⟩

section
variable {program name node : Value} {scopes : Scopes} {above members : List Value} (distinct : program.Distinct)
  (isRecord : program.isRecord = true) (parents : scopes.parents = program.parents)
include distinct isRecord parents

theorem called_of_callee {call : Value} (around : Lineage program node above) (isMember : node.kindIs Kind.isMember = true)
    (isCall : call ∈ program.walk) (invokes : call.kindIs Kind.isInvocation = true) (content : chainContent (call.get "callee") = node) :
    isCalled node above = true := by
  obtain ⟨outer, aroundCall⟩ := lineage isCall
  obtain ⟨chains, all, other⟩ := content_lineage (content ▸ is_node_of_kind isMember) fun isNode =>
    .inside _ call outer isCall (child_of_get isNode (by decide)) aroundCall
  rw [content] at other
  have same := (Scopes.ancestors_lineage distinct isRecord parents around).symm.trans (Scopes.ancestors_lineage distinct isRecord parents other)
  have noChain : call.isA .chainExpression = false := by
    rw [Value.isA]
    rw [kindIs] at invokes
    cases isKind : call.kind with
    | none => rfl
    | some kind =>
      rw [isKind] at invokes
      cases kind <;> first | rfl | cases invokes
  have self : node.same node = true := by simp [Value.same, distinct.id (walk_mem_records isRecord around.walked)]
  rw [same, isCalled, dropWhile_append_of_pos all, dropWhile_cons_of_neg (by simp [noChain])]
  simp [invokes, content, self]

theorem assigned_head {assignment : Value} (around : Lineage program node above) (isNode : node.isNode = true)
    (isAssignment : assignment ∈ program.walk) (left : assignment.get "left" = node) : ∃ rest, above = assignment :: rest := by
  obtain ⟨outer, aroundAssignment⟩ := lineage isAssignment
  have other := Lineage.inside node assignment outer isAssignment (left ▸ child_of_get (left ▸ isNode) (by decide)) aroundAssignment
  exact ⟨outer, (Scopes.ancestors_lineage distinct isRecord parents around).symm.trans
    (Scopes.ancestors_lineage distinct isRecord parents other)⟩

variable (chained : ∀ chain ∈ program.walk, chain.isA .chainExpression = true → ∀ child ∈ chain.children, child = chain.get "expression")
include chained

theorem climb_reads (around : Lineage program node above) (reads : Reads name members node) (free : ∀ member ∈ members, Free program member) :
    ∃ members, Reads name members (climb node above).1 ∧ (∀ member ∈ members, Free program member) ∧
      Lineage program (climb node above).1 (climb node above).2 := by
  induction around generalizing members with
  | root => exact ⟨members, reads, free, .root⟩
  | inside node parent above isParent isChild around ih =>
    rw [climb]
    split
    · next isChain =>
        exact ih (.chain parent isChain (chained parent isParent isChain node isChild ▸ reads)) free
    split
    · rename_i climbs
      simp only [readsProperty, Bool.and_eq_true, Bool.not_eq_true'] at climbs
      obtain ⟨⟨⟨⟨⟨isMember, same⟩, fixed⟩, named⟩, other⟩, uncalled⟩ := climbs
      have inside := walk_mem_records isRecord isParent
      have isObject : parent.get "object" = node := same_record distinct ((inner_records_sublist program parent inside).subset
        ((Survey.get_records_inside parent _).subset (mem_records_self (is_record_of_same same))))
        (walk_mem_records isRecord (child_mem_walk isParent isChild)) same
      refine ih (.member parent isMember fixed named (isObject ▸ reads)) (forall_mem_append.mpr ⟨free, ?_⟩)
      rw [forall_mem_singleton]
      refine ⟨isParent, named, fun isCurrent => ?_, fun call isCall invokes content => ?_⟩
      · rw [isCurrent] at other
        cases other
      · rw [called_of_callee distinct isRecord parents around isMember isCall invokes content] at uncalled
        cases uncalled
    · exact ⟨members, reads, free, .inside node parent above isParent isChild around⟩

-- What is not reached from the root has nothing around it.
theorem dependency_node_reads (member : name ∈ program.records) (other : name.kindIs Kind.isMember = false) :
    ∃ members, Reads name members (dependencyNode scopes name) ∧ ∀ member ∈ members, Free program member := by
  by_cases walked : name ∈ program.walk
  · obtain ⟨outer, around⟩ := lineage walked
    obtain ⟨members, reads, free, _⟩ := climb_reads distinct isRecord parents chained around .name nofun
    rw [← Scopes.ancestors_lineage distinct isRecord parents around] at reads
    unfold dependencyNode
    generalize climb name (scopes.ancestors name) = reached at reads
    obtain ⟨node, above⟩ := reached
    dsimp only at reads ⊢
    split
    · rename_i assigned
      have isMember := (Bool.and_eq_true_iff.mp assigned).1
      cases reads with
      | name => cases other.symm.trans isMember
      | chain _ isChain => cases (not_member_of_is_a isChain rfl).symm.trans isMember
      | member _ _ _ _ reads => exact ⟨_, reads, (forall_mem_append.mp free).1⟩
    · exact ⟨members, reads, free⟩
  · have alone : scopes.parent? name = none := by
      rw [Option.eq_none_iff_forall_ne_some]
      intro parent found
      obtain ⟨isParent, isChild⟩ := (Scopes.parent_iff distinct isRecord parents member).mp found
      exact walked (child_mem_walk isParent isChild)
    have outermost : scopes.ancestors name = [] := by
      rw [Scopes.ancestors]
      cases scopes.parents.length with
      | zero => rfl
      | succ fuel => rw [Scopes.ancestorsFrom, alone]
    rw [dependencyNode, outermost, climb]
    simp only [other, Bool.false_and]
    exact ⟨[], .name, nofun⟩

end

theorem spelled_path_rooted {members : List Value} (dotless : '.' ∉ name.toList) (parts : ∀ member ∈ members,
      ∃ property, (member.get "property").get "name" = .str property ∧ '.' ∉ property.toList ∧ property ≠ "current") :
    root (spelledPath name members) = name.toList ∧ endsCurrent (spelledPath name members) = false := by
  induction members using reverseRecOn with
  | nil => exact ⟨root_name dotless, name_not_current dotless⟩
  | append_singleton early member ih =>
    obtain ⟨others, last⟩ := forall_mem_append.mp parts
    obtain ⟨property, isProperty, plain, other⟩ := last member (mem_singleton_self member)
    rw [spelledPath, foldl_append, foldl_cons, foldl_nil, isProperty]
    exact ⟨(root_member _ property).trans (ih others).1, member_not_current plain other⟩

section
variable {program node : Value} {scopes : Scopes} {name : String}

theorem name_kinds (isName : Survey.isName node = true) : node.isA .identifier = true ∨ node.isA .jsxIdentifier = true := by
  unfold Survey.isName Value.kindIs at isName
  cases isKind : node.kind with
  | none =>
    rw [isKind] at isName
    cases isName
  | some kind =>
    rw [isKind, Option.any_some, Bool.or_eq_true, decide_eq_true_iff, decide_eq_true_iff] at isName
    rcases isName with rfl | rfl
    · exact .inl (Survey.is_a_of_kind isKind)
    · exact .inr (Survey.is_a_of_kind isKind)

theorem used_kinds (plain : program.Plain) (member : node ∈ program.records) (used : Survey.Used program.records node) :
    node.isA .identifier = true ∨ node.isA .jsxIdentifier = true := by
  rcases used with isName | ⟨id, fields, isExport, exports, _, _, specifier, isSpecifier, isLocal⟩
  · exact name_kinds isName
  · rw [isLocal] at member ⊢
    exact .inl (plain.exported _ isExport exports specifier isSpecifier (Value.is_record_of_mem_records _ _ member))

theorem spelling_of_name (isName : node.get "name" = .str name) : node.spelling = .str name := by
  cases node with
  | record id fields =>
    change (Fields.find? fields "name").getD .null = .str name at isName
    change (Fields.find? fields "name").getD (.str "") = .str name
    cases found : Fields.find? fields "name" with
    | none =>
      rw [found] at isName
      cases isName
    | some value =>
      rw [found] at isName
      exact isName
  | _ => cases isName

theorem dependency_path_rooted {reference : Reference} {binding : Binding} (surveyed : Survey.Surveyed program scopes)
    (distinct : program.Distinct) (plain : program.Plain) (isRecord : program.isRecord = true)
    (member : reference ∈ scopes.references) (bound : scopes.bindingOf reference = some binding)
    (run : dependencyPath scopes reference binding = .ok path) :
    ∃ name, binding.key = .text name ∧ ∃ text, path = .str text ∧ root text = name.toList ∧ endsCurrent text = false := by
  obtain ⟨isKey, _, scope, isScope, kept⟩ := Survey.bound_kept surveyed bound
  obtain ⟨name, isName, dotless⟩ := plain.named _ (surveyed.within _ scope isScope kept.inside) kept.isName
  have spelled := spelling_of_name isName
  have isText : binding.key = .text name := by
    have keyed := kept.key
    rw [Value.spellingKey, Survey.is_record_of_is_a kept.isName, spelled] at keyed
    exact (Except.ok.inj keyed).symm
  have inside := surveyed.inside reference member
  have kinds := used_kinds plain inside (surveyed.used reference member)
  have other : reference.identifier.kindIs Kind.isMember = false :=
    kinds.elim (not_member_of_is_a · rfl) (not_member_of_is_a · rfl)
  obtain ⟨members, reads, free⟩ := dependency_node_reads distinct isRecord surveyed.parents
    (fun chain walked => plain.chained chain (walk_mem_records isRecord walked)) inside other
  obtain ⟨found, isFound, run⟩ := bind_ok run
  refine ⟨name, isText, ?_⟩
  cases run
  split
  · rename_i given
    rcases kinds with isKind | isKind
    · obtain ⟨text, isSpelled, _⟩ := plain.named _ inside isKind
      rw [Reference.name, spelling_of_name isSpelled, isText] at isKey
      cases isKey
      cases (reads.path_eq isKind isSpelled).symm.trans isFound
      refine ⟨_, rfl, spelled_path_rooted dotless fun member isMember => ?_⟩
      have within := (inner_records_sublist program member (walk_mem_records isRecord (free member isMember).walked)).subset
        ((Survey.get_records_inside member "property").subset (mem_records_self (Survey.is_record_of_is_a (free member isMember).named)))
      obtain ⟨property, isProperty, plainly⟩ := plain.named _ within (free member isMember).named
      exact ⟨property, isProperty, plainly, fun same => (free member isMember).other (same ▸ isProperty)⟩
    · cases (reads.no_path isKind).symm.trans isFound
      cases given
  · rw [kept.name, spelled]
    exact ⟨name, rfl, root_name dotless, name_not_current dotless⟩

end

end Deps

end HookLint
