import HookLint.Proofs.Deps.Convergence
import HookLint.Proofs.Deps.Soundness

namespace HookLint.Deps

open List Value

variable {node : Value} {issue : Issue} {paths : List Value}

-- The list that an issue suggests.
def Issue.suggestion? : Issue → Option Suggestion
  | .memoWithoutList suggestion | .setterWithoutList _ suggestion | .missingList _ suggestion | .complex _ suggestion
  | .missing _ suggestion | .unnecessary _ suggestion => some suggestion
  | .unknownCallback | .asyncEffect | .staleAssignment _ | .notArray => none

-- Where a suggested list comes from: it is put behind a callback that has none, or it takes the place of the old one.
inductive Advised (options : Options) (scopes : Scopes) (pure : List Nat) (required : List Requirement) (callback deps : Value) :
    Suggestion → Prop where
  | added (paths : List Value) (text : String) (missing : deps.isNull = true) (sorted : sortPaths (reactive required) = .ok paths)
      (spelled : listText paths = .ok text) :
      Advised options scopes pure required callback deps ⟨paths, ", " ++ text, insertion? callback⟩
  | mended (declared : Declared) (comparison : Comparison) (paths : List Value) (text : String) (isArray : deps.isA .arrayExpression = true)
      (isDeclared : Deps.declared scopes deps = .ok declared) (isCompared : compare options pure required declared.entries = .ok comparison)
      (corrected : comparison.corrected options = .ok paths) (spelled : listText paths = .ok text) :
      Advised options scopes pure required callback deps ⟨paths, text, deps.span?⟩

section
variable {program callback deps : Value} {registry : Registry} {scopes : Scopes} {unit : CodeUnit} {site : Site} {pure : List Nat}
  {usage : Usage} {findings : List Finding} {finding : Finding} {suggestion : Suggestion}

-- The paths that a callback requires are texts, each there once, and none ends at what a reference object holds.
theorem usage_steady (surveyed : Survey.Surveyed program scopes) (distinct : program.Distinct) (plain : program.Plain)
    (isRecord : program.isRecord = true) (run : usageOf registry scopes pure callback = .ok usage) : Steady usage.required := by
  obtain ⟨references, within, gathered⟩ := usage_gathered run
  have listed := Scopes.references_listed within
  have spelled {requirement : Requirement} (member : requirement ∈ usage.required) :
      ∃ text, requirement.path = .str text ∧ endsCurrent text = false := by
    obtain ⟨reference, isReference, arises⟩ := gathered.arises requirement member
    obtain ⟨bound, _⟩ := Option.filter_eq_some_iff.mp arises.bound
    obtain ⟨_, _, text, isText, _, steady⟩ := dependency_path_rooted surveyed distinct plain isRecord (listed isReference) bound arises.path
    exact ⟨text, isText, steady⟩
  refine ⟨fun path member => ?_, gathered.paths_apart, fun requirement member => ?_⟩
  · obtain ⟨requirement, isRequired, rfl⟩ := mem_map.mp member
    obtain ⟨text, isText, _⟩ := spelled isRequired
    exact ⟨text, isText⟩
  · obtain ⟨text, isText, steady⟩ := spelled member
    rw [isText]
    exact congrArg Except.ok steady

theorem finding_at (run : Finding.at node issue = .ok finding) : finding.issue = issue ∧ node.location = .ok finding.location := by
  obtain ⟨location, isLocation, run⟩ := bind_ok run
  cases run
  exact ⟨rfl, isLocation⟩

theorem issue_of_at (run : Finding.at node issue = .ok finding) : finding.issue = issue := (finding_at run).1

theorem issue_of_when {isThere : Bool} (run : Finding.when isThere node issue = .ok findings)
    (member : finding ∈ findings) : finding.issue = issue := by
  cases isThere with
  | false =>
    cases run
    cases member
  | true =>
    obtain ⟨made, isMade, run⟩ := bind_ok run
    cases run
    rw [mem_singleton.mp member]
    exact issue_of_at isMade

theorem textual_of_text {text : String} (run : listText paths = .ok text) : Textual paths := by
  obtain ⟨texts, spelled, -⟩ := bind_ok run
  have each := map_all_ok spelled
  clear run spelled
  induction each with
  | nil => exact nofun
  | @cons path _ _ _ isText _ ih =>
    refine forall_mem_cons.mpr ⟨?_, ih⟩
    cases path with
    | str content => exact ⟨content, rfl⟩
    | _ => cases isText

-- What is found where there is no list: one finding, with the list that is missing.
theorem without_list_found (run : checkWithoutList registry scopes site callback usage.required = .ok findings)
    (member : finding ∈ findings) :
    ∃ paths text, sortPaths (reactive usage.required) = .ok paths ∧ listText paths = .ok text ∧
      finding.issue.suggestion? = some ⟨paths, ", " ++ text, insertion? callback⟩ ∧
      ∀ setter suggestion, finding.issue = .setterWithoutList setter suggestion → ∃ call,
        setterCallOf? registry scopes (callback.get "body") = .ok (some call) ∧ call.location = .ok finding.location := by
  obtain ⟨paths, isPaths, run⟩ := bind_ok run
  obtain ⟨text, isText, run⟩ := bind_ok run
  refine ⟨paths, text, isPaths, isText, ?_⟩
  have only {node : Value} {issue : Issue} {made : Finding} (isMade : Finding.at node issue = .ok made) (isList : findings = [made]) :
      finding.issue = issue ∧ node.location = .ok finding.location := by
    rw [isList] at member
    rw [mem_singleton.mp member]
    exact finding_at isMade
  split at run
  · obtain ⟨made, isMade, run⟩ := bind_ok run
    rw [(only isMade (Except.ok.inj run).symm).1]
    exact ⟨rfl, nofun⟩
  split at run
  · cases run
    cases member
  obtain ⟨setter, isSetter, run⟩ := bind_ok run
  cases setter with
  | some call =>
    obtain ⟨made, isMade, run⟩ := bind_ok run
    obtain ⟨isIssue, isPlace⟩ := only isMade (Except.ok.inj run).symm
    rw [isIssue]
    exact ⟨rfl, fun _ _ _ => ⟨call, isSetter, isPlace⟩⟩
  | none =>
    dsimp only at run
    split at run
    · cases run
      cases member
    · obtain ⟨made, isMade, run⟩ := bind_ok run
      rw [(only isMade (Except.ok.inj run).symm).1]
      exact ⟨rfl, nofun⟩

theorem list_found {options : Options} {required : List Requirement} (run : checkList options scopes pure required deps = .ok findings)
    (isArray : deps.isA .arrayExpression = true) (member : finding ∈ findings) :
    (∀ setter suggestion, finding.issue ≠ .setterWithoutList setter suggestion) ∧
      ∃ suggestion, finding.issue.suggestion? = some suggestion ∧ Advised options scopes pure required callback deps suggestion := by
  obtain ⟨declared, isDeclared, run⟩ := bind_ok run
  obtain ⟨comparison, isCompared, run⟩ := bind_ok run
  split at run
  · cases run
    cases member
  obtain ⟨paths, isPaths, run⟩ := bind_ok run
  obtain ⟨text, isText, run⟩ := bind_ok run
  obtain ⟨complex, isComplex, run⟩ := bind_ok run
  obtain ⟨missing, isMissing, run⟩ := bind_ok run
  obtain ⟨unnecessary, isUnnecessary, run⟩ := bind_ok run
  cases run
  have origin : Advised options scopes pure required callback deps ⟨paths, text, deps.span?⟩ :=
    .mended declared comparison paths text isArray isDeclared isCompared isPaths isText
  rcases mem_append.mp member with early | isOne
  · rcases mem_append.mp early with isOne | isOne
    · obtain ⟨element, _, made⟩ := mem_of_map_all isComplex isOne
      rw [issue_of_at made]
      exact ⟨nofun, _, rfl, origin⟩
    · rw [issue_of_when isMissing isOne]
      exact ⟨nofun, _, rfl, origin⟩
  · rw [issue_of_when isUnnecessary isOne]
    exact ⟨nofun, _, rfl, origin⟩

-- Where a list is suggested, nothing is assigned to. A setter that is called is pointed out only where there is no list.
theorem beside_suggests (run : checkBeside registry scopes pure site callback deps usage = .ok findings)
    (member : finding ∈ findings) (suggests : finding.issue.suggestion? = some suggestion) :
    usage.writes = [] ∧ Advised registry.options scopes pure usage.required callback deps suggestion ∧
      ∀ setter suggestion, finding.issue = .setterWithoutList setter suggestion → deps.isNull = true ∧ ∃ call,
        setterCallOf? registry scopes (callback.get "body") = .ok (some call) ∧ call.location = .ok finding.location := by
  unfold checkBeside at run
  split at run
  · obtain ⟨write, _, made⟩ := mem_of_map_all run member
    rw [issue_of_at made] at suggests
    cases suggests
  rename_i writes
  rw [Bool.not_eq_true, Bool.not_eq_false'] at writes
  refine ⟨isEmpty_iff.mp writes, ?_⟩
  split at run
  · next missing =>
      obtain ⟨paths, text, sorted, spelled, isSuggested, calls⟩ := without_list_found run member
      cases isSuggested.symm.trans suggests
      exact ⟨.added paths text missing sorted spelled, fun setter other isSetter => ⟨missing, calls setter other isSetter⟩⟩
  split at run
  · obtain ⟨made, isMade, run⟩ := bind_ok run
    cases run
    rw [mem_singleton.mp member, issue_of_at isMade] at suggests
    cases suggests
  · next array =>
      obtain ⟨noSetter, other, isOther, advised⟩ := list_found run (by simpa using array) member
      cases isOther.symm.trans suggests
      exact ⟨advised, fun setter other isSetter => absurd isSetter (noSetter setter other)⟩

theorem path_text (plain : program.Plain) (node : Value) (inside : node.records ⊆ program.records) {path : Value}
    (run : node.memberPath = .ok path) : path = .null ∨ ∃ text, path = .str text := by
  match node with
  | .record id fields =>
    have deeper (key : String) : (Fields.get fields key).records ⊆ program.records := fun _ member =>
      inside (mem_cons_of_mem _ ((Value.get_records_sublist fields key).subset member))
    have content := Value.sizeOf_get_record id fields "expression"
    have member (isMember : (Value.record id fields).kindIs Kind.isMember = true) : path = .null ∨ ∃ text, path = .str text := by
      rcases given_of_member isMember run with missing | ⟨_, _, _, isPath⟩
      · exact .inl missing
      · exact .inr ⟨_, isPath⟩
    rw [Value.memberPath] at run
    obtain ⟨kind, filed, run⟩ := bind_ok run
    have isKind := filed_kind filed
    split at run
    · obtain ⟨text, isText, _⟩ := plain.named _ (inside mem_cons_self) (Survey.is_a_of_kind isKind)
      cases run
      exact .inr ⟨text, isText⟩
    · exact path_text plain _ (deeper "expression") run
    · exact member (by rw [Value.kindIs, isKind]; rfl)
    · exact member (by rw [Value.kindIs, isKind]; rfl)
    · split at run
      · exact path_text plain _ (deeper "expression") run
      · cases run
        exact .inl rfl
    · cases run
      exact .inl rfl
  | .null | .bool _ | .int _ | .float _ | .str _ | .list _ =>
    simp only [Value.memberPath] at run
    cases run
    exact .inl rfl
termination_by sizeOf node
decreasing_by all_goals exact content

theorem root_of_path (node : Value) {path : Value} (run : node.memberPath = .ok path) (given : path.isNull = false) :
    ∃ root, node.rootIdentifier = .ok (some root) := by
  match node with
  | .record id fields =>
    have content := Value.sizeOf_get_record id fields "expression"
    have object := Value.sizeOf_get_record id fields "object"
    have member (isMember : (Value.record id fields).kindIs Kind.isMember = true) :
        ∃ root, (Fields.get fields "object").rootIdentifier = .ok (some root) := by
      rcases given_of_member isMember run with rfl | ⟨base, ofObject, isGiven, _⟩
      · cases given
      · exact root_of_path _ ofObject isGiven
    rw [Value.memberPath] at run
    rw [Value.rootIdentifier]
    obtain ⟨kind, filed, run⟩ := bind_ok run
    have isKind := filed_kind filed
    rw [bind_of filed]
    split at run
    · exact ⟨_, rfl⟩
    · exact root_of_path _ run given
    · exact member (by rw [Value.kindIs, isKind]; rfl)
    · exact member (by rw [Value.kindIs, isKind]; rfl)
    · rename_i other _ _ _ _
      split at run
      · next wraps =>
          obtain ⟨root, isRoot⟩ := root_of_path _ run given
          refine ⟨root, ?_⟩
          cases other <;> first | exact isRoot | cases wraps
      · cases run
        cases given
    · cases run
      cases given
  | .null | .bool _ | .int _ | .float _ | .str _ | .list _ =>
    simp only [Value.memberPath] at run
    cases run
    cases given
termination_by sizeOf node
decreasing_by all_goals first | exact content | exact object

theorem spelled_entries {elements : List Value} (textual : Textual paths) (spelled : elements.mapM memberPath = .ok paths) :
    ∃ declared, Declared.ofElements scopes elements = .ok declared ∧ declared.complex = [] ∧ declared.entries.map (·.path) = paths := by
  have each := map_all_ok spelled
  clear spelled
  induction each with
  | nil => exact ⟨{}, rfl, rfl, rfl⟩
  | @cons element path rest others isPath _ ih =>
    obtain ⟨⟨text, rfl⟩, laterTextual⟩ := forall_mem_cons.mp textual
    obtain ⟨later, isLater, plain, same⟩ := ih laterTextual
    obtain ⟨root, isRoot⟩ := root_of_path element isPath rfl
    have notNull : element.isNull = false := by
      have isRecord := record_of_path isPath rfl
      cases element with
      | record id fields => rfl
      | _ => cases isRecord
    refine ⟨{ entries := { path := .str text, binding := scopes.resolve root } :: later.entries, complex := later.complex }, ?_, plain, ?_⟩
    · rw [Declared.ofElements, notNull, if_neg Bool.false_ne_true, bind_of isPath, if_neg (show ¬ (Value.str text).isNull = true from Bool.false_ne_true)]
      exact (bind_of isRoot).trans ((bind_of isLater).trans rfl)
    · rw [map_cons, same]

end

end HookLint.Deps
