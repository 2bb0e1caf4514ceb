import HookLint.Deps.Report
import HookLint.Proofs.Deps.Amending

namespace HookLint

open List

-- Whether a stretch of the text lies inside another one.
def Span.within (inner outer : Span) : Bool :=
  match outer.start.int?, inner.start.int?, inner.stop.int?, outer.stop.int? with
  | some first, some start, some stop, some last => first ≤ start && start ≤ stop && stop ≤ last
  | _, _, _, _ => false

theorem Span.within_iff {inner outer : Span} : inner.within outer = true ↔ ∃ first start stop last : Int, outer.start.int? = some first ∧
    inner.start.int? = some start ∧ inner.stop.int? = some stop ∧ outer.stop.int? = some last ∧ first ≤ start ∧ start ≤ stop ∧ stop ≤ last := by
  unfold within
  split
  · next first start stop last isFirst isStart isStop isLast => simp [isFirst, isStart, isStop, isLast, and_assoc]
  · next other =>
      refine ⟨by simp, ?_⟩
      rintro ⟨first, start, stop, last, isFirst, isStart, isStop, isLast, _⟩
      exact absurd isLast (other first start stop last isFirst isStart isStop)

theorem Span.within_trans {inner middle outer : Span} (first : inner.within middle = true) (second : middle.within outer = true) :
    inner.within outer = true := by
  obtain ⟨low, start, stop, high, isLow, isStart, isStop, isHigh, ordered⟩ := within_iff.mp first
  obtain ⟨lowest, low', high', highest, isLowest, isLow', isHigh', isHighest, around⟩ := within_iff.mp second
  cases isLow.symm.trans isLow'
  cases isHigh.symm.trans isHigh'
  exact within_iff.mpr ⟨lowest, start, stop, highest, isLowest, isStart, isStop, isHighest, by omega⟩

theorem Span.stop_within {inner outer : Span} (within : inner.within outer = true) :
    (Span.mk inner.stop inner.stop).within inner = true := by
  obtain ⟨_, start, stop, _, _, isStart, isStop, _, _, ordered, _⟩ := within_iff.mp within
  exact within_iff.mpr ⟨start, stop, stop, stop, isStart, isStop, isStop, isStop, ordered, Int.le_refl _, Int.le_refl _⟩

namespace Value

-- Whether a node, as far as it has a range, lies inside the range of another one.
def inside (node outer : Value) : Bool :=
  node.span?.all fun span => outer.span?.any span.within

-- Whether the range of every node lies inside that of the node around it.
def rangesNest (program : Value) : Bool := program.walk.all fun node => node.children.all (·.inside node)

section
variable {program node inner outer : Value}

theorem inside_iff : node.inside outer = true ↔
    ∀ span, node.span? = some span → ∃ around, outer.span? = some around ∧ span.within around = true := by
  cases own : node.span? <;> simp [inside, own, Option.any_eq_true]

theorem inside_trans (first : inner.inside node = true) (second : node.inside outer = true) : inner.inside outer = true := by
  refine inside_iff.mpr fun span isSpan => ?_
  obtain ⟨middle, isMiddle, within⟩ := inside_iff.mp first span isSpan
  obtain ⟨around, isAround, withinToo⟩ := inside_iff.mp second middle isMiddle
  exact ⟨around, isAround, Span.within_trans within withinToo⟩

theorem child_inside (nested : program.rangesNest = true) (member : node ∈ program.walk) (isChild : inner ∈ node.children) :
    inner.inside node = true :=
  all_eq_true.mp (all_eq_true.mp nested node member) inner isChild

theorem unwrapped_inside (nested : program.rangesNest = true) (node : Value) (member : node ∈ program.walk)
    (within : node.inside outer = true) (run : node.unwrap = .ok inner) (isNode : inner.isNode = true) : inner.inside outer = true := by
  match node with
  | .record id fields =>
    rw [unwrap] at run
    obtain ⟨wraps, filed, run⟩ := bind_ok run
    cases wraps with
    | false =>
      cases run
      exact within
    | true =>
      have smaller := sizeOf_get_record id fields "expression"
      have isChild : Fields.get fields "expression" ∈ (record id fields).children :=
        get_among_children (Survey.unwrapped_node run isNode) (by decide)
      exact unwrapped_inside nested _ (child_mem_walk member isChild) (inside_trans (child_inside nested member isChild) within) run isNode
  | .null | .bool _ | .int _ | .float _ | .str _ | .list _ =>
    simp only [unwrap] at run
    cases run
    cases isNode
termination_by sizeOf node
decreasing_by exact smaller

end

end Value

theorem Site.argument_inside {program index argument inner : Value} {site : Site} (nested : program.rangesNest = true)
    (held : site.call ∈ program.walk) (given : site.argument index = .ok argument) (unwrapped : argument.unwrap = .ok inner)
    (isNode : inner.isNode = true) : inner.inside site.call = true := by
  have listed := argument_listed given (Survey.unwrapped_node unwrapped isNode)
  have isChild : argument ∈ site.call.children := by
    cases isCall : site.call with
    | record id fields =>
      rw [isCall] at listed
      exact Value.part_among_children listed (Survey.unwrapped_node unwrapped isNode) (by decide)
    | _ =>
      rw [isCall] at listed
      cases listed
  exact Value.unwrapped_inside nested argument (Value.child_mem_walk held isChild) (Value.child_inside nested held isChild) unwrapped isNode

namespace Deps

section
variable {registry : Registry} {scopes : Scopes} {unit : CodeUnit} {site : Site} {findings : List Finding} {finding : Finding}
  {diagnostics : List Diagnostic} {diagnostic : Diagnostic} {suggestion : Suggestion} {handed deps callback : Value} {usage : Usage}
  {pure : List Nat}

theorem held_is_function {binding : Binding} (run : heldFunction? binding = .ok (some callback)) : callback.isFunction = true := by
  unfold heldFunction? at run
  dsimp only at run
  split at run
  · next declares =>
      cases run
      rw [Value.isFunction, Value.kindIs, beq_iff_eq.mp (Bool.and_eq_true_iff.mp declares).2]
      rfl
  split at run
  · obtain ⟨init, _, run⟩ := bind_ok run
    split at run
    · cases run
      assumption
    · cases run
  · cases run

theorem resolved_function (run : resolveCallback scopes handed deps = .ok (.function callback)) : callback.isFunction = true ∧
    (handed.isFunction = true ∧ callback = handed ∨ handed.isA .identifier = true ∧
      ∃ binding, scopes.resolve handed = some binding ∧ heldFunction? binding = .ok (some callback)) := by
  unfold resolveCallback at run
  split at run
  · cases run
  split at run
  · next isFunction =>
      cases run
      exact ⟨isFunction, .inl ⟨isFunction, rfl⟩⟩
  split at run
  · cases run
  rename_i isName
  obtain ⟨listed, _, run⟩ := bind_ok run
  cases listed with
  | true => cases run
  | false =>
    cases bound : scopes.resolve handed with
    | none =>
      rw [bound] at run
      cases run
    | some binding =>
      rw [bound] at run
      obtain ⟨held, isHeld, run⟩ := bind_ok run
      cases held with
      | none => cases run
      | some function =>
        cases run
        exact ⟨held_is_function isHeld, .inr ⟨by simpa using isName, binding, rfl, isHeld⟩⟩

theorem diagnostic_finding (run : finding.diagnostic site = .ok diagnostic) : diagnostic.location = finding.location ∧
    diagnostic.suggestion = finding.issue.suggestion? ∧ (diagnostic.kind = .setterWithoutDependencies →
      ∃ setter suggestion, finding.issue = .setterWithoutList setter suggestion) := by
  obtain ⟨issue, location⟩ := finding
  cases issue with
  | missingList | missing | unnecessary =>
    obtain ⟨text, _, run⟩ := bind_ok run
    cases run
    exact ⟨rfl, rfl, nofun⟩
  | setterWithoutList setter suggestion =>
    cases run
    exact ⟨rfl, rfl, fun _ => ⟨setter, suggestion, rfl⟩⟩
  | _ =>
    cases run
    exact ⟨rfl, rfl, nofun⟩

-- What is said about a call beyond the callback itself comes from the list beside it.
theorem check_beside (run : check registry scopes unit site = .ok findings) (member : finding ∈ findings)
    (known : finding.issue ≠ .unknownCallback) (other : finding.issue ≠ .asyncEffect) :
    ∃ (seen : Seen scopes unit site) (usage : Usage) (others : List Finding),
      resolveCallback scopes seen.handed seen.deps = .ok (.function seen.callback) ∧
      usageOf registry scopes seen.inside seen.callback = .ok usage ∧
      checkBeside registry scopes seen.inside site seen.callback seen.deps usage = .ok others ∧ finding ∈ others := by
  obtain ⟨argument, given, run⟩ := bind_ok run
  obtain ⟨handed, unwrapped, run⟩ := bind_ok run
  obtain ⟨list, givenList, run⟩ := bind_ok run
  obtain ⟨deps, unwrappedList, run⟩ := bind_ok run
  obtain ⟨found, isFound, run⟩ := bind_ok run
  cases found with
  | none =>
    cases run
    cases member
  | unknown =>
    obtain ⟨made, isMade, run⟩ := bind_ok run
    cases run
    rw [mem_singleton.mp member] at known
    exact absurd (issue_of_at isMade) known
  | function callback =>
    obtain ⟨inside, around, run⟩ := bind_ok run
    obtain ⟨usage, isUsage, run⟩ := bind_ok run
    obtain ⟨async, isAsync, run⟩ := bind_ok run
    obtain ⟨others, isOthers, run⟩ := bind_ok run
    cases run
    obtain ⟨references, within, _⟩ := bind_ok isUsage
    exact ⟨⟨handed, deps, callback, inside, references, ⟨argument, given, unwrapped⟩, ⟨list, givenList, unwrappedList⟩, around, within⟩,
      usage, others, isFound, isUsage, isOthers, (mem_append.mp member).resolve_left fun early => other (issue_of_when isAsync early)⟩

theorem review_beside (run : reviewSite registry scopes unit site = .ok diagnostics) (member : diagnostic ∈ diagnostics)
    (suggests : diagnostic.suggestion = some suggestion) :
    ∃ (seen : Seen scopes unit site) (usage : Usage), resolveCallback scopes seen.handed seen.deps = .ok (.function seen.callback) ∧
      usageOf registry scopes seen.inside seen.callback = .ok usage ∧
      Advised registry.options scopes seen.inside usage.required seen.callback seen.deps suggestion := by
  obtain ⟨findings, checked, run⟩ := bind_ok run
  obtain ⟨finding, isFinding, made⟩ := mem_of_map_all run member
  rw [(diagnostic_finding made).2.1] at suggests
  obtain ⟨seen, usage, others, isFound, isUsage, isOthers, isOther⟩ := check_beside checked isFinding
    (fun same => by rw [same] at suggests; cases suggests) (fun same => by rw [same] at suggests; cases suggests)
  exact ⟨seen, usage, isFound, isUsage, (beside_suggests isOthers isOther suggests).2.1⟩

end

-- A component with three effects: one is handed a function by its name, one has a list with more than it needs, and the function of
-- one returns another function.
def placed (id : Nat) (kind : String) (start stop : Int) (fields : Fields) : Value :=
  .record id (("type", .str kind) :: ("range", .list [.int start, .int stop]) :: fields)

def shownMember (id : Nat) (place : Int) : Value := placed id "MemberExpression" place (place + 8) [
  ("object", placedName (id + 1) "props" place), ("property", placedName (id + 2) "id" (place + 6)), ("computed", .bool false)]

def arrow (id : Nat) (start stop : Int) (body : Value) : Value :=
  placed id "ArrowFunctionExpression" start stop [("params", .list []), ("body", body)]

def effectOf (id : Nat) (start stop : Int) (handed : List Value) : Value := placed id "CallExpression" start stop [
  ("callee", placedName (id + 1) "useEffect" start), ("arguments", .list handed)]

def declares (id : Nat) (start stop : Int) (target init : Value) : Value := placed id "VariableDeclaration" start stop [
  ("kind", .str "const"), ("declarations", .list [placed (id + 1) "VariableDeclarator" start stop [("id", target), ("init", init)]])]

def namedEffect : Value := effectOf 30 86 101 [placedName 32 "save" 96]

def listedEffect : Value := effectOf 40 103 154 [arrow 42 113 127 (shownMember 43 119),
  placed 46 "ArrayExpression" 129 153 [("elements", .list [shownMember 47 130, placedName 50 "props" 140, placedName 51 "props" 147])]]

def returnedFunction : Value := arrow 63 172 185 (placed 64 "CallExpression" 178 185 [
  ("callee", placedName 65 "setN" 178), ("arguments", .list [])])

def returningEffect : Value := effectOf 60 156 186 [arrow 62 166 185 returnedFunction]

def formComponent : Value := placed 2 "FunctionDeclaration" 0 188 [("id", placedName 3 "Form" 9), ("params", .list [placedName 4 "props" 14]),
  ("body", placed 5 "BlockStatement" 21 188 [("body", .list [
    declares 6 23 52 (placed 8 "ArrayPattern" 29 38 [("elements", .list [placedName 9 "n" 30, placedName 10 "setN" 33])])
      (placed 11 "CallExpression" 41 51 [("callee", placedName 12 "useState" 41), ("arguments", .list [])]),
    declares 13 53 85 (placedName 15 "save" 59) (arrow 16 66 80 (shownMember 17 72)),
    placed 20 "ExpressionStatement" 86 102 [("expression", namedEffect)],
    placed 21 "ExpressionStatement" 103 155 [("expression", listedEffect)],
    placed 22 "ExpressionStatement" 156 187 [("expression", returningEffect)]])])]

def formProgram : Value := placed 1 "Program" 0 188 [("body", .list [formComponent])]

def reviewForm (scopes : Scopes) (call : Value) : Except Fault (List Diagnostic) :=
  reviewSite {} scopes { node := formComponent } { effectSite with call := call }

def formFacts (scopes : Scopes) : Bool :=
  (match reviewForm scopes namedEffect with
    | .ok [⟨_, _, _, _, _, _, _, _, some ⟨_, _, some ⟨.int 80, .int 80⟩⟩⟩] => true
    | _ => false)
  && (match reviewForm scopes listedEffect with
    | .ok [⟨_, _, _, _, _, _, _, _, some ⟨[.str "props"], _, some ⟨.int 129, .int 153⟩⟩⟩] => true
    | _ => false)
  && match reviewForm scopes returningEffect with
    | .ok [⟨.setterWithoutDependencies, _, _, _, _, _, _, _, _⟩] => true
    | _ => false

theorem form_facts : formProgram.rangesNest = true ∧ (match Scopes.ofProgram formProgram with
    | .ok scopes => formFacts scopes
    | .error _ => false) = true := by
  decide +kernel

theorem form_reviewed : ∃ scopes, Scopes.ofProgram formProgram = .ok scopes ∧
    (∃ diagnostic suggestion, reviewForm scopes namedEffect = .ok [diagnostic] ∧ diagnostic.suggestion = some suggestion ∧
      suggestion.span = some ⟨.int 80, .int 80⟩) ∧
    (∃ diagnostic suggestion, reviewForm scopes listedEffect = .ok [diagnostic] ∧ diagnostic.suggestion = some suggestion ∧
      suggestion.dependencies = [.str "props"]) ∧
    ∃ diagnostic, reviewForm scopes returningEffect = .ok [diagnostic] ∧ diagnostic.kind = .setterWithoutDependencies := by
  have facts := form_facts.2
  split at facts
  case h_2 => cases facts
  case h_1 scopes surveyed =>
  obtain ⟨facts, third⟩ := Bool.and_eq_true_iff.mp facts
  obtain ⟨first, second⟩ := Bool.and_eq_true_iff.mp facts
  refine ⟨scopes, surveyed, ?_, ?_, ?_⟩
  · split at first
    · exact ⟨_, _, by assumption, rfl, rfl⟩
    · cases first
  · split at second
    · exact ⟨_, _, by assumption, rfl, rfl⟩
    · cases second
  · split at third
    · exact ⟨_, by assumption, rfl⟩
    · cases third

-- A suggested list covers what is required and has no entry twice. One that takes the place of another list has no entry below
-- another entry; one that is put behind a callback has exactly the paths that are required.
theorem suggested_lists_cover (registry : Registry) (scopes : Scopes) (unit : CodeUnit) (site : Site)
    (lax : registry.options.strictMembers = false) (diagnostics : List Diagnostic)
    (run : reviewSite registry scopes unit site = .ok diagnostics) (diagnostic : Diagnostic) (member : diagnostic ∈ diagnostics)
    (suggestion : Suggestion) (suggests : diagnostic.suggestion = some suggestion) :
    ∃ (seen : Seen scopes unit site) (usage : Usage), resolveCallback scopes seen.handed seen.deps = .ok (.function seen.callback) ∧
      usageOf registry scopes seen.inside seen.callback = .ok usage ∧ suggestion.dependencies.Nodup ∧
      (∀ path ∈ reactive usage.required, ∃ other ∈ suggestion.dependencies, other = path ∨ isAncestor other path = .ok true) ∧
      (seen.deps.isNull = false → ∀ path ∈ suggestion.dependencies, ∀ other ∈ suggestion.dependencies, isAncestor other path = .ok false) ∧
      (seen.deps.isNull = true → suggestion.dependencies.Perm (reactive usage.required)) := by
  obtain ⟨seen, usage, isFound, isUsage, advised⟩ := review_beside run member suggests
  obtain ⟨_, _, gathered⟩ := usage_gathered isUsage
  refine ⟨seen, usage, isFound, isUsage, ?_⟩
  have covering {entries : List Declaration} {paths : List Value}
      (settled : Settled registry.options seen.inside usage.required entries paths) :
      ∀ path ∈ reactive usage.required, ∃ other ∈ paths, other = path ∨ isAncestor other path = .ok true := by
    intro path isReactive
    obtain ⟨other, isOther, covers⟩ := settled.covers path isReactive
    refine ⟨other, isOther, ?_⟩
    rcases covers with same | ⟨_, above⟩
    · obtain ⟨text, rfl⟩ := settled.textual other isOther
      exact .inl (equal_of_text (Bool.and_eq_true_iff.mp same).2).symm
    · exact .inr above
  cases advised with
  | added paths text missing sorted spelled =>
    have settled : Settled registry.options seen.inside usage.required [] paths :=
      reactive_settled gathered.paths_apart (textual_of_text spelled) sorted
    refine ⟨settled.apart, covering settled, fun given => ?_, fun _ => sort_by_perm sorted⟩
    rw [missing] at given
    cases given
  | mended declared comparison paths text isArray isDeclared isCompared corrected spelled =>
    have textual := textual_of_text spelled
    have settled := corrected_settled gathered.paths_apart textual isCompared corrected
    refine ⟨settled.apart, covering settled, fun _ => collapse_flat lax corrected textual, fun missing => ?_⟩
    cases isDeps : seen.deps with
    | null =>
      rw [isDeps] at isArray
      cases isArray
    | _ =>
      rw [isDeps] at missing
      cases missing

theorem trimmed_list_covers : ∃ scopes diagnostic suggestion, Scopes.ofProgram formProgram = .ok scopes ∧
    reviewForm scopes listedEffect = .ok [diagnostic] ∧ diagnostic.suggestion = some suggestion ∧
    suggestion.dependencies = [.str "props"] ∧ ∃ inside callback usage, usageOf {} scopes inside callback = .ok usage ∧
      ∀ path ∈ reactive usage.required, ∃ other ∈ suggestion.dependencies, other = path ∨ isAncestor other path = .ok true := by
  obtain ⟨scopes, surveyed, _, ⟨diagnostic, suggestion, run, suggests, isList⟩, _⟩ := form_reviewed
  obtain ⟨seen, usage, _, isUsage, _, covers, _⟩ :=
    suggested_lists_cover {} scopes _ _ rfl _ run diagnostic mem_cons_self suggestion suggests
  exact ⟨scopes, diagnostic, suggestion, surveyed, run, suggests, isList, seen.inside, seen.callback, usage, isUsage, covers⟩

-- The range of a suggestion is that of the list, which lies inside the call, or the end of the callback, which may be a function
-- that a name in the call is bound to.
theorem suggestion_ranges (program : Value) (registry : Registry) (scopes : Scopes) (unit : CodeUnit) (site : Site)
    (nested : program.rangesNest = true) (held : site.call ∈ program.walk) (diagnostics : List Diagnostic)
    (run : reviewSite registry scopes unit site = .ok diagnostics) (diagnostic : Diagnostic) (member : diagnostic ∈ diagnostics)
    (suggestion : Suggestion) (suggests : diagnostic.suggestion = some suggestion) (span : Span) (ranged : suggestion.span = some span) :
    ∃ seen : Seen scopes unit site, resolveCallback scopes seen.handed seen.deps = .ok (.function seen.callback) ∧
      (seen.deps.isA .arrayExpression = true ∧ seen.deps.span? = some span ∧
          (∃ around, site.call.span? = some around ∧ span.within around = true) ∨
        seen.deps.isNull = true ∧ (∃ own, seen.callback.span? = some own ∧ span = ⟨own.stop, own.stop⟩) ∧
          (seen.handed.isFunction = true ∧ seen.callback = seen.handed ∧
              (∃ around, site.call.span? = some around ∧ span.within around = true) ∨
            seen.handed.isA .identifier = true ∧
              ∃ binding, scopes.resolve seen.handed = some binding ∧ heldFunction? binding = .ok (some seen.callback))) := by
  obtain ⟨seen, usage, isFound, _, advised⟩ := review_beside run member suggests
  refine ⟨seen, isFound, ?_⟩
  cases advised with
  | mended declared comparison paths text isArray =>
    obtain ⟨argument, given, unwrapped⟩ := seen.beside
    have isKind : seen.deps.kindIs (· = .arrayExpression) = true := by
      rw [Value.kindIs, beq_iff_eq.mp isArray]
      rfl
    have within := Site.argument_inside nested held given unwrapped (Value.is_node_of_kind isKind)
    exact .inl ⟨isArray, ranged, Value.inside_iff.mp within span ranged⟩
  | added paths text missing =>
    obtain ⟨own, isOwn, stops⟩ := Option.bind_eq_some_iff.mp ranged
    split at stops
    · cases stops
    cases stops
    refine .inr ⟨missing, ⟨own, isOwn, rfl⟩, ?_⟩
    rcases (resolved_function isFound).2 with ⟨isFunction, same⟩ | named
    · obtain ⟨argument, given, unwrapped⟩ := seen.given
      have within := Site.argument_inside nested held given unwrapped (Value.is_node_of_kind isFunction)
      rw [same] at isOwn
      obtain ⟨around, isAround, inside⟩ := Value.inside_iff.mp within own isOwn
      exact .inl ⟨isFunction, same, around, isAround, Span.within_trans (Span.stop_within inside) inside⟩
    · exact .inr named

theorem named_effect_walked : namedEffect ∈ formProgram.walk := by
  have step {node child : Value} (place : Nat) (member : node ∈ formProgram.walk) (isChild : node.children[place]? = some child) :
      child ∈ formProgram.walk := Value.child_mem_walk member (mem_of_getElem? isChild)
  have component : formComponent ∈ formProgram.walk := step 0 (Value.mem_walk_self _) rfl
  exact step 0 (step 2 (step 2 component rfl) rfl) rfl

theorem named_callback_range : ∃ scopes diagnostic suggestion span around, Scopes.ofProgram formProgram = .ok scopes ∧
    reviewForm scopes namedEffect = .ok [diagnostic] ∧ diagnostic.suggestion = some suggestion ∧ suggestion.span = some span ∧
    namedEffect.span? = some around ∧ span.within around = false ∧
      ∃ callback binding own, heldFunction? binding = .ok (some callback) ∧ callback.span? = some own ∧ own.stop = span.start := by
  obtain ⟨scopes, surveyed, ⟨diagnostic, suggestion, run, suggests, ranged⟩, _⟩ := form_reviewed
  have outside (inside : ∃ around, namedEffect.span? = some around ∧ (Span.mk (.int 80) (.int 80)).within around = true) : False := by
    obtain ⟨around, isAround, within⟩ := inside
    cases isAround
    cases within
  obtain ⟨seen, _, ⟨_, _, inside⟩ | ⟨_, ⟨own, isOwn, isSpan⟩, ⟨_, _, inside⟩ | ⟨_, binding, _, holds⟩⟩⟩ := suggestion_ranges formProgram {} scopes
    { node := formComponent } { effectSite with call := namedEffect } form_facts.1
    named_effect_walked _ run diagnostic mem_cons_self suggestion suggests _ ranged
  · exact (outside inside).elim
  · exact (outside inside).elim
  · exact ⟨scopes, diagnostic, suggestion, _, _, surveyed, run, suggests, ranged, rfl, rfl, seen.callback, binding, own, holds, isOwn,
      (congrArg Span.start isSpan).symm⟩

section
variable {registry : Registry} {scopes : Scopes} {call body : Value}

theorem setter_call_found {nodes : List Value} (run : setterCall? registry scopes nodes = .ok (some call)) :
    call ∈ nodes ∧ call.kindIs Kind.isCall = true ∧
      ∃ binding, scopes.resolve (call.get "callee") = some binding ∧ registry.isStateSetter scopes binding = .ok true := by
  induction nodes with
  | nil => cases run
  | cons node rest ih =>
    have later (run : setterCall? registry scopes rest = .ok (some call)) := (ih run).imp_left (mem_cons_of_mem node)
    rw [setterCall?] at run
    dsimp only at run
    split at run
    · rename_i isCall
      cases bound : scopes.resolve (node.get "callee") with
      | none =>
        rw [bound] at run
        exact later run
      | some binding =>
        rw [bound] at run
        obtain ⟨sets, isSets, run⟩ := bind_ok run
        cases sets with
        | false => exact later run
        | true =>
          cases run
          exact ⟨mem_cons_self, (Bool.and_eq_true_iff.mp isCall).1, binding, bound, isSets⟩
    · exact later run

theorem call_no_function (isCall : call.kindIs Kind.isCall = true) : call.isFunction = false := by
  unfold Value.kindIs at isCall
  unfold Value.isFunction Value.kindIs
  generalize call.kind = kind at isCall
  cases kind with
  | none => rfl
  | some kind => cases kind <;> first | rfl | cases isCall

-- The walk through a body opens its root, whatever that is, and nothing below it that is a function.
theorem own_enclosed {callback : Value} (own : call ∈ (callback.get "body").walkOwn) (isCall : call.kindIs Kind.isCall = true) :
    ((callback.get "body").isFunction = true → (callback.get "body").Encloses call) ∧
      ((callback.get "body").isNode = true → (callback.get "body").isFunction = false → callback.Encloses call) := by
  have below : call = callback.get "body" ∨ (callback.get "body").Encloses call :=
    (mem_cons.mp own).imp_right (Value.walk_own_all_reached _ call)
  constructor
  · intro isFunction
    refine below.resolve_left fun same => ?_
    rw [← same, call_no_function isCall] at isFunction
    cases isFunction
  intro isNode isOwn
  have isChild : callback.get "body" ∈ callback.children := by
    cases callback with
    | record id fields => exact Value.get_among_children isNode (by decide)
    | _ => cases isNode
  rcases below with rfl | ⟨child, inside, reaches⟩
  · exact ⟨_, isChild, .self _⟩
  · exact ⟨_, isChild, .inner _ child call isOwn inside reaches⟩

end

-- The call that is pointed out belongs to the callback itself, unless the callback does nothing but return a function: then it
-- belongs to that function.
theorem setter_calls_enclosed (registry : Registry) (scopes : Scopes) (unit : CodeUnit) (site : Site) (diagnostics : List Diagnostic)
    (run : reviewSite registry scopes unit site = .ok diagnostics) (diagnostic : Diagnostic) (member : diagnostic ∈ diagnostics)
    (isKind : diagnostic.kind = .setterWithoutDependencies) :
    ∃ (seen : Seen scopes unit site) (call : Value), resolveCallback scopes seen.handed seen.deps = .ok (.function seen.callback) ∧
      seen.deps.isNull = true ∧ seen.callback.isFunction = true ∧ call.location = .ok diagnostic.location ∧
      call.kindIs Kind.isCall = true ∧
      (∃ binding, scopes.resolve (call.get "callee") = some binding ∧ registry.isStateSetter scopes binding = .ok true) ∧
      ((seen.callback.get "body").isFunction = true → (seen.callback.get "body").Encloses call) ∧
      ((seen.callback.get "body").isNode = true → (seen.callback.get "body").isFunction = false → seen.callback.Encloses call) := by
  obtain ⟨findings, checked, run⟩ := bind_ok run
  obtain ⟨finding, isFinding, made⟩ := mem_of_map_all run member
  obtain ⟨isPlace, _, sets⟩ := diagnostic_finding made
  obtain ⟨setter, suggestion, isSetter⟩ := sets isKind
  obtain ⟨seen, usage, others, isFound, _, isOthers, isOther⟩ := check_beside checked isFinding
    (fun same => nomatch isSetter.symm.trans same) (fun same => nomatch isSetter.symm.trans same)
  obtain ⟨_, _, calls⟩ := beside_suggests isOthers isOther (congrArg Issue.suggestion? isSetter)
  obtain ⟨missing, call, found, isLocated⟩ := calls setter suggestion isSetter
  have own : setterCall? registry scopes (seen.callback.get "body").walkOwn = .ok (some call) := by
    unfold setterCallOf? at found
    split at found
    · cases found
    · split at found
      · exact found
      · cases found
  obtain ⟨inside, isCall, binding, bound, isState⟩ := setter_call_found own
  exact ⟨seen, call, isFound, missing, (resolved_function isFound).1, isPlace ▸ isLocated, isCall, ⟨binding, bound, isState⟩,
    own_enclosed inside isCall⟩

theorem returned_setter_enclosed : ∃ scopes diagnostic call, Scopes.ofProgram formProgram = .ok scopes ∧
    reviewForm scopes returningEffect = .ok [diagnostic] ∧ diagnostic.kind = .setterWithoutDependencies ∧
    call.location = .ok diagnostic.location ∧ returnedFunction.isFunction = true ∧ returnedFunction.Encloses call := by
  obtain ⟨scopes, surveyed, _, _, diagnostic, run, isKind⟩ := form_reviewed
  obtain ⟨seen, call, isFound, _, _, isPlace, _, _, returned, _⟩ :=
    setter_calls_enclosed {} scopes _ _ _ run diagnostic mem_cons_self isKind
  have handed : seen.handed = arrow 62 166 185 returnedFunction := by
    obtain ⟨argument, given, unwrapped⟩ := seen.given
    have isArgument : argument = arrow 62 166 185 returnedFunction := (Except.ok.inj given).symm
    rw [isArgument, arrow, placed, Value.unwrap] at unwrapped
    exact (Except.ok.inj unwrapped).symm
  have same : seen.callback = arrow 62 166 185 returnedFunction := by
    rw [handed] at isFound
    exact (Callback.function.inj (Except.ok.inj isFound)).symm
  rw [same] at returned
  exact ⟨scopes, diagnostic, call, surveyed, run, isKind, isPlace, rfl, returned rfl⟩

end Deps

end HookLint
