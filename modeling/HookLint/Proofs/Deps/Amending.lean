import HookLint.Proofs.Deps.Suggestions

namespace HookLint.Deps

open List Value Option

variable {element path : Value} {entries : List Declaration} {entry : Declaration} {required : List Requirement} {scopes : Scopes}
  {usage : Usage}

-- What the check of a call goes by: the function that is handed over, the list beside it, the scopes from the call
-- up to the function around it, and the names in the callback.
structure Seen (scopes : Scopes) (unit : CodeUnit) (site : Site) where
  handed : Value
  deps : Value
  callback : Value
  inside : List Nat
  references : List Reference
  given : ∃ argument, site.callback = .ok argument ∧ argument.unwrap = .ok handed
  beside : ∃ argument, site.deps = .ok argument ∧ argument.unwrap = .ok deps
  around : pureScopes scopes unit site.call = .ok inside
  within : scopes.referencesWithin callback = .ok references

section
variable {registry : Registry} {before after : Scopes} {unit unit' : CodeUnit} {site site' : Site}

-- What the callback takes from outside by a use of a name.
def Seen.taken (seen : Seen before unit site) (reference : Reference) : Option Binding :=
  outsideBinding? before seen.inside seen.callback reference

-- A use of a name that means the same before and after.
structure Matches (registry : Registry) (old : Seen before unit site) (new : Seen after unit' site') (use later : Reference) : Prop where
  access : later.access = use.access
  own : old.taken use = none → new.taken later = none
  taken : ∀ binding, old.taken use = some binding → ∃ other, new.taken later = some other ∧
    dependencyPath after later other = dependencyPath before use binding ∧ registry.isStable after other = registry.isStable before binding

def Seen.step (registry : Registry) (seen : Seen before unit site) : Usage → Reference → Except Fault Usage :=
  usageStep registry before seen.inside seen.callback

theorem written_somewhere (usage : Usage) (binding : Binding) (identifier : Value) : (usage.write binding identifier).writes ≠ [] := by
  rw [Usage.write]
  split
  · next written =>
      intro nothing
      rw [nothing] at written
      cases written
  · exact append_ne_nil_of_right_ne_nil _ (cons_ne_nil _ _)

theorem require_writes (usage : Usage) (requirement : Requirement) : (usage.require requirement).writes = usage.writes := by
  rw [Usage.require]
  split <;> rfl

-- A step after which nothing has been assigned to: the use is the callback's own, or reads at most.
theorem quiet_step {seen : Seen before unit site} {next : Usage} {use : Reference}
    (run : seen.step registry usage use = .ok next) (quiet : next.writes = []) : usage.writes = [] ∧ (seen.taken use = none ∧ next = usage ∨
      ∃ binding stable, seen.taken use = some binding ∧ registry.isStable before binding = .ok stable ∧
        (use.access.writes && !stable) = false ∧ (use.access.reads = false ∧ next = usage ∨ use.access.reads = true ∧ ∃ path key,
          dependencyPath before use binding = .ok path ∧ path.key = .ok key ∧
          next = usage.require { path := path, key := key, binding := binding, stable := stable })) := by
  unfold Seen.step usageStep at run
  split at run
  · next own =>
      cases run
      exact ⟨quiet, .inl ⟨own, rfl⟩⟩
  rename_i binding taken
  obtain ⟨stable, isStable, run⟩ := bind_ok run
  unfold Usage.add at run
  cases writes : use.access.writes && !stable with
  | true =>
    exfalso
    rw [writes, if_pos rfl] at run
    cases reads : use.access.reads with
    | false =>
      rw [reads] at run
      cases run
      exact written_somewhere _ _ _ quiet
    | true =>
      rw [reads] at run
      obtain ⟨path, _, run⟩ := bind_ok run
      obtain ⟨key, _, run⟩ := bind_ok run
      cases run
      rw [require_writes] at quiet
      exact written_somewhere _ _ _ quiet
  | false =>
    rw [writes, if_neg Bool.false_ne_true] at run
    cases reads : use.access.reads with
    | false =>
      rw [reads] at run
      cases run
      exact ⟨quiet, .inr ⟨binding, stable, taken, isStable, writes, .inl ⟨rfl, rfl⟩⟩⟩
    | true =>
      rw [reads] at run
      obtain ⟨path, isPath, run⟩ := bind_ok run
      obtain ⟨key, isKey, run⟩ := bind_ok run
      cases run
      rw [require_writes] at quiet
      exact ⟨quiet, .inr ⟨binding, stable, taken, isStable, writes, .inr ⟨rfl, path, key, isPath, isKey, rfl⟩⟩⟩

theorem alike_any {first second : List Requirement} (alike : Alike first second) (key : Key) :
    second.any (·.key = key) = first.any (·.key = key) := by
  induction alike with
  | nil => rfl
  | cons same _ ih => rw [any_cons, any_cons, same.2.1, ih]

theorem require_alike {other : Usage} {requirement : Requirement} (alike : Alike usage.required other.required)
    (binding : Binding) : Alike (usage.require requirement).required (other.require { requirement with binding }).required := by
  rw [Usage.require, Usage.require, alike_any alike]
  split
  · exact alike
  · exact rel_append alike (.cons ⟨rfl, rfl, rfl⟩ .nil)

variable {old : Seen before unit site} {new : Seen after unit' site'} {use later : Reference} {usage next other : Usage}
  {binding : Binding} {elements paths : List Value}

theorem matched_step (same : Matches registry old new use later) (run : old.step registry usage use = .ok next)
    (quiet : next.writes = []) (alike : Alike usage.required other.required) (silent : other.writes = []) :
    ∃ further, new.step registry other later = .ok further ∧ Alike next.required further.required ∧ further.writes = [] := by
  obtain ⟨_, ⟨own, rfl⟩ | ⟨binding, stable, taken, isStable, writes, reading⟩⟩ := quiet_step run quiet
  · refine ⟨other, ?_, alike, silent⟩
    unfold Seen.step usageStep
    rw [show outsideBinding? after new.inside new.callback later = none from same.own own]
    rfl
  obtain ⟨found, isFound, samePath, sameStable⟩ := same.taken binding taken
  rw [isStable] at sameStable
  have step : new.step registry other later = other.add after later found stable := by
    unfold Seen.step usageStep
    rw [show outsideBinding? after new.inside new.callback later = some found from isFound]
    exact bind_of sameStable
  rw [step, Usage.add, same.access, writes, if_neg Bool.false_ne_true]
  rcases reading with ⟨reads, rfl⟩ | ⟨reads, path, key, isPath, isKey, rfl⟩
  · rw [reads]
    exact ⟨other, rfl, alike, silent⟩
  rw [isPath] at samePath
  rw [reads]
  refine ⟨other.require { path := path, key := key, binding := found, stable := stable }, ?_, require_alike alike found, ?_⟩
  · exact (bind_of samePath).trans (bind_of isKey)
  · rw [require_writes]
    exact silent

-- By induction on the uses: a callback whose names keep their meaning requires the same paths.
theorem matched_run {uses others : List Reference} (matched : List.Forall₂ (Matches registry old new) uses others)
    (run : uses.foldlM (old.step registry) usage = .ok next) (quiet : next.writes = [])
    (alike : Alike usage.required other.required) (silent : other.writes = []) :
    ∃ further, others.foldlM (new.step registry) other = .ok further ∧ Alike next.required further.required ∧ further.writes = [] := by
  have calm {uses : List Reference} {usage : Usage} (run : uses.foldlM (old.step registry) usage = .ok next) : usage.writes = [] := by
    induction uses generalizing usage with
    | nil =>
      cases run
      exact quiet
    | cons first rest ih =>
      obtain ⟨middle, step, run⟩ := bind_ok run
      exact (quiet_step step (ih run)).1
  induction matched generalizing usage other with
  | nil =>
    cases run
    exact ⟨other, rfl, alike, silent⟩
  | cons same _ ih =>
    obtain ⟨middle, step, run⟩ := bind_ok run
    obtain ⟨further, isFurther, alike, silent⟩ := matched_step same step (calm run) alike silent
    rw [foldlM_cons, bind_of isFurther]
    exact ih run alike silent

theorem Seen.usage_eq (seen : Seen before unit site) :
    usageOf registry before seen.inside seen.callback = seen.references.foldlM (seen.step registry) {} := bind_of seen.within

theorem Seen.check_eq (seen : Seen before unit site) {found : Callback} (isFound : resolveCallback before seen.handed seen.deps = .ok found) :
    check registry before unit site = match found with
      | .none => .ok []
      | .unknown => do return [← Finding.at seen.handed .unknownCallback]
      | .function function => checkCallback registry before unit site function seen.deps := by
  obtain ⟨argument, given, unwrapped⟩ := seen.given
  obtain ⟨list, givenList, unwrappedList⟩ := seen.beside
  refine (bind_of given).trans ((bind_of unwrapped).trans ((bind_of givenList).trans ((bind_of unwrappedList).trans ((bind_of isFound).trans ?_))))
  cases found <;> rfl

-- A call whose list has been replaced by one that spells given paths, while every name keeps its meaning: those in the
-- callback, and those of the new list, each of which stands as the same path stood in the old list or in the callback.
structure Amends (registry : Registry) (old : Seen before unit site) (new : Seen after unit' site') (elements paths : List Value) :
    Prop where
  hook : site'.hook = site.hook
  async : new.callback.isAsync = old.callback.isAsync
  located : new.callback.location = old.callback.location
  found : resolveCallback after new.handed new.deps = .ok .none ∨ resolveCallback after new.handed new.deps = .ok (.function new.callback)
  isArray : new.deps.isA .arrayExpression = true
  listed : (new.deps.get "elements").itemsIfGiven = .ok elements
  spelled : elements.mapM memberPath = .ok paths
  uses : List.Forall₂ (Matches registry old new) old.references new.references
  entries : ∀ items, (old.deps.get "elements").itemsIfGiven = .ok items → ∀ item ∈ items, ∀ entry, Entered before item entry →
    ∀ element ∈ elements, ∀ other, Entered after element other → other.path = entry.path →
      standing new.inside other.binding = standing old.inside entry.binding
  names : ∀ use ∈ old.references, ∀ binding, old.taken use = some binding →
    ∀ element ∈ elements, ∀ other, Entered after element other → dependencyPath before use binding = .ok other.path →
      standing new.inside other.binding = standing old.inside (some binding)

theorem taken_inside (taken : old.taken use = some binding) : standing old.inside (some binding) = some true := by
  obtain ⟨_, inside⟩ := filter_eq_some_iff.mp taken
  exact congrArg some (Bool.and_eq_true_iff.mp inside).2

theorem Needed.alike {options : Options} {others : List Requirement} (needed : Needed options required path)
    (same : Alike required others) : Needed options others path :=
  ⟨needed.1, (alike_required same path).trans needed.2⟩

section
variable (amends : Amends registry old new elements paths) (isUsage : usageOf registry before old.inside old.callback = .ok usage)
  (steady : Steady usage.required)
  (known : ∀ entry ∈ entries, ∃ items, (old.deps.get "elements").itemsIfGiven = .ok items ∧ ∃ item ∈ items, Entered before item entry)
  (settled : Settled registry.options old.inside usage.required entries paths) (alike : Alike usage.required required)
include amends isUsage steady known settled alike

theorem amended_fits (isElement : element ∈ elements) (entered : Entered after element entry)
    (isPath : entry.path ∈ paths) : Fits registry.options new.inside required entry := by
  rcases settled.grounded entry.path isPath with ⟨earlier, isEarlier, same, fits⟩ | isReactive
  · obtain ⟨items, isItems, item, isItem, enteredEarlier⟩ := known earlier isEarlier
    have stands := amends.entries items isItems item isItem earlier enteredEarlier element isElement entry entered same.symm
    rw [Fits, same] at fits
    rw [Fits, stands]
    exact fits.imp_right fun ⟨inside, needed⟩ => ⟨inside, needed.alike alike⟩
  obtain ⟨references, within, gathered⟩ := usage_gathered isUsage
  cases old.within.symm.trans within
  obtain ⟨requirement, member, required⟩ := mem_map.mp isReactive
  obtain ⟨use, isUse, arises⟩ := gathered.arises requirement (mem_filter.mp member).1
  have path := arises.path
  rw [required] at path
  have stands := amends.names use isUse requirement.binding arises.bound element isElement entry entered path
  exact .inr ⟨stands.trans (taken_inside arises.bound), (steady.needed isReactive).alike alike⟩

theorem amended_list : checkList registry.options after new.inside required new.deps = .ok [] := by
  obtain ⟨declared, isDeclared, plain, same⟩ : ∃ declared, Declared.ofElements after elements = .ok declared ∧ declared.complex = [] ∧
    declared.entries.map (·.path) = paths := spelled_entries settled.textual amends.spelled
  have fits : ∀ entry ∈ declared.entries, Fits registry.options new.inside required entry := by
    intro entry isEntry
    obtain ⟨element, isElement, entered⟩ := entries_listed isDeclared entry isEntry
    exact amended_fits amends isUsage steady known settled alike isElement entered (same ▸ mem_map_of_mem isEntry)
  have textual : Textual (declared.entries.map (·.path)) := same ▸ settled.textual
  have apart : (declared.entries.map (·.path)).Nodup := same ▸ settled.apart
  have changing : Textual (reactive required) := by
    rw [alike_reactive alike]
    exact fun path member => steady.textual path ((reactive_sublist _).subset member)
  have covered : ∀ path ∈ reactive required, ∃ other ∈ declared.entries.map (·.path), Covers registry.options path other := by
    rw [alike_reactive alike, same]
    exact settled.covers
  have isList : Deps.declared after new.deps = .ok declared := (bind_of amends.listed).trans isDeclared
  refine (bind_of isList).trans ((bind_of (compare_settled textual apart fits changing covered)).trans ?_)
  rw [plain]
  rfl

end

variable {program : Value}

theorem entries_textual {deps : Value} {declared : Declared} (plain : program.Plain) (inside : deps.records ⊆ program.records)
    (isDeclared : Deps.declared before deps = .ok declared) : Textual (declared.entries.map (·.path)) ∧
      ∀ entry ∈ declared.entries, ∃ items, (deps.get "elements").itemsIfGiven = .ok items ∧ ∃ item ∈ items, Entered before item entry := by
  obtain ⟨items, isItems, isDeclared⟩ := bind_ok isDeclared
  have known := entries_listed isDeclared
  refine ⟨fun path member => ?_, fun entry member => ⟨items, isItems, known entry member⟩⟩
  obtain ⟨entry, isEntry, rfl⟩ := mem_map.mp member
  obtain ⟨item, isItem, entered⟩ := known entry isEntry
  have isPart := Survey.items_if_given_parts isItems isItem (record_of_path entered.path entered.given)
  have within : item.records ⊆ program.records := fun _ member =>
    inside ((Survey.get_records_inside deps "elements").subset ((Survey.part_records_inside isPart).subset member))
  refine (path_text plain item within entered.path).resolve_left fun missing => ?_
  have given := entered.given
  rw [missing] at given
  cases given

end

-- A call with the list that was suggested for it has nothing wrong with its list, as long as every name keeps its meaning.
-- What may be left to say is that the effect is asynchronous.
theorem suggestion_settles (program : Value) (registry : Registry) (before after : Scopes) (unit unit' : CodeUnit) (site site' : Site)
    (isProgram : program.isA .program = true) (distinct : program.Distinct) (plain : program.Plain)
    (surveyed : Scopes.ofProgram program = .ok before) (old : Seen before unit site) (new : Seen after unit' site')
    (inside : old.deps.records ⊆ program.records)
    (isFound : resolveCallback before old.handed old.deps = .ok (.function old.callback)) (findings : List Finding)
    (run : check registry before unit site = .ok findings) (finding : Finding) (member : finding ∈ findings) (suggestion : Suggestion)
    (suggests : finding.issue.suggestion? = some suggestion) (elements : List Value)
    (amends : Amends registry old new elements suggestion.dependencies) :
    ∃ left, check registry after unit' site' = .ok left ∧ ∀ finding ∈ left, finding.issue = .asyncEffect := by
  have known := Survey.survey_surveyed surveyed distinct
  have isRecord := Survey.is_record_of_is_a isProgram
  rw [old.check_eq isFound] at run
  obtain ⟨_, isInside, run⟩ := bind_ok run
  cases old.around.symm.trans isInside
  obtain ⟨usage, isUsage, run⟩ := bind_ok run
  obtain ⟨async, isAsync, run⟩ := bind_ok run
  obtain ⟨others, isOthers, run⟩ := bind_ok run
  cases run
  have isOther : finding ∈ others := by
    refine (mem_append.mp member).resolve_left fun early => ?_
    rw [issue_of_when isAsync early] at suggests
    cases suggests
  have steady := usage_steady known distinct plain isRecord isUsage
  obtain ⟨quiet, origin, _⟩ := beside_suggests isOthers isOther suggests
  have folded := isUsage
  rw [old.usage_eq] at folded
  have start : Alike ({} : Usage).required ({} : Usage).required := .nil
  obtain ⟨further, isFurther, alike, silent⟩ := matched_run amends.uses folded quiet start rfl
  have clean : checkList registry.options after new.inside further.required new.deps = .ok [] := by
    cases origin with
    | added paths text _ sorted spelled =>
      have settled : Settled registry.options old.inside usage.required [] paths :=
        reactive_settled steady.apart (textual_of_text spelled) sorted
      exact amended_list amends isUsage steady (by simp) settled alike
    | mended declared comparison paths text _ isDeclared isCompared corrected spelled =>
      have settled := corrected_settled steady.apart (textual_of_text spelled) isCompared corrected
      exact amended_list amends isUsage steady (entries_textual plain inside isDeclared).2 settled alike
  rcases amends.found with isNone | isFunction
  · exact ⟨[], new.check_eq isNone, nofun⟩
  have sameAsync : Finding.when (site'.hook.isEffect && new.callback.isAsync) new.callback .asyncEffect = .ok async := by
    rw [← isAsync, amends.hook, amends.async, Finding.when, Finding.when, Finding.at, Finding.at, amends.located]
  have beside : checkBeside registry after new.inside site' new.callback new.deps further = .ok [] := by
    have notNull : new.deps.isNull = false := by
      have isArray := amends.isArray
      cases isDeps : new.deps with
      | null =>
        rw [isDeps] at isArray
        cases isArray
      | _ => rfl
    rw [checkBeside, silent, notNull, amends.isArray]
    exact clean
  have again : usageOf registry after new.inside new.callback = .ok further := new.usage_eq.trans isFurther
  refine ⟨async, ?_, fun finding member => issue_of_when isAsync member⟩
  rw [new.check_eq isFunction]
  refine (bind_of new.around).trans ((bind_of again).trans ((bind_of sameAsync).trans ((bind_of beside).trans ?_)))
  rw [append_nil]
  rfl

-- An effect whose list lacks a member that it reads and has a name that is declared nowhere, before and after it is mended.
def effectList (elements : List Value) : Value := .record 12 [("type", .str "ArrayExpression"), ("elements", .list elements)]

def callWith (elements : List Value) : Value := .record 6 [
  ("type", .str "CallExpression"), ("callee", placedName 7 "useEffect" 18), ("arguments", .list [readingEffect, effectList elements])]

def componentWith (elements : List Value) : Value := .record 2 [
  ("type", .str "FunctionDeclaration"), ("id", placedName 3 "App" 9), ("params", .list [placedName 4 "props" 13]),
  ("body", .record 14 [
    ("type", .str "BlockStatement"),
    ("body", .list [.record 5 [("type", .str "ExpressionStatement"), ("expression", callWith elements)]])])]

def programWith (elements : List Value) : Value := .record 1 [("type", .str "Program"), ("body", .list [componentWith elements])]

def siteWith (elements : List Value) : Site := { effectSite with call := callWith elements }

def globalName : Value := placedName 13 "log" 47

def listedMember : Value := .record 15 [
  ("type", .str "MemberExpression"), ("object", placedName 16 "props" 52), ("property", placedName 17 "user" 58),
  ("computed", .bool false)]

-- The effect reads one member, of something that is declared around it.
def readsUser (scopes : Scopes) (elements : List Value) : Bool :=
  match pureScopes scopes { node := componentWith elements } (callWith elements), scopes.referencesWithin readingEffect with
  | .ok inside, .ok [use] => use.access = .read && match outsideBinding? scopes inside readingEffect use with
      | some binding => match dependencyPath scopes use binding, ({} : Registry).isStable scopes binding with
        | .ok (.str "props.user"), .ok false => true
        | _, _ => false
      | none => false
  | _, _ => false

theorem reads_user {elements : List Value} (facts : readsUser scopes elements = true) : ∃ inside use binding,
    pureScopes scopes { node := componentWith elements } (callWith elements) = .ok inside ∧
      scopes.referencesWithin readingEffect = .ok [use] ∧ use.access = .read ∧
      outsideBinding? scopes inside readingEffect use = some binding ∧ dependencyPath scopes use binding = .ok (.str "props.user") ∧
      ({} : Registry).isStable scopes binding = .ok false := by
  unfold readsUser at facts
  split at facts
  case h_2 => cases facts
  case h_1 inside use around within =>
  obtain ⟨reads, facts⟩ := Bool.and_eq_true_iff.mp facts
  split at facts
  case h_2 => cases facts
  case h_1 binding bound =>
  split at facts
  case h_2 => cases facts
  case h_1 path stable => exact ⟨inside, use, binding, around, within, of_decide_eq_true reads, bound, path, stable⟩

def mendFacts (before after : Scopes) : Bool :=
  readsUser before [globalName] && readsUser after [globalName, listedMember] && (before.resolve globalName).isNone
    && (after.resolve globalName).isNone
    && (match pureScopes after { node := componentWith [globalName, listedMember] } (callWith [globalName, listedMember]) with
      | .ok inside => standing inside (after.resolve (placedName 16 "props" 52)) = some true
      | .error _ => false)
    && match check {} before { node := componentWith [globalName] } (siteWith [globalName]) with
      | .ok [⟨.missing _ ⟨[.str "log", .str "props.user"], _, _⟩, _⟩] => true
      | _ => false

theorem mend_facts : (match Scopes.ofProgram (programWith [globalName]), Scopes.ofProgram (programWith [globalName, listedMember]) with
    | .ok before, .ok after => mendFacts before after
    | _, _ => false) = true := by
  decide +kernel

theorem global_path : globalName.memberPath = .ok (.str "log") := by
  rw [globalName, placedName, memberPath]
  rfl

theorem global_root : globalName.rootIdentifier = .ok (some globalName) := by
  rw [globalName, placedName, rootIdentifier]
  rfl

theorem listed_path : listedMember.memberPath = .ok (.str "props.user") := by
  have object : (placedName 16 "props" 52).memberPath = .ok (.str "props") := by
    rw [placedName, memberPath]
    rfl
  rw [listedMember, memberPath]
  exact bind_of object

theorem listed_root : listedMember.rootIdentifier = .ok (some (placedName 16 "props" 52)) := by
  rw [listedMember, rootIdentifier]
  change (placedName 16 "props" 52).rootIdentifier = _
  rw [placedName, rootIdentifier]
  rfl

theorem Entered.unique {root : Value} (entered : Entered scopes element entry)
    (isPath : element.memberPath = .ok path) (isRoot : element.rootIdentifier = .ok (some root)) :
    entry.path = path ∧ entry.binding = scopes.resolve root := by
  obtain ⟨found, isFound, bound⟩ := entered.binding
  cases isRoot.symm.trans isFound
  exact ⟨Except.ok.inj (entered.path.symm.trans isPath), bound⟩

theorem mended_list_settles : ∃ before after findings left, Scopes.ofProgram (programWith [globalName]) = .ok before ∧
      Scopes.ofProgram (programWith [globalName, listedMember]) = .ok after ∧
      check {} before { node := componentWith [globalName] } (siteWith [globalName]) = .ok findings ∧
      (∃ finding ∈ findings, ∃ suggestion, finding.issue.suggestion? = some suggestion ∧
        suggestion.dependencies = [.str "log", .str "props.user"]) ∧
      check {} after { node := componentWith [globalName, listedMember] } (siteWith [globalName, listedMember]) = .ok left ∧
      ∀ finding ∈ left, finding.issue = .asyncEffect := by
  have facts := mend_facts
  split at facts
  case h_2 => cases facts
  case h_1 before after surveyed surveyedAfter =>
  simp only [mendFacts, Bool.and_eq_true] at facts
  obtain ⟨⟨⟨⟨⟨readsBefore, readsAfter⟩, unknown⟩, stillUnknown⟩, standsAfter⟩, checked⟩ := facts
  obtain ⟨inside, use, binding, around, within, reads, bound, path, stable⟩ := reads_user readsBefore
  obtain ⟨insideAfter, later, other, aroundAfter, withinAfter, readsToo, boundAfter, pathAfter, stableAfter⟩ := reads_user readsAfter
  rw [aroundAfter] at standsAfter
  have unwraps : readingEffect.unwrap = .ok readingEffect := by
    rw [readingEffect, unwrap]
    rfl
  have unwrapsList (elements : List Value) : (effectList elements).unwrap = .ok (effectList elements) := by
    rw [effectList, unwrap]
    rfl
  let old : Seen before { node := componentWith [globalName] } (siteWith [globalName]) :=
    ⟨readingEffect, effectList [globalName], readingEffect, inside, [use], ⟨_, rfl, unwraps⟩, ⟨_, rfl, unwrapsList _⟩, around, within⟩
  let new : Seen after { node := componentWith [globalName, listedMember] } (siteWith [globalName, listedMember]) :=
    ⟨readingEffect, effectList [globalName, listedMember], readingEffect, insideAfter, [later], ⟨_, rfl, unwraps⟩,
      ⟨_, rfl, unwrapsList _⟩, aroundAfter, withinAfter⟩
  have same : Matches {} old new use later := by
    refine ⟨readsToo.trans reads.symm, fun own => ?_, fun found taken => ⟨other, boundAfter, ?_⟩⟩
    · cases bound.symm.trans own
    · cases bound.symm.trans taken
      exact ⟨pathAfter.trans path.symm, stableAfter.trans stable.symm⟩
  split at checked
  case h_2 => cases checked
  case h_1 paths text span location isChecked =>
  have amends : Amends {} old new [globalName, listedMember] [.str "log", .str "props.user"] := by
    refine ⟨rfl, rfl, rfl, .inr rfl, rfl, rfl, ?_, .cons same .nil, ?_, ?_⟩
    · exact map_all_of (.cons global_path (.cons listed_path .nil))
    · intro items isItems item isItem entry entered element isElement entry' entered' samePath
      cases isItems
      cases mem_singleton.mp isItem
      obtain ⟨isPath, isBound⟩ := entered.unique global_path global_root
      rcases mem_cons.mp isElement with rfl | isSecond
      · obtain ⟨_, isBoundAfter⟩ := entered'.unique global_path global_root
        rw [isBound, isBoundAfter, isNone_iff_eq_none.mp unknown, isNone_iff_eq_none.mp stillUnknown]
        rfl
      · cases mem_singleton.mp isSecond
        obtain ⟨isPathAfter, _⟩ := entered'.unique listed_path listed_root
        rw [isPath, isPathAfter] at samePath
        exact absurd (Value.str.inj samePath) (by decide)
    · intro read isRead found taken element isElement entry entered samePath
      cases mem_singleton.mp isRead
      cases bound.symm.trans taken
      rw [path] at samePath
      rcases mem_cons.mp isElement with rfl | isSecond
      · obtain ⟨isPath, _⟩ := entered.unique global_path global_root
        rw [isPath] at samePath
        exact absurd (Value.str.inj (Except.ok.inj samePath)) (by decide)
      · cases mem_singleton.mp isSecond
        obtain ⟨_, isBoundAfter⟩ := entered.unique listed_path listed_root
        rw [isBoundAfter, taken_inside taken]
        exact of_decide_eq_true standsAfter
  have held : effectList [globalName] ∈ (programWith [globalName]).records :=
    mem_of_getElem? (show (programWith [globalName]).records[12]? = some (effectList [globalName]) from rfl)
  obtain ⟨left, isLeft, quiet⟩ := suggestion_settles (programWith [globalName]) {} before after _ _ _ _ (by decide) ⟨by decide, by decide⟩
    (plain_of_check (by decide)) surveyed old new (inner_records_sublist _ _ held).subset rfl _ isChecked _ mem_cons_self _ rfl _ amends
  exact ⟨before, after, _, left, surveyed, surveyedAfter, isChecked, ⟨_, mem_cons_self, _, rfl, rfl⟩, isLeft, quiet⟩

end HookLint.Deps
