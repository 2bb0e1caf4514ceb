import HookLint.Proofs.Flow.Marked
import HookLint.Proofs.Flow.Reading
import HookLint.Proofs.Flow.Sources
import HookLint.Proofs.Order.Completeness
import HookLint.Proofs.Tree.Lineage

namespace HookLint.FlowGraph

open List

-- The calls of all blocks.
def recorded (graph : FlowGraph) : List Value := graph.blocks.flatMap (·.calls)

theorem calls_recorded (graph : FlowGraph) : graph.calls.map (·.2.2) = graph.recorded := by
  have inside (blocks : List Flow.Block) (start : Nat) : ((blocks.zipIdx start).flatMap fun block =>
        block.1.calls.zipIdx.map fun call => (block.2, call.2, call.1)).map (·.2.2) = blocks.flatMap (·.calls) := by
    rw [map_flatMap]
    induction blocks generalizing start with
    | nil => rfl
    | cons block rest ih =>
      rw [zipIdx_cons, flatMap_cons, flatMap_cons, ih, map_map]
      exact congrArg (· ++ _) (zipIdx_map_fst 0 block.calls)
  exact inside graph.blocks 0

end HookLint.FlowGraph

namespace HookLint.Flow

open List

theorem calls_in_range (entries : List Entry) (count : Nat) :
    ((List.range count).flatMap (callsIn entries)).Perm ((entries.filter (·.block < count)).map (·.call)) := by
  induction count with
  | zero => simp
  | succ count ih =>
    have split := filter_append_perm (·.block < count) (entries.filter (·.block < count + 1))
    simp only [filter_filter] at split
    have early : (entries.filter fun entry => decide (entry.block < count) && decide (entry.block < count + 1)) =
        entries.filter (·.block < count) := by
      refine filter_congr fun entry _ => ?_
      rw [← Bool.decide_and]
      exact decide_eq_decide.mpr (by omega)
    have late : (entries.filter fun entry => !decide (entry.block < count) && decide (entry.block < count + 1)) =
        entries.filter (·.block = count) := by
      refine filter_congr fun entry _ => ?_
      rw [← decide_not, ← Bool.decide_and]
      exact decide_eq_decide.mpr (by omega)
    rw [early, late] at split
    rw [range_succ, flatMap_append, flatMap_singleton]
    exact (ih.append_right _).trans ((map_append ▸ split.map (·.call)))

theorem graph_calls (draft : Draft) (name : Value) :
    (draft.graph name).calls.map (·.2.2) = (List.range draft.blocks.length).flatMap draft.callsOf := by
  have listed : draft.blocks.flatMap (·.calls) = (List.range draft.blocks.length).flatMap draft.callsOf := by
    have blocks : draft.blocks.map (·.calls) = (List.range draft.blocks.length).map draft.callsOf := by
      refine ext_getElem? fun block => ?_
      by_cases small : block < draft.blocks.length
      · simp [Draft.callsOf, small]
      · simp [small]
    rw [flatMap_def, blocks, flatMap_def]
  exact (draft.graph name).calls_recorded.trans listed

theorem mem_graph_calls {draft : Draft} {name : Value} {entry : Nat × Nat × Value}
    (member : entry ∈ (draft.graph name).calls) : entry.1 < draft.blocks.length ∧ entry.2.2 ∈ draft.callsOf entry.1 := by
  obtain ⟨⟨block, number⟩, isBlock, member⟩ := mem_flatMap.mp member
  obtain ⟨⟨call, ordinal⟩, isCall, rfl⟩ := mem_map.mp member
  have found : draft.blocks[number]? = some block := mem_zipIdx_iff_getElem?.mp isBlock
  refine ⟨(List.getElem?_eq_some_iff.mp found).1, ?_⟩
  rw [Draft.callsOf, found]
  exact fst_mem_of_mem_zipIdx isCall

theorem entry_of_call {draft : Draft} {name : Value} {entries : List Entry}
    (calls : ∀ block, draft.callsOf block = callsIn entries block) {place : Nat × Nat × Value}
    (member : place ∈ (draft.graph name).calls) : ∃ entry ∈ entries, entry.block = place.1 ∧ entry.call = place.2.2 := by
  have recorded := (mem_graph_calls member).2
  rw [calls] at recorded
  obtain ⟨entry, isEntry, same⟩ := mem_map.mp recorded
  obtain ⟨isEntry, here⟩ := mem_filter.mp isEntry
  exact ⟨entry, isEntry, by simpa using here, same⟩

theorem call_marked {body : Body} {name : Value} {place : Nat × Nat × Value}
    (member : place ∈ (body.draft.graph name).calls) : ∃ mark, (mark, place.2.2) ∈ body.marks := by
  obtain ⟨entries, listed, calls, _⟩ := body_entries body
  obtain ⟨entry, isEntry, _, same⟩ := entry_of_call calls member
  exact ⟨entry.mark, same ▸ listed.sublist.subset (mem_map_of_mem (f := fun entry => (entry.mark, entry.call)) isEntry)⟩

-- The calls of a graph, by where they lie in the tree that it was built from.
structure Located (node : Value) (graph : FlowGraph) : Prop where
  apart : (graph.calls.map (·.2.2.identity)).Nodup
  named : ∀ entry ∈ graph.calls, entry.2.2.identity ≠ 0
  repeats : ∀ entry ∈ graph.calls, node.InLoop entry.2.2 → entry.1 ∈ graph.repeatable
  looped : ∀ entry ∈ graph.calls, entry.1 ∈ graph.loopBody → node.InLoop entry.2.2

theorem self_edge_repeatable {graph : Graph} {block : Nat} (inside : block ∈ graph.nodes) {kind : EdgeKind}
    (back : ⟨block, block, kind⟩ ∈ graph.edges) : block ∈ graph.repeatable := by
  refine Graph.cyclic_repeatable graph block (Graph.cyclic_of_on_cycle graph inside ⟨block, ?_, _, .single block⟩)
  exact (Graph.mem_successors graph block block).mpr ⟨_, back, rfl, rfl⟩

theorem Laid.apart {node : Value} {marks : Marks} (laid : Laid node marks) (distinct : node.Distinct) :
    (marks.map fun entry => entry.2.identity).Nodup :=
  nodup_iff_count_le_one.mpr fun number => (laid.once number).trans (nodup_iff_count_le_one.mp distinct.apart number)

theorem Laid.named {node : Value} {marks : Marks} (laid : Laid node marks) (distinct : node.Distinct)
    {entry : Mark × Value} (member : entry ∈ marks) : entry.2.identity ≠ 0 := by
  have counted : 0 < (marks.map fun entry => entry.2.identity).count entry.2.identity :=
    count_pos_iff.mpr (mem_map_of_mem (f := fun entry => entry.2.identity) member)
  obtain ⟨record, isRecord, same⟩ := mem_map.mp (count_pos_iff.mp (Nat.lt_of_lt_of_le counted (laid.once _)))
  exact same ▸ distinct.counted record isRecord

theorem of_unit_located {name node : Value} {graph : FlowGraph} (distinct : node.Distinct) (orderly : node.Orderly)
    (built : FlowGraph.ofUnit name node = .ok graph) : Located node graph := by
  simp only [FlowGraph.ofUnit] at built
  split at built
  · cases built
  cases built
  have laid := read_unit_laid node orderly
  obtain ⟨entries, listed, calls, fits⟩ := body_entries (readUnit node)
  have marked {entry : Entry} (member : entry ∈ entries) : (entry.mark, entry.call) ∈ (readUnit node).marks :=
    listed.sublist.subset (mem_map_of_mem (f := fun entry => (entry.mark, entry.call)) member)
  refine ⟨?_, fun place member => ?_, fun place member inside => ?_, fun place member inside => ?_⟩
  · have all := (calls_in_range entries (readUnit node).draft.blocks.length).map Value.identity
    rw [← funext calls, ← graph_calls _ name, map_map] at all
    refine all.nodup_iff.mpr (List.Nodup.sublist ?_ (laid.apart distinct))
    have whole : (entries.map fun entry => entry.call.identity).Sublist ((readUnit node).marks.map fun entry => entry.2.identity) := by
      simpa [Function.comp_def] using listed.sublist.map fun entry => entry.2.identity
    rw [map_map]
    exact (filter_sublist.map _).trans whole
  · obtain ⟨entry, isEntry, _, same⟩ := entry_of_call calls member
    exact same ▸ laid.named distinct (marked isEntry)
  · obtain ⟨entry, isEntry, here, same⟩ := entry_of_call calls member
    rw [← same] at inside
    rw [← here]
    have lies := (fits entry isEntry).lies
    cases inLoop : entry.mark.inLoop with
    | true => simp [Graph.repeatable, mem_sorted_set, Draft.graph, lies.loop.mpr inLoop]
    | false =>
      cases blurred : entry.mark.blurred with
      | true => exact self_edge_repeatable (mem_range.mpr lies.inside) ((fits entry isEntry).repeats blurred)
      | false =>
        have straight := laid.straight _ (marked isEntry) inLoop blurred
        exact absurd inside (Value.straight_not_in_loop distinct straight (laid.isRecord _ (marked isEntry)))
  · obtain ⟨entry, isEntry, here, same⟩ := entry_of_call calls member
    rw [← here] at inside
    rw [← same]
    exact laid.looped _ (marked isEntry) ((fits entry isEntry).lies.loop.mp inside)

end HookLint.Flow

namespace HookLint

open List

theorem hook_sites_calls {registry : Registry} {scopes : Scopes} {graph : FlowGraph} {sites : List Site}
    (found : hookSites registry scopes graph = .ok sites) :
    (sites.map fun site => (site.block, site.ordinal, site.call)).Subperm graph.calls := by
  obtain ⟨hooks, isHooks, found⟩ := bind_ok found
  obtain ⟨listed, isListed, found⟩ := bind_ok found
  have chosen : (hooks.map (·.2)).Sublist graph.calls := by
    refine filter_map_sublist isHooks fun item result choice => ?_
    obtain ⟨hook, _, choice⟩ := bind_ok choice
    cases hook with
    | none => cases choice
    | some hook =>
      cases choice
      rfl
  have placed : (listed.map fun site => (site.block, site.ordinal, site.call)) = hooks.map (·.2) := by
    refine map_all_same isListed fun item site made => ?_
    obtain ⟨_, _, made⟩ := bind_ok made
    cases made
    rfl
  exact ((sort_by_perm found).map _).subperm.trans (placed ▸ chosen.subperm)

namespace Order

-- A report as sure as the graph that it rests on.
def graded (graph : FlowGraph) (report : Diagnostic) : Diagnostic :=
  if graph.approximations.isEmpty then report else { report with confidence := .low }

-- What is wrong with the order of the calls, each report with the call that it is about.
def attributed (graph : FlowGraph) (sites : List Site) : List (Value × Diagnostic) :=
  (check graph.toGraph (placements sites)).filterMap fun finding =>
    sites[finding.call.number]?.map fun site => (site.call, graded graph (finding.diagnostic sites site))

theorem review_attributed (units : List CodeUnit) (number : Nat) (unit : CodeUnit) (graph : FlowGraph) (sites : List Site)
    (isHost : unit.isHost = true) (notAsync : unit.isAsync = false) :
    review units number unit graph sites = (attributed graph sites).map (·.2) := by
  rw [review, attributed, isHost, notAsync, map_filterMap]
  simp only [Bool.not_true, Bool.false_eq_true, if_false, nil_append, orderDiagnostics]
  unfold graded
  split
  · simp only [Option.map_map, Function.comp_def]
  · simp only [map_filterMap, Option.map_map, Function.comp_def]

theorem filter_middle {α β : Type} (choose : α → Option β) (keep : β → Bool) {before after : List α} {item : α} {result : β}
    (chosen : choose item = some result) (kept : keep result = true)
    (others : ∀ other ∈ before ++ after, ∀ result, choose other = some result → keep result = false) :
    ((before ++ item :: after).filterMap choose).filter keep = [result] := by
  have dropped (items : List α) (included : items ⊆ before ++ after) : (items.filterMap choose).filter keep = [] := by
    refine filter_eq_nil_iff.mpr fun result member => ?_
    obtain ⟨other, isOther, chosen⟩ := mem_filterMap.mp member
    simp [others other (included isOther) result chosen]
  rw [filterMap_append, filter_append, filterMap_cons_some chosen, filter_cons_of_pos kept,
    dropped before (subset_append_left _ _), dropped after (subset_append_right _ _), nil_append]

section
variable {graph : Graph} {sites : List Site}

theorem mem_placements {call : Placement} : call ∈ placements sites ↔ ∃ site, sites[call.number]? = some site ∧
    site.hook.orderExempt = false ∧ call = ⟨call.number, site.name.plain, site.block, site.ordinal⟩ := by
  constructor
  · intro member
    obtain ⟨⟨site, number⟩, listed, rfl⟩ := mem_map.mp member
    obtain ⟨listed, heeded⟩ := mem_filter.mp listed
    exact ⟨site, mem_zipIdx_iff_getElem?.mp listed, by simpa using heeded, rfl⟩
  · rintro ⟨site, found, heeded, same⟩
    refine mem_map.mpr ⟨(site, call.number), mem_filter.mpr ⟨mem_zipIdx_iff_getElem?.mpr found, ?_⟩, same.symm⟩
    simpa using heeded

theorem placements_nodup (sites : List Site) : (placements sites).Nodup := by
  have numbers : ((placements sites).map (·.number)).Sublist (List.range' 0 sites.length) := by
    rw [placements, map_map, ← zipIdx_map_snd]
    exact filter_sublist.map _
  exact List.Nodup.of_map _ (numbers.nodup nodup_range')

theorem check_parts (graph : Graph) (calls : List Placement) : ∃ later,
    check graph calls = ((calls.filter fun call => graph.repeatable.contains call.block).map .repeated) ++ later ∧
      ∀ finding ∈ later, finding.call ∈ calls ∧ finding.call.block ∉ graph.repeatable := by
  let straight := slotted graph (calls.filter (not ∘ fun call => graph.repeatable.contains call.block))
  refine ⟨straight.filterMap (placementFinding? graph (ending graph) straight) ++ reversals graph straight, ?_, ?_⟩
  · simp only [check, partition_eq_filter_filter, append_assoc, straight]
  intro finding member
  have placed : ∃ call ∈ straight, finding.call = call.toPlacement := by
    rcases mem_append.mp member with missed | reversed
    · obtain ⟨call, isCall, found⟩ := mem_filterMap.mp missed
      exact ⟨call, isCall, placement_finding_call found⟩
    · exact reversal_call reversed
  obtain ⟨call, isCall, same⟩ := placed
  obtain ⟨isCall, outside⟩ := mem_filter.mp ((mem_slotted graph _ call).mp isCall).1
  rw [same]
  exact ⟨isCall, by simpa using outside⟩

theorem check_split {calls : List Placement} (distinct : calls.Nodup) {call : Placement} (isCall : call ∈ calls)
    (repeats : call.block ∈ graph.repeatable) : ∃ before after, check graph calls = before ++ .repeated call :: after ∧
      ∀ finding ∈ before ++ after, finding.call ∈ calls ∧ finding.call ≠ call := by
  obtain ⟨later, parts, outside⟩ := check_parts graph calls
  have isRepeated : call ∈ calls.filter fun call => graph.repeatable.contains call.block :=
    mem_filter.mpr ⟨isCall, by simpa using repeats⟩
  obtain ⟨before, after, split⟩ := append_of_mem isRepeated
  have once : (before ++ call :: after).Nodup := split ▸ distinct.filter _
  refine ⟨before.map .repeated, after.map .repeated ++ later, ?_, fun finding member => ?_⟩
  · rw [parts, split, map_append, map_cons, append_assoc, cons_append]
  have cases : (∃ other ∈ before ++ after, finding = .repeated other) ∨ finding ∈ later := by
    simp only [mem_append, mem_map] at member ⊢
    grind
  rcases cases with ⟨other, isOther, rfl⟩ | late
  · have listed : other ∈ calls.filter fun call => graph.repeatable.contains call.block := by
      rw [split]
      simp only [mem_append, mem_cons] at isOther ⊢
      tauto
    refine ⟨(mem_filter.mp listed).1, ?_⟩
    rintro rfl
    exact (nodup_middle.mp once).notMem isOther
  · refine ⟨(outside finding late).1, fun same => (outside finding late).2 ?_⟩
    rw [same]
    exact repeats

theorem same_identity {a b : Value} (same : a.same b = true) : a.identity = b.identity := by
  simp only [Value.same, Bool.and_eq_true, beq_iff_eq] at same
  obtain ⟨number, isNumber⟩ := Option.isSome_iff_exists.mp same.1
  rw [Value.identity_of_id isNumber, Value.identity_of_id (same.2 ▸ isNumber)]

theorem same_self {value : Value} (named : value.identity ≠ 0) : value.same value = true := by
  cases value with
  | record id fields =>
    have counted : id ≠ 0 := named
    simp [Value.same, Value.id?, counted]
  | _ => exact absurd rfl named

theorem placement_of_site (apart : (sites.map (·.call.identity)).Nodup) {call other : Placement} {site found : Site}
    (isCall : call ∈ placements sites) (isOther : other ∈ placements sites) (here : sites[call.number]? = some site)
    (there : sites[other.number]? = some found) (same : found.call.identity = site.call.identity) : other = call := by
  have numbers : other.number = call.number := by
    have small := (List.getElem?_eq_some_iff.mp there).1
    refine (List.getElem?_inj (by simpa using small) apart).mp ?_
    rw [List.getElem?_map, List.getElem?_map, here, there, Option.map_some, Option.map_some, same]
  obtain ⟨_, isSite, _, isCall⟩ := mem_placements.mp isCall
  obtain ⟨_, isFound, _, isOther⟩ := mem_placements.mp isOther
  rw [numbers, isSite] at isFound
  cases isFound
  rw [isOther, isCall, numbers]

theorem attributed_repeated {graph : FlowGraph} (apart : (sites.map (·.call.identity)).Nodup)
    {site : Site} (isSite : site ∈ sites) (heeded : site.hook.orderExempt = false) (named : site.call.identity ≠ 0)
    (repeats : site.block ∈ graph.repeatable) : ∃ report, (attributed graph sites).filter (·.1.same site.call) = [(site.call, report)] ∧
      report.kind = .loopCall ∧ report.location = site.location := by
  obtain ⟨number, here⟩ := mem_iff_getElem?.mp isSite
  have isCall : ⟨number, site.name.plain, site.block, site.ordinal⟩ ∈ placements sites := mem_placements.mpr ⟨site, here, heeded, rfl⟩
  obtain ⟨before, after, parts, others⟩ := check_split (placements_nodup sites) isCall repeats
  refine ⟨graded graph (Finding.diagnostic sites site (.repeated ⟨number, site.name.plain, site.block, site.ordinal⟩)), ?_, ?_, ?_⟩
  · rw [attributed, parts]
    refine filter_middle _ _ (by rw [Finding.call, here, Option.map_some]) (same_self named) fun finding member result chosen => ?_
    obtain ⟨found, there, rfl⟩ := Option.map_eq_some_iff.mp chosen
    refine Bool.eq_false_iff.mpr fun same => ?_
    obtain ⟨isOther, different⟩ := others finding member
    exact different (placement_of_site apart isCall isOther here there (same_identity same))
  · unfold graded
    split <;> rfl
  · unfold graded
    split <;> rfl

end

-- What lies in the rounds of a loop is reported as a repeated call and as nothing else, and in the
-- blocks of loop bodies there is nothing but that.
theorem loop_calls_reported (units : List CodeUnit) (number : Nat) (unit : CodeUnit) (name : Value) (graph : FlowGraph)
    (registry : Registry) (scopes : Scopes) (sites : List Site) (isHost : unit.isHost = true) (notAsync : unit.isAsync = false)
    (distinct : unit.node.Distinct) (orderly : unit.node.Orderly) (built : FlowGraph.ofUnit name unit.node = .ok graph)
    (found : hookSites registry scopes graph = .ok sites) : review units number unit graph sites = (attributed graph sites).map (·.2) ∧
      (∀ site ∈ sites, site.hook.orderExempt = false → unit.node.InLoop site.call →
        ∃ report, (attributed graph sites).filter (·.1.same site.call) = [(site.call, report)] ∧
          report.kind = .loopCall ∧ report.location = site.location) ∧
      ∀ block ordinal call, (block, ordinal, call) ∈ graph.calls → block ∈ graph.loopBody → unit.node.InLoop call := by
  have located := Flow.of_unit_located distinct orderly built
  have placed := hook_sites_calls found
  have apart : (sites.map (·.call.identity)).Nodup := by
    obtain ⟨some, same, included⟩ := placed
    have nodup := (included.map (·.2.2.identity)).nodup located.apart
    simpa [Function.comp_def] using (same.map (·.2.2.identity)).nodup_iff.mp nodup
  refine ⟨review_attributed units number unit graph sites isHost notAsync, fun site isSite heeded inLoop => ?_,
    fun block ordinal call member inside => located.looped _ member inside⟩
  have recorded : (site.block, site.ordinal, site.call) ∈ graph.calls :=
    placed.subset (mem_map_of_mem (f := fun site => (site.block, site.ordinal, site.call)) isSite)
  exact attributed_repeated apart isSite heeded (located.named _ recorded) (located.repeats _ recorded inLoop)

-- A component that calls a hook in the body of a loop.
def loopedCall : Value := .record 7 [("type", .str "CallExpression"), ("callee", nameNode 8 "useState"), ("arguments", .list [])]

def loopedStatement : Value := .record 6 [("type", .str "ExpressionStatement"), ("expression", loopedCall)]

def loopNode : Value :=
  .record 3 [("type", .str "WhileStatement"), ("test", nameNode 4 "more"),
    ("body", .record 5 [("type", .str "BlockStatement"), ("body", .list [loopedStatement])])]

def loopedUnit : CodeUnit where
  node := .record 1 [("type", .str "FunctionDeclaration"), ("params", .list []),
    ("body", .record 2 [("type", .str "BlockStatement"), ("body", .list [loopNode])])]
  name := .str "App"
  host := .component

def loopedBody : Flow.Body where
  statements := [.whileLoop none .leaf (some (.block [.evaluate loopedStatement (.call loopedCall false .leaf [])]))]

theorem looped_body_spelled : loopedBody.Spelled loopedUnit.node := by
  refine ⟨by rfl, ⟨[], rfl, rfl⟩, by rfl, _, rfl, _, _, rfl, ?_, rfl⟩
  refine ⟨_, .inl ⟨rfl, rfl⟩, by rfl, by rfl, by rfl, _, rfl, _, _, rfl, ⟨rfl, by rfl, ?_⟩, rfl⟩
  exact ⟨rfl, .inl (by rfl), .inr ⟨rfl, rfl⟩, by rfl, [], rfl, rfl⟩

theorem looped_unit_built : FlowGraph.ofUnit .null loopedUnit.node = .ok (loopedBody.draft.graph .null) := by
  have faultless : loopedBody.draft.fault.isNone = true := by cbv
  rw [FlowGraph.ofUnit, loopedBody.read _ looped_body_spelled]
  simp only [Option.isNone_iff_eq_none.mp faultless]

theorem looped_call_in_loop : loopedUnit.node.InLoop loopedCall := by
  refine ⟨loopNode, "body", ⟨("body", _), mem_of_getElem? (i := 2) rfl, ?_⟩, by decide, ?_⟩
  · exact .field _ _ ("body", _) _ (by decide) (mem_of_getElem? (i := 1) rfl) (.item _ loopNode _ mem_cons_self (.self _))
  · refine .field _ _ ("body", _) _ (by decide) (mem_of_getElem? (i := 1) rfl) ?_
    refine .item _ loopedStatement _ mem_cons_self ?_
    exact .field _ _ ("expression", _) _ (by decide) (mem_of_getElem? (i := 1) rfl) (.self _)

theorem looped_call_reported : loopedUnit.isHost = true ∧ loopedUnit.isAsync = false ∧ loopedUnit.node.InLoop loopedCall ∧
    ∃ graph sites, FlowGraph.ofUnit .null loopedUnit.node = .ok graph ∧ hookSites {} default graph = .ok sites ∧
      ∃ site ∈ sites, site.call = loopedCall ∧ ∃ report, report.kind = .loopCall ∧
        (attributed graph sites).filter (·.1.same loopedCall) = [(loopedCall, report)] := by
  have distinct : loopedUnit.node.Distinct := ⟨by decide +kernel, by decide +kernel⟩
  have orderly : loopedUnit.node.Orderly := Value.orderly_of_check (by decide +kernel)
  have all : (hookSites {} default (loopedBody.draft.graph .null)).toOption.map (·.map (·.hook.orderExempt)) = some [false] := by
    decide +kernel
  cases found : hookSites {} default (loopedBody.draft.graph .null) with
  | error => rw [found] at all; cases all
  | ok sites =>
    rw [found] at all
    obtain ⟨site, rfl, heeded⟩ := map_eq_singleton_iff.mp (Option.some.inj all)
    have recorded : (site.block, site.ordinal, site.call) ∈ (loopedBody.draft.graph .null).calls :=
      (hook_sites_calls found).subset mem_cons_self
    have isCall : site.call = loopedCall := by
      obtain ⟨mark, marked⟩ := Flow.call_marked recorded
      have only : loopedBody.marks = [(⟨true, false⟩, loopedCall)] := rfl
      rw [only, mem_singleton] at marked
      exact congrArg (·.2) marked
    obtain ⟨_, reported, _⟩ := loop_calls_reported [] 0 loopedUnit .null _ {} default _ rfl rfl distinct orderly looped_unit_built found
    obtain ⟨report, once, kind, _⟩ := reported site mem_cons_self (by simpa using heeded) (isCall ▸ looped_call_in_loop)
    rw [isCall] at once
    exact ⟨rfl, rfl, looped_call_in_loop, _, _, looped_unit_built, found, site, mem_cons_self, isCall, report, kind, once⟩

end Order

end HookLint
