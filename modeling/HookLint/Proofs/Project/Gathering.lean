import Mathlib
import HookLint.Project.Analysis
import HookLint.Proofs.Outcome

/-!
The report on many files does not show in which order they finished, and nothing is lost. Main statement:
`analysis_any_order`. What the order leaves undecided is all of one file, and there a stable sort keeps it as it comes.
-/

namespace HookLint

open List

variable {a b : Diagnostic} {file : String} {other size : Dyadic} {outcomes : List Outcome} {registry : Registry} {units : Nat}

-- A stable sort is determined by the runs of items that tie with each other.
section
variable {α : Type} {le : α → α → Bool}

def ties (le : α → α → Bool) (a b : α) : Bool := le a b && le b a

theorem merge_sort_filter (trans : ∀ a b c, le a b → le b c → le a c) (total : ∀ a b, le a b || le b a)
    {keep : α → Bool} (tied : ∀ a b, keep a → keep b → le a b) (items : List α) : (items.mergeSort le).filter keep = items.filter keep := by
  have ordered : (items.filter keep).Pairwise fun a b => le a b = true :=
    pairwise_of_forall_mem_list fun a isA b isB => tied a b (mem_filter.mp isA).2 (mem_filter.mp isB).2
  have kept : (items.filter keep).Sublist (items.mergeSort le) := sublist_mergeSort trans total ordered filter_sublist
  have both : (items.filter keep).Sublist ((items.mergeSort le).filter keep) := by
    simpa only [filter_filter, Bool.and_self] using kept.filter keep
  exact (both.eq_of_length ((mergeSort_perm items le).filter keep).length_eq.symm).symm

theorem eq_of_ties (total : ∀ a b, le a b || le b a) {first second : List α}
    (isSorted : first.Pairwise fun a b => le a b = true) (alsoSorted : second.Pairwise fun a b => le a b = true)
    (same : ∀ a, first.filter (ties le a) = second.filter (ties le a)) : first = second := by
  have refl : ∀ a, le a a = true := fun a => by simpa using total a a
  have member : ∀ {items others : List α} {a : α}, (∀ c, items.filter (ties le c) = others.filter (ties le c)) →
      a ∈ items → a ∈ others := by
    intro items others a alike isItem
    have inside : a ∈ items.filter (ties le a) := mem_filter.mpr ⟨isItem, by simp [ties, refl]⟩
    rw [alike a] at inside
    exact (mem_filter.mp inside).1
  induction first generalizing second with
  | nil =>
    cases second with
    | nil => rfl
    | cons b rest => exact absurd (member (fun c => (same c).symm) mem_cons_self) not_mem_nil
  | cons a rest ih =>
    cases second with
    | nil => exact absurd (member same mem_cons_self) not_mem_nil
    | cons b others =>
      obtain ⟨aFirst, restSorted⟩ := pairwise_cons.mp isSorted
      obtain ⟨bFirst, othersSorted⟩ := pairwise_cons.mp alsoSorted
      have ab : le a b = true := by
        rcases mem_cons.mp (member (fun c => (same c).symm) (mem_cons_self (a := b))) with rfl | later
        · exact refl _
        · exact aFirst b later
      have ba : le b a = true := by
        rcases mem_cons.mp (member same (mem_cons_self (a := a))) with rfl | later
        · exact refl _
        · exact bFirst a later
      have heads := same a
      rw [filter_cons_of_pos (by simp [ties, refl]), filter_cons_of_pos (by simp [ties, ab, ba])] at heads
      obtain rfl : a = b := (List.cons.inj heads).1
      refine congrArg _ (ih restSorted othersSorted fun c => ?_)
      have next := same c
      simp only [filter_cons] at next
      split at next
      · exact (List.cons.inj next).2
      · exact next

theorem merge_sort_of_ties (trans : ∀ a b c, le a b → le b c → le a c) (total : ∀ a b, le a b || le b a)
    {first second : List α} (same : ∀ a, first.filter (ties le a) = second.filter (ties le a)) :
    first.mergeSort le = second.mergeSort le := by
  have tied : ∀ a b c, ties le a b → ties le a c → le b c := fun a b c one other => by
    simp only [ties, Bool.and_eq_true] at one other
    exact trans b a c one.2 other.1
  refine eq_of_ties total (pairwise_mergeSort trans total first) (pairwise_mergeSort trans total second) fun a => ?_
  rw [merge_sort_filter trans total (tied a), merge_sort_filter trans total (tied a), same a]

end

/-- A line or column that is a number. -/
def Value.IsNumber (value : Value) : Prop := ∃ size, value.key? = some (.number size)

/-- The place of a diagnostic is given by numbers. -/
structure Diagnostic.Placed (diagnostic : Diagnostic) : Prop where
  line : diagnostic.location.line.IsNumber
  column : diagnostic.location.column.IsNumber

namespace Value

/-- The size of a number; zero for anything else. -/
def magnitude (value : Value) : ℚ :=
  match value.key? with
  | some (.number size) => size.toRat
  | _ => 0

theorem magnitude_of_key {value : Value} (isNumber : value.key? = some (.number size)) : value.magnitude = size.toRat := by
  rw [magnitude, isNumber]

theorem magnitude_int (number : Int) : (Value.int number).magnitude = number := by
  rw [magnitude_of_key rfl, Dyadic.toRat_ofIntWithPrec_eq_mul_two_pow]
  simp

theorem alike_of_keys {a b : Value} (first : a.key? = some (.number size))
    (second : b.key? = some (.number other)) : a.alike b = decide (a.magnitude = b.magnitude) := by
  have apart : decide (a.magnitude = b.magnitude) = decide (size = other) := by
    rw [magnitude_of_key first, magnitude_of_key second, decide_eq_decide, Dyadic.toRat_inj]
  match a, b with
  | .int number, .int more => simp [alike, magnitude_int]
  | .int _, .bool _ | .int _, .float _ | .bool _, .int _ | .bool _, .bool _ | .bool _, .float _ | .float _, .int _
  | .float _, .bool _ | .float _, .float _ => rw [apart]; simp [alike, first, second]

theorem below_of_keys {a b : Value} (first : a.key? = some (.number size))
    (second : b.key? = some (.number other)) : a.below? b = some (decide (a.magnitude < b.magnitude)) := by
  have apart : decide (a.magnitude < b.magnitude) = decide (size < other) := by
    rw [magnitude_of_key first, magnitude_of_key second, decide_eq_decide, Dyadic.toRat_lt_toRat_iff]
  match a, b with
  | .int number, .int more => simp [below?, magnitude_int]
  | .int _, .bool _ | .int _, .float _ | .bool _, .int _ | .bool _, .bool _ | .bool _, .float _ | .float _, .int _
  | .float _, .bool _ | .float _, .float _ => rw [apart]; simp [below?, first, second, Key.below?]

theorem alike_texts (a b : String) : (Value.str a).alike (.str b) = decide (a = b) := by simp [alike, key?]

theorem below_texts (a b : String) : (Value.str a).below? (.str b) = some (decide (a < b)) := by simp [below?, key?, Key.below?]

end Value

namespace Diagnostic

/-- What decides the order of placed diagnostics. -/
def rank (diagnostic : Diagnostic) : String ×ₗ ℚ ×ₗ ℚ ×ₗ String :=
  toLex (diagnostic.file, toLex (diagnostic.location.line.magnitude, toLex (diagnostic.location.column.magnitude, diagnostic.kind.name)))

def rankLe (a b : Diagnostic) : Bool := decide (a.rank ≤ b.rank)

theorem below_of_placed (placed : a.Placed) (alsoPlaced : b.Placed) : Value.belowItems? a.row b.row = some (decide (a.rank < b.rank)) := by
  obtain ⟨⟨_, aLine⟩, ⟨_, aColumn⟩⟩ := placed
  obtain ⟨⟨_, bLine⟩, ⟨_, bColumn⟩⟩ := alsoPlaced
  simp only [row, Value.belowItems?, Value.alike_texts, Value.below_texts, Value.alike_of_keys aLine bLine,
    Value.below_of_keys aLine bLine, Value.alike_of_keys aColumn bColumn, Value.below_of_keys aColumn bColumn,
    rank, Prod.Lex.toLex_lt_toLex, decide_eq_true_eq]
  split
  case isFalse apart => simp [apart]
  split
  case isFalse apart => simp [*]
  split
  case isFalse apart => simp [*]
  split
  case isFalse apart => simp [*]
  simp [*]

theorem le_of_placed (placed : a.Placed) (alsoPlaced : b.Placed) : a.le b = a.rankLe b := by
  rw [rankLe, le, rowLe, below_of_placed alsoPlaced placed]
  by_cases less : b.rank < a.rank
  · simp [less]
  · simp [less, not_lt.mp less]

theorem file_of_ties (tied : ties rankLe a b) : b.file = a.file := by
  simp only [ties, rankLe, Bool.and_eq_true, decide_eq_true_eq] at tied
  have same := congrArg (fun rank => (ofLex rank).1) (le_antisymm tied.1 tied.2)
  exact same.symm

end Diagnostic

theorem sorted_of_files {first second : List Diagnostic} (placed : ∀ d ∈ first, d.Placed) (alsoPlaced : ∀ d ∈ second, d.Placed)
    (same : ∀ file, first.filter (·.file = file) = second.filter (·.file = file)) :
    first.mergeSort Diagnostic.le = second.mergeSort Diagnostic.le := by
  have ranked : ∀ {items : List Diagnostic}, (∀ d ∈ items, d.Placed) →
      items.mergeSort Diagnostic.le = items.mergeSort Diagnostic.rankLe := by
    intro items each
    have sorted := map_mergeSort (f := id) (s := Diagnostic.rankLe) (l := items) (r := Diagnostic.le) fun a isA b isB => Diagnostic.le_of_placed (each a isA) (each b isB)
    simpa only [map_id] using sorted
  have within : ∀ (d : Diagnostic) (items : List Diagnostic), items.filter (ties Diagnostic.rankLe d)
        = (items.filter (·.file = d.file)).filter (ties Diagnostic.rankLe d) := by
    intro d items
    rw [filter_filter]
    refine filter_congr fun other _ => ?_
    cases tied : ties Diagnostic.rankLe d other with
    | false => simp
    | true => simp [Diagnostic.file_of_ties tied]
  rw [ranked placed, ranked alsoPlaced]
  refine merge_sort_of_ties ?_ ?_ fun d => ?_
  · intro a b c ab bc
    exact decide_eq_true (le_trans (of_decide_eq_true ab) (of_decide_eq_true bc))
  · intro a b
    simpa [Diagnostic.rankLe] using le_total a.rank b.rank
  · rw [within d first, within d second, same]

namespace Report

def wholeFailures (report : Report) : Nat := report.failures.countP (·.unitName.isNull)

def unitFailures (report : Report) : Nat := report.failures.countP (!·.unitName.isNull)

/-- A report on one file accounts for the file and for each of its units: they are analysed, or a failure says why not. -/
structure Accounts (file : String) (units : Nat) (report : Report) : Prop where
  own : ∀ diagnostic ∈ report.diagnostics, diagnostic.file = file
  whole : report.files + report.wholeFailures = 1
  parts : report.units + report.unitFailures = units

theorem display_name_not_null (unit : CodeUnit) : unit.displayName.isNull = false := by
  unfold CodeUnit.displayName
  split
  · rfl
  split
  · rename_i _ given
    cases name : unit.name <;> simp_all [Value.given, Value.isNull]
  · rfl

theorem add_unit_accounts {report next : Report} {unit : CodeUnit}
    {found : Except Fault (List Diagnostic)} (accounts : report.Accounts file units)
    (added : report.addUnit file unit found = .ok next) : next.Accounts file (units + 1) := by
  obtain ⟨own, whole, parts⟩ := accounts
  unfold addUnit at added
  cases found with
  | ok diagnostics =>
    cases added
    refine ⟨fun diagnostic member => ?_, whole, ?_⟩
    · rcases mem_append.mp member with old | fresh
      · exact own diagnostic old
      · obtain ⟨_, _, rfl⟩ := mem_map.mp fresh
        rfl
    · simp only [unitFailures] at parts ⊢
      push_cast
      omega
  | error fault =>
    obtain ⟨location, _, added⟩ := bind_ok added
    cases added
    have unnamed : (Failure.unit file unit.displayName location.line fault).unitName.isNull = false := display_name_not_null unit
    refine ⟨own, ?_, ?_⟩
    · simpa [wholeFailures, countP_append, unnamed] using whole
    · simp only [unitFailures, countP_append, countP_singleton, unnamed, Bool.not_false, if_true] at parts ⊢
      push_cast at parts ⊢
      omega

theorem add_units_accounts {analyse : CodeUnit × Nat → Except Fault (List Diagnostic)}
    (items : List (CodeUnit × Nat)) {report last : Report} (accounts : report.Accounts file units)
    (added : items.foldlM (fun report item => report.addUnit file item.1 (analyse item)) report = .ok last) :
    last.Accounts file (units + items.length) := by
  induction items generalizing units report with
  | nil =>
    cases added
    exact accounts
  | cons item rest ih =>
    rw [foldlM_cons] at added
    obtain ⟨next, step, added⟩ := bind_ok added
    have later := ih (add_unit_accounts accounts step) added
    rwa [Nat.add_assoc, Nat.add_comm 1] at later

theorem sort_accounts {report : Report} (accounts : report.Accounts file units) : report.sort.Accounts file units :=
  ⟨fun diagnostic member => accounts.own diagnostic (mem_mergeSort.mp member), accounts.whole, accounts.parts⟩

end Report

theorem analyze_program_accounts {program : Value} {scopes : Scopes}
    {units : List CodeUnit} {report : Report} (surveyed : Scopes.ofProgram program = .ok scopes)
    (found : codeUnits registry scopes program = .ok units)
    (analysed : analyzeProgram registry file program = .ok report) : report.Accounts file units.length := by
  obtain ⟨_, isScopes, analysed⟩ := bind_ok analysed
  obtain rfl := Except.ok.inj (surveyed.symm.trans isScopes)
  obtain ⟨_, isUnits, analysed⟩ := bind_ok analysed
  obtain rfl := Except.ok.inj (found.symm.trans isUnits)
  obtain ⟨whole, added, analysed⟩ := bind_ok analysed
  obtain ⟨_, _, analysed⟩ := bind_ok analysed
  cases analysed
  have start : Report.Accounts file 0 { files := 1 } := ⟨by simp, rfl, rfl⟩
  have all := Report.add_units_accounts _ start added
  rw [length_zipIdx, Nat.zero_add] at all
  exact Report.sort_accounts all

namespace Project

/-- The number of units in a file that can be read and parsed and whose analysis returns. -/
def discovered (registry : Registry) (tree : Directory) (path : Path) : Nat :=
  match tree.find path with
  | .ok (.file source) =>
    match source.parse with
    | .ok parsed =>
      match analyzeProgram registry path.text parsed.tree with
      | .ok _ => ((Scopes.ofProgram parsed.tree >>= (codeUnits registry · parsed.tree)).toOption.getD []).length
      | .error _ => 0
    | .error _ => 0
  | _ => 0

namespace Outcome

/-- What an outcome adds to a report. -/
def report (outcome : Outcome) : Report :=
  match outcome.result with
  | .ok report => report
  | .error fault => { failures := [.whole outcome.file fault] }

theorem add_to_eq (report : Report) (outcome : Outcome) : outcome.addTo report = report.merge outcome.report := by
  unfold addTo Outcome.report
  cases outcome.result <;> simp [Report.merge]

end Outcome

theorem analyze_file_accounts (registry : Registry) (tree : Directory) (path : Path) :
    (outcomeOf registry tree path).report.Accounts path.text (discovered registry tree path) := by
  unfold outcomeOf Outcome.report analyzeFile discovered
  cases tree.find path with
  | error missing => cases missing <;> exact ⟨by simp, rfl, rfl⟩
  | ok found =>
    cases found with
    | directory place => exact ⟨by simp, rfl, rfl⟩
    | file source =>
      dsimp only
      unfold analyzeSource
      cases source.parse with
      | error complaint => exact ⟨by simp [Complaint.diagnostic], rfl, rfl⟩
      | ok parsed =>
        dsimp only
        cases done : analyzeProgram registry path.text parsed.tree with
        | error fault => exact ⟨by simp, rfl, rfl⟩
        | ok report =>
          obtain ⟨scopes, surveyed, rest⟩ := bind_ok done
          obtain ⟨units, found, _⟩ := bind_ok rest
          rw [surveyed, bind_of rfl, found]
          exact analyze_program_accounts surveyed found done

theorem fold_reports (outcomes : List Outcome) (start : Report) : outcomes.foldl Outcome.addTo start =
      { diagnostics := start.diagnostics ++ outcomes.flatMap (·.report.diagnostics)
        failures := start.failures ++ outcomes.flatMap (·.report.failures)
        files := start.files + (outcomes.map (·.report.files)).sum
        units := start.units + (outcomes.map (·.report.units)).sum } := by
  induction outcomes generalizing start with
  | nil => simp
  | cons outcome rest ih =>
    rw [foldl_cons, ih, Outcome.add_to_eq]
    simp [Report.merge, Int.add_assoc]

theorem gather_eq (outcomes : List Outcome) : gather outcomes =
      { diagnostics := (outcomes.flatMap (·.report.diagnostics)).mergeSort Diagnostic.le
        failures := outcomes.flatMap (·.report.failures)
        files := (outcomes.map (·.report.files)).sum
        units := (outcomes.map (·.report.units)).sum } := by
  rw [gather, fold_reports]
  simp [Report.sort]

theorem filter_of_file
    (own : ∀ outcome ∈ outcomes, ∀ diagnostic ∈ outcome.report.diagnostics, diagnostic.file = outcome.file) (file : String) :
    (outcomes.flatMap (·.report.diagnostics)).filter (·.file = file)
      = (outcomes.filter (·.file = file)).flatMap (·.report.diagnostics) := by
  induction outcomes with
  | nil => rfl
  | cons outcome rest ih =>
    have first := own outcome mem_cons_self
    rw [flatMap_cons, filter_append, ih fun other member => own other (mem_cons_of_mem _ member)]
    by_cases same : outcome.file = file
    · have kept : outcome.report.diagnostics.filter (·.file = file) = outcome.report.diagnostics :=
        filter_eq_self.mpr fun diagnostic member => by simp [first diagnostic member, same]
      rw [kept, filter_cons_of_pos (by simpa using same), flatMap_cons]
    · have dropped : outcome.report.diagnostics.filter (·.file = file) = [] :=
        filter_eq_nil_iff.mpr fun diagnostic member => by simp [first diagnostic member, same]
      rw [dropped, filter_cons_of_neg (by simpa using same), nil_append]

theorem of_file_any_order {finished : List Outcome} (distinct : (outcomes.map (·.file)).Nodup)
    (order : finished.Perm outcomes) (file : String) : finished.filter (·.file = file) = outcomes.filter (·.file = file) := by
  have same := order.filter (·.file = file)
  have apart : ((outcomes.filter (·.file = file)).map (·.file)).Nodup := distinct.sublist (filter_sublist.map _)
  have equal : ∀ outcome ∈ outcomes.filter (·.file = file), outcome.file = file := fun outcome member => by
    simpa using (mem_filter.mp member).2
  generalize outcomes.filter (·.file = file) = ones at same apart equal ⊢
  match ones with
  | [] => exact same.eq_nil
  | [outcome] => exact perm_singleton.mp same
  | first :: second :: rest =>
    have one := equal first mem_cons_self
    have other := equal second (mem_cons_of_mem _ mem_cons_self)
    simp [one, other] at apart

section
variable (registry : Registry) (tree : Directory)

theorem gather_totals (files : List Path) :
    (gather (files.map (outcomeOf registry tree))).files + (gather (files.map (outcomeOf registry tree))).wholeFailures = files.length ∧
    (gather (files.map (outcomeOf registry tree))).units + (gather (files.map (outcomeOf registry tree))).unitFailures
      = (files.map (discovered registry tree)).sum := by
  simp only [gather_eq, Report.wholeFailures, Report.unitFailures]
  induction files with
  | nil => exact ⟨rfl, rfl⟩
  | cons path rest ih =>
    obtain ⟨-, whole, parts⟩ := analyze_file_accounts registry tree path
    obtain ⟨wholes, all⟩ := ih
    simp only [Report.wholeFailures, Report.unitFailures] at whole parts
    simp only [map_cons, sum_cons, flatMap_cons, countP_append, length_cons]
    push_cast at *
    exact ⟨by omega, by omega⟩

theorem analysis_any_order {files : List Path} {finished : List Outcome} (distinct : (files.map Path.text).Nodup)
    (placed : ∀ path ∈ files, ∀ report, analyzeFile registry tree path = .ok report → ∀ d ∈ report.diagnostics, d.Placed)
    (order : finished.Perm (files.map (outcomeOf registry tree))) : ∃ report,
      (∀ selection paths, collect tree selection paths = .ok files → analyzePaths registry tree selection paths = .ok report) ∧
      (gather finished).diagnostics = report.diagnostics ∧ (gather finished).byKind = report.byKind ∧
      (gather finished).files = report.files ∧ (gather finished).units = report.units ∧ (gather finished).failures.Perm report.failures ∧
      report.diagnostics.Perm (files.flatMap fun path => (outcomeOf registry tree path).report.diagnostics) ∧
      report.failures.Perm (files.flatMap fun path => (outcomeOf registry tree path).report.failures) ∧
      report.files + report.wholeFailures = files.length ∧ report.units + report.unitFailures = (files.map (discovered registry tree)).sum := by
  have own : ∀ outcome ∈ files.map (outcomeOf registry tree), ∀ d ∈ outcome.report.diagnostics, d.file = outcome.file ∧ d.Placed := by
    intro outcome member d found
    obtain ⟨path, isFile, rfl⟩ := mem_map.mp member
    refine ⟨(analyze_file_accounts registry tree path).own d found, ?_⟩
    unfold Outcome.report at found
    split at found
    case h_1 report isReport => exact placed path isFile report isReport d found
    case h_2 => exact absurd found not_mem_nil
  have again := fun outcome member => own outcome (order.mem_iff.mp member)
  have same : (gather finished).diagnostics = (gather (files.map (outcomeOf registry tree))).diagnostics := by
    rw [gather_eq, gather_eq]
    refine sorted_of_files ?_ ?_ fun file => ?_
    · intro d found
      obtain ⟨outcome, member, found⟩ := mem_flatMap.mp found
      exact (again outcome member d found).2
    · intro d found
      obtain ⟨outcome, member, found⟩ := mem_flatMap.mp found
      exact (own outcome member d found).2
    · have apart : ((files.map (outcomeOf registry tree)).map (·.file)).Nodup := by rwa [map_map]
      rw [filter_of_file fun outcome member d found => (again outcome member d found).1,
        filter_of_file fun outcome member d found => (own outcome member d found).1, of_file_any_order apart order]
  refine ⟨gather (files.map (outcomeOf registry tree)), fun selection paths collected => ?_, same,
    by rw [Report.byKind, Report.byKind, same], ?_, ?_, ?_, ?_, ?_, gather_totals registry tree files⟩
  · rw [analyzePaths, collected]
    rfl
  · rw [gather_eq, gather_eq]
    exact (order.map _).sum_eq
  · rw [gather_eq, gather_eq]
    exact (order.map _).sum_eq
  · rw [gather_eq, gather_eq]
    exact order.flatMap_right _
  · rw [gather_eq, flatMap_map]
    exact mergeSort_perm _ _
  · rw [gather_eq]
    exact .of_eq (flatMap_map ..)

end

-- A file that is analysed, one that cannot be parsed, one that is not there, and a name that no file can have.
def emptyProgram : Value := .record 1 [("type", .str "Program"), ("body", .list [])]

def endedEarly : Complaint := { message := "Unexpected end of input", line := .int 3, column := .int 1 }

def mixedTree : Directory := { entries := [
  (["b.js"], .file ⟨.ok emptyProgram, .ok emptyProgram⟩), (["a.js"], .file ⟨.error endedEarly, .error endedEarly⟩)] }

def mixedFiles : List Path := [⟨"", ["b.js"]⟩, ⟨"", ["a.js"]⟩, ⟨"", ["c.js"]⟩, ⟨"", ["\x00"]⟩]

theorem empty_program_analysed : ∃ scopes units, Scopes.ofProgram emptyProgram = .ok scopes ∧
    codeUnits {} scopes emptyProgram = .ok units ∧ units.length = 1 ∧
    analyzeProgram {} "b.js" emptyProgram = .ok { files := 1, units := 1 } := by
  have surveyed : (Scopes.ofProgram emptyProgram).isOk = true := by decide +kernel
  obtain ⟨scopes, isScopes⟩ : ∃ scopes, Scopes.ofProgram emptyProgram = .ok scopes := by
    cases isScopes : Scopes.ofProgram emptyProgram with
    | error => rw [isScopes] at surveyed; cases surveyed
    | ok scopes => exact ⟨scopes, rfl⟩
  have functionless : emptyProgram.walk.filter (·.isFunction) = [] := isEmpty_iff.mp (by decide +kernel)
  have found : codeUnits {} scopes emptyProgram = .ok [{ node := emptyProgram, isProgram := true }] := by
    rw [codeUnits, functionless]
    rfl
  have built : FlowGraph.ofUnit (.str "<module>") emptyProgram = .ok (({} : Flow.Body).draft.graph (.str "<module>")) := by
    have read : Flow.readUnit emptyProgram = {} := by
      change Flow.Body.mk [] (Flow.readStmts []) = {}
      rw [Flow.readStmts]
    rw [FlowGraph.ofUnit, read]
    rfl
  have quiet : analyzeUnit {} scopes [{ node := emptyProgram, isProgram := true }] 0
      { node := emptyProgram, isProgram := true } = .ok [] := by
    have callless : hookSites {} scopes (({} : Flow.Body).draft.graph (.str "<module>")) = .ok [] := by
      have none : (({} : Flow.Body).draft.graph (.str "<module>")).calls = [] := rfl
      simp [hookSites, none, sortBy, ensureOrdered, bind, Except.bind, pure, Except.pure]
    simp [analyzeUnit, CodeUnit.displayName, built, callless, bind, Except.bind, pure, Except.pure]
  refine ⟨scopes, _, isScopes, found, rfl, ?_⟩
  simp [analyzeProgram, isScopes, found, quiet, Report.addUnit, Report.ensureSortable, ensureOrdered, Report.sort,
    bind, Except.bind, pure, Except.pure]

theorem mixed_any_order : (mixedFiles.map Path.text).Nodup ∧
    (gather (mixedFiles.map (outcomeOf {} mixedTree)).reverse).diagnostics = [endedEarly.diagnostic "a.js"] ∧
    (gather (mixedFiles.map (outcomeOf {} mixedTree)).reverse).files = 2 := by
  obtain ⟨_, _, _, _, _, analysed⟩ := empty_program_analysed
  have whole : analyzeFile {} mixedTree ⟨"", ["b.js"]⟩ = analyzeProgram {} "b.js" emptyProgram := rfl
  have cut : analyzeFile {} mixedTree ⟨"", ["a.js"]⟩ = .ok { diagnostics := [endedEarly.diagnostic "a.js"], files := 1 } := rfl
  have absent : analyzeFile {} mixedTree ⟨"", ["c.js"]⟩ = .ok { failures := [.unreadable "c.js" (Missing.absent.message "c.js")] } := rfl
  have refused : analyzeFile {} mixedTree ⟨"", ["\x00"]⟩ = .error .badPath := rfl
  have distinct : (mixedFiles.map Path.text).Nodup := by decide
  have placed : ∀ path ∈ mixedFiles, ∀ report, analyzeFile {} mixedTree path = .ok report → ∀ d ∈ report.diagnostics, d.Placed := by
    simp only [mixedFiles, forall_mem_cons, whole, cut, absent, refused, analysed]
    refine ⟨?_, ?_, ?_, ?_, fun _ none => absurd none not_mem_nil⟩
    · rintro report ⟨⟩ d none
      exact absurd none not_mem_nil
    · rintro report ⟨⟩ d found
      obtain rfl := mem_singleton.mp found
      exact ⟨⟨_, rfl⟩, ⟨_, rfl⟩⟩
    · rintro report ⟨⟩ d none
      exact absurd none not_mem_nil
    · rintro report ⟨⟩
  obtain ⟨report, _, diagnostics, _, files, _, _, kept, lost, counted, _⟩ := analysis_any_order {} mixedTree distinct placed (reverse_perm _)
  simp only [mixedFiles, flatMap_cons, flatMap_nil, outcomeOf, Outcome.report, whole, cut, absent, refused, analysed] at kept lost
  have one : report.wholeFailures = 2 := (lost.countP_eq _).trans rfl
  refine ⟨distinct, diagnostics.trans (perm_singleton.mp kept), files.trans ?_⟩
  rw [one] at counted
  have four : report.files + 2 = 4 := counted
  omega

end Project

end HookLint
