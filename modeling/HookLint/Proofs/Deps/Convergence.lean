import Mathlib.Data.List.Nodup
import HookLint.Deps.Check
import HookLint.Proofs.Deps.Comparison

namespace HookLint.Deps

open List

variable {after before : Comparison} {binding : Binding} {kept : List Value} {others : List Requirement} {path : Value}

def Textual (paths : List Value) : Prop := ∀ path ∈ paths, ∃ text, path = .str text

section
variable {options : Options} {paths : List Value} {required : List Requirement} {text : String}

theorem has_path_text : hasPath paths (.str text) = true ↔ .str text ∈ paths := by
  rw [hasPath, any_eq_true]
  constructor
  · rintro ⟨other, isOther, same⟩
    rw [← alike_text.mp same]
    exact isOther
  · exact fun member => ⟨_, member, alike_text.mpr rfl⟩

theorem ancestor_text {other : Value} (isAbove : isAncestor other (.str text) = .ok true) :
    ∃ above, other = .str above ∧ isAncestorText above text = true := by
  cases other with
  | str above => exact ⟨above, rfl, Except.ok.inj isAbove⟩
  | _ => cases isAbove

theorem ancestor_longer {above below : String} (isAbove : isAncestorText above below = true) :
    above.toList.length < below.toList.length := by
  have longer := IsPrefix.length_le <| isPrefixOf_iff_prefix.mp isAbove
  rw [length_append] at longer
  exact longer

theorem ancestor_trans {first second third : String} (above : isAncestorText first second = true)
    (below : isAncestorText second third = true) : isAncestorText first third = true := by
  have upper := isPrefixOf_iff_prefix.mp above
  have lower := isPrefixOf_iff_prefix.mp below
  exact isPrefixOf_iff_prefix.mpr (upper.trans ((prefix_append _ _).trans lower))

theorem satisfied_text (textual : Textual paths) (covered : ∃ other ∈ paths, Covers options (.str text) other) :
    isSatisfied options (.str text) paths = .ok true := by
  induction paths with
  | nil =>
    obtain ⟨other, isOther, _⟩ := covered
    cases isOther
  | cons first rest ih =>
    obtain ⟨⟨name, isName⟩, others⟩ := forall_mem_cons.mp textual
    obtain ⟨other, isOther, covers⟩ := covered
    have later (missed : ¬ Covers options (.str text) first) : isSatisfied options (.str text) rest = .ok true := by
      refine ih others ⟨other, (mem_cons.mp isOther).resolve_left ?_, covers⟩
      rintro rfl
      exact missed covers
    rw [isSatisfied]
    cases same : first.equal (.str text) with
    | true => rfl
    | false =>
      cases strict : options.strictMembers with
      | true => exact later fun covers => covers.elim (by simp [same]) (by simp [strict])
      | false =>
        have above : isAncestor first (.str text) = .ok (isAncestorText name text) := by rw [isName]; rfl
        rw [above]
        cases isAbove : isAncestorText name text with
        | true => rfl
        | false =>
          refine later fun covers => covers.elim (by simp [same]) fun ancestor => ?_
          rw [above, isAbove] at ancestor
          cases ancestor.2

theorem related_text {path : String} {requirement : Requirement} (isText : requirement.path = .str path) :
    ∃ related, isRelated options (.str text) requirement = .ok related ∧ (path = text → related = true) := by
  unfold isRelated
  rw [isText]
  cases same : (Value.str path).equal (.str text) with
  | true =>
    cases options.strictMembers with
    | true | false => exact ⟨_, rfl, fun _ => rfl⟩
  | false =>
    have different : path ≠ text := by
      rintro rfl
      rw [equal_text.mpr rfl] at same
      cases same
    cases options.strictMembers with
    | true | false => exact ⟨_, rfl, fun same => absurd same different⟩

theorem reactive_required (textual : Textual (required.map (·.path))) (isReactive : .str text ∈ reactive required) :
    isRequired options (.str text) required = .ok true := by
  induction required with
  | nil => cases isReactive
  | cons requirement rest ih =>
    rw [Textual, map_cons, forall_mem_cons] at textual
    obtain ⟨⟨path, isPath⟩, others⟩ := textual
    obtain ⟨related, answer, self⟩ : ∃ related, isRelated options (.str text) requirement = .ok related ∧ (path = text → related = true) :=
      related_text isPath
    rw [isRequired, answer]
    cases counts : related && !(options.flagStable && requirement.stable) with
    | true =>
      simp only [bind, Except.bind, counts]
      rfl
    | false =>
      have later : .str text ∈ reactive rest := by
        obtain ⟨other, isOther, isText⟩ := mem_map.mp isReactive
        obtain ⟨listed, unstable⟩ := mem_filter.mp isOther
        rcases mem_cons.mp listed with rfl | further
        · rw [isPath] at isText
          rw [self (Value.str.inj isText), Bool.not_eq_eq_eq_not.mp unstable] at counts
          simp at counts
        · exact mem_map.mpr ⟨other, mem_filter.mpr ⟨further, unstable⟩, isText⟩
      simp only [bind, Except.bind, counts]
      exact ih others later

-- Two lists of requirements with the same paths, of which the same are stable.
def Alike (first second : List Requirement) : Prop :=
  List.Forall₂ (fun one other => one.path = other.path ∧ one.key = other.key ∧ one.stable = other.stable) first second

theorem alike_required (alike : Alike required others) (path : Value) :
    isRequired options path others = isRequired options path required := by
  induction alike with
  | nil => rfl
  | cons same _ ih => rw [isRequired, isRequired, isRelated, isRelated, same.1, same.2.2, ih]

theorem alike_reactive (alike : Alike required others) : reactive others = reactive required := by
  induction alike with
  | nil => rfl
  | @cons one other rest later same _ ih =>
    rw [reactive, reactive, filter_cons, filter_cons, same.2.2]
    cases other.stable with
    | true => exact ih
    | false => exact congrArg₂ List.cons same.1.symm ih

-- What a name is to a call: not declared, or declared inside the function of the call, or further out.
def standing (inside : List Nat) (binding : Option Binding) : Option Bool := binding.map fun binding => inside.contains binding.scope

-- What a listed name that is declared has to be to stay in a list.
def Needed (options : Options) (required : List Requirement) (path : Value) : Prop :=
  isCurrent path = .ok false ∧ isRequired options path required = .ok true

variable {pure : List Nat} {entries : List Declaration}

theorem necessary_needed (run : isNecessary options pure required path binding = .ok true) :
    standing pure (some binding) = some true ∧ Needed options required path := by
  obtain ⟨current, isCurrent, run⟩ := bind_ok run
  cases current with
  | true => cases run
  | false =>
    cases inside : pure.contains binding.scope with
    | true =>
      rw [inside] at run
      exact ⟨congrArg some inside, isCurrent, run⟩
    | false =>
      rw [inside] at run
      cases run

theorem needed_necessary (inside : standing pure (some binding) = some true)
    (needed : Needed options required path) : isNecessary options pure required path binding = .ok true := by
  have isInside : pure.contains binding.scope = true := Option.some.inj inside
  unfold isNecessary
  rw [needed.1, isInside]
  exact needed.2

-- An entry that stays in a list: an unknown name, or one that is needed.
def Fits (options : Options) (pure : List Nat) (required : List Requirement) (entry : Declaration) : Prop :=
  standing pure entry.binding = none ∨ standing pure entry.binding = some true ∧ Needed options required entry.path

theorem sorted_grows (run : entries.foldlM (Comparison.add options pure required) before = .ok after) :
    before.necessary ⊆ after.necessary := by
  induction entries generalizing before with
  | nil =>
    cases run
    exact List.Subset.refl _
  | cons entry rest ih =>
    rw [foldlM_cons, add_eq] at run
    obtain ⟨middle, step, later⟩ := bind_ok run
    obtain ⟨keep, _, step⟩ := bind_ok step
    cases step
    cases keep with
    | false => exact fun path member => ih later member
    | true => exact fun path member => ih later (mem_append_left _ member)

-- The entries that are kept are different from each other, and each that is declared is needed.
theorem sorted_needed (textual : Textual after.necessary)
    (run : entries.foldlM (Comparison.add options pure required) before = .ok after) (apart : before.necessary.Nodup) :
    after.necessary.Nodup ∧ ∀ path ∈ after.necessary, path ∈ before.necessary ∨
      ∃ entry ∈ entries, entry.path = path ∧ Fits options pure required entry := by
  induction entries generalizing before with
  | nil =>
    cases run
    exact ⟨apart, fun path => .inl⟩
  | cons entry rest ih =>
    rw [foldlM_cons, add_eq] at run
    obtain ⟨middle, step, later⟩ := bind_ok run
    obtain ⟨keep, isKept, step⟩ := bind_ok step
    cases step
    cases keep with
    | false =>
      obtain ⟨stillApart, each⟩ := ih later apart
      refine ⟨stillApart, fun path member => (each path member).imp_right ?_⟩
      rintro ⟨other, isOther, found⟩
      exact ⟨other, mem_cons_of_mem _ isOther, found⟩
    | true =>
      unfold keeps at isKept
      split at isKept
      · cases isKept
      rename_i fresh
      have new : entry.path ∉ before.necessary := by
        obtain ⟨text, isText⟩ := textual _ (sorted_grows later (mem_append_right _ mem_cons_self))
        rw [isText] at fresh ⊢
        exact mt has_path_text.mpr fresh
      have fits : Fits options pure required entry := by
        unfold Fits
        cases bound : entry.binding with
        | none => exact .inl rfl
        | some binding =>
          rw [bound] at isKept
          exact .inr (necessary_needed isKept)
      obtain ⟨stillApart, each⟩ := ih later (nodup_append.mpr ⟨apart, nodup_singleton _, by
        rintro path member _ here rfl
        rw [mem_singleton.mp here] at member
        exact new member⟩)
      refine ⟨stillApart, fun path member => ?_⟩
      rcases each path member with early | ⟨other, isOther, found⟩
      · rcases mem_append.mp early with old | here
        · exact .inl old
        · rw [mem_singleton.mp here]
          exact .inr ⟨entry, mem_cons_self, rfl, fits⟩
      · exact .inr ⟨other, mem_cons_of_mem _ isOther, found⟩

theorem sorted_all (textual : Textual (entries.map (·.path)))
    (apart : (before.necessary ++ entries.map (·.path)).Nodup) (fits : ∀ entry ∈ entries, Fits options pure required entry) :
    entries.foldlM (Comparison.add options pure required) before =
      .ok { before with necessary := before.necessary ++ entries.map (·.path) } := by
  induction entries generalizing before with
  | nil =>
    rw [map_nil, append_nil]
    rfl
  | cons entry rest ih =>
    rw [Textual, map_cons, forall_mem_cons] at textual
    obtain ⟨⟨text, isText⟩, others⟩ := textual
    obtain ⟨here, later⟩ := forall_mem_cons.mp fits
    rw [map_cons, append_cons] at apart
    have new : entry.path ∉ before.necessary := by
      obtain ⟨early, _, _⟩ := nodup_append.mp apart
      intro member
      exact (nodup_append.mp early).2.2 _ member _ mem_cons_self rfl
    have kept : keeps options pure required before.necessary entry = .ok true := by
      have fresh : hasPath before.necessary entry.path = false := by
        rw [isText] at new ⊢
        exact Bool.eq_false_iff.mpr (mt has_path_text.mp new)
      rw [keeps, fresh]
      unfold Fits at here
      cases bound : entry.binding with
      | none => rfl
      | some binding =>
        rw [bound] at here
        obtain ⟨inside, needed⟩ := here.resolve_left nofun
        exact needed_necessary inside needed
    rw [foldlM_cons, add_eq, kept]
    refine (ih others apart later).trans ?_
    rw [if_pos rfl, map_cons, append_assoc]
    rfl

theorem sort_nothing : sortPaths [] = .ok [] := by
  rw [sortPaths, sortBy, mergeSort_nil]
  rfl

theorem compare_settled (textual : Textual (entries.map (·.path))) (apart : (entries.map (·.path)).Nodup)
    (fits : ∀ entry ∈ entries, Fits options pure required entry) (changing : Textual (reactive required))
    (covered : ∀ path ∈ reactive required, ∃ other ∈ entries.map (·.path), Covers options path other) :
    compare options pure required entries = .ok { necessary := entries.map (·.path) } := by
  have kept : entries.foldlM (Comparison.add options pure required) {} = .ok { necessary := entries.map (·.path) } :=
    sorted_all textual apart fits
  have satisfied : ∀ path ∈ reactive required, isSatisfied options path (entries.map (·.path)) = .ok true := by
    intro path member
    obtain ⟨text, rfl⟩ := changing path member
    exact satisfied_text textual (covered _ member)
  have nothing : (reactive required).filterM (fun path => (do return !(← isSatisfied options path (entries.map fun entry => entry.path)) : Except Fault Bool)) = .ok [] := by
    have each : ∀ path ∈ reactive required,
        (do return !(← isSatisfied options path (entries.map fun entry => entry.path)) : Except Fault Bool) = .ok false := by
      intro path member
      rw [satisfied path member]
      rfl
    rw [filter_all_of each, filter_false]
  exact (bind_of kept).trans ((bind_of nothing).trans (bind_of sort_nothing))

theorem has_ancestor_text (text : String) (textual : Textual paths) : ∃ answer, hasAncestor (.str text) paths = .ok answer ∧
    (answer = true ↔ ∃ other ∈ paths, isAncestor other (.str text) = .ok true) := by
  induction paths with
  | nil => exact ⟨false, rfl, by simp⟩
  | cons first rest ih =>
    obtain ⟨⟨name, isName⟩, others⟩ := forall_mem_cons.mp textual
    obtain ⟨later, isLater, found⟩ := ih others
    have above : isAncestor first (.str text) = .ok (isAncestorText name text) := by rw [isName]; rfl
    rw [hasAncestor, above, exists_mem_cons_iff, above, ← found]
    cases same : first.equal (.str text) with
    | true =>
      have isText : name = text := Value.str.inj (isName.symm.trans (equal_text.mp same))
      have irreflexive : isAncestorText name text = false := by
        rw [isText]
        exact Bool.eq_false_iff.mpr fun self => Nat.lt_irrefl _ (ancestor_longer self)
      rw [irreflexive]
      exact ⟨later, isLater, by simp⟩
    | false =>
      cases isAncestorText name text with
      | true => exact ⟨true, rfl, by simp⟩
      | false => exact ⟨later, isLater, by simp⟩

theorem topmost_ancestor (textual : Textual paths) (member : .str text ∈ paths) :
    ∃ top, .str top ∈ paths ∧ hasAncestor (.str top) paths = .ok false ∧ (top = text ∨ isAncestorText top text = true) := by
  induction size : text.toList.length using Nat.strongRecOn generalizing text with
  | _ size ih =>
    obtain ⟨answer, isAnswer, found⟩ : ∃ answer, hasAncestor (.str text) paths = .ok answer ∧
      (answer = true ↔ ∃ other ∈ paths, isAncestor other (.str text) = .ok true) := has_ancestor_text text textual
    cases answer with
    | false => exact ⟨text, member, isAnswer, .inl rfl⟩
    | true =>
      obtain ⟨other, isOther, isAbove⟩ := found.mp rfl
      obtain ⟨above, rfl, higher⟩ := ancestor_text isAbove
      have shorter := ancestor_longer higher
      rw [size] at shorter
      obtain ⟨top, isTop, topmost, rfl | highest⟩ := ih _ shorter isOther rfl
      · exact ⟨top, isTop, topmost, .inr higher⟩
      · exact ⟨top, isTop, topmost, .inr (ancestor_trans highest higher)⟩

theorem collapse_covers (textual : Textual paths) (run : collapse options paths = .ok kept) :
    kept.Sublist paths ∧ ∀ text, (∃ other ∈ paths, Covers options (.str text) other) → ∃ other ∈ kept, Covers options (.str text) other := by
  unfold collapse at run
  cases strict : options.strictMembers with
  | true =>
    rw [strict] at run
    cases run
    exact ⟨List.Sublist.refl _, fun _ => id⟩
  | false =>
    rw [strict] at run
    have member := mem_filter_all run
    refine ⟨?_, ?_⟩
    · obtain ⟨test, _, rfl⟩ := filter_all_ok run
      exact filter_sublist
    rintro text ⟨other, isOther, covers⟩
    obtain ⟨name, rfl⟩ := textual other isOther
    obtain ⟨top, isTop, topmost, above⟩ := topmost_ancestor textual isOther
    refine ⟨.str top, (member _).mpr ⟨isTop, by rw [topmost]; rfl⟩, ?_⟩
    have higher : top = text ∨ isAncestorText top text = true := by
      rcases covers with same | ⟨_, ancestor⟩
      · rw [Value.str.inj (equal_text.mp same)] at above
        exact above
      · have below : isAncestorText name text = true := Except.ok.inj ancestor
        rcases above with rfl | above
        · exact .inr below
        · exact .inr (ancestor_trans above below)
    rcases higher with rfl | higher
    · exact .inl (equal_text.mpr rfl)
    · exact .inr ⟨strict, congrArg Except.ok higher⟩

-- What is known of the paths that a callback requires.
structure Steady (required : List Requirement) : Prop where
  textual : Textual (required.map (·.path))
  apart : (required.map (·.path)).Nodup
  current : ∀ requirement ∈ required, isCurrent requirement.path = .ok false

-- A list with which nothing is wrong as long as its names keep their meaning.
structure Settled (options : Options) (pure : List Nat) (required : List Requirement) (entries : List Declaration) (paths : List Value) :
    Prop where
  apart : paths.Nodup
  textual : Textual paths
  covers : ∀ path ∈ reactive required, ∃ other ∈ paths, Covers options path other
  grounded : ∀ path ∈ paths, (∃ entry ∈ entries, entry.path = path ∧ Fits options pure required entry) ∨ path ∈ reactive required

theorem reactive_sublist (required : List Requirement) : (reactive required).Sublist (required.map (·.path)) := filter_sublist.map _

theorem Steady.needed (steady : Steady required) (isReactive : path ∈ reactive required) : Needed options required path := by
  obtain ⟨text, rfl⟩ := steady.textual path ((reactive_sublist required).subset isReactive)
  obtain ⟨requirement, member, isPath⟩ := mem_map.mp ((reactive_sublist required).subset isReactive)
  have current := steady.current requirement member
  rw [isPath] at current
  exact ⟨current, reactive_required steady.textual isReactive⟩

theorem reactive_settled (apart : (required.map (·.path)).Nodup) (textual : Textual paths)
    (run : sortPaths (reactive required) = .ok paths) :
    Settled options pure required [] paths := by
  have same := sort_by_perm run
  refine ⟨same.nodup_iff.mpr ((reactive_sublist required).nodup apart), textual, fun path member => ?_, fun path member => ?_⟩
  · have listed := same.mem_iff.mpr member
    obtain ⟨text, rfl⟩ := textual path listed
    exact ⟨.str text, listed, .inl (equal_text.mpr rfl)⟩
  · exact .inr (same.mem_iff.mp member)

theorem mended_settled {sorted : Comparison} {missing ordered : List Value} (apart : (required.map (·.path)).Nodup)
    (textual : Textual (sorted.necessary ++ ordered.filter (!hasPath sorted.necessary ·)))
    (isSorted : entries.foldlM (Comparison.add options pure required) {} = .ok sorted)
    (isMissing : (reactive required).filterM (fun path => (do return !(← isSatisfied options path sorted.necessary) : Except Fault Bool)) =
      .ok missing) (isOrdered : sortPaths missing = .ok ordered) :
    Settled options pure required entries (sorted.necessary ++ ordered.filter (!hasPath sorted.necessary ·)) := by
  have same := sort_by_perm isOrdered
  have spelled {path : Value} (member : path ∈ sorted.necessary) : ∃ text, path = .str text := textual path (mem_append_left _ member)
  obtain ⟨keptApart, grounded⟩ := sorted_needed (fun _ => spelled) isSorted nodup_nil
  have added {path : Value} (member : path ∈ ordered) : path ∈ reactive required :=
    ((mem_filter_all isMissing path).mp (same.mem_iff.mp member)).1
  refine ⟨?_, textual, fun path isReactive => ?_, fun path member => ?_⟩
  · have once : ordered.Nodup := by
      obtain ⟨test, _, rfl⟩ := filter_all_ok isMissing
      exact same.nodup_iff.mpr ((filter_sublist.trans (reactive_sublist required)).nodup apart)
    refine nodup_append.mpr ⟨keptApart, once.filter _, ?_⟩
    rintro path early _ late rfl
    obtain ⟨_, fresh⟩ := mem_filter.mp late
    obtain ⟨text, rfl⟩ := spelled early
    rw [has_path_text.mpr early] at fresh
    cases fresh
  · obtain ⟨answer, isAnswer⟩ := filter_all_defined isMissing path isReactive
    obtain ⟨satisfied, isSatisfied, isAnswer⟩ := bind_ok isAnswer
    cases satisfied with
    | true =>
      obtain ⟨other, isOther, covers⟩ := satisfied_by isSatisfied
      exact ⟨other, mem_append_left _ isOther, covers⟩
    | false =>
      have isAdded : path ∈ ordered := same.mem_iff.mpr ((mem_filter_all isMissing path).mpr ⟨isReactive, by rw [isSatisfied]; rfl⟩)
      cases known : hasPath sorted.necessary path with
      | true =>
        obtain ⟨other, isOther, alike⟩ := any_eq_true.mp known
        obtain ⟨text, rfl⟩ := spelled isOther
        rw [equal_of_text alike]
        exact ⟨_, mem_append_left _ isOther, .inl (equal_text.mpr rfl)⟩
      | false =>
        have fresh : path ∈ ordered.filter (!hasPath sorted.necessary ·) := mem_filter.mpr ⟨isAdded, by rw [known]; rfl⟩
        have late := mem_append_right sorted.necessary fresh
        obtain ⟨text, rfl⟩ := textual path late
        exact ⟨_, late, .inl (equal_text.mpr rfl)⟩
  · rcases mem_append.mp member with early | late
    · exact .inl ((grounded path early).resolve_left not_mem_nil)
    · exact .inr (added (mem_filter.mp late).1)

theorem has_ancestor_found (run : hasAncestor path paths = .ok true) : ∃ text, path = .str text := by
  induction paths with
  | nil => cases run
  | cons first rest ih =>
    rw [hasAncestor] at run
    split at run
    · obtain ⟨above, isAbove, run⟩ := bind_ok run
      cases above with
      | true =>
        cases path with
        | str text => exact ⟨text, rfl⟩
        | _ => cases first <;> cases isAbove
      | false => exact ih run
    · exact ih run

-- What is dropped has been compared with what stays.
theorem collapse_textual (run : collapse options paths = .ok kept) (textual : Textual kept) : Textual paths := by
  unfold collapse at run
  split at run
  · cases run
    exact textual
  intro path member
  obtain ⟨answer, isAnswer⟩ := filter_all_defined run path member
  obtain ⟨found, isFound, isAnswer⟩ := bind_ok isAnswer
  cases found with
  | true => exact has_ancestor_found isFound
  | false => exact textual path ((mem_filter_all run path).mpr ⟨member, by rw [isFound]; rfl⟩)

theorem collapse_flat (lax : options.strictMembers = false) (run : collapse options paths = .ok kept)
    (textual : Textual kept) : ∀ path ∈ kept, ∀ other ∈ kept, isAncestor other path = .ok false := by
  have whole := collapse_textual run textual
  have inside := (collapse_covers whole run).1.subset
  rw [collapse, lax] at run
  intro path member other isOther
  obtain ⟨text, rfl⟩ := textual path member
  obtain ⟨name, rfl⟩ := textual other isOther
  obtain ⟨answer, isAnswer, found⟩ := has_ancestor_text text whole
  obtain ⟨_, kept⟩ := (mem_filter_all run _).mp member
  rw [isAnswer] at kept
  cases answer with
  | true => cases kept
  | false => exact congrArg Except.ok (Bool.eq_false_iff.mpr fun above => Bool.false_ne_true <| found.mpr ⟨_, inside isOther, congrArg Except.ok above⟩)

theorem corrected_settled {comparison : Comparison} (apart : (required.map (·.path)).Nodup) (textual : Textual paths)
    (run : compare options pure required entries = .ok comparison) (corrected : comparison.corrected options = .ok paths) :
    Settled options pure required entries paths := by
  obtain ⟨sorted, isSorted, run⟩ := bind_ok run
  obtain ⟨missing, isMissing, run⟩ := bind_ok run
  obtain ⟨ordered, isOrdered, run⟩ := bind_ok run
  cases run
  have collapsed : collapse options (sorted.necessary ++ ordered.filter (!hasPath sorted.necessary ·)) = .ok paths := corrected
  have mended := mended_settled apart (collapse_textual collapsed textual) isSorted isMissing isOrdered
  obtain ⟨included, covered⟩ := collapse_covers mended.textual collapsed
  refine ⟨included.nodup mended.apart, textual, fun path isReactive => ?_, fun path member => mended.grounded path (included.subset member)⟩
  obtain ⟨other, isOther, covers⟩ := mended.covers path isReactive
  obtain ⟨name, rfl⟩ := mended.textual other isOther
  obtain ⟨text, rfl⟩ := covers.text
  exact covered text ⟨_, isOther, covers⟩

end

end HookLint.Deps
