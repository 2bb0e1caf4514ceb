import HookLint.Deps.Requirement
import HookLint.Proofs.Deps.Paths
import HookLint.Proofs.Scope.References

namespace HookLint

open List

namespace Deps

section
variable {registry : Registry} {scopes : Scopes} {pure : List Nat} {callback : Value} {references : List Reference}
  {reference : Reference} {binding : Binding} {usage before after : Usage} {stable : Bool}

theorem require_keeps (usage : Usage) (requirement : Requirement) : usage.required ⊆ (usage.require requirement).required := by
  rw [Usage.require]
  split
  · exact List.Subset.refl _
  · exact subset_append_left _ _

theorem require_has (usage : Usage) (requirement : Requirement) :
    ∃ kept ∈ (usage.require requirement).required, kept.key = requirement.key := by
  rw [Usage.require]
  split
  · next present =>
      obtain ⟨kept, isKept, same⟩ := any_eq_true.mp present
      exact ⟨kept, isKept, of_decide_eq_true same⟩
  · exact ⟨requirement, mem_append_right _ (mem_singleton.mpr rfl), rfl⟩

theorem mem_require {kept requirement : Requirement} (member : kept ∈ (usage.require requirement).required) :
    kept ∈ usage.required ∨ kept = requirement := by
  rw [Usage.require] at member
  split at member
  · exact .inl member
  · exact (mem_append.mp member).imp_right mem_singleton.mp

theorem require_apart {requirement : Requirement} (apart : (usage.required.map (·.key)).Nodup) :
    ((usage.require requirement).required.map (·.key)).Nodup := by
  rw [Usage.require]
  split
  · exact apart
  rename_i fresh
  rw [map_append, map_singleton]
  refine nodup_append.mpr ⟨apart, nodup_singleton _, ?_⟩
  rintro key early _ late rfl
  obtain ⟨other, isOther, rfl⟩ := mem_map.mp early
  exact fresh (any_eq_true.mpr ⟨other, isOther, decide_eq_true (mem_singleton.mp late)⟩)

-- Where a requirement comes from.
structure Arises (registry : Registry) (scopes : Scopes) (pure : List Nat) (callback : Value) (reference : Reference)
    (requirement : Requirement) : Prop where
  bound : outsideBinding? scopes pure callback reference = some requirement.binding
  path : dependencyPath scopes reference requirement.binding = .ok requirement.path
  key : requirement.path.key = .ok requirement.key
  stable : registry.isStable scopes requirement.binding = .ok requirement.stable

def usageStep (registry : Registry) (scopes : Scopes) (pure : List Nat) (callback : Value) (usage : Usage) (reference : Reference) :
    Except Fault Usage := do
  match outsideBinding? scopes pure callback reference with
  | none => return usage
  | some binding => usage.add scopes reference binding (← registry.isStable scopes binding)

theorem written_required (usage : Usage) (binding : Binding) (identifier : Value) :
    (usage.write binding identifier).required = usage.required := by
  rw [Usage.write]
  split <;> rfl

-- A use that reads a name from outside is taken down as a requirement; any other use leaves these alone.
theorem usage_step (run : usageStep registry scopes pure callback before reference = .ok after) : (after.required = before.required ∧
      ∀ binding, outsideBinding? scopes pure callback reference = some binding → reference.access.reads = false) ∨
    ∃ requirement middle, Arises registry scopes pure callback reference requirement ∧ middle.required = before.required ∧
      after = Usage.require middle requirement := by
  unfold usageStep at run
  split at run
  · next outside =>
      cases run
      exact .inl ⟨rfl, fun binding bound => by rw [outside] at bound; cases bound⟩
  rename_i binding bound
  obtain ⟨stable, isStable, run⟩ := bind_ok run
  unfold Usage.add at run
  generalize isMiddle : (if reference.access.writes && !stable then before.write binding reference.identifier else before) = middle at run
  have same : middle.required = before.required := by
    rw [← isMiddle]
    split
    · exact written_required before binding reference.identifier
    · rfl
  cases reads : reference.access.reads with
  | false =>
    rw [reads] at run
    cases run
    exact .inl ⟨same, fun _ _ => rfl⟩
  | true =>
    rw [reads] at run
    obtain ⟨path, isPath, run⟩ := bind_ok run
    obtain ⟨key, isKey, run⟩ := bind_ok run
    cases run
    exact .inr ⟨{ path := path, key := key, binding := binding, stable := stable }, middle, ⟨bound, isPath, isKey, isStable⟩, same, rfl⟩

-- Every requirement comes from a use, and every use from outside that reads has its path required once.
structure Gathered (registry : Registry) (scopes : Scopes) (pure : List Nat) (callback : Value) (references : List Reference)
    (required : List Requirement) : Prop where
  apart : (required.map (·.key)).Nodup
  arises : ∀ requirement ∈ required, ∃ reference ∈ references, Arises registry scopes pure callback reference requirement
  covers : ∀ reference ∈ references, ∀ binding, outsideBinding? scopes pure callback reference = some binding →
    reference.access.reads = true → ∃ requirement, Arises registry scopes pure callback reference requirement ∧
      ∃ kept ∈ required, kept.key = requirement.key

theorem gathered_step (gathered : Gathered registry scopes pure callback references before.required)
    (run : usageStep registry scopes pure callback before reference = .ok after) :
    Gathered registry scopes pure callback (references ++ [reference]) after.required := by
  rcases usage_step run with ⟨same, unread⟩ | ⟨requirement, middle, arises, same, rfl⟩
  · rw [same]
    refine ⟨gathered.apart, fun requirement member => ?_, fun other isOther binding bound reads => ?_⟩
    · obtain ⟨origin, isOrigin, arises⟩ := gathered.arises requirement member
      exact ⟨origin, mem_append_left _ isOrigin, arises⟩
    rcases mem_append.mp isOther with earlier | here
    · exact gathered.covers other earlier binding bound reads
    · rw [mem_singleton.mp here] at bound reads
      rw [unread binding bound] at reads
      cases reads
  · have kept : before.required ⊆ (middle.require requirement).required := by
      rw [← same]
      exact require_keeps middle requirement
    have apart : (middle.required.map (·.key)).Nodup := by
      rw [same]
      exact gathered.apart
    refine ⟨require_apart apart, fun other member => ?_, fun other isOther binding bound reads => ?_⟩
    · rcases mem_require member with earlier | rfl
      · rw [same] at earlier
        obtain ⟨origin, isOrigin, arises⟩ := gathered.arises other earlier
        exact ⟨origin, mem_append_left _ isOrigin, arises⟩
      · exact ⟨reference, mem_append_right _ (mem_singleton.mpr rfl), arises⟩
    rcases mem_append.mp isOther with earlier | here
    · obtain ⟨made, isMade, old, isOld, sameKey⟩ := gathered.covers other earlier binding bound reads
      exact ⟨made, isMade, old, kept isOld, sameKey⟩
    · rw [mem_singleton.mp here]
      exact ⟨requirement, arises, require_has middle requirement⟩

theorem gathered_run {earlier : List Reference} (gathered : Gathered registry scopes pure callback earlier before.required)
    (run : references.foldlM (usageStep registry scopes pure callback) before = .ok after) :
    Gathered registry scopes pure callback (earlier ++ references) after.required := by
  induction references generalizing before earlier with
  | nil =>
    cases run
    rw [append_nil]
    exact gathered
  | cons reference rest ih =>
    obtain ⟨middle, step, later⟩ := bind_ok run
    have whole := ih (gathered_step gathered step) later
    rw [append_assoc] at whole
    exact whole

theorem usage_gathered (run : usageOf registry scopes pure callback = .ok usage) :
    ∃ references, scopes.referencesWithin callback = .ok references ∧ Gathered registry scopes pure callback references usage.required := by
  obtain ⟨references, within, run⟩ := bind_ok run
  have start : Gathered registry scopes pure callback [] ({} : Usage).required := ⟨nodup_nil, nofun, nofun⟩
  exact ⟨references, within, gathered_run start run⟩

theorem Gathered.paths_apart {required : List Requirement} (gathered : Gathered registry scopes pure callback references required) :
    (required.map (·.path)).Nodup := by
  have keys : (required.map (·.path)).map Value.key = (required.map (·.key)).map .ok := by
    rw [map_map, map_map]
    refine map_congr_left fun requirement member => ?_
    obtain ⟨_, _, arises⟩ := gathered.arises requirement member
    exact arises.key
  refine List.Nodup.of_map Value.key ?_
  rw [keys]
  exact gathered.apart.map fun _ _ => Except.ok.inj

variable {program : Value} {inner : Nat}

section
variable (surveyed : Survey.Surveyed program scopes) (distinct : program.Distinct) (plain : program.Plain)
  (isRecord : program.isRecord = true)
include surveyed distinct plain isRecord

end

end

end Deps

end HookLint
