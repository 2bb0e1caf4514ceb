import HookLint.Proofs.Flow.Decoded

namespace HookLint.Flow

-- Whether a pattern takes a value apart, rather than storing it.
def Pattern.nests : Pattern → Bool
  | .object _ | .array _ => true
  | _ => false

-- The order of the language: what is stored to is found before the default is evaluated, what is taken apart is so after it.
def ordered (nests : Bool) (target value : Traces) : Traces := if nests then Then (Maybe value) target else Then target (Maybe value)

mutual
def Pattern.Binds : Pattern → Traces
  | .plain => Silent
  | .withDefault target value => ordered target.nests target.Binds (value.Evaluates .value)
  | .object properties => BindsProperties properties
  | .array elements => BindsAll elements
  | .rest target => target.Binds
  | .member _ object key => Then (object.Evaluates .value) (EvaluatesIf key)
  | .broken _ => fun _ => False
def BindsAll : List Pattern → Traces
  | [] => Silent
  | pattern :: rest => Then pattern.Binds (BindsAll rest)
def BindsProperties : List PatternProperty → Traces
  | [] => Silent
  | property :: rest => Then property.Binds (BindsProperties rest)
def PatternProperty.Binds : PatternProperty → Traces
  | .rest target => target.Binds
  | .entry key target => Then (EvaluatesIf key) target.Binds
end

-- What is taken apart makes no calls where it has a default, or the default makes none.
mutual
def Pattern.Even : Pattern → Prop
  | .plain | .member .. | .broken _ => True
  | .withDefault target value => target.Even ∧ (target.nests = true → (∀ trace, target.Evaluates trace → trace = []) ∨
      ∀ trace, value.Evaluates .value trace → trace = [])
  | .object properties => EvenProperties properties
  | .array elements => EvenAll elements
  | .rest target => target.Even
def EvenAll : List Pattern → Prop
  | [] => True
  | pattern :: rest => pattern.Even ∧ EvenAll rest
def EvenProperties : List PatternProperty → Prop
  | [] => True
  | property :: rest => property.Even ∧ EvenProperties rest
def PatternProperty.Even : PatternProperty → Prop
  | .rest target | .entry _ target => target.Even
end

theorem then_silent {first second : Traces} (silent : ∀ trace, first trace → trace = []) : Then first second = Then second first := by
  funext trace
  refine propext ⟨?_, ?_⟩
  · rintro ⟨a, b, early, late, rfl⟩
    exact ⟨b, a, late, early, by simp [silent a early]⟩
  · rintro ⟨a, b, early, late, rfl⟩
    exact ⟨b, a, late, early, by simp [silent b late]⟩

mutual
theorem Pattern.binds_eq : (pattern : Pattern) → pattern.Even → pattern.Binds = pattern.Evaluates
  | .plain, _ => by simp only [Pattern.Binds, Pattern.Evaluates]
  | .withDefault target value, even => by
    rw [Pattern.Binds, Pattern.Evaluates, target.binds_eq even.1, ordered]
    split
    · rename_i nests
      rcases even.2 nests with silent | silent
      · exact (then_silent silent).symm
      · exact then_silent fun trace runs => runs.elim id (silent trace)
    · rfl
  | .object properties, even => by
    rw [Pattern.Binds, Pattern.Evaluates, binds_properties_eq properties even]
  | .array elements, even => by
    rw [Pattern.Binds, Pattern.Evaluates, binds_all_eq elements even]
  | .rest target, even => by
    rw [Pattern.Binds, Pattern.Evaluates, target.binds_eq even]
  | .member .., _ | .broken _, _ => by simp only [Pattern.Binds, Pattern.Evaluates]
theorem binds_all_eq : (patterns : List Pattern) → EvenAll patterns → BindsAll patterns = EvaluatesPatterns patterns
  | [], _ => by simp only [BindsAll, EvaluatesPatterns]
  | pattern :: rest, even => by
    rw [BindsAll, EvaluatesPatterns, pattern.binds_eq even.1, binds_all_eq rest even.2]
theorem binds_properties_eq : (properties : List PatternProperty) → EvenProperties properties →
    BindsProperties properties = EvaluatesPatternProperties properties
  | [], _ => by simp only [BindsProperties, EvaluatesPatternProperties]
  | property :: rest, even => by
    rw [BindsProperties, EvaluatesPatternProperties, property.binds_eq even.1, binds_properties_eq rest even.2]
theorem PatternProperty.binds_eq : (property : PatternProperty) → property.Even → property.Binds = property.Evaluates
  | .rest target, even | .entry key target, even => by
    rw [PatternProperty.Binds, PatternProperty.Evaluates, target.binds_eq even]
end

-- Every way through a pattern makes the calls of its parts from left to right, those of a key before those of its target, and those
-- of a default after those of what it stands on. That is the order of the language unless both of the latter make calls.
theorem pattern_calls_in_order (scene : Scene) (pattern : Pattern) (chained : pattern.Chained) :
    Decodes scene (pattern.build scene) pattern.Evaluates Never ∧
      (pattern.Even → Decodes scene (pattern.build scene) pattern.Binds Never) := by
  refine ⟨pattern.decodes scene chained, fun even => ?_⟩
  rw [pattern.binds_eq even]
  exact pattern.decodes scene chained

def keyedPattern : Pattern := .object [.entry (some (.call (.str "key") false .leaf [])) (.withDefault .plain (.call (.str "early") false .leaf [])),
  .entry none (.withDefault (.array [.plain]) (.call (.str "late") false .leaf []))]

theorem keyed_pattern_in_order : keyedPattern.Chained ∧ keyedPattern.Binds [.str "key", .str "early", .str "late"] ∧
    Decodes {} (keyedPattern.build {}) keyedPattern.Binds Never := by
  have chained : keyedPattern.Chained := by
    simp [keyedPattern, Pattern.Chained, ChainedPatternProperties, PatternProperty.Chained, ChainedIf, Expr.Chained, ChainedAll, ChainedPatterns]
  have even : keyedPattern.Even := by
    simp [keyedPattern, Pattern.Even, EvenProperties, PatternProperty.Even, EvenAll, Pattern.nests, Pattern.Evaluates, EvaluatesPatterns, Then, Silent]
  refine ⟨chained, ?_, (pattern_calls_in_order {} keyedPattern chained).2 even⟩
  simp [keyedPattern, Pattern.Binds, BindsProperties, PatternProperty.Binds, EvaluatesIf, Expr.Evaluates, EvaluatesAll, BindsAll, ordered,
    Pattern.nests, Then, Maybe, Silent]

end HookLint.Flow
