import HookLint.Deps.Compare
import HookLint.Proofs.Outcome

namespace HookLint.Deps

open List

variable {other : Value}

section
variable {options : Options} {pure : List Nat} {required : List Requirement} {entries : List Declaration} {comparison : Comparison}
  {scopes : Scopes} {path : Value}

theorem float_no_text (number : Float) (text : String) : Key.ofFloat number ≠ .text text := by
  unfold Key.ofFloat
  dsimp only
  split
  · nofun
  · split
    · nofun
    · nofun

theorem key_text {text : String} (same : other.key? = some (.text text)) : other = .str text := by
  cases other with
  | str content => rw [Key.text.inj (Option.some.inj same)]
  | float number => exact absurd (Option.some.inj same) (float_no_text number text)
  | null | bool _ | int _ | list _ | record _ _ => cases same

theorem alike_text {text : String} : other.alike (.str text) = true ↔ other = .str text := by
  have keyed : other.alike (.str text) = (other.key?.isSome && decide (other.key? = (Value.str text).key?)) := by
    cases other <;> simp only [Value.alike]
  rw [keyed, Bool.and_eq_true, decide_eq_true_iff]
  constructor
  · exact fun same => key_text same.2
  · rintro rfl
    exact ⟨rfl, rfl⟩

theorem equal_text {text : String} : other.equal (.str text) = true ↔ other = .str text := by
  rw [Value.equal, Bool.and_eq_true, alike_text, decide_eq_true_iff]
  constructor
  · exact And.right
  · rintro rfl
    exact ⟨nofun, rfl⟩

theorem equal_of_text {text : String} (same : (Value.str text).alike other = true) : other = .str text := by
  have keyed : (Value.str text).alike other = decide (some (.text text) = other.key?) := by cases other <;> rfl
  rw [keyed, decide_eq_true_iff] at same
  exact key_text same.symm

-- An entry of a list is good for a path if it is the path, or an ancestor where these count.
def Covers (options : Options) (path other : Value) : Prop :=
  other.equal path = true ∨ options.strictMembers = false ∧ isAncestor other path = .ok true

theorem Covers.text {name : String} (covers : Covers options path (.str name)) : ∃ text, path = .str text := by
  rcases covers with same | ⟨_, above⟩
  · exact ⟨name, equal_of_text (Bool.and_eq_true_iff.mp same).2⟩
  · cases path with
    | str text => exact ⟨text, rfl⟩
    | _ => cases above

theorem satisfied_by {paths : List Value} (run : isSatisfied options path paths = .ok true) : ∃ other ∈ paths, Covers options path other := by
  induction paths with
  | nil => cases run
  | cons other rest ih =>
    have later (run : isSatisfied options path rest = .ok true) : ∃ found ∈ other :: rest, Covers options path found := by
      obtain ⟨found, isFound, good⟩ := ih run
      exact ⟨found, mem_cons_of_mem _ isFound, good⟩
    rw [isSatisfied] at run
    cases same : other.equal path with
    | true => exact ⟨other, mem_cons_self, .inl same⟩
    | false =>
      rw [same] at run
      cases strict : options.strictMembers with
      | true =>
        rw [strict] at run
        exact later run
      | false =>
        rw [strict] at run
        obtain ⟨above, isAbove, run⟩ := bind_ok run
        cases above with
        | true => exact ⟨other, mem_cons_self, .inr ⟨strict, isAbove⟩⟩
        | false => exact later run

-- Whether an entry is kept beside those that are kept already.
def keeps (options : Options) (pure : List Nat) (required : List Requirement) (necessary : List Value) (entry : Declaration) :
    Except Fault Bool :=
  if hasPath necessary entry.path then .ok false
  else match entry.binding with
    | none => .ok true
    | some binding => isNecessary options pure required entry.path binding

theorem add_eq (before : Comparison) (entry : Declaration) : before.add options pure required entry =
    keeps options pure required before.necessary entry >>= fun keep =>
      .ok (if keep then { before with necessary := before.necessary ++ [entry.path] }
        else { before with unnecessary := before.unnecessary ++ [entry.path] }) := by
  unfold Comparison.add keeps
  split
  · rfl
  cases entry.binding with
  | none => rfl
  | some binding =>
    dsimp only
    cases isNecessary options pure required entry.path binding with
    | error fault => rfl
    | ok keep => cases keep <;> rfl

end

end HookLint.Deps
