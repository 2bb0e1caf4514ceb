import HookLint.Json.Reader
import HookLint.Proofs.Tree.Records

namespace HookLint

open List Value Option

-- No record of a value has two fields of the same name.
def Value.Keyed (value : Value) : Prop := ∀ record ∈ value.records, (record.fields.map Prod.fst).Nodup

theorem Fields.set_keys (fields : Fields) (key : String) (value : Value) :
    (fields.set key value).map Prod.fst = if key ∈ fields.map Prod.fst then fields.map Prod.fst else fields.map Prod.fst ++ [key] := by
  induction fields with
  | nil => rfl
  | cons field rest ih =>
    obtain ⟨name, old⟩ := field
    rw [Fields.set]
    by_cases same : name = key
    · rw [if_pos same, if_pos (by rw [same]; exact mem_cons_self)]
      rfl
    have later : key ∈ name :: rest.map Prod.fst ↔ key ∈ rest.map Prod.fst := mem_cons.trans (or_iff_right (Ne.symm same))
    rw [if_neg same, map_cons, ih, map_cons]
    simp only [later]
    split
    · rfl
    · rfl

theorem Fields.set_nodup {fields : Fields} (distinct : (fields.map Prod.fst).Nodup) (key : String) (value : Value) :
    ((fields.set key value).map Prod.fst).Nodup := by
  rw [Fields.set_keys]
  split
  · exact distinct
  · next fresh =>
      rw [← concat_eq_append]
      exact distinct.concat fresh

theorem Fields.set_records (fields : Fields) (key : String) (value : Value) :
    ∀ record ∈ recordsOfFields (fields.set key value), record ∈ recordsOfFields fields ∨ record ∈ value.records := by
  induction fields with
  | nil =>
    intro record member
    exact .inr (by simpa [Fields.set, recordsOfFields] using member)
  | cons field rest ih =>
    obtain ⟨name, old⟩ := field
    intro record member
    rw [Fields.set] at member
    rw [recordsOfFields, mem_append]
    split at member
    · rcases mem_append.mp member with here | later
      · exact .inr here
      · exact .inl (.inr later)
    · rcases mem_append.mp member with here | later
      · exact .inl (.inl here)
      · exact (ih record later).imp_left .inr

namespace Json

-- Only what the reader puts together has fields.
def Token.Bare : Token → Prop
  | .scalar value => value.records = []
  | _ => True

theorem number_bare (chars : List Char) : (number chars).Bare := by
  unfold number
  split
  split
  · trivial
  dsimp only
  split
  · split
    · trivial
    · split
      · exact rfl
      · trivial
  · split
    · exact rfl
    · trivial

theorem word_bare (chars : List Char) : (word chars).Bare := by
  unfold word
  split
  case h_7 => exact number_bare chars
  all_goals exact rfl

section
variable {state next : Scan} {tokens more : List Token}

theorem start_bare {c : Char} (bare : ∀ token ∈ tokens, token.Bare) (run : Scan.start c tokens = some (next, more)) :
    ∀ token ∈ more, token.Bare := by
  unfold Scan.start at run
  split at run
  · cases run
    exact bare
  split at run
  · cases run
    exact bare
  split at run
  all_goals cases run
  all_goals first
    | exact bare
    | exact forall_mem_cons.mpr ⟨trivial, bare⟩

theorem step_bare {c : Char} (bare : ∀ token ∈ tokens, token.Bare) (run : state.step tokens c = some (next, more)) :
    ∀ token ∈ more, token.Bare := by
  cases state with
  | between => exact start_bare bare run
  | inText codes =>
    simp only [Scan.step] at run
    split at run
    · cases run
      exact forall_mem_cons.mpr ⟨trivial, bare⟩
    split at run
    · cases run
      exact bare
    · split at run
      · cases run
      · cases run
        exact bare
  | inEscape codes =>
    simp only [Scan.step] at run
    split at run
    · cases run
      exact bare
    · obtain ⟨code, _, made⟩ := map_eq_some_iff.mp run
      cases made
      exact bare
  | inCode codes left code =>
    obtain ⟨digit, _, made⟩ := bind_eq_some_iff.mp run
    split at made
    · cases made
      exact bare
    · cases made
      exact bare
  | inWord chars =>
    simp only [Scan.step] at run
    split at run
    · cases run
      exact bare
    · exact start_bare (forall_mem_cons.mpr ⟨word_bare _, bare⟩) run

theorem run_bare (chars : List Char) (bare : ∀ token ∈ tokens, token.Bare) : ∀ token ∈ state.run tokens chars, token.Bare := by
  induction chars generalizing state tokens with
  | nil =>
    intro token member
    rw [Scan.run, mem_reverse] at member
    cases state with
    | between => exact bare token member
    | inWord chars => exact forall_mem_cons.mpr ⟨word_bare _, bare⟩ token member
    | _ => exact forall_mem_cons.mpr ⟨trivial, bare⟩ token member
  | cons c rest ih =>
    rw [Scan.run]
    split
    · next moved => exact ih (step_bare bare moved)
    · intro token member
      exact forall_mem_cons.mpr ⟨trivial, bare⟩ token (mem_reverse.mp member)

end

theorem scan_bare (source : String) : ∀ token ∈ Token.scan source, token.Bare := run_bare _ nofun

-- What an open list or record holds so far.
def Frame.Keyed : Frame → Prop
  | .list items => ∀ item ∈ items, item.Keyed
  | .record id fields _ => (Value.record id fields).Keyed

structure Reader.Keyed (reader : Reader) : Prop where
  frames : ∀ frame ∈ reader.frames, frame.Keyed
  result : reader.result.Keyed

section
variable {value : Value} {reader next : Reader}

theorem keyed_of_bare (bare : value.records = []) : value.Keyed := by
  rw [Keyed, bare]
  exact nofun

theorem keyed_list {items : List Value} (each : ∀ item ∈ items, item.Keyed) : (Value.list items).Keyed := by
  intro record member
  rw [records, records_of_items_eq] at member
  obtain ⟨item, isItem, inside⟩ := mem_flatMap.mp member
  exact each item isItem record inside

theorem keyed_set {id : Nat} {fields : Fields} (record : (Value.record id fields).Keyed) (isKeyed : value.Keyed) (key : String) :
    (Value.record id (fields.set key value)).Keyed := by
  intro inner member
  rcases mem_cons.mp member with rfl | inside
  · exact Fields.set_nodup (record _ mem_cons_self) key value
  · rcases Fields.set_records fields key value inner inside with old | new
    · exact record inner (mem_cons_of_mem _ old)
    · exact isKeyed inner new

theorem put_keyed (keyed : reader.Keyed) (isKeyed : value.Keyed) : (reader.put value).Keyed := by
  obtain ⟨frames, result⟩ := keyed
  unfold Reader.put
  split
  · exact ⟨frames, isKeyed⟩
  · next isList =>
      rw [isList] at frames
      obtain ⟨first, others⟩ := forall_mem_cons.mp frames
      exact ⟨forall_mem_cons.mpr ⟨forall_mem_cons.mpr ⟨isKeyed, first⟩, others⟩, result⟩
  · next isRecord =>
      rw [isRecord] at frames
      obtain ⟨first, others⟩ := forall_mem_cons.mp frames
      exact ⟨forall_mem_cons.mpr ⟨keyed_set first isKeyed _, others⟩, result⟩

theorem enter_keyed {frame : Frame} {expect : Expect} (keyed : reader.Keyed) (isKeyed : frame.Keyed)
    (run : reader.enter frame expect = .ok next) : next.Keyed := by
  unfold Reader.enter at run
  split at run
  · cases run
  · split at run
    · cases run
    · cases run
      exact ⟨forall_mem_cons.mpr ⟨isKeyed, keyed.frames⟩, keyed.result⟩

theorem step_keyed {token : Token} (bare : token.Bare) (keyed : reader.Keyed) (run : reader.step token = .ok next) : next.Keyed := by
  cases token with
  | malformed | tooLong => cases run
  | scalar value =>
    simp only [Reader.step] at run
    split at run
    · cases run
      exact put_keyed keyed (keyed_of_bare bare)
    · cases run
  | text content =>
    simp only [Reader.step] at run
    split at run
    · cases run
      exact put_keyed keyed (keyed_of_bare rfl)
    split at run
    · split at run
      · rename_i isRecord
        cases run
        have frames := keyed.frames
        rw [isRecord] at frames
        obtain ⟨first, others⟩ := forall_mem_cons.mp frames
        exact ⟨forall_mem_cons.mpr ⟨first, others⟩, keyed.result⟩
      · cases run
    · cases run
  | openList => exact enter_keyed keyed (by exact nofun) run
  | openRecord =>
    simp only [Reader.step] at run
    cases entered : reader.enter (.record (reader.opened + 1) [] "") .keyOrEnd with
    | error complaint =>
      rw [entered] at run
      cases run
    | ok inner =>
      rw [entered] at run
      cases run
      have empty : Frame.Keyed (.record (reader.opened + 1) [] "") := by
        intro record member
        rw [mem_singleton.mp member]
        exact nodup_nil
      exact ⟨(enter_keyed keyed empty entered).frames, (enter_keyed keyed empty entered).result⟩
  | closeList =>
    simp only [Reader.step] at run
    split at run
    · rename_i isList
      have frames := keyed.frames
      rw [isList] at frames
      obtain ⟨first, others⟩ := forall_mem_cons.mp frames
      split at run
      · cases run
        exact put_keyed ⟨others, keyed.result⟩ (keyed_list fun item member => first item (mem_reverse.mp member))
      · cases run
    · cases run
  | closeRecord =>
    simp only [Reader.step] at run
    split at run
    · rename_i isRecord
      have frames := keyed.frames
      rw [isRecord] at frames
      obtain ⟨first, others⟩ := forall_mem_cons.mp frames
      split at run
      · cases run
        exact put_keyed ⟨others, keyed.result⟩ first
      · cases run
    · cases run
  | colon =>
    simp only [Reader.step] at run
    split at run
    · cases run
      exact ⟨keyed.frames, keyed.result⟩
    · cases run
  | comma =>
    simp only [Reader.step] at run
    split at run
    · split at run
      all_goals cases run
      all_goals exact ⟨keyed.frames, keyed.result⟩
    · cases run

theorem steps_keyed {tokens : List Token} (bare : ∀ token ∈ tokens, token.Bare) (keyed : reader.Keyed)
    (run : tokens.foldlM Reader.step reader = .ok next) : next.Keyed := by
  induction tokens generalizing reader with
  | nil =>
    cases run
    exact keyed
  | cons token rest ih =>
    obtain ⟨first, others⟩ := forall_mem_cons.mp bare
    rw [foldlM_cons] at run
    cases step : reader.step token with
    | error complaint =>
      rw [step] at run
      cases run
    | ok middle =>
      rw [step] at run
      exact ih others (step_keyed first keyed step) run

end

theorem read_keyed {source : String} {value : Value} (run : read source = .ok value) : value.Keyed := by
  unfold read readWithin at run
  cases steps : (Token.scan source).foldlM Reader.step { limit := depthLimit } with
  | error complaint =>
    rw [steps] at run
    cases run
  | ok reader =>
    rw [steps] at run
    have keyed := steps_keyed (scan_bare source) ⟨forall_mem_nil _, keyed_of_bare rfl⟩ steps
    simp only [bind, Except.bind] at run
    split at run
    · cases run
      exact keyed.result
    · cases run

end Json

end HookLint
