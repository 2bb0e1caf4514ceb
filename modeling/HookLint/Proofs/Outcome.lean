import Mathlib.Data.List.Forall2
import HookLint.Value.Key

namespace HookLint

open List

-- One step of a computation that may stop with a fault.
section
variable {α β : Type} {value : Except Fault α} {rest : α → Except Fault β} {result : β}

theorem bind_ok (run : value >>= rest = .ok result) : ∃ produced, value = .ok produced ∧ rest produced = .ok result := by
  cases value with
  | error fault => cases run
  | ok produced => exact ⟨produced, rfl, run⟩

theorem bind_of {produced : α} (first : value = .ok produced) : value >>= rest = rest produced := by
  rw [first]
  rfl

end

section
variable {α β : Type} {change : α → Except Fault β}

theorem map_all_ok {items : List α} {results : List β} (run : items.mapM change = .ok results) :
    List.Forall₂ (fun item result => change item = .ok result) items results := by
  induction items generalizing results with
  | nil =>
    rw [mapM_nil] at run
    cases run
    exact .nil
  | cons item rest ih =>
    rw [mapM_cons] at run
    obtain ⟨first, isFirst, run⟩ := bind_ok run
    obtain ⟨later, isLater, run⟩ := bind_ok run
    cases run
    exact .cons isFirst (ih isLater)

theorem map_all_of {items : List α} {results : List β} (each : List.Forall₂ (fun item result => change item = .ok result) items results) :
    items.mapM change = .ok results := by
  induction each with
  | nil => rfl
  | cons isFirst isLater ih =>
    rw [mapM_cons, isFirst, ih]
    rfl

theorem mem_of_map_all {items : List α} {results : List β} {result : β} (run : items.mapM change = .ok results)
    (member : result ∈ results) : ∃ item ∈ items, change item = .ok result := by
  have each := map_all_ok run
  induction each with
  | nil => cases member
  | cons isFirst isLater ih =>
    rcases mem_cons.mp member with rfl | later
    · exact ⟨_, mem_cons_self, isFirst⟩
    · obtain ⟨item, isItem, changed⟩ := ih (map_all_of isLater) later
      exact ⟨item, mem_cons_of_mem _ isItem, changed⟩

theorem map_all_same {γ : Type} {items : List α} {results : List β} {before : α → γ} {after : β → γ} (run : items.mapM change = .ok results)
    (same : ∀ item result, change item = .ok result → after result = before item) : results.map after = items.map before := by
  have each := map_all_ok run
  clear run
  induction each with
  | nil => rfl
  | cons isFirst _ ih => rw [map_cons, map_cons, same _ _ isFirst, ih]

theorem filter_map_sublist {choose : α → Except Fault (Option β)} {origin : β → α} {items : List α} {results : List β}
    (run : items.filterMapM choose = .ok results) (same : ∀ item result, choose item = .ok (some result) → origin result = item) :
    (results.map origin).Sublist items := by
  induction items generalizing results with
  | nil =>
    rw [filterMapM_nil] at run
    cases run
    exact .slnil
  | cons item rest ih =>
    rw [filterMapM_cons] at run
    obtain ⟨choice, isChoice, run⟩ := bind_ok run
    cases choice with
    | none => exact (ih run).cons item
    | some first =>
      obtain ⟨others, isOthers, run⟩ := bind_ok run
      cases run
      rw [map_cons, same item first isChoice]
      exact (ih isOthers).cons_cons item

theorem filter_from_of {keep : α → Except Fault Bool} {test : α → Bool} {items : List α} (kept : List α)
    (each : ∀ item ∈ items, keep item = .ok (test item)) : items.filterAuxM keep kept = .ok ((items.filter test).reverse ++ kept) := by
  induction items generalizing kept with
  | nil => rfl
  | cons item rest ih =>
    obtain ⟨first, others⟩ := forall_mem_cons.mp each
    rw [List.filterAuxM, first]
    cases isKept : test item with
    | false =>
      rw [filter_cons_of_neg (by simp [isKept])]
      exact ih kept others
    | true =>
      rw [filter_cons_of_pos isKept, reverse_cons, append_assoc]
      exact ih (item :: kept) others

theorem filter_all_of {keep : α → Except Fault Bool} {test : α → Bool} {items : List α}
    (each : ∀ item ∈ items, keep item = .ok (test item)) : items.filterM keep = .ok (items.filter test) := by
  rw [List.filterM, filter_from_of [] each, append_nil]
  exact congrArg Except.ok (reverse_reverse _)

theorem filter_all_defined {keep : α → Except Fault Bool} {items results : List α} (run : items.filterM keep = .ok results) :
    ∀ item ∈ items, ∃ answer, keep item = .ok answer := by
  rw [List.filterM] at run
  obtain ⟨kept, aux, _⟩ := bind_ok run
  clear run
  generalize ([] : List α) = start at aux
  induction items generalizing start with
  | nil => exact nofun
  | cons item rest ih =>
    rw [List.filterAuxM] at aux
    obtain ⟨answer, first, aux⟩ := bind_ok aux
    exact forall_mem_cons.mpr ⟨⟨answer, first⟩, ih _ aux⟩

theorem filter_all_ok {keep : α → Except Fault Bool} {items results : List α} (run : items.filterM keep = .ok results) :
    ∃ test : α → Bool, (∀ item ∈ items, keep item = .ok (test item)) ∧ results = items.filter test := by
  let test (item : α) : Bool := match keep item with
    | .ok answer => answer
    | .error _ => false
  have each : ∀ item ∈ items, keep item = .ok (test item) := by
    intro item member
    obtain ⟨answer, isAnswer⟩ := filter_all_defined run item member
    simp only [test, isAnswer]
  rw [filter_all_of each] at run
  exact ⟨test, each, (Except.ok.inj run).symm⟩

theorem mem_filter_all {keep : α → Except Fault Bool} {items results : List α} (run : items.filterM keep = .ok results) (item : α) :
    item ∈ results ↔ item ∈ items ∧ keep item = .ok true := by
  obtain ⟨test, each, rfl⟩ := filter_all_ok run
  rw [mem_filter]
  refine and_congr_right fun member => ?_
  rw [each item member, Except.ok.injEq]

end

theorem sort_by_perm {α : Type} {rowOf : α → List Value} {items sorted : List α} (run : sortBy rowOf items = .ok sorted) :
    sorted.Perm items := by
  obtain ⟨_, _, run⟩ := bind_ok run
  cases run
  exact mergeSort_perm _ _

end HookLint
