import Mathlib

/-! Loops whose steps can fail: they end well exactly when every step does. -/

namespace Charybdis.Foundation

universe u v w

variable {ε : Type u} {α β : Type v} {ι : Type w}

theorem bind_ok_iff {first : Except ε α} {next : α → Except ε β} {last : β} :
    (first >>= next) = .ok last ↔ ∃ value, first = .ok value ∧ next value = .ok last := by
  cases first with
  | error error => exact ⟨nofun, fun ⟨_, impossible, _⟩ => by cases impossible⟩
  | ok value =>
    refine ⟨fun done => ⟨value, rfl, done⟩, fun ⟨_, same, done⟩ => ?_⟩
    cases same
    exact done

theorem check_ok_iff {check : Except ε PUnit} {rest : Except ε β} {last : β} :
    (check >>= fun _ => rest) = .ok last ↔ check = .ok ⟨⟩ ∧ rest = .ok last := by
  rw [bind_ok_iff]
  exact ⟨fun ⟨_, first, done⟩ => ⟨first, done⟩, fun ⟨first, done⟩ => ⟨_, first, done⟩⟩

theorem map_ok_iff {result : Except ε α} {change : α → β} {last : β} :
    result.map change = .ok last ↔ ∃ value, result = .ok value ∧ change value = last := by
  cases result with
  | error error => exact ⟨nofun, fun ⟨_, impossible, _⟩ => by cases impossible⟩
  | ok value =>
    refine ⟨fun done => ⟨value, rfl, Except.ok.inj done⟩, fun ⟨_, same, done⟩ => ?_⟩
    cases same
    rw [← done]
    rfl

/-- A loop that collects the values of its steps, which are those of a function. -/
theorem mapM_ok_iff {step : ι → Except ε β} {values : ι → β} {items : List ι} {collected : List β}
    (each : ∀ item value, step item = .ok value → value = values item) :
    items.mapM step = .ok collected ↔
      (∀ item ∈ items, step item = .ok (values item)) ∧ collected = items.map values := by
  induction items generalizing collected with
  | nil =>
    rw [List.mapM_nil, List.map_nil]
    exact ⟨fun done => ⟨by simp, (Except.ok.inj done).symm⟩, fun done => by rw [done.2]; rfl⟩
  | cons item rest ih =>
    rw [List.mapM_cons, bind_ok_iff, List.forall_mem_cons, List.map_cons]
    constructor
    · rintro ⟨value, first, done⟩
      obtain ⟨others, later, last⟩ := bind_ok_iff.mp done
      obtain ⟨all, same⟩ := ih.mp later
      have own := each item value first
      exact ⟨⟨own ▸ first, all⟩, by rw [← Except.ok.inj last, own, same]⟩
    · rintro ⟨⟨first, all⟩, same⟩
      exact ⟨_, first, bind_ok_iff.mpr ⟨_, ih.mpr ⟨all, rfl⟩, by rw [same]; rfl⟩⟩

theorem forM_ok_iff {step : ι → Except ε PUnit} {items : List ι} :
    forM items step = .ok ⟨⟩ ↔ ∀ item ∈ items, step item = .ok ⟨⟩ := by
  induction items with
  | nil => simp [pure, Except.pure]
  | cons item rest ih =>
    rw [List.forM_cons, bind_ok_iff, List.forall_mem_cons, ← ih]
    exact ⟨fun ⟨_, first, later⟩ => ⟨first, later⟩, fun ⟨first, later⟩ => ⟨_, first, later⟩⟩

end Charybdis.Foundation
