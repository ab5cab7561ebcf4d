import Mathlib.Data.List.Induction
import Mathlib.Tactic.Common

/-!
# What has held since an event

A list of events is a history, the oldest event first. `Since p q` says of a history that an event
of it satisfies `q` and that all events after that one satisfy `p`. A flag that is raised by the
events with `q` and taken down by those without `p` is up exactly if this holds of its history
(`since_concat`), which is read off at the last event with `q` (`since_iff_of_last`). Two flags
that are raised together differ by what has happened since then (`since_and_not_since_iff`).
-/

namespace Reclaim

variable {α : Type} {p q r : α → Prop} {l before after : List α} {a : α}

/-- An event of a history satisfies `q`, and every event after it satisfies `p`. -/
def Since (p q : α → Prop) (l : List α) : Prop :=
  ∃ before a after, l = before ++ a :: after ∧ q a ∧ ∀ b ∈ after, p b

/-- Nothing has held since an event of the empty history. -/
@[simp]
theorem not_since_nil : ¬Since p q [] := by
  rintro ⟨before, a, after, h, -⟩
  exact List.append_ne_nil_of_right_ne_nil before (List.cons_ne_nil a after) h.symm

/-- A history with one more event is judged by that event and by what held before it. -/
theorem since_concat : Since p q (l ++ [a]) ↔ q a ∨ Since p q l ∧ p a := by
  constructor
  · rintro ⟨before, b, after, h, hb, hafter⟩
    rcases List.eq_nil_or_concat after with rfl | ⟨after, c, rfl⟩
    · obtain ⟨-, rfl⟩ := List.append_singleton_inj.mp h
      exact Or.inl hb
    · rw [List.concat_eq_append, ← List.cons_append, ← List.append_assoc] at h
      obtain ⟨rfl, rfl⟩ := List.append_singleton_inj.mp h
      simp only [List.concat_eq_append, List.mem_append, List.mem_singleton] at hafter
      exact Or.inr ⟨⟨before, b, after, rfl, hb, fun c hc => hafter c (Or.inl hc)⟩,
        hafter a (Or.inr rfl)⟩
  · rintro (ha | ⟨⟨before, b, after, rfl, hb, hafter⟩, ha⟩)
    · exact ⟨l, a, [], rfl, ha, fun b hb => absurd hb List.not_mem_nil⟩
    · refine ⟨before, b, after ++ [a], by simp, hb, fun c hc => ?_⟩
      rcases List.mem_append.mp hc with hc | hc
      · exact hafter c hc
      · rw [List.mem_singleton.mp hc]
        exact ha

/-- What has held since some event with `q` has held since the last one. -/
theorem Since.last (h : Since p q l) : Since (fun b => p b ∧ ¬q b) q l := by
  induction l using List.reverseRecOn with
  | nil => exact absurd h not_since_nil
  | append_singleton l a ih =>
    rw [since_concat] at h ⊢
    by_cases ha : q a
    · exact Or.inl ha
    · obtain ⟨hl, hp⟩ := h.resolve_left ha
      exact Or.inr ⟨ih hl, hp, ha⟩

/-- Since the last event with `q`, what counts is the events after it. -/
theorem since_iff_of_last (ha : q a) (hafter : ∀ b ∈ after, ¬q b) :
    Since p q (before ++ a :: after) ↔ ∀ b ∈ after, p b := by
  induction after using List.reverseRecOn with
  | nil =>
    rw [since_concat]
    exact ⟨fun _ b hb => absurd hb List.not_mem_nil, fun _ => Or.inl ha⟩
  | append_singleton after c ih =>
    simp only [List.mem_append, List.mem_singleton] at hafter ⊢
    rw [← List.cons_append, ← List.append_assoc, since_concat,
      or_iff_right (hafter c (Or.inr rfl)), ih fun b hb => hafter b (Or.inl hb)]
    constructor
    · rintro ⟨hall, hc⟩ b (hb | rfl)
      · exact hall b hb
      · exact hc
    · exact fun hall => ⟨fun b hb => hall b (Or.inl hb), hall c (Or.inr rfl)⟩

/-- Of two flags that the events with `q` raise, the first is taken down by the events without `p`
and the second by those with `r`. Only the second is down exactly if the events after the last one
with `q` have taken it down alone. -/
theorem since_and_not_since_iff : Since p q l ∧ ¬Since (¬r ·) q l ↔
    ∃ before a after, l = before ++ a :: after ∧ q a ∧ (∃ b ∈ after, r b) ∧
      ∀ b ∈ after, ¬q b ∧ p b := by
  constructor
  · rintro ⟨hp, hr⟩
    obtain ⟨before, a, after, rfl, ha, hafter⟩ := hp.last
    rw [since_iff_of_last ha fun b hb => (hafter b hb).2] at hr
    push Not at hr
    exact ⟨before, a, after, rfl, ha, hr, fun b hb => (hafter b hb).symm⟩
  · rintro ⟨before, a, after, rfl, ha, ⟨b, hb, hr⟩, hafter⟩
    have hlast : ∀ b ∈ after, ¬q b := fun b hb => (hafter b hb).1
    rw [since_iff_of_last ha hlast, since_iff_of_last ha hlast]
    exact ⟨fun b hb => (hafter b hb).2, fun hall => hall b hb hr⟩

end Reclaim
