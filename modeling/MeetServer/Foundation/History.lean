import MeetServer.Foundation.Transition

/-!
# Histories

A history is carried beside the state of a system.  The steps add to it and
never read it, so it may be forgotten again; a condition on the steps may speak
of it.
-/

namespace MeetServer.Foundation

namespace System

variable {σ α η : Type*}

def withHistory (S : System σ α) (record : σ → α → η → η) : System (σ × η) α where
  step s a := (S.step s.1 a).map fun s' => (s', record s.1 a s.2)

variable {S : System σ α} {record : σ → α → η → η}

theorem withHistory_step {s s' : σ × η} {a : α} :
    (S.withHistory record).step s a = some s' ↔
      S.step s.1 a = some s'.1 ∧ s'.2 = record s.1 a s.2 := by
  obtain ⟨s', history⟩ := s'
  simp only [withHistory, Option.map_eq_some_iff, Prod.mk.injEq]
  constructor
  · rintro ⟨s', hstep, rfl, rfl⟩
    exact ⟨hstep, rfl⟩
  · rintro ⟨hstep, rfl⟩
    exact ⟨s', hstep, rfl, rfl⟩

@[simp] theorem isSome_withHistory_step (s : σ × η) (a : α) :
    ((S.withHistory record).step s a).isSome = (S.step s.1 a).isSome := by
  simp [withHistory]

@[simp] theorem withHistory_next_fst (s : σ × η) (a : α) :
    ((S.withHistory record).next s a).1 = S.next s.1 a := by
  cases hstep : S.step s.1 a <;> simp [next, withHistory, hstep]

/-- The history can be forgotten. -/
theorem withHistory_run_fst (s : σ × η) (labels : List α) :
    ((S.withHistory record).run s labels).1 = S.run s.1 labels := by
  induction labels generalizing s with
  | nil => rfl
  | cons a labels ih => simp [ih]

theorem meets_withHistory {C : σ → α → Prop} {s : σ × η} {labels : List α} :
    (S.withHistory record).Meets (fun s a => C s.1 a) s labels ↔ S.Meets C s.1 labels := by
  induction labels generalizing s with
  | nil => rfl
  | cons a labels ih => simp [Meets, ih]

end System

end MeetServer.Foundation
