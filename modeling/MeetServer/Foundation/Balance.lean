import Mathlib.Algebra.BigOperators.Group.Finset.Piecewise
import Mathlib.Algebra.Order.BigOperators.Group.Finset
import Mathlib.Algebra.Order.Floor.Div
import Mathlib.Data.Finset.Lattice.Fold
import Mathlib.Order.Lattice.Nat
import Mathlib.Tactic.Linarith

/-!
# Balanced loads

Units are placed one at a time on places that already carry some.  No placement
brings the largest load below the rounded-up average, and putting every unit on
a least loaded place brings it no higher.
-/

namespace MeetServer.Foundation

variable {α : Type*} {s : Finset α} {f g : α → Nat} {k : Nat}

/-- `g` comes from `f` by placing `k` more units over `s`. -/
structure Places (s : Finset α) (k : Nat) (f g : α → Nat) : Prop where
  le : ∀ a ∈ s, f a ≤ g a
  total : ∑ a ∈ s, g a = ∑ a ∈ s, f a + k

theorem Places.refl (s : Finset α) (f : α → Nat) : Places s 0 f f where
  le _ _ := Nat.le_refl _
  total := rfl

theorem Places.trans {h : α → Nat} {m : Nat} (hfg : Places s k f g) (hgh : Places s m g h) :
    Places s (k + m) f h where
  le a ha := (hfg.le a ha).trans (hgh.le a ha)
  total := by rw [hgh.total, hfg.total, Nat.add_assoc]

def evenLoad (s : Finset α) (k : Nat) (f : α → Nat) : Nat :=
  max (s.sup f) ((∑ a ∈ s, f a + k) ⌈/⌉ s.card)

theorem sum_le_card_mul_sup (s : Finset α) (f : α → Nat) :
    ∑ a ∈ s, f a ≤ s.card * s.sup f := by
  have hle := Finset.sum_le_card_nsmul s f (s.sup f) fun a ha => Finset.le_sup ha
  simpa using hle

theorem evenLoad_zero (hs : s.Nonempty) (f : α → Nat) : evenLoad s 0 f = s.sup f := by
  apply max_eq_left
  rw [ceilDiv_le_iff_le_mul hs.card_pos]
  exact sum_le_card_mul_sup s f

theorem Places.evenLoad_le (h : Places s k f g) (hs : s.Nonempty) :
    evenLoad s k f ≤ s.sup g := by
  apply max_le
  · exact Finset.sup_mono_fun h.le
  · rw [ceilDiv_le_iff_le_mul hs.card_pos, ← h.total]
    exact sum_le_card_mul_sup s g

variable {a : α}

theorem Places.update [DecidableEq α] (ha : a ∈ s) (f : α → Nat) :
    Places s 1 f (Function.update f a (f a + 1)) where
  le b _ := by
    by_cases hb : b = a <;> simp [hb]
  total := by
    rw [Finset.sum_update_of_mem ha, ← Finset.add_sum_erase s f ha,
      Finset.sdiff_singleton_eq_erase]
    omega

theorem evenLoad_le_succ (s : Finset α) (k : Nat) (f : α → Nat) :
    evenLoad s k f ≤ evenLoad s (k + 1) f := by
  rcases s.eq_empty_or_nonempty with rfl | hs
  · simp [evenLoad]
  · apply max_le_max_left
    exact (gc_mul_ceilDiv hs.card_pos).monotone_l (by omega)

/-- A least loaded place is below the average the next unit brings. -/
theorem lt_evenLoad_of_least (h : Places s k f g) (ha : a ∈ s) (hleast : ∀ b ∈ s, g a ≤ g b) :
    g a < evenLoad s (k + 1) f := by
  have hcard : 0 < s.card := Finset.card_pos.2 ⟨a, ha⟩
  have hsum : s.card * g a ≤ ∑ b ∈ s, f b + k := by
    rw [← h.total]
    simpa using Finset.card_nsmul_le_sum s g (g a) hleast
  apply lt_max_of_lt_right
  rw [← not_le, ceilDiv_le_iff_le_mul hcard]
  omega

/-- `g` carries `k` units more than `f`, and its largest load is the least possible. -/
structure Balanced (s : Finset α) (k : Nat) (f g : α → Nat) : Prop where
  places : Places s k f g
  largest : s.sup g = evenLoad s k f

theorem Balanced.refl (hs : s.Nonempty) (f : α → Nat) : Balanced s 0 f f where
  places := .refl s f
  largest := (evenLoad_zero hs f).symm

theorem Balanced.update [DecidableEq α] (h : Balanced s k f g) (ha : a ∈ s)
    (hleast : ∀ b ∈ s, g a ≤ g b) :
    Balanced s (k + 1) f (Function.update g a (g a + 1)) := by
  have hplaces := h.places.trans (Places.update ha g)
  refine ⟨hplaces, le_antisymm ?_ (hplaces.evenLoad_le ⟨a, ha⟩)⟩
  apply Finset.sup_le
  intro b hb
  by_cases hba : b = a
  · rw [hba, Function.update_self]
    exact lt_evenLoad_of_least h.places ha hleast
  · rw [Function.update_of_ne hba]
    calc
      g b ≤ s.sup g := Finset.le_sup hb
      _ = evenLoad s k f := h.largest
      _ ≤ evenLoad s (k + 1) f := evenLoad_le_succ s k f

theorem Balanced.isLeast (h : Balanced s k f g) (hs : s.Nonempty) :
    IsLeast {m | ∃ p, Places s k f p ∧ s.sup p = m} (s.sup g) := by
  refine ⟨⟨g, h.places, rfl⟩, ?_⟩
  rintro m ⟨p, hp, rfl⟩
  rw [h.largest]
  exact hp.evenLoad_le hs

end MeetServer.Foundation
