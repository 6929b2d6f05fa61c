import Mathlib.Data.List.MinMax

/-!
# The first-minimum loop

`let best = xs[0]; for (const x of xs) if (f(x) < f(best)) best = x`: the loop
behind every least-loaded choice.  It is Mathlib's `List.argmin`, so minimality
and the preference for earlier entries come from there.
-/

namespace MeetServer.Foundation

variable {α β : Type*} [LinearOrder β]

def firstLeast (f : α → β) (best : α) (xs : List α) : α :=
  xs.foldl (fun best x => if f x < f best then x else best) best

theorem firstLeast_self (f : α → β) (x : α) (xs : List α) :
    firstLeast f x (x :: xs) = firstLeast f x xs := by
  simp [firstLeast]

theorem argmin_eq_firstLeast (f : α → β) (x : α) (xs : List α) :
    (x :: xs).argmin f = some (firstLeast f x (x :: xs)) := by
  rw [firstLeast_self]
  have hfold : ∀ (best : α), xs.foldl (List.argAux fun b c => f b < f c)
      (some best) = some (firstLeast f best xs) := by
    induction xs with
    | nil => intro best; rfl
    | cons y ys ih =>
        intro best
        by_cases h : f y < f best
        · simpa [firstLeast, List.argAux, h] using ih y
        · simpa [firstLeast, List.argAux, h] using ih best
  simpa [List.argmin, List.argAux] using hfold x

theorem firstLeast_mem (f : α → β) (x : α) (xs : List α) :
    firstLeast f x (x :: xs) ∈ x :: xs :=
  List.argmin_mem (argmin_eq_firstLeast f x xs)

theorem firstLeast_le (f : α → β) (x : α) (xs : List α) {y : α} (hy : y ∈ x :: xs) :
    f (firstLeast f x (x :: xs)) ≤ f y :=
  List.le_of_mem_argmin hy (argmin_eq_firstLeast f x xs)

section FirstOf

variable {f : α → β} {before after : List α} {a m : α}

/-- The first least entry is in `P` if an entry of `P` beats all others before
it and ties with the others after it. -/
theorem argmin_satisfies {P : α → Prop} (ha : P a)
    (hbefore : ∀ b ∈ before, ¬ P b → f a < f b)
    (hafter : ∀ b ∈ after, ¬ P b → f a ≤ f b)
    (h : m ∈ (before ++ a :: after).argmin f) : P m := by
  classical
  by_contra hm
  have hle : f m ≤ f a := List.le_of_mem_argmin (by simp) h
  have hnot : m ∉ before := fun hmem =>
    absurd hle (hbefore m hmem hm).not_ge
  have hne : m ≠ a := by
    rintro rfl
    exact hm ha
  have hmem : m ∈ after := by
    simpa [hnot, hne] using List.argmin_mem h
  have hfirst := List.index_of_argmin h (a := a) (by simp) (hafter m hmem hm)
  have hindex : (before ++ a :: after).idxOf a ≤ before.length := by
    by_cases hmem : a ∈ before
    · rw [List.idxOf_append_of_mem hmem]
      exact List.idxOf_le_length
    · simp [List.idxOf_append_of_notMem hmem]
  rw [List.idxOf_append_of_notMem hnot, List.idxOf_cons_ne _ hne.symm] at hfirst
  omega

theorem lt_of_mem_argmin (ha : a ∉ before)
    (h : a ∈ (before ++ a :: after).argmin f) : ∀ b ∈ before, f a < f b := by
  classical
  intro b hb
  by_contra hlt
  have hfirst := List.index_of_argmin h (a := b) (by simp [hb]) (le_of_not_gt hlt)
  rw [List.idxOf_append_of_notMem ha, List.idxOf_append_of_mem hb] at hfirst
  have hindex := List.idxOf_lt_length_of_mem hb
  omega

end FirstOf

/-! ## Level counts -/

/-- Any two of the counts differ by at most one. -/
def Level (f : α → Nat) (xs : List α) : Prop := ∀ a ∈ xs, ∀ b ∈ xs, f a ≤ f b + 1

instance (f : α → Nat) (xs : List α) : Decidable (Level f xs) :=
  inferInstanceAs (Decidable (∀ a ∈ xs, ∀ b ∈ xs, f a ≤ f b + 1))

/-- One more at `a` keeps the counts level exactly when `a` was one of the least. -/
theorem Level.update_iff [DecidableEq α] {f : α → Nat} {xs : List α} {a : α} (h : Level f xs)
    (ha : a ∈ xs) : Level (Function.update f a (f a + 1)) xs ↔ ∀ b ∈ xs, f a ≤ f b := by
  constructor
  · intro hlevel b hb
    have hab := hlevel a ha b hb
    by_cases hba : b = a
    · rw [hba]
    · rw [Function.update_self, Function.update_of_ne hba] at hab
      omega
  · intro hleast b hb c hc
    have hbc := h b hb c hc
    have hac := hleast c hc
    by_cases hba : b = a <;> by_cases hca : c = a <;>
      simp only [hba, hca, Function.update_self, Function.update_of_ne, Ne, not_false_eq_true]
        at hbc ⊢ <;> omega

end MeetServer.Foundation
