import MeetServer.Foundation.Pool
import Mathlib.Order.OrderIsoNat

/-!
# Progress

Endless schedules.  A system in which the steps of a kind `D` lower a rank, and
in which some step of this kind is enabled as long as the goal has not been
reached, reaches the goal for good, provided that the schedule does not put off
the steps in `D` for ever.  No fairness towards a single label is needed.
-/

namespace MeetServer.Foundation

namespace System

variable {σ α : Type*} (S : System σ α)

/-- The states of an endless schedule. -/
def trace (s : σ) (schedule : ℕ → α) : ℕ → σ
  | 0 => s
  | n + 1 => S.next (trace s schedule n) (schedule n)

/-- Some label in `D` is enabled. -/
def Enabled (D : α → Prop) (s : σ) : Prop := ∃ a, D a ∧ (S.step s a).isSome

/-- When from some moment on there is always a label in `D` that is enabled, one is
carried out. -/
def Serves (D : α → Prop) (s : σ) (schedule : ℕ → α) : Prop :=
  ∀ n, (∀ m ≥ n, S.Enabled D (S.trace s schedule m)) →
    ∃ m ≥ n, D (schedule m) ∧ (S.step (S.trace s schedule m) (schedule m)).isSome

/-- `P` holds from some moment on. -/
def Eventually (P : σ → Prop) (s : σ) (schedule : ℕ → α) : Prop :=
  ∃ n, ∀ m ≥ n, P (S.trace s schedule m)

variable {S} {C : σ → α → Prop} {D : α → Prop} {I P Q : σ → Prop} {s : σ} {schedule : ℕ → α}

theorem trace_eq_run (s : σ) (schedule : ℕ → α) (n : ℕ) :
    S.trace s schedule n = S.run s ((List.range n).map schedule) := by
  induction n with
  | zero => rfl
  | succ n ih =>
      rw [List.range_succ, List.map_append, run_append, ← ih]
      rfl

theorem Preserves.trace (hI : S.Preserves (fun _ _ => True) I) (h : I s) (n : ℕ) :
    I (S.trace s schedule n) := by
  rw [trace_eq_run]
  exact hI.run h _

theorem Eventually.mono (h : S.Eventually P s schedule) (hPQ : ∀ s, P s → Q s) :
    S.Eventually Q s schedule := by
  obtain ⟨n, hn⟩ := h
  exact ⟨n, fun m hm => hPQ _ (hn m hm)⟩

/-- A schedule that leaves nothing to do serves. -/
theorem serves_of_not_enabled {n : ℕ} (h : ∀ m ≥ n, ¬ S.Enabled D (S.trace s schedule m)) :
    S.Serves D s schedule := by
  intro k hk
  exact (h (max n k) (Nat.le_max_left n k) (hk _ (Nat.le_max_right n k))).elim

/-- A state that no label of the schedule leaves any more. -/
theorem trace_of_disabled {n : ℕ} (h : ∀ m ≥ n, S.step (S.trace s schedule n) (schedule m) = none)
    {m : ℕ} (hm : n ≤ m) : S.trace s schedule m = S.trace s schedule n := by
  induction m, hm using Nat.le_induction with
  | base => rfl
  | succ m hm ih => exact (next_of_disabled (by rw [ih]; exact h m hm)).trans ih

section Rank

variable {W : Type*} [Preorder W] [WellFoundedLT W] (rank : σ → W)

/-- A rank that no step raises comes to rest. -/
theorem exists_forall_not_rank_lt (schedule : ℕ → α) (hI : S.Preserves (fun _ _ => True) I)
    (hrank : ∀ ⦃s a s'⦄, I s → S.step s a = some s' → rank s' ≤ rank s) (h₀ : I s) :
    ∃ n, ∀ m ≥ n, ¬ rank (S.trace s schedule (m + 1)) < rank (S.trace s schedule m) := by
  have hstep (m : ℕ) : rank (S.trace s schedule (m + 1)) ≤ rank (S.trace s schedule m) := by
    cases henabled : S.step (S.trace s schedule m) (schedule m) with
    | none => exact le_of_eq (congrArg rank (next_of_disabled henabled))
    | some s' =>
        have hnext : S.trace s schedule (m + 1) = s' := next_of_step henabled
        rw [hnext]
        exact hrank (hI.trace h₀ m) henabled
  have hanti : Antitone fun m => rank (S.trace s schedule m) := antitone_nat_of_succ_le hstep
  obtain ⟨n, hn⟩ := WellFoundedGT.monotone_chain_condition' (α := Wᵒᵈ)
    ⟨fun m => OrderDual.toDual (rank (S.trace s schedule m)), hanti⟩
  refine ⟨n, fun m hm hlt => hn (m + 1) (by omega) ?_⟩
  have hle : rank (S.trace s schedule m) ≤ rank (S.trace s schedule n) := hanti hm
  exact OrderDual.toDual_lt_toDual.2 (lt_of_lt_of_le hlt hle)

/-- The steps in `D` lower the rank and the others keep what has been reached. -/
theorem Serves.eventually (hserves : S.Serves D s schedule)
    (hI : S.Preserves (fun _ _ => True) I)
    (hrank : ∀ ⦃s a s'⦄, I s → S.step s a = some s' →
      rank s' ≤ rank s ∧ (D a → rank s' < rank s))
    (hprogress : ∀ s, I s → Q s ∨ S.Enabled D s)
    (hstays : ∀ ⦃s a s'⦄, I s → Q s → S.step s a = some s' → ¬ rank s' < rank s → Q s')
    (h₀ : I s) : S.Eventually Q s schedule := by
  obtain ⟨n, hn⟩ := exists_forall_not_rank_lt rank schedule hI
    (fun s a s' hs hstep => (hrank hs hstep).1) h₀
  -- nothing in `D` is carried out any more, so at some moment nothing in it is enabled
  have hreached : ∃ m ≥ n, Q (S.trace s schedule m) := by
    by_contra hnever
    push Not at hnever
    obtain ⟨m, hm, hD, henabled⟩ := hserves n fun m hm =>
      (hprogress _ (hI.trace h₀ m)).resolve_left (hnever m hm)
    obtain ⟨s', hstep⟩ := Option.isSome_iff_exists.1 henabled
    have hnext : S.trace s schedule (m + 1) = s' := next_of_step hstep
    refine hn m hm ?_
    rw [hnext]
    exact (hrank (hI.trace h₀ m) hstep).2 hD
  obtain ⟨m, hm, hQ⟩ := hreached
  refine ⟨m, fun k hk => ?_⟩
  induction k, hk using Nat.le_induction with
  | base => exact hQ
  | succ k hk ih =>
      have hrest := hn k (by omega)
      cases hstep : S.step (S.trace s schedule k) (schedule k) with
      | none =>
          have hnext : S.trace s schedule (k + 1) = S.trace s schedule k :=
            next_of_disabled hstep
          rw [hnext]
          exact ih
      | some s' =>
          have hnext : S.trace s schedule (k + 1) = s' := next_of_step hstep
          rw [hnext] at hrest ⊢
          exact hstays (hI.trace h₀ k) ih hstep hrest

end Rank

end System

namespace Pool

variable {ι ε W P : Type*} [DecidableEq ι] {R : Type*} [Preorder R] {rank : P → R}

/-- The ranks of the calls, compared call by call. -/
theorem rank_set_lt {s : Pool ι W P} {i : ι} {w : W} {p : P} (h : rank p < rank (s.proc i)) :
    (fun j => rank ((s.set i w p).proc j)) < fun j => rank (s.proc j) := by
  refine Pi.lt_def.2 ⟨fun j => ?_, i, ?_⟩
  · by_cases hj : j = i
    · subst hj
      simpa using h.le
    · exact le_of_eq (congrArg rank (set_proc_ne s w p hj))
  · simpa using h

end Pool

end MeetServer.Foundation
