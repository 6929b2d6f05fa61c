import MeetServer.Foundation.Transition
import Mathlib.Algebra.GroupWithZero.Nat
import Mathlib.Algebra.BigOperators.Group.Finset.Basic
import Mathlib.Data.Fintype.Card

/-!
# Pools of asynchronous calls

A pool runs any number of calls against one shared world.  A call advances from
one suspension point to the next in a single step and every interleaving of
these steps is a run: the model of `async` functions that only yield at an
`await`.  `DoneOrDue` is the invariant of work that one call hands to another.
-/

namespace MeetServer.Foundation

variable {ι ε W P : Type*}

/-- The outcome of a promise. -/
inductive Settlement (α : Type*) where
  | fulfilled (value : α)
  | rejected
  deriving DecidableEq, Repr

@[simp] def Settlement.isFulfilled {α : Type*} : Settlement α → Bool
  | .fulfilled _ => true
  | .rejected => false

/-- The shared world and the point each call has reached. -/
structure Pool (ι W P : Type*) where
  world : W
  proc : ι → P

namespace Pool

variable [DecidableEq ι]

def set (s : Pool ι W P) (i : ι) (w : W) (p : P) : Pool ι W P :=
  ⟨w, Function.update s.proc i p⟩

@[simp] theorem set_world (s : Pool ι W P) (i : ι) (w : W) (p : P) :
    (s.set i w p).world = w := rfl

@[simp] theorem set_proc_self (s : Pool ι W P) (i : ι) (w : W) (p : P) :
    (s.set i w p).proc i = p := by
  simp [set]

theorem set_proc (s : Pool ι W P) (i j : ι) (w : W) (p : P) :
    (s.set i w p).proc j = if j = i then p else s.proc j := by
  by_cases h : j = i <;> simp [set, h]

theorem set_proc_ne (s : Pool ι W P) {i j : ι} (w : W) (p : P) (h : j ≠ i) :
    (s.set i w p).proc j = s.proc j := by
  simp [set, h]

@[simp] theorem set_set (s : Pool ι W P) (i : ι) (w w' : W) (p p' : P) :
    (s.set i w p).set i w' p' = s.set i w' p' := by
  simp [set]

/-- A projection that a call's move leaves alone. -/
theorem comp_set_proc {β : Type*} (s : Pool ι W P) {f : P → β} {i : ι} {w : W}
    {p : P} (h : f p = f (s.proc i)) :
    (fun j => f ((s.set i w p).proc j)) = fun j => f (s.proc j) := by
  funext j
  rw [set_proc]
  split
  · next hj => rw [hj, h]
  · rfl

/-- The interleavings of calls that advance by `step`. -/
def system (step : ι → ε → W → P → Option (W × P)) :
    System (Pool ι W P) (ι × ε) where
  step s a :=
    (step a.1 a.2 s.world (s.proc a.1)).map fun r => s.set a.1 r.1 r.2

variable {step : ι → ε → W → P → Option (W × P)} {s s' : Pool ι W P}
  {i : ι} {e : ε}

theorem step_eq_some :
    (system step).step s (i, e) = some s' ↔
      ∃ w p, step i e s.world (s.proc i) = some (w, p) ∧ s' = s.set i w p := by
  simp [system, eq_comm]

theorem next_of_step {w : W} {p : P}
    (h : step i e s.world (s.proc i) = some (w, p)) :
    (system step).next s (i, e) = s.set i w p :=
  System.next_of_step (step_eq_some.2 ⟨w, p, h, rfl⟩)

/-! ## Work that is handed over -/

/-- The work is done, or some call is still going to do it. -/
def DoneOrDue (done : W → Prop) (due : P → Prop) (s : Pool ι W P) : Prop :=
  done s.world ∨ ∃ i, due (s.proc i)

omit [DecidableEq ι] in
theorem DoneOrDue.done {done : W → Prop} {due : P → Prop}
    (h : DoneOrDue done due s) (hnone : ∀ i, ¬ due (s.proc i)) :
    done s.world := by
  rcases h with hdone | ⟨i, hi⟩
  · exact hdone
  · exact (hnone i hi).elim

/-- A call that was going to do the work has done it, is still going to do it,
or leaves it to another call. -/
theorem DoneOrDue.set {done : W → Prop} {due : P → Prop} {w : W} {p : P}
    (h : DoneOrDue done due s) (hdone : done s.world → done w)
    (hdue : due (s.proc i) → done w ∨ due p ∨ ∃ j, j ≠ i ∧ due (s.proc j)) :
    DoneOrDue done due (s.set i w p) := by
  rcases h with h | ⟨j, hj⟩
  · exact .inl (hdone h)
  · by_cases hji : j = i
    · subst hji
      rcases hdue hj with hw | hp | ⟨k, hk, hdue⟩
      · exact .inl hw
      · exact .inr ⟨j, by simpa using hp⟩
      · exact .inr ⟨k, by rwa [set_proc_ne _ _ _ hk]⟩
    · exact .inr ⟨j, by rwa [set_proc_ne _ _ _ hji]⟩

end Pool

/-! ## One call on its own -/

/-- A call that no other call disturbs. -/
def alone (step : ε → W → P → Option (W × P)) : System (W × P) ε where
  step s e := step e s.1 s.2

/-! ## Counting calls at a point -/

section Counting

variable [DecidableEq ι] [Fintype ι]

/-- How many calls are at a point that satisfies `Q`. -/
def countCalls (Q : P → Prop) [DecidablePred Q] (proc : ι → P) : Nat :=
  ∑ i, if Q (proc i) then 1 else 0

/-- One call's move changes the count by that call's own contribution. -/
theorem countCalls_update (Q : P → Prop) [DecidablePred Q] (proc : ι → P)
    (i : ι) (p : P) :
    countCalls Q (Function.update proc i p) + (if Q (proc i) then 1 else 0) =
      countCalls Q proc + (if Q p then 1 else 0) := by
  unfold countCalls
  rw [← Finset.add_sum_erase _ _ (Finset.mem_univ i),
    ← Finset.add_sum_erase (f := fun j => if Q (proc j) then 1 else 0) _
      (Finset.mem_univ i)]
  have hrest : ∑ j ∈ Finset.univ.erase i,
      (if Q (Function.update proc i p j) then 1 else 0) =
      ∑ j ∈ Finset.univ.erase i, if Q (proc j) then 1 else 0 := by
    refine Finset.sum_congr rfl fun j hj => ?_
    rw [Function.update_of_ne (Finset.ne_of_mem_erase hj)]
  rw [hrest, Function.update_self]
  omega

end Counting

end MeetServer.Foundation
