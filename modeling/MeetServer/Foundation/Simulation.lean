import MeetServer.Foundation.Pool

/-!
# Projections of systems

`f` shows of each state what a coarser system has of it, and a step of the finer
system is a step of the coarser one or none at all.  Then the coarser system has a
run for every run of the finer one, and what holds in all its runs holds there.
Where the two systems take the same steps, each run has its mirror image.
-/

namespace MeetServer.Foundation

namespace System

variable {σ α τ β : Type*} {S : System σ α} {T : System τ β} {f : σ → τ}

/-- Steps of `S` are steps of `T`, or leave what `f` shows as it was. -/
def Projects (S : System σ α) (T : System τ β) (f : σ → τ) : Prop :=
  ∀ ⦃s a s'⦄, S.step s a = some s' → f s' = f s ∨ ∃ b, T.step (f s) b = some (f s')

theorem Projects.exists_run (h : S.Projects T f) (s : σ) (labels : List α) :
    ∃ labels', T.run (f s) labels' = f (S.run s labels) := by
  induction labels generalizing s with
  | nil => exact ⟨[], rfl⟩
  | cons a labels ih =>
      rw [run_cons]
      obtain ⟨labels', hrun⟩ := ih (S.next s a)
      cases hstep : S.step s a with
      | none =>
          rw [next_of_disabled hstep] at hrun ⊢
          exact ⟨labels', hrun⟩
      | some s' =>
          rw [next_of_step hstep] at hrun ⊢
          rcases h hstep with hsame | ⟨b, hb⟩
          · exact ⟨labels', by rw [← hsame, hrun]⟩
          · exact ⟨b :: labels', by rw [run_cons, next_of_step hb, hrun]⟩

/-! ## The same steps -/

/-- From states in `I` on, `T` does what `S` does. -/
structure Mirrors (S : System σ α) (T : System τ α) (f : σ → τ) (I : σ → Prop) : Prop where
  step : ∀ ⦃s⦄, I s → ∀ a, T.step (f s) a = (S.step s a).map f
  keeps : S.Preserves (fun _ _ => True) I

variable {T : System τ α} {I : σ → Prop} {s : σ}

theorem Mirrors.next (h : S.Mirrors T f I) (hs : I s) (a : α) :
    T.next (f s) a = f (S.next s a) ∧ I (S.next s a) := by
  rw [System.next, h.step hs a]
  cases hstep : S.step s a with
  | none =>
      rw [next_of_disabled hstep]
      exact ⟨rfl, hs⟩
  | some s' =>
      rw [next_of_step hstep]
      exact ⟨rfl, h.keeps hs trivial hstep⟩

theorem Mirrors.run (h : S.Mirrors T f I) (hs : I s) (labels : List α) :
    T.run (f s) labels = f (S.run s labels) := by
  induction labels generalizing s with
  | nil => rfl
  | cons a labels ih =>
      obtain ⟨hnext, hI⟩ := h.next hs a
      rw [run_cons, run_cons, hnext, ih hI]

theorem Mirrors.meets_iff {C : τ → α → Prop} (h : S.Mirrors T f I) (hs : I s)
    (labels : List α) :
    T.Meets C (f s) labels ↔ S.Meets (fun s a => C (f s) a) s labels := by
  induction labels generalizing s with
  | nil => exact Iff.rfl
  | cons a labels ih =>
      obtain ⟨hnext, hI⟩ := h.next hs a
      simp only [Meets, h.step hs a, Option.isSome_map, hnext, ih hI]

theorem Mirrors.holds_iff {P : τ → Prop} (h : S.Mirrors T f I) (hs : I s)
    (labels : List α) : T.Holds P (f s) labels ↔ S.Holds (fun s => P (f s)) s labels := by
  induction labels generalizing s with
  | nil => exact Iff.rfl
  | cons a labels ih =>
      obtain ⟨hnext, hI⟩ := h.next hs a
      simp only [Holds, hnext, ih hI]

end System

namespace Pool

variable {ι ε W P Q : Type*} [DecidableEq ι]

/-- The same pool with other points for its calls. -/
def map (f : P → Q) (s : Pool ι W P) : Pool ι W Q :=
  ⟨s.world, fun i => f (s.proc i)⟩

theorem map_set (f : P → Q) (s : Pool ι W P) (i : ι) (w : W) (p : P) :
    (s.set i w p).map f = (s.map f).set i w (f p) := by
  unfold map set
  congr 1
  funext j
  by_cases hj : j = i
  · subst hj
    simp
  · simp [hj]

/-- Calls that take the same steps one by one take them in a pool. -/
theorem mirrors_map {step : ι → ε → W → P → Option (W × P)}
    {step' : ι → ε → W → Q → Option (W × Q)} {f : P → Q} {I : ι → P → Prop}
    (hstep : ∀ i e w p, I i p → step' i e w (f p) = (step i e w p).map (Prod.map id f))
    (hkeeps : ∀ i e w p w' p', I i p → step i e w p = some (w', p') → I i p') :
    (system step).Mirrors (system step') (map f) fun s => ∀ i, I i (s.proc i) where
  step s hs a := by
    have hcall := hstep a.1 a.2 s.world (s.proc a.1) (hs a.1)
    simp only [system, map] at hcall ⊢
    rw [hcall, Option.map_map, Option.map_map]
    refine Option.map_congr fun r _ => ?_
    exact (map_set f s a.1 r.1 r.2).symm
  keeps s a s' hs _ h := by
    obtain ⟨w', p', hcall, rfl⟩ := step_eq_some.1 h
    intro j
    rw [set_proc]
    split
    · next hj =>
      subst hj
      exact hkeeps _ _ _ _ _ _ (hs _) hcall
    · exact hs j

end Pool

end MeetServer.Foundation
