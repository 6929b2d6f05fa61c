import MeetServer.Foundation.Pool

/-!
# Noninterference of calls

Some calls of a pool are an observer's own, and the observer sees a part of the
world.  When the other calls leave this part alone, and the own calls depend on
nothing else, the observer cannot tell a run from the one that the own steps
make on their own (`Unwinding.run_filter`).
-/

namespace MeetServer.Foundation

theorem rel_map {α α' β β' : Type*} {R : α → α' → Prop} {S : β → β' → Prop} {f : α → β}
    {g : α' → β'} {a : Option α} {a' : Option α'} (h : Option.Rel R a a')
    (hRS : ∀ x y, R x y → S (f x) (g y)) : Option.Rel S (a.map f) (a'.map g) := by
  cases h with
  | none => exact .none
  | some hxy => exact .some (hRS _ _ hxy)

variable {ι ε W P : Type*} [DecidableEq ι]

/-- `Same` relates worlds that look alike to the observer, `Alike` points of own calls. -/
structure Unwinding (step : ι → ε → W → P → Option (W × P)) (own : ι → Bool)
    (I : Pool ι W P → Prop) (Same : W → W → Prop) (Alike : P → P → Prop) : Prop where
  same : Equivalence Same
  preserves : (Pool.system step).Preserves (fun _ _ => True) I
  others : ∀ {s i e w p}, I s → own i = false →
    step i e s.world (s.proc i) = some (w, p) → Same s.world w
  owns : ∀ {s s' i e}, I s → I s' → own i = true → Same s.world s'.world →
    Alike (s.proc i) (s'.proc i) →
    Option.Rel (fun r r' => Same r.1 r'.1 ∧ Alike r.2 r'.2)
      (step i e s.world (s.proc i)) (step i e s'.world (s'.proc i))

/-- The observer sees the same world, and own calls at the same points. -/
structure Pool.Indistinguishable (own : ι → Bool) (Same : W → W → Prop) (Alike : P → P → Prop)
    (s s' : Pool ι W P) : Prop where
  world : Same s.world s'.world
  proc : ∀ i, own i = true → Alike (s.proc i) (s'.proc i)

namespace Unwinding

variable {step : ι → ε → W → P → Option (W × P)} {own : ι → Bool} {I : Pool ι W P → Prop}
  {Same : W → W → Prop} {Alike : P → P → Prop} {s s' : Pool ι W P} {i : ι} {e : ε}

theorem next (h : Unwinding step own I Same Alike) (hs : I s) (a : ι × ε) :
    I ((Pool.system step).next s a) := by
  cases hstep : (Pool.system step).step s a with
  | none => rwa [System.next_of_disabled hstep]
  | some s' =>
      rw [System.next_of_step hstep]
      exact h.preserves hs trivial hstep

/-- Own calls can go on in both pools or in neither. -/
theorem isSome_step (h : Unwinding step own I Same Alike) (hs : I s) (hs' : I s')
    (halike : Pool.Indistinguishable own Same Alike s s') (hi : own i = true) :
    ((Pool.system step).step s (i, e)).isSome =
      ((Pool.system step).step s' (i, e)).isSome := by
  have hrel := h.owns (e := e) hs hs' hi halike.world (halike.proc i hi)
  simp only [Pool.system, Option.isSome_map]
  generalize step i e s.world (s.proc i) = r at hrel ⊢
  generalize step i e s'.world (s'.proc i) = r' at hrel ⊢
  cases hrel with
  | none => rfl
  | some => rfl

theorem next_others (h : Unwinding step own I Same Alike) (hs : I s)
    (halike : Pool.Indistinguishable own Same Alike s s') (hi : own i = false) :
    Pool.Indistinguishable own Same Alike ((Pool.system step).next s (i, e)) s' := by
  cases hstep : step i e s.world (s.proc i) with
  | none =>
      have hnone : (Pool.system step).step s (i, e) = none := by simp [Pool.system, hstep]
      rwa [System.next_of_disabled hnone]
  | some r =>
      rw [Pool.next_of_step (w := r.1) (p := r.2) hstep]
      have hworld := h.others hs hi hstep
      refine ⟨h.same.trans (h.same.symm hworld) halike.world, fun j hj => ?_⟩
      have hne : j ≠ i := by
        rintro rfl
        exact Bool.false_ne_true (hi.symm.trans hj)
      rw [Pool.set_proc_ne _ _ _ hne]
      exact halike.proc j hj

theorem next_owns (h : Unwinding step own I Same Alike) (hs : I s) (hs' : I s')
    (halike : Pool.Indistinguishable own Same Alike s s') (hi : own i = true) :
    Pool.Indistinguishable own Same Alike ((Pool.system step).next s (i, e))
      ((Pool.system step).next s' (i, e)) := by
  have hrel := h.owns (e := e) hs hs' hi halike.world (halike.proc i hi)
  generalize hr : step i e s.world (s.proc i) = r at hrel
  generalize hr' : step i e s'.world (s'.proc i) = r' at hrel
  cases hrel with
  | none =>
      rw [System.next_of_disabled (by simp [Pool.system, hr]),
        System.next_of_disabled (by simp [Pool.system, hr'])]
      exact halike
  | @some r r' hafter =>
      rw [Pool.next_of_step (w := r.1) (p := r.2) hr, Pool.next_of_step (w := r'.1) (p := r'.2) hr']
      refine ⟨hafter.1, fun j hj => ?_⟩
      rw [Pool.set_proc, Pool.set_proc]
      split
      · exact hafter.2
      · exact halike.proc j hj

/-- The steps of the other calls can be left out. -/
theorem run_filter (h : Unwinding step own I Same Alike) (hs : I s) (hs' : I s')
    (halike : Pool.Indistinguishable own Same Alike s s') (labels : List (ι × ε)) :
    Pool.Indistinguishable own Same Alike ((Pool.system step).run s labels)
      ((Pool.system step).run s' (labels.filter fun a => own a.1)) ∧
      I ((Pool.system step).run s labels) ∧
      I ((Pool.system step).run s' (labels.filter fun a => own a.1)) := by
  induction labels generalizing s s' with
  | nil => exact ⟨halike, hs, hs'⟩
  | cons a labels ih =>
      obtain ⟨i, e⟩ := a
      rw [System.run_cons]
      cases hi : own i with
      | true =>
          rw [List.filter_cons_of_pos (by simpa using hi), System.run_cons]
          exact ih (h.next hs _) (h.next hs' _) (h.next_owns hs hs' halike hi)
      | false =>
          rw [List.filter_cons_of_neg (by simp [hi])]
          exact ih (h.next hs _) hs' (h.next_others hs halike hi)

end Unwinding

end MeetServer.Foundation
