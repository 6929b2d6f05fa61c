import Mathlib.Tactic.TypeStar

/-!
# Labelled transition systems

Deterministic steps under nondeterministic labels: a schedule is a list of
labels, and a label that is not enabled leaves the state alone, so every list
of labels is a run.  `ReachableWhen C` restricts reachability to steps that
meet a condition `C`; `holds_iff_meets` turns such a restriction into the exact
condition under which a run keeps a property.
-/

namespace MeetServer.Foundation

structure System (σ α : Type*) where
  step : σ → α → Option σ

namespace System

variable {σ α : Type*} (S : System σ α)

def next (s : σ) (a : α) : σ := (S.step s a).getD s

def run (s : σ) (labels : List α) : σ := labels.foldl S.next s

/-- The states reached from `s₀` by steps that all meet `C`. -/
inductive ReachableWhen (C : σ → α → Prop) (s₀ : σ) : σ → Prop
  | start : ReachableWhen C s₀ s₀
  | step {s s' : σ} {a : α} : ReachableWhen C s₀ s → C s a →
      S.step s a = some s' → ReachableWhen C s₀ s'

abbrev Reachable (s₀ : σ) : σ → Prop := S.ReachableWhen (fun _ _ => True) s₀

/-- Every enabled step of the run meets `C`. -/
def Meets (C : σ → α → Prop) : σ → List α → Prop
  | _, [] => True
  | s, a :: labels => ((S.step s a).isSome → C s a) ∧ Meets C (S.next s a) labels

/-- Some enabled step of the run satisfies `D`. -/
def Occurs (D : σ → α → Prop) : σ → List α → Prop
  | _, [] => False
  | s, a :: labels =>
      ((S.step s a).isSome ∧ D s a) ∨ Occurs D (S.next s a) labels

/-- How many enabled steps of the run satisfy `D`. -/
def count (D : σ → α → Prop) [∀ s a, Decidable (D s a)] : σ → List α → Nat
  | _, [] => 0
  | s, a :: labels =>
      (if (S.step s a).isSome ∧ D s a then 1 else 0) + count D (S.next s a) labels

/-- `P` holds in every state the run passes through. -/
def Holds (P : σ → Prop) : σ → List α → Prop
  | s, [] => P s
  | s, a :: labels => P s ∧ Holds P (S.next s a) labels

/-- Concrete runs can be checked. -/
instance Meets.decidable (C : σ → α → Prop) [∀ s a, Decidable (C s a)] :
    ∀ s labels, Decidable (S.Meets C s labels)
  | _, [] => .isTrue trivial
  | s, a :: labels =>
      have := Meets.decidable C (S.next s a) labels
      inferInstanceAs (Decidable (_ ∧ _))

/-- `I` survives every step that meets `C`. -/
def Preserves (C : σ → α → Prop) (I : σ → Prop) : Prop :=
  ∀ ⦃s a s'⦄, I s → C s a → S.step s a = some s' → I s'

variable {S} {C : σ → α → Prop} {I P : σ → Prop} {s₀ s s' : σ} {a : α}

theorem next_of_step (h : S.step s a = some s') : S.next s a = s' := by
  simp [next, h]

theorem next_of_disabled (h : S.step s a = none) : S.next s a = s := by
  simp [next, h]

@[simp] theorem run_cons (labels : List α) :
    S.run s (a :: labels) = S.run (S.next s a) labels := rfl

theorem run_append (first second : List α) :
    S.run s (first ++ second) = S.run (S.run s first) second :=
  List.foldl_append

theorem ReachableWhen.invariant (hI : S.Preserves C I) (h₀ : I s₀)
    (h : S.ReachableWhen C s₀ s) : I s := by
  induction h with
  | start => exact h₀
  | step _ hC hstep ih => exact hI ih hC hstep

theorem ReachableWhen.trans {s'' : σ} (h : S.ReachableWhen C s s')
    (h' : S.ReachableWhen C s' s'') : S.ReachableWhen C s s'' := by
  induction h' with
  | start => exact h
  | step _ hC hstep ih => exact .step ih hC hstep

/-- A state reached by labels in `D` is the end of a run of such labels. -/
theorem ReachableWhen.exists_run {D : α → Prop}
    (h : S.ReachableWhen (fun _ a => D a) s₀ s) :
    ∃ labels, (∀ a ∈ labels, D a) ∧ S.run s₀ labels = s := by
  induction h with
  | start => exact ⟨[], by simp, rfl⟩
  | @step s s' a _ hD hstep ih =>
      obtain ⟨labels, hlabels, hrun⟩ := ih
      refine ⟨labels ++ [a], fun b hb => ?_, ?_⟩
      · rcases List.mem_append.1 hb with hb | hb
        · exact hlabels b hb
        · rwa [List.mem_singleton.1 hb]
      · rw [run_append, hrun]
        exact next_of_step hstep

theorem ReachableWhen.run {labels : List α} (h : S.ReachableWhen C s₀ s)
    (hm : S.Meets C s labels) : S.ReachableWhen C s₀ (S.run s labels) := by
  induction labels generalizing s with
  | nil => exact h
  | cons a labels ih =>
      obtain ⟨hC, hm⟩ := hm
      cases hstep : S.step s a with
      | none =>
          rw [next_of_disabled hstep] at hm
          rw [run_cons, next_of_disabled hstep]
          exact ih h hm
      | some s' =>
          rw [next_of_step hstep] at hm
          rw [run_cons, next_of_step hstep]
          exact ih (.step h (hC (by simp [hstep])) hstep) hm

theorem Meets.reachableWhen {labels : List α} (h : S.Meets C s₀ labels) :
    S.ReachableWhen C s₀ (S.run s₀ labels) :=
  ReachableWhen.start.run h

theorem meets_of_forall {labels : List α} (h : ∀ a ∈ labels, ∀ s, C s a) :
    S.Meets C s labels := by
  induction labels generalizing s with
  | nil => trivial
  | cons a labels ih =>
      refine ⟨fun _ => h a List.mem_cons_self s, ih fun b hb => ?_⟩
      exact h b (List.mem_cons_of_mem a hb)

/-- The run lemma: steps that meet `C` keep `I`, so a run that meets `C` does. -/
theorem Meets.holds {labels : List α} (hI : S.Preserves C I)
    (hP : ∀ s, I s → P s) (h₀ : I s) (h : S.Meets C s labels) :
    S.Holds P s labels := by
  induction labels generalizing s with
  | nil => exact hP s h₀
  | cons a labels ih =>
      obtain ⟨hC, h⟩ := h
      refine ⟨hP s h₀, ?_⟩
      cases hstep : S.step s a with
      | none =>
          rw [next_of_disabled hstep] at h ⊢
          exact ih h₀ h
      | some s' =>
          rw [next_of_step hstep] at h ⊢
          exact ih (hI h₀ (hC (by simp [hstep])) hstep) h

/-- What every step keeps holds at the end of a run. -/
theorem Preserves.run (hI : S.Preserves (fun _ _ => True) I) (h : I s) (labels : List α) :
    I (S.run s labels) := by
  induction labels generalizing s with
  | nil => exact h
  | cons a labels ih =>
      cases hstep : S.step s a with
      | none =>
          rw [run_cons, next_of_disabled hstep]
          exact ih h
      | some s' =>
          rw [run_cons, next_of_step hstep]
          exact ih (hI h trivial hstep)

/-- What `C` and the invariant say about each step of a run. -/
theorem Meets.along {D : σ → α → Prop} {labels : List α}
    (hI : S.Preserves C I)
    (hD : ∀ ⦃s a s'⦄, I s → C s a → S.step s a = some s' → D s a)
    (h₀ : I s) (h : S.Meets C s labels) : S.Meets D s labels := by
  induction labels generalizing s with
  | nil => trivial
  | cons a labels ih =>
      obtain ⟨hC, h⟩ := h
      cases hstep : S.step s a with
      | none =>
          refine ⟨by simp [hstep], ?_⟩
          rw [next_of_disabled hstep] at h ⊢
          exact ih h₀ h
      | some s' =>
          have hCs := hC (by simp [hstep])
          refine ⟨fun _ => hD h₀ hCs hstep, ?_⟩
          rw [next_of_step hstep] at h ⊢
          exact ih (hI h₀ hCs hstep) h

/-- Conditions that agree under an invariant hold of the same runs. -/
theorem meets_congr {D : σ → α → Prop} (hI : S.Preserves (fun _ _ => True) I)
    (hCD : ∀ s a, I s → (C s a ↔ D s a)) (h₀ : I s) (labels : List α) :
    S.Meets C s labels ↔ S.Meets D s labels := by
  constructor
  · refine Meets.along (fun s a s' hs _ => hI hs trivial) (fun s a s' hs hC _ => ?_) h₀
    exact (hCD s a hs).1 hC
  · refine Meets.along (fun s a s' hs _ => hI hs trivial) (fun s a s' hs hD _ => ?_) h₀
    exact (hCD s a hs).2 hD

theorem Meets.last {labels : List α} (h : S.Meets C s (labels ++ [a]))
    (ha : (S.step (S.run s labels) a).isSome) : C (S.run s labels) a := by
  induction labels generalizing s with
  | nil => exact h.1 ha
  | cons b labels ih => exact ih h.2 ha

theorem Meets.and {D : σ → α → Prop} {labels : List α}
    (h : S.Meets C s labels) (h' : S.Meets D s labels) :
    S.Meets (fun s a => C s a ∧ D s a) s labels := by
  induction labels generalizing s with
  | nil => trivial
  | cons a labels ih =>
      exact ⟨fun henabled => ⟨h.1 henabled, h'.1 henabled⟩, ih h.2 h'.2⟩

theorem Holds.head {labels : List α} (h : S.Holds P s labels) : P s := by
  cases labels with
  | nil => exact h
  | cons a labels => exact h.1

theorem Holds.last {labels : List α} (h : S.Holds P s labels) :
    P (S.run s labels) := by
  induction labels generalizing s with
  | nil => exact h
  | cons a labels ih => exact ih h.2

/-- What holds in the end and did not hold at first was brought about. -/
theorem occurs_of_last {D : σ → α → Prop} {labels : List α} (h₀ : ¬ P s)
    (hD : ∀ ⦃s a s'⦄, S.step s a = some s' → ¬ P s → P s' → D s a)
    (h : P (S.run s labels)) : S.Occurs D s labels := by
  induction labels generalizing s with
  | nil => exact (h₀ h).elim
  | cons a labels ih =>
      cases hstep : S.step s a with
      | none =>
          rw [run_cons, next_of_disabled hstep] at h
          refine .inr ?_
          rw [next_of_disabled hstep]
          exact ih h₀ h
      | some s' =>
          rw [run_cons, next_of_step hstep] at h
          by_cases hs' : P s'
          · exact .inl ⟨by simp [hstep], hD hstep h₀ hs'⟩
          · refine .inr ?_
            rw [next_of_step hstep]
            exact ih hs' h

/-- What a step brings about for good holds in the end. -/
theorem Occurs.last {D : σ → α → Prop} {labels : List α}
    (h : S.Occurs D s labels)
    (hD : ∀ ⦃s a s'⦄, S.step s a = some s' → D s a → P s')
    (hstays : S.Preserves (fun _ _ => True) P) : P (S.run s labels) := by
  induction labels generalizing s with
  | nil => exact h.elim
  | cons a labels ih =>
      rcases h with ⟨henabled, ha⟩ | h
      · obtain ⟨s', hstep⟩ := Option.isSome_iff_exists.1 henabled
        rw [run_cons, next_of_step hstep]
        exact hstays.run (hD hstep ha) labels
      · exact ih h

/-- What a step that breaks `P` leaves behind for good is there at the end. -/
theorem last_of_not_holds {R : σ → Prop} {labels : List α}
    (hbreak : ∀ s, ¬ P s → R s)
    (hstays : S.Preserves (fun _ _ => True) R)
    (h : ¬ S.Holds P s labels) : R (S.run s labels) := by
  induction labels generalizing s with
  | nil => exact hbreak s h
  | cons a labels ih =>
      by_cases hs : P s
      · exact ih fun hrest => h ⟨hs, hrest⟩
      · exact hstays.run (hbreak s hs) (a :: labels)

/-- A run whose last state satisfies `P`, which cannot be regained, satisfies it
after every step. -/
theorem meets_of_last {labels : List α}
    (hstays : S.Preserves (fun _ _ => True) fun s => ¬ P s)
    (h : P (S.run s labels)) : S.Meets (fun s a => P (S.next s a)) s labels := by
  induction labels generalizing s with
  | nil => trivial
  | cons a labels ih =>
      refine ⟨fun _ => Classical.byContradiction fun hnext => ?_, ih h⟩
      exact hstays.run hnext labels h

/-- A run ends in `P`, which cannot be regained, exactly when it starts there and all its
steps meet `C`. -/
theorem last_iff_meets {A : σ → α → Prop} {labels : List α} (hI : S.Preserves A I)
    (hiff : ∀ ⦃s a s'⦄, I s → A s a → S.step s a = some s' → (P s' ↔ P s ∧ C s a))
    (h₀ : I s) (hA : S.Meets A s labels) :
    P (S.run s labels) ↔ P s ∧ S.Meets C s labels := by
  induction labels generalizing s with
  | nil => exact ⟨fun h => ⟨h, trivial⟩, And.left⟩
  | cons a labels ih =>
      obtain ⟨hAs, hA⟩ := hA
      cases hstep : S.step s a with
      | none =>
          rw [next_of_disabled hstep] at hA
          rw [run_cons, next_of_disabled hstep, ih h₀ hA]
          simp [Meets, hstep, next_of_disabled hstep]
      | some s' =>
          have hAs := hAs (by simp [hstep])
          rw [next_of_step hstep] at hA
          rw [run_cons, next_of_step hstep, ih (hI h₀ hAs hstep) hA, hiff h₀ hAs hstep]
          simp [Meets, hstep, next_of_step hstep, and_assoc]

/-- What grows by one at the steps in `D` and only there counts them. -/
theorem Meets.count_add {D : σ → α → Prop} [∀ s a, Decidable (D s a)] {f : σ → Nat}
    {labels : List α} (hI : S.Preserves C I)
    (hf : ∀ ⦃s a s'⦄, I s → C s a → S.step s a = some s' →
      f s' = f s + if D s a then 1 else 0)
    (h₀ : I s) (h : S.Meets C s labels) :
    f (S.run s labels) = f s + S.count D s labels := by
  induction labels generalizing s with
  | nil => rfl
  | cons a labels ih =>
      obtain ⟨hC, h⟩ := h
      cases hstep : S.step s a with
      | none =>
          rw [next_of_disabled hstep] at h
          rw [run_cons, next_of_disabled hstep, ih h₀ h]
          simp [count, hstep, next_of_disabled hstep]
      | some s' =>
          have hC := hC (by simp [hstep])
          rw [next_of_step hstep] at h
          rw [run_cons, next_of_step hstep, ih (hI h₀ hC hstep) h, hf h₀ hC hstep]
          simp [count, hstep, next_of_step hstep, Nat.add_assoc]

/--
The exact condition on runs.  If steps that meet `C` keep the invariant `I`
that implies `P`, and a step that breaks `C` destroys `P` on the spot, then a
run keeps `P` throughout exactly when all its steps meet `C`.
-/
theorem holds_iff_meets (hI : S.Preserves C I) (hP : ∀ s, I s → P s)
    (hbad : ∀ ⦃s a s'⦄, I s → ¬ C s a → S.step s a = some s' → ¬ P s')
    (h₀ : I s₀) (labels : List α) :
    S.Holds P s₀ labels ↔ S.Meets C s₀ labels := by
  induction labels generalizing s₀ with
  | nil => exact ⟨fun _ => trivial, fun _ => hP _ h₀⟩
  | cons a labels ih =>
      simp only [Holds, Meets, hP _ h₀, true_and]
      cases hstep : S.step s₀ a with
      | none =>
          rw [next_of_disabled hstep]
          simpa using ih h₀
      | some s' =>
          rw [next_of_step hstep]
          by_cases hC : C s₀ a
          · simpa [hC] using ih (hI h₀ hC hstep)
          · have hnot : ¬ S.Holds P s' labels := fun h =>
              hbad h₀ hC hstep h.head
            simp [hC, hnot]

/-- The same from one lemma on steps: a step keeps `P` exactly if it meets `C`, and the
rest of the invariant in any case. -/
theorem holds_iff_meets_of_iff (hP : ∀ s, I s → P s)
    (hI : ∀ ⦃s a s'⦄, I s → S.step s a = some s' → P s' → I s')
    (hiff : ∀ ⦃s a s'⦄, I s → S.step s a = some s' → (P s' ↔ C s a))
    (h₀ : I s₀) (labels : List α) : S.Holds P s₀ labels ↔ S.Meets C s₀ labels := by
  refine holds_iff_meets (fun s a s' h hC hstep => ?_) hP (fun s a s' h hC hstep hP' => ?_)
    h₀ labels
  · exact hI h hstep ((hiff h hstep).2 hC)
  · exact hC ((hiff h hstep).1 hP')

end System

end MeetServer.Foundation
