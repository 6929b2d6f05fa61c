import Mathlib.Data.Option.Basic
import Mathlib.Logic.Function.Basic

/-!
# Keys that expire

A clock with the time of each key's last refresh.  A key runs out when its
lifetime has passed since.  `nested_tick_iff` says when keys that depend on other
keys do not outlive them.
-/

namespace MeetServer.Foundation

variable {K : Type*}

/-- A key without a refresh does not run out. -/
structure Clock (K : Type*) where
  now : Nat
  refreshed : K → Option Nat

/-- No key is there without its parent. -/
def Nested (parent : K → Option K) (has : K → Prop) : Prop :=
  ∀ k p, parent k = some p → has k → has p

namespace Clock

variable (c : Clock K) (ttl : Nat)

def elapse (n : Nat) : Clock K := { c with now := c.now + n }

def runsOut (k : K) : Bool := (c.refreshed k).any fun t => t + ttl ≤ c.now

/-- None of the keys has run out. -/
def Current (has : K → Prop) : Prop := ∀ k, has k → c.runsOut ttl k = false

section Refresh

variable [DecidableEq K]

def refresh (k : K) : Clock K := { c with refreshed := Function.update c.refreshed k (some c.now) }

def persist (k : K) : Clock K := { c with refreshed := Function.update c.refreshed k none }

theorem refreshed_refresh (k k' : K) :
    (c.refresh k).refreshed k' = if k' = k then some c.now else c.refreshed k' := by
  simp only [refresh, Function.update_apply]

theorem refreshed_persist (k k' : K) :
    (c.persist k).refreshed k' = if k' = k then none else c.refreshed k' := by
  simp only [persist, Function.update_apply]

end Refresh

variable {c ttl} {has : K → Prop} {k : K}

theorem runsOut_iff : c.runsOut ttl k = true ↔ ∃ t, c.refreshed k = some t ∧ t + ttl ≤ c.now := by
  simp [runsOut, Option.any_eq_true]

theorem runsOut_elapse_iff {n : Nat} : (c.elapse n).runsOut ttl k = true ↔
    ∃ t, c.refreshed k = some t ∧ t + ttl ≤ c.now + n :=
  runsOut_iff

theorem runsOut_elapse {n : Nat} (h : c.runsOut ttl k = true) :
    (c.elapse n).runsOut ttl k = true := by
  obtain ⟨t, ht, hle⟩ := runsOut_iff.1 h
  exact runsOut_elapse_iff.2 ⟨t, ht, by omega⟩

theorem Current.lt (h : c.Current ttl has) (hk : has k) {t : Nat}
    (ht : c.refreshed k = some t) : c.now < t + ttl := by
  by_contra hle
  have hout : c.runsOut ttl k = true := runsOut_iff.2 ⟨t, ht, by omega⟩
  rw [h k hk] at hout
  cases hout

/-- What is left after a tick is nested exactly if the keys that depend on a key that
runs out were not refreshed after it. -/
theorem nested_tick_iff {parent : K → Option K} (hcurrent : c.Current ttl has)
    (hnested : Nested parent has) :
    Nested parent (fun k => has k ∧ (c.elapse 1).runsOut ttl k = false) ↔
      ∀ k p t, parent k = some p → has k → c.refreshed p = some t → t + ttl ≤ c.now + 1 →
        ∃ t' ≤ t, c.refreshed k = some t' := by
  constructor
  · intro hleft k p t hparent hk ht hle
    have hp : (c.elapse 1).runsOut ttl p = true := runsOut_elapse_iff.2 ⟨t, ht, hle⟩
    cases hout : (c.elapse 1).runsOut ttl k with
    | false =>
        have hstays := (hleft k p hparent ⟨hk, hout⟩).2
        rw [hp] at hstays
        cases hstays
    | true =>
        obtain ⟨t', ht', hle'⟩ := runsOut_elapse_iff.1 hout
        have hlt := hcurrent.lt (hnested k p hparent hk) ht
        exact ⟨t', by omega, ht'⟩
  · rintro horder k p hparent ⟨hk, hout⟩
    refine ⟨hnested k p hparent hk, Bool.eq_false_iff.2 fun hp => ?_⟩
    obtain ⟨t, ht, hle⟩ := runsOut_elapse_iff.1 hp
    obtain ⟨t', hle', ht'⟩ := horder k p t hparent hk ht hle
    have hk' : (c.elapse 1).runsOut ttl k = true := runsOut_elapse_iff.2 ⟨t', ht', by omega⟩
    rw [hk'] at hout
    cases hout

end Clock

end MeetServer.Foundation
