import Mathlib.Data.DFinsupp.WellFounded
import Mathlib.Data.Finite.Prod
import MeetServer.Recording.Progress

/-!
# The sfu process comes to rest

Every step of a call, of a tap or of a closing lowers the rank of what goes on,
and nothing that happens from outside raises a rank.  With finitely many calls a
schedule that always serves somebody settles all of them.
-/

namespace MeetServer.Recording

open MeetServer.Foundation

variable {Ref δ : Type}

/-- The ranks of the calls and of the taps. -/
def Process.rank (p : Process Ref δ) : (Ref → Nat) × (TapId Ref → Nat) :=
  (fun i => (p.proc i).rank, p.world.rank)

/-- Only the calls and the taps that are named change what has settled. -/
theorem Process.Settled.congr {p : Process Ref δ} {s' : State Ref δ} (h : p.Settled)
    (htaps : ∀ t tap', s'.tap t = some tap' → ∃ tap, p.world.tap t = some tap ∧
      tap'.point = tap.point ∧ tap'.closing = tap.closing) :
    Process.Settled { p with world := s' } := by
  refine ⟨h.call, fun t tap' htap' => ?_⟩
  obtain ⟨tap, htap, hpoint, hclosing⟩ := htaps t tap' htap'
  rw [hpoint, hclosing]
  exact h.tap t tap htap

variable [DecidableEq Ref]

namespace Process.InHand

variable {env : Env δ} {p p' : Process Ref δ} {a : Happening Ref} {s' : State Ref δ}

omit [DecidableEq Ref] in
theorem rank_world_le (h : p.InHand) {A : Prop} (hstops : p.world.Stops A s') :
    Process.rank { p with world := s' } ≤ p.rank :=
  Prod.mk_le_mk.2 ⟨le_rfl, (h.taps.adds_stops (Q := fun _ => False) hstops).rank⟩

omit [DecidableEq Ref] in
theorem rank_world_lt {t : TapId Ref} (hle : s'.rank ≤ p.world.rank)
    (hlt : s'.rank t < p.world.rank t) : Process.rank { p with world := s' } < p.rank :=
  Prod.mk_lt_mk.2 (.inr ⟨le_rfl, Pi.lt_def.2 ⟨hle, t, hlt⟩⟩)

theorem rank_step (h : p.InHand) (hstep : (process env).step p a = some p') :
    p'.rank ≤ p.rank ∧ (a.own → p'.rank < p.rank) := by
  cases a with
  | call i ok =>
      obtain ⟨⟨s', c'⟩, hcall, rfl⟩ := Option.map_eq_some_iff.1 hstep
      have hleaves := h.leaves hcall
      have hlt : Process.rank (p.set i s' c') < p.rank :=
        Prod.mk_lt_mk.2 (.inl ⟨Pool.rank_set_lt hleaves.rank, hleaves.enters.adds.rank⟩)
      exact ⟨hlt.le, fun _ => hlt⟩
  | tap t ok =>
      obtain ⟨s', hs, rfl⟩ := Option.map_eq_some_iff.1 hstep
      obtain ⟨tap, htap, htapStep⟩ := State.tapStep_cases hs
      have hlt := rank_world_lt (h.taps.tapStep (Q := fun _ => False) htap htapStep).2.rank
        (h.taps.rank_tapStep htap htapStep)
      exact ⟨hlt.le, fun _ => hlt⟩
  | close t ok =>
      obtain ⟨s', hs, rfl⟩ := Option.map_eq_some_iff.1 hstep
      have hlt := rank_world_lt (h.taps.closeStep (Q := fun _ => False) hs).2.rank
        (State.InHand.rank_closeStep hs)
      exact ⟨hlt.le, fun _ => hlt⟩
  | message t msg =>
      obtain ⟨s', hs, rfl⟩ := Option.map_eq_some_iff.1 hstep
      have hadds := (h.taps.message (Q := fun _ => False) hs).2
      exact ⟨Prod.mk_le_mk.2 ⟨le_rfl, hadds.rank⟩, False.elim⟩
  | written t k =>
      obtain ⟨s', hs, rfl⟩ := Option.map_eq_some_iff.1 hstep
      have hadds := (h.taps.written (Q := fun _ => False) hs).2
      exact ⟨Prod.mk_le_mk.2 ⟨le_rfl, hadds.rank⟩, False.elim⟩
  | producerclose t =>
      obtain ⟨s', hs, rfl⟩ := Option.map_eq_some_iff.1 hstep
      exact ⟨h.rank_world_le (A := True) (State.producerclose_stops hs), False.elim⟩
  | socketError t =>
      obtain ⟨s', hs, rfl⟩ := Option.map_eq_some_iff.1 hstep
      exact ⟨h.rank_world_le (A := True) (State.socketError_stops hs), False.elim⟩

omit [DecidableEq Ref] in
/-- A stop that lowers no rank begins no closing. -/
theorem settled_of_stops (h : p.InHand) (hsettled : p.Settled) {A : Prop}
    (hstops : p.world.Stops A s')
    (hrank : ¬ Process.rank { p with world := s' } < p.rank) :
    Process.Settled { p with world := s' } := by
  refine hsettled.congr fun t tap' htap' => ?_
  obtain ⟨tap, htap, hstop⟩ := hstops.to_some htap'
  refine ⟨tap, htap, hstop.point, ?_⟩
  refine ((h.taps.sound t tap htap).rank_stops hstop).resolve_right fun hlt => hrank ?_
  refine rank_world_lt (h.taps.adds_stops (Q := fun _ => False) hstops).rank (t := t) ?_
  rwa [State.rank_of_tap htap, State.rank_of_tap htap']

theorem settled_step (h : p.InHand) (hsettled : p.Settled)
    (hstep : (process env).step p a = some p') (hrank : ¬ p'.rank < p.rank) : p'.Settled := by
  cases a with
  | call | tap | close => exact (hrank ((h.rank_step hstep).2 trivial)).elim
  | message t msg =>
      obtain ⟨s', hs, rfl⟩ := Option.map_eq_some_iff.1 hstep
      obtain ⟨tap, session, handle, htap, -, -, rfl⟩ := State.message_cases hs
      refine hsettled.congr fun t' tap' htap' => ?_
      by_cases heq : t' = t
      · subst heq
        obtain rfl := Option.some.inj ((State.tap_updateTap htap).symm.trans htap')
        exact ⟨tap, htap, rfl, rfl⟩
      · rw [State.tap_updateTap_of_ne _ _ heq] at htap'
        exact ⟨tap', htap', rfl, rfl⟩
  | written t k =>
      obtain ⟨s', hs, rfl⟩ := Option.map_eq_some_iff.1 hstep
      obtain ⟨tap, handle, chunk, htap, -, -, rfl⟩ := State.written_cases hs
      refine hsettled.congr fun t' tap' htap' => ?_
      by_cases heq : t' = t
      · subst heq
        obtain rfl := Option.some.inj
          ((State.tap_updateTap (s := { p.world with disk := _ }) htap).symm.trans htap')
        exact ⟨tap, htap, rfl, rfl⟩
      · rw [State.tap_updateTap_of_ne _ _ heq] at htap'
        exact ⟨tap', htap', rfl, rfl⟩
  | producerclose t =>
      obtain ⟨s', hs, rfl⟩ := Option.map_eq_some_iff.1 hstep
      exact h.settled_of_stops (A := True) hsettled (State.producerclose_stops hs) hrank
  | socketError t =>
      obtain ⟨s', hs, rfl⟩ := Option.map_eq_some_iff.1 hstep
      exact h.settled_of_stops (A := True) hsettled (State.socketError_stops hs) hrank

end Process.InHand

/-- Whatever is asked of the sfu and whatever fails, every call, every tap and every closing
comes to its end, as long as something that can go on is not put off for ever. -/
theorem process_settles [Finite Ref] (env : Env δ) (workers : List Sfu.Worker)
    (requests : Ref → Request Ref) (schedule : ℕ → Happening Ref)
    (hserves : (process env).Serves Happening.own
      (Process.start (.spawned workers) requests) schedule) :
    (process env).Eventually Process.Settled (Process.start (.spawned workers) requests)
      schedule :=
  hserves.eventually Process.rank (Process.InHand.preserves env)
    (fun _ _ _ h hstep => h.rank_step hstep) (fun _ h => h.settled_or_enabled)
    (fun _ _ _ h hsettled hstep hrank => h.settled_step hsettled hstep hrank)
    (.start workers requests)

namespace Settling

/-- Two requests for one room, made one after the other. -/
def schedule (n : ℕ) : Happening Bool := .call (n = 1 ∨ n = 3) true

def start : Process Bool Unit :=
  .start (.spawned [0]) fun _ => .mediaRooms (.getOrCreateRoom "standup")

theorem settled : ((process steadyDecoder).trace start schedule 4).Settled :=
  ⟨by decide, fun _ _ => nofun⟩

theorem serves : (process steadyDecoder).Serves Happening.own start schedule := by
  have hinHand : ((process steadyDecoder).trace start schedule 4).InHand :=
    (Process.InHand.preserves steadyDecoder).trace (.start _ _) 4
  refine System.serves_of_not_enabled (n := 4) fun m hm => ?_
  have hrest : (process steadyDecoder).trace start schedule m =
      (process steadyDecoder).trace start schedule 4 := by
    refine System.trace_of_disabled (fun k hk => ?_) hm
    by_contra hstep
    exact hinHand.settled_iff.1 settled
      ⟨schedule k, trivial, Option.isSome_iff_ne_none.2 hstep⟩
  rw [hrest]
  exact hinHand.settled_iff.1 settled

end Settling

theorem process_settles_twice :
    (process steadyDecoder).Eventually Process.Settled Settling.start Settling.schedule :=
  process_settles steadyDecoder [0] _ Settling.schedule Settling.serves

end MeetServer.Recording
