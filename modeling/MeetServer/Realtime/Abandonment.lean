import MeetServer.Realtime.Lifetimes

/-!
# Rooms that everybody abandons

Instances crash, and clients go away without `leave`.  What is left of a room then
runs out: HSET creates a hash that does not expire, but the command after it is the
EXPIRE, so only a call that is cut off between the two leaves a key behind.
-/

namespace MeetServer.Realtime

open MeetServer.Foundation

variable {ι κ : Type} {p p' : Activities ι κ}

/-- A key that is there and will not run out is one whose EXPIRE is still to come. -/
structure Expiring (p : Activities ι κ) : Prop where
  pending : ∀ k, p.has k → p.world.clock.refreshed k = none →
    k ≠ .room ∧ ∃ i, (p.proc i).command = .expire k
  past : ∀ k t, p.world.clock.refreshed k = some t → t ≤ p.world.clock.now
  current : p.world.clock.Current roomTtl p.has
  forward : ∀ i, (p.proc i).rollsBack = false

/-- A key without a refresh was there without one, or HSET has just created it. -/
theorem Command.of_refreshed_eq_none {Ref : Type} {before after : RoomKeys Ref} {c : Clock Key}
    {command : Command} {k : Key} (hk : after.has k = true)
    (hnone : (command.clock before after c).refreshed k = none) :
    command = .hset k ∨ c.refreshed k = none ∧ command ≠ .expire k := by
  cases command with
  | expire k' =>
      simp only [clock] at hnone
      split at hnone
      · rw [Clock.refreshed_refresh] at hnone
        split at hnone
        · cases hnone
        · next hne => exact .inr ⟨hnone, fun heq => hne (by cases heq; rfl)⟩
      · next hgone =>
        refine .inr ⟨hnone, fun heq => hgone ?_⟩
        cases heq
        exact hk
  | hset k' =>
      simp only [clock] at hnone
      split at hnone
      · exact .inr ⟨hnone, by simp⟩
      · rw [Clock.refreshed_persist] at hnone
        split at hnone
        · next heq => exact .inl (by rw [heq])
        · exact .inr ⟨hnone, by simp⟩
  | other => exact .inr ⟨hnone, by simp⟩

theorem Expiring.tick (h : Expiring p) :
    Expiring { p with world := p.world.elapse 1 } := by
  have hkept k (hk : Activities.has { p with world := p.world.elapse 1 } k) :
      p.has k ∧ (p.world.clock.elapse 1).runsOut roomTtl k = false := by
    simpa only [Activities.has, Timed.elapse, World.redis_setRedis, RoomKeys.has_drop,
      Bool.and_eq_true, Bool.not_eq_true'] using hk
  exact ⟨fun k hk => h.pending k (hkept k hk).1,
    fun k t ht => (h.past k t ht).trans (Nat.le_succ _), fun k hk => (hkept k hk).2, h.forward⟩

theorem Expiring.issued (serviceUrls : List Url) (sfu : Url → Sfu.State (ι ⊕ κ))
    (requests : ι → ActivityRequest ι κ) : Expiring (.issued serviceUrls sfu requests) := by
  have hkept := Kept.issued serviceUrls sfu requests
  refine ⟨fun k hk => ?_, by simp [Activities.issued], hkept.current, hkept.forward⟩
  cases k <;> simp [Activities.has, Activities.issued, World.fresh, RoomKeys.has, RoomKeys.hlen,
    Dict.size] at hk

variable [DecidableEq ι] [DecidableEq κ] {roomId : RoomId} {i : ι} {event : Event}

/-- EXPIRE comes right after HSET. -/
theorem Activity.command_of_hset {w w' : World ι κ} {call call' : Activity ι κ} {k : Key}
    (hok : event.ok = true) (h : call.step roomId i event w = some (w', call'))
    (hcommand : call.command = .hset k) : call'.command = .expire k ∧ k ≠ .room := by
  cases call with
  | join instanceId peer point =>
      obtain ⟨⟨w', point'⟩, hstep, hr⟩ := Option.map_eq_some_iff.1 h
      cases hr
      have hs := Join.step_cases hstep
      generalize event.ok = ok at hs hok
      cases hs with
      | room hroom => cases hroom <;> cases hcommand
      | added =>
          cases hcommand
          exact ⟨rfl, by simp⟩
      | threw => cases hok
      | _ => cases hcommand
  | createWebRtcTransport => cases hcommand
  | produce peerId transportId kind point =>
      obtain ⟨⟨w', point'⟩, hstep, hr⟩ := Option.map_eq_some_iff.1 h
      cases hr
      cases point with
      | hset producer =>
          cases hcommand
          cases event with
          | settle ok =>
              cases hok
              cases hstep
              exact ⟨rfl, by simp⟩
          | _ => cases hstep
      | _ => cases hcommand

/-- A call's own EXPIRE is done or was not its command. -/
theorem Expiring.step (h : Expiring p) {a : Option (ι × Event)}
    (hstep : (lifetimes roomId).step p a = some p') : Expiring p' := by
  cases a with
  | none =>
      cases hstep
      exact h.tick
  | some a =>
      obtain ⟨i, event⟩ := a
      obtain ⟨s', call', hcall, rfl⟩ := Pool.step_eq_some.1 hstep
      simp only [Activity.timedStep, Option.ite_none_right_eq_some] at hcall
      obtain ⟨hok, hcall⟩ := hcall
      obtain ⟨⟨w', call'⟩, hworld, hr⟩ := Option.map_eq_some_iff.1 hcall
      cases hr
      have hwrites := Activity.writes_step hok (h.forward i) hworld
      refine ⟨fun k hk hnone => ?_, fun k t ht => ?_,
        Command.current h.current hwrites.new, fun j => ?_⟩
      · by_cases hhset : (p.proc i).command = .hset k
        · obtain ⟨hexpire, hroom⟩ := Activity.command_of_hset hok hworld hhset
          exact ⟨hroom, i, by rw [Pool.set_proc, if_pos rfl, hexpire]⟩
        · obtain ⟨hold, hother⟩ := (Command.of_refreshed_eq_none hk hnone).resolve_left hhset
          have hbefore : p.has k := by
            rcases hwrites.new k hk with hbefore | hwritten | ⟨hset, rfl⟩
            · exact hbefore
            · exact (hhset hwritten).elim
            · exact (hother hset).elim
          obtain ⟨hroom, j, hj⟩ := h.pending k hbefore hold
          have hne : j ≠ i := fun heq => hother (heq ▸ hj)
          exact ⟨hroom, j, by rw [Pool.set_proc, if_neg hne, hj]⟩
      · rcases Command.refreshed_clock ht with rfl | ⟨hold, -⟩
        · exact Command.now_clock.ge
        · exact (h.past k t hold).trans Command.now_clock.ge
      · rw [Pool.set_proc]
        split
        · exact hwrites.forward
        · exact h.forward j

theorem Expiring.has_run_ticks (h : Expiring p) {n : Nat} (hn : roomTtl ≤ n) (k : Key) :
    ((lifetimes roomId).run p (List.replicate n none)).has k ↔
      p.has k ∧ p.world.clock.refreshed k = none := by
  obtain ⟨n, rfl⟩ : ∃ n', n = n' + 1 := Nat.exists_eq_succ_of_ne_zero (by
    have hpositive : 0 < roomTtl := by decide
    omega)
  rw [MeetServer.Realtime.has_run_ticks]
  refine and_congr_right fun _ => ?_
  cases ht : p.world.clock.refreshed k with
  | none => simp [Clock.runsOut, Clock.elapse, ht]
  | some t =>
      have hle := h.past k t ht
      have hout : (p.world.clock.elapse (n + 1)).runsOut roomTtl k = true :=
        Clock.runsOut_elapse_iff.2 ⟨t, ht, by omega⟩
      simp [hout]

/-- A day after the last step of any call the record is gone, and what is left are the
hashes that some call has created without having got to their EXPIRE. -/
theorem abandoned_expires (roomId : RoomId) (serviceUrls : List Url)
    (sfu : Url → Sfu.State (ι ⊕ κ)) (requests : ι → ActivityRequest ι κ)
    (schedule : List (Option (ι × Event))) {n : Nat} (hn : roomTtl ≤ n) :
    let p := (lifetimes roomId).run (.issued serviceUrls sfu requests) schedule
    let later := (lifetimes roomId).run p (List.replicate n none)
    ∀ k, (later.has k ↔ p.has k ∧ p.world.clock.refreshed k = none) ∧
      (later.has k → k ≠ .room ∧ ∃ i, (p.proc i).command = .expire k) := by
  intro p later k
  have hexpiring : Expiring p := System.Preserves.run (fun _ _ _ h _ hstep => h.step hstep)
    (Expiring.issued serviceUrls sfu requests) schedule
  have hlater : later.has k ↔ p.has k ∧ p.world.clock.refreshed k = none :=
    hexpiring.has_run_ticks hn k
  exact ⟨hlater, fun hk => hexpiring.pending k (hlater.1 hk).1 (hlater.1 hk).2⟩

/-- An instance crashes between HSET and EXPIRE: a day later the member is still there. -/
theorem abandoned_expires_cutOff :
    let p := (lifetimes "r").run oneJoin (lateRefresh.take 8)
    let later := (lifetimes "r").run p (List.replicate roomTtl none)
    ¬ later.has .room ∧ later.has .peers := by
  have hlater := abandoned_expires "r" ["a"] (fun _ => .spawned [0])
    (fun _ : Unit => .join 0 { id := "p", displayName := "" })
    (lateRefresh.take 8) (κ := Empty) le_rfl
  exact ⟨fun hroom => ((hlater .room).2 hroom).1 rfl, (hlater .peers).1.2 (by decide)⟩

end MeetServer.Realtime
