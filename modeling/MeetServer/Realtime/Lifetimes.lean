import MeetServer.Foundation.Expiry
import MeetServer.Realtime.Session

/-!
# The lifetimes of a room's keys

`join` refreshes `room:r` and `room:r:peers`, each by an EXPIRE of its own, and
`produce` refreshes `peer:r:p:producers` only.  A tick is a millisecond; the calls
take their steps between any two ticks, and Redis drops a key when
`ROOM_TTL_SECONDS` have passed since its last EXPIRE.
-/

namespace MeetServer.Realtime

open MeetServer.Foundation

/-- The keys of a room that expire. -/
inductive Key where
  | room
  | peers
  | producers (peerId : PeerId)
  deriving DecidableEq, Repr

/-- The key without which a key is an orphan. -/
def Key.parent : Key → Option Key
  | .room => none
  | .peers => some .room
  | .producers _ => some .peers

def roomTtlSeconds : Nat := 60 * 60 * 24

def roomTtl : Nat := 1000 * roomTtlSeconds

namespace RoomKeys

variable {Ref : Type} (keys : RoomKeys Ref)

def has : Key → Bool
  | .room => keys.room.isSome
  | .peers => keys.hlen ≠ 0
  | .producers peerId => Dict.size (keys.producers peerId) ≠ 0

def drop (gone : Key → Bool) : RoomKeys Ref where
  room := if gone .room then none else keys.room
  peers := if gone .peers then ∅ else keys.peers
  producers peerId := if gone (.producers peerId) then ∅ else keys.producers peerId
  chat := keys.chat

theorem size_insert_ne_zero {K V : Type} [DecidableEq K] (d : Dict K V) (k : K) (v : V) :
    decide (Dict.size (d.insert k v) ≠ 0) = true := by
  rw [decide_eq_true_eq, Ne, Dict.size_eq_zero_iff]
  exact fun h => h k (by simp)

@[simp] theorem has_drop (gone : Key → Bool) (k : Key) :
    (keys.drop gone).has k = (keys.has k && !gone k) := by
  cases k with
  | room => cases h : gone .room <;> simp [has, drop, h]
  | peers => cases h : gone .peers <;> simp [has, drop, hlen, Dict.size, h]
  | producers peerId => cases h : gone (.producers peerId) <;> simp [has, drop, Dict.size, h]

end RoomKeys

/-! ## Commands and time -/

/-- What a command means for the lifetimes; `SET key value EX` is an EXPIRE too. -/
inductive Command where
  | expire (k : Key)
  | hset (k : Key)
  | other
  deriving DecidableEq, Repr

/-- EXPIRE needs the key, and a hash that HSET creates does not expire. -/
def Command.clock {Ref : Type} (before after : RoomKeys Ref) (c : Clock Key) :
    Command → Clock Key
  | .expire k => if after.has k then c.refresh k else c
  | .hset k => if before.has k then c else c.persist k
  | .other => c

variable {ι κ : Type}

structure Timed (ι κ : Type) where
  world : World ι κ
  clock : Clock Key

def Timed.elapse (s : Timed ι κ) (n : Nat) : Timed ι κ where
  world := s.world.setRedis (s.world.redis.drop ((s.clock.elapse n).runsOut roomTtl))
  clock := s.clock.elapse n

/-! ## The calls -/

inductive Activity (ι κ : Type) where
  | join (instanceId : Instance) (peer : Peer) (point : Join ι κ)
  | createWebRtcTransport (peerId : PeerId) (direction : TransportDirection)
      (point : CreateWebRtcTransport ι κ)
  | produce (peerId : PeerId) (transportId : ι ⊕ κ) (kind : MediaKind) (point : Produce ι κ)

inductive ActivityRequest (ι κ : Type) where
  | join (instanceId : Instance) (peer : Peer)
  | createWebRtcTransport (peerId : PeerId) (direction : TransportDirection)
  | produce (peerId : PeerId) (transportId : ι ⊕ κ) (kind : MediaKind)

def ActivityRequest.call : ActivityRequest ι κ → Activity ι κ
  | .join instanceId peer => .join instanceId peer (.getOrCreateRoom .getRoom)
  | .createWebRtcTransport peerId direction => .createWebRtcTransport peerId direction .getPeer
  | .produce peerId transportId kind => .produce peerId transportId kind .getPeer

namespace Activity

def command : Activity ι κ → Command
  | .join _ _ (.getOrCreateRoom (.expire _)) | .join _ _ (.getOrCreateRoom (.set _)) =>
      .expire .room
  | .join _ _ .hset => .hset .peers
  | .join _ _ .expire => .expire .peers
  | .produce peerId _ _ (.hset _) => .hset (.producers peerId)
  | .produce peerId _ _ (.expire _) => .expire (.producers peerId)
  | _ => .other

variable [DecidableEq ι] [DecidableEq κ]

def step (roomId : RoomId) (i : ι) (event : Event) (w : World ι κ) :
    Activity ι κ → Option (World ι κ × Activity ι κ)
  | .join instanceId peer point =>
      (point.step i instanceId roomId peer event w).map fun r =>
        (r.1, .join instanceId peer r.2)
  | .createWebRtcTransport peerId direction point =>
      (point.step i roomId peerId direction event w).map fun r =>
        (r.1, .createWebRtcTransport peerId direction r.2)
  | .produce peerId transportId kind point =>
      (point.step i roomId peerId transportId kind event w).map fun r =>
        (r.1, .produce peerId transportId kind r.2)

/-- Nothing fails. -/
def timedStep (roomId : RoomId) (i : ι) (event : Event) (s : Timed ι κ)
    (call : Activity ι κ) : Option (Timed ι κ × Activity ι κ) :=
  if event.ok then
    (call.step roomId i event s.world).map fun r =>
      ({ world := r.1, clock := call.command.clock s.world.redis r.1.redis s.clock }, r.2)
  else none

end Activity

abbrev Activities (ι κ : Type) := Pool ι (Timed ι κ) (Activity ι κ)

/-- The label `none` is a tick. -/
def lifetimes [DecidableEq ι] [DecidableEq κ] (roomId : RoomId) :
    System (Activities ι κ) (Option (ι × Event)) where
  step p
    | none => some { p with world := p.world.elapse 1 }
    | some a => (Pool.system (Activity.timedStep roomId)).step p a

def Activities.issued (serviceUrls : List Url) (sfu : Url → Sfu.State (ι ⊕ κ))
    (requests : ι → ActivityRequest ι κ) : Activities ι κ where
  world := { world := .fresh serviceUrls sfu, clock := { now := 0, refreshed := fun _ => none } }
  proc i := (requests i).call

def Activities.has (p : Activities ι κ) (k : Key) : Prop := p.world.world.redis.has k = true

instance (p : Activities ι κ) (k : Key) : Decidable (p.has k) :=
  inferInstanceAs (Decidable (_ = true))

/-- The peers hash is never there without the record, and no producers hash without the
peers hash. -/
def OneLifetime (p : Activities ι κ) : Prop := Nested Key.parent p.has

/-- When a key's lifetime runs out, the keys that depend on it have not been refreshed
after it, and HSET writes no hash whose parent is gone. -/
def RefreshesTogether (p : Activities ι κ) : Option (ι × Event) → Prop
  | none => ∀ k parent t, k.parent = some parent → p.has k →
      p.world.clock.refreshed parent = some t → t + roomTtl ≤ p.world.clock.now + 1 →
      ∃ t' ≤ t, p.world.clock.refreshed k = some t'
  | some (i, _) => ∀ k parent, (p.proc i).command = .hset k → k.parent = some parent →
      p.has parent

/-! ## What a step does to the keys -/

namespace Activity

/-- `join` is undoing its HSET after a failure. -/
def rollsBack : Activity ι κ → Bool
  | .join _ _ .rollbackHdel | .join _ _ .rollbackDel => true
  | _ => false

/-- No key is deleted, and new keys are written by the command. -/
structure Writes (call call' : Activity ι κ) (keys keys' : RoomKeys (ι ⊕ κ)) : Prop where
  kept : ∀ k, keys.has k = true → keys'.has k = true
  new : ∀ k, keys'.has k = true → keys.has k = true ∨ call.command = .hset k ∨
    call.command = .expire .room ∧ k = .room
  written : ∀ k, call.command = .hset k → keys'.has k = true
  forward : call'.rollsBack = false

theorem Writes.of_eq {call call' : Activity ι κ} {keys keys' : RoomKeys (ι ⊕ κ)}
    (h : keys' = keys) (hcommand : ∀ k, call.command ≠ .hset k)
    (hforward : call'.rollsBack = false) : Writes call call' keys keys' := by
  subst h
  exact ⟨fun _ hk => hk, fun _ hk => .inl hk, fun k hk => (hcommand k hk).elim, hforward⟩

variable [DecidableEq ι] [DecidableEq κ] {roomId : RoomId} {i : ι} {event : Event}
  {w w' : World ι κ} {call call' : Activity ι κ}

omit [DecidableEq ι] [DecidableEq κ] in
theorem rollsBack_nextProducers {instanceId : Instance} {peer : Peer}
    (otherPeers todo : List Peer) (found : List (ExistingProducer (ι ⊕ κ))) :
    (Activity.join instanceId peer (Join.nextProducers otherPeers todo found)).rollsBack =
      false := by
  cases todo <;> rfl

theorem Writes.join_room {instanceId : Instance} {peer : Peer} {ok : Bool}
    {point point' : GetOrCreateRoom ι κ}
    (h : GetOrCreateRoom.Step i instanceId roomId w ok point w' point') :
    Writes (.join instanceId peer (.getOrCreateRoom point))
      (.join instanceId peer (Join.afterGetOrCreateRoom point')) w.redis w'.redis := by
  have hforward : (Activity.join instanceId peer
      (Join.afterGetOrCreateRoom point')).rollsBack = false := by
    cases point' <;> rfl
  have hcommand k : (Activity.join instanceId peer
      (.getOrCreateRoom point)).command ≠ .hset k := by
    cases point <;> nofun
  cases h with
  | recorded =>
      refine ⟨fun k hk => ?_, fun k hk => ?_, fun k hk => (hcommand k hk).elim, hforward⟩
      · cases k <;> first | rfl | exact hk
      · cases k <;> first | exact .inr (.inr ⟨rfl, rfl⟩) | exact .inl hk
  | _ => exact .of_eq rfl hcommand hforward

omit [DecidableEq ι] [DecidableEq κ] in
theorem Writes.hset_peers {instanceId : Instance} {peer : Peer} :
    Writes (.join instanceId peer .hset) (.join instanceId peer .expire) w.redis
      (w.redis.hset peer) := by
  have hhas : (w.redis.hset peer).has .peers = true :=
    RoomKeys.size_insert_ne_zero w.redis.peers peer.id peer
  refine ⟨fun k hk => ?_, fun k hk => ?_, fun k hk => ?_, rfl⟩
  · cases k <;> first | exact hhas | exact hk
  · cases k <;> first | exact .inr (.inl rfl) | exact .inl hk
  · cases hk
    exact hhas

theorem Writes.produce {peerId : PeerId} {transportId : ι ⊕ κ} {kind : MediaKind}
    {point point' : Produce ι κ} (hok : event.ok = true)
    (h : point.step i roomId peerId transportId kind event w = some (w', point')) :
    Writes (.produce peerId transportId kind point) (.produce peerId transportId kind point')
      w.redis w'.redis := by
  have hforward : (Activity.produce peerId transportId kind point').rollsBack = false := rfl
  by_cases hpoint : ∃ producer, point = .hset producer
  · obtain ⟨producer, rfl⟩ := hpoint
    cases event with
    | settle ok =>
        cases hok
        cases h
        have hhas : (w.redis.hsetProducer peerId producer kind).has (.producers peerId) =
            true := by
          simp only [RoomKeys.has, RoomKeys.hsetProducer, Function.update_self]
          exact RoomKeys.size_insert_ne_zero _ producer kind
        have hother k (hk : k ≠ .producers peerId) :
            (w.redis.hsetProducer peerId producer kind).has k = w.redis.has k := by
          cases k with
          | producers q =>
              have hq : q ≠ peerId := fun heq => hk (by rw [heq])
              simp only [RoomKeys.has, RoomKeys.hsetProducer, Function.update_of_ne hq]
          | _ => rfl
        refine ⟨fun k hk => ?_, fun k hk => ?_, fun k hk => ?_, hforward⟩
        · by_cases heq : k = .producers peerId
          · rw [heq]
            exact hhas
          · exact (hother k heq).trans hk
        · by_cases heq : k = .producers peerId
          · rw [heq]
            exact .inr (.inl rfl)
          · exact .inl ((hother k heq).symm.trans hk)
        · cases hk
          exact hhas
    | _ => cases h
  · rcases Produce.redis_of_step h with ⟨hsame, -⟩ | ⟨producer, hp, -⟩
    · refine .of_eq hsame (fun k hk => ?_) hforward
      cases point <;> first | exact hpoint ⟨_, rfl⟩ | cases hk
    · exact (hpoint ⟨producer, hp⟩).elim

theorem writes_step (hok : event.ok = true) (hforward : call.rollsBack = false)
    (h : call.step roomId i event w = some (w', call')) :
    Writes call call' w.redis w'.redis := by
  cases call with
  | join instanceId peer point =>
      obtain ⟨⟨w', point'⟩, hstep, hr⟩ := Option.map_eq_some_iff.1 h
      cases hr
      have hs := Join.step_cases hstep
      generalize event.ok = ok at hs hok
      cases hs with
      | room hroom => exact .join_room hroom
      | added => exact .hset_peers
      | refreshed => exact .of_eq rfl nofun rfl
      | listed => exact .of_eq rfl nofun (rollsBack_nextProducers _ _ _)
      | fetched => exact .of_eq rfl nofun (rollsBack_nextProducers _ _ _)
      | unlisted => cases hok
      | unfetched => cases hok
      | removed => cases hforward
      | cleared => cases hforward
      | threw => cases hok
  | createWebRtcTransport peerId direction point =>
      obtain ⟨⟨w', point'⟩, hstep, hr⟩ := Option.map_eq_some_iff.1 h
      cases hr
      have hs := CreateWebRtcTransport.step_cases hstep
      generalize event.ok = ok at hs
      refine .of_eq ?_ nofun rfl
      cases hs <;> rfl
  | produce peerId transportId kind point =>
      obtain ⟨⟨w', point'⟩, hstep, hr⟩ := Option.map_eq_some_iff.1 h
      cases hr
      exact .produce hok hstep

end Activity

/-! ## Every run -/

/-- The invariant, up to the order of the refreshes: no call rolls back. -/
structure Kept (p : Activities ι κ) : Prop where
  nested : OneLifetime p
  current : p.world.clock.Current roomTtl p.has
  forward : ∀ i, (p.proc i).rollsBack = false

namespace Command

variable {Ref : Type} {before after : RoomKeys Ref} {c : Clock Key} {command : Command}

theorem now_clock : (command.clock before after c).now = c.now := by
  cases command with
  | expire k => simp only [clock]; split <;> rfl
  | hset k => simp only [clock]; split <;> rfl
  | other => rfl

/-- A refresh is of now, or the key was there and has not been touched. -/
theorem refreshed_clock {k : Key} {t : Nat}
    (h : (command.clock before after c).refreshed k = some t) :
    t = c.now ∨ c.refreshed k = some t ∧ (command = .hset k → before.has k = true) ∧
      (command = .expire k → after.has k = false) := by
  cases command with
  | expire k' =>
      simp only [clock] at h
      split at h
      · rw [Clock.refreshed_refresh] at h
        split at h
        · exact .inl (Option.some.inj h).symm
        · next hne => exact .inr ⟨h, nofun, fun heq => (hne (by cases heq; rfl)).elim⟩
      · next hhas =>
        refine .inr ⟨h, nofun, fun heq => ?_⟩
        cases heq
        simpa using hhas
  | hset k' =>
      simp only [clock] at h
      split at h
      · next hhas => exact .inr ⟨h, fun heq => by cases heq; exact hhas, nofun⟩
      · rw [Clock.refreshed_persist] at h
        split at h
        · cases h
        · next hne => exact .inr ⟨h, fun heq => (hne (by cases heq; rfl)).elim, nofun⟩
  | other => exact .inr ⟨h, nofun, nofun⟩

theorem current (h : c.Current roomTtl fun k => before.has k = true)
    (hnew : ∀ k, after.has k = true → before.has k = true ∨ command = .hset k ∨
      command = .expire .room ∧ k = .room) :
    (command.clock before after c).Current roomTtl fun k => after.has k = true := by
  have hpositive : 0 < roomTtl := by decide
  intro k hk
  refine Bool.eq_false_iff.2 fun hout => ?_
  obtain ⟨t, ht, hle⟩ := Clock.runsOut_iff.1 hout
  rw [now_clock] at hle
  rcases refreshed_clock ht with rfl | ⟨hold, hhset, hexpire⟩
  · omega
  · have hbefore : before.has k = true := by
      rcases hnew k hk with hbefore | hwritten | ⟨hset, rfl⟩
      · exact hbefore
      · exact hhset hwritten
      · rw [hexpire hset] at hk
        cases hk
    have hlt := h.lt hbefore hold
    omega

end Command

section Run

variable [DecidableEq ι] [DecidableEq κ] {roomId : RoomId} {p p' : Activities ι κ}
  {a : Option (ι × Event)}

theorem Kept.step (h : Kept p) (hstep : (lifetimes roomId).step p a = some p')
    (hnested : OneLifetime p') : Kept p' := by
  cases a with
  | none =>
      cases hstep
      refine ⟨hnested, fun k hk => ?_, h.forward⟩
      simp only [Activities.has, Timed.elapse, World.redis_setRedis, RoomKeys.has_drop,
        Bool.and_eq_true, Bool.not_eq_true'] at hk
      exact hk.2
  | some a =>
      obtain ⟨i, event⟩ := a
      obtain ⟨s', call', hcall, rfl⟩ := Pool.step_eq_some.1 hstep
      simp only [Activity.timedStep, Option.ite_none_right_eq_some] at hcall
      obtain ⟨hok, hcall⟩ := hcall
      obtain ⟨⟨w', call'⟩, hworld, hr⟩ := Option.map_eq_some_iff.1 hcall
      cases hr
      have hwrites := Activity.writes_step hok (h.forward i) hworld
      refine ⟨hnested, Command.current h.current hwrites.new, fun j => ?_⟩
      rw [Pool.set_proc]
      split
      · exact hwrites.forward
      · exact h.forward j

/-- A step keeps the order exactly when it meets the condition. -/
theorem Kept.oneLifetime_step (h : Kept p) (hstep : (lifetimes roomId).step p a = some p') :
    OneLifetime p' ↔ RefreshesTogether p a := by
  cases a with
  | none =>
      cases hstep
      rw [RefreshesTogether, ← Clock.nested_tick_iff h.current h.nested]
      simp only [OneLifetime, Nested, Activities.has, Timed.elapse, World.redis_setRedis,
        RoomKeys.has_drop, Bool.and_eq_true, Bool.not_eq_true']
  | some a =>
      obtain ⟨i, event⟩ := a
      obtain ⟨s', call', hcall, rfl⟩ := Pool.step_eq_some.1 hstep
      simp only [Activity.timedStep, Option.ite_none_right_eq_some] at hcall
      obtain ⟨hok, hcall⟩ := hcall
      obtain ⟨⟨w', call'⟩, hworld, hr⟩ := Option.map_eq_some_iff.1 hcall
      cases hr
      have hwrites := Activity.writes_step hok (h.forward i) hworld
      constructor
      · intro hnested k parent hcommand hparent
        have hafter := hnested k parent hparent (hwrites.written k hcommand)
        rcases hwrites.new parent hafter with hbefore | hwritten | ⟨hset, -⟩
        · exact hbefore
        · rw [hcommand] at hwritten
          cases hwritten
          cases k <;> cases hparent
        · rw [hcommand] at hset
          cases hset
      · intro hcondition k parent hparent hk
        rcases hwrites.new k hk with hbefore | hwritten | ⟨-, rfl⟩
        · exact hwrites.kept parent (h.nested k parent hparent hbefore)
        · exact hwrites.kept parent (hcondition k parent hwritten hparent)
        · cases hparent

omit [DecidableEq ι] [DecidableEq κ] in
theorem Kept.issued (serviceUrls : List Url) (sfu : Url → Sfu.State (ι ⊕ κ))
    (requests : ι → ActivityRequest ι κ) : Kept (.issued serviceUrls sfu requests) := by
  have hnone k : (Activities.issued serviceUrls sfu requests).has k ↔ False := by
    cases k <;> simp [Activities.has, Activities.issued, World.fresh, RoomKeys.has, RoomKeys.hlen,
      Dict.size]
  refine ⟨fun k parent _ hk => ((hnone k).1 hk).elim, fun k hk => ((hnone k).1 hk).elim,
    fun i => ?_⟩
  simp only [Activities.issued]
  cases requests i <;> rfl

/-- The keys of a room live and die together, at every instant of a run, exactly when they
are refreshed together. -/
theorem holds_oneLifetime_iff (roomId : RoomId) (serviceUrls : List Url)
    (sfu : Url → Sfu.State (ι ⊕ κ)) (requests : ι → ActivityRequest ι κ)
    (schedule : List (Option (ι × Event))) :
    (lifetimes roomId).Holds OneLifetime (.issued serviceUrls sfu requests) schedule ↔
      (lifetimes roomId).Meets RefreshesTogether (.issued serviceUrls sfu requests) schedule :=
  System.holds_iff_meets_of_iff (I := Kept) (fun _ h => h.nested) (fun _ _ _ h => h.step)
    (fun _ _ _ h => h.oneLifetime_step) (.issued serviceUrls sfu requests) schedule

theorem has_run_ticks (n : Nat) (p : Activities ι κ) (k : Key) :
    ((lifetimes roomId).run p (List.replicate (n + 1) none)).has k ↔
      p.has k ∧ (p.world.clock.elapse (n + 1)).runsOut roomTtl k = false := by
  have htick (p : Activities ι κ) :
      Activities.has { p with world := p.world.elapse 1 } k ↔
        p.has k ∧ (p.world.clock.elapse 1).runsOut roomTtl k = false := by
    simp only [Activities.has, Timed.elapse, World.redis_setRedis, RoomKeys.has_drop,
      Bool.and_eq_true, Bool.not_eq_true']
  induction n generalizing p with
  | zero => exact htick p
  | succ n ih =>
      have hclock : (p.world.elapse 1).clock.elapse (n + 1) = p.world.clock.elapse (n + 2) := by
        simp only [Timed.elapse, Clock.elapse, Clock.mk.injEq, and_true]
        omega
      rw [List.replicate_succ, System.run_cons]
      refine (ih { p with world := p.world.elapse 1 }).trans ?_
      rw [htick, hclock]
      refine ⟨fun ⟨⟨hk, _⟩, hout⟩ => ⟨hk, hout⟩, fun ⟨hk, hout⟩ => ⟨⟨hk, ?_⟩, hout⟩⟩
      refine Bool.eq_false_iff.2 fun hearly => ?_
      have hlate : ((p.world.elapse 1).clock.elapse (n + 1)).runsOut roomTtl k = true :=
        Clock.runsOut_elapse hearly
      rw [hclock, hout] at hlate
      cases hlate

end Run

/-! A join whose peers hash is refreshed a millisecond after the record. -/

def lateRefresh : List (Option (Unit × Event)) :=
  [some ((), .settle true), some ((), .stats 0 true), some ((), .settle true),
    some ((), .settle true), some ((), .settle true), some ((), .settle true), none,
    some ((), .settle true), some ((), .settle true), some ((), .settle true)]

def oneJoin : Activities Unit Empty :=
  .issued ["a"] (fun _ => .spawned [0]) fun _ => .join 0 { id := "p", displayName := "" }

/-- A day later the record is gone, and the peer is still in the hash. -/
theorem not_oneLifetime_lateRefresh :
    ¬ OneLifetime ((lifetimes "r").run oneJoin
      (lateRefresh ++ List.replicate (roomTtl - 1) none)) := by
  have hticks : roomTtl - 1 = 86399998 + 1 := by decide
  intro hnested
  rw [System.run_append, hticks] at hnested
  have hroom := hnested .peers .room rfl ((has_run_ticks _ _ _).2 ⟨by decide, by decide⟩)
  exact absurd ((has_run_ticks _ _ _).1 hroom).2 (by decide)

end MeetServer.Realtime
