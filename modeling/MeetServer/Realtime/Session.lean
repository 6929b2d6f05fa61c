import MeetServer.Realtime.GhostPeer
import MeetServer.Sfu.Producers

/-!
# Sessions

`produce`, `pauseProducer` and `resumeProducer` of `SignalingService`, and the
sequential use of a room: one call after the other, each of them undisturbed and
without failures, with ids that survive the URL.  The `n`th call of a session has
the name `n`.
-/

namespace MeetServer.Realtime

open MeetServer.Foundation

variable {ι κ : Type}

/-! ## `produce` -/

inductive Produce (ι κ : Type) where
  | getPeer
  | getRoom
  | produce (url : Url) (request : Sfu.Produce (ι ⊕ κ))
  | hset (producer : ι ⊕ κ)
  | expire (producer : ι ⊕ κ)
  | returned (producer : ι ⊕ κ)
  | threw
  deriving DecidableEq

namespace Produce

/-- The producer is in Redis. -/
def written : Produce ι κ → Option (ι ⊕ κ)
  | .expire producer | .returned producer => some producer
  | _ => none

variable [DecidableEq ι] [DecidableEq κ]

/-- The POST advances on its node, or its answer arrives. -/
def advancePost (i : ι) (roomId : RoomId) (peerId : PeerId)
    (transportId : ι ⊕ κ) (kind : MediaKind) (url : Url) (ok : Bool)
    (w : World ι κ) :
    Sfu.Produce (ι ⊕ κ) → Option (World ι κ × Produce ι κ)
  | .returned producer => some (w, if ok then .hset producer else .threw)
  | .threw => some (w, .threw)
  | .call =>
      if ok then
        (Sfu.Produce.step (.inl i) roomId peerId transportId kind ok (w.sfu url)
          .call).map fun r => (w.setSfu url r.1, .produce url r.2)
      else some (w, .threw)
  | request =>
      (request.step (.inl i) roomId peerId transportId kind ok (w.sfu url)).map
        fun r => (w.setSfu url r.1, .produce url r.2)

def step (i : ι) (roomId : RoomId) (peerId : PeerId) (transportId : ι ⊕ κ)
    (kind : MediaKind) (event : Event) (w : World ι κ) (point : Produce ι κ) :
    Option (World ι κ × Produce ι κ) :=
  match event, point with
  | .settle ok, .getPeer =>
      some (w, if ok && (w.redis.peers.lookup peerId).isSome then .getRoom
        else .threw)
  | .settle ok, .getRoom =>
      match w.redis.room with
      | some room => some (w, if ok then .produce room.sfuNodeUrl .call else .threw)
      | none => some (w, .threw)
  | .settle ok, .produce url request =>
      advancePost i roomId peerId transportId kind url ok w request
  | .settle ok, .hset producer =>
      if ok then
        some (w.setRedis (w.redis.hsetProducer peerId producer kind),
          .expire producer)
      else some (w, .threw)
  | .settle ok, .expire producer =>
      some (w, if ok then .returned producer else .threw)
  | _, _ => none

theorem redis_of_step {i : ι} {roomId : RoomId} {peerId : PeerId}
    {transportId : ι ⊕ κ} {kind : MediaKind} {event : Event} {w w' : World ι κ}
    {point point' : Produce ι κ}
    (h : point.step i roomId peerId transportId kind event w = some (w', point')) :
    (w'.redis = w.redis ∧
      ∀ x, point'.written = some x → point.written = some x) ∨
    ∃ producer, point = .hset producer ∧ point'.written = some producer ∧
      w'.redis = w.redis.hsetProducer peerId producer kind := by
  unfold step at h
  split at h
  · cases h
    refine .inl ⟨rfl, fun x hx => ?_⟩
    split at hx <;> cases hx
  · split at h
    · cases h
      refine .inl ⟨rfl, fun x hx => ?_⟩
      split at hx <;> cases hx
    · cases h
      exact .inl ⟨rfl, nofun⟩
  · next ok url request =>
    cases request with
    | returned producer =>
        cases h
        refine .inl ⟨rfl, fun x hx => ?_⟩
        split at hx <;> cases hx
    | threw =>
        cases h
        exact .inl ⟨rfl, nofun⟩
    | call =>
        cases ok with
        | false =>
            cases h
            exact .inl ⟨rfl, nofun⟩
        | true =>
            obtain ⟨r, -, hr⟩ := Option.map_eq_some_iff.1 h
            cases hr
            exact .inl ⟨rfl, nofun⟩
    | transportProduce | tapProducer =>
        simp only [advancePost, Option.map_eq_some_iff] at h
        obtain ⟨r, -, hr⟩ := h
        cases hr
        exact .inl ⟨rfl, nofun⟩
  · next ok producer =>
    cases ok with
    | false =>
        cases h
        exact .inl ⟨rfl, nofun⟩
    | true =>
        cases h
        exact .inr ⟨producer, rfl, rfl, rfl⟩
  · next ok producer =>
    cases h
    refine .inl ⟨rfl, fun x hx => ?_⟩
    cases ok with
    | false => cases hx
    | true => exact hx
  · cases h

end Produce

/-! ## `pauseProducer` and `resumeProducer` -/

inductive SetPaused (ι κ : Type) where
  | getPeer
  | getRoom
  | setPaused (url : Url) (request : Sfu.SetPaused (ι ⊕ κ))
  | returned
  | threw
  deriving DecidableEq

namespace SetPaused

variable [DecidableEq ι] [DecidableEq κ]

def advancePost (roomId : RoomId) (peerId : PeerId) (producerId : ι ⊕ κ)
    (paused : Bool) (url : Url) (ok : Bool) (w : World ι κ) :
    Sfu.SetPaused (ι ⊕ κ) → Option (World ι κ × SetPaused ι κ)
  | .returned => some (w, if ok then .returned else .threw)
  | .threw => some (w, .threw)
  | .call =>
      if ok then
        (Sfu.SetPaused.step roomId peerId producerId paused ok (w.sfu url)
          .call).map fun r => (w.setSfu url r.1, .setPaused url r.2)
      else some (w, .threw)
  | request =>
      (request.step roomId peerId producerId paused ok (w.sfu url)).map
        fun r => (w.setSfu url r.1, .setPaused url r.2)

def step (roomId : RoomId) (peerId : PeerId) (producerId : ι ⊕ κ)
    (paused : Bool) (event : Event) (w : World ι κ) (point : SetPaused ι κ) :
    Option (World ι κ × SetPaused ι κ) :=
  match event, point with
  | .settle ok, .getPeer =>
      some (w, if ok && (w.redis.peers.lookup peerId).isSome then .getRoom
        else .threw)
  | .settle ok, .getRoom =>
      match w.redis.room with
      | some room =>
          some (w, if ok then .setPaused room.sfuNodeUrl .call else .threw)
      | none => some (w, .threw)
  | .settle ok, .setPaused url request =>
      advancePost roomId peerId producerId paused url ok w request
  | _, _ => none

end SetPaused

/-! ## The calls of a session -/

inductive MediaCall (κ : Type) where
  | signaling (call : Call Nat κ)
  | produce (peerId : PeerId) (transportId : Nat ⊕ κ) (kind : MediaKind)
      (point : Produce Nat κ)
  | setPaused (peerId : PeerId) (producerId : Nat ⊕ κ) (paused : Bool)
      (point : SetPaused Nat κ)
  deriving DecidableEq

inductive MediaRequest (κ : Type) where
  | signaling (request : Request)
  | produce (peerId : PeerId) (transportId : Nat ⊕ κ) (kind : MediaKind)
  | setPaused (peerId : PeerId) (producerId : Nat ⊕ κ) (paused : Bool)
  deriving DecidableEq

def MediaRequest.call : MediaRequest κ → MediaCall κ
  | .signaling request => .signaling request.call
  | .produce peerId transportId kind => .produce peerId transportId kind .getPeer
  | .setPaused peerId producerId paused =>
      .setPaused peerId producerId paused .getPeer

namespace MediaCall

/-- Returned or failed, and its requests have been processed. -/
def finished : MediaCall κ → Bool
  | .signaling call => call.finished
  | .produce _ _ _ (.returned _) | .produce _ _ _ .threw => true
  | .setPaused _ _ _ .returned | .setPaused _ _ _ .threw => true
  | _ => false

variable [DecidableEq κ]

def step (roomId : RoomId) (i : Nat) (event : Event) (w : World Nat κ) :
    MediaCall κ → Option (World Nat κ × MediaCall κ)
  | .signaling call =>
      (call.step roomId i event w).map fun r => (r.1, .signaling r.2)
  | .produce peerId transportId kind point =>
      (point.step i roomId peerId transportId kind event w).map fun r =>
        (r.1, .produce peerId transportId kind r.2)
  | .setPaused peerId producerId paused point =>
      (point.step roomId peerId producerId paused event w).map fun r =>
        (r.1, .setPaused peerId producerId paused r.2)

end MediaCall

/-- The room's world, and the number of calls it has served. -/
structure Session (κ : Type) where
  world : World Nat κ
  served : Nat

variable [DecidableEq κ]

/-- The next call on its own, to its end: nothing fails. -/
def Session.serve (roomId : RoomId) (s : Session κ) (request : MediaRequest κ)
    (events : List Event) : Option (World Nat κ × MediaCall κ) :=
  let outcome := (alone (MediaCall.step roomId s.served)).run
    (s.world, request.call) events
  if events.all Event.ok && outcome.2.finished then some outcome else none

/-- One call after the other. -/
def sessions (roomId : RoomId) :
    System (Session κ) (MediaRequest κ × List Event) where
  step s a := (s.serve roomId a.1 a.2).map fun outcome =>
    { world := outcome.1, served := s.served + 1 }

/-- A call that ends has gone from step to step without a failure. -/
theorem Session.serve_eq_some {roomId : RoomId} {s : Session κ}
    {request : MediaRequest κ} {events : List Event} {w : World Nat κ}
    {call : MediaCall κ}
    (h : s.serve roomId request events = some (w, call)) : call.finished ∧
      (alone (MediaCall.step roomId s.served)).ReachableWhen
        (fun _ event => event.ok) (s.world, request.call) (w, call) := by
  unfold serve at h
  simp only [Option.ite_none_right_eq_some, Option.some.injEq,
    Bool.and_eq_true, List.all_eq_true] at h
  obtain ⟨⟨hok, hfinished⟩, hrun⟩ := h
  rw [hrun] at hfinished
  refine ⟨hfinished, hrun ▸ System.Meets.reachableWhen ?_⟩
  exact System.meets_of_forall fun event hevent _ => hok event hevent

end MeetServer.Realtime
