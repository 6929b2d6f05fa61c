import MeetServer.Realtime.Membership

/-!
# `SignalingGateway`

The `join` handler of one socket and its `handleDisconnect`, which may start
while `join` is under way.  The disconnect acts on `client.data`, and the `join`
handler fills that in when `SignalingService.join` has returned.
-/

namespace MeetServer.Realtime

open MeetServer.Foundation

/-- `client.data`. -/
structure SocketData where
  roomId : Option RoomId := none
  peerId : Option PeerId := none
  deriving DecidableEq, Repr

/-- A socket and the world of the room it joins. -/
structure Socket (κ : Type) where
  world : World Unit κ
  data : SocketData := {}

inductive Handler where
  | join
  | handleDisconnect
  deriving DecidableEq, Repr

instance : Fintype Handler :=
  ⟨{.join, .handleDisconnect}, fun handler => by cases handler <;> decide⟩

variable {κ : Type}

inductive GatewayJoin (κ : Type) where
  | service (point : Join Unit κ)
  /-- `await client.join(roomId)`. -/
  | clientJoin
  | returned
  | threw
  deriving DecidableEq

inductive HandleDisconnect (κ : Type) where
  | call
  | leave (roomId : RoomId) (peerId : PeerId) (point : Leave Unit κ)
  | ignored
  deriving DecidableEq

/-- `none` is a socket whose client never asks to join. -/
inductive HandlerPoint (κ : Type) where
  | join (point : Option (GatewayJoin κ))
  | handleDisconnect (point : HandleDisconnect κ)
  deriving DecidableEq

namespace GatewayJoin

variable [DecidableEq κ]

def afterService (roomId : RoomId) (peerId : PeerId) (s : Socket κ) :
    World Unit κ × Join Unit κ → Socket κ × GatewayJoin κ
  | (w, .returned _ _) =>
      ({ world := w, data := { roomId := some roomId, peerId := some peerId } },
        .clientJoin)
  | (w, .threw) => ({ s with world := w }, .threw)
  | (w, point) => ({ s with world := w }, .service point)

def step (instanceId : Instance) (roomId : RoomId) (peer : Peer) (event : Event)
    (s : Socket κ) (point : GatewayJoin κ) : Option (Socket κ × GatewayJoin κ) :=
  match point, event with
  | .service point, event =>
      (point.step () instanceId roomId peer event s.world).map
        (afterService roomId peer.id s)
  | .clientJoin, .settle ok => some (s, if ok then .returned else .threw)
  | _, _ => none

end GatewayJoin

namespace HandleDisconnect

variable [DecidableEq κ]

/-- A missing value and `""` are both falsy. -/
def start (s : Socket κ) : HandleDisconnect κ :=
  match s.data.roomId, s.data.peerId with
  | some roomId, some peerId =>
      if roomId = "" ∨ peerId = "" then .ignored
      else .leave roomId peerId .getRoom
  | _, _ => .ignored

def step (event : Event) (s : Socket κ) (point : HandleDisconnect κ) :
    Option (Socket κ × HandleDisconnect κ) :=
  match point, event with
  | .call, .settle _ => some (s, start s)
  | .leave roomId peerId point, event =>
      (point.step roomId peerId event s.world).map fun r =>
        ({ s with world := r.1 }, .leave roomId peerId r.2)
  | _, _ => none

end HandleDisconnect

namespace HandlerPoint

variable [DecidableEq κ]

def step (instanceId : Instance) (roomId : RoomId) (peer : Peer) (event : Event)
    (s : Socket κ) : HandlerPoint κ → Option (Socket κ × HandlerPoint κ)
  | .join none => none
  | .join (some point) =>
      (point.step instanceId roomId peer event s).map fun r =>
        (r.1, .join (some r.2))
  | .handleDisconnect point =>
      (point.step event s).map fun r => (r.1, .handleDisconnect r.2)

omit [DecidableEq κ]

/-- Returned, without an error. -/
def returned : HandlerPoint κ → Bool
  | .join none | .join (some .returned) => true
  | .handleDisconnect .ignored => true
  | .handleDisconnect (.leave _ _ .returned)
  | .handleDisconnect (.leave _ _ (.closed _ _ _)) => true
  | _ => false

/-- `SignalingService.join` is under way. -/
def joining : HandlerPoint κ → Bool
  | .join (some (.service _)) => true
  | _ => false

/-- `SignalingService.join` has returned. -/
def joined : HandlerPoint κ → Bool
  | .join (some .clientJoin) | .join (some .returned) => true
  | _ => false

def ignored : HandlerPoint κ → Bool
  | .handleDisconnect .ignored => true
  | _ => false

theorem ignored_iff {point : HandleDisconnect κ} :
    (HandlerPoint.handleDisconnect point).ignored ↔ point = .ignored := by
  cases point <;> simp [ignored]

theorem joining_of_joined {point : HandlerPoint κ} (h : point.joined) :
    point.joining = false := by
  cases point with
  | join point =>
      cases point with
      | none => rfl
      | some point => cases point <;> first | rfl | cases h
  | handleDisconnect => rfl

end HandlerPoint

abbrev Handlers (κ : Type) := Pool Handler (Socket κ) (HandlerPoint κ)

def gateway [DecidableEq κ] (instanceId : Instance) (roomId : RoomId)
    (peer : Peer) : System (Handlers κ) (Handler × Event) :=
  Pool.system fun _ event s point => point.step instanceId roomId peer event s

/-- A socket that has just connected; its client may ask to join. -/
def Handlers.connected (w : World Unit κ) (asksToJoin : Bool) : Handlers κ where
  world := { world := w }
  proc
    | .join => .join
        (if asksToJoin then some (.service (.getOrCreateRoom .getRoom)) else none)
    | .handleDisconnect => .handleDisconnect .call

/-- The disconnect does not start while `SignalingService.join` is under way,
and the ids of a socket that has joined are not empty. -/
def StartsJoined (roomId : RoomId) (peer : Peer) (s : Handlers κ)
    (a : Handler × Event) : Prop :=
  s.proc a.1 = .handleDisconnect .call →
    (s.proc .join).joining = false ∧
      ((s.proc .join).joined → roomId ≠ "" ∧ peer.id ≠ "")

/-! ## While the join is under way -/

/-- Nothing but the join itself happens to the room. -/
structure Joining (instanceId : Instance) (peerId : PeerId) (w : World Unit κ)
    (point : Join Unit κ) : Prop where
  idle : point = .getOrCreateRoom .getRoom → w.pendingRooms instanceId = none
  alone : ∀ creation, point ≠ .getOrCreateRoom (.pending creation)
  recorded : point.told w ∨ point.added → w.redis.room.isSome
  added : point.added → peerId ∈ w.redis.peers

variable [DecidableEq κ] {instanceId : Instance} {roomId : RoomId} {peer : Peer}

theorem Joining.step {w w' : World Unit κ} {ok : Bool} {point point' : Join Unit κ}
    (h : Joining instanceId peer.id w point)
    (hs : Join.Step () instanceId roomId peer w ok point w' point') :
    Joining instanceId peer.id w' point' := by
  obtain ⟨hidle, halone, hrecorded, hadded⟩ := h
  cases hs with
  | @room ok room room' w' hroom =>
      cases hroom with
      | waits _ hpending => simp [hidle rfl] at hpending
      | resumed | rejected => exact absurd rfl (halone _)
      | found hfound =>
          exact ⟨nofun, nofun, fun _ => by rw [hfound]; rfl, nofun⟩
      | refreshed =>
          exact ⟨nofun, nofun, fun _ => hrecorded (.inl rfl), nofun⟩
      | recorded => exact ⟨nofun, nofun, fun _ => rfl, nofun⟩
      | _ => exact ⟨nofun, nofun, fun h => h.elim nofun nofun, nofun⟩
  | added =>
      refine ⟨nofun, nofun, fun _ => hrecorded (.inl rfl), fun _ => ?_⟩
      exact (AList.mem_insert _).2 (.inl rfl)
  | refreshed =>
      exact ⟨nofun, nofun, fun _ => hrecorded (.inr rfl), fun _ => hadded rfl⟩
  | listed | fetched =>
      unfold Join.nextProducers
      split <;>
        exact ⟨nofun, nofun, fun _ => hrecorded (.inr rfl), fun _ => hadded rfl⟩
  | _ => exact ⟨nofun, nofun, fun h => h.elim nofun nofun, nofun⟩

/-! ## While the peer leaves -/

structure Leaving (peerId : PeerId) (w : World Unit κ) (point : Leave Unit κ) :
    Prop where
  found : point = .getRoom → w.redis.room.isSome
  removed : point.removed → point ≠ .threw → peerId ∉ w.redis.peers

omit [DecidableEq κ] in
theorem Leave.nextProducerHash_ne_getRoom (url : Url) (todo : List PeerId) (rejected : Bool) :
    (nextProducerHash url todo rejected : Leave Unit κ) ≠ .getRoom := by
  cases todo <;> cases rejected <;> simp [nextProducerHash]

theorem Leaving.step {peerId : PeerId} {w w' : World Unit κ} {ok : Bool}
    {point point' : Leave Unit κ} (h : Leaving peerId w point)
    (hs : Leave.Step roomId peerId w ok point w' point') :
    Leaving peerId w' point' := by
  obtain ⟨hfound, hremoved⟩ := h
  cases hs with
  | gone hnone =>
      have hroom := hfound rfl
      rw [hnone] at hroom
      cases hroom
  | found => exact ⟨nofun, nofun⟩
  | removed => exact ⟨nofun, fun _ _ => by simp [RoomKeys.hdel]⟩
  | closed =>
      exact ⟨fun h => absurd h (Leave.nextProducerHash_ne_getRoom _ _ _),
        fun _ _ => AList.notMem_empty _⟩
  | swept | unswept =>
      exact ⟨fun h => absurd h (Leave.nextProducerHash_ne_getRoom _ _ _),
        fun _ _ => hremoved rfl nofun⟩
  | threw => exact ⟨nofun, fun _ h => absurd rfl h⟩
  | _ => exact ⟨nofun, fun _ _ => hremoved rfl nofun⟩

/-! ## The two handlers together -/

/-- The disconnect has done nothing. -/
def HandleDisconnect.idle : HandleDisconnect κ → Bool
  | .call | .ignored => true
  | .leave _ _ _ => false

inductive Attended (instanceId : Instance) (roomId : RoomId) (peerId : PeerId) :
    Socket κ → HandlerPoint κ → HandlerPoint κ → Prop
  | unasked {w : World Unit κ} {point : HandleDisconnect κ} :
      peerId ∉ w.redis.peers → point.idle →
      Attended instanceId roomId peerId { world := w } (.join none)
        (.handleDisconnect point)
  | joining {w : World Unit κ} {join : Join Unit κ}
      {point : HandleDisconnect κ} :
      Joining instanceId peerId w join → point.idle →
      Attended instanceId roomId peerId { world := w }
        (.join (some (.service join))) (.handleDisconnect point)
  | joined {w : World Unit κ} {join : HandlerPoint κ}
      {point : HandleDisconnect κ} :
      join.joined → point.idle → w.redis.room.isSome → peerId ∈ w.redis.peers →
      Attended instanceId roomId peerId
        { world := w, data := ⟨some roomId, some peerId⟩ } join
        (.handleDisconnect point)
  | leaving {w : World Unit κ} {join : HandlerPoint κ}
      {leave : Leave Unit κ} :
      join.joined → Leaving peerId w leave →
      Attended instanceId roomId peerId
        { world := w, data := ⟨some roomId, some peerId⟩ } join
        (.handleDisconnect (.leave roomId peerId leave))
  | threw {s : Socket κ} {point : HandleDisconnect κ} :
      Attended instanceId roomId peerId s (.join (some .threw))
        (.handleDisconnect point)

theorem GatewayJoin.step_of_joined {s s' : Socket κ} {event : Event}
    {point point' : GatewayJoin κ}
    (h : (HandlerPoint.join (some point)).joined)
    (hs : point.step instanceId roomId peer event s = some (s', point')) :
    s' = s ∧ (point' = .returned ∨ point' = .threw) := by
  cases point with
  | clientJoin =>
      cases event with
      | settle ok =>
          cases ok <;> cases hs
          · exact ⟨rfl, .inr rfl⟩
          · exact ⟨rfl, .inl rfl⟩
      | _ => cases hs
  | returned => cases hs
  | service | threw => cases h

theorem Attended.join_step {s s' : Socket κ} {event : Event}
    {point point' : GatewayJoin κ} {other : HandlerPoint κ}
    (h : Attended instanceId roomId peer.id s (.join (some point)) other)
    (hs : point.step instanceId roomId peer event s = some (s', point')) :
    Attended instanceId roomId peer.id s' (.join (some point')) other := by
  cases h with
  | joining hjoining hidle =>
      simp only [GatewayJoin.step, Option.map_eq_some_iff] at hs
      obtain ⟨⟨w', join'⟩, hjoin, hafter⟩ := hs
      have hnext := hjoining.step (Join.step_cases hjoin)
      cases join' with
      | returned existingPeers existingProducers =>
          cases hafter
          exact .joined rfl hidle (hnext.recorded (.inr rfl)) (hnext.added rfl)
      | threw =>
          cases hafter
          exact .threw
      | _ =>
          cases hafter
          exact .joining hnext hidle
  | joined hjoined hidle hroom hpeer =>
      obtain ⟨rfl, rfl | rfl⟩ := GatewayJoin.step_of_joined hjoined hs
      · exact .joined rfl hidle hroom hpeer
      · exact .threw
  | leaving hjoined hleaving =>
      obtain ⟨rfl, rfl | rfl⟩ := GatewayJoin.step_of_joined hjoined hs
      · exact .leaving rfl hleaving
      · exact .threw
  | threw => cases hs

theorem Attended.disconnect_step {s s' : Socket κ} {event : Event}
    {point point' : HandleDisconnect κ} {other : HandlerPoint κ}
    (h : Attended instanceId roomId peer.id s other (.handleDisconnect point))
    (hs : point.step event s = some (s', point')) :
    Attended instanceId roomId peer.id s' other (.handleDisconnect point') := by
  cases point with
  | call =>
      cases event with
      | settle ok =>
          cases hs
          cases h with
          | unasked hnew => exact .unasked hnew rfl
          | joining hjoining => exact .joining hjoining rfl
          | joined hjoined hidle hroom hpeer =>
              simp only [HandleDisconnect.start]
              split
              · exact .joined hjoined rfl hroom hpeer
              · exact .leaving hjoined ⟨fun _ => hroom, nofun⟩
          | threw => exact .threw
      | _ => cases hs
  | leave roomId' peerId' leave =>
      simp only [HandleDisconnect.step, Option.map_eq_some_iff,
        Prod.mk.injEq] at hs
      obtain ⟨⟨w', leave'⟩, hleave, rfl, rfl⟩ := hs
      cases h with
      | unasked _ hidle | joining _ hidle | joined _ hidle => cases hidle
      | leaving hjoined hleaving =>
          exact .leaving hjoined (hleaving.step (Leave.step_cases hleave))
      | threw => exact .threw
  | ignored => cases hs

omit [DecidableEq κ] in
theorem Attended.points {s : Socket κ} {peerId : PeerId}
    {join disconnect : HandlerPoint κ}
    (h : Attended instanceId roomId peerId s join disconnect) :
    (∃ point, join = .join point) ∧
      ∃ point, disconnect = .handleDisconnect point := by
  cases h with
  | unasked | joining | threw => exact ⟨⟨_, rfl⟩, _, rfl⟩
  | joined hjoined | leaving hjoined =>
      cases join with
      | join point => exact ⟨⟨_, rfl⟩, _, rfl⟩
      | handleDisconnect => cases hjoined

def Attends (instanceId : Instance) (roomId : RoomId) (peer : Peer)
    (s : Handlers κ) : Prop :=
  Attended instanceId roomId peer.id s.world (s.proc .join)
    (s.proc .handleDisconnect)

theorem Attends.preserves :
    (gateway (κ := κ) instanceId roomId peer).Preserves (fun _ _ => True)
      (Attends instanceId roomId peer) := by
  rintro s ⟨handler, event⟩ s' h - hs
  obtain ⟨w', point', hpoint, rfl⟩ := Pool.step_eq_some.1 hs
  obtain ⟨⟨join, hjoin⟩, disconnect, hdisconnect⟩ := Attended.points h
  unfold Attends at h ⊢
  cases handler with
  | join =>
      simp only [Pool.set_world, Pool.set_proc, reduceCtorEq, if_true, if_false]
      rw [hjoin] at hpoint h
      cases join with
      | none => cases hpoint
      | some point =>
          simp only [HandlerPoint.step, Option.map_eq_some_iff,
            Prod.mk.injEq] at hpoint
          obtain ⟨⟨s', point'⟩, hpoint, rfl, rfl⟩ := hpoint
          exact h.join_step hpoint
  | handleDisconnect =>
      simp only [Pool.set_world, Pool.set_proc, reduceCtorEq, if_true, if_false]
      rw [hdisconnect] at hpoint h
      simp only [HandlerPoint.step, Option.map_eq_some_iff,
        Prod.mk.injEq] at hpoint
      obtain ⟨⟨s', point'⟩, hpoint, rfl, rfl⟩ := hpoint
      exact h.disconnect_step hpoint

/-! ## Where the disconnect lands -/

/-- A disconnect that has been ignored met a socket that had no peer. -/
def Heeded (s : Handlers κ) : Prop :=
  (s.proc .handleDisconnect).ignored →
    (s.proc .join).joining = false ∧ (s.proc .join).joined = false

omit [DecidableEq κ] in
theorem Attended.heeded_start {s : Socket κ} {join : HandlerPoint κ}
    (h : Attended instanceId roomId peer.id s join (.handleDisconnect .call)) :
    ((HandleDisconnect.start s = .ignored →
        join.joining = false ∧ join.joined = false) ↔
      join.joining = false ∧ (join.joined → roomId ≠ "" ∧ peer.id ≠ "")) := by
  cases h with
  | unasked => simp [HandlerPoint.joining, HandlerPoint.joined]
  | joining =>
      simp [HandleDisconnect.start, HandlerPoint.joining]
  | joined hjoined =>
      simp only [HandleDisconnect.start, hjoined,
        HandlerPoint.joining_of_joined hjoined]
      split
      · next hempty =>
        simp only [true_implies, reduceCtorEq, and_false, false_iff, true_and]
        exact fun hids => hempty.elim hids.1 hids.2
      · next hids => simpa [not_or] using hids
  | threw => simp [HandlerPoint.joining, HandlerPoint.joined]

theorem Attends.heeded_step {s s' : Handlers κ} {a : Handler × Event}
    (h : Attends instanceId roomId peer s) (hheeded : Heeded s)
    (hs : (gateway instanceId roomId peer).step s a = some s') :
    Heeded s' ↔ StartsJoined roomId peer s a := by
  obtain ⟨handler, event⟩ := a
  obtain ⟨w', point', hpoint, rfl⟩ := Pool.step_eq_some.1 hs
  obtain ⟨⟨join, hjoin⟩, disconnect, hdisconnect⟩ := Attended.points h
  unfold Heeded StartsJoined at *
  cases handler with
  | join =>
      simp only [Pool.set_proc, reduceCtorEq, if_true, if_false]
      rw [hjoin] at hpoint hheeded ⊢
      rw [hdisconnect] at hheeded ⊢
      refine iff_of_true (fun hignored => ?_) nofun
      obtain ⟨hjoining, hjoined⟩ := hheeded hignored
      cases join with
      | none => cases hpoint
      | some point =>
          cases point with
          | service => cases hjoining
          | clientJoin | returned => cases hjoined
          | threw => cases hpoint
  | handleDisconnect =>
      simp only [Pool.set_proc, reduceCtorEq, if_true, if_false]
      rw [hdisconnect] at hpoint hheeded ⊢
      cases disconnect with
      | call =>
          cases event with
          | settle ok =>
              cases hpoint
              unfold Attends at h
              rw [hdisconnect] at h
              rw [HandlerPoint.ignored_iff, h.heeded_start]
              exact ⟨fun h _ => h, fun h => h rfl⟩
          | _ => cases hpoint
      | leave roomId' peerId' leave =>
          simp only [HandlerPoint.step, HandleDisconnect.step,
            Option.map_map, Option.map_eq_some_iff] at hpoint
          obtain ⟨r, hr, rfl, rfl⟩ := hpoint
          exact iff_of_true nofun nofun
      | ignored => cases hpoint

/-- The disconnect has been ignored although the client has asked to join. -/
def IgnoredAsking (s : Handlers κ) : Prop :=
  (s.proc .handleDisconnect).ignored ∧ s.proc .join ≠ .join none

theorem IgnoredAsking.preserves :
    (gateway (κ := κ) instanceId roomId peer).Preserves (fun _ _ => True)
      IgnoredAsking := by
  rintro s ⟨handler, event⟩ s' ⟨hignored, hasking⟩ - hs
  obtain ⟨w', point', hpoint, rfl⟩ := Pool.step_eq_some.1 hs
  unfold IgnoredAsking
  simp only [Pool.set_proc]
  cases handler with
  | join =>
      refine ⟨hignored, ?_⟩
      simp only [if_true]
      cases hjoin : s.proc .join with
      | join point =>
          rw [hjoin] at hpoint hasking
          cases point with
          | none => exact absurd rfl hasking
          | some point =>
              obtain ⟨r, -, hr⟩ := Option.map_eq_some_iff.1 hpoint
              cases hr
              exact nofun
      | handleDisconnect point =>
          rw [hjoin] at hpoint
          obtain ⟨r, -, hr⟩ := Option.map_eq_some_iff.1 hpoint
          cases hr
          exact nofun
  | handleDisconnect =>
      cases hdisconnect : s.proc .handleDisconnect with
      | join => rw [hdisconnect] at hignored; cases hignored
      | handleDisconnect point =>
          rw [hdisconnect] at hignored hpoint
          obtain rfl := HandlerPoint.ignored_iff.1 hignored
          cases hpoint

omit [DecidableEq κ] in
/-- When both handlers have returned, only an ignored disconnect leaves the peer
behind. -/
theorem Attended.gone_iff {s : Socket κ} {peerId : PeerId}
    {join disconnect : HandlerPoint κ}
    (h : Attended instanceId roomId peerId s join disconnect)
    (hjoin : join.returned) (hdisconnect : disconnect.returned) :
    peerId ∉ s.world.redis.peers ↔
      ¬ (disconnect.ignored ∧ join ≠ .join none) := by
  cases h with
  | unasked hnew => simp [hnew]
  | joining | threw => cases hjoin
  | @joined w _ point hjoined hidle hroom hpeer =>
      have hignored : point = .ignored := by
        cases point with
        | ignored => rfl
        | call => cases hdisconnect
        | leave => cases hidle
      have hasking : join ≠ .join none := by
        rintro rfl
        cases hjoined
      simp [hpeer, hignored, hasking, HandlerPoint.ignored]
  | @leaving w _ leave hjoined hleaving =>
      refine iff_of_true (hleaving.removed ?_ ?_) fun h => nomatch h.1
      · cases leave <;> first | rfl | cases hdisconnect
      · rintro rfl
        cases hdisconnect

omit [DecidableEq κ] in
theorem Attends.connected {w : World Unit κ} (hidle : w.pendingRooms instanceId = none)
    (hnew : peer.id ∉ w.redis.peers) (asksToJoin : Bool) :
    Attends instanceId roomId peer (.connected w asksToJoin) := by
  cases asksToJoin with
  | false => exact .unasked hnew rfl
  | true =>
      refine .joining ⟨fun _ => hidle, nofun, ?_, nofun⟩ rfl
      exact fun h => h.elim nofun nofun

/-- The peer of a socket is gone after its disconnect exactly when the
disconnect has not overtaken the join. -/
theorem gone_iff_startsJoined {w : World Unit κ}
    (hidle : w.pendingRooms instanceId = none) (hnew : peer.id ∉ w.redis.peers)
    (asksToJoin : Bool) {schedule : List (Handler × Event)}
    (hreturned : ∀ handler, (((gateway instanceId roomId peer).run
      (.connected w asksToJoin) schedule).proc handler).returned) :
    peer.id ∉ ((gateway instanceId roomId peer).run
        (.connected w asksToJoin) schedule).world.world.redis.peers ↔
      (gateway instanceId roomId peer).Meets (StartsJoined roomId peer)
        (.connected w asksToJoin) schedule := by
  have hstart : Attends instanceId roomId peer (.connected w asksToJoin) :=
    .connected hidle hnew asksToJoin
  have hexact := System.holds_iff_meets_of_iff
    (I := fun s => Attends instanceId roomId peer s ∧ Heeded s) (fun s h => h.2)
    (fun s a s' h hs hheeded => ⟨Attends.preserves h.1 trivial hs, hheeded⟩)
    (fun s a s' h hs => h.1.heeded_step h.2 hs) ⟨hstart, nofun⟩ schedule
  have hend : Attends instanceId roomId peer ((gateway instanceId roomId peer).run
      (.connected w asksToJoin) schedule) :=
    Attends.preserves.run hstart schedule
  rw [Attended.gone_iff hend (hreturned _) (hreturned _), ← hexact]
  constructor
  · intro hnot
    by_contra hholds
    refine hnot (System.last_of_not_holds (R := IgnoredAsking) (fun s hs => ?_)
      IgnoredAsking.preserves hholds)
    rw [Heeded, Classical.not_imp] at hs
    refine ⟨hs.1, fun hjoin => hs.2 ?_⟩
    rw [hjoin]
    exact ⟨rfl, rfl⟩
  · rintro hholds ⟨hignored, hasking⟩
    obtain ⟨hjoining, hjoined⟩ := hholds.last hignored
    have hjoin := hreturned .join
    obtain ⟨⟨point, hpoint⟩, -⟩ := Attended.points hend
    rw [hpoint] at hjoining hjoined hjoin hasking
    cases point with
    | none => exact hasking rfl
    | some point =>
        cases point with
        | service => cases hjoining
        | clientJoin | returned => cases hjoined
        | threw => cases hjoin

instance (s : Handlers κ) (a : Handler × Event) :
    Decidable (StartsJoined roomId peer s a) :=
  inferInstanceAs (Decidable (_ → _ ∧ (_ → _ ∧ _)))

/-! A client joins a recorded room and drops. -/

def recordedRoom : World Unit Empty :=
  { World.fresh ["n"] fun _ => .spawned [0] with
    redis := { room := some { id := "r", rtpCapabilities := "", sfuNodeUrl := "n" } } }

/-- GET, EXPIRE, HSET, EXPIRE, HVALS. -/
def joinServed : List (Handler × Event) :=
  List.replicate 5 (.join, .settle true)

/-- The disconnect lands between `client.data` and the end of `client.join`. -/
def droppedJoined : List (Handler × Event) :=
  joinServed ++ (.handleDisconnect, .settle true) :: (.join, .settle true) ::
    List.replicate 8 (.handleDisconnect, .settle true)

theorem gone_droppedJoined :
    "a" ∉ ((gateway 0 "r" ⟨"a", "Ann"⟩).run (.connected recordedRoom true)
      droppedJoined).world.world.redis.peers :=
  (gone_iff_startsJoined rfl (by decide) true (by decide)).2 (by decide)

/-- The disconnect lands while the HSET is under way. -/
def droppedJoining : List (Handler × Event) :=
  List.replicate 2 (.join, .settle true) ++ (.handleDisconnect, .settle true) ::
    List.replicate 4 (.join, .settle true)

theorem not_gone_droppedJoining :
    (∀ handler, (((gateway 0 "r" ⟨"a", "Ann"⟩).run (.connected recordedRoom true)
        droppedJoining).proc handler).returned) ∧
      "a" ∈ ((gateway 0 "r" ⟨"a", "Ann"⟩).run (.connected recordedRoom true)
        droppedJoining).world.world.redis.peers := by
  decide

end MeetServer.Realtime
