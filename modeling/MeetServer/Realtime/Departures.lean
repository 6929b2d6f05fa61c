import MeetServer.Realtime.Broadcasts
import MeetServer.Realtime.Session
import MeetServer.Realtime.Teardown

/-!
# Departures

The `produce` handler of a socket and its `handleDisconnect`, in any
interleaving, while other members stay in the room.  `produce` checks the
membership first and then waits for the sfu and for Redis; nothing checks it
again before the producer is recorded and announced.
-/

namespace MeetServer.Realtime

open MeetServer.Foundation

variable {ι κ : Type}

inductive SocketHandler where
  | produce
  | handleDisconnect
  deriving DecidableEq, Repr

/-- A handler that awaits a call of the service and then emits to the room. -/
structure Emitting (Point : Type) where
  point : Point
  emitted : Bool := false
  deriving DecidableEq

structure LeavingSocket (ι κ : Type) where
  world : World ι κ
  produce : Emitting (Produce ι κ) := { point := .getPeer }
  handleDisconnect : Emitting (Leave ι κ) := { point := .getRoom }
  /-- What the other members are sent, in the order of the emits. -/
  sent : List (RoomEvent (ι ⊕ κ)) := []

/-- The call has returned; a closed room leaves requests behind. -/
def Leave.hasReturned : Leave ι κ → Bool
  | .returned | .closed .. => true
  | _ => false

/-- The points of a call that finds other members in the room. -/
def Leave.occupied : Leave ι κ → Bool
  | .getRoom | .hdel _ | .delProducers _ | .sfuRemovePeer .. | .hlen _ | .returned => true
  | _ => false

def Produce.recording : Produce ι κ → Bool
  | .hset _ => true
  | _ => false

/-- mediasoup rejects a producer on a closed transport. -/
def Produce.refused (w : World ι κ) : Produce ι κ → Bool
  | .produce url (.transportProduce _ _ transport) =>
      !(w.sfu url).transportOpen transport
  | _ => false

namespace LeavingSocket

variable [DecidableEq ι] [DecidableEq κ] (i : ι) (context : SocketContext)
  (transportId : ι ⊕ κ) (kind : MediaKind)

def stepProduce (event : Event) (s : LeavingSocket ι κ) : Option (LeavingSocket ι κ) :=
  match s.produce with
  | ⟨.returned producer, false⟩ =>
      some { s with
        produce := ⟨.returned producer, true⟩
        sent := s.sent ++ [.newProducer {
          peerId := context.peerId, producerId := producer, kind := kind }] }
  | ⟨point, emitted⟩ =>
      (point.step i context.roomId context.peerId transportId kind event s.world).map
        fun r => { s with world := r.1, produce := ⟨r.2, emitted⟩ }

def stepHandleDisconnect (event : Event) (s : LeavingSocket ι κ) : Option (LeavingSocket ι κ) :=
  let ⟨point, emitted⟩ := s.handleDisconnect
  match event with
  | .settle ok =>
      if point.hasReturned then
        if emitted then none
        else some { s with
          handleDisconnect := ⟨point, true⟩
          sent := s.sent ++ [.peerClosed context.peerId] }
      else
        (point.step context.roomId context.peerId (.settle ok) s.world).map
          fun r => { s with world := r.1, handleDisconnect := ⟨r.2, emitted⟩ }
  -- The requests that `leave` does not await.
  | event =>
      (point.step context.roomId context.peerId event s.world).map
        fun r => { s with world := r.1, handleDisconnect := ⟨r.2, emitted⟩ }

def Finished (s : LeavingSocket ι κ) : Prop :=
  (s.produce.emitted ∨ s.produce.point = .threw) ∧
    (s.handleDisconnect.emitted ∨ s.handleDisconnect.point = .threw)

instance (s : LeavingSocket ι κ) : Decidable s.Finished :=
  inferInstanceAs (Decidable ((_ ∨ _) ∧ (_ ∨ _)))

/-- The producer is recorded and not announced yet. -/
def announcing (s : LeavingSocket ι κ) : Bool :=
  s.produce.point.written.isSome && !s.produce.emitted

end LeavingSocket

/-- Both handlers of a socket take their context from the same `client.data`. -/
def leavingSocket [DecidableEq ι] [DecidableEq κ] (i : ι) (context : SocketContext)
    (transportId : ι ⊕ κ) (kind : MediaKind) :
    System (LeavingSocket ι κ) (SocketHandler × Event) where
  step s a :=
    match a.1 with
    | .produce => s.stepProduce i context transportId kind a.2
    | .handleDisconnect => s.stepHandleDisconnect context a.2

/-! ## What is promised -/

def RoomEvent.announces {Ref : Type} (peerId : PeerId) : RoomEvent Ref → Bool
  | .newProducer producer => producer.peerId = peerId
  | _ => false

/-- No producer of a peer is announced after the peer has been closed. -/
def InOrder {Ref : Type} (peerId : PeerId) (sent : List (RoomEvent Ref)) : Prop :=
  sent.Pairwise fun earlier later => earlier = .peerClosed peerId → ¬ later.announces peerId

instance {Ref : Type} [DecidableEq Ref] (peerId : PeerId) (sent : List (RoomEvent Ref)) :
    Decidable (InOrder peerId sent) :=
  inferInstanceAs (Decidable (sent.Pairwise _))

def Departed (peerId : PeerId) (s : LeavingSocket ι κ) : Prop :=
  InOrder peerId s.sent ∧ (s.Finished → s.world.redis.producers peerId = ∅)

/-- Nothing fails; a producer may be refused because the transport has been closed. -/
def NothingFails (s : LeavingSocket ι κ) (a : SocketHandler × Event) : Prop :=
  a.2.ok ∨ (a.1 = .produce ∧ s.produce.point.refused s.world)

/-- The HSET of the producer precedes the DEL of the hash, and the disconnect
emits while no recorded producer waits for its announcement. -/
def RecordsInTime (s : LeavingSocket ι κ) (a : SocketHandler × Event) : Prop :=
  match a.1 with
  | .produce => s.produce.point.recording → s.handleDisconnect.point.cleared = false
  | .handleDisconnect => s.handleDisconnect.point.hasReturned → s.announcing = false

instance (s : LeavingSocket ι κ) (a : SocketHandler × Event) : Decidable (NothingFails s a) :=
  inferInstanceAs (Decidable (_ ∨ (_ ∧ _)))

instance (s : LeavingSocket ι κ) : DecidablePred (RecordsInTime s)
  | (.produce, _) => inferInstanceAs (Decidable (_ → _))
  | (.handleDisconnect, _) => inferInstanceAs (Decidable (_ → _))

/-! ## What a step does -/

variable [DecidableEq ι] [DecidableEq κ] {i : ι} {context : SocketContext}
  {transportId : ι ⊕ κ} {kind : MediaKind} {s s' : LeavingSocket ι κ}
  {a : SocketHandler × Event}

inductive LeavingSocket.Step (i : ι) (context : SocketContext) (transportId : ι ⊕ κ)
    (kind : MediaKind) (s : LeavingSocket ι κ) :
    SocketHandler × Event → LeavingSocket ι κ → Prop
  | produces {event : Event} {w' : World ι κ} {point' : Produce ι κ} :
      s.produce.point.step i context.roomId context.peerId transportId kind event s.world =
        some (w', point') →
      Step i context transportId kind s (.produce, event)
        { s with world := w', produce := ⟨point', s.produce.emitted⟩ }
  | announces {event : Event} {producer : ι ⊕ κ} :
      s.produce = ⟨.returned producer, false⟩ →
      Step i context transportId kind s (.produce, event)
        { s with
          produce := ⟨.returned producer, true⟩
          sent := s.sent ++ [.newProducer ⟨context.peerId, producer, kind⟩] }
  | leaves {event : Event} {w' : World ι κ} {point' : Leave ι κ} :
      s.handleDisconnect.point.step context.roomId context.peerId event s.world =
        some (w', point') →
      Step i context transportId kind s (.handleDisconnect, event)
        { s with world := w', handleDisconnect := ⟨point', s.handleDisconnect.emitted⟩ }
  | closes {event : Event} {point : Leave ι κ} :
      s.handleDisconnect = ⟨point, false⟩ → point.hasReturned →
      Step i context transportId kind s (.handleDisconnect, event)
        { s with
          handleDisconnect := ⟨point, true⟩
          sent := s.sent ++ [.peerClosed context.peerId] }

theorem LeavingSocket.step_cases
    (h : (leavingSocket i context transportId kind).step s a = some s') :
    Step i context transportId kind s a s' := by
  obtain ⟨handler, event⟩ := a
  obtain ⟨w, ⟨point, emitted⟩, ⟨leave, closed⟩, sent⟩ := s
  cases handler with
  | produce =>
      simp only [leavingSocket, stepProduce] at h
      split at h
      · next hproduce =>
        cases h
        exact .announces hproduce
      · next hproduce =>
        cases hproduce
        obtain ⟨r, hr, rfl⟩ := Option.map_eq_some_iff.1 h
        exact .produces hr
  | handleDisconnect =>
      simp only [leavingSocket, stepHandleDisconnect] at h
      split at h
      · next ok =>
        split at h
        · next hreturned =>
          cases closed with
          | true => cases h
          | false =>
              cases h
              exact .closes rfl hreturned
        · obtain ⟨r, hr, rfl⟩ := Option.map_eq_some_iff.1 h
          exact .leaves hr
      · obtain ⟨r, hr, rfl⟩ := Option.map_eq_some_iff.1 h
        exact .leaves hr

/-! ## The order of the announcements -/

section InOrder

variable {Ref : Type} {peerId : PeerId} {sent : List (RoomEvent Ref)}

theorem inOrder_newProducer {producer : Ref} :
    InOrder peerId (sent ++ [.newProducer ⟨peerId, producer, kind⟩]) ↔
      InOrder peerId sent ∧ .peerClosed peerId ∉ sent := by
  simp only [InOrder, List.pairwise_append, List.pairwise_singleton, List.mem_singleton,
    forall_eq, RoomEvent.announces, decide_true, not_true_eq_false, true_and]
  refine and_congr_right fun _ => ⟨fun h hmem => h _ hmem rfl, fun h event hmem heq => h ?_⟩
  rwa [← heq]

theorem inOrder_peerClosed :
    InOrder peerId (sent ++ [.peerClosed peerId]) ↔ InOrder peerId sent := by
  simp [InOrder, List.pairwise_append, RoomEvent.announces]

end InOrder

/-! ## The steps of the two services -/

structure OthersStay (peerId : PeerId) (s : LeavingSocket ι κ) : Prop where
  recorded : s.world.redis.room.isSome
  others : ∃ q ≠ peerId, q ∈ s.world.redis.peers
  occupied : s.handleDisconnect.point.occupied
  returned : s.handleDisconnect.emitted → s.handleDisconnect.point = .returned
  closed : .peerClosed peerId ∈ s.sent ↔ s.handleDisconnect.emitted

/-- As far as the disconnect has got, it has left nothing behind. -/
@[mk_iff]
structure Forgotten (peerId : PeerId) (s : LeavingSocket ι κ) : Prop where
  cleared : s.handleDisconnect.point.cleared → s.world.redis.producers peerId = ∅
  announced : s.handleDisconnect.emitted → s.announcing = false
  sent : InOrder peerId s.sent

theorem Produce.redis_of_unfailing {roomId : RoomId} {peerId : PeerId} {event : Event}
    {w w' : World ι κ} {point point' : Produce ι κ}
    (hok : event.ok ∨ point.refused w)
    (h : point.step i roomId peerId transportId kind event w = some (w', point')) :
    (point.recording = false ∧ w'.redis = w.redis ∧ point'.written = point.written) ∨
    ∃ producer, point = .hset producer ∧ point'.written = some producer ∧
      w'.redis = w.redis.hsetProducer peerId producer kind := by
  cases point with
  | hset producer | expire producer =>
      cases event with
      | settle ok =>
          obtain rfl : ok = true := by simpa [refused, Event.ok] using hok
          cases h
          first
            | exact .inl ⟨rfl, rfl, rfl⟩
            | exact .inr ⟨producer, rfl, rfl, rfl⟩
      | _ => cases h
  | returned => cases event <;> cases h
  | _ =>
      rcases redis_of_step h with ⟨hredis, hwritten⟩ | ⟨producer, hpoint, -⟩
      · refine .inl ⟨rfl, hredis, Option.eq_none_iff_forall_ne_some.2 fun x hx => ?_⟩
        cases hwritten x hx
      · cases hpoint

/-- The DEL clears the hash, and no other step of an undisturbed `leave` touches it. -/
theorem Leave.occupied_step {roomId : RoomId} {peerId : PeerId} {w w' : World ι κ}
    {point point' : Leave ι κ} (hoccupied : point.occupied) (hroom : w.redis.room.isSome)
    (hothers : ∃ q ≠ peerId, q ∈ w.redis.peers)
    (h : Step roomId peerId w true point w' point') :
    point'.occupied ∧ w'.redis.room.isSome ∧ (∃ q ≠ peerId, q ∈ w'.redis.peers) ∧
      ((point'.cleared → w'.redis.producers peerId = ∅) ↔
        (point.cleared → w.redis.producers peerId = ∅)) := by
  obtain ⟨q, hq, hmem⟩ := hothers
  have hlen : w.redis.hlen ≠ 0 := fun hlen => (RoomKeys.hlen_eq_zero_iff _).1 hlen q hmem
  cases h with
  | gone hnone => simp [hnone] at hroom
  | removed =>
      refine ⟨rfl, hroom, ⟨q, hq, ?_⟩, Iff.rfl⟩
      exact AList.mem_erase.2 ⟨hq, hmem⟩
  | cleared =>
      refine ⟨rfl, hroom, ⟨q, hq, hmem⟩, iff_of_true (fun _ => ?_) nofun⟩
      exact Function.update_self ..
  | empty hempty | closed hempty => exact absurd hempty hlen
  | found | sfuRemoved | sfuAnswered | occupied => exact ⟨rfl, hroom, ⟨q, hq, hmem⟩, Iff.rfl⟩
  | _ => cases hoccupied

omit [DecidableEq ι] [DecidableEq κ] in
theorem Leave.eq_returned_of_occupied {point : Leave ι κ} (hoccupied : point.occupied)
    (hreturned : point.hasReturned) : point = .returned := by
  cases point with
  | returned => rfl
  | closed => cases hoccupied
  | _ => cases hreturned

omit [DecidableEq ι] [DecidableEq κ] in
theorem NothingFails.of_handleDisconnect {event : Event}
    (h : NothingFails s (.handleDisconnect, event)) : event.ok = true :=
  h.resolve_right nofun

omit [DecidableEq ι] [DecidableEq κ] in
theorem NothingFails.of_produce {event : Event} (h : NothingFails s (.produce, event)) :
    event.ok ∨ s.produce.point.refused s.world :=
  h.imp_right And.right

theorem OthersStay.step (h : OthersStay context.peerId s) (hok : NothingFails s a)
    (hs : (leavingSocket i context transportId kind).step s a = some s') :
    OthersStay context.peerId s' := by
  obtain ⟨hrecorded, hothers, hoccupied, hreturned, hclosed⟩ := h
  cases LeavingSocket.step_cases hs with
  | produces hproduce =>
      rcases Produce.redis_of_step hproduce with ⟨hredis, -⟩ | ⟨producer, -, -, hredis⟩ <;>
        exact ⟨by rwa [hredis], by rwa [hredis], hoccupied, hreturned, hclosed⟩
  | announces hproduce =>
      exact ⟨hrecorded, hothers, hoccupied, hreturned, by simpa using hclosed⟩
  | leaves hleave =>
      have hstep := Leave.step_cases hleave
      rw [hok.of_handleDisconnect] at hstep
      obtain ⟨hoccupied', hrecorded', hothers', -⟩ :=
        Leave.occupied_step hoccupied hrecorded hothers hstep
      refine ⟨hrecorded', hothers', hoccupied', fun hemitted => ?_, hclosed⟩
      rw [hreturned hemitted] at hstep
      cases hstep
  | closes hpoint hreturns =>
      rw [hpoint] at hoccupied
      refine ⟨hrecorded, hothers, hoccupied, fun _ => ?_, by simp⟩
      exact Leave.eq_returned_of_occupied hoccupied hreturns

theorem Forgotten.step_iff (h : OthersStay context.peerId s) (hok : NothingFails s a)
    (hs : (leavingSocket i context transportId kind).step s a = some s') :
    Forgotten context.peerId s' ↔ Forgotten context.peerId s ∧ RecordsInTime s a := by
  cases LeavingSocket.step_cases hs with
  | @produces event w' point' hproduce =>
      rcases Produce.redis_of_unfailing hok.of_produce hproduce with
        ⟨hpoint, hredis, hwritten⟩ | ⟨producer, hpoint, -, hredis⟩
      · simp [forgotten_iff, RecordsInTime, LeavingSocket.announcing, hpoint, hredis, hwritten]
      · cases hcleared : s.handleDisconnect.point.cleared with
        | true =>
            -- Nobody deletes the hash a second time.
            refine iff_of_false (fun hforgotten => ?_) fun ⟨_, hintime⟩ => ?_
            · have hempty := hforgotten.cleared hcleared
              simp [hredis, RoomKeys.hsetProducer, Dict.insert_ne_empty] at hempty
            · have huncleared := hintime (by rw [hpoint]; rfl)
              rw [hcleared] at huncleared
              cases huncleared
        | false =>
            have hemitted : s.handleDisconnect.emitted = false := by
              by_contra hemitted
              rw [Bool.not_eq_false] at hemitted
              rw [h.returned hemitted] at hcleared
              cases hcleared
            simp [forgotten_iff, RecordsInTime, hcleared, hemitted]
  | @announces event producer hproduce =>
      constructor
      · rintro ⟨hcleared, -, hsent⟩
        obtain ⟨hsent, hunclosed⟩ := inOrder_newProducer.1 hsent
        refine ⟨⟨hcleared, fun hemitted => ?_, hsent⟩, fun hrecording => ?_⟩
        · exact absurd (h.closed.2 hemitted) hunclosed
        · rw [hproduce] at hrecording
          cases hrecording
      · rintro ⟨⟨hcleared, hannounced, hsent⟩, -⟩
        refine ⟨hcleared, fun _ => rfl, inOrder_newProducer.2 ⟨hsent, fun hclosed => ?_⟩⟩
        have hannouncing := hannounced (h.closed.1 hclosed)
        rw [LeavingSocket.announcing, hproduce] at hannouncing
        cases hannouncing
  | @leaves event w' point' hleave =>
      have hstep := Leave.step_cases hleave
      rw [hok.of_handleDisconnect] at hstep
      obtain ⟨-, -, -, hcleared⟩ := Leave.occupied_step h.occupied h.recorded h.others hstep
      have hwaits : s.handleDisconnect.point.hasReturned = false := by
        by_contra hreturned
        rw [Leave.eq_returned_of_occupied h.occupied (by simpa using hreturned)] at hstep
        cases hstep
      simp [forgotten_iff, RecordsInTime, LeavingSocket.announcing, hcleared, hwaits]
  | @closes event point hpoint hreturns =>
      constructor
      · rintro ⟨hcleared, hannounced, hsent⟩
        refine ⟨⟨by rwa [hpoint], fun hemitted => ?_, inOrder_peerClosed.1 hsent⟩,
          fun _ => hannounced rfl⟩
        rw [hpoint] at hemitted
        cases hemitted
      · rintro ⟨⟨hcleared, -, hsent⟩, hintime⟩
        rw [hpoint] at hcleared
        refine ⟨hcleared, fun _ => hintime ?_, inOrder_peerClosed.2 hsent⟩
        rwa [hpoint]

/-! ## Whole runs -/

omit [DecidableEq ι] [DecidableEq κ] in
theorem Forgotten.departed {peerId : PeerId} (h : OthersStay peerId s)
    (hforgotten : Forgotten peerId s) : Departed peerId s := by
  refine ⟨hforgotten.sent, fun hfinished => hforgotten.cleared ?_⟩
  rcases hfinished.2 with hemitted | hthrew
  · rw [h.returned hemitted]
    rfl
  · rw [hthrew]
    rfl

omit [DecidableEq ι] [DecidableEq κ] in
theorem Departed.forgotten {peerId : PeerId} (h : Departed peerId s) (hfinished : s.Finished) :
    Forgotten peerId s := by
  refine ⟨fun _ => h.2 hfinished, fun _ => ?_, h.1⟩
  rcases hfinished.1 with hemitted | hthrew
  · simp [LeavingSocket.announcing, hemitted]
  · rw [LeavingSocket.announcing, hthrew]
    rfl

/-- A departed peer is forgotten and not announced again in every run in which its producer is
recorded and announced in time, and in no other run that both handlers finish. -/
theorem departed_iff_recordsInTime {w : World ι κ} (hrecorded : w.redis.room.isSome)
    (hothers : ∃ q ≠ context.peerId, q ∈ w.redis.peers)
    {schedule : List (SocketHandler × Event)}
    (hok : (leavingSocket i context transportId kind).Meets NothingFails { world := w }
      schedule) :
    ((leavingSocket i context transportId kind).Meets RecordsInTime { world := w } schedule →
      Departed context.peerId
        ((leavingSocket i context transportId kind).run { world := w } schedule)) ∧
    (((leavingSocket i context transportId kind).run { world := w } schedule).Finished →
      (Departed context.peerId
          ((leavingSocket i context transportId kind).run { world := w } schedule) ↔
        (leavingSocket i context transportId kind).Meets RecordsInTime { world := w }
          schedule)) := by
  have hkeeps : (leavingSocket (κ := κ) i context transportId kind).Preserves NothingFails
      (OthersStay context.peerId) := fun s a s' h hok hs => h.step hok hs
  have hstart : OthersStay (ι := ι) (κ := κ) context.peerId { world := w } :=
    ⟨hrecorded, hothers, rfl, nofun, by simp⟩
  have hend := (hok.holds hkeeps (fun s h => h) hstart).last
  have hexact := System.last_iff_meets (P := Forgotten context.peerId) hkeeps
    (fun s a s' h hok hs => Forgotten.step_iff h hok hs) hstart hok
  have hclean : Forgotten (ι := ι) (κ := κ) context.peerId { world := w } :=
    ⟨nofun, nofun, .nil⟩
  have hdeparted (hintime : (leavingSocket i context transportId kind).Meets RecordsInTime
      { world := w } schedule) := (hexact.2 ⟨hclean, hintime⟩).departed hend
  refine ⟨hdeparted, fun hfinished => ⟨fun h => ?_, hdeparted⟩⟩
  exact (hexact.1 (h.forgotten hfinished)).2

/-! Ann and Bob are in a room; Ann shares her microphone as her connection drops. -/

def annSends : World Unit Unit where
  serviceUrls := ["n"]
  redis := {
    room := some { id := "r", rtpCapabilities := "", sfuNodeUrl := "n" }
    peers := AList.insert "a" ⟨"a", "Ann"⟩ (AList.insert "b" ⟨"b", "Bob"⟩ ∅) }
  sfu _ := { Sfu.State.spawned [0] with
    rooms := AList.insert "r" (.inr ()) ∅
    room := fun _ => {
      id := "r", worker := 0
      peers := AList.insert "a"
        { id := "a", object := .inr (), sendTransport := some (.inr ()) } ∅ }
    routerOpen := fun _ => true
    transport := fun _ => some { router := .inr () } }
  pendingRooms _ := none
  creation _ := none

def ann : SocketContext := { roomId := "r", peerId := "a" }

def annLeaves : System (LeavingSocket Unit Unit) (SocketHandler × Event) :=
  leavingSocket () ann (.inr ()) .audio

def settles (handler : SocketHandler) (n : Nat) : List (SocketHandler × Event) :=
  List.replicate n (handler, .settle true)

/-- The producer is recorded before the disconnect starts and announced before it ends. -/
def announcedInTime : List (SocketHandler × Event) :=
  settles .produce 6 ++ settles .handleDisconnect 6 ++ settles .produce 2 ++
    settles .handleDisconnect 1

/-- The answer of the sfu arrives, and the whole disconnect passes before the HSET. -/
def announcedLate : List (SocketHandler × Event) :=
  settles .produce 5 ++ settles .handleDisconnect 7 ++ settles .produce 3

theorem departed_announcedInTime :
    (annLeaves.run { world := annSends } announcedInTime).Finished ∧
      Departed "a" (annLeaves.run { world := annSends } announcedInTime) := by
  have hothers : ∃ q ≠ ann.peerId, q ∈ annSends.redis.peers := ⟨"b", by decide, by decide⟩
  have hok : annLeaves.Meets NothingFails { world := annSends } announcedInTime := by decide
  exact ⟨by decide, (departed_iff_recordsInTime rfl hothers hok).1 (by decide)⟩

/-- Bob hears of Ann's microphone after he has heard that she is gone, and it stays in Redis. -/
theorem not_departed_announcedLate :
    annLeaves.Meets NothingFails { world := annSends } announcedLate ∧
      (annLeaves.run { world := annSends } announcedLate).Finished ∧
      (annLeaves.run { world := annSends } announcedLate).sent =
        [.peerClosed "a", .newProducer ⟨"a", .inl (), .audio⟩] ∧
      .inl () ∈ (annLeaves.run { world := annSends } announcedLate).world.redis.producers "a" ∧
      ¬ Departed "a" (annLeaves.run { world := annSends } announcedLate) := by
  refine ⟨by decide, by decide, by decide, by decide, fun h => ?_⟩
  exact absurd h.1 (by decide)

end MeetServer.Realtime
