import MeetServer.Sfu.RoomCalls

/-!
# The rooms of one process do not interfere

Calls for any rooms interleave on one process and share its worker pool.  What the
calls for one room do, and what becomes of the room, does not depend on the other
calls: not on which there are, nor on when they go on, nor on whether they fail.
-/

namespace MeetServer.Sfu

open MeetServer.Foundation

variable {Ref : Type}

/-! ## What a call keeps -/

def ConnectTransport.refs : ConnectTransport Ref → List Ref
  | .transportConnect _ t => [t]
  | _ => []

def Produce.refs : Produce Ref → List Ref
  | .transportProduce r _ t => [r, t]
  | _ => []

def Consume.refs : Consume Ref → List Ref
  | .transportConsume r object t => [r, object, t]
  | _ => []

def ResumeConsumer.refs : ResumeConsumer Ref → List Ref
  | .consumerResume _ _ k => [k]
  | _ => []

def SetPaused.refs : SetPaused Ref → List Ref
  | .producerSetPaused r _ => [r]
  | _ => []

namespace MediaCall

def roomId : MediaCall Ref → RoomId
  | .rooms call => call.roomId
  | .connectTransport roomId .. | .produce roomId .. | .consume roomId ..
  | .resumeConsumer roomId .. | .setPaused roomId .. => roomId

/-- The objects that the call goes on with after its await. -/
def refs : MediaCall Ref → List Ref
  | .rooms call => call.refs
  | .connectTransport _ _ _ point => point.refs
  | .produce _ _ _ _ point => point.refs
  | .consume _ _ _ point => point.refs
  | .resumeConsumer _ _ _ point => point.refs
  | .setPaused _ _ _ _ point => point.refs

/-- The call without the worker that `createRoom` has reserved. -/
def unplaced : MediaCall Ref → MediaCall Ref
  | .rooms call => .rooms call.unplaced
  | c => c

end MediaCall

def MediaRequest.roomId (request : MediaRequest Ref) : RoomId := request.call.roomId

variable [DecidableEq Ref]

/-! ## Consumers and connected transports of a room -/

section Views

variable (roomOf : Ref → RoomId) (roomId : RoomId)

structure Consumer.Within (consumer : Consumer Ref) : Prop where
  producerId : roomOf consumer.producerId = roomId
  producerTransport : roomOf consumer.producerTransport = roomId
  transport : roomOf consumer.transport = roomId

structure Media.Separated (m : Media Ref) : Prop where
  rooms : m.rooms.Separated roomOf
  consumers : ∀ object k, k ∈ m.consumers object → roomOf k = roomOf object
  consumer : ∀ k consumer, m.consumer k = some consumer → consumer.Within roomOf (roomOf k)

/-- The processes agree on the room, its producers and its consumers. -/
structure Media.SameRoom (m m' : Media Ref) : Prop where
  rooms : m.rooms.SameRoom roomOf roomId m'.rooms
  consumers : ∀ t, roomOf t = roomId → m'.consumers t = m.consumers t
  consumer : ∀ t, roomOf t = roomId → m'.consumer t = m.consumer t
  connected : ∀ t, roomOf t = roomId → m'.connected t = m.connected t

/-- The change is one of this room, and leads into no other one. -/
structure Media.Stays (m m' : Media Ref) : Prop where
  rooms : m.rooms.Stays roomOf roomId m'.rooms
  consumers : ∀ t, roomOf t ≠ roomId → m'.consumers t = m.consumers t
  consumer : ∀ t, roomOf t ≠ roomId → m'.consumer t = m.consumer t
  connected : ∀ t, roomOf t ≠ roomId → m'.connected t = m.connected t
  separated : m'.Separated roomOf

end Views

variable {roomOf : Ref → RoomId} {roomId : RoomId} {i : Ref} {ok : Bool}

namespace Media

variable {m m' u u' : Media Ref} {s' v' : State Ref} {k t object : Ref}

omit [DecidableEq Ref] in
theorem sameRoom_equivalence :
    Equivalence (Media.SameRoom roomOf roomId : Media Ref → Media Ref → Prop) where
  refl m := ⟨.refl m.rooms, fun _ _ => rfl, fun _ _ => rfl, fun _ _ => rfl⟩
  symm h := ⟨h.rooms.symm, fun t ht => (h.consumers t ht).symm,
    fun t ht => (h.consumer t ht).symm, fun t ht => (h.connected t ht).symm⟩
  trans h h' := ⟨h.rooms.trans h'.rooms,
    fun t ht => (h'.consumers t ht).trans (h.consumers t ht),
    fun t ht => (h'.consumer t ht).trans (h.consumer t ht),
    fun t ht => (h'.connected t ht).trans (h.connected t ht)⟩

theorem Stays.sameRoom (h : m.Stays roomOf roomId m') {other : RoomId} (hne : other ≠ roomId) :
    m.SameRoom roomOf other m' :=
  ⟨h.rooms.sameRoom hne, fun t ht => h.consumers t (ht ▸ hne),
    fun t ht => h.consumer t (ht ▸ hne), fun t ht => h.connected t (ht ▸ hne)⟩

theorem Stays.refl (hm : m.Separated roomOf) : m.Stays roomOf roomId m :=
  ⟨.refl hm.rooms, fun _ _ => rfl, fun _ _ => rfl, fun _ _ => rfl, hm⟩

theorem Stays.setRooms (h : m.Stays roomOf roomId m') (hs : m.rooms.Stays roomOf roomId s') :
    m.Stays roomOf roomId { m' with rooms := s' } :=
  ⟨hs, h.consumers, h.consumer, h.connected, hs.separated, h.separated.consumers,
    h.separated.consumer⟩

omit [DecidableEq Ref] in
theorem SameRoom.setRooms (h : m.SameRoom roomOf roomId u)
    (hs : s'.SameRoom roomOf roomId v') :
    SameRoom roomOf roomId { m with rooms := s' } { u with rooms := v' } :=
  ⟨hs, h.consumers, h.consumer, h.connected⟩

theorem SameRoom.consumerOpen (h : m.SameRoom roomOf roomId u) (hm : m.Separated roomOf)
    (hk : roomOf k = roomId) : u.consumerOpen k = m.consumerOpen k := by
  unfold Media.consumerOpen
  rw [h.consumer k hk]
  cases hconsumer : m.consumer k with
  | none => rfl
  | some consumer =>
      have hwithin := hm.consumer k consumer hconsumer
      simp only [h.rooms.transportOpen hm.rooms (hwithin.transport.trans hk),
        h.rooms.transportOpen hm.rooms (hwithin.producerTransport.trans hk)]

theorem SameRoom.holdsProducer (h : m.SameRoom roomOf roomId u) (hm : m.Separated roomOf) {r : Ref}
    (hr : roomOf r = roomId) (peerId : PeerId) (object producerId : Ref) :
    u.holdsProducer r peerId object producerId = m.holdsProducer r peerId object producerId := by
  unfold Media.holdsProducer
  rw [h.rooms.getPeer hr]
  cases hpeer : (m.rooms.room r).getPeer peerId with
  | none => rfl
  | some peer =>
      have hwithin : peer.Within roomOf roomId := hr ▸ hm.rooms.peer hpeer
      simp only [h.rooms.any_producerOpen hm.rooms hwithin]

/-- The producer that a peer of the room holds is one of the room. -/
theorem Separated.producerId (hm : m.Separated roomOf) {r producerId : Ref} {peerId : PeerId}
    (hheld : m.holdsProducer r peerId object producerId = true) :
    roomOf producerId = roomOf r := by
  unfold Media.holdsProducer at hheld
  split at hheld
  · cases hheld
  · next peer hpeer =>
    obtain ⟨-, hproducer⟩ := Bool.and_eq_true_iff.1 hheld
    cases hlookup : peer.producers.lookup producerId with
    | none => simp [hlookup] at hproducer
    | some producer => exact ((hm.rooms.peer hpeer).producers producerId producer hlookup).1

theorem SameRoom.connect (h : m.SameRoom roomOf roomId u) (t : Ref) :
    SameRoom roomOf roomId { m with connected := Function.update m.connected t true }
      { u with connected := Function.update u.connected t true } := by
  refine ⟨h.rooms, h.consumers, h.consumer, fun v hv => ?_⟩
  by_cases hvt : v = t
  · simp [hvt]
  · simp [hvt, h.connected v hv]

theorem Stays.connect (hm : m.Separated roomOf) (ht : roomOf t = roomId) :
    m.Stays roomOf roomId { m with connected := Function.update m.connected t true } := by
  refine ⟨.refl hm.rooms, fun _ _ => rfl, fun _ _ => rfl, fun v hv => ?_, hm.rooms,
    hm.consumers, hm.consumer⟩
  have hvt : v ≠ t := fun heq => hv (heq ▸ ht)
  simp [hvt]

theorem SameRoom.addConsumer (h : m.SameRoom roomOf roomId u) (i : Ref)
    (hobject : roomOf object = roomId) (consumer : Consumer Ref) :
    (m.addConsumer i object consumer).SameRoom roomOf roomId
      (u.addConsumer i object consumer) := by
  refine ⟨h.rooms, fun v hv => ?_, fun v hv => ?_, h.connected⟩
  · by_cases hvo : v = object
    · simp [Media.addConsumer, hvo, h.consumers object hobject]
    · simp [Media.addConsumer, hvo, h.consumers v hv]
  · by_cases hvi : v = i
    · simp [Media.addConsumer, hvi]
    · simp [Media.addConsumer, hvi, h.consumer v hv]

theorem Stays.addConsumer (hm : m.Separated roomOf) (hi : roomOf i = roomId)
    (hobject : roomOf object = roomId) {consumer : Consumer Ref}
    (hconsumer : consumer.Within roomOf roomId) :
    m.Stays roomOf roomId (m.addConsumer i object consumer) := by
  refine ⟨.refl hm.rooms, fun v hv => ?_, fun v hv => ?_, fun _ _ => rfl, hm.rooms,
    fun v k hk => ?_, fun v consumer' hv => ?_⟩
  · have hvo : v ≠ object := fun heq => hv (heq ▸ hobject)
    simp [Media.addConsumer, hvo]
  · have hvi : v ≠ i := fun heq => hv (heq ▸ hi)
    simp [Media.addConsumer, hvi]
  · by_cases hvo : v = object
    · subst hvo
      simp only [Media.addConsumer, Function.update_self, Finset.mem_insert] at hk
      rcases hk with rfl | hk
      · exact hi.trans hobject.symm
      · exact hm.consumers v k hk
    · simp only [Media.addConsumer, Function.update_of_ne hvo] at hk
      exact hm.consumers v k hk
  · by_cases hvi : v = i
    · subst hvi
      simp only [Media.addConsumer, Function.update_self, Option.some.injEq] at hv
      exact hv ▸ hi ▸ hconsumer
    · simp only [Media.addConsumer, Function.update_of_ne hvi] at hv
      exact hm.consumer v consumer' hv

theorem SameRoom.setConsumerPaused (h : m.SameRoom roomOf roomId u) (hk : roomOf k = roomId)
    (paused : Bool) :
    (m.setConsumerPaused k paused).SameRoom roomOf roomId (u.setConsumerPaused k paused) := by
  refine ⟨h.rooms, h.consumers, fun v hv => ?_, h.connected⟩
  by_cases hvk : v = k
  · simp [Media.setConsumerPaused, hvk, h.consumer k hk]
  · simp [Media.setConsumerPaused, hvk, h.consumer v hv]

theorem Stays.setConsumerPaused (hm : m.Separated roomOf) (hk : roomOf k = roomId)
    (paused : Bool) : m.Stays roomOf roomId (m.setConsumerPaused k paused) := by
  refine ⟨.refl hm.rooms, fun _ _ => rfl, fun v hv => ?_, fun _ _ => rfl, hm.rooms,
    hm.consumers, fun v consumer' hv => ?_⟩
  · have hvk : v ≠ k := fun heq => hv (heq ▸ hk)
    simp [Media.setConsumerPaused, hvk]
  · by_cases hvk : v = k
    · subst hvk
      simp only [Media.setConsumerPaused, Function.update_self] at hv
      obtain ⟨consumer, hconsumer, rfl⟩ := Option.map_eq_some_iff.1 hv
      obtain ⟨hproducer, hsender, hreceiver⟩ := hm.consumer v consumer hconsumer
      exact ⟨hproducer, hsender, hreceiver⟩
    · simp only [Media.setConsumerPaused, Function.update_of_ne hvk] at hv
      exact hm.consumer v consumer' hv

theorem SameRoom.mirrorPaused (h : m.SameRoom roomOf roomId u) (hm : m.Separated roomOf)
    (producerId : Ref) (paused : Bool) :
    (m.mirrorPaused producerId paused).SameRoom roomOf roomId
      (u.mirrorPaused producerId paused) := by
  refine ⟨h.rooms, h.consumers, fun v hv => ?_, h.connected⟩
  simp only [Media.mirrorPaused, h.consumer v hv, h.consumerOpen hm hv]

/-- Consumers of other rooms are not of this producer. -/
theorem Stays.mirrorPaused (hm : m.Separated roomOf) {producerId : Ref}
    (hproducer : roomOf producerId = roomId) (paused : Bool) :
    m.Stays roomOf roomId (m.mirrorPaused producerId paused) := by
  refine ⟨.refl hm.rooms, fun _ _ => rfl, fun v hv => ?_, fun _ _ => rfl, hm.rooms,
    hm.consumers, fun v consumer' hv => ?_⟩
  · simp only [Media.mirrorPaused]
    cases hconsumer : m.consumer v with
    | none => rfl
    | some consumer =>
        have hne : consumer.producerId ≠ producerId := fun heq =>
          hv ((hm.consumer v consumer hconsumer).producerId ▸ heq ▸ hproducer)
        simp [hne]
  · obtain ⟨consumer, hconsumer, rfl⟩ := Option.map_eq_some_iff.1 hv
    obtain ⟨hid, hsender, hreceiver⟩ := hm.consumer v consumer hconsumer
    split
    · exact ⟨hid, hsender, hreceiver⟩
    · exact ⟨hid, hsender, hreceiver⟩

end Media

/-! ## The steps of these calls -/

/-- Both processes go on, and the room and the call stay alike, or neither does. -/
abbrev AlikeMediaSteps {P : Type} (roomOf : Ref → RoomId) (roomId : RoomId) :
    Option (Media Ref × P) → Option (Media Ref × P) → Prop :=
  Option.Rel fun a b => a.1.SameRoom roomOf roomId b.1 ∧ b.2 = a.2

section MediaCalls

variable {m m' u : Media Ref} {s s' v : State Ref} {peerId : PeerId}

namespace ConnectTransport

variable {transportId : Ref} {point point' : ConnectTransport Ref}

theorem stays (hm : m.Separated roomOf) (hp : ∀ t ∈ point.refs, roomOf t = roomId)
    (h : point.step roomId peerId transportId ok m = some (m', point')) :
    m.Stays roomOf roomId m' ∧ ∀ t ∈ point'.refs, roomOf t = roomId := by
  cases point with
  | call =>
      simp only [step] at h
      split at h
      · cases h
        exact ⟨.refl hm, by simp [refs]⟩
      · next r hr =>
        split at h
        · cases h
          exact ⟨.refl hm, by simp [refs]⟩
        · next peer hpeer =>
          have hwithin : peer.Within roomOf roomId :=
            hm.rooms.rooms roomId r hr ▸ hm.rooms.peer hpeer
          split at h <;> cases h
          · next hown =>
            refine ⟨.refl hm, ?_⟩
            simpa [refs] using hown.elim (hwithin.sendTransport _) (hwithin.recvTransport _)
          · exact ⟨.refl hm, by simp [refs]⟩
  | transportConnect r t =>
      simp only [step] at h
      split at h
      · split at h <;> cases h
        exact ⟨.connect hm (hp t (by simp [refs])), by simp [refs]⟩
      · cases h
        exact ⟨.refl hm, by simp [refs]⟩
  | returned => cases h
  | threw => cases h

theorem sameRoom (h : m.SameRoom roomOf roomId u) (hm : m.Separated roomOf)
    (hp : ∀ t ∈ point.refs, roomOf t = roomId) :
    AlikeMediaSteps roomOf roomId (point.step roomId peerId transportId ok m)
      (point.step roomId peerId transportId ok u) := by
  cases point with
  | call =>
      simp only [step, h.rooms.rooms]
      split
      · exact .some ⟨h, rfl⟩
      · next r hr =>
        simp only [h.rooms.getPeer (hm.rooms.rooms roomId r hr)]
        split
        · exact .some ⟨h, rfl⟩
        · split
          · exact .some ⟨h, rfl⟩
          · exact .some ⟨h, rfl⟩
  | transportConnect r t =>
      simp only [step, h.rooms.transportOpen hm.rooms (hp t (by simp [refs]))]
      split
      · split
        · exact .some ⟨h.connect t, rfl⟩
        · exact .none
      · exact .some ⟨h, rfl⟩
  | returned => exact .none
  | threw => exact .none

end ConnectTransport

namespace Produce

variable {transportId : Ref} {kind : MediaKind} {point point' : Produce Ref}

omit [DecidableEq Ref] in
theorem refs_afterProduce (i : Ref) (roomId : RoomId) (kind : MediaKind) (s : State Ref) :
    (afterProduce i roomId kind s).refs = [] := by
  unfold afterProduce
  split
  · rfl
  · split <;> rfl

theorem stays (hs : s.Separated roomOf) (hi : roomOf i = roomId)
    (hp : ∀ t ∈ point.refs, roomOf t = roomId)
    (h : point.step i roomId peerId transportId kind ok s = some (s', point')) :
    s.Stays roomOf roomId s' ∧ ∀ t ∈ point'.refs, roomOf t = roomId := by
  cases point with
  | call =>
      simp only [step] at h
      split at h
      · cases h
        exact ⟨.refl hs, by simp [refs]⟩
      · next r hr =>
        split at h
        · cases h
          exact ⟨.refl hs, by simp [refs]⟩
        · next peer hpeer =>
          have hr := hs.rooms roomId r hr
          have hwithin : peer.Within roomOf roomId := hr ▸ hs.peer hpeer
          split at h <;> cases h
          · next hown => exact ⟨.refl hs, by simpa [refs] using ⟨hr, hwithin.sendTransport _ hown⟩⟩
          · exact ⟨.refl hs, by simp [refs]⟩
  | transportProduce r object t =>
      have hr : roomOf r = roomId := hp r (by simp [refs])
      have ht : roomOf t = roomId := hp t (by simp [refs])
      simp only [step] at h
      split at h
      · split at h <;> cases h
        exact ⟨.updatePeer hs hr peerId object fun peer hpeer => hpeer.addProducer hi ht,
          by simp [refs_afterProduce]⟩
      · cases h
        exact ⟨.refl hs, by simp [refs]⟩
  | tapProducer producer =>
      simp only [step] at h
      split at h <;> cases h <;> exact ⟨.refl hs, by simp [refs]⟩
  | returned => cases h
  | threw => cases h

theorem afterProduce_congr (h : s.SameRoom roomOf roomId v) (hs : s.Separated roomOf) (i : Ref)
    (kind : MediaKind) : afterProduce i roomId kind v = afterProduce i roomId kind s := by
  unfold afterProduce
  rw [h.rooms]
  split
  · rfl
  · next r hr => rw [MediaRoom.recording_congr (h.room (hs.rooms roomId r hr))]

theorem sameRoom (h : s.SameRoom roomOf roomId v) (hs : s.Separated roomOf)
    (hi : roomOf i = roomId) (hp : ∀ t ∈ point.refs, roomOf t = roomId) :
    AlikeSteps roomOf roomId (point.step i roomId peerId transportId kind ok s)
      (point.step i roomId peerId transportId kind ok v) := by
  cases point with
  | call =>
      simp only [step, h.rooms]
      split
      · exact .some ⟨h, rfl⟩
      · next r hr =>
        simp only [h.getPeer (hs.rooms roomId r hr)]
        split
        · exact .some ⟨h, rfl⟩
        · split
          · exact .some ⟨h, rfl⟩
          · exact .some ⟨h, rfl⟩
  | transportProduce r object t =>
      have hr : roomOf r = roomId := hp r (by simp [refs])
      have ht : roomOf t = roomId := hp t (by simp [refs])
      simp only [step, h.transportOpen hs ht]
      split
      · split
        · have hproduced := h.updatePeer hr peerId object fun peer =>
            peer.addProducer i { kind := kind, transport := t }
          refine .some ⟨hproduced, afterProduce_congr hproduced ?_ i kind⟩
          exact (State.Stays.updatePeer hs hr peerId object fun peer hpeer =>
            hpeer.addProducer hi ht).separated
        · exact .none
      · exact .some ⟨h, rfl⟩
  | tapProducer producer => exact .some ⟨h, rfl⟩
  | returned => exact .none
  | threw => exact .none

end Produce

namespace Consume

variable {producerId : Ref} {point point' : Consume Ref}

theorem stays (hm : m.Separated roomOf) (hi : roomOf i = roomId)
    (hp : ∀ t ∈ point.refs, roomOf t = roomId)
    (h : point.step i roomId peerId producerId ok m = some (m', point')) :
    m.Stays roomOf roomId m' ∧ ∀ t ∈ point'.refs, roomOf t = roomId := by
  cases point with
  | call =>
      simp only [step] at h
      split at h
      · cases h
        exact ⟨.refl hm, by simp [refs]⟩
      · next r hr =>
        split at h
        · cases h
          exact ⟨.refl hm, by simp [refs]⟩
        · next peer hpeer =>
          have hr := hm.rooms.rooms roomId r hr
          have hwithin : peer.Within roomOf roomId := hr ▸ hm.rooms.peer hpeer
          split at h
          · split at h <;> cases h
            · exact ⟨.refl hm, by simp [refs]⟩
            · next t ht =>
              refine ⟨.refl hm, ?_⟩
              simpa [refs] using ⟨hr, hwithin.object, hwithin.recvTransport t ht⟩
          · cases h
            exact ⟨.refl hm, by simp [refs]⟩
  | transportConsume r object t =>
      have hr : roomOf r = roomId := hp r (by simp [refs])
      simp only [step] at h
      split at h
      · split at h
        · cases h
        · next producer hproducer =>
          have hwithin := hm.rooms.routerProducer hproducer
          split at h <;> cases h
          refine ⟨.addConsumer hm hi (hp object (by simp [refs])) ?_, by simp [refs]⟩
          exact ⟨hwithin.1.trans hr, hwithin.2.trans hr, hp t (by simp [refs])⟩
      · cases h
        exact ⟨.refl hm, by simp [refs]⟩
  | returned => cases h
  | threw => cases h

theorem sameRoom (h : m.SameRoom roomOf roomId u) (hm : m.Separated roomOf)
    (hp : ∀ t ∈ point.refs, roomOf t = roomId) :
    AlikeMediaSteps roomOf roomId (point.step i roomId peerId producerId ok m)
      (point.step i roomId peerId producerId ok u) := by
  cases point with
  | call =>
      simp only [step, h.rooms.rooms]
      split
      · exact .some ⟨h, rfl⟩
      · next r hr =>
        have hr := hm.rooms.rooms roomId r hr
        simp only [h.rooms.getPeer hr, h.rooms.routerProducer hm.rooms hr]
        split
        · exact .some ⟨h, rfl⟩
        · split
          · split
            · exact .some ⟨h, rfl⟩
            · exact .some ⟨h, rfl⟩
          · exact .some ⟨h, rfl⟩
  | transportConsume r object t =>
      have hr : roomOf r = roomId := hp r (by simp [refs])
      have ht : roomOf t = roomId := hp t (by simp [refs])
      simp only [step, h.rooms.routerProducer hm.rooms hr, h.rooms.transportOpen hm.rooms ht]
      split
      · split
        · exact .none
        · split
          · exact .some ⟨h.addConsumer i (hp object (by simp [refs])) _, rfl⟩
          · exact .none
      · exact .some ⟨h, rfl⟩
  | returned => exact .none
  | threw => exact .none

end Consume

namespace ResumeConsumer

variable {consumerId : Ref} {point point' : ResumeConsumer Ref}

theorem stays (hm : m.Separated roomOf) (hp : ∀ t ∈ point.refs, roomOf t = roomId)
    (h : point.step roomId peerId consumerId ok m = some (m', point')) :
    m.Stays roomOf roomId m' ∧ ∀ t ∈ point'.refs, roomOf t = roomId := by
  cases point with
  | call =>
      simp only [step] at h
      split at h
      · cases h
        exact ⟨.refl hm, by simp [refs]⟩
      · next r hr =>
        split at h
        · cases h
          exact ⟨.refl hm, by simp [refs]⟩
        · next peer hpeer =>
          have hwithin : peer.Within roomOf roomId :=
            hm.rooms.rooms roomId r hr ▸ hm.rooms.peer hpeer
          split at h <;> cases h
          · next hown =>
            refine ⟨.refl hm, ?_⟩
            simpa [refs] using (hm.consumers _ _ hown.1).trans hwithin.object
          · exact ⟨.refl hm, by simp [refs]⟩
  | consumerResume r object k =>
      simp only [step] at h
      split at h
      · split at h <;> cases h
        exact ⟨.setConsumerPaused hm (hp k (by simp [refs])) false, by simp [refs]⟩
      · cases h
        exact ⟨.refl hm, by simp [refs]⟩
  | returned => cases h
  | threw => cases h

theorem sameRoom (h : m.SameRoom roomOf roomId u) (hm : m.Separated roomOf)
    (hp : ∀ t ∈ point.refs, roomOf t = roomId) :
    AlikeMediaSteps roomOf roomId (point.step roomId peerId consumerId ok m)
      (point.step roomId peerId consumerId ok u) := by
  cases point with
  | call =>
      simp only [step, h.rooms.rooms]
      split
      · exact .some ⟨h, rfl⟩
      · next r hr =>
        have hr := hm.rooms.rooms roomId r hr
        simp only [h.rooms.getPeer hr]
        split
        · exact .some ⟨h, rfl⟩
        · next peer hpeer =>
          have hobject : roomOf peer.object = roomId := (hr ▸ hm.rooms.peer hpeer).object
          rw [h.consumers peer.object hobject]
          by_cases hlisted : consumerId ∈ m.consumers peer.object
          · rw [h.consumerOpen hm ((hm.consumers _ _ hlisted).trans hobject)]
            split
            · exact .some ⟨h, rfl⟩
            · exact .some ⟨h, rfl⟩
          · rw [if_neg fun hown => hlisted hown.1, if_neg fun hown => hlisted hown.1]
            exact .some ⟨h, rfl⟩
  | consumerResume r object k =>
      have hk : roomOf k = roomId := hp k (by simp [refs])
      simp only [step, h.consumerOpen hm hk]
      split
      · split
        · exact .some ⟨h.setConsumerPaused hk false, rfl⟩
        · exact .none
      · exact .some ⟨h, rfl⟩
  | returned => exact .none
  | threw => exact .none

end ResumeConsumer

namespace SetPaused

variable {producerId : Ref} {paused : Bool} {point point' : SetPaused Ref}

theorem stays (hm : m.Separated roomOf) (hp : ∀ t ∈ point.refs, roomOf t = roomId)
    (h : point.mediaStep roomId peerId producerId paused ok m = some (m', point')) :
    m.Stays roomOf roomId m' ∧ ∀ t ∈ point'.refs, roomOf t = roomId := by
  cases point with
  | call =>
      obtain ⟨⟨s', point'⟩, hpoint, hresult⟩ := Option.map_eq_some_iff.1 h
      cases hresult
      simp only [step] at hpoint
      split at hpoint
      · cases hpoint
        exact ⟨.refl hm, by simp [refs]⟩
      · next r hr =>
        split at hpoint
        · cases hpoint
          exact ⟨.refl hm, by simp [refs]⟩
        · split at hpoint <;> cases hpoint
          · exact ⟨.refl hm, by simpa [refs] using hm.rooms.rooms roomId r hr⟩
          · exact ⟨.refl hm, by simp [refs]⟩
  | producerSetPaused r object =>
      have hr : roomOf r = roomId := hp r (by simp [refs])
      simp only [mediaStep, step] at h
      cases ok with
      | false =>
          cases h
          exact ⟨.refl hm, by simp [refs]⟩
      | true =>
          split at h
          · cases h
          · next hholds =>
            cases h
            have hproducer := hm.producerId (by simpa using hholds)
            refine ⟨(Media.Stays.mirrorPaused hm (hproducer.trans hr) paused).setRooms ?_,
              by simp [refs]⟩
            exact .updatePeer hm.rooms hr peerId object fun peer hpeer =>
              hpeer.setPaused producerId paused
  | returned => cases h
  | threw => cases h

theorem sameRoom (h : m.SameRoom roomOf roomId u) (hm : m.Separated roomOf)
    (hp : ∀ t ∈ point.refs, roomOf t = roomId) :
    AlikeMediaSteps roomOf roomId (point.mediaStep roomId peerId producerId paused ok m)
      (point.mediaStep roomId peerId producerId paused ok u) := by
  cases point with
  | call =>
      refine rel_map (R := fun a b => a.1.SameRoom roomOf roomId b.1 ∧ b.2 = a.2) ?_ fun a b hab =>
        ⟨h.setRooms hab.1, hab.2⟩
      simp only [step, h.rooms.rooms]
      split
      · exact .some ⟨h.rooms, rfl⟩
      · next r hr =>
        have hr := hm.rooms.rooms roomId r hr
        simp only [h.rooms.getPeer hr]
        split
        · exact .some ⟨h.rooms, rfl⟩
        · next peer hpeer =>
          simp only [h.rooms.any_producerOpen hm.rooms (hr ▸ hm.rooms.peer hpeer)]
          split
          · exact .some ⟨h.rooms, rfl⟩
          · exact .some ⟨h.rooms, rfl⟩
  | producerSetPaused r object =>
      have hr : roomOf r = roomId := hp r (by simp [refs])
      simp only [mediaStep, step, h.holdsProducer hm hr]
      cases ok with
      | false => exact .some ⟨h, rfl⟩
      | true =>
          split
          · exact .none
          · refine .some ⟨(h.mirrorPaused hm producerId paused).setRooms ?_, rfl⟩
            exact h.rooms.updatePeer hr peerId object _
  | returned => exact .none
  | threw => exact .none

end SetPaused

end MediaCalls

/-! ## The calls of one process -/

namespace MediaCall

variable {m m' u : Media Ref} {c c' : MediaCall Ref}

theorem stays (hm : m.Separated roomOf) (hi : roomOf i = c.roomId)
    (hc : ∀ t ∈ c.refs, roomOf t = c.roomId) (h : c.step i ok m = some (m', c')) :
    m.Stays roomOf c.roomId m' ∧ c'.roomId = c.roomId ∧ ∀ t ∈ c'.refs, roomOf t = c.roomId := by
  cases c with
  | rooms call =>
      obtain ⟨⟨s', call'⟩, hcall, hr⟩ := Option.map_eq_some_iff.1 h
      cases hr
      obtain ⟨hstays, hroomId, hrefs⟩ := Call.stays hm.rooms hi hc hcall
      exact ⟨(Media.Stays.refl hm).setRooms hstays, hroomId, hrefs⟩
  | connectTransport roomId peerId transportId point =>
      obtain ⟨⟨m', point'⟩, hpoint, hr⟩ := Option.map_eq_some_iff.1 h
      cases hr
      obtain ⟨hstays, hrefs⟩ := ConnectTransport.stays hm hc hpoint
      exact ⟨hstays, rfl, hrefs⟩
  | produce roomId peerId transportId kind point =>
      obtain ⟨⟨s', point'⟩, hpoint, hr⟩ := Option.map_eq_some_iff.1 h
      cases hr
      obtain ⟨hstays, hrefs⟩ := Produce.stays hm.rooms hi hc hpoint
      exact ⟨(Media.Stays.refl hm).setRooms hstays, rfl, hrefs⟩
  | consume roomId peerId producerId point =>
      obtain ⟨⟨m', point'⟩, hpoint, hr⟩ := Option.map_eq_some_iff.1 h
      cases hr
      obtain ⟨hstays, hrefs⟩ := Consume.stays hm hi hc hpoint
      exact ⟨hstays, rfl, hrefs⟩
  | resumeConsumer roomId peerId consumerId point =>
      obtain ⟨⟨m', point'⟩, hpoint, hr⟩ := Option.map_eq_some_iff.1 h
      cases hr
      obtain ⟨hstays, hrefs⟩ := ResumeConsumer.stays hm hc hpoint
      exact ⟨hstays, rfl, hrefs⟩
  | setPaused roomId peerId producerId paused point =>
      obtain ⟨⟨m', point'⟩, hpoint, hr⟩ := Option.map_eq_some_iff.1 h
      cases hr
      obtain ⟨hstays, hrefs⟩ := SetPaused.stays hm hc hpoint
      exact ⟨hstays, rfl, hrefs⟩

omit [DecidableEq Ref] in
theorem eq_of_unplaced (hc : ∀ call, c ≠ .rooms call) (h : c'.unplaced = c.unplaced) : c' = c := by
  cases c with
  | rooms call => exact (hc call rfl).elim
  | _ => cases c' <;> first | exact h | cases h

theorem sameRoom (h : m.SameRoom roomOf c.roomId u) (hm : m.Separated roomOf)
    (hi : roomOf i = c.roomId) (hc : ∀ t ∈ c.refs, roomOf t = c.roomId)
    (hcalls : c'.unplaced = c.unplaced) :
    Option.Rel (fun a b => a.1.SameRoom roomOf c.roomId b.1 ∧ b.2.unplaced = a.2.unplaced)
      (c.step i ok m) (c'.step i ok u) := by
  cases c with
  | rooms call =>
      obtain ⟨call', rfl, hcall⟩ : ∃ call', c' = .rooms call' ∧ call'.unplaced = call.unplaced := by
        cases c' with
        | rooms call' => exact ⟨call', rfl, MediaCall.rooms.inj hcalls⟩
        | _ => cases hcalls
      exact rel_map (Call.sameRoom h.rooms hm.rooms hi hc hcall) fun a b hab =>
        ⟨h.setRooms hab.1, congrArg MediaCall.rooms hab.2⟩
  | connectTransport roomId peerId transportId point =>
      obtain rfl := eq_of_unplaced (by simp) hcalls
      exact rel_map (ConnectTransport.sameRoom h hm hc) fun a b hab => ⟨hab.1, by rw [hab.2]⟩
  | produce roomId peerId transportId kind point =>
      obtain rfl := eq_of_unplaced (by simp) hcalls
      exact rel_map (Produce.sameRoom h.rooms hm.rooms hi hc) fun a b hab =>
        ⟨h.setRooms hab.1, by rw [hab.2]⟩
  | consume roomId peerId producerId point =>
      obtain rfl := eq_of_unplaced (by simp) hcalls
      exact rel_map (Consume.sameRoom h hm hc) fun a b hab => ⟨hab.1, by rw [hab.2]⟩
  | resumeConsumer roomId peerId consumerId point =>
      obtain rfl := eq_of_unplaced (by simp) hcalls
      exact rel_map (ResumeConsumer.sameRoom h hm hc) fun a b hab => ⟨hab.1, by rw [hab.2]⟩
  | setPaused roomId peerId producerId paused point =>
      obtain rfl := eq_of_unplaced (by simp) hcalls
      exact rel_map (SetPaused.sameRoom h hm hc) fun a b hab => ⟨hab.1, by rw [hab.2]⟩

end MediaCall

/-! ## Any run -/

/-- No object of the process leads from one room into another, and no call goes from its room
into another. -/
structure MediaProcess.Separated (roomOf : Ref → RoomId) (p : MediaProcess Ref) : Prop where
  world : p.world.Separated roomOf
  roomId : ∀ i, roomOf i = (p.proc i).roomId
  refs : ∀ i, ∀ t ∈ (p.proc i).refs, roomOf t = (p.proc i).roomId

namespace MediaProcess.Separated

theorem spawned (workers : List Worker) (requests : Ref → MediaRequest Ref) :
    (MediaProcess.spawned workers requests).Separated fun i => (requests i).roomId where
  world := by
    refine ⟨⟨by simp [MediaProcess.spawned, Media.spawned, State.spawned],
      by simp [MediaProcess.spawned, Media.spawned, State.spawned], fun t => ⟨?_, ?_, ?_⟩⟩,
      ?_, ?_⟩
    · simp [MediaProcess.spawned, Media.spawned, State.spawned, State.objects]
    · intro peerId peer hpeer
      cases hpeer
    · simp [MediaProcess.spawned, Media.spawned, State.spawned, State.objects]
    · simp [MediaProcess.spawned, Media.spawned]
    · simp [MediaProcess.spawned, Media.spawned]
  roomId _ := rfl
  refs i t ht := by
    have hnone : (requests i).call.refs = [] := by
      cases requests i with
      | rooms request => cases request <;> rfl
      | _ => rfl
    simp [MediaProcess.spawned, hnone] at ht

theorem preserves : (mediaService : System (MediaProcess Ref) _).Preserves (fun _ _ => True)
    (MediaProcess.Separated roomOf) := by
  rintro p ⟨i, ok⟩ p' h - hstep
  obtain ⟨m', c', hcall, rfl⟩ := Pool.step_eq_some.1 hstep
  obtain ⟨hstays, hroomId, hrefs⟩ := MediaCall.stays h.world (h.roomId i) (h.refs i) hcall
  refine ⟨hstays.separated, fun j => ?_, fun j => ?_⟩
  · rw [Pool.set_proc]
    split
    · next hj => rw [hj, hroomId, h.roomId i]
    · exact h.roomId j
  · rw [Pool.set_proc]
    split
    · rw [hroomId]
      exact hrefs
    · exact h.refs j

end MediaProcess.Separated

/-- The calls for the room see the room, and no worker. -/
theorem room_unwinding (roomOf : Ref → RoomId) (roomId : RoomId) :
    Unwinding (MediaCall.step : Ref → Bool → Media Ref → MediaCall Ref → _)
      (fun i => decide (roomOf i = roomId))
      (MediaProcess.Separated roomOf) (Media.SameRoom roomOf roomId)
      (fun c c' => c'.unplaced = c.unplaced) where
  same := Media.sameRoom_equivalence
  preserves := MediaProcess.Separated.preserves
  others := by
    intro s i ok m' c' hs hi hstep
    obtain ⟨hstays, -, -⟩ := MediaCall.stays hs.world (hs.roomId i) (hs.refs i) hstep
    refine hstays.sameRoom fun heq => ?_
    rw [decide_eq_false_iff_not, hs.roomId i] at hi
    exact hi heq.symm
  owns := by
    intro s s' i ok hs _ hi hsame hcalls
    obtain rfl := of_decide_eq_true hi
    rw [hs.roomId i] at hsame ⊢
    exact MediaCall.sameRoom hsame hs.world (hs.roomId i) (hs.refs i) hcalls

/-- A run and the steps of the calls for the room in it, and that both are separated. -/
theorem indistinguishable_filter (workers : List Worker) (requests : Ref → MediaRequest Ref)
    (roomId : RoomId) (schedule : List (Ref × Bool)) :
    let roomOf i := (requests i).roomId
    let p := mediaService.run (MediaProcess.spawned workers requests) schedule
    let alone := mediaService.run (MediaProcess.spawned workers requests)
      (schedule.filter fun event => roomOf event.1 = roomId)
    Pool.Indistinguishable (fun i => decide (roomOf i = roomId)) (Media.SameRoom roomOf roomId)
        (fun c c' => c'.unplaced = c.unplaced) p alone ∧
      p.Separated roomOf ∧ alone.Separated roomOf := by
  intro roomOf p alone
  have hspawned := MediaProcess.Separated.spawned workers requests
  exact (room_unwinding roomOf roomId).run_filter hspawned hspawned
    ⟨Media.sameRoom_equivalence.refl _, fun _ _ => rfl⟩ schedule

/-- In every run the calls for a room come as far as they come when only their own steps are
taken, with the same room, and can go on at the same points. -/
theorem rooms_noninterfere (workers : List Worker) (requests : Ref → MediaRequest Ref)
    (roomId : RoomId) (schedule : List (Ref × Bool)) :
    let roomOf i := (requests i).roomId
    let p := mediaService.run (MediaProcess.spawned workers requests) schedule
    let alone := mediaService.run (MediaProcess.spawned workers requests)
      (schedule.filter fun event => roomOf event.1 = roomId)
    p.world.SameRoom roomOf roomId alone.world ∧
      ∀ i, roomOf i = roomId →
        (alone.proc i).unplaced = (p.proc i).unplaced ∧
          ∀ ok, (mediaService.step alone (i, ok)).isSome =
            (mediaService.step p (i, ok)).isSome := by
  intro roomOf p alone
  obtain ⟨halike, hp, halone⟩ := indistinguishable_filter workers requests roomId schedule
  refine ⟨halike.world, fun i hi => ⟨halike.proc i (decide_eq_true hi), fun ok => ?_⟩⟩
  exact ((room_unwinding roomOf roomId).isSome_step hp halone halike (decide_eq_true hi)).symm

end MeetServer.Sfu
