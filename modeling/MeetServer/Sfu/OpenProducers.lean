import MeetServer.Sfu.Producers

/-!
# The open producers of a MediaRoom

A producer closes with its transport.  `Owned` says that every transport in use
belongs to one peer and one direction, and that an open producer sits on its
peer's current send transport; what each operation does to the open producers
follows from it.
-/

namespace MeetServer.Sfu

open MeetServer.Foundation

variable {Ref : Type}

theorem MediaRoom.getPeer_setPeer (room : MediaRoom Ref) (peer : MediaPeer Ref)
    (peerId : PeerId) : (room.setPeer peer).getPeer peerId =
      if peerId = peer.id then some peer else room.getPeer peerId :=
  Dict.lookup_insert_ite room.peers peer.id peerId peer

theorem MediaRoom.getPeer_deletePeer (room : MediaRoom Ref)
    (peerId peerId' : PeerId) : (room.deletePeer peerId).getPeer peerId' =
      if peerId' = peerId then none else room.getPeer peerId' :=
  Dict.lookup_erase_ite room.peers peerId peerId'

theorem MediaRoom.getPeer_getOrCreatePeer (room : MediaRoom Ref)
    (peerId peerId' : PeerId) (object : Ref) :
    (room.getOrCreatePeer peerId object).1.getPeer peerId' =
      if peerId' = peerId then some (room.getOrCreatePeer peerId object).2
      else room.getPeer peerId' := by
  unfold getOrCreatePeer
  split
  · next peer hpeer =>
    split
    · next heq => rw [heq, hpeer]
    · rfl
  · exact room.getPeer_setPeer _ peerId'

@[simp] theorem MediaPeer.id_setTransport (peer : MediaPeer Ref) (t : Ref)
    (direction : TransportDirection) :
    (peer.setTransport t direction).id = peer.id := by
  cases direction <;> rfl

@[simp] theorem MediaPeer.producers_setTransport (peer : MediaPeer Ref) (t : Ref)
    (direction : TransportDirection) :
    (peer.setTransport t direction).producers = peer.producers := by
  cases direction <;> rfl

theorem MediaPeer.transportFor_setTransport (peer : MediaPeer Ref) (t : Ref)
    (direction direction' : TransportDirection) :
    (peer.setTransport t direction).transportFor direction' =
      if direction' = direction then some t else peer.transportFor direction' := by
  cases direction <;> cases direction' <;> rfl

variable [DecidableEq Ref]

namespace State

def producers (s : State Ref) (r : Ref) (peerId : PeerId) :
    Dict Ref (Producer Ref) :=
  match (s.room r).getPeer peerId with
  | none => ∅
  | some peer => peer.producers

/-- The kind of the producer, if it is open. -/
def openProducer (s : State Ref) (r : Ref) (peerId : PeerId) (producerId : Ref) :
    Option MediaKind :=
  ((s.producers r peerId).lookup producerId).bind fun producer =>
    if s.producerOpen producer then some producer.kind else none

theorem openProducer_congr {s s' : State Ref} {r : Ref} {peerId : PeerId}
    {producerId : Ref} (hproducers : s'.producers r peerId = s.producers r peerId)
    (hopen : ∀ producer, (s.producers r peerId).lookup producerId = some producer →
      s'.transportOpen producer.transport = s.transportOpen producer.transport) :
    s'.openProducer r peerId producerId = s.openProducer r peerId producerId := by
  unfold openProducer
  rw [hproducers]
  cases h : (s.producers r peerId).lookup producerId with
  | none => rfl
  | some producer =>
      rw [Option.bind_some, Option.bind_some, producerOpen, producerOpen,
        hopen producer h]

theorem openProducer_eq_none {s : State Ref} {r : Ref} {peerId : PeerId}
    {producerId : Ref} (hclosed : ∀ producer,
      (s.producers r peerId).lookup producerId = some producer →
      s.transportOpen producer.transport = false) :
    s.openProducer r peerId producerId = none := by
  unfold openProducer
  cases h : (s.producers r peerId).lookup producerId with
  | none => rfl
  | some producer => simp [producerOpen, hclosed producer h]

@[simp] theorem room_setRoom (s : State Ref) (r : Ref) (room : MediaRoom Ref) :
    (s.setRoom r room).room r = room := by
  simp [setRoom]

@[simp] theorem transportOpen_setRoom (s : State Ref) (r : Ref)
    (room : MediaRoom Ref) (t : Ref) :
    (s.setRoom r room).transportOpen t = s.transportOpen t := rfl

@[simp] theorem room_closeTransport (s : State Ref) (transport : Option Ref) :
    (s.closeTransport transport).room = s.room := rfl

@[simp] theorem room_openTransport (s : State Ref) (i r : Ref) :
    (s.openTransport i r).room = s.room := rfl

theorem transportOpen_closeTransport (s : State Ref) (transport : Option Ref)
    (t : Ref) : (s.closeTransport transport).transportOpen t =
      if transport = some t then false else s.transportOpen t := by
  cases transport with
  | none => rfl
  | some t' =>
      by_cases h : t = t'
      · subst h
        cases ht : s.transport t <;> simp [transportOpen, closeTransport, ht]
      · simp [transportOpen, closeTransport, h, Ne.symm h]

theorem transportOpen_openTransport (s : State Ref) (i r t : Ref) :
    (s.openTransport i r).transportOpen t =
      if t = i then s.routerOpen r else s.transportOpen t := by
  by_cases h : t = i <;> simp [transportOpen, openTransport, h]

/-- The transports of a MediaRoom; `used` holds of the names given so far. -/
structure Owned (r : Ref) (used : Ref → Prop) (s : State Ref) : Prop where
  keyed : ∀ p peer, (s.room r).getPeer p = some peer → peer.id = p
  named : ∀ p peer direction t, (s.room r).getPeer p = some peer →
    peer.transportFor direction = some t → used t
  carried : ∀ p producerId producer,
    (s.producers r p).lookup producerId = some producer → used producer.transport
  owner : ∀ p q peer peer' direction direction' t,
    (s.room r).getPeer p = some peer → (s.room r).getPeer q = some peer' →
    peer.transportFor direction = some t →
    peer'.transportFor direction' = some t → p = q ∧ direction = direction'
  sends : ∀ p producerId producer,
    (s.producers r p).lookup producerId = some producer →
    s.transportOpen producer.transport → ∃ peer,
      (s.room r).getPeer p = some peer ∧
        peer.transportFor .send = some producer.transport

variable {s : State Ref} {r : Ref} {used : Ref → Prop}

theorem Owned.mono {used' : Ref → Prop} (h : s.Owned r used)
    (hused : ∀ t, used t → used' t) : s.Owned r used' :=
  { h with
    named p peer direction t hp ht := hused t (h.named p peer direction t hp ht)
    carried p producerId producer hproducer :=
      hused _ (h.carried p producerId producer hproducer) }

theorem Owned.congr {s' : State Ref} (h : s.Owned r used)
    (hpeers : ∀ p, (s'.room r).getPeer p = (s.room r).getPeer p)
    (hopen : ∀ t, s'.transportOpen t = s.transportOpen t) : s'.Owned r used := by
  have hproducers p : s'.producers r p = s.producers r p := by
    simp only [producers, hpeers]
  obtain ⟨hkeyed, hnamed, hcarried, howner, hsends⟩ := h
  constructor <;> simpa only [hpeers, hopen, hproducers]

theorem producers_setPeer (s : State Ref) (r : Ref) (peer : MediaPeer Ref)
    (peerId : PeerId) :
    (s.setRoom r ((s.room r).setPeer peer)).producers r peerId =
      if peerId = peer.id then peer.producers else s.producers r peerId := by
  by_cases hp : peerId = peer.id <;>
    simp [producers, MediaRoom.getPeer_setPeer, hp]

/-! ## `createTransport` -/

theorem producers_getOrCreatePeer (peerId peerId' : PeerId) (object : Ref) :
    (s.setRoom r ((s.room r).getOrCreatePeer peerId object).1).producers r peerId' =
      s.producers r peerId' := by
  unfold MediaRoom.getOrCreatePeer
  split
  · simp [producers]
  · next hnone =>
    rw [producers_setPeer]
    split
    · next heq => simp [producers, heq, hnone]
    · rfl

theorem openProducer_getOrCreatePeer (peerId peerId' : PeerId)
    (object producerId : Ref) :
    (s.setRoom r ((s.room r).getOrCreatePeer peerId object).1).openProducer r
      peerId' producerId = s.openProducer r peerId' producerId :=
  openProducer_congr (producers_getOrCreatePeer peerId peerId' object)
    fun _ _ => rfl

theorem Owned.getOrCreatePeer (h : s.Owned r used) (peerId : PeerId)
    (object : Ref) :
    (s.setRoom r ((s.room r).getOrCreatePeer peerId object).1).Owned r used := by
  have hproducers peerId' := producers_getOrCreatePeer peerId peerId' object
    (s := s) (r := r)
  unfold MediaRoom.getOrCreatePeer at hproducers ⊢
  split at hproducers
  · exact h.congr (fun p => by rw [room_setRoom]) fun _ => rfl
  · obtain ⟨hkeyed, hnamed, hcarried, howner, hsends⟩ := h
    have htransports direction : ({ id := peerId, object := object } :
        MediaPeer Ref).transportFor direction = none := by cases direction <;> rfl
    constructor <;>
      simp only [hproducers, room_setRoom, transportOpen_setRoom,
        MediaRoom.getPeer_setPeer] <;>
      grind

/-- What `createTransport` leaves behind for the MediaPeer that asked for it. -/
theorem assignTransport_eq {i : Ref} {peerId : PeerId}
    {direction : TransportDirection} {peer : MediaPeer Ref}
    (hpeer : (s.room r).getPeer peerId = some peer) :
    assignTransport i peerId direction r peer.object (s.openTransport i r) =
      (((s.openTransport i r).closeTransport (peer.transportFor direction)).setRoom
        r ((s.room r).setPeer (peer.setTransport i direction)), .returned i) := by
  simp [assignTransport, hpeer]

theorem Owned.producers_assignTransport (h : s.Owned r used) {i : Ref}
    {peerId : PeerId} {peer : MediaPeer Ref}
    (hpeer : (s.room r).getPeer peerId = some peer)
    (direction : TransportDirection) (peerId' : PeerId) :
    (Sfu.assignTransport i peerId direction r peer.object
      (s.openTransport i r)).1.producers r peerId' = s.producers r peerId' := by
  rw [assignTransport_eq hpeer]
  refine (producers_setPeer _ r (peer.setTransport i direction) peerId').trans ?_
  rw [MediaPeer.id_setTransport, MediaPeer.producers_setTransport,
    h.keyed peerId peer hpeer]
  split
  · next heq => simp [producers, heq, hpeer]
  · rfl

theorem Owned.assignTransport (h : s.Owned r used) {i : Ref} (hi : ¬ used i)
    {peerId : PeerId} {peer : MediaPeer Ref}
    (hpeer : (s.room r).getPeer peerId = some peer)
    (direction : TransportDirection) :
    (Sfu.assignTransport i peerId direction r peer.object
      (s.openTransport i r)).1.Owned r fun t => used t ∨ t = i := by
  have hproducers := h.producers_assignTransport (i := i) hpeer direction
  rw [assignTransport_eq hpeer] at hproducers ⊢
  obtain ⟨hkeyed, hnamed, hcarried, howner, hsends⟩ := h
  have hid := hkeyed peerId peer hpeer
  constructor <;>
    simp only [hproducers, room_setRoom, transportOpen_setRoom,
      MediaRoom.getPeer_setPeer, transportOpen_closeTransport,
      transportOpen_openTransport, MediaPeer.id_setTransport] <;>
    grind [MediaPeer.transportFor_setTransport, MediaPeer.id_setTransport]

/-- A new send transport closes the producers on the old one. -/
theorem Owned.openProducer_assignTransport (h : s.Owned r used) {i : Ref}
    (hi : ¬ used i) {peerId : PeerId} {peer : MediaPeer Ref}
    (hpeer : (s.room r).getPeer peerId = some peer)
    (direction : TransportDirection) (peerId' : PeerId) (producerId : Ref) :
    (Sfu.assignTransport i peerId direction r peer.object
      (s.openTransport i r)).1.openProducer r peerId' producerId =
      if peerId' = peerId ∧ direction = .send then none
      else s.openProducer r peerId' producerId := by
  have hproducers := h.producers_assignTransport (i := i) hpeer direction peerId'
  rw [assignTransport_eq hpeer] at hproducers ⊢
  obtain ⟨-, -, hcarried, howner, hsends⟩ := h
  split
  · next heq =>
    obtain ⟨rfl, rfl⟩ := heq
    refine openProducer_eq_none fun producer hproducer => ?_
    rw [hproducers] at hproducer
    simp only [transportOpen_setRoom, transportOpen_closeTransport,
      transportOpen_openTransport]
    grind
  · next hne =>
    refine openProducer_congr hproducers fun producer hproducer => ?_
    simp only [transportOpen_setRoom, transportOpen_closeTransport,
      transportOpen_openTransport]
    grind

/-! ## `removePeer` -/

theorem producers_removePeerOf (s : State Ref) (r : Ref)
    (peerId peerId' : PeerId) : (s.removePeerOf r peerId).producers r peerId' =
      if peerId' = peerId then ∅ else s.producers r peerId' := by
  by_cases hp : peerId' = peerId <;>
    simp [producers, MediaRoom.getPeer_deletePeer, hp]

theorem Owned.removePeerOf (h : s.Owned r used) (peerId : PeerId) :
    (s.removePeerOf r peerId).Owned r used := by
  have hproducers := producers_removePeerOf s r peerId
  obtain ⟨hkeyed, hnamed, hcarried, howner, hsends⟩ := h
  unfold State.removePeerOf at hproducers ⊢
  split at hproducers
  · constructor <;> assumption
  · constructor <;>
      simp only [hproducers, room_setRoom, transportOpen_setRoom,
        MediaRoom.getPeer_deletePeer, transportOpen_closeTransport] <;>
      grind [AList.lookup_empty]

theorem Owned.openProducer_removePeerOf (h : s.Owned r used)
    (peerId peerId' : PeerId) (producerId : Ref) :
    (s.removePeerOf r peerId).openProducer r peerId' producerId =
      if peerId' = peerId then none else s.openProducer r peerId' producerId := by
  have hproducers := producers_removePeerOf s r peerId peerId'
  obtain ⟨-, -, -, howner, hsends⟩ := h
  split
  · next heq =>
    rw [if_pos heq] at hproducers
    simp [openProducer, hproducers]
  · next hne =>
    rw [if_neg hne] at hproducers
    refine openProducer_congr hproducers fun producer hproducer => ?_
    unfold State.removePeerOf
    split
    · rfl
    · next peer hpeer =>
      have hsend : peer.transportFor .send = peer.sendTransport := rfl
      have hrecv : peer.transportFor .recv = peer.recvTransport := rfl
      simp only [transportOpen_setRoom, transportOpen_closeTransport]
      grind

/-! ## `produce`, `pauseProducer` and `resumeProducer` -/

theorem updatePeer_eq {peerId : PeerId} {peer : MediaPeer Ref}
    (hpeer : (s.room r).getPeer peerId = some peer)
    (f : MediaPeer Ref → MediaPeer Ref) :
    s.updatePeer r peerId peer.object f =
      s.setRoom r ((s.room r).setPeer (f peer)) := by
  simp [updatePeer, hpeer]

theorem Owned.producers_addProducer (h : s.Owned r used) {peerId : PeerId}
    {peer : MediaPeer Ref} (hpeer : (s.room r).getPeer peerId = some peer)
    (i : Ref) (producer : Producer Ref) (peerId' : PeerId) :
    (s.setRoom r ((s.room r).setPeer (peer.addProducer i producer))).producers r
        peerId' =
      if peerId' = peerId then (s.producers r peerId).insert i producer
      else s.producers r peerId' := by
  have hid : (peer.addProducer i producer).id = peerId := h.keyed peerId peer hpeer
  rw [producers_setPeer, hid]
  split
  · simp [producers, hpeer, MediaPeer.addProducer]
  · rfl

theorem Owned.addProducer (h : s.Owned r used) {peerId : PeerId}
    {peer : MediaPeer Ref} (hpeer : (s.room r).getPeer peerId = some peer)
    (i : Ref) (producer : Producer Ref) (hused : used producer.transport)
    (hsend : s.transportOpen producer.transport →
      peer.transportFor .send = some producer.transport) :
    (s.setRoom r ((s.room r).setPeer (peer.addProducer i producer))).Owned r
      used := by
  have hproducers := h.producers_addProducer hpeer i producer
  obtain ⟨hkeyed, hnamed, hcarried, howner, hsends⟩ := h
  have hid : (peer.addProducer i producer).id = peerId := hkeyed peerId peer hpeer
  have htransports direction : (peer.addProducer i producer).transportFor direction
      = peer.transportFor direction := by cases direction <;> rfl
  constructor <;>
    simp only [hproducers, room_setRoom, transportOpen_setRoom,
      MediaRoom.getPeer_setPeer] <;>
    grind [Dict.lookup_insert_ite]

theorem Owned.openProducer_addProducer (h : s.Owned r used) {peerId : PeerId}
    {peer : MediaPeer Ref} (hpeer : (s.room r).getPeer peerId = some peer)
    (i : Ref) (producer : Producer Ref) (peerId' : PeerId) (producerId : Ref) :
    (s.setRoom r ((s.room r).setPeer (peer.addProducer i producer))).openProducer r
        peerId' producerId =
      if peerId' = peerId ∧ producerId = i then
        if s.producerOpen producer then some producer.kind else none
      else s.openProducer r peerId' producerId := by
  have hproducers := h.producers_addProducer hpeer i producer peerId'
  split
  · next heq =>
    obtain ⟨rfl, rfl⟩ := heq
    rw [if_pos rfl] at hproducers
    rw [openProducer, hproducers, AList.lookup_insert, Option.bind_some]
    rfl
  · next hne =>
    by_cases hp : peerId' = peerId
    · subst hp
      have hi : producerId ≠ i := fun heq => hne ⟨rfl, heq⟩
      rw [if_pos rfl] at hproducers
      rw [openProducer, hproducers, AList.lookup_insert_ne hi]
      rfl
    · rw [if_neg hp] at hproducers
      exact openProducer_congr hproducers fun _ _ => rfl

theorem Owned.setPaused (h : s.Owned r used) {peerId : PeerId}
    {peer : MediaPeer Ref} (hpeer : (s.room r).getPeer peerId = some peer)
    (producerId : Ref) (paused : Bool) :
    (s.setRoom r ((s.room r).setPeer (peer.setPaused producerId paused))).Owned r
        used ∧
      ∀ peerId' producerId', (s.setRoom r ((s.room r).setPeer
          (peer.setPaused producerId paused))).openProducer r peerId' producerId' =
        s.openProducer r peerId' producerId' := by
  unfold MediaPeer.setPaused
  split
  · have hpeers p : ((s.setRoom r ((s.room r).setPeer peer)).room r).getPeer p =
        (s.room r).getPeer p := by
      rw [room_setRoom, MediaRoom.getPeer_setPeer, h.keyed peerId peer hpeer]
      split
      · next heq => rw [heq, hpeer]
      · rfl
    refine ⟨h.congr hpeers fun _ => rfl, fun p _ =>
      openProducer_congr ?_ fun _ _ => rfl⟩
    simp only [producers, hpeers]
  · next producer hproducer =>
    have hlookup : (s.producers r peerId).lookup producerId = some producer := by
      rwa [producers, hpeer]
    refine ⟨h.addProducer hpeer producerId _
      (h.carried peerId producerId producer hlookup) fun hopen => ?_,
      fun peerId' producerId' => ?_⟩
    · obtain ⟨peer', hpeer', hsend⟩ := h.sends peerId producerId producer hlookup
        hopen
      rw [hpeer] at hpeer'
      cases hpeer'
      exact hsend
    · rw [h.openProducer_addProducer hpeer]
      split
      · next heq =>
        obtain ⟨rfl, rfl⟩ := heq
        rw [openProducer, hlookup]
        rfl
      · rfl

end State

end MeetServer.Sfu
