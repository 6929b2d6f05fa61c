import MeetServer.Sfu.Evolution
import MeetServer.Sfu.MediaSteps

/-!
# One peer's calls and the other peers

What a call does for its own peer leaves the other peers alone, except that a
consumer of another peer follows the producer it reads.  The ids in the
arguments are arbitrary; what makes them harmless is that everything is looked
up in the call's own peer, and that open transports belong to one peer.
-/

namespace MeetServer.Sfu

open MeetServer.Foundation

variable {Ref : Type}

/-! ## What another peer may notice -/

variable [DecidableEq Ref]

def MediaCall.target (s : State Ref) : MediaCall Ref → Option (Ref × PeerId)
  | .rooms call => call.target s
  | .connectTransport roomId peerId _ .call | .produce roomId peerId _ _ .call
  | .consume roomId peerId _ .call | .resumeConsumer roomId peerId _ .call
  | .setPaused roomId peerId _ _ .call => (s.rooms.lookup roomId).map fun r => (r, peerId)
  | .connectTransport _ peerId _ (.transportConnect r _)
  | .produce _ peerId _ _ (.transportProduce r _ _)
  | .consume _ peerId _ (.transportConsume r _ _)
  | .resumeConsumer _ peerId _ (.consumerResume r _ _)
  | .setPaused _ peerId _ _ (.producerSetPaused r _) => some (r, peerId)
  | _ => none

def MediaCall.forPeer : MediaCall Ref → Bool
  | .rooms call => call.forPeer
  | _ => true

/-- The consumer is as before, or it reads an open producer of the peer `target` and
closes with it or takes over its pause. -/
def Follows (target : Option (Ref × PeerId)) (m m' : Media Ref) (k : Ref) : Prop :=
  (m'.consumer k = m.consumer k ∧ m'.consumerOpen k = m.consumerOpen k) ∨
    ∃ consumer r peerId producer, m.consumer k = some consumer ∧ target = some (r, peerId) ∧
      (m.rooms.producers r peerId).lookup consumer.producerId = some producer ∧
      m.rooms.producerOpen producer = true ∧
      ((m'.consumer k = some consumer ∧ m.consumerOpen k = true ∧ m'.consumerOpen k = false ∧
          m'.rooms.producerOpen producer = false) ∨
        ∃ producer', (m'.rooms.producers r peerId).lookup consumer.producerId =
            some producer' ∧
          m'.consumer k = some { consumer with producerPaused := producer'.paused } ∧
          m'.consumerOpen k = m.consumerOpen k)

/-- What a step that works on the peer `target` leaves alone of every other peer. -/
structure Isolates (target : Option (Ref × PeerId)) (m m' : Media Ref) : Prop where
  peer : ∀ r peerId, target ≠ some (r, peerId) →
    (m'.rooms.room r).getPeer peerId = (m.rooms.room r).getPeer peerId
  transport : ∀ r peerId peer direction t, target ≠ some (r, peerId) →
    (m.rooms.room r).getPeer peerId = some peer → peer.transportFor direction = some t →
    m'.rooms.transportOpen t = m.rooms.transportOpen t ∧ m'.connected t = m.connected t
  producer : ∀ r peerId peer k producer, target ≠ some (r, peerId) →
    (m.rooms.room r).getPeer peerId = some peer → peer.producers.lookup k = some producer →
    m'.rooms.producerOpen producer = m.rooms.producerOpen producer
  consumers : ∀ r peerId peer, target ≠ some (r, peerId) →
    (m.rooms.room r).getPeer peerId = some peer →
    m'.consumers peer.object = m.consumers peer.object
  consumer : ∀ r peerId peer k, target ≠ some (r, peerId) →
    (m.rooms.room r).getPeer peerId = some peer → k ∈ m.consumers peer.object →
    Follows target m m' k

theorem Isolates.refl (target : Option (Ref × PeerId)) (m : Media Ref) :
    Isolates target m m :=
  ⟨fun _ _ _ => rfl, fun _ _ _ _ _ _ _ _ => ⟨rfl, rfl⟩, fun _ _ _ _ _ _ _ _ => rfl,
    fun _ _ _ _ _ => rfl, fun _ _ _ _ _ _ _ => .inl ⟨rfl, rfl⟩⟩

/-- Which transports, consumers and producers belong together. -/
structure Arranged (m : Media Ref) : Prop where
  wired : m.rooms.Wired
  objects : ∀ r peerId peer v q peer', (m.rooms.room r).getPeer peerId = some peer →
    (m.rooms.room v).getPeer q = some peer' → peer.object = peer'.object → r = v ∧ peerId = q
  sends : ∀ r peerId k t, m.rooms.HasProducer r peerId k t → m.rooms.Belongs r peerId t
  receives : ∀ r peerId peer k consumer, (m.rooms.room r).getPeer peerId = some peer →
    k ∈ m.consumers peer.object → m.consumer k = some consumer →
    m.rooms.Belongs r peerId consumer.transport
  reads : ∀ k consumer, m.consumer k = some consumer →
    m.rooms.transport consumer.producerTransport ≠ none ∧
      (m.rooms.Live consumer.producerTransport → ∃ r peerId,
        m.rooms.HasProducer r peerId consumer.producerId consumer.producerTransport)
  holder : ∀ object object' k, k ∈ m.consumers object → k ∈ m.consumers object' →
    object = object'

/-! ### Steps that change the rooms -/

section OfRooms

variable {i r : Ref} {peerId : PeerId} {entry target : Option (Ref × PeerId)} {s s' : State Ref}
  {m m' : Media Ref}

omit [DecidableEq Ref] in
theorem State.live_of_transportOpen {t : Ref} (h : s.transportOpen t = true) : s.Live t := by
  rw [State.transportOpen] at h
  cases htransport : s.transport t with
  | none => simp [htransport] at h
  | some transport =>
      simp only [htransport, Bool.and_eq_true] at h
      exact ⟨transport, htransport, by simpa using h.1⟩

omit [DecidableEq Ref] in
theorem State.Wired.transportOpen (h : s.Wired) {direction : TransportDirection} {t : Ref}
    (ht : s.registered r peerId direction = some t) : s.transportOpen t = s.routerOpen r := by
  simp [State.transportOpen, h.live r peerId direction t ht]

/-- A transport of a peer does not open again. -/
theorem State.Evolves.transportOpen_of_after (h : State.Evolves i entry s s') (hwired : s.Wired)
    (hwired' : s'.Wired) (hrouter : s'.routerOpen = s.routerOpen) {t : Ref}
    (hbelongs : s.Belongs r peerId t) (hopen : s'.transportOpen t = true) :
    s.transportOpen t = true := by
  have hlive' := State.live_of_transportOpen hopen
  obtain ⟨direction, ht⟩ := hbelongs.2 (h.live t hbelongs.1 hlive')
  have ht' := h.registered r peerId direction t ht hlive'
  rw [hwired.transportOpen ht, ← hrouter, ← hwired'.transportOpen ht', hopen]

theorem State.Evolves.transportOpen (h : State.Evolves i entry s s') (hwired : s.Wired)
    (hwired' : s'.Wired) (hconfined : s.Confined target s') (hne : target ≠ some (r, peerId))
    {t : Ref} (hbelongs : s.Belongs r peerId t) : s'.transportOpen t = s.transportOpen t := by
  cases hbefore : s.transportOpen t with
  | true =>
      obtain ⟨direction, ht⟩ := hbelongs.2 (State.live_of_transportOpen hbefore)
      rw [State.transportOpen, hconfined.transport r peerId direction t hne ht,
        hconfined.routerOpen, ← hbefore, State.transportOpen]
  | false =>
      rw [← Bool.not_eq_true] at hbefore ⊢
      exact fun hafter => hbefore
        (h.transportOpen_of_after hwired hwired' hconfined.routerOpen hbelongs hafter)

/-- What becomes of the transport on which a consumed producer is. -/
theorem Arranged.producerTransport_cases (h : Arranged m) (he : State.Evolves i entry m.rooms s')
    (hwired' : s'.Wired) (hconfined : m.rooms.Confined target s') {k : Ref}
    {consumer : Consumer Ref} (hconsumer : m.consumer k = some consumer) :
    s'.transportOpen consumer.producerTransport =
        m.rooms.transportOpen consumer.producerTransport ∨
      ∃ r peerId producer, target = some (r, peerId) ∧
        (m.rooms.producers r peerId).lookup consumer.producerId = some producer ∧
        producer.transport = consumer.producerTransport ∧
        m.rooms.transportOpen consumer.producerTransport = true ∧
        s'.transportOpen consumer.producerTransport = false := by
  obtain ⟨hcreated, hreads⟩ := h.reads k consumer hconsumer
  by_cases hlive : m.rooms.Live consumer.producerTransport
  · obtain ⟨r, peerId, hproducer⟩ := hreads hlive
    have hbelongs := h.sends r peerId _ _ hproducer
    by_cases htarget : target = some (r, peerId)
    · obtain ⟨producer, hlookup, htransport⟩ := hproducer
      have hback := he.transportOpen_of_after h.wired hwired' hconfined.routerOpen hbelongs
      cases hbefore : m.rooms.transportOpen consumer.producerTransport with
      | false => exact .inl (by simpa [hbefore] using hback)
      | true =>
          cases hafter : s'.transportOpen consumer.producerTransport with
          | true => exact .inl rfl
          | false => exact .inr ⟨r, peerId, producer, htarget, hlookup, htransport, rfl, rfl⟩
    · exact .inl (he.transportOpen h.wired hwired' hconfined htarget hbelongs)
  · -- it stays closed whatever the step does
    have hclosed : ¬ m.rooms.transportOpen consumer.producerTransport = true :=
      fun hopen => hlive (State.live_of_transportOpen hopen)
    have hclosed' : ¬ s'.transportOpen consumer.producerTransport = true :=
      fun hopen => hlive (he.live _ hcreated (State.live_of_transportOpen hopen))
    rw [Bool.not_eq_true] at hclosed hclosed'
    exact .inl (hclosed'.trans hclosed.symm)

/-- The consumers of another peer after a step that only changes rooms. -/
theorem Arranged.follows (h : Arranged m) (he : State.Evolves i entry m.rooms s')
    (hwired' : s'.Wired) (hconfined : m.rooms.Confined target s')
    (hne : target ≠ some (r, peerId)) {peer : MediaPeer Ref}
    (hpeer : (m.rooms.room r).getPeer peerId = some peer) {k : Ref}
    (hk : k ∈ m.consumers peer.object) : Follows target m { m with rooms := s' } k := by
  cases hconsumer : m.consumer k with
  | none => exact .inl ⟨rfl, by simp [Media.consumerOpen, hconsumer]⟩
  | some consumer =>
      have hown := he.transportOpen h.wired hwired' hconfined hne
        (h.receives r peerId peer k consumer hpeer hk hconsumer)
      rcases h.producerTransport_cases he hwired' hconfined hconsumer with
        hsame | ⟨v, q, producer, htarget, hlookup, htransport, hbefore, hafter⟩
      · exact .inl ⟨rfl, by simp [Media.consumerOpen, hconsumer, hown, hsame]⟩
      · cases hopen : m.rooms.transportOpen consumer.transport with
        | false =>
            exact .inl ⟨rfl, by simp [Media.consumerOpen, hconsumer, hown, hopen]⟩
        | true =>
            refine .inr ⟨consumer, v, q, producer, hconsumer, htarget, hlookup, ?_, .inl ?_⟩
            · rw [State.producerOpen, htransport, hbefore]
            · simp [Media.consumerOpen, hconsumer, hopen, hbefore, hafter, hown,
                State.producerOpen, htransport]

theorem Arranged.isolates (h : Arranged m) (he : State.Evolves i entry m.rooms s')
    (hwired' : s'.Wired) (hconfined : m.rooms.Confined target s') :
    Isolates target m { m with rooms := s' } where
  peer := hconfined.peer
  transport r peerId peer direction t hne hpeer ht := by
    have hregistered : m.rooms.registered r peerId direction = some t :=
      Option.bind_eq_some_iff.2 ⟨peer, hpeer, ht⟩
    refine ⟨?_, rfl⟩
    rw [State.transportOpen, State.transportOpen,
      hconfined.transport r peerId direction t hne hregistered, hconfined.routerOpen]
  producer r peerId peer k producer hne hpeer hlookup :=
    he.transportOpen h.wired hwired' hconfined hne
      (h.sends r peerId k producer.transport
        (State.hasProducer_iff.2 ⟨peer, producer, hpeer, hlookup, rfl⟩))
  consumers _ _ _ _ _ := rfl
  consumer _ _ _ _ hne hpeer hk := h.follows he hwired' hconfined hne hpeer hk

end OfRooms

/-! ## The invariant under each step -/

/-- Neither a peer nor a producer nor a consumer has been made by the call. -/
structure Media.Fresh (m : Media Ref) (i : Ref) : Prop where
  object : ∀ r peerId peer, (m.rooms.room r).getPeer peerId = some peer → peer.object ≠ i
  consumers : ∀ k, k ∉ m.consumers i
  consumed : ∀ object, i ∉ m.consumers object
  consumer : m.consumer i = none
  producer : ∀ r peerId t, ¬ m.rooms.HasProducer r peerId i t

/-- If the object is that of a peer, it is this one. -/
def State.Located (s : State Ref) (r : Ref) (peerId : PeerId) (object : Ref) : Prop :=
  ∀ v q peer, (s.room v).getPeer q = some peer → peer.object = object → v = r ∧ q = peerId

def Consumer.unpaused (consumer : Consumer Ref) : Consumer Ref :=
  { consumer with paused := false, producerPaused := false }

/-- The consumers stay as they are, up to their flags. -/
structure Media.Repauses (m m' : Media Ref) : Prop where
  consumers : m'.consumers = m.consumers
  consumer : ∀ k consumer', m'.consumer k = some consumer' →
    ∃ consumer, m.consumer k = some consumer ∧ consumer'.unpaused = consumer.unpaused

section Steps

variable {i j r object : Ref} {peerId : PeerId} {entry : Option (Ref × PeerId)}
  {m m' : Media Ref}

omit [DecidableEq Ref] in
theorem Media.Repauses.of_eq (hconsumers : m'.consumers = m.consumers)
    (hconsumer : m'.consumer = m.consumer) : m.Repauses m' :=
  ⟨hconsumers, fun k consumer' hk => ⟨consumer', by rw [← hconsumer, hk], rfl⟩⟩

theorem Media.repauses_setConsumerPaused (m : Media Ref) (k : Ref) (paused : Bool) :
    m.Repauses (m.setConsumerPaused k paused) := by
  refine ⟨rfl, fun k' consumer' hk' => ?_⟩
  by_cases heq : k' = k
  · subst heq
    simp only [setConsumerPaused, Function.update_self, Option.map_eq_some_iff] at hk'
    obtain ⟨consumer, hconsumer, rfl⟩ := hk'
    exact ⟨consumer, hconsumer, rfl⟩
  · simp only [setConsumerPaused, Function.update_of_ne heq] at hk'
    exact ⟨consumer', hk', rfl⟩

theorem Media.repauses_mirrorPaused (m : Media Ref) (s' : State Ref) (producerId : Ref)
    (paused : Bool) : m.Repauses { m.mirrorPaused producerId paused with rooms := s' } := by
  refine ⟨rfl, fun k consumer' hk => ?_⟩
  obtain ⟨consumer, hconsumer, rfl⟩ := Option.map_eq_some_iff.1 hk
  refine ⟨consumer, hconsumer, ?_⟩
  split <;> rfl

theorem Arranged.located (h : Arranged m) {peer : MediaPeer Ref}
    (hpeer : (m.rooms.room r).getPeer peerId = some peer) :
    m.rooms.Located r peerId peer.object :=
  fun v q peer' hpeer' heq => h.objects v q peer' r peerId peer hpeer' hpeer heq

omit [DecidableEq Ref] in
theorem State.Wired.belongs {s : State Ref} (h : s.Wired) {direction : TransportDirection}
    {t : Ref} (ht : s.registered r peerId direction = some t) : s.Belongs r peerId t :=
  ⟨by simp [h.live r peerId direction t ht], fun _ => ⟨direction, ht⟩⟩

theorem Arranged.evolves (h : Arranged m) (he : State.Evolves i entry m.rooms m'.rooms)
    (hwired' : m'.rooms.Wired) (hentry : entry ≠ none → m.Fresh i) (hsame : m.Repauses m') :
    Arranged m' where
  wired := hwired'
  objects r peerId peer v q peer' hpeer hpeer' heq := by
    rcases he.object r peerId peer hpeer with ⟨old, hold, hobject⟩ | ⟨hnew, hobject⟩
    · rcases he.object v q peer' hpeer' with ⟨old', hold', hobject'⟩ | ⟨hnew', hobject'⟩
      · exact h.objects r peerId old v q old' hold hold' (by rw [← hobject, heq, hobject'])
      · have hfresh := (hentry (by simp [hnew'])).object r peerId old hold
        rw [← hobject, heq, hobject'] at hfresh
        exact (hfresh rfl).elim
    · rcases he.object v q peer' hpeer' with ⟨old', hold', hobject'⟩ | ⟨hnew', hobject'⟩
      · have hfresh := (hentry (by simp [hnew])).object v q old' hold'
        rw [← hobject', ← heq, hobject] at hfresh
        exact (hfresh rfl).elim
      · simpa using hnew.symm.trans hnew'
  sends r peerId k t hproducer := by
    rcases he.produced r peerId k t hproducer with hold | ⟨-, hbelongs⟩
    · exact he.belongs (h.sends r peerId k t hold)
    · exact he.belongs hbelongs
  receives r peerId peer k consumer hpeer hk hconsumer := by
    obtain ⟨old, hold, hunpaused⟩ := hsame.consumer k consumer hconsumer
    simp only [Consumer.unpaused, Consumer.mk.injEq] at hunpaused
    rw [hunpaused.2.2.1]
    rw [hsame.consumers] at hk
    rcases he.object r peerId peer hpeer with ⟨peer', hpeer', hobject⟩ | ⟨hnew, hobject⟩
    · rw [hobject] at hk
      exact he.belongs (h.receives r peerId peer' k old hpeer' hk hold)
    · rw [hobject] at hk
      exact ((hentry (by simp [hnew])).consumers k hk).elim
  reads k consumer hconsumer := by
    obtain ⟨old, hold, hunpaused⟩ := hsame.consumer k consumer hconsumer
    simp only [Consumer.unpaused, Consumer.mk.injEq] at hunpaused
    rw [hunpaused.1, hunpaused.2.1]
    obtain ⟨hcreated, hreads⟩ := h.reads k old hold
    refine ⟨he.created _ hcreated, fun hlive' => ?_⟩
    have hlive := he.live _ hcreated hlive'
    obtain ⟨r, peerId, hproducer⟩ := hreads hlive
    obtain ⟨direction, ht⟩ := (h.sends r peerId _ _ hproducer).2 hlive
    exact ⟨r, peerId, he.producer r peerId _ _ hproducer
      ⟨direction, _, he.registered r peerId direction _ ht hlive'⟩⟩
  holder := by
    rw [hsame.consumers]
    exact h.holder

theorem Media.Fresh.evolves (h : m.Fresh j) (hj : j ≠ i)
    (he : State.Evolves i entry m.rooms m'.rooms) (hsame : m.Repauses m') : m'.Fresh j where
  object r peerId peer hpeer := by
    rcases he.object r peerId peer hpeer with ⟨old, hold, hobject⟩ | ⟨-, hobject⟩
    · rw [hobject]
      exact h.object r peerId old hold
    · rw [hobject]
      exact hj.symm
  consumers := by
    rw [hsame.consumers]
    exact h.consumers
  consumed := by
    rw [hsame.consumers]
    exact h.consumed
  consumer := by
    cases hconsumer : m'.consumer j with
    | none => rfl
    | some consumer' =>
        obtain ⟨consumer, hold, -⟩ := hsame.consumer j consumer' hconsumer
        rw [h.consumer] at hold
        cases hold
  producer r peerId t hproducer := by
    rcases he.produced r peerId j t hproducer with hold | ⟨heq, -⟩
    · exact h.producer r peerId t hold
    · exact hj heq

theorem State.Located.evolves {s s' : State Ref} (h : s.Located r peerId object)
    (he : State.Evolves i entry s s') (hentry : entry ≠ none → object ≠ i) :
    s'.Located r peerId object := by
  intro v q peer hpeer heq
  rcases he.object v q peer hpeer with ⟨old, hold, hobject⟩ | ⟨hnew, hobject⟩
  · exact h v q old hold (hobject ▸ heq)
  · exact (hentry (by simp [hnew]) (heq.symm.trans hobject)).elim

/-! ### A new consumer -/

theorem State.routerProducer_cases {s : State Ref} {producerId : Ref} {producer : Producer Ref}
    (h : s.routerProducer r producerId = some producer) :
    s.producerOpen producer = true ∧
      ∃ peerId, s.HasProducer r peerId producerId producer.transport := by
  obtain ⟨peer, hpeer, hfound⟩ := List.exists_of_findSome?_eq_some h
  obtain ⟨hlookup, hopen⟩ := Option.filter_eq_some_iff.1 hfound
  obtain ⟨peerId, hpeerId⟩ := Dict.mem_values_iff.1 hpeer
  exact ⟨hopen, peerId, hasProducer_iff.2 ⟨peer, producer, hpeerId, hlookup, rfl⟩⟩

theorem Arranged.addConsumer (h : Arranged m) (hfresh : m.Fresh i)
    (hlocated : m.rooms.Located r peerId object) {consumer : Consumer Ref}
    (hbelongs : m.rooms.Belongs r peerId consumer.transport) {v : Ref} {q : PeerId}
    (hproducer : m.rooms.HasProducer v q consumer.producerId consumer.producerTransport) :
    Arranged (m.addConsumer i object consumer) where
  wired := h.wired
  objects := h.objects
  sends := h.sends
  receives v q peer k consumer' hpeer hk hconsumer := by
    by_cases hki : k = i
    · subst hki
      simp only [Media.addConsumer, Function.update_self, Option.some.injEq] at hconsumer
      subst hconsumer
      have hobject : peer.object = object := by
        by_contra hne
        simp only [Media.addConsumer, Function.update_of_ne hne] at hk
        exact hfresh.consumed _ hk
      obtain ⟨rfl, rfl⟩ := hlocated v q peer hpeer hobject
      exact hbelongs
    · simp only [Media.addConsumer, Function.update_of_ne hki] at hconsumer
      refine h.receives v q peer k consumer' hpeer ?_ hconsumer
      by_cases hobject : peer.object = object
      · rw [hobject]
        simpa [Media.addConsumer, hobject, hki] using hk
      · simpa [Media.addConsumer, hobject] using hk
  reads k consumer' hconsumer := by
    by_cases hki : k = i
    · subst hki
      simp only [Media.addConsumer, Function.update_self, Option.some.injEq] at hconsumer
      subst hconsumer
      exact ⟨(h.sends v q _ _ hproducer).1, fun _ => ⟨v, q, hproducer⟩⟩
    · simp only [Media.addConsumer, Function.update_of_ne hki] at hconsumer
      exact h.reads k consumer' hconsumer
  holder o o' k hk hk' := by
    have hold {o : Ref} (hk : k ∈ (m.addConsumer i object consumer).consumers o) :
        k ∈ m.consumers o ∨ k = i ∧ o = object := by
      by_cases ho : o = object
      · subst ho
        simp only [Media.addConsumer, Function.update_self, Finset.mem_insert] at hk
        exact hk.elim (fun hki => .inr ⟨hki, rfl⟩) .inl
      · simp only [Media.addConsumer, Function.update_of_ne ho] at hk
        exact .inl hk
    rcases hold hk with hk | ⟨hki, ho⟩
    · rcases hold hk' with hk' | ⟨hki', -⟩
      · exact h.holder o o' k hk hk'
      · exact (hfresh.consumed o (hki' ▸ hk)).elim
    · rcases hold hk' with hk' | ⟨-, ho'⟩
      · exact (hfresh.consumed o' (hki ▸ hk')).elim
      · rw [ho, ho']

theorem Media.Fresh.addConsumer (h : m.Fresh j) (hj : j ≠ i) (hobject : j ≠ object)
    (consumer : Consumer Ref) : (m.addConsumer i object consumer).Fresh j where
  object := h.object
  consumers := by simpa [Media.addConsumer, hobject] using h.consumers
  consumed o := by
    by_cases ho : o = object
    · simpa [Media.addConsumer, ho, hj] using h.consumed object
    · simpa [Media.addConsumer, ho] using h.consumed o
  consumer := by simpa [Media.addConsumer, hj] using h.consumer
  producer := h.producer

end Steps

/-! ## Every run -/

/-- The process as `MediaRooms` has it. -/
def MediaProcess.rooms (p : MediaProcess Ref) : Process Ref :=
  ⟨p.world.rooms, fun i => (p.proc i).roomCall⟩

/-- What holds of the objects that the calls have made or have looked up. -/
structure MediaRegistry (p : MediaProcess Ref) : Prop where
  rooms : TransportRegistry p.rooms
  arranged : Arranged p.world
  unmade : ∀ i, (p.proc i).making = true → p.world.Fresh i
  transport : ∀ i r peerId t, (p.proc i).heldTransport = some (r, peerId, t) →
    p.world.rooms.Belongs r peerId t
  object : ∀ i r peerId object, (p.proc i).heldObject = some (r, peerId, object) →
    p.world.rooms.Located r peerId object ∧ (p.proc object).making = false
  consumer : ∀ i object k, (p.proc i).heldConsumer = some (object, k) →
    k ∈ p.world.consumers object

section Registry

variable {p : MediaProcess Ref} {i : Ref} {m' : Media Ref} {c' : MediaCall Ref}

theorem MediaProcess.rooms_set (p : MediaProcess Ref) (i : Ref) (m' : Media Ref)
    (c' : MediaCall Ref) : rooms (p.set i m' c') = p.rooms.set i m'.rooms c'.roomCall := by
  simp only [rooms, Pool.set, Pool.mk.injEq, true_and]
  funext j
  by_cases hj : j = i <;> simp [hj]

/-- The steps of other calls that keep the transports. -/
theorem TransportRegistry.frame {q : Process Ref} (h : TransportRegistry q) {s' : State Ref}
    (hcall : q.proc i = .removePeer "" "" true) (hframe : Frame q.world s') (hwired : s'.Wired)
    (htransport : s'.transport = q.world.transport) :
    TransportRegistry (q.set i s' (.removePeer "" "" true)) := by
  have hsame : (q.set i s' (.removePeer "" "" true)).proc = q.proc := by
    rw [Pool.set, ← hcall, Function.update_eq_self]
  have hstep : Step i q.world true (q.proc i) s' (.removePeer "" "" true) := by
    rw [hcall]
    exact .local trivial trivial hframe
  refine ⟨h.toRegistry.step hstep, hwired, ?_, ?_, ?_⟩
  · simpa only [hsame, Pool.set_world, htransport] using h.unmade
  · simpa only [hsame, Pool.set_world, htransport] using h.router
  · simpa only [hsame] using h.asked

/-- The step lemma: whatever evolves keeps the registry. -/
theorem MediaRegistry.evolves {entry : Option (Ref × PeerId)} (h : MediaRegistry p)
    (hrooms : TransportRegistry (p.rooms.set i m'.rooms c'.roomCall))
    (he : State.Evolves i entry p.world.rooms m'.rooms) (hsame : p.world.Repauses m')
    (hentry : entry ≠ none → (p.proc i).making = true)
    (hmaking : c'.making = true → (p.proc i).making = true ∧ m' = p.world)
    (htransport : ∀ r peerId t, c'.heldTransport = some (r, peerId, t) →
      p.world.rooms.Belongs r peerId t)
    (hobject : ∀ r peerId object, c'.heldObject = some (r, peerId, object) →
      p.world.rooms.Located r peerId object ∧ (p.proc object).making = false)
    (hconsumer : ∀ object k, c'.heldConsumer = some (object, k) →
      k ∈ p.world.consumers object) : MediaRegistry (p.set i m' c') := by
  have hmade {j : Ref} (hj : (p.proc j).making = false) :
      ((p.set i m' c').proc j).making = false := by
    rw [Pool.set_proc]
    split
    · next heq =>
      subst heq
      exact Bool.eq_false_iff.2 fun hmake => by simp [(hmaking hmake).1] at hj
    · exact hj
  have hlocated {r object : Ref} {peerId : PeerId} (hl : p.world.rooms.Located r peerId object)
      (hm : (p.proc object).making = false) : m'.rooms.Located r peerId object := by
    refine hl.evolves he fun hnew heq => ?_
    rw [heq, hentry hnew] at hm
    cases hm
  refine ⟨by rwa [MediaProcess.rooms_set], ?_, fun j hj => ?_, fun j r peerId t hj => ?_,
    fun j r peerId object hj => ?_, fun j object k hj => ?_⟩
  · exact h.arranged.evolves he hrooms.wired (fun hnew => h.unmade i (hentry hnew)) hsame
  · rw [Pool.set_proc] at hj
    split at hj
    · next heq =>
      obtain ⟨hmake, rfl⟩ := hmaking hj
      rw [heq]
      exact h.unmade i hmake
    · next hne => exact (h.unmade j hj).evolves hne he hsame
  · rw [Pool.set_proc] at hj
    split at hj
    · exact he.belongs (htransport r peerId t hj)
    · exact he.belongs (h.transport j r peerId t hj)
  · rw [Pool.set_proc] at hj
    split at hj
    · obtain ⟨hl, hm⟩ := hobject r peerId object hj
      exact ⟨hlocated hl hm, hmade hm⟩
    · obtain ⟨hl, hm⟩ := h.object j r peerId object hj
      exact ⟨hlocated hl hm, hmade hm⟩
  · rw [Pool.set_world, hsame.consumers]
    rw [Pool.set_proc] at hj
    split at hj
    · exact hconsumer object k hj
    · exact h.consumer j object k hj

theorem MediaRegistry.addConsumer (h : MediaRegistry p) {roomId : RoomId} {peerId : PeerId}
    {producerId r object t : Ref} {producer : Producer Ref}
    (hc : p.proc i = .consume roomId peerId producerId (.transportConsume r object t))
    (hproducer : p.world.rooms.routerProducer r producerId = some producer) :
    MediaRegistry (p.set i (p.world.addConsumer i object
      { producerId := producerId, producerTransport := producer.transport,
        transport := t, paused := true, producerPaused := producer.paused })
      (.consume roomId peerId producerId (.returned i))) := by
  have hfresh := h.unmade i (by rw [hc]; rfl)
  obtain ⟨hlocated, hmade⟩ := h.object i r peerId object (by rw [hc]; rfl)
  have hbelongs := h.transport i r peerId t (by rw [hc]; rfl)
  obtain ⟨-, q, hproduced⟩ := State.routerProducer_cases hproducer
  refine ⟨?_, h.arranged.addConsumer hfresh hlocated hbelongs hproduced, fun j hj => ?_,
    fun j v q t' hj => ?_, fun j v q object' hj => ?_, fun j object' k hj => ?_⟩
  · rw [MediaProcess.rooms_set]
    exact h.rooms.frame (by simp [MediaProcess.rooms, hc, MediaCall.roomCall])
      (.refl p.world.rooms) h.arranged.wired rfl
  · rw [Pool.set_proc] at hj
    split at hj
    · cases hj
    · next hne =>
      refine (h.unmade j hj).addConsumer hne ?_ _
      rintro rfl
      rw [hmade] at hj
      cases hj
  · rw [Pool.set_proc] at hj
    split at hj
    · cases hj
    · exact h.transport j v q t' hj
  · rw [Pool.set_proc] at hj
    split at hj
    · cases hj
    · obtain ⟨hl, hm⟩ := h.object j v q object' hj
      refine ⟨hl, ?_⟩
      rw [Pool.set_proc]
      split
      · rfl
      · exact hm
  · rw [Pool.set_proc] at hj
    split at hj
    · cases hj
    · have hk := h.consumer j object' k hj
      by_cases ho : object' = object
      · subst ho
        simp [Media.addConsumer, hk]
      · simpa [Media.addConsumer, ho] using hk

theorem MediaRegistry.made (h : MediaRegistry p) {r : Ref} {peerId : PeerId}
    {peer : MediaPeer Ref} (hpeer : (p.world.rooms.room r).getPeer peerId = some peer) :
    (p.proc peer.object).making = false := by
  refine Bool.eq_false_iff.2 fun hmaking => ?_
  exact (h.unmade peer.object hmaking).object r peerId peer hpeer rfl

theorem MediaRegistry.belongs (h : MediaRegistry p) {r t : Ref} {peerId : PeerId}
    {peer : MediaPeer Ref} (hpeer : (p.world.rooms.room r).getPeer peerId = some peer)
    (ht : peer.sendTransport = some t ∨ peer.recvTransport = some t) :
    p.world.rooms.Belongs r peerId t := by
  rcases ht with ht | ht
  · have hsend : p.world.rooms.registered r peerId .send = some t :=
      Option.bind_eq_some_iff.2 ⟨peer, hpeer, ht⟩
    exact h.arranged.wired.belongs hsend
  · have hrecv : p.world.rooms.registered r peerId .recv = some t :=
      Option.bind_eq_some_iff.2 ⟨peer, hpeer, ht⟩
    exact h.arranged.wired.belongs hrecv

theorem MediaPeer.lookup_setPaused (peer : MediaPeer Ref) (producerId k : Ref) (paused : Bool) :
    (peer.setPaused producerId paused).producers.lookup k =
      (peer.producers.lookup k).map fun producer =>
        if k = producerId then { producer with paused := paused } else producer := by
  unfold setPaused
  cases hlookup : peer.producers.lookup producerId with
  | none =>
      by_cases hk : k = producerId
      · subst hk
        simp [hlookup]
      · simp [hk]
  | some producer =>
      change (peer.producers.insert producerId { producer with paused := paused }).lookup k = _
      rw [Dict.lookup_insert_ite]
      by_cases hk : k = producerId
      · subst hk
        simp [hlookup]
      · simp [hk]

theorem MediaRegistry.same (h : MediaRegistry p)
    (hc : (p.proc i).roomCall = .removePeer "" "" true) (hc' : c'.roomCall = .removePeer "" "" true)
    (hrooms : m'.rooms = p.world.rooms) (hsame : p.world.Repauses m')
    (hmaking : c'.making = true → (p.proc i).making = true ∧ m' = p.world)
    (htransport : ∀ r peerId t, c'.heldTransport = some (r, peerId, t) →
      p.world.rooms.Belongs r peerId t)
    (hobject : ∀ r peerId object, c'.heldObject = some (r, peerId, object) →
      p.world.rooms.Located r peerId object ∧ (p.proc object).making = false)
    (hconsumer : ∀ object k, c'.heldConsumer = some (object, k) →
      k ∈ p.world.consumers object) : MediaRegistry (p.set i m' c') := by
  refine h.evolves ?_ (hrooms ▸ .refl i _) hsame nofun hmaking htransport hobject hconsumer
  rw [hc', hrooms]
  exact h.rooms.frame hc (.refl p.world.rooms) h.arranged.wired rfl

theorem State.Evolves.addProducer {s : State Ref} (hwired : s.Wired) {r object t : Ref}
    {peerId : PeerId} (hfresh : ∀ t, ¬ s.HasProducer r peerId i t)
    (hbelongs : s.Belongs r peerId t) (kind : MediaKind) :
    State.Evolves i none s (s.updatePeer r peerId object fun peer =>
      peer.addProducer i { kind := kind, transport := t }) := by
  refine .updatePeer hwired (fun _ => rfl) (fun _ => rfl) (fun _ direction => ?_)
    (fun peer k producer hlookup => ?_) fun peer k producer hpeer hlookup => ?_
  · cases direction <;> rfl
  · rw [MediaPeer.addProducer, Dict.lookup_insert_ite] at hlookup
    split at hlookup
    · next heq =>
      obtain rfl := Option.some.inj hlookup
      exact .inr ⟨heq, hbelongs⟩
    · exact .inl ⟨producer, hlookup, rfl⟩
  · rw [MediaPeer.addProducer, Dict.lookup_insert_ite, if_neg]
    · exact ⟨producer, hlookup, rfl⟩
    · rintro rfl
      exact hfresh _ (State.hasProducer_iff.2 ⟨peer, producer, hpeer, hlookup, rfl⟩)

theorem MediaPeer.setPaused_fields (peer : MediaPeer Ref) (producerId : Ref) (paused : Bool) :
    (peer.setPaused producerId paused).id = peer.id ∧
      (peer.setPaused producerId paused).object = peer.object ∧
      ∀ direction, (peer.setPaused producerId paused).transportFor direction =
        peer.transportFor direction := by
  unfold setPaused
  split
  · exact ⟨rfl, rfl, fun _ => rfl⟩
  · exact ⟨rfl, rfl, fun direction => by cases direction <;> rfl⟩

theorem State.Evolves.setPaused {s : State Ref} (hwired : s.Wired) (r object : Ref)
    (peerId : PeerId) (producerId : Ref) (paused : Bool) :
    State.Evolves i none s (s.updatePeer r peerId object fun peer =>
      peer.setPaused producerId paused) := by
  refine .updatePeer hwired (fun peer => (peer.setPaused_fields producerId paused).1)
    (fun peer => (peer.setPaused_fields producerId paused).2.1)
    (fun peer => (peer.setPaused_fields producerId paused).2.2)
    (fun peer k producer hlookup => .inl ?_) fun peer k producer hpeer hlookup => ?_
  · rw [MediaPeer.lookup_setPaused] at hlookup
    obtain ⟨producer', hold, rfl⟩ := Option.map_eq_some_iff.1 hlookup
    refine ⟨producer', hold, ?_⟩
    split <;> rfl
  · rw [MediaPeer.lookup_setPaused, hlookup]
    refine ⟨_, rfl, ?_⟩
    split <;> rfl

/-- No call comes back to its first step. -/
theorem MediaCall.not_making_of_step {ok : Bool} {s s' : State Ref} {call call' : Call Ref}
    (h : call.step i ok s = some (s', call')) : (MediaCall.rooms call').making = false := by
  cases call' with
  | createTransport roomId peerId direction point' =>
      cases point' with
      | call =>
          cases call with
          | createTransport =>
              obtain ⟨point', heq, hstep⟩ := Call.createTransport_cases h
              cases heq
              cases hstep
          | removePeer roomId peerId done => cases done <;> cases h
          | getOrCreateRoom | startRecording | stopRecording | closeRoom =>
              obtain ⟨result, -, hr⟩ := Option.map_eq_some_iff.1 h
              cases hr
      | _ => rfl
  | _ => rfl

theorem MediaRegistry.rooms_step {ok : Bool} {call call' : Call Ref} {s' : State Ref}
    (h : MediaRegistry p) (hc : p.proc i = .rooms call)
    (hcall : call.step i ok p.world.rooms = some (s', call')) :
    MediaRegistry (p.set i { p.world with rooms := s' } (.rooms call')) := by
  have hproc : p.rooms.proc i = call := by simp [MediaProcess.rooms, hc, MediaCall.roomCall]
  have hrooms : TransportRegistry (p.rooms.set i s' call') :=
    TransportRegistry.preserves h.rooms (a := (i, ok)) trivial
      (Pool.step_eq_some.2 ⟨s', call', by rwa [hproc], rfl⟩)
  have he := Call.evolves h.arranged.wired (fun hcreating => h.rooms.unmade i (by rwa [hproc]))
    (h.rooms.router_ne (by rwa [hproc])) hcall
  refine h.evolves hrooms he (.of_eq rfl rfl) (fun hnew => ?_) (fun hmaking => ?_)
    nofun nofun nofun
  · rw [hc]
    cases call with
    | createTransport roomId peerId direction point =>
        cases point <;> first | rfl | exact (hnew rfl).elim
    | _ => exact (hnew rfl).elim
  · rw [MediaCall.not_making_of_step hcall] at hmaking
    cases hmaking

theorem MediaRegistry.step {ok : Bool} (h : MediaRegistry p)
    (hstep : (p.proc i).step i ok p.world = some (m', c')) : MediaRegistry (p.set i m' c') := by
  have hs := MediaCall.step_cases hstep
  generalize hc : p.proc i = c at hs
  cases hs with
  | rooms hcall => exact h.rooms_step hc hcall
  | quiet hroom hsettled =>
      refine h.same (by rwa [hc]) hsettled.roomCall rfl (.of_eq rfl rfl) ?_ ?_ ?_ ?_
      · simp [hsettled.making]
      · simp [hsettled.transport]
      · simp [hsettled.object]
      · simp [hsettled.consumer]
  | connecting hr hpeer hown =>
      refine h.same (by rw [hc]; rfl) rfl rfl (.of_eq rfl rfl) nofun
        (fun r peerId t heq => ?_) nofun nofun
      cases heq
      exact h.belongs hpeer hown
  | connected hopen =>
      exact h.same (by rw [hc]; rfl) rfl rfl (.of_eq rfl rfl) nofun nofun nofun nofun
  | producing hr hpeer hown =>
      refine h.same (by rw [hc]; rfl) rfl rfl (.of_eq rfl rfl)
        (fun _ => ⟨by rw [hc]; rfl, rfl⟩) (fun r peerId t heq => ?_) nofun nofun
      cases heq
      exact h.belongs hpeer (.inl hown)
  | @produced roomId peerId transportId r object t kind point' hopen hsettled =>
      have hfresh := h.unmade i (by rw [hc]; rfl)
      have hbelongs := h.transport i r peerId t (by rw [hc]; rfl)
      refine h.evolves ?_ (.addProducer h.arranged.wired (hfresh.producer r peerId) hbelongs kind)
        (.of_eq rfl rfl) nofun ?_ ?_ ?_ ?_
      · exact h.rooms.frame (by simp [MediaProcess.rooms, hc, MediaCall.roomCall])
          State.frame_updatePeer (h.arranged.wired.updatePeer (fun _ => rfl) fun _ direction => by
            cases direction <;> rfl) State.transport_updatePeer
      · simp [hsettled.making]
      · simp [hsettled.transport]
      · simp [hsettled.object]
      · simp [hsettled.consumer]
  | consuming hr hpeer hown =>
      refine h.same (by rw [hc]; rfl) rfl rfl (.of_eq rfl rfl)
        (fun _ => ⟨by rw [hc]; rfl, rfl⟩) (fun r peerId t heq => ?_)
        (fun r peerId object heq => ?_) nofun
      · cases heq
        exact h.belongs hpeer (.inr hown)
      · cases heq
        exact ⟨h.arranged.located hpeer, h.made hpeer⟩
  | consumed hproducer hopen => exact h.addConsumer hc hproducer
  | resuming hr hpeer hk =>
      refine h.same (by rw [hc]; rfl) rfl rfl (.of_eq rfl rfl) nofun nofun
        (fun r peerId object heq => ?_) fun object k heq => ?_
      · cases heq
        exact ⟨h.arranged.located hpeer, h.made hpeer⟩
      · cases heq
        exact hk
  | resumed hopen =>
      exact h.same (by rw [hc]; rfl) rfl rfl (p.world.repauses_setConsumerPaused _ false)
        nofun nofun nofun nofun
  | @paused roomId peerId producerId r object paused hholds =>
      refine h.evolves ?_ (.setPaused h.arranged.wired r object peerId producerId paused)
        (p.world.repauses_mirrorPaused _ producerId paused) nofun nofun nofun nofun nofun
      refine h.rooms.frame (by simp [MediaProcess.rooms, hc, MediaCall.roomCall])
        State.frame_updatePeer (h.arranged.wired.updatePeer ?_ ?_) State.transport_updatePeer
      · exact fun peer => (peer.setPaused_fields producerId paused).1
      · exact fun peer => (peer.setPaused_fields producerId paused).2.2

/-! ## The other peers of every run -/

theorem Isolates.connected {m : Media Ref} (h : Arranged m) {r t : Ref} {peerId : PeerId}
    (hbelongs : m.rooms.Belongs r peerId t) (hopen : m.rooms.transportOpen t = true) :
    Isolates (some (r, peerId)) m { m with connected := Function.update m.connected t true } where
  peer _ _ _ := rfl
  transport v q peer direction t' hne hpeer ht' := by
    refine ⟨rfl, Function.update_of_ne ?_ _ _⟩
    rintro rfl
    obtain ⟨direction', ht⟩ := hbelongs.2 (State.live_of_transportOpen hopen)
    have hregistered : m.rooms.registered v q direction = some t' :=
      Option.bind_eq_some_iff.2 ⟨peer, hpeer, ht'⟩
    obtain ⟨rfl, rfl⟩ := h.wired.place ht hregistered
    exact hne rfl
  producer _ _ _ _ _ _ _ _ := rfl
  consumers _ _ _ _ _ := rfl
  consumer _ _ _ _ _ _ _ := .inl ⟨rfl, rfl⟩

omit [DecidableEq Ref] in
theorem State.Located.ne {s : State Ref} {r v object : Ref} {peerId q : PeerId}
    {peer : MediaPeer Ref} (h : s.Located r peerId object)
    (hpeer : (s.room v).getPeer q = some peer) (hne : some (r, peerId) ≠ some (v, q)) :
    peer.object ≠ object := by
  intro heq
  obtain ⟨rfl, rfl⟩ := h v q peer hpeer heq
  exact hne rfl

theorem Isolates.addConsumer {m : Media Ref} {r object : Ref} {peerId : PeerId}
    (hfresh : m.Fresh i) (hlocated : m.rooms.Located r peerId object)
    (consumer : Consumer Ref) :
    Isolates (some (r, peerId)) m (m.addConsumer i object consumer) where
  peer _ _ _ := rfl
  transport _ _ _ _ _ _ _ _ := ⟨rfl, rfl⟩
  producer _ _ _ _ _ _ _ _ := rfl
  consumers v q peer hne hpeer := Function.update_of_ne (hlocated.ne hpeer hne) _ _
  consumer v q peer k hne hpeer hk := by
    have hki : k ≠ i := fun heq => hfresh.consumed peer.object (heq ▸ hk)
    have hsame : (m.addConsumer i object consumer).consumer k = m.consumer k :=
      Function.update_of_ne hki _ _
    refine .inl ⟨hsame, ?_⟩
    rw [Media.consumerOpen, Media.consumerOpen, hsame]
    rfl

theorem Isolates.resumed {m : Media Ref} (h : Arranged m) {r object k : Ref} {peerId : PeerId}
    (hlocated : m.rooms.Located r peerId object) (hk : k ∈ m.consumers object) :
    Isolates (some (r, peerId)) m (m.setConsumerPaused k false) where
  peer _ _ _ := rfl
  transport _ _ _ _ _ _ _ _ := ⟨rfl, rfl⟩
  producer _ _ _ _ _ _ _ _ := rfl
  consumers _ _ _ _ _ := rfl
  consumer v q peer k' hne hpeer hk' := by
    have hkk : k' ≠ k := by
      rintro rfl
      exact hlocated.ne hpeer hne (h.holder peer.object object k' hk' hk)
    have hsame : (m.setConsumerPaused k false).consumer k' = m.consumer k' :=
      Function.update_of_ne hkk _ _
    refine .inl ⟨hsame, ?_⟩
    rw [Media.consumerOpen, Media.consumerOpen, hsame]
    rfl

omit [DecidableEq Ref] in
theorem Media.consumerOpen_congr {m m' : Media Ref} {k : Ref}
    (hopen : ∀ t, m'.rooms.transportOpen t = m.rooms.transportOpen t)
    (hsame : (m'.consumer k).map Consumer.unpaused = (m.consumer k).map Consumer.unpaused) :
    m'.consumerOpen k = m.consumerOpen k := by
  unfold consumerOpen
  cases hconsumer : m.consumer k with
  | none =>
      rw [hconsumer, Option.map_none, Option.map_eq_none_iff] at hsame
      rw [hsame]
  | some consumer =>
      rw [hconsumer] at hsame
      obtain ⟨consumer', hconsumer', hunpaused⟩ := Option.map_eq_some_iff.1 hsame
      simp only [Consumer.unpaused, Consumer.mk.injEq] at hunpaused
      rw [hconsumer']
      simp only [hopen, hunpaused.2.1, hunpaused.2.2.1]

theorem State.transportOpen_updatePeer {s : State Ref} {r object : Ref} {peerId : PeerId}
    {f : MediaPeer Ref → MediaPeer Ref} (t : Ref) :
    (s.updatePeer r peerId object f).transportOpen t = s.transportOpen t := by
  rw [transportOpen, transportOpen, transport_updatePeer, frame_updatePeer.routerOpen]

theorem State.producers_setPaused {s : State Ref} (hkeyed : s.Keyed) {r : Ref}
    {peerId : PeerId} {peer : MediaPeer Ref} {producerId : Ref} {producer : Producer Ref}
    {paused : Bool} (hpeer : (s.room r).getPeer peerId = some peer)
    (hlookup : peer.producers.lookup producerId = some producer) :
    ((s.updatePeer r peerId peer.object fun peer =>
      peer.setPaused producerId paused).producers r peerId).lookup producerId =
        some { producer with paused := paused } := by
  have hid (peer : MediaPeer Ref) := (peer.setPaused_fields producerId paused).1
  rw [producers, getPeer_updatePeer hkeyed hid, hpeer]
  simp [MediaPeer.lookup_setPaused, hlookup]

theorem follows_mirrorPaused {m : Media Ref} (hkeyed : m.rooms.Keyed) {r object : Ref}
    {peerId : PeerId} {producerId : Ref} {paused : Bool}
    (hholds : m.holdsProducer r peerId object producerId = true) (k : Ref) :
    Follows (some (r, peerId)) m { m.mirrorPaused producerId paused with
      rooms := m.rooms.updatePeer r peerId object fun peer =>
        peer.setPaused producerId paused } k := by
  have hopen : Media.consumerOpen { m.mirrorPaused producerId paused with
      rooms := m.rooms.updatePeer r peerId object fun peer =>
        peer.setPaused producerId paused } k = m.consumerOpen k := by
    refine Media.consumerOpen_congr State.transportOpen_updatePeer ?_
    simp only [Media.mirrorPaused, Option.map_map]
    congr 1
    funext consumer
    simp only [Function.comp_apply]
    split <;> rfl
  by_cases hreads : ∃ consumer, m.consumer k = some consumer ∧
      consumer.producerId = producerId ∧ m.consumerOpen k = true
  · obtain ⟨consumer, hconsumer, rfl, hopenk⟩ := hreads
    rw [Media.holdsProducer] at hholds
    split at hholds
    · cases hholds
    · next peer hpeer =>
      simp only [Bool.and_eq_true, decide_eq_true_eq] at hholds
      obtain ⟨rfl, hany⟩ := hholds
      obtain ⟨producer, hlookup, hproducerOpen⟩ := (Option.any_eq_true _ _).1 hany
      refine .inr ⟨consumer, r, peerId, producer, hconsumer, rfl, ?_, hproducerOpen,
        .inr ⟨_, State.producers_setPaused hkeyed hpeer hlookup, ?_, hopen⟩⟩
      · simpa [State.producers, hpeer] using hlookup
      · simp [Media.mirrorPaused, hconsumer, hopenk]
  · refine .inl ⟨?_, hopen⟩
    cases hconsumer : m.consumer k with
    | none => simp [Media.mirrorPaused, hconsumer]
    | some consumer =>
        have hnot : ¬ (consumer.producerId = producerId ∧ m.consumerOpen k = true) :=
          fun hboth => hreads ⟨consumer, hconsumer, hboth⟩
        simp [Media.mirrorPaused, hconsumer, hnot]

theorem Isolates.paused {m : Media Ref} (hkeyed : m.rooms.Keyed) {r object : Ref}
    {peerId : PeerId} {producerId : Ref} {paused : Bool}
    (hholds : m.holdsProducer r peerId object producerId = true) :
    Isolates (some (r, peerId)) m { m.mirrorPaused producerId paused with
      rooms := m.rooms.updatePeer r peerId object fun peer =>
        peer.setPaused producerId paused } where
  peer := (State.Confined.updatePeer hkeyed fun peer =>
    (peer.setPaused_fields producerId paused).1).peer
  transport _ _ _ _ t _ _ _ := ⟨State.transportOpen_updatePeer t, rfl⟩
  producer _ _ _ _ producer _ _ _ := State.transportOpen_updatePeer producer.transport
  consumers _ _ _ _ _ := rfl
  consumer _ _ _ k _ _ _ := follows_mirrorPaused hkeyed hholds k

/-- A step of a call for a peer leaves every other peer alone. -/
theorem MediaRegistry.isolates {ok : Bool} (h : MediaRegistry p)
    (hfor : (p.proc i).forPeer = true)
    (hstep : (p.proc i).step i ok p.world = some (m', c')) :
    Isolates ((p.proc i).target p.world.rooms) p.world m' := by
  have hs := MediaCall.step_cases hstep
  have hregistry := h.step hstep
  generalize hc : p.proc i = c at hs hfor
  cases hs with
  | @rooms ok call call' s' hcall =>
      have hproc : p.rooms.proc i = call := by simp [MediaProcess.rooms, hc, MediaCall.roomCall]
      have hunmade : call.creatingTransport = true → p.world.rooms.transport i = none :=
        fun hcreating => h.rooms.unmade i (by rwa [hproc])
      have he := Call.evolves h.arranged.wired hunmade (h.rooms.router_ne (by rwa [hproc])) hcall
      exact h.arranged.isolates he hregistry.arranged.wired
        (Call.confined h.arranged.wired hunmade hfor hcall)
  | quiet | connecting | producing | consuming | resuming => exact .refl _ _
  | connected hopen =>
      exact .connected h.arranged (h.transport i _ _ _ (by rw [hc]; rfl)) hopen
  | @produced roomId peerId transportId r object t kind point' hopen hsettled =>
      have hfresh := h.unmade i (by rw [hc]; rfl)
      have hbelongs := h.transport i r peerId t (by rw [hc]; rfl)
      exact h.arranged.isolates
        (.addProducer h.arranged.wired (hfresh.producer r peerId) hbelongs kind)
        hregistry.arranged.wired (.updatePeer h.arranged.wired.keyed fun _ => rfl)
  | @consumed roomId peerId producerId r object t producer hproducer hopen =>
      have hfresh := h.unmade i (by rw [hc]; rfl)
      obtain ⟨hlocated, -⟩ := h.object i r peerId object (by rw [hc]; rfl)
      exact .addConsumer hfresh hlocated _
  | @resumed roomId peerId consumerId r object k hopen =>
      obtain ⟨hlocated, -⟩ := h.object i r peerId object (by rw [hc]; rfl)
      exact .resumed h.arranged hlocated (h.consumer i object k (by rw [hc]; rfl))
  | paused hholds => exact .paused h.arranged.wired.keyed hholds

end Registry

omit [DecidableEq Ref] in
theorem MediaProcess.rooms_spawned (workers : List Worker) (requests : Ref → MediaRequest Ref) :
    TransportRegistry (rooms (MediaProcess.spawned workers requests)) := by
  have hbegins i : ((requests i).call.roomCall).creating = none ∧
      ((requests i).call.roomCall).stopping = none ∧
      ((requests i).call.roomCall).askedRoom = none := by
    cases requests i with
    | rooms request => cases request <;> exact ⟨rfl, rfl, rfl⟩
    | _ => exact ⟨rfl, rfl, rfl⟩
  refine ⟨⟨nofun, fun i roomId h => ?_, nofun, fun i roomId r h => ?_⟩,
    (TransportRegistry.spawned workers fun _ => .getOrCreateRoom "").wired,
    fun _ _ => rfl, nofun, fun i r h => ?_⟩
  · exact nomatch (hbegins i).1.symm.trans h
  · exact nomatch (hbegins i).2.1.symm.trans h
  · exact nomatch (hbegins i).2.2.symm.trans h

theorem MediaRegistry.spawned (workers : List Worker) (requests : Ref → MediaRequest Ref) :
    MediaRegistry (MediaProcess.spawned workers requests) := by
  have hheld i : (requests i).call.heldTransport = none ∧
      (requests i).call.heldObject = none ∧ (requests i).call.heldConsumer = none := by
    cases requests i <;> exact ⟨rfl, rfl, rfl⟩
  have hproducer r peerId k t :
      ¬ (State.spawned workers : State Ref).HasProducer r peerId k t := by
    rw [State.hasProducer_iff]
    rintro ⟨peer, producer, hpeer, -⟩
    cases hpeer
  refine ⟨MediaProcess.rooms_spawned workers requests, ⟨?_, nofun, ?_, nofun, nofun, ?_⟩,
    fun i _ => ?_, fun i r peerId t h => ?_, fun i r peerId object h => ?_, fun i object k h => ?_⟩
  · exact (MediaProcess.rooms_spawned workers requests).wired
  · exact fun r peerId k t h => (hproducer r peerId k t h).elim
  · simp [MediaProcess.spawned, Media.spawned]
  · refine ⟨nofun, ?_, ?_, rfl, fun r peerId t => hproducer r peerId i t⟩
    · simp [MediaProcess.spawned, Media.spawned]
    · simp [MediaProcess.spawned, Media.spawned]
  · exact nomatch (hheld i).1.symm.trans h
  · exact nomatch (hheld i).2.1.symm.trans h
  · exact nomatch (hheld i).2.2.symm.trans h

theorem MediaRegistry.preserves :
    (mediaService : System (MediaProcess Ref) _).Preserves (fun _ _ => True) MediaRegistry := by
  rintro p ⟨i, ok⟩ p' h - hstep
  obtain ⟨m', c', hcall, rfl⟩ := Pool.step_eq_some.1 hstep
  exact h.step hcall

/-- In every run, a step of a call for one peer leaves every other peer alone, except that
the consumers of the peer's producers close with them and take over their pause. -/
theorem isolates_peers (workers : List Worker) (requests : Ref → MediaRequest Ref)
    (schedule : List (Ref × Bool)) :
    mediaService.Meets
      (fun p a => (p.proc a.1).forPeer = true → Isolates ((p.proc a.1).target p.world.rooms)
        p.world (mediaService.next p a).world)
      (MediaProcess.spawned workers requests) schedule := by
  refine (System.meets_of_forall fun _ _ _ => trivial).along MediaRegistry.preserves ?_
    (MediaRegistry.spawned workers requests)
  rintro p ⟨i, ok⟩ p' h - hstep hfor
  rw [System.next_of_step hstep]
  obtain ⟨m', c', hcall, rfl⟩ := Pool.step_eq_some.1 hstep
  exact h.isolates hfor hcall

end MeetServer.Sfu
