import MeetServer.Realtime.PeersHash

/-!
# Peers that join together

A join adds its own peer before it reads the others.  Of two joins that have
both read, the later reader found the other's entry, unless a leave had taken
it out.
-/

namespace MeetServer.Realtime

open MeetServer.Foundation

variable {ι κ : Type}

namespace Call

/-- The peer of a join and the other peers it has read. -/
def listing : Call ι κ → Option (Peer × List Peer)
  | .join _ peer (.getProducers otherPeers _ _)
  | .join _ peer (.returned otherPeers _) => some (peer, otherPeers)
  | _ => none

/-- The peer of a join that has returned, and its `existingPeers`. -/
def existingPeers : Call ι κ → Option (Peer × List Peer)
  | .join _ peer (.returned existingPeers _) => some (peer, existingPeers)
  | _ => none

theorem listing_of_existingPeers {c : Call ι κ} {peer : Peer} {ps : List Peer}
    (h : c.existingPeers = some (peer, ps)) : c.listing = some (peer, ps) := by
  cases c with
  | join _ _ point => cases point <;> first | exact h | cases h
  | _ => cases h

theorem added_of_listing {c : Call ι κ} {peer : Peer} {ps : List Peer}
    (h : c.listing = some (peer, ps)) : c.added = some peer.id := by
  cases c with
  | join _ _ point => cases point <;> cases h <;> rfl
  | _ => cases h

theorem listing_nextProducers (instanceId : Instance) (peer : Peer)
    (otherPeers todo : List Peer) (found : List (ExistingProducer (ι ⊕ κ))) :
    (join instanceId peer (.nextProducers otherPeers todo found)).listing =
      some (peer, otherPeers) := by
  cases todo <;> rfl

end Call

/-- No leave has removed the peer. -/
def Calls.Stays (s : Calls ι κ) (p : PeerId) : Prop :=
  ∀ i, (s.proc i).removed ≠ some p

/-- Of two peers that have joined and not left, one has found the other; none
has found itself, or a peer twice. -/
structure JoinersMeet (s : Calls ι κ) : Prop where
  meet : ∀ i j peer peer' ps ps',
    (s.proc i).existingPeers = some (peer, ps) →
    (s.proc j).existingPeers = some (peer', ps') → peer.id ≠ peer'.id →
    s.Stays peer.id → s.Stays peer'.id →
    peer'.id ∈ ps.map Peer.id ∨ peer.id ∈ ps'.map Peer.id
  notSelf : ∀ i peer ps, (s.proc i).existingPeers = some (peer, ps) →
    peer.id ∉ ps.map Peer.id
  nodup : ∀ i peer ps, (s.proc i).existingPeers = some (peer, ps) →
    (ps.map Peer.id).Nodup

structure ReadersMeet (s : Calls ι κ) : Prop where
  keyed : s.world.redis.Keyed
  rollingBack : ∀ i, (s.proc i).rollingBack = false
  added : ∀ i p, (s.proc i).added = some p → s.Stays p →
    p ∈ s.world.redis.peers
  meet : ∀ i j peer peer' ps ps', (s.proc i).listing = some (peer, ps) →
    (s.proc j).listing = some (peer', ps') → peer.id ≠ peer'.id →
    s.Stays peer.id → s.Stays peer'.id →
    peer'.id ∈ ps.map Peer.id ∨ peer.id ∈ ps'.map Peer.id
  notSelf : ∀ i peer ps, (s.proc i).listing = some (peer, ps) →
    peer.id ∉ ps.map Peer.id
  nodup : ∀ i peer ps, (s.proc i).listing = some (peer, ps) →
    (ps.map Peer.id).Nodup

theorem ReadersMeet.joinersMeet {s : Calls ι κ} (h : ReadersMeet s) :
    JoinersMeet s where
  meet i j peer peer' ps ps' hi hj :=
    h.meet i j peer peer' ps ps' (Call.listing_of_existingPeers hi)
      (Call.listing_of_existingPeers hj)
  notSelf i peer ps hi := h.notSelf i peer ps (Call.listing_of_existingPeers hi)
  nodup i peer ps hi := h.nodup i peer ps (Call.listing_of_existingPeers hi)

/-- A peer that has been added and stays is found by every later reader. -/
theorem ReadersMeet.found {s : Calls ι κ} (h : ReadersMeet s) {i : ι}
    {p q : PeerId} (hi : (s.proc i).added = some q) (hne : p ≠ q)
    (hstays : s.Stays q) :
    q ∈ (s.world.redis.getOtherPeers p).map Peer.id :=
  h.keyed.mem_getOtherPeers.2 ⟨h.added i q hi hstays, hne.symm⟩

/-- What a step does to its own call when nothing fails. -/
structure Call.Reads (w w' : World ι κ) (c c' : Call ι κ) : Prop where
  removed : ∀ p, c.removed = some p → c'.removed = some p
  removing : ∀ p, c.removing = some p → c'.removed = some p
  added : ∀ p, c'.added = some p → c.added = some p ∨ p ∈ w'.redis.peers
  rollingBack : c'.rollingBack = false
  listing : c'.listing = c.listing ∨ ∃ peer, c.added = some peer.id ∧
    c'.listing = some (peer, w.redis.getOtherPeers peer.id)

variable [DecidableEq ι] [DecidableEq κ]

theorem Join.Step.reads {i : ι} {instanceId : Instance} {roomId : RoomId}
    {peer : Peer} {w w' : World ι κ} {point point' : Join ι κ}
    (h : Join.Step i instanceId roomId peer w true point w' point')
    (hrolling : point.rollingBack = false) :
    Call.Reads w w' (.join instanceId peer point)
      (.join instanceId peer point') := by
  have hremoving : (Call.join instanceId peer point).removing = none := by
    cases point <;> first | rfl | cases hrolling
  refine ⟨nofun, fun p hp => ?_, fun p hp => ?_, ?_, ?_⟩
  · rw [hremoving] at hp
    cases hp
  · cases h with
    | @room _ _ point' _ hroom =>
        cases point' <;> cases hp
    | added =>
        cases hp
        exact .inr ((AList.mem_insert _).2 (.inl rfl))
    | refreshed => exact .inl hp
    | listed | fetched =>
        exact .inl ((Call.added_of_listing
          (Call.listing_nextProducers _ _ _ _ _)).symm.trans hp)
    | removed | cleared => cases hrolling
  · cases h with
    | @room _ _ point' _ hroom => cases point' <;> rfl
    | added | refreshed => rfl
    | listed | fetched => exact Join.rollingBack_nextProducers _ _ _
    | removed | cleared => cases hrolling
  · cases h with
    | @room _ _ point' _ hroom => cases point' <;> exact .inl rfl
    | added | refreshed => exact .inl rfl
    | listed => exact .inr ⟨peer, rfl, Call.listing_nextProducers _ _ _ _ _⟩
    | fetched => exact .inl (Call.listing_nextProducers _ _ _ _ _)
    | removed | cleared => cases hrolling

theorem Leave.Step.reads {roomId : RoomId} {peerId : PeerId}
    {w w' : World ι κ} {point point' : Leave ι κ}
    (h : Leave.Step roomId peerId w true point w' point') :
    Call.Reads w w' (.leave peerId point) (.leave peerId point') := by
  have hkeeps : point.removed = true → point'.removed = true := by
    rcases h.membership with ⟨-, -, hkeeps⟩ | ⟨-, -, hleft⟩ | ⟨-, -, -, -, hleft⟩
    · exact hkeeps
    · exact fun _ => hleft
    · exact fun _ => hleft
  refine ⟨fun p hp => ?_, fun p hp => ?_, nofun, rfl, .inl rfl⟩
  · cases hremoved : point.removed with
    | false => simp [Call.removed, hremoved] at hp
    | true =>
        simpa [Call.removed, hremoved, hkeeps hremoved] using hp
  · cases point with
    | hdel url => cases h; exact hp
    | _ => cases hp

theorem Call.reads_of_step {roomId : RoomId} {i : ι} {event : Event}
    {w w' : World ι κ} {c c' : Call ι κ} (hok : event.ok = true)
    (hrolling : c.rollingBack = false)
    (h : c.step roomId i event w = some (w', c')) : Call.Reads w w' c c' := by
  cases c with
  | join instanceId peer point =>
      simp only [Call.step, Option.map_eq_some_iff, Prod.mk.injEq] at h
      obtain ⟨⟨w', point'⟩, hpoint, rfl, rfl⟩ := h
      exact Join.Step.reads (hok ▸ Join.step_cases hpoint) hrolling
  | leave peerId point =>
      simp only [Call.step, Option.map_eq_some_iff, Prod.mk.injEq] at h
      obtain ⟨⟨w', point'⟩, hpoint, rfl, rfl⟩ := h
      exact Leave.Step.reads (hok ▸ Leave.step_cases hpoint)
  | createWebRtcTransport peerId direction point =>
      simp only [Call.step, Option.map_eq_some_iff, Prod.mk.injEq] at h
      obtain ⟨⟨w', point'⟩, hpoint, rfl, rfl⟩ := h
      exact ⟨by rintro _ ⟨⟩, by rintro _ ⟨⟩, by rintro _ ⟨⟩, rfl, .inl rfl⟩

omit [DecidableEq κ] in
theorem Calls.Stays.of_set {s : Calls ι κ} {i : ι} {w' : World ι κ}
    {c' : Call ι κ} {p : PeerId} (hreads : Call.Reads s.world w' (s.proc i) c')
    (h : Calls.Stays (s.set i w' c') p) : s.Stays p := by
  intro j hj
  refine h j ?_
  rw [Pool.set_proc]
  split
  · next hji => exact hreads.removed p (hji ▸ hj)
  · exact hj

theorem ReadersMeet.preserves {roomId : RoomId} :
    (signaling roomId : System (Calls ι κ) _).Preserves
      (fun _ a => a.2.ok = true) ReadersMeet := by
  rintro s ⟨i, event⟩ s' h hok hstep
  obtain ⟨w', c', hcall, rfl⟩ := Pool.step_eq_some.1 hstep
  have hreads : Call.Reads s.world w' (s.proc i) c' :=
    Call.reads_of_step hok (h.rollingBack i) hcall
  have hpeers := Call.peers_of_step hcall
  have hlisting : ∀ j peer ps,
      ((s.set i w' c').proc j).listing = some (peer, ps) →
      (s.proc j).listing = some (peer, ps) ∨ (s.proc j).added = some peer.id ∧
        ps = s.world.redis.getOtherPeers peer.id := by
    intro j peer ps hj
    rw [Pool.set_proc] at hj
    split at hj
    · next hji =>
      subst hji
      rcases hreads.listing with hsame | ⟨peer', hadded, hlist⟩
      · exact .inl (hsame ▸ hj)
      · cases hlist.symm.trans hj
        exact .inr ⟨hadded, rfl⟩
    · exact .inl hj
  have hadded : ∀ j peer ps,
      ((s.set i w' c').proc j).listing = some (peer, ps) →
      (s.proc j).added = some peer.id := by
    intro j peer ps hj
    rcases hlisting j peer ps hj with hold | ⟨hnew, -⟩
    · exact Call.added_of_listing hold
    · exact hnew
  constructor
  · exact hpeers.keyed h.keyed
  · intro j
    rw [Pool.set_proc]
    split
    · exact hreads.rollingBack
    · exact h.rollingBack j
  · intro j p hj hstays
    have hbefore : (s.proc j).added = some p → p ∈ w'.redis.peers := by
      intro hj
      refine hpeers.mem (h.added j p hj (hstays.of_set hreads)) fun hp => ?_
      refine hstays i ?_
      rw [Pool.set_proc_self]
      exact hreads.removing p hp
    rw [Pool.set_proc] at hj
    split at hj
    · next hji =>
      subst hji
      rcases hreads.added p hj with hold | hnew
      · exact hbefore hold
      · exact hnew
    · exact hbefore hj
  · intro j k peer peer' ps ps' hj hk hne hstays hstays'
    have hstay := hstays.of_set hreads
    have hstay' := hstays'.of_set hreads
    rcases hlisting j peer ps hj with hold | ⟨-, rfl⟩
    · rcases hlisting k peer' ps' hk with hold' | ⟨-, rfl⟩
      · exact h.meet j k peer peer' ps ps' hold hold' hne hstay hstay'
      · exact .inr (h.found (hadded j peer ps hj) hne.symm hstay)
    · exact .inl (h.found (hadded k peer' ps' hk) hne hstay')
  · intro j peer ps hj
    rcases hlisting j peer ps hj with hold | ⟨-, rfl⟩
    · exact h.notSelf j peer ps hold
    · exact fun hself => (h.keyed.mem_getOtherPeers.1 hself).2 rfl
  · intro j peer ps hj
    rcases hlisting j peer ps hj with hold | ⟨-, rfl⟩
    · exact h.nodup j peer ps hold
    · exact h.keyed.nodup_getOtherPeers peer.id

omit [DecidableEq ι] [DecidableEq κ] in
theorem ReadersMeet.issued {w : World ι κ} (hkeyed : w.redis.Keyed)
    (requests : ι → Request) : ReadersMeet (.issued w requests) := by
  have hcall : ∀ i, ((requests i).call : Call ι κ).added = none ∧
      ((requests i).call : Call ι κ).listing = none ∧
      ((requests i).call : Call ι κ).rollingBack = false := by
    intro i
    cases requests i <;> exact ⟨rfl, rfl, rfl⟩
  refine ⟨hkeyed, fun i => (hcall i).2.2, ?_, ?_, ?_, ?_⟩
  · intro i p hi
    rw [Calls.issued, (hcall i).1] at hi
    cases hi
  all_goals
    intro i
    have hi : ((Calls.issued w requests).proc i).listing = none := (hcall i).2.1
    simp [hi]

/-- Whatever the order of the joins' and the leaves' commands, joiners meet. -/
theorem holds_joinersMeet {roomId : RoomId} {w : World ι κ}
    (hkeyed : w.redis.Keyed) (requests : ι → Request)
    {schedule : List (ι × Event)} (hok : ∀ a ∈ schedule, a.2.ok = true) :
    (signaling roomId).Holds JoinersMeet (.issued w requests) schedule :=
  (System.meets_of_forall fun a ha _ => hok a ha).holds ReadersMeet.preserves
    (fun _ h => h.joinersMeet) (.issued hkeyed requests)

/-! Two peers join a new room on two instances at the same time. -/

def bothJoin : Fin 2 → Request
  | 0 => .join 0 ⟨"a", "Ann"⟩
  | 1 => .join 1 ⟨"b", "Bob"⟩

def emptyNode : World (Fin 2) Empty :=
  .fresh ["n"] fun _ => .spawned [0]

/-- The calls take turns. -/
def joiningSchedule (i j : ι) : List (ι × Event) :=
  [(i, .settle true), (j, .settle true), (i, .stats 0 true), (j, .stats 0 true)] ++
    (List.replicate 10 [(i, .settle true), (j, .settle true)]).flatten

theorem holds_joinersMeet_bothJoin :
    (signaling "r").Holds JoinersMeet (.issued emptyNode bothJoin)
      (joiningSchedule 0 1) :=
  holds_joinersMeet (by nofun) bothJoin (by decide)

example :
    (((signaling "r").run (.issued emptyNode bothJoin)
      (joiningSchedule 0 1)).proc 0).existingPeers =
        some (⟨"a", "Ann"⟩, [⟨"b", "Bob"⟩]) := by decide

end MeetServer.Realtime
