import MeetServer.Realtime.PeersHash

/-!
# Joins that fail

`addPeer` is an HSET and an EXPIRE outside the `try`, and the rollback takes the
peer out whether or not it was a member before.  The peers hash is the one
before the call exactly when the failing command leaves it so.
-/

namespace MeetServer.Realtime

open MeetServer.Foundation

variable {ι κ : Type} [DecidableEq ι] [DecidableEq κ]

/-- A join with nothing else on the room, the commands of whose rollback succeed. -/
def joinAttempt (i : ι) (instanceId : Instance) (roomId : RoomId) (peer : Peer) :
    System (World ι κ × Join ι κ) Event where
  step s event :=
    if s.2.rollingBack ∧ event.ok = false then none
    else s.2.step i instanceId roomId peer event s.1

/-- The commands of the `try` block. -/
def Join.guarded : Join ι κ → Bool
  | .getOtherPeers | .getProducers .. => true
  | _ => false

def Join.settled : Join ι κ → Bool
  | .returned .. | .threw => true
  | _ => false

variable (before : Dict PeerId Peer) (peer : Peer)

/-- After the HSET a failure is harmless if it only has refreshed a member's
entry, and inside the `try` block if there was no entry. -/
def FailsHarmlessly (s : World ι κ × Join ι κ) (event : Event) : Prop :=
  event.ok = false →
    (s.2 = .expire → before.lookup peer.id = some peer) ∧
      (s.2.guarded → before.lookup peer.id = none)

instance : DecidableRel (FailsHarmlessly (ι := ι) (κ := κ) before peer) := fun s event =>
  inferInstanceAs (Decidable (event.ok = false →
    (s.2 = .expire → before.lookup peer.id = some peer) ∧
      (s.2.guarded → before.lookup peer.id = none)))

def PeersAt (s : World ι κ × Join ι κ) : Prop :=
  match s.2 with
  | .getOrCreateRoom _ | .hset => s.1.redis.peers = before
  | .rollbackDel => s.1.redis.peers = (before.insert peer.id peer).erase peer.id
  | .threw => True
  | _ => s.1.redis.peers = before.insert peer.id peer

/-- The call has restored the hash, or its rollback is going to. -/
def Restores (s : World ι κ × Join ι κ) : Prop :=
  (s.2 = .threw → ∀ p, s.1.redis.peers.lookup p = before.lookup p) ∧
    (s.2.rollingBack → before.lookup peer.id = none)

variable {before peer} {i : ι} {instanceId : Instance} {roomId : RoomId} {event : Event}
  {s s' : World ι κ × Join ι κ}

omit [DecidableEq ι] [DecidableEq κ] in
theorem Join.rollingBack_of_settled {point : Join ι κ} (h : point.settled) :
    point.rollingBack = false := by
  cases point <;> first | rfl | cases h

theorem Join.step_guarded {w w' : World ι κ} {point point' : Join ι κ} (hguarded : point.guarded)
    (hfails : event.ok = false)
    (h : point.step i instanceId roomId peer event w = some (w', point')) :
    point' = .rollbackHdel := by
  cases point with
  | getOtherPeers =>
      cases event with
      | settle ok =>
          cases hfails
          cases h
          rfl
      | _ => cases h
  | getProducers otherPeers todo found =>
      cases event with
      | settle ok =>
          cases hfails
          cases todo <;> cases h
          rfl
      | _ => cases h
  | _ => cases hguarded

theorem peersAt_step (hpeers : PeersAt before peer s)
    (h : (joinAttempt i instanceId roomId peer).step s event = some s') :
    PeersAt before peer s' := by
  obtain ⟨w, point⟩ := s
  obtain ⟨w', point'⟩ := s'
  simp only [joinAttempt, Option.ite_none_left_eq_some] at h
  have hstep := Join.step_cases h.2
  generalize event.ok = ok at hstep
  cases hstep with
  | @room _ point point' _ hroom =>
      have hsame : w'.redis.peers = before := hroom.peers.trans hpeers
      cases point' <;> first | exact hsame | trivial
  | added => exact congrArg (AList.insert peer.id peer) hpeers
  | listed | fetched =>
      have hsame : w.redis.peers = before.insert peer.id peer := hpeers
      unfold Join.nextProducers
      split <;> exact hsame
  | refreshed | unlisted | unfetched => exact hpeers
  | removed => exact congrArg (AList.erase peer.id) hpeers
  | cleared | threw => trivial

theorem lookup_rolledBack_iff :
    (∀ p, ((before.insert peer.id peer).erase peer.id).lookup p = before.lookup p) ↔
      before.lookup peer.id = none := by
  constructor
  · intro h
    simpa using (h peer.id).symm
  · intro h p
    rw [Dict.lookup_erase_ite, Dict.lookup_insert_ite]
    by_cases hp : p = peer.id
    · subst hp
      simp [h]
    · simp [hp]

theorem lookup_added_iff :
    (∀ p, (before.insert peer.id peer).lookup p = before.lookup p) ↔
      before.lookup peer.id = some peer := by
  constructor
  · intro h
    simpa using (h peer.id).symm
  · intro h p
    rw [Dict.lookup_insert_ite]
    by_cases hp : p = peer.id
    · subst hp
      simp [h]
    · simp [hp]

theorem failsHarmlessly_iff (hpeers : PeersAt before peer s) (hrestores : Restores before peer s)
    (h : (joinAttempt i instanceId roomId peer).step s event = some s') :
    Restores before peer s' ↔ FailsHarmlessly before peer s event := by
  have hpeers' := peersAt_step hpeers h
  obtain ⟨w, point⟩ := s
  obtain ⟨w', point'⟩ := s'
  simp only [joinAttempt, Option.ite_none_left_eq_some] at h
  obtain ⟨hrollback, h⟩ := h
  have hguarded := fun hguarded hfails => Join.step_guarded hguarded hfails h
  have hstep := Join.step_cases h
  unfold FailsHarmlessly
  generalize hok : event.ok = ok at hstep hguarded hrollback ⊢
  cases hstep with
  | @room _ point point' _ hroom =>
      have hsame : w'.redis.peers = before := hroom.peers.trans hpeers
      cases point' <;> simp [Restores, Join.afterGetOrCreateRoom, Join.rollingBack, Join.guarded,
        hsame]
  | added | refreshed => simp [Restores, Join.rollingBack]
  | listed | fetched =>
      unfold Join.nextProducers
      split <;> simp [Restores, Join.rollingBack]
  | unlisted | unfetched => simp [Restores, Join.rollingBack, Join.guarded]
  | removed =>
      have hnone : before.lookup peer.id = none := hrestores.2 rfl
      simp [Restores, Join.rollingBack, hnone]
  | cleared =>
      have hrolled : w.redis.peers = (before.insert peer.id peer).erase peer.id := hpeers
      have hnone : before.lookup peer.id = none := hrestores.2 rfl
      simp [Restores, Join.rollingBack, RoomKeys.delProducers, hrolled,
        lookup_rolledBack_iff.2 hnone]
  | threw =>
      cases point with
      | getOrCreateRoom | hset =>
          have hsame : w.redis.peers = before := hpeers
          simp [Restores, Join.rollingBack, Join.guarded, hsame]
      | expire =>
          have hadded : w.redis.peers = before.insert peer.id peer := hpeers
          simp [Restores, Join.rollingBack, Join.guarded, hadded, lookup_added_iff]
      | getOtherPeers | getProducers => cases hguarded rfl rfl
      | rollbackHdel | rollbackDel => exact absurd ⟨rfl, rfl⟩ hrollback
      | returned | threw => cases event <;> cases h

/-- A join that has left another hash behind, or is going to, does not make up for it. -/
theorem restores_of_step (hpeers : PeersAt before peer s)
    (h : (joinAttempt i instanceId roomId peer).step s event = some s')
    (hrestores : Restores before peer s') : Restores before peer s := by
  obtain ⟨w, point⟩ := s
  obtain ⟨w', point'⟩ := s'
  simp only [joinAttempt, Option.ite_none_left_eq_some] at h
  obtain ⟨hrollback, h⟩ := h
  have hstep := Join.step_cases h
  generalize event.ok = ok at hstep hrollback
  cases point with
  | rollbackHdel =>
      cases hstep with
      | removed => exact ⟨nofun, fun _ => hrestores.2 rfl⟩
      | threw => exact absurd ⟨rfl, rfl⟩ hrollback
  | rollbackDel =>
      cases hstep with
      | cleared =>
          have hrolled : w.redis.peers = (before.insert peer.id peer).erase peer.id := hpeers
          refine ⟨nofun, fun _ => lookup_rolledBack_iff.1 fun p => ?_⟩
          rw [← hrolled]
          exact hrestores.1 rfl p
      | threw => exact absurd ⟨rfl, rfl⟩ hrollback
  | threw => cases event <;> cases h
  | _ => exact ⟨nofun, nofun⟩

theorem restores_step_iff (hpeers : PeersAt before peer s)
    (h : (joinAttempt i instanceId roomId peer).step s event = some s') :
    Restores before peer s' ↔ Restores before peer s ∧ FailsHarmlessly before peer s event := by
  constructor
  · intro hrestores'
    have hrestores := restores_of_step hpeers h hrestores'
    exact ⟨hrestores, (failsHarmlessly_iff hpeers hrestores h).1 hrestores'⟩
  · rintro ⟨hrestores, hharmless⟩
    exact (failsHarmlessly_iff hpeers hrestores h).2 hharmless

/-! ## Whole calls -/

/-- Whatever fails, a join that throws leaves the peers hash as it was exactly when
every command fails harmlessly. -/
theorem join_restores_iff {w w' : World ι κ} {point' : Join ι κ} {events : List Event}
    (hrun : (joinAttempt i instanceId roomId peer).run (w, .getOrCreateRoom .getRoom) events =
      (w', point')) (hsettled : point'.settled) :
    (point' = .threw → ∀ p, w'.redis.peers.lookup p = w.redis.peers.lookup p) ↔
      (joinAttempt i instanceId roomId peer).Meets (FailsHarmlessly w.redis.peers peer)
        (w, .getOrCreateRoom .getRoom) events := by
  have hstart : PeersAt (ι := ι) (κ := κ) w.redis.peers peer (w, .getOrCreateRoom .getRoom) := rfl
  have hclean : Restores (ι := ι) (κ := κ) w.redis.peers peer (w, .getOrCreateRoom .getRoom) :=
    ⟨nofun, nofun⟩
  have hkeeps : (joinAttempt (ι := ι) (κ := κ) i instanceId roomId peer).Preserves
      (fun _ _ => True) (PeersAt w.redis.peers peer) :=
    fun s event s' h _ hstep => peersAt_step h hstep
  have hall : (joinAttempt i instanceId roomId peer).Meets (fun _ _ => True)
      (w, .getOrCreateRoom .getRoom) events := System.meets_of_forall fun _ _ _ => trivial
  have hexact := System.last_iff_meets (P := Restores w.redis.peers peer) hkeeps
    (fun s event s' h _ hstep => restores_step_iff h hstep) hstart hall
  rw [hrun, and_iff_right hclean] at hexact
  rw [← hexact, Restores, Join.rollingBack_of_settled hsettled]
  simp

/-! ## A new peer and a member -/

def alice : Peer := { id := "p", displayName := "Alice" }

def occupied (peers : Dict PeerId Peer) : World Nat Nat where
  serviceUrls := []
  redis := { room := some { id := "r", rtpCapabilities := "", sfuNodeUrl := "" }, peers := peers }
  sfu _ := Sfu.State.spawned []
  pendingRooms _ := none
  creation _ := none

def settlements (answers : List Bool) : List Event := answers.map .settle

/-- The HGETALL for a new peer fails, and the peer is taken out again. -/
theorem join_restores_newPeer :
    ((joinAttempt 0 0 "r" alice).run (occupied ∅, .getOrCreateRoom .getRoom)
        (settlements [true, true, true, true, false, true, true])).2 = .threw ∧
      ((joinAttempt 0 0 "r" alice).run (occupied ∅, .getOrCreateRoom .getRoom)
        (settlements [true, true, true, true, false, true, true])).1.redis.peers.lookup "p" =
      none := by
  have hrestores : ∀ p, ((joinAttempt 0 0 "r" alice).run
      (occupied ∅, .getOrCreateRoom .getRoom)
        (settlements [true, true, true, true, false, true, true])).1.redis.peers.lookup p =
      (occupied ∅).redis.peers.lookup p := by
    refine (join_restores_iff rfl rfl).2 ?_ rfl
    decide
  exact ⟨rfl, hrestores "p"⟩

/-- The EXPIRE fails after the HSET: the new peer stays in the hash. -/
theorem join_leavesGhost :
    ((joinAttempt 0 0 "r" alice).run (occupied ∅, .getOrCreateRoom .getRoom)
        (settlements [true, true, true, false])).2 = .threw ∧
      (occupied ∅).redis.peers.lookup "p" = none ∧
      ((joinAttempt 0 0 "r" alice).run (occupied ∅, .getOrCreateRoom .getRoom)
        (settlements [true, true, true, false])).1.redis.peers.lookup "p" = some alice := by
  decide

end MeetServer.Realtime
