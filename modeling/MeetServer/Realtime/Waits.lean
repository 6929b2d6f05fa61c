import Mathlib.Data.Prod.Lex
import MeetServer.Realtime.Membership
import MeetServer.Sfu.Progress

/-!
# What a signaling call waits for

Every step brings a call closer to its end.  What it waits for is an answer of
Redis or of a node, except in two places: the promise that its instance keeps
in `pendingRooms`, and, as a request on a node, the one that the node keeps.
-/

namespace MeetServer.Realtime

open MeetServer.Foundation

variable {ι κ : Type}

/-! ## How far a call has come -/

/-- The answers of `Promise.allSettled` that are still missing. -/
def Readings.missing (readings : Readings) : Nat :=
  readings.countP fun reading => reading.2.isNone

/-- The number of a phase and the work that is left in it. -/
abbrev Rank := ℕ ×ₗ ℕ

def Rank.of (phase left : Nat) : Rank := toLex (phase, left)

theorem Rank.of_lt {m n k l : Nat} : Rank.of m k < Rank.of n l ↔ m < n ∨ m = n ∧ k < l :=
  Prod.Lex.toLex_lt_toLex

def GetOrCreateRoom.rank : GetOrCreateRoom ι κ → Rank
  | .getRoom => .of 15 0
  | .getStats readings => .of 14 readings.missing
  | .createOrGetMediaRoom _ request => .of 11 request.rank
  | .set _ | .expire _ | .pending _ => .of 10 0
  | .returned _ | .threw => .of 9 0

def Join.rank : Join ι κ → Rank
  | .getOrCreateRoom point => point.rank
  | .hset => .of 8 0
  | .expire => .of 7 0
  | .getOtherPeers => .of 6 0
  | .getProducers _ todo _ => .of 5 todo.length
  | .rollbackHdel => .of 2 0
  | .rollbackDel => .of 1 0
  | .returned _ _ | .threw => .of 0 0

def Leave.rank : Leave ι κ → Rank
  | .getRoom => .of 10 0
  | .hdel _ => .of 9 0
  | .delProducers _ => .of 8 0
  | .sfuRemovePeer _ false => .of 7 0
  | .sfuRemovePeer _ true => .of 6 0
  | .hlen _ => .of 5 0
  | .hkeys _ => .of 4 0
  | .closeRoomIfEmpty _ _ => .of 3 0
  | .delProducerHashes _ todo _ => .of 2 todo.length
  | .closed _ close historyDeleted => .of 1 (close.rank + if historyDeleted then 0 else 1)
  | .returned | .threw => .of 0 0

def CreateWebRtcTransport.rank : CreateWebRtcTransport ι κ → Rank
  | .getPeer => .of 3 0
  | .getRoom => .of 2 0
  | .createTransport _ request => .of 1 request.rank
  | .returned _ | .threw => .of 0 0

namespace Call

def rank : Call ι κ → Rank
  | .join _ _ point => point.rank
  | .leave _ point => point.rank
  | .createWebRtcTransport _ _ point => point.rank

/-- Returned or thrown, and for a `leave` that has closed the room: the two requests that it
does not await are through. -/
def settled : Call ι κ → Bool
  | .join _ _ (.returned _ _) | .join _ _ .threw => true
  | .leave _ (.closed _ (.returned _) true) | .leave _ (.closed _ .threw true) => true
  | .leave _ .returned | .leave _ .threw => true
  | .createWebRtcTransport _ _ (.returned _) | .createWebRtcTransport _ _ .threw => true
  | _ => false

end Call

variable [DecidableEq ι] [DecidableEq κ]

section Rank

variable {i : ι} {instanceId : Instance} {roomId : RoomId} {peerId : PeerId} {event : Event}
  {w w' : World ι κ}

omit [DecidableEq ι] [DecidableEq κ] in
/-- Each answer is one of those that were missing. -/
theorem Readings.Answered.missing_lt {ok : Bool} {readings readings' : Readings}
    (h : readings.Answered w ok readings') : readings'.missing < readings.missing := by
  obtain ⟨k, url, hk, rfl⟩ := h
  obtain ⟨hlt, hget⟩ := List.getElem?_eq_some_iff.1 hk
  unfold missing
  rw [List.countP_set hlt, hget]
  have hpos : 0 < readings.countP fun reading => reading.2.isNone :=
    List.countP_pos_iff.2 ⟨_, List.mem_of_getElem? hk, rfl⟩
  simpa using hpos

theorem GetOrCreateRoom.rank_lt_of_step {point point' : GetOrCreateRoom ι κ}
    (h : point.step i instanceId roomId event w = some (w', point')) :
    point'.rank < point.rank := by
  have hs := GetOrCreateRoom.step_cases h
  generalize event.ok = ok at hs
  cases hs with
  | read hanswered => exact Rank.of_lt.2 (.inr ⟨rfl, hanswered.missing_lt⟩)
  | put hput => exact Rank.of_lt.2 (.inr ⟨rfl, Sfu.GetOrCreateRoom.rank_lt_of_step hput⟩)
  | _ => exact Rank.of_lt.2 (.inl (by decide))

omit [DecidableEq ι] [DecidableEq κ] in
theorem Join.rank_afterGetOrCreateRoom_le (point : GetOrCreateRoom ι κ) :
    (afterGetOrCreateRoom point).rank ≤ point.rank := by
  cases point with
  | returned | threw => exact (Rank.of_lt.2 (.inl (by decide))).le
  | _ => exact le_rfl

omit [DecidableEq ι] [DecidableEq κ] in
theorem Join.rank_nextProducers_le (otherPeers todo : List Peer)
    (found : List (ExistingProducer (ι ⊕ κ))) :
    (nextProducers otherPeers todo found).rank ≤ .of 5 todo.length := by
  cases todo with
  | nil => exact (Rank.of_lt.2 (.inl (by decide))).le
  | cons => exact le_rfl

theorem Join.rank_lt_of_step {peer : Peer} {point point' : Join ι κ}
    (h : point.step i instanceId roomId peer event w = some (w', point')) :
    point'.rank < point.rank := by
  unfold step at h
  split at h
  · obtain ⟨⟨w', point'⟩, hroom, heq⟩ := Option.map_eq_some_iff.1 h
    cases heq
    exact (rank_afterGetOrCreateRoom_le point').trans_lt (GetOrCreateRoom.rank_lt_of_step hroom)
  · next ok _ =>
    have hphase {m n k l : Nat} (hlt : m < n) : Rank.of m k < Rank.of n l := Rank.of_lt.2 (.inl hlt)
    cases point with
    | getOtherPeers =>
        cases ok <;> cases h
        · exact hphase (by decide)
        · exact (rank_nextProducers_le ..).trans_lt (hphase (by decide))
    | getProducers otherPeers todo found =>
        cases todo with
        | nil => cases h
        | cons otherPeer todo =>
            cases ok <;> cases h
            · exact hphase (by decide)
            · exact (rank_nextProducers_le ..).trans_lt
                (Rank.of_lt.2 (.inr ⟨rfl, Nat.lt_succ_self _⟩))
    | hset | expire | rollbackHdel | rollbackDel =>
        cases ok <;> cases h <;> exact hphase (by decide)
    | getOrCreateRoom | returned | threw => cases h
  · cases h

omit [DecidableEq ι] [DecidableEq κ] in
theorem Leave.rank_nextProducerHash_lt (url : Url) (todo : List PeerId) (rejected : Bool)
    {n : Nat} (hn : todo.length < n) :
    (nextProducerHash url todo rejected : Leave ι κ).rank < .of 2 n := by
  cases todo with
  | nil => cases rejected <;> exact Rank.of_lt.2 (.inl (by decide))
  | cons => exact Rank.of_lt.2 (.inr ⟨rfl, hn⟩)

theorem Leave.rank_lt_of_step {point point' : Leave ι κ}
    (h : point.step roomId peerId event w = some (w', point')) : point'.rank < point.rank := by
  have hphase {m n k l : Nat} (hlt : m < n) : Rank.of m k < Rank.of n l := Rank.of_lt.2 (.inl hlt)
  unfold step at h
  split at h
  · next ok =>
    cases point with
    | getRoom =>
        simp only [settle] at h
        split at h
        · split at h <;> cases h <;> exact hphase (by decide)
        · cases h
          exact hphase (by decide)
    | sfuRemovePeer url processed =>
        cases processed <;> cases ok <;> cases h <;> exact hphase (by decide)
    | hlen url =>
        simp only [settle] at h
        split at h <;> cases h
        · split <;> exact hphase (by decide)
        · exact hphase (by decide)
    | closeRoomIfEmpty url peerIds =>
        simp only [settle] at h
        split at h <;> cases h
        · split
          · exact (rank_nextProducerHash_lt url peerIds false (Nat.lt_succ_self _)).trans
              (hphase (by decide))
          · exact hphase (by decide)
        · exact hphase (by decide)
    | delProducerHashes url todo rejected =>
        cases todo with
        | nil => cases h
        | cons otherId todo =>
            cases ok <;> cases h
            · exact rank_nextProducerHash_lt url todo true (Nat.lt_succ_self _)
            · exact rank_nextProducerHash_lt url todo rejected (Nat.lt_succ_self _)
    | hdel | delProducers | hkeys => cases ok <;> cases h <;> exact hphase (by decide)
    | closed | returned | threw => cases h
  · next ok url close historyDeleted =>
    obtain ⟨⟨w', close'⟩, hclose, heq⟩ := Option.map_eq_some_iff.1 h
    cases heq
    refine Rank.of_lt.2 (.inr ⟨rfl, Nat.add_lt_add_right ?_ _⟩)
    unfold advanceClose at hclose
    split at hclose
    · split at hclose
      · obtain ⟨⟨node, close'⟩, hnode, heq⟩ := Option.map_eq_some_iff.1 hclose
        cases heq
        exact Sfu.CloseRoom.rank_lt_of_step hnode
      · cases hclose
        exact Nat.zero_lt_two
    · obtain ⟨⟨node, close'⟩, hnode, heq⟩ := Option.map_eq_some_iff.1 hclose
      cases heq
      exact Sfu.CloseRoom.rank_lt_of_step hnode
  · cases h
    exact Rank.of_lt.2 (.inr ⟨rfl, Nat.lt_succ_self _⟩)
  · cases h

theorem CreateWebRtcTransport.rank_lt_of_step {direction : TransportDirection}
    {point point' : CreateWebRtcTransport ι κ}
    (h : point.step i roomId peerId direction event w = some (w', point')) :
    point'.rank < point.rank := by
  have hphase {m n k l : Nat} (hlt : m < n) : Rank.of m k < Rank.of n l := Rank.of_lt.2 (.inl hlt)
  have hs := CreateWebRtcTransport.step_cases h
  generalize event.ok = ok at hs
  cases hs with
  | checked | located | answered => exact hphase (by decide)
  | post _ hpost => exact Rank.of_lt.2 (.inr ⟨rfl, Sfu.CreateTransport.rank_lt_of_step hpost⟩)
  | threw =>
      cases point with
      | returned | threw => cases event <;> cases h
      | _ => exact hphase (by decide)

theorem Call.rank_lt_of_step {c c' : Call ι κ} (h : c.step roomId i event w = some (w', c')) :
    c'.rank < c.rank := by
  cases c with
  | join instanceId peer point =>
      obtain ⟨r, hr, heq⟩ := Option.map_eq_some_iff.1 h
      cases heq
      exact Join.rank_lt_of_step hr
  | leave peerId point =>
      obtain ⟨r, hr, heq⟩ := Option.map_eq_some_iff.1 h
      cases heq
      exact Leave.rank_lt_of_step hr
  | createWebRtcTransport peerId direction point =>
      obtain ⟨r, hr, heq⟩ := Option.map_eq_some_iff.1 h
      cases heq
      exact CreateWebRtcTransport.rank_lt_of_step hr

end Rank

/-! ## What a call waits for -/

namespace Readings

omit [DecidableEq ι] [DecidableEq κ]

theorem exists_missing {readings : Readings} (h : readings.settled = false) :
    ∃ (k : ℕ) (url : Url), readings[k]? = some (url, none) := by
  obtain ⟨⟨url, answer⟩, hmem, hanswer⟩ := List.all_eq_false.1 h
  obtain ⟨k, hk⟩ := List.mem_iff_getElem?.1 hmem
  obtain rfl : answer = none := by simpa using hanswer
  exact ⟨k, url, hk⟩

theorem settled_asked {urls : List Url} (h : urls ≠ []) :
    settled (urls.map fun url => (url, none)) = false := by
  obtain ⟨url, rest, rfl⟩ := List.exists_cons_of_ne_nil h
  rfl

end Readings

/-- There is something left to do at the point. -/
def GetOrCreateRoom.sound : GetOrCreateRoom ι κ → Bool
  | .getStats readings => !readings.settled
  | .returned _ | .threw => false
  | _ => true

namespace Join

def sound : Join ι κ → Bool
  | .getOrCreateRoom point => point.sound
  | .getProducers _ todo _ => !todo.isEmpty
  | _ => true

/-- The request that `createRoom` waits for, and its node. -/
def put : Join ι κ → Option (Url × Sfu.GetOrCreateRoom (ι ⊕ κ))
  | .getOrCreateRoom (.createOrGetMediaRoom url request) => some (url, request)
  | _ => none

end Join

def Leave.sound : Leave ι κ → Bool
  | .delProducerHashes _ todo _ => !todo.isEmpty
  | _ => true

namespace Call

def sound : Call ι κ → Bool
  | .join _ _ point => point.sound
  | .leave _ point => point.sound
  | .createWebRtcTransport _ _ _ => true

def put : Call ι κ → Option (Url × Sfu.GetOrCreateRoom (ι ⊕ κ))
  | .join _ _ point => point.put
  | .leave _ _ | .createWebRtcTransport _ _ _ => none

end Call

section Sound

variable {i : ι} {instanceId : Instance} {roomId : RoomId} {peerId : PeerId} {event : Event}
  {w w' : World ι κ}

theorem Join.sound_of_room {ok : Bool} {point point' : GetOrCreateRoom ι κ}
    (h : GetOrCreateRoom.Step i instanceId roomId w ok point w' point') :
    (afterGetOrCreateRoom point').sound = true := by
  cases h with
  | begins _ _ hurls => simp [afterGetOrCreateRoom, sound, GetOrCreateRoom.sound,
      Readings.settled_asked hurls]
  | read _ hsettled => simp [afterGetOrCreateRoom, sound, GetOrCreateRoom.sound, hsettled]
  | _ => rfl

omit [DecidableEq ι] [DecidableEq κ] in
theorem Join.sound_nextProducers (otherPeers todo : List Peer)
    (found : List (ExistingProducer (ι ⊕ κ))) :
    (nextProducers otherPeers todo found).sound = true := by
  cases todo <;> rfl

omit [DecidableEq ι] [DecidableEq κ] in
theorem Leave.sound_nextProducerHash (url : Url) (todo : List PeerId) (rejected : Bool) :
    (nextProducerHash url todo rejected : Leave ι κ).sound = true := by
  cases todo <;> cases rejected <;> rfl

theorem Call.sound_of_step {c c' : Call ι κ} (h : c.step roomId i event w = some (w', c')) :
    c'.sound = true := by
  cases c with
  | join instanceId peer point =>
      obtain ⟨⟨w', point'⟩, hr, heq⟩ := Option.map_eq_some_iff.1 h
      cases heq
      have hs := Join.step_cases hr
      generalize event.ok = ok at hs
      cases hs with
      | room hroom => exact Join.sound_of_room hroom
      | listed | fetched => exact Join.sound_nextProducers ..
      | _ => rfl
  | leave peerId point =>
      obtain ⟨⟨w', point'⟩, hr, heq⟩ := Option.map_eq_some_iff.1 h
      cases heq
      have hs := Leave.step_cases hr
      generalize event.ok = ok at hs
      cases hs with
      | closed | swept | unswept => exact Leave.sound_nextProducerHash ..
      | _ => rfl
  | createWebRtcTransport peerId direction point =>
      obtain ⟨r, -, heq⟩ := Option.map_eq_some_iff.1 h
      cases heq
      rfl

end Sound

/-- A call that has not settled can go on, or it waits for a promise that another one settles. -/
theorem GetOrCreateRoom.exists_step (i : ι) (instanceId : Instance) (roomId : RoomId)
    {w : World ι κ} {point : GetOrCreateRoom ι κ} (hsound : point.sound = true) :
    (∃ event, (point.step i instanceId roomId event w).isSome) ∨
      (∃ creation, point = .pending creation ∧ w.creation creation = none) ∨
      ∃ url creation, point = .createOrGetMediaRoom url (.pending creation) ∧
        (w.sfu url).creation creation = none := by
  cases point with
  | getRoom | expire | set => exact .inl ⟨.settle true, rfl⟩
  | pending creation =>
      cases hcreation : w.creation creation with
      | none => exact .inr (.inl ⟨creation, rfl, hcreation⟩)
      | some outcome =>
          refine .inl ⟨.settle true, ?_⟩
          cases outcome <;> simp [step, settle, hcreation]
  | getStats readings =>
      obtain ⟨k, url, hk⟩ := Readings.exists_missing (by simpa [sound] using hsound)
      exact .inl ⟨.stats k true, by simp [step, answerStats, hk]⟩
  | createOrGetMediaRoom url request =>
      cases request with
      | pending creation =>
          cases hcreation : (w.sfu url).creation creation with
          | none => exact .inr (.inr ⟨url, creation, rfl, hcreation⟩)
          | some outcome =>
              refine .inl ⟨.settle true, ?_⟩
              cases outcome <;> simp [step, settle, advancePut, Sfu.GetOrCreateRoom.step, hcreation]
      | call => exact .inl ⟨.settle false, rfl⟩
      | createRouter worker => exact .inl ⟨.settle false, rfl⟩
      | returned | threw => exact .inl ⟨.settle false, rfl⟩
  | returned | threw => cases hsound

theorem Leave.exists_step (roomId : RoomId) (peerId : PeerId) {w : World ι κ} {point : Leave ι κ}
    (hsound : point.sound = true) (hsettled : (Call.leave peerId point).settled = false) :
    ∃ event, (point.step roomId peerId event w).isSome := by
  cases point with
  | closed url close historyDeleted =>
      cases close with
      | call => exact ⟨.closeRoom false, rfl⟩
      | stopRecording => exact ⟨.closeRoom false, rfl⟩
      | returned | threw =>
          cases historyDeleted
          · exact ⟨.deleteRoomHistory true, rfl⟩
          · cases hsettled
  | delProducerHashes url todo rejected =>
      cases todo with
      | nil => cases hsound
      | cons => exact ⟨.settle true, rfl⟩
  | getRoom => exact ⟨.settle false, rfl⟩
  | sfuRemovePeer url processed => cases processed <;> exact ⟨.settle true, rfl⟩
  | hdel | delProducers | hlen | hkeys | closeRoomIfEmpty => exact ⟨.settle true, rfl⟩
  | returned | threw => cases hsettled

theorem CreateWebRtcTransport.exists_step (i : ι) (roomId : RoomId) (peerId : PeerId)
    (direction : TransportDirection) {w : World ι κ} {point : CreateWebRtcTransport ι κ}
    (hsettled : (Call.createWebRtcTransport peerId direction point).settled = false) :
    ∃ event, (point.step i roomId peerId direction event w).isSome := by
  refine ⟨.settle false, ?_⟩
  cases point with
  | getPeer => rfl
  | getRoom =>
      simp only [step]
      split <;> rfl
  | createTransport url request =>
      cases request with
      | createWebRtcTransport r object peerExisted => cases peerExisted <;> rfl
      | call | returned | threw => rfl
  | returned | threw => cases hsettled

theorem Call.exists_step (i : ι) (roomId : RoomId) {w : World ι κ} {c : Call ι κ}
    (hsound : c.sound = true) (hsettled : c.settled = false) :
    (∃ event, (c.step roomId i event w).isSome) ∨
      (∃ instanceId creation, c.rooming = some (instanceId, .pending creation) ∧
        w.creation creation = none) ∨
      ∃ url creation, c.put = some (url, .pending creation) ∧
        (w.sfu url).creation creation = none := by
  cases c with
  | join instanceId peer point =>
      cases point with
      | getOrCreateRoom point =>
          rcases GetOrCreateRoom.exists_step i instanceId roomId hsound with
            ⟨event, hstep⟩ | ⟨creation, rfl, hcreation⟩ | ⟨url, creation, rfl, hcreation⟩
          · exact .inl ⟨event, by simpa [step, Join.step] using hstep⟩
          · exact .inr (.inl ⟨instanceId, creation, rfl, hcreation⟩)
          · exact .inr (.inr ⟨url, creation, rfl, hcreation⟩)
      | getProducers otherPeers todo found =>
          cases todo with
          | nil => cases hsound
          | cons => exact .inl ⟨.settle true, rfl⟩
      | hset | expire | getOtherPeers | rollbackHdel | rollbackDel =>
          exact .inl ⟨.settle true, rfl⟩
      | returned | threw => cases hsettled
  | leave peerId point =>
      obtain ⟨event, hstep⟩ := Leave.exists_step roomId peerId (w := w) hsound hsettled
      exact .inl ⟨event, by simpa [step] using hstep⟩
  | createWebRtcTransport peerId direction point =>
      obtain ⟨event, hstep⟩ :=
        CreateWebRtcTransport.exists_step i roomId peerId direction (w := w) hsettled
      exact .inl ⟨event, by simpa [step] using hstep⟩

theorem Call.settled_step {i : ι} {roomId : RoomId} {event : Event} {w : World ι κ} {c : Call ι κ}
    (h : c.settled = true) : c.step roomId i event w = none := by
  cases c with
  | join instanceId peer point =>
      cases point <;> first | (cases event <;> rfl) | cases h
  | leave peerId point =>
      cases point with
      | closed url close historyDeleted =>
          cases historyDeleted
          · cases close <;> cases h
          · cases close <;> first | (cases event <;> rfl) | cases h
      | _ => first | (cases event <;> rfl) | cases h
  | createWebRtcTransport peerId direction point =>
      cases point <;> first | (cases event <;> rfl) | cases h

end MeetServer.Realtime
