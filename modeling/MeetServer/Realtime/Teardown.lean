import MeetServer.Realtime.Routing
import MeetServer.Realtime.Steps
import MeetServer.Sfu.Steps

/-!
# The last members leave

Every member of a room leaves, in any interleaving of the steps of all the
`leave` calls and of the requests they do not await.  Three pieces of work are
handed on among the calls: deleting the record, closing the MediaRoom and
deleting the chat.  Whoever finds the room still occupied leaves them to a call
that has not removed its peer yet.  The MediaRoom is only reached by requests
whose ids survive the URL.
-/

namespace MeetServer.Realtime

open MeetServer.Foundation

variable {ι κ : Type}

namespace Leave

/-- The peer is still in the peers hash. -/
def member : Leave ι κ → Bool
  | .getRoom | .hdel _ => true
  | _ => false

/-- The peer's producers hash is gone. -/
def cleared : Leave ι κ → Bool
  | .getRoom | .hdel _ | .delProducers _ => false
  | _ => true

/-- The sfu has not processed the peer's removal. -/
def registered : Leave ι κ → Bool
  | .getRoom | .hdel _ | .delProducers _ | .sfuRemovePeer _ false => true
  | _ => false

/-- The call is still going to check whether the room is empty. -/
def willCheck : Leave ι κ → Bool
  | .getRoom | .hdel _ | .delProducers _ | .sfuRemovePeer _ _ | .hlen _
  | .hkeys _ | .closeRoomIfEmpty _ _ => true
  | _ => false

/-- The call may still close the MediaRoom. -/
def willClose : Leave ι κ → Bool
  | .delProducerHashes _ _ rejected => !rejected
  | .closed _ .call _ | .closed _ (.stopRecording _) _ => true
  | point => point.willCheck

/-- The call may still delete the chat. -/
def willDeleteHistory : Leave ι κ → Bool
  | .delProducerHashes _ _ rejected => !rejected
  | .closed _ _ false => true
  | point => point.willCheck

/-- Returned, and its requests have been processed. -/
def finished : Leave ι κ → Bool
  | .returned | .threw | .closed _ (.returned _) true
  | .closed _ .threw true => true
  | _ => false

def url : Leave ι κ → Option Url
  | .hdel url | .delProducers url | .sfuRemovePeer url _ | .hlen url
  | .hkeys url | .closeRoomIfEmpty url _ | .delProducerHashes url _ _
  | .closed url _ _ => some url
  | .getRoom | .returned | .threw => none

theorem willCheck_of_member {point : Leave ι κ} (h : point.member) :
    point.willCheck := by
  cases point <;> first | rfl | cases h

theorem willClose_of_registered {point : Leave ι κ} (h : point.registered) :
    point.willClose := by
  cases point with
  | sfuRemovePeer url processed => rfl
  | _ => first | rfl | cases h

theorem willClose_of_willCheck {point : Leave ι κ} (h : point.willCheck) :
    point.willClose := by
  cases point <;> first | rfl | cases h

theorem willDeleteHistory_of_willCheck {point : Leave ι κ}
    (h : point.willCheck) : point.willDeleteHistory := by
  cases point <;> first | rfl | cases h

section NextProducerHash

variable (nodeUrl : Url) (todo : List PeerId) (rejected : Bool)

@[grind →] theorem url_nextProducerHash {nodeUrl url : Url} {todo : List PeerId}
    {rejected : Bool} (h : (nextProducerHash nodeUrl todo rejected : Leave ι κ).url = some url) :
    url = nodeUrl := by
  cases todo <;> cases rejected <;> cases h <;> rfl

@[simp, grind =] theorem member_nextProducerHash :
    (nextProducerHash nodeUrl todo rejected : Leave ι κ).member = false := by
  cases todo <;> cases rejected <;> rfl

@[simp, grind =] theorem willCheck_nextProducerHash :
    (nextProducerHash nodeUrl todo rejected : Leave ι κ).willCheck = false := by
  cases todo <;> cases rejected <;> rfl

@[simp, grind =] theorem cleared_nextProducerHash :
    (nextProducerHash nodeUrl todo rejected : Leave ι κ).cleared = true := by
  cases todo <;> cases rejected <;> rfl

@[simp, grind =] theorem registered_nextProducerHash :
    (nextProducerHash nodeUrl todo rejected : Leave ι κ).registered = false := by
  cases todo <;> cases rejected <;> rfl

@[simp, grind =] theorem willClose_nextProducerHash :
    (nextProducerHash nodeUrl todo rejected : Leave ι κ).willClose = !rejected := by
  cases todo <;> cases rejected <;> rfl

@[simp, grind =] theorem willDeleteHistory_nextProducerHash :
    (nextProducerHash nodeUrl todo rejected : Leave ι κ).willDeleteHistory = !rejected := by
  cases todo <;> cases rejected <;> rfl

end NextProducerHash

end Leave

/-- `leave` calls only. -/
abbrev Leaves (ι κ : Type) := Pool ι (World ι κ) (Leave ι κ)

def leaving [DecidableEq ι] [DecidableEq κ] (roomId : RoomId)
    (peer : ι → PeerId) : System (Leaves ι κ) (ι × Event) :=
  Pool.system fun i event w point => point.step roomId (peer i) event w

/-- The record pins the room to `url`, the leaving peers are its members, and
its MediaRoom knows no others. -/
structure LastMembers (roomId : RoomId) (peer : ι → PeerId) (url : Url)
    (w : World ι κ) : Prop where
  pinned : ∃ room, w.redis.room = some room ∧ room.sfuNodeUrl = url
  members : ∀ p, p ∈ w.redis.peers ↔ ∃ i, peer i = p
  mediaRoom : ∃ r, (w.sfu url).rooms.lookup roomId = some r ∧
    ∀ p, p ∈ ((w.sfu url).room r).peers → ∃ i, peer i = p

/-- Nothing of the room and its former members is left. -/
structure TornDown (roomId : RoomId) (peer : ι → PeerId) (url : Url)
    (w : World ι κ) : Prop where
  room : w.redis.room = none
  peers : ∀ p, p ∉ w.redis.peers
  producers : ∀ i, w.redis.producers (peer i) = ∅
  chat : w.redis.chat = []
  mediaRoom : (w.sfu url).rooms.lookup roomId = none

/-! ## Membership -/

structure Departing (peer : ι → PeerId) (record : Room) (s : Leaves ι κ) :
    Prop where
  member : ∀ i, peer i ∈ s.world.redis.peers ↔ (s.proc i).member
  onlyLeaving : ∀ p, p ∈ s.world.redis.peers → ∃ i, peer i = p
  pinned : ∀ p, p ∈ s.world.redis.peers → s.world.redis.room = some record
  same : ∀ room, s.world.redis.room = some room → room = record
  url : ∀ i url, (s.proc i).url = some url → url = record.sfuNodeUrl
  producers : ∀ i, (s.proc i).cleared → s.world.redis.producers (peer i) = ∅

variable [DecidableEq ι] [DecidableEq κ] {roomId : RoomId} {peer : ι → PeerId}
  {s : Leaves ι κ} {i : ι} {w' : World ι κ} {point' : Leave ι κ}

omit [DecidableEq κ] in
theorem Departing.frame {record : Room} {point : Leave ι κ}
    (h : Departing peer record s) (hc : s.proc i = point)
    (hroom : w'.redis.room = s.world.redis.room)
    (hpeers : w'.redis.peers = s.world.redis.peers)
    (hproducers : w'.redis.producers = s.world.redis.producers)
    (hmember : point'.member = point.member)
    (hcleared : point'.cleared = point.cleared)
    (hurl : ∀ url, point'.url = some url →
      point.url = some url ∨ ∃ room, s.world.redis.room = some room ∧
        room.sfuNodeUrl = url) :
    Departing peer record (s.set i w' point') := by
  obtain ⟨hmember', honly, hpinned, hsame, hurl', hproducers'⟩ := h
  constructor <;>
    simp only [Pool.set_world, Pool.set_proc, hroom, hpeers, hproducers] <;>
    grind

theorem Departing.step {record : Room} (hinj : Function.Injective peer)
    (h : Departing peer record s)
    (hs : Leave.Step roomId (peer i) s.world true (s.proc i) w' point') :
    Departing peer record (s.set i w' point') := by
  have hdeparting := h
  obtain ⟨hmember, honly, hpinned, hsame, hurl, hproducers⟩ := h
  have hi := hmember i
  have huri := hurl i
  have hinj' : ∀ j, peer j = peer i → j = i := fun j hj => hinj hj
  generalize hc : s.proc i = point at hs hi huri
  cases hs with
  | gone hroom =>
      have hp := hpinned _ (hi.2 rfl)
      rw [hroom] at hp
      cases hp
  | removed | cleared | closed | swept =>
      constructor <;> simp only [Pool.set_world, Pool.set_proc,
        World.redis_setRedis, RoomKeys.hdel, RoomKeys.delProducers,
        AList.mem_erase, AList.notMem_empty, Function.update_apply] <;>
        grind [Leave.member, Leave.cleared, Leave.url, RoomKeys.hlen_eq_zero_iff]
  | found hroom =>
      exact hdeparting.frame hc rfl rfl rfl rfl rfl fun url hurl =>
        .inr ⟨_, hroom, Option.some.inj hurl⟩
  | occupied | refused => exact hdeparting.frame hc rfl rfl rfl rfl rfl nofun
  | _ => exact hdeparting.frame hc rfl rfl rfl rfl rfl fun url hurl => .inl hurl

omit [DecidableEq ι] [DecidableEq κ] in
/-- An occupied room has a member whose call has yet to remove it. -/
theorem Departing.exists_member {record : Room} (h : Departing peer record s)
    (hlen : s.world.redis.hlen ≠ 0) (hi : (s.proc i).member = false) :
    ∃ j, j ≠ i ∧ (s.proc j).member := by
  rw [Ne, RoomKeys.hlen_eq_zero_iff, not_forall] at hlen
  obtain ⟨p, hp⟩ := hlen
  have hp := not_not.1 hp
  obtain ⟨j, rfl⟩ := h.onlyLeaving p hp
  have hj := (h.member j).1 hp
  refine ⟨j, ?_, hj⟩
  rintro rfl
  rw [hi] at hj
  cases hj

/-! ## The MediaRoom -/

/-- The peers of the MediaRoom are those whose removal is still to come. -/
structure Unregistering (roomId : RoomId) (peer : ι → PeerId) (url : Url)
    (r : ι ⊕ κ) (s : Leaves ι κ) : Prop where
  mediaRoom : ∀ r', (s.world.sfu url).rooms.lookup roomId = some r' → r' = r
  onlyLeaving : ∀ p, p ∈ ((s.world.sfu url).room r).peers → ∃ i, peer i = p
  registered : (s.world.sfu url).rooms.lookup roomId = some r →
    ∀ i, peer i ∈ ((s.world.sfu url).room r).peers → (s.proc i).registered

omit [DecidableEq κ] in
/-- A step that leaves the sfu alone. -/
theorem Unregistering.frame {url : Url} {r : ι ⊕ κ} {point : Leave ι κ}
    (h : Unregistering roomId peer url r s) (hc : s.proc i = point)
    (hsfu : w'.sfu = s.world.sfu) (hkept : point.registered → point'.registered) :
    Unregistering roomId peer url r (s.set i w' point') := by
  refine ⟨fun r' hr' => ?_, fun p hp => ?_, fun hr j hj => ?_⟩
  · rw [Pool.set_world, hsfu] at hr'
    exact h.mediaRoom r' hr'
  · rw [Pool.set_world, hsfu] at hp
    exact h.onlyLeaving p hp
  · rw [Pool.set_world, hsfu] at hr hj
    have hold := h.registered hr j hj
    rw [Pool.set_proc]
    split
    · next heq =>
      subst heq
      exact hkept (hc ▸ hold)
    · exact hold

theorem Unregistering.step {record : Room} {r : ι ⊕ κ}
    (h : Unregistering roomId peer record.sfuNodeUrl r s)
    (hd : Departing peer record s)
    (hs : Leave.Step roomId (peer i) s.world true (s.proc i) w' point') :
    Unregistering roomId peer record.sfuNodeUrl r (s.set i w' point') := by
  have hquiet := h
  obtain ⟨hroom, honly, hregistered⟩ := h
  have hmember := hd.member i
  have hpinned := hd.pinned (peer i)
  have hurl := hd.url i
  generalize hc : s.proc i = point at hs hmember hurl
  cases hs with
  | gone hnone =>
      have hp := hpinned (hmember.2 rfl)
      rw [hnone] at hp
      cases hp
  | @sfuRemoved url =>
      obtain rfl := hurl url rfl
      constructor <;> simp only [Pool.set_world, Pool.set_proc,
        World.sfu_setSfu, if_true, Sfu.State.rooms_removePeer,
        Sfu.State.room_removePeer] <;>
        grind [Leave.registered, Sfu.MediaRoom.deletePeer, AList.mem_erase]
  | @closing url close close' historyDeleted node hclose =>
      obtain rfl := hurl url rfl
      obtain ⟨hpeers, hrooms⟩ := Sfu.CloseRoom.step_rooms hclose
      constructor <;> simp only [Pool.set_world, Pool.set_proc,
        World.sfu_setSfu, if_true, hpeers] <;>
        grind [Leave.registered, Dict.lookup_erase_ite]
  | _ => exact hquiet.frame hc rfl (by simp [Leave.registered])

/-! ## The work that is handed on -/

abbrev Leave.RecordDue (s : Leaves ι κ) : Prop :=
  s.DoneOrDue (fun w => w.redis.room = none) fun point => point.willCheck

abbrev Leave.CloseDue (roomId : RoomId) (url : Url) (s : Leaves ι κ) : Prop :=
  s.DoneOrDue (fun w => (w.sfu url).rooms.lookup roomId = none)
    fun point => point.willClose

abbrev Leave.HistoryDue (s : Leaves ι κ) : Prop :=
  s.DoneOrDue (fun w => w.redis.chat = []) fun point => point.willDeleteHistory

theorem Departing.recordDue_step {record : Room} (hd : Departing peer record s)
    (h : Leave.RecordDue s)
    (hs : Leave.Step roomId (peer i) s.world true (s.proc i) w' point') :
    Leave.RecordDue (s.set i w' point') := by
  have helsewhere := hd.exists_member (i := i)
  have hmember := hd.member i
  have hpinned := hd.pinned (peer i)
  generalize hc : s.proc i = point at hs helsewhere hmember
  have hcheck : s.world.redis.hlen ≠ 0 → point.member = false →
      ∃ j, j ≠ i ∧ (s.proc j).willCheck := by
    intro hlen hpoint
    obtain ⟨j, hj, hjm⟩ := helsewhere hlen hpoint
    exact ⟨j, hj, Leave.willCheck_of_member hjm⟩
  refine h.set (fun hdone => ?_) fun hdue => ?_
  · cases hs <;> first | exact hdone | rfl
  · rw [hc] at hdue
    cases hs with
    | gone hnone => exact .inl hnone
    | closed => exact .inl rfl
    | occupied hlen | refused hlen => exact .inr (.inr (hcheck hlen rfl))
    | swept | closing | deleted => cases hdue
    | _ => exact .inr (.inl rfl)

theorem Departing.historyDue_step {record : Room} (hd : Departing peer record s)
    (h : Leave.HistoryDue s)
    (hs : Leave.Step roomId (peer i) s.world true (s.proc i) w' point') :
    Leave.HistoryDue (s.set i w' point') := by
  have helsewhere := hd.exists_member (i := i)
  have hmember := hd.member i
  have hpinned := hd.pinned (peer i)
  generalize hc : s.proc i = point at hs helsewhere hmember
  have hdelete : s.world.redis.hlen ≠ 0 → point.member = false →
      ∃ j, j ≠ i ∧ (s.proc j).willDeleteHistory := by
    intro hlen hpoint
    obtain ⟨j, hj, hjm⟩ := helsewhere hlen hpoint
    exact ⟨j, hj, Leave.willDeleteHistory_of_willCheck
      (Leave.willCheck_of_member hjm)⟩
  refine h.set (fun hdone => ?_) fun hdue => ?_
  · cases hs <;> first | exact hdone | rfl
  · rw [hc] at hdue
    cases hs with
    | gone hnone =>
        have hp := hpinned (hmember.2 rfl)
        rw [hnone] at hp
        cases hp
    | deleted => exact .inl rfl
    | occupied hlen | refused hlen => exact .inr (.inr (hdelete hlen rfl))
    | @closing url close close' historyDeleted =>
        cases historyDeleted with
        | true => cases hdue
        | false => exact .inr (.inl rfl)
    | closed => exact .inr (.inl (Leave.willDeleteHistory_nextProducerHash _ _ _))
    | swept => exact .inr (.inl ((Leave.willDeleteHistory_nextProducerHash _ _ _).trans hdue))
    | _ => exact .inr (.inl rfl)

/-- A close that is refused meets a peer whose own call comes later. -/
theorem Unregistering.closeDue_step {record : Room} {r : ι ⊕ κ}
    (h : Unregistering roomId peer record.sfuNodeUrl r s)
    (hd : Departing peer record s)
    (hdue : Leave.CloseDue roomId record.sfuNodeUrl s)
    (hs : Leave.Step roomId (peer i) s.world true (s.proc i) w' point') :
    Leave.CloseDue roomId record.sfuNodeUrl (s.set i w' point') := by
  have helsewhere := hd.exists_member (i := i)
  have hmember := hd.member i
  have hpinned := hd.pinned (peer i)
  have hurl := hd.url i
  generalize hc : s.proc i = point at hs helsewhere hmember hurl
  have hclose : s.world.redis.hlen ≠ 0 → point.member = false →
      ∃ j, j ≠ i ∧ (s.proc j).willClose := by
    intro hlen hpoint
    obtain ⟨j, hj, hjm⟩ := helsewhere hlen hpoint
    exact ⟨j, hj, Leave.willClose_of_willCheck (Leave.willCheck_of_member hjm)⟩
  refine hdue.set (fun hdone => ?_) fun hdue => ?_
  · cases hs with
    | @sfuRemoved url =>
        obtain rfl := hurl url rfl
        simpa [World.sfu_setSfu, Sfu.State.rooms_removePeer] using hdone
    | @closing url close close' historyDeleted node hnode =>
        obtain rfl := hurl url rfl
        rcases (Sfu.CloseRoom.step_rooms hnode).2 with hrooms | hrooms
        · simpa [World.sfu_setSfu, hrooms] using hdone
        · simp [World.sfu_setSfu, hrooms]
    | _ => exact hdone
  · rw [hc] at hdue
    cases hs with
    | gone hnone =>
        have hp := hpinned (hmember.2 rfl)
        rw [hnone] at hp
        cases hp
    | occupied hlen | refused hlen => exact .inr (.inr (hclose hlen rfl))
    | closed => exact .inr (.inl (Leave.willClose_nextProducerHash _ _ _))
    | swept => exact .inr (.inl ((Leave.willClose_nextProducerHash _ _ _).trans hdue))
    | @closing url close close' historyDeleted node hnode =>
        obtain rfl := hurl url rfl
        rcases Sfu.CloseRoom.step_outcome hnode with
          hnone | ⟨r', rfl⟩ | ⟨r', hr', hempty⟩
        · exact .inl (by simpa [World.sfu_setSfu] using hnone)
        · exact .inr (.inl rfl)
        · obtain rfl := h.mediaRoom r' hr'
          simp only [Sfu.MediaRoom.isEmpty, decide_eq_false_iff_not,
            Dict.size_eq_zero_iff, not_forall, not_not] at hempty
          obtain ⟨p, hp⟩ := hempty
          obtain ⟨j, rfl⟩ := h.onlyLeaving p hp
          have hj := h.registered hr' j hp
          refine .inr (.inr ⟨j, ?_, Leave.willClose_of_registered hj⟩)
          rintro rfl
          rw [hc] at hj
          cases hj
    | @deleted url close =>
        refine .inr (.inl ?_)
        cases close <;> first | rfl | cases hdue
    | _ => exact .inr (.inl rfl)

/-! ## The whole run -/

structure Teardown (roomId : RoomId) (peer : ι → PeerId) (record : Room)
    (r : ι ⊕ κ) (s : Leaves ι κ) : Prop where
  departing : Departing peer record s
  unregistering : Unregistering roomId peer record.sfuNodeUrl r s
  recordDue : Leave.RecordDue s
  closeDue : Leave.CloseDue roomId record.sfuNodeUrl s
  historyDue : Leave.HistoryDue s

theorem Teardown.preserves {record : Room} {r : ι ⊕ κ}
    (hinj : Function.Injective peer) :
    (leaving roomId peer).Preserves (fun _ a => a.2.ok = true)
      (Teardown roomId peer record r) := by
  rintro s ⟨i, event⟩ s' h hok hstep
  obtain ⟨w', point', hcall, rfl⟩ := Pool.step_eq_some.1 hstep
  have hs := Leave.step_cases hcall
  rw [show event.ok = true from hok] at hs
  exact ⟨h.departing.step hinj hs, h.unregistering.step h.departing hs,
    h.departing.recordDue_step h.recordDue hs,
    h.unregistering.closeDue_step h.departing h.closeDue hs,
    h.departing.historyDue_step h.historyDue hs⟩

/-- All the leaves are about to start. -/
def Leaves.started (w : World ι κ) : Leaves ι κ :=
  ⟨w, fun _ => .getRoom⟩

omit [DecidableEq ι] [DecidableEq κ] in
theorem LastMembers.teardown [Nonempty ι] {url : Url} {w : World ι κ}
    (h : LastMembers roomId peer url w) :
    ∃ record r, record.sfuNodeUrl = url ∧
      Teardown roomId peer record r (.started w) := by
  obtain ⟨record, hrecord, rfl⟩ := h.pinned
  obtain ⟨r, hr, hpeers⟩ := h.mediaRoom
  obtain ⟨i⟩ := ‹Nonempty ι›
  refine ⟨record, r, rfl, ?_, ?_, .inr ⟨i, rfl⟩, .inr ⟨i, rfl⟩, .inr ⟨i, rfl⟩⟩
  · constructor <;> simp [Leaves.started, Leave.member, Leave.url,
      Leave.cleared, hrecord, h.members]
  · constructor
    · intro r' hr'
      exact Option.some.inj (hr'.symm.trans hr)
    · exact hpeers
    · intro _ _ _
      rfl

omit [DecidableEq ι] [DecidableEq κ] in
theorem Teardown.tornDown {record : Room} {r : ι ⊕ κ}
    (h : Teardown roomId peer record r s) (hdone : ∀ i, (s.proc i).finished) :
    TornDown roomId peer record.sfuNodeUrl s.world := by
  have hpoint : ∀ i, (s.proc i).willCheck = false ∧
      (s.proc i).willClose = false ∧ (s.proc i).willDeleteHistory = false ∧
      (s.proc i).member = false ∧ (s.proc i).cleared := by
    intro i
    have hi := hdone i
    generalize s.proc i = point at hi
    cases point with
    | closed url close historyDeleted =>
        cases close <;> cases historyDeleted <;>
          first | exact ⟨rfl, rfl, rfl, rfl, rfl⟩ | cases hi
    | _ => first | exact ⟨rfl, rfl, rfl, rfl, rfl⟩ | cases hi
  constructor
  · exact h.recordDue.done fun i => by simp [hpoint i]
  · intro p hp
    obtain ⟨i, rfl⟩ := h.departing.onlyLeaving p hp
    have hi := (h.departing.member i).1 hp
    simp [hpoint i] at hi
  · exact fun i => h.departing.producers i (hpoint i).2.2.2.2
  · exact h.historyDue.done fun i => by simp [hpoint i]
  · exact h.closeDue.done fun i => by simp [hpoint i]

/-- Teardown is complete where the requests are received as they are sent. -/
theorem LastMembers.tornDown [Nonempty ι] (hinj : Function.Injective peer)
    {url : Url} {w : World ι κ} (hlast : LastMembers roomId peer url w)
    {schedule : List (ι × Event)} (hok : ∀ a ∈ schedule, a.2.ok = true)
    (hdone : ∀ i, (((leaving roomId peer).run (.started w) schedule).proc i).finished) :
    TornDown roomId peer url
      ((leaving roomId peer).run (.started w) schedule).world := by
  obtain ⟨record, r, rfl, hstart⟩ := hlast.teardown
  have hmeets : (leaving roomId peer).Meets (fun _ a => a.2.ok = true)
      (.started w) schedule :=
    System.meets_of_forall fun a ha _ => hok a ha
  have hrun := (hmeets.holds (Teardown.preserves hinj) (fun _ h => h)
    hstart).last
  exact hrun.tornDown hdone

/-! ## Through the URLs -/

/-- Returned, and its requests have been processed. -/
def RoutedLeave.finished : RoutedLeave ι κ → Bool
  | .leave point => point.finished
  | .closeRoom _ _ _ => false

abbrev RoutedLeaves (ι κ : Type) := Pool ι (World ι κ) (RoutedLeave ι κ)

def RoutedLeaves.started (w : World ι κ) : RoutedLeaves ι κ :=
  ⟨w, fun _ => .leave .getRoom⟩

def routedLeaving (roomId : RoomId) (peer : ι → PeerId) :
    System (RoutedLeaves ι κ) (ι × Event) :=
  Pool.system fun i event w point => point.step roomId (peer i) event w

theorem routedLeaving_mirrors
    (h : ∀ i, ∀ op ∈ RoutedLeave.operations roomId (peer i),
      Rest.Survives op.route op.params) :
    (routedLeaving (κ := κ) roomId peer).Mirrors (leaving roomId peer)
      (Pool.map RoutedLeave.point) fun s => ∀ i, (s.proc i).direct :=
  Pool.mirrors_map (fun i _ _ _ => RoutedLeave.step_direct (h i))
    fun i _ _ _ _ _ => RoutedLeave.direct_of_step (h i)

/-- Teardown is complete however the last peers leave, if the ids survive the
URLs of the requests. -/
theorem teardown_complete [Nonempty ι] (hinj : Function.Injective peer)
    (hsurvive : ∀ i, ∀ op ∈ RoutedLeave.operations roomId (peer i),
      Rest.Survives op.route op.params)
    {url : Url} {w : World ι κ} (hlast : LastMembers roomId peer url w)
    {schedule : List (ι × Event)} (hok : ∀ a ∈ schedule, a.2.ok = true)
    (hdone : ∀ i, (((routedLeaving roomId peer).run (.started w)
      schedule).proc i).finished) :
    TornDown roomId peer url
      ((routedLeaving roomId peer).run (.started w) schedule).world := by
  have hrun := (routedLeaving_mirrors (κ := κ) hsurvive).run
    (s := .started w) (fun _ => rfl) schedule
  have hworld := congrArg Pool.world hrun
  refine hworld ▸ hlast.tornDown hinj hok fun i => ?_
  have hi := hdone i
  have hproc := congrFun (congrArg Pool.proc hrun) i
  refine (congrArg Leave.finished hproc).trans ?_
  change (RoutedLeave.point _).finished = true
  generalize ((routedLeaving roomId peer).run (.started w) schedule).proc i = point at hi
  cases point with
  | leave point => exact hi
  | closeRoom => cases hi

/-! Two members of a recorded room; one of them has a transport. -/

def lastTwo : Fin 2 → PeerId
  | 0 => "a"
  | 1 => "b"

def lastTwoWorld (roomId : RoomId) : World (Fin 2) Unit where
  serviceUrls := ["n"]
  redis := {
    room := some { id := roomId, rtpCapabilities := "", sfuNodeUrl := "n" }
    peers := AList.insert "a" ⟨"a", "Ann"⟩ (AList.insert "b" ⟨"b", "Bob"⟩ ∅)
    chat := ["hello"] }
  sfu _ := { Sfu.State.spawned [0] with
    rooms := AList.insert roomId (.inr ()) ∅
    room := fun _ => {
      id := roomId, worker := 0, recording := true
      peers := AList.insert "a" { id := "a", object := .inr () } ∅ }
    routerOpen := fun _ => true }
  pendingRooms _ := none
  creation _ := none

/-- Both see the room empty; the first close suspends on the recording. -/
def lastTwoSchedule (i j : ι) : List (ι × Event) :=
  List.replicate 3 (i, .settle true) ++ List.replicate 5 (j, .settle true) ++
    List.replicate 5 (i, .settle true) ++ List.replicate 3 (j, .settle true) ++
    [(j, .closeRoom true), (i, .closeRoom true), (i, .deleteRoomHistory true),
      (j, .closeRoom true), (j, .deleteRoomHistory true)]

omit [DecidableEq ι] [DecidableEq κ] in
theorem lastMembers_lastTwo (roomId : RoomId) :
    LastMembers roomId lastTwo "n" (lastTwoWorld roomId) := by
  refine ⟨⟨_, rfl, rfl⟩, fun p => ?_, .inr (), ?_, fun p hp => ⟨0, ?_⟩⟩
  · simp [lastTwoWorld, Fin.exists_fin_two, lastTwo, AList.mem_keys, eq_comm]
  · exact AList.lookup_insert _
  · simpa [lastTwoWorld, lastTwo, AList.mem_keys, eq_comm] using hp

theorem teardown_lastTwo :
    TornDown "r" lastTwo "n" ((routedLeaving "r" lastTwo).run
      (.started (lastTwoWorld "r")) (lastTwoSchedule 0 1)).world :=
  teardown_complete (by decide) (by decide +kernel) (lastMembers_lastTwo "r") (by decide)
    (by decide +kernel)

/-- One leave after the other; each DELETE of a peer reaches `closeRoom`. -/
def oneAfterTheOtherLeaves (i j : ι) : List (ι × Event) :=
  List.replicate 7 (i, .settle true) ++ List.replicate 9 (j, .settle true) ++
    [(j, .closeRoom true), (j, .deleteRoomHistory true)]

/-- The DELETEs for the room `x?y` are requests to close the room `x`. -/
theorem not_tornDown_query :
    LastMembers "x?y" lastTwo "n" (lastTwoWorld "x?y") ∧
      (∀ a ∈ oneAfterTheOtherLeaves (0 : Fin 2) 1, a.2.ok = true) ∧
      (∀ i, (((routedLeaving "x?y" lastTwo).run (.started (lastTwoWorld "x?y"))
        (oneAfterTheOtherLeaves 0 1)).proc i).finished) ∧
      ¬ TornDown "x?y" lastTwo "n" ((routedLeaving "x?y" lastTwo).run
        (.started (lastTwoWorld "x?y")) (oneAfterTheOtherLeaves 0 1)).world := by
  refine ⟨lastMembers_lastTwo "x?y", by decide, by decide +kernel, fun h => ?_⟩
  have hmediaRoom := h.mediaRoom
  revert hmediaRoom
  decide +kernel

end MeetServer.Realtime
