import MeetServer.Realtime.Membership
import MeetServer.Realtime.Routing
import MeetServer.Sfu.OccupiedClose

/-!
# Stale closes

`leave` does not await its request to close the MediaRoom, so the request may
arrive when the room has been created again, with a record that names the same,
still open MediaRoom.  The record is served by its node throughout the runs in
which the ids survive the URLs and no close removes a MediaRoom that a record
names or that a creation has been given and not written down yet.
-/

namespace MeetServer

open Foundation

/-! ## One node -/

namespace Sfu

variable {Ref : Type}

/-- The process holds an open MediaRoom under the id. -/
def State.serves (s : State Ref) (roomId : RoomId) : Bool :=
  (s.rooms.lookup roomId).any s.routerOpen

/-- The call has been given the room. -/
def GetOrCreateRoom.given (s : State Ref) : GetOrCreateRoom Ref → Bool
  | .returned _ => true
  | .pending creation => (s.creation creation).any Settlement.isFulfilled
  | .call | .createRouter _ | .threw => false

/-- The call's own creation has not settled. -/
def GetOrCreateRoom.unborn : GetOrCreateRoom Ref → Bool
  | .call | .createRouter _ => true
  | .pending _ | .returned _ | .threw => false

structure State.Sound (roomId : RoomId) (s : State Ref) : Prop where
  stored : ∀ r, s.rooms.lookup roomId = some r → s.routerOpen r
  pending : ∀ i, s.pendingRooms roomId = some i → s.creation i = none

theorem State.serves_iff {s : State Ref} {roomId : RoomId} :
    s.serves roomId ↔ ∃ r, s.rooms.lookup roomId = some r ∧ s.routerOpen r := by
  simp [serves, Option.any_eq_true]

theorem Frame.serves {s s' : State Ref} (h : Frame s s') (roomId : RoomId) :
    s'.serves roomId = s.serves roomId := by
  simp [State.serves, h.rooms, h.routerOpen]

theorem Frame.sound {s s' : State Ref} {roomId : RoomId} (h : Frame s s')
    (hs : s.Sound roomId) : s'.Sound roomId where
  stored r hr := by
    rw [h.routerOpen]
    exact hs.stored r (h.rooms ▸ hr)
  pending i hi := by
    rw [h.creation]
    exact hs.pending i (h.pendingRooms ▸ hi)

variable [DecidableEq Ref]

/-- A `getOrCreateRoom` call keeps the room, and is given an open one. -/
theorem GetOrCreateRoom.step_serves {i : Ref} {roomId : RoomId} {ok : Bool}
    {s s' : State Ref} {point point' : GetOrCreateRoom Ref}
    (h : point.step i roomId ok s = some (s', point')) (hs : s.Sound roomId)
    (hborn : point.unborn → s.creation i = none)
    (hgiven : point.given s → s.serves roomId) :
    s'.Sound roomId ∧ (s.serves roomId → s'.serves roomId) ∧
      (point'.given s' → s'.serves roomId) ∧
      (∀ other : GetOrCreateRoom Ref, other.given s' →
        other.given s ∨ s'.serves roomId) ∧
      ∀ j, j ≠ i → s'.creation j = s.creation j := by
  cases step_cases h with
  | «local» hl => exact hl.elim
  | found hr =>
      have hserves := State.serves_iff.2 ⟨_, hr, hs.stored _ hr⟩
      exact ⟨hs, id, fun _ => hserves, fun _ => .inl, fun _ _ => rfl⟩
  | waits _ hpending =>
      have hnone := hs.pending _ hpending
      refine ⟨hs, id, fun hg => ?_, fun _ => .inl, fun _ _ => rfl⟩
      simp [given, hnone] at hg
  | noWorker | failed =>
      exact ⟨hs, id, by rintro ⟨⟩, fun _ => .inl, fun _ _ => rfl⟩
  | resumed hcreation =>
      refine ⟨hs, id, fun _ => hgiven ?_, fun _ => .inl, fun _ _ => rfl⟩
      simp [given, hcreation]
  | reserved hrooms hpending =>
      refine ⟨⟨hs.stored, ?_⟩, id, by rintro ⟨⟩, fun _ => .inl, fun _ _ => rfl⟩
      intro j hj
      simp only [State.beginCreation, Function.update_self,
        Option.some.injEq] at hj ⊢
      subst hj
      exact hborn rfl
  | @created _ worker =>
      have hserves : ((s.addRoom roomId i worker).settleCreation roomId i
          (.fulfilled i)).serves roomId := by
        simp [State.serves, State.addRoom, State.settleCreation]
      refine ⟨⟨?_, ?_⟩, fun _ => hserves, fun _ => hserves,
        fun _ _ => .inr hserves, fun j hj => ?_⟩
      · intro r hr
        obtain rfl : i = r := by
          simpa [State.addRoom, State.settleCreation] using hr
        simp [State.addRoom, State.settleCreation]
      · simp [State.settleCreation]
      · simp [State.settleCreation, State.addRoom, hj]
  | @rejected _ worker =>
      refine ⟨⟨hs.stored, by simp [State.settleCreation]⟩, id, by rintro ⟨⟩,
        fun other hother => ?_, fun j hj => ?_⟩
      · cases other with
        | pending creation =>
            by_cases hi : creation = i <;>
              simp_all [given, State.settleCreation, State.releaseWorker]
        | _ => exact .inl hother
      · simp [State.settleCreation, State.releaseWorker, hj]

theorem GetOrCreateRoom.step_unborn {i : Ref} {roomId : RoomId} {ok : Bool}
    {s s' : State Ref} {point point' : GetOrCreateRoom Ref}
    (h : point.step i roomId ok s = some (s', point')) (hborn : point'.unborn) :
    point.unborn ∧ s'.creation = s.creation := by
  cases step_cases h with
  | «local» hl => exact hl.elim
  | reserved => exact ⟨rfl, rfl⟩
  | _ => cases hborn

theorem CloseRoom.step_frame {roomId : RoomId} {ok : Bool} {s s' : State Ref}
    {point point' : CloseRoom Ref}
    (h : point.step roomId ok s = some (s', point')) :
    Frame s s' ∨ (((Call.closeRoom roomId point).closing ok s).isSome ∧
      ∃ r, s' = s.finishClose roomId r) := by
  cases point with
  | call =>
      simp only [step] at h
      split at h
      · cases h
        exact .inl (.refl s)
      · next r hr =>
        split at h
        · cases h
          exact .inl (.refl s)
        · next hempty =>
          split at h <;> cases h
          · exact .inl (.setRecording s r false)
          · next hrecording =>
            refine .inr ⟨?_, r, rfl⟩
            simp_all [Call.closing]
  | stopRecording r =>
      cases ok <;> cases h
      · exact .inl (.refl s)
      · exact .inr ⟨rfl, r, rfl⟩
  | returned => cases h
  | threw => cases h

theorem State.finishClose_creation (s : State Ref) (roomId : RoomId) (r : Ref) :
    (s.finishClose roomId r).creation = s.creation ∧
      (s.finishClose roomId r).pendingRooms = s.pendingRooms ∧
      (s.finishClose roomId r).rooms.lookup roomId = none := by
  simp [finishClose, closeRouter, releaseWorker]

end Sfu

/-! ## Records and nodes -/

namespace Realtime

variable {ι κ : Type}

/-- The node whose MediaRoom the creation has been given. -/
def GetOrCreateRoom.reliesOn (w : World ι κ) : GetOrCreateRoom ι κ → Option Url
  | .createOrGetMediaRoom url request =>
      if request.given (w.sfu url) then some url else none
  | .set room => some room.sfuNodeUrl
  | .getRoom | .expire _ | .pending _ | .getStats _ | .returned _ | .threw => none

/-- The call has not had a MediaRoom created. -/
def GetOrCreateRoom.unborn : GetOrCreateRoom ι κ → Bool
  | .createOrGetMediaRoom _ request => request.unborn
  | .getRoom | .getStats _ => true
  | .expire _ | .pending _ | .set _ | .returned _ | .threw => false

def Call.reliesOn (w : World ι κ) (c : Call ι κ) : Option Url :=
  c.rooming.bind fun rooming => rooming.2.reliesOn w

def Call.unborn (c : Call ι κ) : Bool :=
  c.rooming.any fun rooming => rooming.2.unborn

/-- The node from which a step of the call removes the MediaRoom. -/
def Call.removesRoom (roomId : RoomId) (w : World ι κ) :
    Event → Call ι κ → Option Url
  | .closeRoom true, .leave _ (.closed url close _) =>
      if ((w.sfu url).rooms.lookup roomId).isSome &&
          ((Sfu.Call.closeRoom roomId close).closing true (w.sfu url)).isSome then
        some url
      else none
  | _, _ => none

/-- The record of a peer that has joined and not left is served by its node. -/
def RecordServed (roomId : RoomId) (s : Calls ι κ) : Prop :=
  ∀ room, s.world.redis.room = some room →
    (∃ i p, (s.proc i).joined = some p ∧ ∀ j, (s.proc j).removed ≠ some p) →
    (s.world.sfu room.sfuNodeUrl).serves roomId

/-- Nothing fails, and no close removes a MediaRoom that the record names or a
creation has been given. -/
def RemovesUnneeded (roomId : RoomId) (s : Calls ι κ) (a : ι × Event) : Prop :=
  a.2.ok = true ∧
    ∀ url, (s.proc a.1).removesRoom roomId s.world a.2 = some url →
      s.world.redis.room.map Room.sfuNodeUrl ≠ some url ∧
        ∀ i, (s.proc i).reliesOn s.world ≠ some url

structure Served (roomId : RoomId) (s : Calls ι κ) : Prop where
  record : ∀ room, s.world.redis.room = some room →
    (s.world.sfu room.sfuNodeUrl).serves roomId
  relied : ∀ i url, (s.proc i).reliesOn s.world = some url →
    (s.world.sfu url).serves roomId
  sound : ∀ url, (s.world.sfu url).Sound roomId
  unborn : ∀ i url, (s.proc i).unborn →
    (s.world.sfu url).creation (.inl i) = none

theorem GetOrCreateRoom.reliesOn_congr {w w' : World ι κ}
    (h : ∀ url, (w'.sfu url).creation = (w.sfu url).creation)
    (point : GetOrCreateRoom ι κ) : point.reliesOn w' = point.reliesOn w := by
  cases point with
  | createOrGetMediaRoom url request =>
      have hgiven : request.given (w'.sfu url) = request.given (w.sfu url) := by
        cases request <;> simp [Sfu.GetOrCreateRoom.given, h url]
      simp only [reliesOn]
      rw [hgiven]
  | _ => rfl

theorem Call.reliesOn_congr {w w' : World ι κ}
    (h : ∀ url, (w'.sfu url).creation = (w.sfu url).creation) (c : Call ι κ) :
    c.reliesOn w' = c.reliesOn w := by
  simp only [reliesOn, GetOrCreateRoom.reliesOn_congr h]

variable [DecidableEq ι] [DecidableEq κ]

omit [DecidableEq κ] in
theorem Served.quiet {roomId : RoomId} {s : Calls ι κ} {i : ι} {w' : World ι κ}
    {c' : Call ι κ} (h : Served roomId s)
    (hframe : ∀ url, Sfu.Frame (s.world.sfu url) (w'.sfu url))
    (hroom : ∀ room, w'.redis.room = some room →
      (s.world.sfu room.sfuNodeUrl).serves roomId)
    (hrelies : ∀ url, c'.reliesOn s.world = some url →
      (s.world.sfu url).serves roomId)
    (hunborn : c'.unborn → (s.proc i).unborn) :
    Served roomId (s.set i w' c') := by
  have hcongr := Call.reliesOn_congr fun url => (hframe url).creation
  refine ⟨fun room hr => ?_, fun j url hj => ?_, fun url => ?_, fun j url hj => ?_⟩
  · rw [Pool.set_world, (hframe _).serves]
    exact hroom room hr
  · rw [Pool.set_proc, Pool.set_world, hcongr] at hj
    rw [Pool.set_world, (hframe _).serves]
    split at hj
    · exact hrelies url hj
    · exact h.relied j url hj
  · exact (hframe url).sound (h.sound url)
  · rw [Pool.set_world, (hframe url).creation]
    rw [Pool.set_proc] at hj
    split at hj
    · next hji =>
      subst hji
      exact h.unborn j url (hunborn hj)
    · exact h.unborn j url hj

omit [DecidableEq ι] [DecidableEq κ] in
theorem frame_setSfu {w : World ι κ} {url : Url} {node : Sfu.State (ι ⊕ κ)}
    (h : Sfu.Frame (w.sfu url) node) (url' : Url) :
    Sfu.Frame (w.sfu url') ((w.setSfu url node).sfu url') := by
  rw [World.sfu_setSfu]
  split
  · next heq => exact heq ▸ h
  · exact .refl _

omit [DecidableEq ι] [DecidableEq κ] in
/-- A creation that comes to rely on a node because that node has moved. -/
theorem GetOrCreateRoom.reliesOn_setSfu {w : World ι κ} {url url' : Url}
    {node : Sfu.State (ι ⊕ κ)} {roomId : RoomId}
    (hgiven : ∀ request : Sfu.GetOrCreateRoom (ι ⊕ κ), request.given node →
      request.given (w.sfu url) ∨ node.serves roomId)
    {point : GetOrCreateRoom ι κ}
    (hpoint : point.reliesOn (w.setSfu url node) = some url') :
    point.reliesOn w = some url' ∨ url' = url ∧ node.serves roomId := by
  cases point with
  | createOrGetMediaRoom url'' request =>
      simp only [reliesOn, World.sfu_setSfu, Option.ite_none_right_eq_some,
        Option.some.injEq] at hpoint ⊢
      obtain ⟨hpoint, rfl⟩ := hpoint
      split at hpoint
      · next heq =>
        subst heq
        rcases hgiven request hpoint with h | h
        · exact .inl ⟨h, rfl⟩
        · exact .inr ⟨rfl, h⟩
      · exact .inl ⟨hpoint, rfl⟩
  | set room => exact .inl hpoint
  | _ => cases hpoint

omit [DecidableEq ι] [DecidableEq κ] in
theorem Call.reliesOn_setSfu {w : World ι κ} {url url' : Url}
    {node : Sfu.State (ι ⊕ κ)} {roomId : RoomId}
    (hgiven : ∀ request : Sfu.GetOrCreateRoom (ι ⊕ κ), request.given node →
      request.given (w.sfu url) ∨ node.serves roomId) {c : Call ι κ}
    (hc : c.reliesOn (w.setSfu url node) = some url') :
    c.reliesOn w = some url' ∨ url' = url ∧ node.serves roomId := by
  unfold reliesOn at hc ⊢
  cases hrooming : c.rooming with
  | none => rw [hrooming] at hc; cases hc
  | some rooming =>
      rw [hrooming] at hc
      exact GetOrCreateRoom.reliesOn_setSfu hgiven hc

theorem Served.put_step {roomId : RoomId} {s : Calls ι κ} {i : ι}
    {instanceId : Instance} {peer : Peer} {ok : Bool} {url : Url}
    {request request' : Sfu.GetOrCreateRoom (ι ⊕ κ)} {node : Sfu.State (ι ⊕ κ)}
    (h : Served roomId s)
    (hi : s.proc i = .join instanceId peer
      (.getOrCreateRoom (.createOrGetMediaRoom url request)))
    (hput : request.step (.inl i) roomId ok (s.world.sfu url) =
      some (node, request')) :
    Served roomId (s.set i (s.world.setSfu url node) (.join instanceId peer
      (.getOrCreateRoom (.createOrGetMediaRoom url request')))) := by
  have hrelied := h.relied i url
  have hunborn := h.unborn i url
  rw [hi] at hrelied hunborn
  obtain ⟨hsound, hserves, hown, hothers, hcreation⟩ :=
    Sfu.GetOrCreateRoom.step_serves hput (h.sound url) hunborn
      (fun hgiven => hrelied (by simp [Call.reliesOn, Call.rooming, Join.rooming,
        GetOrCreateRoom.reliesOn, hgiven]))
  have hkeeps : ∀ url', (s.world.sfu url').serves roomId →
      ((s.world.setSfu url node).sfu url').serves roomId := by
    intro url' hurl'
    rw [World.sfu_setSfu]
    split
    · next heq => exact hserves (heq ▸ hurl')
    · exact hurl'
  refine ⟨fun room hr => ?_, fun j url' hj => ?_, fun url' => ?_, fun j url' hj => ?_⟩
  · exact hkeeps _ (h.record room hr)
  · rw [Pool.set_proc, Pool.set_world] at hj
    rw [Pool.set_world]
    split at hj
    · simp only [Call.reliesOn, Call.rooming, Join.rooming, Option.map_some,
        Option.bind_some, GetOrCreateRoom.reliesOn, World.sfu_setSfu, if_true,
        Option.ite_none_right_eq_some, Option.some.injEq] at hj
      obtain ⟨hgiven, rfl⟩ := hj
      simpa [World.sfu_setSfu] using hown hgiven
    · rcases Call.reliesOn_setSfu hothers hj with hj | ⟨rfl, hnode⟩
      · exact hkeeps _ (h.relied j url' hj)
      · simpa [World.sfu_setSfu] using hnode
  · rw [Pool.set_world, World.sfu_setSfu]
    split
    · exact hsound
    · exact h.sound url'
  · rw [Pool.set_proc] at hj
    rw [Pool.set_world, World.sfu_setSfu]
    split at hj
    · next hji =>
      subst hji
      obtain ⟨hborn, hsame⟩ := Sfu.GetOrCreateRoom.step_unborn hput hj
      have hold : (s.proc j).unborn := by rw [hi]; exact hborn
      split
      · rw [hsame]
        exact h.unborn j url hold
      · exact h.unborn j url' hold
    · next hji =>
      split
      · next heq =>
        rw [hcreation _ (by simpa using hji), ← heq]
        exact h.unborn j url' hj
      · exact h.unborn j url' hj

theorem Served.close_step {roomId : RoomId} {s : Calls ι κ} {i : ι}
    {peerId : PeerId} {url : Url} {close close' : Sfu.CloseRoom (ι ⊕ κ)}
    {historyDeleted : Bool} {node : Sfu.State (ι ⊕ κ)} (h : Served roomId s)
    (hunneeded : (((s.world.sfu url).rooms.lookup roomId).isSome &&
        ((Sfu.Call.closeRoom roomId close).closing true
          (s.world.sfu url)).isSome) →
      s.world.redis.room.map Room.sfuNodeUrl ≠ some url ∧
        ∀ j, (s.proc j).reliesOn s.world ≠ some url)
    (hclose : close.step roomId true (s.world.sfu url) = some (node, close')) :
    Served roomId (s.set i (s.world.setSfu url node)
      (.leave peerId (.closed url close' historyDeleted))) := by
  rcases Sfu.CloseRoom.step_frame hclose with hframe | ⟨hclosing, r, rfl⟩
  · exact h.quiet (frame_setSfu hframe) h.record nofun nofun
  have hunused : (∀ room, s.world.redis.room = some room →
      room.sfuNodeUrl ≠ url) ∧ ∀ j, (s.proc j).reliesOn s.world ≠ some url := by
    cases hlookup : (s.world.sfu url).rooms.lookup roomId with
    | some r' =>
        rw [hlookup, hclosing] at hunneeded
        refine ⟨fun room hroom heq => (hunneeded rfl).1 ?_, (hunneeded rfl).2⟩
        simp [hroom, heq]
    | none =>
        have hnot : (s.world.sfu url).serves roomId = false := by
          simp [Sfu.State.serves, hlookup]
        refine ⟨fun room hroom heq => ?_, fun j hj => ?_⟩
        · have := h.record room hroom
          rw [heq, hnot] at this
          cases this
        · have := h.relied j url hj
          rw [hnot] at this
          cases this
  obtain ⟨hcreation, hpending, hnone⟩ :=
    (s.world.sfu url).finishClose_creation roomId r
  have hsame : ∀ url', ((s.world.setSfu url ((s.world.sfu url).finishClose
      roomId r)).sfu url').creation = (s.world.sfu url').creation := by
    intro url'
    rw [World.sfu_setSfu]
    split
    · next heq => rw [hcreation, heq]
    · rfl
  have hcongr := Call.reliesOn_congr hsame
  refine ⟨fun room hr => ?_, fun j url' hj => ?_, fun url' => ?_, fun j url' hj => ?_⟩
  · rw [Pool.set_world, World.sfu_setSfu, if_neg (hunused.1 room hr)]
    exact h.record room hr
  · rw [Pool.set_proc, Pool.set_world, hcongr] at hj
    split at hj
    · cases hj
    · have hne : url' ≠ url := fun heq => hunused.2 j (heq ▸ hj)
      rw [Pool.set_world, World.sfu_setSfu, if_neg hne]
      exact h.relied j url' hj
  · rw [Pool.set_world, World.sfu_setSfu]
    split
    · refine ⟨fun r' hr' => ?_, fun j hj => ?_⟩
      · rw [hnone] at hr'
        cases hr'
      · rw [hcreation]
        exact (h.sound url).pending j (hpending ▸ hj)
    · exact h.sound url'
  · rw [Pool.set_world, hsame]
    rw [Pool.set_proc] at hj
    split at hj
    · cases hj
    · exact h.unborn j url' hj

theorem Served.room_step {roomId : RoomId} {s : Calls ι κ} {i : ι}
    {instanceId : Instance} {peer : Peer} {w' : World ι κ}
    {point point' : GetOrCreateRoom ι κ} (h : Served roomId s)
    (hi : s.proc i = .join instanceId peer (.getOrCreateRoom point))
    (hs : GetOrCreateRoom.Step i instanceId roomId s.world true point w' point') :
    Served roomId (s.set i w'
      (.join instanceId peer (Join.afterGetOrCreateRoom point'))) := by
  have hrelied := h.relied i
  rw [hi] at hrelied
  cases hs with
  | put hput => exact h.put_step hi hput
  | answered => exact h.quiet (fun _ => .refl _) h.record (fun url hurl => by
      obtain rfl : _ = url := Option.some.inj hurl
      exact hrelied _ rfl) nofun
  | @recorded room =>
      refine h.quiet (fun _ => .refl _) (fun room' hroom => ?_) nofun nofun
      obtain rfl : room = room' := Option.some.inj hroom
      exact hrelied _ rfl
  | begins | read | picked =>
      exact h.quiet (fun _ => .refl _) h.record nofun (fun _ => by rw [hi]; rfl)
  | _ => exact h.quiet (fun _ => .refl _) h.record nofun nofun

theorem Served.leave_step {roomId : RoomId} {s : Calls ι κ} {i : ι}
    {peerId : PeerId} {event : Event} {w' : World ι κ} {point point' : Leave ι κ}
    (h : Served roomId s) (hok : event.ok = true)
    (hunneeded : ∀ url,
      (Call.leave peerId point).removesRoom roomId s.world event = some url →
        s.world.redis.room.map Room.sfuNodeUrl ≠ some url ∧
          ∀ j, (s.proc j).reliesOn s.world ≠ some url)
    (hstep : point.step roomId peerId event s.world = some (w', point')) :
    Served roomId (s.set i w' (.leave peerId point')) := by
  have hs := Leave.step_cases hstep
  rw [hok] at hs
  cases hs with
  | @closing url close close' historyDeleted node hclose =>
      cases event with
      | closeRoom ok =>
          obtain rfl : ok = true := hok
          refine h.close_step (fun hremoves => hunneeded url ?_) hclose
          simp only [Call.removesRoom, hremoves, if_true]
      | deleteRoomHistory ok =>
          cases historyDeleted <;> simp [Leave.step] at hstep
      | settle ok => cases hstep
      | stats k ok => cases hstep
  | sfuRemoved =>
      exact h.quiet (frame_setSfu (.removePeer _ _ _)) h.record (by rintro _ ⟨⟩) (by rintro ⟨⟩)
  | closed =>
      exact h.quiet (fun _ => .refl _) (by rintro _ ⟨⟩) (by rintro _ ⟨⟩) (by rintro ⟨⟩)
  | _ => exact h.quiet (fun _ => .refl _) h.record (by rintro _ ⟨⟩) (by rintro ⟨⟩)

theorem Served.preserves {roomId : RoomId} :
    (signaling roomId : System (Calls ι κ) _).Preserves (RemovesUnneeded roomId)
      (Served roomId) := by
  rintro s ⟨i, event⟩ s' h ⟨hok, hunneeded⟩ hstep
  obtain ⟨w', c', hcall, rfl⟩ := Pool.step_eq_some.1 hstep
  replace hok : event.ok = true := hok
  cases hc : s.proc i with
  | join instanceId peer point =>
      rw [hc] at hcall
      simp only [Call.step, Option.map_eq_some_iff, Prod.mk.injEq] at hcall
      obtain ⟨⟨w', point'⟩, hpoint, rfl, rfl⟩ := hcall
      have hs := Join.step_cases hpoint
      rw [hok] at hs
      cases hs with
      | room hroom => exact h.room_step hc hroom
      | listed | fetched =>
          refine h.quiet (fun _ => .refl _) h.record ?_ ?_ <;>
            simp [Call.reliesOn, Call.unborn, Call.rooming,
              Join.rooming_nextProducers]
      | _ => exact h.quiet (fun _ => .refl _) h.record (by rintro _ ⟨⟩) (by rintro ⟨⟩)
  | leave peerId point =>
      rw [hc] at hcall hunneeded
      simp only [Call.step, Option.map_eq_some_iff, Prod.mk.injEq] at hcall
      obtain ⟨⟨w', point'⟩, hpoint, rfl, rfl⟩ := hcall
      exact h.leave_step hok hunneeded hpoint
  | createWebRtcTransport peerId direction point =>
      rw [hc] at hcall
      simp only [Call.step, Option.map_eq_some_iff, Prod.mk.injEq] at hcall
      obtain ⟨⟨w', point'⟩, hpoint, rfl, rfl⟩ := hcall
      have hs := CreateWebRtcTransport.step_cases hpoint
      rw [hok] at hs
      cases hs with
      | post _ hpost =>
          exact h.quiet (frame_setSfu (Sfu.CreateTransport.step_frame hpost))
            h.record (by rintro _ ⟨⟩) (by rintro ⟨⟩)
      | _ => exact h.quiet (fun _ => .refl _) h.record (by rintro _ ⟨⟩) (by rintro ⟨⟩)

omit [DecidableEq ι] [DecidableEq κ] in
theorem Served.issued {roomId : RoomId} (serviceUrls : List Url)
    (workers : Url → List Sfu.Worker) (requests : ι → Request) :
    Served roomId (.issued
      (.fresh serviceUrls fun url => (.spawned (workers url) : Sfu.State (ι ⊕ κ)))
      requests) := by
  refine ⟨nofun, fun i url hi => ?_, fun url => ⟨nofun, nofun⟩, fun _ _ _ => rfl⟩
  cases hr : requests i <;>
    simp [Calls.issued, Request.call, hr, Call.reliesOn, Call.rooming,
      Join.rooming, GetOrCreateRoom.reliesOn] at hi

theorem Served.holds {roomId : RoomId} (serviceUrls : List Url)
    (workers : Url → List Sfu.Worker) (requests : ι → Request)
    {schedule : List (ι × Event)}
    (h : (signaling roomId).Meets (RemovesUnneeded roomId)
      (.issued (.fresh serviceUrls fun url =>
        (.spawned (workers url) : Sfu.State (ι ⊕ κ))) requests) schedule) :
    (signaling roomId).Holds (RecordServed roomId)
      (.issued (.fresh serviceUrls fun url =>
        (.spawned (workers url) : Sfu.State (ι ⊕ κ))) requests) schedule :=
  h.holds Served.preserves (fun _ h room hroom _ => h.record room hroom)
    (.issued serviceUrls workers requests)

/-- The record is served throughout every run in which the ids survive the URLs and
no close removes a MediaRoom that the record names or a creation has been given. -/
theorem holds_recordServed {roomId : RoomId} (serviceUrls : List Url)
    (workers : Url → List Sfu.Worker) (requests : ι → RoutedRequest)
    (hsurvive : ∀ i, ∀ op ∈ (requests i).operations roomId,
      Rest.Survives op.route op.params)
    {schedule : List (ι × Event)}
    (h : (routedSignaling roomId).Meets
      (fun s a => RemovesUnneeded roomId s.calls a)
      (.issued (.fresh serviceUrls fun url =>
        (.spawned (workers url) : Sfu.State (ι ⊕ κ))) requests) schedule) :
    (routedSignaling roomId).Holds (fun s => RecordServed roomId s.calls)
      (.issued (.fresh serviceUrls fun url =>
        (.spawned (workers url) : Sfu.State (ι ⊕ κ))) requests) schedule := by
  have hmirrors := routedSignaling_mirrors (ι := ι) (κ := κ) roomId
  have hstart : ∀ w : World ι κ, ∀ i,
      ((RoutedCalls.issued w requests).proc i).Received roomId := by
    intro w i
    have hi := hsurvive i
    simp only [RoutedCalls.issued]
    cases hr : requests i <;> rw [hr] at hi <;> exact ⟨rfl, hi⟩
  rw [← hmirrors.meets_iff (hstart _), RoutedCalls.calls_issued] at h
  rw [← hmirrors.holds_iff (hstart _), RoutedCalls.calls_issued]
  exact Served.holds serviceUrls workers _ h

instance [Fintype ι] (roomId : RoomId) (s : Calls ι κ) (a : ι × Event) :
    Decidable (RemovesUnneeded roomId s a) :=
  decidable_of_iff (a.2.ok = true ∧
      ∀ url ∈ (s.proc a.1).removesRoom roomId s.world a.2,
        s.world.redis.room.map Room.sfuNodeUrl ≠ some url ∧
          ∀ i, (s.proc i).reliesOn s.world ≠ some url) Iff.rfl

/-! The last member leaves, and another peer joins. -/

def nextOneComes : Fin 3 → RoutedRequest
  | 0 => .join 0 ⟨"a", "Ann"⟩
  | 1 => .leave "a"
  | 2 => .join 1 ⟨"b", "Bob"⟩

/-- The leave has returned; its requests are still under way. -/
def lastOneLeft (join leave : ι) : List (ι × Event) :=
  leavingSchedule join leave ++ [(leave, .settle true)]

def nextOneJoins (join : ι) : List (ι × Event) :=
  [(join, .settle true), (join, .stats 0 true)] ++ List.replicate 7 (join, .settle true)

/-- The close arrives before the next join creates the room. -/
theorem holds_recordServed_promptClose :
    (routedSignaling "r").Holds (fun s => RecordServed "r" s.calls)
      (.issued oneNode nextOneComes)
      (lastOneLeft 0 1 ++ (1, .closeRoom true) :: nextOneJoins 2) :=
  holds_recordServed _ _ _ (by decide +kernel) (by decide +kernel)

/-- The close arrives when the next join has found the same MediaRoom. -/
theorem not_recordServed_staleClose :
    ¬ RecordServed "r" ((routedSignaling "r").run (.issued oneNode nextOneComes)
      (lastOneLeft 0 1 ++ nextOneJoins 2 ++ [(1, .closeRoom true)])).calls := by
  intro h
  have hserved := h ⟨"r", "", "n"⟩ (by decide +kernel)
    ⟨2, "b", by decide +kernel, by decide +kernel⟩
  revert hserved
  decide +kernel

end Realtime

end MeetServer
