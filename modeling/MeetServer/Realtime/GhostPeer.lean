import MeetServer.Realtime.Teardown
import Mathlib.Data.Fintype.Option

/-!
# Ghost peers of the sfu

A peer's `createWebRtcTransport` calls overlap with its `leave`.  The
membership check is made in Redis, and the sfu creates the peer when the request
arrives, so a request that arrives after the removal brings the peer back for
good.
-/

namespace MeetServer

open Foundation

namespace Sfu

variable {Ref : Type} [DecidableEq Ref]

/-- Once the peer is out of a room object, only the entry of `createTransport`
brings it back. -/
theorem CreateTransport.step_absent {i : Ref} {roomId : RoomId}
    {peerId : PeerId} {direction : TransportDirection} {ok : Bool}
    {s s' : State Ref} {point point' : CreateTransport Ref}
    (h : point.step i roomId peerId direction ok s = some (s', point'))
    (hcall : point = .call → s.rooms.lookup roomId = none) {v : Ref}
    (hv : peerId ∉ (s.room v).peers) : peerId ∉ (s'.room v).peers := by
  cases point with
  | call =>
      simp only [step, hcall rfl] at h
      cases h
      exact hv
  | createWebRtcTransport r object peerExisted =>
      simp only [step] at h
      split at h
      · split at h
        · simp only [Option.some.injEq] at h
          have hassign : peerId ∉ ((assignTransport i peerId direction r object
              (s.openTransport i r)).1.room v).peers := by
            unfold assignTransport
            split
            · exact hv
            · next peer hpeer =>
              split
              · have hne : v ≠ r := by
                  rintro rfl
                  have hnone : (s.room v).getPeer peerId = none :=
                    AList.lookup_eq_none.2 hv
                  rw [show (s.openTransport i v).room v = s.room v from rfl,
                    hnone] at hpeer
                  cases hpeer
                simpa [State.setRoom, State.closeTransport,
                  State.openTransport, hne] using hv
              · exact hv
          rwa [h] at hassign
        · cases h
      · split at h <;> cases h
        · exact hv
        · rw [State.room_removePeerOf, Function.update_apply]
          split
          · next heq =>
            subst heq
            simp [MediaRoom.deletePeer]
          · exact hv
  | returned => cases h
  | threw => cases h

end Sfu

namespace Realtime

variable {ι κ : Type}

def Call.finished : Call ι κ → Bool
  | .join _ _ (.returned _ _) | .join _ _ .threw => true
  | .leave _ point => point.finished
  | .createWebRtcTransport _ _ (.returned _)
  | .createWebRtcTransport _ _ .threw => true
  | _ => false

/-- The sfu has not processed the removal that the call asks for. -/
def Call.registered : Call ι κ → Bool
  | .leave _ point => point.registered
  | .join _ _ _ | .createWebRtcTransport _ _ _ => false

/-- The node at which the call's request for a transport is about to arrive. -/
def Call.entering : Call ι κ → Option Url
  | .createWebRtcTransport _ _ (.createTransport url .call) => some url
  | .join _ _ _ | .leave _ _ | .createWebRtcTransport _ _ _ => none

/-- The leave does not fail on its way to the removal, and no request for a
transport enters the MediaRoom once the removal has been processed. -/
def EntersRegistered (roomId : RoomId) (s : Calls (Option ι) κ)
    (a : Option ι × Event) : Prop :=
  (a.1 = none → (s.proc none).registered → a.2.ok = true) ∧
    ∀ url ∈ (s.proc a.1).entering, a.2.ok = true →
      ((s.world.sfu url).rooms.lookup roomId).isSome → (s.proc none).registered

/-- The node to which the call sends its requests. -/
def Call.url : Call ι κ → Option Url
  | .leave _ point => point.url
  | .createWebRtcTransport _ _ (.createTransport url _) => some url
  | .join _ _ _ | .createWebRtcTransport _ _ _ => none

def Call.willCheck : Call ι κ → Bool
  | .leave _ point => point.willCheck
  | .join _ _ _ | .createWebRtcTransport _ _ _ => false

structure Departure (roomId : RoomId) (peerId : PeerId)
    (direction : ι → TransportDirection) (record : Room)
    (s : Calls (Option ι) κ) : Prop where
  leave : ∃ point, s.proc none = .leave peerId point
  transport : ∀ i, ∃ point,
    s.proc (some i) = .createWebRtcTransport peerId (direction i) point
  pinned : (s.proc none).willCheck → s.world.redis.room = some record
  same : ∀ room, s.world.redis.room = some room → room = record
  url : ∀ i url, (s.proc i).url = some url → url = record.sfuNodeUrl
  absent : (s.proc none).registered = false → ∀ r,
    (s.world.sfu record.sfuNodeUrl).rooms.lookup roomId = some r →
      peerId ∉ ((s.world.sfu record.sfuNodeUrl).room r).peers

variable [DecidableEq ι] [DecidableEq κ]

theorem Departure.leave_step {roomId : RoomId} {peerId : PeerId}
    {direction : ι → TransportDirection} {record : Room}
    {s : Calls (Option ι) κ} {ok : Bool} {w' : World (Option ι) κ}
    {point point' : Leave (Option ι) κ}
    (h : Departure roomId peerId direction record s)
    (hi : s.proc none = .leave peerId point)
    (hok : point.registered → ok = true)
    (hs : Leave.Step roomId peerId s.world ok point w' point') :
    Departure roomId peerId direction record
      (s.set none w' (.leave peerId point')) := by
  obtain ⟨-, htransport, hpinned, hsame, hurl, habsent⟩ := h
  have hown := hurl none
  rw [hi] at hpinned hown habsent
  refine ⟨⟨point', by simp⟩, fun i => ?_, ?_, ?_, fun i => ?_, ?_⟩
  · obtain ⟨other, hother⟩ := htransport i
    exact ⟨other, by simpa [Pool.set_proc] using hother⟩
  · rw [Pool.set_proc_self, Pool.set_world]
    simp only [Call.willCheck] at hpinned ⊢
    cases hs with
    | closed | swept | unswept => simp
    | found hroom => exact fun _ => hpinned rfl
    | _ => first | exact fun _ => hpinned rfl | (intro h; cases h)
  · rw [Pool.set_world]
    cases hs <;> first | exact hsame | (rintro _ ⟨⟩)
  · rw [Pool.set_proc]
    simp only [Call.url] at hown
    cases hs <;> grind [Call.url, Leave.url]
  · rw [Pool.set_proc_self, Pool.set_world]
    simp only [Call.registered] at habsent ⊢
    cases hs with
    | gone hnone =>
        have hp := hpinned rfl
        rw [hnone] at hp
        cases hp
    | @sfuRemoved url =>
        obtain rfl := hown url rfl
        intro _ r hr
        simp only [World.sfu_setSfu, if_true, Sfu.State.rooms_removePeer] at hr ⊢
        simp [Sfu.State.room_removePeer, hr, Sfu.MediaRoom.deletePeer]
    | @closing url close close' historyDeleted node hclose =>
        obtain rfl := hown url rfl
        obtain ⟨hpeers, hrooms⟩ := Sfu.CloseRoom.step_rooms hclose
        simp only [World.sfu_setSfu, if_true, hpeers]
        grind [Leave.registered, Dict.lookup_erase_ite]
    | threw =>
        refine fun _ => habsent ?_
        rw [← Bool.not_eq_true]
        intro hregistered
        cases hok hregistered
    | lost => cases hok rfl
    | closed | swept => exact fun _ => habsent rfl
    | _ => first | exact fun _ => habsent rfl | (intro h; cases h)

theorem Departure.transport_step {roomId : RoomId} {peerId : PeerId}
    {direction : ι → TransportDirection} {record : Room}
    {s : Calls (Option ι) κ} {i : ι} {ok : Bool} {w' : World (Option ι) κ}
    {point point' : CreateWebRtcTransport (Option ι) κ}
    (h : Departure roomId peerId direction record s)
    (hi : s.proc (some i) = .createWebRtcTransport peerId (direction i) point)
    (henters : ∀ url, point = .createTransport url .call → ok = true →
      ((s.world.sfu url).rooms.lookup roomId).isSome →
      (s.proc none).registered)
    (hs : CreateWebRtcTransport.Step (some i) roomId peerId (direction i)
      s.world ok point w' point') :
    Departure roomId peerId direction record
      (s.set (some i) w' (.createWebRtcTransport peerId (direction i) point')) := by
  obtain ⟨⟨leave, hleave⟩, htransport, hpinned, hsame, hurl, habsent⟩ := h
  have hown := hurl (some i)
  rw [hi] at hown
  have hproc (j : Option ι) (hj : j ≠ some i) (w : World (Option ι) κ)
      (p : Call (Option ι) κ) : (s.set (some i) w p).proc j = s.proc j :=
    Pool.set_proc_ne _ _ _ hj
  have hredis : w'.redis = s.world.redis := by
    cases hs <;> rfl
  refine ⟨⟨leave, by rwa [hproc none nofun]⟩, fun j => ?_, ?_, ?_, fun j => ?_, ?_⟩
  · by_cases hj : j = i
    · subst hj
      exact ⟨point', by simp⟩
    · rw [hproc _ (by simpa using hj)]
      exact htransport j
  · rwa [hproc none nofun, Pool.set_world, hredis]
  · rwa [Pool.set_world, hredis]
  · rw [Pool.set_proc]
    cases hs <;> grind [Call.url]
  · rw [hproc none nofun, Pool.set_world]
    intro hremoved r
    cases hs with
    | @post ok url request request' node hok hpost =>
        obtain rfl := hown url rfl
        simp only [World.sfu_setSfu, if_true,
          (Sfu.CreateTransport.step_frame hpost).rooms]
        refine fun hr => Sfu.CreateTransport.step_absent hpost ?_
          (habsent hremoved r hr)
        rintro rfl
        have hregistered := henters _ rfl (hok rfl) (by simp [hr])
        rw [hremoved] at hregistered
        cases hregistered
    | _ => exact habsent hremoved r

theorem Departure.preserves {roomId : RoomId} {peerId : PeerId}
    {direction : ι → TransportDirection} {record : Room} :
    (signaling (ι := Option ι) (κ := κ) roomId).Preserves
      (EntersRegistered roomId)
      (Departure roomId peerId direction record) := by
  rintro s ⟨i, event⟩ s' h ⟨hok, henters⟩ hstep
  obtain ⟨w', call', hcall, rfl⟩ := Pool.step_eq_some.1 hstep
  cases i with
  | none =>
      obtain ⟨point, hi⟩ := h.leave
      simp only [hi, Call.step, Option.map_eq_some_iff, Prod.mk.injEq] at hcall
      obtain ⟨⟨w', point'⟩, hpoint, rfl, rfl⟩ := hcall
      refine h.leave_step hi (fun hregistered => ?_) (Leave.step_cases hpoint)
      exact hok rfl (by rw [hi]; exact hregistered)
  | some i =>
      obtain ⟨point, hi⟩ := h.transport i
      simp only [hi, Call.step, Option.map_eq_some_iff, Prod.mk.injEq] at hcall
      obtain ⟨⟨w', point'⟩, hpoint, rfl, rfl⟩ := hcall
      refine h.transport_step hi (fun url hentering => ?_)
        (CreateWebRtcTransport.step_cases hpoint)
      subst hentering
      exact henters url (by rw [hi]; rfl)

instance (roomId : RoomId) (s : Calls (Option ι) κ) (a : Option ι × Event) :
    Decidable (EntersRegistered roomId s a) :=
  decidable_of_iff ((a.1 = none → (s.proc none).registered → a.2.ok = true) ∧
    ∀ url ∈ (s.proc a.1).entering, a.2.ok = true →
      ((s.world.sfu url).rooms.lookup roomId).isSome →
        (s.proc none).registered) Iff.rfl

/-! Of two members, one opens a transport while it leaves. -/

end Realtime

end MeetServer
