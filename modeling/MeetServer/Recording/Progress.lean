import MeetServer.Recording.Meetings
import MeetServer.Recording.Waits

/-!
# The sfu process does not get stuck

Calls wait for taps, taps for closings, and calls for the creations of other
calls.  `InHand` says that whatever is waited for is under way; then some call,
tap or closing can always go on until all of them have come to their end.
-/

namespace MeetServer.Recording

open MeetServer.Foundation

variable {Ref δ : Type}

/-! ## Going into the recording service -/

namespace State

/-- What a call waits for has been started. -/
def Handles (s : State Ref δ) : Work Ref → Prop
  | .taps taps => ∀ t ∈ taps, s.tap t ≠ none
  | .stops _ closings => ∀ closing ∈ closings, s.Settles closing
  | .none | .mkdir _ | .writeFile _ => True

variable {s s' s'' : State Ref δ} {i r : Ref} {work : Work Ref}

theorem Handles.adds {Q : TapId Ref → Prop} (h : s.Handles work) (hadds : s.Adds Q s') :
    s'.Handles work := by
  cases work with
  | taps taps => exact fun t ht => hadds.tap_ne_none (h t ht)
  | stops r closings => exact fun closing hclosing => hadds.settles (h closing hclosing)
  | none | mkdir | writeFile => trivial

/-- A call has gone into the recording service and waits there. -/
structure Enters (i : Ref) (s s' : State Ref δ) (work : Work Ref) : Prop where
  inHand : s'.InHand
  adds : s.Adds (fun t => t.1 = i) s'
  handles : s'.Handles work

theorem Enters.trans (h : s'.Enters i s'' work) (hadds : s.Adds (fun t => t.1 = i) s') :
    s.Enters i s'' work :=
  ⟨h.inHand, hadds.trans h.adds, h.handles⟩

variable [DecidableEq Ref]

theorem tap_setDisplayNames (s : State Ref δ) (r : Ref) (peers : List (PeerId × String)) :
    (s.setDisplayNames r peers).tap = s.tap := by
  unfold State.setDisplayNames
  induction peers generalizing s with
  | nil => rfl
  | cons named peers ih =>
      refine (ih _).trans ?_
      dsimp only
      split <;> rfl

namespace InHand

/-- Taps of peers that are different objects. -/
theorem startTaps {f : State Ref δ × List (TapId Ref) → Sfu.MediaPeer Ref →
      State Ref δ × List (TapId Ref)}
    (hf : ∀ acc peer, f acc peer = acc ∨ ∃ room roomId peerId producer, f acc peer =
      (acc.1.startTap (i, peer.object) room roomId peerId producer,
        acc.2 ++ [(i, peer.object)]))
    {peers : List (Sfu.MediaPeer Ref)} (hobjects : (peers.map Sfu.MediaPeer.object).Nodup)
    (acc : State Ref δ × List (TapId Ref)) (h : acc.1.InHand)
    (hstarted : ∀ t ∈ acc.2, acc.1.tap t ≠ none)
    (hnone : ∀ peer ∈ peers, acc.1.tap (i, peer.object) = none) :
    acc.1.Enters i (peers.foldl f acc).1 (.taps (peers.foldl f acc).2) := by
  induction peers generalizing acc with
  | nil => exact ⟨h, .of_tap rfl, hstarted⟩
  | cons peer peers ih =>
      rw [List.map_cons, List.nodup_cons] at hobjects
      rw [List.foldl_cons]
      rcases hf acc peer with heq | ⟨room, roomId, peerId, producer, heq⟩
      · rw [heq]
        exact ih hobjects.2 acc h hstarted fun other hother =>
          hnone other (List.mem_cons_of_mem _ hother)
      · rw [heq]
        obtain ⟨hinHand, hadds, hself⟩ :=
          h.startTap (hnone peer List.mem_cons_self) room roomId peerId producer
        refine (ih hobjects.2 _ hinHand (fun t ht => ?_) fun other hother => ?_).trans
          (hadds.mono ?_)
        · rcases List.mem_append.1 ht with ht | ht
          · exact hadds.tap_ne_none (hstarted t ht)
          · rwa [List.mem_singleton.1 ht]
        · refine hadds.new _ (hnone other (List.mem_cons_of_mem _ hother)) fun hsame => ?_
          have hobject : other.object = peer.object := congrArg Prod.snd hsame
          exact hobjects.1 (hobject ▸ List.mem_map_of_mem hother)
        · rintro t rfl
          rfl

theorem startRoomRecording (h : s.InHand) (hnone : ∀ object, s.tap (i, object) = none)
    (hobjects : ((Dict.values (s.sfu.room r).peers).map Sfu.MediaPeer.object).Nodup)
    (peers : List (PeerId × String)) :
    s.Enters i (s.startRoomRecording i r peers).1 (.taps (s.startRoomRecording i r peers).2) := by
  have htap := s.tap_setDisplayNames r peers
  have hnamed : (s.setDisplayNames r peers).InHand := h.congr htap
  have hentered : (s.setDisplayNames r peers).Enters i (s.startRoomRecording i r peers).1
      (.taps (s.startRoomRecording i r peers).2) := by
    refine startTaps (fun acc peer => ?_) ?_ (s.setDisplayNames r peers, []) hnamed nofun
      fun peer _ => ?_
    · split
      · exact .inl rfl
      · exact .inr ⟨_, _, _, _, rfl⟩
    · rwa [sfu_setDisplayNames]
    · exact (congrFun htap _).trans (hnone peer.object)
  exact hentered.trans (.of_tap htap)

theorem stopRoomRecording (h : s.InHand) (i r : Ref) :
    s.Enters i (s.stopRoomRecording r).1 (.stops r (s.stopRoomRecording r).2) := by
  refine List.foldlRecOn
    (motive := fun acc : State Ref δ × List (Option (TapId Ref)) =>
      s.Enters i acc.1 (.stops r acc.2)) _ _ ⟨h, .of_tap rfl, nofun⟩ ?_
  intro acc hacc peer _
  have hstops := Stops.stopPeerRecording (A := True) acc.1 peer.object
  have hadds : acc.1.Adds (fun t => t.1 = i) (acc.1.stopPeerRecording peer.object).1 :=
    hacc.inHand.adds_stops hstops
  refine ⟨hacc.inHand.stops hstops, hacc.adds.trans hadds, fun closing hclosing => ?_⟩
  rcases List.mem_append.1 hclosing with hclosing | hclosing
  · exact hadds.settles (hacc.handles closing hclosing)
  · rw [List.mem_singleton.1 hclosing]
    exact settles_stopPeerRecording acc.1 peer.object

theorem enter (h : s.InHand) {call : Sfu.Call Ref}
    (hstarts : ∀ roomId peers r, call = .startRecording roomId peers (.files r) →
      (∀ object, s.tap (i, object) = none) ∧
        ((Dict.values (s.sfu.room r).peers).map Sfu.MediaPeer.object).Nodup) :
    s.Enters i (s.enter i call).1 (s.enter i call).2 := by
  unfold State.enter
  split
  · next roomId peers r =>
    obtain ⟨hnone, hobjects⟩ := hstarts roomId peers r rfl
    exact h.startRoomRecording hnone hobjects peers
  · next r => exact h.stopRoomRecording i r
  · next r => exact h.stopRoomRecording i r
  · exact ⟨h, .of_tap rfl, trivial⟩

theorem tapProducer (h : s.InHand) {object : Ref} (hnone : s.tap (i, object) = none)
    (room : Ref) (roomId : RoomId) (peerId : PeerId) (producer : Sfu.Producer Ref) :
    s.Enters i (s.tapProducer i object room roomId peerId producer).1
      (s.tapProducer i object room roomId peerId producer).2 := by
  unfold State.tapProducer
  split
  · exact ⟨h, .of_tap rfl, nofun⟩
  · obtain ⟨hinHand, hadds, hself⟩ := h.startTap hnone room roomId peerId producer
    refine ⟨hinHand, hadds.mono ?_, ?_⟩
    · rintro t rfl
      rfl
    · intro t ht
      rwa [List.mem_singleton.1 ht]

end InHand

end State

/-! ## The calls -/

def Work.rank : Work Ref → Nat
  | .none => 0
  | .taps _ | .writeFile _ => 1
  | .mkdir _ => 2
  | .stops .. => 3

theorem Work.rank_le (work : Work Ref) : work.rank ≤ 3 := by
  cases work <;> simp [rank]

namespace Call

/-- The call as `MediaRooms` has it; a `produce` is finished there. -/
def rooms : Call Ref → Sfu.Call Ref
  | .mediaRooms call _ => call
  | .produce .. => .removePeer "" "" true

/-- The call has gone into the recording service. -/
def recording : Call Ref → Bool
  | .mediaRooms call _ => call.recording
  | .produce _ _ _ _ (.tapProducer _) _ => true
  | _ => false

/-- How often the call has still to go on, at most; the work is done in between. -/
def rank : Call Ref → Nat
  | .mediaRooms call work => 4 * call.rank + work.rank
  | .produce _ _ _ _ point work => 4 * point.rank + work.rank

/-- Returned or thrown. -/
def settled : Call Ref → Bool
  | .mediaRooms call _ => call.settled
  | .produce _ _ _ _ point _ => point.settled

end Call

def Process.rooms (p : Process Ref δ) : Sfu.Process Ref :=
  ⟨p.world.sfu, fun i => (p.proc i).rooms⟩

variable [DecidableEq Ref]

theorem Process.rooms_set (p : Process Ref δ) (i : Ref) (s' : State Ref δ) (c' : Call Ref) :
    rooms (p.set i s' c') = p.rooms.set i s'.sfu c'.rooms := by
  simp only [rooms, Pool.set, Pool.mk.injEq, true_and]
  funext j
  by_cases hj : j = i <;> simp [hj]

/-- What a step of the call `i` leaves behind. -/
structure Call.Leaves (i : Ref) (q : Sfu.Process Ref) (s : State Ref δ) (c : Call Ref)
    (s' : State Ref δ) (c' : Call Ref) : Prop where
  rooms : Sfu.Orderly (q.set i s'.sfu c'.rooms)
  enters : s.Enters i s' c'.work
  recording : c'.work ≠ .none → c'.recording = true
  rank : c'.rank < c.rank

namespace Call.Leaves

variable {q : Sfu.Process Ref} {i : Ref} {ok : Bool} {s s' : State Ref δ} {c' : Call Ref}

theorem stepMediaRooms {call : Sfu.Call Ref} {work : Work Ref} (hq : Sfu.Orderly q)
    (hworld : q.world = s.sfu) (hcall : q.proc i = call) (h : s.InHand)
    (hstarting : (Call.mediaRooms call work).starting = true → ∀ object, s.tap (i, object) = none)
    (hstep : Call.stepMediaRooms i ok s call = some (s', c')) :
    Call.Leaves i q s (.mediaRooms call work) s' c' := by
  obtain ⟨⟨sfu, call'⟩, hr, heq⟩ := Option.map_eq_some_iff.1 hstep
  cases heq
  have hmoved : (q.proc i).step i ok q.world = some (sfu, call') := by
    rw [hcall, hworld]
    exact hr
  have hrooms := hq.step hmoved
  have hstops : s.Stops True (s.dropPeer (Recording.removing ok s.sfu call)) := by
    cases Recording.removing ok s.sfu call with
    | none => exact .refl s
    | some object => exact .stopPeerRecordingOfRoom s object fun _ _ _ => trivial
  let dropped : State Ref δ := { s.dropPeer (Recording.removing ok s.sfu call) with sfu := sfu }
  have hdropped : dropped.InHand := (h.stops hstops).congr rfl
  have hadds : s.Adds (fun t => t.1 = i) dropped :=
    (h.adds_stops hstops).trans (.of_tap rfl)
  have hentered : dropped.Enters i (dropped.enter i call').1 (dropped.enter i call').2 := by
    refine hdropped.enter ?_
    rintro roomId peers r rfl
    refine ⟨fun object => ?_, hrooms.named.nodup_objects r⟩
    obtain rfl := (Sfu.Call.startRecording_of_step hr).2 r rfl
    have hnew : s.Adds (fun _ => False) dropped := (h.adds_stops hstops).trans (.of_tap rfl)
    exact hnew.new _ (hstarting rfl object) id
  have hrank := Sfu.Call.rank_lt_of_step hr
  refine ⟨?_, hentered.trans hadds, fun hwork => ?_, ?_⟩
  · change Sfu.Orderly (q.set i (dropped.enter i call').1.sfu call')
    rw [State.sfu_enter]
    exact hrooms
  · change (dropped.enter i call').2 ≠ .none at hwork
    change call'.recording = true
    unfold State.enter at hwork
    split at hwork
    · rfl
    · rfl
    · rfl
    · exact (hwork rfl).elim
  · have hwork := (dropped.enter i call').2.rank_le
    change 4 * call'.rank + (dropped.enter i call').2.rank < 4 * call.rank + work.rank
    omega

/-- A `produce` that has come to `point'`, inside the recording service or not. -/
theorem of_entered {roomId : RoomId} {peerId : PeerId} {transportId : Ref} {kind : MediaKind}
    {point point' : Sfu.Produce Ref} {work work' : Work Ref}
    (hrooms : Sfu.Orderly (q.set i s'.sfu (.removePeer "" "" true)))
    (henters : s.Enters i s' work') (hrank : point'.rank < point.rank)
    (hwork : work' = .none ∨ ∃ producer, point' = .tapProducer producer) :
    Call.Leaves i q s (.produce roomId peerId transportId kind point work) s'
      (.produce roomId peerId transportId kind point' work') := by
  refine ⟨hrooms, henters, fun hsome => ?_, ?_⟩
  · rcases hwork with hnone | ⟨producer, rfl⟩
    · exact (hsome hnone).elim
    · rfl
  · have hwork := work'.rank_le
    change 4 * point'.rank + work'.rank < 4 * point.rank + work.rank
    omega

theorem stepProduce {roomId : RoomId} {peerId : PeerId} {transportId : Ref} {kind : MediaKind}
    {point : Sfu.Produce Ref} {work : Work Ref} (hq : Sfu.Orderly q)
    (hworld : q.world = s.sfu) (hcall : q.proc i = .removePeer "" "" true) (h : s.InHand)
    (hstarting : (Call.produce roomId peerId transportId kind point work).starting = true →
      ∀ object, s.tap (i, object) = none)
    (hstep : Call.stepProduce i roomId peerId transportId kind ok s point = some (s', c')) :
    Call.Leaves i q s (.produce roomId peerId transportId kind point work) s' c' := by
  obtain ⟨⟨sfu, point'⟩, hr, heq⟩ := Option.map_eq_some_iff.1 hstep
  cases heq
  obtain ⟨-, -, hsfu⟩ := Sfu.Produce.step_cases hr
  have hrank := Sfu.Produce.rank_lt_of_step hr
  have hrooms : Sfu.Orderly (q.set i sfu (.removePeer "" "" true)) := by
    rcases hsfu with rfl | ⟨r, object, transport, rfl⟩
    · rwa [← hworld, ← hcall, Pool.set, Function.update_eq_self]
    · rw [← hworld]
      refine hq.updatePeer hcall (fun _ => rfl) (fun _ => rfl) fun _ direction => ?_
      cases direction <;> rfl
  have hmoved : ({ s with sfu } : State Ref δ).InHand := h.congr rfl
  have hquiet : s.Enters i { s with sfu } .none := ⟨hmoved, .of_tap rfl, trivial⟩
  dsimp only
  split
  · next r object transport producer =>
    split
    · exact of_entered hrooms hquiet hrank (.inr ⟨producer, rfl⟩)
    · next room hroom =>
      have hentered := hmoved.tapProducer (hstarting rfl object) room (sfu.room room).id peerId
        { kind := kind, transport := transport }
      refine of_entered ?_ (hentered.trans (.of_tap rfl)) hrank (.inr ⟨producer, rfl⟩)
      rwa [State.sfu_tapProducer]
  · exact of_entered hrooms hquiet hrank (.inl rfl)

/-- A call that goes on inside the recording service. -/
theorem works {c : Call Ref} (hq : Sfu.Orderly q) (hsame : q.set i s'.sfu c'.rooms = q)
    (h : s.InHand) (htap : s'.tap = s.tap) (hhandles : s'.Handles c'.work)
    (hrecording : c'.recording = true) (hrank : c'.rank < c.rank) :
    Call.Leaves i q s c s' c' :=
  ⟨by rwa [hsame], ⟨h.congr htap, .of_tap htap, hhandles⟩, fun _ => hrecording, hrank⟩

theorem of_meetings {c : Call Ref} {meetings : List Meeting}
    (h : Call.Leaves i q { s with meetings := meetings } c s' c') : Call.Leaves i q s c s' c' :=
  ⟨h.rooms, h.enters.trans (.of_tap rfl), h.recording, h.rank⟩

end Call.Leaves

omit [DecidableEq Ref] in
theorem State.handles_of_work {s s' : State Ref δ} {ok : Bool} {work work' : Work Ref}
    (h : s.work ok work = some (s', .inl work')) :
    s'.Handles work' ∧ work'.rank < work.rank := by
  cases work with
  | none => cases h
  | taps taps =>
      obtain ⟨result, -, heq⟩ := Option.map_eq_some_iff.1 h
      cases heq
  | stops r closings =>
      obtain ⟨result, -, heq⟩ := Option.map_eq_some_iff.1 h
      cases result <;> cases heq
      exact ⟨trivial, Nat.lt_succ_self 2⟩
  | mkdir meeting =>
      cases ok <;> cases h
      exact ⟨trivial, Nat.one_lt_two⟩
  | writeFile meeting => cases ok <;> cases h

/-! ## The process -/

/-- Whatever is waited for is under way. -/
structure Process.InHand (p : Process Ref δ) : Prop where
  rooms : Sfu.Orderly p.rooms
  taps : p.world.InHand
  untapped : p.Untapped
  handles : ∀ i, p.world.Handles (p.proc i).work
  recording : ∀ i, (p.proc i).work ≠ .none → (p.proc i).recording = true

namespace Process.InHand

variable {env : Env δ} {p p' : Process Ref δ} {i : Ref} {ok : Bool} {s' : State Ref δ}
  {c' : Call Ref}

omit [DecidableEq Ref] in
theorem rooms_start (workers : List Sfu.Worker) (requests : Ref → Request Ref) :
    Sfu.Orderly (Process.start (.spawned workers) requests : Process Ref δ).rooms := by
  have hbegins i : (requests i).call.rooms.creating = none ∧
      (requests i).call.rooms.stopping = none ∧
      (requests i).call.rooms.askedRoom = none ∧ (requests i).call.rooms.awaits = none := by
    cases requests i with
    | mediaRooms request => cases request <;> exact ⟨rfl, rfl, rfl, rfl⟩
    | produce => exact ⟨rfl, rfl, rfl, rfl⟩
  refine ⟨⟨⟨nofun, fun i roomId h => ?_, nofun, fun i roomId r h => ?_⟩,
    (Sfu.TransportRegistry.spawned workers fun _ => .getOrCreateRoom "").wired,
    fun _ _ => rfl, nofun, fun i r h => ?_⟩, fun i roomId creation h => ?_, nofun⟩
  · exact nomatch (hbegins i).1.symm.trans h
  · exact nomatch (hbegins i).2.1.symm.trans h
  · exact nomatch (hbegins i).2.2.1.symm.trans h
  · exact nomatch (hbegins i).2.2.2.symm.trans h

omit [DecidableEq Ref] in
theorem start (workers : List Sfu.Worker) (requests : Ref → Request Ref) :
    (Process.start (.spawned workers) requests : Process Ref δ).InHand where
  rooms := rooms_start workers requests
  taps := .unrecorded _
  untapped := .start _ requests
  handles i := by
    cases hr : requests i <;> simp [Process.start, Request.call, hr, Call.work, State.Handles]
  recording i h := by
    cases hr : requests i <;> simp [Process.start, Request.call, hr, Call.work] at h

theorem leaves (h : p.InHand) (hstep : (p.proc i).step i ok p.world = some (s', c')) :
    Call.Leaves i p.rooms p.world (p.proc i) s' c' := by
  have hcall : p.rooms.proc i = (p.proc i).rooms := rfl
  have hsame (sfu : Sfu.State Ref) (hsfu : sfu = p.world.sfu) :
      p.rooms.set i sfu (p.proc i).rooms = p.rooms := by
    rw [hsfu, ← hcall, Pool.set, Function.update_eq_self]
    rfl
  have hstarting := h.untapped i
  have hrecording := h.recording i
  generalize p.proc i = c at hstep hcall hsame hstarting hrecording
  cases c with
  | mediaRooms call work =>
      by_cases hnone : work = .none
      · subst hnone
        exact .stepMediaRooms h.rooms rfl hcall h.taps hstarting hstep
      · rw [Call.step_mediaRooms hnone] at hstep
        obtain ⟨⟨s₁, r⟩, hwork, hr⟩ := Option.bind_eq_some_iff.1 hstep
        obtain ⟨meetings, rfl⟩ := Call.work_cases hwork
        cases r with
        | inl work' =>
            cases hr
            obtain ⟨hhandles, hrank⟩ := State.handles_of_work hwork
            exact .works h.rooms (hsame _ rfl) h.taps rfl hhandles (hrecording hnone)
              (Nat.add_lt_add_left hrank _)
        | inr result =>
            have hmoved : ({ p.world with meetings } : State Ref δ).InHand := h.taps.congr rfl
            exact .of_meetings (s := p.world) (.stepMediaRooms (s := { p.world with meetings })
              h.rooms rfl hcall hmoved hstarting hr)
  | produce roomId peerId transportId kind point work =>
      by_cases hnone : work = .none
      · subst hnone
        exact .stepProduce h.rooms rfl hcall h.taps hstarting hstep
      · rw [Call.step_produce hnone] at hstep
        obtain ⟨⟨s₁, r⟩, hwork, hr⟩ := Option.bind_eq_some_iff.1 hstep
        obtain ⟨meetings, rfl⟩ := Call.work_cases hwork
        cases r with
        | inl work' =>
            cases hr
            obtain ⟨hhandles, hrank⟩ := State.handles_of_work hwork
            refine .works h.rooms (hsame _ rfl) h.taps rfl hhandles ?_
              (Nat.add_lt_add_left hrank _)
            have hgone := hrecording hnone
            cases point <;> first | rfl | cases hgone
        | inr result =>
            have hmoved : ({ p.world with meetings } : State Ref δ).InHand := h.taps.congr rfl
            exact .of_meetings (s := p.world) (.stepProduce (s := { p.world with meetings })
              h.rooms rfl hcall hmoved hstarting hr)

/-- A step of a call. -/
theorem call (h : p.InHand) (hstep : (p.proc i).step i ok p.world = some (s', c'))
    (huntapped : Process.Untapped (p.set i s' c')) : Process.InHand (p.set i s' c') := by
  obtain ⟨hrooms, henters, hrecording, -⟩ := h.leaves hstep
  refine ⟨?_, henters.inHand, huntapped, fun j => ?_, fun j hj => ?_⟩
  · rwa [rooms_set]
  · rw [Pool.set_proc, Pool.set_world]
    split
    · exact henters.handles
    · exact (h.handles j).adds henters.adds
  · rw [Pool.set_proc] at hj ⊢
    split at hj
    · next heq =>
      rw [if_pos heq]
      exact hrecording hj
    · next hne =>
      rw [if_neg hne]
      exact h.recording j hj

omit [DecidableEq Ref] in
/-- A step of anything else. -/
theorem world (h : p.InHand) (hsfu : s'.sfu = p.world.sfu)
    (hs : s'.InHand ∧ p.world.Adds (fun _ => False) s')
    (huntapped : Process.Untapped { p with world := s' }) :
    Process.InHand { p with world := s' } := by
  refine ⟨?_, hs.1, huntapped, fun i => (h.handles i).adds hs.2, h.recording⟩
  change Sfu.Orderly ⟨s'.sfu, _⟩
  rw [hsfu]
  exact h.rooms

theorem preserves (env : Env δ) :
    (process env : System (Process Ref δ) _).Preserves (fun _ _ => True) Process.InHand := by
  intro p a p' h _ hstep
  have huntapped := Process.Untapped.preserves env h.untapped trivial hstep
  cases a with
  | call i ok =>
      obtain ⟨⟨s', c'⟩, hcall, rfl⟩ := Option.map_eq_some_iff.1 hstep
      exact h.call hcall huntapped
  | tap t ok =>
      obtain ⟨s', hs, rfl⟩ := Option.map_eq_some_iff.1 hstep
      obtain ⟨tap, htap, htapStep⟩ := State.tapStep_cases hs
      exact h.world htapStep.sfu (h.taps.tapStep htap htapStep) huntapped
  | message t msg =>
      obtain ⟨s', hs, rfl⟩ := Option.map_eq_some_iff.1 hstep
      exact h.world (State.sfu_message hs) (h.taps.message hs) huntapped
  | written t k =>
      obtain ⟨s', hs, rfl⟩ := Option.map_eq_some_iff.1 hstep
      exact h.world (State.sfu_written hs) (h.taps.written hs) huntapped
  | close t ok =>
      obtain ⟨s', hs, rfl⟩ := Option.map_eq_some_iff.1 hstep
      exact h.world (State.sfu_closeStep hs) (h.taps.closeStep hs) huntapped
  | producerclose t =>
      obtain ⟨s', hs, rfl⟩ := Option.map_eq_some_iff.1 hstep
      have hstops : p.world.Stops True s' := State.producerclose_stops hs
      exact h.world (State.sfu_producerclose hs)
        ⟨h.taps.stops hstops, h.taps.adds_stops hstops⟩ huntapped
  | socketError t =>
      obtain ⟨s', hs, rfl⟩ := Option.map_eq_some_iff.1 hstep
      have hstops : p.world.Stops True s' := State.socketError_stops hs
      exact h.world (State.sfu_socketError hs)
        ⟨h.taps.stops hstops, h.taps.adds_stops hstops⟩ huntapped

end Process.InHand

/-! ## Somebody can go on -/

namespace State.InHand

variable {env : Env δ} {s : State Ref δ}

theorem close_of_inFlight (h : s.InHand) {t : TapId Ref} {tap : Tap Ref δ}
    (htap : s.tap t = some tap) (hflight : tap.closing.inFlight = true) :
    (s.closeStep t false).isSome := by
  have hsound := h.sound t tap htap
  have hsession : tap.session ≠ none := by
    intro hnone
    rw [hsound.closing hnone] at hflight
    cases hflight
  obtain ⟨session, hsession'⟩ := Option.ne_none_iff_exists'.1 hsession
  obtain ⟨handle, hhandle⟩ := Option.ne_none_iff_exists'.1 (hsound.file (.inr hsession))
  cases hclosing : tap.closing with
  | riffSize | dataSize | close =>
      simp [State.closeStep, htap, hsession', hhandle, hclosing]
  | no | closed | threw | abandoned =>
      rw [hclosing] at hflight
      cases hflight

/-- A closing that is awaited has settled or goes on. -/
theorem stopped_or_close (h : s.InHand) {closing : Option (TapId Ref)}
    (hsettles : s.Settles closing) :
    (s.stopped closing).isSome ∨ ∃ t, (s.closeStep t false).isSome := by
  cases closing with
  | none => exact .inl rfl
  | some t =>
      obtain ⟨tap, htap, hbegun⟩ := hsettles t rfl
      cases hclosing : tap.closing with
      | closed | threw => exact .inl (by simp [State.stopped, htap, hclosing])
      | riffSize | dataSize | close =>
          exact .inr ⟨t, h.close_of_inFlight htap (by rw [hclosing]; rfl)⟩
      | no | abandoned =>
          rw [hclosing] at hbegun
          cases hbegun

theorem tap_or_close (env : Env δ) (h : s.InHand) {t : TapId Ref} {tap : Tap Ref δ}
    (htap : s.tap t = some tap) (hflight : tap.point.inFlight = true) :
    (s.tapStep env t false).isSome ∨ ∃ t', (s.closeStep t' false).isSome := by
  have hfile := (h.sound t tap htap).file
  have hsettles := h.settles t tap htap
  cases hpoint : tap.point with
  | stopPeerRecording closing | cleanUp closing =>
      rw [hpoint] at hsettles
      refine (h.stopped_or_close hsettles).imp_left fun hstopped => ?_
      simpa [State.tapStep, htap, hpoint, TapPoint.closing] using hstopped
  | mkdir | createPlainTransport | consume | «open» | startRecordingSession | connect =>
      exact .inl (by simp [State.tapStep, htap, hpoint])
  | writeHeader | bind =>
      obtain ⟨handle, hhandle⟩ := Option.ne_none_iff_exists'.1 (hfile (.inl (by rw [hpoint]; rfl)))
      exact .inl (by simp [State.tapStep, htap, hpoint, hhandle])
  | returned | threw =>
      rw [hpoint] at hflight
      cases hflight

omit [DecidableEq Ref] in
theorem mem_none_of_all {outcomes : List (Option Bool)} (h : State.all outcomes = none) :
    none ∈ outcomes := by
  unfold State.all at h
  split at h
  · cases h
  · split at h
    · assumption
    · cases h

/-- A call in the recording service goes on, or something that it waits for does. -/
theorem work_or (h : s.InHand) {work : Work Ref} (hhandles : s.Handles work)
    (hwork : work ≠ .none) :
    (s.work false work).isSome ∨ (∃ t, (s.tapStep env t false).isSome) ∨
      ∃ t, (s.closeStep t false).isSome := by
  cases work with
  | none => exact (hwork rfl).elim
  | taps taps =>
      cases hall : State.all (taps.map s.tapped) with
      | some result => exact .inl (by simp [State.work, hall])
      | none =>
          obtain ⟨t, ht, htapped⟩ := List.mem_map.1 (mem_none_of_all hall)
          obtain ⟨tap, htap⟩ := Option.ne_none_iff_exists'.1 (hhandles t ht)
          refine .inr ((h.tap_or_close env htap ?_).imp_left fun hstep => ⟨t, hstep⟩)
          unfold State.tapped at htapped
          rw [htap] at htapped
          cases hpoint : tap.point <;> simp [TapPoint.inFlight, hpoint] at htapped ⊢
  | stops r closings =>
      cases hall : State.all (closings.map s.stopped) with
      | some result => exact .inl (by simp [State.work, hall])
      | none =>
          obtain ⟨closing, hclosing, hstopped⟩ := List.mem_map.1 (mem_none_of_all hall)
          refine .inr (.inr ((h.stopped_or_close (hhandles closing hclosing)).resolve_left ?_))
          simp [hstopped]
  | mkdir | writeFile => exact .inl rfl

end State.InHand

theorem TapStep.inFlight {env : Env δ} {s s' : State Ref δ} {t : TapId Ref} {tap : Tap Ref δ}
    {ok : Bool} (h : TapStep env s t tap ok s') : tap.point.inFlight = true := by
  cases h with
  | passed hpasses =>
      generalize tap.point = before at hpasses
      cases hpasses <;> rfl
  | named hpoint | created hpoint | consumed hpoint | notConsumed hpoint | opened hpoint
  | headed hpoint | bound hpoint | started hpoint | connected hpoint | notConnected hpoint =>
      rw [hpoint]
      rfl

theorem CloseStep.inFlight {s s' : State Ref δ} {t : TapId Ref} {tap : Tap Ref δ}
    {session : RecordingSession δ} {handle : FileHandle} {ok : Bool}
    (h : CloseStep s t tap session handle ok s') : tap.closing.inFlight = true := by
  cases h with
  | riffSize hclosing | dataSize hclosing | close hclosing =>
      rw [hclosing]
      rfl
  | failed hclosing => rcases hclosing with hclosing | hclosing | hclosing <;> rw [hclosing] <;> rfl

/-- What the process does by itself, as soon as what it waits for has been answered. -/
def Happening.own : Happening Ref → Prop
  | .call .. | .tap .. | .close .. => True
  | .message .. | .written .. | .producerclose .. | .socketError .. => False

/-- Every call has returned or thrown, and no tap and no closing is in flight. -/
structure Process.Settled (p : Process Ref δ) : Prop where
  call : ∀ i, (p.proc i).settled = true
  tap : ∀ t tap, p.world.tap t = some tap →
    tap.point.inFlight = false ∧ tap.closing.inFlight = false

namespace Process.InHand

variable {env : Env δ} {p : Process Ref δ}

theorem enabled_of_tap {t : TapId Ref} (h : (p.world.tapStep env t false).isSome) :
    (process env).Enabled Happening.own p :=
  ⟨.tap t false, trivial, by simpa [process, Process.step] using h⟩

theorem enabled_of_close {t : TapId Ref} (h : (p.world.closeStep t false).isSome) :
    (process env).Enabled Happening.own p :=
  ⟨.close t false, trivial, by simpa [process, Process.step] using h⟩

theorem enabled_of_call (i : Ref) (ok : Bool) (h : ((p.proc i).step i ok p.world).isSome) :
    (process env).Enabled Happening.own p :=
  ⟨.call i ok, trivial, by simpa [process, Process.step] using h⟩

/-- The call that a pending creation waits for can go on. -/
theorem enabled_of_pending (h : p.InHand) {roomId : RoomId} {creation : Ref}
    (hpending : p.world.sfu.pendingRooms roomId = some creation) :
    (process env).Enabled Happening.own p := by
  have hcreating := h.rooms.pending roomId creation hpending
  change (p.proc creation).rooms.creating = some roomId at hcreating
  have hrecording := h.recording creation
  refine enabled_of_call creation true ?_
  generalize p.proc creation = c at hcreating hrecording
  cases c with
  | produce => cases hcreating
  | mediaRooms call work =>
      cases call with
      | getOrCreateRoom roomId' point =>
          cases point with
          | createRouter worker =>
              by_cases hnone : work = .none
              · subst hnone
                rfl
              · cases hrecording hnone
          | call | pending | returned | threw => cases hcreating
      | createTransport | removePeer | startRecording | stopRecording | closeRoom =>
          cases hcreating

theorem enabled_of_unsettled (h : p.InHand) {i : Ref} (hcall : (p.proc i).settled = false) :
    (process env).Enabled Happening.own p := by
  have hawaited := h.rooms.awaited i
  change ∀ roomId creation, (p.proc i).rooms.awaits = some (roomId, creation) → _ at hawaited
  have hhandles := h.handles i
  have hrecording := h.recording i
  by_cases hnone : (p.proc i).work = .none
  · by_cases hstuck : ∃ roomId creation, (p.proc i).rooms.awaits = some (roomId, creation) ∧
        p.world.sfu.creation creation = none
    · obtain ⟨roomId, creation, hawaits, hunsettled⟩ := hstuck
      exact h.enabled_of_pending ((hawaited roomId creation hawaits).resolve_left
        fun hsettled => hsettled hunsettled)
    · have hstep : ∃ ok, ((p.proc i).step i ok p.world).isSome := by
        generalize p.proc i = c at hcall hnone hstuck
        cases c with
        | mediaRooms call work =>
            obtain rfl : work = .none := hnone
            obtain ⟨ok, hok⟩ := call.exists_step i hcall fun roomId creation hawaits hunsettled =>
              hstuck ⟨roomId, creation, hawaits, hunsettled⟩
            exact ⟨ok, by simpa [Call.step, Call.stepMediaRooms] using hok⟩
        | produce roomId peerId transportId kind point work =>
            obtain rfl : work = .none := hnone
            obtain ⟨ok, hok⟩ := Sfu.Produce.exists_step i roomId peerId transportId kind
              p.world.sfu hcall
            exact ⟨ok, by simpa [Call.step, Call.stepProduce] using hok⟩
      obtain ⟨ok, hok⟩ := hstep
      exact enabled_of_call i ok hok
  · rcases h.taps.work_or hhandles hnone with hwork | ⟨t, ht⟩ | ⟨t, ht⟩
    · refine enabled_of_call i false ?_
      replace hrecording := hrecording hnone
      obtain ⟨⟨s', r⟩, hr⟩ := Option.isSome_iff_exists.1 hwork
      generalize p.proc i = c at hnone hr hrecording
      cases c with
      | mediaRooms call work =>
          change work ≠ .none at hnone
          change p.world.work false work = _ at hr
          rw [Call.step_mediaRooms hnone, hr]
          cases r with
          | inl work' => rfl
          | inr result =>
              have hgoes := call.step_of_recording (s := s'.sfu) i result hrecording
              simpa [Call.stepMediaRooms] using hgoes
      | produce roomId peerId transportId kind point work =>
          change work ≠ .none at hnone
          change p.world.work false work = _ at hr
          rw [Call.step_produce hnone, hr]
          cases r with
          | inl work' => rfl
          | inr result =>
              cases point with
              | tapProducer => rfl
              | call | transportProduce | returned | threw => cases hrecording
    · exact enabled_of_tap ht
    · exact enabled_of_close ht

theorem settled_or_enabled (h : p.InHand) :
    p.Settled ∨ (process env).Enabled Happening.own p := by
  by_contra hnot
  obtain ⟨hunsettled, hdisabled⟩ := not_or.1 hnot
  refine hunsettled ⟨fun i => ?_, fun t tap htap => ⟨?_, ?_⟩⟩
  · exact Bool.of_not_eq_false fun hcall => hdisabled (h.enabled_of_unsettled hcall)
  · refine Bool.of_not_eq_true fun hflight => hdisabled ?_
    rcases h.taps.tap_or_close env htap hflight with hstep | ⟨t', hstep⟩
    · exact enabled_of_tap hstep
    · exact enabled_of_close hstep
  · exact Bool.of_not_eq_true fun hflight =>
      hdisabled (enabled_of_close (h.taps.close_of_inFlight htap hflight))

/-- A call that has come to its end is not in the recording service any more. -/
theorem step_of_settled (h : p.InHand) {i : Ref} {ok : Bool} (hcall : (p.proc i).settled = true) :
    (p.proc i).step i ok p.world = none := by
  have hrecording := h.recording i
  generalize p.proc i = c at hcall hrecording
  cases c with
  | mediaRooms call work =>
      have hnone : work = .none := by
        by_contra hwork
        have hgone : call.recording = true := hrecording hwork
        have hsettled : call.settled = true := hcall
        rw [call.settled_of_recording hgone] at hsettled
        cases hsettled
      subst hnone
      simp [Call.step, Call.stepMediaRooms, call.settled_step hcall]
  | produce roomId peerId transportId kind point work =>
      have hnone : work = .none := by
        by_contra hwork
        have hgone := hrecording hwork
        cases point with
        | tapProducer => cases hcall
        | call | transportProduce | returned | threw => cases hgone
      subst hnone
      cases point with
      | returned | threw => rfl
      | call | transportProduce | tapProducer => cases hcall

theorem settled_iff (h : p.InHand) : p.Settled ↔ ¬ (process env).Enabled Happening.own p := by
  refine ⟨?_, h.settled_or_enabled.resolve_right⟩
  rintro hsettled ⟨a, hown, henabled⟩
  obtain ⟨p', hstep⟩ := Option.isSome_iff_exists.1 henabled
  cases a with
  | call i ok =>
      obtain ⟨r, hcall, -⟩ := Option.map_eq_some_iff.1 hstep
      cases (h.step_of_settled (hsettled.call i)).symm.trans hcall
  | tap t ok =>
      obtain ⟨s', hs, -⟩ := Option.map_eq_some_iff.1 hstep
      obtain ⟨tap, htap, htapStep⟩ := State.tapStep_cases hs
      cases htapStep.inFlight.symm.trans (hsettled.tap t tap htap).1
  | close t ok =>
      obtain ⟨s', hs, -⟩ := Option.map_eq_some_iff.1 hstep
      obtain ⟨tap, session, handle, htap, -, -, hclose⟩ := State.closeStep_cases hs
      cases hclose.inFlight.symm.trans (hsettled.tap t tap htap).2
  | message | written | producerclose | socketError => exact hown

end Process.InHand

/-- In every reachable state, nothing in the sfu can go on only if every call, every tap and
every closing has come to its end. -/
theorem process_progress (env : Env δ) (workers : List Sfu.Worker) (requests : Ref → Request Ref)
    (schedule : List (Happening Ref)) :
    (process env).Holds (fun p => p.Settled ↔ ¬ (process env).Enabled Happening.own p)
      (Process.start (.spawned workers) requests) schedule :=
  System.Meets.holds (Process.InHand.preserves env) (fun _ h => h.settled_iff)
    (Process.InHand.start workers requests) (System.meets_of_forall fun _ _ _ => trivial)

end MeetServer.Recording
