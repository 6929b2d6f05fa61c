import Mathlib.Data.DFinsupp.WellFounded
import MeetServer.Foundation.Progress
import MeetServer.Realtime.Waits

/-!
# Signaling calls that can go on

`Unblocked` says of the promises that the instances and the nodes keep that the
call that settles them is under way.  Hence a call that has not settled can go
on or waits for one that can.
-/

namespace MeetServer.Realtime

open MeetServer.Foundation

variable {ι κ : Type}

variable [DecidableEq ι] [DecidableEq κ]

/-! ## Promises -/

/-- The promises of the nodes are as before. -/
def World.NodePromises (roomId : RoomId) (w w' : World ι κ) : Prop :=
  ∀ url, (w'.sfu url).pendingRooms roomId = (w.sfu url).pendingRooms roomId ∧
    (w'.sfu url).creation = (w.sfu url).creation

namespace World.NodePromises

variable {roomId : RoomId} {w w' : World ι κ}

omit [DecidableEq ι] [DecidableEq κ]

theorem of_sfu (hsfu : w'.sfu = w.sfu) : w.NodePromises roomId w' := by
  intro url
  rw [hsfu]
  exact ⟨rfl, rfl⟩

theorem setSfu {url : Url} {node : Sfu.State (ι ⊕ κ)}
    (hpending : node.pendingRooms = (w.sfu url).pendingRooms)
    (hcreation : node.creation = (w.sfu url).creation) :
    w.NodePromises roomId (w.setSfu url node) := by
  intro url'
  rw [World.sfu_setSfu]
  split
  · next heq => simp [heq, hpending, hcreation]
  · exact ⟨rfl, rfl⟩

end World.NodePromises

/-- What a call waits for on its instance has settled or is the pending creation. -/
def Awaited (w : World ι κ) (rooming : ι → Option (Instance × GetOrCreateRoom ι κ)) : Prop :=
  ∀ i instanceId creation, rooming i = some (instanceId, .pending creation) →
    w.creation creation ≠ none ∨ w.pendingRooms instanceId = some creation

/-- The same on the nodes, where the pending creation belongs to a request that waits for the
router. -/
structure NodeCreations (roomId : RoomId) (w : World ι κ)
    (put : ι → Option (Url × Sfu.GetOrCreateRoom (ι ⊕ κ))) : Prop where
  pending : ∀ url creation, (w.sfu url).pendingRooms roomId = some creation →
    ∃ i worker, creation = .inl i ∧ put i = some (url, .createRouter worker)
  creating : ∀ i url worker, put i = some (url, .createRouter worker) →
    (w.sfu url).pendingRooms roomId = some (.inl i)
  awaited : ∀ i url creation, put i = some (url, .pending creation) →
    (w.sfu url).creation creation ≠ none ∨ (w.sfu url).pendingRooms roomId = some creation

/-- Whoever waits for a promise of an instance or of a node is going to be served. -/
structure Unblocked (roomId : RoomId) (s : Calls ι κ) : Prop where
  creations : Creations s.world fun i => (s.proc i).rooming
  awaited : Awaited s.world fun i => (s.proc i).rooming
  puts : NodeCreations roomId s.world fun i => (s.proc i).put
  sound : ∀ i, (s.proc i).sound = true

section Step

variable {roomId : RoomId} {w w' : World ι κ} {i : ι} {instanceId : Instance}
  {rooming rooming' : ι → Option (Instance × GetOrCreateRoom ι κ)}
  {put put' : ι → Option (Url × Sfu.GetOrCreateRoom (ι ⊕ κ))}

omit [DecidableEq ι] [DecidableEq κ] in
theorem Awaited.frame (h : Awaited w rooming) (hpending : w'.pendingRooms = w.pendingRooms)
    (hcreation : w'.creation = w.creation) : Awaited w' rooming := by
  intro i instanceId creation hi
  rw [hpending, hcreation]
  exact h i instanceId creation hi

theorem Awaited.step {ok : Bool} {point point' : GetOrCreateRoom ι κ} (h : Awaited w rooming)
    (hcreations : Creations w rooming) (hi : rooming i = some (instanceId, point))
    (hs : GetOrCreateRoom.Step i instanceId roomId w ok point w' point')
    (hrooming : ∀ j, j = i ∨ rooming' j = rooming j)
    (hi' : rooming' i = some (instanceId, point') ∨ rooming' i = none) : Awaited w' rooming' := by
  have hcreating := hcreations.creating i instanceId point hi
  intro j instanceId' creation hj
  by_cases hji : j = i
  · subst hji
    rcases hi' with hi' | hi'
    · obtain ⟨rfl, rfl⟩ := Prod.mk.inj (Option.some.inj (hi'.symm.trans hj))
      cases hs with
      | waits _ hpending => exact .inr hpending
    · cases hi'.symm.trans hj
  · have hold := h j instanceId' creation (by rw [← (hrooming j).resolve_left hji]; exact hj)
    cases hs with
    | begins | unserved =>
        simp only [World.beginCreation, World.settleCreation, Function.update_apply]
        grind
    | unreachable | unanswered | recorded | unrecorded =>
        have hown := hcreating rfl
        simp only [World.settleCreation, World.setRedis, Function.update_apply]
        grind
    | _ => exact hold

omit [DecidableEq ι] [DecidableEq κ] in
/-- The request under way at the call itself neither was nor is one that has a promise. -/
theorem NodeCreations.idle (h : NodeCreations roomId w put) (hsame : w.NodePromises roomId w')
    (hput : ∀ j, j = i ∨ put' j = put j)
    (hi : ∀ url worker, put i ≠ some (url, .createRouter worker))
    (hi' : ∀ url request, put' i = some (url, request) → request = .call) :
    NodeCreations roomId w' put' := by
  obtain ⟨hp, hc, ha⟩ := h
  obtain ⟨hpending, hcreation⟩ := forall_and.1 hsame
  constructor <;> grind

theorem NodeCreations.step {ok : Bool} {url : Url} {request request' : Sfu.GetOrCreateRoom (ι ⊕ κ)}
    {node : Sfu.State (ι ⊕ κ)} (h : NodeCreations roomId w put)
    (hstep : request.step (.inl i) roomId ok (w.sfu url) = some (node, request'))
    (hput : ∀ j, j = i ∨ put' j = put j) (hi : put i = some (url, request))
    (hi' : put' i = some (url, request')) : NodeCreations roomId (w.setSfu url node) put' := by
  obtain ⟨hp, hc, ha⟩ := h
  have hpending (url' : Url) : ((w.setSfu url node).sfu url').pendingRooms roomId =
      if url' = url then node.pendingRooms roomId else (w.sfu url').pendingRooms roomId := by
    rw [World.sfu_setSfu]
    split <;> rfl
  have hcreation (url' : Url) : ((w.setSfu url node).sfu url').creation =
      if url' = url then node.creation else (w.sfu url').creation := by
    rw [World.sfu_setSfu]
    split <;> rfl
  generalize w.setSfu url node = w' at hpending hcreation
  cases Sfu.GetOrCreateRoom.step_cases hstep with
  | «local» hl => exact hl.elim
  | reserved | created | rejected =>
      simp only [Sfu.State.beginCreation, Sfu.State.settleCreation, Sfu.State.addRoom,
        Sfu.State.releaseWorker, Function.update_self] at hpending hcreation
      constructor <;> simp only [hpending, hcreation] <;> grind
  | _ => constructor <;> grind

/-- A request that is under way goes on; or no promise of a node is touched. -/
theorem GetOrCreateRoom.put_cases {event : Event} {point point' : GetOrCreateRoom ι κ}
    (h : point.step i instanceId roomId event w = some (w', point')) :
    (∃ url request ok node request', point = .createOrGetMediaRoom url request ∧
        request.step (.inl i) roomId ok (w.sfu url) = some (node, request') ∧
        w' = w.setSfu url node ∧ point' = .createOrGetMediaRoom url request') ∨
      (∀ url worker, point ≠ .createOrGetMediaRoom url (.createRouter worker)) ∧
        w'.sfu = w.sfu ∧ ∀ url request, point' = .createOrGetMediaRoom url request →
          request = .call := by
  have hs := step_cases h
  generalize event.ok = ok at hs
  cases hs with
  | put hnode => exact .inl ⟨_, _, _, _, _, rfl, hnode, rfl, rfl⟩
  | @unanswered _ url request hover =>
      refine .inr ⟨?_, rfl, by simp⟩
      rintro _ worker ⟨⟩
      cases event with
      | settle ok =>
          -- the node still answers
          obtain ⟨r, -, heq⟩ := Option.map_eq_some_iff.1 h
          simp at heq
      | stats | closeRoom | deleteRoomHistory => cases h
  | _ => exact .inr ⟨by simp, rfl, by simp⟩

end Step

namespace Unblocked

variable {roomId : RoomId} {s : Calls ι κ} {i : ι} {event : Event} {w' : World ι κ}

omit [DecidableEq κ] in
/-- A call that is not within `getOrCreateRoom` and does not get there. -/
theorem outside {c' : Call ι κ} (h : Unblocked roomId s)
    (hpending : w'.pendingRooms = s.world.pendingRooms)
    (hcreation : w'.creation = s.world.creation) (hnodes : s.world.NodePromises roomId w')
    (hrooming : (s.proc i).rooming = none) (hrooming' : c'.rooming = none)
    (hput : (s.proc i).put = none) (hput' : c'.put = none) (hsound : c'.sound = true) :
    Unblocked roomId (s.set i w' c') where
  creations := by
    rw [s.comp_set_proc (f := Call.rooming) (hrooming'.trans hrooming.symm)]
    exact h.creations.frame hpending hcreation
  awaited := by
    rw [s.comp_set_proc (f := Call.rooming) (hrooming'.trans hrooming.symm)]
    exact h.awaited.frame hpending hcreation
  puts := by
    rw [s.comp_set_proc (f := Call.put) (hput'.trans hput.symm)]
    exact h.puts.idle (i := i) hnodes (fun _ => .inr rfl) (by simp [hput]) (by simp [hput])
  sound j := by
    rw [Pool.set_proc]
    split
    · exact hsound
    · exact h.sound j

omit [DecidableEq ι] [DecidableEq κ] in
theorem put_afterGetOrCreateRoom {instanceId : Instance} {peer : Peer}
    {point : GetOrCreateRoom ι κ} {url : Url} {request : Sfu.GetOrCreateRoom (ι ⊕ κ)} :
    (Call.join instanceId peer (Join.afterGetOrCreateRoom point)).put = some (url, request) ↔
      point = .createOrGetMediaRoom url request := by
  cases point <;> simp [Join.afterGetOrCreateRoom, Call.put, Join.put]

theorem room_step {instanceId : Instance} {peer : Peer} {point point' : GetOrCreateRoom ι κ}
    (h : Unblocked roomId s) (hi : s.proc i = .join instanceId peer (.getOrCreateRoom point))
    (hstep : point.step i instanceId roomId event s.world = some (w', point')) :
    Unblocked roomId
      (s.set i w' (.join instanceId peer (Join.afterGetOrCreateRoom point'))) := by
  have hs := GetOrCreateRoom.step_cases hstep
  have hrooming : (s.proc i).rooming = some (instanceId, point) := by rw [hi]; rfl
  have hput (url : Url) (request : Sfu.GetOrCreateRoom (ι ⊕ κ)) :
      (s.proc i).put = some (url, request) ↔ point = .createOrGetMediaRoom url request := by
    rw [hi]
    cases point <;> simp [Call.put, Join.put]
  have hother {β : Type} (f : Call ι κ → β) (c' : Call ι κ) (j : ι) :
      j = i ∨ f ((s.set i w' c').proc j) = f (s.proc j) := by
    by_cases hj : j = i
    · exact .inl hj
    · exact .inr (by rw [Pool.set_proc_ne _ _ _ hj])
  have hafter := Call.rooming_afterGetOrCreateRoom instanceId peer point'
  refine ⟨?_, ?_, ?_, fun j => ?_⟩
  · exact h.creations.step hrooming hs (hother Call.rooming _) (by simpa using hafter)
  · exact h.awaited.step h.creations hrooming hs (hother Call.rooming _)
      (by simpa using hafter.imp_right And.left)
  · rcases GetOrCreateRoom.put_cases hstep with
      ⟨url, request, ok, node, request', rfl, hnode, rfl, rfl⟩ | ⟨hidle, hsfu, hcall⟩
    · exact h.puts.step hnode (hother Call.put _) ((hput _ _).2 rfl)
        (by rw [Pool.set_proc_self, put_afterGetOrCreateRoom])
    · refine h.puts.idle (.of_sfu hsfu) (hother Call.put _)
        (fun url worker heq => hidle url worker ((hput _ _).1 heq)) fun url request heq => ?_
      rw [Pool.set_proc_self, put_afterGetOrCreateRoom] at heq
      exact hcall url request heq
  · rw [Pool.set_proc]
    split
    · exact Join.sound_of_room hs
    · exact h.sound j

theorem step {c' : Call ι κ} (h : Unblocked roomId s)
    (hstep : (s.proc i).step roomId i event s.world = some (w', c')) :
    Unblocked roomId (s.set i w' c') := by
  have hsound := Call.sound_of_step hstep
  generalize hc : s.proc i = c at hstep
  cases c with
  | join instanceId peer point =>
      obtain ⟨⟨w', point'⟩, hr, heq⟩ := Option.map_eq_some_iff.1 hstep
      cases heq
      cases point with
      | getOrCreateRoom point =>
          obtain ⟨⟨w', point'⟩, hroom, heq⟩ := Option.map_eq_some_iff.1 hr
          cases heq
          exact h.room_step hc hroom
      | _ =>
          have hs := Join.step_cases hr
          generalize event.ok = ok at hs
          have hnext (otherPeers todo : List Peer) (found : List (ExistingProducer (ι ⊕ κ))) :
              (Join.nextProducers otherPeers todo found).rooming = none ∧
                (Join.nextProducers otherPeers todo found).put = none := by
            cases todo <;> exact ⟨rfl, rfl⟩
          cases hs <;>
            exact h.outside rfl rfl (.of_sfu rfl) (by rw [hc]; rfl)
              (by first | rfl | simp [Call.rooming, hnext]) (by rw [hc]; rfl)
              (by first | rfl | simp [Call.put, hnext]) hsound
  | leave peerId point =>
      obtain ⟨⟨w', point'⟩, hr, heq⟩ := Option.map_eq_some_iff.1 hstep
      cases heq
      have hs := Leave.step_cases hr
      generalize event.ok = ok at hs
      have hframe : w'.pendingRooms = s.world.pendingRooms ∧ w'.creation = s.world.creation ∧
          s.world.NodePromises roomId w' := by
        cases hs with
        | @sfuRemoved url =>
            have hkept := Sfu.Frame.removePeer (s.world.sfu url) roomId peerId
            exact ⟨rfl, rfl, .setSfu hkept.pendingRooms hkept.creation⟩
        | closing hclose =>
            obtain ⟨hpending, hcreation⟩ := Sfu.CloseRoom.promises_of_step hclose
            exact ⟨rfl, rfl, .setSfu hpending hcreation⟩
        | _ => exact ⟨rfl, rfl, .of_sfu rfl⟩
      exact h.outside hframe.1 hframe.2.1 hframe.2.2 (by rw [hc]; rfl) rfl (by rw [hc]; rfl) rfl
        hsound
  | createWebRtcTransport peerId direction point =>
      obtain ⟨⟨w', point'⟩, hr, heq⟩ := Option.map_eq_some_iff.1 hstep
      cases heq
      have hs := CreateWebRtcTransport.step_cases hr
      generalize event.ok = ok at hs
      have hframe : w'.pendingRooms = s.world.pendingRooms ∧ w'.creation = s.world.creation ∧
          s.world.NodePromises roomId w' := by
        cases hs with
        | post _ hpost =>
            have hkept := Sfu.CreateTransport.step_frame hpost
            exact ⟨rfl, rfl, .setSfu hkept.pendingRooms hkept.creation⟩
        | _ => exact ⟨rfl, rfl, .of_sfu rfl⟩
      exact h.outside hframe.1 hframe.2.1 hframe.2.2 (by rw [hc]; rfl) rfl (by rw [hc]; rfl) rfl
        hsound

omit [DecidableEq ι] [DecidableEq κ] in
theorem issued {w : World ι κ} (hpending : ∀ instanceId, w.pendingRooms instanceId = none)
    (hcreation : ∀ i, w.creation i = none)
    (hnodes : ∀ url, (w.sfu url).pendingRooms roomId = none) (requests : ι → Request) :
    Unblocked roomId (Calls.issued w requests) := by
  have hbegins i : ((requests i).call : Call ι κ).put = none ∧
      ((requests i).call : Call ι κ).sound = true ∧
      ∀ instanceId point, ((requests i).call : Call ι κ).rooming = some (instanceId, point) →
        point = .getRoom := by
    cases requests i
    · refine ⟨rfl, rfl, fun instanceId point h => ?_⟩
      cases h
      rfl
    · exact ⟨rfl, rfl, by rintro _ _ ⟨⟩⟩
    · exact ⟨rfl, rfl, by rintro _ _ ⟨⟩⟩
  refine ⟨⟨fun instanceId i h => ?_, fun i instanceId point h hcreating => ?_,
    fun i _ _ _ _ => hcreation i⟩, fun i instanceId creation h => ?_,
    ⟨fun url creation h => ?_, fun i url worker h => ?_, fun i url creation h => ?_⟩,
    fun i => (hbegins i).2.1⟩
  · cases (hpending instanceId).symm.trans h
  · obtain rfl := (hbegins i).2.2 instanceId point h
    cases hcreating
  · cases (hbegins i).2.2 instanceId _ h
  · cases (hnodes url).symm.trans h
  · cases (hbegins i).1.symm.trans h
  · cases (hbegins i).1.symm.trans h

theorem preserves : (signaling roomId : System (Calls ι κ) _).Preserves (fun _ _ => True)
    (Unblocked roomId) := by
  rintro s ⟨i, event⟩ s' h - hstep
  obtain ⟨w', c', hcall, rfl⟩ := Pool.step_eq_some.1 hstep
  exact h.step hcall

end Unblocked

/-! ## Progress -/

/-- Every call has settled. -/
def Calls.Settled (s : Calls ι κ) : Prop := ∀ i, (s.proc i).settled = true

/-- Some event can happen. -/
def Calls.Live (roomId : RoomId) (s : Calls ι κ) : Prop :=
  (signaling roomId).Enabled (fun _ => True) s

omit [DecidableEq ι] [DecidableEq κ] in
theorem Call.settled_of_rooming {c : Call ι κ} {instanceId : Instance}
    {point : GetOrCreateRoom ι κ} (h : c.rooming = some (instanceId, point)) :
    c.settled = false := by
  cases c with
  | join instanceId' peer point' => cases point' <;> first | rfl | cases h
  | leave | createWebRtcTransport => cases h

omit [DecidableEq ι] [DecidableEq κ] in
theorem Call.rooming_of_put {c : Call ι κ} {url : Url} {request : Sfu.GetOrCreateRoom (ι ⊕ κ)}
    (h : c.put = some (url, request)) :
    ∃ instanceId, c.rooming = some (instanceId, .createOrGetMediaRoom url request) := by
  cases c with
  | join instanceId peer point =>
      cases point with
      | getOrCreateRoom point =>
          cases point <;> cases h
          exact ⟨instanceId, rfl⟩
      | _ => cases h
  | leave | createWebRtcTransport => cases h

namespace Unblocked

variable {roomId : RoomId} {s : Calls ι κ}

theorem live_of_step {i : ι} {event : Event}
    (h : ((s.proc i).step roomId i event s.world).isSome) : s.Live roomId := by
  obtain ⟨r, hr⟩ := Option.isSome_iff_exists.1 h
  exact ⟨(i, event), trivial, Option.isSome_iff_exists.2 ⟨_, Pool.step_eq_some.2 ⟨_, _, hr, rfl⟩⟩⟩

/-- The request that a node's pending creation belongs to is waiting for a worker. -/
theorem live_of_router (h : Unblocked roomId s) {i : ι} {url : Url} {worker : Sfu.Worker}
    (hi : (s.proc i).put = some (url, .createRouter worker)) : s.Live roomId := by
  obtain ⟨instanceId, hrooming⟩ := Call.rooming_of_put hi
  rcases Call.exists_step i roomId (w := s.world) (h.sound i)
    (Call.settled_of_rooming hrooming) with
    ⟨event, hstep⟩ | ⟨_, creation, hpending, -⟩ | ⟨url', creation, hput, -⟩
  · exact live_of_step hstep
  · cases hrooming.symm.trans hpending
  · cases hi.symm.trans hput

theorem live_of_put (h : Unblocked roomId s) {i : ι} {url : Url} {creation : ι ⊕ κ}
    (hi : (s.proc i).put = some (url, .pending creation))
    (hcreation : (s.world.sfu url).creation creation = none) : s.Live roomId := by
  obtain ⟨j, worker, -, hj⟩ := h.puts.pending url creation
    ((h.puts.awaited i url creation hi).resolve_left (not_not_intro hcreation))
  exact h.live_of_router hj

theorem live_of_creating (h : Unblocked roomId s) {i : ι} {instanceId : Instance}
    {point : GetOrCreateRoom ι κ} (hi : (s.proc i).rooming = some (instanceId, point))
    (hcreating : point.creating = true) : s.Live roomId := by
  rcases Call.exists_step i roomId (w := s.world) (h.sound i) (Call.settled_of_rooming hi) with
    ⟨event, hstep⟩ | ⟨_, creation, hpending, -⟩ | ⟨url, creation, hput, hcreation⟩
  · exact live_of_step hstep
  · cases hi.symm.trans hpending
    cases hcreating
  · exact h.live_of_put hput hcreation

/-- Whoever waits, waits for a call that can go on or waits itself for one on a node. -/
theorem live (h : Unblocked roomId s) {i : ι} (hi : (s.proc i).settled = false) :
    s.Live roomId := by
  rcases Call.exists_step i roomId (w := s.world) (h.sound i) hi with
    ⟨event, hstep⟩ | ⟨instanceId, creation, hpending, hcreation⟩ |
      ⟨url, creation, hput, hcreation⟩
  · exact live_of_step hstep
  · obtain ⟨point, hpoint, hcreating⟩ := h.creations.pending instanceId creation
      ((h.awaited i instanceId creation hpending).resolve_left (not_not_intro hcreation))
    exact h.live_of_creating hpoint hcreating
  · exact h.live_of_put hput hcreation

theorem settled_or_live (h : Unblocked roomId s) : s.Settled ∨ s.Live roomId := by
  by_cases hsettled : s.Settled
  · exact .inl hsettled
  · obtain ⟨i, hi⟩ := not_forall.1 hsettled
    exact .inr (h.live (by simpa using hi))

theorem not_live_of_settled (h : s.Settled) : ¬ s.Live roomId := by
  rintro ⟨⟨i, event⟩, -, hstep⟩
  obtain ⟨s', hs'⟩ := Option.isSome_iff_exists.1 hstep
  obtain ⟨w', c', hcall, -⟩ := Pool.step_eq_some.1 hs'
  cases (Call.settled_step (h i)).symm.trans hcall

theorem settled_iff (h : Unblocked roomId s) : s.Settled ↔ ¬ s.Live roomId :=
  ⟨not_live_of_settled, h.settled_or_live.resolve_right⟩

end Unblocked

/-- No call hangs: as long as one has not settled, something can happen. -/
theorem signaling_progress (roomId : RoomId) (urls : List Url) (workers : Url → List Sfu.Worker)
    (requests : ι → Request) (labels : List (ι × Event)) :
    let s := (signaling roomId).run
      (Calls.issued (.fresh urls fun url => .spawned (workers url)) requests : Calls ι κ) labels
    s.Settled ↔ ¬ (signaling roomId).Enabled (fun _ => True) s :=
  (Unblocked.preserves.run (.issued (fun _ => rfl) (fun _ => rfl) (fun _ => rfl) requests)
    labels).settled_iff

/-- Whatever fails, all calls settle in the end if the run does not stop before. -/
theorem signaling_settles [Finite ι] (roomId : RoomId) (urls : List Url)
    (workers : Url → List Sfu.Worker) (requests : ι → Request) (schedule : ℕ → ι × Event)
    (hserves : (signaling roomId).Serves (fun _ => True)
      (Calls.issued (.fresh urls fun url => .spawned (workers url)) requests : Calls ι κ)
      schedule) :
    (signaling roomId).Eventually Calls.Settled
      (Calls.issued (.fresh urls fun url => .spawned (workers url)) requests : Calls ι κ)
      schedule := by
  refine hserves.eventually (fun s i => (s.proc i).rank) Unblocked.preserves ?_
    (fun _ h => h.settled_or_live) ?_
    (.issued (fun _ => rfl) (fun _ => rfl) (fun _ => rfl) requests)
  · rintro s ⟨i, event⟩ s' - hstep
    obtain ⟨w', c', hcall, rfl⟩ := Pool.step_eq_some.1 hstep
    have hlt : (fun j => ((s.set i w' c').proc j).rank) < fun j => (s.proc j).rank :=
      Pool.rank_set_lt (Call.rank_lt_of_step hcall)
    exact ⟨hlt.le, fun _ => hlt⟩
  · rintro s a s' - hsettled hstep -
    exact (Unblocked.not_live_of_settled hsettled
      ⟨a, trivial, Option.isSome_iff_exists.2 ⟨_, hstep⟩⟩).elim

namespace Settling

/-- Two joins on one instance; the second waits for the room that the first is creating. -/
def start : Calls Bool Empty :=
  .issued (.fresh ["http://sfu:3001"] fun _ => .spawned [0]) fun second =>
    .join 0 { id := if second then "bob" else "ada", displayName := "" }

def schedule (n : ℕ) : Bool × Event :=
  (n = 2 ∨ n = 7 ∨ 11 ≤ n, if n = 1 then .stats 0 true else .settle true)

theorem settled : ((signaling "standup").trace start schedule 15).Settled := by
  unfold Calls.Settled
  decide

theorem serves : (signaling "standup").Serves (fun _ => True) start schedule := by
  refine System.serves_of_not_enabled (n := 15) fun m hm => ?_
  have hrest : (signaling "standup").trace start schedule m =
      (signaling "standup").trace start schedule 15 := by
    refine System.trace_of_disabled (fun k hk => ?_) hm
    by_contra hstep
    exact Unblocked.not_live_of_settled settled
      ⟨schedule k, trivial, Option.isSome_iff_ne_none.2 hstep⟩
  rw [hrest]
  exact Unblocked.not_live_of_settled settled

end Settling

theorem signaling_settles_twice :
    (signaling "standup").Eventually Calls.Settled Settling.start Settling.schedule :=
  signaling_settles "standup" ["http://sfu:3001"] (fun _ => [0]) _ Settling.schedule
    Settling.serves

end MeetServer.Realtime
