import MeetServer.Recording.Orphans
import MeetServer.Sfu.Evolution

/-!
# What a step leaves alone

Only the calls work on the rooms; the taps, their sockets and their files work on
the recording alone.  A tap moves on by its own steps only, and only the call that
it is named after starts it.
-/

namespace MeetServer.Recording

open MeetServer.Foundation

variable {Ref δ : Type} [DecidableEq Ref]

theorem TapStep.sfu {env : Env δ} {s s' : State Ref δ} {t : TapId Ref} {tap : Tap Ref δ}
    {ok : Bool} (h : TapStep env s t tap ok s') : s'.sfu = s.sfu := by
  cases h with
  | notConnected => exact (State.Ends.stopPeerRecording s t.2).sfu
  | _ => rfl

namespace State

variable {env : Env δ} {s s' : State Ref δ} {t : TapId Ref}

theorem sfu_message {msg : Bytes} (h : s.message env t msg = some s') : s'.sfu = s.sfu := by
  obtain ⟨tap, session, handle, -, -, -, rfl⟩ := message_cases h
  rfl

theorem sfu_written {k : Nat} (h : s.written t k = some s') : s'.sfu = s.sfu := by
  obtain ⟨tap, handle, chunk, -, -, -, rfl⟩ := written_cases h
  rfl

theorem sfu_closeStep {ok : Bool} (h : s.closeStep t ok = some s') : s'.sfu = s.sfu := by
  obtain ⟨tap, session, handle, -, -, -, hstep⟩ := closeStep_cases h
  cases hstep <;> rfl

theorem sfu_producerclose (h : s.producerclose t = some s') : s'.sfu = s.sfu := by
  unfold producerclose at h
  split at h <;> cases h
  exact (Ends.stopPeerRecording _ t.2).sfu

theorem sfu_socketError (h : s.socketError t = some s') : s'.sfu = s.sfu := by
  unfold socketError at h
  split at h <;> cases h
  exact (s.closeRecordingSession_frame t).1

end State

/-- What is not a step of a call leaves the calls and the rooms alone. -/
theorem Process.Step.frame {env : Env δ} {p p' : Process Ref δ} {a : Happening Ref}
    (h : Process.Step env p a p') (hcall : ∀ i ok, a ≠ .call i ok) :
    p'.proc = p.proc ∧ p'.world.sfu = p.world.sfu := by
  cases h with
  | call => exact (hcall _ _ rfl).elim
  | tap _ hstep => exact ⟨rfl, hstep.sfu⟩
  | message hs => exact ⟨rfl, State.sfu_message hs⟩
  | written hs => exact ⟨rfl, State.sfu_written hs⟩
  | close hs => exact ⟨rfl, State.sfu_closeStep hs⟩
  | producerclose hs => exact ⟨rfl, State.sfu_producerclose hs⟩
  | socketError hs => exact ⟨rfl, State.sfu_socketError hs⟩

/-- A step as the call `i` sees it: its own, that of another call, or one that leaves the
calls and the rooms alone. -/
inductive Process.StepSeenBy (i : Ref) (p : Process Ref δ) :
    Happening Ref → Process Ref δ → Prop
  | own {ok : Bool} {w : State Ref δ} {c : Call Ref} :
      (p.proc i).step i ok p.world = some (w, c) →
      StepSeenBy i p (.call i ok) (p.set i w c)
  | other {j : Ref} {ok : Bool} {w : State Ref δ} {c : Call Ref} : j ≠ i →
      (p.proc j).step j ok p.world = some (w, c) →
      StepSeenBy i p (.call j ok) (p.set j w c)
  | apart {a : Happening Ref} {p' : Process Ref δ} : (∀ j ok, a ≠ .call j ok) →
      p'.proc i = p.proc i → p'.world.sfu = p.world.sfu → StepSeenBy i p a p'

theorem process_seenBy {env : Env δ} {p p' : Process Ref δ} {a : Happening Ref} (i : Ref)
    (h : (process env).step p a = some p') : p.StepSeenBy i a p' := by
  by_cases hcall : ∃ j ok, a = .call j ok
  · obtain ⟨j, ok, rfl⟩ := hcall
    obtain ⟨⟨w, c⟩, hstep, rfl⟩ := Option.map_eq_some_iff.1 h
    by_cases hj : j = i
    · subst hj
      exact .own hstep
    · exact .other hj hstep
  · simp only [not_exists] at hcall
    obtain ⟨hproc, hsfu⟩ := (process_cases h).frame hcall
    exact .apart hcall (congrFun hproc i) hsfu

namespace Call

variable {s s' : State Ref δ} {i : Ref} {ok : Bool} {c : Call Ref}

/-- A call does to the rooms what `MediaRoomsService` does. -/
theorem sfu_stepMediaRooms {call : Sfu.Call Ref}
    (h : stepMediaRooms i ok s call = some (s', c)) :
    ∃ call', call.step i ok s.sfu = some (s'.sfu, call') := by
  obtain ⟨r, hr, heq⟩ := Option.map_eq_some_iff.1 h
  cases heq
  exact ⟨r.2, by rw [hr, State.sfu_enter]⟩

theorem sfu_stepProduce {roomId : RoomId} {peerId : PeerId} {transportId : Ref}
    {kind : MediaKind} {point : Sfu.Produce Ref}
    (h : stepProduce i roomId peerId transportId kind ok s point = some (s', c)) :
    ∃ point', point.step i roomId peerId transportId kind ok s.sfu = some (s'.sfu, point') := by
  obtain ⟨r, hr, heq⟩ := Option.map_eq_some_iff.1 h
  cases heq
  refine ⟨r.2, ?_⟩
  rw [hr]
  split
  · split
    · rfl
    · rw [State.sfu_tapProducer]
  · rfl

end Call

theorem Call.Step.keyed {s s' : State Ref δ} {i : Ref} {ok : Bool} {c c' : Call Ref}
    (h : Call.Step i ok s c s' c') (hkeyed : s.sfu.Keyed) : s'.sfu.Keyed := by
  cases h with
  | mediaRoomsWorks | produceWorks => exact hkeyed
  | mediaRooms _ hstep =>
      obtain ⟨call', hcall⟩ := Call.sfu_stepMediaRooms hstep
      exact hkeyed.step hcall
  | produce hstep =>
      obtain ⟨point', hcall⟩ := Call.sfu_stepProduce hstep
      have hkeeps : Sfu.State.KeepsPeers (fun _ => False) (fun _ => False) s.sfu s'.sfu :=
        Sfu.Produce.step_keepsPeers hcall
      exact hkeeps.keyed hkeyed

/-! ## Taps that stay where they are -/

section Taps

omit [DecidableEq Ref]

/-- The tap is at the same point, with the same peer and the same name. -/
structure Tap.Unmoved (tap tap' : Tap Ref δ) : Prop where
  room : tap'.room = tap.room
  peerId : tap'.peerId = tap.peerId
  speakerName : tap'.speakerName = tap.speakerName
  point : tap'.point = tap.point

theorem Tap.Unmoved.refl (tap : Tap Ref δ) : tap.Unmoved tap := ⟨rfl, rfl, rfl, rfl⟩

theorem Tap.Unmoved.trans {tap tap' tap'' : Tap Ref δ} (h : tap.Unmoved tap')
    (h' : tap'.Unmoved tap'') : tap.Unmoved tap'' :=
  ⟨h'.room.trans h.room, h'.peerId.trans h.peerId, h'.speakerName.trans h.speakerName,
    h'.point.trans h.point⟩

theorem Tap.Stops.unmoved {A : Prop} {tap tap' : Tap Ref δ} (h : tap.Stops A tap') :
    tap.Unmoved tap' :=
  ⟨h.room, by rw [← h.same], h.speakerName, h.point⟩

namespace State

def pointOf (s : State Ref δ) (t : TapId Ref) : Option (TapPoint Ref) := (s.tap t).map Tap.point

theorem all_cases {outcomes : List (Option Bool)} {result : Bool}
    (h : all outcomes = some result) :
    if result then ∀ outcome ∈ outcomes, outcome = some true else some false ∈ outcomes := by
  unfold all at h
  split at h
  · next hfalse =>
    cases h
    exact hfalse
  · next hfalse =>
    split at h <;> cases h
    next hnone =>
      intro outcome houtcome
      match outcome with
      | none => exact (hnone houtcome).elim
      | some false => exact (hfalse houtcome).elim
      | some true => rfl

theorem tapped_eq_some_iff {s : State Ref δ} {t : TapId Ref} {result : Bool} :
    s.tapped t = some result ↔ s.pointOf t = some (if result then .returned else .threw) := by
  unfold tapped pointOf
  split
  · next h => cases result <;> simp [h]
  · next h => cases result <;> simp [h]
  · next h h' => cases result <;> simp_all

/-- The taps in `Q` are stopped at most. -/
def StopsOn (Q : TapId Ref → Prop) (s s' : State Ref δ) : Prop :=
  ∀ t, Q t → Option.Rel (Tap.Stops True) (s.tap t) (s'.tap t)

namespace StopsOn

variable {Q : TapId Ref → Prop} {s s' s'' : State Ref δ} {t : TapId Ref}

theorem of_tap (htap : ∀ t, Q t → s'.tap t = s.tap t) : s.StopsOn Q s' := by
  intro t ht
  rw [htap t ht]
  exact (Stops.refl s).tap t

theorem refl (s : State Ref δ) : s.StopsOn Q s := .of_tap fun _ _ => rfl

theorem trans (h : s.StopsOn Q s') (h' : s'.StopsOn Q s'') : s.StopsOn Q s'' :=
  fun t ht => Tap.Stops.rel_trans (h t ht) (h' t ht)

theorem of_stops (h : s.Stops True s') : s.StopsOn Q s' := fun t _ => h.tap t

theorem foldl {α β : Type} {f : State Ref δ × β → α → State Ref δ × β}
    (hf : ∀ (acc : State Ref δ × β) x, acc.1.StopsOn Q (f acc x).1) (xs : List α)
    (acc : State Ref δ × β) : acc.1.StopsOn Q (xs.foldl f acc).1 := by
  induction xs generalizing acc with
  | nil => exact .refl _
  | cons x xs ih => exact (hf acc x).trans (ih (f acc x))

variable [DecidableEq Ref]

theorem startTap (s : State Ref δ) {room : Ref} {roomId : RoomId} {peerId : PeerId}
    {producer : Sfu.Producer Ref} (ht : ¬ Q t) :
    s.StopsOn Q (s.startTap t room roomId peerId producer) := by
  have hstopped : s.StopsOn Q (s.stopPeerRecording t.2).1 :=
    .of_stops (.stopPeerRecording s t.2)
  refine hstopped.trans (of_tap fun t' ht' => ?_)
  have hne : t' ≠ t := fun heq => ht (heq ▸ ht')
  exact Function.update_of_ne hne ..

theorem setDisplayNames (s : State Ref δ) (r : Ref) (peers : List (PeerId × String)) :
    s.StopsOn Q (s.setDisplayNames r peers) := by
  unfold State.setDisplayNames
  induction peers generalizing s with
  | nil => exact .refl s
  | cons named peers ih =>
      refine trans ?_ (ih _)
      dsimp only
      split <;> exact .of_tap fun _ _ => rfl

theorem stopRoomRecording (s : State Ref δ) (r : Ref) :
    s.StopsOn Q (s.stopRoomRecording r).1 := by
  refine foldl (fun acc peer => ?_) _ (s, [])
  exact .of_stops (.stopPeerRecording acc.1 peer.object)

theorem enter (s : State Ref δ) {i : Ref} (call : Sfu.Call Ref)
    (hi : ∀ roomId peers r, call = .startRecording roomId peers (.files r) →
      ∀ t, Q t → t.1 ≠ i) : s.StopsOn Q (s.enter i call).1 := by
  unfold State.enter
  split
  · next roomId peers r =>
    refine (setDisplayNames s r peers).trans (foldl (fun acc peer => ?_) _ (_, []))
    split
    · exact .refl _
    · exact .startTap _ fun ht => hi roomId peers r rfl _ ht rfl
  · exact .stopRoomRecording s _
  · exact .stopRoomRecording s _
  · exact .refl s

theorem dropPeer (s : State Ref δ) (object : Option Ref) : s.StopsOn Q (s.dropPeer object) := by
  cases object with
  | none => exact .refl s
  | some object => exact .of_stops (.stopPeerRecordingOfRoom s object fun _ _ _ => trivial)

theorem tapProducer (s : State Ref δ) {i object room : Ref} {roomId : RoomId} {peerId : PeerId}
    {producer : Sfu.Producer Ref} (hi : ∀ t, Q t → t.1 ≠ i) :
    s.StopsOn Q (s.tapProducer i object room roomId peerId producer).1 := by
  unfold State.tapProducer
  split
  · exact .refl s
  · exact .startTap s fun ht => hi _ ht rfl

end StopsOn

/-- The taps in `Q` stay where they are. -/
def KeepsTaps (Q : TapId Ref → Prop) (s s' : State Ref δ) : Prop :=
  ∀ t, Q t → Option.Rel Tap.Unmoved (s.tap t) (s'.tap t)

namespace KeepsTaps

variable {Q : TapId Ref → Prop} {s s' s'' : State Ref δ} {t : TapId Ref}

theorem of_stopsOn (h : s.StopsOn Q s') : s.KeepsTaps Q s' := by
  intro t ht
  have hrel := h t ht
  generalize s.tap t = tap, s'.tap t = tap' at hrel
  cases hrel with
  | none => exact .none
  | some hstops => exact .some hstops.unmoved

theorem refl (s : State Ref δ) : s.KeepsTaps Q s := .of_stopsOn (.refl s)

theorem trans (h : s.KeepsTaps Q s') (h' : s'.KeepsTaps Q s'') : s.KeepsTaps Q s'' := by
  intro t ht
  have hrel := h t ht
  have hrel' := h' t ht
  generalize s.tap t = tap, s'.tap t = tap', s''.tap t = tap'' at hrel hrel'
  cases hrel with
  | none => exact hrel'
  | some hmoved =>
      cases hrel' with
      | some hmoved' => exact .some (hmoved.trans hmoved')

theorem to_some (h : s.KeepsTaps Q s') (ht : Q t) {tap' : Tap Ref δ}
    (htap' : s'.tap t = some tap') : ∃ tap, s.tap t = some tap ∧ tap.Unmoved tap' := by
  have hrel := h t ht
  rw [htap'] at hrel
  generalize s.tap t = tap at hrel
  cases hrel with
  | some hmoved => exact ⟨_, rfl, hmoved⟩

theorem eq_none (h : s.KeepsTaps Q s') (ht : Q t) (hnone : s.tap t = none) : s'.tap t = none := by
  have hrel := h t ht
  rw [hnone] at hrel
  generalize s'.tap t = tap' at hrel
  cases hrel
  rfl

theorem pointOf (h : s.KeepsTaps Q s') (ht : Q t) : s'.pointOf t = s.pointOf t := by
  have hrel := h t ht
  unfold State.pointOf
  generalize s.tap t = tap, s'.tap t = tap' at hrel
  cases hrel with
  | none => rfl
  | some hmoved => exact congrArg some hmoved.point

theorem updateTap [DecidableEq Ref] (h : s.KeepsTaps Q s') {f : Tap Ref δ → Tap Ref δ}
    (hf : ¬ Q t ∨ ∀ tap : Tap Ref δ, tap.Unmoved (f tap)) :
    s.KeepsTaps Q (s'.updateTap t f) := by
  refine h.trans fun t' ht' => ?_
  by_cases ht : t' = t
  · subst ht
    rw [tap_updateTap_self]
    cases s'.tap t' with
    | none => exact .none
    | some tap => exact .some (hf.resolve_left (not_not.2 ht') tap)
  · rw [tap_updateTap_of_ne s' f ht]
    exact refl s' t' ht'

end KeepsTaps

end State

/-- The call may still start taps. -/
def Call.starting : Call Ref → Bool
  | .mediaRooms (.startRecording _ _ .call) _ => true
  | .produce _ _ _ _ .call _ | .produce _ _ _ _ (.transportProduce ..) _ => true
  | _ => false

end Taps

/-- A call starts no taps but its own, and only while it may. -/
theorem Call.Step.stopsOn {s s' : State Ref δ} {i : Ref} {ok : Bool} {c c' : Call Ref}
    (h : Call.Step i ok s c s' c') :
    s.StopsOn (fun t => t.1 = i → c.starting = false) s' := by
  let Q (t : TapId Ref) : Prop := t.1 = i → c.starting = false
  have hsame (s : State Ref δ) (sfu : Sfu.State Ref) (meetings : List Meeting) :
      s.StopsOn Q { s with sfu := sfu, meetings := meetings } := .of_tap fun _ _ => rfl
  have hQ (hstarting : c.starting = true) (t : TapId Ref) (ht : Q t) : t.1 ≠ i := fun heq => by
    cases hstarting.symm.trans (ht heq)
  cases h with
  | mediaRoomsWorks | produceWorks => exact hsame s s.sfu _
  | @mediaRooms call _ result meetings _ _ _ hstep =>
      obtain ⟨⟨sfu, call'⟩, hcall, hr⟩ := Option.map_eq_some_iff.1 hstep
      cases hr
      refine ((hsame s s.sfu meetings).trans (.dropPeer _ _)).trans
        ((hsame _ sfu _).trans (.enter _ call' ?_))
      rintro roomId peers r rfl
      refine hQ ?_
      rw [(Sfu.Call.startRecording_of_step hcall).2 r rfl]
      rfl
  | @produce _ _ _ _ point _ _ meetings _ _ hstep =>
      obtain ⟨⟨sfu, point'⟩, hpoint, hr⟩ := Option.map_eq_some_iff.1 hstep
      cases hr
      have hproduced := hsame s sfu meetings
      split
      · split
        · exact hproduced
        · exact hproduced.trans (.tapProducer _ (hQ rfl))
      · exact hproduced

theorem Call.Step.starting {s s' : State Ref δ} {i : Ref} {ok : Bool} {c c' : Call Ref}
    (h : Call.Step i ok s c s' c') (hstarting : c'.starting = true) :
    c.starting = true ∧ s'.tap = s.tap := by
  cases h with
  | @mediaRoomsWorks call =>
      refine ⟨?_, rfl⟩
      rw [← hstarting]
      cases call with
      | startRecording roomId peers point => cases point <;> rfl
      | getOrCreateRoom | createTransport | removePeer | stopRecording | closeRoom => rfl
  | @produceWorks _ _ _ _ point => cases point <;> exact ⟨hstarting, rfl⟩
  | mediaRooms _ hstep =>
      obtain ⟨⟨sfu, call'⟩, hcall, hr⟩ := Option.map_eq_some_iff.1 hstep
      cases hr
      cases call' with
      | startRecording roomId peers point =>
          cases point with
          | call => exact ((Sfu.Call.startRecording_of_step hcall).1 rfl).elim
          | files | returned | threw => cases hstarting
      | getOrCreateRoom | createTransport | removePeer | stopRecording | closeRoom =>
          cases hstarting
  | produce hstep =>
      obtain ⟨⟨sfu, point'⟩, hpoint, hr⟩ := Option.map_eq_some_iff.1 hstep
      obtain ⟨hcalled, hbefore, -⟩ := Sfu.Produce.step_cases hpoint
      cases hr
      cases point' with
      | call => exact (hcalled rfl).elim
      | transportProduce v held transport =>
          obtain rfl := hbefore v held transport rfl
          exact ⟨rfl, rfl⟩
      | tapProducer | returned | threw => cases hstarting

theorem TapStep.keepsTaps {env : Env δ} {s s' : State Ref δ} {t : TapId Ref} {tap : Tap Ref δ}
    {ok : Bool} (h : TapStep env s t tap ok s') : s.KeepsTaps (· ≠ t) s' := by
  have hself : ¬ t ≠ t := not_not.2 rfl
  have hsame : s.KeepsTaps (· ≠ t) s := .refl s
  have hdisk (disk : Path → Bytes) : s.KeepsTaps (· ≠ t) { s with disk := disk } :=
    .of_stopsOn (.of_tap fun _ _ => rfl)
  cases h with
  | notConnected =>
      have hstopped : s.KeepsTaps (· ≠ t) (s.stopPeerRecording t.2).1 :=
        .of_stopsOn (.of_stops (.stopPeerRecording s t.2))
      exact hstopped.updateTap (.inl hself)
  | notConsumed =>
      exact ((hsame.updateTap (.inl hself)).updateTap (.inl hself)).trans
        (.of_stopsOn (.of_tap fun _ _ => rfl))
  | opened | headed => exact (hdisk _).updateTap (.inl hself)
  | created | consumed | started =>
      exact (hsame.updateTap (.inl hself)).trans (.of_stopsOn (.of_tap fun _ _ => rfl))
  | passed | named | bound | connected => exact hsame.updateTap (.inl hself)

/-- Only a tap's own steps and the call that starts it move a tap. -/
theorem Process.Step.keepsTaps {env : Env δ} {p p' : Process Ref δ} {a : Happening Ref}
    (h : Process.Step env p a p') :
    p.world.KeepsTaps (fun t => (∀ ok, a ≠ .tap t ok) ∧ ∀ ok, a ≠ .call t.1 ok) p'.world := by
  have hdisk (disk : Path → Bytes) : p.world.KeepsTaps
      (fun t => (∀ ok, a ≠ .tap t ok) ∧ ∀ ok, a ≠ .call t.1 ok) { p.world with disk := disk } :=
    .of_stopsOn (.of_tap fun _ _ => rfl)
  cases h with
  | call hstep =>
      refine fun t ht => State.KeepsTaps.of_stopsOn hstep.stopsOn t fun heq => ?_
      subst heq
      exact (ht.2 _ rfl).elim
  | tap _ hstep =>
      refine fun t ht => hstep.keepsTaps t ?_
      rintro rfl
      exact ht.1 _ rfl
  | message hs =>
      obtain ⟨tap, session, handle, -, -, -, rfl⟩ := State.message_cases hs
      exact (State.KeepsTaps.refl _).updateTap (.inr fun _ => ⟨rfl, rfl, rfl, rfl⟩)
  | written hs =>
      obtain ⟨tap, handle, chunk, -, -, -, rfl⟩ := State.written_cases hs
      exact (hdisk _).updateTap (.inr fun _ => ⟨rfl, rfl, rfl, rfl⟩)
  | close hs =>
      obtain ⟨tap, session, handle, -, -, -, hstep⟩ := State.closeStep_cases hs
      cases hstep with
      | riffSize | dataSize => exact (hdisk _).updateTap (.inr fun _ => ⟨rfl, rfl, rfl, rfl⟩)
      | close | failed =>
          exact (State.KeepsTaps.refl _).updateTap (.inr fun _ => ⟨rfl, rfl, rfl, rfl⟩)
  | producerclose hs => exact .of_stopsOn (.of_stops (State.producerclose_stops hs))
  | socketError hs => exact .of_stopsOn (.of_stops (State.socketError_stops hs))

/-- A call that may still start taps has not started any. -/
def Process.Untapped (p : Process Ref δ) : Prop :=
  ∀ i, (p.proc i).starting = true → ∀ object, p.world.tap (i, object) = none

omit [DecidableEq Ref] in
theorem Process.Untapped.start (sfu : Sfu.State Ref) (requests : Ref → Request Ref) :
    (Process.start sfu requests : Process Ref δ).Untapped := fun _ _ _ => rfl

theorem Process.Untapped.preserves (env : Env δ) :
    (process env : System (Process Ref δ) (Happening Ref)).Preserves (fun _ _ => True)
      Process.Untapped := by
  intro p a p' h _ hstep i hstarting object
  cases process_seenBy i hstep with
  | own hcall =>
      rw [Pool.set_proc_self] at hstarting
      obtain ⟨hbefore, htap⟩ := (Call.step_cases hcall).starting hstarting
      rw [Pool.set_world, htap]
      exact h i hbefore object
  | @other j ok w c hj hcall =>
      rw [p.set_proc_ne w c (Ne.symm hj)] at hstarting
      have hkeeps := State.KeepsTaps.of_stopsOn (Call.step_cases hcall).stopsOn
      exact hkeeps.eq_none (fun heq => (hj heq.symm).elim) (h i hstarting object)
  | apart hcall hproc =>
      rw [hproc] at hstarting
      have hnone := h i hstarting object
      refine (process_cases hstep).keepsTaps.eq_none ⟨?_, hcall i⟩ hnone
      rintro ok rfl
      obtain ⟨w, hw, -⟩ := Option.map_eq_some_iff.1 hstep
      obtain ⟨tap, htap, -⟩ := State.tapStep_cases hw
      cases hnone.symm.trans htap

end MeetServer.Recording
