import MeetServer.Recording.Service

/-!
# What the calls do to the taps

A call starts taps and stops them: it closes mediasoup objects and begins to
close sessions.  Everything else about a tap is changed by its own steps, its
socket and its file only.
-/

namespace MeetServer.Recording

open MeetServer.Foundation

variable {Ref δ : Type} {A : Prop}

/-- Stopping may close a tap's objects and begin to close its session; the
session is abandoned only if `A`. -/
structure Tap.Stops (A : Prop) (tap tap' : Tap Ref δ) : Prop where
  same : { tap' with
    plainTransport := tap.plainTransport
    recordingConsumer := tap.recordingConsumer
    session := tap.session
    closing := tap.closing } = tap
  plainTransport : tap'.plainTransport = .opened → tap.plainTransport = .opened
  session : tap'.session = tap.session ∧ tap'.closing = tap.closing ∨
    ∃ x, tap.session = some x ∧ x.closed = false ∧
      tap'.session = some { x with closed := true } ∧
      (tap'.closing = x.beginClosing ∨ A ∧ tap'.closing = .abandoned)

/-- The tap has just been started. -/
structure Tap.New (tap : Tap Ref δ) : Prop where
  point : ∃ closing, tap.point = .stopPeerRecording closing
  plainTransport : tap.plainTransport ≠ .opened
  fileHandle : tap.fileHandle = none
  session : tap.session = none
  closing : tap.closing = .no

namespace Tap.Stops

variable {tap tap' tap'' : Tap Ref δ}

theorem refl (tap : Tap Ref δ) : tap.Stops A tap :=
  ⟨rfl, fun h => h, .inl ⟨rfl, rfl⟩⟩

theorem trans (h : tap.Stops A tap') (h' : tap'.Stops A tap'') :
    tap.Stops A tap'' := by
  refine ⟨?_, fun hopen => h.plainTransport (h'.plainTransport hopen), ?_⟩
  · have hsame := h.same
    rw [← h'.same] at hsame
    exact hsame
  · rcases h.session with ⟨hsession, hclosing⟩ | ⟨x, hx, hopen, hclosed, hclosing⟩
    · rw [← hsession, ← hclosing]
      exact h'.session
    · refine .inr ⟨x, hx, hopen, ?_⟩
      rcases h'.session with ⟨hsession, hclosing'⟩ | ⟨y, hy, hyopen, -⟩
      · rw [hsession, hclosing']
        exact ⟨hclosed, hclosing⟩
      · obtain rfl := Option.some.inj (hclosed.symm.trans hy)
        cases hyopen

theorem rel_trans {tap tap' tap'' : Option (Tap Ref δ)}
    (h : Option.Rel (Tap.Stops A) tap tap') (h' : Option.Rel (Tap.Stops A) tap' tap'') :
    Option.Rel (Tap.Stops A) tap tap'' := by
  cases h with
  | none => exact h'
  | some hstops =>
      cases h' with
      | some hstops' => exact .some (hstops.trans hstops')

theorem room (h : tap.Stops A tap') : tap'.room = tap.room := by
  rw [← h.same]

theorem roomId (h : tap.Stops A tap') : tap'.roomId = tap.roomId := by
  rw [← h.same]

theorem speakerName (h : tap.Stops A tap') : tap'.speakerName = tap.speakerName := by
  rw [← h.same]

theorem point (h : tap.Stops A tap') : tap'.point = tap.point := by
  rw [← h.same]

theorem fileHandle (h : tap.Stops A tap') : tap'.fileHandle = tap.fileHandle := by
  rw [← h.same]

theorem new (h' : tap.Stops A tap') (h : tap.New) : tap'.New := by
  rcases h'.session with ⟨hsession, hclosing⟩ | ⟨x, hx, -⟩
  · exact ⟨h'.point ▸ h.point, fun hopen => h.plainTransport (h'.plainTransport hopen),
      h'.fileHandle.trans h.fileHandle, hsession.trans h.session,
      hclosing.trans h.closing⟩
  · cases h.session.symm.trans hx

end Tap.Stops

namespace State

section Update

variable [DecidableEq Ref] (s : State Ref δ) {t t' : TapId Ref}
  (f : Tap Ref δ → Tap Ref δ)

@[simp] theorem tap_updateTap_self :
    (s.updateTap t f).tap t = (s.tap t).map f :=
  Function.update_self ..

@[simp] theorem tap_updateTap_of_ne (h : t' ≠ t) :
    (s.updateTap t f).tap t' = s.tap t' :=
  Function.update_of_ne h ..

end Update

/-- A step stops taps and does nothing else to them. -/
structure Stops (A : Prop) (s s' : State Ref δ) : Prop where
  disk : s'.disk = s.disk
  tap : ∀ t, Option.Rel (Tap.Stops A) (s.tap t) (s'.tap t)

/-- A step starts taps and stops taps. -/
structure Grows (A : Prop) (s s' : State Ref δ) : Prop where
  disk : s'.disk = s.disk
  tap : ∀ t, (∃ tap', s'.tap t = some tap' ∧ tap'.New) ∨
    Option.Rel (Tap.Stops A) (s.tap t) (s'.tap t)

variable {s s' s'' : State Ref δ}

namespace Stops

theorem of_tap (hdisk : s'.disk = s.disk) (htap : s'.tap = s.tap) : s.Stops A s' := by
  refine ⟨hdisk, fun t => ?_⟩
  rw [htap]
  cases s.tap t with
  | none => exact .none
  | some tap => exact .some (.refl tap)

theorem refl (s : State Ref δ) : s.Stops A s := .of_tap rfl rfl

theorem trans (h : s.Stops A s') (h' : s'.Stops A s'') : s.Stops A s'' :=
  ⟨h'.disk.trans h.disk, fun t => Tap.Stops.rel_trans (h.tap t) (h'.tap t)⟩

theorem grows (h : s.Stops A s') : s.Grows A s' :=
  ⟨h.disk, fun t => .inr (h.tap t)⟩

theorem of_some (h : s.Stops A s') {t : TapId Ref} {tap : Tap Ref δ}
    (htap : s.tap t = some tap) : ∃ tap', s'.tap t = some tap' ∧ tap.Stops A tap' := by
  have hrel := h.tap t
  rw [htap] at hrel
  generalize s'.tap t = t' at hrel
  cases hrel with
  | some hstops => exact ⟨_, rfl, hstops⟩

theorem to_some (h : s.Stops A s') {t : TapId Ref} {tap' : Tap Ref δ}
    (htap : s'.tap t = some tap') : ∃ tap, s.tap t = some tap ∧ tap.Stops A tap' := by
  have hrel := h.tap t
  rw [htap] at hrel
  generalize s.tap t = t' at hrel
  cases hrel with
  | some hstops => exact ⟨_, rfl, hstops⟩

variable [DecidableEq Ref]

theorem updatePeer (s : State Ref δ) (object : Ref)
    (f : TappedPeer Ref → TappedPeer Ref) : s.Stops A (s.updatePeer object f) :=
  .of_tap rfl rfl

theorem updateTap {t : TapId Ref} {f : Tap Ref δ → Tap Ref δ}
    (hf : ∀ tap, s.tap t = some tap → tap.Stops A (f tap)) :
    s.Stops A (s.updateTap t f) := by
  refine ⟨rfl, fun t' => ?_⟩
  by_cases ht : t' = t
  · subst ht
    rw [tap_updateTap_self]
    cases htap : s.tap t' with
    | none => exact .none
    | some tap => exact .some (hf tap htap)
  · rw [tap_updateTap_of_ne s f ht]
    cases s.tap t' with
    | none => exact .none
    | some tap => exact .some (.refl tap)

theorem closePlainTransport (s : State Ref δ) (t : TapId Ref) :
    s.Stops A (s.closePlainTransport t) :=
  .updateTap fun _ _ => ⟨rfl, nofun, .inl ⟨rfl, rfl⟩⟩

theorem closeConsumer (s : State Ref δ) (t : TapId Ref) :
    s.Stops A (s.closeConsumer t) :=
  .updateTap fun _ _ => ⟨rfl, fun h => h, .inl ⟨rfl, rfl⟩⟩

theorem closeRecordingSession (s : State Ref δ) (t : TapId Ref) :
    s.Stops A (s.closeRecordingSession t).1 := by
  unfold State.closeRecordingSession
  split
  · next hopen =>
    refine .updateTap fun tap htap => ⟨rfl, fun h => h, .inr ?_⟩
    rw [State.sessionOpen, htap, Option.any_some, Option.any_eq_true] at hopen
    obtain ⟨x, hx, hclosed⟩ := hopen
    exact ⟨x, hx, by simpa using hclosed, by simp [hx], .inl (by simp [hx])⟩
  · exact .refl s

theorem abandonSession (s : State Ref δ) (t : TapId Ref)
    (hA : s.sessionOpen t → A) : s.Stops A (s.abandonSession t) := by
  unfold State.abandonSession
  split
  · next hopen =>
    refine .updateTap fun tap htap => ⟨rfl, fun h => h, .inr ?_⟩
    have hA := hA hopen
    rw [State.sessionOpen, htap, Option.any_some, Option.any_eq_true] at hopen
    obtain ⟨x, hx, hclosed⟩ := hopen
    exact ⟨x, hx, by simpa using hclosed, by simp [hx], .inr ⟨hA, rfl⟩⟩
  · exact .refl s

theorem closeTap (s : State Ref δ) (object : Ref) : s.Stops A (s.closeTap object) := by
  have hconsumer : s.Stops A
      ((s.peer object).recordingConsumer.elim s s.closeConsumer) := by
    cases (s.peer object).recordingConsumer with
    | none => exact .refl s
    | some t => exact .closeConsumer s t
  unfold State.closeTap
  dsimp only
  cases (s.peer object).plainTransport with
  | none => exact hconsumer.trans (.updatePeer _ object _)
  | some t =>
      exact (hconsumer.trans (.closePlainTransport _ t)).trans (.updatePeer _ object _)

theorem stopPeerRecording (s : State Ref δ) (object : Ref) :
    s.Stops A (s.stopPeerRecording object).1 := by
  unfold State.stopPeerRecording
  split
  · exact .closeTap s object
  · exact (closeTap s object).trans (.closeRecordingSession _ _)

theorem stopPeerRecordingOfRoom (s : State Ref δ) (object : Ref)
    (hA : ∀ t, (s.peer object).recordingSession = some t → s.sessionOpen t → A) :
    s.Stops A (s.stopPeerRecordingOfRoom object) := by
  have hsession : s.Stops A (s.dropSession object) := by
    unfold State.dropSession
    cases hsession : (s.peer object).recordingSession with
    | none => exact .updatePeer s object _
    | some t =>
        exact (abandonSession s t (hA t hsession)).trans (.updatePeer _ object _)
  have hconsumer (s : State Ref δ) : s.Stops A (s.dropConsumer object) := by
    unfold State.dropConsumer
    split
    · exact .refl s
    · split
      · exact (closeConsumer s _).trans (.updatePeer _ object _)
      · exact .refl s
  have htransport (s : State Ref δ) : s.Stops A (s.dropPlainTransport object) := by
    unfold State.dropPlainTransport
    split
    · exact .refl s
    · split
      · exact (closePlainTransport s _).trans (.updatePeer _ object _)
      · exact .refl s
  exact (hsession.trans (hconsumer _)).trans (htransport _)

end Stops

namespace Grows

theorem of_tap (hdisk : s'.disk = s.disk) (htap : s'.tap = s.tap) : s.Grows A s' :=
  (Stops.of_tap hdisk htap).grows

theorem refl (s : State Ref δ) : s.Grows A s := .of_tap rfl rfl

theorem setSfu (s : State Ref δ) (sfu : Sfu.State Ref) :
    s.Grows A { s with sfu := sfu } :=
  .of_tap rfl rfl

theorem setMeetings (s : State Ref δ) (meetings : List Meeting) :
    s.Grows A { s with meetings := meetings } :=
  .of_tap rfl rfl

theorem trans (h : s.Grows A s') (h' : s'.Grows A s'') : s.Grows A s'' := by
  refine ⟨h'.disk.trans h.disk, fun t => ?_⟩
  rcases h'.tap t with hnew | hrel'
  · exact .inl hnew
  · rcases h.tap t with ⟨tap', htap', hnew⟩ | hrel
    · rw [htap'] at hrel'
      generalize s''.tap t = tap'' at hrel'
      cases hrel' with
      | some hstops => exact .inl ⟨_, rfl, hstops.new hnew⟩
    · exact .inr (Tap.Stops.rel_trans hrel hrel')

theorem foldl {α β : Type} {f : State Ref δ × β → α → State Ref δ × β}
    (hf : ∀ (acc : State Ref δ × β) x, acc.1.Grows A (f acc x).1) (xs : List α)
    (acc : State Ref δ × β) : acc.1.Grows A (xs.foldl f acc).1 := by
  induction xs generalizing acc with
  | nil => exact .refl _
  | cons x xs ih => exact (hf acc x).trans (ih (f acc x))

variable [DecidableEq Ref]

theorem startTap (s : State Ref δ) (t : TapId Ref) (room : Ref) (roomId : RoomId)
    (peerId : PeerId) (producer : Sfu.Producer Ref) :
    s.Grows A (s.startTap t room roomId peerId producer) := by
  refine (Stops.stopPeerRecording s t.2).grows.trans ⟨rfl, fun t' => ?_⟩
  by_cases ht : t' = t
  · subst ht
    exact .inl ⟨_, Function.update_self .., ⟨_, rfl⟩, nofun, rfl, rfl, rfl⟩
  · have htap : (s.startTap t room roomId peerId producer).tap t' =
        (s.stopPeerRecording t.2).1.tap t' := Function.update_of_ne ht ..
    rw [htap]
    exact .inr ((Stops.refl _).tap t')

theorem setDisplayNames (s : State Ref δ) (r : Ref)
    (peers : List (PeerId × String)) : s.Grows A (s.setDisplayNames r peers) := by
  unfold State.setDisplayNames
  induction peers generalizing s with
  | nil => exact .refl s
  | cons named peers ih =>
      refine trans ?_ (ih _)
      dsimp only
      split
      · exact .refl s
      · exact (Stops.updatePeer s _ _).grows

theorem startRoomRecording (s : State Ref δ) (call r : Ref)
    (peers : List (PeerId × String)) :
    s.Grows A (s.startRoomRecording call r peers).1 := by
  refine (setDisplayNames s r peers).trans (foldl (fun acc peer => ?_) _ (_, []))
  split
  · exact .refl _
  · exact .startTap _ _ _ _ _ _

theorem stopRoomRecording (s : State Ref δ) (r : Ref) :
    s.Grows A (s.stopRoomRecording r).1 := by
  refine foldl (fun acc peer => ?_) _ (s, [])
  exact (Stops.stopPeerRecording acc.1 peer.object).grows

theorem enter (s : State Ref δ) (i : Ref) (call : Sfu.Call Ref) :
    s.Grows A (s.enter i call).1 := by
  unfold State.enter
  split
  · exact .startRoomRecording s i _ _
  · exact .stopRoomRecording s _
  · exact .stopRoomRecording s _
  · exact .refl s

theorem tapProducer (s : State Ref δ) (i object room : Ref) (roomId : RoomId)
    (peerId : PeerId) (producer : Sfu.Producer Ref) :
    s.Grows A (s.tapProducer i object room roomId peerId producer).1 := by
  unfold State.tapProducer
  split
  · exact .refl s
  · exact .startTap s (i, object) room roomId peerId producer

end Grows

end State

namespace Call

variable [DecidableEq Ref] {s s' : State Ref δ} {i : Ref} {ok : Bool}

theorem stepMediaRooms_grows {call : Sfu.Call Ref} {c : Call Ref}
    (hA : ∀ object t, Recording.removing ok s.sfu call = some object →
      (s.peer object).recordingSession = some t → s.sessionOpen t → A)
    (h : stepMediaRooms i ok s call = some (s', c)) : s.Grows A s' := by
  obtain ⟨r, -, hr⟩ := Option.map_eq_some_iff.1 h
  cases hr
  have hdrop : s.Grows A (s.dropPeer (Recording.removing ok s.sfu call)) := by
    cases hobject : Recording.removing ok s.sfu call with
    | none => exact .refl s
    | some object =>
        exact (State.Stops.stopPeerRecordingOfRoom s object
          fun t => hA object t hobject).grows
  have hsfu := hdrop.trans (.setSfu _ r.1)
  exact hsfu.trans (.enter _ i r.2)

theorem stepProduce_grows {roomId : RoomId} {peerId : PeerId} {transportId : Ref}
    {kind : MediaKind} {point : Sfu.Produce Ref} {c : Call Ref}
    (h : stepProduce i roomId peerId transportId kind ok s point = some (s', c)) :
    s.Grows A s' := by
  obtain ⟨r, -, hr⟩ := Option.map_eq_some_iff.1 h
  cases hr
  refine (State.Grows.setSfu s r.1).trans ?_
  split
  · split
    · exact .refl _
    · exact .tapProducer _ i _ _ _ _ _
  · exact .refl _

omit [DecidableEq Ref] in
theorem work_cases {work : Work Ref} {r : Work Ref ⊕ Bool}
    (h : s.work ok work = some (s', r)) :
    ∃ meetings, s' = { s with meetings := meetings } := by
  cases work with
  | none => cases h
  | taps taps =>
      obtain ⟨result, -, hr⟩ := Option.map_eq_some_iff.1 h
      cases hr
      exact ⟨s.meetings, rfl⟩
  | stops r closings =>
      obtain ⟨result, -, hr⟩ := Option.map_eq_some_iff.1 h
      cases hr
      exact ⟨s.meetings, rfl⟩
  | mkdir meeting =>
      cases h
      exact ⟨s.meetings, rfl⟩
  | writeFile meeting => cases ok <;> cases h <;> exact ⟨_, rfl⟩

/-- A call goes on inside the recording service, or with its own statements
after the `result` of what it has waited for. -/
inductive Step (i : Ref) (ok : Bool) (s : State Ref δ) :
    Call Ref → State Ref δ → Call Ref → Prop
  | mediaRoomsWorks {call work work' meetings} :
      Step i ok s (.mediaRooms call work) { s with meetings := meetings }
        (.mediaRooms call work')
  | produceWorks {roomId peerId transportId kind point work work' meetings} :
      Step i ok s (.produce roomId peerId transportId kind point work)
        { s with meetings := meetings }
        (.produce roomId peerId transportId kind point work')
  | mediaRooms {call work result meetings s' c'} :
      removing ok s (.mediaRooms call work) = Recording.removing result s.sfu call →
      stepMediaRooms i result { s with meetings := meetings } call = some (s', c') →
      Step i ok s (.mediaRooms call work) s' c'
  | produce {roomId peerId transportId kind point work result meetings s' c'} :
      stepProduce i roomId peerId transportId kind result
        { s with meetings := meetings } point = some (s', c') →
      Step i ok s (.produce roomId peerId transportId kind point work) s' c'

/-- What a call waits for comes first, and then the call itself goes on. -/
theorem step_mediaRooms {call : Sfu.Call Ref} {work : Work Ref} (hwork : work ≠ .none) :
    (Call.mediaRooms call work).step i ok s = (s.work ok work).bind fun r =>
      match r.2 with
      | .inl work => some (r.1, .mediaRooms call work)
      | .inr result => stepMediaRooms i result r.1 call := by
  cases work <;> first | rfl | exact (hwork rfl).elim

theorem step_produce {roomId : RoomId} {peerId : PeerId} {transportId : Ref} {kind : MediaKind}
    {point : Sfu.Produce Ref} {work : Work Ref} (hwork : work ≠ .none) :
    (Call.produce roomId peerId transportId kind point work).step i ok s =
      (s.work ok work).bind fun r =>
        match r.2 with
        | .inl work => some (r.1, .produce roomId peerId transportId kind point work)
        | .inr result => stepProduce i roomId peerId transportId kind result r.1 point := by
  cases work <;> first | rfl | exact (hwork rfl).elim

theorem step_cases {c c' : Call Ref} (h : c.step i ok s = some (s', c')) :
    Step i ok s c s' c' := by
  cases c with
  | mediaRooms call work =>
      by_cases hnone : work = .none
      · subst hnone
        have hstep : stepMediaRooms i ok { s with meetings := s.meetings } call =
            some (s', c') := h
        exact .mediaRooms rfl hstep
      · rw [step_mediaRooms hnone] at h
        obtain ⟨⟨s₁, r⟩, hwork, hr⟩ := Option.bind_eq_some_iff.1 h
        obtain ⟨meetings, rfl⟩ := work_cases hwork
        cases r with
        | inl work' =>
            cases hr
            exact .mediaRoomsWorks
        | inr result =>
            refine .mediaRooms ?_ hr
            have hremoving : removing ok s (.mediaRooms call work) =
                (s.work ok work).bind fun r =>
                  r.2.elim (fun _ => none) fun result =>
                    Recording.removing result s.sfu call := by
              cases work <;> first | rfl | exact (hnone rfl).elim
            rw [hremoving, hwork]
            rfl
  | produce roomId peerId transportId kind point work =>
      by_cases hnone : work = .none
      · subst hnone
        have hstep : stepProduce i roomId peerId transportId kind ok
            { s with meetings := s.meetings } point = some (s', c') := h
        exact .produce hstep
      · rw [step_produce hnone] at h
        obtain ⟨⟨s₁, r⟩, hwork, hr⟩ := Option.bind_eq_some_iff.1 h
        obtain ⟨meetings, rfl⟩ := work_cases hwork
        cases r with
        | inl work' =>
            cases hr
            exact .produceWorks
        | inr result => exact .produce hr

/-- A call abandons a session only where it removes a peer. -/
theorem Step.grows {c c' : Call Ref} (h : Step i ok s c s' c')
    (hA : ∀ object t, c.removing ok s = some object →
      (s.peer object).recordingSession = some t → s.sessionOpen t → A) :
    s.Grows A s' := by
  cases h with
  | mediaRoomsWorks => exact .setMeetings s _
  | produceWorks => exact .setMeetings s _
  | @mediaRooms _ _ _ meetings _ _ hremoving hstep =>
      rw [hremoving] at hA
      have hgrows := stepMediaRooms_grows (s := { s with meetings := meetings }) hA hstep
      exact (State.Grows.setMeetings s meetings).trans hgrows
  | produce hstep =>
      exact (State.Grows.setMeetings s _).trans (stepProduce_grows hstep)

end Call

namespace State

/-- `Q` holds of every tap. -/
def Taps (Q : Tap Ref δ → Prop) (s : State Ref δ) : Prop :=
  ∀ t tap, s.tap t = some tap → Q tap

namespace Taps

variable {Q : Tap Ref δ → Prop} {s s' : State Ref δ}

theorem unrecorded (sfu : Sfu.State Ref) : (unrecorded sfu : State Ref δ).Taps Q :=
  fun _ _ h => (Option.some_ne_none _ h.symm).elim

theorem grows (h : s.Taps Q) (hnew : ∀ tap : Tap Ref δ, tap.New → Q tap)
    (hstops : ∀ tap tap' : Tap Ref δ, tap.Stops A tap' → Q tap → Q tap')
    (hgrows : s.Grows A s') : s'.Taps Q := by
  intro t tap' htap'
  rcases hgrows.tap t with ⟨tap, htap, hfresh⟩ | hrel
  · obtain rfl := Option.some.inj (htap.symm.trans htap')
    exact hnew tap hfresh
  · rw [htap'] at hrel
    generalize htap : s.tap t = tap at hrel
    cases hrel with
    | some hstop => exact hstops _ _ hstop (h t _ htap)

variable [DecidableEq Ref]

theorem updateTap (h : s.Taps Q) {t : TapId Ref} {f : Tap Ref δ → Tap Ref δ}
    (hf : ∀ tap, s.tap t = some tap → Q tap → Q (f tap)) :
    (s.updateTap t f).Taps Q := by
  intro t' tap' htap'
  by_cases ht : t' = t
  · subst ht
    rw [tap_updateTap_self] at htap'
    obtain ⟨tap, htap, rfl⟩ := Option.map_eq_some_iff.1 htap'
    exact hf tap htap (h t' tap htap)
  · rw [tap_updateTap_of_ne s f ht] at htap'
    exact h t' tap' htap'

end Taps

end State

/-! ## The steps of a tap -/

/-- A tap goes on without changing anything but its point. -/
inductive TapPoint.Passes : TapPoint Ref → TapPoint Ref → Prop
  | stopped {closing} : Passes (.stopPeerRecording closing) .mkdir
  | notStopped {closing} : Passes (.stopPeerRecording closing) .threw
  | notMade : Passes .mkdir .threw
  | notCreated : Passes .createPlainTransport .returned
  | notOpened : Passes .open .threw
  | notHeaded : Passes .writeHeader .threw
  | notBound : Passes .bind .threw
  | cleaned {closing} : Passes (.cleanUp closing) .returned
  | notCleaned {closing} : Passes (.cleanUp closing) .threw

variable [DecidableEq Ref]

/-- The branches of `tapStep` for the tap `tap`. -/
inductive TapStep (env : Env δ) (s : State Ref δ) (t : TapId Ref) (tap : Tap Ref δ) :
    Bool → State Ref δ → Prop
  | passed {ok point} : tap.point.Passes point →
      TapStep env s t tap ok (s.setPoint t point)
  | named : tap.point = .mkdir →
      TapStep env s t tap true (s.updateTap t fun tap =>
        { tap with
          speakerName := (s.peer t.2).displayName.getD tap.peerId
          point := .createPlainTransport })
  | created : tap.point = .createPlainTransport → s.sfu.routerOpen tap.room →
      TapStep env s t tap true ((s.updateTap t fun tap =>
        { tap with plainTransport := .opened, point := .consume }).updatePeer
          t.2 fun peer => { peer with plainTransport := some t })
  | consumed : tap.point = .consume → s.plainTransportOpen t → s.producerOpen t →
      TapStep env s t tap true ((s.updateTap t fun tap =>
        { tap with recordingConsumer := .opened, point := .open }).updatePeer
          t.2 fun peer => { peer with recordingConsumer := some t })
  | notConsumed : tap.point = .consume →
      TapStep env s t tap false
        (((s.closePlainTransport t).setPoint t .returned).updatePeer t.2
          fun peer => { peer with plainTransport := none })
  | opened : tap.point = .open →
      TapStep env s t tap true
        ({ s with disk := Function.update s.disk (tap.outputPath env) [] }.updateTap t
          fun tap' =>
            { tap' with
              fileHandle := some { path := tap.outputPath env }
              point := .writeHeader })
  | headed {handle} : tap.point = .writeHeader → tap.fileHandle = some handle →
      TapStep env s t tap true
        ((s.writeAt handle.path handle.position buildWavHeader).updateTap t fun tap =>
          { tap with
            fileHandle := some { handle with
              position := handle.position + wavHeaderSize }
            point := .bind })
  | bound {handle} : tap.point = .bind → tap.fileHandle = some handle →
      TapStep env s t tap true (s.updateTap t fun tap =>
        { tap with
          session := some { outputPath := handle.path, decoder := env.newDecoder }
          point := .startRecordingSession })
  | started {ok} : tap.point = .startRecordingSession →
      TapStep env s t tap ok ((s.setPoint t .connect).updatePeer t.2 fun peer =>
        { peer with recordingSession := some t })
  | connected : tap.point = .connect → s.plainTransportOpen t →
      TapStep env s t tap true (s.setPoint t .returned)
  | notConnected : tap.point = .connect →
      TapStep env s t tap false ((s.stopPeerRecording t.2).1.setPoint t
        (.cleanUp (s.stopPeerRecording t.2).2))

theorem State.tapStep_cases {env : Env δ} {s s' : State Ref δ} {t : TapId Ref}
    {ok : Bool} (h : s.tapStep env t ok = some s') :
    ∃ tap, s.tap t = some tap ∧ TapStep env s t tap ok s' := by
  unfold tapStep at h
  split at h
  · cases h
  · next tap htap =>
    refine ⟨tap, htap, ?_⟩
    cases hpoint : tap.point with
    | stopPeerRecording closing =>
        rw [hpoint] at h
        obtain ⟨stopped, -, rfl⟩ := Option.map_eq_some_iff.1 h
        refine .passed ?_
        rw [hpoint]
        cases stopped
        · exact .notStopped
        · exact .stopped
    | mkdir =>
        rw [hpoint] at h
        cases ok <;> cases h
        · exact .passed (hpoint ▸ .notMade)
        · exact .named hpoint
    | createPlainTransport =>
        rw [hpoint] at h
        cases ok with
        | false =>
            cases h
            exact .passed (hpoint ▸ .notCreated)
        | true =>
            simp only [if_true] at h
            split at h <;> cases h
            next hrouter => exact .created hpoint hrouter
    | consume =>
        rw [hpoint] at h
        cases ok with
        | false =>
            cases h
            exact .notConsumed hpoint
        | true =>
            simp only [if_true] at h
            split at h <;> cases h
            next hopen =>
              rw [Bool.and_eq_true] at hopen
              exact .consumed hpoint hopen.1 hopen.2
    | «open» =>
        rw [hpoint] at h
        cases ok <;> cases h
        · exact .passed (hpoint ▸ .notOpened)
        · exact .opened hpoint
    | writeHeader =>
        rw [hpoint] at h
        simp only at h
        split at h
        · cases h
        · next handle hhandle =>
          cases ok <;> cases h
          · exact .passed (hpoint ▸ .notHeaded)
          · exact .headed hpoint hhandle
    | bind =>
        rw [hpoint] at h
        simp only at h
        split at h
        · cases h
        · next handle hhandle =>
          cases ok <;> cases h
          · exact .passed (hpoint ▸ .notBound)
          · exact .bound hpoint hhandle
    | startRecordingSession =>
        rw [hpoint] at h
        cases h
        exact .started hpoint
    | connect =>
        rw [hpoint] at h
        cases ok with
        | false =>
            cases h
            exact .notConnected hpoint
        | true =>
            simp only [if_true] at h
            split at h <;> cases h
            next hopen => exact .connected hpoint hopen
    | cleanUp closing =>
        rw [hpoint] at h
        obtain ⟨stopped, -, rfl⟩ := Option.map_eq_some_iff.1 h
        refine .passed ?_
        rw [hpoint]
        cases stopped
        · exact .notCleaned
        · exact .cleaned
    | returned | threw =>
        rw [hpoint] at h
        cases h

/-! ## The steps of a session -/

/-- The branches of `closeStep` for a tap with its session and its file. -/
inductive CloseStep (s : State Ref δ) (t : TapId Ref) (tap : Tap Ref δ)
    (session : RecordingSession δ) (handle : FileHandle) : Bool → State Ref δ → Prop
  | riffSize : tap.closing = .riffSize →
      CloseStep s t tap session handle true ((s.writeAt handle.path 4
        (Bytes.toLE 4 (session.bytesWritten + wavHeaderSize - 8))).setClosing t .dataSize)
  | dataSize : tap.closing = .dataSize →
      CloseStep s t tap session handle true ((s.writeAt handle.path 40
        (Bytes.toLE 4 session.bytesWritten)).setClosing t .close)
  | close : tap.closing = .close → handle.writes = [] →
      CloseStep s t tap session handle true (s.setClosing t .closed)
  | failed : tap.closing = .riffSize ∨ tap.closing = .dataSize ∨ tap.closing = .close →
      CloseStep s t tap session handle false (s.setClosing t .threw)

namespace State

variable {env : Env δ} {s s' : State Ref δ} {t : TapId Ref}

theorem message_cases {msg : Bytes} (h : s.message env t msg = some s') :
    ∃ tap session handle, s.tap t = some tap ∧ tap.session = some session ∧
      tap.fileHandle = some handle ∧
      s' = s.updateTap t fun tap =>
        { tap with
          session := some (handleRtpPacket env session msg).1
          fileHandle := some { handle with
            writes := handle.writes ++ (handleRtpPacket env session msg).2 } } := by
  unfold message at h
  split at h
  · cases h
  · next tap htap =>
    split at h
    · next session handle hsession hhandle =>
      cases h
      exact ⟨tap, session, handle, htap, hsession, hhandle, rfl⟩
    · cases h

theorem written_cases {k : Nat} (h : s.written t k = some s') :
    ∃ tap handle chunk, s.tap t = some tap ∧ tap.fileHandle = some handle ∧
      handle.writes[k]? = some chunk ∧
      s' = (s.writeAt handle.path handle.position chunk).updateTap t fun tap =>
        { tap with
          fileHandle := some { handle with
            position := handle.position + chunk.length
            writes := handle.writes.eraseIdx k } } := by
  unfold written at h
  split at h
  · cases h
  · next handle hhandle =>
    obtain ⟨tap, htap, hhandle⟩ := Option.bind_eq_some_iff.1 hhandle
    split at h
    · cases h
    · next chunk hchunk =>
      cases h
      exact ⟨tap, handle, chunk, htap, hhandle, hchunk, rfl⟩

theorem closeStep_cases {ok : Bool} (h : s.closeStep t ok = some s') :
    ∃ tap session handle, s.tap t = some tap ∧ tap.session = some session ∧
      tap.fileHandle = some handle ∧ CloseStep s t tap session handle ok s' := by
  unfold closeStep at h
  split at h
  · cases h
  · next tap htap =>
    split at h
    · next session handle hsession hhandle =>
      refine ⟨tap, session, handle, htap, hsession, hhandle, ?_⟩
      split at h
      · next hclosing =>
        cases h
        exact .riffSize hclosing
      · next hclosing =>
        cases h
        exact .dataSize hclosing
      · next hclosing =>
        split at h <;> cases h
        next hwrites => exact .close hclosing hwrites
      · next hclosing =>
        cases h
        exact .failed (.inl hclosing)
      · next hclosing =>
        cases h
        exact .failed (.inr (.inl hclosing))
      · next hclosing =>
        cases h
        exact .failed (.inr (.inr hclosing))
      all_goals cases h
    · cases h

theorem producerclose_stops (h : s.producerclose t = some s') : s.Stops A s' := by
  unfold producerclose at h
  split at h <;> cases h
  exact (Stops.closeConsumer s t).trans (.stopPeerRecording _ t.2)

theorem socketError_stops (h : s.socketError t = some s') : s.Stops A s' := by
  unfold socketError at h
  split at h <;> cases h
  exact .closeRecordingSession s t

end State

/-! ## The steps of the process -/

/-- What happens, with what it does to the calls and to the world. -/
inductive Process.Step (env : Env δ) (p : Process Ref δ) :
    Happening Ref → Process Ref δ → Prop
  | call {i ok s' c'} : Call.Step i ok p.world (p.proc i) s' c' →
      Step env p (.call i ok) (p.set i s' c')
  | tap {t ok tap s'} : p.world.tap t = some tap → TapStep env p.world t tap ok s' →
      Step env p (.tap t ok) { p with world := s' }
  | message {t msg s'} : p.world.message env t msg = some s' →
      Step env p (.message t msg) { p with world := s' }
  | written {t k s'} : p.world.written t k = some s' →
      Step env p (.written t k) { p with world := s' }
  | close {t ok s'} : p.world.closeStep t ok = some s' →
      Step env p (.close t ok) { p with world := s' }
  | producerclose {t s'} : p.world.producerclose t = some s' →
      Step env p (.producerclose t) { p with world := s' }
  | socketError {t s'} : p.world.socketError t = some s' →
      Step env p (.socketError t) { p with world := s' }

theorem process_cases {env : Env δ} {p p' : Process Ref δ} {a : Happening Ref}
    (h : (process env).step p a = some p') : Process.Step env p a p' := by
  cases a with
  | call i ok =>
      obtain ⟨⟨s', c'⟩, hcall, rfl⟩ := Option.map_eq_some_iff.1 h
      exact .call (Call.step_cases hcall)
  | tap t ok =>
      obtain ⟨s', hs, rfl⟩ := Option.map_eq_some_iff.1 h
      obtain ⟨tap, htap, hstep⟩ := State.tapStep_cases hs
      exact .tap htap hstep
  | message t msg =>
      obtain ⟨s', hs, rfl⟩ := Option.map_eq_some_iff.1 h
      exact .message hs
  | written t k =>
      obtain ⟨s', hs, rfl⟩ := Option.map_eq_some_iff.1 h
      exact .written hs
  | close t ok =>
      obtain ⟨s', hs, rfl⟩ := Option.map_eq_some_iff.1 h
      exact .close hs
  | producerclose t =>
      obtain ⟨s', hs, rfl⟩ := Option.map_eq_some_iff.1 h
      exact .producerclose hs
  | socketError t =>
      obtain ⟨s', hs, rfl⟩ := Option.map_eq_some_iff.1 h
      exact .socketError hs

end MeetServer.Recording
