import Mathlib.Data.Fintype.Prod
import MeetServer.Recording.Paths
import MeetServer.Recording.Peers

/-!
# What a peer holds on to

A tap stores its transport and its session in the fields of the `MediaPeer`, and
only what is stored there can be closed.  `Stored` says that everything open is
stored, as long as no tap overwrites or forgets the field of another one.
-/

namespace MeetServer.Recording

open MeetServer.Foundation

variable {Ref δ : Type}

namespace State

/-! ## Stopping an object -/

section Open

variable [DecidableEq Ref] (s : State Ref δ) (t t' : TapId Ref)

theorem plainTransportOpen_updateTap_of_ne (f : Tap Ref δ → Tap Ref δ) (h : t' ≠ t) :
    (s.updateTap t f).plainTransportOpen t' = s.plainTransportOpen t' := by
  simp only [plainTransportOpen, tap_updateTap_of_ne s f h]
  rfl

theorem sessionOpen_updateTap_of_ne (f : Tap Ref δ → Tap Ref δ) (h : t' ≠ t) :
    (s.updateTap t f).sessionOpen t' = s.sessionOpen t' := by
  simp only [sessionOpen, tap_updateTap_of_ne s f h]

theorem plainTransportOpen_updateTap {f : Tap Ref δ → Tap Ref δ}
    (hf : ∀ tap, (f tap).plainTransport = tap.plainTransport ∧ (f tap).room = tap.room) :
    (s.updateTap t f).plainTransportOpen t' = s.plainTransportOpen t' := by
  by_cases ht : t' = t
  · subst ht
    cases htap : s.tap t' with
    | none => simp [plainTransportOpen, htap]
    | some tap =>
        simp only [plainTransportOpen, tap_updateTap_self, htap, Option.map_some,
          Option.any_some, hf tap]
        rfl
  · exact s.plainTransportOpen_updateTap_of_ne t t' f ht

theorem sessionOpen_updateTap {f : Tap Ref δ → Tap Ref δ}
    (hf : ∀ tap, (f tap).session = tap.session) :
    (s.updateTap t f).sessionOpen t' = s.sessionOpen t' := by
  by_cases ht : t' = t
  · subst ht
    cases htap : s.tap t' with
    | none => simp [sessionOpen, htap]
    | some tap =>
        simp only [sessionOpen, tap_updateTap_self, htap, Option.map_some,
          Option.any_some, hf tap]
  · exact s.sessionOpen_updateTap_of_ne t t' f ht

theorem plainTransportOpen_closePlainTransport :
    (s.closePlainTransport t).plainTransportOpen t' =
      if t' = t then false else s.plainTransportOpen t' := by
  split
  · next ht =>
    subst ht
    cases htap : s.tap t' <;> simp [plainTransportOpen, closePlainTransport, htap]
  · next ht => exact s.plainTransportOpen_updateTap_of_ne t t' _ ht

theorem sessionOpen_close {f : Tap Ref δ → Tap Ref δ}
    (hf : ∀ tap, (f tap).session =
      tap.session.map fun session => { session with closed := true }) :
    (s.updateTap t f).sessionOpen t' = if t' = t then false else s.sessionOpen t' := by
  split
  · next ht =>
    subst ht
    cases htap : s.tap t' with
    | none => simp [sessionOpen, htap]
    | some tap => cases hsession : tap.session <;> simp [sessionOpen, htap, hf, hsession]
  · next ht => exact s.sessionOpen_updateTap_of_ne t t' f ht

theorem sessionOpen_closeRecordingSession :
    (s.closeRecordingSession t).1.sessionOpen t' =
      if t' = t then false else s.sessionOpen t' := by
  unfold closeRecordingSession
  split
  · exact s.sessionOpen_close t t' fun _ => rfl
  · next hclosed =>
    split
    · next ht => exact ht ▸ Bool.eq_false_iff.2 hclosed
    · rfl

theorem sessionOpen_abandonSession :
    (s.abandonSession t).sessionOpen t' = if t' = t then false else s.sessionOpen t' := by
  unfold abandonSession
  split
  · exact s.sessionOpen_close t t' fun _ => rfl
  · next hclosed =>
    split
    · next ht => exact ht ▸ Bool.eq_false_iff.2 hclosed
    · rfl

theorem plainTransportOpen_closeRecordingSession :
    (s.closeRecordingSession t).1.plainTransportOpen t' = s.plainTransportOpen t' := by
  unfold closeRecordingSession
  split
  · exact s.plainTransportOpen_updateTap t t' fun _ => ⟨rfl, rfl⟩
  · rfl

theorem plainTransportOpen_abandonSession :
    (s.abandonSession t).plainTransportOpen t' = s.plainTransportOpen t' := by
  unfold abandonSession
  split
  · exact s.plainTransportOpen_updateTap t t' fun _ => ⟨rfl, rfl⟩
  · rfl

end Open

theorem peer_updatePeer_self [DecidableEq Ref] (s : State Ref δ) (object : Ref)
    (f : TappedPeer Ref → TappedPeer Ref) :
    (s.updatePeer object f).peer object = f (s.peer object) :=
  Function.update_self ..

theorem peer_updatePeer_of_ne [DecidableEq Ref] (s : State Ref δ) {object other : Ref}
    (f : TappedPeer Ref → TappedPeer Ref) (h : other ≠ object) :
    (s.updatePeer object f).peer other = s.peer other :=
  Function.update_of_ne h ..

/-- What is stored in `object` is closed and forgotten. -/
structure Ends (object : Ref) (s s' : State Ref δ) : Prop where
  sfu : s'.sfu = s.sfu
  stops : s.Stops True s'
  peer : ∀ other, other ≠ object → s'.peer other = s.peer other
  plainTransport : (s'.peer object).plainTransport = none ∨
    (s'.peer object).plainTransport = (s.peer object).plainTransport
  recordingSession : (s'.peer object).recordingSession = none
  kept : ∀ t, (s.peer object).plainTransport ≠ some t →
    s'.plainTransportOpen t = s.plainTransportOpen t
  closed : ∀ t, (s.peer object).plainTransport = some t → s'.plainTransportOpen t = false
  sessionClosed : ∀ t, (s.peer object).recordingSession = some t → s'.sessionOpen t = false

section CloseTap

variable [DecidableEq Ref] (s : State Ref δ) (object : Ref) (t : TapId Ref)

theorem plainTransportOpen_closeConsumer (t' : TapId Ref) :
    (s.closeConsumer t').plainTransportOpen t = s.plainTransportOpen t :=
  s.plainTransportOpen_updateTap t' t fun _ => ⟨rfl, rfl⟩

theorem sessionOpen_closeConsumer (t' : TapId Ref) :
    (s.closeConsumer t').sessionOpen t = s.sessionOpen t :=
  s.sessionOpen_updateTap t' t fun _ => rfl

theorem sessionOpen_closePlainTransport (t' : TapId Ref) :
    (s.closePlainTransport t').sessionOpen t = s.sessionOpen t :=
  s.sessionOpen_updateTap t' t fun _ => rfl

theorem plainTransportOpen_closeTap : (s.closeTap object).plainTransportOpen t =
    if (s.peer object).plainTransport = some t then false else s.plainTransportOpen t := by
  have hconsumer : ((s.peer object).recordingConsumer.elim s
      s.closeConsumer).plainTransportOpen t = s.plainTransportOpen t := by
    cases (s.peer object).recordingConsumer with
    | none => rfl
    | some t' => exact s.plainTransportOpen_closeConsumer t t'
  unfold closeTap
  dsimp only
  cases (s.peer object).plainTransport with
  | none =>
      rw [if_neg (Option.some_ne_none t).symm]
      exact hconsumer
  | some t' =>
      simp only [Option.some.injEq, eq_comm (a := t'), ← hconsumer]
      exact plainTransportOpen_closePlainTransport _ t' t

theorem closeTap_frame : (s.closeTap object).sfu = s.sfu ∧
    (s.closeTap object).peer = Function.update s.peer object
      { displayName := (s.peer object).displayName } := by
  unfold closeTap
  dsimp only
  cases (s.peer object).recordingConsumer <;> cases (s.peer object).plainTransport <;>
    exact ⟨rfl, rfl⟩

theorem closeRecordingSession_frame : (s.closeRecordingSession t).1.sfu = s.sfu ∧
    (s.closeRecordingSession t).1.peer = s.peer := by
  unfold closeRecordingSession
  split <;> exact ⟨rfl, rfl⟩

end CloseTap

theorem Ends.stopPeerRecording [DecidableEq Ref] (s : State Ref δ) (object : Ref) :
    s.Ends object (s.stopPeerRecording object).1 := by
  obtain ⟨hsfu, hpeer⟩ := s.closeTap_frame object
  have hstops := Stops.stopPeerRecording (A := True) s object
  have hself : (s.closeTap object).peer object =
      { displayName := (s.peer object).displayName } := by
    rw [hpeer, Function.update_self]
  have hother (other : Ref) (h : other ≠ object) :
      (s.closeTap object).peer other = s.peer other := by
    rw [hpeer, Function.update_of_ne h]
  have hopen := s.plainTransportOpen_closeTap object
  unfold State.stopPeerRecording at hstops ⊢
  cases hsession : (s.peer object).recordingSession with
  | none =>
      rw [hsession] at hstops
      refine ⟨hsfu, hstops, hother, .inl (by rw [hself]), by rw [hself], fun t ht => ?_,
        fun t ht => ?_, fun t ht => ?_⟩
      · simpa [ht] using hopen t
      · simpa [ht] using hopen t
      · cases hsession.symm.trans ht
  | some t₀ =>
      rw [hsession] at hstops
      obtain ⟨hsfu', hpeer'⟩ := (s.closeTap object).closeRecordingSession_frame t₀
      have hopen' := (s.closeTap object).plainTransportOpen_closeRecordingSession t₀
      dsimp only
      refine ⟨hsfu'.trans hsfu, hstops, ?_, .inl ?_, ?_, fun t ht => ?_, fun t ht => ?_,
        fun t ht => ?_⟩
      · rw [hpeer']
        exact hother
      · rw [hpeer', hself]
      · rw [hpeer', hself]
      · rw [hopen', hopen t, if_neg ht]
      · rw [hopen', hopen t, if_pos ht]
      · obtain rfl := Option.some.inj (hsession.symm.trans ht)
        rw [sessionOpen_closeRecordingSession, if_pos rfl]

section Drop

variable [DecidableEq Ref] (s : State Ref δ) (object : Ref)

theorem dropSession_frame : (s.dropSession object).sfu = s.sfu ∧
    (s.dropSession object).peer = Function.update s.peer object
      { s.peer object with recordingSession := none } := by
  have habandon (t : TapId Ref) : (s.abandonSession t).sfu = s.sfu ∧
      (s.abandonSession t).peer = s.peer := by
    unfold abandonSession
    split <;> exact ⟨rfl, rfl⟩
  unfold dropSession updatePeer
  cases (s.peer object).recordingSession with
  | none => exact ⟨rfl, rfl⟩
  | some t =>
      obtain ⟨hsfu, hpeer⟩ := habandon t
      refine ⟨hsfu, ?_⟩
      simp only [Option.elim_some, hpeer]

theorem plainTransportOpen_dropSession (t : TapId Ref) :
    (s.dropSession object).plainTransportOpen t = s.plainTransportOpen t := by
  unfold dropSession
  cases (s.peer object).recordingSession with
  | none => rfl
  | some t' => exact s.plainTransportOpen_abandonSession t' t

theorem sessionOpen_dropSession {t : TapId Ref}
    (h : (s.peer object).recordingSession = some t) :
    (s.dropSession object).sessionOpen t = false := by
  unfold dropSession
  rw [h]
  exact (s.sessionOpen_abandonSession t t).trans (if_pos rfl)

theorem dropConsumer_frame : (s.dropConsumer object).sfu = s.sfu ∧
    (∀ other, other ≠ object → (s.dropConsumer object).peer other = s.peer other) ∧
    ((s.dropConsumer object).peer object).plainTransport =
      (s.peer object).plainTransport ∧
    ((s.dropConsumer object).peer object).recordingSession =
      (s.peer object).recordingSession ∧
    ∀ t, (s.dropConsumer object).plainTransportOpen t = s.plainTransportOpen t ∧
      (s.dropConsumer object).sessionOpen t = s.sessionOpen t := by
  unfold dropConsumer
  split
  · exact ⟨rfl, fun _ _ => rfl, rfl, rfl, fun _ => ⟨rfl, rfl⟩⟩
  · next t' ht' =>
    split
    · refine ⟨rfl, fun other h => Function.update_of_ne h .., ?_, ?_, fun t =>
        ⟨s.plainTransportOpen_closeConsumer t t', s.sessionOpen_closeConsumer t t'⟩⟩
      · rw [peer_updatePeer_self]
        rfl
      · rw [peer_updatePeer_self]
        rfl
    · exact ⟨rfl, fun _ _ => rfl, rfl, rfl, fun _ => ⟨rfl, rfl⟩⟩

theorem dropPlainTransport_frame : (s.dropPlainTransport object).sfu = s.sfu ∧
    (∀ other, other ≠ object → (s.dropPlainTransport object).peer other = s.peer other) ∧
    ((s.dropPlainTransport object).peer object).recordingSession =
      (s.peer object).recordingSession ∧
    ∀ t, (s.dropPlainTransport object).sessionOpen t = s.sessionOpen t := by
  unfold dropPlainTransport
  split
  · exact ⟨rfl, fun _ _ => rfl, rfl, fun _ => rfl⟩
  · next t' ht' =>
    split
    · refine ⟨rfl, fun other h => Function.update_of_ne h .., ?_,
        fun t => s.sessionOpen_closePlainTransport t t'⟩
      rw [peer_updatePeer_self]
      rfl
    · exact ⟨rfl, fun _ _ => rfl, rfl, fun _ => rfl⟩

/-- A transport that is closed already stays in its field. -/
theorem plainTransport_dropPlainTransport :
    (((s.dropPlainTransport object).peer object).plainTransport = none ∨
      ((s.dropPlainTransport object).peer object).plainTransport =
        (s.peer object).plainTransport) ∧
    ∀ t, (s.dropPlainTransport object).plainTransportOpen t =
      if (s.peer object).plainTransport = some t then false
      else s.plainTransportOpen t := by
  unfold dropPlainTransport
  split
  · next hnone =>
    refine ⟨.inr rfl, fun t => ?_⟩
    rw [hnone, if_neg (Option.some_ne_none t).symm]
  · next t' ht' =>
    split
    · refine ⟨.inl (by rw [peer_updatePeer_self]), fun t => ?_⟩
      simp only [ht', Option.some.injEq, eq_comm (a := t')]
      exact s.plainTransportOpen_closePlainTransport t' t
    · next hclosed =>
      refine ⟨.inr rfl, fun t => ?_⟩
      split
      · next ht =>
        obtain rfl := Option.some.inj (ht'.symm.trans ht)
        exact Bool.eq_false_iff.2 hclosed
      · rfl

end Drop

theorem Ends.stopPeerRecordingOfRoom [DecidableEq Ref] (s : State Ref δ) (object : Ref) :
    s.Ends object (s.stopPeerRecordingOfRoom object) := by
  obtain ⟨hsfu₁, hpeer₁⟩ := s.dropSession_frame object
  obtain ⟨hsfu₂, hother₂, htransport₂, hsession₂, hopen₂⟩ :=
    (s.dropSession object).dropConsumer_frame object
  obtain ⟨hsfu₃, hother₃, hsession₃, hopen₃⟩ :=
    ((s.dropSession object).dropConsumer object).dropPlainTransport_frame object
  obtain ⟨htransport₃, hclosed₃⟩ :=
    ((s.dropSession object).dropConsumer object).plainTransport_dropPlainTransport object
  have hfield : (((s.dropSession object).dropConsumer object).peer object).plainTransport =
      (s.peer object).plainTransport := by
    rw [htransport₂, hpeer₁, Function.update_self]
  have hopen (t : TapId Ref) :
      ((s.dropSession object).dropConsumer object).plainTransportOpen t =
        s.plainTransportOpen t :=
    (hopen₂ t).1.trans (s.plainTransportOpen_dropSession object t)
  rw [hfield] at htransport₃ hclosed₃
  refine ⟨hsfu₃.trans (hsfu₂.trans hsfu₁),
    Stops.stopPeerRecordingOfRoom s object fun _ _ _ => trivial, fun other h => ?_,
    htransport₃, ?_, fun t ht => ?_, fun t ht => ?_, fun t ht => ?_⟩
  · rw [State.stopPeerRecordingOfRoom, hother₃ other h, hother₂ other h, hpeer₁,
      Function.update_of_ne h]
  · rw [State.stopPeerRecordingOfRoom, hsession₃, hsession₂, hpeer₁, Function.update_self]
  · rw [State.stopPeerRecordingOfRoom, hclosed₃ t, if_neg ht, hopen t]
  · rw [State.stopPeerRecordingOfRoom, hclosed₃ t, if_pos ht]
  · rw [State.stopPeerRecordingOfRoom, hopen₃ t, (hopen₂ t).2,
      s.sessionOpen_dropSession object ht]

/-! ## Everything open is stored -/

/--
An open transport is stored in its peer, which is `live`.  An open session is
about to be stored or is stored, and then its transport is open, unless the
connection of that is still under way.
-/
structure Stored (live : Ref → Ref → Prop) (s : State Ref δ) : Prop where
  transportOwn : ∀ object t, (s.peer object).plainTransport = some t → t.2 = object
  sessionOwn : ∀ object t, (s.peer object).recordingSession = some t → t.2 = object
  transport : ∀ t tap, s.tap t = some tap → s.plainTransportOpen t = true →
    (s.peer t.2).plainTransport = some t ∧ live tap.room t.2
  session : ∀ t tap, s.tap t = some tap → s.sessionOpen t = true →
    tap.point = .startRecordingSession ∨ (s.peer t.2).recordingSession = some t ∧
      (tap.point = .connect ∨ s.plainTransportOpen t = true)

namespace Stored

variable {live live' : Ref → Ref → Prop} {s s' : State Ref δ}

theorem unrecorded (sfu : Sfu.State Ref) : Stored live (unrecorded sfu : State Ref δ) :=
  ⟨fun _ _ h => (Option.some_ne_none _ h.symm).elim,
    fun _ _ h => (Option.some_ne_none _ h.symm).elim,
    fun _ _ h => (Option.some_ne_none _ h.symm).elim,
    fun _ _ h => (Option.some_ne_none _ h.symm).elim⟩

theorem mono (h : Stored live s)
    (hlive : ∀ t tap, s.tap t = some tap → live tap.room t.2 → live' tap.room t.2) :
    Stored live' s :=
  ⟨h.transportOwn, h.sessionOwn, fun t tap htap hopen =>
    (h.transport t tap htap hopen).imp_right (hlive t tap htap), h.session⟩

/-- Nothing is opened, and no field changes. -/
theorem frame (h : Stored live s)
    (hpeer : ∀ object, (s'.peer object).plainTransport = (s.peer object).plainTransport ∧
      (s'.peer object).recordingSession = (s.peer object).recordingSession)
    (htap : ∀ t tap', s'.tap t = some tap' → ∃ tap, s.tap t = some tap ∧
      tap'.room = tap.room ∧ tap'.point = tap.point)
    (hopen : ∀ t, s'.plainTransportOpen t = s.plainTransportOpen t)
    (hsession : ∀ t, s'.sessionOpen t = true → s.sessionOpen t = true) :
    Stored live s' := by
  refine ⟨fun object t => ?_, fun object t => ?_, fun t tap' htap' ht => ?_,
    fun t tap' htap' ht => ?_⟩
  · rw [(hpeer object).1]
    exact h.transportOwn object t
  · rw [(hpeer object).2]
    exact h.sessionOwn object t
  · obtain ⟨tap, htap, hroom, -⟩ := htap t tap' htap'
    rw [(hpeer t.2).1, hroom]
    exact h.transport t tap htap ((hopen t).symm.trans ht)
  · obtain ⟨tap, htap, -, hpoint⟩ := htap t tap' htap'
    rw [(hpeer t.2).2, hpoint, hopen t]
    exact h.session t tap htap (hsession t ht)

theorem sessionOpen_of_stops {A : Prop} (h : s.Stops A s') {t : TapId Ref}
    (hopen : s'.sessionOpen t = true) : s.sessionOpen t = true := by
  have hrel := h.tap t
  unfold sessionOpen at hopen ⊢
  generalize s.tap t = tap, s'.tap t = tap' at hrel hopen
  cases hrel with
  | none => exact hopen
  | some hstops =>
      rw [Option.any_some] at hopen ⊢
      rcases hstops.session with ⟨hsame, -⟩ | ⟨x, hx, hnot, -⟩
      · rw [← hsame]
        exact hopen
      · simp [hx, hnot]

/-- Stopping an object leaves nothing open on it but a session that is about to
be stored. -/
theorem ends {object : Ref} (h : Stored live s) (hends : s.Ends object s') :
    Stored (fun r other => live r other ∧ other ≠ object) s' := by
  have hown {t : TapId Ref} (ht : t.2 ≠ object) :
      (s.peer object).plainTransport ≠ some t := fun hfield =>
    ht (h.transportOwn object t hfield)
  refine ⟨fun other t ht => ?_, fun other t ht => ?_, fun t tap' htap' hopen => ?_,
    fun t tap' htap' hopen => ?_⟩
  · by_cases hother : other = object
    · subst hother
      rcases hends.plainTransport with hnone | hsame
      · cases hnone.symm.trans ht
      · exact h.transportOwn other t (hsame.symm.trans ht)
    · rw [hends.peer other hother] at ht
      exact h.transportOwn other t ht
  · by_cases hother : other = object
    · subst hother
      cases hends.recordingSession.symm.trans ht
    · rw [hends.peer other hother] at ht
      exact h.sessionOwn other t ht
  · obtain ⟨tap, htap, hstops⟩ := hends.stops.to_some htap'
    have hfield : (s.peer object).plainTransport ≠ some t := fun hfield => by
      cases (hends.closed t hfield).symm.trans hopen
    obtain ⟨hstored, hlive⟩ := h.transport t tap htap ((hends.kept t hfield).symm.trans hopen)
    have hne : t.2 ≠ object := by
      rintro rfl
      exact hfield hstored
    rw [hends.peer t.2 hne, hstops.room]
    exact ⟨hstored, hlive, hne⟩
  · obtain ⟨tap, htap, hstops⟩ := hends.stops.to_some htap'
    rw [hstops.point]
    refine (h.session t tap htap (sessionOpen_of_stops hends.stops hopen)).imp_right ?_
    rintro ⟨hstored, hrest⟩
    have hne : t.2 ≠ object := by
      rintro rfl
      cases (hends.sessionClosed t hstored).symm.trans hopen
    rw [hends.peer t.2 hne, hends.kept t (hown hne)]
    exact ⟨hstored, hrest⟩

variable [DecidableEq Ref]

theorem stopPeerRecording (h : Stored live s) (object : Ref) :
    Stored live (s.stopPeerRecording object).1 :=
  (h.ends (.stopPeerRecording s object)).mono fun _ _ _ hlive => hlive.1

theorem startTap (h : Stored live s) (t : TapId Ref) (room : Ref) (roomId : RoomId)
    (peerId : PeerId) (producer : Sfu.Producer Ref) :
    Stored live (s.startTap t room roomId peerId producer) := by
  have hstopped := h.stopPeerRecording t.2
  have hother {t' : TapId Ref} (ht' : t' ≠ t) :
      (s.startTap t room roomId peerId producer).tap t' =
        (s.stopPeerRecording t.2).1.tap t' := Function.update_of_ne ht' ..
  have hself : (s.startTap t room roomId peerId producer).tap t = some {
      room, roomId, peerId, producer,
      point := .stopPeerRecording (s.stopPeerRecording t.2).2 } := Function.update_self ..
  have hopen (t' : TapId Ref) (ht' : t' ≠ t) :
      (s.startTap t room roomId peerId producer).plainTransportOpen t' =
        (s.stopPeerRecording t.2).1.plainTransportOpen t' := by
    simp only [plainTransportOpen, hother ht']
    rfl
  refine ⟨hstopped.transportOwn, hstopped.sessionOwn, fun t' tap htap ht' => ?_,
    fun t' tap htap ht' => ?_⟩
  · by_cases heq : t' = t
    · subst heq
      simp [plainTransportOpen, hself] at ht'
    · rw [hother heq] at htap
      exact hstopped.transport t' tap htap ((hopen t' heq).symm.trans ht')
  · by_cases heq : t' = t
    · subst heq
      simp [sessionOpen, hself] at ht'
    · rw [hopen t' heq]
      rw [hother heq] at htap
      simp only [sessionOpen, hother heq] at ht'
      exact hstopped.session t' tap htap ht'

/-- The fields that hold a transport or a session are left alone. -/
theorem updatePeer (h : Stored live s) (object : Ref) {f : TappedPeer Ref → TappedPeer Ref}
    (hf : ∀ peer, (f peer).plainTransport = peer.plainTransport ∧
      (f peer).recordingSession = peer.recordingSession) :
    Stored live (s.updatePeer object f) := by
  refine h.frame (fun other => ?_) (fun t tap htap => ⟨tap, htap, rfl, rfl⟩)
    (fun _ => rfl) fun _ hopen => hopen
  by_cases hother : other = object
  · subst hother
    rw [peer_updatePeer_self]
    exact hf _
  · rw [peer_updatePeer_of_ne s f hother]
    exact ⟨rfl, rfl⟩

theorem setDisplayNames (h : Stored live s) (r : Ref) (peers : List (PeerId × String)) :
    Stored live (s.setDisplayNames r peers) := by
  unfold State.setDisplayNames
  induction peers generalizing s with
  | nil => exact h
  | cons named peers ih =>
      refine ih ?_
      dsimp only
      split
      · exact h
      · exact h.updatePeer _ fun _ => ⟨rfl, rfl⟩

theorem startRoomRecording (h : Stored live s) (call r : Ref)
    (peers : List (PeerId × String)) :
    Stored live (s.startRoomRecording call r peers).1 := by
  refine List.foldlRecOn (motive := fun acc : State Ref δ × List (TapId Ref) =>
    Stored live acc.1) _ _ (h.setDisplayNames r peers) ?_
  intro acc hacc peer _
  split
  · exact hacc
  · exact hacc.startTap _ _ _ _ _

theorem stopRoomRecording (h : Stored live s) (r : Ref) :
    Stored (fun v object => live v object ∧ ¬ (s.sfu.room r).HasObject object)
      (s.stopRoomRecording r).1 := by
  have hfold (members : List (Sfu.MediaPeer Ref)) (live : Ref → Ref → Prop)
      (acc : State Ref δ × List (Option (TapId Ref))) (hacc : Stored live acc.1) :
      Stored (fun v object => live v object ∧ ¬ ∃ peer ∈ members, peer.object = object)
        (members.foldl (fun acc peer =>
          ((acc.1.stopPeerRecording peer.object).1,
            acc.2 ++ [(acc.1.stopPeerRecording peer.object).2])) acc).1 := by
    induction members generalizing live acc with
    | nil => exact hacc.mono fun _ _ _ hlive => ⟨hlive, by simp⟩
    | cons peer members ih =>
        refine (ih _ _ (hacc.ends (.stopPeerRecording _ peer.object))).mono ?_
        rintro t tap - ⟨⟨hlive, hne⟩, hnone⟩
        refine ⟨hlive, ?_⟩
        simp only [List.exists_mem_cons_iff, not_or]
        exact ⟨Ne.symm hne, hnone⟩
  exact hfold _ live (s, []) h

theorem tapProducer (h : Stored live s) (i object room : Ref) (roomId : RoomId)
    (peerId : PeerId) (producer : Sfu.Producer Ref) :
    Stored live (s.tapProducer i object room roomId peerId producer).1 := by
  unfold State.tapProducer
  split
  · exact h
  · exact h.startTap _ _ _ _ _

omit [DecidableEq Ref] in
theorem setSfu (h : Stored live s) {sfu : Sfu.State Ref}
    (hrouter : sfu.routerOpen = s.sfu.routerOpen) :
    Stored live { s with sfu := sfu } := by
  refine h.frame (fun _ => ⟨rfl, rfl⟩) (fun t tap htap => ⟨tap, htap, rfl, rfl⟩)
    (fun t => ?_) fun _ hopen => hopen
  simp only [plainTransportOpen, hrouter]

theorem enter (h : Stored live s) (i : Ref) {call : Sfu.Call Ref} (hroom : call.onRoom) :
    Stored (fun v object => live v object ∧ ∀ roomId r,
      call = .stopRecording roomId (.files r) → ¬ (s.sfu.room r).HasObject object)
      (s.enter i call).1 := by
  have hother (s' : State Ref δ) (hs' : Stored live s')
      (hcall : ∀ roomId r, call ≠ .stopRecording roomId (.files r)) :
      Stored (fun v object => live v object ∧ ∀ roomId r,
        call = .stopRecording roomId (.files r) → ¬ (s.sfu.room r).HasObject object) s' :=
    hs'.mono fun _ _ _ hlive => ⟨hlive, fun roomId r heq => (hcall roomId r heq).elim⟩
  unfold State.enter
  split
  · exact hother _ (h.startRoomRecording i _ _) nofun
  · next r =>
    refine (h.stopRoomRecording r).mono ?_
    rintro t tap - ⟨hlive, hnone⟩
    refine ⟨hlive, ?_⟩
    rintro _ _ ⟨⟩
    exact hnone
  · cases hroom
  · next hstop _ => exact hother s h hstop

end Stored

end State

/-! ## The calls -/

namespace State

variable [DecidableEq Ref]

theorem sfu_startTap (s : State Ref δ) (t : TapId Ref) (room : Ref) (roomId : RoomId)
    (peerId : PeerId) (producer : Sfu.Producer Ref) :
    (s.startTap t room roomId peerId producer).sfu = s.sfu :=
  (Ends.stopPeerRecording s t.2).sfu

omit [DecidableEq Ref] in
theorem sfu_foldl {α β : Type} {f : State Ref δ × β → α → State Ref δ × β}
    (hf : ∀ (acc : State Ref δ × β) x, (f acc x).1.sfu = acc.1.sfu) (xs : List α)
    (acc : State Ref δ × β) : (xs.foldl f acc).1.sfu = acc.1.sfu := by
  induction xs generalizing acc with
  | nil => rfl
  | cons x xs ih => exact (ih (f acc x)).trans (hf acc x)

theorem sfu_setDisplayNames (s : State Ref δ) (r : Ref)
    (peers : List (PeerId × String)) : (s.setDisplayNames r peers).sfu = s.sfu := by
  unfold State.setDisplayNames
  induction peers generalizing s with
  | nil => rfl
  | cons named peers ih =>
      refine (ih _).trans ?_
      dsimp only
      split <;> rfl

theorem sfu_tapProducer (s : State Ref δ) (i object room : Ref) (roomId : RoomId)
    (peerId : PeerId) (producer : Sfu.Producer Ref) :
    (s.tapProducer i object room roomId peerId producer).1.sfu = s.sfu := by
  unfold State.tapProducer
  split
  · rfl
  · exact sfu_startTap s _ _ _ _ _

theorem sfu_enter (s : State Ref δ) (i : Ref) (call : Sfu.Call Ref) :
    (s.enter i call).1.sfu = s.sfu := by
  have hstop (r : Ref) : (s.stopRoomRecording r).1.sfu = s.sfu := by
    refine sfu_foldl (fun acc peer => ?_) _ (s, [])
    exact (Ends.stopPeerRecording acc.1 peer.object).sfu
  unfold State.enter
  split
  · next peers r =>
    refine (sfu_foldl (fun acc peer => ?_) _ (_, [])).trans (s.sfu_setDisplayNames r peers)
    split
    · rfl
    · exact sfu_startTap _ _ _ _ _ _
  · exact hstop _
  · exact hstop _
  · rfl

/-- Peers are stored under their ids, and everything open is stored. -/
structure Tracked (s : State Ref δ) : Prop where
  keyed : s.sfu.Keyed
  stored : s.Stored s.sfu.RecordsPeer

theorem Stored.dropPeer {live : Ref → Ref → Prop} {s : State Ref δ} (h : s.Stored live)
    (object : Option Ref) :
    (s.dropPeer object).Stored fun v other => live v other ∧ object ≠ some other := by
  cases object with
  | none => exact h.mono fun _ _ _ hlive => ⟨hlive, nofun⟩
  | some object =>
      refine (h.ends (.stopPeerRecordingOfRoom s object)).mono ?_
      rintro t tap - ⟨hlive, hne⟩
      exact ⟨hlive, fun heq => hne (Option.some.inj heq).symm⟩

theorem sfu_dropPeer (s : State Ref δ) (object : Option Ref) :
    (s.dropPeer object).sfu = s.sfu := by
  cases object with
  | none => rfl
  | some object => exact (Ends.stopPeerRecordingOfRoom s object).sfu

end State

variable [DecidableEq Ref]

namespace Call

variable {s s' : State Ref δ} {i : Ref} {ok : Bool}

def onRoom : Call Ref → Bool
  | .mediaRooms call _ => call.onRoom
  | .produce .. => true

theorem stepMediaRooms_tracked {call : Sfu.Call Ref} {c : Call Ref} (hroom : call.onRoom)
    (h : s.Tracked) (hs : stepMediaRooms i ok s call = some (s', c)) :
    s'.Tracked ∧ c.onRoom := by
  obtain ⟨r, hr, heq⟩ := Option.map_eq_some_iff.1 hs
  cases heq
  have hkeeps := Sfu.Call.step_keepsPeers hroom hr
  have hroom' := Sfu.Call.step_onRoom hroom hr
  have hdropped := h.stored.dropPeer (Recording.removing ok s.sfu call)
  have hrouter : r.1.routerOpen =
      (s.dropPeer (Recording.removing ok s.sfu call)).sfu.routerOpen := by
    rw [hkeeps.routerOpen, s.sfu_dropPeer]
  have hentered := (hdropped.setSfu hrouter).enter i hroom'
  have hsfu := State.sfu_enter
    { s.dropPeer (Recording.removing ok s.sfu call) with sfu := r.1 } i r.2
  refine ⟨⟨?_, ?_⟩, hroom'⟩
  · rw [hsfu]
    exact hkeeps.keyed h.keyed
  · rw [hsfu]
    refine hentered.mono ?_
    rintro t tap - ⟨⟨hlive, hgone⟩, hstop⟩
    refine hkeeps.recordsPeer h.keyed hlive hgone ?_
    rintro ⟨roomId, heq⟩
    exact hstop roomId _ heq (hkeeps.hasObject h.keyed _ _ hlive.2 hgone)

theorem stepProduce_tracked {roomId : RoomId} {peerId : PeerId} {transportId : Ref}
    {kind : MediaKind} {point : Sfu.Produce Ref} {c : Call Ref} (h : s.Tracked)
    (hs : stepProduce i roomId peerId transportId kind ok s point = some (s', c)) :
    s'.Tracked ∧ c.onRoom := by
  obtain ⟨r, hr, heq⟩ := Option.map_eq_some_iff.1 hs
  cases heq
  have hkeeps : Sfu.State.KeepsPeers (fun _ => False) (fun _ => False) s.sfu r.1 :=
    Sfu.Produce.step_keepsPeers hr
  have hmoved : ({ s with sfu := r.1 } : State Ref δ).Tracked := by
    refine ⟨hkeeps.keyed h.keyed, (h.stored.setSfu hkeeps.routerOpen).mono ?_⟩
    exact fun _ _ _ hlive => hkeeps.recordsPeer h.keyed hlive id id
  refine ⟨?_, rfl⟩
  split
  · split
    · exact hmoved
    · refine ⟨?_, ?_⟩
      · rw [State.sfu_tapProducer]
        exact hmoved.keyed
      · rw [State.sfu_tapProducer]
        exact hmoved.stored.tapProducer _ _ _ _ _ _
  · exact hmoved

theorem Step.tracked {c c' : Call Ref} (hs : Step i ok s c s' c') (h : s.Tracked)
    (hroom : c.onRoom) : s'.Tracked ∧ c'.onRoom := by
  have hmeetings (meetings : List Meeting) :
      ({ s with meetings := meetings } : State Ref δ).Tracked :=
    ⟨h.keyed, h.stored.frame (fun _ => ⟨rfl, rfl⟩)
      (fun t tap htap => ⟨tap, htap, rfl, rfl⟩) (fun _ => rfl) fun _ hopen => hopen⟩
  cases hs with
  | mediaRoomsWorks => exact ⟨hmeetings _, hroom⟩
  | produceWorks => exact ⟨hmeetings _, hroom⟩
  | mediaRooms _ hstep => exact stepMediaRooms_tracked hroom (hmeetings _) hstep
  | produce hstep => exact stepProduce_tracked (hmeetings _) hstep

end Call

/-! ## The taps -/

/--
The tap loses sight of nothing: it creates its transport for a peer that is still
being recorded, and what its field holds when it writes to it is closed.
-/
def Tap.KeepsTrack (s : State Ref δ) (t : TapId Ref) (tap : Tap Ref δ) (ok : Bool) : Prop :=
  (tap.point = .createPlainTransport → ok = true →
    s.sfu.RecordsPeer tap.room t.2 ∧
      ∀ t' ∈ (s.peer t.2).plainTransport, s.plainTransportOpen t' = false) ∧
  (tap.point = .consume → ok = false →
    ∀ t' ∈ (s.peer t.2).plainTransport, t' ≠ t → s.plainTransportOpen t' = false) ∧
  (tap.point = .startRecordingSession →
    ∀ t' ∈ (s.peer t.2).recordingSession, s.sessionOpen t' = false)

instance (s : State Ref δ) (t : TapId Ref) (tap : Tap Ref δ) (ok : Bool) :
    Decidable (tap.KeepsTrack s t ok) :=
  inferInstanceAs (Decidable (_ ∧ _))

namespace State.Stored

variable {live : Ref → Ref → Prop} {s s' : State Ref δ} {t : TapId Ref} {tap : Tap Ref δ}

/--
A tap moves on and its peer's fields with it.  A field that changes lets go of
nothing open but what belongs to the tap.
-/
theorem move (h : Stored live s) (htap : s.tap t = some tap) {f : Tap Ref δ → Tap Ref δ}
    {g : TappedPeer Ref → TappedPeer Ref}
    (htransportField : (g (s.peer t.2)).plainTransport = (s.peer t.2).plainTransport ∨
      (∀ t', (g (s.peer t.2)).plainTransport = some t' → t' = t) ∧
        ∀ t', (s.peer t.2).plainTransport = some t' → t' ≠ t →
          s.plainTransportOpen t' = false)
    (hsessionField : (g (s.peer t.2)).recordingSession = (s.peer t.2).recordingSession ∨
      (∀ t', (g (s.peer t.2)).recordingSession = some t' → t' = t) ∧
        ∀ t', (s.peer t.2).recordingSession = some t' → t' ≠ t →
          s.sessionOpen t' = false)
    (htransport : (s.updateTap t f).plainTransportOpen t = true →
      (g (s.peer t.2)).plainTransport = some t ∧ live (f tap).room t.2)
    (hsession : (s.updateTap t f).sessionOpen t = true →
      (f tap).point = .startRecordingSession ∨
        (g (s.peer t.2)).recordingSession = some t ∧ ((f tap).point = .connect ∨
          (s.updateTap t f).plainTransportOpen t = true)) :
    Stored live ((s.updateTap t f).updatePeer t.2 g) := by
  have hself : (s.updateTap t f).tap t = some (f tap) := by
    rw [tap_updateTap_self, htap, Option.map_some]
  have hpeer : ((s.updateTap t f).updatePeer t.2 g).peer t.2 = g (s.peer t.2) :=
    Function.update_self ..
  have hpeers {object : Ref} (hne : object ≠ t.2) :
      ((s.updateTap t f).updatePeer t.2 g).peer object = s.peer object :=
    Function.update_of_ne hne ..
  refine ⟨fun object t' ht' => ?_, fun object t' ht' => ?_, fun t' tap' htap' hopen => ?_,
    fun t' tap' htap' hopen => ?_⟩
  · by_cases hobject : object = t.2
    · subst hobject
      rw [hpeer] at ht'
      rcases htransportField with hsame | ⟨hown, -⟩
      · exact h.transportOwn t.2 t' (hsame.symm.trans ht')
      · rw [hown t' ht']
    · rw [hpeers hobject] at ht'
      exact h.transportOwn object t' ht'
  · by_cases hobject : object = t.2
    · subst hobject
      rw [hpeer] at ht'
      rcases hsessionField with hsame | ⟨hown, -⟩
      · exact h.sessionOwn t.2 t' (hsame.symm.trans ht')
      · rw [hown t' ht']
    · rw [hpeers hobject] at ht'
      exact h.sessionOwn object t' ht'
  · by_cases ht : t' = t
    · subst ht
      obtain rfl := Option.some.inj (hself.symm.trans htap')
      rw [hpeer]
      exact htransport hopen
    · have hold := (s.plainTransportOpen_updateTap_of_ne t t' f ht).symm.trans hopen
      obtain ⟨hstored, hrest⟩ :=
        h.transport t' tap' ((tap_updateTap_of_ne s f ht).symm.trans htap') hold
      by_cases hobject : t'.2 = t.2
      · rw [hobject] at hstored hrest ⊢
        rw [hpeer]
        rcases htransportField with hsame | ⟨-, hclosed⟩
        · exact ⟨hsame.trans hstored, hrest⟩
        · cases (hclosed t' hstored ht).symm.trans hold
      · rw [hpeers hobject]
        exact ⟨hstored, hrest⟩
  · by_cases ht : t' = t
    · subst ht
      obtain rfl := Option.some.inj (hself.symm.trans htap')
      rw [hpeer]
      exact hsession hopen
    · have hold := (s.sessionOpen_updateTap_of_ne t t' f ht).symm.trans hopen
      have hrest := h.session t' tap' ((tap_updateTap_of_ne s f ht).symm.trans htap') hold
      rw [← s.plainTransportOpen_updateTap_of_ne t t' f ht] at hrest
      by_cases hobject : t'.2 = t.2
      · rw [hobject] at hrest ⊢
        rw [hpeer]
        refine hrest.imp_right fun hrest => ⟨?_, hrest.2⟩
        rcases hsessionField with hsame | ⟨-, hclosed⟩
        · exact hsame.trans hrest.1
        · cases (hclosed t' hrest.1 ht).symm.trans hold
      · rw [hpeers hobject]
        exact hrest

theorem moveTap (h : Stored live s) (htap : s.tap t = some tap)
    {f : Tap Ref δ → Tap Ref δ}
    (htransport : (s.updateTap t f).plainTransportOpen t = true →
      (s.peer t.2).plainTransport = some t ∧ live (f tap).room t.2)
    (hsession : (s.updateTap t f).sessionOpen t = true →
      (f tap).point = .startRecordingSession ∨
        (s.peer t.2).recordingSession = some t ∧ ((f tap).point = .connect ∨
          (s.updateTap t f).plainTransportOpen t = true)) :
    Stored live (s.updateTap t f) := by
  have hmoved := h.move (g := id) htap (.inl rfl) (.inl rfl) htransport hsession
  have hsame : (s.updateTap t f).updatePeer t.2 id = s.updateTap t f := by
    rw [State.updatePeer, id, Function.update_eq_self]
  rwa [hsame] at hmoved

/-- A tap goes on without opening anything; it is not waiting with a session. -/
theorem goes (h : Stored live s) {f : Tap Ref δ → Tap Ref δ} (htap : s.tap t = some tap)
    (htransport : ∀ tap, (f tap).plainTransport = tap.plainTransport ∧
      (f tap).room = tap.room)
    (hsession : ∀ tap, (f tap).session = tap.session)
    (hpoint : s.sessionOpen t = true → tap.point ≠ .startRecordingSession ∧
      (tap.point ≠ .connect ∨ s.plainTransportOpen t = true)) :
    Stored live (s.updateTap t f) := by
  refine h.moveTap htap (fun hopen => ?_) fun hopen => ?_
  · rw [plainTransportOpen_updateTap s t t htransport] at hopen
    rw [(htransport tap).2]
    exact h.transport t tap htap hopen
  · rw [sessionOpen_updateTap s t t hsession] at hopen
    rw [plainTransportOpen_updateTap s t t htransport]
    obtain ⟨hstart, hconnect⟩ := hpoint hopen
    obtain ⟨hstored, hrest⟩ := (h.session t tap htap hopen).resolve_left hstart
    refine .inr ⟨hstored, .inr ?_⟩
    exact hrest.elim (fun hpoint => hconnect.resolve_left (not_not.2 hpoint)) id

theorem created (h : Stored live s) (htap : s.tap t = some tap)
    (hsession : s.sessionOpen t = false) (hlive : live tap.room t.2)
    (hfield : ∀ t', (s.peer t.2).plainTransport = some t' →
      s.plainTransportOpen t' = false) :
    Stored live ((s.updateTap t fun tap =>
      { tap with plainTransport := .opened, point := .consume }).updatePeer t.2
        fun peer => { peer with plainTransport := some t }) := by
  refine h.move htap (.inr ⟨?_, fun t' ht' _ => hfield t' ht'⟩) (.inl rfl)
    (fun _ => ⟨rfl, hlive⟩) fun hopen => ?_
  · exact fun t' ht' => (Option.some.inj ht').symm
  · rw [sessionOpen_updateTap] at hopen
    · cases hsession.symm.trans hopen
    · exact fun _ => rfl

theorem notConsumed (h : Stored live s) (htap : s.tap t = some tap)
    (hsession : s.sessionOpen t = false)
    (hfield : ∀ t', (s.peer t.2).plainTransport = some t' → t' ≠ t →
      s.plainTransportOpen t' = false) :
    Stored live (((s.closePlainTransport t).setPoint t .returned).updatePeer t.2
      fun peer => { peer with plainTransport := none }) := by
  have hopen := s.plainTransportOpen_closePlainTransport t
  have hsession' := (s.sessionOpen_closePlainTransport t t).trans hsession
  have hclosed : Stored live (s.closePlainTransport t) := by
    refine h.moveTap htap (fun hopen' => ?_) fun hopen' => ?_
    · cases ((hopen t).trans (if_pos rfl)).symm.trans hopen'
    · cases hsession'.symm.trans hopen'
  have htap' : (s.closePlainTransport t).tap t = some { tap with plainTransport := .closed } :=
    (tap_updateTap_self s _).trans (by rw [htap]; rfl)
  refine hclosed.move htap' (.inr ⟨nofun, fun t' ht' hne => ?_⟩) (.inl rfl)
    (fun hopen' => ?_) fun hopen' => ?_
  · rw [hopen, if_neg hne]
    exact hfield t' ht' hne
  · rw [plainTransportOpen_updateTap, hopen, if_pos rfl] at hopen'
    · cases hopen'
    · exact fun _ => ⟨rfl, rfl⟩
  · rw [sessionOpen_updateTap] at hopen'
    · cases hsession'.symm.trans hopen'
    · exact fun _ => rfl

theorem bound (h : Stored live s) (htap : s.tap t = some tap)
    (session : RecordingSession δ) :
    Stored live (s.updateTap t fun tap =>
      { tap with session := some session, point := .startRecordingSession }) := by
  refine h.moveTap htap (fun hopen => ?_) fun _ => .inl rfl
  rw [plainTransportOpen_updateTap] at hopen
  · exact h.transport t tap htap hopen
  · exact fun _ => ⟨rfl, rfl⟩

theorem started (h : Stored live s) (htap : s.tap t = some tap)
    (hfield : ∀ t', (s.peer t.2).recordingSession = some t' → s.sessionOpen t' = false) :
    Stored live ((s.setPoint t .connect).updatePeer t.2 fun peer =>
      { peer with recordingSession := some t }) := by
  refine h.move htap (.inl rfl) (.inr ⟨?_, fun t' ht' _ => hfield t' ht'⟩)
    (fun hopen => ?_) fun _ => .inr ⟨rfl, .inl rfl⟩
  · exact fun t' ht' => (Option.some.inj ht').symm
  · rw [plainTransportOpen_updateTap] at hopen
    · exact h.transport t tap htap hopen
    · exact fun _ => ⟨rfl, rfl⟩

theorem notConnected (h : Stored live s) (htap : s.tap t = some tap)
    (hpoint : tap.point = .connect) (closing : Option (TapId Ref)) :
    Stored live ((s.stopPeerRecording t.2).1.setPoint t (.cleanUp closing)) := by
  have hends := Ends.stopPeerRecording s t.2
  have hended := h.ends hends
  obtain ⟨tap', htap', hstops⟩ := hends.stops.of_some htap
  have hgone : Stored (fun r other => live r other ∧ other ≠ t.2)
      ((s.stopPeerRecording t.2).1.setPoint t (.cleanUp closing)) := by
    refine hended.goes htap' (fun _ => ⟨rfl, rfl⟩) (fun _ => rfl) fun hopen => ?_
    rcases hended.session t tap' htap' hopen with hstart | ⟨hstored, -⟩
    · rw [hstops.point, hpoint] at hstart
      cases hstart
    · cases hends.recordingSession.symm.trans hstored
  exact hgone.mono fun _ _ _ hlive => hlive.1

omit [DecidableEq Ref] in
theorem setDisk (h : Stored live s) (disk : Path → Bytes) :
    Stored live { s with disk := disk } :=
  ⟨h.transportOwn, h.sessionOwn, h.transport, h.session⟩

theorem tapStep {env : Env δ} {ok : Bool} (h : s.Stored s.sfu.RecordsPeer)
    (hnamed : tap.Named env) (htap : s.tap t = some tap) (hkeeps : tap.KeepsTrack s t ok)
    (hstep : TapStep env s t tap ok s') :
    s'.Stored s.sfu.RecordsPeer ∧ s'.sfu = s.sfu := by
  obtain ⟨hcreate, hconsume, hstart⟩ := hkeeps
  have hnone (hpoint : tap.point.beforeOpen = true) : s.sessionOpen t = false := by
    simp [sessionOpen, htap,
      hnamed.sessionless (TapPoint.sessionless_of_beforeOpen hpoint)]
  cases hstep with
  | passed hpasses =>
      refine ⟨h.goes htap (fun _ => ⟨rfl, rfl⟩) (fun _ => rfl) fun _ => ?_, rfl⟩
      generalize tap.point = point at hpasses
      cases hpasses <;> simp
  | named hpoint =>
      refine ⟨h.goes htap (fun _ => ⟨rfl, rfl⟩) (fun _ => rfl) fun _ => ?_, rfl⟩
      simp [hpoint]
  | created hpoint =>
      obtain ⟨hlive, hfield⟩ := hcreate hpoint rfl
      exact ⟨h.created htap (hnone (by rw [hpoint]; rfl)) hlive hfield, rfl⟩
  | consumed hpoint =>
      have hgone : (s.updateTap t fun tap => { tap with
          recordingConsumer := .opened, point := .open }).Stored s.sfu.RecordsPeer :=
        h.goes htap (fun _ => ⟨rfl, rfl⟩) (fun _ => rfl) fun _ => by simp [hpoint]
      exact ⟨hgone.updatePeer t.2 fun _ => ⟨rfl, rfl⟩, rfl⟩
  | notConsumed hpoint =>
      have hnone := hnone (by rw [hpoint]; rfl)
      exact ⟨h.notConsumed htap hnone (hconsume hpoint rfl), rfl⟩
  | opened hpoint =>
      refine ⟨(h.setDisk _).goes htap (fun _ => ⟨rfl, rfl⟩) (fun _ => rfl) fun _ => ?_, rfl⟩
      simp [hpoint]
  | headed hpoint =>
      refine ⟨(h.setDisk _).goes htap (fun _ => ⟨rfl, rfl⟩) (fun _ => rfl) fun _ => ?_, rfl⟩
      simp [hpoint]
  | bound => exact ⟨h.bound htap _, rfl⟩
  | started hpoint => exact ⟨h.started htap (hstart hpoint), rfl⟩
  | connected hpoint hopen =>
      refine ⟨h.goes htap (fun _ => ⟨rfl, rfl⟩) (fun _ => rfl) fun _ => ?_, rfl⟩
      exact ⟨by simp [hpoint], .inr hopen⟩
  | notConnected hpoint =>
      exact ⟨h.notConnected htap hpoint (s.stopPeerRecording t.2).2,
        (Ends.stopPeerRecording s t.2).sfu⟩

theorem touch (h : Stored live s) {f : Tap Ref δ → Tap Ref δ}
    (hf : ∀ tap, (f tap).room = tap.room ∧ (f tap).point = tap.point ∧
      (f tap).plainTransport = tap.plainTransport)
    (hsession : (s.updateTap t f).sessionOpen t = true → s.sessionOpen t = true) :
    Stored live (s.updateTap t f) := by
  refine h.frame (fun _ => ⟨rfl, rfl⟩) (fun t' tap' htap' => ?_)
    (fun t' => s.plainTransportOpen_updateTap t t' fun tap => ⟨(hf tap).2.2, (hf tap).1⟩)
    fun t' hopen => ?_
  · by_cases ht : t' = t
    · subst ht
      rw [tap_updateTap_self] at htap'
      obtain ⟨tap, htap, rfl⟩ := Option.map_eq_some_iff.1 htap'
      exact ⟨tap, htap, (hf tap).1, (hf tap).2.1⟩
    · rw [tap_updateTap_of_ne s f ht] at htap'
      exact ⟨tap', htap', rfl, rfl⟩
  · by_cases ht : t' = t
    · subst ht
      exact hsession hopen
    · exact (s.sessionOpen_updateTap_of_ne t t' f ht).symm.trans hopen

theorem message {env : Env δ} {msg : Bytes} (h : Stored live s)
    (hs : s.message env t msg = some s') : Stored live s' ∧ s'.sfu = s.sfu := by
  obtain ⟨tap, session, handle, htap, hsession, -, rfl⟩ := State.message_cases hs
  refine ⟨h.touch (fun _ => ⟨rfl, rfl, rfl⟩) fun hopen => ?_, rfl⟩
  rw [sessionOpen, tap_updateTap_self, htap] at hopen
  rw [sessionOpen, htap]
  simpa [hsession, (handleRtpPacket_frame env session msg).2.1] using hopen

theorem written {k : Nat} (h : Stored live s) (hs : s.written t k = some s') :
    Stored live s' ∧ s'.sfu = s.sfu := by
  obtain ⟨tap, handle, chunk, htap, -, -, rfl⟩ := State.written_cases hs
  refine ⟨(h.setDisk _).touch (fun _ => ⟨rfl, rfl, rfl⟩) fun hopen => ?_, rfl⟩
  rw [sessionOpen_updateTap] at hopen
  · exact hopen
  · exact fun _ => rfl

theorem closeStep {ok : Bool} (h : Stored live s) (hs : s.closeStep t ok = some s') :
    Stored live s' ∧ s'.sfu = s.sfu := by
  have hset {s : State Ref δ} (h : Stored live s) (closing : Closing) :
      Stored live (s.setClosing t closing) := by
    refine h.touch (fun _ => ⟨rfl, rfl, rfl⟩) fun hopen => ?_
    rw [sessionOpen_updateTap] at hopen
    · exact hopen
    · exact fun _ => rfl
  obtain ⟨tap, session, handle, -, -, -, hstep⟩ := State.closeStep_cases hs
  cases hstep with
  | riffSize => exact ⟨hset (h.setDisk _) _, rfl⟩
  | dataSize => exact ⟨hset (h.setDisk _) _, rfl⟩
  | close => exact ⟨hset h _, rfl⟩
  | failed => exact ⟨hset h _, rfl⟩

theorem producerclose (h : Stored live s) (hs : s.producerclose t = some s') :
    Stored live s' ∧ s'.sfu = s.sfu := by
  unfold State.producerclose at hs
  split at hs <;> cases hs
  have hclosed : Stored live (s.closeConsumer t) := by
    refine h.touch (fun _ => ⟨rfl, rfl, rfl⟩) fun hopen => ?_
    rw [sessionOpen_updateTap] at hopen
    · exact hopen
    · exact fun _ => rfl
  exact ⟨hclosed.stopPeerRecording t.2, (Ends.stopPeerRecording _ t.2).sfu⟩

theorem socketError (h : Stored live s) (hs : s.socketError t = some s') :
    Stored live s' ∧ s'.sfu = s.sfu := by
  unfold State.socketError at hs
  split at hs <;> cases hs
  obtain ⟨hsfu, hpeer⟩ := s.closeRecordingSession_frame t
  have hstops := Stops.closeRecordingSession (A := True) s t
  refine ⟨h.frame (fun object => ?_) (fun t' tap' htap' => ?_)
    (s.plainTransportOpen_closeRecordingSession t)
    fun t' hopen => sessionOpen_of_stops hstops hopen, hsfu⟩
  · rw [hpeer]
    exact ⟨rfl, rfl⟩
  · obtain ⟨tap, htap, hstop⟩ := hstops.to_some htap'
    exact ⟨tap, htap, hstop.room, hstop.point⟩

end State.Stored

/-! ## Nothing is orphaned -/

def Call.inFlight : Call Ref → Bool
  | .mediaRooms (.getOrCreateRoom _ (.pending _)) _
  | .mediaRooms (.getOrCreateRoom _ (.createRouter _)) _
  | .mediaRooms (.createTransport _ _ _ (.createWebRtcTransport _ _ _)) _
  | .mediaRooms (.startRecording _ _ (.files _)) _
  | .mediaRooms (.stopRecording _ (.files _)) _
  | .mediaRooms (.closeRoom _ (.stopRecording _)) _
  | .produce _ _ _ _ (.transportProduce _ _ _) _
  | .produce _ _ _ _ (.tapProducer _) _ => true
  | _ => false

def TapPoint.inFlight : TapPoint Ref → Bool
  | .returned | .threw => false
  | _ => true

def Closing.inFlight : Closing → Bool
  | .riffSize | .dataSize | .close => true
  | .no | .closed | .threw | .abandoned => false

/-- No call, no tap and no closing is in flight. -/
def Process.Quiet (p : Process Ref δ) : Prop :=
  (∀ i, (p.proc i).inFlight = false) ∧
    ∀ t, ∀ tap ∈ p.world.tap t, tap.point.inFlight = false ∧ tap.closing.inFlight = false

/--
Every open session and every open transport is stored in a peer of its room, and
a room that is not recording has no open session.
-/
def NoOrphans (p : Process Ref δ) : Prop :=
  p.Quiet → ∀ t, ∀ tap ∈ p.world.tap t,
    (p.world.sessionOpen t = true → (p.world.sfu.room tap.room).recording = true ∧
      ∃ peer ∈ Dict.values (p.world.sfu.room tap.room).peers,
        (p.world.peer peer.object).recordingSession = some t) ∧
    (p.world.plainTransportOpen t = true →
      ∃ peer ∈ Dict.values (p.world.sfu.room tap.room).peers,
        (p.world.peer peer.object).plainTransport = some t)

instance [Fintype Ref] (p : Process Ref δ) : Decidable (NoOrphans p) :=
  inferInstanceAs (Decidable ((_ ∧ _) → ∀ t, ∀ tap ∈ p.world.tap t, _))

omit [DecidableEq Ref] in
theorem State.Tracked.noOrphans {p : Process Ref δ} (h : p.world.Tracked) : NoOrphans p := by
  intro hquiet t tap htap
  have hpoint := (hquiet.2 t tap htap).1
  have htransport (hopen : p.world.plainTransportOpen t = true) :=
    h.stored.transport t tap htap hopen
  refine ⟨fun hopen => ?_, fun hopen => ?_⟩
  · rcases h.stored.session t tap htap hopen with hstart | ⟨hstored, hconnect | hopen⟩
    · rw [hstart] at hpoint
      cases hpoint
    · rw [hconnect] at hpoint
      cases hpoint
    · obtain ⟨hrecording, peer, hpeer, hobject⟩ := (htransport hopen).2
      exact ⟨hrecording, peer, hpeer, hobject ▸ hstored⟩
  · obtain ⟨hstored, -, peer, hpeer, hobject⟩ := htransport hopen
    exact ⟨peer, hpeer, hobject ▸ hstored⟩

/-- The condition on a step. -/
def KeepsTrack (p : Process Ref δ) : Happening Ref → Prop
  | .tap t ok => ∀ tap ∈ p.world.tap t, tap.KeepsTrack p.world t ok
  | _ => True

theorem State.Tracked.preserves (env : Env δ) :
    (process env : System (Process Ref δ) (Happening Ref)).Preserves KeepsTrack fun p =>
      p.world.Taps (Tap.Named env) ∧ (∀ i, (p.proc i).onRoom) ∧ p.world.Tracked := by
  intro p a p' h hkeeps hstep
  obtain ⟨hnamed, hroom, h⟩ := h
  refine ⟨Tap.Named.preserves hnamed trivial hstep, ?_⟩
  have hworld {s' : State Ref δ} (hs : s'.Stored p.world.sfu.RecordsPeer ∧ s'.sfu = p.world.sfu) :
      s'.Tracked := by
    refine ⟨?_, ?_⟩
    · rw [hs.2]
      exact h.keyed
    · rw [hs.2]
      exact hs.1
  cases process_cases hstep with
  | @call i ok s' c' hcall =>
      obtain ⟨htracked, hroom'⟩ := hcall.tracked h (hroom i)
      refine ⟨fun j => ?_, htracked⟩
      rw [Pool.set_proc]
      split
      · exact hroom'
      · exact hroom j
  | tap htap htapStep =>
      exact ⟨hroom, hworld (h.stored.tapStep (hnamed _ _ htap) htap (hkeeps _ htap)
        htapStep)⟩
  | message hs => exact ⟨hroom, hworld (h.stored.message hs)⟩
  | written hs => exact ⟨hroom, hworld (h.stored.written hs)⟩
  | close hs => exact ⟨hroom, hworld (h.stored.closeStep hs)⟩
  | producerclose hs => exact ⟨hroom, hworld (h.stored.producerclose hs)⟩
  | socketError hs => exact ⟨hroom, hworld (h.stored.socketError hs)⟩

/--
A run on existing rooms in which no tap creates its transport for a peer that is
not being recorded any more, and none overwrites or forgets what another tap has
stored, orphans nothing.
-/
theorem holds_noOrphans (env : Env δ) {sfu : Sfu.State Ref} (hkeyed : sfu.Keyed)
    {requests : Ref → Request Ref} (hrequests : ∀ i, (requests i).call.onRoom)
    (labels : List (Happening Ref))
    (h : (process env).Meets KeepsTrack (Process.start sfu requests) labels) :
    (process env).Holds NoOrphans (Process.start sfu requests) labels :=
  h.holds (State.Tracked.preserves env) (fun _ hI => hI.2.2.noOrphans)
    ⟨.unrecorded sfu, hrequests, hkeyed, .unrecorded sfu⟩

/-! Ann's recording is started and stopped in her room. -/

namespace OnePeer

/-- The room, its peer and the audio producer are there. -/
def sfu : Sfu.State Caller :=
  ((process env).run (start (.stopRecording "r")) produced).world.sfu

def startAndStop : Caller → Request Caller
  | .fourth => .mediaRooms (.startRecording "r" [("p", "Ann")])
  | .fifth => .mediaRooms (.stopRecording "r")
  | _ => .mediaRooms (.removePeer "r" "q")

def taps (n : Nat) : List (Happening Caller) := List.replicate n (.tap (.fourth, .second) true)

/-- `stopRecording` runs with its files. -/
def stopped : List (Happening Caller) := List.replicate 4 (.call .fifth true)

end OnePeer

open OnePeer in
theorem keyed_sfu : sfu.Keyed := by
  have hkeyed : ∀ r, ∀ entry ∈ (sfu.room r).peers.entries, entry.2.id = entry.1 := by
    decide +kernel
  exact fun r => Sfu.MediaRoom.keyed_iff.2 (hkeyed r)

instance [Fintype Ref] (p : Process Ref δ) : ∀ a, Decidable (KeepsTrack p a)
  | .tap t _ => inferInstanceAs (Decidable (∀ tap ∈ p.world.tap t, _))
  | .call _ _ | .message _ _ | .written _ _ | .close _ _ | .producerclose _
  | .socketError _ => .isTrue trivial

open OnePeer in
/-- The tap is finished before the recording is stopped. -/
theorem holds_noOrphans_startAndStop :
    (process env).Holds NoOrphans (Process.start sfu startAndStop)
      (.call .fourth true :: taps 9 ++ .call .fourth true :: .call .fifth true ::
        closed ++ stopped) :=
  holds_noOrphans env keyed_sfu (by decide) _ (by decide +kernel)

open OnePeer in
/-- The recording is stopped while the tap waits for its transport. -/
theorem not_holds_noOrphans_startAndStop :
    ¬ (process env).Holds NoOrphans (Process.start sfu startAndStop)
      (.call .fourth true :: taps 2 ++ stopped ++ taps 7 ++ [.call .fourth true]) := by
  intro h
  have hlast := h.last
  revert hlast
  decide +kernel

end MeetServer.Recording
