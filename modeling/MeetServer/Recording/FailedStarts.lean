import MeetServer.Recording.Frames

/-!
# Starting a recording

`startRoomRecording` sets the flag first and nothing takes it back: after a call
that has rejected the room is recording, whatever its taps have cleaned up.  The
call rejects exactly when one of its taps throws.
-/

namespace MeetServer.Sfu

/-- The room `roomId` keeps its object `r` and whether it is being recorded. -/
structure State.KeepsRecording {Ref : Type} (roomId : RoomId) (r : Ref) (s s' : State Ref) :
    Prop where
  lookup : s'.rooms.lookup roomId = s.rooms.lookup roomId
  recording : (s'.room r).recording = (s.room r).recording

theorem State.KeepsRecording.of_eq {Ref : Type} {roomId : RoomId} {r : Ref} {s s' : State Ref}
    (h : s' = s) : s.KeepsRecording roomId r s' := by
  subst h
  exact ⟨rfl, rfl⟩

end MeetServer.Sfu

namespace MeetServer.Recording

open MeetServer.Foundation

variable {Ref δ : Type}

/-! ## The failures of a tap -/

/-- What the tap waits for fails, and `tapPeer` throws; a failed `createPlainTransport`,
`consume` or `connect` is only logged. -/
def TapPoint.fails (s : State Ref δ) (ok : Bool) : TapPoint Ref → Bool
  | .stopPeerRecording closing | .cleanUp closing => s.stopped closing = some false
  | .mkdir | .open | .writeHeader | .bind => !ok
  | _ => false

namespace State

variable [DecidableEq Ref] {env : Env δ} {s s' : State Ref δ} {t : TapId Ref}

theorem pointOf_updateTap (s : State Ref δ) {f : Tap Ref δ → Tap Ref δ} {tap : Tap Ref δ}
    (htap : s.tap t = some tap) : (s.updateTap t f).pointOf t = some (f tap).point := by
  rw [pointOf, tap_updateTap_self, htap]
  rfl

theorem passes_of_threw {tap : Tap Ref δ} {ok : Bool} (htap : s.tap t = some tap)
    (h : TapStep env s t tap ok s') (hthrew : s'.pointOf t = some .threw) :
    tap.point.Passes .threw := by
  have hmoved (s₁ : State Ref δ) (f : Tap Ref δ → Tap Ref δ) {tap : Tap Ref δ}
      (htap : s₁.tap t = some tap) : (s₁.updateTap t f).pointOf t = some (f tap).point :=
    s₁.pointOf_updateTap htap
  cases h with
  | passed hpasses =>
      obtain rfl := Option.some.inj ((hmoved s _ htap).symm.trans hthrew)
      exact hpasses
  | notConsumed =>
      cases (hmoved (s.closePlainTransport t) _
        (by rw [closePlainTransport, tap_updateTap_self, htap]; rfl)).symm.trans hthrew
  | notConnected =>
      obtain ⟨tap', htap', -⟩ := (Stops.stopPeerRecording (A := True) s t.2).of_some htap
      cases (hmoved _ _ htap').symm.trans hthrew
  | _ => cases (hmoved _ _ htap).symm.trans hthrew

/-- A tap throws where what it waits for fails. -/
theorem pointOf_tapStep {ok : Bool} (h : s.tapStep env t ok = some s') :
    ∃ point, s.pointOf t = some point ∧ point.inFlight = true ∧
      (s'.pointOf t = some .threw ↔ point.fails s ok) := by
  obtain ⟨_, htapAt, hstep⟩ := tapStep_cases h
  unfold tapStep at h
  split at h
  · cases h
  · next tap htap =>
    obtain rfl := Option.some.inj (htap.symm.trans htapAt)
    have hmoved (s₁ : State Ref δ) (f : Tap Ref δ → Tap Ref δ) (htap : s₁.tap t = some tap) :
        (s₁.updateTap t f).pointOf t = some (f tap).point := s₁.pointOf_updateTap htap
    refine ⟨tap.point, by rw [pointOf, htap]; rfl, ?_⟩
    cases hpoint : tap.point with
    | stopPeerRecording closing | cleanUp closing =>
        rw [hpoint] at h
        obtain ⟨stopped, hstopped, rfl⟩ := Option.map_eq_some_iff.1 h
        refine ⟨rfl, ?_⟩
        rw [setPoint, hmoved s _ htap]
        cases stopped <;> simp [TapPoint.fails, hstopped]
    | mkdir | «open» =>
        rw [hpoint] at h
        cases ok <;> cases h <;> refine ⟨rfl, ?_⟩
        · simp [setPoint, hmoved s _ htap, TapPoint.fails]
        · refine iff_of_false (fun hthrew => ?_) Bool.false_ne_true
          cases (hmoved _ _ htap).symm.trans hthrew
    | writeHeader | bind =>
        rw [hpoint] at h
        simp only at h
        split at h
        · cases h
        · cases ok <;> cases h <;> refine ⟨rfl, ?_⟩
          · simp [setPoint, hmoved s _ htap, TapPoint.fails]
          · refine iff_of_false (fun hthrew => ?_) Bool.false_ne_true
            cases (hmoved _ _ htap).symm.trans hthrew
    | createPlainTransport | consume | connect | startRecordingSession =>
        refine ⟨rfl, iff_of_false (fun hthrew => ?_) Bool.false_ne_true⟩
        have hpasses := passes_of_threw htap hstep hthrew
        rw [hpoint] at hpasses
        cases hpasses
    | returned | threw =>
        rw [hpoint] at h
        cases h

/-! ## Starting the taps -/

/-- The taps that the call `i` has started, none of which has thrown yet. -/
structure Started (i : Ref) (s : State Ref δ) (taps : List (TapId Ref)) : Prop where
  own : ∀ t ∈ taps, t.1 = i
  mem : ∀ object point, s.pointOf (i, object) = some point → (i, object) ∈ taps ∧ point ≠ .threw

theorem Started.startTap {i object room : Ref} {taps : List (TapId Ref)} (h : s.Started i taps)
    (roomId : RoomId) (peerId : PeerId) (producer : Sfu.Producer Ref) :
    (s.startTap (i, object) room roomId peerId producer).Started i (taps ++ [(i, object)]) := by
  refine ⟨fun t ht => ?_, fun other point hpoint => ?_⟩
  · rcases List.mem_append.1 ht with ht | ht
    · exact h.own t ht
    · rw [List.mem_singleton.1 ht]
  · by_cases hself : (i, other) = (i, object)
    · have htap : (s.startTap (i, object) room roomId peerId producer).tap (i, object) = some {
          room, roomId, peerId, producer,
          point := .stopPeerRecording (s.stopPeerRecording object).2 } :=
        Function.update_self ..
      have hnew := congrArg (Option.map Tap.point) htap
      rw [hself] at hpoint ⊢
      cases hnew.symm.trans hpoint
      exact ⟨by simp, nofun⟩
    · have hstops : s.StopsOn (· ≠ (i, object))
          (s.startTap (i, object) room roomId peerId producer) := .startTap s (not_not.2 rfl)
      rw [(KeepsTaps.of_stopsOn hstops).pointOf hself] at hpoint
      obtain ⟨hmem, hthrew⟩ := h.mem other point hpoint
      exact ⟨List.mem_append_left _ hmem, hthrew⟩

/-- The call waits for all the taps that it starts. -/
theorem started_startRoomRecording {i : Ref} (hnone : ∀ object, s.pointOf (i, object) = none)
    (r : Ref) (peers : List (PeerId × String)) :
    (s.startRoomRecording i r peers).1.Started i (s.startRoomRecording i r peers).2 := by
  refine List.foldlRecOn
    (motive := fun acc : State Ref δ × List (TapId Ref) => acc.1.Started i acc.2) _ _ ?_ ?_
  · refine ⟨nofun, fun object point hpoint => ?_⟩
    have hstops := StopsOn.setDisplayNames (Q := fun _ => True) s r peers
    rw [(KeepsTaps.of_stopsOn hstops).pointOf trivial, hnone] at hpoint
    cases hpoint
  · intro acc hacc peer _
    split
    · exact hacc
    · exact hacc.startTap _ _ _

end State

/-! ## The steps of the call -/

namespace Call

def startThrew : Call Ref → Bool
  | .mediaRooms (.startRecording _ _ .threw) _ => true
  | _ => false

def startSettled : Call Ref → Bool
  | .mediaRooms (.startRecording _ _ .returned) _ => true
  | call => call.startThrew

end Call

/-- How far the call `i` has come, with the room and with its taps. -/
inductive StartingAt (roomId : RoomId) (r i : Ref) (s : State Ref δ) : Call Ref → Prop
  | call {peers} : s.sfu.rooms.lookup roomId = some r →
      (∀ object, s.pointOf (i, object) = none) →
      StartingAt roomId r i s (.mediaRooms (.startRecording roomId peers .call) .none)
  | files {peers taps} : (s.sfu.room r).recording = true → (∀ t ∈ taps, t.1 = i) →
      (∀ object, s.pointOf (i, object) ≠ none → (i, object) ∈ taps) →
      StartingAt roomId r i s (.mediaRooms (.startRecording roomId peers (.files r)) (.taps taps))
  | returned {peers} :
      (∀ object point, s.pointOf (i, object) = some point → point = .returned) →
      StartingAt roomId r i s (.mediaRooms (.startRecording roomId peers .returned) .none)
  | threw {peers} : (s.sfu.room r).recording = true →
      (∃ object, s.pointOf (i, object) = some .threw) →
      StartingAt roomId r i s (.mediaRooms (.startRecording roomId peers .threw) .none)

def State.NoTapThrew (i : Ref) (s : State Ref δ) : Prop :=
  ∀ object, s.pointOf (i, object) ≠ some .threw

namespace StartingAt

variable {roomId : RoomId} {r i : Ref} {ok : Bool} {c c' : Call Ref} {s s' : State Ref δ}

theorem frame (h : StartingAt roomId r i s c) (hkeeps : s.sfu.KeepsRecording roomId r s'.sfu)
    (hpoints : ∀ object, s'.pointOf (i, object) = s.pointOf (i, object)) :
    StartingAt roomId r i s' c := by
  obtain ⟨hlookup, hrecording⟩ := hkeeps
  cases h with
  | call hr hnone =>
      exact .call (hlookup.trans hr) fun object => (hpoints object).trans (hnone object)
  | files hrec hown hmem =>
      refine .files (hrecording.trans hrec) hown fun object hpoint => hmem object ?_
      rwa [← hpoints object]
  | returned hreturned =>
      refine .returned fun object point hpoint => hreturned object point ?_
      rwa [← hpoints object]
  | threw hrec hthrew =>
      obtain ⟨object, hthrew⟩ := hthrew
      exact .threw (hrecording.trans hrec) ⟨object, (hpoints object).trans hthrew⟩

theorem tap {object : Ref} {point : TapPoint Ref} (h : StartingAt roomId r i s c)
    (hsfu : s'.sfu = s.sfu) (hpoint : s.pointOf (i, object) = some point)
    (hinFlight : point.inFlight = true)
    (hpoints : ∀ other, other ≠ object → s'.pointOf (i, other) = s.pointOf (i, other)) :
    StartingAt roomId r i s' c := by
  cases h with
  | call hr hnone => cases (hnone object).symm.trans hpoint
  | files hrec hown hmem =>
      refine .files (hsfu ▸ hrec) hown fun other hother => ?_
      by_cases heq : other = object
      · subst heq
        exact hmem other (by simp [hpoint])
      · exact hmem other (by rwa [← hpoints other heq])
  | returned hreturned =>
      cases hreturned object point hpoint
      cases hinFlight
  | threw hrec hthrew =>
      obtain ⟨other, hthrew⟩ := hthrew
      refine .threw (hsfu ▸ hrec) ⟨other, ?_⟩
      by_cases heq : other = object
      · subst heq
        cases Option.some.inj (hpoint.symm.trans hthrew)
        cases hinFlight
      · exact (hpoints other heq).trans hthrew

variable [DecidableEq Ref]

theorem step (h : StartingAt roomId r i s c) (hstep : c.step i ok s = some (s', c')) :
    StartingAt roomId r i s' c' ∧ (s'.NoTapThrew i ↔ s.NoTapThrew i) := by
  cases h with
  | @call peers hr hnone =>
      have hcall : Call.stepMediaRooms i ok s (.startRecording roomId peers .call) =
          some (s', c') := hstep
      let recorded := s.sfu.setRecording r true
      let s₁ : State Ref δ :=
        { s with sfu := recorded.setRoom r ((recorded.room r).setDisplayNames peers) }
      have hentered : s' = (s₁.startRoomRecording i r peers).1 ∧
          c' = .mediaRooms (.startRecording roomId peers (.files r))
            (.taps (s₁.startRoomRecording i r peers).2) := by
        simp only [Call.stepMediaRooms, Sfu.Call.step, Sfu.startRecordingStep, hr,
          Option.map_some, Option.some.injEq, Prod.mk.injEq] at hcall
        exact ⟨hcall.1.symm, hcall.2.symm⟩
      obtain ⟨rfl, rfl⟩ := hentered
      have hsfu : (s₁.startRoomRecording i r peers).1.sfu = s₁.sfu :=
        s₁.sfu_enter i (.startRecording roomId peers (.files r))
      have hrec : (s₁.sfu.room r).recording = true := by
        refine (congrArg Sfu.MediaRoom.recording (Sfu.State.room_setRoom _ r _)).trans ?_
        rw [(Sfu.MediaRoom.Keeps.setDisplayNames _ peers).recording]
        exact congrArg Sfu.MediaRoom.recording (Sfu.State.room_setRoom _ r _)
      have hstarted := s₁.started_startRoomRecording hnone r peers
      refine ⟨.files (hsfu ▸ hrec) hstarted.own fun object hpoint => ?_,
        iff_of_true (fun object hthrew => ?_) fun object => ?_⟩
      · obtain ⟨point, hpoint⟩ := Option.ne_none_iff_exists'.1 hpoint
        exact (hstarted.mem object point hpoint).1
      · exact (hstarted.mem object .threw hthrew).2 rfl
      · simp [hnone object]
  | @files peers taps hrec hown hmem =>
      obtain ⟨⟨s₁, r'⟩, hall, hnext⟩ := Option.bind_eq_some_iff.1 hstep
      obtain ⟨result, hresult, heq⟩ := Option.map_eq_some_iff.1 hall
      cases heq
      have hresumed : s' = s ∧ c' = .mediaRooms
          (.startRecording roomId peers (if result then .returned else .threw)) .none := by
        cases result <;> cases hnext <;> exact ⟨rfl, rfl⟩
      clear hstep hall hnext
      obtain ⟨rfl, rfl⟩ := hresumed
      refine ⟨?_, Iff.rfl⟩
      have houtcomes := State.all_cases hresult
      cases result with
      | true =>
          refine .returned fun object point hpoint => ?_
          have hmem := hmem object (by simp [hpoint])
          have htapped := houtcomes _ (List.mem_map_of_mem hmem)
          exact Option.some.inj (hpoint.symm.trans (State.tapped_eq_some_iff.1 htapped))
      | false =>
          obtain ⟨⟨call, object⟩, ht, htapped⟩ := List.mem_map.1 houtcomes
          cases hown _ ht
          exact .threw hrec ⟨object, State.tapped_eq_some_iff.1 htapped⟩
  | returned => cases hstep
  | threw => cases hstep

end StartingAt

/-! ## Runs -/

/-- Nothing that the tap has opened is open any more. -/
structure State.Released (s : State Ref δ) (t : TapId Ref) : Prop where
  plainTransport : s.plainTransportOpen t = false
  session : s.sessionOpen t = false
  fileHandle : ∀ tap ∈ s.tap t, tap.fileHandle ≠ none →
    tap.closing = .closed ∨ tap.closing = .abandoned

def TapsSettled (i : Ref) (p : Process Ref δ) : Prop :=
  ∀ object, ∀ tap ∈ p.world.tap (i, object), tap.point.inFlight = false

/-- A call that has thrown leaves no recording behind. -/
def StartUndone (i r : Ref) (p : Process Ref δ) : Prop :=
  (p.proc i).startThrew → TapsSettled i p →
    (p.world.sfu.room r).recording = false ∧ ∀ object, p.world.Released (i, object)

/-- Nothing that a tap of the call waits for fails it. -/
def TapSucceeds (i : Ref) (p : Process Ref δ) : Happening Ref → Prop
  | .tap t ok => t.1 = i → ∀ point ∈ p.world.pointOf t, point.fails p.world ok = false
  | _ => True

section Runs

variable [DecidableEq Ref] {env : Env δ} {roomId : RoomId} {peers : List (PeerId × String)}
  {i r : Ref} {p p' : Process Ref δ} {a : Happening Ref}

/-- No other call starts or stops the recording of the room. -/
def KeepsRecordingTo (env : Env δ) (roomId : RoomId) (r i : Ref) (p : Process Ref δ)
    (a : Happening Ref) : Prop :=
  ∀ j ok, a = .call j ok → j ≠ i →
    p.world.sfu.KeepsRecording roomId r ((process env).next p a).world.sfu

omit [DecidableEq Ref] in
theorem noTapThrew_congr {s s' : State Ref δ}
    (hpoints : ∀ object, s'.pointOf (i, object) = s.pointOf (i, object)) :
    s'.NoTapThrew i ↔ s.NoTapThrew i := by
  simp only [State.NoTapThrew, hpoints]

theorem startingAt_tap {object : Ref} {ok : Bool}
    (h : StartingAt roomId r i p.world (p.proc i))
    (hstep : (process env).step p (.tap (i, object) ok) = some p') :
    StartingAt roomId r i p'.world (p'.proc i) ∧
      (p'.world.NoTapThrew i ↔ p.world.NoTapThrew i ∧ TapSucceeds i p (.tap (i, object) ok)) := by
  obtain ⟨w, hw, rfl⟩ := Option.map_eq_some_iff.1 hstep
  obtain ⟨point, hpoint, hinFlight, hthrew⟩ := State.pointOf_tapStep hw
  obtain ⟨tap, -, htap⟩ := State.tapStep_cases hw
  have hpoints (other : Ref) (hother : other ≠ object) :
      w.pointOf (i, other) = p.world.pointOf (i, other) :=
    htap.keepsTaps.pointOf fun heq => hother (congrArg Prod.snd heq)
  refine ⟨h.tap htap.sfu hpoint hinFlight hpoints, ?_⟩
  constructor
  · intro hnone
    refine ⟨fun other => ?_, fun _ found hfound => ?_⟩
    · by_cases hother : other = object
      · subst hother
        rw [hpoint]
        rintro ⟨⟩
        cases hinFlight
      · rw [← hpoints other hother]
        exact hnone other
    · obtain rfl := Option.some.inj (hpoint.symm.trans hfound)
      exact Bool.eq_false_iff.2 fun hfails => hnone object (hthrew.2 hfails)
  · rintro ⟨hnone, hsucceeds⟩ other
    by_cases hother : other = object
    · subst hother
      rw [Ne, hthrew, hsucceeds rfl point hpoint]
      exact Bool.false_ne_true
    · rw [show ({ p with world := w } : Process Ref δ).world = w from rfl, hpoints other hother]
      exact hnone other

theorem startingAt_step (h : StartingAt roomId r i p.world (p.proc i))
    (hkeeps : KeepsRecordingTo env roomId r i p a)
    (hstep : (process env).step p a = some p') :
    StartingAt roomId r i p'.world (p'.proc i) ∧
      (p'.world.NoTapThrew i ↔ p.world.NoTapThrew i ∧ TapSucceeds i p a) := by
  -- a step of neither the call nor one of its taps
  have hother (htap : ∀ object ok, a ≠ .tap (i, object) ok) (hcall : ∀ ok, a ≠ .call i ok)
      (hproc : p'.proc i = p.proc i)
      (hkept : p.world.sfu.KeepsRecording roomId r p'.world.sfu)
      (hsucceeds : TapSucceeds i p a) :
      StartingAt roomId r i p'.world (p'.proc i) ∧
        (p'.world.NoTapThrew i ↔ p.world.NoTapThrew i ∧ TapSucceeds i p a) := by
    have hpoints (object : Ref) : p'.world.pointOf (i, object) = p.world.pointOf (i, object) :=
      (process_cases hstep).keepsTaps.pointOf ⟨htap object, hcall⟩
    rw [hproc, and_iff_left hsucceeds]
    exact ⟨h.frame hkept hpoints, noTapThrew_congr hpoints⟩
  cases process_seenBy i hstep with
  | own hcall =>
      obtain ⟨hat, hthrew⟩ := h.step hcall
      rw [Pool.set_proc_self]
      exact ⟨hat, hthrew.trans (and_iff_left trivial).symm⟩
  | @other j ok w c hj hcall =>
      have hkept := hkeeps j ok rfl hj
      rw [System.next_of_step hstep] at hkept
      exact hother nofun (fun ok heq => hj (by cases heq; rfl)) (p.set_proc_ne w c (Ne.symm hj))
        hkept trivial
  | apart hcall hproc hsfu =>
      cases a with
      | call j ok => exact (hcall j ok rfl).elim
      | tap t ok =>
          by_cases ht : t.1 = i
          · subst ht
            exact startingAt_tap h hstep
          · exact hother (fun object ok heq => ht (by cases heq; rfl)) nofun hproc
              (.of_eq hsfu) fun heq => (ht heq).elim
      | _ => exact hother nofun nofun hproc (.of_eq hsfu) trivial

/-- When the taps of a call have settled, a rejected call has left nothing behind exactly
when none of its taps was failed, and then it has not rejected. -/
theorem startUndone_iff {labels : List (Happening Ref)}
    (hcall : p.proc i = .mediaRooms (.startRecording roomId peers .call) .none)
    (hr : p.world.sfu.rooms.lookup roomId = some r)
    (hnew : ∀ object, p.world.tap (i, object) = none)
    (hkeeps : (process env).Meets (KeepsRecordingTo env roomId r i) p labels)
    (hrun : (process env).run p labels = p') (hsettled : (p'.proc i).startSettled)
    (htaps : TapsSettled i p') :
    StartUndone i r p' ↔ (process env).Meets (TapSucceeds i) p labels := by
  have hnone (object : Ref) : p.world.pointOf (i, object) = none := by
    rw [State.pointOf, hnew object]
    rfl
  have hat : StartingAt roomId r i p.world (p.proc i) := hcall ▸ .call hr hnone
  have hpreserved : (process env).Preserves (KeepsRecordingTo env roomId r i) fun p =>
      StartingAt roomId r i p.world (p.proc i) :=
    fun p a p' h hkeeps hstep => (startingAt_step h hkeeps hstep).1
  have hthrew := System.last_iff_meets (P := fun p => p.world.NoTapThrew i) hpreserved
    (fun p a p' h hkeeps hstep => (startingAt_step h hkeeps hstep).2) hat hkeeps
  have hlast := (hkeeps.holds hpreserved (fun _ h => h) hat).last
  rw [hrun] at hthrew hlast
  have hmeets : (process env).Meets (TapSucceeds i) p labels ↔ p'.world.NoTapThrew i := by
    rw [hthrew]
    exact (and_iff_right fun object => by simp [hnone object]).symm
  rw [hmeets, StartUndone]
  generalize p'.proc i = c at hlast hsettled
  cases hlast with
  | returned hreturned =>
      refine iff_of_true (by rintro ⟨⟩) fun object hthrew => ?_
      cases hreturned object .threw hthrew
  | threw hrec hthrew =>
      obtain ⟨object, hthrew⟩ := hthrew
      refine iff_of_false (fun hundone => ?_) fun hno => hno object hthrew
      cases hrec.symm.trans (hundone rfl htaps).1
  | call | files => cases hsettled

end Runs

/-! Ann's tap fails. -/

instance [Fintype Ref] (i : Ref) (p : Process Ref δ) : Decidable (TapsSettled i p) :=
  inferInstanceAs (Decidable (∀ object, ∀ tap ∈ p.world.tap (i, object), _))

instance [DecidableEq Ref] (i : Ref) (p : Process Ref δ) : ∀ a, Decidable (TapSucceeds i p a)
  | .tap t _ => inferInstanceAs (Decidable (t.1 = i → ∀ point ∈ p.world.pointOf t, _))
  | .call .. | .message .. | .written .. | .close .. | .producerclose _ | .socketError _ =>
      .isTrue trivial

namespace OnePeer

def unconnected : List (Happening Caller) :=
  .call .fourth true :: taps 8 ++ .tap (.fourth, .second) false :: closed ++
    [.tap (.fourth, .second) true, .call .fourth true]

def unopened : List (Happening Caller) :=
  .call .fourth true :: taps 4 ++ [.tap (.fourth, .second) false, .call .fourth true]

end OnePeer

open OnePeer in
/-- Her transport cannot be connected, and the tap returns. -/
theorem startUndone_unconnected :
    StartUndone .fourth .first
      ((process env).run (Process.start sfu startAndStop) unconnected) := by
  refine (startUndone_iff (i := Caller.fourth) rfl (by decide +kernel) (fun _ => rfl)
    (System.meets_of_forall fun a ha p => ?_) rfl (by decide +kernel) (by decide +kernel)).2
    (by decide +kernel)
  rintro j _ rfl hj
  simp [unconnected, taps, closed] at ha
  exact (hj ha.1).elim

open OnePeer in
/-- The call throws, the room is recording, and Ann's transport stays open. -/
theorem not_startUndone_unopened :
    let p : Process Caller Unit := Process.start sfu startAndStop
    (p.world.sfu.room .first).recording = false ∧
      (((process env).run p unopened).proc .fourth).startThrew = true ∧
      TapsSettled .fourth ((process env).run p unopened) ∧
      (((process env).run p unopened).world.sfu.room .first).recording = true ∧
      ((process env).run p unopened).world.plainTransportOpen (.fourth, .second) = true := by
  decide +kernel

end MeetServer.Recording
