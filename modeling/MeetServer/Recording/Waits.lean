import MeetServer.Recording.Finalising
import MeetServer.Sfu.Progress

/-!
# What the recording service waits for

A tap that stops a session waits for the closing that it has begun itself, and
a call waits for the taps and closings that it has started.  `InHand` says that
none of these promises is lost: a session whose closing is awaited has not been
abandoned, and no tap takes the place of another.  The rank of a tap counts what
it has still to await; nothing ever raises it.
-/

namespace MeetServer.Recording

open MeetServer.Foundation

variable {Ref δ : Type} {A : Prop}

/-! ## One tap -/

/-- `closeRecordingSession` has marked the session closed; its promise is going to settle. -/
def Closing.begun : Closing → Bool
  | .no | .abandoned => false
  | .riffSize | .dataSize | .close | .closed | .threw => true

theorem RecordingSession.begun_beginClosing (session : RecordingSession δ) :
    session.beginClosing.begun = true := by
  unfold beginClosing
  split <;> rfl

namespace TapPoint

/-- The file is open. -/
def onFile : TapPoint Ref → Bool
  | .writeHeader | .bind => true
  | _ => false

/-- The closing that the tap waits for. -/
def closing : TapPoint Ref → Option (TapId Ref)
  | .stopPeerRecording closing | .cleanUp closing => closing
  | _ => none

/-- How often the tap has still to go on, at most. -/
def rank : TapPoint Ref → Nat
  | .stopPeerRecording _ => 10
  | .mkdir => 9
  | .createPlainTransport => 8
  | .consume => 7
  | .open => 6
  | .writeHeader => 5
  | .bind => 4
  | .startRecordingSession => 3
  | .connect => 2
  | .cleanUp _ => 1
  | .returned | .threw => 0

theorem Passes.rank_lt {point point' : TapPoint Ref} (h : point.Passes point') :
    point'.rank < point.rank := by
  cases h <;> simp [rank]

end TapPoint

def Closing.rank : Closing → Nat
  | .no => 4
  | closing => closing.operations

theorem RecordingSession.rank_beginClosing (session : RecordingSession δ) :
    session.beginClosing.rank < 4 := by
  unfold beginClosing
  split <;> simp [Closing.rank, Closing.operations]

/-- A tap goes on, and later its closing does. -/
def Tap.rank (tap : Tap Ref δ) : Nat := tap.point.rank + tap.closing.rank

/-- The session, the file and the closing of a tap fit together. -/
structure Tap.Sound (tap : Tap Ref δ) : Prop where
  sessionless : tap.point.sessionless = true → tap.session = none
  file : tap.point.onFile = true ∨ tap.session ≠ none → tap.fileHandle ≠ none
  recording : ∀ session, tap.session = some session →
    (tap.closing = .no ↔ session.closed = false)
  closing : tap.session = none → tap.closing = .no

namespace Tap.Sound

variable {tap tap' : Tap Ref δ}

theorem new (h : tap.New) : tap.Sound := by
  obtain ⟨⟨closing, hpoint⟩, -, -, hsession, hclosing⟩ := h
  refine ⟨fun _ => hsession, ?_, ?_, fun _ => hclosing⟩
  · rintro (hfile | hsome)
    · rw [hpoint] at hfile
      cases hfile
    · exact (hsome hsession).elim
  · intro session hsome
    cases hsession.symm.trans hsome

theorem stops (h : tap.Sound) (hstops : tap.Stops A tap') : tap'.Sound := by
  have hpoint := hstops.point
  have hhandle := hstops.fileHandle
  rcases hstops.session with ⟨hsession, hclosing⟩ | ⟨x, hx, hopen, hx', hclosing⟩
  · refine ⟨?_, ?_, ?_, ?_⟩
    · rw [hpoint, hsession]
      exact h.sessionless
    · rw [hpoint, hsession, hhandle]
      exact h.file
    · rw [hsession, hclosing]
      exact h.recording
    · rw [hsession, hclosing]
      exact h.closing
  · have hclosed : tap'.closing ≠ .no := by
      rcases hclosing with hclosing | ⟨-, hclosing⟩
      · intro hno
        have hbegun := x.begun_beginClosing
        rw [← hclosing, hno] at hbegun
        cases hbegun
      · rw [hclosing]
        exact nofun
    refine ⟨fun hnone => ?_, fun _ => ?_, fun session hsession => ?_, fun hnone => ?_⟩
    · rw [hpoint] at hnone
      cases (h.sessionless hnone).symm.trans hx
    · rw [hhandle]
      exact h.file (.inr (by simp [hx]))
    · obtain rfl := Option.some.inj (hx'.symm.trans hsession)
      exact iff_of_false hclosed Bool.noConfusion
    · cases hnone.symm.trans hx'

/-- Stopping keeps a closing that has been begun. -/
theorem begun_stops (h : tap.Sound) (hstops : tap.Stops A tap')
    (hbegun : tap.closing.begun = true) : tap'.closing.begun = true := by
  rcases hstops.session with ⟨-, hclosing⟩ | ⟨x, hx, hopen, -⟩
  · rwa [hclosing]
  · rw [(h.recording x hx).2 hopen] at hbegun
    cases hbegun

/-- Either the closing has stayed as it was, or it has only now begun. -/
theorem rank_stops (h : tap.Sound) (hstops : tap.Stops A tap') :
    tap'.closing = tap.closing ∨ tap'.rank < tap.rank := by
  rcases hstops.session with ⟨-, hclosing⟩ | ⟨x, hx, hopen, -, hclosing⟩
  · exact .inl hclosing
  · refine .inr ?_
    have hno : tap.closing = .no := (h.recording x hx).2 hopen
    have hlower : tap'.closing.rank < 4 := by
      rcases hclosing with hclosing | ⟨-, hclosing⟩
      · rw [hclosing]
        exact x.rank_beginClosing
      · rw [hclosing]
        simp [Closing.rank, Closing.operations]
    rw [Tap.rank, Tap.rank, hstops.point, hno]
    exact Nat.add_lt_add_left hlower _

theorem rank_stops_le (h : tap.Sound) (hstops : tap.Stops A tap') : tap'.rank ≤ tap.rank := by
  rcases h.rank_stops hstops with hclosing | hlt
  · rw [Tap.rank, Tap.rank, hstops.point, hclosing]
  · exact hlt.le

end Tap.Sound

theorem Tap.New.rank {tap : Tap Ref δ} (h : tap.New) : tap.rank = 14 := by
  obtain ⟨⟨closing, hpoint⟩, -, -, -, hclosing⟩ := h
  rw [Tap.rank, hpoint, hclosing]
  rfl

/-! ## All taps -/

namespace State

/-- A tap that has not been started has everything before it. -/
def rank (s : State Ref δ) (t : TapId Ref) : Nat := (s.tap t).elim 14 Tap.rank

theorem rank_of_tap {s : State Ref δ} {t : TapId Ref} {tap : Tap Ref δ}
    (htap : s.tap t = some tap) : s.rank t = tap.rank := by
  rw [State.rank, htap]
  rfl

/-- The promise of the closing, if it is one, is going to settle. -/
def Settles (s : State Ref δ) (closing : Option (TapId Ref)) : Prop :=
  ∀ t, closing = some t → ∃ tap, s.tap t = some tap ∧ tap.closing.begun = true

structure InHand (s : State Ref δ) : Prop where
  sound : s.Taps Tap.Sound
  settles : ∀ t tap, s.tap t = some tap → s.Settles tap.point.closing

/-- No tap and no promise is lost, no tap goes back, and only the taps in `Q` may be new. -/
structure Adds (Q : TapId Ref → Prop) (s s' : State Ref δ) : Prop where
  kept : ∀ t tap, s.tap t = some tap → ∃ tap', s'.tap t = some tap' ∧
    (tap.closing.begun = true → tap'.closing.begun = true)
  new : ∀ t, s.tap t = none → ¬ Q t → s'.tap t = none
  rank : s'.rank ≤ s.rank

variable {Q : TapId Ref → Prop} {s s' s'' : State Ref δ}

namespace Adds

theorem of_tap (h : s'.tap = s.tap) : s.Adds Q s' := by
  refine ⟨fun t tap htap => ⟨tap, ?_, id⟩, fun t hnone _ => ?_, fun t => ?_⟩
  · rwa [h]
  · rwa [h]
  · rw [State.rank, State.rank, h]

theorem trans (h : s.Adds Q s') (h' : s'.Adds Q s'') : s.Adds Q s'' := by
  refine ⟨fun t tap htap => ?_, fun t hnone hQ => h'.new t (h.new t hnone hQ) hQ,
    h'.rank.trans h.rank⟩
  obtain ⟨tap', htap', hbegun⟩ := h.kept t tap htap
  obtain ⟨tap'', htap'', hbegun'⟩ := h'.kept t tap' htap'
  exact ⟨tap'', htap'', fun hold => hbegun' (hbegun hold)⟩

theorem mono {Q' : TapId Ref → Prop} (h : s.Adds Q s') (hQ : ∀ t, Q t → Q' t) :
    s.Adds Q' s' :=
  ⟨h.kept, fun t hnone hnot => h.new t hnone fun ht => hnot (hQ t ht), h.rank⟩

theorem settles (h : s.Adds Q s') {closing : Option (TapId Ref)} (hsettles : s.Settles closing) :
    s'.Settles closing := by
  intro t ht
  obtain ⟨tap, htap, hbegun⟩ := hsettles t ht
  obtain ⟨tap', htap', hkept⟩ := h.kept t tap htap
  exact ⟨tap', htap', hkept hbegun⟩

theorem tap_ne_none (h : s.Adds Q s') {t : TapId Ref} (ht : s.tap t ≠ none) :
    s'.tap t ≠ none := by
  obtain ⟨tap, htap⟩ := Option.ne_none_iff_exists'.1 ht
  obtain ⟨tap', htap', -⟩ := h.kept t tap htap
  simp [htap']

end Adds

theorem tap_updateTap [DecidableEq Ref] {t : TapId Ref} {f : Tap Ref δ → Tap Ref δ}
    {tap : Tap Ref δ} (htap : s.tap t = some tap) : (s.updateTap t f).tap t = some (f tap) := by
  rw [tap_updateTap_self, htap, Option.map_some]

namespace InHand

theorem unrecorded (sfu : Sfu.State Ref) : (unrecorded sfu : State Ref δ).InHand :=
  ⟨.unrecorded sfu, fun _ _ h => (Option.some_ne_none _ h.symm).elim⟩

theorem congr (h : s.InHand) (htap : s'.tap = s.tap) : s'.InHand := by
  have hadds : s.Adds (fun _ => False) s' := .of_tap htap
  refine ⟨fun t tap => ?_, fun t tap ht => hadds.settles (h.settles t tap ?_)⟩
  · rw [htap]
    exact h.sound t tap
  · rwa [← htap]

theorem rank_of_rel (h : s.InHand) {t : TapId Ref}
    (hrel : Option.Rel (Tap.Stops A) (s.tap t) (s'.tap t)) : s'.rank t ≤ s.rank t := by
  have hsound := h.sound t
  unfold State.rank
  generalize s.tap t = tap at hrel hsound
  generalize s'.tap t = tap' at hrel
  cases hrel with
  | none => exact le_rfl
  | some hstop => exact (hsound _ rfl).rank_stops_le hstop

theorem adds_stops (h : s.InHand) (hstops : s.Stops A s') : s.Adds Q s' := by
  refine ⟨fun t tap htap => ?_, fun t hnone _ => ?_, fun t => h.rank_of_rel (hstops.tap t)⟩
  · obtain ⟨tap', htap', hstop⟩ := hstops.of_some htap
    exact ⟨tap', htap', (h.sound t tap htap).begun_stops hstop⟩
  · by_contra hsome
    obtain ⟨tap', htap'⟩ := Option.ne_none_iff_exists'.1 hsome
    obtain ⟨tap, htap, -⟩ := hstops.to_some htap'
    cases hnone.symm.trans htap

theorem stops (h : s.InHand) (hstops : s.Stops A s') : s'.InHand := by
  have hadds : s.Adds (fun _ => False) s' := h.adds_stops hstops
  refine ⟨h.sound.grows (fun _ => .new) (fun _ _ hstop hsound => hsound.stops hstop)
    hstops.grows, fun t tap' htap' => ?_⟩
  obtain ⟨tap, htap, hstop⟩ := hstops.to_some htap'
  rw [hstop.point]
  exact hadds.settles (h.settles t tap htap)

variable [DecidableEq Ref]

/-- Whoever stops waits for the closing that the stop has begun. -/
theorem settles_stopPeerRecording (s : State Ref δ) (object : Ref) :
    (s.stopPeerRecording object).1.Settles (s.stopPeerRecording object).2 := by
  unfold State.stopPeerRecording
  split
  · exact nofun
  · next t _ =>
    unfold closeRecordingSession
    split
    · next hopen =>
      rintro _ ⟨⟩
      rw [sessionOpen, Option.any_eq_true] at hopen
      obtain ⟨tap, htap, hopen⟩ := hopen
      obtain ⟨session, hsession, -⟩ := (Option.any_eq_true ..).1 hopen
      refine ⟨_, by rw [tap_updateTap_self, htap]; rfl, ?_⟩
      simpa [hsession] using session.begun_beginClosing
    · exact nofun

/-- A tap with a new name. -/
theorem add (h : s.InHand) {t : TapId Ref} {tap : Tap Ref δ} (hnone : s.tap t = none)
    (hnew : tap.New) (hsettles : s.Settles tap.point.closing)
    (htap : s'.tap = Function.update s.tap t (some tap)) :
    s'.InHand ∧ s.Adds (· = t) s' := by
  have hself : s'.tap t = some tap := by rw [htap, Function.update_self]
  have hother {t' : TapId Ref} (hne : t' ≠ t) : s'.tap t' = s.tap t' := by
    rw [htap, Function.update_of_ne hne]
  have hadds : s.Adds (· = t) s' := by
    refine ⟨fun t' tap' htap' => ⟨tap', ?_, id⟩, fun t' hnone' hne => ?_, fun t' => ?_⟩
    · rwa [hother]
      rintro rfl
      cases hnone.symm.trans htap'
    · rwa [hother hne]
    · by_cases heq : t' = t
      · rw [heq, rank_of_tap hself, hnew.rank, State.rank, hnone]
        rfl
      · rw [State.rank, State.rank, hother heq]
  refine ⟨⟨fun t' tap' htap' => ?_, fun t' tap' htap' => hadds.settles ?_⟩, hadds⟩
  · by_cases heq : t' = t
    · rw [heq, hself] at htap'
      obtain rfl := Option.some.inj htap'
      exact .new hnew
    · exact h.sound t' tap' (by rwa [hother heq] at htap')
  · by_cases heq : t' = t
    · rw [heq, hself] at htap'
      obtain rfl := Option.some.inj htap'
      exact hsettles
    · exact h.settles t' tap' (by rwa [hother heq] at htap')

theorem startTap (h : s.InHand) {t : TapId Ref} (hnone : s.tap t = none) (room : Ref)
    (roomId : RoomId) (peerId : PeerId) (producer : Sfu.Producer Ref) :
    (s.startTap t room roomId peerId producer).InHand ∧
      s.Adds (· = t) (s.startTap t room roomId peerId producer) ∧
      (s.startTap t room roomId peerId producer).tap t ≠ none := by
  have hstops := Stops.stopPeerRecording (A := True) s t.2
  have hadds : s.Adds (· = t) (s.stopPeerRecording t.2).1 := h.adds_stops hstops
  have hnone' : (s.stopPeerRecording t.2).1.tap t = none :=
    (h.adds_stops hstops : s.Adds (fun _ => False) _).new t hnone id
  have hstarted : (s.startTap t room roomId peerId producer).InHand ∧
      (s.stopPeerRecording t.2).1.Adds (· = t)
        (s.startTap t room roomId peerId producer) := by
    refine (h.stops hstops).add hnone' ?_ ?_ rfl
    · exact ⟨⟨_, rfl⟩, nofun, rfl, rfl, rfl⟩
    · exact settles_stopPeerRecording s t.2
  refine ⟨hstarted.1, hadds.trans hstarted.2, ?_⟩
  have hself : (s.startTap t room roomId peerId producer).tap t = _ := Function.update_self ..
  simp [hself]

/-- One tap goes on, and the others are stopped at most. -/
theorem move (h : s.InHand) {t : TapId Ref} {tap tap' : Tap Ref δ} (htap : s.tap t = some tap)
    (htap' : s'.tap t = some tap') (hsound : tap'.Sound)
    (hbegun : tap.closing.begun = true → tap'.closing.begun = true)
    (hrank : s'.rank t ≤ s.rank t)
    (hothers : ∀ t', t' ≠ t → Option.Rel (Tap.Stops True) (s.tap t') (s'.tap t'))
    (hsettles : s.Adds Q s' → s'.Settles tap'.point.closing) : s'.InHand ∧ s.Adds Q s' := by
  have hadds : s.Adds Q s' := by
    refine ⟨fun t' old hold => ?_, fun t' hnone _ => ?_, fun t' => ?_⟩
    · by_cases heq : t' = t
      · rw [heq] at hold ⊢
        obtain rfl := Option.some.inj (htap.symm.trans hold)
        exact ⟨tap', htap', hbegun⟩
      · have hrel := hothers t' heq
        rw [hold] at hrel
        generalize s'.tap t' = new at hrel
        cases hrel with
        | some hstop => exact ⟨_, rfl, (h.sound t' old hold).begun_stops hstop⟩
    · have hne : t' ≠ t := by
        rintro rfl
        cases hnone.symm.trans htap
      have hrel := hothers t' hne
      rw [hnone] at hrel
      generalize s'.tap t' = new at hrel
      cases hrel
      rfl
    · by_cases heq : t' = t
      · rwa [heq]
      · exact h.rank_of_rel (hothers t' heq)
  refine ⟨⟨fun t' new hnew => ?_, fun t' new hnew => ?_⟩, hadds⟩
  · by_cases heq : t' = t
    · rw [heq] at hnew
      obtain rfl := Option.some.inj (htap'.symm.trans hnew)
      exact hsound
    · have hrel := hothers t' heq
      rw [hnew] at hrel
      generalize hold : s.tap t' = old at hrel
      cases hrel with
      | some hstop => exact (h.sound t' _ hold).stops hstop
  · by_cases heq : t' = t
    · rw [heq] at hnew
      obtain rfl := Option.some.inj (htap'.symm.trans hnew)
      exact hsettles hadds
    · have hrel := hothers t' heq
      rw [hnew] at hrel
      generalize hold : s.tap t' = old at hrel
      cases hrel with
      | some hstop =>
          rw [hstop.point]
          exact hadds.settles (h.settles t' _ hold)

/-- A change to one tap that keeps its point. -/
theorem touch (h : s.InHand) {t : TapId Ref} {tap tap' : Tap Ref δ} (htap : s.tap t = some tap)
    (htap' : s'.tap t = some tap') (hsound : tap'.Sound) (hpoint : tap'.point = tap.point)
    (hbegun : tap.closing.begun = true → tap'.closing.begun = true)
    (hrank : tap'.closing.rank ≤ tap.closing.rank)
    (hothers : ∀ t', t' ≠ t → s'.tap t' = s.tap t') : s'.InHand ∧ s.Adds Q s' := by
  have hlower : s'.rank t ≤ s.rank t := by
    rw [rank_of_tap htap, rank_of_tap htap', Tap.rank, Tap.rank, hpoint]
    exact Nat.add_le_add_left hrank _
  refine h.move htap htap' hsound hbegun hlower (fun t' hne => ?_) fun hadds => ?_
  · rw [hothers t' hne]
    exact (Stops.refl s).tap t'
  · rw [hpoint]
    exact hadds.settles (h.settles t tap htap)

theorem message {env : Env δ} {t : TapId Ref} {msg : Bytes} (h : s.InHand)
    (hs : s.message env t msg = some s') : s'.InHand ∧ s.Adds Q s' := by
  obtain ⟨tap, session, handle, htap, hsession, hhandle, rfl⟩ := message_cases hs
  have hclosed := (handleRtpPacket_frame env session msg).2.1
  have hsound := h.sound t tap htap
  refine h.touch htap (tap_updateTap htap) ?_ rfl id le_rfl
    fun t' hne => tap_updateTap_of_ne _ _ hne
  refine ⟨fun hnone => ?_, fun _ => nofun, ?_, nofun⟩
  · cases (hsound.sessionless hnone).symm.trans hsession
  · rintro _ ⟨⟩
    rw [hclosed]
    exact hsound.recording session hsession

theorem written {t : TapId Ref} {k : Nat} (h : s.InHand) (hs : s.written t k = some s') :
    s'.InHand ∧ s.Adds Q s' := by
  obtain ⟨tap, handle, chunk, htap, hhandle, -, rfl⟩ := written_cases hs
  have hsound := h.sound t tap htap
  have htap' : (s.writeAt handle.path handle.position chunk).tap t = some tap := htap
  refine h.touch htap (tap_updateTap htap') ?_ rfl id le_rfl
    fun t' hne => tap_updateTap_of_ne _ _ hne
  exact ⟨hsound.sessionless, fun _ => nofun, hsound.recording, hsound.closing⟩

/-- A closing goes on; its session has been marked closed. -/
theorem setClosing (h : s.InHand) {t : TapId Ref} {tap : Tap Ref δ}
    {session : RecordingSession δ} {closing : Closing} (htap : s.tap t = some tap)
    (hsession : tap.session = some session) (hopen : tap.closing ≠ .no)
    (hbegun : closing.begun = true) (hrank : closing.rank ≤ tap.closing.rank)
    (htap' : s'.tap = (s.setClosing t closing).tap) : s'.InHand ∧ s.Adds Q s' := by
  have hsound := h.sound t tap htap
  have hself : s'.tap t = some { tap with closing := closing } := by
    rw [htap', State.setClosing, tap_updateTap_self, htap]
    rfl
  refine h.touch htap hself ⟨hsound.sessionless, hsound.file, ?_, ?_⟩ rfl (fun _ => hbegun)
    hrank fun t' hne => ?_
  · intro session hsession
    have hno : closing ≠ .no := by
      rintro rfl
      cases hbegun
    exact iff_of_false hno fun hopen' => hopen ((hsound.recording session hsession).2 hopen')
  · intro hnone
    cases hnone.symm.trans hsession
  · rw [htap', State.setClosing, tap_updateTap_of_ne _ _ hne]

/-- The closing comes nearer to its end. -/
theorem rank_closeStep {t : TapId Ref} {ok : Bool} (hs : s.closeStep t ok = some s') :
    s'.rank t < s.rank t := by
  obtain ⟨tap, session, handle, htap, -, -, hstep⟩ := closeStep_cases hs
  have hlower {s₁ : State Ref δ} {closing : Closing} (htap₁ : s₁.tap t = some tap)
      (hrank : closing.rank < tap.closing.rank) :
      (s₁.setClosing t closing).rank t < s.rank t := by
    rw [rank_of_tap htap, State.setClosing, rank_of_tap (tap_updateTap htap₁)]
    exact Nat.add_lt_add_left hrank _
  cases hstep with
  | riffSize hclosing | dataSize hclosing | close hclosing =>
      exact hlower htap (by simp [hclosing, Closing.rank, Closing.operations])
  | failed hclosing =>
      refine hlower htap ?_
      rcases hclosing with hclosing | hclosing | hclosing <;>
        simp [hclosing, Closing.rank, Closing.operations]

/-- The tap comes nearer to its end. -/
theorem rank_tapStep {env : Env δ} {t : TapId Ref} {tap : Tap Ref δ} {ok : Bool} (h : s.InHand)
    (htap : s.tap t = some tap) (hs : TapStep env s t tap ok s') : s'.rank t < s.rank t := by
  have hlower {tap' : Tap Ref δ} (htap' : s'.tap t = some tap')
      (hpoint : tap'.point.rank < tap.point.rank)
      (hclosing : tap'.closing.rank ≤ tap.closing.rank) : s'.rank t < s.rank t := by
    rw [rank_of_tap htap, rank_of_tap htap']
    exact Nat.add_lt_add_of_lt_of_le hpoint hclosing
  cases hs with
  | passed hpasses => exact hlower (tap_updateTap htap) hpasses.rank_lt le_rfl
  | named hpoint | created hpoint | consumed hpoint | bound hpoint | started hpoint
  | connected hpoint =>
      exact hlower (tap_updateTap htap) (by simp [hpoint, TapPoint.rank]) le_rfl
  | notConsumed hpoint =>
      exact hlower (tap_updateTap (tap_updateTap htap)) (by simp [hpoint, TapPoint.rank]) le_rfl
  | opened hpoint | headed hpoint =>
      exact hlower (tap_updateTap (s := { s with disk := _ }) htap)
        (by simp [hpoint, TapPoint.rank]) le_rfl
  | notConnected hpoint =>
      obtain ⟨tap', htap', hstop⟩ := (Stops.stopPeerRecording (A := True) s t.2).of_some htap
      refine hlower (tap_updateTap htap') (by simp [hpoint, TapPoint.rank]) ?_
      have hle := (h.sound t tap htap).rank_stops_le hstop
      rw [Tap.rank, Tap.rank, hstop.point] at hle
      exact Nat.le_of_add_le_add_left hle

theorem closeStep {t : TapId Ref} {ok : Bool} (h : s.InHand) (hs : s.closeStep t ok = some s') :
    s'.InHand ∧ s.Adds Q s' := by
  obtain ⟨tap, session, handle, htap, hsession, -, hstep⟩ := closeStep_cases hs
  cases hstep with
  | riffSize hclosing | dataSize hclosing | close hclosing =>
      refine h.setClosing htap hsession ?_ rfl ?_ rfl
      · simp [hclosing]
      · simp [hclosing, Closing.rank, Closing.operations]
  | failed hclosing =>
      refine h.setClosing htap hsession (fun hno => ?_) rfl (Nat.zero_le _) rfl
      rw [hno] at hclosing
      rcases hclosing with hclosing | hclosing | hclosing <;> cases hclosing

theorem tapStep {env : Env δ} {t : TapId Ref} {tap : Tap Ref δ} {ok : Bool} (h : s.InHand)
    (htap : s.tap t = some tap) (hs : TapStep env s t tap ok s') :
    s'.InHand ∧ s.Adds Q s' := by
  have hsound := h.sound t tap htap
  have hothers (t' : TapId Ref) (hne : t' ≠ t) := hs.stops_of_ne hne
  have hrank := (h.rank_tapStep htap hs).le
  obtain ⟨hsessionless, hfile, hrecording, hclosing⟩ := hsound
  cases hs with
  | @passed _ point hpasses =>
      refine h.move htap (tap_updateTap htap) ⟨fun hnone => hsessionless ?_, fun hfile' => hfile ?_,
        hrecording, hclosing⟩ id hrank hothers fun _ => ?_
      · change point.sessionless = true at hnone
        generalize tap.point = before at hpasses
        cases hpasses <;> first | rfl | cases hnone
      · refine hfile'.imp_left fun honFile => ?_
        change point.onFile = true at honFile
        generalize tap.point = before at hpasses
        cases hpasses <;> cases honFile
      · change Settles _ point.closing
        generalize tap.point = before at hpasses
        cases hpasses <;> exact nofun
  | named hpoint | created hpoint | consumed hpoint =>
      refine h.move htap (tap_updateTap htap) ⟨fun _ => hsessionless (by rw [hpoint]; rfl), ?_,
        hrecording, hclosing⟩ id hrank hothers fun _ => nofun
      exact fun hfile' => hfile (.inr (hfile'.resolve_left Bool.noConfusion))
  | notConsumed hpoint =>
      refine h.move htap (tap_updateTap (tap_updateTap htap)) ⟨nofun, ?_, hrecording, hclosing⟩ id
        hrank hothers fun _ => nofun
      exact fun hfile' => hfile (.inr (hfile'.resolve_left Bool.noConfusion))
  | opened hpoint =>
      have hnone := hsessionless (by rw [hpoint]; rfl)
      have htap' : ({ s with disk := Function.update s.disk (tap.outputPath env) [] } :
          State Ref δ).tap t = some tap := htap
      exact h.move htap (tap_updateTap htap') ⟨fun _ => hnone, fun _ => nofun, hrecording,
        hclosing⟩ id hrank hothers fun _ => nofun
  | @headed handle hpoint hhandle =>
      have hnone := hsessionless (by rw [hpoint]; rfl)
      have htap' : (s.writeAt handle.path handle.position buildWavHeader).tap t = some tap := htap
      exact h.move htap (tap_updateTap htap') ⟨fun _ => hnone, fun _ => nofun, hrecording,
        hclosing⟩ id hrank hothers fun _ => nofun
  | @bound handle hpoint hhandle =>
      have hno := hclosing (hsessionless (by rw [hpoint]; rfl))
      refine h.move htap (tap_updateTap htap) ⟨nofun, fun _ => ?_, ?_, nofun⟩ id hrank
        hothers fun _ => nofun
      · exact hhandle ▸ nofun
      · rintro _ ⟨⟩
        exact iff_of_true hno rfl
  | started hpoint | connected hpoint =>
      refine h.move htap (tap_updateTap htap) ⟨nofun, ?_, hrecording, hclosing⟩ id hrank
        hothers fun _ => nofun
      exact fun hfile' => hfile (.inr (hfile'.resolve_left Bool.noConfusion))
  | notConnected hpoint =>
      obtain ⟨tap', htap', hstop⟩ :=
        (Stops.stopPeerRecording (A := True) s t.2).of_some htap
      have hsound' := (h.sound t tap htap).stops hstop
      have hbegun := (h.sound t tap htap).begun_stops hstop
      refine h.move htap (tap_updateTap htap') ⟨nofun, ?_, hsound'.recording, hsound'.closing⟩
        hbegun hrank hothers fun _ => ?_
      · exact fun hfile' => hsound'.file (.inr (hfile'.resolve_left Bool.noConfusion))
      · -- the answer of the stop is looked up after the tap has gone on
        intro t' ht'
        obtain ⟨old, hold, hbegun⟩ := settles_stopPeerRecording s t.2 t' ht'
        by_cases heq : t' = t
        · subst heq
          exact ⟨_, tap_updateTap hold, hbegun⟩
        · exact ⟨old, (tap_updateTap_of_ne _ _ heq).trans hold, hbegun⟩

end InHand

end State

end MeetServer.Recording
