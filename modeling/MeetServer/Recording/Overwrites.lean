import MeetServer.Foundation.History
import MeetServer.Recording.Frames
import MeetServer.Recording.SessionFiles

/-!
# Recorded audio that is overwritten

Opening a file truncates it, whoever has written to it.  The history remembers the
names of the room and of the speaker under which a packet has put audio, as they
look in a path.  A tap never loses a session and never changes the names that its
session was opened under, so that these are the names of the sessions with audio.
-/

namespace MeetServer.Recording

open MeetServer.Foundation

variable {Ref δ : Type}

/-- The room and the speaker, as they look in a path. -/
abbrev FileNames := String × String

def Tap.fileNames (tap : Tap Ref δ) : FileNames :=
  (sanitizeFilename tap.roomId, sanitizeFilename tap.speakerName)

theorem Tap.Named.outputPath_eq_iff {env : Env δ} {tap tap' : Tap Ref δ}
    {session : RecordingSession δ} (h : tap.Named env) (hsession : tap.session = some session) :
    session.outputPath = tap'.outputPath env ↔ tap.fileNames = tap'.fileNames := by
  rw [h.session session hsession, Tap.outputPath, Tap.outputPath, outputPath_inj,
    Tap.fileNames, Tap.fileNames, Prod.mk.injEq]

/-! ## The names under which audio is recorded -/

/-- The names under which the packet puts audio, if it has any. -/
def State.putsUnder (env : Env δ) (s : State Ref δ) (t : TapId Ref) (msg : Bytes) :
    List FileNames :=
  ((s.tap t).filter fun tap => tap.session.any fun session =>
    (handleRtpPacket env session msg).2.flatten ≠ []).toList.map Tap.fileNames

theorem State.mem_putsUnder_iff {env : Env δ} {s : State Ref δ} {t : TapId Ref} {msg : Bytes}
    {names : FileNames} : names ∈ s.putsUnder env t msg ↔
      ∃ tap session, s.tap t = some tap ∧ tap.session = some session ∧
        (handleRtpPacket env session msg).2.flatten ≠ [] ∧ tap.fileNames = names := by
  simp only [putsUnder, List.mem_map, Option.mem_toList, Option.filter_eq_some_iff,
    Option.any_eq_true, decide_eq_true_eq]
  constructor
  · rintro ⟨tap, ⟨htap, session, hsession, haudio⟩, hnames⟩
    exact ⟨tap, session, htap, hsession, haudio, hnames⟩
  · rintro ⟨tap, session, htap, hsession, haudio, hnames⟩
    exact ⟨tap, ⟨htap, session, hsession, haudio⟩, hnames⟩

/-- The names of a session with audio. -/
def Tap.audioUnder (tap : Tap Ref δ) : Option FileNames :=
  (tap.session.filter fun session => session.bytesWritten ≠ 0).map fun _ => tap.fileNames

theorem Tap.audioUnder_eq_some_iff {tap : Tap Ref δ} {names : FileNames} :
    tap.audioUnder = some names ↔ ∃ session, tap.session = some session ∧
      session.bytesWritten ≠ 0 ∧ tap.fileNames = names := by
  simp [audioUnder, and_assoc]

theorem Tap.audioUnder_of_sessionless {tap : Tap Ref δ} (h : tap.session = none) :
    tap.audioUnder = none := by
  rw [audioUnder, h]
  rfl

theorem Tap.audioUnder_congr {tap tap' : Tap Ref δ} (hnames : tap'.fileNames = tap.fileNames)
    (hsession : tap'.session = tap.session) : tap'.audioUnder = tap.audioUnder := by
  rw [audioUnder, audioUnder, hnames, hsession]

theorem Tap.Stops.audioUnder {A : Prop} {tap tap' : Tap Ref δ} (h : tap.Stops A tap') :
    tap'.audioUnder = tap.audioUnder := by
  have hnames : tap'.fileNames = tap.fileNames := by
    rw [Tap.fileNames, h.roomId, h.speakerName, Tap.fileNames]
  rcases h.session with ⟨hsession, -⟩ | ⟨x, hx, -, hclosed, -⟩
  · exact Tap.audioUnder_congr hnames hsession
  · rw [Tap.audioUnder, Tap.audioUnder, hnames, hx, hclosed]
    by_cases hempty : x.bytesWritten = 0 <;> simp [Option.filter, hempty]

namespace State

def audioUnder (s : State Ref δ) (t : TapId Ref) : Option FileNames :=
  (s.tap t).bind Tap.audioUnder

variable {s s' : State Ref δ} {t : TapId Ref}

theorem audioUnder_eq_some_iff {names : FileNames} : s.audioUnder t = some names ↔
    ∃ tap session, s.tap t = some tap ∧ tap.session = some session ∧
      session.bytesWritten ≠ 0 ∧ tap.fileNames = names := by
  simp only [audioUnder, Option.bind_eq_some_iff, Tap.audioUnder_eq_some_iff, exists_and_left]

theorem audioUnder_of_rel {A : Prop} (h : Option.Rel (Tap.Stops A) (s.tap t) (s'.tap t)) :
    s'.audioUnder t = s.audioUnder t := by
  unfold audioUnder
  generalize s.tap t = tap, s'.tap t = tap' at h
  cases h with
  | none => rfl
  | some hstops => exact hstops.audioUnder

variable [DecidableEq Ref]

theorem audioUnder_updateTap {t' : TapId Ref} {f : Tap Ref δ → Tap Ref δ}
    (hf : ∀ tap, s.tap t' = some tap → (f tap).audioUnder = tap.audioUnder) :
    (s.updateTap t' f).audioUnder t = s.audioUnder t := by
  unfold audioUnder
  by_cases ht : t = t'
  · subst ht
    rw [tap_updateTap_self]
    cases htap : s.tap t with
    | none => rfl
    | some tap => exact hf tap htap
  · rw [tap_updateTap_of_ne s f ht]

theorem audioUnder_updatePeer (object : Ref) (f : TappedPeer Ref → TappedPeer Ref) :
    (s.updatePeer object f).audioUnder t = s.audioUnder t := rfl

/-- What a tap does itself leaves a session and its names alone. -/
theorem audioUnder_tapStep {env : Env δ} {t' : TapId Ref} {tap : Tap Ref δ} {ok : Bool}
    (hnamed : tap.Named env) (htap : s.tap t' = some tap) (h : TapStep env s t' tap ok s') :
    s'.audioUnder t = s.audioUnder t := by
  have hsame {s : State Ref δ} {f : Tap Ref δ → Tap Ref δ}
      (hf : ∀ tap : Tap Ref δ, (f tap).fileNames = tap.fileNames ∧ (f tap).session = tap.session) :
      (s.updateTap t' f).audioUnder t = s.audioUnder t :=
    audioUnder_updateTap fun tap _ => Tap.audioUnder_congr (hf tap).1 (hf tap).2
  -- before and after the step there is no session with audio
  have hnone {f : Tap Ref δ → Tap Ref δ} (hsession : tap.session = none)
      (hf : (f tap).audioUnder = none) : (s.updateTap t' f).audioUnder t = s.audioUnder t := by
    refine audioUnder_updateTap fun tap' htap' => ?_
    obtain rfl := Option.some.inj (htap.symm.trans htap')
    rw [hf, Tap.audioUnder_of_sessionless hsession]
  cases h with
  | passed | connected => exact hsame fun _ => ⟨rfl, rfl⟩
  | named hpoint =>
      have hsession := hnamed.sessionless (by rw [hpoint]; rfl)
      exact hnone hsession (Tap.audioUnder_of_sessionless hsession)
  | bound hpoint => exact hnone (hnamed.sessionless (by rw [hpoint]; rfl)) rfl
  | created | consumed | started =>
      rw [audioUnder_updatePeer]
      exact hsame fun _ => ⟨rfl, rfl⟩
  | notConsumed =>
      have hclosed : (s.closePlainTransport t').audioUnder t = s.audioUnder t :=
        hsame fun _ => ⟨rfl, rfl⟩
      rw [audioUnder_updatePeer, ← hclosed]
      exact hsame fun _ => ⟨rfl, rfl⟩
  | opened => exact hsame (s := { s with disk := _ }) fun _ => ⟨rfl, rfl⟩
  | headed => exact hsame (s := s.writeAt _ _ _) fun _ => ⟨rfl, rfl⟩
  | notConnected =>
      have hstops := Stops.stopPeerRecording (A := True) s t'.2
      rw [← audioUnder_of_rel (hstops.tap t)]
      exact hsame fun _ => ⟨rfl, rfl⟩

end State

variable [DecidableEq Ref]

/-- Only packets record audio, and what is recorded stays recorded under its names. -/
theorem Process.Step.audioUnder {env : Env δ} {p p' : Process Ref δ} {a : Happening Ref}
    (h : Process.Step env p a p') (hnamed : p.world.Taps (Tap.Named env)) (huntapped : p.Untapped)
    (hmessage : ∀ t msg, a ≠ .message t msg) (t : TapId Ref) :
    p'.world.audioUnder t = p.world.audioUnder t := by
  have hclosing (s : State Ref δ) (t' : TapId Ref) (closing : Closing) :
      (s.setClosing t' closing).audioUnder t = s.audioUnder t :=
    State.audioUnder_updateTap fun tap _ => Tap.audioUnder_congr rfl rfl
  cases h with
  | @call i _ s' _ hstep =>
      by_cases hstarts : t.1 = i ∧ (p.proc i).starting = true
      · obtain ⟨rfl, hstarting⟩ := hstarts
        have hbefore : p.world.audioUnder t = none := by
          rw [State.audioUnder, huntapped t.1 hstarting t.2]
          rfl
        have hgrows : p.world.Grows True s' := hstep.grows fun _ _ _ _ _ => trivial
        rcases hgrows.tap t with ⟨tap', htap', hnew⟩ | hrel
        · rw [hbefore, Pool.set_world, State.audioUnder, htap']
          exact Tap.audioUnder_of_sessionless hnew.session
        · exact State.audioUnder_of_rel hrel
      · refine State.audioUnder_of_rel (hstep.stopsOn t fun heq => ?_)
        exact Bool.eq_false_iff.2 fun hstarting => hstarts ⟨heq, hstarting⟩
  | tap htap htapStep => exact State.audioUnder_tapStep (hnamed _ _ htap) htap htapStep
  | message => exact (hmessage _ _ rfl).elim
  | written hs =>
      obtain ⟨tap, handle, chunk, -, -, -, rfl⟩ := State.written_cases hs
      exact State.audioUnder_updateTap (s := p.world.writeAt _ _ _)
        fun tap _ => Tap.audioUnder_congr rfl rfl
  | close hs =>
      obtain ⟨tap, session, handle, -, -, -, hstep⟩ := State.closeStep_cases hs
      cases hstep with
      | riffSize | dataSize => exact hclosing (p.world.writeAt _ _ _) _ _
      | close | failed => exact hclosing p.world _ _
  | producerclose hs =>
      exact State.audioUnder_of_rel ((State.producerclose_stops (A := True) hs).tap t)
  | socketError hs =>
      exact State.audioUnder_of_rel ((State.socketError_stops (A := True) hs).tap t)

/-- A packet adds its names to those that its tap may already have. -/
theorem State.audioUnder_message {env : Env δ} {s s' : State Ref δ} {t : TapId Ref} {msg : Bytes}
    (h : s.message env t msg = some s') {names : FileNames} :
    (∃ t', s'.audioUnder t' = some names) ↔
      (∃ t', s.audioUnder t' = some names) ∨ names ∈ s.putsUnder env t msg := by
  obtain ⟨tap, session, handle, htap, hsession, -, rfl⟩ := State.message_cases h
  have hbytes := (handleRtpPacket_frame env session msg).2.2
  have hself (f : Tap Ref δ → Tap Ref δ) : (s.updateTap t f).audioUnder t = (f tap).audioUnder := by
    rw [audioUnder, tap_updateTap_self, htap]
    rfl
  have hother {t' : TapId Ref} (ht : t' ≠ t) (f : Tap Ref δ → Tap Ref δ) :
      (s.updateTap t f).audioUnder t' = s.audioUnder t' := by
    rw [audioUnder, tap_updateTap_of_ne s f ht, audioUnder]
  constructor
  · rintro ⟨t', hnames⟩
    by_cases ht : t' = t
    · subst ht
      rw [hself, Tap.audioUnder_eq_some_iff] at hnames
      obtain ⟨_, ⟨rfl⟩, hwritten, rfl⟩ := hnames
      by_cases hbefore : session.bytesWritten = 0
      · refine .inr (mem_putsUnder_iff.2 ⟨tap, session, htap, hsession, fun hempty => ?_, rfl⟩)
        rw [hbytes, hbefore, hempty] at hwritten
        exact hwritten rfl
      · exact .inl ⟨t', audioUnder_eq_some_iff.2 ⟨tap, session, htap, hsession, hbefore, rfl⟩⟩
    · exact .inl ⟨t', by rwa [hother ht] at hnames⟩
  · have hput (hwritten : (handleRtpPacket env session msg).1.bytesWritten ≠ 0) :
        (s.updateTap t fun tap => { tap with
          session := some (handleRtpPacket env session msg).1
          fileHandle := some { handle with
            writes := handle.writes ++ (handleRtpPacket env session msg).2 } }).audioUnder t =
        some tap.fileNames := by
      rw [hself]
      exact Tap.audioUnder_eq_some_iff.2 ⟨_, rfl, hwritten, rfl⟩
    rintro (⟨t', hnames⟩ | hnames)
    · by_cases ht : t' = t
      · subst ht
        obtain ⟨_, _, htap', hsession', hwritten, rfl⟩ := audioUnder_eq_some_iff.1 hnames
        cases htap.symm.trans htap'
        cases hsession.symm.trans hsession'
        exact ⟨t', hput (by rw [hbytes]; omega)⟩
      · exact ⟨t', by rwa [hother ht]⟩
    · obtain ⟨_, _, htap', hsession', hnonempty, rfl⟩ := mem_putsUnder_iff.1 hnames
      cases htap.symm.trans htap'
      cases hsession.symm.trans hsession'
      have hpos := List.length_pos_iff.2 hnonempty
      exact ⟨t, hput (by rw [hbytes]; omega)⟩

/-! ## The history -/

def rememberNames (env : Env δ) (p : Process Ref δ) :
    Happening Ref → List FileNames → List FileNames
  | .message t msg, names => names ++ p.world.putsUnder env t msg
  | _, names => names

/-- The process, with the names under which packets have put audio. -/
abbrev rememberingNames (env : Env δ) : System (Process Ref δ × List FileNames) (Happening Ref) :=
  (process env).withHistory (rememberNames env)

/-- The names that are remembered are those of the sessions with audio. -/
structure Heard (env : Env δ) (s : Process Ref δ × List FileNames) : Prop where
  named : s.1.world.Taps (Tap.Named env)
  untapped : s.1.Untapped
  mem_iff : ∀ names, names ∈ s.2 ↔ ∃ t, s.1.world.audioUnder t = some names

omit [DecidableEq Ref] in
theorem Heard.start (env : Env δ) (sfu : Sfu.State Ref) (requests : Ref → Request Ref) :
    Heard env ((Process.start sfu requests : Process Ref δ), []) := by
  refine ⟨.unrecorded sfu, .start sfu requests, fun names => iff_of_false (by simp) ?_⟩
  rintro ⟨t, hnames⟩
  cases hnames

theorem Heard.preserves (env : Env δ) :
    (rememberingNames env : System (Process Ref δ × List FileNames) _).Preserves
      (fun _ _ => True) (Heard env) := by
  rintro ⟨p, names⟩ a ⟨p', names'⟩ h - hremembering
  obtain ⟨hstep, hremember⟩ := System.withHistory_step.1 hremembering
  replace hstep : (process env).step p a = some p' := hstep
  obtain rfl : names' = rememberNames env p a names := hremember
  refine ⟨Tap.Named.preserves h.named trivial hstep,
    Process.Untapped.preserves env h.untapped trivial hstep, fun name => ?_⟩
  by_cases hmessage : ∃ t msg, a = .message t msg
  · obtain ⟨t, msg, rfl⟩ := hmessage
    obtain ⟨w, hw, rfl⟩ := Option.map_eq_some_iff.1 hstep
    exact List.mem_append.trans ((or_congr_left (h.mem_iff name)).trans
      (State.audioUnder_message hw).symm)
  · simp only [not_exists] at hmessage
    have hsame := (process_cases hstep).audioUnder h.named h.untapped hmessage
    have hnames : rememberNames env p a names = names := by
      cases a with
      | message t msg => exact (hmessage t msg rfl).elim
      | call | tap | written | close | producerclose | socketError => rfl
    simp only [hnames, hsame]
    exact h.mem_iff name

/-! ## Opening a file -/

/-- No other session has written audio to the path that is opened. -/
def OpensUnwritten (env : Env δ) (p : Process Ref δ) : Happening Ref → Prop
  | .tap t true => ∀ tap ∈ p.world.tap t, tap.point = .open →
      ∀ t', t' ≠ t → ∀ tap' ∈ p.world.tap t', ∀ session ∈ tap'.session,
        session.outputPath = tap.outputPath env → session.bytesWritten = 0
  | _ => True

/-- No packet has put audio under the names of the file that is opened. -/
def OpensNewNames (s : Process Ref δ × List FileNames) : Happening Ref → Prop
  | .tap t true => ∀ tap ∈ s.1.world.tap t, tap.point = .open → tap.fileNames ∉ s.2
  | _ => True

omit [DecidableEq Ref] in
theorem Heard.opensUnwritten_iff {env : Env δ} {s : Process Ref δ × List FileNames}
    (h : Heard env s) (a : Happening Ref) : OpensUnwritten env s.1 a ↔ OpensNewNames s a := by
  cases a with
  | tap t ok =>
      cases ok with
      | false => exact Iff.rfl
      | true =>
          refine forall₃_congr fun tap htap hpoint => ?_
          rw [h.mem_iff]
          constructor
          · rintro hunwritten ⟨t', hnames⟩
            obtain ⟨tap', session, htap', hsession, hwritten, hsame⟩ :=
              State.audioUnder_eq_some_iff.1 hnames
            have hpath := ((h.named t' tap' htap').outputPath_eq_iff hsession).2 hsame
            refine hwritten (hunwritten t' ?_ tap' htap' session hsession hpath)
            -- the tap itself has no session yet
            rintro rfl
            obtain rfl := Option.some.inj (htap.symm.trans htap')
            have hnone := (h.named t' tap htap).sessionless (by rw [hpoint]; rfl)
            cases hnone.symm.trans hsession
          · intro hnew t' _ tap' htap' session hsession hpath
            by_contra hwritten
            have hsame := ((h.named t' tap' htap').outputPath_eq_iff hsession).1 hpath
            exact hnew ⟨t', State.audioUnder_eq_some_iff.2
              ⟨tap', session, htap', hsession, hwritten, hsame⟩⟩
  | call | message | written | close | producerclose | socketError => exact Iff.rfl

/--
A run overwrites recorded audio exactly when it opens a recording under a sanitised
room id and a sanitised name under which a packet has put audio before.
-/
theorem meets_opensUnwritten_iff (env : Env δ) (sfu : Sfu.State Ref)
    (requests : Ref → Request Ref) (labels : List (Happening Ref)) :
    (process env).Meets (OpensUnwritten env) (Process.start sfu requests) labels ↔
      (rememberingNames env).Meets OpensNewNames (Process.start sfu requests, []) labels :=
  System.meets_withHistory.symm.trans
    (System.meets_congr (Heard.preserves env) (fun _ a h => h.opensUnwritten_iff a)
      (.start env sfu requests) labels)

/-! Ann is recorded a second time. -/

namespace OnePeer

def recordedAgain : List (Happening Caller) :=
  recorded ++ .call .fifth true :: closed ++ List.replicate 4 (.tap (.fifth, .second) true)

def again : Process Caller Unit :=
  (process env).run (start (.startRecording "r" [])) recordedAgain

end OnePeer

open OnePeer in
/-- Her first recording is truncated while it has audio. -/
theorem not_opensUnwritten_recordedAgain :
    ¬ (process env).Meets (OpensUnwritten env) (start (.startRecording "r" []))
      (recordedAgain ++ [.tap (.fifth, .second) true]) := by
  intro h
  have hopen : OpensUnwritten env again (.tap (.fifth, .second) true) := h.last (by decide +kernel)
  obtain ⟨tap, htap, hnext⟩ := Option.map_eq_some_iff.1
    (show (again.world.tap (.fifth, .second)).map (fun tap => (tap.point, tap.outputPath env)) =
      some (.open, ["recordings", "r", "Ann.wav"]) by decide +kernel)
  obtain ⟨tap', htap', hsession⟩ := Option.bind_eq_some_iff.1
    (show (again.world.tap (.fourth, .second)).bind (fun tap => tap.session.map fun session =>
      (session.outputPath, session.bytesWritten)) =
        some (["recordings", "r", "Ann.wav"], 640) by decide +kernel)
  obtain ⟨session, hsession, hwritten⟩ := Option.map_eq_some_iff.1 hsession
  rw [Prod.mk.injEq] at hnext hwritten
  have hnone := hopen tap htap hnext.1 (.fourth, .second) (by decide) tap' htap' session hsession
    (hwritten.1.trans hnext.2.symm)
  omega

end MeetServer.Recording
