import MeetServer.Foundation.History
import MeetServer.Recording.Headers

/-!
# A session and its file

What the process does to one session and to the file that it owns: datagrams,
the writes that nobody awaits, and the closing.  A step of the process is a step
of this smaller system as long as nobody else touches the file.
-/

namespace MeetServer.Recording

open MeetServer.Foundation

variable {Ref δ : Type}

structure SessionFile (δ : Type) where
  session : RecordingSession δ
  handle : FileHandle
  closing : Closing := .no
  file : Bytes

inductive SessionEvent where
  | message (msg : Bytes)
  | written (k : Nat)
  | closeRecordingSession
  | closeStep (ok : Bool)
  /-- `MediaRoom.stopPeerRecording`. -/
  | abandon
  deriving DecidableEq, Repr

namespace SessionFile

/-- The header has been written and the socket is bound. -/
def opened (env : Env δ) (path : Path) : SessionFile δ where
  session := { outputPath := path, decoder := env.newDecoder }
  handle := { path, position := wavHeaderSize }
  file := buildWavHeader

variable (v : SessionFile δ)

def message (env : Env δ) (msg : Bytes) : SessionFile δ :=
  let received := handleRtpPacket env v.session msg
  { v with
    session := received.1
    handle := { v.handle with writes := v.handle.writes ++ received.2 } }

def writeChunk (k : Nat) (chunk : Bytes) : SessionFile δ :=
  { v with
    handle := { v.handle with
      position := v.handle.position + chunk.length
      writes := v.handle.writes.eraseIdx k }
    file := Bytes.writeAt v.file v.handle.position chunk }

def written (k : Nat) : Option (SessionFile δ) := v.handle.writes[k]?.map (v.writeChunk k)

def closeRecordingSession : SessionFile δ :=
  if v.session.closed then v
  else
    { v with
      session := { v.session with closed := true }
      closing := v.session.beginClosing }

def abandon : SessionFile δ :=
  if v.session.closed then v
  else { v with session := { v.session with closed := true }, closing := .abandoned }

def closeStep (ok : Bool) : Option (SessionFile δ) :=
  match v.closing, ok with
  | .riffSize, true =>
      some { v with
        closing := .dataSize
        file := Bytes.writeAt v.file 4
          (Bytes.toLE 4 (v.session.bytesWritten + wavHeaderSize - 8)) }
  | .dataSize, true =>
      some { v with
        closing := .close
        file := Bytes.writeAt v.file 40 (Bytes.toLE 4 v.session.bytesWritten) }
  | .close, true => if v.handle.writes = [] then some { v with closing := .closed } else none
  | .riffSize, false | .dataSize, false | .close, false => some { v with closing := .threw }
  | .no, _ | .closed, _ | .threw, _ | .abandoned, _ => none

def step (env : Env δ) (v : SessionFile δ) : SessionEvent → Option (SessionFile δ)
  | .message msg => some (v.message env msg)
  | .written k => v.written k
  | .closeRecordingSession => some v.closeRecordingSession
  | .closeStep ok => v.closeStep ok
  | .abandon => some v.abandon

end SessionFile

def sessionFile (env : Env δ) : System (SessionFile δ) SessionEvent where
  step := SessionFile.step env

/-- The steps, with what each does to the session, the handle and the file. -/
inductive SessionFile.Step (env : Env δ) (v : SessionFile δ) :
    SessionEvent → SessionFile δ → Prop
  | message (msg : Bytes) : Step env v (.message msg) (v.message env msg)
  | written {k chunk} : v.handle.writes[k]? = some chunk →
      Step env v (.written k) (v.writeChunk k chunk)
  | close : v.session.closed = false → Step env v .closeRecordingSession
      { v with
        session := { v.session with closed := true }
        closing := v.session.beginClosing }
  | abandon : v.session.closed = false → Step env v .abandon
      { v with session := { v.session with closed := true }, closing := .abandoned }
  | again {event} : v.session.closed = true →
      event = .closeRecordingSession ∨ event = .abandon → Step env v event v
  | riffSize : v.closing = .riffSize → Step env v (.closeStep true)
      { v with
        closing := .dataSize
        file := Bytes.writeAt v.file 4
          (Bytes.toLE 4 (v.session.bytesWritten + wavHeaderSize - 8)) }
  | dataSize : v.closing = .dataSize → Step env v (.closeStep true)
      { v with
        closing := .close
        file := Bytes.writeAt v.file 40 (Bytes.toLE 4 v.session.bytesWritten) }
  | closed : v.closing = .close → v.handle.writes = [] →
      Step env v (.closeStep true) { v with closing := .closed }
  | failed : v.closing = .riffSize ∨ v.closing = .dataSize ∨ v.closing = .close →
      Step env v (.closeStep false) { v with closing := .threw }

theorem sessionFile_cases {env : Env δ} {v v' : SessionFile δ} {event : SessionEvent}
    (h : (sessionFile env).step v event = some v') : v.Step env event v' := by
  cases event with
  | message msg =>
      cases h
      exact .message msg
  | written k =>
      obtain ⟨chunk, hchunk, rfl⟩ := Option.map_eq_some_iff.1 h
      exact .written hchunk
  | closeRecordingSession =>
      cases h
      unfold SessionFile.closeRecordingSession
      split
      · next hclosed => exact .again hclosed (.inl rfl)
      · next hopen => exact .close (by simpa using hopen)
  | abandon =>
      cases h
      unfold SessionFile.abandon
      split
      · next hclosed => exact .again hclosed (.inr rfl)
      · next hopen => exact .abandon (by simpa using hopen)
  | closeStep ok =>
      simp only [sessionFile, SessionFile.step, SessionFile.closeStep] at h
      split at h
      · next hclosing =>
        cases h
        exact .riffSize hclosing
      · next hclosing =>
        cases h
        exact .dataSize hclosing
      · next hclosing =>
        split at h <;> cases h
        next hwrites => exact .closed hclosing hwrites
      · next hclosing =>
        cases h
        exact .failed (.inl hclosing)
      · next hclosing =>
        cases h
        exact .failed (.inr (.inl hclosing))
      · next hclosing =>
        cases h
        exact .failed (.inr (.inr hclosing))
      all_goals cases h

theorem SessionFile.Step.session_of_closed {env : Env δ} {v v' : SessionFile δ}
    {event : SessionEvent} (h : v.Step env event v') (hclosed : v.session.closed = true) :
    v'.session = v.session := by
  cases h with
  | message msg =>
      show (handleRtpPacket env v.session msg).1 = v.session
      rw [handleRtpPacket_closed env hclosed]
  | close hopen | abandon hopen => cases hopen.symm.trans hclosed
  | written | again | riffSize | dataSize | closed | failed => rfl

/-! ## The sessions of the process -/

def State.sessionFileOf (s : State Ref δ) (t : TapId Ref) : Option (SessionFile δ) :=
  (s.tap t).bind fun tap =>
    match tap.session, tap.fileHandle with
    | some session, some handle =>
        some { session, handle, closing := tap.closing, file := s.disk handle.path }
    | _, _ => none

/-- The session has come here from its opening. -/
abbrev SessionFile.Reached (env : Env δ) (v : SessionFile δ) : Prop :=
  (sessionFile env).Reachable (.opened env v.handle.path) v

theorem SessionFile.Reached.step {env : Env δ} {v v' : SessionFile δ} {e : SessionEvent}
    (h : v.Reached env) (hstep : (sessionFile env).step v e = some v')
    (hpath : v'.handle.path = v.handle.path) : v'.Reached env := by
  rw [Reached, hpath]
  exact .step h trivial hstep

/-- A tap prepares its file as `SessionFile.opened` has it, and its session takes the
steps of `sessionFile`. -/
structure Tap.Simulated (env : Env δ) (disk : Path → Bytes) (tap : Tap Ref δ) : Prop where
  writeHeader : tap.point = .writeHeader → ∀ handle, tap.fileHandle = some handle →
    handle = { path := handle.path } ∧ disk handle.path = []
  bind : tap.point = .bind → ∀ handle, tap.fileHandle = some handle →
    handle = { path := handle.path, position := wavHeaderSize } ∧
      disk handle.path = buildWavHeader
  unrecorded : tap.session = none → tap.closing = .no ∧
    ∀ handle, tap.fileHandle = some handle → handle.writes = []
  session : ∀ session, tap.session = some session → tap.point.preparesFile = false ∧
    ∃ handle, tap.fileHandle = some handle ∧
      SessionFile.Reached env
        { session, handle, closing := tap.closing, file := disk handle.path }

namespace Tap.Simulated

variable {env : Env δ} {disk disk' : Path → Bytes} {tap tap' : Tap Ref δ}

theorem new (h : tap.New) : tap.Simulated env disk := by
  obtain ⟨closing, hpoint⟩ := h.point
  refine ⟨?_, ?_, fun _ => ⟨h.closing, ?_⟩, ?_⟩
  · rw [hpoint]
    nofun
  · rw [hpoint]
    nofun
  · rw [h.fileHandle]
    nofun
  · rw [h.session]
    nofun

theorem of_disk (h : tap.Simulated env disk) (hdisk : ∀ handle,
    tap.fileHandle = some handle → disk' handle.path = disk handle.path) :
    tap.Simulated env disk' := by
  refine ⟨fun hpoint handle hhandle => ?_, fun hpoint handle hhandle => ?_, h.unrecorded,
    fun session hsession => ?_⟩
  · rw [hdisk handle hhandle]
    exact h.writeHeader hpoint handle hhandle
  · rw [hdisk handle hhandle]
    exact h.bind hpoint handle hhandle
  · obtain ⟨hpoint, handle, hhandle, hreached⟩ := h.session session hsession
    refine ⟨hpoint, handle, hhandle, ?_⟩
    rw [hdisk handle hhandle]
    exact hreached

/-- Stopping begins to close the session, or abandons it. -/
theorem stops (h : tap.Stops True tap') (hsim : tap.Simulated env disk) :
    tap'.Simulated env disk := by
  refine ⟨?_, ?_, fun hnone => ?_, fun session hsession => ?_⟩
  · rw [h.point, h.fileHandle]
    exact hsim.writeHeader
  · rw [h.point, h.fileHandle]
    exact hsim.bind
  · rw [h.fileHandle]
    rcases h.session with ⟨hsame, hclosing⟩ | ⟨x, -, -, hclosed, -⟩
    · rw [hclosing]
      exact hsim.unrecorded (hsame.symm.trans hnone)
    · cases hclosed.symm.trans hnone
  · rw [h.point, h.fileHandle]
    rcases h.session with ⟨hsame, hclosing⟩ | ⟨x, hx, hopen, hclosed, hclosing⟩
    · rw [hclosing]
      exact hsim.session session (hsame.symm.trans hsession)
    · obtain rfl := Option.some.inj (hclosed.symm.trans hsession)
      obtain ⟨hpoint, handle, hhandle, hreached⟩ := hsim.session x hx
      refine ⟨hpoint, handle, hhandle, ?_⟩
      rcases hclosing with hclosing | ⟨-, hclosing⟩
      · refine hreached.step (e := .closeRecordingSession) ?_ rfl
        simp [sessionFile, SessionFile.step, SessionFile.closeRecordingSession, hopen, hclosing]
      · refine hreached.step (e := .abandon) ?_ rfl
        simp [sessionFile, SessionFile.step, SessionFile.abandon, hopen, hclosing]

theorem same (h : tap.Simulated env disk) (hhandle : tap'.fileHandle = tap.fileHandle)
    (hsession : tap'.session = tap.session) (hclosing : tap'.closing = tap.closing)
    (hpoint : tap'.point.preparesFile = false) : tap'.Simulated env disk := by
  refine ⟨fun h' => ?_, fun h' => ?_, ?_, ?_⟩
  · rw [h'] at hpoint
    cases hpoint
  · rw [h'] at hpoint
    cases hpoint
  · rw [hsession, hclosing, hhandle]
    exact h.unrecorded
  · rw [hsession, hclosing, hhandle, hpoint]
    exact fun session hs => ⟨rfl, (h.session session hs).2⟩

theorem of_reached {session : RecordingSession δ} {handle : FileHandle}
    (hpoint : tap.point.preparesFile = false) (hsession : tap.session = some session)
    (hhandle : tap.fileHandle = some handle)
    (hreached : SessionFile.Reached env
      { session, handle, closing := tap.closing, file := disk handle.path }) :
    tap.Simulated env disk := by
  refine ⟨fun h' => ?_, fun h' => ?_, fun hnone => ?_, fun session' hsession' => ?_⟩
  · rw [h'] at hpoint
    cases hpoint
  · rw [h'] at hpoint
    cases hpoint
  · cases hsession.symm.trans hnone
  · obtain rfl := Option.some.inj (hsession.symm.trans hsession')
    exact ⟨hpoint, handle, hhandle, hreached⟩

theorem preparesFile (h : tap.Simulated env disk) (hpoint : tap.point.preparesFile) :
    tap.session = none := by
  refine Option.eq_none_iff_forall_ne_some.2 fun session hsession => ?_
  cases hpoint.symm.trans (h.session session hsession).1

end Tap.Simulated

variable [DecidableEq Ref]

/-- The step of a tap does no more to another tap than to stop it. -/
theorem TapStep.stops_of_ne {env : Env δ} {s s' : State Ref δ} {t t' : TapId Ref}
    {tap : Tap Ref δ} {ok : Bool} (h : TapStep env s t tap ok s') (hne : t' ≠ t) :
    Option.Rel (Tap.Stops True) (s.tap t') (s'.tap t') := by
  have hsame {s' : State Ref δ} (htap : s'.tap t' = s.tap t') :
      Option.Rel (Tap.Stops True) (s.tap t') (s'.tap t') := by
    rw [htap]
    exact (State.Stops.refl s).tap t'
  cases h with
  | passed | named | created | consumed | opened | headed | bound | started | connected =>
      exact hsame (State.tap_updateTap_of_ne _ _ hne)
  | notConsumed =>
      refine hsame ((State.tap_updateTap_of_ne _ _ hne).trans ?_)
      exact State.tap_updateTap_of_ne _ _ hne
  | notConnected =>
      have hrel := (State.Stops.stopPeerRecording (A := True) s t.2).tap t'
      rw [← State.tap_updateTap_of_ne (s.stopPeerRecording t.2).1 _ hne] at hrel
      exact hrel

def State.SimulatedAt (env : Env δ) (s : State Ref δ) (t : TapId Ref) : Prop :=
  ∀ tap, s.tap t = some tap → tap.Simulated env s.disk

namespace State.SimulatedAt

variable {env : Env δ} {s s' : State Ref δ} {t : TapId Ref} {tap : Tap Ref δ}

omit [DecidableEq Ref] in
theorem of_rel (h : s.SimulatedAt env t)
    (hrel : Option.Rel (Tap.Stops True) (s.tap t) (s'.tap t))
    (hdisk : ∀ tap ∈ s.tap t, ∀ handle ∈ tap.fileHandle,
      s'.disk handle.path = s.disk handle.path) : s'.SimulatedAt env t := by
  intro tap' htap'
  rw [htap'] at hrel
  generalize htap : s.tap t = old at hrel
  cases hrel with
  | some hstops => exact ((h _ htap).of_disk (hdisk _ htap)).stops hstops

omit [DecidableEq Ref] in
theorem grows (h : s.SimulatedAt env t) (hgrows : s.Grows True s') : s'.SimulatedAt env t := by
  rcases hgrows.tap t with ⟨new, hnew, hfresh⟩ | hrel
  · intro tap' htap'
    obtain rfl := Option.some.inj (hnew.symm.trans htap')
    exact .new hfresh
  · exact h.of_rel hrel fun _ _ _ _ => by rw [hgrows.disk]

theorem of_update {f : Tap Ref δ → Tap Ref δ} {disk : Path → Bytes} (htap : s.tap t = some tap)
    (hsim : (f tap).Simulated env disk) :
    ({ s with disk := disk }.updateTap t f).SimulatedAt env t := by
  intro tap' htap'
  rw [tap_updateTap_self] at htap'
  simp only [htap, Option.map_some, Option.some.injEq] at htap'
  subst htap'
  exact hsim

theorem goes (h : s.SimulatedAt env t) {f : Tap Ref δ → Tap Ref δ} (htap : s.tap t = some tap)
    (hhandle : (f tap).fileHandle = tap.fileHandle)
    (hsession : (f tap).session = tap.session) (hclosing : (f tap).closing = tap.closing)
    (hpoint : (f tap).point.preparesFile = false) : (s.updateTap t f).SimulatedAt env t :=
  of_update (s := s) htap ((h tap htap).same hhandle hsession hclosing hpoint)

omit [DecidableEq Ref] in
theorem stops (h : s.SimulatedAt env t) (hstops : s.Stops True s') : s'.SimulatedAt env t :=
  h.of_rel (hstops.tap t) fun _ _ _ _ => by rw [hstops.disk]

theorem tapStep {ok : Bool} (h : s.SimulatedAt env t) (hnamed : tap.Named env)
    (htap : s.tap t = some tap) (hstep : TapStep env s t tap ok s') :
    s'.SimulatedAt env t := by
  have hsim := h tap htap
  cases hstep with
  | passed hpasses =>
      refine h.goes htap rfl rfl rfl ?_
      generalize tap.point = point at hpasses
      cases hpasses <;> rfl
  | named => exact h.goes htap rfl rfl rfl rfl
  | created => exact h.goes htap rfl rfl rfl rfl
  | consumed => exact h.goes htap rfl rfl rfl rfl
  | notConsumed =>
      have hclosed := State.Stops.closePlainTransport (A := True) s t
      obtain ⟨tap', htap', -⟩ := hclosed.of_some htap
      exact (h.stops hclosed).goes htap' rfl rfl rfl rfl
  | opened hpoint =>
      have hsession := hnamed.sessionless (by rw [hpoint]; rfl)
      -- The names of the files stay folded up.
      generalize tap.outputPath env = path
      refine of_update htap ⟨?_, nofun, fun _ => ⟨(hsim.unrecorded hsession).1, ?_⟩, ?_⟩
      · intro _ handle hhandle
        obtain rfl := Option.some.inj hhandle
        exact ⟨rfl, Function.update_self ..⟩
      · intro handle hhandle
        obtain rfl := Option.some.inj hhandle
        rfl
      · intro session hsome
        cases hsession.symm.trans hsome
  | headed hpoint hhandle =>
      obtain ⟨hhead, hempty⟩ := hsim.writeHeader hpoint _ hhandle
      have hsession := hsim.preparesFile (by rw [hpoint]; rfl)
      refine of_update htap ⟨nofun, ?_, fun _ => ⟨(hsim.unrecorded hsession).1, ?_⟩, ?_⟩
      · intro _ handle hheaded
        obtain rfl := Option.some.inj hheaded
        rw [hhead]
        refine ⟨by simp, ?_⟩
        rw [Function.update_self, hempty]
        exact Bytes.writeAt_length
      · intro handle hheaded
        obtain rfl := Option.some.inj hheaded
        have hwrites := (hsim.unrecorded hsession).2 _ hhandle
        exact hwrites
      · intro session hsome
        cases hsession.symm.trans hsome
  | @bound handle hpoint hhandle =>
      obtain ⟨hhead, hheader⟩ := hsim.bind hpoint _ hhandle
      have hclosing := (hsim.unrecorded (hsim.preparesFile (by rw [hpoint]; rfl))).1
      refine of_update (s := s) htap (.of_reached rfl rfl hhandle ?_)
      have hopened : ({ session := { outputPath := handle.path, decoder := env.newDecoder }
                        handle, closing := tap.closing, file := s.disk handle.path } :
          SessionFile δ) = .opened env handle.path := by
        rw [hclosing, hheader, SessionFile.opened, ← hhead]
      rw [hopened]
      exact .start
  | started => exact h.goes htap rfl rfl rfl rfl
  | connected => exact h.goes htap rfl rfl rfl rfl
  | notConnected =>
      have hstopped := State.Stops.stopPeerRecording (A := True) s t.2
      obtain ⟨tap', htap', -⟩ := hstopped.of_some htap
      exact (h.stops hstopped).goes htap' rfl rfl rfl rfl

theorem message {msg : Bytes} (h : s.SimulatedAt env t) (hs : s.message env t msg = some s') :
    s'.SimulatedAt env t := by
  obtain ⟨tap, session, handle, htap, hsession, hhandle, rfl⟩ := State.message_cases hs
  obtain ⟨hpoint, handle', hhandle', hreached⟩ := (h tap htap).session session hsession
  obtain rfl := Option.some.inj (hhandle.symm.trans hhandle')
  refine of_update (s := s) htap (.of_reached hpoint rfl rfl ?_)
  exact hreached.step (e := .message msg) rfl rfl

theorem written {k : Nat} (h : s.SimulatedAt env t) (hs : s.written t k = some s') :
    s'.SimulatedAt env t := by
  obtain ⟨tap, handle, chunk, htap, hhandle, hchunk, rfl⟩ := State.written_cases hs
  have hsim := h tap htap
  cases hsession : tap.session with
  | none =>
      rw [(hsim.unrecorded hsession).2 handle hhandle] at hchunk
      cases hchunk
  | some session =>
      obtain ⟨hpoint, handle', hhandle', hreached⟩ := hsim.session session hsession
      obtain rfl := Option.some.inj (hhandle.symm.trans hhandle')
      refine of_update htap (.of_reached hpoint hsession rfl ?_)
      refine hreached.step (e := .written k) ?_ rfl
      rw [Function.update_self]
      simp [sessionFile, SessionFile.step, SessionFile.written, SessionFile.writeChunk, hchunk]

theorem closeStep {ok : Bool} (h : s.SimulatedAt env t) (hs : s.closeStep t ok = some s') :
    s'.SimulatedAt env t := by
  obtain ⟨tap, session, handle, htap, hsession, hhandle, hstep⟩ := State.closeStep_cases hs
  obtain ⟨hpoint, handle', hhandle', hreached⟩ := (h tap htap).session session hsession
  obtain rfl := Option.some.inj (hhandle.symm.trans hhandle')
  have hpatch {pos : Nat} {size : Bytes} {closing : Closing}
      (hevent : (sessionFile env).step
        { session, handle, closing := tap.closing, file := s.disk handle.path }
        (.closeStep ok) = some { session, handle, closing
                                 file := Bytes.writeAt (s.disk handle.path) pos size }) :
      ((s.writeAt handle.path pos size).setClosing t closing).SimulatedAt env t := by
    refine of_update htap (.of_reached hpoint hsession hhandle ?_)
    refine hreached.step (e := .closeStep ok) ?_ rfl
    rw [Function.update_self]
    exact hevent
  have hstays {closing : Closing} (hevent : (sessionFile env).step
      { session, handle, closing := tap.closing, file := s.disk handle.path }
      (.closeStep ok) = some { session, handle, closing, file := s.disk handle.path }) :
      (s.setClosing t closing).SimulatedAt env t :=
    of_update (s := s) htap (.of_reached hpoint hsession hhandle
      (hreached.step (e := .closeStep ok) hevent rfl))
  cases hstep with
  | riffSize hclosing =>
      exact hpatch (by simp [sessionFile, SessionFile.step, SessionFile.closeStep, hclosing])
  | dataSize hclosing =>
      exact hpatch (by simp [sessionFile, SessionFile.step, SessionFile.closeStep, hclosing])
  | close hclosing hwrites =>
      refine hstays ?_
      simp [sessionFile, SessionFile.step, SessionFile.closeStep, hclosing, hwrites]
  | failed hclosing =>
      refine hstays ?_
      rcases hclosing with hclosing | hclosing | hclosing <;>
        simp [sessionFile, SessionFile.step, SessionFile.closeStep, hclosing]

end State.SimulatedAt

/-- The steps of the tap itself, and of a call or a mediasoup object that is closed. -/
def Happening.tapId : Happening Ref → Option (TapId Ref)
  | .tap t _ | .message t _ | .written t _ | .close t _ | .producerclose t | .socketError t =>
      some t
  | .call _ _ => none

/-- The file of a tap is left as it is by the steps of the others. -/
def LeavesFile (env : Env δ) (t : TapId Ref) (p : Process Ref δ) (a : Happening Ref) : Prop :=
  a.tapId ≠ some t → ∀ tap ∈ p.world.tap t, ∀ handle ∈ tap.fileHandle,
    ((process env).next p a).world.disk handle.path = p.world.disk handle.path

theorem State.SimulatedAt.preserves (env : Env δ) (t : TapId Ref) :
    (process env).Preserves (LeavesFile env t) fun p =>
      p.world.Taps (Tap.Named env) ∧ p.world.SimulatedAt env t := by
  intro p a p' hI hleaves hstep
  obtain ⟨hnamed, h⟩ := hI
  refine ⟨Tap.Named.preserves hnamed trivial hstep, ?_⟩
  rw [LeavesFile, System.next_of_step hstep] at hleaves
  have hunmoved {s' : State Ref δ} (htap : s'.tap t = p.world.tap t)
      (hdisk : ∀ tap ∈ p.world.tap t, ∀ handle ∈ tap.fileHandle,
        s'.disk handle.path = p.world.disk handle.path) : s'.SimulatedAt env t := by
    refine h.of_rel ?_ hdisk
    rw [htap]
    exact (State.Stops.refl p.world).tap t
  cases process_cases hstep with
  | call hcall => exact h.grows (hcall.grows fun _ _ _ _ _ => trivial)
  | @tap t' ok tap s' htap htapStep =>
      by_cases ht : t' = t
      · subst ht
        exact h.tapStep (hnamed _ _ htap) htap htapStep
      · refine h.of_rel (htapStep.stops_of_ne (Ne.symm ht)) (hleaves ?_)
        simpa [Happening.tapId] using ht
  | @message t' msg s' hs =>
      by_cases ht : t' = t
      · subst ht
        exact h.message hs
      · obtain ⟨tap, session, handle, -, -, -, rfl⟩ := State.message_cases hs
        exact hunmoved (State.tap_updateTap_of_ne _ _ (Ne.symm ht)) fun _ _ _ _ => rfl
  | @written t' k s' hs =>
      by_cases ht : t' = t
      · subst ht
        exact h.written hs
      · obtain ⟨tap, handle, chunk, -, -, -, rfl⟩ := State.written_cases hs
        refine hunmoved (State.tap_updateTap_of_ne _ _ (Ne.symm ht)) (hleaves ?_)
        simpa [Happening.tapId] using ht
  | @close t' ok s' hs =>
      by_cases ht : t' = t
      · subst ht
        exact h.closeStep hs
      · refine hunmoved ?_ (hleaves (by simpa [Happening.tapId] using ht))
        obtain ⟨tap, session, handle, -, -, -, hstep⟩ := State.closeStep_cases hs
        cases hstep <;> exact State.tap_updateTap_of_ne _ _ (Ne.symm ht)
  | producerclose hs => exact h.stops (State.producerclose_stops hs)
  | socketError hs => exact h.stops (State.socketError_stops hs)

/-- What holds of every session in `sessionFile` holds of the sessions of the process. -/
theorem sessionFileOf_reached {env : Env δ} {sfu : Sfu.State Ref}
    {requests : Ref → Request Ref} {t : TapId Ref} {p : Process Ref δ}
    (h : (process env).ReachableWhen (LeavesFile env t) (Process.start sfu requests) p)
    {v : SessionFile δ} (hv : p.world.sessionFileOf t = some v) : v.Reached env := by
  have hI := h.invariant (State.SimulatedAt.preserves env t)
    ⟨.unrecorded sfu, fun _ htap => (Option.some_ne_none _ htap.symm).elim⟩
  obtain ⟨tap, htap, hview⟩ := Option.bind_eq_some_iff.1 hv
  split at hview
  · next session handle hsession hhandle =>
    obtain rfl := Option.some.inj hview
    obtain ⟨-, handle', hhandle', hreached⟩ := (hI.2 tap htap).session session hsession
    obtain rfl := Option.some.inj (hhandle.symm.trans hhandle')
    exact hreached
  · cases hview

end MeetServer.Recording
