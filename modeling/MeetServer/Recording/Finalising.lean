import MeetServer.Recording.SessionFiles
import MeetServer.Recording.Timeline

/-!
# Closing a session

A session is marked closed before its sizes are written, and `writeUInt32LE`
throws on a size that does not fit.  The invariant is that of the headers; the
operations that are left bound the rest of the closing.
-/

namespace MeetServer.Recording

open MeetServer.Foundation

variable {δ : Type}

/-- The socket is closed in the step that marks the session closed. -/
def SessionFile.socketOpen (v : SessionFile δ) : Bool := !v.session.closed

def SessionFile.fileOpen (v : SessionFile δ) : Bool :=
  v.closing ≠ .closed && v.closing ≠ .abandoned

/-- The operations on the file, apart from what starts them. -/
def SessionEvent.isOperation : SessionEvent → Bool
  | .written _ | .closeStep _ => true
  | .message _ | .closeRecordingSession | .abandon => false

def SessionEvent.Succeeds : SessionEvent → Prop
  | .closeStep ok => ok = true
  | _ => True

/-- The operations that the closing has still to await. -/
def Closing.operations : Closing → Nat
  | .riffSize => 3
  | .dataSize => 2
  | .close => 1
  | .no | .closed | .threw | .abandoned => 0

def SessionFile.pending (v : SessionFile δ) : Nat :=
  v.handle.writes.length + v.closing.operations

/-- A session that is being closed, with the `n` bytes that it has counted. -/
structure SessionFile.Finalising (env : Env δ) (n : Nat) (v : SessionFile δ) : Prop where
  noThrow : v.closing ≠ .threw
  socket : v.socketOpen = false
  bytes : v.session.bytesWritten = n
  closeAgain : v.closeRecordingSession = v
  message : ∀ msg, v.message env msg = v
  /-- No operation on the file is left to be carried out. -/
  ends : (∀ event : SessionEvent, event.isOperation → event.Succeeds →
      (sessionFile env).step v event = none) →
    v.fileOpen = false ∧ ValidWav v.file n

/-- Whatever happens after the session is closed, no more than the pending writes and the
three operations of the closing are carried out, and then it is finalised. -/
def SessionFile.Finalises (env : Env δ) (v : SessionFile δ) : Prop :=
  ∀ events : List SessionEvent, (∀ event ∈ events, event.Succeeds) →
    ((sessionFile env).run v.closeRecordingSession events).Finalising env
        v.session.bytesWritten ∧
      (sessionFile env).count (fun _ event => event.isOperation) v.closeRecordingSession
        events ≤ v.handle.writes.length + 3

/-! ## Before the closing -/

namespace SessionFile

variable {env : Env δ} {v v' : SessionFile δ} {event : SessionEvent} {n : Nat}

/-- An open session is filed. -/
def OpenFiled (v : SessionFile δ) : Prop :=
  v.session.closed = false → v.session.Filed v.closing v.handle v.file

theorem OpenFiled.preserves (env : Env δ) :
    (sessionFile env).Preserves (fun _ _ => True) OpenFiled := by
  intro v event v' h _ hstep hopen'
  have hcases := sessionFile_cases hstep
  have hopen : v.session.closed = false := by
    by_contra hclosed
    rw [hcases.session_of_closed (by simpa using hclosed)] at hopen'
    exact hclosed hopen'
  have hfiled := h hopen
  have hno : v.closing = .no := hfiled.recording.2 hopen
  cases hcases with
  | message msg => exact hfiled.message env msg
  | written hchunk => exact hfiled.written hchunk
  | close | abandon => cases hopen'
  | again => exact hfiled
  | riffSize hclosing | dataSize hclosing | closed hclosing =>
      cases hno.symm.trans hclosing
  | failed hclosing =>
      rcases hclosing with hclosing | hclosing | hclosing <;> cases hno.symm.trans hclosing

theorem OpenFiled.opened (env : Env δ) (path : Path) : (opened env path).OpenFiled :=
  fun _ => .new path path env.newDecoder length_buildWavHeader

/-! ## After the closing has begun -/

/-- The sizes fit, and the closing goes on. -/
structure Closes (n : Nat) (v : SessionFile δ) : Prop where
  closed : v.session.closed = true
  bytes : v.session.bytesWritten = n
  fits : n + wavHeaderSize - 8 < 2 ^ 32
  filed : v.session.Filed v.closing v.handle v.file

theorem closeRecordingSession_of_closed (hclosed : v.session.closed = true) :
    v.closeRecordingSession = v := by
  simp [closeRecordingSession, hclosed]

theorem message_of_closed (env : Env δ) (hclosed : v.session.closed = true) (msg : Bytes) :
    v.message env msg = v := by
  simp [SessionFile.message, handleRtpPacket_closed env hclosed]

theorem closeRecordingSession_of_open (hopen : v.session.closed = false) :
    v.closeRecordingSession =
      { v with
        session := { v.session with closed := true }
        closing := v.session.beginClosing } := by
  simp [closeRecordingSession, hopen]

namespace Closes

theorem begin (hopen : v.session.closed = false) (hfiled : v.OpenFiled)
    (hfits : v.session.bytesWritten + wavHeaderSize - 8 < 2 ^ 32) :
    v.closeRecordingSession.Closes v.session.bytesWritten := by
  rw [closeRecordingSession_of_open hopen]
  exact ⟨rfl, rfl, hfits, (hfiled hopen).close⟩

theorem closing_ne (h : v.Closes n) :
    v.closing ≠ .no ∧ v.closing ≠ .threw ∧ v.closing ≠ .abandoned := by
  have hpatched := h.filed.patched
  refine ⟨fun hno => ?_, fun hthrew => ?_, fun habandoned => ?_⟩
  · cases (h.filed.recording.1 hno).symm.trans h.closed
  · rw [hthrew, h.bytes] at hpatched
    exact hpatched h.fits
  · rw [habandoned] at hpatched
    exact hpatched

/-- Each operation is one fewer to come, and nothing else counts. -/
theorem step (h : v.Closes n) (hsucceeds : event.Succeeds)
    (hstep : (sessionFile env).step v event = some v') :
    v'.Closes n ∧ v'.pending + (if event.isOperation then 1 else 0) = v.pending := by
  cases sessionFile_cases hstep with
  | message msg =>
      rw [message_of_closed env h.closed]
      exact ⟨h, rfl⟩
  | @written k chunk hchunk =>
      have hlength := List.length_eraseIdx_add_one (List.getElem?_eq_some_iff.1 hchunk).1
      refine ⟨⟨h.closed, h.bytes, h.fits, h.filed.written hchunk⟩, ?_⟩
      simp only [writeChunk, pending, SessionEvent.isOperation, if_true]
      omega
  | close hopen | abandon hopen => cases hopen.symm.trans h.closed
  | again _ hagain => rcases hagain with rfl | rfl <;> exact ⟨h, rfl⟩
  | riffSize hclosing =>
      have hfiled := h.filed
      rw [hclosing] at hfiled
      refine ⟨⟨h.closed, h.bytes, h.fits, hfiled.riffSize⟩, ?_⟩
      simp [pending, hclosing, Closing.operations, SessionEvent.isOperation]
  | dataSize hclosing =>
      have hfiled := h.filed
      rw [hclosing] at hfiled
      refine ⟨⟨h.closed, h.bytes, h.fits, hfiled.dataSize⟩, ?_⟩
      simp [pending, hclosing, Closing.operations, SessionEvent.isOperation]
  | closed hclosing =>
      have hfiled := h.filed
      rw [hclosing] at hfiled
      refine ⟨⟨h.closed, h.bytes, h.fits, hfiled.closed⟩, ?_⟩
      simp [pending, hclosing, Closing.operations, SessionEvent.isOperation]
  | failed => cases hsucceeds

theorem preserves (env : Env δ) (n : Nat) :
    (sessionFile env).Preserves (fun _ event => event.Succeeds) (Closes n) :=
  fun _ _ _ h hsucceeds hstep => (h.step hsucceeds hstep).1

/-- Where no operation is left, the file is closed and has its sizes. -/
theorem ends (h : v.Closes n) (hstuck : ∀ event : SessionEvent, event.isOperation →
    event.Succeeds → (sessionFile env).step v event = none) :
    v.fileOpen = false ∧ ValidWav v.file n := by
  have hclose : v.closeStep true = none := hstuck (.closeStep true) rfl rfl
  have hwrites : v.handle.writes = [] := by
    have hfirst : v.written 0 = none := hstuck (.written 0) rfl trivial
    simpa [written, List.getElem?_eq_none_iff] using hfirst
  obtain ⟨hno, hthrew, habandoned⟩ := h.closing_ne
  have hclosed : v.closing = .closed := by
    cases hclosing : v.closing with
    | riffSize | dataSize | close => simp [closeStep, hclosing, hwrites] at hclose
    | no => exact (hno hclosing).elim
    | threw => exact (hthrew hclosing).elim
    | abandoned => exact (habandoned hclosing).elim
    | closed => rfl
  have hpatched := h.filed.patched
  rw [hclosed, h.bytes] at hpatched
  obtain ⟨-, hriff, hdata⟩ := hpatched
  refine ⟨by simp [fileOpen, hclosed], ?_, hdata⟩
  rw [hriff, wavHeaderSize]
  omega

theorem finalising (h : v.Closes n) : v.Finalising env n where
  noThrow := h.closing_ne.2.1
  socket := by simp [socketOpen, h.closed]
  bytes := h.bytes
  closeAgain := closeRecordingSession_of_closed h.closed
  message := message_of_closed env h.closed
  ends := h.ends

variable (env) in
/-- The operations that have been carried out, and those that are still to come. -/
theorem count_add (h : v.Closes n) {events : List SessionEvent}
    (hsucceed : ∀ event ∈ events, event.Succeeds) :
    (sessionFile env).count (fun _ event => event.isOperation) v events +
      ((sessionFile env).run v events).pending = v.pending := by
  have hmeets : (sessionFile env).Meets (fun _ event => event.Succeeds) v events :=
    System.meets_of_forall fun event hevent _ => hsucceed event hevent
  have hI : (sessionFile env).Preserves (fun _ event => event.Succeeds)
      fun w : SessionFile δ => w.Closes n ∧ w.pending ≤ v.pending := by
    intro w event w' hw hevent hstep
    obtain ⟨hcloses, hpending⟩ := hw.1.step hevent hstep
    exact ⟨hcloses, by omega⟩
  have hcount := hmeets.count_add (D := fun _ event => event.isOperation)
    (f := fun w => v.pending - w.pending) hI
    (fun w event w' hw hevent hstep => by
      have hle := hw.2
      rw [← (hw.1.step hevent hstep).2] at hle ⊢
      omega)
    ⟨h, Nat.le_refl _⟩
  have hle : ((sessionFile env).run v events).pending ≤ v.pending :=
    (hmeets.holds hI (fun _ hw => hw.2) ⟨h, Nat.le_refl _⟩).last
  omega

end Closes

theorem not_finalises_of_overflow (hopen : v.session.closed = false)
    (hoverflow : ¬ v.session.bytesWritten + wavHeaderSize - 8 < 2 ^ 32) :
    ¬ v.Finalises env := by
  intro hfinalises
  have hthrew : v.closeRecordingSession.closing = .threw := by
    rw [closeRecordingSession_of_open hopen]
    exact if_neg hoverflow
  exact (hfinalises [] (by simp)).1.noThrow hthrew

end SessionFile

/-- Closing a session finalises it, in every order of what happens meanwhile, exactly if
the sizes fit into the header. -/
theorem finalises_iff (env : Env δ) (path : Path) {v : SessionFile δ}
    (hreach : (sessionFile env).Reachable (.opened env path) v)
    (hopen : v.session.closed = false) :
    v.Finalises env ↔ v.session.bytesWritten + wavHeaderSize - 8 < 2 ^ 32 := by
  refine ⟨fun hfinalises => ?_, fun hfits events hsucceed => ?_⟩
  · by_contra hoverflow
    exact SessionFile.not_finalises_of_overflow hopen hoverflow hfinalises
  · have hfiled := hreach.invariant (SessionFile.OpenFiled.preserves env)
      (SessionFile.OpenFiled.opened env path)
    have hbegin := SessionFile.Closes.begin hopen hfiled hfits
    have hmeets : (sessionFile env).Meets (fun _ event => event.Succeeds)
        v.closeRecordingSession events :=
      System.meets_of_forall fun event hevent _ => hsucceed event hevent
    have hend := (hmeets.holds (SessionFile.Closes.preserves env _) (fun _ h => h) hbegin).last
    have hcount := hbegin.count_add env hsucceed
    have hpending : v.closeRecordingSession.pending = v.handle.writes.length + 3 := by
      rw [SessionFile.closeRecordingSession_of_open hopen, SessionFile.pending]
      simp only [RecordingSession.beginClosing, if_pos hfits, Closing.operations]
    exact ⟨hend.finalising, by omega⟩

/-! ## Long sessions -/

theorem run_messages (env : Env δ) (v : SessionFile δ) (msgs : List Bytes) :
    ((sessionFile env).run v (msgs.map .message)).session =
      (handleRtpPackets env v.session msgs).1 := by
  induction msgs generalizing v with
  | nil => rfl
  | cons msg msgs ih => exact ih (v.message env msg)

theorem handleRtpPackets_closed (env : Env δ) (session : RecordingSession δ)
    (msgs : List Bytes) : (handleRtpPackets env session msgs).1.closed = session.closed := by
  induction msgs generalizing session with
  | nil => rfl
  | cons msg msgs ih => exact (ih _).trans (handleRtpPacket_frame env session msg).2.1

theorem reachable_run (env : Env δ) (v : SessionFile δ) (events : List SessionEvent) :
    (sessionFile env).Reachable v ((sessionFile env).run v events) :=
  (System.meets_of_forall fun _ _ _ => trivial).reachableWhen

namespace LongSession

/-- The packet of the `i`th frame of 20 ms; its timestamp wraps around. -/
def packet (i : Nat) : Bytes :=
  [0x80, 111, 0, 0] ++ Bytes.toBE 4 (opusFrameSamples * i) ++ [0, 0, 0, 1, 0xF8]

theorem carriesFrame_packet (i : Nat) : CarriesFrame steadyDecoder (packet i) := by
  refine ⟨12, ?_, fun _ => ⟨List.replicate 640 0, rfl, ?_⟩⟩
  · simp [packet, payloadOffset, Bytes.slice, Bytes.ofBE, Bytes.ofLE, rtpHeaderMinSize]
  · rw [List.length_replicate, targetFrameSamples, bytesPerSample]

/-- The session after the packets of `n` frames. -/
def after (n : Nat) : SessionFile Unit :=
  (sessionFile steadyDecoder).run (.opened steadyDecoder [])
    (((List.range n).map packet).map .message)

theorem open_after (n : Nat) : (after n).session.closed = false := by
  rw [after, run_messages, handleRtpPackets_closed]
  rfl

theorem bytesWritten_after (n : Nat) : 640 * n ≤ (after n).session.bytesWritten := by
  have hframes : ∀ msg ∈ (List.range n).map packet, CarriesFrame steadyDecoder msg := by
    simp [carriesFrame_packet]
  have hbytes : (handleRtpPackets steadyDecoder (SessionFile.opened steadyDecoder []).session
      ((List.range n).map packet)).1.bytesWritten = _ := bytesWritten_of_first rfl rfl hframes
  rw [after, run_messages, hbytes, List.length_map, List.length_range]
  exact Nat.le_add_left ..

end LongSession

open LongSession in
theorem finalises_twoFrames : (after 2).Finalises steadyDecoder :=
  (finalises_iff steadyDecoder [] (reachable_run ..) (open_after 2)).2 (by decide +kernel)

open LongSession in
/-- The packets of 37.3 hours: 4294967680 bytes. -/
theorem not_finalises_long :
    (sessionFile steadyDecoder).Reachable (.opened steadyDecoder []) (after 6710887) ∧
      (after 6710887).session.closed = false ∧
      ¬ (after 6710887).Finalises steadyDecoder := by
  refine ⟨reachable_run .., open_after _, ?_⟩
  refine SessionFile.not_finalises_of_overflow (open_after _) ?_
  have hbytes := bytesWritten_after 6710887
  rw [wavHeaderSize]
  omega

end MeetServer.Recording
