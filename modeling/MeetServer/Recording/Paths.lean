import MeetServer.Recording.Steps
import Mathlib.Data.Fintype.Basic

/-!
# The files of the recordings

The path of a recording is made of the names that the room and the speaker have
when their file is opened, and opening truncates.
-/

namespace MeetServer.Recording

open MeetServer.Foundation

variable {Ref δ : Type} [DecidableEq Ref]

/-! ## What the path says -/

theorem wav_ne_empty (name : String) : name ++ ".wav" ≠ "" := by
  intro h
  have hlength := congrArg String.length h
  rw [String.length_append] at hlength
  exact absurd hlength (by simp)

theorem join_inj {dir : Path} {name name' : String} :
    join dir name = join dir name' ↔ name = name' := by
  refine ⟨fun h => ?_, fun h => by rw [h]⟩
  unfold join at h
  split at h <;> split at h
  · simp_all
  · simp at h
  · simp at h
  · simpa using h

theorem outputPath_inj {outputDir : Path} {roomId roomId' : RoomId}
    {speakerName speakerName' : String} :
    outputPath outputDir roomId speakerName =
        outputPath outputDir roomId' speakerName' ↔
      sanitizeFilename roomId = sanitizeFilename roomId' ∧
        sanitizeFilename speakerName = sanitizeFilename speakerName' := by
  rw [outputPath, outputPath, join, join, if_neg (wav_ne_empty _),
    if_neg (wav_ne_empty _), List.append_singleton_inj, String.append_left_inj,
    roomOutputDir, roomOutputDir, join_inj]

/-- The file handle of a tap has not been opened yet. -/
def TapPoint.beforeOpen : TapPoint Ref → Bool
  | .stopPeerRecording _ | .mkdir | .createPlainTransport | .consume | .open => true
  | _ => false

/-- The session has not been made yet. -/
def TapPoint.sessionless : TapPoint Ref → Bool
  | .writeHeader | .bind => true
  | point => point.beforeOpen

omit [DecidableEq Ref] in
theorem TapPoint.sessionless_of_beforeOpen {point : TapPoint Ref} (h : point.beforeOpen) :
    point.sessionless := by
  cases point <;> first | rfl | cases h

/-- A tap writes to the path that its names give. -/
structure Tap.Named (env : Env δ) (tap : Tap Ref δ) : Prop where
  beforeOpen : tap.point.beforeOpen → tap.fileHandle = none
  sessionless : tap.point.sessionless → tap.session = none
  fileHandle : ∀ handle, tap.fileHandle = some handle → handle.path = tap.outputPath env
  session : ∀ session, tap.session = some session →
    session.outputPath = tap.outputPath env

namespace Tap.Named

variable {env : Env δ} {tap tap' : Tap Ref δ} {A : Prop}

omit [DecidableEq Ref] in
theorem new (h : tap.New) : tap.Named env := by
  refine ⟨fun _ => h.fileHandle, fun _ => h.session, ?_, ?_⟩
  · rw [h.fileHandle]
    nofun
  · rw [h.session]
    nofun

omit [DecidableEq Ref] in
theorem stops (h : tap.Stops A tap') (hnamed : tap.Named env) : tap'.Named env := by
  have hpath : tap'.outputPath env = tap.outputPath env := by
    rw [Tap.outputPath, h.roomId, h.speakerName, Tap.outputPath]
  refine ⟨?_, ?_, ?_, ?_⟩
  · rw [h.point, h.fileHandle]
    exact hnamed.beforeOpen
  · intro hpoint
    rw [h.point] at hpoint
    have hsession := hnamed.sessionless hpoint
    rcases h.session with ⟨hsame, -⟩ | ⟨x, hx, -⟩
    · exact hsame.trans hsession
    · cases hsession.symm.trans hx
  · rw [h.fileHandle, hpath]
    exact hnamed.fileHandle
  · intro session hsession
    rw [hpath]
    rcases h.session with ⟨hsame, -⟩ | ⟨x, hx, -, hclosed, -⟩
    · exact hnamed.session session (hsame.symm.trans hsession)
    · obtain rfl := Option.some.inj (hclosed.symm.trans hsession)
      exact hnamed.session x hx

omit [DecidableEq Ref] in
theorem same (h : tap.Named env) (hpath : tap'.outputPath env = tap.outputPath env)
    (hhandle : tap'.fileHandle = tap.fileHandle)
    (hsession : tap'.session = tap.session)
    (hopen : tap'.point.beforeOpen → tap.point.beforeOpen)
    (hbind : tap'.point.sessionless → tap.point.sessionless) : tap'.Named env := by
  refine ⟨fun hbefore => ?_, fun hbefore => ?_, ?_, ?_⟩
  · rw [hhandle]
    exact h.beforeOpen (hopen hbefore)
  · rw [hsession]
    exact h.sessionless (hbind hbefore)
  · rw [hhandle, hpath]
    exact h.fileHandle
  · rw [hsession, hpath]
    exact h.session

omit [DecidableEq Ref] in
theorem beforeOpen_of_passes {point point' : TapPoint Ref} (h : point.Passes point')
    (hbefore : point'.beforeOpen) : point.beforeOpen := by
  cases h <;> first | rfl | cases hbefore

omit [DecidableEq Ref] in
theorem sessionless_of_passes {point point' : TapPoint Ref} (h : point.Passes point')
    (hbefore : point'.sessionless) : point.sessionless := by
  cases h <;> first | rfl | cases hbefore

theorem tapStep {s s' : State Ref δ} {t : TapId Ref} {tap : Tap Ref δ} {ok : Bool}
    (h : s.Taps (Named env)) (htap : s.tap t = some tap)
    (hstep : TapStep env s t tap ok s') : s'.Taps (Named env) := by
  have hsome {tap' : Tap Ref δ} (htap' : s.tap t = some tap') : tap' = tap :=
    Option.some.inj (htap'.symm.trans htap)
  -- the tap leaves a point at which nothing has been opened
  have hgoes {f : Tap Ref δ → Tap Ref δ} (hpoint : tap.point.beforeOpen)
      (hpath : (f tap).outputPath env = tap.outputPath env)
      (hhandle : (f tap).fileHandle = tap.fileHandle) (hsession : (f tap).session = tap.session) :
      (s.updateTap t f).Taps (Named env) := by
    refine h.updateTap fun tap' htap' hnamed => ?_
    obtain rfl := hsome htap'
    exact hnamed.same hpath hhandle hsession (fun _ => hpoint)
      fun _ => TapPoint.sessionless_of_beforeOpen hpoint
  cases hstep with
  | passed hpasses =>
      refine h.updateTap fun tap' htap' hnamed => ?_
      obtain rfl := hsome htap'
      exact hnamed.same rfl rfl rfl (beforeOpen_of_passes hpasses) (sessionless_of_passes hpasses)
  | named hpoint =>
      refine h.updateTap fun tap' htap' hnamed => ?_
      obtain rfl := hsome htap'
      have hhandle := hnamed.beforeOpen (by rw [hpoint]; rfl)
      have hsession := hnamed.sessionless (by rw [hpoint]; rfl)
      refine ⟨fun _ => hhandle, fun _ => hsession, ?_, ?_⟩
      · simp [hhandle]
      · simp [hsession]
  | created hpoint => exact hgoes (by rw [hpoint]; rfl) rfl rfl rfl
  | consumed hpoint => exact hgoes (by rw [hpoint]; rfl) rfl rfl rfl
  | notConsumed hpoint =>
      have hclosed : (s.closePlainTransport t).Taps (Named env) :=
        h.updateTap fun tap' htap' hnamed => hnamed.same rfl rfl rfl id id
      exact hclosed.updateTap fun tap' htap' hnamed => hnamed.same rfl rfl rfl nofun nofun
  | opened hpoint =>
      refine State.Taps.updateTap (s := { s with disk := _ }) h fun tap' htap' hnamed => ?_
      obtain rfl := hsome htap'
      refine ⟨nofun, fun _ => hnamed.sessionless (by rw [hpoint]; rfl), ?_, hnamed.session⟩
      intro handle hhandle
      obtain rfl := Option.some.inj hhandle
      simp only [Tap.outputPath]
  | @headed handle hpoint hhandle =>
      refine State.Taps.updateTap (s := s.writeAt _ _ _) h fun tap' htap' hnamed => ?_
      obtain rfl := hsome htap'
      refine ⟨nofun, fun _ => hnamed.sessionless (by rw [hpoint]; rfl), ?_, hnamed.session⟩
      rintro _ ⟨rfl⟩
      exact hnamed.fileHandle handle hhandle
  | bound hpoint hhandle =>
      refine h.updateTap fun tap' htap' hnamed => ?_
      obtain rfl := hsome htap'
      refine ⟨nofun, nofun, hnamed.fileHandle, ?_⟩
      rintro session ⟨rfl⟩
      exact hnamed.fileHandle _ hhandle
  | started hpoint =>
      exact h.updateTap fun tap' htap' hnamed => hnamed.same rfl rfl rfl nofun nofun
  | connected hpoint =>
      exact h.updateTap fun tap' htap' hnamed => hnamed.same rfl rfl rfl nofun nofun
  | notConnected hpoint =>
      have hstopped : (s.stopPeerRecording t.2).1.Taps (Named env) :=
        h.grows (fun _ => new) (fun _ _ => stops)
          (State.Stops.stopPeerRecording (A := False) s t.2).grows
      exact hstopped.updateTap fun tap' htap' hnamed => hnamed.same rfl rfl rfl nofun nofun

theorem message {s s' : State Ref δ} {t : TapId Ref} {msg : Bytes}
    (h : s.Taps (Named env)) (hs : s.message env t msg = some s') :
    s'.Taps (Named env) := by
  obtain ⟨tap, session, handle, htap, hsession, hhandle, rfl⟩ := State.message_cases hs
  refine h.updateTap fun tap' htap' hnamed => ?_
  obtain rfl := Option.some.inj (htap'.symm.trans htap)
  have hmade : ¬ tap'.point.sessionless := fun hpoint => by
    cases hsession.symm.trans (hnamed.sessionless hpoint)
  refine ⟨fun hpoint => ?_, fun hpoint => (hmade hpoint).elim, ?_, ?_⟩
  · exact (hmade (TapPoint.sessionless_of_beforeOpen hpoint)).elim
  · rintro _ ⟨rfl⟩
    exact hnamed.fileHandle handle hhandle
  · rintro _ ⟨rfl⟩
    rw [(handleRtpPacket_frame env session msg).1]
    exact hnamed.session session hsession

theorem written {s s' : State Ref δ} {t : TapId Ref} {k : Nat}
    (h : s.Taps (Named env)) (hs : s.written t k = some s') : s'.Taps (Named env) := by
  obtain ⟨tap, handle, chunk, htap, hhandle, -, rfl⟩ := State.written_cases hs
  refine State.Taps.updateTap (s := s.writeAt _ _ _) h fun tap' htap' hnamed => ?_
  obtain rfl := Option.some.inj (htap'.symm.trans htap)
  refine ⟨fun hpoint => ?_, hnamed.sessionless, ?_, hnamed.session⟩
  · cases hhandle.symm.trans (hnamed.beforeOpen hpoint)
  · rintro _ ⟨rfl⟩
    exact hnamed.fileHandle handle hhandle

theorem closeStep {s s' : State Ref δ} {t : TapId Ref} {ok : Bool}
    (h : s.Taps (Named env)) (hs : s.closeStep t ok = some s') :
    s'.Taps (Named env) := by
  have hset (s : State Ref δ) (closing : Closing) (h : s.Taps (Named env)) :
      (s.setClosing t closing).Taps (Named env) :=
    h.updateTap fun tap' htap' hnamed => hnamed.same rfl rfl rfl id id
  obtain ⟨tap, session, handle, -, -, -, hstep⟩ := State.closeStep_cases hs
  cases hstep with
  | riffSize => exact hset (s.writeAt _ _ _) _ h
  | dataSize => exact hset (s.writeAt _ _ _) _ h
  | close => exact hset s _ h
  | failed => exact hset s _ h

/-- Every tap keeps to its path, whatever happens. -/
theorem preserves :
    (process env : System (Process Ref δ) (Happening Ref)).Preserves (fun _ _ => True)
      fun p => p.world.Taps (Named env) := by
  intro p a p' h _ hstep
  have hgrows {s' : State Ref δ} (hs : p.world.Grows True s') : s'.Taps (Named env) :=
    h.grows (fun _ => new) (fun _ _ => stops) hs
  cases process_cases hstep with
  | call hcall => exact hgrows (hcall.grows fun _ _ _ _ _ => trivial)
  | tap htap htapStep => exact tapStep h htap htapStep
  | message hs => exact message h hs
  | written hs => exact written h hs
  | close hs => exact closeStep h hs
  | producerclose hs => exact hgrows (State.producerclose_stops hs).grows
  | socketError hs => exact hgrows (State.socketError_stops hs).grows

end Tap.Named

/-! One peer with a microphone is recorded, and then `request` is made. -/

namespace OnePeer

def env : Env Unit := { steadyDecoder with outputDir := ["recordings"] }

inductive Caller where
  | first
  | second
  | third
  | fourth
  | fifth
  deriving DecidableEq

instance : Fintype Caller :=
  ⟨{.first, .second, .third, .fourth, .fifth}, fun c => by cases c <;> decide⟩

def requests (request : Sfu.Request) : Caller → Request Caller
  | .first => .mediaRooms (.getOrCreateRoom "r")
  | .second => .mediaRooms (.createTransport "r" "p" .send)
  | .third => .produce "r" "p" .second .audio
  | .fourth => .mediaRooms (.startRecording "r" [("p", "Ann")])
  | .fifth => .mediaRooms request

def start (request : Sfu.Request) : Process Caller Unit :=
  .start (.spawned [0]) (requests request)

/-- Version 2, no extension, and a silent frame of 20 ms. -/
def packet : Bytes := 0x80 :: List.replicate 11 0 ++ [0xF8]

def produced : List (Happening Caller) :=
  [.first, .first, .second, .second, .third, .third].map fun i => .call i true

/-- The tap runs to its end, and a packet is written. -/
def recorded : List (Happening Caller) :=
  produced ++ .call .fourth true :: List.replicate 9 (.tap (.fourth, .second) true) ++
    [.message (.fourth, .second) packet, .written (.fourth, .second) 0]

/-- The sizes are patched, and the file is closed. -/
def closed : List (Happening Caller) := List.replicate 3 (.close (.fourth, .second) true)

end OnePeer

end MeetServer.Recording
