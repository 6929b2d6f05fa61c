import Mathlib.Data.Int.Log
import Mathlib.Data.Rat.Floor
import MeetServer.Contracts
import MeetServer.Foundation.Bytes

/-!
# Recording sessions and their packets

`startRecordingSession`'s header, `handleRtpPacket` and the names of the files.
Writes that are not awaited are returned in the order in which they are
started.  The decoder is a state machine that may refuse its input.
-/

namespace MeetServer.Recording

open MeetServer.Foundation

def wavHeaderSize : Nat := 44
def sampleRate : Nat := 16000
def channels : Nat := 1
def bitsPerSample : Nat := 16
def bytesPerSample : Nat := 2
def rtpHeaderMinSize : Nat := 12
def maxSilenceGapTicks : Nat := 48000
def opusFrameSamples : Nat := 960
def targetFrameSamples : Nat := 320

/-- The directories and the file name, as `path.join` puts them together. -/
abbrev Path := List String

/-- `path.join(dir, name)` for a name without slashes and dot segments. -/
def join (dir : Path) (name : String) : Path :=
  if name = "" then dir else dir ++ [name]

/-- The characters of `[a-zA-Z0-9_-]`. -/
def isFilenameChar (c : Char) : Bool := c.isAlphanum || c = '_' || c = '-'

/-- The regular expression works on UTF-16 code units. -/
def utf16Size (c : Char) : Nat := if c.toNat < 2 ^ 16 then 1 else 2

def sanitizeFilename (name : String) : String :=
  String.ofList (name.toList.flatMap fun c =>
    if isFilenameChar c then [c] else List.replicate (utf16Size c) '_')

def roomOutputDir (outputDir : Path) (roomId : RoomId) : Path :=
  join outputDir (sanitizeFilename roomId)

/-- `outputPath` in `tapPeer`. -/
def outputPath (outputDir : Path) (roomId : RoomId) (speakerName : String) : Path :=
  join (roomOutputDir outputDir roomId) (sanitizeFilename speakerName ++ ".wav")

/-- What the service is configured with, and the third-party decoder. -/
structure Env (δ : Type) where
  outputDir : Path
  newDecoder : δ
  /-- `OpusEncoder.decode`; `none` when it throws. -/
  decode : δ → Bytes → δ × Option Bytes

/-- The socket and the file handle belong to the tap. -/
structure RecordingSession (δ : Type) where
  outputPath : Path
  decoder : δ
  bytesWritten : Nat := 0
  lastRtpTimestamp : Option Nat := none
  closed : Bool := false

def ascii (text : List Char) : Bytes := text.map fun c => UInt8.ofNat c.toNat

def buildWavHeader : Bytes :=
  ascii ['R', 'I', 'F', 'F'] ++ Bytes.toLE 4 0 ++ ascii ['W', 'A', 'V', 'E'] ++
    ascii ['f', 'm', 't', ' '] ++ Bytes.toLE 4 16 ++ Bytes.toLE 2 1 ++
    Bytes.toLE 2 channels ++ Bytes.toLE 4 sampleRate ++
    Bytes.toLE 4 (sampleRate * channels * bytesPerSample) ++
    Bytes.toLE 2 (channels * bytesPerSample) ++ Bytes.toLE 2 bitsPerSample ++
    ascii ['d', 'a', 't', 'a'] ++ Bytes.toLE 4 0

/-- The double nearest to a positive number, ties to even. -/
def toDouble (q : ℚ) : ℚ :=
  let ulp : ℚ := 2 ^ (Int.log 2 q - 52)
  let floor := ⌊q / ulp⌋
  let rest := q / ulp - floor
  (if rest < 1 / 2 ∨ rest = 1 / 2 ∧ floor % 2 = 0 then floor else floor + 1) * ulp

/-- `Math.floor((gap / OPUS_FRAME_SAMPLES) * TARGET_FRAME_SAMPLES)`. -/
def gapAtTargetRate (gap : Nat) : Nat :=
  ⌊toDouble (toDouble (gap / opusFrameSamples) * targetFrameSamples)⌋₊

/-- Where the payload starts, if the datagram has one. -/
def payloadOffset (msg : Bytes) : Option Nat :=
  if msg.length < rtpHeaderMinSize then none
  else
    let firstByte := (Bytes.ofBE (Bytes.slice msg 0 1))
    if firstByte / 64 % 4 ≠ 2 then none
    else
      let offset := rtpHeaderMinSize + firstByte % 16 * 4
      if firstByte / 16 % 2 = 1 then
        if msg.length < offset + 4 then none
        else
          let extensionLength := Bytes.ofBE (Bytes.slice msg (offset + 2) 2)
          let offset := offset + (4 + extensionLength * 4)
          if offset ≥ msg.length then none else some offset
      else if offset ≥ msg.length then none
      else some offset

variable {δ : Type}

/-- The silence for the ticks since the packet before. -/
def silence (lastRtpTimestamp : Option Nat) (rtpTimestamp : Nat) : Option Bytes :=
  match lastRtpTimestamp with
  | none => none
  | some last =>
      let gap := (rtpTimestamp + 2 ^ 32 - last) % 2 ^ 32
      if gap > opusFrameSamples ∧ gap < maxSilenceGapTicks then
        some (List.replicate (gapAtTargetRate gap * bytesPerSample) 0)
      else none

/-- The session afterwards, and the writes that have been started. -/
def handleRtpPacket (env : Env δ) (session : RecordingSession δ) (msg : Bytes) :
    RecordingSession δ × List Bytes :=
  if session.closed then (session, [])
  else
    match payloadOffset msg with
    | none => (session, [])
    | some offset =>
        let rtpTimestamp := Bytes.ofBE (Bytes.slice msg 4 4)
        let gap := (silence session.lastRtpTimestamp rtpTimestamp).toList
        let (decoder, pcm) := env.decode session.decoder (msg.drop offset)
        let writes := gap ++ pcm.toList
        ({ session with
            decoder := decoder
            lastRtpTimestamp := some rtpTimestamp
            bytesWritten := session.bytesWritten + writes.flatten.length },
          writes)

/-- The datagrams of a session in the order in which they arrive. -/
def handleRtpPackets (env : Env δ) (session : RecordingSession δ) :
    List Bytes → RecordingSession δ × List Bytes
  | [] => (session, [])
  | msg :: msgs =>
      let (session, writes) := handleRtpPacket env session msg
      let (session, later) := handleRtpPackets env session msgs
      (session, writes ++ later)

/-! ## A decoder -/

/-- The samples of one frame, by the first byte of its packet. -/
def frameSamples (toc : UInt8) : Nat :=
  let config := toc.toNat / 8
  if config < 12 then [160, 320, 640, 960].getD (config % 4) 0
  else if config < 16 then 160 * (config % 2 + 1)
  else 40 * 2 ^ (config % 4)

/-- Of packets with one frame: as many bytes as the frame has samples for, all of them
the frame's first byte. -/
def steadyDecoder : Env Unit where
  outputDir := []
  newDecoder := ()
  decode _ payload :=
    ((), match payload with
      | [] => none
      | toc :: frame =>
          some (List.replicate (frameSamples toc * bytesPerSample) (frame.headD 0)))

theorem length_buildWavHeader : buildWavHeader.length = wavHeaderSize := by
  simp [buildWavHeader, ascii, wavHeaderSize]

theorem payloadOffset_bounds {msg : Bytes} {offset : Nat} (h : payloadOffset msg = some offset) :
    rtpHeaderMinSize ≤ offset ∧ offset < msg.length := by
  unfold payloadOffset at h
  grind

/-- A packet only ever adds to the session. -/
theorem handleRtpPacket_frame (env : Env δ) (session : RecordingSession δ)
    (msg : Bytes) :
    (handleRtpPacket env session msg).1.outputPath = session.outputPath ∧
      (handleRtpPacket env session msg).1.closed = session.closed ∧
      (handleRtpPacket env session msg).1.bytesWritten = session.bytesWritten +
        (handleRtpPacket env session msg).2.flatten.length := by
  unfold handleRtpPacket
  split
  · exact ⟨rfl, rfl, rfl⟩
  · split
    · exact ⟨rfl, rfl, rfl⟩
    · exact ⟨rfl, rfl, rfl⟩

theorem handleRtpPacket_closed (env : Env δ) {session : RecordingSession δ}
    (h : session.closed) (msg : Bytes) :
    handleRtpPacket env session msg = (session, []) := by
  simp [handleRtpPacket, h]

end MeetServer.Recording
