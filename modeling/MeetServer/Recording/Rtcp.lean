import MeetServer.Recording.Timeline

/-!
# RTCP on the port of a recording

The socket of a tap receives RTP and RTCP, and both have version 2.  The packet
type is not looked at: what an RTCP packet does to a recording depends only on
whether the length check drops it.
-/

namespace MeetServer.Recording

open MeetServer.Foundation

variable {δ : Type} {env : Env δ} {session : RecordingSession δ} {msg : Bytes}
  {original longer : List Bytes}

/-! ## The header -/

def firstByte (msg : Bytes) : Nat := Bytes.ofBE (Bytes.slice msg 0 1)

/-- Where the header of an RTP packet of version 2 ends. -/
def headerEnd (msg : Bytes) : Nat :=
  let offset := rtpHeaderMinSize + firstByte msg % 16 * 4
  if firstByte msg / 16 % 2 = 1 then
    offset + (4 + Bytes.ofBE (Bytes.slice msg (offset + 2) 2) * 4)
  else offset

def TooShortForRtp (msg : Bytes) : Prop := msg.length ≤ headerEnd msg

instance : DecidablePred TooShortForRtp := fun msg =>
  inferInstanceAs (Decidable (msg.length ≤ headerEnd msg))

theorem payloadOffset_eq (hversion : firstByte msg / 64 % 4 = 2) :
    payloadOffset msg = if TooShortForRtp msg then none else some (headerEnd msg) := by
  simp only [firstByte] at hversion
  simp only [payloadOffset, TooShortForRtp, headerEnd, firstByte, hversion]
  grind

theorem payloadOffset_eq_none_iff (hversion : firstByte msg / 64 % 4 = 2) :
    payloadOffset msg = none ↔ TooShortForRtp msg := by
  rw [payloadOffset_eq hversion]
  split <;> simp_all

structure IsRtcp (msg : Bytes) : Prop where
  length : 8 ≤ msg.length
  version : firstByte msg / 64 % 4 = 2
  packetType : Bytes.ofBE (Bytes.slice msg 1 1) ∈ Set.Icc 192 223

/-- The longer sequence has further packets of the kind `P`. -/
inductive Inserted (P : Bytes → Prop) : List Bytes → List Bytes → Prop
  | nil : Inserted P [] []
  | keep (msg : Bytes) {original longer : List Bytes} :
      Inserted P original longer → Inserted P (msg :: original) (msg :: longer)
  | insert {msg : Bytes} {original longer : List Bytes} (hkind : P msg) :
      Inserted P original longer → Inserted P original (msg :: longer)

/-- The same writes, and the same state for the packets to come. -/
structure SameRecording (env : Env δ) (session : RecordingSession δ)
    (original longer : List Bytes) : Prop where
  writes : (handleRtpPackets env session longer).2 = (handleRtpPackets env session original).2
  bytesWritten : (handleRtpPackets env session longer).1.bytesWritten =
    (handleRtpPackets env session original).1.bytesWritten
  lastRtpTimestamp : (handleRtpPackets env session longer).1.lastRtpTimestamp =
    (handleRtpPackets env session original).1.lastRtpTimestamp

/-! ## One packet -/

theorem handleRtpPacket_of_tooShort (hversion : firstByte msg / 64 % 4 = 2)
    (hshort : TooShortForRtp msg) : handleRtpPacket env session msg = (session, []) := by
  simp [handleRtpPacket, (payloadOffset_eq_none_iff hversion).2 hshort]

theorem lastRtpTimestamp_handleRtpPacket (hopen : session.closed = false)
    (hversion : firstByte msg / 64 % 4 = 2) (hlong : ¬ TooShortForRtp msg) :
    (handleRtpPacket env session msg).1.lastRtpTimestamp = some (rtpTimestamp msg) := by
  simp [handleRtpPacket, hopen, payloadOffset_eq hversion, hlong, rtpTimestamp]

/-! ## Two runs -/

theorem handleRtpPackets_inserted {P : Bytes → Prop}
    (hdropped : ∀ msg, P msg → ∀ session : RecordingSession δ,
      handleRtpPacket env session msg = (session, []))
    (h : Inserted P original longer) :
    handleRtpPackets env session longer = handleRtpPackets env session original := by
  induction h generalizing session with
  | nil => rfl
  | keep msg _ ih => simp only [handleRtpPackets, ih]
  | insert hkind _ ih => simp only [handleRtpPackets, hdropped _ hkind, ih, List.nil_append]

/-- RTCP packets of a kind leave every recording alone exactly if the length
check drops all of them. -/
theorem rtcp_undisturbing_iff (env : Env δ) (P : Bytes → Prop) :
    (∀ (session : RecordingSession δ) (original longer : List Bytes),
      Inserted (fun msg => IsRtcp msg ∧ P msg) original longer →
        SameRecording env session original longer) ↔
      ∀ msg, IsRtcp msg → P msg → TooShortForRtp msg := by
  constructor
  · intro hsame msg hrtcp hkind
    by_contra hlong
    let session : RecordingSession δ := { outputPath := [], decoder := env.newDecoder }
    have hone := (hsame session [] [msg] (.insert ⟨hrtcp, hkind⟩ .nil)).lastRtpTimestamp
    have hlast : (handleRtpPacket env session msg).1.lastRtpTimestamp =
        some (rtpTimestamp msg) :=
      lastRtpTimestamp_handleRtpPacket rfl hrtcp.version hlong
    simp only [handleRtpPackets, hlast] at hone
    cases hone
  · intro hshort session original longer h
    have hequal : handleRtpPackets env session longer = handleRtpPackets env session original :=
      handleRtpPackets_inserted (fun msg hmsg session =>
        handleRtpPacket_of_tooShort hmsg.1.version (hshort msg hmsg.1 hmsg.2)) h
    exact ⟨by rw [hequal], by rw [hequal], by rw [hequal]⟩

/-- A sender report without report blocks. -/
def senderReport : Bytes :=
  [0x80, 200, 0, 6, 0, 0, 0, 1, 0, 0, 0, 0, 0, 0, 0, 0, 0, 0, 0, 0, 0, 0, 0, 0, 0, 0, 0, 0]

/-- After a packet it takes the place of the last timestamp, and its blocks are
written as a frame of 10 ms. -/
theorem senderReport_disturbs :
    IsRtcp senderReport ∧
      Inserted IsRtcp [packetAt (3, 192)] [packetAt (3, 192), senderReport] ∧
      (handleRtpPackets steadyDecoder newSession
        [packetAt (3, 192)]).1.lastRtpTimestamp = some 960 ∧
      (handleRtpPackets steadyDecoder newSession
        [packetAt (3, 192), senderReport]).1.lastRtpTimestamp = some 1 ∧
      (handleRtpPackets steadyDecoder newSession [packetAt (3, 192)]).1.bytesWritten = 640 ∧
      (handleRtpPackets steadyDecoder newSession
        [packetAt (3, 192), senderReport]).1.bytesWritten = 960 := by
  have hrtcp : IsRtcp senderReport := by
    refine ⟨by decide, by decide, ?_⟩
    rw [Set.mem_Icc]
    decide
  refine ⟨hrtcp, .keep _ (.insert hrtcp .nil), ?_⟩
  decide +kernel

end MeetServer.Recording
