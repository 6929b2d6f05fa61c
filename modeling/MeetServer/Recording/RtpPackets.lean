import MeetServer.Recording.Rtcp

/-!
# Well-formed RTP packets

An RTP packet as a sender lays it out: a fixed header, a list of contributing
sources, an optional extension, the payload, and padding whose last byte counts
it.  `handleRtpPacket` finds where the payload starts, but takes the padding
for payload.
-/

namespace MeetServer.Recording

open MeetServer.Foundation

variable {δ : Type}

/-! ## The packet -/

structure RtpExtension where
  profile : UInt16
  words : List UInt32
  length_lt : words.length < 2 ^ 16

/-- The count stands in the last byte, after the filler. -/
structure RtpPadding where
  filler : Bytes
  length_lt : filler.length < 255

structure RtpPacket where
  marker : Bool
  payloadType : Fin 128
  sequenceNumber : UInt16
  timestamp : UInt32
  ssrc : UInt32
  csrcs : List UInt32
  csrcs_length_lt : csrcs.length < 16
  extension : Option RtpExtension
  payload : Bytes
  payload_ne_nil : payload ≠ []
  padding : Option RtpPadding

namespace RtpPacket

def encodeWords (words : List UInt32) : Bytes := words.flatMap fun word => Bytes.toBE 4 word.toNat

/-- Version 2, then the flags and the number of contributing sources. -/
def flags (packet : RtpPacket) : Nat :=
  128 + 32 * packet.padding.isSome.toNat + 16 * packet.extension.isSome.toNat +
    packet.csrcs.length

def encodeFixed (packet : RtpPacket) : Bytes :=
  UInt8.ofNat packet.flags ::
    UInt8.ofNat (128 * packet.marker.toNat + packet.payloadType) ::
    (Bytes.toBE 2 packet.sequenceNumber.toNat ++ Bytes.toBE 4 packet.timestamp.toNat ++
      Bytes.toBE 4 packet.ssrc.toNat)

def encodeExtension : Option RtpExtension → Bytes
  | none => []
  | some extension =>
      Bytes.toBE 2 extension.profile.toNat ++ Bytes.toBE 2 extension.words.length ++
        encodeWords extension.words

def encodePadding : Option RtpPadding → Bytes
  | none => []
  | some padding => padding.filler ++ [UInt8.ofNat (padding.filler.length + 1)]

def header (packet : RtpPacket) : Bytes :=
  packet.encodeFixed ++ encodeWords packet.csrcs ++ encodeExtension packet.extension

def encode (packet : RtpPacket) : Bytes :=
  packet.header ++ (packet.payload ++ encodePadding packet.padding)

@[simp] theorem length_encodeWords (words : List UInt32) :
    (encodeWords words).length = 4 * words.length := by
  induction words with
  | nil => rfl
  | cons word words ih =>
      simp only [encodeWords, List.flatMap_cons, List.length_append, Bytes.length_toBE,
        List.length_cons] at ih ⊢
      omega

@[simp] theorem length_encodeFixed (packet : RtpPacket) : packet.encodeFixed.length = 12 := by
  simp [encodeFixed]

/-- The fields of the first byte, as the receiver takes it apart. -/
theorem flags_spec (packet : RtpPacket) :
    packet.flags < 256 ∧ packet.flags / 64 % 4 = 2 ∧
      packet.flags / 16 % 2 = packet.extension.isSome.toNat ∧
      packet.flags % 16 = packet.csrcs.length := by
  have hpadding := packet.padding.isSome.toNat_le
  have hextension := packet.extension.isSome.toNat_le
  have hcsrcs := packet.csrcs_length_lt
  rw [flags]
  omega

theorem firstByte_encode (packet : RtpPacket) : firstByte packet.encode = packet.flags := by
  have hfirst : Bytes.slice packet.encode 0 1 = [UInt8.ofNat packet.flags] := rfl
  rw [firstByte, hfirst]
  simp only [Bytes.ofBE, List.reverse_singleton, Bytes.ofLE, UInt8.toNat_ofNat']
  have hlt := packet.flags_spec.1
  omega

theorem rtpTimestamp_encode (packet : RtpPacket) :
    rtpTimestamp packet.encode = packet.timestamp.toNat := by
  have hfield : Bytes.slice packet.encode 4 4 = Bytes.toBE 4 packet.timestamp.toNat := by
    have hencode : packet.encode =
        (UInt8.ofNat packet.flags ::
          UInt8.ofNat (128 * packet.marker.toNat + packet.payloadType) ::
            Bytes.toBE 2 packet.sequenceNumber.toNat) ++
          (Bytes.toBE 4 packet.timestamp.toNat ++ (Bytes.toBE 4 packet.ssrc.toNat ++
            (encodeWords packet.csrcs ++ (encodeExtension packet.extension ++
              (packet.payload ++ encodePadding packet.padding))))) := by
      simp [encode, header, encodeFixed]
    rw [hencode]
    exact Bytes.slice_field (by simp) (Bytes.length_toBE ..)
  rw [rtpTimestamp, hfield]
  exact Bytes.ofBE_toBE 4 packet.timestamp.toNat_lt

theorem headerEnd_encode (packet : RtpPacket) :
    headerEnd packet.encode = packet.header.length := by
  obtain ⟨-, -, hflag, hcount⟩ := packet.flags_spec
  simp only [headerEnd, firstByte_encode, hflag, hcount, rtpHeaderMinSize, header,
    List.length_append, length_encodeFixed, length_encodeWords]
  cases hextension : packet.extension with
  | none =>
      simp [encodeExtension]
      omega
  | some extension =>
      have hencode : packet.encode =
          (packet.encodeFixed ++ encodeWords packet.csrcs ++
              Bytes.toBE 2 extension.profile.toNat) ++
            (Bytes.toBE 2 extension.words.length ++ (encodeWords extension.words ++
              (packet.payload ++ encodePadding packet.padding))) := by
        simp [encode, header, hextension, encodeExtension]
      have hfield : Bytes.slice packet.encode (12 + packet.csrcs.length * 4 + 2) 2 =
          Bytes.toBE 2 extension.words.length := by
        rw [hencode]
        apply Bytes.slice_field
        · simp
          omega
        · exact Bytes.length_toBE ..
      rw [Option.isSome_some, Bool.toNat_true, if_pos rfl, hfield,
        Bytes.ofBE_toBE 2 extension.length_lt]
      simp [encodeExtension]
      omega

theorem payloadOffset_encode (packet : RtpPacket) :
    payloadOffset packet.encode = some packet.header.length := by
  have hpayload : 0 < packet.payload.length := List.length_pos_iff.2 packet.payload_ne_nil
  have hversion : firstByte packet.encode / 64 % 4 = 2 := by
    rw [firstByte_encode]
    exact packet.flags_spec.2.1
  have hlong : ¬ TooShortForRtp packet.encode := by
    rw [TooShortForRtp, headerEnd_encode, encode, List.length_append, List.length_append]
    omega
  rw [payloadOffset_eq hversion, if_neg hlong, headerEnd_encode]

theorem drop_header (packet : RtpPacket) :
    packet.encode.drop packet.header.length =
      packet.payload ++ encodePadding packet.padding := by
  rw [encode, List.drop_left]

theorem encodePadding_eq_nil_iff (padding : Option RtpPadding) :
    encodePadding padding = [] ↔ padding = none := by
  cases padding <;> simp [encodePadding]

end RtpPacket

/-! ## What the decoder is given -/

/-- The decoder of `env`, together with everything it has been given. -/
def Env.recorded (env : Env δ) : Env (δ × List Bytes) where
  outputDir := env.outputDir
  newDecoder := (env.newDecoder, [])
  decode state input :=
    let (decoder, pcm) := env.decode state.1 input
    ((decoder, state.2 ++ [input]), pcm)

def RecordingSession.unrecorded (session : RecordingSession (δ × List Bytes)) :
    RecordingSession δ where
  outputPath := session.outputPath
  decoder := session.decoder.1
  bytesWritten := session.bytesWritten
  lastRtpTimestamp := session.lastRtpTimestamp
  closed := session.closed

variable (env : Env δ) {session : RecordingSession (δ × List Bytes)}

theorem handleRtpPacket_unrecorded (session : RecordingSession (δ × List Bytes)) (msg : Bytes) :
    handleRtpPacket env session.unrecorded msg =
      ((handleRtpPacket env.recorded session msg).1.unrecorded,
        (handleRtpPacket env.recorded session msg).2) := by
  by_cases hclosed : session.closed
  · rw [handleRtpPacket_closed env.recorded hclosed]
    exact handleRtpPacket_closed env hclosed msg
  · have hopen : ¬ session.unrecorded.closed := hclosed
    rw [handleRtpPacket, handleRtpPacket, if_neg hopen, if_neg hclosed]
    cases payloadOffset msg <;> rfl

theorem handleRtpPacket_encode (hopen : session.closed = false) (packet : RtpPacket) :
    (handleRtpPacket env.recorded session packet.encode).1.decoder.2 =
        session.decoder.2 ++ [packet.payload ++ RtpPacket.encodePadding packet.padding] ∧
      (handleRtpPacket env.recorded session packet.encode).1.lastRtpTimestamp =
        some packet.timestamp.toNat := by
  have htimestamp := packet.rtpTimestamp_encode
  rw [rtpTimestamp] at htimestamp
  simp only [handleRtpPacket, hopen, packet.payloadOffset_encode, packet.drop_header, htimestamp]
  exact ⟨rfl, rfl⟩

/-- The decoder gets the payload, and nothing else, of exactly the packets
without padding. -/
theorem handleRtpPacket_givesPayload_iff (hopen : session.closed = false) (packet : RtpPacket) :
    (handleRtpPacket env.recorded session packet.encode).1.decoder.2 =
          session.decoder.2 ++ [packet.payload] ∧
        (handleRtpPacket env.recorded session packet.encode).1.lastRtpTimestamp =
          some packet.timestamp.toNat ↔
      packet.padding = none := by
  obtain ⟨hgiven, hlast⟩ := handleRtpPacket_encode env hopen packet
  rw [hgiven, hlast, ← RtpPacket.encodePadding_eq_nil_iff]
  simp

def samplePacket (padding : Option RtpPadding) : RtpPacket where
  marker := false
  payloadType := 111
  sequenceNumber := 7
  timestamp := 960
  ssrc := 1
  csrcs := [2]
  csrcs_length_lt := by decide
  extension := some ⟨0xBEDE, [0], by decide⟩
  payload := [0xF8]
  payload_ne_nil := by decide
  padding := padding

def recordedSession : RecordingSession (Unit × List Bytes) where
  outputPath := []
  decoder := ((), [])

theorem handleRtpPacket_givesPayload_sample :
    (handleRtpPacket steadyDecoder.recorded recordedSession
        (samplePacket none).encode).1.decoder.2 = [[0xF8]] ∧
      (handleRtpPacket steadyDecoder.recorded recordedSession
        (samplePacket none).encode).1.lastRtpTimestamp = some 960 :=
  have hopen : recordedSession.closed = false := rfl
  (handleRtpPacket_givesPayload_iff steadyDecoder hopen (samplePacket none)).2 rfl

/-- Four bytes of padding end up in the decoder. -/
theorem handleRtpPacket_givesPadding :
    (handleRtpPacket steadyDecoder.recorded recordedSession
        (samplePacket (some ⟨[0, 0, 0], by decide⟩)).encode).1.decoder.2 =
      [[0xF8, 0, 0, 0, 4]] ∧
    (samplePacket (some ⟨[0, 0, 0], by decide⟩)).payload = [0xF8] := by
  have hopen : recordedSession.closed = false := rfl
  exact ⟨(handleRtpPacket_encode steadyDecoder hopen _).1, rfl⟩

end MeetServer.Recording
