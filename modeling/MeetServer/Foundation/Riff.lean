import MeetServer.Foundation.Bytes
import Mathlib.Tactic.NormNum

/-!
# RIFF files

A chunk has an id of four bytes, the size of its body, the body, and a byte of
padding after a body of odd size.  A RIFF file is a chunk of chunks; a WAVE file
says in one of them how the samples in another one are stored.
-/

namespace MeetServer.Foundation

structure Chunk where
  id : Bytes
  body : Bytes
  length_id : id.length = 4
  length_body : body.length < 256 ^ 4

def encodeChunk (c : Chunk) : Bytes :=
  c.id ++ (Bytes.toLE 4 c.body.length ++ (c.body ++ List.replicate (c.body.length % 2) 0))

theorem Bytes.length_slice_id {bytes : Bytes} {size : Nat} (h : 8 + size ≤ bytes.length) :
    (slice bytes 0 4).length = 4 := by
  simp only [slice, List.length_take, List.length_drop]
  omega

/-- A size of four bytes is a size that four bytes can say. -/
theorem Bytes.length_slice_size (bytes : Bytes) :
    (slice bytes 8 (ofLE (slice bytes 4 4))).length < 256 ^ 4 := by
  have hsize : ofLE (slice bytes 4 4) < 256 ^ 4 :=
    (ofLE_lt _).trans_le (Nat.pow_le_pow_right (by omega) (List.length_take_le ..))
  exact (List.length_take_le ..).trans_lt hsize

/-- The last chunk may lack its padding. -/
def decodeChunk? (bytes : Bytes) : Option (Chunk × Bytes) :=
  let size := Bytes.ofLE (Bytes.slice bytes 4 4)
  if h : 8 + size ≤ bytes.length then
    some
      ({ id := Bytes.slice bytes 0 4
         body := Bytes.slice bytes 8 size
         length_id := Bytes.length_slice_id h
         length_body := Bytes.length_slice_size bytes },
        bytes.drop (8 + size + size % 2))
  else none

theorem decodeChunk?_suffix (c : Chunk) (rest : Bytes) :
    decodeChunk? (encodeChunk c ++ rest) = some (c, rest) := by
  obtain ⟨id, body, hid, hbody⟩ := c
  have hencode : encodeChunk ⟨id, body, hid, hbody⟩ ++ rest =
      id ++ (Bytes.toLE 4 body.length ++ (body ++
        (List.replicate (body.length % 2) 0 ++ rest))) := by
    simp only [encodeChunk, List.append_assoc]
  have hsize : Bytes.ofLE (Bytes.slice (encodeChunk ⟨id, body, hid, hbody⟩ ++ rest) 4 4) =
      body.length := by
    rw [hencode, Bytes.slice_field hid (Bytes.length_toLE 4 _), Bytes.ofLE_toLE 4 hbody]
  have hidOf : Bytes.slice (encodeChunk ⟨id, body, hid, hbody⟩ ++ rest) 0 4 = id := by
    rw [hencode, Bytes.slice, List.drop_zero, List.take_left' hid]
  have hfront : (id ++ Bytes.toLE 4 body.length).length = 8 := by
    rw [List.length_append, hid, Bytes.length_toLE]
  have hbodyOf : Bytes.slice (encodeChunk ⟨id, body, hid, hbody⟩ ++ rest) 8 body.length =
      body := by
    rw [hencode, ← List.append_assoc]
    exact Bytes.slice_field hfront rfl
  have hrest : (encodeChunk ⟨id, body, hid, hbody⟩ ++ rest).drop
      (8 + body.length + body.length % 2) = rest := by
    refine List.drop_left' ?_
    simp only [encodeChunk, List.length_append, List.length_replicate, hid, Bytes.length_toLE]
    omega
  have hfits : 8 + body.length ≤ (encodeChunk ⟨id, body, hid, hbody⟩ ++ rest).length := by
    rw [hencode]
    simp only [List.length_append, hid, Bytes.length_toLE]
    omega
  simp only [decodeChunk?, hsize, hfits, dif_pos, hidOf, hbodyOf, hrest]

def decodeChunks? : Nat → Bytes → Option (List Chunk)
  | _, [] => some []
  | 0, _ :: _ => none
  | fuel + 1, byte :: bytes => do
      let (c, rest) ← decodeChunk? (byte :: bytes)
      let chunks ← decodeChunks? fuel rest
      some (c :: chunks)

theorem length_encodeChunk (c : Chunk) :
    (encodeChunk c).length = 8 + c.body.length + c.body.length % 2 := by
  simp only [encodeChunk, List.length_append, List.length_replicate, c.length_id,
    Bytes.length_toLE]
  omega

/-- Padding keeps the sizes even. -/
theorem length_flatMap_encodeChunk (chunks : List Chunk) :
    (chunks.flatMap encodeChunk).length % 2 = 0 ∧
      chunks.length ≤ (chunks.flatMap encodeChunk).length := by
  induction chunks with
  | nil => simp
  | cons c chunks ih =>
      have hc := length_encodeChunk c
      rw [List.flatMap_cons, List.length_append, List.length_cons]
      omega

theorem decodeChunks?_flatMap (chunks : List Chunk) {fuel : Nat} (h : chunks.length ≤ fuel) :
    decodeChunks? fuel (chunks.flatMap encodeChunk) = some chunks := by
  induction chunks generalizing fuel with
  | nil => cases fuel <;> rfl
  | cons c chunks ih =>
      rw [List.length_cons] at h
      obtain ⟨fuel, rfl⟩ : ∃ fuel', fuel = fuel' + 1 :=
        Nat.exists_eq_succ_of_ne_zero (by omega)
      have hlength := length_encodeChunk c
      obtain ⟨byte, bytes, hbytes⟩ : ∃ byte bytes, encodeChunk c = byte :: bytes :=
        List.exists_cons_of_length_pos (by omega)
      have hchunk := decodeChunk?_suffix c (chunks.flatMap encodeChunk)
      rw [hbytes] at hchunk
      rw [List.flatMap_cons, hbytes, List.cons_append, decodeChunks?]
      rw [List.cons_append] at hchunk
      simp [hchunk, ih (by omega : chunks.length ≤ fuel)]

/-! ## RIFF and WAVE -/

/-- `RIFF`. -/
def riffId : Bytes := [0x52, 0x49, 0x46, 0x46]

/-- `WAVE`. -/
def waveId : Bytes := [0x57, 0x41, 0x56, 0x45]

/-- `fmt `. -/
def formatId : Bytes := [0x66, 0x6d, 0x74, 0x20]

/-- `data`. -/
def dataId : Bytes := [0x64, 0x61, 0x74, 0x61]

def encodeRiff (form : Bytes) (chunks : List Chunk) : Bytes :=
  riffId ++ (Bytes.toLE 4 (4 + (chunks.flatMap encodeChunk).length) ++
    (form ++ chunks.flatMap encodeChunk))

/-- The form of the file, and its chunks. -/
def decodeRiff? (file : Bytes) : Option (Bytes × List Chunk) := do
  let (c, rest) ← decodeChunk? file
  if c.id = riffId ∧ rest = [] ∧ 4 ≤ c.body.length then
    let chunks ← decodeChunks? c.body.length (c.body.drop 4)
    some (c.body.take 4, chunks)
  else none

def riffChunk (form : Bytes) (chunks : List Chunk) (hform : form.length = 4)
    (hsize : 4 + (chunks.flatMap encodeChunk).length < 256 ^ 4) : Chunk where
  id := riffId
  body := form ++ chunks.flatMap encodeChunk
  length_id := rfl
  length_body := by rwa [List.length_append, hform]

theorem encodeChunk_riffChunk {form : Bytes} {chunks : List Chunk} (hform : form.length = 4)
    (hsize : 4 + (chunks.flatMap encodeChunk).length < 256 ^ 4) :
    encodeChunk (riffChunk form chunks hform hsize) = encodeRiff form chunks := by
  obtain ⟨heven, -⟩ := length_flatMap_encodeChunk chunks
  have hbody : (riffChunk form chunks hform hsize).body.length =
      4 + (chunks.flatMap encodeChunk).length := by
    simp only [riffChunk, List.length_append, hform]
  have hpadding : (riffChunk form chunks hform hsize).body.length % 2 = 0 := by omega
  rw [encodeChunk, hpadding, hbody, List.replicate_zero, List.append_nil]
  rfl

theorem decodeRiff?_encodeRiff {form : Bytes} {chunks : List Chunk} (hform : form.length = 4)
    (hsize : 4 + (chunks.flatMap encodeChunk).length < 256 ^ 4) :
    decodeRiff? (encodeRiff form chunks) = some (form, chunks) := by
  have hchunk := decodeChunk?_suffix (riffChunk form chunks hform hsize) []
  rw [List.append_nil, encodeChunk_riffChunk] at hchunk
  have hbody : (riffChunk form chunks hform hsize).body = form ++ chunks.flatMap encodeChunk := rfl
  have hfour : 4 ≤ (form ++ chunks.flatMap encodeChunk).length := by
    rw [List.length_append]
    omega
  have hfuel : chunks.length ≤ (form ++ chunks.flatMap encodeChunk).length := by
    have hle := (length_flatMap_encodeChunk chunks).2
    rw [List.length_append]
    omega
  rw [decodeRiff?, hchunk]
  simp only [Option.bind_eq_bind, Option.bind_some, hbody]
  rw [if_pos ⟨rfl, trivial, hfour⟩, List.drop_left' hform, List.take_left' hform,
    decodeChunks?_flatMap chunks hfuel]
  rfl

/-- Samples that are not compressed. -/
structure PcmFormat where
  channels : Nat
  sampleRate : Nat
  bitsPerSample : Nat
  deriving DecidableEq, Repr

namespace PcmFormat

variable (f : PcmFormat)

def blockAlign : Nat := f.channels * (f.bitsPerSample / 8)

def encode : Bytes :=
  Bytes.toLE 2 1 ++ (Bytes.toLE 2 f.channels ++ (Bytes.toLE 4 f.sampleRate ++
    (Bytes.toLE 4 (f.sampleRate * f.blockAlign) ++ (Bytes.toLE 2 f.blockAlign ++
      Bytes.toLE 2 f.bitsPerSample))))

/-- The numbers fit into their fields. -/
structure Fits : Prop where
  channels : f.channels < 256 ^ 2
  sampleRate : f.sampleRate < 256 ^ 4
  bitsPerSample : f.bitsPerSample < 256 ^ 2

/-- The rates that follow from the others are checked. -/
def decode? (body : Bytes) : Option PcmFormat :=
  let format : PcmFormat :=
    { channels := Bytes.ofLE (Bytes.slice body 2 2)
      sampleRate := Bytes.ofLE (Bytes.slice body 4 4)
      bitsPerSample := Bytes.ofLE (Bytes.slice body 14 2) }
  if body = format.encode then some format else none

variable {f}

theorem length_encode : f.encode.length = 16 := by
  simp [encode]

theorem decode?_encode (h : f.Fits) : decode? f.encode = some f := by
  have hchannels : Bytes.slice f.encode 2 2 = Bytes.toLE 2 f.channels :=
    Bytes.slice_field (Bytes.length_toLE 2 1) (Bytes.length_toLE 2 _)
  have hrate : Bytes.slice f.encode 4 4 = Bytes.toLE 4 f.sampleRate := by
    rw [encode, ← List.append_assoc]
    exact Bytes.slice_field (by simp) (Bytes.length_toLE 4 _)
  have hbits : Bytes.slice f.encode 14 2 = Bytes.toLE 2 f.bitsPerSample := by
    simp only [encode, ← List.append_assoc]
    rw [Bytes.slice, List.drop_left' (by simp), List.take_of_length_le (by simp)]
  simp only [decode?, hchannels, hrate, hbits, Bytes.ofLE_toLE 2 h.channels,
    Bytes.ofLE_toLE 4 h.sampleRate, Bytes.ofLE_toLE 2 h.bitsPerSample, if_pos]

end PcmFormat

def formatChunk (f : PcmFormat) : Chunk where
  id := formatId
  body := f.encode
  length_id := rfl
  length_body := by
    rw [PcmFormat.length_encode]
    norm_num

def dataChunk (data : Bytes) (hdata : data.length < 256 ^ 4) : Chunk where
  id := dataId
  body := data
  length_id := rfl
  length_body := hdata

/-- The sizes count what comes after them. -/
def encodeWave (f : PcmFormat) (data : Bytes) : Bytes :=
  riffId ++ (Bytes.toLE 4 (36 + data.length) ++ (waveId ++ (formatId ++ (Bytes.toLE 4 16 ++
    (f.encode ++ (dataId ++ (Bytes.toLE 4 data.length ++ data)))))))

/-- The format of a WAVE file, and its samples. -/
def decodeWave? (file : Bytes) : Option (PcmFormat × Bytes) := do
  let (form, chunks) ← decodeRiff? file
  if form = waveId then
    let format ← chunks.find? (·.id = formatId)
    let data ← chunks.find? (·.id = dataId)
    let f ← PcmFormat.decode? format.body
    some (f, data.body)
  else none

theorem flatMap_encodeChunk_wave {f : PcmFormat} {data : Bytes} (hdata : data.length < 256 ^ 4)
    (heven : data.length % 2 = 0) :
    [formatChunk f, dataChunk data hdata].flatMap encodeChunk =
      formatId ++ (Bytes.toLE 4 16 ++ (f.encode ++ (dataId ++ (Bytes.toLE 4 data.length ++
        data)))) := by
  simp [formatChunk, dataChunk, encodeChunk, PcmFormat.length_encode, heven]

theorem decodeWave?_encodeWave {f : PcmFormat} {data : Bytes} (hf : f.Fits)
    (heven : data.length % 2 = 0) (hdata : 36 + data.length < 256 ^ 4) :
    decodeWave? (encodeWave f data) = some (f, data) := by
  have hdata' : data.length < 256 ^ 4 := by omega
  have hchunks := flatMap_encodeChunk_wave (f := f) hdata' heven
  have hlength : ([formatChunk f, dataChunk data hdata'].flatMap encodeChunk).length =
      32 + data.length := by
    rw [hchunks]
    simp only [List.length_append, Bytes.length_toLE, PcmFormat.length_encode, formatId, dataId,
      List.length_cons, List.length_nil]
    omega
  have hwave : encodeWave f data =
      encodeRiff waveId [formatChunk f, dataChunk data hdata'] := by
    rw [encodeRiff, hlength, hchunks, encodeWave, show 4 + (32 + data.length) = 36 + data.length by
      omega]
  have hformat : [formatChunk f, dataChunk data hdata'].find? (·.id = formatId) =
      some (formatChunk f) := rfl
  have hsamples : [formatChunk f, dataChunk data hdata'].find? (·.id = dataId) =
      some (dataChunk data hdata') := rfl
  rw [hwave, decodeWave?, decodeRiff?_encodeRiff rfl (by rw [hlength]; omega)]
  simp only [Option.bind_eq_bind, Option.bind_some, if_pos, hformat, hsamples]
  rw [show (formatChunk f).body = f.encode from rfl, PcmFormat.decode?_encode hf]
  rfl

end MeetServer.Foundation
