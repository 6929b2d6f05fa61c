import Mathlib.Algebra.Group.Nat.Defs

/-!
# Byte strings and files

Fixed-width little-endian fields, slices, and positioned writes.  A write past
the end of a file extends it; the gap, if there is one, is filled with zeros.
-/

namespace MeetServer.Foundation

abbrev Bytes := List UInt8

namespace Bytes

/-- The little-endian value. -/
def ofLE : Bytes → Nat
  | [] => 0
  | byte :: bytes => byte.toNat + 256 * ofLE bytes

/-- The big-endian value. -/
def ofBE (bytes : Bytes) : Nat := ofLE bytes.reverse

def toLE : Nat → Nat → Bytes
  | 0, _ => []
  | width + 1, n => UInt8.ofNat n :: toLE width (n / 256)

def toBE (width n : Nat) : Bytes := (toLE width n).reverse

def slice (bytes : Bytes) (pos length : Nat) : Bytes := (bytes.drop pos).take length

def writeAt (file : Bytes) (pos : Nat) (chunk : Bytes) : Bytes :=
  file.take pos ++ List.replicate (pos - file.length) 0 ++ chunk ++
    file.drop (pos + chunk.length)

@[simp] theorem length_toLE (width n : Nat) : (toLE width n).length = width := by
  induction width generalizing n with
  | zero => rfl
  | succ width ih => simp [toLE, ih]

theorem ofLE_toLE (width : Nat) {n : Nat} (h : n < 256 ^ width) :
    ofLE (toLE width n) = n := by
  induction width generalizing n with
  | zero =>
      rw [Nat.pow_zero] at h
      obtain rfl : n = 0 := by omega
      rfl
  | succ width ih =>
      have hdiv : n / 256 < 256 ^ width :=
        Nat.div_lt_of_lt_mul (by rw [← Nat.pow_succ']; exact h)
      rw [toLE, ofLE, ih hdiv, UInt8.toNat_ofNat']
      omega

theorem ofLE_lt (bytes : Bytes) : ofLE bytes < 256 ^ bytes.length := by
  induction bytes with
  | nil => decide
  | cons byte bytes ih =>
      have hbyte := byte.toNat_lt
      rw [ofLE, List.length_cons, Nat.pow_succ']
      omega

@[simp] theorem length_toBE (width n : Nat) : (toBE width n).length = width := by
  simp [toBE]

theorem ofBE_toBE (width : Nat) {n : Nat} (h : n < 256 ^ width) : ofBE (toBE width n) = n := by
  rw [ofBE, toBE, List.reverse_reverse, ofLE_toLE width h]

theorem ofBE_lt (bytes : Bytes) : ofBE bytes < 256 ^ bytes.length := by
  simpa [ofBE] using ofLE_lt bytes.reverse

theorem slice_field {front field rest : Bytes} {pos length : Nat} (hpos : front.length = pos)
    (hlength : field.length = length) : slice (front ++ (field ++ rest)) pos length = field := by
  rw [slice, List.drop_left' hpos, List.take_left' hlength]

theorem slice_append_left {front : Bytes} {pos length : Nat} (h : pos + length ≤ front.length)
    (bytes : Bytes) : slice (front ++ bytes) pos length = slice front pos length := by
  rw [slice, List.drop_append_of_le_length (by omega),
    List.take_append_of_le_length (by simp; omega), slice]

section WriteAt

variable {file chunk : Bytes} {pos : Nat}

theorem length_writeAt (h : pos ≤ file.length) :
    (writeAt file pos chunk).length = max file.length (pos + chunk.length) := by
  simp only [writeAt, List.length_append, List.length_take, List.length_replicate,
    List.length_drop]
  omega

theorem slice_writeAt (h : pos ≤ file.length) :
    slice (writeAt file pos chunk) pos chunk.length = chunk := by
  have hlength : (file.take pos).length = pos := by simp [h]
  have hgap : pos - file.length = 0 := by omega
  simp only [slice, writeAt, hgap, List.replicate_zero, List.append_nil,
    List.append_assoc]
  rw [List.drop_append_of_le_length (by omega), List.drop_of_length_le (by omega)]
  simp

theorem slice_writeAt_of_disjoint {pos' length : Nat} (h : pos ≤ file.length)
    (hdisjoint : pos' + length ≤ pos ∨
      pos + chunk.length ≤ pos' ∧ pos + chunk.length ≤ file.length) :
    slice (writeAt file pos chunk) pos' length = slice file pos' length := by
  have hgap : pos - file.length = 0 := by omega
  refine List.ext_getElem? fun i => ?_
  simp only [slice, writeAt, hgap, List.replicate_zero, List.append_nil,
    List.getElem?_take, List.getElem?_drop, List.getElem?_append,
    List.length_append, List.length_take]
  split
  · grind
  · rfl

/-- A write over a field of its own size. -/
theorem writeAt_field {front field rest : Bytes} (hpos : front.length = pos)
    (hlength : field.length = chunk.length) :
    writeAt (front ++ (field ++ rest)) pos chunk = front ++ (chunk ++ rest) := by
  have hgap : pos - (front ++ (field ++ rest)).length = 0 := by
    rw [List.length_append]
    omega
  have hend : (front ++ field).length = pos + chunk.length := by
    rw [List.length_append, hpos, hlength]
  rw [writeAt, hgap, List.replicate_zero, List.append_nil, List.take_left' hpos,
    ← List.append_assoc front, List.drop_left' hend, List.append_assoc]

/-- A write at the end of the file extends it by the chunk. -/
theorem writeAt_length : writeAt file file.length chunk = file ++ chunk := by
  simp [writeAt]

theorem drop_writeAt {n : Nat} (hchunk : pos + chunk.length ≤ n) (hn : n ≤ file.length) :
    (writeAt file pos chunk).drop n = file.drop n := by
  have hgap : pos - file.length = 0 := by omega
  have htake : (file.take pos).length = pos := by
    rw [List.length_take]
    omega
  have hfront : (file.take pos ++ chunk).length = pos + chunk.length := by
    rw [List.length_append, htake]
  rw [writeAt, hgap, List.replicate_zero, List.append_nil, List.drop_append, hfront,
    List.drop_of_length_le (by omega), List.nil_append, List.drop_drop]
  congr 1
  omega

end WriteAt

/-- An extension is a prefix exactly if it goes on with the bytes due next. -/
theorem append_prefix_iff {file chunk whole : Bytes} :
    file ++ chunk <+: whole ↔ file <+: whole ∧ chunk <+: whole.drop file.length := by
  constructor
  · rintro ⟨rest, rfl⟩
    exact ⟨⟨chunk ++ rest, by simp⟩, ⟨rest, by simp⟩⟩
  · rintro ⟨⟨rest, rfl⟩, hchunk⟩
    rw [List.drop_left] at hchunk
    exact (List.prefix_append_right_inj file).2 hchunk

end Bytes

end MeetServer.Foundation
