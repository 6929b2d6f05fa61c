import Mathlib.Algebra.GroupWithZero.Nat
import Mathlib.Data.List.DropRight

/-!
# Paths in URLs

What an HTTP client makes of a path it is given as text, and percent-coding.
Sizes are counted in UTF-8 bytes: neither step adds any, so a path whose
segments come back with all their bytes has lost nothing on the way
(`OrdinaryPath.of_le`).
-/

namespace MeetServer.Foundation

/-- The number of bytes in UTF-8. -/
def textSize (text : List Char) : Nat := (text.map Char.utf8Size).sum

@[simp] theorem textSize_nil : textSize [] = 0 := rfl

@[simp] theorem textSize_cons (c : Char) (text : List Char) :
    textSize (c :: text) = c.utf8Size + textSize text := by
  simp [textSize]

@[simp] theorem textSize_append (text text' : List Char) :
    textSize (text ++ text') = textSize text + textSize text' := by
  simp [textSize]

theorem textSize_eq_zero {text : List Char} (h : textSize text = 0) : text = [] := by
  cases text with
  | nil => rfl
  | cons c text =>
      have hpos := c.utf8Size_pos
      rw [textSize_cons] at h
      omega

theorem textSize_sublist {text text' : List Char} (h : text.Sublist text') :
    text = text' ∨ textSize text < textSize text' := by
  induction h with
  | slnil => exact .inl rfl
  | @cons text text' c _ ih =>
      have hpos := c.utf8Size_pos
      refine .inr ?_
      rw [textSize_cons]
      rcases ih with rfl | hlt <;> omega
  | cons_cons c _ ih =>
      rcases ih with rfl | hlt
      · exact .inl rfl
      · refine .inr ?_
        rw [textSize_cons, textSize_cons]
        omega

/-! ## Percent-coding -/

def hexDigit (n : Nat) : Char :=
  if n < 10 then Char.ofNat (48 + n) else Char.ofNat (55 + n)

def hexValue (c : Char) : Option Nat :=
  if '0' ≤ c ∧ c ≤ '9' then some (c.toNat - 48)
  else if 'A' ≤ c ∧ c ≤ 'F' then some (c.toNat - 55)
  else if 'a' ≤ c ∧ c ≤ 'f' then some (c.toNat - 87)
  else none

def percentEncodeByte (byte : UInt8) : List Char :=
  ['%', hexDigit (byte.toNat / 16), hexDigit (byte.toNat % 16)]

/-- The path percent-encode set. -/
def inPathSet (c : Char) : Bool :=
  c.toNat ≤ 0x20 || 0x7E < c.toNat ||
    ['"', '#', '<', '>', '?', '^', '`', '{', '}'].contains c

def percentEncode (text : List Char) : List Char :=
  text.flatMap fun c =>
    if inPathSet c then (String.utf8EncodeChar c).flatMap percentEncodeByte
    else [c]

def percentBytes : List Char → Option (List UInt8)
  | [] => some []
  | '%' :: high :: low :: text =>
      match hexValue high, hexValue low with
      | some high, some low =>
          (percentBytes text).map (UInt8.ofNat (16 * high + low) :: ·)
      | _, _ => none
  | c :: text =>
      if c = '%' then none
      else (percentBytes text).map (String.utf8EncodeChar c ++ ·)

/-- `decodeURIComponent`; `none` is its `URIError`. -/
def percentDecode (text : List Char) : Option (List Char) :=
  (percentBytes text).bind fun bytes =>
    bytes.toByteArray.utf8Decode?.map Array.toList

theorem hexValue_hexDigit : ∀ n < 16, hexValue (hexDigit n) = some n := by
  decide

theorem utf8Size_hexDigit : ∀ n < 16, (hexDigit n).utf8Size = 1 := by
  decide

theorem hexDigit_ne_percent : ∀ n < 16, hexDigit n ≠ '%' := by
  decide

theorem percentBytes_cons {c : Char} (hc : c ≠ '%') (text : List Char) :
    percentBytes (c :: text) =
      (percentBytes text).map (String.utf8EncodeChar c ++ ·) := by
  rw [percentBytes, if_neg hc]
  exact fun _ _ _ h => absurd h hc

theorem percentBytes_encodeByte (byte : UInt8) (text : List Char) :
    percentBytes (percentEncodeByte byte ++ text) =
      (percentBytes text).map (byte :: ·) := by
  have hlt := byte.toNat_lt
  have hbyte : UInt8.ofNat (16 * (byte.toNat / 16) + byte.toNat % 16) = byte := by
    rw [Nat.div_add_mod, UInt8.ofNat_toNat]
  have hhigh := hexValue_hexDigit (byte.toNat / 16) (by omega)
  have hlow := hexValue_hexDigit (byte.toNat % 16) (by omega)
  simp only [percentEncodeByte, List.cons_append, List.nil_append, percentBytes,
    hhigh, hlow, hbyte]

theorem percentBytes_encodeBytes (bytes : List UInt8) (text : List Char) :
    percentBytes (bytes.flatMap percentEncodeByte ++ text) =
      (percentBytes text).map (bytes ++ ·) := by
  induction bytes with
  | nil => simp
  | cons byte bytes ih =>
      rw [List.flatMap_cons, List.append_assoc, percentBytes_encodeByte, ih,
        Option.map_map]
      rfl

theorem percentEncode_cons (c : Char) (text : List Char) :
    percentEncode (c :: text) =
      (if inPathSet c then (String.utf8EncodeChar c).flatMap percentEncodeByte
        else [c]) ++ percentEncode text := by
  rw [percentEncode, List.flatMap_cons]
  rfl

theorem percentBytes_percentEncode {text : List Char} (h : '%' ∉ text) :
    percentBytes (percentEncode text) =
      some (text.flatMap String.utf8EncodeChar) := by
  induction text with
  | nil => rfl
  | cons c text ih =>
      obtain ⟨hc, htext⟩ : c ≠ '%' ∧ '%' ∉ text := by
        simpa [eq_comm] using h
      rw [percentEncode_cons]
      split
      · rw [percentBytes_encodeBytes, ih htext]
        rfl
      · rw [List.singleton_append, percentBytes_cons hc, ih htext]
        rfl

theorem percentDecode_percentEncode {text : List Char} (h : '%' ∉ text) :
    percentDecode (percentEncode text) = some text := by
  have hbytes : (text.flatMap String.utf8EncodeChar).toByteArray =
      text.utf8Encode := rfl
  rw [percentDecode, percentBytes_percentEncode h, Option.bind_some, hbytes,
    List.utf8Decode?_utf8Encode, Option.map_some]

theorem hexValue_ascii {c : Char} {n : Nat} (h : hexValue c = some n) :
    c.utf8Size = 1 ∧ c ≠ '%' := by
  have hrange : ('0' ≤ c ∧ c ≤ '9') ∨ ('A' ≤ c ∧ c ≤ 'F') ∨ ('a' ≤ c ∧ c ≤ 'f') := by
    unfold hexValue at h
    split at h
    · next hc => exact .inl hc
    · split at h
      · next hc => exact .inr (.inl hc)
      · split at h
        · next hc => exact .inr (.inr hc)
        · cases h
  refine ⟨?_, ?_⟩
  · rw [Char.utf8Size_eq_one_iff]
    simp only [Char.le_def, UInt32.le_iff_toNat_le] at hrange ⊢
    rcases hrange with ⟨-, h⟩ | ⟨-, h⟩ | ⟨-, h⟩ <;> exact h.trans (by decide)
  · rintro rfl
    revert hrange
    decide

theorem length_percentBytes {text : List Char} {bytes : List UInt8}
    (h : percentBytes text = some bytes) :
    bytes.length + 2 * text.count '%' = textSize text := by
  have hpercent : '%'.utf8Size = 1 := rfl
  fun_induction percentBytes text generalizing bytes with
  | case1 =>
      cases h
      rfl
  | case2 high low text n n' hlow hhigh ih =>
      obtain ⟨bytes', hbytes', rfl⟩ := Option.map_eq_some_iff.1 h
      have hlength := ih hbytes'
      obtain ⟨hsize, hne⟩ := hexValue_ascii hhigh
      obtain ⟨hsize', hne'⟩ := hexValue_ascii hlow
      simp only [List.length_cons, List.count_cons_self, textSize_cons,
        List.count_cons_of_ne hne, List.count_cons_of_ne hne']
      omega
  | case3 => cases h
  | case4 => cases h
  | case5 c text hc hne ih =>
      obtain ⟨bytes', hbytes', rfl⟩ := Option.map_eq_some_iff.1 h
      have hlength := ih hbytes'
      simp only [List.length_append, String.length_utf8EncodeChar, textSize_cons,
        List.count_cons_of_ne hne]
      omega

theorem measure_percentEncodeByte (byte : UInt8) :
    textSize (percentEncodeByte byte) = 3 ∧
      (percentEncodeByte byte).count '%' = 1 := by
  have hlt := byte.toNat_lt
  have hpercent : '%'.utf8Size = 1 := rfl
  have hhigh : byte.toNat / 16 < 16 := by omega
  have hlow : byte.toNat % 16 < 16 := by omega
  simp [percentEncodeByte, utf8Size_hexDigit _ hhigh, utf8Size_hexDigit _ hlow,
    List.count_cons_of_ne (hexDigit_ne_percent _ hhigh),
    List.count_cons_of_ne (hexDigit_ne_percent _ hlow), hpercent]

theorem measure_percentEncodeBytes (bytes : List UInt8) :
    textSize (bytes.flatMap percentEncodeByte) = 3 * bytes.length ∧
      (bytes.flatMap percentEncodeByte).count '%' = bytes.length := by
  induction bytes with
  | nil => exact ⟨rfl, rfl⟩
  | cons byte bytes ih =>
      have hbyte := measure_percentEncodeByte byte
      simp only [List.flatMap_cons, textSize_append, List.count_append,
        List.length_cons]
      omega

theorem textSize_percentEncode (text : List Char) :
    textSize (percentEncode text) + 2 * text.count '%' =
      textSize text + 2 * (percentEncode text).count '%' := by
  induction text with
  | nil => rfl
  | cons c text ih =>
      rw [percentEncode_cons, textSize_append, List.count_append, textSize_cons]
      split
      · next hc =>
        have hne : c ≠ '%' := by
          rintro rfl
          revert hc
          decide
        have hbytes := measure_percentEncodeBytes (String.utf8EncodeChar c)
        rw [String.length_utf8EncodeChar] at hbytes
        rw [List.count_cons_of_ne hne]
        omega
      · have hcount : (c :: text).count '%' = [c].count '%' + text.count '%' := by
          rw [← List.count_append, List.singleton_append]
        rw [hcount, textSize_cons, textSize_nil]
        omega

theorem length_flatMap_utf8EncodeChar (text : List Char) :
    (text.flatMap String.utf8EncodeChar).length = textSize text := by
  induction text with
  | nil => rfl
  | cons c text ih =>
      rw [List.flatMap_cons, List.length_append, ih, String.length_utf8EncodeChar,
        textSize_cons]

theorem textSize_percentDecode {text text' : List Char}
    (h : percentDecode (percentEncode text) = some text') :
    textSize text' + 2 * text.count '%' = textSize text := by
  obtain ⟨bytes, hbytes, hdecode⟩ := Option.bind_eq_some_iff.1 h
  obtain ⟨chars, hchars, rfl⟩ := Option.map_eq_some_iff.1 hdecode
  have hencode : chars.toList.utf8Encode = bytes.toByteArray := by
    have hget := ByteArray.utf8Encode_get_utf8Decode? (b := bytes.toByteArray)
      (h := by rw [hchars]; rfl)
    simpa [hchars] using hget
  have hlength : textSize chars.toList = bytes.length := by
    have hsize := congrArg ByteArray.size hencode
    rw [← length_flatMap_utf8EncodeChar]
    simpa [List.utf8Encode] using hsize
  have hmeasure := length_percentBytes hbytes
  have hsize := textSize_percentEncode text
  omega

/-! ## The path of a URL -/

def isSlash (c : Char) : Bool := c = '/' || c = '\\'

def isTabOrNewline (c : Char) : Bool := c = '\t' || c = '\n' || c = '\r'

/-- Also the space. -/
def isC0Control (c : Char) : Bool := c.toNat ≤ 0x20

def endsPath (c : Char) : Bool := c = '?' || c = '#'

def isSingleDot (segment : List Char) : Bool :=
  [".", "%2e"].contains (String.ofList (segment.map Char.toLower))

def isDoubleDot (segment : List Char) : Bool :=
  ["..", ".%2e", "%2e.", "%2e%2e"].contains
    (String.ofList (segment.map Char.toLower))

/-- Dot segments are resolved against the segments before them, in `acc`. -/
def normalise (acc : List (List Char)) :
    List (List Char) → List (List Char)
  | [] => acc.reverse
  | [segment] =>
      if isDoubleDot segment then ([] :: acc.tail).reverse
      else if isSingleDot segment then ([] :: acc).reverse
      else (segment :: acc).reverse
  | segment :: segments =>
      if isDoubleDot segment then normalise acc.tail segments
      else if isSingleDot segment then normalise acc segments
      else normalise (segment :: acc) segments

/-- The text that the path consists of. -/
def pathText (text : List Char) : List Char :=
  ((text.rdropWhile isC0Control).filter fun c => !isTabOrNewline c).takeWhile
    fun c => !endsPath c

/-- The segments of an absolute path at the end of a URL. -/
def urlPath (text : List Char) : List (List Char) :=
  normalise [] ((pathText text).splitOnP isSlash).tail

/-! ## Nothing is lost -/

/-- The bytes of the path that the segments make. -/
def pathSize (segments : List (List Char)) : Nat :=
  (segments.map fun segment => textSize segment + 1).sum

@[simp] theorem pathSize_nil : pathSize [] = 0 := rfl

@[simp] theorem pathSize_cons (segment : List Char)
    (segments : List (List Char)) :
    pathSize (segment :: segments) = textSize segment + 1 + pathSize segments := by
  simp [pathSize]

@[simp] theorem pathSize_append (segments segments' : List (List Char)) :
    pathSize (segments ++ segments') = pathSize segments + pathSize segments' := by
  simp [pathSize]

theorem pathSize_reverse (segments : List (List Char)) :
    pathSize segments.reverse = pathSize segments := by
  simp [pathSize, List.map_reverse, List.sum_reverse]

theorem pathSize_tail (segments : List (List Char)) :
    pathSize segments.tail ≤ pathSize segments := by
  cases segments with
  | nil => exact Nat.le_refl _
  | cons segment segments =>
      rw [List.tail_cons, pathSize_cons]
      omega

def toPath (segments : List (List Char)) : List Char :=
  segments.flatMap fun segment => '/' :: segment

theorem textSize_toPath (segments : List (List Char)) :
    textSize (toPath segments) = pathSize segments := by
  have hslash : '/'.utf8Size = 1 := rfl
  induction segments with
  | nil => rfl
  | cons segment segments ih =>
      rw [toPath, List.flatMap_cons, ← toPath, textSize_append, textSize_cons, ih,
        pathSize_cons]
      omega

theorem utf8Size_slash {c : Char} (h : isSlash c) : c.utf8Size = 1 := by
  simp only [isSlash, Bool.or_eq_true, decide_eq_true_eq] at h
  rcases h with rfl | rfl <;> rfl

theorem pathSize_splitOnP (text : List Char) :
    pathSize (text.splitOnP isSlash) = textSize text + 1 := by
  induction text with
  | nil => rfl
  | cons c text ih =>
      rw [List.splitOnP_cons_eq_if_modifyHead]
      split
      · next hc =>
        have hsize := utf8Size_slash hc
        rw [pathSize_cons, textSize_nil, textSize_cons, ih]
        omega
      · obtain ⟨segment, segments, hsplit⟩ :=
          List.exists_cons_of_ne_nil (List.splitOnP_ne_nil isSlash text)
        rw [hsplit] at ih ⊢
        rw [List.modifyHead_cons, pathSize_cons, textSize_cons, textSize_cons]
        rw [pathSize_cons] at ih
        omega

theorem normalise_eq {acc segments : List (List Char)}
    (h : ∀ segment ∈ segments,
      isSingleDot segment = false ∧ isDoubleDot segment = false) :
    normalise acc segments = acc.reverse ++ segments := by
  fun_induction normalise acc segments with
  | case1 acc => simp
  | case2 acc segment hdot | case5 acc segment segments _ hdot ih =>
      simp [(h segment List.mem_cons_self).2] at hdot
  | case3 acc segment _ hdot | case6 acc segment segments _ _ hdot ih =>
      simp [(h segment List.mem_cons_self).1] at hdot
  | case4 acc segment => simp
  | case7 acc segment segments _ _ _ ih =>
      rw [ih fun s hs => h s (List.mem_cons_of_mem segment hs)]
      simp

theorem textSize_dot {segment : List Char}
    (h : isSingleDot segment ∨ isDoubleDot segment) : 0 < textSize segment := by
  cases segment with
  | nil => revert h; decide
  | cons c segment =>
      have hpos := c.utf8Size_pos
      rw [textSize_cons]
      omega

/-- Resolving a dot segment loses at least its dots. -/
theorem normalise_cases (acc segments : List (List Char)) :
    pathSize (normalise acc segments) < pathSize acc + pathSize segments ∨
      (normalise acc segments = acc.reverse ++ segments ∧
        ∀ segment ∈ segments,
          isSingleDot segment = false ∧ isDoubleDot segment = false) := by
  fun_induction normalise acc segments with
  | case1 acc => exact .inr ⟨by simp, nofun⟩
  | case2 acc segment hdot =>
      have hpos := textSize_dot (.inr hdot)
      have htail := pathSize_tail acc
      refine .inl ?_
      simp only [pathSize_reverse, pathSize_cons, textSize_nil, pathSize_nil]
      omega
  | case3 acc segment _ hdot =>
      have hpos := textSize_dot (.inl hdot)
      refine .inl ?_
      simp only [pathSize_reverse, pathSize_cons, textSize_nil, pathSize_nil]
      omega
  | case4 acc segment hdouble hsingle =>
      refine .inr ⟨by simp, fun s hs => ?_⟩
      obtain rfl := List.mem_singleton.1 hs
      exact ⟨by simpa using hsingle, by simpa using hdouble⟩
  | case5 acc segment segments _ hdot ih =>
      have hpos := textSize_dot (.inr hdot)
      have htail := pathSize_tail acc
      refine .inl ?_
      rcases ih with hlt | ⟨heq, -⟩
      · rw [pathSize_cons]
        omega
      · rw [heq, pathSize_append, pathSize_reverse, pathSize_cons]
        omega
  | case6 acc segment segments _ _ hdot ih =>
      have hpos := textSize_dot (.inl hdot)
      refine .inl ?_
      rcases ih with hlt | ⟨heq, -⟩
      · rw [pathSize_cons]
        omega
      · rw [heq, pathSize_append, pathSize_reverse, pathSize_cons]
        omega
  | case7 acc segment segments _ hdouble hsingle ih =>
      rcases ih with hlt | ⟨heq, hall⟩
      · refine .inl ?_
        rw [pathSize_cons] at hlt ⊢
        omega
      · refine .inr ⟨by rw [heq]; simp, fun s hs => ?_⟩
        rcases List.mem_cons.1 hs with rfl | hs
        · exact ⟨by simpa using hsingle, by simpa using hdouble⟩
        · exact hall s hs

/-- A path that the client passes on as it is. -/
structure OrdinaryPath (text : List Char) : Prop where
  chars : ∀ c ∈ text, isTabOrNewline c = false ∧ endsPath c = false
  last : ∀ c ∈ text.getLast?, isC0Control c = false
  dots : ∀ segment ∈ (text.splitOnP isSlash).tail,
    isSingleDot segment = false ∧ isDoubleDot segment = false

theorem pathText_sublist (text : List Char) :
    (pathText text).Sublist (text.rdropWhile isC0Control) :=
  (List.takeWhile_sublist _).trans List.filter_sublist

theorem pathText_eq_self_iff {text : List Char} :
    pathText text = text ↔
      (∀ c ∈ text, isTabOrNewline c = false ∧ endsPath c = false) ∧
        ∀ c ∈ text.getLast?, isC0Control c = false := by
  constructor
  · intro h
    have hdrop : text.rdropWhile isC0Control = text := by
      refine (List.rdropWhile_prefix _ _).eq_of_length_le ?_
      have hlength := (pathText_sublist text).length_le
      rwa [h] at hlength
    refine ⟨fun c hc => ?_, fun c hc => ?_⟩
    · rw [← h] at hc
      have hend := List.mem_takeWhile_imp hc
      have htab := List.mem_filter.1 ((List.takeWhile_subset _) hc)
      simpa using And.intro htab.2 hend
    · have hlast := List.rdropWhile_eq_self_iff.1 hdrop
      have hne : text ≠ [] := by
        rintro rfl
        cases hc
      rw [List.getLast?_eq_some_getLast hne] at hc
      obtain rfl := Option.some.inj hc
      simpa using hlast hne
  · rintro ⟨hchars, hlast⟩
    have hdrop : text.rdropWhile isC0Control = text := by
      refine List.rdropWhile_eq_self_iff.2 fun hne => ?_
      have hc := hlast _ (List.getLast?_eq_some_getLast hne)
      simp [hc]
    rw [pathText, hdrop, List.filter_eq_self.2, List.takeWhile_eq_self_iff.2]
    · intro c hc
      simp [(hchars c hc).2]
    · intro c hc
      simp [(hchars c hc).1]

theorem OrdinaryPath.urlPath {text : List Char} (h : OrdinaryPath text) :
    urlPath text = (text.splitOnP isSlash).tail := by
  have htext : pathText text = text := pathText_eq_self_iff.2 ⟨h.chars, h.last⟩
  rw [Foundation.urlPath, htext, normalise_eq h.dots]
  rfl

/-- A path that comes out with all its bytes is passed on as it is. -/
theorem OrdinaryPath.of_le {text : List Char}
    (h : textSize text ≤ pathSize (Foundation.urlPath text)) :
    OrdinaryPath text := by
  have hsub := textSize_sublist
    ((pathText_sublist text).trans (List.rdropWhile_prefix _ _).sublist)
  have hsplit := pathSize_splitOnP (pathText text)
  have htail : pathSize ((pathText text).splitOnP isSlash).tail ≤
      textSize (pathText text) := by
    obtain ⟨segment, segments, heq⟩ :=
      List.exists_cons_of_ne_nil (List.splitOnP_ne_nil isSlash (pathText text))
    rw [heq] at hsplit ⊢
    rw [pathSize_cons] at hsplit
    rw [List.tail_cons]
    omega
  rw [Foundation.urlPath] at h
  rcases normalise_cases [] ((pathText text).splitOnP isSlash).tail with
    hlt | ⟨heq, hdots⟩
  · have hle : textSize (pathText text) ≤ textSize text := by
      rcases hsub with hsame | hlt'
      · rw [hsame]
      · omega
    rw [pathSize_nil] at hlt
    omega
  · rw [heq, List.reverse_nil, List.nil_append] at h
    rcases hsub with hsame | hlt'
    · rw [hsame] at hdots
      obtain ⟨hchars, hlast⟩ := pathText_eq_self_iff.1 hsame
      exact ⟨hchars, hlast, hdots⟩
    · omega

/-! ## Splitting a path -/

theorem splitOnP_append_toPath {segment : List Char}
    {segments : List (List Char)} (h : ∀ c ∈ segment, isSlash c = false)
    (hall : ∀ s ∈ segments, ∀ c ∈ s, isSlash c = false) :
    (segment ++ toPath segments).splitOnP isSlash = segment :: segments := by
  induction segments generalizing segment with
  | nil =>
      rw [toPath, List.flatMap_nil, List.append_nil,
        List.splitOnP_eq_singleton h]
  | cons next segments ih =>
      rw [toPath, List.flatMap_cons, List.cons_append,
        List.splitOnP_append_cons_of_forall_mem h '/' rfl, ← toPath,
        ih (hall next List.mem_cons_self) fun s hs =>
          hall s (List.mem_cons_of_mem next hs)]

theorem splitOnP_toPath {segments : List (List Char)}
    (h : ∀ s ∈ segments, ∀ c ∈ s, isSlash c = false) :
    (toPath segments).splitOnP isSlash = [] :: segments := by
  have hnil : ∀ c ∈ ([] : List Char), isSlash c = false := nofun
  exact splitOnP_append_toPath hnil h

theorem isSlash_of_mem_splitOnP {text segment : List Char}
    (h : segment ∈ text.splitOnP isSlash) : ∀ c ∈ segment, isSlash c = false := by
  induction text generalizing segment with
  | nil =>
      obtain rfl := List.mem_singleton.1 h
      nofun
  | cons c text ih =>
      rw [List.splitOnP_cons_eq_if_modifyHead] at h
      split at h
      · rcases List.mem_cons.1 h with rfl | h
        · nofun
        · exact ih h
      · next hc =>
        obtain ⟨first, segments, hsplit⟩ :=
          List.exists_cons_of_ne_nil (List.splitOnP_ne_nil isSlash text)
        rw [hsplit, List.modifyHead_cons] at h
        rcases List.mem_cons.1 h with rfl | h
        · intro d hd
          rcases List.mem_cons.1 hd with rfl | hd
          · simpa using hc
          · exact ih (hsplit ▸ List.mem_cons_self) d hd
        · exact ih (hsplit ▸ List.mem_cons_of_mem first h)

/-! ## Clean segments -/

/-- The characters that mean something to the client or to `decodeURIComponent`. -/
def isSpecial (c : Char) : Bool :=
  isSlash c || endsPath c || isTabOrNewline c || c = '%'

structure CleanText (text : List Char) : Prop where
  ne_nil : text ≠ []
  chars : ∀ c ∈ text, isSpecial c = false
  single : text ≠ ['.']
  double : text ≠ ['.', '.']

theorem CleanText.iff {text : List Char} :
    CleanText text ↔ text ≠ [] ∧ text.all (fun c => !isSpecial c) ∧
      text ≠ ['.'] ∧ text ≠ ['.', '.'] := by
  have hall : text.all (fun c => !isSpecial c) ↔ ∀ c ∈ text, isSpecial c = false := by
    simp
  rw [hall]
  exact ⟨fun h => ⟨h.1, h.2, h.3, h.4⟩, fun h => ⟨h.1, h.2.1, h.2.2.1, h.2.2.2⟩⟩

instance (text : List Char) : Decidable (CleanText text) :=
  decidable_of_iff _ CleanText.iff.symm

theorem toLower_eq_or (c : Char) :
    c.toLower = c ∨ (65 ≤ c.toNat ∧ c.toNat ≤ 90 ∧ c.toLower.toNat = c.toNat + 32) := by
  unfold Char.toLower
  split
  · next h =>
    refine .inr ⟨UInt32.le_iff_toNat_le.1 h.1, UInt32.le_iff_toNat_le.1 h.2, ?_⟩
    have hle : c.val.toNat ≤ 90 := UInt32.le_iff_toNat_le.1 h.2
    change (c.val + 32).toNat = c.val.toNat + 32
    rw [UInt32.toNat_add]
    change (c.val.toNat + 32) % 2 ^ 32 = c.val.toNat + 32
    omega
  · exact .inl rfl

theorem toLower_eq_iff {c d : Char} (hd : d.toNat < 97) :
    c.toLower = d → c = d := by
  intro h
  rcases toLower_eq_or c with hc | ⟨hlow, hhigh, hc⟩
  · exact hc ▸ h
  · rw [h] at hc
    omega

theorem map_toLower_eq {text text' : List Char}
    (h : text.map Char.toLower = text') (hall : ∀ c ∈ text', c.toNat < 97) :
    text = text' := by
  induction text generalizing text' with
  | nil => exact h
  | cons c text ih =>
      subst h
      rw [List.map_cons] at hall ⊢
      have hc := toLower_eq_iff (hall _ List.mem_cons_self) (rfl : c.toLower = _)
      rw [← hc, ← ih rfl fun d hd => hall d (List.mem_cons_of_mem _ hd)]

theorem CleanText.not_dot {text : List Char} (h : CleanText text) :
    isSingleDot text = false ∧ isDoubleDot text = false := by
  have hpercent : '%' ∉ text.map Char.toLower := by
    intro hmem
    obtain ⟨c, hc, hlower⟩ := List.mem_map.1 hmem
    obtain rfl := toLower_eq_iff (by decide) hlower
    exact absurd (h.chars _ hc) (by decide)
  have hne : ∀ other : List Char, '%' ∈ other → text.map Char.toLower ≠ other :=
    fun other hother heq => hpercent (heq ▸ hother)
  have hsingle : text.map Char.toLower ≠ ['.'] :=
    fun heq => h.single (map_toLower_eq heq (by simp))
  have hdouble : text.map Char.toLower ≠ ['.', '.'] :=
    fun heq => h.double (map_toLower_eq heq (by simp))
  have hof : ∀ s : String, String.ofList (text.map Char.toLower) = s ↔
      text.map Char.toLower = s.toList := by
    intro s
    rw [← String.toList_inj, String.toList_ofList]
  constructor
  · rw [isSingleDot, List.contains_eq_mem, decide_eq_false_iff_not]
    simp only [List.mem_cons, List.not_mem_nil, or_false, hof, not_or]
    exact ⟨hsingle, hne _ (by decide)⟩
  · rw [isDoubleDot, List.contains_eq_mem, decide_eq_false_iff_not]
    simp only [List.mem_cons, List.not_mem_nil, or_false, hof, not_or]
    exact ⟨hdouble, hne _ (by decide), hne _ (by decide), hne _ (by decide)⟩

theorem textSize_map_toLower (text : List Char) :
    textSize (text.map Char.toLower) = textSize text := by
  induction text with
  | nil => rfl
  | cons c text ih =>
      have hc : c.toLower.utf8Size = c.utf8Size := by
        rcases toLower_eq_or c with hc | ⟨hlow, hhigh, hc⟩
        · rw [hc]
        · have hone (d : Char) (hd : d.toNat ≤ 127) : d.utf8Size = 1 :=
            Char.utf8Size_eq_one_iff.2 (UInt32.le_iff_toNat_le.2 hd)
          rw [hone c (by omega), hone c.toLower (by omega)]
      rw [List.map_cons, textSize_cons, textSize_cons, hc, ih]

theorem mem_toPath {c : Char} {segments : List (List Char)}
    (h : c ∈ toPath segments) : c = '/' ∨ ∃ s ∈ segments, c ∈ s := by
  obtain ⟨s, hs, hc⟩ := List.mem_flatMap.1 h
  rcases List.mem_cons.1 hc with hc | hc
  · exact .inl hc
  · exact .inr ⟨s, hs, hc⟩

theorem CleanText.not_slash {text : List Char} (h : CleanText text) :
    ∀ c ∈ text, isSlash c = false := by
  intro c hc
  have hspecial := h.chars c hc
  simp only [isSpecial, Bool.or_eq_false_iff] at hspecial
  exact hspecial.1.1.1

theorem CleanText.splitOnP {segments : List (List Char)}
    (h : ∀ s ∈ segments, CleanText s) :
    (toPath segments).splitOnP isSlash = [] :: segments :=
  splitOnP_toPath fun s hs => (h s hs).not_slash

/-- A path of clean segments is passed on, unless something is stripped from its
end. -/
theorem OrdinaryPath.of_clean {segments : List (List Char)}
    (h : ∀ s ∈ segments, CleanText s)
    (hlast : ∀ c ∈ (toPath segments).getLast?, isC0Control c = false) :
    OrdinaryPath (toPath segments) := by
  refine ⟨fun c hc => ?_, hlast, ?_⟩
  · rcases mem_toPath hc with rfl | ⟨s, hs, hc⟩
    · decide
    · have hspecial := (h s hs).chars c hc
      simp only [isSpecial, Bool.or_eq_false_iff] at hspecial
      exact ⟨hspecial.1.2, hspecial.1.1.2⟩
  · rw [CleanText.splitOnP h, List.tail_cons]
    exact fun s hs => (h s hs).not_dot

end MeetServer.Foundation
