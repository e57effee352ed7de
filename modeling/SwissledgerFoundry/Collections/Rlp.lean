import Mathlib.Data.Nat.Digits.Lemmas

/-!
# Headers of recursive length prefix items

A header says whether a string or a list follows and how long its payload is.
The decoder only takes the shortest form of a header, so that encoding undoes
decoding as well.
-/

namespace Rlp

open Nat List

abbrev Bytes := List UInt8

inductive Error where
  | inputTooShort
  | nonCanonicalSingleByte
  | nonCanonicalSize
  | leadingZero
deriving DecidableEq

structure Header where
  list : Bool
  payloadLength : ℕ
deriving DecidableEq

/-- The bytes of a number, most significant first, without leading zeros. -/
def beBytes (number : ℕ) : Bytes := ((Nat.digits 256 number).map UInt8.ofNat).reverse

def beNumber (bytes : Bytes) : ℕ := Nat.ofDigits 256 (bytes.reverse.map UInt8.toNat)

namespace Header

/-- The first byte of an empty payload. -/
def code (list : Bool) : ℕ := if list then 0xc0 else 0x80

def encode (header : Header) : Bytes :=
  if header.payloadLength < 56 then
    [UInt8.ofNat (code header.list + header.payloadLength)]
  else
    let length := beBytes header.payloadLength
    UInt8.ofNat (code header.list + 55 + length.length) :: length

def complete (header : Header) (buf : Bytes) : Except Error (Header × Bytes) :=
  if buf.length < header.payloadLength then .error .inputTooShort
  else .ok (header, buf)

def decodeLong (list : Bool) (lengthOfLength : ℕ) (buf : Bytes) : Except Error (Header × Bytes) :=
  if buf.length < lengthOfLength then .error .inputTooShort
  else if (buf.take lengthOfLength).head? = some 0 then .error .leadingZero
  else
    let length := beNumber (buf.take lengthOfLength)
    if length < 56 then .error .nonCanonicalSize
    else complete ⟨list, length⟩ (buf.drop lengthOfLength)

/-- A single byte with a header must not be its own header. -/
def decodeSingle : Bytes → Except Error (Header × Bytes)
  | [] => .error .inputTooShort
  | byte :: rest =>
    if byte.toNat < 0x80 then .error .nonCanonicalSingleByte
    else .ok (⟨false, 1⟩, byte :: rest)

def decode : Bytes → Except Error (Header × Bytes)
  | [] => .error .inputTooShort
  | first :: rest =>
    if first.toNat < 0x80 then .ok (⟨false, 1⟩, first :: rest)
    else if first.toNat = 0x81 then decodeSingle rest
    else if first.toNat < 0xb8 then
      complete ⟨false, first.toNat - 0x80⟩ rest
    else if first.toNat < 0xc0 then
      decodeLong false (first.toNat - 0xb7) rest
    else if first.toNat < 0xf8 then
      complete ⟨true, first.toNat - 0xc0⟩ rest
    else decodeLong true (first.toNat - 0xf7) rest

end Header

/-- A string: short enough single bytes are their own encoding. -/
def encodeBytes (data : Bytes) : Bytes :=
  match data with
  | [byte] => if byte.toNat < 0x80 then [byte]
      else Header.encode ⟨false, 1⟩ ++ [byte]
  | data => Header.encode ⟨false, data.length⟩ ++ data

def encodeList (payload : Bytes) : Bytes := Header.encode ⟨true, payload.length⟩ ++ payload

theorem map_toNat_map_ofNat {digits : List ℕ} (small : ∀ digit ∈ digits, digit < 256) :
    (digits.map UInt8.ofNat).map UInt8.toNat = digits := by
  rw [map_map]
  conv_rhs => rw [← map_id digits]
  apply map_congr_left
  intro digit member
  exact UInt8.toNat_ofNat_of_lt' (small digit member)

theorem map_ofNat_map_toNat (bytes : Bytes) : (bytes.map UInt8.toNat).map UInt8.ofNat = bytes := by
  rw [map_map]
  conv_rhs => rw [← map_id bytes]
  apply map_congr_left
  intro byte _
  exact UInt8.ofNat_toNat

variable {number : ℕ}

theorem beNumber_beBytes : beNumber (beBytes number) = number := by
  rw [beNumber, beBytes, reverse_reverse, map_toNat_map_ofNat, ofDigits_digits]
  intro digit member
  exact digits_lt_base (by decide) member

theorem beBytes_beNumber {bytes : Bytes} (noZero : bytes.head? ≠ some 0) :
    beBytes (beNumber bytes) = bytes := by
  have digits : digits 256 (beNumber bytes) = bytes.reverse.map UInt8.toNat := by
    apply digits_ofDigits 256 (by decide)
    · intro digit member
      obtain ⟨byte, _, rfl⟩ := mem_map.mp member
      exact byte.toNat_lt
    intro nonempty zero
    rw [getLast_map, getLast_reverse] at zero
    apply noZero
    have filled : bytes ≠ [] := by simpa using nonempty
    rw [head?_eq_some_head filled]
    exact congrArg some (UInt8.toNat_inj.mp zero)
  rw [beBytes, digits, map_ofNat_map_toNat, reverse_reverse]

theorem head?_beBytes : (beBytes number).head? ≠ some 0 := by
  intro zero
  by_cases empty : number = 0
  · rw [empty] at zero
    simp [beBytes] at zero
  have nonempty : digits 256 number ≠ [] := digits_ne_nil_iff_ne_zero.mpr empty
  have last := getLast_digit_ne_zero 256 empty
  rw [beBytes, head?_reverse, getLast?_map, getLast?_eq_some_getLast nonempty] at zero
  apply last
  have byte : UInt8.ofNat ((digits 256 number).getLast nonempty) = 0 := Option.some.inj zero
  have small : (digits 256 number).getLast nonempty < 256 :=
    digits_lt_base (by decide) (getLast_mem nonempty)
  rw [← UInt8.toNat_ofNat_of_lt' small, byte]
  rfl

theorem length_beBytes_le (small : number < 2 ^ 64) : (beBytes number).length ≤ 8 := by
  rw [beBytes, length_reverse, length_map, digits_length_le_iff (by decide)]
  exact small

theorem length_beBytes_pos (positive : 0 < number) : 0 < (beBytes number).length := by
  rw [beBytes, length_reverse, length_map, length_pos_iff, digits_ne_nil_iff_ne_zero]
  omega

variable {buf rest : Bytes} {length : ℕ}

namespace Header

variable {header : Header}

theorem complete_of_le (enough : header.payloadLength ≤ buf.length) :
    header.complete buf = .ok (header, buf) :=
  if_neg (not_lt.mpr enough)

theorem complete_eq_ok {found : Header} (completed : header.complete buf = .ok (found, rest)) :
    found = header ∧ rest = buf ∧ header.payloadLength ≤ buf.length := by
  unfold complete at completed
  split at completed
  · cases completed
  rename_i enough
  cases completed
  exact ⟨rfl, rfl, not_lt.mp enough⟩

variable {list : Bool}

theorem decodeLong_beBytes (long : 56 ≤ length) (enough : length ≤ buf.length) :
    decodeLong list (beBytes length).length (beBytes length ++ buf) =
      .ok (⟨list, length⟩, buf) := by
  rw [decodeLong, if_neg (by simp), take_left, drop_left, if_neg head?_beBytes, beNumber_beBytes]
  rw [if_neg (by omega)]
  exact complete_of_le enough

theorem decodeLong_eq_ok {lengthOfLength : ℕ}
    (decoded : decodeLong list lengthOfLength buf = .ok (header, rest)) :
    header.list = list ∧ 56 ≤ header.payloadLength ∧ header.payloadLength ≤ rest.length ∧
      (beBytes header.payloadLength).length = lengthOfLength ∧
      buf = beBytes header.payloadLength ++ rest := by
  unfold decodeLong at decoded
  split at decoded
  · cases decoded
  rename_i enough
  split at decoded
  · cases decoded
  rename_i noZero
  dsimp only at decoded
  split at decoded
  · cases decoded
  rename_i long
  obtain ⟨rfl, rfl, complete⟩ := complete_eq_ok decoded
  refine ⟨rfl, by dsimp only; omega, complete, ?_, ?_⟩
  · rw [beBytes_beNumber noZero, length_take]
    omega
  · rw [beBytes_beNumber noZero, take_append_drop]

theorem toNat_ofNat (small : number < 256) : (UInt8.ofNat number).toNat = number :=
  UInt8.toNat_ofNat_of_lt' small

theorem length_encode_pos (header : Header) : 0 < header.encode.length := by
  unfold encode
  split <;> simp

theorem length_encode_le (small : header.payloadLength < 2 ^ 64) : header.encode.length ≤ 9 := by
  have most := length_beBytes_le small
  unfold encode
  split
  · simp
  · rw [length_cons]
    omega

theorem decode_encode_list (small : length < 2 ^ 64) (enough : length ≤ buf.length) :
    decode (encode ⟨true, length⟩ ++ buf) = .ok (⟨true, length⟩, buf) := by
  unfold encode
  dsimp only [code]
  rw [if_pos rfl]
  split
  · rename_i short
    rw [singleton_append, decode, toNat_ofNat (by omega),
      if_neg (by omega), if_neg (by omega), if_neg (by omega),
      if_neg (by omega), if_pos (by omega), Nat.add_sub_cancel_left]
    exact complete_of_le enough
  rename_i long
  have most := length_beBytes_le small
  have least := length_beBytes_pos (by omega : 0 < length)
  rw [cons_append, decode, toNat_ofNat (by omega),
    if_neg (by omega), if_neg (by omega), if_neg (by omega),
    if_neg (by omega), if_neg (by omega), Nat.add_sub_cancel_left]
  exact decodeLong_beBytes (by omega) enough

theorem encode_list_head (length : ℕ) (positive : 0 < length) (small : length < 2 ^ 64) :
    ∃ first tail, encode ⟨true, length⟩ = first :: tail ∧ 0xc0 < first.toNat := by
  unfold encode
  dsimp only [code]
  rw [if_pos rfl]
  split
  · rename_i short
    refine ⟨_, [], rfl, ?_⟩
    rw [toNat_ofNat (by omega)]
    omega
  rename_i long
  have most := length_beBytes_le small
  refine ⟨_, _, rfl, ?_⟩
  rw [toNat_ofNat (by omega)]
  omega

/-- The header of a string is read back, unless it is one of a single byte. -/
theorem decode_encode_string (several : length ≠ 1) (small : length < 2 ^ 64)
    (enough : length ≤ buf.length) :
    decode (encode ⟨false, length⟩ ++ buf) = .ok (⟨false, length⟩, buf) := by
  unfold encode
  dsimp only [code]
  rw [if_neg Bool.false_ne_true]
  split
  · rename_i short
    rw [singleton_append, decode, toNat_ofNat (by omega), if_neg (by omega),
      if_neg (by omega), if_pos (by omega), Nat.add_sub_cancel_left]
    exact complete_of_le enough
  rename_i long
  have most := length_beBytes_le small
  have least := length_beBytes_pos (by omega : 0 < length)
  rw [cons_append, decode, toNat_ofNat (by omega),
    if_neg (by omega), if_neg (by omega), if_neg (by omega),
    if_pos (by omega), Nat.add_sub_cancel_left]
  exact decodeLong_beBytes (by omega) enough

/-- A first byte in the short range of its kind is the encoding. -/
theorem encode_of_first {first : UInt8} (short : length < 56)
    (same : first.toNat = code list + length) :
    encode ⟨list, length⟩ = [first] := by
  rw [encode, if_pos short, ← same, UInt8.ofNat_toNat]

theorem encode_of_decodeLong {first : UInt8} (above : code list + 55 ≤ first.toNat)
    (decoded : decodeLong list (first.toNat - (code list + 55)) buf = .ok (header, rest)) :
    header.list = list ∧ 56 ≤ header.payloadLength ∧ header.payloadLength ≤ rest.length ∧
      first :: buf = header.encode ++ rest := by
  obtain ⟨kind, long, complete, lengths, rfl⟩ := decodeLong_eq_ok decoded
  refine ⟨kind, long, complete, ?_⟩
  simp only [encode, if_neg (Nat.not_lt.mpr long), kind, lengths,
    Nat.add_sub_cancel' above, UInt8.ofNat_toNat, cons_append]

/-- What a decoded header can be: a byte for itself, or the encoding of the
header. -/
theorem decode_eq_ok (decoded : decode buf = .ok (header, rest)) :
    header.payloadLength ≤ rest.length ∧
      ((∃ byte tail, byte.toNat < 0x80 ∧ header = ⟨false, 1⟩ ∧ rest = byte :: tail ∧ buf = rest) ∨
        (buf = header.encode ++ rest ∧
          (header = ⟨false, 1⟩ → ∃ byte tail, rest = byte :: tail ∧ 0x80 ≤ byte.toNat))) := by
  cases buf with
  | nil => cases decoded
  | cons first tail =>
    simp only [decode] at decoded
    split at decoded
    · rename_i own
      cases decoded
      refine ⟨by simp, .inl ⟨first, tail, own, rfl, rfl, rfl⟩⟩
    split at decoded
    · rename_i single
      cases tail with
      | nil => cases decoded
      | cons byte tail =>
        simp only [decodeSingle] at decoded
        split at decoded
        · cases decoded
        rename_i large
        cases decoded
        refine ⟨by simp, .inr ⟨?_, fun _ => ⟨byte, tail, rfl, not_lt.mp large⟩⟩⟩
        rw [encode_of_first (by decide) single]
        rfl
    split at decoded
    · obtain ⟨rfl, rfl, complete⟩ := complete_eq_ok decoded
      have same : first.toNat = code false + (first.toNat - 0x80) := by
        rw [code, if_neg Bool.false_ne_true]
        omega
      refine ⟨complete, .inr ⟨?_, fun one => ?_⟩⟩
      · simp [encode_of_first (by omega) same]
      have := congrArg payloadLength one
      dsimp only at this
      omega
    split at decoded
    · obtain ⟨kind, long, complete, same⟩ :=
        encode_of_decodeLong (by
          rw [code, if_neg Bool.false_ne_true]
          omega) decoded
      refine ⟨complete, .inr ⟨same, fun one => ?_⟩⟩
      rw [one] at long
      exact absurd long (by decide)
    split at decoded
    · obtain ⟨rfl, rfl, complete⟩ := complete_eq_ok decoded
      have same : first.toNat = code true + (first.toNat - 0xc0) := by
        rw [code, if_pos rfl]
        omega
      refine ⟨complete, .inr ⟨?_, fun one => by cases one⟩⟩
      simp [encode_of_first (by omega) same]
    obtain ⟨kind, long, complete, same⟩ :=
      encode_of_decodeLong (by
        rw [code, if_pos rfl]
        omega) decoded
    refine ⟨complete, .inr ⟨same, fun one => ?_⟩⟩
    rw [one] at long
    exact absurd long (by decide)

end Header

theorem length_lt_encodeList (payload : Bytes) : payload.length < (encodeList payload).length := by
  rw [encodeList, length_append]
  have positive := Header.length_encode_pos ⟨true, payload.length⟩
  omega

variable {payload : Bytes}

theorem length_encodeList_le (small : payload.length < 2 ^ 64) :
    (encodeList payload).length ≤ payload.length + 9 := by
  rw [encodeList, length_append]
  have header : (Header.encode ⟨true, payload.length⟩).length ≤ 9 := Header.length_encode_le small
  omega

theorem length_encodeBytes_pos {data : Bytes} : 0 < (encodeBytes data).length := by
  unfold encodeBytes
  split
  · split <;> simp
  rw [length_append]
  have positive := Header.length_encode_pos ⟨false, data.length⟩
  omega

theorem length_le_encodeBytes (data : Bytes) : data.length ≤ (encodeBytes data).length := by
  unfold encodeBytes
  split
  · split <;> simp
  · simp

theorem decode_encodeBytes {data : Bytes} (small : data.length < 2 ^ 64) :
    Header.decode (encodeBytes data ++ rest) = .ok (⟨false, data.length⟩, data ++ rest) := by
  unfold encodeBytes
  split
  · rename_i byte
    split
    · rename_i own
      rw [singleton_append, Header.decode, if_pos own]
      rfl
    rename_i large
    change Header.decode (0x81 :: byte :: rest) = _
    simp [Header.decode, Header.decodeSingle, if_neg large]
  rename_i several
  rw [append_assoc]
  apply Header.decode_encode_string _ small (by simp)
  intro one
  obtain ⟨byte, same⟩ := length_eq_one_iff.mp one
  exact several byte same

theorem encodeBytes_of_decode (decoded : Header.decode buf = .ok (⟨false, length⟩, rest)) :
    length ≤ rest.length ∧ encodeBytes (rest.take length) ++ rest.drop length = buf := by
  obtain ⟨complete, own | ⟨same, single⟩⟩ := Header.decode_eq_ok decoded
  · obtain ⟨byte, tail, small, one, rfl, rfl⟩ := own
    cases one
    refine ⟨complete, ?_⟩
    simp [encodeBytes, small]
  refine ⟨complete, ?_⟩
  have payload : encodeBytes (rest.take length) =
      Header.encode ⟨false, length⟩ ++ rest.take length := by
    unfold encodeBytes
    split
    · rename_i byte taken
      have lengths := congrArg List.length taken
      rw [length_take, length_singleton] at lengths
      obtain rfl : length = 1 := by
        dsimp only at complete
        omega
      obtain ⟨first, tail, rfl, large⟩ := single rfl
      cases taken
      simp [if_neg (not_lt.mpr large)]
    · rw [length_take, min_eq_left complete]
  rw [payload, append_assoc, take_append_drop, same]

theorem decode_encodeList (small : payload.length < 2 ^ 64) :
    Header.decode (encodeList payload ++ rest) = .ok (⟨true, payload.length⟩, payload ++ rest) := by
  rw [encodeList, append_assoc]
  exact Header.decode_encode_list small (by simp)

theorem encodeList_of_decode (decoded : Header.decode buf = .ok (⟨true, length⟩, rest)) :
    length ≤ rest.length ∧ encodeList (rest.take length) ++ rest.drop length = buf := by
  obtain ⟨complete, own | ⟨same, _⟩⟩ := Header.decode_eq_ok decoded
  · obtain ⟨_, _, _, kind, _⟩ := own
    cases kind
  · refine ⟨complete, ?_⟩
    rw [encodeList, length_take, min_eq_left complete, append_assoc, take_append_drop, same]

end Rlp
