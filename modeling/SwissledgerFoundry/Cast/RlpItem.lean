import SwissledgerFoundry.Cast.Base
import SwissledgerFoundry.Collections.Except
import SwissledgerFoundry.Collections.Hex
import SwissledgerFoundry.Collections.Rlp
import SwissledgerFoundry.Json.Parser

/-!
# Nested data of `cast to-rlp` and `cast from-rlp`

An item is a byte string or a list of items, shown as JSON with hexadecimal
strings.  Decoding undoes encoding and the other way round, and the text of an
item is read back if its lists are not nested deeper than the JSON parser goes.
-/

namespace SwissledgerFoundry.Cast

open Rlp

inductive Item where
  | data (bytes : Bytes)
  | array (items : List Item)

inductive DecodeError where
  | rlp (error : Error)
  | exhausted
deriving DecidableEq

inductive ConversionError where
  | message (text : String)
  | number (error : Radix.ReadError)
deriving DecidableEq

namespace Item

mutual

def encode : Item → Bytes
  | .data bytes => encodeBytes bytes
  | .array items => encodeList (encodeAll items)

def encodeAll : List Item → Bytes
  | [] => []
  | item :: items => item.encode ++ encodeAll items

end

mutual

/-- Each round goes into a payload or over an item. -/
def decodeWith : ℕ → Bytes → Except DecodeError (Item × Bytes)
  | 0, _ => .error .exhausted
  | fuel + 1, buf =>
    match Header.decode buf with
    | .error error => .error (.rlp error)
    | .ok (header, rest) =>
      if rest.length < header.payloadLength then
        .error (.rlp .inputTooShort)
      else if header.list then
        (decodeAll fuel (rest.take header.payloadLength)).map
          fun items => (.array items, rest.drop header.payloadLength)
      else
        .ok (.data (rest.take header.payloadLength), rest.drop header.payloadLength)

def decodeAll : ℕ → Bytes → Except DecodeError (List Item)
  | 0, _ => .error .exhausted
  | _ + 1, [] => .ok []
  | fuel + 1, byte :: view =>
    match decodeWith fuel (byte :: view) with
    | .error error => .error error
    | .ok (item, rest) => (decodeAll fuel rest).map (item :: ·)

end

def decode (buf : Bytes) : Except DecodeError (Item × Bytes) := decodeWith (2 * buf.length + 1) buf

mutual

def valueToItem : Json.Value → Except ConversionError Item
  | .null => .ok (.data [])
  | .bool _ => .error (.message "RLP input can not contain booleans")
  | .number token =>
    match U256.fromStrRadix token 10 with
    | .ok number => .ok (.data (beBytes number.toNat))
    | .error error => .error (.number error)
  | .string chars =>
    match Hex.decode chars with
    | some bytes => .ok (.data bytes)
    | none => .error (.message "Could not decode hex")
  | .array values => (valuesToItems values).map .array
  | .object _ => .error (.message "RLP input can not contain objects")

def valuesToItems : List Json.Value → Except ConversionError (List Item)
  | [] => .ok []
  | value :: values =>
    match valueToItem value with
    | .error error => .error error
    | .ok item => (valuesToItems values).map (item :: ·)

end

mutual

def display : Item → List Char
  | .data bytes => '"' :: '0' :: 'x' :: (Hex.encode bytes ++ ['"'])
  | .array [] => ['[', ']']
  | .array (item :: items) => '[' :: (item.display ++ (displayRest items ++ [']']))

def displayRest : List Item → List Char
  | [] => []
  | item :: items => ',' :: (item.display ++ displayRest items)

end

mutual

/-- How deep lists are nested. -/
def depth : Item → ℕ
  | .data _ => 0
  | .array items => depthAll items + 1

def depthAll : List Item → ℕ
  | [] => 0
  | item :: items => max item.depth (depthAll items)

end

end Item

end SwissledgerFoundry.Cast

namespace SwissledgerFoundry.Cast.Item

open List

theorem encode_length_pos (item : Item) : 0 < item.encode.length := by
  cases item with
  | data bytes => exact Rlp.length_encodeBytes_pos
  | array items =>
    rw [encode]
    have header := Rlp.length_lt_encodeList (encodeAll items)
    omega

mutual

theorem decodeWith_encode (item : Item) (fuel : ℕ) (rest : Bytes)
    (small : item.encode.length < 2 ^ 64)
    (enough : 2 * item.encode.length + 1 ≤ fuel) :
    decodeWith fuel (item.encode ++ rest) = .ok (item, rest) := by
  obtain ⟨fuel, rfl⟩ : ∃ less, fuel = less + 1 := ⟨fuel - 1, by omega⟩
  cases item with
  | data bytes =>
    rw [encode] at small ⊢
    have payload := Rlp.length_le_encodeBytes bytes
    rw [decodeWith, Rlp.decode_encodeBytes (by omega)]
    simp only [length_append, take_left', drop_left', Bool.false_eq_true, if_false]
    rw [if_neg (by omega)]
  | array items =>
    rw [encode] at small enough ⊢
    have payload := Rlp.length_lt_encodeList (encodeAll items)
    rw [decodeWith, Rlp.decode_encodeList (by omega)]
    simp only [length_append, take_left', drop_left', if_true]
    rw [if_neg (by omega), decodeAll_encodeAll items fuel (by omega) (by omega)]
    rfl

theorem decodeAll_encodeAll (items : List Item) (fuel : ℕ)
    (small : (encodeAll items).length < 2 ^ 64)
    (enough : 2 * (encodeAll items).length + 2 ≤ fuel) :
    decodeAll fuel (encodeAll items) = .ok items := by
  obtain ⟨fuel, rfl⟩ : ∃ less, fuel = less + 1 := ⟨fuel - 1, by omega⟩
  cases items with
  | nil => rfl
  | cons item items =>
    have positive := item.encode_length_pos
    rw [encodeAll, length_append] at small enough
    rw [encodeAll]
    have first := decodeWith_encode item fuel (encodeAll items) (by omega) (by omega)
    have others := decodeAll_encodeAll items fuel (by omega) (by omega)
    obtain ⟨byte, view, same⟩ : ∃ byte view, item.encode ++ encodeAll items = byte :: view :=
      exists_cons_of_length_pos (by
        rw [length_append]
        omega)
    rw [same] at first ⊢
    rw [decodeAll, first]
    simp only [others]
    rfl

end

variable {fuel : ℕ}

theorem encode_of_decodeWith_succ {buf rest : Bytes}
    (deeper : ∀ {view items}, decodeAll fuel view = .ok items → encodeAll items = view)
    {item : Item}
    (decoded : decodeWith (fuel + 1) buf = .ok (item, rest)) :
    item.encode ++ rest = buf := by
  rw [decodeWith] at decoded
  split at decoded
  · cases decoded
  rename_i header after read
  obtain ⟨list, length⟩ := header
  split at decoded
  · cases decoded
  cases list with
  | true =>
    cases inner : decodeAll fuel (after.take length) with
    | error error =>
      rw [inner] at decoded
      cases decoded
    | ok items =>
      rw [inner] at decoded
      cases decoded
      rw [encode, deeper inner]
      exact (Rlp.encodeList_of_decode read).2
  | false =>
    cases decoded
    exact (Rlp.encodeBytes_of_decode read).2

/-- Encoding what was decoded gives the bytes again, in items and in lists of
them. -/
theorem encode_of_decodeAll :
    (∀ {buf item rest}, decodeWith fuel buf = .ok (item, rest) → item.encode ++ rest = buf) ∧
    ∀ {view items}, decodeAll fuel view = .ok items → encodeAll items = view := by
  induction fuel with
  | zero =>
    constructor
    · nofun
    · nofun
  | succ fuel ih =>
    refine ⟨encode_of_decodeWith_succ ih.2, ?_⟩
    intro view items decoded
    cases view with
    | nil =>
      cases decoded
      rfl
    | cons byte view =>
      rw [decodeAll] at decoded
      split at decoded
      · cases decoded
      rename_i item rest first
      cases others : decodeAll fuel rest with
      | error error =>
        rw [others] at decoded
        cases decoded
      | ok items =>
        rw [others] at decoded
        cases decoded
        rw [encodeAll, ih.2 others]
        exact ih.1 first

/-- The fuel of `decode` is enough: a list is shorter than its item, and what
follows an item is shorter than what the item is read from. -/
theorem decodeAll_ne_exhausted :
    (∀ buf : Bytes, 2 * buf.length + 1 ≤ fuel → decodeWith fuel buf ≠ .error .exhausted) ∧
    ∀ view : Bytes, 2 * view.length + 2 ≤ fuel → decodeAll fuel view ≠ .error .exhausted := by
  induction fuel with
  | zero =>
    constructor
    · intro buf enough
      omega
    · intro view enough
      omega
  | succ fuel ih =>
    constructor
    · intro buf enough failed
      rw [decodeWith] at failed
      split at failed
      · cases failed
      rename_i header after read
      obtain ⟨list, length⟩ := header
      split at failed
      · cases failed
      cases list with
      | true =>
        have same := congrArg List.length (Rlp.encodeList_of_decode read).2
        rw [length_append] at same
        have shorter := Rlp.length_lt_encodeList (after.take length)
        apply ih.2 (after.take length) (by omega)
        exact Except.map_eq_error_iff.mp failed
      | false => cases failed
    intro view enough failed
    cases view with
    | nil => cases failed
    | cons byte view =>
      rw [length_cons] at enough
      rw [decodeAll] at failed
      split at failed
      · rename_i error first
        cases failed
        apply ih.1 _ _ first
        rw [length_cons]
        omega
      rename_i item rest first
      have same := congrArg length (encode_of_decodeAll.1 first)
      rw [length_append, length_cons] at same
      have positive := item.encode_length_pos
      apply ih.2 rest (by omega)
      exact Except.map_eq_error_iff.mp failed

theorem decode_ne_exhausted {buf : Bytes} :
    decode buf ≠ .error .exhausted := decodeAll_ne_exhausted.1 buf le_rfl

mutual

def toValue : Item → Json.Value
  | .data bytes => .string ('0' :: 'x' :: Hex.encode bytes)
  | .array items => .array (toValues items)

def toValues : List Item → List Json.Value
  | [] => []
  | item :: items => item.toValue :: toValues items

end

mutual

theorem valueToItem_toValue (item : Item) : valueToItem item.toValue = .ok item := by
  cases item with
  | data bytes => rw [toValue, valueToItem, Hex.decode_prefixed_encode]
  | array items =>
    rw [toValue, valueToItem, valuesToItems_toValues]
    rfl

theorem valuesToItems_toValues {items : List Item} :
    valuesToItems (toValues items) = .ok items := by
  cases items with
  | nil => rfl
  | cons item items =>
    rw [toValues, valuesToItems, valueToItem_toValue item]
    simp only [valuesToItems_toValues]
    rfl

end

theorem display_head (item : Item) :
    ∃ first tail, item.display = first :: tail ∧ (first = '"' ∨ first = '[') := by
  cases item with
  | data bytes => exact ⟨_, _, by rw [display], .inl rfl⟩
  | array items => cases items <;> exact ⟨_, _, by rw [display], .inr rfl⟩

theorem display_length_pos (item : Item) : 0 < item.display.length := by
  obtain ⟨first, tail, same, _⟩ := item.display_head
  rw [same]
  exact Nat.succ_pos _

theorem plain_hex {bytes : List UInt8} {char : Char}
    (member : char ∈ '0' :: 'x' :: Hex.encode bytes) :
    char ≠ '"' ∧ char ≠ '\\' ∧ 0x20 ≤ char.toNat := by
  rw [mem_cons, mem_cons] at member
  obtain rfl | rfl | member := member
  · decide
  · decide
  · exact Hex.plain_of_mem_encode member

theorem parseValue_data (bytes : Bytes) (fuel depth : ℕ) (rest : List Char) :
    Json.parseValue (fuel + 1) depth ((data bytes).display ++ rest) =
      .ok ((data bytes).toValue, rest) := by
  have text : (data bytes).display ++ rest =
      '"' :: ('0' :: 'x' :: Hex.encode bytes ++ '"' :: rest) := by
    simp [display]
  rw [text]
  exact Json.parseValue_string (Json.parseString_plain (fun _ => plain_hex))

mutual

/-- The text of an item is parsed as its value, whatever follows. -/
theorem parseValue_display (item : Item) (fuel depth : ℕ) (rest : List Char)
    (enough : item.display.length ≤ fuel) (shallow : item.depth < depth) :
    Json.parseValue fuel depth (item.display ++ rest) = .ok (item.toValue, rest) := by
  have positive := item.display_length_pos
  obtain ⟨fuel, rfl⟩ : ∃ less, fuel = less + 1 := ⟨fuel - 1, by omega⟩
  cases item with
  | data bytes => exact parseValue_data bytes fuel depth rest
  | array items =>
    rw [Item.depth] at shallow
    cases items with
    | nil => exact Json.parseValue_emptyArray (by omega)
    | cons item items =>
      rw [display] at enough ⊢
      simp only [length_cons, length_append] at enough
      have inner := parseElements_display item items fuel (depth - 1) rest
        (by rw [length_append]; omega) (by omega)
      obtain ⟨first, tail, text, opening⟩ := item.display_head
      rw [text] at inner
      rw [text]
      simp only [cons_append, append_assoc, nil_append] at inner ⊢
      exact Json.parseValue_array (by omega) opening inner
termination_by fuel

theorem parseElements_display (item : Item) (items : List Item) (fuel depth : ℕ) (rest : List Char)
    (enough : (item.display ++ displayRest items).length + 1 ≤ fuel)
    (shallow : depthAll (item :: items) < depth) :
    Json.parseElements fuel depth (item.display ++ (displayRest items ++ ']' :: rest)) =
      .ok (toValues (item :: items), rest) := by
  obtain ⟨fuel, rfl⟩ : ∃ less, fuel = less + 1 := ⟨fuel - 1, by omega⟩
  rw [length_append] at enough
  rw [depthAll] at shallow
  have first := parseValue_display item fuel depth
    (displayRest items ++ ']' :: rest) (by omega) (by omega)
  cases items with
  | nil => exact Json.parseElements_last first
  | cons next others =>
    rw [displayRest] at enough first ⊢
    rw [length_cons, length_append] at enough
    have after := parseElements_display next others fuel depth rest
      (by rw [length_append]; omega) (by omega)
    rw [cons_append, append_assoc] at first ⊢
    exact Json.parseElements_cons first after
termination_by fuel

end

theorem valueToItem_parse_display {item : Item} (shallow : item.depth < Json.recursionLimit) :
    ∃ value, Json.parse item.display = .ok value ∧ valueToItem value = .ok item := by
  refine ⟨item.toValue, ?_, valueToItem_toValue item⟩
  apply Json.parse_eq_ok
  have parsed := parseValue_display item (2 * item.display.length + 2)
    Json.recursionLimit [] (by omega) shallow
  rwa [append_nil] at parsed

/-- An item is decoded from its encoding and left with what follows, decoded
bytes are the encoding of the item, and the text of an item stands for it
unless its lists are nested as deep as the parser's limit. -/
theorem item_roundTrips (item : Item) (rest : Bytes) (addressable : item.encode.length < 2 ^ 64) :
    decode (item.encode ++ rest) = .ok (item, rest) ∧
      (∀ buf found after, decode buf = .ok (found, after) → found.encode ++ after = buf) ∧
      (item.depth < 128 →
        ∃ value, Json.parse item.display = .ok value ∧ valueToItem value = .ok item) := by
  refine ⟨?_, ?_, valueToItem_parse_display⟩
  · apply decodeWith_encode item _ rest addressable
    rw [length_append]
    omega
  · intro buf found after decoded
    exact encode_of_decodeAll.1 decoded

/-- A list in a list, as deep as the number says. -/
def nested : ℕ → Item
  | 0 => .array []
  | levels + 1 => .array [nested levels]

theorem item_roundTrips_nested : (nested 2).encode.length < 2 ^ 64 ∧ (nested 2).depth < 128 ∧
      decode ((nested 2).encode ++ [0x80]) = .ok (nested 2, [0x80]) ∧
      (∃ value, Json.parse (nested 2).display = .ok value ∧
        valueToItem value = .ok (nested 2)) := by
  have small : (nested 2).encode.length < 2 ^ 64 := by decide +kernel
  have shallow : (nested 2).depth < 128 := by decide +kernel
  have trips := item_roundTrips (nested 2) [0x80] small
  exact ⟨small, shallow, trips.1, trips.2.2 shallow⟩

/-- The text of 128 lists in one another is not parsed. -/
theorem item_too_deep : (nested 127).depth = 128 ∧ (nested 127).encode.length < 2 ^ 64 ∧
      (Json.parse (nested 127).display).isOk = false := by
  decide +kernel

end SwissledgerFoundry.Cast.Item
