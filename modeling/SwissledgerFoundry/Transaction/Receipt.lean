import SwissledgerFoundry.Collections.Rlp
import SwissledgerFoundry.Transaction.RpcRequest

/-!
# Receipts of every transaction type

A receipt is encoded for the network and, with a type byte in front, as an
EIP-2718 envelope.  The encoding of what is in a receipt is a parameter.
-/

namespace SwissledgerFoundry.Transaction

open Rlp List UInt8

inductive ReceiptError where
  | rlp (error : Rlp.Error)
  | custom (text : String)
deriving DecidableEq

/-- The codec of the inner receipts.  They are lists of several fields, so
their payload is not empty, and no slice of bytes is longer than half of what a
word can address. -/
structure ReceiptCodec (α : Type) where
  encode : α → Bytes
  length : α → ℕ
  decode : Bytes → Except ReceiptError (α × Bytes)
  length_eq : ∀ receipt, length receipt = (encode receipt).length
  decode_encode : ∀ receipt rest, decode (encode receipt ++ rest) = .ok (receipt, rest)
  isList : ∀ receipt, ∃ payload, payload ≠ [] ∧ encode receipt = encodeList payload
  addressable : ∀ receipt, (encode receipt).length < 2 ^ 63

/-- `R` are receipts with a bloom, `D` those of deposits. -/
inductive FoundryReceiptEnvelope (R D : Type) where
  | legacy (receipt : R)
  | eip2930 (receipt : R)
  | eip1559 (receipt : R)
  | eip4844 (receipt : R)
  | eip7702 (receipt : R)
  | postExec (receipt : R)
  | deposit (receipt : D)
  | tempo (receipt : R)
deriving DecidableEq

/-- The envelope of the consensus library. -/
inductive ReceiptEnvelope (R : Type) where
  | legacy (receipt : R)
  | eip2930 (receipt : R)
  | eip1559 (receipt : R)
  | eip4844 (receipt : R)
  | eip7702 (receipt : R)

def emptyListCode : UInt8 := 0xc0

/-- The largest byte that is a transaction type. -/
def txTypeByteMax : UInt8 := 0x7f

/-- What the receipts use of the libraries: the envelope of the consensus
library, which decodes the receipt behind the type of its variant, and
`decode_2718` of a type with the given two decoders, which takes a first byte
that is a transaction type for one. -/
structure EnvelopeLibrary {R : Type} (receipts : ReceiptCodec R) (α : Type) where
  typedDecode : UInt8 → Bytes → Except ReceiptError (ReceiptEnvelope R × Bytes)
  fallbackDecode : Bytes → Except ReceiptError (ReceiptEnvelope R × Bytes)
  decode2718 : (UInt8 → Bytes → Except ReceiptError (α × Bytes)) →
    (Bytes → Except ReceiptError (α × Bytes)) → Bytes → Except ReceiptError (α × Bytes)
  typedDecode_eip2930 : ∀ buf, typedDecode eip2930TxTypeId buf =
    (receipts.decode buf).map (Prod.map .eip2930 id)
  typedDecode_eip1559 : ∀ buf, typedDecode eip1559TxTypeId buf =
    (receipts.decode buf).map (Prod.map .eip1559 id)
  typedDecode_eip4844 : ∀ buf, typedDecode eip4844TxTypeId buf =
    (receipts.decode buf).map (Prod.map .eip4844 id)
  typedDecode_eip7702 : ∀ buf, typedDecode eip7702TxTypeId buf =
    (receipts.decode buf).map (Prod.map .eip7702 id)
  fallbackDecode_eq : ∀ buf, fallbackDecode buf = (receipts.decode buf).map (Prod.map .legacy id)
  decode2718_typed : ∀ typed fallback ty buf, ty ≤ txTypeByteMax →
    decode2718 typed fallback (ty :: buf) = typed ty buf
  decode2718_fallback : ∀ typed fallback first buf, txTypeByteMax < first →
    decode2718 typed fallback (first :: buf) = fallback (first :: buf)

namespace FoundryReceiptEnvelope

variable {R D : Type} (receipts : ReceiptCodec R) (deposits : ReceiptCodec D)

def encodeTyped (type : UInt8) (length : ℕ) (receipt : Bytes) : Bytes :=
  Header.encode ⟨true, length + 1⟩ ++ (encodeBytes [type] ++ receipt)

def encode : FoundryReceiptEnvelope R D → Bytes
  | .legacy r => receipts.encode r
  | .eip2930 r => encodeTyped eip2930TxTypeId (receipts.length r) (receipts.encode r)
  | .eip1559 r => encodeTyped eip1559TxTypeId (receipts.length r) (receipts.encode r)
  | .eip4844 r => encodeTyped eip4844TxTypeId (receipts.length r) (receipts.encode r)
  | .eip7702 r => encodeTyped eip7702TxTypeId (receipts.length r) (receipts.encode r)
  | .postExec r => encodeTyped postExecTxTypeId (receipts.length r) (receipts.encode r)
  | .deposit r => encodeTyped depositTxTypeId (deposits.length r) (deposits.encode r)
  | .tempo r => encodeTyped tempoTxTypeId (receipts.length r) (receipts.encode r)

def wrap {α ε : Type} (constructor : α → FoundryReceiptEnvelope R D)
    (decoded : Except ε (α × Bytes)) :
    Except ε (FoundryReceiptEnvelope R D × Bytes) :=
  decoded.map fun (receipt, rest) => (constructor receipt, rest)

/-- The receipt behind a type byte. -/
def decodeTyped (receiptType : UInt8) (buf : Bytes) :
    Except ReceiptError (FoundryReceiptEnvelope R D × Bytes) :=
  if receiptType = eip2930TxTypeId then wrap .eip2930 (receipts.decode buf)
  else if receiptType = eip1559TxTypeId then
    wrap .eip1559 (receipts.decode buf)
  else if receiptType = eip4844TxTypeId then
    wrap .eip4844 (receipts.decode buf)
  else if receiptType = eip7702TxTypeId then
    wrap .eip7702 (receipts.decode buf)
  else if receiptType = postExecTxTypeId then
    wrap .postExec (receipts.decode buf)
  else if receiptType = depositTxTypeId then
    wrap .deposit (deposits.decode buf)
  else if receiptType = tempoTxTypeId then wrap .tempo (receipts.decode buf)
  else .error (.custom "invalid receipt type")

def decode : Bytes → Except ReceiptError (FoundryReceiptEnvelope R D × Bytes)
  | [] => .error (.custom "cannot decode a receipt from empty bytes")
  | rlpType :: buf =>
    if rlpType < emptyListCode then
      match Header.decode (rlpType :: buf) with
      | .error error => .error (.rlp error)
      | .ok (_, []) => .error
          (.custom "typed receipt cannot be decoded from an empty slice")
      | .ok (_, receiptType :: rest) => decodeTyped receipts deposits receiptType rest
    else if rlpType = emptyListCode then
      .error (.custom "an empty list is not a valid receipt encoding")
    else wrap .legacy (receipts.decode (rlpType :: buf))

def ty : FoundryReceiptEnvelope R D → UInt8
  | .legacy _ => legacyTxTypeId
  | .eip2930 _ => eip2930TxTypeId
  | .eip1559 _ => eip1559TxTypeId
  | .eip4844 _ => eip4844TxTypeId
  | .eip7702 _ => eip7702TxTypeId
  | .postExec _ => postExecTxTypeId
  | .deposit _ => depositTxTypeId
  | .tempo _ => tempoTxTypeId

def typeFlag (receipt : FoundryReceiptEnvelope R D) : Option UInt8 :=
  if receipt.ty = legacyTxTypeId then none else some receipt.ty

def encode2718Len : FoundryReceiptEnvelope R D → ℕ
  | .legacy r => receipts.length r
  | .eip2930 r => 1 + receipts.length r
  | .eip1559 r => 1 + receipts.length r
  | .eip4844 r => 1 + receipts.length r
  | .eip7702 r => 1 + receipts.length r
  | .postExec r => 1 + receipts.length r
  | .deposit r => 1 + deposits.length r
  | .tempo r => 1 + receipts.length r

def encodeInner : FoundryReceiptEnvelope R D → Bytes
  | .legacy r | .eip2930 r | .eip1559 r | .eip4844 r | .eip7702 r
  | .postExec r | .tempo r => receipts.encode r
  | .deposit r => deposits.encode r

def encode2718 (receipt : FoundryReceiptEnvelope R D) : Bytes :=
  receipt.typeFlag.toList ++ receipt.encodeInner receipts deposits

section

variable {receipts} (library : EnvelopeLibrary receipts (FoundryReceiptEnvelope R D))

def typedDecode (ty : UInt8) (buf : Bytes) :
    Except ReceiptError (FoundryReceiptEnvelope R D × Bytes) :=
  if ty = depositTxTypeId then wrap .deposit (deposits.decode buf)
  else if ty = tempoTxTypeId then wrap .tempo (receipts.decode buf)
  else if ty = postExecTxTypeId then wrap .postExec (receipts.decode buf)
  else
    match library.typedDecode ty buf with
    | .error error => .error error
    | .ok (.eip2930 tx, rest) => .ok (.eip2930 tx, rest)
    | .ok (.eip1559 tx, rest) => .ok (.eip1559 tx, rest)
    | .ok (.eip4844 tx, rest) => .ok (.eip4844 tx, rest)
    | .ok (.eip7702 tx, rest) => .ok (.eip7702 tx, rest)
    | .ok (.legacy _, _) => .error (.custom "unexpected tx type")

def fallbackDecode (buf : Bytes) : Except ReceiptError (FoundryReceiptEnvelope R D × Bytes) :=
  match library.fallbackDecode buf with
  | .error error => .error error
  | .ok (.legacy tx, rest) => .ok (.legacy tx, rest)
  | .ok _ => .error (.custom "unexpected tx type")

def decode2718 : Bytes → Except ReceiptError (FoundryReceiptEnvelope R D × Bytes) :=
  library.decode2718 (typedDecode deposits library) (fallbackDecode library)

end

theorem receipt_head {α : Type} (codec : ReceiptCodec α) (receipt : α) :
    ∃ first tail, codec.encode receipt = first :: tail ∧ emptyListCode < first := by
  obtain ⟨payload, nonempty, encoded⟩ := codec.isList receipt
  have bound := codec.addressable receipt
  have shorter := length_lt_encodeList payload
  rw [← encoded] at shorter
  obtain ⟨first, tail, same, above⟩ := Header.encode_list_head _
    (length_pos_iff.mpr nonempty) (by omega)
  refine ⟨first, tail ++ payload, ?_, ?_⟩
  · simp [encoded, encodeList, same]
  · exact lt_iff_toNat_lt.mpr above

variable {receipts deposits} {receipt : FoundryReceiptEnvelope R D}
  {library : EnvelopeLibrary receipts (FoundryReceiptEnvelope R D)}

theorem ty_of_wrap_legacy {decoded : Except ReceiptError (R × Bytes)} {rest : Bytes}
    (wrapped : wrap .legacy decoded = .ok (receipt, rest)) :
    receipt.ty = legacyTxTypeId := by
  cases decoded with
  | error error => cases wrapped
  | ok pair =>
    cases wrapped
    rfl

/-- Behind the header of a list the decoder only looks for a legacy
receipt. -/
theorem decode_of_list {first : UInt8} (above : emptyListCode < first) (buf : Bytes) :
    decode receipts deposits (first :: buf) = wrap .legacy (receipts.decode (first :: buf)) := by
  rw [decode, if_neg (UInt8.lt_asymm above), if_neg (fun same => UInt8.lt_irrefl _ (same ▸ above))]

/-- The receipt is behind its type byte, which is not that of a legacy one. -/
theorem encode2718_typed (typed : receipt.ty ≠ legacyTxTypeId) :
    receipt.encode2718 receipts deposits = receipt.ty :: receipt.encodeInner receipts deposits := by
  simp [encode2718, typeFlag, if_neg typed]

theorem ty_le (receipt : FoundryReceiptEnvelope R D) : receipt.ty ≤ txTypeByteMax := by
  cases receipt <;> (rw [ty]; decide)

theorem typedDecode_encodeInner (typed : receipt.ty ≠ legacyTxTypeId) (rest : Bytes) :
    typedDecode deposits library receipt.ty (receipt.encodeInner receipts deposits ++ rest) =
      .ok (receipt, rest) := by
  cases receipt with
  | legacy r => exact absurd rfl typed
  | eip2930 r | eip1559 r | eip4844 r | eip7702 r =>
    simp only [encodeInner, ty]
    rw [typedDecode]
    simp only [library.typedDecode_eip2930, library.typedDecode_eip1559,
      library.typedDecode_eip4844, library.typedDecode_eip7702, receipts.decode_encode r rest]
    rfl
  | postExec r | tempo r =>
    simp only [encodeInner]
    rw [typedDecode, receipts.decode_encode r rest]
    rfl
  | deposit r =>
    rw [encodeInner, typedDecode, deposits.decode_encode r rest]
    rfl

theorem encode_typed (typed : receipt.ty ≠ legacyTxTypeId) : receipt.encode receipts deposits =
      Header.encode ⟨true, (receipt.encodeInner receipts deposits).length + 1⟩ ++
        receipt.ty :: receipt.encodeInner receipts deposits := by
  cases receipt with
  | legacy r => exact absurd rfl typed
  | eip2930 r | eip1559 r | eip4844 r | eip7702 r | postExec r | tempo r =>
    rw [encode, receipts.length_eq]
    rfl
  | deposit r =>
    rw [encode, deposits.length_eq]
    rfl

theorem encodeInner_length_lt (receipts : ReceiptCodec R)
    (deposits : ReceiptCodec D) (receipt : FoundryReceiptEnvelope R D) :
    (receipt.encodeInner receipts deposits).length < 2 ^ 63 := by
  cases receipt with
  | legacy r | eip2930 r | eip1559 r | eip4844 r | eip7702 r | postExec r
  | tempo r => exact receipts.addressable r
  | deposit r => exact deposits.addressable r

theorem decode_encode_legacy (r : R) (rest : Bytes) : decode receipts deposits
        ((legacy r : FoundryReceiptEnvelope R D).encode receipts deposits ++
          rest) = .ok (legacy r, rest) := by
  obtain ⟨first, tail, same, above⟩ := receipt_head receipts r
  have inner := receipts.decode_encode r rest
  rw [encode]
  rw [same, cons_append] at inner ⊢
  rw [decode_of_list above, inner]
  rfl

theorem decode2718_encode2718 (receipt : FoundryReceiptEnvelope R D) (rest : Bytes) :
    decode2718 deposits library (receipt.encode2718 receipts deposits ++ rest) =
      .ok (receipt, rest) := by
  by_cases typed : receipt.ty = legacyTxTypeId
  · cases receipt with
    | legacy r =>
      obtain ⟨first, tail, same, above⟩ := receipt_head receipts r
      have inner := receipts.decode_encode r rest
      have bytes : (legacy r : FoundryReceiptEnvelope R D).encode2718 receipts
          deposits = receipts.encode r := rfl
      rw [bytes]
      rw [same, cons_append] at inner ⊢
      have notType : txTypeByteMax < first := UInt8.lt_trans (by decide) above
      rw [decode2718, library.decode2718_fallback _ _ _ _ notType, fallbackDecode,
        library.fallbackDecode_eq, inner]
      rfl
    | eip2930 r | eip1559 r | eip4844 r | eip7702 r | postExec r | tempo r
    | deposit r => exact absurd typed (by rw [ty]; decide)
  · rw [encode2718_typed typed, cons_append, decode2718,
      library.decode2718_typed _ _ _ _ receipt.ty_le]
    exact typedDecode_encodeInner typed rest

theorem encode2718Len_eq (receipt : FoundryReceiptEnvelope R D) :
    receipt.encode2718Len receipts deposits = (receipt.encode2718 receipts deposits).length := by
  cases receipt with
  | legacy r => exact receipts.length_eq r
  | eip2930 r | eip1559 r | eip4844 r | eip7702 r | postExec r | tempo r =>
    rw [encode2718Len, receipts.length_eq, Nat.add_comm]
    rfl
  | deposit r =>
    rw [encode2718Len, deposits.length_eq, Nat.add_comm]
    rfl

/-- The network encoding of a typed receipt is never decoded to it: the
encoder writes the header of a list and the decoder then takes the bytes for a
legacy receipt. -/
theorem decode_encode_typed {receipt : FoundryReceiptEnvelope R D}
    (typed : receipt.ty ≠ legacyTxTypeId) (rest : Bytes) :
    decode receipts deposits (receipt.encode receipts deposits ++ rest) ≠ .ok (receipt, rest) := by
  have bound := receipt.encodeInner_length_lt receipts deposits
  obtain ⟨first, tail, same, above⟩ := Header.encode_list_head
    ((receipt.encodeInner receipts deposits).length + 1) (by omega) (by omega)
  rw [encode_typed typed, same, cons_append, cons_append,
    decode_of_list (lt_iff_toNat_lt.mpr above)]
  intro decoded
  apply typed
  exact ty_of_wrap_legacy decoded

/-- The network encoding of a legacy receipt is decoded to the receipt.  Of a
receipt of any type the EIP-2718 encoding is decoded to the receipt and has the
length that is announced. -/
theorem receipt_roundTrips (receipts : ReceiptCodec R)
    (deposits : ReceiptCodec D) (library : EnvelopeLibrary receipts (FoundryReceiptEnvelope R D))
    (receipt : FoundryReceiptEnvelope R D) (rest : Bytes) :
    (receipt.ty = legacyTxTypeId →
      decode receipts deposits (receipt.encode receipts deposits ++ rest) = .ok (receipt, rest)) ∧
      decode2718 deposits library (receipt.encode2718 receipts deposits ++ rest) =
        .ok (receipt, rest) ∧
      receipt.encode2718Len receipts deposits = (receipt.encode2718 receipts deposits).length := by
  refine ⟨?_, decode2718_encode2718 receipt rest, encode2718Len_eq receipt⟩
  intro untyped
  cases receipt with
  | legacy r => exact decode_encode_legacy r rest
  | eip2930 r | eip1559 r | eip4844 r | eip7702 r | postExec r | tempo r
  | deposit r => exact absurd untyped (by rw [ty]; decide)

/-- Receipts that are known by the payload of their list. -/
abbrev Payload := { payload : Bytes // payload ≠ [] ∧ payload.length < 2 ^ 62 }

def decodePayload (buf : Bytes) : Except ReceiptError (Payload × Bytes) :=
  match Header.decode buf with
  | .error error => .error (.rlp error)
  | .ok (header, rest) =>
    if header.list then
      if valid : rest.take header.payloadLength ≠ [] ∧
          (rest.take header.payloadLength).length < 2 ^ 62 then
        .ok (⟨rest.take header.payloadLength, valid⟩, rest.drop header.payloadLength)
      else .error (.custom "no payload")
    else .error (.custom "unexpected string")

theorem decodePayload_encodeList (payload : Payload) (rest : Bytes) :
    decodePayload (encodeList payload.1 ++ rest) = .ok (payload, rest) := by
  obtain ⟨payload, valid⟩ := payload
  have small : payload.length < 2 ^ 64 := Nat.lt_trans valid.2 (by decide)
  rw [decodePayload, decode_encodeList small]
  simp only [take_left', drop_left']
  rw [if_pos trivial, dif_pos valid]

def payloadCodec : ReceiptCodec Payload where
  encode payload := encodeList payload.1
  length payload := (encodeList payload.1).length
  decode := decodePayload
  length_eq _ := rfl
  decode_encode := decodePayload_encodeList
  isList payload := ⟨payload.1, payload.2.1, rfl⟩
  addressable payload := by
    have bound := payload.2.2
    have header : (encodeList payload.1).length ≤ payload.1.length + 9 :=
      length_encodeList_le (by omega)
    omega

def payloadLibrary (α : Type) : EnvelopeLibrary payloadCodec α where
  typedDecode ty buf :=
    if ty = eip2930TxTypeId then (decodePayload buf).map (Prod.map .eip2930 id)
    else if ty = eip1559TxTypeId then (decodePayload buf).map (Prod.map .eip1559 id)
    else if ty = eip4844TxTypeId then (decodePayload buf).map (Prod.map .eip4844 id)
    else if ty = eip7702TxTypeId then (decodePayload buf).map (Prod.map .eip7702 id)
    else .error (.custom "Unexpected type")
  fallbackDecode buf := (decodePayload buf).map (Prod.map .legacy id)
  decode2718 typed fallback
    | [] => fallback []
    | ty :: buf => if ty ≤ txTypeByteMax then typed ty buf else fallback (ty :: buf)
  typedDecode_eip2930 _ := rfl
  typedDecode_eip1559 _ := rfl
  typedDecode_eip4844 _ := rfl
  typedDecode_eip7702 _ := rfl
  fallbackDecode_eq _ := rfl
  decode2718_typed _ _ _ _ small := if_pos small
  decode2718_fallback _ _ _ _ large := if_neg (UInt8.not_le.mpr large)

def emptyField : Payload := ⟨[0x80], by decide⟩

theorem receipt_roundTrips_emptyField :
    (legacy emptyField : FoundryReceiptEnvelope Payload Payload).ty = legacyTxTypeId ∧
      decode payloadCodec payloadCodec
          ((legacy emptyField : FoundryReceiptEnvelope Payload Payload).encode
            payloadCodec payloadCodec ++ [7]) =
        .ok (legacy emptyField, [7]) ∧
      decode2718 payloadCodec (payloadLibrary _) ((deposit emptyField :
            FoundryReceiptEnvelope Payload Payload).encode2718 payloadCodec payloadCodec ++ []) =
        .ok (deposit emptyField, []) :=
  ⟨rfl, (receipt_roundTrips payloadCodec payloadCodec (payloadLibrary _) _ [7]).1 rfl,
    (receipt_roundTrips payloadCodec payloadCodec (payloadLibrary _) _ []).2.1⟩

/-- A receipt of EIP-2930 is not decoded, whatever the codec of its content.
With one empty field in it, its bytes are those of a list whose first element is
the type, and they are decoded to a legacy receipt. -/
theorem eip2930_not_decoded :
    (∀ (R D : Type) (receipts : ReceiptCodec R) (deposits : ReceiptCodec D) (r : R) (rest : Bytes),
      decode receipts deposits ((eip2930 r : FoundryReceiptEnvelope R D).encode receipts deposits ++
            rest) ≠ .ok (eip2930 r, rest)) ∧
      (eip2930 emptyField : FoundryReceiptEnvelope Payload Payload).encode
        payloadCodec payloadCodec = [0xc3, 0x01, 0xc1, 0x80] ∧
      decode payloadCodec payloadCodec [0xc3, 0x01, 0xc1, 0x80] =
        .ok ((legacy ⟨[0x01, 0xc1, 0x80], by decide⟩ :
          FoundryReceiptEnvelope Payload Payload), []) := by
  refine ⟨?_, by decide +kernel, rfl⟩
  intro R D receipts deposits r rest
  exact decode_encode_typed (by rw [ty]; decide) rest

end FoundryReceiptEnvelope

end SwissledgerFoundry.Transaction
