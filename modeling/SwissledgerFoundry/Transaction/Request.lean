import SwissledgerFoundry.Cast.Base
import SwissledgerFoundry.Collections.Hex
import SwissledgerFoundry.Json.Parser
import SwissledgerFoundry.Transaction.RpcRequest

/-!
# Transaction requests of every network

A request is one of Ethereum, one of the OP stack with further fields in a JSON
object, or one of Tempo, depending on its type and its fields.
-/

namespace SwissledgerFoundry.Transaction

open Cast.U256

structure TxDeposit where
  sourceHash : B256
  sender : Address
  kind : TxKind
  mint : U128
  value : U256
  gasLimit : UInt64
  isSystemTransaction : Bool
  input : Bytes
deriving DecidableEq

structure TempoCall where
  kind : TxKind
  value : U256
  input : Bytes
deriving DecidableEq

structure TxTempo where
  chainId : UInt64
  nonce : UInt64
  gasLimit : UInt64
  maxFeePerGas : U128
  maxPriorityFeePerGas : U128
  calls : List TempoCall
  accessList : AccessList
  feeToken : Option Address
  nonceKey : U256
deriving DecidableEq

inductive FoundryTxType where
  | legacy
  | eip2930
  | eip1559
  | eip4844
  | eip7702
  | postExec
  | deposit
  | tempo
deriving DecidableEq

/-- `P` are the transactions after the execution of a block. -/
inductive FoundryTypedTx (P : Type) where
  | legacy (tx : TxLegacy)
  | eip2930 (tx : TxEip2930)
  | eip1559 (tx : TxEip1559)
  | eip4844 (tx : TxEip4844Variant)
  | eip7702 (tx : TxEip7702)
  | deposit (tx : TxDeposit)
  | postExec (tx : P)
  | tempo (tx : TxTempo)
deriving DecidableEq

/-- The members of a JSON object. -/
abbrev OtherFields := List (String × Json.Value)

structure WithOtherFields where
  inner : TransactionRequest
  other : OtherFields

structure TempoTransactionRequest where
  inner : TransactionRequest
  feeToken : Option Address
  nonceKey : Option U256

inductive FoundryTransactionRequest where
  | ethereum (request : TransactionRequest)
  | op (request : WithOtherFields)
  | tempo (request : TempoTransactionRequest)

/-- What other libraries do: the request of a transaction after execution, the
type in the request of a deposit if one is set, and how requests of Tempo are
checked and built. -/
structure Libraries (P : Type) where
  postExecRequest : P → TransactionRequest
  depositType : Option UInt8
  depositType_eq : depositType = none ∨ depositType = some depositTxTypeId
  tempoComplete : TempoTransactionRequest → Except (List String) Unit
  tempoBuildAa : TempoTransactionRequest → Except TempoTransactionRequest TxTempo

def byteOfToken : Json.Value → Option UInt8
  | .number token =>
    match Radix.readFrom 256 10 0 token with
    | .ok number => some (UInt8.ofNat number)
    | .error _ => none
  | _ => none

/-- Bytes of a fixed length, as hexadecimal text or as an array. -/
def deserializeFixed (width : ℕ) (value : Json.Value) : Option ℕ := do
  let bytes ←
    match value with
    | .string chars => Hex.decode chars
    | .array values => values.mapM byteOfToken
    | _ => none
  if bytes.length = width then return beValue bytes else none

def deserializeB256 (value : Json.Value) : Option B256 :=
  (deserializeFixed 32 value).map (BitVec.ofNat 256)

def deserializeAddress (value : Json.Value) : Option Address :=
  (deserializeFixed 20 value).map (BitVec.ofNat 160)

/-- The text of a number with the prefix of its base, or in decimal. -/
def U256.fromStr : List Char → Except Radix.ReadError U256
  | '0' :: 'x' :: digits => fromStrRadix digits 16
  | '0' :: 'X' :: digits => fromStrRadix digits 16
  | '0' :: 'o' :: digits => fromStrRadix digits 8
  | '0' :: 'O' :: digits => fromStrRadix digits 8
  | '0' :: 'b' :: digits => fromStrRadix digits 2
  | '0' :: 'B' :: digits => fromStrRadix digits 2
  | digits => fromStrRadix digits 10

def deserializeU256 : Json.Value → Option U256
  | .string chars => (U256.fromStr chars).toOption
  | .number token =>
    match Radix.readFrom (2 ^ 128) 10 0 token with
    | .ok number => some (BitVec.ofNat 256 number)
    | .error _ => none
  | _ => none

def deserializeBool : Json.Value → Option Bool
  | .bool flag => some flag
  | _ => none

/-- The text of a word: all its bytes in hexadecimal. -/
def B256.toChars (word : B256) : List Char :=
  '0' :: 'x' :: Hex.encode (leBytes 32 word.toNat).reverse

structure DepositTransactionParts where
  sourceHash : B256
  mint : Option U128
  isSystemTransaction : Bool
deriving DecidableEq

/-- The outer option is a panic: a minted amount that can be read but is too
large. -/
def getDepositTxParts (other : OtherFields) :
    Option (Except (List String) DepositTransactionParts) :=
  let sourceHash := (other.lookup "sourceHash").bind deserializeB256
  let mint := (other.lookup "mint").map deserializeU256
  let isSystemTx := (other.lookup "isSystemTx").bind deserializeBool
  let missing :=
    (if sourceHash.isNone then ["sourceHash"] else []) ++
      (if mint = some none then ["mint"] else []) ++
      (if isSystemTx.isNone then ["isSystemTx"] else [])
  if mint.join.any (fun amount => 2 ^ 128 ≤ amount.toNat) then none
  else if missing.isEmpty then
    some (.ok {
      sourceHash := sourceHash.getD 0
      mint := mint.join.map fun amount => BitVec.ofNat 128 amount.toNat
      isSystemTransaction := isSystemTx.getD false })
  else some (.error missing)

/-- The request of a deposit leaves out what the libraries do not know. -/
def TxDeposit.toRequest (depositType : Option UInt8) (tx : TxDeposit) : TransactionRequest where
  sender := some tx.sender
  kind := some tx.kind
  value := some tx.value
  gas := some tx.gasLimit
  input := { input := some tx.input }
  transactionType := depositType

namespace FoundryTransactionRequest

def intoInner : FoundryTransactionRequest → TransactionRequest
  | .ethereum tx => tx
  | .op tx => tx.inner
  | .tempo tx => tx.inner

def depositTxParts : FoundryTransactionRequest →
    Option (Except (List String) DepositTransactionParts)
  | .op tx => getDepositTxParts tx.other
  | _ => some (.error ["sourceHash", "mint", "isSystemTx"])

def ofTxType : TxType → FoundryTxType
  | .legacy => .legacy
  | .eip2930 => .eip2930
  | .eip1559 => .eip1559
  | .eip4844 => .eip4844
  | .eip7702 => .eip7702

def preferredType : FoundryTransactionRequest → FoundryTxType
  | .ethereum tx => ofTxType tx.preferredType
  | .op tx =>
    if tx.inner.transactionType = some postExecTxTypeId then .postExec
    else .deposit
  | .tempo _ => .tempo

/-- A blob transaction is complete without its blobs. -/
def complete4844 (request : FoundryTransactionRequest) : Except (List String) Unit :=
  match request.intoInner.complete4844 with
  | .ok () => .ok ()
  | .error missing =>
    let filtered := missing.filter (· ≠ "sidecar")
    if filtered.isEmpty then .ok () else .error filtered

def completeDeposit (request : FoundryTransactionRequest) : Option (Except (List String) Unit) :=
  request.depositTxParts.map fun parts => parts.map fun _ => ()

variable {P : Type} (libraries : Libraries P)

def completeTempo : FoundryTransactionRequest → Except (List String) Unit
  | .tempo tx => libraries.tempoComplete tx
  | _ => .error ["feeToken", "nonceKey"]

def missingKeys (request : FoundryTransactionRequest) :
    Option (Except (FoundryTxType × List String) FoundryTxType) := do
  let pref := request.preferredType
  let complete ←
    match pref with
    | .legacy => pure request.intoInner.completeLegacy
    | .eip2930 => pure request.intoInner.complete2930
    | .eip1559 => pure request.intoInner.complete1559
    | .eip4844 => pure request.complete4844
    | .eip7702 => pure request.intoInner.complete7702
    | .deposit => request.completeDeposit
    | .postExec => pure (.error ["not implemented for post-exec tx"])
    | .tempo => pure (request.completeTempo libraries)
  match complete with
  | .error missing => return .error (pref, missing)
  | .ok () => return .ok pref

def depositTx (request : TransactionRequest) (parts : DepositTransactionParts) : TxDeposit where
  sender := request.sender.getD 0
  sourceHash := parts.sourceHash
  kind := request.kind.getD .create
  mint := parts.mint.getD 0
  value := request.value.getD 0
  gasLimit := request.gas.getD 0
  isSystemTransaction := parts.isSystemTransaction
  input := request.input.bytes.getD []

/-- The Ethereum branches: blob transactions without blobs have a builder of
their own. -/
def buildEthereum (request : TransactionRequest) :
    Except FoundryTransactionRequest (FoundryTypedTx P) :=
  if request.hasEip4844Fields && request.sidecar.isNone then
    match request.build4844WithoutSidecar with
    | some tx => .ok (.eip4844 (.plain tx))
    | none => .error (.ethereum request)
  else
    match request.buildTypedTx with
    | some (.legacy tx) => .ok (.legacy tx)
    | some (.eip2930 tx) => .ok (.eip2930 tx)
    | some (.eip1559 tx) => .ok (.eip1559 tx)
    | some (.eip4844 tx) => .ok (.eip4844 tx)
    | some (.eip7702 tx) => .ok (.eip7702 tx)
    | none => .error (.ethereum request)

def buildTypedTx (request : FoundryTransactionRequest) :
    Option (Except FoundryTransactionRequest (FoundryTypedTx P)) := do
  match ← request.depositTxParts with
  | .ok parts => return .ok (.deposit (depositTx request.intoInner parts))
  | .error _ =>
    match request.completeTempo libraries, request with
    | .ok (), .tempo txReq =>
      match libraries.tempoBuildAa txReq with
      | .ok tx => return .ok (.tempo tx)
      | .error unbuilt => return .error (.tempo unbuilt)
    | _, _ => return buildEthereum request.intoInner

/-- Why a request is not built. -/
inductive BuildError where
  | invalidTransactionRequest (txType : FoundryTxType) (missing : List String)
      (unbuilt : FoundryTransactionRequest)

/-- The outer option is a panic. -/
def buildUnsigned (request : FoundryTransactionRequest) :
    Option (Except BuildError (FoundryTypedTx P)) := do
  match ← request.missingKeys libraries with
  | .error (txType, missing) => return .error (.invalidTransactionRequest txType missing request)
  | .ok _ =>
    match ← request.buildTypedTx libraries with
    | .ok tx => return .ok tx
    -- `expect("checked by missing_keys")`
    | .error _ => none

def ofWithOtherFields (tx : WithOtherFields) : Option FoundryTransactionRequest := do
  if tx.inner.transactionType = some tempoTxTypeId ∨ (tx.other.lookup "feeToken").isSome ∨
      (tx.other.lookup "nonceKey").isSome then
    return .tempo {
      inner := tx.inner
      feeToken := (tx.other.lookup "feeToken").bind deserializeAddress
      nonceKey := (tx.other.lookup "nonceKey").bind deserializeU256 }
  else if tx.inner.transactionType = some depositTxTypeId ∨
      tx.inner.transactionType = some postExecTxTypeId then
    return .op tx
  else
    match ← getDepositTxParts tx.other with
    | .ok _ => return .op tx
    | .error _ => return .ethereum tx.inner

/-- The further fields of a deposit, all written as strings. -/
def depositFields (tx : TxDeposit) : OtherFields :=
  [("sourceHash", .string (B256.toChars tx.sourceHash)),
    ("mint", .string (Nat.toDigits 10 tx.mint.toNat)),
    ("isSystemTx", .string (toString tx.isSystemTransaction).toList)]

def tempoFields (tx : TxTempo) : OtherFields :=
  (tx.feeToken.toList.map fun token => ("feeToken", .string ('0' :: 'x' ::
    Hex.encode (addressBytes token)))) ++
    [("nonceKey", .string ('0' :: 'x' :: Nat.toDigits 16 tx.nonceKey.toNat))]

def tempoInner (tx : TxTempo) : TransactionRequest where
  chainId := some tx.chainId
  nonce := some tx.nonce
  gas := some tx.gasLimit
  maxFeePerGas := some tx.maxFeePerGas
  maxPriorityFeePerGas := some tx.maxPriorityFeePerGas
  kind := some ((tx.calls.head?.map TempoCall.kind).getD .create)
  value := some ((tx.calls.head?.map TempoCall.value).getD 0)
  input := { input := some ((tx.calls.head?.map TempoCall.input).getD []) }
  accessList := some tx.accessList
  transactionType := some tempoTxTypeId

def ofTypedTx : FoundryTypedTx P → Option FoundryTransactionRequest
  | .legacy tx => some (.ethereum tx.toRequest)
  | .eip2930 tx => some (.ethereum tx.toRequest)
  | .eip1559 tx => some (.ethereum tx.toRequest)
  | .eip4844 tx => some (.ethereum tx.toRequest)
  | .eip7702 tx => some (.ethereum tx.toRequest)
  | .deposit tx => ofWithOtherFields
      ⟨tx.toRequest libraries.depositType, depositFields tx⟩
  | .postExec tx => ofWithOtherFields ⟨libraries.postExecRequest tx, []⟩
  | .tempo tx => ofWithOtherFields ⟨tempoInner tx, tempoFields tx⟩

end FoundryTransactionRequest

end SwissledgerFoundry.Transaction
