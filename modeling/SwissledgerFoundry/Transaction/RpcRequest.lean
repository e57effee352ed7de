import SwissledgerFoundry.Primitives

/-!
# Typed transactions and the request they are built from

A typed transaction becomes a request with the fields it has, and a request is
built into the type that its fields prefer.
-/

namespace SwissledgerFoundry.Transaction

abbrev U128 := BitVec 128

inductive TxKind where
  | create
  | call (address : Address)
deriving DecidableEq

abbrev AccessList := List (Address × List B256)

structure SignedAuthorization where
  chainId : U256
  address : Address
  nonce : UInt64
  yParity : UInt8
  r : U256
  s : U256
deriving DecidableEq

structure BlobSidecar where
  blobs : List Bytes
  commitments : List Bytes
  proofs : List Bytes
deriving DecidableEq

structure TxLegacy where
  chainId : Option UInt64
  nonce : UInt64
  gasPrice : U128
  gasLimit : UInt64
  kind : TxKind
  value : U256
  input : Bytes
deriving DecidableEq

structure TxEip2930 where
  chainId : UInt64
  nonce : UInt64
  gasPrice : U128
  gasLimit : UInt64
  kind : TxKind
  value : U256
  accessList : AccessList
  input : Bytes
deriving DecidableEq

structure TxEip1559 where
  chainId : UInt64
  nonce : UInt64
  gasLimit : UInt64
  maxFeePerGas : U128
  maxPriorityFeePerGas : U128
  kind : TxKind
  value : U256
  accessList : AccessList
  input : Bytes
deriving DecidableEq

structure TxEip4844 where
  chainId : UInt64
  nonce : UInt64
  gasLimit : UInt64
  maxFeePerGas : U128
  maxPriorityFeePerGas : U128
  address : Address
  value : U256
  accessList : AccessList
  blobVersionedHashes : List B256
  maxFeePerBlobGas : U128
  input : Bytes
deriving DecidableEq

structure TxEip7702 where
  chainId : UInt64
  nonce : UInt64
  gasLimit : UInt64
  maxFeePerGas : U128
  maxPriorityFeePerGas : U128
  address : Address
  value : U256
  accessList : AccessList
  authorizationList : List SignedAuthorization
  input : Bytes
deriving DecidableEq

/-- A blob transaction, with the blobs or without them. -/
inductive TxEip4844Variant where
  | plain (tx : TxEip4844)
  | withSidecar (tx : TxEip4844) (sidecar : BlobSidecar)
deriving DecidableEq

inductive EthereumTypedTransaction where
  | legacy (tx : TxLegacy)
  | eip2930 (tx : TxEip2930)
  | eip1559 (tx : TxEip1559)
  | eip4844 (tx : TxEip4844Variant)
  | eip7702 (tx : TxEip7702)
deriving DecidableEq

inductive TxType where
  | legacy
  | eip2930
  | eip1559
  | eip4844
  | eip7702
deriving DecidableEq

def legacyTxTypeId : UInt8 := 0
def eip2930TxTypeId : UInt8 := 1
def eip1559TxTypeId : UInt8 := 2
def eip4844TxTypeId : UInt8 := 3
def eip7702TxTypeId : UInt8 := 4
def tempoTxTypeId : UInt8 := 0x76
def postExecTxTypeId : UInt8 := 0x7d
def depositTxTypeId : UInt8 := 0x7e

structure TransactionInput where
  input : Option Bytes := none
  data : Option Bytes := none
deriving DecidableEq

/-- The field `input` is preferred to its older name. -/
def TransactionInput.bytes (input : TransactionInput) : Option Bytes := input.input.or input.data

structure TransactionRequest where
  sender : Option Address := none
  kind : Option TxKind := none
  gasPrice : Option U128 := none
  maxFeePerGas : Option U128 := none
  maxPriorityFeePerGas : Option U128 := none
  maxFeePerBlobGas : Option U128 := none
  gas : Option UInt64 := none
  value : Option U256 := none
  input : TransactionInput := {}
  nonce : Option UInt64 := none
  chainId : Option UInt64 := none
  accessList : Option AccessList := none
  transactionType : Option UInt8 := none
  blobVersionedHashes : Option (List B256) := none
  sidecar : Option BlobSidecar := none
  authorizationList : Option (List SignedAuthorization) := none
deriving DecidableEq

def TxLegacy.toRequest (tx : TxLegacy) : TransactionRequest where
  chainId := tx.chainId
  nonce := some tx.nonce
  gasPrice := some tx.gasPrice
  gas := some tx.gasLimit
  kind := some tx.kind
  value := some tx.value
  input := { input := some tx.input }
  transactionType := some legacyTxTypeId

def TxEip2930.toRequest (tx : TxEip2930) : TransactionRequest where
  chainId := some tx.chainId
  nonce := some tx.nonce
  gasPrice := some tx.gasPrice
  gas := some tx.gasLimit
  kind := some tx.kind
  value := some tx.value
  accessList := some tx.accessList
  input := { input := some tx.input }
  transactionType := some eip2930TxTypeId

def TxEip1559.toRequest (tx : TxEip1559) : TransactionRequest where
  chainId := some tx.chainId
  nonce := some tx.nonce
  gas := some tx.gasLimit
  maxFeePerGas := some tx.maxFeePerGas
  maxPriorityFeePerGas := some tx.maxPriorityFeePerGas
  kind := some tx.kind
  value := some tx.value
  accessList := some tx.accessList
  input := { input := some tx.input }
  transactionType := some eip1559TxTypeId

def TxEip4844.toRequest (tx : TxEip4844) : TransactionRequest where
  chainId := some tx.chainId
  nonce := some tx.nonce
  gas := some tx.gasLimit
  maxFeePerGas := some tx.maxFeePerGas
  maxPriorityFeePerGas := some tx.maxPriorityFeePerGas
  kind := some (.call tx.address)
  value := some tx.value
  accessList := some tx.accessList
  blobVersionedHashes := some tx.blobVersionedHashes
  maxFeePerBlobGas := some tx.maxFeePerBlobGas
  input := { input := some tx.input }
  transactionType := some eip4844TxTypeId

def TxEip4844Variant.toRequest : TxEip4844Variant → TransactionRequest
  | .plain tx => tx.toRequest
  | .withSidecar tx sidecar => { tx.toRequest with sidecar := some sidecar }

def TxEip7702.toRequest (tx : TxEip7702) : TransactionRequest where
  chainId := some tx.chainId
  nonce := some tx.nonce
  gas := some tx.gasLimit
  maxFeePerGas := some tx.maxFeePerGas
  maxPriorityFeePerGas := some tx.maxPriorityFeePerGas
  kind := some (.call tx.address)
  value := some tx.value
  accessList := some tx.accessList
  authorizationList := some tx.authorizationList
  input := { input := some tx.input }
  transactionType := some eip7702TxTypeId

namespace TransactionRequest

variable (request : TransactionRequest)

def hasEip4844Fields : Bool :=
  request.sidecar.isSome || request.blobVersionedHashes.isSome || request.maxFeePerBlobGas.isSome

def hasEip1559Fields : Bool := request.maxFeePerGas.isSome || request.maxPriorityFeePerGas.isSome

def preferredType : TxType :=
  if request.authorizationList.isSome then .eip7702
  else if request.hasEip4844Fields then .eip4844
  else if request.hasEip1559Fields then .eip1559
  else if request.accessList.isSome && request.gasPrice.isSome then .eip2930
  else if request.gasPrice.isSome then .legacy
  else .eip1559

def missingKey {α : Type} (value : Option α) (key : String) : List String :=
  if value.isNone then [key] else []

def baseMissing : List String :=
  missingKey request.nonce "nonce" ++ missingKey request.gas "gas_limit" ++
    missingKey request.kind "to"

def feeMissing : List String :=
  missingKey request.maxFeePerGas "max_fee_per_gas" ++
    missingKey request.maxPriorityFeePerGas "max_priority_fee_per_gas"

def complete (missing : List String) : Except (List String) Unit :=
  if missing.isEmpty then .ok () else .error missing

def completeLegacy : Except (List String) Unit :=
  complete (request.baseMissing ++ missingKey request.gasPrice "gas_price")

def complete2930 : Except (List String) Unit :=
  complete (request.baseMissing ++ missingKey request.gasPrice "gas_price" ++
    missingKey request.accessList "access_list")

def complete1559 : Except (List String) Unit := complete (request.baseMissing ++ request.feeMissing)

def complete4844 : Except (List String) Unit :=
  complete (request.baseMissing ++ request.feeMissing ++ missingKey request.sidecar "sidecar" ++
    missingKey request.maxFeePerBlobGas "max_fee_per_blob_gas")

def complete7702 : Except (List String) Unit :=
  complete (request.baseMissing ++ request.feeMissing ++
    missingKey request.authorizationList "authorization_list")

def buildLegacy : Option TxLegacy := do
  return {
    chainId := request.chainId
    nonce := ← request.nonce
    gasPrice := ← request.gasPrice
    gasLimit := ← request.gas
    kind := ← request.kind
    value := request.value.getD 0
    input := request.input.bytes.getD [] }

def build2930 : Option TxEip2930 := do
  return {
    chainId := request.chainId.getD 1
    nonce := ← request.nonce
    gasPrice := ← request.gasPrice
    gasLimit := ← request.gas
    kind := ← request.kind
    value := request.value.getD 0
    accessList := request.accessList.getD []
    input := request.input.bytes.getD [] }

def build1559 : Option TxEip1559 := do
  return {
    chainId := request.chainId.getD 1
    nonce := ← request.nonce
    gasLimit := ← request.gas
    maxFeePerGas := ← request.maxFeePerGas
    maxPriorityFeePerGas := ← request.maxPriorityFeePerGas
    kind := ← request.kind
    value := request.value.getD 0
    accessList := request.accessList.getD []
    input := request.input.bytes.getD [] }

/-- Blob and delegation transactions call an address. -/
def callee : Option Address :=
  match request.kind with
  | some (.call address) => some address
  | _ => none

def build4844WithoutSidecar : Option TxEip4844 := do
  return {
    chainId := request.chainId.getD 1
    nonce := ← request.nonce
    gasLimit := ← request.gas
    maxFeePerGas := ← request.maxFeePerGas
    maxPriorityFeePerGas := ← request.maxPriorityFeePerGas
    address := ← request.callee
    value := request.value.getD 0
    accessList := request.accessList.getD []
    blobVersionedHashes := ← request.blobVersionedHashes
    maxFeePerBlobGas := ← request.maxFeePerBlobGas
    input := request.input.bytes.getD [] }

def build4844 : Option TxEip4844Variant := do
  let sidecar ← request.sidecar
  return .withSidecar (← request.build4844WithoutSidecar) sidecar

def build7702 : Option TxEip7702 := do
  return {
    chainId := request.chainId.getD 1
    nonce := ← request.nonce
    gasLimit := ← request.gas
    maxFeePerGas := ← request.maxFeePerGas
    maxPriorityFeePerGas := ← request.maxPriorityFeePerGas
    address := ← request.callee
    value := request.value.getD 0
    accessList := request.accessList.getD []
    authorizationList := ← request.authorizationList
    input := request.input.bytes.getD [] }

def buildTypedTx : Option EthereumTypedTransaction :=
  match request.preferredType with
  | .legacy => request.buildLegacy.map .legacy
  | .eip2930 => request.build2930.map .eip2930
  | .eip1559 => request.build1559.map .eip1559
  | .eip4844 => request.build4844.map .eip4844
  | .eip7702 => request.build7702.map .eip7702

end TransactionRequest

end SwissledgerFoundry.Transaction
