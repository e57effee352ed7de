import SwissledgerFoundry.Cast.ParseInt
import SwissledgerFoundry.Transaction.Request

/-!
# From a typed transaction to a request and back

Every Ethereum transaction is built again from its request.  A deposit is not:
its flag is written as a string and read as a boolean.  An amount of more than
128 bits cannot be read at all.
-/

namespace SwissledgerFoundry.Transaction

open Nat

theorem deserializeB256_toChars {word : B256} :
    deserializeB256 (.string (B256.toChars word)) = some word := by
  have bound : word.toNat < 256 ^ 32 := word.isLt
  have bytes : Hex.decode (B256.toChars word) = some (leBytes 32 word.toNat).reverse :=
    Hex.decode_prefixed_encode _
  have length : (leBytes 32 word.toNat).reverse.length = 32 := by
    rw [List.length_reverse, leBytes_length]
  simp only [deserializeB256, deserializeFixed, bytes, bind, Option.bind]
  rw [if_pos length, beValue_leBytes bound]
  simp

theorem fromStr_toDigits {number : ℕ} : U256.fromStr (toDigits 10 number) =
      Cast.U256.fromStrRadix (toDigits 10 number) 10 := by
  have digits : ∀ char ∈ toDigits 10 number, char.isDigit = true :=
    fun char member => isDigit_of_mem_toDigits (by decide) (by decide) member
  generalize toDigits 10 number = chars at digits
  unfold U256.fromStr
  split
  case h_7 => rfl
  all_goals
    have letter := digits _ (List.mem_cons_of_mem _ List.mem_cons_self)
    exact absurd letter (by decide)

theorem deserializeU256_toDigits {number : ℕ} (bound : number < 2 ^ 256) :
    deserializeU256 (.string (toDigits 10 number)) = some (BitVec.ofNat 256 number) := by
  have valid : Radix.Valid Cast.Base.decimal.radix (toDigits 10 number) :=
    Radix.valid_toDigits (by decide) (by decide) number
  have value : Radix.value Cast.Base.decimal.radix (toDigits 10 number) =
      number :=
    Radix.value_toDigits (by decide) (by decide) number
  have parsed := Cast.U256.fromStrRadix_valid valid
  rw [value, if_pos bound] at parsed
  rw [deserializeU256, fromStr_toDigits]
  exact congrArg Except.toOption parsed

section Deposits

variable (tx : TxDeposit) {flag : Json.Value}

def fieldsWithFlag (tx : TxDeposit) (flag : Json.Value) : OtherFields :=
  [("sourceHash", .string (B256.toChars tx.sourceHash)),
    ("mint", .string (toDigits 10 tx.mint.toNat)),
    ("isSystemTx", flag)]

theorem mint_fits : (BitVec.ofNat 256 tx.mint.toNat).toNat = tx.mint.toNat := by
  exact mod_eq_of_lt (by omega)

/-- The hash and the amount are read, whatever the flag.  A flag that is no
boolean is missing. -/
theorem getDepositTxParts_fieldsWithFlag : getDepositTxParts (fieldsWithFlag tx flag) =
      some ((deserializeBool flag).elim (.error ["isSystemTx"]) fun isSystemTransaction =>
          .ok ⟨tx.sourceHash, some tx.mint, isSystemTransaction⟩) := by
  have bound : tx.mint.toNat < 2 ^ 128 := tx.mint.isLt
  have source : (fieldsWithFlag tx flag).lookup "sourceHash" =
      some (.string (B256.toChars tx.sourceHash)) := rfl
  have mint : (fieldsWithFlag tx flag).lookup "mint" =
      some (.string (toDigits 10 tx.mint.toNat)) := rfl
  have system : (fieldsWithFlag tx flag).lookup "isSystemTx" = some flag := rfl
  have mint_read := deserializeU256_toDigits (show tx.mint.toNat < 2 ^ 256 by omega)
  simp only [getDepositTxParts, source, mint, system, Option.bind_some,
    Option.map_some, deserializeB256_toChars, mint_read, Option.join_some,
    Option.any_some, mint_fits, decide_eq_true_eq,
    if_neg (not_le.mpr bound)]
  cases deserializeBool flag <;> simp

namespace FoundryTransactionRequest

variable {P : Type} (libraries : Libraries P)

theorem buildUnsigned_op_missing {missing : List String} {request : WithOtherFields}
    (deposit : request.inner.transactionType ≠ some postExecTxTypeId)
    (unread : getDepositTxParts request.other = some (.error missing)) :
    buildUnsigned libraries (.op request) = some (.error
      (.invalidTransactionRequest .deposit missing (.op request))) := by
  simp [buildUnsigned, missingKeys, preferredType, deposit,
    completeDeposit, depositTxParts, unread, Except.map]

/-- The request of a deposit with a given flag is one of the OP stack if its
type is set. -/
theorem ofWithOtherFields_typed (flag : Json.Value) :
    ofWithOtherFields ⟨tx.toRequest (some depositTxTypeId), fieldsWithFlag tx flag⟩ =
      some (.op ⟨tx.toRequest (some depositTxTypeId), fieldsWithFlag tx flag⟩) :=
  rfl

/-- Without a type it depends on the parts that can be read. -/
theorem ofWithOtherFields_untyped (flag : Json.Value) :
    ofWithOtherFields ⟨tx.toRequest none, fieldsWithFlag tx flag⟩ =
      some (if (deserializeBool flag).isSome then
        .op ⟨tx.toRequest none, fieldsWithFlag tx flag⟩
      else .ethereum (tx.toRequest none)) := by
  have noType : ¬ ((tx.toRequest none).transactionType = some depositTxTypeId ∨
      (tx.toRequest none).transactionType = some postExecTxTypeId) := by
    rintro (type | type) <;> cases type
  rw [ofWithOtherFields, getDepositTxParts_fieldsWithFlag]
  cases deserializeBool flag <;> rfl

theorem toRequest_not_postExec {depositType : Option UInt8}
    (known : depositType = none ∨ depositType = some depositTxTypeId) :
    (tx.toRequest depositType).transactionType ≠ some postExecTxTypeId := by
  change depositType ≠ some postExecTxTypeId
  obtain rfl | rfl := known
  · decide
  · decide

theorem buildUnsigned_deposit : ∃ error, (ofTypedTx libraries (.deposit tx)).bind
      (buildUnsigned libraries) = some (.error error) := by
  have fields : depositFields tx = fieldsWithFlag tx
      (.string (toString tx.isSystemTransaction).toList) := rfl
  rw [ofTypedTx, fields]
  obtain untyped | typed := libraries.depositType_eq
  · rw [untyped, ofWithOtherFields_untyped]
    exact ⟨_, rfl⟩
  rw [typed, ofWithOtherFields_typed, Option.bind_some,
    buildUnsigned_op_missing libraries (toRequest_not_postExec tx (.inr rfl))
      (getDepositTxParts_fieldsWithFlag tx)]
  exact ⟨_, rfl⟩

end FoundryTransactionRequest

end Deposits

/-- The transactions that survive: those of Ethereum, without blobs. -/
def FoundryTypedTx.IsEthereum {P : Type} : FoundryTypedTx P → Prop
  | .legacy _ => True
  | .eip2930 _ => True
  | .eip1559 _ => True
  | .eip4844 (.plain _) => True
  | .eip7702 _ => True
  | _ => False

namespace FoundryTransactionRequest

/-- Every Ethereum transaction is built again from its request. -/
theorem buildUnsigned_ofTypedTx {P : Type} (libraries : Libraries P)
    (tx : FoundryTypedTx P) (ethereum : tx.IsEthereum) :
    (ofTypedTx libraries tx).bind (buildUnsigned libraries) = some (.ok tx) := by
  cases tx with
  | legacy tx => rfl
  | eip2930 tx => rfl
  | eip1559 tx => rfl
  | eip4844 tx =>
    cases tx with
    | plain tx => rfl
    | withSidecar tx sidecar => exact absurd ethereum id
  | eip7702 tx => rfl
  | _ => exact absurd ethereum id

/-- Libraries that set the type and build nothing else. -/
def typedLibraries : Libraries Unit where
  postExecRequest _ := { transactionType := some postExecTxTypeId }
  depositType := some depositTxTypeId
  depositType_eq := .inr rfl
  tempoComplete _ := .error ["calls"]
  tempoBuildAa request := .error request

def creation : TxLegacy where
  chainId := none
  nonce := 0
  gasPrice := 0
  gasLimit := 21000
  kind := .create
  value := 0
  input := [0xfe]

theorem buildUnsigned_ofTypedTx_creation :
    (FoundryTypedTx.legacy creation : FoundryTypedTx Unit).IsEthereum ∧
      (ofTypedTx typedLibraries (.legacy creation)).bind
        (buildUnsigned typedLibraries) = some (.ok (.legacy creation)) :=
  ⟨trivial, buildUnsigned_ofTypedTx typedLibraries (.legacy creation) trivial⟩

def emptyDeposit : TxDeposit where
  sourceHash := 0
  sender := 0
  kind := .create
  mint := 0
  value := 0
  gasLimit := 0
  isSystemTransaction := false
  input := []

/-- No deposit is built again, whatever the libraries do; of the empty one the
flag is reported as missing. -/
theorem deposit_not_built : (∀ (P : Type) (libraries : Libraries P) (tx : TxDeposit),
      (ofTypedTx libraries (.deposit tx)).bind (buildUnsigned libraries) ≠
        some (.ok (.deposit tx))) ∧
      (ofTypedTx typedLibraries (.deposit emptyDeposit)).bind (buildUnsigned typedLibraries) =
        some (.error (.invalidTransactionRequest .deposit ["isSystemTx"]
          (.op ⟨emptyDeposit.toRequest (some depositTxTypeId), depositFields emptyDeposit⟩))) := by
  constructor
  · intro P libraries tx built
    obtain ⟨error, failed⟩ := buildUnsigned_deposit tx libraries
    simp [failed] at built
  · exact buildUnsigned_op_missing typedLibraries (by decide)
      (getDepositTxParts_fieldsWithFlag emptyDeposit)

end FoundryTransactionRequest

section Parts

variable (other : OtherFields)

/-- The fields that are not there or not of their kind. -/
def unreadable : List String :=
  [("sourceHash", ((other.lookup "sourceHash").bind deserializeB256).isNone),
    ("mint", ((other.lookup "mint").bind deserializeU256).isNone),
    ("isSystemTx", ((other.lookup "isSystemTx").bind deserializeBool).isNone)].filterMap
      fun (field, missing) => if missing then some field else none

/-- The parts have the values of the fields. -/
structure DepositTransactionParts.ReadFrom (parts : DepositTransactionParts) : Prop where
  sourceHash : (other.lookup "sourceHash").bind deserializeB256 = some parts.sourceHash
  mint : (other.lookup "mint").bind deserializeU256 = parts.mint.map (·.setWidth 256)
  isSystemTx : (other.lookup "isSystemTx").bind deserializeBool = some parts.isSystemTransaction

/-- The unreadable fields are reported; without any, all are read. -/
def ReadExactly : Prop :=
  unreadable other ≠ [] ∧ getDepositTxParts other = some (.error (unreadable other)) ∨
    unreadable other = [] ∧ ∃ parts, getDepositTxParts other = some (.ok parts) ∧
      parts.ReadFrom other

/-- The amount is given and, if it can be read, has at most 128 bits. -/
def MintFits : Prop :=
  ∃ value, other.lookup "mint" = some value ∧
    ∀ amount, deserializeU256 value = some amount → amount.toNat < 2 ^ 128

end Parts

theorem readExactly_of_fits {value : Json.Value} {other : OtherFields}
    (given : other.lookup "mint" = some value)
    (fits : ∀ amount, deserializeU256 value = some amount → amount.toNat < 2 ^ 128) :
    ReadExactly other := by
  have noPanic : ¬ (deserializeU256 value).any (fun amount => 2 ^ 128 ≤ amount.toNat) := by
    cases read : deserializeU256 value with
    | none => simp
    | some amount => simpa using fits amount read
  simp only [ReadExactly, unreadable, getDepositTxParts, given, Option.bind_some,
    Option.map_some, Option.join_some, if_neg noPanic]
  cases source : (other.lookup "sourceHash").bind deserializeB256
  case some hash =>
    cases mint : deserializeU256 value
    case some amount =>
      cases system : (other.lookup "isSystemTx").bind deserializeBool
      case some flag =>
        have small := fits amount mint
        have kept : (BitVec.ofNat 128 amount.toNat).setWidth 256 = amount :=
          BitVec.eq_of_toNat_eq (by simp; omega)
        refine .inr ⟨rfl, _, rfl, source, ?_, system⟩
        rw [given, Option.bind_some, mint]
        exact congrArg some kept.symm
      case none => simp
    case none => cases (other.lookup "isSystemTx").bind deserializeBool <;> simp
  case none =>
    cases deserializeU256 value <;> cases (other.lookup "isSystemTx").bind deserializeBool <;> simp

/-- A missing amount is never reported, and one of more bits panics. -/
theorem mintFits_of_readExactly {other : OtherFields} (read : ReadExactly other) :
    MintFits other := by
  cases given : other.lookup "mint" with
  | none =>
    exfalso
    simp only [ReadExactly, unreadable, getDepositTxParts, given, Option.bind_none, Option.map_none,
      Option.join_none] at read
    cases source : (other.lookup "sourceHash").bind deserializeB256 <;>
      cases system : (other.lookup "isSystemTx").bind deserializeBool <;>
      simp [source, system] at read
  | some value =>
    refine ⟨value, given, ?_⟩
    intro amount found
    by_contra large
    have panics : getDepositTxParts other = none := by
      simp only [getDepositTxParts, given, found, Option.map_some, Option.join_some,
        Option.any_some, decide_eq_true (not_lt.mp large), if_true]
    obtain ⟨_, reported⟩ | ⟨_, parts, built, _⟩ := read
    · cases panics.symm.trans reported
    · cases panics.symm.trans built

theorem readExactly_iff (other : OtherFields) : ReadExactly other ↔ MintFits other := by
  constructor
  · exact mintFits_of_readExactly
  · rintro ⟨value, given, fits⟩
    exact readExactly_of_fits given fits

namespace FoundryTransactionRequest

/-- The type of the request sends it to the OP stack whatever its fields are. -/
def TypedOp (request : WithOtherFields) : Prop :=
  (request.inner.transactionType = some depositTxTypeId ∨
      request.inner.transactionType = some postExecTxTypeId) ∧
    request.other.lookup "feeToken" = none ∧ request.other.lookup "nonceKey" = none

theorem ofWithOtherFields_of_typedOp {request : WithOtherFields} (typed : TypedOp request) :
    ofWithOtherFields request = some (.op request) := by
  obtain ⟨type, noToken, noKey⟩ := typed
  have noTempo : request.inner.transactionType ≠ some tempoTxTypeId := by
    rcases type with type | type <;> rw [type] <;> decide
  simp [ofWithOtherFields, noTempo, noToken, noKey, type]

theorem parts_of_ofWithOtherFields {request tx : WithOtherFields} (untyped : ¬ TypedOp request)
    (routed : ofWithOtherFields request = some (.op tx)) :
    ∃ parts, getDepositTxParts request.other = some (.ok parts) := by
  simp only [TypedOp, not_and, Option.isNone_iff_eq_none.symm] at untyped
  unfold ofWithOtherFields at routed
  split at routed
  · cases routed
  rename_i noTempo
  push Not at noTempo
  split at routed
  · rename_i typed
    simp_all
  cases built : getDepositTxParts request.other with
  | none => simp [built] at routed
  | some parts =>
    cases parts with
    | ok parts => exact ⟨parts, rfl⟩
    | error missing => simp [built] at routed

end FoundryTransactionRequest

end SwissledgerFoundry.Transaction
