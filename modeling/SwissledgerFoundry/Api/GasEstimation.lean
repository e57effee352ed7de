import Mathlib.Data.List.Infix
import SwissledgerFoundry.Collections.Loop
import SwissledgerFoundry.Primitives

/-!
# Estimating the gas of a request

`eth_estimateGas` executes the request with the highest gas limit and bisects
below it.  The first midpoint is a guess from the gas used; it can lie below the
lower end, which is then moved down.
-/

namespace SwissledgerFoundry.Api

open UInt64

inductive TxKind where
  | create
  | call (callee : Address)
deriving DecidableEq

/-- How the execution of a request ended. -/
inductive InstructionResult where
  | stop
  | ret
  | selfDestruct
  | revert
  | callTooDeep
  | outOfFunds
  | createInitCodeStartingEF00
  | invalidEOFInitCode
  | invalidExtDelegateCallTarget
  | outOfGas
  | memoryOOG
  | memoryLimitOOG
  | precompileOOG
  | invalidOperandOOG
  | reentrancySentryOOG
  | opcodeNotFound
  | callNotAllowedInsideStatic
  | stateChangeDuringStaticCall
  | invalidFEOpcode
  | invalidJump
  | notActivated
  | stackUnderflow
  | stackOverflow
  | outOfOffset
  | createCollision
  | overflowPayment
  | precompileError
  | nonceOverflow
  | createContractSizeLimit
  | createContractStartingWithEF
  | createInitCodeSizeLimit
  | invalidImmediateEncoding
  | fatalExternalError
deriving DecidableEq

inductive InvalidTransactionError where
  | gasTooHigh
  | insufficientFunds
  | basicOutOfGas (gasLimit : ℕ)
  | revert (output : Option Bytes)
  | other (description : String)
deriving DecidableEq

inductive BlockchainError where
  | invalidTransaction (error : InvalidTransactionError)
  | message (text : String)
  | evmError (exit : InstructionResult)
  | invalidFeeInput
  | other (description : String)
deriving DecidableEq

/-- What `call_with_state` returns, without the state: exit reason, output and
gas used. -/
abbrev CallOutcome := Except BlockchainError (InstructionResult × Option Bytes × UInt64)

inductive GasEstimationCallResult where
  | success (gas : UInt64)
  | outOfGas
  | revert (output : Option Bytes)
  | evmError (exit : InstructionResult)
deriving DecidableEq

def intrinsicGasText : List Char := "insufficient gas for intrinsic cost".toList

def GasEstimationCallResult.tryFrom : CallOutcome → Except BlockchainError GasEstimationCallResult
  | .error (.invalidTransaction .gasTooHigh) => .ok .outOfGas
  | .error (.message text) =>
    if intrinsicGasText <:+: text.toList then .ok .outOfGas
    else .error (.message text)
  | .error error => .error error
  | .ok (exit, output, gas) =>
    match exit with
    | .stop | .ret | .selfDestruct => .ok (.success gas)
    | .revert => .ok (.revert output)
    | .outOfGas | .memoryOOG | .memoryLimitOOG | .precompileOOG
    | .invalidOperandOOG | .reentrancySentryOOG => .ok .outOfGas
    | exit => .ok (.evmError exit)

structure FeeDetails where
  gasPrice : Option ℕ
  maxFeePerGas : Option ℕ
  maxPriorityFeePerGas : Option ℕ
  maxFeePerBlobGas : Option ℕ

namespace FeeDetails

def new : Option ℕ → Option ℕ → Option ℕ → Option ℕ → Except BlockchainError FeeDetails
  | gasPrice, none, none, none =>
    .ok { gasPrice := gasPrice
          maxFeePerGas := gasPrice
          maxPriorityFeePerGas := gasPrice
          maxFeePerBlobGas := none }
  | _, maxFee, maxPriority, maxFeePerBlobGas =>
    if maxPriority.any (maxFee.getD 0 < ·) then .error .invalidFeeInput
    else
      .ok { gasPrice := maxFee
            maxFeePerGas := maxFee
            maxPriorityFeePerGas := maxPriority
            maxFeePerBlobGas := maxFeePerBlobGas }

def orZeroFees (fees : FeeDetails) : FeeDetails :=
  if fees.gasPrice = none ∧ fees.maxFeePerGas = none then
    { gasPrice := some 0
      maxFeePerGas := some 0
      maxPriorityFeePerGas := fees.maxPriorityFeePerGas
      maxFeePerBlobGas := none }
  else fees

end FeeDetails

/-- The request, as far as the estimation reads it. -/
structure TransactionRequest where
  «from» : Option Address
  kind : Option TxKind
  input : Option Bytes
  value : Option U256
  gas : Option UInt64
  gasPrice : Option ℕ
  maxFeePerGas : Option ℕ
  maxPriorityFeePerGas : Option ℕ
  maxFeePerBlobGas : Option ℕ
  /-- The number of authorizations. -/
  authorizationList : Option ℕ
  hasAccessList : Bool
  hasBlobVersionedHashes : Bool
  /-- A fee token is given and not null. -/
  feeToken : Bool

/-- The backend with the state the request is executed on. -/
structure Backend where
  isTempo : Bool
  getCode : Address → Except BlockchainError Bytes
  getBalance : Address → Except BlockchainError U256
  callWithState : TransactionRequest → FeeDetails → CallOutcome

def minTransactionGas : ℕ := 21000

def minCreateGas : ℕ := 53000

def perEmptyAccountCost : ℕ := 25000

def determineBaseGasByKind (request : TransactionRequest) : ℕ :=
  match request.kind with
  | some (.call _) => minTransactionGas + (request.authorizationList.getD 0) * perEmptyAccountCost
  | some .create => minCreateGas
  | none => minCreateGas

section

variable (backend : Backend) (request : TransactionRequest)

/-- The request is a transfer to an account without code. -/
def isTransfer : Bool :=
  !backend.isTempo && request.input.all List.isEmpty &&
    request.authorizationList.isNone && !request.hasAccessList &&
    !request.hasBlobVersionedHashes &&
    match request.kind with
    | some (.call callee) =>
      match backend.getCode callee with
      | .ok code => code.isEmpty
      | .error _ => false
    | _ => false

/-- The gas limit of the request or of the block, or what the sender can
pay. -/
def highestGasLimit (fees : FeeDetails) (blockGasLimit : UInt64) : Except BlockchainError ℕ :=
  let highest := (request.gas.getD blockGasLimit).toNat
  let gasPrice := fees.gasPrice.getD 0
  match request.from with
  | none => .ok highest
  | some sender =>
    if 0 < gasPrice ∧ request.feeToken = false then do
      let balance ← backend.getBalance sender
      let value := (request.value.getD 0).toNat
      if balance.toNat < value then
        .error (.invalidTransaction .insufficientFunds)
      else
        let allowance := (balance.toNat - value) / gasPrice
        .ok (min highest (min allowance (2 ^ 128 - 1)))
    else .ok highest

end

/-- A subtraction below zero, or an error of the node. -/
inductive EstimateFailure where
  | underflow
  | blockchain (error : BlockchainError)
deriving DecidableEq

structure GasSearch where
  lowest : ℕ
  highest : ℕ
  mid : ℕ

namespace GasSearch

def step (outcome : UInt64 → Except BlockchainError GasEstimationCallResult)
    (search : GasSearch) : GasSearch ⊕ Except EstimateFailure ℕ :=
  if search.highest < search.lowest then .inr (.error .underflow)
  else if 1 < search.highest - search.lowest then
    match outcome (ofNat search.mid) with
    | .error error => .inr (.error (.blockchain error))
    | .ok (.success _) =>
      .inl { lowest := search.lowest
             highest := search.mid
             mid := (search.mid + search.lowest) / 2 }
    | .ok _ =>
      .inl { lowest := search.mid
             highest := search.highest
             mid := (search.highest + search.mid) / 2 }
  else .inr (.ok search.highest)

def start (lowest highest : ℕ) (gasUsed : UInt64) : GasSearch where
  lowest := lowest
  highest := highest
  mid := min (gasUsed.toNat * 3) ((highest + lowest) / 2)

end GasSearch

section

variable (backend : Backend) (request : TransactionRequest)

def outcome (fees : FeeDetails) (gas : UInt64) : Except BlockchainError GasEstimationCallResult :=
  GasEstimationCallResult.tryFrom (backend.callWithState { request with gas := some gas } fees)

/-- The execution with the highest limit and the search below it. -/
def searchGas (fees : FeeDetails) (highest fuel : ℕ) : Option (Except EstimateFailure ℕ) :=
  let failed error := some (.error (.blockchain error))
  match outcome backend request fees (ofNat highest) with
  | .error error => failed error
  | .ok .outOfGas => failed (.invalidTransaction (.basicOutOfGas highest))
  | .ok (.revert output) => failed (.invalidTransaction (.revert output))
  | .ok (.evmError exit) => failed (.evmError exit)
  | .ok (.success gasUsed) =>
    Loop.run (GasSearch.step (outcome backend request fees)) fuel
      (.start (determineBaseGasByKind request) highest gasUsed)

/-- The number of rounds is the fuel. -/
def doEstimateGasWithState (blockGasLimit : UInt64) (fuel : ℕ) :
    Option (Except EstimateFailure ℕ) :=
  if isTransfer backend request then some (.ok minTransactionGas)
  else
    match FeeDetails.new request.gasPrice request.maxFeePerGas
        request.maxPriorityFeePerGas request.maxFeePerBlobGas with
    | .error error => some (.error (.blockchain error))
    | .ok details =>
      let fees := details.orZeroFees
      match highestGasLimit backend request fees blockGasLimit with
      | .error error => some (.error (.blockchain error))
      | .ok highest => searchGas backend request fees highest fuel

end

/-- Limits below the threshold run out of gas, all others are enough. -/
structure Threshold (outcome : UInt64 → Except BlockchainError GasEstimationCallResult)
    (threshold : ℕ) : Prop where
  fails : ∀ gas : UInt64, gas.toNat < threshold → outcome gas = .ok .outOfGas
  succeeds : ∀ gas : UInt64, threshold ≤ gas.toNat → ∃ used, outcome gas = .ok (.success used)

/-- The limit is enough, and one less is not, except at one more than the
base gas. -/
def Smallest (outcome : UInt64 → Except BlockchainError GasEstimationCallResult)
    (base : ℕ) (limit : UInt64) : Prop :=
  (∃ used, outcome limit = .ok (.success used)) ∧
    (limit.toNat ≠ base + 1 → outcome (limit - 1) = .ok .outOfGas)

section Search

variable
  {outcome : UInt64 → Except BlockchainError GasEstimationCallResult}
  {threshold base : ℕ}

theorem Threshold.smallest {limit : ℕ} (bound : Threshold outcome threshold)
    (small : limit < 2 ^ 64) (enough : threshold ≤ limit)
    (positive : 0 < limit)
    (tight : limit ≠ base + 1 → limit - 1 < threshold) :
    Smallest outcome base (ofNat limit) := by
  have value := toNat_ofNat_of_lt' small
  constructor
  · apply bound.succeeds
    rw [value]
    exact enough
  intro apart
  rw [value] at apart
  apply bound.fails
  have least : (1 : UInt64) ≤ ofNat limit := by
    rw [le_iff_toNat_le, value]
    exact positive
  rw [UInt64.toNat_sub_of_le _ _ least, value]
  exact tight apart

namespace GasSearch

/-- The upper end is enough, and the lower end is the base gas or not
enough. -/
structure Bracketed (threshold base : ℕ) (search : GasSearch) : Prop where
  fits : search.highest < 2 ^ 64
  enough : threshold ≤ search.highest
  lower : search.lowest = base ∨ search.lowest < threshold
  midway : search.mid ≤ (search.highest + search.lowest) / 2

/-- Bounds the rounds that are left.  A midpoint that is not above the lower
end, as the first one may be, can widen the bracket. -/
def remaining (search : GasSearch) : ℕ :=
  if search.highest - search.lowest ≤ 1 then 0
  else if search.lowest < search.mid then search.highest - search.lowest
  else search.highest + 1

variable {search : GasSearch}

theorem remaining_le (search : GasSearch) : search.remaining ≤ search.highest + 1 := by
  unfold remaining
  split
  · omega
  split
  · omega
  · exact le_rfl

/-- The request succeeded with the upper end. -/
def Tried (outcome : UInt64 → Except BlockchainError GasEstimationCallResult)
    (search : GasSearch) : Prop :=
  (∃ used, outcome (ofNat search.highest) = .ok (.success used)) ∧
    search.mid ≤ (search.highest + search.lowest) / 2

theorem Tried.step (tried : search.Tried outcome) :
    (∀ next, step outcome search = .inl next →
      next.Tried outcome ∧ next.remaining < search.remaining) ∧
    ∀ limit, step outcome search = .inr (.ok limit) →
      ∃ used, outcome (ofNat limit) = .ok (.success used) := by
  obtain ⟨succeeded, midway⟩ := tried
  unfold GasSearch.step
  split
  · exact ⟨nofun, nofun⟩
  split
  · split
    · exact ⟨nofun, nofun⟩
    · rename_i used here
      refine ⟨?_, nofun⟩
      rintro next ⟨⟩
      refine ⟨⟨⟨used, here⟩, le_rfl⟩, ?_⟩
      simp only [remaining]
      split_ifs <;> omega
    · refine ⟨?_, nofun⟩
      rintro next ⟨⟩
      refine ⟨⟨succeeded, le_rfl⟩, ?_⟩
      simp only [remaining]
      split_ifs <;> omega
  · refine ⟨nofun, ?_⟩
    rintro limit ⟨⟩
    exact succeeded

variable (bracketed : search.Bracketed threshold base)

include bracketed

theorem Bracketed.succeeded (aboveBase : base ≤ threshold)
    (apart : 1 < search.highest - search.lowest)
    (sufficient : threshold ≤ search.mid) :
    let next : GasSearch := ⟨search.lowest, search.mid, (search.mid + search.lowest) / 2⟩
    next.Bracketed threshold base ∧ next.remaining < search.remaining := by
  obtain ⟨fits, _, lower, midway⟩ := bracketed
  refine ⟨⟨by dsimp only; omega, sufficient, lower, le_rfl⟩, ?_⟩
  simp only [remaining]
  split_ifs <;> omega

theorem Bracketed.failed (apart : 1 < search.highest - search.lowest)
    (insufficient : search.mid < threshold) :
    let next : GasSearch := ⟨search.mid, search.highest, (search.highest + search.mid) / 2⟩
    next.Bracketed threshold base ∧ next.remaining < search.remaining := by
  obtain ⟨fits, enough, _, midway⟩ := bracketed
  refine ⟨⟨fits, enough, .inr insufficient, le_rfl⟩, ?_⟩
  simp only [remaining]
  split_ifs <;> omega

variable (bound : Threshold outcome threshold)

include bound

/-- The midpoint fits in 64 bits, so its outcome is that of the threshold. -/
theorem Bracketed.outcome_mid (apart : 1 < search.highest - search.lowest) :
    (threshold ≤ search.mid ∧ ∃ used, outcome (ofNat search.mid) = .ok (.success used)) ∨
      (search.mid < threshold ∧ outcome (ofNat search.mid) = .ok .outOfGas) := by
  obtain ⟨fits, _, _, midway⟩ := bracketed
  have small : search.mid < 2 ^ 64 := by omega
  have value := toNat_ofNat_of_lt' small
  by_cases sufficient : threshold ≤ search.mid
  · exact .inl ⟨sufficient, bound.succeeds _ (by rw [value]; exact sufficient)⟩
  · have insufficient : search.mid < threshold := by omega
    exact .inr ⟨insufficient, bound.fails _ (by rw [value]; exact insufficient)⟩

variable (aboveBase : base ≤ threshold)

include aboveBase

theorem Bracketed.step_inl {next : GasSearch} (stepped : step outcome search = .inl next) :
    next.Bracketed threshold base ∧ next.remaining < search.remaining := by
  simp only [step] at stepped
  split at stepped
  · cases stepped
  split at stepped
  · rename_i apart
    rcases bracketed.outcome_mid bound apart with
      ⟨sufficient, used, succeeded⟩ | ⟨insufficient, failed⟩
    · rw [succeeded] at stepped
      cases stepped
      exact bracketed.succeeded aboveBase apart sufficient
    rw [failed] at stepped
    cases stepped
    exact bracketed.failed apart insufficient
  · cases stepped

theorem Bracketed.step_inr {result : Except EstimateFailure ℕ} (positive : 0 < threshold)
    (stepped : step outcome search = .inr result) :
    ∃ limit : UInt64, result = .ok limit.toNat ∧ Smallest outcome base limit := by
  have fits := bracketed.fits
  have enough := bracketed.enough
  have lower := bracketed.lower
  simp only [step] at stepped
  split at stepped
  · omega
  split at stepped
  · rename_i apart
    rcases bracketed.outcome_mid bound apart with ⟨_, used, succeeded⟩ | ⟨_, failed⟩
    · simp [succeeded] at stepped
    · simp [failed] at stepped
  rename_i met
  cases stepped
  refine ⟨ofNat search.highest, ?_, ?_⟩
  · rw [toNat_ofNat_of_lt' fits]
  · exact bound.smallest fits enough (by omega) (by omega)

theorem Bracketed.run {fuel : ℕ} (positive : 0 < threshold) (rounds : search.remaining < fuel) :
    ∃ result, Loop.run (step outcome) fuel search = some result ∧
      ∃ limit : UInt64, result = .ok limit.toNat ∧ Smallest outcome base limit := by
  apply Loop.run_ends (Bracketed threshold base) remaining _ _ bracketed rounds
  · intro search next bracketed stepped
    exact bracketed.step_inl bound aboveBase stepped
  · intro search result bracketed stepped
    exact bracketed.step_inr bound aboveBase positive stepped

end GasSearch

end Search

theorem determineBaseGasByKind_pos (request : TransactionRequest) :
    0 < determineBaseGasByKind request := by
  simp only [determineBaseGasByKind, minTransactionGas, minCreateGas]
  split <;> omega

theorem highestGasLimit_lt {backend : Backend} {request : TransactionRequest} {fees : FeeDetails}
    {blockGasLimit : UInt64} {highest : ℕ}
    (limit : highestGasLimit backend request fees blockGasLimit =
      .ok highest) : highest < 2 ^ 64 := by
  have fits := (request.gas.getD blockGasLimit).toNat_lt
  simp only [highestGasLimit] at limit
  split at limit
  · cases limit
    exact fits
  split at limit
  · rename_i sender _ _
    cases balance : backend.getBalance sender with
    | error error =>
      rw [balance] at limit
      cases limit
    | ok funds =>
      simp only [balance, bind, Except.bind] at limit
      split at limit
      · cases limit
      · cases limit
        omega
  · cases limit
    exact fits

/-- However the outcome depends on the gas, the estimation ends, and it returns
the gas of a transfer or a limit with which the request succeeded. -/
theorem doEstimateGasWithState_succeeded (backend : Backend) (request : TransactionRequest)
    (blockGasLimit : UInt64) :
    ∃ result, doEstimateGasWithState backend request blockGasLimit (2 ^ 64 + 1) = some result ∧
      ∀ limit, result = .ok limit → isTransfer backend request ∧ limit = minTransactionGas ∨
        ∃ details used, FeeDetails.new request.gasPrice request.maxFeePerGas
            request.maxPriorityFeePerGas request.maxFeePerBlobGas = .ok details ∧
          outcome backend request details.orZeroFees (ofNat limit) = .ok (.success used) := by
  unfold doEstimateGasWithState
  split
  · rename_i transfer
    exact ⟨_, rfl, fun limit same => .inl ⟨transfer, (Except.ok.inj same).symm⟩⟩
  split
  · exact ⟨_, rfl, nofun⟩
  dsimp only
  split
  · exact ⟨_, rfl, nofun⟩
  rename_i details paid _ highest limited
  simp only [searchGas]
  split
  iterate 4 exact ⟨_, rfl, nofun⟩
  rename_i gasUsed first
  have fits := highestGasLimit_lt limited
  have most := GasSearch.remaining_le (.start (determineBaseGasByKind request) highest gasUsed)
  refine Loop.run_ends (GasSearch.Tried (outcome backend request details.orZeroFees))
    GasSearch.remaining (fun _ next tried => tried.step.1 next) ?_
    ⟨⟨gasUsed, first⟩, Nat.min_le_right _ _⟩ (by simp only [GasSearch.start] at most ⊢; omega)
  rintro _ _ tried stepped limit rfl
  obtain ⟨used, succeeded⟩ := tried.step.2 limit stepped
  exact .inr ⟨details, used, paid, succeeded⟩

/-- Unless the request is a plain transfer, the search ends, and its result is
the smallest sufficient limit or one more than the base gas. -/
theorem doEstimateGasWithState_smallest {backend : Backend} {blockGasLimit : UInt64}
    {highest threshold fuel : ℕ} {request : TransactionRequest} {details : FeeDetails}
    (searched : isTransfer backend request = false)
    (paid : FeeDetails.new request.gasPrice request.maxFeePerGas
      request.maxPriorityFeePerGas request.maxFeePerBlobGas = .ok details)
    (limited : highestGasLimit backend request details.orZeroFees blockGasLimit = .ok highest)
    (bound : Threshold (outcome backend request details.orZeroFees) threshold)
    (aboveBase : determineBaseGasByKind request ≤ threshold)
    (enough : threshold ≤ highest) (rounds : 2 ^ 64 < fuel) :
    ∃ limit : UInt64,
      doEstimateGasWithState backend request blockGasLimit fuel = some (.ok limit.toNat) ∧
      Smallest (outcome backend request details.orZeroFees)
        (determineBaseGasByKind request) limit := by
  have fits := highestGasLimit_lt limited
  have positive := determineBaseGasByKind_pos request
  obtain ⟨used, succeeded⟩ := bound.succeeds (ofNat highest) (by
    rw [toNat_ofNat_of_lt' fits]
    exact enough)
  have bracketed : GasSearch.Bracketed threshold (determineBaseGasByKind request)
      (.start (determineBaseGasByKind request) highest used) :=
    ⟨fits, enough, .inl rfl, Nat.min_le_right _ _⟩
  have left : GasSearch.remaining
      (.start (determineBaseGasByKind request) highest used) < fuel := by
    have most := GasSearch.remaining_le (.start (determineBaseGasByKind request) highest used)
    simp only [GasSearch.start] at most ⊢
    omega
  obtain ⟨result, found, limit, rfl, smallest⟩ := bracketed.run bound aboveBase (by omega) left
  refine ⟨limit, ?_, smallest⟩
  simp only [doEstimateGasWithState, searched, paid, limited, searchGas,
    succeeded, Bool.false_eq_true, if_false]
  exact found

/-- Execution that takes a given amount of gas and uses half of it. -/
def fixedCost (cost : ℕ) : Backend where
  isTempo := false
  getCode _ := .ok [0x60]
  getBalance _ := .ok 1000000
  callWithState request _ :=
    let gas := request.gas.getD 0
    if gas.toNat < cost then .ok (.outOfGas, none, gas)
    else .ok (.stop, none, ofNat (cost / 2))

def sampleCall : TransactionRequest where
  «from» := some 1
  kind := some (.call 2)
  input := some [1, 2, 3, 4]
  value := some 5
  gas := none
  gasPrice := some 10
  maxFeePerGas := none
  maxPriorityFeePerGas := none
  maxFeePerBlobGas := none
  authorizationList := none
  hasAccessList := false
  hasBlobVersionedHashes := false
  feeToken := false

theorem fixedCost_threshold {cost : ℕ} {request : TransactionRequest} {fees : FeeDetails} :
    Threshold (outcome (fixedCost cost) request fees) cost := by
  constructor
  · intro gas less
    simp [outcome, fixedCost, less, GasEstimationCallResult.tryFrom]
  intro gas more
  have enough : ¬ gas.toNat < cost := by omega
  simp [outcome, fixedCost, enough, GasEstimationCallResult.tryFrom]

/-- The sender can pay for fewer gas than the block has. -/
theorem doEstimateGasWithState_smallest_allowance : ∃ limit : UInt64,
      doEstimateGasWithState (fixedCost 50000) sampleCall 30000000
        (2 ^ 64 + 1) = some (.ok limit.toNat) ∧
      Smallest (outcome (fixedCost 50000) sampleCall
        ⟨some 10, some 10, some 10, none⟩) 21000 limit := by
  have limited : highestGasLimit (fixedCost 50000) sampleCall
      ⟨some 10, some 10, some 10, none⟩ 30000000 = .ok 99999 := rfl
  exact doEstimateGasWithState_smallest (by decide) rfl limited
    (fixedCost_threshold) (by decide) (by decide)
    (by decide)

end SwissledgerFoundry.Api
