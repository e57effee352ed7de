import Mathlib.Data.List.Sort
import SwissledgerFoundry.Collections.IndexSet
import SwissledgerFoundry.Evm.Bytecode
import SwissledgerFoundry.Evm.CacheDb

/-!
# The fuzz dictionary

Values from which the fuzzer draws its inputs.  It starts with values of the
database after the setup, and grows with values that are seen during a run.
-/

namespace SwissledgerFoundry.Fuzz

/-- The types of the values that fill a word, and the names of the others. -/
inductive DynSolType where
  | bool
  | int (size : ℕ)
  | uint (size : ℕ)
  | fixedBytes (size : ℕ)
  | address
  | function
  | other (name : List Char)
deriving DecidableEq, Repr

/-- A decoded value, as far as the dictionary looks at it. -/
structure DynSolValue where
  asType : Option DynSolType
  asWord : Option B256
deriving DecidableEq, Repr

structure FuzzDictionaryConfig where
  includeStorage : Bool
  includePushBytes : Bool
  maxFuzzDictionaryAddresses : ℕ
  maxFuzzDictionaryValues : ℕ
deriving DecidableEq, Repr

def pushByteAnalysisLimit : ℕ := 24 * 1024

section

variable (isCbor : Bytes → Bool) (bytecode : Bytes)

/-- `find_metadata_start`: the last two bytes hold the length of the metadata,
which has to parse. -/
def findMetadataStart : Option ℕ :=
  if bytecode.length < 2 then none
  else
    let rest := bytecode.take (bytecode.length - 2)
    let metadataLen := beValue (bytecode.drop (bytecode.length - 2))
    if metadataLen > rest.length then none
    else if isCbor (rest.drop (rest.length - metadataLen)) then
      some (rest.length - metadataLen)
    else none

def ignoreMetadataHash : Bytes :=
  match findMetadataStart isCbor bytecode with
  | some metadata => bytecode.take metadata
  | none => bytecode

end

def intoWord (address : Address) : B256 := BitVec.ofNat 256 address.toNat

/-- The words of the data of a log, the last one padded with zeros. -/
def dataWordsWithin : ℕ → Bytes → List B256
  | 0, _ => []
  | _ + 1, [] => []
  | fuel + 1, data =>
    let chunk := data.take 32
    let padded := chunk ++ List.replicate (32 - chunk.length) 0
    BitVec.ofNat 256 (beValue padded) :: dataWordsWithin fuel (data.drop 32)

def dataWords (data : Bytes) : List B256 := dataWordsWithin data.length data

def maxPersistentValues : ℕ := 2048

def maxTypedCmpPerBucket : ℕ := 1024

abbrev Samples := HashMap DynSolType (IndexSet B256)

structure FuzzDictionary where
  stateValues : IndexSet B256
  addresses : IndexSet Address
  config : FuzzDictionaryConfig
  dbStateValues : ℕ
  dbAddresses : ℕ
  sampleValues : Samples
  /-- The words of the literals of the source code. -/
  literalValues : Samples
  samplesSeeded : Bool
  persistentValues : IndexSet B256
  misses : ℕ
  hits : ℕ

namespace FuzzDictionary

section

variable (dictionary : FuzzDictionary)

def valuesFull : Bool :=
  dictionary.stateValues.len ≥ dictionary.config.maxFuzzDictionaryValues

/-- `insert_value`. -/
def insertValue (value : B256) : FuzzDictionary × Bool :=
  if dictionary.valuesFull then (dictionary, false)
  else
    let (stateValues, newValue) := dictionary.stateValues.insert value
    if newValue then
      ({ dictionary with stateValues := stateValues, misses := dictionary.misses + 1 }, true)
    else
      ({ dictionary with stateValues := stateValues, hits := dictionary.hits + 1 }, true)

/-- `insert_value_u256`: the value and its neighbours. -/
def insertValueU256 (value : U256) : FuzzDictionary × Bool :=
  let (dictionary, first) := dictionary.insertValue value
  let (dictionary, second) := dictionary.insertValue (value - 1)
  let (dictionary, third) := dictionary.insertValue (value + 1)
  (dictionary, first || second || third)

def insertPersistentValue (value : B256) : FuzzDictionary :=
  if dictionary.persistentValues.len ≥ maxPersistentValues then dictionary
  else
    let (persistentValues, newPersistent) := dictionary.persistentValues.insert value
    let dictionary := { dictionary with persistentValues := persistentValues }
    if newPersistent then
      let (stateValues, newValue) := dictionary.stateValues.insert value
      let dictionary := { dictionary with stateValues := stateValues }
      if newValue then
        { dictionary with dbStateValues := dictionary.dbStateValues + 1 }
      else dictionary
    else dictionary

def revert : FuzzDictionary :=
  { dictionary with
    stateValues := dictionary.stateValues.truncate dictionary.dbStateValues
    addresses := dictionary.addresses.truncate dictionary.dbAddresses }

end

/-- `new`, with the value that is always there. -/
def new (config : FuzzDictionaryConfig) : FuzzDictionary :=
  ({ stateValues := .empty
     addresses := .empty
     config := config
     dbStateValues := 0
     dbAddresses := 0
     sampleValues := ∅
     literalValues := ∅
     samplesSeeded := false
     persistentValues := .empty
     misses := 0
     hits := 0 } : FuzzDictionary).insertValue 0 |>.1

section

variable (dictionary : FuzzDictionary)

/-- The samples are seeded with the literals before they are used. -/
def seedSamples : FuzzDictionary :=
  if dictionary.samplesSeeded then dictionary
  else
    { dictionary with
      sampleValues := dictionary.sampleValues.extend dictionary.literalValues.entries
      samplesSeeded := true }

def setSamples (type : DynSolType) (values : IndexSet B256) : FuzzDictionary :=
  { dictionary with sampleValues := dictionary.sampleValues.insert type values }

/-- `insert_typed_cmp_value`'s insertion into a bucket. -/
def insertBucket (type : DynSolType) (value : B256) : FuzzDictionary :=
  let bucket := (dictionary.sampleValues.lookup type).getD .empty
  if bucket.len < maxTypedCmpPerBucket then
    dictionary.setSamples type (bucket.insert value).1
  else dictionary.setSamples type bucket

end

/-- The type of operands of the given width. -/
def nativeType (width : UInt8) : DynSolType :=
  if width = 8 then .uint 8
  else if width = 16 then .uint 16
  else if width = 32 then .uint 32
  else if width = 64 then .uint 64
  else .uint 256

def insertTypedCmpValue (dictionary : FuzzDictionary) (width : UInt8)
    (value : B256) : FuzzDictionary :=
  let dictionary := dictionary.seedSamples.insertBucket (nativeType width) value
  if width ≤ 64 then
    ((dictionary.insertBucket (.uint 128) value).insertBucket (.uint 256)
      value).insertBucket (.int 256) value
  else dictionary

def insertSample (limit : ℕ) (dictionary : FuzzDictionary)
    (sample : DynSolValue) : FuzzDictionary :=
  match sample.asType, sample.asWord with
  | some type, some value =>
    match dictionary.sampleValues.lookup type with
    | some values =>
      if values.len < limit then
        dictionary.setSamples type (values.insert value).1
      else (dictionary.insertValue value).1
    | none => dictionary.setSamples type (IndexSet.empty.insert value).1
  | _, _ => dictionary

def insertSampleValues (dictionary : FuzzDictionary)
    (samples : List DynSolValue) (limit : ℕ) : FuzzDictionary :=
  samples.foldl (insertSample limit) dictionary.seedSamples

section Collect

section

variable (dictionary : FuzzDictionary)

/-- `insert_result_values`, for a result that decodes to values. -/
def insertResultValues (decoded : Option (List DynSolValue)) (runDepth : ℕ) : FuzzDictionary :=
  match decoded with
  | some values => dictionary.insertSampleValues values runDepth
  | none => dictionary

def insertValues (values : List B256) : FuzzDictionary :=
  values.foldl (fun dictionary value => (dictionary.insertValue value).1) dictionary

/-- `insert_logs_values`.  The topics and the data of a log that does not
decode are inserted as they are. -/
def insertLogsValues (decode : Log → Option (List DynSolValue)) (logs : List Log)
    (runDepth : ℕ) : FuzzDictionary :=
  let dictionary := logs.foldl
    (fun dictionary log =>
      match decode log with
      | some _ => dictionary
      | none => (dictionary.insertValues log.topics).insertValues
          (dataWords log.data)) dictionary
  dictionary.insertSampleValues (logs.flatMap fun log => (decode log).getD []) runDepth

def insertAddress (address : Address) : FuzzDictionary :=
  if dictionary.addresses.len < dictionary.config.maxFuzzDictionaryAddresses then
    { dictionary with addresses := (dictionary.addresses.insert address).1 }
  else dictionary

def collectPushBytes (code : Bytes) : FuzzDictionary :=
  (Evm.immediates (code.take pushByteAnalysisLimit)).foldl (fun dictionary immediate =>
      if immediate.isEmpty then dictionary
      else
        match I256.tryFromBeSlice immediate with
        | none => dictionary
        | some pushValue =>
          if pushValue = 0 then dictionary
          else (dictionary.insertValueU256 pushValue).1) dictionary

end

variable (isCbor : Bytes → Bool)

/-- `insert_push_bytes_values`: once for each address. -/
def insertPushBytesValues (dictionary : FuzzDictionary) (address : Address)
    (info : AccountInfo) : FuzzDictionary :=
  match info.code with
  | none => dictionary
  | some code =>
    if dictionary.config.includePushBytes ∧ address ∉ dictionary.addresses then
      let dictionary := dictionary.insertAddress address
      if dictionary.valuesFull then dictionary
      else dictionary.collectPushBytes (ignoreMetadataHash isCbor code)
    else dictionary

/-- `insert_storage_value`.  The identifier knows the type of a slot whose
value decodes. -/
def insertStorageValue (dictionary : FuzzDictionary) (slot value : U256)
    (identify : B256 → B256 → Option DynSolType) : FuzzDictionary :=
  let (dictionary, _) := dictionary.insertValue slot
  match identify slot value with
  | some type =>
    let dictionary := dictionary.seedSamples
    let values := (dictionary.sampleValues.lookup type).getD .empty
    dictionary.setSamples type (values.insert value).1
  | none => (dictionary.insertValueU256 value).1

/-- An account with its slots in the order in which they are inserted. -/
structure Collected where
  address : Address
  info : AccountInfo
  slots : List (U256 × U256)

/-- One account of `insert_db_values` and of `insert_new_state_values`. -/
def insertAccount (identify : Address → B256 → B256 → Option DynSolType)
    (dictionary : FuzzDictionary) (account : Collected) : FuzzDictionary :=
  let (dictionary, _) := dictionary.insertValue (intoWord account.address)
  let dictionary := dictionary.insertPushBytesValues isCbor account.address account.info
  if dictionary.config.includeStorage then
    account.slots.foldl (fun dictionary slot => dictionary.insertStorageValue slot.1 slot.2
        (identify account.address)) dictionary
  else dictionary

/-- `insert_new_state_values`, for the accounts and slots in the order in which
the maps yield them. -/
def insertNewStateValues (dictionary : FuzzDictionary)
    (identify : Address → B256 → B256 → Option DynSolType)
    (changes : List Collected) : FuzzDictionary :=
  changes.foldl (insertAccount isCbor identify) dictionary

/-- An account of the database, with its slots in order. -/
def sortedAccount (entry : Σ _ : Address, DbAccount) : Collected where
  address := entry.1
  info := entry.2.info
  slots := (entry.2.storage.entries.insertionSort
    fun left right => left.1 ≤ right.1).map fun slot => (slot.1, slot.2)

/-- `insert_db_values`.  The random address is used if nothing was
inserted. -/
def insertDbValues (dictionary : FuzzDictionary)
    (accounts : List Collected) (random : Address) : FuzzDictionary :=
  let dictionary := accounts.foldl (insertAccount isCbor fun _ _ _ => none) dictionary
  let dictionary :=
    if dictionary.stateValues.elems.isEmpty then
      (dictionary.insertValue (intoWord random)).1
    else dictionary
  { dictionary with
    dbStateValues := dictionary.stateValues.len
    dbAddresses := dictionary.addresses.len }

/-- `EvmFuzzState::new`. -/
def ofDatabase (db : CacheDb) (config : FuzzDictionaryConfig)
    (literals : Option Samples) (random : Address) : FuzzDictionary :=
  let accounts := (db.accounts.entries.insertionSort
    fun left right => left.1 ≤ right.1).map sortedAccount
  let dictionary := (new config).insertDbValues isCbor accounts random
  match literals with
  | some literals => { dictionary with literalValues := literals }
  | none => dictionary

end Collect

end FuzzDictionary

end SwissledgerFoundry.Fuzz
