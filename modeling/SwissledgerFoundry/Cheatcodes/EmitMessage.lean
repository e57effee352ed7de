import Mathlib.Data.List.Basic
import SwissledgerFoundry.Primitives

/-!
# Logs and how they are compared

Two logs are compared under five flags, one for each topic and one for the
data.  The message names the parameters that differ.
-/

namespace SwissledgerFoundry.Cheatcodes

/-- `LogData`: a log has at most four topics. -/
structure RawLog where
  topics : List B256
  data : Bytes
  fits : topics.length ≤ 4
deriving DecidableEq

structure Log where
  address : Address
  data : RawLog
deriving DecidableEq

/-- Which of the topics 0 to 3, and whether the data, are compared. -/
abbrev Checks := Vector Bool 5

def checksTopicsAndData (checks : Checks) (expected log : RawLog) : Bool :=
  if log.topics.length ≠ expected.topics.length then false
  else if !((log.topics.zipIdx.filter fun entry =>
      checks[entry.2]? == some true).all fun entry =>
        expected.topics[entry.2]? == some entry.1) then false
  else if checks[4] && expected.data != log.data then false
  else true

theorem checksTopicsAndData_self (checks : Checks) (log : RawLog) :
    checksTopicsAndData checks log log = true := by
  have topics : (log.topics.zipIdx.filter fun entry =>
      checks[entry.2]? == some true).all (fun entry =>
        log.topics[entry.2]? == some entry.1) = true := by
    rw [List.all_eq_true]
    intro entry member
    have listed := List.mem_of_mem_filter member
    rw [beq_iff_eq]
    exact List.mem_zipIdx_iff_getElem?.mp listed
  simp [checksTopicsAndData, topics]

/-- A decoded event: its name, and the name and value of each parameter. -/
structure DecodedCallLog where
  name : Option String
  params : Option (List (String × String))

/-- Lower-case hexadecimal digits, filled with zeros to a width. -/
def hexDigits (width value : ℕ) : String :=
  String.ofList ((Nat.toDigits 16 value).leftpad width '0')

def hexEncodePrefixed (bytes : Bytes) : String :=
  "0x" ++ String.join (bytes.map fun byte => hexDigits 2 byte.toNat)

def nameMismatchedLogs (expectedDecoded actualDecoded : Option DecodedCallLog) : String :=
  (actualDecoded.bind DecodedCallLog.name).getD "log" ++ " != expected " ++
    (expectedDecoded.bind DecodedCallLog.name).getD "log"

/-- A parameter that differs, with the text for logs that are not decoded. -/
structure ParamMismatch where
  index : ℕ
  basic : String

def ParamMismatch.new (index : ℕ) (expected got : String) : ParamMismatch where
  index := index
  basic := "param " ++ toString index ++ ": expected=" ++ expected ++ ", got=" ++ got

section

variable (checks : Checks) (expected actual : RawLog) (isAnonymous : Bool)

def topicMismatches : List ParamMismatch :=
  (expected.topics.zip actual.topics).zipIdx.filterMap fun ((expectedTopic, actualTopic), i) =>
      -- Topic 0 of a named event is its signature.
      if i == 0 && !isAnonymous then none
      else if checks[i]? == some true && expectedTopic != actualTopic then
        some (.new (if isAnonymous then i else i - 1) ("0x" ++ hexDigits 64 expectedTopic.toNat)
          ("0x" ++ hexDigits 64 actualTopic.toNat))
      else none

def dataMismatches : List ParamMismatch :=
  if checks[4] && expected.data != actual.data then
    let numIndexedParams :=
      if isAnonymous then expected.topics.length
      else expected.topics.length - 1
    ((expected.data.toChunks 32).zip (actual.data.toChunks 32)).zipIdx.filterMap
        fun ((expectedChunk, actualChunk), i) =>
          if expectedChunk != actualChunk then
            some (.new (numIndexedParams + i) (hexEncodePrefixed expectedChunk)
              (hexEncodePrefixed actualChunk))
          else none
  else []

end

/-- The text of one mismatch, with the decoded values where there are any. -/
def ParamMismatch.detailed (mismatch : ParamMismatch)
    (expectedParams actualParams : List (String × String)) : String :=
  match expectedParams[mismatch.index]?, actualParams[mismatch.index]? with
  | some (expectedName, expectedValue), some (_, actualValue) =>
    (if expectedName.isEmpty then "param" ++ toString mismatch.index
      else expectedName) ++
      ": expected=" ++ expectedValue ++ ", got=" ++ actualValue
  | _, _ => mismatch.basic

def eventTitle (expectedDecoded actualDecoded : Option DecodedCallLog)
    (isAnonymous : Bool) : String :=
  let unnamed := if isAnonymous then "anonymous log mismatch" else "log mismatch"
  match expectedDecoded, actualDecoded with
  | some expected, some actual =>
    if expected.name = actual.name then
      expected.name.getD "log" ++ " param mismatch"
    else unnamed
  | _, _ => unnamed

def getEmitMismatchMessage (checks : Checks) (expected actual : RawLog) (isAnonymous : Bool)
    (expectedDecoded actualDecoded : Option DecodedCallLog) : String :=
  if actual.topics.length ≠ expected.topics.length then
    nameMismatchedLogs expectedDecoded actualDecoded
  else if !isAnonymous && checks[0] && (!expected.topics.isEmpty && !actual.topics.isEmpty) &&
      expected.topics.head? != actual.topics.head? then
    nameMismatchedLogs expectedDecoded actualDecoded
  else if checks[4] && expected.data != actual.data &&
      (expected.data.length != actual.data.length ||
        expected.data.length % 32 != 0 || expected.data.isEmpty) then
    nameMismatchedLogs expectedDecoded actualDecoded
  else
    let mismatches := topicMismatches checks expected actual isAnonymous ++
      dataMismatches checks expected actual isAnonymous
    if mismatches.isEmpty then
      nameMismatchedLogs expectedDecoded actualDecoded
    else
      let texts :=
        match expectedDecoded.bind DecodedCallLog.params,
          actualDecoded.bind DecodedCallLog.params with
        | some expectedParams, some actualParams =>
          mismatches.map (·.detailed expectedParams actualParams)
        | _, _ => mismatches.map ParamMismatch.basic
      eventTitle expectedDecoded actualDecoded isAnonymous ++ " at " ++ ", ".intercalate texts

end SwissledgerFoundry.Cheatcodes
