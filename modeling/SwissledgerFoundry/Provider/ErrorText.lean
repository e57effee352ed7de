import Mathlib.Data.List.Forall2
import SwissledgerFoundry.Json.Parser

/-!
# Responses with a plain error

Some nodes answer with a string where JSON-RPC has an error object.  A response
that cannot be read is read once more with these strings made into objects.
-/

namespace SwissledgerFoundry.Provider

open Json List

/-- `serde_json`. -/
structure SerdeJson where
  fromStr : List Char → Option Value
  toString : Value → List Char

/-- What can be read from the written text of a value is this value. -/
def SerdeJson.ReadsBack (serde : SerdeJson) (value : Value) : Prop :=
  ∀ read, serde.fromStr (serde.toString value) = some read → read = value

/-- The error of a response, if it is a string. -/
def plainError : Value → Option (List Char)
  | .object obj =>
    match obj.lookup "error".toList with
    | some (.string msg) => some msg
    | _ => none
  | _ => none

def errorObject (msg : List Char) : Value :=
  .object [("code".toList, .number "-32000".toList), ("message".toList, .string msg)]

/-- `obj.insert("error", ..)` on an object that has this member. -/
def insertError (msg : List Char) (obj : List (List Char × Value)) : List (List Char × Value) :=
  obj.map fun (key, value) => (key, if key = "error".toList then errorObject msg else value)

def normalizeItem : Value → Value
  | .object obj => .object ((plainError (.object obj)).elim obj (insertError · obj))
  | item => item

/-- The responses of a text: one, or those of a batch. -/
def responses : Value → List Value
  | .array arr => arr
  | value => [value]

def hasPlainError (value : Value) : Bool :=
  (responses value).any fun item => (plainError item).isSome

def normalizeValue : Value → Value
  | .array arr => .array (arr.map normalizeItem)
  | value => normalizeItem value

def normalizeErrorText (serde : SerdeJson) (text : List Char) : Option (List Char) := do
  let value ← serde.fromStr text
  if hasPlainError value then return serde.toString (normalizeValue value) else none

/-- Only a plain error is replaced, by an object with the same text. -/
inductive Replaced : Value → Value → Prop
  | same {item : Value} (structured : plainError item = none) : Replaced item item
  | error {obj replaced : List (List Char × Value)} {msg : List Char}
      (plain : plainError (.object obj) = some msg)
      (members : Forall₂ (fun before after => after.1 = before.1 ∧
        after.2 = if before.1 = "error".toList then errorObject msg else before.2) obj replaced) :
      Replaced (.object obj) (.object replaced)

/-- The responses of a batch are replaced in their order. -/
def Normalized : Value → Value → Prop
  | .array arr, .array replaced => Forall₂ Replaced arr replaced
  | value, replaced => Replaced value replaced

theorem lookup_insertError {value : Value} {msg : List Char} {obj : List (List Char × Value)}
    (found : obj.lookup "error".toList = some value) :
    (insertError msg obj).lookup "error".toList = some (errorObject msg) := by
  induction obj with
  | nil => cases found
  | cons member obj ih =>
    obtain ⟨key, own⟩ := member
    by_cases same : "error".toList = key
    · simp [insertError, ← same]
    · have other : ("error".toList == key) = false := beq_eq_false_iff_ne.mpr same
      simp only [insertError, map_cons, lookup_cons, other] at found ⊢
      exact ih found

theorem plainError_insertError {obj : List (List Char × Value)} {msg : List Char}
    (plain : plainError (.object obj) = some msg) :
    plainError (.object (insertError msg obj)) = none := by
  simp only [plainError] at plain
  split at plain
  · rename_i found
    rw [plainError, lookup_insertError found]
    rfl
  · cases plain

theorem normalizeItem_spec (item : Value) :
    Replaced item (normalizeItem item) ∧ plainError (normalizeItem item) = none := by
  cases item with
  | object obj =>
    rw [normalizeItem]
    cases plain : plainError (.object obj) with
    | none => exact ⟨.same plain, plain⟩
    | some msg => exact ⟨.error plain (by simp [insertError]), plainError_insertError plain⟩
  | _ => exact ⟨.same rfl, rfl⟩

theorem normalizeValue_spec (value : Value) :
    Normalized value (normalizeValue value) ∧ hasPlainError (normalizeValue value) = false := by
  cases value with
  | array arr => simp [Normalized, normalizeValue, hasPlainError, responses, normalizeItem_spec]
  | object obj =>
    obtain ⟨replaced, structured⟩ := normalizeItem_spec (.object obj)
    exact ⟨replaced, by
      simpa [hasPlainError, responses, normalizeValue, normalizeItem] using structured⟩
  | _ => exact ⟨.same rfl, rfl⟩

/-- The parser and the serializer of this development. -/
def plainSerde : SerdeJson where
  fromStr text := (parse text).toOption
  toString := Value.render

def plainResponse : Value :=
  .object [("id".toList, .number "1".toList), ("error".toList, .string "busy".toList)]

end SwissledgerFoundry.Provider
