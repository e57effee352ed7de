import Mathlib.Data.List.Forall2
import SwissledgerFoundry.Json.Quoted

/-!
# Requests with parameters

The provider sends every JSON-RPC request with a `params` member.  Whether the
member is there is decided by a search in the serialized text.
-/

namespace SwissledgerFoundry.Provider

open Json List Json

inductive Id where
  | number (number : UInt64)
  | string (chars : List Char)
  | none
deriving DecidableEq

structure RequestMeta where
  method : List Char
  id : Id
  isSubscription : Bool
deriving DecidableEq

structure Request where
  rpcMeta : RequestMeta
  params : Option Value

/-- A request as the text that is sent. -/
structure SerializedRequest where
  rpcMeta : RequestMeta
  request : List Char
deriving DecidableEq

/-- One request, or several in one message. -/
inductive Packet (α : Type) where
  | single (request : α)
  | batch (requests : List α)
deriving DecidableEq

abbrev RequestPacket := Packet SerializedRequest

def Id.toJson : Id → Value
  | .number value => .number (Nat.toDigits 10 value.toNat)
  | .string chars => .string chars
  | .none => .null

namespace Request

def new (method : List Char) (id : Id) (params : Value) : Request where
  rpcMeta := { method, id, isSubscription := false }
  params := some params

/-- The members in the order of the serializer; no member for parameters
without a size. -/
def members (request : Request) : List (List Char × Value) :=
  ("method".toList, .string request.rpcMeta.method) ::
    (request.params.toList.map fun params => ("params".toList, params)) ++
    [("id".toList, request.rpcMeta.id.toJson), ("jsonrpc".toList, .string "2.0".toList)]

def serialize (request : Request) : SerializedRequest where
  rpcMeta := request.rpcMeta
  request := (Value.object request.members).render

end Request

def fixSerialized (ser : SerializedRequest) : SerializedRequest :=
  if Quotes "params".toList ser.request then ser
  else (Request.new ser.rpcMeta.method ser.rpcMeta.id (.array [])).serialize

def fixRequestPacket : RequestPacket → RequestPacket
  | .single ser => .single (fixSerialized ser)
  | .batch batch => .batch (batch.map fixSerialized)

namespace Packet

def map {α β : Type} (change : α → β) : Packet α → Packet β
  | .single request => .single (change request)
  | .batch requests => .batch (requests.map change)

def requests {α : Type} : Packet α → List α
  | .single request => [request]
  | .batch requests => requests

/-- Packets of the same kind with related requests in the same order. -/
inductive Related {α β : Type} (relation : α → β → Prop) : Packet α → Packet β → Prop
  | single {left : α} {right : β} (related : relation left right) :
      Related relation (.single left) (.single right)
  | batch {lefts : List α} {rights : List β}
      (related : List.Forall₂ relation lefts rights) :
      Related relation (.batch lefts) (.batch rights)

end Packet

/-- The request as it is to be sent: with its own parameters or none in
brackets. -/
structure Carries (request : Request) (sent : SerializedRequest) : Prop where
  method : sent.rpcMeta.method = request.rpcMeta.method
  id : sent.rpcMeta.id = request.rpcMeta.id
  text : sent.request = (Value.object [("method".toList, .string request.rpcMeta.method),
      ("params".toList, request.params.getD (.array [])),
      ("id".toList, request.rpcMeta.id.toJson),
      ("jsonrpc".toList, .string "2.0".toList)]).render

/-- Neither the method nor a string id ends in the quoted word. -/
def Unambiguous (rpcMeta : RequestMeta) : Prop :=
  lastPiece rpcMeta.method ≠ "params".toList ∧
    ∀ chars, rpcMeta.id = .string chars → lastPiece chars ≠ "params".toList

theorem quotes_string_iff (chars text : List Char) :
    Quotes "params".toList (quote chars ++ text) ↔
      lastPiece chars = "params".toList ∨ Quotes "params".toList ('"' :: text) := by
  rw [quote, unquote, cons_append, append_assoc]
  exact Json.quotes_string_iff (by decide) (by decide) (by decide) chars text

theorem quotes_between_iff (piece chars text : List Char)
    (noQuote : '"' ∉ piece) (other : piece ≠ "params".toList) :
    Quotes "params".toList ('"' :: (piece ++ (quote chars ++ text))) ↔
      Quotes "params".toList (quote chars ++ text) := by
  rw [quote, cons_append, quotes_cons_iff (by decide) noQuote, or_iff_right other]

theorem quotes_separator_iff {separator : Char} (other : '"' ≠ separator) (chars text : List Char) :
    Quotes "params".toList ('"' :: separator :: (quote chars ++ text)) ↔
      Quotes "params".toList (quote chars ++ text) :=
  quotes_between_iff [separator] chars text (by simpa using other) (by simp)

variable {rpcMeta : RequestMeta}

theorem text_of_none : (Request.serialize ⟨rpcMeta, none⟩).request =
      '\x7b' :: (quote "method".toList ++ (':' ::
        (quote rpcMeta.method ++ (',' :: (quote "id".toList ++ (':' ::
          (rpcMeta.id.toJson.render ++ (',' :: (quote "jsonrpc".toList ++
            (':' :: (quote "2.0".toList ++ ['\x7d']))))))))))) := by
  simp [Request.serialize, Request.members, Value.render, renderMembers]

theorem not_quotes_version (piece : List Char) (noQuote : '"' ∉ piece)
    (other : piece ≠ "params".toList) :
    ¬ Quotes "params".toList ('"' :: (piece ++
      (quote "jsonrpc".toList ++ (':' :: (quote "2.0".toList ++ ['\x7d']))))) := by
  rw [quotes_between_iff _ _ _ noQuote other]
  decide

theorem quote_not_mem_toDigits {number : ℕ} : '"' ∉ Nat.toDigits 10 number := by
  intro member
  have digit := Nat.isDigit_of_mem_toDigits (by decide) (by decide) member
  exact absurd digit (by decide)

theorem quotes_id_iff (id : Id) :
    Quotes "params".toList ('"' :: ':' :: (id.toJson.render ++ (',' ::
        (quote "jsonrpc".toList ++ (':' :: (quote "2.0".toList ++ ['\x7d'])))))) ↔
      ∃ chars, id = .string chars ∧ lastPiece chars = "params".toList := by
  cases id with
  | number number =>
    have noQuote : '"' ∉ ':' :: (Nat.toDigits 10 number.toNat ++ [',']) := by
      simpa using quote_not_mem_toDigits
    have rest := not_quotes_version _ noQuote (by simp)
    refine iff_of_false ?_ nofun
    simpa [Id.toJson, Value.render] using rest
  | string chars =>
    have later := not_quotes_version [','] (by decide) (by decide)
    rw [singleton_append] at later
    rw [Id.toJson, Value.render, quotes_separator_iff (by decide), quotes_string_iff,
      or_iff_left later]
    simp
  | none => exact iff_of_false (by decide) nofun

/-- Without parameters the word is found in the ambiguous requests only. -/
theorem quotes_of_none_iff :
    Quotes "params".toList (Request.serialize ⟨rpcMeta, none⟩).request ↔
      ¬ Unambiguous rpcMeta := by
  have key : lastPiece "id".toList ≠ "params".toList := by decide
  rw [text_of_none, ← singleton_append, quotes_append_iff (by decide),
    quotes_string_iff, or_iff_right (by decide)]
  rw [quotes_separator_iff (by decide), quotes_string_iff]
  rw [quotes_separator_iff (by decide), quotes_string_iff, or_iff_right key, quotes_id_iff]
  unfold Unambiguous
  push Not
  rw [or_iff_not_imp_left]

theorem quotes_of_some {params : Value} :
    Quotes "params".toList (Request.serialize ⟨rpcMeta, some params⟩).request := by
  refine ⟨'\x7b' :: (quote "method".toList ++ (':' ::
    (quote rpcMeta.method ++ [',']))), ':' :: (params.render ++ (',' ::
      (quote "id".toList ++ (':' :: (rpcMeta.id.toJson.render ++
        (',' :: (quote "jsonrpc".toList ++ (':' :: (quote "2.0".toList ++ ['\x7d']))))))))), ?_⟩
  have key : '"' :: ("params".toList ++ ['"']) = quote "params".toList := by decide
  rw [key]
  simp [Request.serialize, Request.members, Value.render, renderMembers]

/-- A text without parameters is not that of a request that carries them. -/
theorem not_carries_of_none : ¬ Carries ⟨rpcMeta, none⟩ (Request.serialize ⟨rpcMeta, none⟩) := by
  intro carries
  have text := carries.text
  rw [text_of_none] at text
  -- behind the method one text has the key of the id, the other that of the parameters
  simp only [Value.render, renderMembers, cons_append, append_assoc, cons.injEq, true_and,
    append_cancel_left_eq] at text
  revert text
  simp [quote, unquote, escape]

theorem carries_fixSerialized_iff (request : Request) :
    Carries request (fixSerialized request.serialize) ↔
      (request.params = none → Unambiguous request.rpcMeta) := by
  obtain ⟨rpcMeta, params⟩ := request
  cases params with
  | some params =>
    rw [fixSerialized, if_pos quotes_of_some]
    exact iff_of_true ⟨rfl, rfl, rfl⟩ nofun
  | none =>
    by_cases unambiguous : Unambiguous rpcMeta
    · rw [fixSerialized, if_neg (mt quotes_of_none_iff.mp (not_not.mpr unambiguous))]
      exact iff_of_true ⟨rfl, rfl, rfl⟩ fun _ => unambiguous
    · rw [fixSerialized, if_pos (quotes_of_none_iff.mpr unambiguous)]
      exact iff_of_false not_carries_of_none fun always => unambiguous (always rfl)

/-- Every request of a packet is sent with parameters, in its place and with
its method and id, exactly if those without parameters are unambiguous. -/
theorem fixRequestPacket_carries_iff (packet : Packet Request) :
    packet.Related Carries (fixRequestPacket (packet.map Request.serialize)) ↔
      ∀ request ∈ packet.requests, request.params = none → Unambiguous request.rpcMeta := by
  cases packet with
  | single request =>
    rw [Packet.requests, forall_mem_singleton, ← carries_fixSerialized_iff]
    constructor
    · intro related
      cases related with
      | single related => exact related
    · exact .single
  | batch requests =>
    have each : Forall₂ Carries requests ((requests.map Request.serialize).map fixSerialized) ↔
        ∀ request ∈ requests, request.params = none → Unambiguous request.rpcMeta := by
      simp only [forall₂_map_right_iff, forall₂_same, carries_fixSerialized_iff]
    rw [Packet.requests, ← each]
    constructor
    · intro related
      cases related with
      | batch related => exact related
    · exact .batch

def methodParams : Request := ⟨⟨"params".toList, .number 1, false⟩, none⟩

def idParams : Request := ⟨⟨"eth_chainId".toList, .string "params".toList, false⟩, none⟩

/-- Requests without parameters whose method or id is the word are left as
they are. -/
theorem fixRequestPacket_leaves_out :
    fixRequestPacket ((Packet.batch [methodParams, idParams]).map Request.serialize) =
      .batch [methodParams.serialize, idParams.serialize] ∧
      methodParams.serialize.request =
        "\x7b\"method\":\"params\",\"id\":1,\"jsonrpc\":\"2.0\"\x7d".toList ∧
      ¬ Carries methodParams methodParams.serialize ∧
      ¬ Carries idParams idParams.serialize := by
  refine ⟨by decide +kernel, by decide +kernel, ?_, ?_⟩
  · intro carries
    have text := carries.text
    revert text
    decide +kernel
  intro carries
  have text := carries.text
  revert text
  decide +kernel

end SwissledgerFoundry.Provider
