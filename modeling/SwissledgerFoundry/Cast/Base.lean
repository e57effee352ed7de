import SwissledgerFoundry.Collections.Radix
import SwissledgerFoundry.Primitives

/-!
# Numbers with a base

Parsing and formatting of integers by `cast`.  A number is a word in two's
complement with a flag for its sign.
-/

namespace SwissledgerFoundry.Cast

inductive Base where
  | binary
  | octal
  | decimal
  | hexadecimal
deriving DecidableEq

inductive NumberError where
  | invalidBase (message : String)
  | notDetected (message : String) (error : Radix.ReadError)
  | notParsed (error : Radix.ReadError)
deriving DecidableEq

section

variable (chars : List Char) (radix : ℕ)

/-- `U256::from_str_radix`, which skips underscores. -/
def U256.fromStrRadix : Except Radix.ReadError U256 :=
  (Radix.readFrom (2 ^ 256) radix 0 (chars.filter (· ≠ '_'))).map (BitVec.ofNat 256)

/-- `u64::from_str_radix`, which takes a plus sign. -/
def U64.fromStrRadix : Except Radix.ReadError ℕ :=
  match chars with
  | [] => .error .empty
  | ['+'] => .error .invalidDigit
  | '+' :: digits => Radix.readFrom (2 ^ 64) radix 0 digits
  | digits => Radix.readFrom (2 ^ 64) radix 0 digits

end

namespace Base

def radix : Base → ℕ
  | .binary => 2
  | .octal => 8
  | .decimal => 10
  | .hexadecimal => 16

def prefixChars : Base → List Char
  | .binary => ['0', 'b']
  | .octal => ['0', 'o']
  | .decimal => []
  | .hexadecimal => ['0', 'x']

def fromStr (name : String) : Except NumberError Base :=
  match name.toLower with
  | "2" | "b" | "bin" | "binary" => .ok .binary
  | "8" | "o" | "oct" | "octal" => .ok .octal
  | "10" | "d" | "dec" | "decimal" => .ok .decimal
  | "16" | "h" | "hex" | "hexadecimal" => .ok .hexadecimal
  | other => .error (.invalidBase ("Invalid base \"" ++ other ++
      "\". Possible values:\n 2, b, bin, binary\n 8, o, oct, octal\n" ++
      "10, d, dec, decimal\n16, h, hex, hexadecimal"))

/-- Too many digits are no reason to doubt the base. -/
def detectPrefixed (digits : List Char) (base : Base) (label : String) : Except NumberError Base :=
  match U64.fromStrRadix digits base.radix with
  | .ok _ => .ok base
  | .error .overflow => .ok base
  | .error error => .error (.notDetected ("could not parse " ++ label ++ " value: ") error)

def detect : List Char → Except NumberError Base
  | '+' :: rest => detect rest
  | '-' :: rest => detect rest
  | '0' :: 'b' :: digits => detectPrefixed digits .binary "binary"
  | '0' :: 'o' :: digits => detectPrefixed digits .octal "octal"
  | '0' :: 'x' :: digits => detectPrefixed digits .hexadecimal "hexadecimal"
  | digits =>
    match U256.fromStrRadix digits 10 with
    | .ok _ => .ok .decimal
    | .error _ =>
      match U256.fromStrRadix digits 16 with
      | .ok _ => .ok .hexadecimal
      | .error error => .error (.notDetected
          ("could not autodetect base as neither decimal or " ++ "hexadecimal: ") error)

def unwrapOrDetect (name : Option String) (chars : List Char) : Except NumberError Base :=
  match name with
  | some name => fromStr name
  | none => detect chars

end Base

inductive Sign where
  | positive
  | negative
deriving DecidableEq

def getSign : List Char → List Char × Sign
  | '+' :: rest => (rest, .positive)
  | '-' :: rest => (rest, .negative)
  | chars => (chars, .positive)

structure NumberWithBase where
  number : U256
  isNonnegative : Bool
  base : Base
deriving DecidableEq

/-- Takes off the first two characters if they are the marker of any base. -/
def stripMarker : List Char → List Char
  | '0' :: 'x' :: rest => rest
  | '0' :: 'X' :: rest => rest
  | '0' :: 'o' :: rest => rest
  | '0' :: 'O' :: rest => rest
  | '0' :: 'b' :: rest => rest
  | '0' :: 'B' :: rest => rest
  | chars => chars

/-- `pad_integral` of a formatter without width and plus sign. -/
def padIntegral (alternate isNonnegative : Bool) (marker digits : List Char) : List Char :=
  (if isNonnegative then [] else ['-']) ++ (if alternate then marker else []) ++ digits

/-- The text of a word that is read in two's complement. -/
def I256.toChars (number : I256) : List Char :=
  if number.toInt < 0 then '-' :: Nat.toDigits 10 number.toInt.natAbs
  else Nat.toDigits 10 number.toInt.natAbs

namespace NumberWithBase

def ofU256 (number : U256) : NumberWithBase where
  number := number
  isNonnegative := true
  base := .decimal

def withBase (number : NumberWithBase) (base : Base) : NumberWithBase :=
  { number with base := base }

section

variable (chars : List Char)

def parseUintIn (base : Base) : Except NumberError U256 :=
  (U256.fromStrRadix (stripMarker chars) base.radix).mapError .notParsed

def parseIntIn (base : Base) : Except NumberError (U256 × Bool) := do
  let (digits, sign) := getSign chars
  let number ← parseUintIn digits base
  match sign with
  | .negative => return (~~~number + 1, false)
  | .positive => return (number, true)

def parseInt (name : Option String) : Except NumberError NumberWithBase := do
  let base ← Base.unwrapOrDetect name chars
  let (number, isNonnegative) ← parseIntIn chars base
  return { number := number, isNonnegative := isNonnegative, base := base }

end

variable (number : NumberWithBase)

/-- The digits without sign and marker. -/
def format : List Char :=
  let digits :=
    match number.base with
    | .decimal =>
      if number.isNonnegative then Nat.toDigits 10 number.number.toNat
      else
        match I256.toChars number.number with
        | '-' :: digits => digits
        | digits => digits
    | base => Nat.toDigits base.radix number.number.toNat
  if digits.head? = some '0' then digits.dropWhile (· = '0') else digits

def debug (alternate : Bool) : List Char :=
  if number.number = 0 then
    padIntegral alternate true number.base.prefixChars ['0']
  else
    let isNonnegative :=
      match number.base with
      | .decimal => number.isNonnegative
      | _ => true
    padIntegral alternate isNonnegative number.base.prefixChars number.format

def toBase (base : Base) (addPrefix : Bool) : List Char :=
  (number.withBase base).debug addPrefix

end NumberWithBase

def U256.toBase (number : U256) (base : Base) (addPrefix : Bool) : List Char :=
  (NumberWithBase.ofU256 number).toBase base addPrefix

end SwissledgerFoundry.Cast
