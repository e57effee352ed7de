import Mathlib.Algebra.Order.Ring.Nat

/-!
# Words, addresses and accounts

Addition on a `BitVec` wraps, as it does for the `Uint` type of the source, and
`I256` is read in two's complement.  The code of an account is inline, or it is
looked up by its hash.
-/

namespace SwissledgerFoundry

abbrev U256 := BitVec 256

abbrev I256 := BitVec 256

abbrev B256 := BitVec 256

instance : LawfulBEq B256 := inferInstance

abbrev Address := BitVec 160

abbrev Bytes := List UInt8

/-- Largest value of an unsigned 64-bit counter. -/
def u64Max : ℕ := 2 ^ 64 - 1

/-- Addition that stops at the largest word. -/
def U256.saturatingAdd (left right : U256) : U256 :=
  if left.toNat + right.toNat < 2 ^ 256 then left + right
  else BitVec.allOnes 256

/-- Big-endian value of a byte string, most significant byte first. -/
def beValue (bytes : Bytes) : ℕ := bytes.foldl (fun value byte => value * 256 + byte.toNat) 0

/-- `I256::try_from_be_slice`: slices longer than a word are refused. -/
def I256.tryFromBeSlice (slice : Bytes) : Option I256 :=
  if slice.length > 32 then none else some (BitVec.ofNat 256 (beValue slice))

/-- The lowest bytes of a number, least significant first. -/
def leBytes : ℕ → ℕ → Bytes
  | 0, _ => []
  | width + 1, value => UInt8.ofNat value :: leBytes width (value / 256)

theorem leBytes_length (width value : ℕ) : (leBytes width value).length = width := by
  induction width generalizing value with
  | zero => rfl
  | succ width ih => rw [leBytes, List.length_cons, ih]

theorem beValue_append_singleton {bytes : Bytes} {byte : UInt8} :
    beValue (bytes ++ [byte]) = beValue bytes * 256 + byte.toNat := by
  simp [beValue, List.foldl_append]

/-- Enough bytes of a number have the number as their value. -/
theorem beValue_leBytes {value width : ℕ} (bound : value < 256 ^ width) :
    beValue (leBytes width value).reverse = value := by
  induction width generalizing value with
  | zero =>
    obtain rfl : value = 0 := by omega
    rfl
  | succ width ih =>
    rw [leBytes, List.reverse_cons, beValue_append_singleton, ih (by omega), UInt8.toNat_ofNat']
    omega

def addressBytes (address : Address) : Bytes := (leBytes 20 address.toNat).reverse

/-- The hash of the empty code. -/
def keccakEmpty : B256 := 0xc5d2460186f7233c927e7db2dcc703c0e500b653ca82273b7bfad8045d85a470

structure AccountInfo where
  balance : U256
  nonce : UInt64
  codeHash : B256
  code : Option Bytes
deriving DecidableEq, Repr

/-- The account of an unused address. -/
instance : Inhabited AccountInfo where
  default := { balance := 0, nonce := 0, codeHash := keccakEmpty, code := some [] }

end SwissledgerFoundry
