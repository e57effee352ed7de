import Mathlib.Data.List.Basic
import SwissledgerFoundry.Primitives

/-!
# Instructions of a bytecode

The walk over a code, which skips the immediate data of its instructions, and
the offsets at which the instructions start.
-/

namespace SwissledgerFoundry.Evm

open List

def immLen (op : UInt8) : ℕ := if 0x60 ≤ op ∧ op ≤ 0x7f then op.toNat - 0x5f else 0

/-- The immediate data of the instructions of a code.  An instruction that
lacks data at the end of the code has none.  Each instruction takes a byte, so
the length of the code is enough fuel. -/
def immediatesWithin : ℕ → Bytes → List Bytes
  | 0, _ => []
  | _ + 1, [] => []
  | fuel + 1, op :: rest =>
    let len := immLen op
    if len ≤ rest.length then
      rest.take len :: immediatesWithin fuel (rest.drop len)
    else [[]]

/-- `InstIter`. -/
def immediates (code : Bytes) : List Bytes := immediatesWithin code.length code

/-- `InstIterWithPc`, of whose items only the program counters are read. -/
def withPc : ℕ → List Bytes → List ℕ
  | _, [] => []
  | pc, immediate :: rest => pc :: withPc (pc + 1 + immediate.length) rest

/-- Offsets at which the instructions start when a code is decoded from its
first byte on.  The data of a `PUSH` may run past the end of the code. -/
inductive Starts : Bytes → ℕ → Prop
  | here {op : UInt8} {rest : Bytes} : Starts (op :: rest) 0
  | push {op : UInt8} {rest : Bytes} {pc : ℕ} (least : 0x60 ≤ op) (greatest : op ≤ 0x7f)
      (later : Starts (rest.drop (op.toNat - 0x5f)) pc) :
      Starts (op :: rest) (1 + (op.toNat - 0x5f) + pc)
  | other {op : UInt8} {rest : Bytes} {pc : ℕ} (outside : ¬(0x60 ≤ op ∧ op ≤ 0x7f))
      (later : Starts rest pc) : Starts (op :: rest) (1 + pc)

variable {op : UInt8} {code rest : Bytes} {base pc : ℕ}

@[simp]
theorem not_starts_nil : ¬Starts [] pc := nofun

theorem starts_cons :
    Starts (op :: rest) pc ↔
      pc = 0 ∨ ∃ later, pc = 1 + immLen op + later ∧ Starts (rest.drop (immLen op)) later := by
  constructor
  · intro start
    cases start with
    | here => exact .inl rfl
    | push least greatest later =>
      simp only [immLen, least, greatest, and_self, if_true]
      exact .inr ⟨_, rfl, later⟩
    | other outside later =>
      simp only [immLen, outside, if_false]
      exact .inr ⟨_, rfl, later⟩
  rintro (rfl | ⟨later, rfl, start⟩)
  · exact .here
  by_cases pushes : 0x60 ≤ op ∧ op ≤ 0x7f
  · simp only [immLen, pushes, and_self, if_true] at start ⊢
    exact .push pushes.1 pushes.2 start
  · simp only [immLen, pushes, if_false] at start ⊢
    exact .other pushes start

theorem Starts.lt_length (start : Starts code pc) : pc < code.length := by
  induction start with
  | here => simp
  | push _ _ _ ih =>
    simp only [length_drop, length_cons] at ih ⊢
    omega
  | other _ _ ih => simpa [Nat.add_comm] using ih

theorem mem_withPc {fuel : ℕ} (enough : code.length ≤ fuel) :
    pc ∈ withPc base (immediatesWithin fuel code) ↔
      ∃ offset, pc = base + offset ∧ Starts code offset := by
  induction fuel generalizing base code with
  | zero =>
    obtain rfl := length_eq_zero_iff.mp (Nat.le_zero.mp enough)
    simp [immediatesWithin, withPc]
  | succ fuel ih =>
    cases code with
    | nil => simp [immediatesWithin, withPc]
    | cons op rest =>
      simp only [length_cons] at enough
      have split : (∃ offset, pc = base + offset ∧ Starts (op :: rest) offset) ↔
          pc = base ∨ ∃ later, pc = base + 1 + immLen op + later ∧
            Starts (rest.drop (immLen op)) later := by
        simp only [starts_cons]
        constructor
        · rintro ⟨offset, rfl, rfl | ⟨later, rfl, start⟩⟩
          · exact .inl rfl
          · exact .inr ⟨later, by omega, start⟩
        rintro (rfl | ⟨later, rfl, start⟩)
        · exact ⟨0, rfl, .inl rfl⟩
        · exact ⟨_, by omega, .inr ⟨later, rfl, start⟩⟩
      rw [split, immediatesWithin]
      by_cases whole : immLen op ≤ rest.length
      · have fewer : (rest.drop (immLen op)).length ≤ fuel := by
          rw [length_drop]
          omega
        simp [whole, withPc, ih fewer]
      -- The data is cut off, and nothing is left to decode.
      have ended : rest.drop (immLen op) = [] := drop_of_length_le (by omega)
      simp [whole, withPc, ended]

theorem mem_withPc_immediates : pc ∈ withPc 0 (immediates code) ↔ Starts code pc := by
  simp [immediates, mem_withPc (Nat.le_refl code.length)]

theorem le_of_withPc {insts : List Bytes} {ic : ℕ}
    (numbered : (withPc base insts)[ic]? = some pc) : base + ic ≤ pc := by
  induction insts generalizing base ic with
  | nil => cases numbered
  | cons immediate rest ih =>
    cases ic with
    | zero =>
      cases numbered
      exact Nat.le_refl _
    | succ ic =>
      have later := ih numbered
      omega

theorem withPc_increasing (base : ℕ) (insts : List Bytes) :
    (withPc base insts).Pairwise (· < ·) := by
  induction insts generalizing base with
  | nil => exact .nil
  | cons immediate rest ih =>
    refine .cons ?_ (ih _)
    intro pc member
    obtain ⟨ic, numbered⟩ := mem_iff_getElem?.mp member
    have later := le_of_withPc numbered
    omega

end SwissledgerFoundry.Evm
