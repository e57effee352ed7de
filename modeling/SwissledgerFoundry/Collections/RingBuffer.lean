import Mathlib.Data.List.Basic

/-!
# Queues addressed by absolute position

A queue whose elements keep the index they were pushed at while elements are
removed from both ends.
-/

/-- `offset` is the abstract index of the first element. -/
structure RingBuffer (Elem : Type*) where
  data : List Elem
  offset : ℕ
deriving DecidableEq, Repr

namespace RingBuffer

variable {Elem : Type*}

def new : RingBuffer Elem := { data := [], offset := 0 }

section

variable (ring : RingBuffer Elem)

def isEmpty : Bool := ring.data.isEmpty

def len : ℕ := ring.data.length

/-- Append a value and return its index. -/
def push (value : Elem) : ℕ × RingBuffer Elem :=
  (ring.offset + ring.data.length,
    { ring with data := ring.data ++ [value] })

def clear : RingBuffer Elem := { ring with data := [] }

/-- First index of `index_range`. -/
def start : ℕ := ring.offset

def first : Option Elem := ring.data.head?

def modifyFirst (change : Elem → Elem) : Option (RingBuffer Elem) :=
  match ring.data with
  | [] => none
  | first :: rest => some { ring with data := change first :: rest }

def popFirst : Option (Elem × RingBuffer Elem) :=
  match ring.data with
  | [] => none
  | first :: rest => some (first, { data := rest, offset := ring.offset + 1 })

def last : Option Elem := ring.data.getLast?

def secondLast : Option Elem := ring.data.dropLast.getLast?

def modifyLast (change : Elem → Elem) : Option (RingBuffer Elem) :=
  match ring.data.getLast? with
  | none => none
  | some last => some { ring with data := ring.data.dropLast ++ [change last] }

def popLast : Option (RingBuffer Elem) :=
  match ring.data.getLast? with
  | none => none
  | some _ => some { ring with data := ring.data.dropLast }

def get (index : ℕ) : Option Elem :=
  if index < ring.offset then none else ring.data[index - ring.offset]?

def modify (index : ℕ) (change : Elem → Elem) : Option (RingBuffer Elem) :=
  if index < ring.offset then none
  else
    match ring.data[index - ring.offset]? with
    | none => none
    | some value => some { ring with data := ring.data.set (index - ring.offset) (change value) }

end

variable (front : List Elem) (offset : ℕ) (elem : Elem)

theorem get_append (rest : List Elem) :
    (mk (front ++ elem :: rest) offset).get (offset + front.length) = some elem := by
  simp [get]

theorem modify_append (rest : List Elem) (change : Elem → Elem) :
    (mk (front ++ elem :: rest) offset).modify (offset + front.length) change =
      some ⟨front ++ change elem :: rest, offset⟩ := by
  simp [modify]

@[simp] theorem popLast_concat :
    (mk (front ++ [elem]) offset).popLast = some ⟨front, offset⟩ := by
  simp [popLast]

@[simp] theorem modifyLast_concat (change : Elem → Elem) :
    (mk (front ++ [elem]) offset).modifyLast change = some ⟨front ++ [change elem], offset⟩ := by
  simp [modifyLast]

end RingBuffer
