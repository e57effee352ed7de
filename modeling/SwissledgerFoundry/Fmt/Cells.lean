import Mathlib.Algebra.Order.BigOperators.Group.List
import SwissledgerFoundry.Fmt.Calls

/-!
# The buffer without its indices

An abstract printer whose buffer is a list of cells.  A cell says itself whether
its size is known.
-/

namespace SwissledgerFoundry.Fmt

open List

/-- The columns that a token takes on a line that is not broken. -/
def Token.width : Token → ℤ
  | .string text => text.utf8ByteSize
  | .breakToken token => token.blankSpace
  | .beginToken _ => 0
  | .endToken => 0

theorem Token.width_nonneg (token : Token) : 0 ≤ token.width := by
  cases token with
  | beginToken token => exact Int.le_refl 0
  | endToken => exact Int.le_refl 0
  | _ => exact Int.natCast_nonneg _

/-- A buffered token.  Only strings are buffered with a known size. -/
inductive Cell where
  | known (token : Token) (size : ℤ)
  | pendingBreak (token : BreakToken)
  | pendingBegin (token : BeginToken)
  | pendingEnd
deriving DecidableEq, Repr

namespace Cell

def token : Cell → Token
  | .known token _ => token
  | .pendingBreak token => .breakToken token
  | .pendingBegin token => .beginToken token
  | .pendingEnd => .endToken

def isKnown : Cell → Bool
  | .known _ _ => true
  | _ => false

/-- The size a cell is printed with: one that is not known is given up on. -/
def printSize : Cell → ℤ
  | .known _ size => size
  | _ => sizeInfinity

def string (text : String) : Cell := .known (.string text) text.utf8ByteSize

theorem exists_known {cell : Cell} (known : cell.isKnown = true) :
    ∃ token size, cell = .known token size := by
  cases cell with
  | known token size => exact ⟨token, size, rfl⟩
  | _ => cases known

end Cell

def widths (cells : List Cell) : ℤ := (cells.map fun cell => cell.token.width).sum

@[simp] theorem widths_nil : widths [] = 0 := rfl

@[simp] theorem widths_cons (cell : Cell) (cells : List Cell) :
    widths (cell :: cells) = cell.token.width + widths cells := rfl

@[simp] theorem widths_append (front rest : List Cell) :
    widths (front ++ rest) = widths front + widths rest := by
  simp [widths]

theorem widths_nonneg (cells : List Cell) : 0 ≤ widths cells := by
  apply sum_nonneg
  intro width member
  obtain ⟨cell, _, rfl⟩ := mem_map.mp member
  exact cell.token.width_nonneg

/-- Find the sizes that a break after the buffer decides.  The buffer is
listed from its back; `after` is the width of the cells already passed and
`depth` counts the groups that end there. -/
def settleBack : ℕ → ℤ → List Cell → List Cell
  | _, _, [] => []
  | depth, after, .known token size :: back =>
    .known token size :: settleBack depth (token.width + after) back
  | depth, after, .pendingEnd :: back => .known .endToken 1 :: settleBack (depth + 1) after back
  | 0, _, .pendingBegin token :: back => .pendingBegin token :: back
  | depth + 1, after, .pendingBegin token :: back =>
    .known (.beginToken token) after :: settleBack depth after back
  | 0, after, .pendingBreak token :: back =>
    .known (.breakToken token) (token.blankSpace + after) :: back
  | depth + 1, after, .pendingBreak token :: back =>
    .known (.breakToken token) (token.blankSpace + after) ::
      settleBack (depth + 1) (token.blankSpace + after) back

def settle (cells : List Cell) : List Cell := (settleBack 0 0 cells.reverse).reverse

theorem settleBack_map_token (depth : ℕ) (after : ℤ) (back : List Cell) :
    (settleBack depth after back).map Cell.token = back.map Cell.token := by
  induction back generalizing depth after with
  | nil => rfl
  | cons cell back ih =>
    cases cell with
    | known token size => simp [settleBack, ih]
    | pendingEnd => simp [settleBack, ih, Cell.token]
    | pendingBegin token =>
      cases depth with
      | zero => rfl
      | succ depth => simp [settleBack, ih, Cell.token]
    | pendingBreak token =>
      cases depth with
      | zero => rfl
      | succ depth => simp [settleBack, ih, Cell.token]

theorem settle_map_token (cells : List Cell) :
    (settle cells).map Cell.token = cells.map Cell.token := by
  rw [settle, map_reverse, settleBack_map_token, map_reverse, reverse_reverse]

theorem settle_ne_nil {cells : List Cell} (nonempty : cells ≠ []) : settle cells ≠ [] := by
  intro none
  have tokens := settle_map_token cells
  rw [none] at tokens
  exact nonempty (map_eq_nil_iff.mp tokens.symm)

theorem widths_congr {cells other : List Cell}
    (same : cells.map Cell.token = other.map Cell.token) :
    widths cells = widths other := by
  have asMap : ∀ cells : List Cell, widths cells = ((cells.map Cell.token).map Token.width).sum :=
    fun cells => by rw [map_map]; rfl
  rw [asMap, same, ← asMap]

/-- The abstract printer. -/
structure Draft where
  page : Page
  cells : List Cell
deriving DecidableEq, Repr

def flush : Page → List Cell → Option Draft
  | page, .known token size :: cells => do
      let page ← page.printToken token size
      flush page cells
  | page, cells => some { page, cells }

/-- Print cells while the buffer is wider than the space that is left.  After
one was printed, so are the following cells of known size. -/
def stream : Bool → Page → List Cell → Option Draft
  | _, page, [] => some { page, cells := [] }
  | flushing, page, cell :: cells =>
    if (flushing && cell.isKnown) ∨ page.space < widths (cell :: cells) then do
      let page ← page.printToken cell.token cell.printSize
      stream true page cells
    else some { page, cells := cell :: cells }

/-- A property that printing the first cell preserves survives `stream`. -/
theorem stream_induction {cells : List Cell} {flushing : Bool} {motive : Page → List Cell → Prop}
    {after : Draft} {page : Page}
    (print : ∀ page cell cells next, motive page (cell :: cells) →
      page.printToken cell.token cell.printSize = some next →
      motive next cells)
    (initial : motive page cells)
    (streamed : stream flushing page cells = some after) :
    motive after.page after.cells := by
  induction cells generalizing page flushing with
  | nil =>
    cases streamed
    exact initial
  | cons cell cells ih =>
    rw [stream] at streamed
    split at streamed
    · obtain ⟨next, printed, streamed⟩ := Option.bind_eq_some_iff.mp streamed
      exact ih (print _ _ _ _ initial printed) streamed
    · cases streamed
      exact initial

namespace Draft

/-- The cells after the end of a group.  A group that holds only a break
disappears, and so does a last break that asks for a nonempty rest. -/
def endGroup (cells : List Cell) : List Cell :=
  match cells.reverse with
  | .pendingBreak _ :: .pendingBegin _ :: back => back.reverse
  | .pendingBreak token :: back =>
    if token.ifNonempty then back.reverse ++ [.pendingEnd]
    else cells ++ [.pendingEnd]
  | _ => cells ++ [.pendingEnd]

def scan (draft : Draft) : Token → Option Draft
  | .string text =>
    if draft.cells = [] then
      (draft.page.printString text).map fun page => { draft with page }
    else
      stream false draft.page (draft.cells ++ [.string text])
  | .breakToken token => some { draft with cells := settle draft.cells ++ [.pendingBreak token] }
  | .beginToken token => some { draft with cells := draft.cells ++ [.pendingBegin token] }
  | .endToken =>
    if draft.cells = [] then
      draft.page.printEnd.map fun page => { draft with page }
    else some { draft with cells := endGroup draft.cells }

theorem endGroup_break {front : List Cell} {token : BreakToken}
    (other : ∀ begins, front.getLast? ≠ some (.pendingBegin begins)) :
    endGroup (front ++ [.pendingBreak token]) =
      (if token.ifNonempty then front else front ++ [.pendingBreak token]) ++ [.pendingEnd] := by
  rw [endGroup, reverse_concat]
  split
  next begins back listed =>
    injection listed with _ listed
    refine absurd ?_ (other begins)
    rw [← head?_reverse, listed, head?_cons]
  next back _ listed =>
    cases listed
    rw [reverse_reverse]
    split <;> rfl
  next none => exact absurd rfl (none _ _)

theorem endGroup_cases (cells : List Cell) : endGroup cells = cells ++ [.pendingEnd] ∨
      (∃ front token, cells = front ++ [.pendingBreak token] ∧
        endGroup cells = front ++ [.pendingEnd]) ∨
      ∃ front begins token,
        cells = front ++ [.pendingBegin begins, .pendingBreak token] ∧ endGroup cells = front := by
  unfold endGroup
  split
  next token begins back listed =>
    rw [reverse_eq_iff, reverse_cons, reverse_cons, append_assoc] at listed
    exact .inr (.inr ⟨back.reverse, begins, token, listed, rfl⟩)
  next token back _ listed =>
    rw [reverse_eq_iff, reverse_cons] at listed
    split
    · exact .inr (.inl ⟨back.reverse, token, listed, rfl⟩)
    · exact .inl rfl
  next => exact .inl rfl

/-- What scanning a token does: a token may be printed at once, printed or
buffered with the cells before it, or only buffered. -/
inductive Scans (draft : Draft) : Token → Draft → Prop
  | prints {token : Token} {page : Page} (empty : draft.cells = [])
      (plain : (∃ text, token = .string text) ∨ token = .endToken)
      (printed : draft.page.printToken token 0 = some page) :
      Scans draft token { draft with page }
  | streams (text : String) {after : Draft} (nonempty : draft.cells ≠ [])
      (streamed : stream false draft.page (draft.cells ++ [.string text]) =
        some after) : Scans draft (.string text) after
  | breaks (token : BreakToken) : Scans draft (.breakToken token)
      { draft with cells := settle draft.cells ++ [.pendingBreak token] }
  | begins (token : BeginToken) : Scans draft (.beginToken token)
      { draft with cells := draft.cells ++ [.pendingBegin token] }
  | ends : Scans draft .endToken
      { draft with cells := endGroup draft.cells }

theorem scans {token : Token} {draft after : Draft}
    (scanned : draft.scan token = some after) : draft.Scans token after := by
  cases token with
  | string text =>
    rw [scan] at scanned
    split at scanned
    next empty =>
      obtain ⟨page, printed, rfl⟩ := Option.map_eq_some_iff.mp scanned
      exact .prints empty (.inl ⟨text, rfl⟩) printed
    next nonempty => exact .streams text nonempty scanned
  | breakToken token =>
    cases scanned
    exact .breaks token
  | beginToken token =>
    cases scanned
    exact .begins token
  | endToken =>
    rw [scan] at scanned
    split at scanned
    next empty =>
      obtain ⟨page, printed, rfl⟩ := Option.map_eq_some_iff.mp scanned
      exact .prints empty (.inr rfl) printed
    next =>
      cases scanned
      exact .ends

end Draft

end SwissledgerFoundry.Fmt
