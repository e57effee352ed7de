import SwissledgerFoundry.Fmt.Printing
import SwissledgerFoundry.Fmt.Tidy

/-!
# Printing with unlimited lookahead

A printer in two passes.  The first computes every size from the tokens that
follow; the second prints with the page's own functions.
-/

namespace SwissledgerFoundry.Fmt

/-- A token of the document, or the place of a break that was dropped before
the end of its group. -/
inductive Mark where
  | cell (cell : Cell)
  | dropped
deriving DecidableEq, Repr

/-- A token as it is scanned: only the size of a string is known. -/
def Cell.ofToken : Token → Cell
  | .string text => .string text
  | .breakToken token => .pendingBreak token
  | .beginToken token => .pendingBegin token
  | .endToken => .pendingEnd

/-- The document, listed from its back, ends with the start of a group. -/
def startsGroup : List Mark → Bool
  | .cell (.pendingBegin _) :: _ => true
  | _ => false

/-- End a group.  A group that holds only a break is dropped, and so is a last
break that asks for a nonempty rest. -/
def endMark : List Mark → List Mark
  | .cell (.pendingBreak token) :: back =>
    if startsGroup back then back.tail
    else if token.ifNonempty then .cell .pendingEnd :: .dropped :: back
    else .cell .pendingEnd :: .cell (.pendingBreak token) :: back
  | back => .cell .pendingEnd :: back

/-- Add a token to the document, which is listed from its back. -/
def scanMark (back : List Mark) : Token → List Mark
  | .endToken => endMark back
  | token => .cell (.ofToken token) :: back

def scanMarks (back : List Mark) (tokens : List Token) : List Mark :=
  (tokens.foldl scanMark back).reverse

/-- The width up to the next break that is not inside `depth` groups.  A break
that was dropped takes no space but still ends the width. -/
def width : ℕ → List Mark → ℤ
  | _, [] => 0
  | 0, .dropped :: _ => 0
  | depth + 1, .dropped :: marks => width (depth + 1) marks
  | depth, .cell cell :: marks =>
    match cell.token, depth with
    | .breakToken _, 0 => 0
    | token, depth => token.width + width (token.nest depth) marks

def lookahead (cell : Cell) (marks : List Mark) : ℤ :=
  match cell with
  | .known _ size => size
  | .pendingBreak token => token.blankSpace + width 0 marks
  | .pendingBegin _ => width 1 marks
  | .pendingEnd => 1

/-- The first pass: the tokens to print with their sizes. -/
def sizes (size : Cell → List Mark → ℤ) : List Mark → List (Token × ℤ)
  | [] => []
  | .dropped :: marks => sizes size marks
  | .cell cell :: marks => (cell.token, size cell marks) :: sizes size marks

/-- The second pass. -/
def printAll : Page → List (Token × ℤ) → Option Page
  | page, [] => some page
  | page, (token, size) :: rest => do
      let page ← page.printToken token size
      printAll page rest

def naive (margin : ℕ) (useTabWithSize : Option ℕ) (tokens : List Token) : Option String :=
  (printAll (Page.new margin useTabWithSize) (sizes lookahead (scanMarks [] tokens))).map Page.out

/-- The width up to the end of the group, and from there to the next break at
whatever level. -/
def widthPastEnd : ℕ → List Mark → ℤ
  | _, [] => 0
  | depth, .dropped :: marks => widthPastEnd depth marks
  | depth, .cell cell :: marks =>
    match cell.token, depth with
    | .breakToken _, 0 => 0
    | token, 0 => token.width + widthPastEnd 0 marks
    | token, depth => token.width + widthPastEnd (token.nest depth) marks

/-- The size of a token from the tokens that follow it and are printed. -/
def plainLookahead (cell : Cell) (marks : List Mark) : ℤ :=
  match cell with
  | .pendingBegin _ => widthPastEnd 1 marks
  | cell => lookahead cell marks

def plainNaive (margin : ℕ) (useTabWithSize : Option ℕ) (tokens : List Token) : Option String :=
  let printed := (scanMarks [] tokens).filter fun mark => mark ≠ .dropped
  (printAll (Page.new margin useTabWithSize) (sizes plainLookahead printed)).map Page.out

end SwissledgerFoundry.Fmt
