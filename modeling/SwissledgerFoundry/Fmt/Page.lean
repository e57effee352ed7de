import Mathlib.Algebra.Order.Ring.Int

/-!
# Tokens and the printed page

The pretty-printer's tokens and the functions that write them to the output.
`none` is a panic.
-/

namespace SwissledgerFoundry.Fmt

/-- Every line is allowed at least this much space, even if highly
indented. -/
def minSpace : ℤ := 40

def sizeInfinity : ℕ := 0xffff

inductive Breaks where
  | consistent
  | inconsistent
deriving DecidableEq, Repr

inductive IndentStyle where
  | visual
  | block (offset : ℤ)
deriving DecidableEq, Repr

structure BreakToken where
  offset : ℤ := 0
  blankSpace : ℕ := 0
  preBreak : Option String := none
  postBreak : Option String := none
  ifNonempty : Bool := false
  neverBreak : Bool := false
deriving DecidableEq, Repr

structure BeginToken where
  indent : IndentStyle
  breaks : Breaks
deriving DecidableEq, Repr

inductive Token where
  | string (text : String)
  | breakToken (token : BreakToken)
  | beginToken (token : BeginToken)
  | endToken
deriving DecidableEq, Repr

inductive PrintFrame where
  | fits (breaks : Breaks)
  | broken (indent : ℕ) (breaks : Breaks)
deriving DecidableEq, Repr

/-- The fields of `Printer` that printing reads and writes.  The head of
`printStack` is its top.  `printedBreaks` is not in the source: it records each
break that was printed, with whether it started a new line. -/
structure Page where
  out : String
  space : ℤ
  printStack : List PrintFrame
  indent : ℕ
  pendingIndentation : ℕ
  margin : ℤ
  indentConfig : Option ℕ
  printedBreaks : List (BreakToken × Bool)
deriving DecidableEq, Repr

namespace Page

/-- The blank page of `Printer::new`. -/
def new (margin : ℕ) (useTabWithSize : Option ℕ) : Page :=
  let margin : ℤ := max minSpace (min margin (sizeInfinity - 1))
  { out := ""
    space := margin
    printStack := []
    indent := 0
    pendingIndentation := 0
    margin
    indentConfig := useTabWithSize
    printedBreaks := [] }

variable (page : Page)

def getTop : PrintFrame := page.printStack.head?.getD (.broken 0 .inconsistent)

/-- Write the pending indentation.  A tab width of zero divides by zero. -/
def printIndent : Option Page :=
  match page.indentConfig with
  | some 0 => none
  | some tabWidth =>
    let tabs := page.out.pushn '\t' (page.pendingIndentation / tabWidth)
    some
      { page with
        out := tabs.pushn ' ' (page.pendingIndentation % tabWidth)
        pendingIndentation := 0 }
  | none =>
    some { page with out := page.out.pushn ' ' page.pendingIndentation, pendingIndentation := 0 }

def printString (string : String) : Option Page := do
  let page ← page.printIndent
  some { page with out := page.out ++ string, space := page.space - string.utf8ByteSize }

def printBegin (token : BeginToken) (size : ℤ) : Option Page :=
  if size > page.space then
    let frame := PrintFrame.broken page.indent token.breaks
    match token.indent with
    | .block offset =>
      if page.indent + offset < 0 then none
      else
        some
          { page with
            printStack := frame :: page.printStack
            indent := (page.indent + offset).toNat }
    | .visual =>
      some
        { page with
          printStack := frame :: page.printStack
          indent := ((page.margin - page.space) % 2 ^ 64).toNat }
  else
    some { page with printStack := .fits token.breaks :: page.printStack }

def printEnd : Option Page :=
  match page.printStack with
  | [] => none
  | .broken indent _ :: printStack => some { page with printStack, indent }
  | .fits _ :: printStack => some { page with printStack }

/-- Whether a break stays on its line. -/
def breakFits (token : BreakToken) (size : ℤ) : Bool :=
  token.neverBreak ||
    match page.getTop with
    | .fits _ => true
    | .broken _ .consistent => false
    | .broken _ .inconsistent => size ≤ page.space

/-- The text that a break adds before or after its newline. -/
def printAround (text : Option String) : Option Page :=
  match text with
  | none => some page
  | some text => do
      let page ← page.printIndent
      some { page with out := page.out ++ text }

def printBreak (token : BreakToken) (size : ℤ) : Option Page :=
  let fits := page.breakFits token size
  let page := { page with printedBreaks := page.printedBreaks ++ [(token, !fits)] }
  if fits then
    some
      { page with
        pendingIndentation := page.pendingIndentation + token.blankSpace
        space := page.space - token.blankSpace }
  else do
    let page ← page.printAround token.preBreak
    let indent := page.indent + token.offset
    if indent < 0 then none
    else
      let page ←
        { page with
          out := page.out.push '\n'
          pendingIndentation := indent.toNat
          space := max (page.margin - indent) minSpace }.printAround token.postBreak
      some { page with space := page.space - (token.postBreak.getD "").utf8ByteSize }

/-- The `match` of `Printer::advance_left` on the token it prints. -/
def printToken (token : Token) (size : ℤ) : Option Page :=
  match token with
  | .string text => page.printString text
  | .breakToken token => page.printBreak token size
  | .beginToken token => page.printBegin token size
  | .endToken => page.printEnd

end Page

end SwissledgerFoundry.Fmt
