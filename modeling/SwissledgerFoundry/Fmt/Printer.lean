import SwissledgerFoundry.Collections.RingBuffer
import SwissledgerFoundry.Fmt.Page

/-!
# The streaming printer

`Printer` buffers tokens until it knows whether they fit on the line.  A token
whose size is still unknown has a negative size and its index stands on the scan
stack.  `none` is a panic or a loop that does not end.
-/

namespace SwissledgerFoundry.Fmt

structure BufEntry where
  token : Token
  size : ℤ
deriving DecidableEq, Repr

/-- The head of `scanStack` is its front. -/
structure Printer where
  page : Page
  buf : RingBuffer BufEntry
  leftTotal : ℤ
  rightTotal : ℤ
  scanStack : List ℕ
  lastPrinted : Option Token
deriving DecidableEq, Repr

namespace Printer

def new (margin : ℕ) (useTabWithSize : Option ℕ) : Printer :=
  { page := Page.new margin useTabWithSize
    buf := RingBuffer.new
    leftTotal := 0
    rightTotal := 0
    scanStack := []
    lastPrinted := none }

/-- The loop of `check_stack`; the stack is listed from its back. -/
def checkStackLoop (rightTotal : ℤ) :
    ℕ → List ℕ → RingBuffer BufEntry → Option (List ℕ × RingBuffer BufEntry)
  | _, [], buf => some ([], buf)
  | depth, index :: stack, buf => do
      let entry ← buf.get index
      match entry.token with
      | .beginToken _ =>
        match depth with
        | 0 => some (index :: stack, buf)
        | depth + 1 =>
          let buf ← buf.modify index fun entry => { entry with size := entry.size + rightTotal }
          checkStackLoop rightTotal depth stack buf
      | .endToken =>
        let buf ← buf.modify index fun entry => { entry with size := 1 }
        checkStackLoop rightTotal (depth + 1) stack buf
      | _ =>
        let buf ← buf.modify index fun entry => { entry with size := entry.size + rightTotal }
        match depth with
        | 0 => some (stack, buf)
        | depth + 1 => checkStackLoop rightTotal (depth + 1) stack buf

def checkStack (printer : Printer) (depth : ℕ) : Option Printer := do
  let (stack, buf) ← checkStackLoop printer.rightTotal depth printer.scanStack.reverse printer.buf
  some { printer with scanStack := stack.reverse, buf }

/-- What `advance_left` adds to `left_total` for an entry. -/
def passed (left : BufEntry) : ℤ :=
  match left.token with
  | .string _ => left.size
  | .breakToken token => token.blankSpace
  | _ => 0

/-- One round of `advance_left`. -/
def printFirst (printer : Printer) : Option Printer := do
  let (left, buf) ← printer.buf.popFirst
  let leftTotal := printer.leftTotal + passed left
  let page ← printer.page.printToken left.token left.size
  some { printer with page, buf, leftTotal, lastPrinted := some left.token }

def advanceLeftLoop : ℕ → Printer → Option Printer
  | 0, _ => none
  | fuel + 1, printer => do
      let first ← printer.buf.first
      if first.size < 0 then some printer
      else
        let printer ← printer.printFirst
        if printer.buf.isEmpty then some printer
        else advanceLeftLoop fuel printer

/-- Each round pops an entry, so the length of the buffer bounds the loop. -/
def advanceLeft (printer : Printer) : Option Printer := advanceLeftLoop printer.buf.len printer

/-- The body of `check_stream` up to `advance_left`: give up on the first
entry if its size is unknown. -/
def forceFirst (printer : Printer) : Option Printer := do
  let front ← printer.scanStack.head?
  if front = printer.buf.start then
    let buf ← printer.buf.modifyFirst fun entry => { entry with size := sizeInfinity }
    some { printer with scanStack := printer.scanStack.tail, buf }
  else some printer

def checkStreamLoop : ℕ → Printer → Option Printer
  | 0, _ => none
  | fuel + 1, printer =>
    if printer.rightTotal - printer.leftTotal > printer.page.space then do
      let printer ← printer.forceFirst
      let printer ← printer.advanceLeft
      if printer.buf.isEmpty then some printer
      else checkStreamLoop fuel printer
    else some printer

variable (printer : Printer)

/-- Each round prints an entry, so the length of the buffer bounds the
loop. -/
def checkStream : Option Printer := checkStreamLoop printer.buf.len printer

def scanEof : Option Printer :=
  if printer.scanStack.isEmpty then some printer
  else do
    let printer ← printer.checkStack 0
    printer.advanceLeft

/-- Start counting afresh once nothing is buffered. -/
def resetTotals : Printer :=
  { printer with leftTotal := 1, rightTotal := 1, buf := printer.buf.clear }

def pushUnknown (token : Token) (size : ℤ) : Printer :=
  let (right, buf) := printer.buf.push { token, size }
  { printer with buf, scanStack := printer.scanStack ++ [right] }

def scanBegin (token : BeginToken) : Option Printer :=
  let printer := if printer.scanStack.isEmpty then printer.resetTotals else printer
  some (printer.pushUnknown (.beginToken token) (-printer.rightTotal))

/-- Take a break back from the buffer. -/
def popBreak (token : BreakToken) : Option Printer := do
  let buf ← printer.buf.popLast
  some
    { printer with
      buf
      scanStack := printer.scanStack.dropLast
      rightTotal := printer.rightTotal - token.blankSpace }

def scanEnd : Option Printer :=
  if printer.scanStack.isEmpty then do
    let page ← printer.page.printEnd
    some { printer with page }
  else
    match printer.buf.last.map BufEntry.token with
    | some (.breakToken token) =>
      match printer.buf.secondLast.map BufEntry.token with
      | some (.beginToken _) => do
          let printer ← printer.popBreak token
          let buf ← printer.buf.popLast
          some { printer with buf, scanStack := printer.scanStack.dropLast }
      | _ => do
          let printer ←
            if token.ifNonempty then printer.popBreak token
            else some printer
          some (printer.pushUnknown .endToken (-1))
    | _ => some (printer.pushUnknown .endToken (-1))

def scanBreak (token : BreakToken) : Option Printer := do
  let printer ←
    if printer.scanStack.isEmpty then some printer.resetTotals
    else printer.checkStack 0
  let printer := printer.pushUnknown (.breakToken token) (-printer.rightTotal)
  some { printer with rightTotal := printer.rightTotal + token.blankSpace }

def scanString (string : String) : Option Printer :=
  if printer.scanStack.isEmpty then do
    let page ← printer.page.printString string
    some { printer with page }
  else
    let len : ℤ := string.utf8ByteSize
    let (_, buf) := printer.buf.push { token := .string string, size := len }
    { printer with buf, rightTotal := printer.rightTotal + len }.checkStream

end Printer

end SwissledgerFoundry.Fmt
