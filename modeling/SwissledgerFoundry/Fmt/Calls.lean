import SwissledgerFoundry.Fmt.Printer

/-!
# Calls of the printer

What the formatter calls: the convenience functions, which all scan one token,
and the helpers that look at or replace the last buffered token.
-/

namespace SwissledgerFoundry.Fmt

/-- The characters that `str::trim` removes: Unicode `White_Space`. -/
def isWhitespace (char : Char) : Bool :=
  let code := char.toNat
  (9 ≤ code && code ≤ 13) || code = 32 || code = 0x85 || code = 0xa0 ||
    code = 0x1680 || (0x2000 ≤ code && code ≤ 0x200a) || code = 0x2028 ||
    code = 0x2029 || code = 0x202f || code = 0x205f || code = 0x3000

/-- `text.trim().is_empty()` -/
def isBlank (text : List Char) : Bool := text.all isWhitespace

namespace Token

def isHardbreak : Token → Bool
  | .breakToken token => token.blankSpace = sizeInfinity && !token.neverBreak
  | _ => false

def hasNonWhitespaceContent : Token → Bool
  | .string text => !isBlank text.toList
  | .breakToken { preBreak := some text, .. } => !isBlank text.toList
  | _ => false

def word (text : String) : Token := .string text

def rbox (indent : ℤ) (breaks : Breaks) : Token := .beginToken { indent := .block indent, breaks }

def ibox (indent : ℤ) : Token := rbox indent .inconsistent

def cbox (indent : ℤ) : Token := rbox indent .consistent

def visualAlign : Token := .beginToken { indent := .visual, breaks := .consistent }

def breakOffset (n : ℕ) (off : ℤ) : Token := .breakToken { offset := off, blankSpace := n }

def spaces (n : ℕ) : Token := breakOffset n 0

def zerobreak : Token := spaces 0

def space : Token := spaces 1

def hardbreak : Token := spaces sizeInfinity

def hardbreakTokOffset (offset : ℤ) : Token := .breakToken { offset, blankSpace := sizeInfinity }

def hardbreakIfNonempty : Token := .breakToken { blankSpace := sizeInfinity, ifNonempty := true }

def neverbreak : Token := .breakToken { neverBreak := true }

end Token

namespace Printer

def scan (printer : Printer) : Token → Option Printer
  | .string text => printer.scanString text
  | .breakToken token => printer.scanBreak token
  | .beginToken token => printer.scanBegin token
  | .endToken => printer.scanEnd

def scanAll (printer : Printer) : List Token → Option Printer
  | [] => some printer
  | token :: tokens => do
      let printer ← printer.scan token
      printer.scanAll tokens

def lastTokenStillBuffered (printer : Printer) : Option Token := printer.buf.last.map BufEntry.token

def lastToken (printer : Printer) : Option Token :=
  printer.lastTokenStillBuffered.or printer.lastPrinted

def replaceLastTokenStillBuffered (printer : Printer) (token : Token) : Option Printer := do
  let buf ← printer.buf.modifyLast fun entry => { entry with token }
  some { printer with buf }

/-- The loop of `find_and_replace_last_token_still_buffered`; the buffer is
listed from its back. -/
def replaceFirstNonEnd (newToken : Token) (predicate : Token → Bool) : List BufEntry → List BufEntry
  | [] => []
  | entry :: rest =>
    if entry.token = .endToken then
      entry :: replaceFirstNonEnd newToken predicate rest
    else if predicate entry.token then
      { entry with token := newToken } :: rest
    else entry :: rest

def findAndReplaceLastTokenStillBuffered (printer : Printer)
    (newToken : Token) (predicate : Token → Bool) : Printer :=
  { printer with
    buf :=
      { printer.buf with
        data := (replaceFirstNonEnd newToken predicate printer.buf.data.reverse).reverse } }

def offset (printer : Printer) (offset : ℤ) : Option Printer :=
  match printer.lastTokenStillBuffered with
  | some (.breakToken token) =>
    printer.replaceLastTokenStillBuffered
      (.breakToken { token with offset := token.offset + offset })
  | some (.beginToken _) => some printer
  | _ => none

def isBeginningOfLine (printer : Printer) : Bool :=
  match printer.lastToken with
  | some token => token.isHardbreak
  | none => printer.page.out.isEmpty || printer.page.out.toList.getLast? = some '\n'

/-- The loop of `is_bol_or_only_ind`; the buffer is listed from its back. -/
def bolOfTokens : List Token → Option Bool
  | [] => none
  | token :: tokens =>
    if token.isHardbreak then some true
    else if token.hasNonWhitespaceContent then some false
    else bolOfTokens tokens

variable (printer : Printer)

def isBolOrOnlyInd : Bool :=
  (bolOfTokens (printer.buf.data.reverse.map BufEntry.token)).getD
    (isBlank (printer.page.out.toList.reverse.takeWhile (· ≠ '\n')))

def hardbreakIfNotBol : Option Printer :=
  if printer.isBolOrOnlyInd then some printer
  else
    match printer.lastTokenStillBuffered with
    | some (.breakToken last) =>
      if last.offset ≠ 0 then
        printer.replaceLastTokenStillBuffered (.hardbreakTokOffset last.offset)
      else printer.scan .hardbreak
    | _ => printer.scan .hardbreak

def spaceIfNotBol : Option Printer :=
  if printer.isBolOrOnlyInd then some printer
  else printer.scan .space

/-- `State::break_offset_if_not_bol`, which only uses its printer. -/
def breakOffsetIfNotBol (n : ℕ) (off : ℤ) (search : Bool) : Option Printer :=
  let hardbreak := Token.hardbreakTokOffset off
  if search then
    some (printer.findAndReplaceLastTokenStillBuffered hardbreak Token.isHardbreak)
  else if !printer.isBeginningOfLine then printer.scan (.breakOffset n off)
  else
    match printer.lastTokenStillBuffered with
    | some token =>
      if off ≠ 0 && token.isHardbreak then
        printer.replaceLastTokenStillBuffered hardbreak
      else some printer
    | none => some printer

end Printer

/-- The groups are closed in order; `depth` of them are open before the
tokens. -/
def WellNested : ℕ → List Token → Bool
  | depth, [] => depth = 0
  | depth, .beginToken _ :: tokens => WellNested (depth + 1) tokens
  | 0, .endToken :: _ => false
  | depth + 1, .endToken :: tokens => WellNested depth tokens
  | depth, .string _ :: tokens => WellNested depth tokens
  | depth, .breakToken _ :: tokens => WellNested depth tokens

inductive Call where
  | scan (token : Token)
  | offset (offset : ℤ)
  | hardbreakIfNotBol
  | spaceIfNotBol
  | breakOffsetIfNotBol (n : ℕ) (off : ℤ) (search : Bool)
deriving DecidableEq, Repr

def Call.token : Call → Option Token
  | .scan token => some token
  | _ => none

namespace Printer

def call (printer : Printer) : Call → Option Printer
  | .scan token => printer.scan token
  | .offset offset => printer.offset offset
  | .hardbreakIfNotBol => printer.hardbreakIfNotBol
  | .spaceIfNotBol => printer.spaceIfNotBol
  | .breakOffsetIfNotBol n off search => printer.breakOffsetIfNotBol n off search

/-- A call after which the printer may have panicked. -/
def step (state : Option Printer) (call : Call) : Option Printer :=
  state.bind fun printer => printer.call call

/-- The text of a finished document. -/
def eof (printer : Printer) : Option String := printer.scanEof.map (·.page.out)

end Printer

end SwissledgerFoundry.Fmt
