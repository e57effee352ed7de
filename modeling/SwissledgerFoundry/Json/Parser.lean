import SwissledgerFoundry.Collections.Radix

/-!
# JSON values and their parser

A recursive parser with a bound on the depth of arrays and objects.  Twice the
length of the text is enough fuel.
-/

namespace Json

inductive Value where
  | null
  | bool (flag : Bool)
  | number (token : List Char)
  | string (chars : List Char)
  | array (values : List Value)
  | object (members : List (List Char × Value))

/-- A character within quotes. -/
def escape (char : Char) : List Char :=
  if char = '"' then ['\\', '"']
  else if char = '\\' then ['\\', '\\']
  else if char.toNat = 0x08 then ['\\', 'b']
  else if char.toNat = 0x09 then ['\\', 't']
  else if char.toNat = 0x0a then ['\\', 'n']
  else if char.toNat = 0x0c then ['\\', 'f']
  else if char.toNat = 0x0d then ['\\', 'r']
  else if char.toNat < 0x20 then
    ['\\', 'u', '0', '0', (char.toNat / 16).digitChar, (char.toNat % 16).digitChar]
  else [char]

/-- The characters of a string and the closing quote. -/
def unquote (chars : List Char) : List Char := chars.flatMap escape ++ ['"']

def quote (chars : List Char) : List Char := '"' :: unquote chars

mutual

def Value.render : Value → List Char
  | .null => ['n', 'u', 'l', 'l']
  | .bool true => ['t', 'r', 'u', 'e']
  | .bool false => ['f', 'a', 'l', 's', 'e']
  | .number token => token
  | .string chars => quote chars
  | .array [] => ['[', ']']
  | .array (value :: values) => '[' :: (value.render ++ (renderValues values ++ [']']))
  | .object [] => ['\x7b', '\x7d']
  | .object ((key, value) :: members) =>
    '\x7b' :: (quote key ++ ':' :: (value.render ++ (renderMembers members ++ ['\x7d'])))

/-- Further elements, each after a comma. -/
def renderValues : List Value → List Char
  | [] => []
  | value :: values => ',' :: (value.render ++ renderValues values)

/-- Further members, each after a comma. -/
def renderMembers : List (List Char × Value) → List Char
  | [] => []
  | (key, value) :: members => ',' :: (quote key ++ ':' :: (value.render ++ renderMembers members))

end

inductive ParseError where
  | unexpected
  | invalidNumber
  | invalidEscape
  | recursionLimit
  | exhausted
deriving DecidableEq

def skipWhitespace (chars : List Char) : List Char :=
  chars.dropWhile fun char => char = ' ' || char = '\n' || char = '\t' || char = '\r'

/-- The number of an escape with four digits. -/
def hexNumber (digits : List Char) : Option ℕ :=
  if Radix.Valid 16 digits then some (Radix.value 16 digits) else none

/-- The characters up to the closing quote, and the rest. -/
def parseString : List Char → Except ParseError (List Char × List Char)
  | [] => .error .unexpected
  | '"' :: rest => .ok ([], rest)
  | '\\' :: '"' :: rest => push '"' (parseString rest)
  | '\\' :: '\\' :: rest => push '\\' (parseString rest)
  | '\\' :: '/' :: rest => push '/' (parseString rest)
  | '\\' :: 'b' :: rest => push '\x08' (parseString rest)
  | '\\' :: 'f' :: rest => push '\x0c' (parseString rest)
  | '\\' :: 'n' :: rest => push '\n' (parseString rest)
  | '\\' :: 'r' :: rest => push '\r' (parseString rest)
  | '\\' :: 't' :: rest => push '\t' (parseString rest)
  | '\\' :: 'u' :: a :: b :: c :: d :: '\\' :: 'u' :: e :: f :: g :: h ::
      rest =>
      match hexNumber [a, b, c, d] with
      | none => .error .invalidEscape
      | some first =>
        if 0xd800 ≤ first ∧ first < 0xdc00 then
          -- The two halves of a character.
          match hexNumber [e, f, g, h] with
          | none => .error .invalidEscape
          | some second =>
            if 0xdc00 ≤ second ∧ second < 0xe000 then
              push (Char.ofNat (0x10000 + (first - 0xd800) * 0x400 +
                (second - 0xdc00))) (parseString rest)
            else .error .invalidEscape
        else if 0xdc00 ≤ first ∧ first < 0xe000 then .error .invalidEscape
        else push (Char.ofNat first) (parseString ('\\' :: 'u' :: e :: f :: g :: h :: rest))
  | '\\' :: 'u' :: a :: b :: c :: d :: rest =>
    match hexNumber [a, b, c, d] with
    | none => .error .invalidEscape
    | some number =>
      if 0xd800 ≤ number ∧ number < 0xe000 then .error .invalidEscape
      else push (Char.ofNat number) (parseString rest)
  | '\\' :: _ => .error .invalidEscape
  | char :: rest =>
    if char.toNat < 0x20 then .error .unexpected
    else push char (parseString rest)
where
  push (char : Char) (parsed : Except ParseError (List Char × List Char)) :
      Except ParseError (List Char × List Char) :=
    parsed.map fun (chars, rest) => (char :: chars, rest)

def scanDigits (chars : List Char) : Except ParseError (List Char × List Char) :=
  match chars.span Char.isDigit with
  | ([], _) => .error .invalidNumber
  | (digits, rest) => .ok (digits, rest)

def scanInteger : List Char → Except ParseError (List Char × List Char)
  | '0' :: rest =>
    if rest.head?.any Char.isDigit then .error .invalidNumber
    else .ok (['0'], rest)
  | chars => scanDigits chars

def scanFraction : List Char → Except ParseError (List Char × List Char)
  | '.' :: rest => (scanDigits rest).map fun (digits, rest) => ('.' :: digits, rest)
  | chars => .ok ([], chars)

def scanExponent : List Char → Except ParseError (List Char × List Char)
  | [] => .ok ([], [])
  | char :: rest =>
    if char = 'e' ∨ char = 'E' then
      match rest with
      | '+' :: rest => (scanDigits rest).map fun (digits, rest) => (char :: '+' :: digits, rest)
      | '-' :: rest => (scanDigits rest).map fun (digits, rest) => (char :: '-' :: digits, rest)
      | rest => (scanDigits rest).map fun (digits, rest) => (char :: digits, rest)
    else .ok ([], char :: rest)

def scanNumber (chars : List Char) : Except ParseError (List Char × List Char) := do
  let (sign, chars) :=
    match chars with
    | '-' :: rest => (['-'], rest)
    | chars => ([], chars)
  let (integer, chars) ← scanInteger chars
  let (fraction, chars) ← scanFraction chars
  let (exponent, rest) ← scanExponent chars
  return (sign ++ integer ++ fraction ++ exponent, rest)

mutual

/-- The depth is what is left of the bound. -/
def parseValue : ℕ → ℕ → List Char → Except ParseError (Value × List Char)
  | 0, _, _ => .error .exhausted
  | fuel + 1, depth, chars =>
    match skipWhitespace chars with
    | 'n' :: 'u' :: 'l' :: 'l' :: rest => .ok (.null, rest)
    | 't' :: 'r' :: 'u' :: 'e' :: rest => .ok (.bool true, rest)
    | 'f' :: 'a' :: 'l' :: 's' :: 'e' :: rest => .ok (.bool false, rest)
    | '"' :: rest => (parseString rest).map fun (chars, rest) => (.string chars, rest)
    | '[' :: rest =>
      if depth ≤ 1 then .error .recursionLimit
      else
        match skipWhitespace rest with
        | ']' :: rest => .ok (.array [], rest)
        | _ => (parseElements fuel (depth - 1) rest).map
            fun (values, rest) => (.array values, rest)
    | '\x7b' :: rest =>
      if depth ≤ 1 then .error .recursionLimit
      else
        match skipWhitespace rest with
        | '\x7d' :: rest => .ok (.object [], rest)
        | _ => (parseMembers fuel (depth - 1) rest).map
            fun (members, rest) => (.object members, rest)
    | char :: rest =>
      if char = '-' ∨ char.isDigit then
        (scanNumber (char :: rest)).map fun (token, rest) => (.number token, rest)
      else .error .unexpected
    | [] => .error .unexpected

def parseElements : ℕ → ℕ → List Char → Except ParseError (List Value × List Char)
  | 0, _, _ => .error .exhausted
  | fuel + 1, depth, chars => do
      let (value, rest) ← parseValue fuel depth chars
      match skipWhitespace rest with
      | ']' :: rest => return ([value], rest)
      | ',' :: rest =>
        let (values, rest) ← parseElements fuel depth rest
        return (value :: values, rest)
      | _ => throw .unexpected

def parseMembers : ℕ → ℕ → List Char → Except ParseError (List (List Char × Value) × List Char)
  | 0, _, _ => .error .exhausted
  | fuel + 1, depth, chars =>
    match skipWhitespace chars with
    | '"' :: rest => do
        let (key, rest) ← parseString rest
        match skipWhitespace rest with
        | ':' :: rest =>
          let (value, rest) ← parseValue fuel depth rest
          match skipWhitespace rest with
          | '\x7d' :: rest => return ([(key, value)], rest)
          | ',' :: rest =>
            let (members, rest) ← parseMembers fuel depth rest
            return ((key, value) :: members, rest)
          | _ => throw .unexpected
        | _ => throw .unexpected
    | _ => .error .unexpected

end

/-- The number of levels that a parser of untrusted text goes down. -/
def recursionLimit : ℕ := 128

/-- A whole text. -/
def parse (chars : List Char) : Except ParseError Value := do
  let (value, rest) ← parseValue (2 * chars.length + 2) recursionLimit chars
  if skipWhitespace rest = [] then return value else throw .unexpected

variable {rest chars : List Char}

theorem parseString_plain (plain : ∀ char ∈ chars, char ≠ '"' ∧ char ≠ '\\' ∧ 0x20 ≤ char.toNat) :
    parseString (chars ++ '"' :: rest) = .ok (chars, rest) := by
  induction chars with
  | nil => rfl
  | cons char chars ih =>
    obtain ⟨noQuote, noEscape, visible⟩ := plain char List.mem_cons_self
    have shorter := ih fun other member => plain other (List.mem_cons_of_mem char member)
    rw [List.cons_append, parseString.eq_def]
    split
    case h_1 same => cases same
    case h_2 same => exact absurd (List.cons.inj same).1 noQuote
    case h_14 same =>
      cases same
      rw [if_neg (by omega), shorter]
      rfl
    -- All other cases are escapes.
    all_goals next same => exact absurd (List.cons.inj same).1 noEscape

variable {fuel depth : ℕ} {text : List Char}

theorem parseValue_string (parsed : parseString text = .ok (chars, rest)) :
    parseValue (fuel + 1) depth ('"' :: text) = .ok (.string chars, rest) := by
  change (parseString text).map _ = _
  rw [parsed]
  rfl

theorem parseValue_emptyArray (deep : 1 < depth) :
    parseValue (fuel + 1) depth ('[' :: ']' :: rest) = .ok (.array [], rest) := by
  change (if depth ≤ 1 then _ else _) = _
  rw [if_neg (Nat.not_le.mpr deep)]
  rfl

theorem parseValue_array {first : Char} {values : List Value} (deep : 1 < depth)
    (opening : first = '"' ∨ first = '[')
    (parsed : parseElements fuel (depth - 1) (first :: text) = .ok (values, rest)) :
    parseValue (fuel + 1) depth ('[' :: first :: text) = .ok (.array values, rest) := by
  change (if depth ≤ 1 then _ else _) = _
  rw [if_neg (Nat.not_le.mpr deep), parsed]
  obtain rfl | rfl := opening
  · rfl
  · rfl

variable {value : Value}

theorem parseElements_last (parsed : parseValue fuel depth chars = .ok (value, ']' :: rest)) :
    parseElements (fuel + 1) depth chars = .ok ([value], rest) := by
  rw [parseElements, parsed]
  rfl

theorem parseElements_cons {values : List Value}
    (parsed : parseValue fuel depth chars = .ok (value, ',' :: text))
    (others : parseElements fuel depth text = .ok (values, rest)) :
    parseElements (fuel + 1) depth chars = .ok (value :: values, rest) := by
  rw [parseElements, parsed]
  change (parseElements fuel depth text).bind _ = _
  rw [others]
  rfl

theorem parse_eq_ok (parsed : parseValue (2 * chars.length + 2) recursionLimit chars =
      .ok (value, [])) : parse chars = .ok value := by
  simp only [parse, parsed]
  rfl

end Json
