import Zeron.Data.JsonValue

namespace Zeron.Data.JsonText

/-! # JSON text

A text is read into tokens one character at a time, and the tokens into a value over a stack of the
arrays and objects that are open.  The compact text of a value is read back as the value.
-/

abbrev Text := List Char

inductive Token (ν : Type) where
  | openArray
  | closeArray
  | openObject
  | closeObject
  | colon
  | comma
  | null
  | bool (value : Bool)
  | string (text : Units)
  | number (value : ν)
deriving DecidableEq

/-! ## Strings -/

/-- The 16-bit units of a character. -/
def unitsOf (c : Char) : Units :=
  if c.toNat < 0x10000 then [UInt16.ofNat c.toNat]
  else
    [UInt16.ofNat (0xD800 + (c.toNat - 0x10000) / 0x400),
      UInt16.ofNat (0xDC00 + (c.toNat - 0x10000) % 0x400)]

/-- The character two surrogates stand for. -/
def pairChar (high low : UInt16) : Char :=
  Char.ofNat (0x10000 + (high.toNat - 0xD800) * 0x400 + (low.toNat - 0xDC00))

def hexDigits (code : Nat) : Text :=
  [Nat.digitChar (code / 0x1000 % 16), Nat.digitChar (code / 0x100 % 16),
    Nat.digitChar (code / 0x10 % 16), Nat.digitChar (code % 16)]

def escapeUnit (unit : UInt16) : Text :=
  let code := unit.toNat
  if code = 0x22 then ['\\', '"']
  else if code = 0x5C then ['\\', '\\']
  else if code = 0x8 then ['\\', 'b']
  else if code = 0x9 then ['\\', 't']
  else if code = 0xA then ['\\', 'n']
  else if code = 0xC then ['\\', 'f']
  else if code = 0xD then ['\\', 'r']
  else if code < 0x20 ∨ (isHigh unit || isLow unit) = true then '\\' :: 'u' :: hexDigits code
  else [Char.ofNat code]

/-- What stands between the quotes: a pair of surrogates is its character, and a surrogate without
its other half is escaped. -/
def escapeUnits : Units → Text
  | [] => []
  | [unit] => escapeUnit unit
  | unit :: next :: rest =>
      if isHigh unit && isLow next then pairChar unit next :: escapeUnits rest
      else escapeUnit unit ++ escapeUnits (next :: rest)

/-- Every surrogate is half of a pair. -/
def paired : Units → Bool
  | [] => true
  | [unit] => !(isHigh unit || isLow unit)
  | unit :: next :: rest =>
      if isHigh unit && isLow next then paired rest
      else !(isHigh unit || isLow unit) && paired (next :: rest)

/-! ## Numbers -/

def isExponent : Text → Bool
  | [] => true
  | mark :: rest =>
      let digits := if rest.head? = some '+' ∨ rest.head? = some '-' then rest.tail else rest
      (mark = 'e' || mark = 'E') && !digits.isEmpty && digits.all Char.isDigit

def isFraction : Text → Bool
  | '.' :: rest => !(rest.takeWhile Char.isDigit).isEmpty && isExponent (rest.dropWhile Char.isDigit)
  | rest => isExponent rest

/-- A number literal. -/
def isNumber (literal : Text) : Bool :=
  let body := if literal.head? = some '-' then literal.tail else literal
  let whole := body.takeWhile Char.isDigit
  !whole.isEmpty && (decide (whole.head? ≠ some '0') || decide (whole.length = 1)) &&
    isFraction (body.dropWhile Char.isDigit)

/-- The characters a number literal is made of. -/
def isNumberChar (c : Char) : Bool := c.isDigit || ['+', '-', '.', 'e', 'E'].contains c

/-! ## Characters into tokens -/

inductive Mode where
  | between
  | string (text : Units)
  | escape (text : Units)
  | hex (text : Units) (code left : Nat)
  | number (literal : Text)
  | word (letters : Text)

def isSpace (c : Char) : Bool := [' ', '\t', '\n', '\r'].contains c

def punctuation (c : Char) : Option (Token Text) :=
  if c = '[' then some .openArray
  else if c = ']' then some .closeArray
  else if c = '\x7b' then some .openObject
  else if c = '\x7d' then some .closeObject
  else if c = ':' then some .colon
  else if c = ',' then some .comma
  else none

def keyword (letters : Text) : Option (Token Text) :=
  if letters = "null".toList then some .null
  else if letters = "true".toList then some (.bool true)
  else if letters = "false".toList then some (.bool false)
  else none

def simpleEscape (c : Char) : Option UInt16 :=
  if c = '"' then some 0x22
  else if c = '\\' then some 0x5C
  else if c = '/' then some 0x2F
  else if c = 'b' then some 0x8
  else if c = 't' then some 0x9
  else if c = 'n' then some 0xA
  else if c = 'f' then some 0xC
  else if c = 'r' then some 0xD
  else none

def hexValue (c : Char) : Option Nat :=
  if '0' ≤ c ∧ c ≤ '9' then some (c.toNat - 48)
  else if 'a' ≤ c ∧ c ≤ 'f' then some (c.toNat - 87)
  else if 'A' ≤ c ∧ c ≤ 'F' then some (c.toNat - 55)
  else none

/-- A character between two tokens. -/
def start (c : Char) : Option (List (Token Text) × Mode) :=
  if isSpace c then some ([], .between)
  else if c = '"' then some ([], .string [])
  else if c = '-' ∨ c.isDigit = true then some ([], .number [c])
  else if c.isAlpha then some ([], .word [c])
  else (punctuation c).map fun token => ([token], .between)

/-- The token that the end of the text ends. -/
def flush : Mode → Option (List (Token Text))
  | .between => some []
  | .number literal => if isNumber literal then some [.number literal] else none
  | .word letters => (keyword letters).map fun token => [token]
  | _ => none

/-- A character that ends the token before it. -/
def restart (mode : Mode) (c : Char) : Option (List (Token Text) × Mode) :=
  (flush mode).bind fun done => (start c).map fun out => (done ++ out.1, out.2)

def scan : Mode → Char → Option (List (Token Text) × Mode)
  | .between, c => start c
  | .string text, c =>
      if c = '"' then some ([.string text], .between)
      else if c = '\\' then some ([], .escape text)
      else if c.toNat < 0x20 then none
      else some ([], .string (text ++ unitsOf c))
  | .escape text, c =>
      if c = 'u' then some ([], .hex text 0 3)
      else (simpleEscape c).map fun unit => ([], .string (text ++ [unit]))
  | .hex text code left, c =>
      (hexValue c).map fun digit =>
        if left = 0 then ([], .string (text ++ [UInt16.ofNat (code * 16 + digit)]))
        else ([], .hex text (code * 16 + digit) (left - 1))
  | .number literal, c =>
      if isNumberChar c then some ([], .number (literal ++ [c])) else restart (.number literal) c
  | .word letters, c =>
      if c.isAlpha then some ([], .word (letters ++ [c])) else restart (.word letters) c

def lex : Mode → Text → Option (List (Token Text))
  | mode, [] => flush mode
  | mode, c :: rest => (scan mode c).bind fun out => (lex out.2 rest).map fun tokens => out.1 ++ tokens

/-! ## Tokens into a value -/

/-- An array or object that is open, and what it holds so far. -/
inductive Frame (ν : Type) where
  | items (done : List (Value ν))
  | entries (done : List (Units × Value ν))
  | member (done : List (Units × Value ν)) (key : Units)

/-- What comes next. -/
inductive Need (ν : Type) where
  | value
  | itemOrEnd
  | key
  | keyOrEnd
  | colon
  | more
  | nothing (value : Value ν)

variable {ν : Type}

def place (value : Value ν) : List (Frame ν) → Option (List (Frame ν) × Need ν)
  | [] => some ([], .nothing value)
  | .items done :: rest => some (.items (done ++ [value]) :: rest, .more)
  | .member done key :: rest => some (.entries (done ++ [(key, value)]) :: rest, .more)
  | .entries _ :: _ => none

/-- A token that starts a value. -/
def startValue (stack : List (Frame ν)) : Token ν → Option (List (Frame ν) × Need ν)
  | .openArray => some (.items [] :: stack, .itemOrEnd)
  | .openObject => some (.entries [] :: stack, .keyOrEnd)
  | .null => place .null stack
  | .bool value => place (.bool value) stack
  | .string text => place (.string text) stack
  | .number value => place (.number value) stack
  | _ => none

def startKey : List (Frame ν) → Token ν → Option (List (Frame ν) × Need ν)
  | .entries done :: rest, .string key => some (.member done key :: rest, .colon)
  | _, _ => none

/-- A token that ends the innermost array or object. -/
def close : List (Frame ν) → Token ν → Option (List (Frame ν) × Need ν)
  | .items done :: rest, .closeArray => place (.array done) rest
  | .entries done :: rest, .closeObject => place (.object done) rest
  | _, _ => none

def advance : List (Frame ν) × Need ν → Token ν → Option (List (Frame ν) × Need ν)
  | (stack, .value), token => startValue stack token
  | (stack, .itemOrEnd), token =>
      match token with
      | .closeArray => close stack .closeArray
      | token => startValue stack token
  | (stack, .key), token => startKey stack token
  | (stack, .keyOrEnd), token =>
      match token with
      | .closeObject => close stack .closeObject
      | token => startKey stack token
  | (stack, .colon), token =>
      match token with
      | .colon => some (stack, .value)
      | _ => none
  | (stack, .more), token =>
      match token, stack with
      | .comma, .items done :: rest => some (.items done :: rest, .value)
      | .comma, .entries done :: rest => some (.entries done :: rest, .key)
      | token, stack => close stack token
  | (_, .nothing _), _ => none

def build (tokens : List (Token ν)) : Option (Value ν) :=
  (tokens.foldlM advance ([], .value)).bind fun last =>
    match last.2 with
    | .nothing value => some value
    | _ => none

/-- The value of a JSON text, its numbers as they are written. -/
def parse (text : Text) : Option (Value Text) := (lex .between text).bind build

/-! ## Compact text -/

mutual
def tokens : Value ν → List (Token ν)
  | .null => [.null]
  | .bool value => [.bool value]
  | .string text => [.string text]
  | .number value => [.number value]
  | .array items => .openArray :: (itemTokens true items ++ [.closeArray])
  | .object entries => .openObject :: (entryTokens true entries ++ [.closeObject])

def itemTokens (first : Bool) : List (Value ν) → List (Token ν)
  | [] => []
  | item :: rest => (if first then [] else [.comma]) ++ tokens item ++ itemTokens false rest

def entryTokens (first : Bool) : List (Units × Value ν) → List (Token ν)
  | [] => []
  | (key, value) :: rest =>
      (if first then [] else [.comma]) ++ .string key :: .colon :: tokens value ++
        entryTokens false rest
end

def tokenText : Token Text → Text
  | .openArray => ['[']
  | .closeArray => [']']
  | .openObject => ['\x7b']
  | .closeObject => ['\x7d']
  | .colon => [':']
  | .comma => [',']
  | .null => "null".toList
  | .bool true => "true".toList
  | .bool false => "false".toList
  | .string text => '"' :: (escapeUnits text ++ ['"'])
  | .number literal => literal

/-- The compact text of a value. -/
def render (value : Value Text) : Text := (tokens value).flatMap tokenText

end Zeron.Data.JsonText
