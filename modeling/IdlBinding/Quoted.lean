import IdlBinding.Digits

/-!
# Quoted text

String literals as they stand in data and in emitted code.

* `quote` writes a text between double quotes. Quotes, backslashes and the control characters
  below U+0020 are escaped, everything else stands for itself.
* `read` reads one literal off the front of a text and leaves the rest. It accepts every escape of
  the data format, among them `\uXXXX` units, which have to pair up where they are surrogates.

Reading goes in two steps. `scan` finds the extent of the literal and checks its escapes, `join`
puts its 16-bit units together. A literal may pass the first step and fail the second: such a
literal can be skipped but has no text.
-/

namespace IdlBinding.Quoted

/-! ## Writing -/

/-- The lower-case hexadecimal digit of a number below 16. -/
def hexDigit (n : Nat) : Char :=
  if n < 10 then Char.ofNat (0x30 + n) else Char.ofNat (0x57 + n)

/-- What stands for a character inside a literal. -/
def encodeChar (c : Char) : List Char :=
  if c = '"' then ['\\', '"']
  else if c = '\\' then ['\\', '\\']
  else if c = '\x08' then ['\\', 'b']
  else if c = '\x0c' then ['\\', 'f']
  else if c = '\n' then ['\\', 'n']
  else if c = '\r' then ['\\', 'r']
  else if c = '\t' then ['\\', 't']
  else if c.toNat < 0x20 then
    ['\\', 'u', '0', '0', hexDigit (c.toNat / 16), hexDigit (c.toNat % 16)]
  else [c]

/-- The inside of a literal. -/
def encode (cs : List Char) : List Char := cs.flatMap encodeChar

/-- The literal of a text, quotes included. -/
def quote (s : String) : String := String.ofList ('"' :: (encode s.toList ++ ['"']))

@[simp] theorem encode_nil : encode [] = [] := rfl

@[simp] theorem encode_cons (c : Char) (cs : List Char) :
    encode (c :: cs) = encodeChar c ++ encode cs := rfl

theorem toList_quote (s : String) :
    (quote s).toList = '"' :: (encode s.toList ++ ['"']) := String.toList_ofList

/-! ## Reading -/

/-- One element of a literal. -/
inductive Piece where
  /-- a character, given directly or by a short escape -/
  | char (c : Char)
  /-- a 16-bit unit, given by a `\u` escape -/
  | unit (value : Nat)
  deriving DecidableEq, Repr

/-- The value of four hexadecimal digits. -/
def hexUnit? (a b c d : Char) : Option Nat := do
  let a ← Digits.hexValue? a
  let b ← Digits.hexValue? b
  let c ← Digits.hexValue? c
  let d ← Digits.hexValue? d
  some (((a * 16 + b) * 16 + c) * 16 + d)

/-- The character that a backslash and one more character stand for. -/
def escaped? (c : Char) : Option Char :=
  if c = '"' then some '"'
  else if c = '\\' then some '\\'
  else if c = '/' then some '/'
  else if c = 'b' then some '\x08'
  else if c = 'f' then some '\x0c'
  else if c = 'n' then some '\n'
  else if c = 'r' then some '\r'
  else if c = 't' then some '\t'
  else none

/-- The pieces up to the closing quote, and the text after it. -/
def scan : List Char → Option (List Piece × List Char)
  | [] => none
  | '"' :: rest => some ([], rest)
  | '\\' :: 'u' :: a :: b :: c :: d :: rest => do
    let u ← hexUnit? a b c d
    let (pieces, rest) ← scan rest
    some (.unit u :: pieces, rest)
  | '\\' :: e :: rest => do
    let c ← escaped? e
    let (pieces, rest) ← scan rest
    some (.char c :: pieces, rest)
  | c :: rest =>
    if c.toNat < 0x20 || c = '\\' then none
    else do
      let (pieces, rest) ← scan rest
      some (.char c :: pieces, rest)

/-- The unit opens a surrogate pair. -/
def isLeading (u : Nat) : Bool := 0xD800 ≤ u && u < 0xDC00

/-- The unit closes a surrogate pair. -/
def isTrailing (u : Nat) : Bool := 0xDC00 ≤ u && u < 0xE000

/-- The character of a surrogate pair. -/
def pairChar (u v : Nat) : Char := Char.ofNat (0x10000 + (u - 0xD800) * 0x400 + (v - 0xDC00))

/-- The characters of a list of pieces, unless a surrogate stands alone. -/
def join : List Piece → Option (List Char)
  | [] => some []
  | .char c :: pieces => (join pieces).map (c :: ·)
  | .unit u :: pieces =>
    if isTrailing u then none
    else if isLeading u then
      match pieces with
      | .unit v :: pieces =>
        if isTrailing v then (join pieces).map (pairChar u v :: ·) else none
      | _ => none
    else (join pieces).map (Char.ofNat u :: ·)

/-- Read one literal, opening quote included. -/
def read : List Char → Option (List Char × List Char)
  | '"' :: rest => do
    let (pieces, rest) ← scan rest
    let text ← join pieces
    some (text, rest)
  | _ => none

end IdlBinding.Quoted
