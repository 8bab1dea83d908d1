import IdlBinding.Digits
import IdlBinding.Toml.Value

/-!
# Scalars of a settings document

Strings in their four forms, and the literals without quotes: integers, floating-point numbers,
truth values, dates and times.

The format is TOML 1.1. Beyond version 1.0 it has the escapes `\e` and `\xHH` in strings, and
times may leave out their seconds.
-/

namespace IdlBinding.Toml

/-! ## Characters -/

/-- A blank inside a line. -/
def isBlank (c : Char) : Bool := c = ' ' || c = '\t'

/-- Skip blanks inside a line. -/
def skipBlanks (cs : List Char) : List Char := cs.dropWhile isBlank

/-- A character that may stand in strings and comments: no control character but the tab. -/
def isText (c : Char) : Bool := c = '\t' || (0x20 ≤ c.toNat && c.toNat ≠ 0x7F)

/-- A character of a key without quotes. -/
def isBareKey (c : Char) : Bool := c.isAlphanum || c = '_' || c = '-'

/-! ## Strings -/

/-- The character of a code point, if it is one. -/
def charOf? (n : Nat) : Option Char := if n.isValidChar then some (Char.ofNat n) else none

/-- The character that a backslash and one more character stand for. -/
def escaped? (c : Char) : Option Char :=
  if c = 'b' then some '\x08'
  else if c = 't' then some '\t'
  else if c = 'n' then some '\n'
  else if c = 'f' then some '\x0c'
  else if c = 'r' then some '\r'
  else if c = 'e' then some '\x1b'
  else if c = '"' then some '"'
  else if c = '\\' then some '\\'
  else none

/-- The character of the hexadecimal digits of an escape, which are two, four or eight. -/
def hexChar? (digits : List Char) : Option Char := do
  let ds ← digits.mapM Digits.hexValue?
  charOf? (Digits.toNat 16 ds)

/-- A string between double quotes, after the opening one. -/
def basicString : List Char → Option (List Char × List Char)
  | [] => none
  | '"' :: rest => some ([], rest)
  | '\\' :: 'x' :: a :: b :: rest => do
    let c ← hexChar? [a, b]
    let (text, rest) ← basicString rest
    some (c :: text, rest)
  | '\\' :: 'u' :: a :: b :: c :: d :: rest => do
    let c ← hexChar? [a, b, c, d]
    let (text, rest) ← basicString rest
    some (c :: text, rest)
  | '\\' :: 'U' :: a :: b :: c :: d :: e :: f :: g :: h :: rest => do
    let c ← hexChar? [a, b, c, d, e, f, g, h]
    let (text, rest) ← basicString rest
    some (c :: text, rest)
  | '\\' :: e :: rest => do
    let c ← escaped? e
    let (text, rest) ← basicString rest
    some (c :: text, rest)
  | c :: rest =>
    if isText c && c ≠ '\\' then do
      let (text, rest) ← basicString rest
      some (c :: text, rest)
    else none

/-- A string between single quotes, after the opening one. -/
def literalString : List Char → Option (List Char × List Char)
  | [] => none
  | '\'' :: rest => some ([], rest)
  | c :: rest =>
    if isText c then do
      let (text, rest) ← literalString rest
      some (c :: text, rest)
    else none

/-- Where the reader of a string of several lines stands. -/
inductive Fold where
  /-- in text -/
  | text
  /-- behind a backslash at the end of a line -/
  | lineEnd
  /-- in the blanks and lines that such a backslash takes away -/
  | gap
  deriving DecidableEq

/-- A string of several lines between double quotes, after the opening ones. Up to two quotes may
stand before the closing ones. -/
def multiLineBasic : Fold → List Char → Option (List Char × List Char)
  | _, [] => none
  | .lineEnd, '\n' :: rest => multiLineBasic .gap rest
  | .lineEnd, '\r' :: '\n' :: rest => multiLineBasic .gap rest
  | .lineEnd, c :: rest => if isBlank c then multiLineBasic .lineEnd rest else none
  | .gap, '\n' :: rest => multiLineBasic .gap rest
  | .gap, '\r' :: '\n' :: rest => multiLineBasic .gap rest
  | .gap, ' ' :: rest => multiLineBasic .gap rest
  | .gap, '\t' :: rest => multiLineBasic .gap rest
  | _, '"' :: '"' :: '"' :: '"' :: '"' :: rest => some (['"', '"'], rest)
  | _, '"' :: '"' :: '"' :: '"' :: rest => some (['"'], rest)
  | _, '"' :: '"' :: '"' :: rest => some ([], rest)
  | _, '\\' :: '\n' :: rest => multiLineBasic .gap rest
  | _, '\\' :: '\r' :: '\n' :: rest => multiLineBasic .gap rest
  | _, '\\' :: 'x' :: a :: b :: rest => do
    let c ← hexChar? [a, b]
    let (text, rest) ← multiLineBasic .text rest
    some (c :: text, rest)
  | _, '\\' :: 'u' :: a :: b :: c :: d :: rest => do
    let c ← hexChar? [a, b, c, d]
    let (text, rest) ← multiLineBasic .text rest
    some (c :: text, rest)
  | _, '\\' :: 'U' :: a :: b :: c :: d :: e :: f :: g :: h :: rest => do
    let c ← hexChar? [a, b, c, d, e, f, g, h]
    let (text, rest) ← multiLineBasic .text rest
    some (c :: text, rest)
  | _, '\\' :: e :: rest =>
    if isBlank e then multiLineBasic .lineEnd rest
    else do
      let c ← escaped? e
      let (text, rest) ← multiLineBasic .text rest
      some (c :: text, rest)
  | _, '\r' :: '\n' :: rest => do
    let (text, rest) ← multiLineBasic .text rest
    some ('\r' :: '\n' :: text, rest)
  | _, c :: rest =>
    if (isText c || c = '\n') && c ≠ '\\' then do
      let (text, rest) ← multiLineBasic .text rest
      some (c :: text, rest)
    else none

/-- A string of several lines between single quotes, after the opening ones. -/
def multiLineLiteral : List Char → Option (List Char × List Char)
  | [] => none
  | '\'' :: '\'' :: '\'' :: '\'' :: '\'' :: rest => some (['\'', '\''], rest)
  | '\'' :: '\'' :: '\'' :: '\'' :: rest => some (['\''], rest)
  | '\'' :: '\'' :: '\'' :: rest => some ([], rest)
  | '\r' :: '\n' :: rest => do
    let (text, rest) ← multiLineLiteral rest
    some ('\r' :: '\n' :: text, rest)
  | c :: rest =>
    if isText c || c = '\n' then do
      let (text, rest) ← multiLineLiteral rest
      some (c :: text, rest)
    else none

/-- Drop the line end right after the opening quotes. -/
def dropLineEnd : List Char → List Char
  | '\n' :: rest => rest
  | '\r' :: '\n' :: rest => rest
  | cs => cs

/-- A string in any of its forms. -/
def readString : List Char → Option (List Char × List Char)
  | '"' :: '"' :: '"' :: rest => multiLineBasic .text (dropLineEnd rest)
  | '"' :: rest => basicString rest
  | '\'' :: '\'' :: '\'' :: rest => multiLineLiteral (dropLineEnd rest)
  | '\'' :: rest => literalString rest
  | _ => none

/-! ## Numbers -/

/-- Digits of a base, in groups divided by single underscores. -/
def groupedDigits (radix : Nat) : List Char → Option (List Nat)
  | [] => none
  | [c] => do
    let d ← Digits.value? radix c
    some [d]
  | c :: '_' :: cs => do
    let d ← Digits.value? radix c
    let ds ← groupedDigits radix cs
    some (d :: ds)
  | c :: cs => do
    let d ← Digits.value? radix c
    let ds ← groupedDigits radix cs
    some (d :: ds)

/-- Digits of an integer part in base ten: a lone zero or digits that do not start with zero. -/
def wholeDigits (cs : List Char) : Option (List Nat) :=
  match groupedDigits 10 cs with
  | some (0 :: _ :: _) => none
  | ds => ds

/-- A literal without its sign, and whether the sign is a minus. -/
def splitSign : List Char → Bool × List Char
  | '-' :: cs => (true, cs)
  | '+' :: cs => (false, cs)
  | cs => (false, cs)

/-- The value of an integer literal. The bases other than ten take no sign. -/
def integer? (cs : List Char) : Option Int :=
  match cs with
  | '0' :: 'x' :: ds => (groupedDigits 16 ds).map fun ds => (Digits.toNat 16 ds : Int)
  | '0' :: 'o' :: ds => (groupedDigits 8 ds).map fun ds => (Digits.toNat 8 ds : Int)
  | '0' :: 'b' :: ds => (groupedDigits 2 ds).map fun ds => (Digits.toNat 2 ds : Int)
  | cs =>
    let (negative, digits) := splitSign cs
    (wholeDigits digits).map fun ds =>
      let n : Int := Digits.toNat 10 ds
      if negative then -n else n

/-- An exponent of a floating-point literal, after its mark. -/
def isExponent (cs : List Char) : Bool := (groupedDigits 10 (splitSign cs).2).isSome

/-- A character other than the mark of an exponent. -/
def isBeforeMark (c : Char) : Bool := c ≠ 'e' && c ≠ 'E'

/-- A mantissa of a floating-point literal, and whether it has a point. -/
def mantissa? (cs : List Char) : Option Bool :=
  match cs.dropWhile (· ≠ '.') with
  | [] => (wholeDigits cs).map fun _ => false
  | _ :: fraction => do
    let _ ← wholeDigits (cs.takeWhile (· ≠ '.'))
    let _ ← groupedDigits 10 fraction
    some true

/-- The text is a floating-point literal. -/
def isFloat (cs : List Char) : Bool :=
  let unsigned := (splitSign cs).2
  if unsigned = ['i', 'n', 'f'] || unsigned = ['n', 'a', 'n'] then true
  else
    match unsigned.dropWhile isBeforeMark with
    | [] => mantissa? unsigned == some true
    | _ :: exponent => (mantissa? (unsigned.takeWhile isBeforeMark)).isSome && isExponent exponent

/-! ## Dates and times -/

/-- The number of two digits. -/
def twoDigits? (a b : Char) : Option Nat := do
  let a ← Digits.value? 10 a
  let b ← Digits.value? 10 b
  some (a * 10 + b)

/-- The number of days of a month. -/
def daysOf (year month : Nat) : Nat :=
  if month = 2 then if year % 4 = 0 && (year % 100 ≠ 0 || year % 400 = 0) then 29 else 28
  else if month = 4 || month = 6 || month = 9 || month = 11 then 30
  else 31

/-- The rest after a date. -/
def dateRest? : List Char → Option (List Char)
  | a :: b :: c :: d :: '-' :: e :: f :: '-' :: g :: h :: rest => do
    let century ← twoDigits? a b
    let short ← twoDigits? c d
    let month ← twoDigits? e f
    let day ← twoDigits? g h
    if 1 ≤ month && month ≤ 12 && 1 ≤ day && day ≤ daysOf (century * 100 + short) month then
      some rest
    else none
  | _ => none

/-- The rest after the seconds of a time, which may be left out and may have a fraction. -/
def secondsRest? : List Char → Option (List Char)
  | ':' :: a :: b :: rest => do
    let second ← twoDigits? a b
    if second ≤ 60 then
      match rest with
      | '.' :: fraction =>
        match Digits.span 10 fraction with
        | ([], _) => none
        | (_, rest) => some rest
      | rest => some rest
    else none
  | rest => some rest

/-- The rest after a time of day. -/
def timeRest? : List Char → Option (List Char)
  | a :: b :: ':' :: c :: d :: rest => do
    let hour ← twoDigits? a b
    let minute ← twoDigits? c d
    if hour ≤ 23 && minute ≤ 59 then secondsRest? rest else none
  | _ => none

/-- The text is empty or the offset of a time zone. -/
def isOffset : List Char → Bool
  | [] | ['Z'] | ['z'] => true
  | [sign, a, b, ':', c, d] =>
    (sign = '+' || sign = '-')
      && (twoDigits? a b).any (· ≤ 23) && (twoDigits? c d).any (· ≤ 59)
  | _ => false

/-- The text is a date, a time or both. -/
def isDateTime (cs : List Char) : Bool :=
  match dateRest? cs with
  | some [] => true
  | some (c :: rest) =>
    (c = 'T' || c = 't' || c = ' ') && (timeRest? rest).any isOffset
  | none => timeRest? cs == some []

/-! ## Literals without quotes -/

/-- A character of a literal without quotes. -/
def isLiteralChar (c : Char) : Bool :=
  c.isAlphanum || c = '_' || c = '-' || c = '+' || c = '.' || c = ':'

/-- The literal at the front of a text. A date may go on with one blank and a time. -/
def splitLiteral (cs : List Char) : List Char × List Char :=
  let first := cs.takeWhile isLiteralChar
  let rest := cs.dropWhile isLiteralChar
  match rest with
  | ' ' :: c :: more =>
    if dateRest? first == some [] && c.isDigit then
      (first ++ ' ' :: (c :: more).takeWhile isLiteralChar, (c :: more).dropWhile isLiteralChar)
    else (first, rest)
  | _ => (first, rest)

/-- The value of a literal without quotes. -/
def literalValue? (cs : List Char) : Option Value :=
  if cs = ['t', 'r', 'u', 'e'] then some (.boolean true)
  else if cs = ['f', 'a', 'l', 's', 'e'] then some (.boolean false)
  else
    match integer? cs with
    | some n => some (.integer n)
    | none =>
      if isFloat cs then some (.float (String.ofList cs))
      else if isDateTime cs then some (.dateTime (String.ofList cs))
      else none

end IdlBinding.Toml
