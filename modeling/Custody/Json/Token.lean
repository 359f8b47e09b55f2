import Custody.Json.Value
import Custody.Text.Decimal

/-!
# JSON tokens

A text is read one character at a time.  The state says what the character stands in: between
tokens, in a word, in a number or in a string.  A word or a number ends with the first character
that cannot continue it, and what was read is then judged as a whole.  A stretch of bytes that is
no character may stand inside a string and nowhere else; the string then denotes no text.

* `Scan.step`: the tokens that a character completes, and the next state.
* `numeral?`: the numbers of the grammar: no leading zero, no leading plus, digits on both sides
  of the point.
* `pairUnits`: a character outside the basic plane may be written as two `\u` units, a high and a
  low surrogate; a surrogate on its own denotes nothing.
-/

namespace Custody.Json

/-- A token of a JSON text. -/
inductive Token where
  | openList
  | closeList
  | openObject
  | closeObject
  | comma
  | colon
  /-- A number or one of the three words. -/
  | literal (value : Json)
  /-- A string, or `none` if it holds an unpaired surrogate or bytes that are no character. -/
  | text (s : Option String)

/-! ### Numbers -/

/-- Splits off the leading digits. -/
def spanDigits (cs : List Char) : List Char × List Char := cs.span Char.isDigit

/-- The exponent after its letter: an optional sign and digits, to the end. -/
def exponent? : List Char → Option Int
  | '-' :: cs => (Decimal.read? cs).map fun n => -(n : Int)
  | '+' :: cs => (Decimal.read? cs).map fun n => (n : Int)
  | cs => (Decimal.read? cs).map fun n => (n : Int)

/-- Appends digits to a number as long as it fits in 64 bits; answers the digits left over too. -/
def absorb (n : Nat) : List Char → Nat × List Char
  | [] => (n, [])
  | c :: cs =>
    let m := Nat.ofDigitChars 10 [c] n
    if m < UInt64.size then absorb m cs else (n, c :: cs)

/-- Whether the number with these digits before and after the point and this exponent is a
double.  The leading digits that fit in 64 bits make the significand.  Further digits are dropped:
before the point each of them raises the exponent by one, after it they count for nothing. -/
def isDouble (whole fraction : List Char) (exponent : Int) : Bool :=
  let (n, dropped) := absorb 0 whole
  let (significand, ignored) := absorb n fraction
  let places := fraction.length - ignored.length
  isFinite significand (exponent + dropped.length - places)

/-- The number with this sign, these digits before and after the point and this exponent, if it
is not beyond the doubles. -/
def realNumber (negative : Bool) (whole fraction : List Char) (exponent : Int) : Json :=
  if isDouble whole fraction exponent then
    real negative (Nat.ofDigitChars 10 (whole ++ fraction) 0) (exponent - fraction.length)
  else unreadable

/-- The number with this sign and these digits alone. -/
def wholeNumber (negative : Bool) (whole : List Char) : Json :=
  let n := Nat.ofDigitChars 10 whole 0
  if negative && n == 0 then real true 0 0
  else if isDouble whole [] 0 then int (if negative then -(n : Int) else n)
  else unreadable

/-- What follows the digits before the point: nothing, a fraction, an exponent, or both. -/
def scaled? (negative : Bool) (whole : List Char) : List Char → Option Json
  | [] => some (wholeNumber negative whole)
  | '.' :: cs =>
    let (fraction, rest) := spanDigits cs
    if fraction.isEmpty then none
    else match rest with
      | [] => some (realNumber negative whole fraction 0)
      | e :: rest =>
        if e = 'e' ∨ e = 'E' then
          (exponent? rest).map (realNumber negative whole fraction)
        else none
  | e :: cs =>
    if e = 'e' ∨ e = 'E' then (exponent? cs).map (realNumber negative whole [])
    else none

/-- The number that begins with these digits, which hold no needless zero in front. -/
def unsigned? (negative : Bool) (cs : List Char) : Option Json :=
  let (whole, rest) := spanDigits cs
  match whole with
  | [] => none
  | '0' :: _ :: _ => none
  | _ => scaled? negative whole rest

/-- The number that the characters denote. -/
def numeral? : List Char → Option Json
  | '-' :: cs => unsigned? true cs
  | cs => unsigned? false cs

/-! ### Words and strings -/

/-- The value that a word denotes. -/
def word? : List Char → Option Json
  | ['n', 'u', 'l', 'l'] => some null
  | ['t', 'r', 'u', 'e'] => some (bool true)
  | ['f', 'a', 'l', 's', 'e'] => some (bool false)
  | _ => none

/-- The value of a hexadecimal digit. -/
def hexValue? (c : Char) : Option Nat :=
  let n := c.toNat
  if 0x30 ≤ n ∧ n ≤ 0x39 then some (n - 0x30)
  else if 0x61 ≤ n ∧ n ≤ 0x66 then some (n - 0x57)
  else if 0x41 ≤ n ∧ n ≤ 0x46 then some (n - 0x37)
  else none

/-- The character that a backslash and a letter other than `u` denote. -/
def shortEscape? : Char → Option Char
  | '"' => some '"'
  | '\\' => some '\\'
  | '/' => some '/'
  | 'b' => some '\x08'
  | 'f' => some '\x0c'
  | 'n' => some '\n'
  | 'r' => some '\r'
  | 't' => some '\t'
  | _ => none

/-- A part of a string. -/
inductive Unit16 where
  | char (c : Char)
  /-- A sixteen-bit unit written as an escape. -/
  | unit (n : Nat)
  /-- Bytes that are no character. -/
  | broken

/-- Whether the unit is the first half of a pair. -/
def isHighSurrogate (n : Nat) : Bool := 0xD800 ≤ n && n < 0xDC00

/-- Whether the unit is the second half of a pair. -/
def isLowSurrogate (n : Nat) : Bool := 0xDC00 ≤ n && n < 0xE000

/-- The characters of a string, if each surrogate has its other half and no part is broken. -/
def pairUnits : List Unit16 → Option (List Char)
  | [] => some []
  | .char c :: rest => (pairUnits rest).map (c :: ·)
  | .broken :: _ => none
  | .unit h :: .unit l :: rest =>
    if isHighSurrogate h && isLowSurrogate l then
      (pairUnits rest).map (Char.ofNat (0x10000 + (h - 0xD800) * 0x400 + (l - 0xDC00)) :: ·)
    else if isHighSurrogate h || isLowSurrogate h then none
    else (pairUnits (.unit l :: rest)).map (Char.ofNat h :: ·)
  | .unit h :: rest =>
    if isHighSurrogate h || isLowSurrogate h then none
    else (pairUnits rest).map (Char.ofNat h :: ·)

/-! ### The scanner -/

/-- Where in an escape a string stands. -/
inductive Escape where
  /-- Not in an escape. -/
  | outside
  /-- Just after a backslash. -/
  | slash
  /-- In a `\u` escape with this many digits to come and this value so far. -/
  | hex (toCome : Nat) (value : Nat)

/-- What the next character stands in; what was read of it is kept latest first. -/
inductive Scan where
  | between
  | word (read : List Char)
  | number (read : List Char)
  | string (read : List Unit16) (escape : Escape)

/-- Blanks between tokens. -/
def isBlank (c : Char) : Bool := c = ' ' || c = '\t' || c = '\n' || c = '\r'

/-- The characters of numbers. -/
def isNumberChar (c : Char) : Bool := c.isDigit || c = '-' || c = '+' || c = '.' || c = 'e' || c = 'E'

namespace Scan

/-- A character between tokens. -/
def start (c : Char) : Option (List Token × Scan) :=
  if isBlank c then some ([], between)
  else if c = '"' then some ([], string [] .outside)
  else if c.isDigit || c = '-' then some ([], number [c])
  else if c.isLower then some ([], word [c])
  else match c with
    | '[' => some ([.openList], between)
    | ']' => some ([.closeList], between)
    | '{' => some ([.openObject], between)
    | '}' => some ([.closeObject], between)
    | ',' => some ([.comma], between)
    | ':' => some ([.colon], between)
    | _ => none

/-- A character inside a string. -/
def inString (read : List Unit16) : Escape → Char → Option (List Token × Scan)
  | .outside, c =>
    if c = '"' then some ([.text ((pairUnits read.reverse).map String.ofList)], between)
    else if c = '\\' then some ([], string read .slash)
    else if c.toNat < 0x20 then none
    else some ([], string (.char c :: read) .outside)
  | .slash, c =>
    if c = 'u' then some ([], string read (.hex 4 0))
    else (shortEscape? c).map fun d => ([], string (.char d :: read) .outside)
  | .hex toCome value, c =>
    (hexValue? c).map fun d =>
      if toCome ≤ 1 then ([], string (.unit (value * 16 + d) :: read) .outside)
      else ([], string read (.hex (toCome - 1) (value * 16 + d)))

/-- The tokens that the end of the text completes. -/
def finish? : Scan → Option (List Token)
  | between => some []
  | word read => (word? read.reverse).map fun j => [.literal j]
  | number read => (numeral? read.reverse).map fun j => [.literal j]
  | string _ _ => none

/-- Ends the token and begins afresh with the character. -/
def endThen (s : Scan) (c : Char) : Option (List Token × Scan) :=
  match s.finish?, start c with
  | some done, some (tokens, next) => some (done ++ tokens, next)
  | _, _ => none

/-- The tokens that a character completes, and the state after it; `none` stands for a stretch of
bytes that is no character. -/
def step : Scan → Option Char → Option (List Token × Scan)
  | between, some c => start c
  | string read escape, some c => inString read escape c
  | word read, some c =>
    if c.isLower then some ([], word (c :: read)) else endThen (word read) c
  | number read, some c =>
    if isNumberChar c then some ([], number (c :: read)) else endThen (number read) c
  | string read .outside, none => some ([], string (.broken :: read) .outside)
  | _, none => none

end Scan

end Custody.Json
