import Mathlib.Algebra.Field.Rat
import Nonsense.Json
import Nonsense.Lib.Utf8

/-!
# The lexer

`nlohmann::detail::lexer`, which takes a JSON text apart into tokens.  A text is a list of
bytes, as the numbers that `get` returns; where there are none left, `get` returns the end of
the file.

`scan_string` and `scan_number` read one byte after the other.  `StringPc` and `NumberPc` are
the places where they call `get`, and say what becomes of the byte.  What a parse error says is
left out: a token is an error or it is none.

The locale is "C", which no program here changes.
-/

namespace Nonsense

/-- A text. -/
abbrev Bytes := List ℕ

/-- What stands for floating-point numbers. -/
structure Floats where
  /-- What `strtod` of the C library rounds to, behind the sign, and nothing where that is not
  finite. -/
  round : ℚ≥0 → Option ℚ≥0
  /-- `grisu2`: the digits of a positive number, and the exponent of the last one. -/
  grisu2 : ℚ≥0 → Bytes × ℤ

namespace Lexer

/-- A token, with the value that goes with it. -/
inductive Token
  | literalTrue
  | literalFalse
  | literalNull
  | valueString (s : Bytes)
  | valueUnsigned (n : ℕ)
  | valueInteger (n : ℤ)
  /-- Nothing for a number that is not finite. -/
  | valueFloat (x : Option Double)
  | beginArray
  | beginObject
  | endArray
  | endObject
  | nameSeparator
  | valueSeparator
  | parseError
  | endOfInput

/-! ### Strings -/

/-- Where `scan_string` calls `get`. -/
inductive StringPc
  /-- In its loop. -/
  | next
  /-- In `next_byte_in_range`, with the ranges that are left. -/
  | ranges (l : List (ℕ × ℕ))
  /-- Behind a backslash. -/
  | escape
  /-- In `get_codepoint`, with the factors that are left and what has been added up; `high` is
  the codepoint before, where it is a high surrogate. -/
  | codepoint (factors : List ℕ) (sum : ℕ) (high : Option ℕ)
  /-- Behind a high surrogate, before the backslash. -/
  | surrogate (high : ℕ)
  /-- Behind a high surrogate and a backslash, before the `u`. -/
  | surrogateU (high : ℕ)

/-- The ranges for the bytes behind the first one of a character. -/
def continuation (b : ℕ) : Option (List (ℕ × ℕ)) :=
  -- U+0020..U+007F
  if 0x20 ≤ b ∧ b ≤ 0x7F then some []
  -- U+0080..U+07FF
  else if 0xC2 ≤ b ∧ b ≤ 0xDF then some [(0x80, 0xBF)]
  -- U+0800..U+0FFF
  else if b = 0xE0 then some [(0xA0, 0xBF), (0x80, 0xBF)]
  -- U+1000..U+CFFF and U+E000..U+FFFF
  else if (0xE1 ≤ b ∧ b ≤ 0xEC) ∨ b = 0xEE ∨ b = 0xEF then some [(0x80, 0xBF), (0x80, 0xBF)]
  -- U+D000..U+D7FF
  else if b = 0xED then some [(0x80, 0x9F), (0x80, 0xBF)]
  -- U+10000..U+3FFFF
  else if b = 0xF0 then some [(0x90, 0xBF), (0x80, 0xBF), (0x80, 0xBF)]
  -- U+40000..U+FFFFF
  else if 0xF1 ≤ b ∧ b ≤ 0xF3 then some [(0x80, 0xBF), (0x80, 0xBF), (0x80, 0xBF)]
  -- U+100000..U+10FFFF
  else if b = 0xF4 then some [(0x80, 0x8F), (0x80, 0xBF), (0x80, 0xBF)]
  -- control characters, and 80..C1 and F5..FF
  else none

/-- The byte that an escape with one character stands for. -/
def escaped (b : ℕ) : Option ℕ :=
  if b = 0x22 then some 0x22       -- `"`
  else if b = 0x5C then some 0x5C  -- `\`
  else if b = 0x2F then some 0x2F  -- `/`
  else if b = 0x62 then some 0x08  -- `b`
  else if b = 0x66 then some 0x0C  -- `f`
  else if b = 0x6E then some 0x0A  -- `n`
  else if b = 0x72 then some 0x0D  -- `r`
  else if b = 0x74 then some 0x09  -- `t`
  else none

/-- A hexadecimal digit. -/
def hexDigit (b : ℕ) : Option ℕ :=
  if 0x30 ≤ b ∧ b ≤ 0x39 then some (b - 0x30)
  else if 0x41 ≤ b ∧ b ≤ 0x46 then some (b - 0x37)
  else if 0x61 ≤ b ∧ b ≤ 0x66 then some (b - 0x57)
  else none

/-- Translate a codepoint into bytes. -/
def codepointBytes (codepoint : ℕ) : Bytes :=
  if codepoint < 0x80 then [codepoint]
  else if codepoint ≤ 0x7FF then
    [0xC0 ||| codepoint >>> 6, 0x80 ||| codepoint &&& 0x3F]
  else if codepoint ≤ 0xFFFF then
    [0xE0 ||| codepoint >>> 12, 0x80 ||| codepoint >>> 6 &&& 0x3F, 0x80 ||| codepoint &&& 0x3F]
  else
    [0xF0 ||| codepoint >>> 18, 0x80 ||| codepoint >>> 12 &&& 0x3F,
      0x80 ||| codepoint >>> 6 &&& 0x3F, 0x80 ||| codepoint &&& 0x3F]

def isHighSurrogate (codepoint : ℕ) : Bool := 0xD800 ≤ codepoint ∧ codepoint ≤ 0xDBFF

def isLowSurrogate (codepoint : ℕ) : Bool := 0xDC00 ≤ codepoint ∧ codepoint ≤ 0xDFFF

/-- Behind the four digits of a codepoint. -/
def afterCodepoint (codepoint : ℕ) : Option ℕ → Option (StringPc × Bytes)
  | none =>
    if isHighSurrogate codepoint then some (.surrogate codepoint, [])
    else if isLowSurrogate codepoint then none
    else some (.next, codepointBytes codepoint)
  | some high =>
    if isLowSurrogate codepoint then
      some (.next, codepointBytes ((high <<< 10) + codepoint - 0x35FDC00))
    else none

/-- What becomes of a byte that does not close the string, and what it adds. -/
def StringPc.step (b : ℕ) : StringPc → Option (StringPc × Bytes)
  | .next =>
    if b = 0x5C then some (.escape, [])
    else (continuation b).map fun l => (if l = [] then .next else .ranges l, [b])
  | .ranges [] => none
  | .ranges ((low, high) :: l) =>
    if low ≤ b ∧ b ≤ high then some (if l = [] then .next else .ranges l, [b]) else none
  | .escape =>
    if b = 0x75 then some (.codepoint [12, 8, 4, 0] 0 none, [])
    else (escaped b).map fun c => (.next, [c])
  | .codepoint [] _ _ => none
  | .codepoint (factor :: factors) sum high =>
    (hexDigit b).bind fun digit =>
      if factors = [] then afterCodepoint (sum + digit <<< factor) high
      else some (.codepoint factors (sum + digit <<< factor) high, [])
  | .surrogate high => if b = 0x5C then some (.surrogateU high, []) else none
  | .surrogateU high => if b = 0x75 then some (.codepoint [12, 8, 4, 0] 0 (some high), []) else none

/-- The closing quote. -/
def StringPc.closes (b : ℕ) : StringPc → Bool
  | .next => b = 0x22
  | _ => false

/-- `scan_string`, behind the opening quote: what is in the buffer so far, and what is left of
the text. -/
def scanString : StringPc → Bytes → Bytes → Token × Bytes
  | _, _, [] => (.parseError, [])
  | pc, buffer, b :: rest =>
    if pc.closes b then (.valueString buffer, rest)
    else match pc.step b with
      | none => (.parseError, rest)
      | some (pc, added) => scanString pc (buffer ++ added) rest

/-! ### Numbers -/

/-- The labels of `scan_number`. -/
inductive NumberPc
  | minus
  | zero
  | any1
  | decimal1
  | decimal2
  | exponent
  | sign
  | any2

inductive NumberType
  | unsigned
  | integer
  | float

inductive NumberTurn
  | goto (pc : NumberPc)
  /-- The byte is not part of the number. -/
  | done
  | error

def isDigit (b : ℕ) : Bool := 0x30 ≤ b ∧ b ≤ 0x39

/-- `e` or `E` -/
def isExponent (b : ℕ) : Bool := b = 0x65 ∨ b = 0x45

/-- Where the next byte leads, with `none` for the end of the text. -/
def NumberPc.next (byte : Option ℕ) : NumberPc → NumberTurn
  | .minus =>
    if byte = some 0x30 then .goto .zero
    else if byte.any isDigit then .goto .any1
    else .error
  | .zero =>
    if byte = some 0x2E then .goto .decimal1
    else if byte.any isExponent then .goto .exponent
    else .done
  | .any1 =>
    if byte.any isDigit then .goto .any1
    else if byte = some 0x2E then .goto .decimal1
    else if byte.any isExponent then .goto .exponent
    else .done
  | .decimal1 => if byte.any isDigit then .goto .decimal2 else .error
  | .decimal2 =>
    if byte.any isDigit then .goto .decimal2
    else if byte.any isExponent then .goto .exponent
    else .done
  | .exponent =>
    if byte = some 0x2B ∨ byte = some 0x2D then .goto .sign
    else if byte.any isDigit then .goto .any2
    else .error
  | .sign => if byte.any isDigit then .goto .any2 else .error
  | .any2 => if byte.any isDigit then .goto .any2 else .done

/-- `number_type`, where the label is reached. -/
def NumberPc.type : NumberPc → NumberType → NumberType
  | .minus, _ => .integer
  | .decimal1, _ | .exponent, _ => .float
  | _, type => type

/-- What `strtoull` makes of digits. -/
def digitsValue (digits : Bytes) : ℕ := digits.foldl (fun n b => 10 * n + (b - 0x30)) 0

/-- The exponent of a text, behind the digits. -/
def exponentValue : Bytes → ℤ
  | _ :: 0x2D :: digits => -digitsValue digits
  | _ :: 0x2B :: digits => digitsValue digits
  | _ :: digits => digitsValue digits
  | [] => 0

/-- The digits behind a point, and what is behind them. -/
def fraction : Bytes → Bytes × Bytes
  | 0x2E :: text => text.span isDigit
  | text => ([], text)

/-- The number that a text stands for, without a sign. -/
def decimalValue (text : Bytes) : ℚ≥0 :=
  let (whole, text) := text.span isDigit
  let (fraction, text) := fraction text
  digitsValue (whole ++ fraction) * 10 ^ (exponentValue text - fraction.length)

variable (F : Floats)

/-- `strtod`, on a text that is a number.  The sign is that of the text, also where it rounds to
zero. -/
def strtod : Bytes → Option Double
  | 0x2D :: text => (F.round (decimalValue text)).map (Double.mk true)
  | text => (F.round (decimalValue text)).map (Double.mk false)

/-- `scan_number_done`: an integer that does not fit is a float. -/
def numberToken (buffer : Bytes) : NumberType → Token
  | .unsigned =>
    if digitsValue buffer < 2 ^ 64 then .valueUnsigned (digitsValue buffer)
    else .valueFloat (strtod F buffer)
  | .integer =>
    if digitsValue buffer.tail ≤ 2 ^ 63 then .valueInteger (-digitsValue buffer.tail)
    else .valueFloat (strtod F buffer)
  | .float => .valueFloat (strtod F buffer)

def scanNumber : NumberPc → NumberType → Bytes → Bytes → Token × Bytes
  | pc, type, buffer, [] =>
    match pc.next none with
    | .done => (numberToken F buffer type, [])
    | _ => (.parseError, [])
  | pc, type, buffer, b :: rest =>
    match pc.next (some b) with
    | .goto pc => scanNumber pc (pc.type type) (buffer ++ [b]) rest
    | .done => (numberToken F buffer type, b :: rest)
    | .error => (.parseError, rest)

/-! ### Tokens -/

/-- `scan_literal`, behind the first byte. -/
def scanLiteral : Bytes → Token → Bytes → Token × Bytes
  | [], token, rest => (token, rest)
  | _ :: _, _, [] => (.parseError, [])
  | c :: literal, token, b :: rest =>
    if b = c then scanLiteral literal token rest else (.parseError, rest)

def isSpace (b : ℕ) : Bool := b = 0x20 ∨ b = 0x09 ∨ b = 0x0A ∨ b = 0x0D

/-- `scan`, with the byte that was read. -/
def scanFrom (b : ℕ) (rest : Bytes) : Token × Bytes :=
  if b = 0x5B then (.beginArray, rest)
  else if b = 0x5D then (.endArray, rest)
  else if b = 0x7B then (.beginObject, rest)
  else if b = 0x7D then (.endObject, rest)
  else if b = 0x3A then (.nameSeparator, rest)
  else if b = 0x2C then (.valueSeparator, rest)
  else if b = 0x74 then scanLiteral (Utf8.bytes "rue") .literalTrue rest
  else if b = 0x66 then scanLiteral (Utf8.bytes "alse") .literalFalse rest
  else if b = 0x6E then scanLiteral (Utf8.bytes "ull") .literalNull rest
  else if b = 0x22 then scanString .next [] rest
  else if b = 0x2D then scanNumber F .minus .integer [b] rest
  else if b = 0x30 then scanNumber F .zero .unsigned [b] rest
  else if isDigit b then scanNumber F .any1 .unsigned [b] rest
  -- a null byte ends a text that is a string literal
  else if b = 0 then (.endOfInput, rest)
  else (.parseError, rest)

def scan : Bytes → Token × Bytes
  | [] => (.endOfInput, [])
  | b :: rest => if isSpace b then scan rest else scanFrom F b rest

/-- `skip_bom`: `none` for the beginning of a byte order mark that does not go on. -/
def skipBom : Bytes → Option Bytes
  | 0xEF :: 0xBB :: 0xBF :: rest => some rest
  | 0xEF :: _ => none
  | text => some text

/-- The tokens of a text, up to its end or the first error. -/
def tokens : ℕ → Bytes → List Token
  | 0, _ => []
  | fuel + 1, text =>
    match scan F text with
    | (.endOfInput, _) => [.endOfInput]
    | (.parseError, _) => [.parseError]
    | (token, rest) => token :: tokens fuel rest

end Lexer

end Nonsense
