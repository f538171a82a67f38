import Nonsense.Text.Lexer

/-!
# The serializer

`nlohmann::detail::serializer` as `dump()` calls it: nothing is put between the parts, only
what has to be escaped is, and a string that is not UTF-8 is an exception.  The buffers, which
hold what is written until they are full, are left out.
-/

namespace Nonsense

namespace Serializer

/-! ### Strings -/

/-- `utf8d` -/
def utf8d : List ℕ :=
  [
    0, 0, 0, 0, 0, 0, 0, 0, 0, 0, 0, 0, 0, 0, 0, 0,
    0, 0, 0, 0, 0, 0, 0, 0, 0, 0, 0, 0, 0, 0, 0, 0,  -- 00..1F
    0, 0, 0, 0, 0, 0, 0, 0, 0, 0, 0, 0, 0, 0, 0, 0,
    0, 0, 0, 0, 0, 0, 0, 0, 0, 0, 0, 0, 0, 0, 0, 0,  -- 20..3F
    0, 0, 0, 0, 0, 0, 0, 0, 0, 0, 0, 0, 0, 0, 0, 0,
    0, 0, 0, 0, 0, 0, 0, 0, 0, 0, 0, 0, 0, 0, 0, 0,  -- 40..5F
    0, 0, 0, 0, 0, 0, 0, 0, 0, 0, 0, 0, 0, 0, 0, 0,
    0, 0, 0, 0, 0, 0, 0, 0, 0, 0, 0, 0, 0, 0, 0, 0,  -- 60..7F
    1, 1, 1, 1, 1, 1, 1, 1, 1, 1, 1, 1, 1, 1, 1, 1,
    9, 9, 9, 9, 9, 9, 9, 9, 9, 9, 9, 9, 9, 9, 9, 9,  -- 80..9F
    7, 7, 7, 7, 7, 7, 7, 7, 7, 7, 7, 7, 7, 7, 7, 7,
    7, 7, 7, 7, 7, 7, 7, 7, 7, 7, 7, 7, 7, 7, 7, 7,  -- A0..BF
    8, 8, 2, 2, 2, 2, 2, 2, 2, 2, 2, 2, 2, 2, 2, 2,
    2, 2, 2, 2, 2, 2, 2, 2, 2, 2, 2, 2, 2, 2, 2, 2,  -- C0..DF
    10, 3, 3, 3, 3, 3, 3, 3, 3, 3, 3, 3, 3, 4, 3, 3,  -- E0..EF
    11, 6, 6, 6, 5, 8, 8, 8, 8, 8, 8, 8, 8, 8, 8, 8,  -- F0..FF
    0, 1, 2, 3, 5, 8, 7, 1, 1, 1, 4, 6, 1, 1, 1, 1,  -- s0..s0
    1, 1, 1, 1, 1, 1, 1, 1, 1, 1, 1, 1, 1, 1, 1, 1,
    1, 0, 1, 1, 1, 1, 1, 0, 1, 0, 1, 1, 1, 1, 1, 1,  -- s1..s2
    1, 2, 1, 1, 1, 1, 1, 2, 1, 2, 1, 1, 1, 1, 1, 1,
    1, 1, 1, 1, 1, 1, 1, 2, 1, 1, 1, 1, 1, 1, 1, 1,  -- s3..s4
    1, 2, 1, 1, 1, 1, 1, 1, 1, 2, 1, 1, 1, 1, 1, 1,
    1, 1, 1, 1, 1, 1, 1, 3, 1, 3, 1, 1, 1, 1, 1, 1,  -- s5..s6
    1, 3, 1, 1, 1, 1, 1, 3, 1, 3, 1, 1, 1, 1, 1, 1,
    1, 3, 1, 1, 1, 1, 1, 1, 1, 1, 1, 1, 1, 1, 1, 1  -- s7..s8
  ]

/-- `decode`: the state and the codepoint behind a byte. -/
def decode (state codepoint byte : ℕ) : ℕ × ℕ :=
  let type := utf8d.getD byte 0
  (utf8d.getD (256 + state * 16 + type) 0,
    if state ≠ 0 then byte &&& 0x3F ||| codepoint <<< 6 else 0xFF >>> type &&& byte)

/-- A hexadecimal digit, as `%x` prints it. -/
def hexDigit (n : ℕ) : ℕ := if n < 10 then 0x30 + n else 0x57 + n

/-- A hexadecimal digit, as `%X` prints it. -/
def upperHexDigit (n : ℕ) : Char := Char.ofNat (if n < 10 then 0x30 + n else 0x37 + n)

/-- `%.2X` -/
def hexByte (byte : ℕ) : String :=
  String.ofList [upperHexDigit (byte / 16), upperHexDigit (byte % 16)]

/-- What is written for a codepoint, whose last byte is `byte`. -/
def escape (codepoint byte : ℕ) : Bytes :=
  if codepoint = 0x08 then [0x5C, 0x62]
  else if codepoint = 0x09 then [0x5C, 0x74]
  else if codepoint = 0x0A then [0x5C, 0x6E]
  else if codepoint = 0x0C then [0x5C, 0x66]
  else if codepoint = 0x0D then [0x5C, 0x72]
  else if codepoint = 0x22 then [0x5C, 0x22]
  else if codepoint = 0x5C then [0x5C, 0x5C]
  else if codepoint ≤ 0x1F then
    -- `\u%04x`
    [0x5C, 0x75, hexDigit (codepoint / 4096 % 16), hexDigit (codepoint / 256 % 16),
      hexDigit (codepoint / 16 % 16), hexDigit (codepoint % 16)]
  else [byte]

/-- `dump_escaped`, from the byte at `index` on; `last` is the byte before. -/
def dumpEscaped (state codepoint index last : ℕ) : Bytes → Except Fault Bytes
  | [] =>
    if state = 0 then .ok []
    else .error (.exception ("[json.exception.type_error.316] incomplete UTF-8 string; last byte: 0x"
      ++ hexByte last))
  | byte :: rest =>
    let (state, codepoint) := decode state codepoint byte
    if state = 0 then do
      return escape codepoint byte ++ (← dumpEscaped state codepoint (index + 1) byte rest)
    else if state = 1 then
      .error (.exception ("[json.exception.type_error.316] invalid UTF-8 byte at index "
        ++ toString index ++ ": 0x" ++ hexByte byte))
    else do
      return byte :: (← dumpEscaped state codepoint (index + 1) byte rest)

/-- A string, with its quotes. -/
def dumpString (s : String) : Except Fault Bytes := do
  return 0x22 :: (← dumpEscaped 0 0 0 0 (Utf8.bytes s)) ++ [0x22]

/-! ### Numbers -/

/-- `digits_to_99` -/
def digitsTo99 (n : ℕ) : Bytes := [0x30 + n / 10, 0x30 + n % 10]

/-- The digits of an absolute value, in front of what is in the buffer. -/
def dumpDigits (n : ℕ) (buffer : Bytes) : Bytes :=
  if 100 ≤ n then dumpDigits (n / 100) (digitsTo99 (n % 100) ++ buffer)
  else if 10 ≤ n then digitsTo99 n ++ buffer
  else (0x30 + n) :: buffer
termination_by n

/-- `count_digits`, with those that have been counted. -/
def countDigits (x : ℕ) (digits : ℕ) : ℕ :=
  if x < 10 then digits
  else if x < 100 then digits + 1
  else if x < 1000 then digits + 2
  else if x < 10000 then digits + 3
  else countDigits (x / 10000) (digits + 4)
termination_by x

/-- `n_chars`, the part of the buffer that is written. -/
def numChars (n : ℤ) : ℕ := (if n < 0 then 1 else 0) + countDigits n.natAbs 1

/-- `dump_integer`.  The buffer is filled from behind, from where `numChars` puts its end. -/
def dumpInteger (n : ℤ) : Bytes :=
  if n = 0 then [0x30]
  else if n < 0 then 0x2D :: dumpDigits n.natAbs []
  else dumpDigits n.natAbs []

/-- `append_exponent` -/
def appendExponent (e : ℤ) : Bytes :=
  let k := e.natAbs
  (if e < 0 then 0x2D else 0x2B) ::
    if k < 10 then [0x30, 0x30 + k]
    else if k < 100 then [0x30 + k / 10, 0x30 + k % 10]
    else [0x30 + k / 100, 0x30 + k % 100 / 10, 0x30 + k % 100 % 10]

/-- `format_buffer`, with `kMinExp` and `kMaxExp`. -/
def formatBuffer (digits : Bytes) (decimalExponent : ℤ) : Bytes :=
  let k : ℤ := digits.length
  let n := k + decimalExponent
  -- `digits[000]`
  if k ≤ n ∧ n ≤ 15 then digits ++ List.replicate (n - k).toNat 0x30 ++ [0x2E, 0x30]
  -- `dig.its`
  else if 0 < n ∧ n ≤ 15 then digits.take n.toNat ++ 0x2E :: digits.drop n.toNat
  -- `0.[000]digits`
  else if -4 < n ∧ n ≤ 0 then 0x30 :: 0x2E :: List.replicate (-n).toNat 0x30 ++ digits
  -- `dE+123`
  else if k = 1 then digits ++ 0x65 :: appendExponent (n - 1)
  -- `d.igitsE+123`
  else digits.take 1 ++ 0x2E :: digits.drop 1 ++ 0x65 :: appendExponent (n - 1)

variable (F : Floats)

/-- `to_chars`, behind the sign. -/
def magnitudeChars (q : ℚ≥0) : Bytes :=
  if q = 0 then [0x30, 0x2E, 0x30] else formatBuffer (F.grisu2 q).1 (F.grisu2 q).2

/-- `to_chars` -/
def toChars (x : Double) : Bytes :=
  if x.negative then 0x2D :: magnitudeChars F x.magnitude else magnitudeChars F x.magnitude

/-! ### Values -/

mutual

/-- `dump` -/
def dump : Json → Except Fault Bytes
  | .object [] => .ok (Utf8.bytes "\x7b\x7d")
  | .object (e :: m) => do return 0x7B :: (← dumpMembers (e :: m)) ++ [0x7D]
  | .array [] => .ok (Utf8.bytes "[]")
  | .array (v :: l) => do return 0x5B :: (← dumpElements (v :: l)) ++ [0x5D]
  | .string s => dumpString s
  | .boolean true => .ok (Utf8.bytes "true")
  | .boolean false => .ok (Utf8.bytes "false")
  | .integer n => .ok (dumpInteger n)
  | .float x => .ok (toChars F x)
  | .null => .ok (Utf8.bytes "null")

/-- The members of an object, with commas between them. -/
def dumpMembers : List (String × Json) → Except Fault Bytes
  | [] => .ok []
  | [(key, v)] => do return (← dumpString key) ++ 0x3A :: (← dump v)
  | (key, v) :: m => do
    return (← dumpString key) ++ 0x3A :: (← dump v) ++ 0x2C :: (← dumpMembers m)

/-- The elements of an array, with commas between them. -/
def dumpElements : List Json → Except Fault Bytes
  | [] => .ok []
  | [v] => dump v
  | v :: l => do return (← dump v) ++ 0x2C :: (← dumpElements l)

end

end Serializer

end Nonsense
