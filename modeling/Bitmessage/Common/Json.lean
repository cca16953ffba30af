import Bitmessage.Common.CText
import Bitmessage.Lib.Binary64

/-! The small JSON library of the command line client: values, the recursive parser and the printer. Strings
and keys are C strings, numbers are of the type `double`. -/

namespace Bitmessage

/-! ### Values -/

/-- `bm_json_value_t`. -/
inductive JsonValue where
  | null
  | bool (b : Bool)
  | number (d : Binary64)
  | string (s : CString)
  | array (items : List JsonValue)
  | object (members : List (CString × JsonValue))

/-- `bm_json_object_get`: the first member of the name. -/
def JsonValue.objectGet : JsonValue → Bytes → Option JsonValue
  | .object members, key => (members.find? fun m => decide (m.1.bytes = key)).map Prod.snd
  | _, _ => none

/-! ### Numbers -/

/-- The parts of the text of a number, which `parse_number` finds one after the other. -/
structure NumberText where
  negative : Bool
  int : Bytes
  frac : Bytes
  expNegative : Bool
  exp : Bytes
  deriving DecidableEq

/-- The digits at the start, at least one. -/
def scanDigits (text : Bytes) : Option (Bytes × Bytes) :=
  if text.takeWhile isDigit = [] then none else some (text.takeWhile isDigit, text.dropWhile isDigit)

def scanFraction : Bytes → Option (Bytes × Bytes)
  | 0x2e :: text => scanDigits text
  | text => some ([], text)

def scanExponent : Bytes → Option (Bool × Bytes × Bytes)
  | c :: text =>
    if c = 0x65 ∨ c = 0x45 then
      match text with
      | 0x2b :: text => (scanDigits text).map fun r => (false, r.1, r.2)
      | 0x2d :: text => (scanDigits text).map fun r => (true, r.1, r.2)
      | text => (scanDigits text).map fun r => (false, r.1, r.2)
    else some (false, [], c :: text)
  | [] => some (false, [], [])

def scanSign : Bytes → Bool × Bytes
  | 0x2d :: text => (true, text)
  | text => (false, text)

def scanNumber (text : Bytes) : Option (NumberText × Bytes) :=
  (scanDigits (scanSign text).2).bind fun int =>
    (scanFraction int.2).bind fun frac =>
      (scanExponent frac.2).map fun exp =>
        (⟨(scanSign text).1, int.1, frac.1, exp.1, exp.2.1⟩, exp.2.2)

/-- `strtod` of such a text. -/
def strtod (n : NumberText) : Binary64 :=
  Binary64.ofRat n.negative (digitsValue (n.int ++ n.frac) *
    10 ^ ((if n.expNegative then -(digitsValue n.exp : ℤ) else digitsValue n.exp) - n.frac.length))

/-- `(long long)d`; what has no such value becomes the least one. -/
def toLongLong (d : Binary64) : ℤ :=
  match d.trunc with
  | some n => if -2 ^ 63 ≤ n ∧ n < 2 ^ 63 then n else -2 ^ 63
  | none => -2 ^ 63

/-- The seventeen digits of a positive number and the exponent of the first. -/
def significantDigits (q : ℚ) : ℕ × ℤ :=
  if Binary64.nearestEven (q / 10 ^ (Int.log 10 q - 16)) = 10 ^ 17 then (10 ^ 16, Int.log 10 q + 1)
  else (Binary64.nearestEven (q / 10 ^ (Int.log 10 q - 16)), Int.log 10 q)

/-- A point and the digits behind it, if there are any. -/
def withPoint (digits : Bytes) : Bytes := if digits = [] then [] else 0x2e :: digits

/-- What `%.17g` prints for a positive number. -/
def formatPositive (q : ℚ) : Bytes :=
  let digits := decimalDigits (significantDigits q).1
  let e := (significantDigits q).2
  let short := digits.rdropWhile (· = 0x30)
  if e < -4 ∨ 17 ≤ e then
    short.take 1 ++ withPoint (short.drop 1) ++ [0x65, if e < 0 then 0x2d else 0x2b] ++
      List.replicate (2 - (decimalDigits e.natAbs).length) 0x30 ++ decimalDigits e.natAbs
  else if e < 0 then ascii "0." ++ List.replicate (e.natAbs - 1) 0x30 ++ short
  else digits.take (e.toNat + 1) ++ withPoint (short.drop (e.toNat + 1))

/-- `%.17g`. -/
def formatG : Binary64 → Bytes
  | .nan => ascii "nan"
  | .infinite negative => (if negative then [0x2d] else []) ++ ascii "inf"
  | .finite negative x =>
    (if negative then [0x2d] else []) ++ if x.mantissa = 0 then [0x30] else formatPositive x.value

/-! ### The printer -/

def numberText (d : Binary64) : Bytes :=
  if Binary64.beq d (Binary64.ofInt (toLongLong d)) then decimal (toLongLong d) else formatG d

/-- A hexadecimal digit as `%x` prints it. -/
def hexChar (n : ℕ) : UInt8 := if n < 10 then UInt8.ofNat (0x30 + n) else UInt8.ofNat (0x61 + (n - 10))

/-- One byte in `sb_append_escaped_string`. -/
def escapedByte (b : UInt8) : Bytes :=
  if b = 0x22 then [0x5c, 0x22]
  else if b = 0x5c then [0x5c, 0x5c]
  else if b = 0x0a then [0x5c, 0x6e]
  else if b = 0x0d then [0x5c, 0x72]
  else if b = 0x09 then [0x5c, 0x74]
  else if b < 0x20 then [0x5c, 0x75, 0x30, 0x30, hexChar (b.toNat / 16), hexChar (b.toNat % 16)]
  else [b]

/-- `sb_append_escaped_string`. -/
def escapedString (s : CString) : Bytes := 0x22 :: s.bytes.flatMap escapedByte ++ [0x22]

mutual

/-- `serialize_value`. -/
def serializeValue : JsonValue → Bytes
  | .null => ascii "null"
  | .bool b => if b then ascii "true" else ascii "false"
  | .number d => numberText d
  | .string s => escapedString s
  | .array [] => [0x5b, 0x5d]
  | .array (item :: items) => 0x5b :: serializeValue item ++ serializeItems items ++ [0x5d]
  | .object [] => [0x7b, 0x7d]
  | .object ((key, value) :: members) =>
    0x7b :: escapedString key ++ 0x3a :: serializeValue value ++ serializeMembers members ++ [0x7d]

/-- The items of an array but the first, each behind a comma. -/
def serializeItems : List JsonValue → Bytes
  | [] => []
  | item :: items => 0x2c :: serializeValue item ++ serializeItems items

def serializeMembers : List (CString × JsonValue) → Bytes
  | [] => []
  | (key, value) :: members =>
    0x2c :: escapedString key ++ 0x3a :: serializeValue value ++ serializeMembers members

end

/-- `bm_json_serialize`. -/
def bmJsonSerialize (v : JsonValue) : Bytes := serializeValue v

/-! ### The parser -/

/-- The white space that `skip_ws` passes over. -/
def isWs (c : UInt8) : Bool := c = 0x20 || c = 0x09 || c = 0x0a || c = 0x0d

/-- `skip_ws`. -/
def skipWs (text : Bytes) : Bytes := text.dropWhile isWs

/-- `match_literal`: what is behind the literal. -/
def matchLiteral (lit text : Bytes) : Option Bytes := if lit <+: text then some (text.drop lit.length) else none

/-- `append_utf8`: the bytes of a code unit. -/
def appendUtf8 (cp : ℕ) : Bytes :=
  if cp < 0x80 then [UInt8.ofNat cp]
  else if cp < 0x800 then [UInt8.ofNat (0xc0 + cp / 64), UInt8.ofNat (0x80 + cp % 64)]
  else [UInt8.ofNat (0xe0 + cp / 4096), UInt8.ofNat (0x80 + cp / 64 % 64), UInt8.ofNat (0x80 + cp % 64)]

/-- The number that four hexadecimal digits make. -/
def hexNumber (d₀ d₁ d₂ d₃ : UInt8) : Option ℕ :=
  (hexDigit d₀).bind fun a => (hexDigit d₁).bind fun b => (hexDigit d₂).bind fun c => (hexDigit d₃).map fun d =>
    16 * (16 * (16 * a + b) + c) + d

/-- The escapes of one character. -/
def shortEscape (esc : UInt8) : Option UInt8 :=
  if esc = 0x22 then some 0x22
  else if esc = 0x5c then some 0x5c
  else if esc = 0x2f then some 0x2f
  else if esc = 0x62 then some 0x08
  else if esc = 0x66 then some 0x0c
  else if esc = 0x6e then some 0x0a
  else if esc = 0x72 then some 0x0d
  else if esc = 0x74 then some 0x09
  else none

/-- The loop of `parse_string_raw` behind the opening quote, with the bytes in `out`; the bytes of the string and
the text behind the closing quote. -/
def parseStringLoop (out : Bytes) : Bytes → Option (Bytes × Bytes)
  | [] => none
  | c :: text =>
    if c = 0x22 then some (out, text)
    else if c = 0x5c then
      match text with
      | [] => none
      | esc :: text =>
        if esc = 0x75 then
          match text with
          | d₀ :: d₁ :: d₂ :: d₃ :: text =>
            match hexNumber d₀ d₁ d₂ d₃ with
            | some cp => parseStringLoop (out ++ appendUtf8 cp) text
            | none => none
          | _ => none
        else
          match shortEscape esc with
          | some b => parseStringLoop (out ++ appendUtf8 b.toNat) text
          | none => none
    else if c < 0x80 then parseStringLoop (out ++ appendUtf8 c.toNat) text
    else parseStringLoop (out ++ [c]) text

/-- `parse_string_raw`; the caller has the bytes up to the first NUL. -/
def parseStringRaw : Bytes → Option (CString × Bytes)
  | 0x22 :: text => (parseStringLoop [] text).map fun r => (CString.of r.1, r.2)
  | _ => none

mutual

/-- `parse_value`. The fuel bounds the depth of the calls and the turns of the loops. -/
def parseValue : ℕ → Bytes → Option (JsonValue × Bytes)
  | 0, _ => none
  | fuel + 1, text =>
    match skipWs text with
    | [] => none
    | c :: rest =>
      if c = 0x22 then (parseStringRaw (c :: rest)).map fun r => (.string r.1, r.2)
      else if c = 0x5b then
        match skipWs rest with
        | 0x5d :: rest => some (.array [], rest)
        | rest => parseArrayLoop fuel [] rest
      else if c = 0x7b then
        match skipWs rest with
        | 0x7d :: rest => some (.object [], rest)
        | rest => parseObjectLoop fuel [] rest
      else if c = 0x74 then (matchLiteral (ascii "true") (c :: rest)).map fun rest => (.bool true, rest)
      else if c = 0x66 then (matchLiteral (ascii "false") (c :: rest)).map fun rest => (.bool false, rest)
      else if c = 0x6e then (matchLiteral (ascii "null") (c :: rest)).map fun rest => (.null, rest)
      else (scanNumber (c :: rest)).map fun r => (.number (strtod r.1), r.2)

/-- The loop of `parse_array` with the items so far. -/
def parseArrayLoop : ℕ → List JsonValue → Bytes → Option (JsonValue × Bytes)
  | 0, _, _ => none
  | fuel + 1, items, text =>
    match parseValue fuel (skipWs text) with
    | none => none
    | some (item, text) =>
      match skipWs text with
      | 0x2c :: text => parseArrayLoop fuel (items ++ [item]) text
      | 0x5d :: text => some (.array (items ++ [item]), text)
      | _ => none

/-- The loop of `parse_object` with the members so far. -/
def parseObjectLoop : ℕ → List (CString × JsonValue) → Bytes → Option (JsonValue × Bytes)
  | 0, _, _ => none
  | fuel + 1, members, text =>
    match parseStringRaw (skipWs text) with
    | none => none
    | some (key, text) =>
      match skipWs text with
      | 0x3a :: text =>
        match parseValue fuel (skipWs text) with
        | none => none
        | some (value, text) =>
          match skipWs text with
          | 0x2c :: text => parseObjectLoop fuel (members ++ [(key, value)]) text
          | 0x7d :: text => some (.object (members ++ [(key, value)]), text)
          | _ => none
      | _ => none

end

/-- `bm_json_parse`. A call and a turn of a loop follow each byte at most, which is fuel enough. -/
def bmJsonParse (text : Bytes) : Option JsonValue :=
  (parseValue (2 * text.length + 1) text).bind fun r => if skipWs r.2 = [] then some r.1 else none

end Bitmessage
