import RollupBoost.Utf8

/-!
# Json.Read — the `serde_json` reader `ProxyService::call` runs

`ProxyService::call` finds the method with `serde_json::from_slice::<RpcRequest>`. This module
models the parts of `serde_json`'s `Deserializer<SliceRead>` that call reaches: whitespace,
literals, numbers, strings with their escapes, and `ignore_value`, which skips any value the
derived visitor does not want. Each function takes the input from the read position on and
returns what is left after what it read; errors carry `serde_json`'s `ErrorCode`.

`parseStr` is the strict reading `parse_str` does (`validate = true`): escapes are decoded,
a `\u` escape of a surrogate must be the first half of a pair, and the result must be UTF-8.
It also reports whether an escape was met, which decides between `Reference::Borrowed` and
`Reference::Copied`. `ignoreStr` is the lenient scan `ignore_str` does.

`serde_json` skips nested values with a loop and an explicit stack of open brackets; here the
same acceptance is written as recursion on the brackets, bounded by a fuel argument that every
call spends after reading at least one byte, so the length of the input is always enough.
-/

namespace RollupBoost
namespace SerdeJson

/-- `serde_json::error::ErrorCode`, with the serde errors a derived visitor raises
(`invalid_type`, `invalid_length`, `missing_field`, `duplicate_field`); `outOfFuel` is the
model's bound on nesting, which no input of `fromSlice` reaches (`Json.fromSlice_ne_outOfFuel`). -/
inductive ErrorCode
  | eofWhileParsingList
  | eofWhileParsingObject
  | eofWhileParsingString
  | eofWhileParsingValue
  | expectedColon
  | expectedListCommaOrEnd
  | expectedObjectCommaOrEnd
  | expectedSomeIdent
  | expectedSomeValue
  | invalidEscape
  | invalidNumber
  | invalidUnicodeCodePoint
  | controlCharacterWhileParsingString
  | keyMustBeAString
  | loneLeadingSurrogateInHexEscape
  | unexpectedEndOfHexEscape
  | trailingCharacters
  | trailingComma
  | invalidType
  | invalidLength
  | missingField (field : String)
  | duplicateField (field : String)
  | outOfFuel
  deriving DecidableEq, Repr

/-! ## Bytes -/

/-- The bytes `parse_whitespace` skips: `b' ' | b'\n' | b'\t' | b'\r'`. -/
def isWs (b : UInt8) : Bool :=
  b.toNat = 0x20 || b.toNat = 0x0A || b.toNat = 0x09 || b.toNat = 0x0D

/-- `b'0'..=b'9'`. -/
def isDigit (b : UInt8) : Bool := 0x30 ≤ b.toNat && b.toNat ≤ 0x39

/-- `decode_hex_val`: the value of a hex digit of either case. -/
def hexVal (b : UInt8) : Option Nat :=
  if 0x30 ≤ b.toNat ∧ b.toNat ≤ 0x39 then some (b.toNat - 0x30)
  else if 0x41 ≤ b.toNat ∧ b.toNat ≤ 0x46 then some (b.toNat - 0x37)
  else if 0x61 ≤ b.toNat ∧ b.toNat ≤ 0x66 then some (b.toNat - 0x57)
  else none

/-- `parse_escape`'s table of the escapes that stand for one byte: `\" \\ \/ \b \f \n \r \t`, by
the letter after the backslash. -/
def escapeTable : List (Nat × UInt8) :=
  [(0x22, 0x22), (0x5C, 0x5C), (0x2F, 0x2F), (0x62, 0x08), (0x66, 0x0C), (0x6E, 0x0A),
    (0x72, 0x0D), (0x74, 0x09)]

/-- The byte a two-letter escape stands for. -/
def simpleEscape (b : UInt8) : Option UInt8 := (escapeTable.find? (·.1 = b.toNat)).map (·.2)

/-- `parse_whitespace`: the input from the first byte that is not whitespace. -/
def parseWhitespace (bs : Bytes) : Bytes := bs.dropWhile isWs

/-! ## Literals and numbers -/

/-- `parse_ident`: the rest of a literal (`ull`, `rue`, `alse`) must follow. -/
def parseIdent : Bytes → Bytes → Except ErrorCode Bytes
  | [], bs => .ok bs
  | _ :: _, [] => .error .eofWhileParsingValue
  | e :: es, b :: bs => if b = e then parseIdent es bs else .error .expectedSomeIdent

/-- `peek_or_null`: the next byte, or a zero byte at the end of the input. -/
def peekOrNull (bs : Bytes) : UInt8 := bs.head?.getD 0

/-! `serde_json` reads numbers twice over: `ignore_integer` and its callees skip a number inside
a value nobody asked for, and `parse_integer` (`parse_any_number`) and its callees read one. The
two accept the same text and report the same errors but at the end of the input, where the
`ignore_*` readers see the null byte of `next_char_or_null` and report `invalid_number`, and the
`parse_*` readers report `eof_while_parsing_value`. Each reader below takes that error as
`eof`. -/

/-- After the `e` or `E` of an exponent: an optional sign, then at least one digit. -/
def exponentWith (eof : ErrorCode) (bs : Bytes) : Except ErrorCode Bytes :=
  match (match bs with
    | b :: r => if b.toNat = 0x2B ∨ b.toNat = 0x2D then r else b :: r
    | [] => []) with
  | b :: r => if isDigit b then .ok (r.dropWhile isDigit) else .error .invalidNumber
  | [] => .error eof

/-- What follows the digits of a fraction: an exponent when `e` or `E` is next. -/
def exponentOptWith (eof : ErrorCode) : Bytes → Except ErrorCode Bytes
  | b :: r => if b.toNat = 0x65 ∨ b.toNat = 0x45 then exponentWith eof r else .ok (b :: r)
  | [] => .ok []

/-- After the `.` of a fraction: at least one digit. -/
def decimalWith (eof : ErrorCode) : Bytes → Except ErrorCode Bytes
  | b :: r => if isDigit b then exponentOptWith eof (r.dropWhile isDigit) else .error .invalidNumber
  | [] => .error eof

/-- What follows the integer part (`parse_number`): a fraction, an exponent, or the end of the
number. -/
def fractionWith (eof : ErrorCode) : Bytes → Except ErrorCode Bytes
  | b :: r =>
    if b.toNat = 0x2E then decimalWith eof r
    else if b.toNat = 0x65 ∨ b.toNat = 0x45 then exponentWith eof r
    else .ok (b :: r)
  | [] => .ok []

/-- At the first digit: a lone `0`, or digits that do not start with `0`. -/
def integerWith (eof : ErrorCode) : Bytes → Except ErrorCode Bytes
  | b :: r =>
    if b.toNat = 0x30 then
      if isDigit (peekOrNull r) then .error .invalidNumber else fractionWith eof r
    else if isDigit b then fractionWith eof (r.dropWhile isDigit)
    else .error .invalidNumber
  | [] => .error eof

/-- `ignore_exponent`, after the `e` or `E`. -/
def ignoreExponent (bs : Bytes) : Except ErrorCode Bytes := exponentWith .invalidNumber bs

/-- `ignore_decimal`, after the `.`. -/
def ignoreDecimal (bs : Bytes) : Except ErrorCode Bytes := decimalWith .invalidNumber bs

/-- `ignore_integer`, at the first digit. -/
def ignoreInteger (bs : Bytes) : Except ErrorCode Bytes := integerWith .invalidNumber bs

/-- `parse_integer`, which `parse_any_number` is, at the first digit: the text it reads and the
error it reports. The value it builds is not kept. -/
def parseInteger (bs : Bytes) : Except ErrorCode Bytes := integerWith .eofWhileParsingValue bs

/-! ## Strings -/

/-- Where `ignore_str` stands between two bytes: in the text, after a backslash, or `k` digits
into a `\u` escape. -/
inductive ScanState
  | text
  | escape
  | hex (k : Nat)
  deriving DecidableEq, Repr

/-- `ignore_str`, from a place in a string: scan to the closing quote, checking that escapes
are well formed but not what they stand for (`ignore_escape`). -/
def ignoreStrFrom : ScanState → Bytes → Except ErrorCode Bytes
  | _, [] => .error .eofWhileParsingString
  | .text, b :: r =>
    if b.toNat = 0x22 then .ok r
    else if b.toNat = 0x5C then ignoreStrFrom .escape r
    else if b.toNat < 0x20 then .error .controlCharacterWhileParsingString
    else ignoreStrFrom .text r
  | .escape, c :: r =>
    if (simpleEscape c).isSome then ignoreStrFrom .text r
    else if c.toNat = 0x75 then
      if r.length < 4 then .error .eofWhileParsingString else ignoreStrFrom (.hex 0) r
    else .error .invalidEscape
  | .hex k, h :: r =>
    if (hexVal h).isSome then
      if k < 3 then ignoreStrFrom (.hex (k + 1)) r else ignoreStrFrom .text r
    else .error .invalidEscape

/-- `ignore_str`, after the opening quote. -/
def ignoreStr (bs : Bytes) : Except ErrorCode Bytes := ignoreStrFrom .text bs

/-- Where `parse_str_bytes` stands between two bytes: in the text, after a backslash, or `k`
digits into a `\u` escape whose digits so far spell `acc`; after the escape of a leading
surrogate `hi`, before its `\`, before its `u`, or `k` digits into the trailing one. -/
inductive StrState
  | text
  | escape
  | hex (k acc : Nat)
  | high (hi : Nat)
  | highU (hi : Nat)
  | low (hi k acc : Nat)
  deriving DecidableEq, Repr

/-- Put the bytes an escape stands for in front of the rest of a string, marking it escaped. -/
def escaped (pre : Bytes) : Except ErrorCode (Bool × Bytes × Bytes) →
    Except ErrorCode (Bool × Bytes × Bytes)
  | .ok (_, s, r) => .ok (true, pre ++ s, r)
  | .error e => .error e

/-- Put an unescaped byte in front of the rest of a string. -/
def plainCons (b : UInt8) : Except ErrorCode (Bool × Bytes × Bytes) →
    Except ErrorCode (Bool × Bytes × Bytes)
  | .ok (esc, s, r) => .ok (esc, b :: s, r)
  | .error e => .error e

/-- `parse_str_bytes` with `validate = true`, from a place in a string: whether an escape was
met, the bytes the string stands for, and the input after the closing quote. A `\u` escape of a
trailing surrogate is refused; one of a leading surrogate must be followed by the escape of a
trailing one (`parse_unicode_escape`). -/
def parseStrFrom : StrState → Bytes → Except ErrorCode (Bool × Bytes × Bytes)
  | _, [] => .error .eofWhileParsingString
  | .escape, c :: r =>
    match simpleEscape c with
    | some e => escaped [e] (parseStrFrom .text r)
    | none =>
      if c.toNat = 0x75 then
        if r.length < 4 then .error .eofWhileParsingString else parseStrFrom (.hex 0 0) r
      else .error .invalidEscape
  | .hex k acc, h :: r =>
    match hexVal h with
    | none => .error .invalidEscape
    | some v =>
      let n := acc * 16 + v
      if k < 3 then parseStrFrom (.hex (k + 1) n) r
      else if 0xDC00 ≤ n ∧ n ≤ 0xDFFF then .error .loneLeadingSurrogateInHexEscape
      else if n < 0xD800 ∨ 0xDBFF < n then escaped (Utf8.encode n) (parseStrFrom .text r)
      else parseStrFrom (.high n) r
  | .high hi, b :: r =>
    if b.toNat = 0x5C then parseStrFrom (.highU hi) r else .error .unexpectedEndOfHexEscape
  | .highU hi, b :: r =>
    if b.toNat = 0x75 then
      if r.length < 4 then .error .eofWhileParsingString else parseStrFrom (.low hi 0 0) r
    else .error .unexpectedEndOfHexEscape
  | .low hi k acc, h :: r =>
    match hexVal h with
    | none => .error .invalidEscape
    | some v =>
      let n := acc * 16 + v
      if k < 3 then parseStrFrom (.low hi (k + 1) n) r
      else if 0xDC00 ≤ n ∧ n ≤ 0xDFFF then
        escaped (Utf8.encode ((hi - 0xD800) * 0x400 + (n - 0xDC00) + 0x10000)) (parseStrFrom .text r)
      else .error .loneLeadingSurrogateInHexEscape
  | .text, b :: r =>
    if b.toNat = 0x22 then .ok (false, [], r)
    else if b.toNat = 0x5C then parseStrFrom .escape r
    else if b.toNat < 0x20 then .error .controlCharacterWhileParsingString
    else plainCons b (parseStrFrom .text r)

/-- `parse_str_bytes` with `validate = true`, after the opening quote. -/
def parseStrBytes (bs : Bytes) : Except ErrorCode (Bool × Bytes × Bytes) := parseStrFrom .text bs

/-- `serde_json::read::Reference`: a string borrowed from the input when it had no escape, or
copied out of the scratch buffer when it had one. -/
inductive Reference
  | borrowed (s : Str)
  | copied (s : Str)
  deriving DecidableEq

/-- The string a reference holds. -/
def Reference.str : Reference → Str
  | .borrowed s => s
  | .copied s => s

/-- `SliceRead::parse_str`, after the opening quote: `parse_str_bytes`, then `as_str`, which
refuses bytes that are not UTF-8. -/
def parseStr (bs : Bytes) : Except ErrorCode (Reference × Bytes) :=
  match parseStrBytes bs with
  | .error e => .error e
  | .ok (esc, s, r) =>
    if h : Utf8.valid s then .ok (if esc then .copied ⟨s, h⟩ else .borrowed ⟨s, h⟩, r)
    else .error .invalidUnicodeCodePoint

/-! ## A value of the wrong type -/

/-- The error a reader reports in place of what it read: its own error, or `invalid_type` when
it read a value. -/
def orInvalidType {α : Type} : Except ErrorCode α → ErrorCode
  | .error e => e
  | .ok _ => .invalidType

/-- `peek_invalid_type`, at the peeked byte: the error `serde_json` reports for a value that is
not of the type asked for. A literal, a number or a string is read first, and an error in it is
reported in place of `invalid_type`; an array or an object is not read; any other byte is
`expected_some_value`. For a number whose `f64` value overflows, `serde_json` reports
`number_out_of_range`; the model does not compute floating-point values and reports
`invalid_type` there. -/
def peekInvalidType : Bytes → ErrorCode
  | [] => .expectedSomeValue
  | b :: r =>
    if b.toNat = 0x6E then orInvalidType (parseIdent [0x75, 0x6C, 0x6C] r)
    else if b.toNat = 0x74 then orInvalidType (parseIdent [0x72, 0x75, 0x65] r)
    else if b.toNat = 0x66 then orInvalidType (parseIdent [0x61, 0x6C, 0x73, 0x65] r)
    else if b.toNat = 0x2D then orInvalidType (parseInteger r)
    else if isDigit b then orInvalidType (parseInteger (b :: r))
    else if b.toNat = 0x22 then orInvalidType (parseStr r)
    else if b.toNat = 0x5B ∨ b.toNat = 0x7B then .invalidType
    else .expectedSomeValue

/-! ## Skipping a value -/

mutual

/-- `ignore_value`: skip whitespace and one value. -/
def ignoreValue : Nat → Bytes → Except ErrorCode Bytes
  | 0, _ => .error .outOfFuel
  | n + 1, bs =>
    match parseWhitespace bs with
    | [] => .error .eofWhileParsingValue
    | b :: r =>
      if b.toNat = 0x6E then parseIdent [0x75, 0x6C, 0x6C] r
      else if b.toNat = 0x74 then parseIdent [0x72, 0x75, 0x65] r
      else if b.toNat = 0x66 then parseIdent [0x61, 0x6C, 0x73, 0x65] r
      else if b.toNat = 0x2D then ignoreInteger r
      else if isDigit b then ignoreInteger (b :: r)
      else if b.toNat = 0x22 then ignoreStr r
      else if b.toNat = 0x5B then
        match parseWhitespace r with
        | [] => .error .eofWhileParsingList
        | c :: r' =>
          if c.toNat = 0x5D then .ok r'
          else
            match ignoreValue n r with
            | .ok r => ignoreSeqTail n r
            | .error e => .error e
      else if b.toNat = 0x7B then
        match parseWhitespace r with
        | [] => .error .eofWhileParsingObject
        | c :: r' => if c.toNat = 0x7D then .ok r' else ignoreMember n r
      else .error .expectedSomeValue

/-- After an element of an array: `,` and the next element, or the closing `]`. -/
def ignoreSeqTail : Nat → Bytes → Except ErrorCode Bytes
  | 0, _ => .error .outOfFuel
  | n + 1, bs =>
    match parseWhitespace bs with
    | [] => .error .eofWhileParsingList
    | c :: r =>
      if c.toNat = 0x2C then
        match ignoreValue n r with
        | .ok r => ignoreSeqTail n r
        | .error e => .error e
      else if c.toNat = 0x5D then .ok r
      else .error .expectedListCommaOrEnd

/-- At a member of an object: a string key, `:`, a value, and what follows it. -/
def ignoreMember : Nat → Bytes → Except ErrorCode Bytes
  | 0, _ => .error .outOfFuel
  | n + 1, bs =>
    match parseWhitespace bs with
    | [] => .error .eofWhileParsingObject
    | c :: r =>
      if c.toNat = 0x22 then
        match ignoreStr r with
        | .error e => .error e
        | .ok r =>
          match parseWhitespace r with
          | [] => .error .eofWhileParsingObject
          | d :: r =>
            if d.toNat = 0x3A then
              match ignoreValue n r with
              | .ok r => ignoreMapTail n r
              | .error e => .error e
            else .error .expectedColon
      else .error .keyMustBeAString

/-- After a member of an object: `,` and the next member, or the closing `}`. -/
def ignoreMapTail : Nat → Bytes → Except ErrorCode Bytes
  | 0, _ => .error .outOfFuel
  | n + 1, bs =>
    match parseWhitespace bs with
    | [] => .error .eofWhileParsingObject
    | c :: r =>
      if c.toNat = 0x2C then ignoreMember n r
      else if c.toNat = 0x7D then .ok r
      else .error .expectedObjectCommaOrEnd

end

end SerdeJson
end RollupBoost
