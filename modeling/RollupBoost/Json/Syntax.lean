import RollupBoost.Json.Read

/-!
# Json.Syntax — the text of a JSON value

JSON's grammar, in the form where whitespace has a place of its own
(`element = ws value ws`, `member = ws string ws ':' element`), written as a concrete syntax
tree: every choice a text makes (where its whitespace goes, how each character of a string is
written, how a number is spelled) is a field of the tree, and `render` writes the text back.
What the grammar asks of a leaf is a field of its structure (a whitespace run holds only the
four whitespace bytes, an unescaped character is neither a quote, a backslash nor a control
character), so an ill-formed text cannot be built. A string's unescaped characters are Lean
`Char`s, scalar values, so every text here is UTF-8.

`StrLit.value` is what a string literal stands for: the UTF-8 bytes of its characters, a pair
of `\u` escapes of surrogates taken together as one character. It is none when a surrogate
escape has no partner: the grammar allows that text, but no Unicode string has it.
-/

namespace RollupBoost
namespace Json

open SerdeJson

/-! ## Leaves -/

/-- A run of whitespace between two tokens. -/
structure Ws where
  bytes : Bytes
  all_ws : ∀ b ∈ bytes, isWs b = true

/-- A decimal digit. -/
structure Digit where
  byte : UInt8
  is_digit : isDigit byte = true

/-- A hex digit of a `\u` escape, of either case. -/
structure HexDigit where
  byte : UInt8
  is_hex : (hexVal byte).isSome = true

/-- The value of a hex digit. -/
def HexDigit.val (h : HexDigit) : Nat := (hexVal h.byte).get h.is_hex

/-- The code unit a `\u` escape spells. -/
def codeUnit (a b c d : HexDigit) : Nat := ((a.val * 16 + b.val) * 16 + c.val) * 16 + d.val

/-- A character that may stand in a string as itself. -/
structure Unescaped where
  char : Char
  not_control : 0x20 ≤ char.toNat
  not_quote : char ≠ '"'
  not_backslash : char ≠ '\\'

/-- The letter after the backslash of a two-character escape (`" \ / b f n r t`). -/
structure EscapeLetter where
  byte : UInt8
  is_escape : (simpleEscape byte).isSome = true

/-- The byte a two-character escape stands for. -/
def EscapeLetter.decoded (e : EscapeLetter) : UInt8 := (simpleEscape e.byte).get e.is_escape

/-- How one character of a string is written. -/
inductive StrPiece
  | char (c : Unescaped)
  | escape (e : EscapeLetter)
  | unicode (h₁ h₂ h₃ h₄ : HexDigit)

/-- A string literal: what stands between its quotes. -/
abbrev StrLit := List StrPiece

/-- The integer part of a number: `0`, or digits that do not start with `0`. -/
inductive IntPart
  | zero
  | digits (first : Digit) (nonzero : first.byte.toNat ≠ 0x30) (rest : List Digit)

/-- The exponent of a number: `e` or `E`, a sign or none, and digits. -/
structure Exponent where
  upper : Bool
  sign : Option Bool
  first : Digit
  rest : List Digit

/-- A number: a minus sign or none, the integer part, a fraction, an exponent. -/
structure Number where
  neg : Bool
  int : IntPart
  frac : Option (Digit × List Digit)
  exp : Option Exponent

mutual

/-- A value. `emptyObject` and `emptyArray` keep the whitespace between their brackets. -/
inductive Value
  | object (ms : Members)
  | emptyObject (ws : Ws)
  | array (es : Elements)
  | emptyArray (ws : Ws)
  | string (s : StrLit)
  | number (n : Number)
  | bool (b : Bool)
  | null

/-- `ws value ws`. -/
inductive Element
  | mk (pre : Ws) (v : Value) (post : Ws)

/-- The elements of an array, separated by commas. -/
inductive Elements
  | one (e : Element)
  | cons (e : Element) (es : Elements)

/-- `ws string ws ':' element`. -/
inductive Member
  | mk (pre : Ws) (key : StrLit) (mid : Ws) (val : Element)

/-- The members of an object, separated by commas. -/
inductive Members
  | one (m : Member)
  | cons (m : Member) (ms : Members)

end

/-! ## Writing a text -/

/-- How a string piece is written. -/
def StrPiece.render : StrPiece → Bytes
  | .char c => Utf8.encode c.char.toNat
  | .escape e => [0x5C, e.byte]
  | .unicode h₁ h₂ h₃ h₄ => [0x5C, 0x75, h₁.byte, h₂.byte, h₃.byte, h₄.byte]

/-- The text between a string's quotes. -/
def StrLit.body (s : StrLit) : Bytes := s.flatMap StrPiece.render

/-- A string literal with its quotes. -/
def StrLit.render (s : StrLit) : Bytes := 0x22 :: s.body ++ [0x22]

/-- The text of an integer part. -/
def IntPart.render : IntPart → Bytes
  | .zero => [0x30]
  | .digits d _ ds => d.byte :: ds.map Digit.byte

/-- The sign of an exponent. -/
def signRender : Option Bool → Bytes
  | none => []
  | some false => [0x2B]
  | some true => [0x2D]

/-- The text of an exponent. -/
def Exponent.render (e : Exponent) : Bytes :=
  (if e.upper then 0x45 else 0x65) :: (signRender e.sign ++ e.first.byte :: e.rest.map Digit.byte)

/-- The text of a fraction: `.` and its digits. -/
def fracRender : Option (Digit × List Digit) → Bytes
  | none => []
  | some (d, ds) => 0x2E :: d.byte :: ds.map Digit.byte

/-- The text of an exponent, if there is one. -/
def expRender : Option Exponent → Bytes
  | none => []
  | some e => e.render

/-- The text of a number. -/
def Number.render (n : Number) : Bytes :=
  (if n.neg then [0x2D] else []) ++ n.int.render ++ fracRender n.frac ++ expRender n.exp

mutual

/-- The text of a value. -/
def Value.render : Value → Bytes
  | .object ms => 0x7B :: ms.render ++ [0x7D]
  | .emptyObject ws => 0x7B :: ws.bytes ++ [0x7D]
  | .array es => 0x5B :: es.render ++ [0x5D]
  | .emptyArray ws => 0x5B :: ws.bytes ++ [0x5D]
  | .string s => s.render
  | .number n => n.render
  | .bool true => [0x74, 0x72, 0x75, 0x65]
  | .bool false => [0x66, 0x61, 0x6C, 0x73, 0x65]
  | .null => [0x6E, 0x75, 0x6C, 0x6C]

/-- The text of an element. -/
def Element.render : Element → Bytes
  | .mk pre v post => pre.bytes ++ v.render ++ post.bytes

/-- The text of an array's elements. -/
def Elements.render : Elements → Bytes
  | .one e => e.render
  | .cons e es => e.render ++ 0x2C :: es.render

/-- The text of a member. -/
def Member.render : Member → Bytes
  | .mk pre k mid v => pre.bytes ++ k.render ++ mid.bytes ++ 0x3A :: v.render

/-- The text of an object's members. -/
def Members.render : Members → Bytes
  | .one m => m.render
  | .cons m ms => m.render ++ 0x2C :: ms.render

end

/-! ## What a string stands for -/

/-- The first half of a surrogate pair. -/
def IsLeading (n : Nat) : Prop := 0xD800 ≤ n ∧ n ≤ 0xDBFF

/-- The second half of a surrogate pair. -/
def IsTrailing (n : Nat) : Prop := 0xDC00 ≤ n ∧ n ≤ 0xDFFF

instance (n : Nat) : Decidable (IsLeading n) := inferInstanceAs (Decidable (_ ∧ _))
instance (n : Nat) : Decidable (IsTrailing n) := inferInstanceAs (Decidable (_ ∧ _))

/-- The scalar value a surrogate pair stands for. -/
def pairValue (hi lo : Nat) : Nat := (hi - 0xD800) * 0x400 + (lo - 0xDC00) + 0x10000

/-- The UTF-8 bytes a string literal's pieces stand for, after the leading surrogate `high`
when one waits for its partner; none when a surrogate escape is unpaired. -/
def StrLit.decode : Option Nat → StrLit → Option Bytes
  | none, [] => some []
  | none, .char c :: ps => (Utf8.encode c.char.toNat ++ ·) <$> StrLit.decode none ps
  | none, .escape e :: ps => (e.decoded :: ·) <$> StrLit.decode none ps
  | none, .unicode h₁ h₂ h₃ h₄ :: ps =>
    if IsTrailing (codeUnit h₁ h₂ h₃ h₄) then none
    else if IsLeading (codeUnit h₁ h₂ h₃ h₄) then StrLit.decode (some (codeUnit h₁ h₂ h₃ h₄)) ps
    else (Utf8.encode (codeUnit h₁ h₂ h₃ h₄) ++ ·) <$> StrLit.decode none ps
  | some hi, .unicode l₁ l₂ l₃ l₄ :: ps =>
    if IsTrailing (codeUnit l₁ l₂ l₃ l₄) then
      (Utf8.encode (pairValue hi (codeUnit l₁ l₂ l₃ l₄)) ++ ·) <$> StrLit.decode none ps
    else none
  | some _, [] => none
  | some _, .char _ :: _ => none
  | some _, .escape _ :: _ => none

/-- The UTF-8 bytes a string literal stands for. -/
def StrLit.value (s : StrLit) : Option Bytes := s.decode none

/-- The characters of a string literal written with no escape at all. -/
def StrLit.plain : StrLit → Option (List Char)
  | [] => some []
  | .char c :: ps => (c.char :: ·) <$> StrLit.plain ps
  | _ :: _ => none

/-- The string literal that writes each of `cs` as itself, for characters that need no
escape. -/
def StrLit.ofPlain : (cs : List Char) → (∀ c ∈ cs, 0x20 ≤ c.toNat ∧ c ≠ '"' ∧ c ≠ '\\') → StrLit
  | [], _ => []
  | c :: cs, h =>
    .char ⟨c, (h c (.head cs)).1, (h c (.head cs)).2.1, (h c (.head cs)).2.2⟩ ::
      StrLit.ofPlain cs fun d hd => h d (.tail c hd)

/-- The whitespace after an element's value. -/
def Element.post : Element → Ws
  | .mk _ _ post => post

/-- The members of an object, in order. -/
def Members.toList : Members → List Member
  | .one m => [m]
  | .cons m ms => m :: ms.toList

/-- A member's key. -/
def Member.key : Member → StrLit
  | .mk _ k _ _ => k

/-- A member's value, with its whitespace. -/
def Member.val : Member → Element
  | .mk _ _ _ v => v

end Json
end RollupBoost
