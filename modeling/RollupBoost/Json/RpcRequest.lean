import RollupBoost.Json.Read

/-!
# Json.RpcRequest — `serde_json::from_slice::<RpcRequest>`

`ProxyService::call` declares

```
#[derive(serde::Deserialize, Debug)]
struct RpcRequest<'a> {
    #[serde(borrow)]
    method: &'a str,
}
```

and reads the method as `serde_json::from_slice::<RpcRequest>(&body_bytes)?.method`. The derive
gives a visitor for a map and one for a sequence, and `serde_json`'s `deserialize_struct` takes
either. In a map, every key is read with `parse_str`; a key equal to `method` is read as a
`&str`, a second one is `duplicate_field`, and any other key's value is skipped. A `&str` can
only be borrowed from the input, so a method string that needed unescaping is `invalid_type`.
In a sequence the first element is the method, and the sequence must end after it.
-/

namespace RollupBoost
namespace SerdeJson

/-- `RpcRequest<'a>`: the one field `ProxyService::call` reads from a body. -/
structure RpcRequest where
  method : Str
  deriving DecidableEq

/-- `parse_object_colon`. -/
def parseObjectColon (bs : Bytes) : Except ErrorCode Bytes :=
  match parseWhitespace bs with
  | [] => .error .eofWhileParsingObject
  | b :: r => if b.toNat = 0x3A then .ok r else .error .expectedColon

/-- `deserialize_str` into a `&str`: a string literal that `parse_str` could return as
`Reference::Borrowed`. A copied string is `invalid_type`; a value that is not a string is what
`peek_invalid_type` makes of it. -/
def deserializeBorrowedStr (bs : Bytes) : Except ErrorCode (Str × Bytes) :=
  match parseWhitespace bs with
  | [] => .error .eofWhileParsingValue
  | b :: r =>
    if b.toNat = 0x22 then
      match parseStr r with
      | .ok (.borrowed s, r) => .ok (s, r)
      | .ok (.copied _, _) => .error .invalidType
      | .error e => .error e
    else .error (peekInvalidType (b :: r))

/-- The part of `MapAccess::next_key_seed` after the peeked byte `b`, which is not the `}` that
ends the map: a comma unless this is the first key, then the key's opening quote. The input
after the quote. -/
def nextKey (first : Bool) (b : UInt8) (r : Bytes) : Except ErrorCode Bytes :=
  let peek : Except ErrorCode Bytes :=
    if b.toNat = 0x2C ∧ first = false then .ok (parseWhitespace r)
    else if first then .ok (b :: r)
    else .error .expectedObjectCommaOrEnd
  match peek with
  | .error e => .error e
  | .ok [] => .error .eofWhileParsingValue
  | .ok (k :: r) =>
    if k.toNat = 0x22 then .ok r
    else if k.toNat = 0x7D then .error .trailingComma
    else .error .keyMustBeAString

/-- The end of the derived `visit_map`: the field read, or `missing_field("method")`. -/
def fieldOrMissing : Option Str → Except ErrorCode Str
  | some s => .ok s
  | none => .error (.missingField "method")

mutual

/-- The derived `visit_map`, driving `MapAccess`: `first` is the access's `first` flag and
`method` the field read so far. It stops, without reading it, at the `}` that ends the map. -/
def visitMap : Nat → Bool → Option Str → Bytes → Except ErrorCode (Str × Bytes)
  | 0, _, _, _ => .error .outOfFuel
  | n + 1, first, method, bs =>
    match parseWhitespace bs with
    | [] => .error .eofWhileParsingObject
    | b :: r =>
      if b.toNat = 0x7D then (fieldOrMissing method).map (·, b :: r)
      else
        match nextKey first b r with
        | .error e => .error e
        | .ok r => visitField n method r

/-- One key of the map, after its opening quote, and the value of its field: `method` is read
as a `&str` unless it was already seen; any other field's value is skipped. -/
def visitField : Nat → Option Str → Bytes → Except ErrorCode (Str × Bytes)
  | 0, _, _ => .error .outOfFuel
  | n + 1, method, bs =>
    match parseStr bs with
    | .error e => .error e
    | .ok (key, r) =>
      if key.str.bytes = Utf8.ofString "method" then
        if method.isSome then .error (.duplicateField "method")
        else
          match parseObjectColon r with
          | .error e => .error e
          | .ok r =>
            match deserializeBorrowedStr r with
            | .error e => .error e
            | .ok (s, r) => visitMap n false (some s) r
      else
        match parseObjectColon r with
        | .error e => .error e
        | .ok r =>
          match ignoreValue n r with
          | .error e => .error e
          | .ok r => visitMap n false method r

end

/-- The derived `visit_seq`: the first element is the method. -/
def visitSeq (bs : Bytes) : Except ErrorCode (Str × Bytes) :=
  match parseWhitespace bs with
  | [] => .error .eofWhileParsingList
  | b :: r => if b.toNat = 0x5D then .error .invalidLength else deserializeBorrowedStr (b :: r)

/-- `end_seq`: the sequence must close here. -/
def endSeq (bs : Bytes) : Except ErrorCode Bytes :=
  match parseWhitespace bs with
  | [] => .error .eofWhileParsingList
  | b :: r =>
    if b.toNat = 0x5D then .ok r
    else if b.toNat = 0x2C then
      match parseWhitespace r with
      | c :: _ => if c.toNat = 0x5D then .error .trailingComma else .error .trailingCharacters
      | [] => .error .trailingCharacters
    else .error .trailingCharacters

/-- `end_map`: the map must close here. -/
def endMap (bs : Bytes) : Except ErrorCode Bytes :=
  match parseWhitespace bs with
  | [] => .error .eofWhileParsingObject
  | b :: r =>
    if b.toNat = 0x7D then .ok r
    else if b.toNat = 0x2C then .error .trailingComma
    else .error .trailingCharacters

/-- `deserialize_struct` for `RpcRequest`: a sequence or a map, each closed by its end check;
any other value is what `peek_invalid_type` makes of it. -/
def deserializeStruct (fuel : Nat) (bs : Bytes) : Except ErrorCode (Str × Bytes) :=
  match parseWhitespace bs with
  | [] => .error .eofWhileParsingValue
  | b :: r =>
    if b.toNat = 0x5B then
      match visitSeq r with
      | .error e => .error e
      | .ok (s, r) =>
        match endSeq r with
        | .error e => .error e
        | .ok r => .ok (s, r)
    else if b.toNat = 0x7B then
      match visitMap fuel true none r with
      | .error e => .error e
      | .ok (s, r) =>
        match endMap r with
        | .error e => .error e
        | .ok r => .ok (s, r)
    else .error (peekInvalidType (b :: r))

/-- `serde_json::from_slice::<RpcRequest>`: the struct, then nothing but whitespace. -/
def fromSlice (body : Bytes) : Except ErrorCode RpcRequest :=
  match deserializeStruct (body.length + 1) body with
  | .error e => .error e
  | .ok (s, r) => if parseWhitespace r = [] then .ok ⟨s⟩ else .error .trailingCharacters

end SerdeJson
end RollupBoost
