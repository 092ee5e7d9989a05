import RollupBoost.Http

/-!
# Http.ReadBody — `jsonrpsee`'s `read_body`

`ProxyService::call` reads the body with `http_helpers::read_body(&parts.headers, body,
u32::MAX)`. The function collects the data frames of the body until the stream ends, refusing a
body longer than the limit, and it looks at the first data frame that is not empty: among its
first 128 bytes, after ASCII whitespace, it must find `{` (one call) or `[` (a batch), and it
keeps the frame from there on. So the bytes it returns are the body less fewer than 128 leading
bytes of ASCII whitespace (`readBody_trims`), form feed included, which JSON does not count as
whitespace; a body with no such whitespace comes back whole (`readBody_of_head`).

The `content-length` check before the loop compares a `u32` with the limit, and at `u32::MAX`
it never fires (`readBody_u32Max`); the value it compares is taken as given. Trailers are
skipped and their contents are not kept.
-/

namespace RollupBoost
namespace HttpHelpers

/-- `http_helpers::HttpError`. -/
inductive HttpError
  | tooLarge
  | malformed
  | stream (e : String)
  deriving DecidableEq, Repr

/-- What `body.frame().await` yields before the end of the body: a data frame, a trailers
frame, or the error the stream fails with. -/
inductive Frame
  | data (bs : Bytes)
  | trailers
  | error (e : String)
  deriving DecidableEq, Repr

/-- The bytes of the data frames, in order. -/
def dataOf : List Frame → Bytes
  | [] => []
  | .data d :: fs => d ++ dataOf fs
  | _ :: fs => dataOf fs

@[simp] theorem dataOf_data (d : Bytes) (fs : List Frame) : dataOf (.data d :: fs) = d ++ dataOf fs :=
  rfl

/-- `u32::MAX`. -/
def u32Max : UInt32 := 0xFFFFFFFF

/-- `u8::is_ascii_whitespace`: space, tab, line feed, form feed and carriage return. -/
def isAsciiWhitespace (b : UInt8) : Bool :=
  b.toNat = 0x20 || b.toNat = 0x09 || b.toNat = 0x0A || b.toNat = 0x0C || b.toNat = 0x0D

/-- `data.iter().enumerate().take(128).find(|(_, byte)| !byte.is_ascii_whitespace())`. -/
def firstNonWhitespace (data : Bytes) : Option (Nat × UInt8) :=
  (data.enum.take 128).find? fun p => !isAsciiWhitespace p.2

/-- The locals of the loop: `received_data` and `is_single`. -/
structure ReadState where
  received : Bytes
  isSingle : Option Bool
  deriving DecidableEq, Repr

/-- One turn of `while let Some(frame_or_err) = body.frame().await`. -/
def readFrame (max : Nat) (st : ReadState) : Frame → Except HttpError ReadState
  | .error e => .error (.stream e)
  | .trailers => .ok st
  | .data data =>
    if data.isEmpty then .ok st
    else if st.received.length + data.length > max then .error .tooLarge
    else
      match st.isSingle with
      | none =>
        match firstNonWhitespace data with
        | some (idx, b) =>
          if b.toNat = 0x7B then .ok ⟨st.received ++ data.drop idx, some true⟩
          else if b.toNat = 0x5B then .ok ⟨st.received ++ data.drop idx, some false⟩
          else .error .malformed
        | none => .error .malformed
      | some _ => .ok ⟨st.received ++ data, st.isSingle⟩

/-- `read_body(headers, body, max_body_size)`, with `bodySize` what `read_header_content_length`
reads from the headers, `0` when it reads nothing. -/
def readBody (bodySize max : UInt32) (frames : List Frame) : Except HttpError (Bytes × Bool) :=
  if bodySize > max then .error .tooLarge
  else do
    let st ← frames.foldlM (readFrame max.toNat) ⟨[], none⟩
    match st.isSingle with
    | none => .error .malformed
    | some single => .ok (st.received, single)

/-! ## The limit -/

/-- At `u32::MAX` the `content-length` check never fires. -/
theorem readBody_u32Max (bodySize : UInt32) (frames : List Frame) :
    readBody bodySize u32Max frames = readBody 0 u32Max frames := by
  have hn : ∀ n : UInt32, ¬ n > u32Max := fun n => by
    rw [gt_iff_lt, UInt32.lt_def, BitVec.lt_def]
    exact Nat.not_lt.2 (Nat.le_of_lt_succ n.toBitVec.isLt)
  rw [readBody, readBody, if_neg (hn _), if_neg (hn _)]

/-! ## What the loop keeps -/

/-- The first byte that is not ASCII whitespace, among the first `k` from index `n` on, splits
the data after the whitespace before it. -/
theorem find?_enumFrom_take {data : Bytes} {n k i : Nat} {b : UInt8}
    (h : ((data.enumFrom n).take k).find? (fun p => !isAsciiWhitespace p.2) = some (i, b)) :
    ∃ ws rest, data = ws ++ b :: rest ∧ i = n + ws.length ∧ ws.length < k ∧
      ∀ x ∈ ws, isAsciiWhitespace x := by
  induction data generalizing n k with
  | nil => cases k <;> cases h
  | cons x xs ih =>
    obtain _ | k := k
    · cases h
    rw [List.enumFrom_cons, List.take_succ_cons, List.find?_cons] at h
    cases hx : isAsciiWhitespace x <;> simp only [hx, Bool.not_false, Bool.not_true] at h
    · cases h
      exact ⟨[], xs, rfl, rfl, Nat.succ_pos k, by simp⟩
    · obtain ⟨ws, rest, rfl, rfl, hl, hw⟩ := ih h
      refine ⟨x :: ws, rest, rfl, by simp only [List.length_cons]; omega,
        by simp only [List.length_cons]; omega, ?_⟩
      simpa [hx] using hw

theorem firstNonWhitespace_split {data : Bytes} {i : Nat} {b : UInt8}
    (h : firstNonWhitespace data = some (i, b)) :
    ∃ ws, data = ws ++ data.drop i ∧ (data.drop i).head? = some b ∧ ws.length < 128 ∧
      ∀ x ∈ ws, isAsciiWhitespace x := by
  obtain ⟨ws, rest, rfl, rfl, hl, hw⟩ := find?_enumFrom_take h
  simp only [Nat.zero_add, List.drop_left]
  exact ⟨ws, rfl, rfl, hl, hw⟩

/-- What the loop keeps of `consumed`, the data of the frames so far: nothing while no data came,
then everything but the ASCII whitespace that opened the body, from its `{` or `[` on. -/
def Trimmed (consumed : Bytes) : ReadState → Prop
  | ⟨received, none⟩ => consumed = [] ∧ received = []
  | ⟨received, some single⟩ => ∃ ws, consumed = ws ++ received ∧ ws.length < 128 ∧
      (∀ x ∈ ws, isAsciiWhitespace x) ∧ received.head? = some (if single then 0x7B else 0x5B)

theorem trimmed_start : Trimmed [] ⟨[], none⟩ := ⟨rfl, rfl⟩

/-- The opening frame: its whitespace is dropped and the rest kept. -/
theorem trimmed_open {data : Bytes} {i : Nat} {b : UInt8} (h : firstNonWhitespace data = some (i, b))
    (single : Bool) (hb : b = if single then 0x7B else 0x5B) :
    Trimmed data ⟨[] ++ data.drop i, some single⟩ := by
  obtain ⟨ws, hd, hh, hl, hw⟩ := firstNonWhitespace_split h
  exact ⟨ws, hd, hl, hw, by rw [List.nil_append, hh, hb]⟩

/-- One turn of the loop keeps `Trimmed`. -/
theorem readFrame_trimmed {max : Nat} {st st' : ReadState} {f : Frame} {consumed : Bytes}
    (h : readFrame max st f = .ok st') (ht : Trimmed consumed st) :
    Trimmed (consumed ++ dataOf [f]) st' := by
  obtain ⟨received, single⟩ := st
  cases f with
  | error e => cases h
  | trailers => cases h; simpa [dataOf] using ht
  | data data =>
    simp only [dataOf, List.append_nil]
    rw [readFrame] at h
    by_cases he : data.isEmpty
    · rw [if_pos he] at h
      cases h
      simpa [List.isEmpty_iff.1 he] using ht
    rw [if_neg he] at h
    split_ifs at h
    cases single with
    | none =>
      obtain ⟨rfl, rfl⟩ := ht
      dsimp only at h
      split at h
      · rename_i i b hf
        split_ifs at h with h₁ h₂ <;> cases h
        · exact trimmed_open hf true (UInt8.toNat.inj h₁)
        · exact trimmed_open hf false (UInt8.toNat.inj h₂)
      · cases h
    | some s =>
      cases h
      obtain ⟨ws, rfl, hl, hw, hh⟩ := ht
      exact ⟨ws, by simp, hl, hw, by rw [List.head?_append, hh]; rfl⟩

/-- The whole loop keeps `Trimmed`. -/
theorem foldlM_readFrame_trimmed {max : Nat} (fs : List Frame) {st st' : ReadState}
    {consumed : Bytes} (h : fs.foldlM (readFrame max) st = .ok st') (ht : Trimmed consumed st) :
    Trimmed (consumed ++ dataOf fs) st' := by
  induction fs generalizing st consumed with
  | nil => cases h; simpa [dataOf] using ht
  | cons f fs ih =>
    rw [List.foldlM_cons] at h
    cases hf : readFrame max st f with
    | error e => rw [hf] at h; cases h
    | ok st₁ =>
      rw [hf] at h
      have := ih h (readFrame_trimmed hf ht)
      cases f <;> simpa [dataOf] using this

/-- What `read_body` returns is the body less fewer than 128 leading bytes of ASCII whitespace,
and it starts with `{` for a single call and with `[` for a batch. -/
theorem readBody_trims {bodySize max : UInt32} {fs : List Frame} {bs : Bytes} {single : Bool}
    (h : readBody bodySize max fs = .ok (bs, single)) :
    ∃ ws, dataOf fs = ws ++ bs ∧ ws.length < 128 ∧ (∀ x ∈ ws, isAsciiWhitespace x) ∧
      bs.head? = some (if single then 0x7B else 0x5B) := by
  unfold readBody at h
  split_ifs at h
  cases hl : fs.foldlM (readFrame max.toNat) ⟨[], none⟩ with
  | error e => rw [hl] at h; cases h
  | ok st =>
    rw [hl] at h
    have ht := foldlM_readFrame_trimmed fs hl trimmed_start
    obtain ⟨received, _ | s⟩ := st
    · cases h
    · cases h
      simpa using ht

theorem readBody_trims_formFeed :
    readBody 0 u32Max [.data [0x0C, 0x7B, 0x7D]] = .ok ([0x7B, 0x7D], true) ∧
      ∃ ws, dataOf [.data [0x0C, 0x7B, 0x7D]] = ws ++ [0x7B, 0x7D] ∧ ws.length < 128 ∧
        (∀ x ∈ ws, isAsciiWhitespace x) ∧
        [(0x7B : UInt8), 0x7D].head? = some (if true then 0x7B else 0x5B) :=
  ⟨by decide, @readBody_trims 0 u32Max _ _ _ (by decide)⟩

/-- A body of one data frame that opens with `{` or `[` comes back whole. -/
theorem readBody_of_head (bodySize : UInt32) {b : UInt8} {rest : Bytes} (single : Bool)
    (hb : b = if single then 0x7B else 0x5B) (hl : rest.length < u32Max.toNat) :
    readBody bodySize u32Max [.data (b :: rest)] = .ok (b :: rest, single) := by
  have hw : isAsciiWhitespace b = false := by subst hb; cases single <;> rfl
  have hf : firstNonWhitespace (b :: rest) = some (0, b) := by
    rw [firstNonWhitespace, List.enum_cons, show 128 = 127 + 1 from rfl, List.take_succ_cons,
      List.find?_cons, hw]
    rfl
  have hn : ¬ (0 : UInt32) > u32Max := by decide
  rw [readBody_u32Max, readBody, if_neg hn, List.foldlM_cons, readFrame, if_neg (by simp),
    if_neg (by simp only [List.length_nil, List.length_cons]; omega)]
  dsimp only
  rw [hf]
  cases single <;> subst hb <;> rfl

end HttpHelpers
end RollupBoost
