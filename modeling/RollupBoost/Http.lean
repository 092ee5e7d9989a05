import RollupBoost.Utf8

/-!
# Http — requests, responses and header maps

The proxy handles `http::Request<HttpBody>` and `http::Response<HttpBody>` as values: it reads
the path of a request's uri, replaces the uri, sets one header, and passes everything else on.
This module keeps the parts of those types it touches.

`HeaderMap` is kept the way `http` stores it: one entry per name, in the order the names came
in, each holding the name's values in order. Its `insert` replaces every value of the name by
the new one, in the entry's place, or adds the entry at the end; `get_all` reads a name's
values. Two maps are equal for `http` (`PartialEq`) when every name has the same values in both,
whatever the order of the names: that is `HeaderMap.Equiv`.
-/

namespace RollupBoost

/-- `http::Uri`, by its parts. The proxy compares the path with `/healthz` and replaces the
whole uri with an upstream's. -/
structure Uri where
  scheme : String
  authority : String
  path : String
  query : Option String
  deriving DecidableEq, Repr

/-- `Uri::default()`: the uri `/`. -/
def Uri.default : Uri := ⟨"", "", "/", none⟩

/-- A header name, lower case as `http` keeps it. -/
abbrev HeaderName := String

/-- A header value. -/
abbrev HeaderValue := String

/-- `http::header::AUTHORIZATION`. -/
def AUTHORIZATION : HeaderName := "authorization"

/-! ## Header maps -/

/-- The values of the name `k` in a list of entries. -/
def valuesOf (k : HeaderName) : List (HeaderName × List HeaderValue) → List HeaderValue
  | [] => []
  | (n, vs) :: es => if n = k then vs else valuesOf k es

/-- The entries after `insert k v`: the entry of `k` holds `v` alone, or is added last. -/
def replaceOrPush (k : HeaderName) (v : HeaderValue) :
    List (HeaderName × List HeaderValue) → List (HeaderName × List HeaderValue)
  | [] => [(k, [v])]
  | (n, vs) :: es => if n = k then (k, [v]) :: es else (n, vs) :: replaceOrPush k v es

theorem valuesOf_replaceOrPush (k x : HeaderName) (v : HeaderValue)
    (es : List (HeaderName × List HeaderValue)) :
    valuesOf x (replaceOrPush k v es) = if k = x then [v] else valuesOf x es := by
  induction es with
  | nil => rfl
  | cons e es ih =>
    obtain ⟨n, vs⟩ := e
    by_cases hn : n = k
    · subst hn
      simp only [replaceOrPush, if_true, valuesOf]
      split <;> rfl
    · simp only [replaceOrPush, hn, if_false, valuesOf, ih]
      by_cases hk : k = x
      · subst hk; simp [hn]
      · simp [hk]

theorem mem_keys_replaceOrPush {k x : HeaderName} {v : HeaderValue}
    {es : List (HeaderName × List HeaderValue)} :
    x ∈ (replaceOrPush k v es).map Prod.fst ↔ x = k ∨ x ∈ es.map Prod.fst := by
  induction es with
  | nil => simp [replaceOrPush]
  | cons e es ih =>
    obtain ⟨n, vs⟩ := e
    by_cases hn : n = k
    · subst hn; simp [replaceOrPush]
    · simp only [replaceOrPush, hn, if_false, List.map_cons, List.mem_cons, ih]
      tauto

theorem nodup_keys_replaceOrPush (k : HeaderName) (v : HeaderValue)
    {es : List (HeaderName × List HeaderValue)} (h : (es.map Prod.fst).Nodup) :
    ((replaceOrPush k v es).map Prod.fst).Nodup := by
  induction es with
  | nil => simp [replaceOrPush]
  | cons e es ih =>
    obtain ⟨n, vs⟩ := e
    rw [List.map_cons, List.nodup_cons] at h
    by_cases hn : n = k
    · subst hn; simpa [replaceOrPush] using h
    · simp only [replaceOrPush, hn, if_false, List.map_cons, List.nodup_cons,
        mem_keys_replaceOrPush]
      exact ⟨by tauto, ih h.2⟩

theorem ne_nil_of_mem_replaceOrPush {k : HeaderName} {v : HeaderValue}
    {es : List (HeaderName × List HeaderValue)} (h : ∀ e ∈ es, e.2 ≠ [])
    {e : HeaderName × List HeaderValue} (he : e ∈ replaceOrPush k v es) : e.2 ≠ [] := by
  induction es with
  | nil => simp_all [replaceOrPush]
  | cons e' es ih =>
    obtain ⟨n, vs⟩ := e'
    unfold replaceOrPush at he
    split at he <;> simp only [List.mem_cons] at he
    · rcases he with rfl | he
      · simp
      · exact h e (by simp [he])
    · rcases he with rfl | he
      · exact h _ (by simp)
      · exact ih (fun e he => h e (by simp [he])) he

/-- `http::HeaderMap`: the entries, one per name, each with at least one value. -/
structure HeaderMap where
  entries : List (HeaderName × List HeaderValue)
  nodup : (entries.map Prod.fst).Nodup
  nonempty : ∀ e ∈ entries, e.2 ≠ []

namespace HeaderMap

/-- `HeaderMap::new()`. -/
def empty : HeaderMap := ⟨[], List.nodup_nil, fun _ h => absurd h (List.not_mem_nil _)⟩

/-- `get_all`: the values of a name, first to last. -/
def getAll (h : HeaderMap) (k : HeaderName) : List HeaderValue := valuesOf k h.entries

/-- `insert`: the name holds `v` alone afterwards. -/
def insert (h : HeaderMap) (k : HeaderName) (v : HeaderValue) : HeaderMap :=
  ⟨replaceOrPush k v h.entries, nodup_keys_replaceOrPush k v h.nodup,
    fun _ he => ne_nil_of_mem_replaceOrPush h.nonempty he⟩

/-- Equality as `HeaderMap`'s `PartialEq` decides it: every name has the same values. -/
def Equiv (h₁ h₂ : HeaderMap) : Prop := ∀ k, h₁.getAll k = h₂.getAll k

@[simp] theorem getAll_empty (k : HeaderName) : empty.getAll k = [] := rfl

@[simp] theorem getAll_insert (h : HeaderMap) (k x : HeaderName) (v : HeaderValue) :
    (h.insert k v).getAll x = if k = x then [v] else h.getAll x :=
  valuesOf_replaceOrPush k x v h.entries

theorem Equiv.refl (h : HeaderMap) : Equiv h h := fun _ => rfl

theorem Equiv.symm {h₁ h₂ : HeaderMap} (e : Equiv h₁ h₂) : Equiv h₂ h₁ := fun k => (e k).symm

theorem Equiv.trans {h₁ h₂ h₃ : HeaderMap} (e₁ : Equiv h₁ h₂) (e₂ : Equiv h₂ h₃) :
    Equiv h₁ h₃ := fun k => (e₁ k).trans (e₂ k)

/-- Maps that agree on every name but `k` are equal once `k` is set in both. -/
theorem insert_equiv {h₁ h₂ : HeaderMap} {k : HeaderName} (e : ∀ x, x ≠ k → h₁.getAll x = h₂.getAll x)
    (v : HeaderValue) : Equiv (h₁.insert k v) (h₂.insert k v) := by
  intro x
  rw [getAll_insert, getAll_insert]
  split
  · rfl
  · exact e x (Ne.symm ‹_›)

end HeaderMap

/-! ## Requests and responses -/

/-- `http::request::Parts`, by the fields the proxy reads or sets. -/
structure Parts where
  uri : Uri
  headers : HeaderMap

/-- `http::Request<HttpBody>`: the parts and the bytes of the body. -/
structure HttpRequest where
  parts : Parts
  body : Bytes

/-- Two requests `http` cannot tell apart: the same uri, equal header maps, the same body. -/
def HttpRequest.Equiv (r₁ r₂ : HttpRequest) : Prop :=
  r₁.parts.uri = r₂.parts.uri ∧ r₁.parts.headers.Equiv r₂.parts.headers ∧ r₁.body = r₂.body

/-- `http::Response<HttpBody>`. -/
structure HttpResponse where
  status : Nat
  headers : HeaderMap
  body : Bytes

/-- `Response::new(body)`: status `200 OK` and no headers. -/
def HttpResponse.new (body : Bytes) : HttpResponse := ⟨200, HeaderMap.empty, body⟩

/-- `reth_rpc_layer::JwtSecret`: a 256-bit key. -/
structure JwtSecret where
  key : List UInt8
  length_eq : key.length = 32
  deriving DecidableEq

end RollupBoost
