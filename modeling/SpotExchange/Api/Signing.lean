import SpotExchange.Lib.Framing
import Mathlib

namespace SpotExchange.Api

open SpotExchange.Lib

/-!
# Signed payloads

What a request and a WebSocket handshake are signed under, with one key for both.

* `signaturePayload`, `wsSignaturePayload` — the texts, for any Unicode upper-casing and any HMAC;
* `RestRequest` — a request whose method and path are single lines and whose path is rooted;
* `signaturePayload_unambiguous` — a text stands for one request only, and for no handshake.
-/

section

variable (upperChar : Char → List Char) (hmacHex : ByteArray → ByteArray → String)

/-- `s.upper()`: each character has its upper-case text. -/
def upper (s : String) : String := String.ofList (s.toList.flatMap upperChar)

/-- The payload of `compute_signature`. -/
def signaturePayload (method path : String) (timestamp : ℤ) (body : String) : String :=
  upper upperChar method ++ "\n" ++ path ++ "\n" ++ toString timestamp ++ "\n" ++ body

/-- The payload of `compute_ws_signature`. -/
def wsSignaturePayload (timestamp : ℤ) (apiKey : String) : String :=
  "WS_HANDSHAKE\n" ++ toString timestamp ++ "\n" ++ apiKey

/-- `compute_signature`. -/
def computeSignature (secret method path : String) (timestamp : ℤ) (body : String) : String :=
  hmacHex secret.toUTF8 (signaturePayload upperChar method path timestamp body).toUTF8

/-- `compute_ws_signature`. -/
def computeWsSignature (secret apiKey : String) (timestamp : ℤ) : String :=
  hmacHex secret.toUTF8 (wsSignaturePayload timestamp apiKey).toUTF8

/-- A request with a method and a path of one line each, and a path that begins with a slash. -/
structure RestRequest where
  method : String
  path : String
  timestamp : ℤ
  body : String
  method_line : '\n' ∉ method.toList
  path_line : '\n' ∉ path.toList
  path_rooted : path.toList.head? = some '/'

/-- What the request is signed under. -/
def RestRequest.payload (r : RestRequest) : String :=
  signaturePayload upperChar r.method r.path r.timestamp r.body

/-- The lines of the payload before the body. -/
def RestRequest.lines (r : RestRequest) : List (List Char) :=
  [(upper upperChar r.method).toList, r.path.toList, (toString r.timestamp).toList]

end

section

variable {upperChar : Char → List Char} {c : Char} {n : ℤ}

/-- The text of a whole number is made of digits and a sign. -/
theorem mem_toString_int (h : c ∈ (toString n).toList) : c = '-' ∨ c.isDigit = true := by
  rw [Int.toString_eq_repr, Int.repr_eq_if] at h
  have hdigits : ∀ k : ℕ, c ∈ k.repr.toList → c.isDigit = true := by
    intro k hk
    rw [Nat.toList_repr] at hk
    exact Nat.isDigit_of_mem_toDigits (by decide) (by decide) hk
  split_ifs at h with hsign
  · exact .inr (hdigits _ h)
  · rw [String.toList_append, List.mem_append] at h
    rcases h with h | h
    · exact .inl (by simpa using h)
    · exact .inr (hdigits _ h)

theorem newline_notMem_toString (n : ℤ) : '\n' ∉ (toString n).toList := by
  intro h
  rcases mem_toString_int h with hc | hc <;> exact absurd hc (by decide)

/-- No path that begins with a slash is the text of a whole number. -/
theorem rooted_ne_toString {path : String} (h : path.toList.head? = some '/') : path ≠ toString n := by
  rintro rfl
  rcases mem_toString_int (List.mem_of_mem_head? h) with hc | hc <;> exact absurd hc (by decide)

theorem newline_notMem_upper (hupper : ∀ c, c ≠ '\n' → '\n' ∉ upperChar c) {s : String}
    (h : '\n' ∉ s.toList) : '\n' ∉ (upper upperChar s).toList := by
  unfold upper
  rw [String.toList_ofList, List.mem_flatMap]
  rintro ⟨c, hc, hnewline⟩
  apply hupper c _ hnewline
  rintro rfl
  exact h hc

/-- The payload of a request is three lines and a rest. -/
theorem payload_toList (r : RestRequest) :
    (r.payload upperChar).toList = framed '\n' (r.lines upperChar) r.body.toList := by
  simp [RestRequest.payload, RestRequest.lines, signaturePayload]

/-- The payload of a handshake is two lines and a rest. -/
theorem wsPayload_toList (timestamp : ℤ) (apiKey : String) :
    (wsSignaturePayload timestamp apiKey).toList = framed '\n'
      ["WS_HANDSHAKE".toList, (toString timestamp).toList] apiKey.toList := by
  simp [wsSignaturePayload]

theorem newline_notMem_lines (hupper : ∀ c, c ≠ '\n' → '\n' ∉ upperChar c) (r : RestRequest) :
    ∀ line ∈ r.lines upperChar, '\n' ∉ line := by
  unfold RestRequest.lines
  rw [List.forall_mem_cons, List.forall_mem_cons, List.forall_mem_singleton]
  exact ⟨newline_notMem_upper hupper r.method_line, r.path_line, newline_notMem_toString _⟩

/-- **One payload, one request.** -/
theorem payload_inj (hupper : ∀ c, c ≠ '\n' → '\n' ∉ upperChar c) {r r' : RestRequest}
    (heq : r.payload upperChar = r'.payload upperChar) :
    upper upperChar r.method = upper upperChar r'.method ∧ r.path = r'.path ∧
      r.timestamp = r'.timestamp ∧ r.body = r'.body := by
  have htexts := congrArg String.toList heq
  rw [payload_toList, payload_toList] at htexts
  obtain ⟨hlines, hbody⟩ := framed_inj (by rfl) (newline_notMem_lines hupper r)
    (newline_notMem_lines hupper r') htexts
  unfold RestRequest.lines at hlines
  rw [List.cons.injEq, List.cons.injEq, List.cons.injEq] at hlines
  obtain ⟨hmethod, hpath, htime, -⟩ := hlines
  refine ⟨String.toList_injective hmethod, String.toList_injective hpath, ?_,
    String.toList_injective hbody⟩
  apply Int.repr_injective
  exact String.toList_injective htime

/-- **No request is a handshake**: where a request has its path, a handshake has a number. -/
theorem payload_ne_wsPayload (hupper : ∀ c, c ≠ '\n' → '\n' ∉ upperChar c) (r : RestRequest)
    (timestamp : ℤ) (apiKey : String) : r.payload upperChar ≠ wsSignaturePayload timestamp apiKey := by
  intro heq
  have htexts := congrArg String.toList heq
  rw [payload_toList, wsPayload_toList] at htexts
  have hlines := newline_notMem_lines hupper r
  unfold RestRequest.lines at hlines htexts
  rw [List.forall_mem_cons, List.forall_mem_cons] at hlines
  obtain ⟨-, hrest⟩ := append_cons_inj hlines.1 (by decide) htexts
  obtain ⟨hpath, -⟩ := append_cons_inj hlines.2.1 (newline_notMem_toString timestamp) hrest
  exact rooted_ne_toString r.path_rooted (String.toList_injective hpath)

/-- What a collision-free HMAC makes of it: a signature is good for one request, and for no
    handshake, under one secret. -/
theorem computeSignature_inj {hmacHex : ByteArray → ByteArray → String}
    (hupper : ∀ c, c ≠ '\n' → '\n' ∉ upperChar c)
    (hhmac : ∀ key message message', hmacHex key message = hmacHex key message' → message = message')
    (secret : String) (r : RestRequest) :
    (∀ r' : RestRequest,
      computeSignature upperChar hmacHex secret r.method r.path r.timestamp r.body
          = computeSignature upperChar hmacHex secret r'.method r'.path r'.timestamp r'.body →
        upper upperChar r.method = upper upperChar r'.method ∧ r.path = r'.path ∧
          r.timestamp = r'.timestamp ∧ r.body = r'.body) ∧
    ∀ timestamp apiKey, computeSignature upperChar hmacHex secret r.method r.path r.timestamp r.body
      ≠ computeWsSignature hmacHex secret apiKey timestamp := by
  constructor
  · intro r' heq
    apply payload_inj hupper
    exact String.toByteArray_inj.mp (hhmac _ _ _ heq)
  · intro timestamp apiKey heq
    apply payload_ne_wsPayload hupper r timestamp apiKey
    exact String.toByteArray_inj.mp (hhmac _ _ _ heq)

/-- **Signed payloads are unambiguous.**  Two requests with one payload agree in the upper-cased method,
    the path, the time and the body, and no payload of a request is that of a handshake. -/
theorem signaturePayload_unambiguous (upperChar : Char → List Char)
    (hupper : ∀ c, c ≠ '\n' → '\n' ∉ upperChar c) (r : RestRequest) :
    (∀ r' : RestRequest, r.payload upperChar = r'.payload upperChar →
      upper upperChar r.method = upper upperChar r'.method ∧ r.path = r'.path ∧
        r.timestamp = r'.timestamp ∧ r.body = r'.body) ∧
    ∀ timestamp apiKey, r.payload upperChar ≠ wsSignaturePayload timestamp apiKey :=
  ⟨fun _ heq => payload_inj hupper heq, payload_ne_wsPayload hupper r⟩

/-- The upper case of ASCII. -/
def asciiUpper (c : Char) : List Char := [c.toUpper]

theorem newline_notMem_asciiUpper (h : c ≠ '\n') : '\n' ∉ asciiUpper c := by
  unfold asciiUpper
  rw [List.mem_singleton]
  intro hc
  unfold Char.toUpper at hc
  split_ifs at hc with hlower
  · -- a small letter becomes a capital, which is no newline
    have hval : (10 : UInt32) = c.val + ('A'.val - 'a'.val) := congrArg Char.val hc
    have hlow : (97 : UInt32) ≤ c.val := hlower.1
    have hhigh : c.val ≤ (122 : UInt32) := hlower.2
    have hnat := congrArg UInt32.toNat hval
    have hdiff : 'A'.val - 'a'.val = (4294967264 : UInt32) := by decide
    rw [hdiff, UInt32.toNat_add] at hnat
    rw [UInt32.le_iff_toNat_le] at hlow hhigh
    simp only [UInt32.reduceToNat] at hnat hlow hhigh
    omega
  · exact h hc.symm

/-- A request whose method a client writes in small letters. -/
def smallGet : RestRequest where
  method := "get"
  path := "/api/v1/orders?limit=10"
  timestamp := 1700000000
  body := ""
  method_line := by decide +kernel
  path_line := by decide +kernel
  path_rooted := by decide +kernel

/-- The same request with its method in capitals. -/
theorem signaturePayload_unambiguous_get :
    ({ smallGet with method := "GET", method_line := by decide +kernel } : RestRequest).payload asciiUpper
        = smallGet.payload asciiUpper ∧
    ∀ r : RestRequest, smallGet.payload asciiUpper = r.payload asciiUpper → r.body = "" :=
  ⟨by decide +kernel, fun r heq =>
    (((signaturePayload_unambiguous asciiUpper (fun _ => newline_notMem_asciiUpper) smallGet).1
      r heq).2.2.2).symm⟩

end

end SpotExchange.Api
