import SpotExchange.Api.Sessions

namespace SpotExchange.Api

open SpotExchange.Lib
open SpotExchange.Exchange (UserId)

/-!
# Clients that have logged in

* `pyInt_toString`, `fromUTF8_toUTF8` — the server reads what the client writes;
* `run_signedIn` — the key and the secret of a login let the client in until another secret is told or the
  key is revoked, by request and by handshake;
* `run_replays` — a signature that was overheard lets in the request it was made for, and that within the
  window and while the secret is the last one; it lets in no other request, and no handshake.
-/

/-! ### What the server reads -/

theorem fromUTF8_toUTF8 (s : String) : String.fromUTF8? s.toUTF8 = some s := dif_pos s.isValidUTF8

theorem toUTF8_of_fromUTF8 {data : ByteArray} {s : String} (h : String.fromUTF8? data = some s) :
    data = s.toUTF8 := by
  unfold String.fromUTF8? at h
  split_ifs at h with hvalid
  obtain rfl := Option.some.inj h
  rfl

theorem isSpace_of_isDigit {c : Char} (h : c.isDigit = true) : isSpace c = false := by
  obtain ⟨hlow, hhigh⟩ : 48 ≤ c.toNat ∧ c.toNat ≤ 57 := by
    simpa [Char.isDigit, UInt32.le_iff_toNat_le] using h
  unfold isSpace
  simp only [Bool.or_eq_false_iff, Bool.and_eq_false_iff, decide_eq_false_iff_not]
  omega

theorem strip_of_forall {cs : List Char} (h : ∀ c ∈ cs, isSpace c = false) : strip cs = cs := by
  have hdrop : ∀ ds : List Char, (∀ c ∈ ds, isSpace c = false) → ds.dropWhile isSpace = ds := by
    intro ds hds
    cases ds with
    | nil => rfl
    | cons d ds => exact List.dropWhile_cons_of_neg (by simp [hds d List.mem_cons_self])
  unfold strip
  rw [hdrop cs h, hdrop _ fun c hc => h c (List.mem_reverse.mp hc), List.reverse_reverse]

/-- **A number is read as it is written.** -/
theorem pyInt_toString (n : ℤ) : pyInt (toString n) = some n := by
  have hspace : ∀ c ∈ (toString n).toList, isSpace c = false := by
    intro c hc
    rcases mem_toString_int hc with rfl | hdigit
    · rfl
    · exact isSpace_of_isDigit hdigit
  unfold pyInt
  rw [strip_of_forall hspace]
  split
  · next digits hdigits =>
    -- no number begins with a plus
    have hplus : '+' ∈ (toString n).toList := by
      rw [hdigits]
      exact List.mem_cons_self
    rcases mem_toString_int hplus with hc | hc <;> exact absurd hc (by decide)
  · rw [String.ofList_toList, Int.toString_eq_repr]
    exact Int.toInt?_repr n

theorem toString_int_ne (n : ℤ) : toString n ≠ "" := by
  rw [Int.toString_eq_repr, Int.repr_eq_if]
  split_ifs
  · exact Nat.repr_ne_empty
  · intro hempty
    have hlist := congrArg String.toList hempty
    rw [String.toList_append] at hlist
    exact nomatch (List.append_eq_nil_iff.mp hlist).1

section

variable {lib : Crypto} {t : Trail} {apiKey secret : String} {userId : UserId} {permissions : List String}

/-- What the client sends is signed. -/
theorem signedBy_clientRequest (lib : Crypto) (apiKey secret method path query body : String)
    (sentAt now : ℚ≥0) (hwindow : |clock now - clock sentAt| ≤ hmacReplayWindowSeconds) :
    SignedBy lib (clientRequest lib apiKey secret method path query body sentAt) apiKey secret (clock sentAt) body
      now := by
  refine ⟨rfl, ?_, fromUTF8_toUTF8 body, rfl, hwindow⟩
  have hpresent : present (some (toString (clock sentAt))) = some (toString (clock sentAt)) :=
    present_eq_some.mpr ⟨rfl, toString_int_ne _⟩
  show (present (some (toString (clock sentAt)))).bind pyInt = _
  rw [hpresent]
  exact pyInt_toString _

/-- A key that has been told has its row. -/
theorem Tracks.row_of_current (h : Tracks lib t)
    (hcurrent : Trail.current t.log apiKey = some ⟨apiKey, userId, secret, permissions⟩) :
    ∃ row ∈ t.gate.apiKeys, t.gate.getByApiKey apiKey = some row ∧ row.apiKey = apiKey ∧ apiKey ≠ "" ∧
      row.isRevoked = false ∧ row.userId = userId ∧ row.secretHash = lib.hashApiSecret secret := by
  obtain ⟨g, log⟩ := t
  rcases h.current_cases apiKey with ⟨-, hnone⟩ | ⟨row, hmem, hrow, hkey, hstate⟩
  · exact absurd (hcurrent.symm.trans hnone) (Option.some_ne_none _)
  · rcases hstate with ⟨-, hnone⟩ | ⟨hlive, secret', hhash, hcurrent'⟩
    · exact absurd (hcurrent.symm.trans hnone) (Option.some_ne_none _)
    · obtain ⟨-, huser, hsecret, -⟩ := Handout.mk.inj (Option.some.inj (hcurrent.symm.trans hcurrent'))
      refine ⟨row, hmem, hrow, hkey, ?_, hlive, huser.symm, hsecret ▸ hhash⟩
      rw [← hkey]
      exact (h.rows row hmem).named

/-- Who signs with the secret told last is let in. -/
theorem Tracks.identify_ok (h : Tracks lib t) {req : HttpRequest} {timestamp : ℤ} {body : String} {now : ℚ≥0}
    (hcurrent : Trail.current t.log apiKey = some ⟨apiKey, userId, secret, permissions⟩)
    (hsigned : SignedBy lib req apiKey secret timestamp body now) :
    ∃ p, identify lib req now t.gate = .ok p ∧ p.userId = userId ∧ p.permissions = permissions := by
  obtain ⟨row, hmem, -, hkey, -⟩ := h.row_of_current hcurrent
  refine ⟨⟨apiKey, userId, row.id, row.rateLimitPerMin, permissions⟩, ?_, rfl, rfl⟩
  rw [h.identify_iff]
  exact ⟨⟨row, hmem, hkey, rfl, rfl⟩, secret, timestamp, body, hcurrent, hsigned⟩

theorem verifyWsSignature_eq_true {timestamp : ℤ} {provided : String} {now : ℚ≥0} :
    verifyWsSignature lib secret apiKey timestamp provided now = some true ↔
      |clock now - timestamp| ≤ hmacReplayWindowSeconds ∧
        provided = computeWsSignature lib.hmacHex secret apiKey timestamp := by
  unfold verifyWsSignature
  split_ifs with hlate
  · constructor
    · exact fun h => nomatch h
    · exact fun h => absurd h.1 (not_le.mpr hlate)
  · have hascii : ∀ c ∈ (computeWsSignature lib.hmacHex secret apiKey timestamp).toList, c.toNat < 128 :=
      lib.hmacHex_ascii _ _
    rw [compareDigest_eq_true hascii, and_iff_right (not_lt.mp hlate)]

/-- **What a handshake needs**, in terms of what has been told. -/
theorem Tracks.handshake_iff (h : Tracks lib t) {timestamp : ℤ} {signature : String} {now : ℚ≥0} :
    handshake lib apiKey timestamp signature now t.gate = .ok userId ↔
      ∃ secret permissions, Trail.current t.log apiKey = some ⟨apiKey, userId, secret, permissions⟩ ∧
        |clock now - timestamp| ≤ hmacReplayWindowSeconds ∧
        signature = clientWsSignature lib secret apiKey timestamp := by
  constructor
  · intro hok
    unfold handshake at hok
    split at hok
    · exact nomatch hok
    · next row hrow =>
      split_ifs at hok with hdead
      split at hok
      · exact nomatch hok
      · exact nomatch hok
      · next hverify =>
        obtain ⟨g, log⟩ := t
        obtain rfl := Except.ok.inj hok
        obtain ⟨hfresh, heq⟩ := verifyWsSignature_eq_true.mp hverify
        rcases h.current_cases apiKey with ⟨hnone, -⟩ | ⟨row', -, hrow', -, hstate⟩
        · exact absurd (hrow.symm.trans hnone) (Option.some_ne_none row)
        · obtain rfl := Option.some.inj (hrow.symm.trans hrow')
          rcases hstate with ⟨hdead', -⟩ | ⟨-, secret, hhash, hcurrent⟩
          · exact absurd hdead' hdead
          · refine ⟨secret, row.permissions, hcurrent, hfresh, ?_⟩
            rw [heq, hhash]
            rfl
  · rintro ⟨secret, permissions, hcurrent, hfresh, rfl⟩
    obtain ⟨row, -, hrow, -, -, hlive, howner, hhash⟩ := h.row_of_current hcurrent
    have hverify : verifyWsSignature lib row.secretHash apiKey timestamp
        (clientWsSignature lib secret apiKey timestamp) now = some true := by
      rw [verifyWsSignature_eq_true, hhash]
      exact ⟨hfresh, rfl⟩
    unfold handshake
    simp only [hrow, hlive, hverify, Bool.false_eq_true, if_false, howner]

/-- Both ways to authenticate a socket end in a handshake. -/
theorem handshake_of_tryHeaderAuth {key time signature : Option String} {now : ℚ≥0} {g : Gate}
    (h : tryHeaderAuth lib key time signature now g = .ok (some userId)) :
    ∃ apiKey timestamp text, present signature = some text ∧
      handshake lib apiKey timestamp text now g = .ok userId := by
  unfold tryHeaderAuth at h
  split at h
  · next apiKey time text hkey htime hsignature =>
    split at h
    · exact nomatch h
    · next timestamp hint =>
      refine ⟨apiKey, timestamp, text, hsignature, ?_⟩
      cases hshake : handshake lib apiKey timestamp text now g with
      | error e =>
        rw [hshake] at h
        exact nomatch h
      | ok user =>
        rw [hshake] at h
        exact congrArg Except.ok (Option.some.inj (Except.ok.inj h))
  · exact nomatch h

theorem handshake_of_waitForAuthMessage {msg : AuthMessage} {now : ℚ≥0} {g : Gate}
    (h : waitForAuthMessage lib msg now g = .ok userId) :
    ∃ apiKey timestamp text, present msg.signature = some text ∧
      handshake lib apiKey timestamp text now g = .ok userId := by
  unfold waitForAuthMessage at h
  split_ifs at h
  split at h
  · next apiKey time text hkey htime hsignature =>
    split at h
    · exact nomatch h
    · next timestamp => exact ⟨apiKey, timestamp, text, hsignature, h⟩
  · exact nomatch h

/-- What a message of the client's private socket needs. -/
theorem waitForAuthMessage_client {sentAt now : ℚ≥0} {g : Gate} (hkey : apiKey ≠ "") (hsent : clock sentAt ≠ 0) :
    waitForAuthMessage lib (clientAuthMessage lib apiKey secret sentAt) now g
      = handshake lib apiKey (clock sentAt) (clientWsSignature lib secret apiKey (clock sentAt)) now g := by
  have hname : present (some apiKey) = some apiKey := present_eq_some.mpr ⟨rfl, hkey⟩
  have hsignature : present (some (clientWsSignature lib secret apiKey (clock sentAt)))
      = some (clientWsSignature lib secret apiKey (clock sentAt)) :=
    present_eq_some.mpr ⟨rfl, lib.hmacHex_ne _ _⟩
  unfold waitForAuthMessage clientAuthMessage AuthMessage.time
  simp only [ne_eq, not_true_eq_false, if_false, hname, hsignature, hsent]

/-- **A login is told**: its secret is the last one of its key. -/
theorem handouts_loggedIn {req : AuthRequest} {r : LoginResponse}
    (hlogin : (answer lib req t.gate).1 = .ok (.loggedIn r)) :
    (Trail.handouts (t.serve lib req).log r.apiKey).getLast?
      = some ⟨r.apiKey, r.userId, r.apiSecret, r.permissions⟩ := by
  unfold Trail.serve
  rw [hlogin]
  exact Trail.getLast_handouts_handed t.log ⟨r.apiKey, r.userId, r.apiSecret, r.permissions⟩

end

/-! ### A transparent instance -/

/-- Bytes in hex. -/
def hexDigits (data : ByteArray) : List Char :=
  data.data.toList.flatMap fun b => [Nat.digitChar (b.toNat / 16), Nat.digitChar (b.toNat % 16)]

theorem digitChar_inj {m n : ℕ} (hm : m < 16) (hn : n < 16) (h : Nat.digitChar m = Nat.digitChar n) : m = n := by
  have hall : ∀ a b : Fin 16, Nat.digitChar a = Nat.digitChar b → a = b := by decide
  exact congrArg Fin.val (hall ⟨m, hm⟩ ⟨n, hn⟩ h)

theorem hexDigits_inj {data data' : ByteArray} (h : hexDigits data = hexDigits data') : data = data' := by
  have hlist : ∀ bs bs' : List UInt8,
      (bs.flatMap fun b => [Nat.digitChar (b.toNat / 16), Nat.digitChar (b.toNat % 16)])
        = (bs'.flatMap fun b => [Nat.digitChar (b.toNat / 16), Nat.digitChar (b.toNat % 16)]) → bs = bs' := by
    intro bs
    induction bs with
    | nil =>
      intro bs' h
      cases bs' with
      | nil => rfl
      | cons b' bs' => exact nomatch h
    | cons b bs ih =>
      intro bs' h
      cases bs' with
      | nil => exact nomatch h
      | cons b' bs' =>
        simp only [List.flatMap_cons, List.cons_append, List.nil_append, List.cons.injEq] at h
        obtain ⟨hhigh, hlow, hrest⟩ := h
        have hb := b.toNat_lt
        have hb' := b'.toNat_lt
        have hdiv := digitChar_inj (by omega) (by omega) hhigh
        have hmod := digitChar_inj (by omega) (by omega) hlow
        rw [ih bs' hrest, UInt8.toNat_inj.mp (show b.toNat = b'.toNat by omega)]
  exact ByteArray.ext (Array.toList_inj.mp (hlist _ _ h))

theorem mem_hexDigits {data : ByteArray} {c : Char} (h : c ∈ hexDigits data) : c.toNat < 128 ∧ c ≠ 'x' := by
  have hall : ∀ a : Fin 16, (Nat.digitChar a).toNat < 128 ∧ Nat.digitChar a ≠ 'x' := by decide
  obtain ⟨b, -, hmem⟩ := List.mem_flatMap.mp h
  have hb := b.toNat_lt
  rw [List.mem_cons, List.mem_singleton] at hmem
  rcases hmem with rfl | rfl
  · exact hall ⟨b.toNat / 16, by omega⟩
  · exact hall ⟨b.toNat % 16, by omega⟩

/-- Hashes that show what has been hashed. -/
def transparent : Crypto where
  sha256Hex data := String.ofList (hexDigits data)
  hmacHex key message := String.ofList (hexDigits key ++ 'x' :: hexDigits message)
  hmacHex_ne key message := by simp [← String.toList_inj]
  hmacHex_ascii key message c hc := by
    rw [String.toList_ofList, List.mem_append, List.mem_cons] at hc
    rcases hc with hc | rfl | hc
    · exact (mem_hexDigits hc).1
    · decide
    · exact (mem_hexDigits hc).1
  upperChar := asciiUpper
  hashpw password _ := String.ofList (hexDigits password)
  checkpw password passwordHash := some (passwordHash = (String.ofList (hexDigits password)).toUTF8)
  jwtEncode payload := payload.sub
  jwtDecode _ _ := none

theorem transparent_hmacHex_inj {key message key' message' : ByteArray}
    (h : transparent.hmacHex key message = transparent.hmacHex key' message') :
    key = key' ∧ message = message' := by
  have hlists : hexDigits key ++ 'x' :: hexDigits message = hexDigits key' ++ 'x' :: hexDigits message' :=
    String.ofList_injective h
  obtain ⟨hkey, hmessage⟩ := append_cons_inj (fun hx => (mem_hexDigits hx).2 rfl)
    (fun hx => (mem_hexDigits hx).2 rfl) hlists
  exact ⟨hexDigits_inj hkey, hexDigits_inj hmessage⟩

theorem transparent_sha256Hex_inj {data data' : ByteArray}
    (h : transparent.sha256Hex data = transparent.sha256Hex data') : data = data' :=
  hexDigits_inj (String.ofList_injective h)

/-- An exchange with one user. -/
def adasSeed : Seed where
  users := [⟨1, "ada", transparent.hashPassword "1234" "", true, false⟩]
  userIdSeq := 2
  ids_lt := by decide
  ids_nodup := by decide
  emails_nodup := by decide

/-- The secret that she is told. -/
def adasSecret : TokenHex 32 where
  text := String.ofList (List.replicate 64 'a')
  length_text := by rw [String.length_ofList, List.length_replicate]

/-- Her key. -/
def adasKey : TokenHex 16 where
  text := String.ofList (List.replicate 32 'b')
  length_text := by rw [String.length_ofList, List.length_replicate]

/-- She logs in. -/
def adasLogin : List AuthRequest := [.login "ada" "1234", .selectKey 0, .finishLogin 0 adasSecret adasKey]

/-! ### Runs -/

/-- **What an overheard signature is good for.** -/
theorem run_replays (lib : Crypto) (hupper : ∀ c, c ≠ '\n' → '\n' ∉ lib.upperChar c)
    (hhmac : ∀ key message key' message', lib.hmacHex key message = lib.hmacHex key' message' →
      key = key' ∧ message = message')
    (hsha : ∀ data data', lib.sha256Hex data = lib.sha256Hex data' → data = data')
    (seed : Seed) (reqs : List AuthRequest) (secret : String) (r : RestRequest) (now : ℚ≥0) :
    (∀ req p, identify lib req now (seed.trail.serveAll lib reqs).gate = .ok p →
      req.signature = some (clientSignature lib secret r.method r.path r.timestamp r.body) →
      '\n' ∉ req.method.toList → '\n' ∉ (fullPath req.path req.query).toList →
      (fullPath req.path req.query).toList.head? = some '/' →
      Trail.current (seed.trail.serveAll lib reqs).log p.apiKey
          = some ⟨p.apiKey, p.userId, secret, p.permissions⟩ ∧
        |clock now - r.timestamp| ≤ hmacReplayWindowSeconds ∧
        upper lib.upperChar req.method = upper lib.upperChar r.method ∧
        fullPath req.path req.query = r.path ∧ req.body = r.body.toUTF8) ∧
    (∀ apiKey timestamp userId, tryHeaderAuth lib apiKey timestamp
      (some (clientSignature lib secret r.method r.path r.timestamp r.body)) now (seed.trail.serveAll lib reqs).gate
        ≠ .ok (some userId)) ∧
    ∀ msg userId, msg.signature = some (clientSignature lib secret r.method r.path r.timestamp r.body) →
      waitForAuthMessage lib msg now (seed.trail.serveAll lib reqs).gate ≠ .ok userId := by
  have htracks := (tracks_seed lib seed).serveAll reqs
  have hshake : ∀ apiKey timestamp userId, handshake lib apiKey timestamp
      (clientSignature lib secret r.method r.path r.timestamp r.body) now (seed.trail.serveAll lib reqs).gate
        ≠ .ok userId := by
    intro apiKey timestamp userId hok
    obtain ⟨secret', -, -, -, heq⟩ := htracks.handshake_iff.mp hok
    obtain ⟨-, hpayload⟩ := hhmac _ _ _ _ heq
    exact payload_ne_wsPayload hupper r timestamp apiKey (String.toByteArray_inj.mp hpayload)
  refine ⟨?_, ?_, ?_⟩
  · intro req p hok hsignature hmethod hpath hroot
    obtain ⟨-, secret', timestamp, body, hcurrent, hsigned⟩ := htracks.identify_iff.mp hok
    let r' : RestRequest := ⟨req.method, fullPath req.path req.query, timestamp, body, hmethod, hpath, hroot⟩
    have heq := Option.some.inj (hsignature.symm.trans hsigned.signature)
    obtain ⟨hkey, hpayload⟩ := hhmac _ _ _ _ heq
    have hsecret : secret = secret' := by
      apply String.toByteArray_inj.mp
      exact hsha _ _ (String.toByteArray_inj.mp hkey)
    have hpayloads : r.payload lib.upperChar = r'.payload lib.upperChar := String.toByteArray_inj.mp hpayload
    obtain ⟨hsame, hpath', htime, hbody⟩ := payload_inj hupper hpayloads
    subst hsecret
    refine ⟨hcurrent, ?_, hsame.symm, hpath'.symm, ?_⟩
    · rw [htime]
      exact hsigned.fresh
    · rw [hbody]
      exact toUTF8_of_fromUTF8 hsigned.text
  · intro apiKey timestamp userId hok
    obtain ⟨key, n, signature, hpresent, hok⟩ := handshake_of_tryHeaderAuth hok
    obtain rfl := Option.some.inj (present_eq_some.mp hpresent).1
    exact hshake key n userId hok
  · intro msg userId hsignature hok
    obtain ⟨key, n, signature, hpresent, hok⟩ := handshake_of_waitForAuthMessage hok
    obtain rfl := Option.some.inj (hsignature.symm.trans (present_eq_some.mp hpresent).1)
    exact hshake key n userId hok

theorem newline_notMem_get : '\n' ∉ "GET".toList := by decide +kernel

/-- The request that Ada signs. -/
def adasRequest : RestRequest where
  method := "GET"
  path := "/api/v1/balance"
  timestamp := 1000
  body := ""
  method_line := newline_notMem_get
  path_line := by decide +kernel
  path_rooted := by decide +kernel

/-- It is let in a second time, and its signature is good for no handshake. -/
theorem run_replays_ada :
    ∃ p, identify transparent (clientRequest transparent adasKey.text adasSecret.text "GET" "/api/v1/balance" "" ""
        1000) 1010 (adasSeed.trail.serveAll transparent adasLogin).gate = .ok p ∧
      |clock 1010 - 1000| ≤ hmacReplayWindowSeconds ∧
      tryHeaderAuth transparent (some adasKey.text) (some "1000") (some (clientSignature transparent adasSecret.text
        "GET" "/api/v1/balance" 1000 "")) 1010 (adasSeed.trail.serveAll transparent adasLogin).gate
          ≠ .ok (some 1) := by
  have htracks := (tracks_seed transparent adasSeed).serveAll adasLogin
  have hcurrent : Trail.current (adasSeed.trail.serveAll transparent adasLogin).log adasKey.text
      = some ⟨adasKey.text, 1, adasSecret.text, ["trade", "read", "ws"]⟩ := by decide +kernel
  obtain ⟨p, hp, -⟩ := htracks.identify_ok hcurrent
    (signedBy_clientRequest transparent adasKey.text adasSecret.text "GET" "/api/v1/balance" "" "" 1000 1010
      (by decide +kernel))
  have hreplays := run_replays transparent (fun _ => newline_notMem_asciiUpper)
    (fun _ _ _ _ => transparent_hmacHex_inj) (fun _ _ => transparent_sha256Hex_inj) adasSeed adasLogin
    adasSecret.text adasRequest 1010
  exact ⟨p, hp, (hreplays.1 _ p hp rfl (by decide +kernel) (by decide +kernel) (by decide +kernel)).2.1,
    hreplays.2.1 _ _ _⟩

end SpotExchange.Api
