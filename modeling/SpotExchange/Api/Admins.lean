import SpotExchange.Api.Clients

namespace SpotExchange.Api

open SpotExchange.Lib
open SpotExchange.Exchange (UserId)

/-!
# Who the panel serves

* `TokensHeld` — every token was given to a user who is an admin;
* `run_adminsOnly` — the panel serves a token only for the admin to whom it was given, while active.
-/

section

variable {lib : Crypto} {g g' : Gate} {events : List Event}

/-- **Tokens are held by admins.** -/
structure TokensHeld (lib : Crypto) (t : Trail) : Prop where
  ids_lt : ∀ user ∈ t.gate.users, user.id < t.gate.userIdSeq
  ids_nodup : (t.gate.users.map User.id).Nodup
  held : ∀ token userId, .token token userId ∈ t.log →
    (∃ now, token = lib.jwtEncode (jwtPayload userId true now)) ∧
      ∃ user ∈ t.gate.users, user.id = userId ∧ user.isAdmin = true

/-- The users stay. -/
theorem TokensHeld.of_eq {log : List Event} (h : TokensHeld lib ⟨g, log⟩) (husers : g'.users = g.users)
    (hseq : g'.userIdSeq = g.userIdSeq)
    (hevents : ∀ token userId, .token token userId ∈ events →
      (∃ now, token = lib.jwtEncode (jwtPayload userId true now)) ∧
        ∃ user ∈ g.users, user.id = userId ∧ user.isAdmin = true) : TokensHeld lib ⟨g', log ++ events⟩ := by
  refine ⟨?_, ?_, ?_⟩
  · intro user hmem
    rw [husers] at hmem
    exact (h.ids_lt user hmem).trans_eq hseq.symm
  · rw [husers]
    exact h.ids_nodup
  · intro token userId hmem
    rw [husers]
    rcases List.mem_append.mp hmem with hmem | hmem
    · exact h.held token userId hmem
    · exact hevents token userId hmem

theorem TokensHeld.serve {t : Trail} (h : TokensHeld lib t) (req : AuthRequest) :
    TokensHeld lib (t.serve lib req) := by
  obtain ⟨g, log⟩ := t
  have htransition := transition_answer lib req g
  show TokensHeld lib ⟨(answer lib req g).2, log ++ g.events (answer lib req g).1⟩
  generalize (answer lib req g).2 = g', g.events (answer lib req g).1 = events at htransition ⊢
  cases htransition with
  | kept limits => exact h.of_eq rfl rfl nofun
  | refused => exact h.of_eq rfl rfl nofun
  | enrolled _ email passwordHash isAdmin new =>
    refine ⟨?_, ?_, ?_⟩
    · intro user hmem
      show user.id < g.userIdSeq + 1
      rcases List.mem_append.mp hmem with hmem | hmem
      · exact (h.ids_lt user hmem).trans (Nat.lt_succ_self _)
      · rw [List.mem_singleton.mp hmem]
        exact Nat.lt_succ_self _
    · show ((g.users ++ [_]).map User.id).Nodup
      rw [List.map_append, List.map_singleton, List.nodup_append]
      refine ⟨h.ids_nodup, List.nodup_singleton _, ?_⟩
      rintro _ hmem _ hlast rfl
      obtain ⟨user, huser, hsame⟩ := List.mem_map.mp hmem
      exact (h.ids_lt user huser).ne (hsame.trans (List.mem_singleton.mp hlast))
    · intro token userId hmem
      rw [List.append_nil] at hmem
      obtain ⟨hmade, user, huser, howner⟩ := h.held token userId hmem
      exact ⟨hmade, user, List.mem_append_left _ huser, howner⟩
  | toggled _ id isActive =>
    have hid : ∀ user : User,
        (if user.id = id then { user with isActive := isActive } else user).id = user.id := by
      intro user
      split_ifs <;> rfl
    have hadmin : ∀ user : User,
        (if user.id = id then { user with isActive := isActive } else user).isAdmin = user.isAdmin := by
      intro user
      split_ifs <;> rfl
    refine ⟨?_, ?_, ?_⟩
    · intro user' hmem
      obtain ⟨user, huser, rfl⟩ := List.mem_map.mp hmem
      rw [hid]
      exact h.ids_lt user huser
    · show ((g.users.map _).map User.id).Nodup
      rw [List.map_map]
      have hmap :
          g.users.map (User.id ∘ fun user => if user.id = id then { user with isActive := isActive } else user)
            = g.users.map User.id := List.map_congr_left fun user _ => hid user
      rw [hmap]
      exact h.ids_nodup
    · intro token userId hmem
      rw [List.append_nil] at hmem
      obtain ⟨hmade, user, huser, howner, hflag⟩ := h.held token userId hmem
      exact ⟨hmade, _, List.mem_map_of_mem huser, (hid user).trans howner, (hadmin user).trans hflag⟩
  | begun email password user found active right => exact h.of_eq rfl rfl nofun
  | missed i user turn empty => exact h.of_eq rfl rfl nofun
  | found i user row turn one => exact h.of_eq rfl rfl nofun
  | failed i user turn many => exact h.of_eq rfl rfl nofun
  | issued i rawSecret rawKey user turn new =>
    exact h.of_eq rfl rfl fun _ _ hmem => nomatch List.mem_singleton.mp hmem
  | collided i rawSecret rawKey user turn refused => exact h.of_eq rfl rfl nofun
  | rotated i rawSecret rawKey user row turn =>
    exact h.of_eq rfl rfl fun _ _ hmem => nomatch List.mem_singleton.mp hmem
  | created now authorization owner label permissions limit rawKey rawSecret new =>
    exact h.of_eq rfl rfl fun _ _ hmem => nomatch List.mem_singleton.mp hmem
  | revoked now authorization apiKeyId =>
    refine h.of_eq rfl rfl fun _ _ hmem => ?_
    obtain ⟨row, -, heq⟩ := List.mem_map.mp hmem
    exact nomatch heq
  | token email password now user found admin =>
    refine h.of_eq rfl rfl fun token userId hmem => ?_
    obtain ⟨rfl, rfl⟩ := Event.token.inj (List.mem_singleton.mp hmem)
    exact ⟨⟨now, rfl⟩, user, List.mem_of_find?_eq_some found, rfl, admin⟩

/-- **The panel serves admins alone**, over every run: a request with a token that has been given out is served
    only for the user to whom the token was given, who is an admin and active when it is served, though the code
    asks the token and not the table whether the user is an admin. -/
theorem run_adminsOnly (lib : Crypto)
    (hjwt : ∀ now payload payload', lib.jwtDecode now (lib.jwtEncode payload) = some payload' → payload' = payload)
    (seed : Seed) (reqs : List AuthRequest) (now : ℚ≥0) (authorization : Option String) (user : User)
    (hserved : (authenticateAdmin lib now authorization (seed.trail.serveAll lib reqs).gate).1 = .ok user)
    (hgiven : ∀ a, authorization = some a →
      ∃ userId, .token (String.ofList (strip (a.toList.drop 7))) userId ∈ (seed.trail.serveAll lib reqs).log) :
    ∃ a, authorization = some a ∧
      .token (String.ofList (strip (a.toList.drop 7))) user.id ∈ (seed.trail.serveAll lib reqs).log ∧
      user ∈ (seed.trail.serveAll lib reqs).gate.users ∧ user.isAdmin = true ∧ user.isActive = true := by
  have hheld : TokensHeld lib (seed.trail.serveAll lib reqs) :=
    Run.invariant (fun _ req h => h.serve req) ⟨seed.ids_lt, seed.ids_nodup, nofun⟩ reqs
  rcases authenticateAdmin_cases lib now authorization (seed.trail.serveAll lib reqs).gate with
    ⟨e, he⟩ | ⟨a, payload, user', hok, ha, hdecode, hsub, -, hmem, hactive⟩
  · rw [he] at hserved
    exact nomatch hserved
  · rw [hok] at hserved
    obtain rfl := Except.ok.inj hserved
    obtain ⟨userId, htold⟩ := hgiven a ha
    obtain ⟨⟨issued, hmade⟩, holder, hholder, hid, hadmin⟩ := hheld.held _ _ htold
    -- the payload is the one that was signed, so its subject is the holder
    rw [hmade] at hdecode
    have hpayload := hjwt now _ _ hdecode
    have hsame : userId = user'.id := by
      have hread := pyInt_toString (userId : ℤ)
      rw [hpayload] at hsub
      have htext : (jwtPayload userId true issued).sub = toString (userId : ℤ) := rfl
      rw [htext, hread] at hsub
      exact_mod_cast Option.some.inj hsub
    subst hsame
    have heq : holder = user' := List.inj_on_of_nodup_map hheld.ids_nodup hholder hmem hid
    exact ⟨a, ha, htold, hmem, heq ▸ hadmin, hactive⟩

/-- A token that shows its payload. -/
def tokenText (payload : JwtPayload) : String :=
  String.ofList (hexDigits payload.sub.toUTF8 ++ 'x' :: (if payload.isAdmin then '1' else '0')
    :: ((toString payload.iat).toList ++ 'x' :: (toString payload.exp).toList))

theorem tokenText_inj {payload payload' : JwtPayload} (h : tokenText payload = tokenText payload') :
    payload = payload' := by
  have hx : ∀ data, 'x' ∉ hexDigits data := fun _ hmem => (mem_hexDigits hmem).2 rfl
  have hnumber : ∀ n : ℤ, 'x' ∉ (toString n).toList := by
    intro n hmem
    rcases mem_toString_int hmem with hc | hc <;> exact absurd hc (by decide)
  obtain ⟨hsub, hrest⟩ := append_cons_inj (hx _) (hx _) (String.ofList_injective h)
  obtain ⟨hflag, htimes⟩ := List.cons.inj hrest
  obtain ⟨hiat, hexp⟩ := append_cons_inj (hnumber _) (hnumber _) htimes
  have hflag : payload.isAdmin = payload'.isAdmin := by
    cases hp : payload.isAdmin <;> cases hp' : payload'.isAdmin <;> simp [hp, hp'] at hflag ⊢
  obtain ⟨sub, isAdmin, iat, exp⟩ := payload
  obtain ⟨sub', isAdmin', iat', exp'⟩ := payload'
  have hsub : sub = sub' := String.toByteArray_inj.mp (hexDigits_inj hsub)
  have hiat : iat = iat' := Int.repr_injective (String.toList_injective hiat)
  have hexp : exp = exp' := Int.repr_injective (String.toList_injective hexp)
  have hflag : isAdmin = isAdmin' := hflag
  rw [hsub, hflag, hiat, hexp]

/-- The transparent instance with such tokens, of which it knows one. -/
def withToken (payload : JwtPayload) : Crypto :=
  { transparent with
    jwtEncode := tokenText
    jwtDecode := fun now token =>
      if token = tokenText payload ∧ clock now < payload.exp then some payload else none }

/-- What lets a request into the panel. -/
theorem authenticateAdmin_ok {now : ℚ≥0} {a : String} (payload : JwtPayload) (user : User)
    (hbearer : "Bearer ".toList <+: a.toList)
    (hdecode : lib.jwtDecode now (String.ofList (strip (a.toList.drop 7))) = some payload)
    (hsub : pyInt payload.sub = some (user.id : ℤ)) (hadmin : payload.isAdmin = true)
    (hfind : (g.users.find? fun u => (u.id : ℤ) = user.id) = some user) (hactive : user.isActive = true) :
    authenticateAdmin lib now (some a) g = (.ok user, g) := by
  have hfilter : (some a).filter (fun a => "Bearer ".toList <+: a.toList) = some a :=
    Option.filter_eq_some_iff.mpr ⟨rfl, decide_eq_true hbearer⟩
  unfold authenticateAdmin
  simp only [hfilter, hdecode, hsub, hadmin, hfind, hactive, Bool.not_true, Bool.false_eq_true, if_false, if_true]

/-- An exchange with an admin. -/
def adminSeed : Seed where
  users := [⟨1, "admin", transparent.hashPassword "1234" "", true, true⟩]
  userIdSeq := 2
  ids_lt := by decide
  ids_nodup := by decide
  emails_nodup := by decide

/-- The token that the admin is given. -/
def adminToken : JwtPayload := jwtPayload 1 true 1000

/-- The admin logs in and asks for something. -/
theorem run_adminsOnly_admin :
    ∃ a, some ("Bearer " ++ tokenText adminToken) = some a ∧
      .token (String.ofList (strip (a.toList.drop 7))) 1
        ∈ (adminSeed.trail.serveAll (withToken adminToken) [.adminLogin "admin" "1234" 1000]).log ∧
      (⟨1, "admin", transparent.hashPassword "1234" "", true, true⟩ : User)
        ∈ (adminSeed.trail.serveAll (withToken adminToken) [.adminLogin "admin" "1234" 1000]).gate.users ∧
      true = true ∧ true = true := by
  have hserved : authenticateAdmin (withToken adminToken) 1010 (some ("Bearer " ++ tokenText adminToken))
      (adminSeed.trail.serveAll (withToken adminToken) [.adminLogin "admin" "1234" 1000]).gate = (.ok _, _) :=
    authenticateAdmin_ok adminToken ⟨1, "admin", transparent.hashPassword "1234" "", true, true⟩
      (by decide +kernel) (by decide +kernel) (pyInt_toString 1) rfl (by decide +kernel) rfl
  refine run_adminsOnly (withToken adminToken) ?_ adminSeed [.adminLogin "admin" "1234" 1000] 1010 _ _
    (congrArg Prod.fst hserved) ?_
  · intro now payload payload' h
    have h : (if tokenText payload = tokenText adminToken ∧ clock now < adminToken.exp then some adminToken
      else none) = some payload' := h
    split_ifs at h with htoken
    rw [← Option.some.inj h]
    exact (tokenText_inj htoken.1).symm
  · intro a ha
    obtain rfl := Option.some.inj ha
    exact ⟨1, by decide +kernel⟩

end

end SpotExchange.Api
