import SpotExchange.Api.Authentication

namespace SpotExchange.Api

open SpotExchange.Lib
open SpotExchange.Exchange (UserId)

/-!
# What a request may do

* `checkPassword_cases`, `insertKey_cases`, `authenticateAdmin_cases`, `authenticateRequest_cases` — what the
  parts of the handlers answer;
* `Transition` — what a request may do to the tables and the logins, and what is told;
* `transition_answer` — each request is one of these.
-/

/-- **What a request does**, and what it tells. -/
inductive Transition (lib : Crypto) (g : Gate) : AuthRequest → Gate → List Event → Prop
  /-- At most a rate limit moves. -/
  | kept (req : AuthRequest) (limits : String → RateLimitKey) : Transition lib g req { g with limits := limits } []
  /-- A key is refused, but not its number. -/
  | refused (req : AuthRequest) : Transition lib g req { g with apiKeyIdSeq := g.apiKeyIdSeq + 1 } []
  | enrolled (req : AuthRequest) (email passwordHash : String) (isAdmin : Bool)
      (new : g.getByEmail email = none) : Transition lib g req (g.createUser email passwordHash isAdmin).2 []
  | toggled (req : AuthRequest) (userId : UserId) (isActive : Bool) :
      Transition lib g req
        { g with users := g.users.map fun u => if u.id = userId then { u with isActive := isActive } else u } []
  | begun (email password : String) (user : User) (found : g.getByEmail email = some user)
      (active : user.isActive = true) (right : lib.verifyPassword password user.passwordHash = true) :
      Transition lib g (.login email password) { g with logins := g.logins ++ [.verified user] } []
  | missed (i : ℕ) (user : User) (turn : g.logins[i]? = some (.verified user))
      (empty : g.liveKeys user.id = []) :
      Transition lib g (.selectKey i) { g with logins := g.logins.set i (.selected user none) } []
  | found (i : ℕ) (user : User) (row : ApiKey) (turn : g.logins[i]? = some (.verified user))
      (one : g.liveKeys user.id = [row]) :
      Transition lib g (.selectKey i) { g with logins := g.logins.set i (.selected user (some row)) } []
  | failed (i : ℕ) (user : User) (turn : g.logins[i]? = some (.verified user))
      (many : 2 ≤ (g.liveKeys user.id).length) : Transition lib g (.selectKey i) (g.dropLogin i) []
  | issued (i : ℕ) (rawSecret : TokenHex 32) (rawKey : TokenHex 16) (user : User)
      (turn : g.logins[i]? = some (.selected user none)) (new : g.getByApiKey rawKey.text = none) :
      Transition lib g (.finishLogin i rawSecret rawKey)
        { g with
          logins := g.logins.eraseIdx i
          apiKeys := g.apiKeys ++ [⟨g.apiKeyIdSeq, user.id, rawKey.text, lib.hashApiSecret rawSecret.text,
            some "auto-generated at login", allPermissions, 120, false⟩]
          apiKeyIdSeq := g.apiKeyIdSeq + 1 }
        [.handed ⟨rawKey.text, user.id, rawSecret.text, allPermissions⟩]
  | collided (i : ℕ) (rawSecret : TokenHex 32) (rawKey : TokenHex 16) (user : User)
      (turn : g.logins[i]? = some (.selected user none))
      (refused : (answer lib (.finishLogin i rawSecret rawKey) g).1 = .error .internal) :
      Transition lib g (.finishLogin i rawSecret rawKey)
        { g with logins := g.logins.eraseIdx i, apiKeyIdSeq := g.apiKeyIdSeq + 1 } []
  | rotated (i : ℕ) (rawSecret : TokenHex 32) (rawKey : TokenHex 16) (user : User) (row : ApiKey)
      (turn : g.logins[i]? = some (.selected user (some row))) :
      Transition lib g (.finishLogin i rawSecret rawKey)
        ((g.dropLogin i).updateKey row.id fun r => { r with secretHash := lib.hashApiSecret rawSecret.text })
        [.handed ⟨row.apiKey, user.id, rawSecret.text, orAll row.permissions⟩]
  | created (now : ℚ≥0) (authorization : Option String) (userId : UserId) (label : Option String)
      (permissions : List String) (limit : ℤ) (rawKey : TokenHex 16) (rawSecret : TokenHex 32)
      (new : g.getByApiKey rawKey.text = none) :
      Transition lib g (.admin now authorization (.createApiKey userId label permissions limit rawKey rawSecret))
        { g with
          apiKeys := g.apiKeys ++ [⟨g.apiKeyIdSeq, userId, rawKey.text, lib.hashApiSecret rawSecret.text, label,
            orAll permissions, limit, false⟩]
          apiKeyIdSeq := g.apiKeyIdSeq + 1 }
        [.handed ⟨rawKey.text, userId, rawSecret.text, orAll permissions⟩]
  | revoked (now : ℚ≥0) (authorization : Option String) (apiKeyId : ℕ) :
      Transition lib g (.admin now authorization (.revokeApiKey apiKeyId))
        (g.updateKey apiKeyId fun r => { r with isRevoked := true })
        ((g.apiKeys.filter fun r => r.id = apiKeyId).map fun r => .revoked r.apiKey)
  | token (email password : String) (now : ℚ≥0) (user : User) (found : g.getByEmail email = some user)
      (admin : user.isAdmin = true) :
      Transition lib g (.adminLogin email password now) g
        [.token (lib.jwtEncode (jwtPayload user.id true now)) user.id]

section

variable {lib : Crypto} {g g' : Gate} {req : AuthRequest}

theorem Transition.same (lib : Crypto) (g : Gate) (req : AuthRequest) : Transition lib g req g [] :=
  .kept req g.limits

/-- What `checkPassword` answers. -/
theorem checkPassword_cases (lib : Crypto) (email password : String) (g : Gate) :
    (∃ e, checkPassword lib email password g = (.error e, g)) ∨
      ∃ user, checkPassword lib email password g = (.ok user, g) ∧ g.getByEmail email = some user ∧
        user.isActive = true ∧ lib.verifyPassword password user.passwordHash = true := by
  unfold checkPassword
  cases hemail : g.getByEmail email with
  | none => exact .inl ⟨_, rfl⟩
  | some user =>
    cases hactive : user.isActive with
    | false => exact .inl ⟨.authentication "Invalid login or password", by simp [hactive]⟩
    | true =>
      cases hright : lib.verifyPassword password user.passwordHash with
      | false => exact .inl ⟨.authentication "Invalid login or password", by simp [hactive, hright]⟩
      | true => exact .inr ⟨user, by simp [hactive, hright], rfl, hactive, hright⟩

/-- What `INSERT INTO api_keys` does. -/
theorem insertKey_cases (g : Gate) (userId : UserId) (apiKey secretHash : String) (label : Option String)
    (permissions : List String) (limit : ℤ) :
    g.insertKey userId apiKey secretHash label permissions limit
        = (.error .internal, { g with apiKeyIdSeq := g.apiKeyIdSeq + 1 }) ∨
      g.getByApiKey apiKey = none ∧ g.insertKey userId apiKey secretHash label permissions limit
        = (.ok ⟨g.apiKeyIdSeq, userId, apiKey, secretHash, label, permissions, limit, false⟩,
          { g with
            apiKeys := g.apiKeys
              ++ [⟨g.apiKeyIdSeq, userId, apiKey, secretHash, label, permissions, limit, false⟩]
            apiKeyIdSeq := g.apiKeyIdSeq + 1 }) := by
  unfold Gate.insertKey
  split_ifs with hfree
  · exact .inr ⟨hfree.1, rfl⟩
  · exact .inl rfl

/-- What `authenticate_admin` answers; it changes nothing. -/
theorem authenticateAdmin_cases (lib : Crypto) (now : ℚ≥0) (authorization : Option String) (g : Gate) :
    (∃ e, authenticateAdmin lib now authorization g = (.error e, g)) ∨
      ∃ a payload user, authenticateAdmin lib now authorization g = (.ok user, g) ∧ authorization = some a ∧
        lib.jwtDecode now (String.ofList (strip (a.toList.drop 7))) = some payload ∧
        pyInt payload.sub = some (user.id : ℤ) ∧ payload.isAdmin = true ∧ user ∈ g.users ∧
        user.isActive = true := by
  unfold authenticateAdmin
  cases hauth : authorization.filter fun a => "Bearer ".toList <+: a.toList with
  | none => exact .inl ⟨_, rfl⟩
  | some a =>
    have ha : authorization = some a := (Option.filter_eq_some_iff.mp hauth).1
    cases hdecode : lib.jwtDecode now (String.ofList (strip (a.toList.drop 7))) with
    | none => exact .inl ⟨.authentication "Invalid or expired JWT", by simp only [hdecode]⟩
    | some payload =>
      cases hsub : pyInt payload.sub with
      | none => exact .inl ⟨.internal, by simp only [hdecode, hsub]⟩
      | some userId =>
        cases hadmin : payload.isAdmin with
        | false => exact .inl ⟨.authentication "User is not an admin", by simp [hdecode, hsub, hadmin]⟩
        | true =>
          cases huser : g.users.find? fun user => (user.id : ℤ) = userId with
          | none =>
            refine .inl ⟨.authentication "Admin user not found or inactive", ?_⟩
            simp only [hdecode, hsub, hadmin, huser, Bool.not_true, Bool.false_eq_true, if_false]
          | some user =>
            cases hactive : user.isActive with
            | false =>
              refine .inl ⟨.authentication "Admin user not found or inactive", ?_⟩
              simp only [hdecode, hsub, hadmin, huser, hactive, Bool.not_true, Bool.false_eq_true, if_false]
            | true =>
              have hid : (user.id : ℤ) = userId := by simpa using List.find?_some huser
              refine .inr ⟨a, payload, user, ?_, ha, hdecode, hid ▸ hsub, hadmin, List.mem_of_find?_eq_some huser,
                hactive⟩
              simp only [hdecode, hsub, hadmin, huser, hactive, Bool.not_true, Bool.false_eq_true, if_false,
                if_true]

/-- What `authenticate_request` answers: what `identify` finds, and then what the rate limit allows. -/
theorem authenticateRequest_cases (lib : Crypto) (req : HttpRequest) (verifiedAt limitedAt : ℚ≥0) (g : Gate) :
    (∃ e, identify lib req verifiedAt g = .error e ∧
      authenticateRequest lib req verifiedAt limitedAt g = (.error e, g)) ∨
    ∃ p, identify lib req verifiedAt g = .ok p ∧
      ((∃ g', enforceRateLimit p.apiKey p.rateLimitPerMin limitedAt g = (.ok ⟨⟩, g') ∧
          authenticateRequest lib req verifiedAt limitedAt g = (.ok p, g')) ∨
        ∃ e g', enforceRateLimit p.apiKey p.rateLimitPerMin limitedAt g = (.error e, g') ∧
          authenticateRequest lib req verifiedAt limitedAt g = (.error e, g')) := by
  cases hid : identify lib req verifiedAt g with
  | error e =>
    have hx : (fun g => (identify lib req verifiedAt g, g) : Prog Gate AppError Principal) g = (.error e, g) :=
      congrArg (·, g) hid
    exact .inl ⟨e, rfl, Prog.bind_of_error hx⟩
  | ok p =>
    have hx : (fun g => (identify lib req verifiedAt g, g) : Prog Gate AppError Principal) g = (.ok p, g) :=
      congrArg (·, g) hid
    refine .inr ⟨p, rfl, ?_⟩
    rcases hlimit : enforceRateLimit p.apiKey p.rateLimitPerMin limitedAt g with ⟨e | ⟨⟩, g'⟩
    · exact .inr ⟨e, g', rfl, (Prog.bind_of_ok hx).trans (Prog.bind_of_error hlimit)⟩
    · exact .inl ⟨g', rfl, (Prog.bind_of_ok hx).trans (Prog.bind_of_ok hlimit)⟩

/-- What `enforce_rate_limit` answers. -/
theorem enforceRateLimit_cases (apiKey : String) (limit : ℤ) (now : ℚ≥0) (g : Gate) :
    ∃ limits, (enforceRateLimit apiKey limit now g).2 = { g with limits := limits } ∧
      ((enforceRateLimit apiKey limit now g).1 = .ok ⟨⟩ ↔
        (checkAndConsume limit.toNat 60 now (g.limits apiKey)).1.result = .allowed) := by
  refine ⟨Function.update g.limits apiKey (checkAndConsume limit.toNat 60 now (g.limits apiKey)).2, ?_⟩
  unfold enforceRateLimit
  cases hresult : (checkAndConsume limit.toNat 60 now (g.limits apiKey)).1.result with
  | allowed => simp [hresult]
  | rejected => simp [hresult]

/-- Of the gate, `authenticate_request` changes the rate limits alone. -/
theorem authenticateRequest_limits (lib : Crypto) (req : HttpRequest) (verifiedAt limitedAt : ℚ≥0) (g : Gate) :
    ∃ limits, (authenticateRequest lib req verifiedAt limitedAt g).2 = { g with limits := limits } := by
  rcases authenticateRequest_cases lib req verifiedAt limitedAt g with
    ⟨e, -, hx⟩ | ⟨p, -, ⟨g', hlimit, hx⟩ | ⟨e, g', hlimit, hx⟩⟩
  · rw [hx]
    exact ⟨g.limits, rfl⟩
  all_goals
    obtain ⟨limits, hlimits, -⟩ := enforceRateLimit_cases p.apiKey p.rateLimitPerMin limitedAt g
    rw [hlimit] at hlimits
    rw [hx]
    exact ⟨limits, hlimits⟩

theorem map_of_error {α : Type} {x : Prog Gate AppError α} {f : α → Reply} {e : AppError}
    (h : x g = (.error e, g')) : (f <$> x) g = (.error e, g') := by
  rw [map_eq_pure_bind]
  exact Prog.bind_of_error h

theorem map_of_ok {α : Type} {x : Prog Gate AppError α} {f : α → Reply} {a : α}
    (h : x g = (.ok a, g')) : (f <$> x) g = (.ok (f a), g') := by
  rw [map_eq_pure_bind]
  exact Prog.bind_of_ok h

/-- A handler has ended in a transition if it has returned in one, or has raised in a silent one. -/
theorem Transition.of_map {α : Type} {x : Prog Gate AppError α} {f : α → Reply}
    (hok : ∀ a g', x g = (.ok a, g') → Transition lib g req g' (g.events (.ok (f a))))
    (herror : ∀ e g', x g = (.error e, g') → Transition lib g req g' []) :
    Transition lib g req ((f <$> x) g).2 (g.events ((f <$> x) g).1) := by
  rcases hx : x g with ⟨e | a, g'⟩
  · rw [map_of_error hx]
    exact herror e g' hx
  · rw [map_of_ok hx]
    exact hok a g' hx

/-- **Every request is one of these transitions.** -/
theorem transition_answer (lib : Crypto) (req : AuthRequest) (g : Gate) :
    Transition lib g req (answer lib req g).2 (g.events (answer lib req g).1) := by
  cases req with
  | register email password salt =>
    refine Transition.of_map (fun a g' hx => ?_) (fun e g' hx => ?_)
    · unfold register at hx
      split at hx
      · cases hx
      · next hemail =>
        cases hx
        exact .enrolled _ email _ false hemail
    · unfold register at hx
      split at hx
      · cases hx
        exact .same lib g _
      · cases hx
  | login email password =>
    refine Transition.of_map (fun a g' hx => ?_) (fun e g' hx => ?_)
    · obtain ⟨user, g₁, huser, hmod⟩ := Prog.bind_eq_ok.mp hx
      rcases checkPassword_cases lib email password g with ⟨e, he⟩ | ⟨user', h', hfound, hactive, hright⟩
      · cases he.symm.trans huser
      · cases h'.symm.trans huser
        cases hmod
        exact .begun email password user hfound hactive hright
    · rcases checkPassword_cases lib email password g with ⟨e', he⟩ | ⟨user, h', -⟩
      · cases (Prog.bind_of_error he).symm.trans hx
        exact .same lib g _
      · cases (Prog.bind_of_ok h').symm.trans hx
  | selectKey i =>
    refine Transition.of_map (fun _ g' hx => ?_) (fun e g' hx => ?_) <;> unfold selectKey at hx
    · split at hx
      · next user hturn =>
        split at hx
        · next hempty =>
          cases hx
          exact .missed i user hturn hempty
        · next row hone =>
          cases hx
          exact .found i user row hturn hone
        · cases hx
      · cases hx
        exact .same lib g _
    · split at hx
      · next user hturn =>
        split at hx
        · cases hx
        · cases hx
        · next hempty hone =>
          cases hx
          refine .failed i user hturn ?_
          match hkeys : g.liveKeys user.id with
          | [] => exact absurd hkeys hempty
          | [row] => exact absurd hkeys (hone row)
          | _ :: _ :: rest => exact Nat.le_add_left 2 rest.length
      · cases hx
  | finishLogin i rawSecret rawKey =>
    refine Transition.of_map (fun r g' hx => ?_) (fun e g' hx => ?_) <;> unfold finishLogin at hx
    · split at hx
      · next user hturn =>
        rcases insertKey_cases (g.dropLogin i) user.id rawKey.text (lib.hashApiSecret rawSecret.text)
          (some "auto-generated at login") allPermissions 120 with hins | ⟨hnew, hins⟩
        · rw [hins] at hx
          cases hx
        · rw [hins] at hx
          cases hx
          exact .issued i rawSecret rawKey user hturn hnew
      · next user row hturn =>
        cases hx
        exact .rotated i rawSecret rawKey user row hturn
      · cases hx
        exact .same lib g _
    · split at hx
      · next user hturn =>
        rcases insertKey_cases (g.dropLogin i) user.id rawKey.text (lib.hashApiSecret rawSecret.text)
          (some "auto-generated at login") allPermissions 120 with hins | ⟨hnew, hins⟩
        · rw [hins] at hx
          cases hx
          refine .collided i rawSecret rawKey user hturn ?_
          have hfinish : finishLogin lib i rawSecret rawKey g
              = (.error .internal, { g.dropLogin i with apiKeyIdSeq := g.apiKeyIdSeq + 1 }) := by
            unfold finishLogin
            simp only [hturn, hins]
            rfl
          exact congrArg Prod.fst (map_of_error (f := fun r => r.elim Reply.silent Reply.loggedIn) hfinish)
        · rw [hins] at hx
          cases hx
      · cases hx
      · cases hx
  | adminLogin email password now =>
    refine Transition.of_map (fun a g' hx => ?_) (fun e g' hx => ?_)
    · obtain ⟨user, g₁, huser, hrest⟩ := Prog.bind_eq_ok.mp hx
      rcases checkPassword_cases lib email password g with ⟨e, he⟩ | ⟨user', h', hfound, -, -⟩
      · cases he.symm.trans huser
      · cases h'.symm.trans huser
        obtain ⟨_, g₂, hrequire, hrest⟩ := Prog.bind_eq_ok.mp hrest
        obtain ⟨hadmin, rfl⟩ := Prog.require_eq_ok.mp hrequire
        cases hrest
        exact .token email password now user hfound hadmin
    · rcases checkPassword_cases lib email password g with ⟨e', he⟩ | ⟨user, h', -⟩
      · cases (Prog.bind_of_error he).symm.trans hx
        exact .same lib g _
      · have hx : _ = (Except.error e, g') := (Prog.bind_of_ok h').symm.trans hx
        unfold Prog.require at hx
        split_ifs at hx
        · cases hx
        · cases hx
          exact .same lib g _
  | admin now authorization action =>
    have hanswer : answer lib (.admin now authorization action) g
        = (authenticateAdmin lib now authorization >>= fun _ => action.perform lib) g := rfl
    rw [hanswer]
    rcases authenticateAdmin_cases lib now authorization g with ⟨e, he⟩ | ⟨_, _, user, hok, -⟩
    · rw [Prog.bind_of_error he]
      exact .same lib g _
    · rw [Prog.bind_of_ok hok]
      cases action with
      | createUser email password salt isAdmin =>
        refine Transition.of_map (fun a g' hx => ?_) (fun e g' hx => ?_) <;> unfold createUser at hx <;>
          split at hx
        · cases hx
        · next hemail =>
          cases hx
          exact .enrolled _ email _ isAdmin hemail
        · cases hx
          exact .same lib g _
        · cases hx
      | toggleUserActive userId isActive =>
        refine Transition.of_map (fun a g' hx => ?_) (fun e g' hx => ?_) <;> unfold toggleUserActive at hx <;>
          split at hx
        · cases hx
        · cases hx
          exact .toggled _ userId isActive
        · cases hx
          exact .same lib g _
        · cases hx
      | createApiKey userId label permissions limit rawKey rawSecret =>
        refine Transition.of_map (fun a g' hx => ?_) (fun e g' hx => ?_) <;> unfold createApiKey at hx <;>
          rcases insertKey_cases g userId rawKey.text (lib.hashApiSecret rawSecret.text) label (orAll permissions)
            limit with hins | ⟨hnew, hins⟩ <;> rw [hins] at hx <;> cases hx
        · exact .created now authorization userId label permissions limit rawKey rawSecret hnew
        · exact .refused _
      | revokeApiKey apiKeyId =>
        refine Transition.of_map (fun a g' hx => ?_) (fun e g' hx => ?_) <;> cases hx
        exact .revoked now authorization apiKeyId
  | call req verifiedAt limitedAt =>
    obtain ⟨limits, hlimits⟩ := authenticateRequest_limits lib req verifiedAt limitedAt g
    refine Transition.of_map (fun a g' hx => ?_) (fun e g' hx => ?_) <;> rw [hx] at hlimits <;> subst hlimits
    · exact .kept _ limits
    · exact .kept _ limits

end

end SpotExchange.Api
