import SpotExchange.Api.Keys

namespace SpotExchange.Api

open SpotExchange.Lib
open SpotExchange.Exchange (UserId)

/-!
# Signed requests

How a request and a handshake are checked, how the client signs them, and how the gate answers.

* `authenticateRequest`, `tryHeaderAuth`, `waitForAuthMessage` — the server;
* `clientSignature`, `buildAuthHeaders` — the client;
* `Gate.answer` — the reply to one request, and `Gate.events` — what it tells about the keys;
* `Trail` — the gate with what has been told.
-/

/-! ### The server -/

/-- A request: its method and its URL, the three headers and the body. -/
structure HttpRequest where
  method : String
  path : String
  query : String
  apiKey : Option String
  timestamp : Option String
  signature : Option String
  body : ByteArray

/-- What `authenticate_request` attaches to `request.state`. -/
structure Principal where
  apiKey : String
  userId : UserId
  apiKeyId : ℕ
  rateLimitPerMin : ℤ
  permissions : List String
  deriving DecidableEq, Repr

/-- A header that is neither missing nor empty. -/
def present (header : Option String) : Option String := header.filter (· ≠ "")

/-- The path with the query, as it is signed. -/
def fullPath (path query : String) : String := if query = "" then path else path ++ "?" ++ query

/-- `hmac_replay_window_seconds`. -/
def hmacReplayWindowSeconds : ℤ := 30

/-- `hmac.compare_digest(expected, provided)` for texts; `none` if it raises. -/
def compareDigest (expected provided : String) : Option Bool :=
  if provided.toList.all fun c => c.toNat < 128 then some (expected = provided) else none

section

variable (lib : Crypto)

/-- `verify_signature`. -/
def verifySignature (secret method path : String) (timestamp : ℤ) (body provided : String) (now : ℚ≥0) :
    Option Bool :=
  if hmacReplayWindowSeconds < |clock now - timestamp| then some false
  else compareDigest (computeSignature lib.upperChar lib.hmacHex secret method path timestamp body) provided

/-- `verify_ws_signature`. -/
def verifyWsSignature (secret apiKey : String) (timestamp : ℤ) (provided : String) (now : ℚ≥0) : Option Bool :=
  if hmacReplayWindowSeconds < |clock now - timestamp| then some false
  else compareDigest (computeWsSignature lib.hmacHex secret apiKey timestamp) provided

/-- `enforce_rate_limit`. -/
def enforceRateLimit (apiKey : String) (limit : ℤ) (now : ℚ≥0) : Prog Gate AppError PUnit := fun g =>
  let (answer, key) := checkAndConsume limit.toNat 60 now (g.limits apiKey)
  let g := { g with limits := Function.update g.limits apiKey key }
  match answer.result with
  | .allowed => (.ok ⟨⟩, g)
  | .rejected => (.error (.rateLimitExceeded ("Rate limit exceeded: " ++ toString answer.currentCount ++ "/"
      ++ toString limit ++ " requests per minute") limit answer.currentCount answer.retryAfter), g)

/-- What `authenticate_request` finds before it looks at the rate limit. -/
def identify (req : HttpRequest) (now : ℚ≥0) (g : Gate) : Except AppError Principal :=
  match present req.apiKey, present req.timestamp, present req.signature with
  | some apiKey, some timestamp, some signature =>
    match pyInt timestamp with
    | none => .error (.expiredTimestamp ("Invalid X-Timestamp: " ++ pyRepr timestamp))
    | some timestamp =>
      match g.getByApiKey apiKey with
      | none => .error (.missingApiKey ("Unknown API key: " ++ pyTake 8 apiKey ++ "..."))
      | some row =>
        if row.isRevoked then
          .error (.revokedApiKey ("API key " ++ pyTake 8 apiKey ++ "... has been revoked"))
        else
          match String.fromUTF8? req.body with
          | none => .error .internal
          | some body =>
            match verifySignature lib row.secretHash req.method (fullPath req.path req.query) timestamp body
              signature now with
            | none => .error .internal
            | some false => .error (.invalidSignature "HMAC signature verification failed")
            | some true => .ok ⟨apiKey, row.userId, row.id, row.rateLimitPerMin, row.permissions⟩
  | _, _, _ => .error (.missingApiKey "Missing X-API-Key, X-Timestamp, or X-Signature header")

/-- `authenticate_request`. -/
def authenticateRequest (req : HttpRequest) (verifiedAt limitedAt : ℚ≥0) : Prog Gate AppError Principal := do
  let principal ← fun g => (identify lib req verifiedAt g, g)
  enforceRateLimit principal.apiKey principal.rateLimitPerMin limitedAt
  pure principal

/-- `require_permission(perm)`, after `authenticate_request`. -/
def requirePermission (perm : String) (req : HttpRequest) (verifiedAt limitedAt : ℚ≥0) :
    Prog Gate AppError Principal := do
  let principal ← authenticateRequest lib req verifiedAt limitedAt
  Prog.require (perm ∈ principal.permissions)
    (.insufficientPermissions ("API key lacks required permission: " ++ pyRepr perm))
  pure principal

/-! ### Handshakes -/

/-- What a handshake is refused with: an exception of the application, or another one with its text. -/
inductive WsError
  | app (e : AppError)
  | other (message : String)
  deriving DecidableEq, Repr

/-- The part that both ways to authenticate a socket share. -/
def handshake (apiKey : String) (timestamp : ℤ) (signature : String) (now : ℚ≥0) (g : Gate) :
    Except WsError UserId :=
  match g.getByApiKey apiKey with
  | none => .error (.app (.missingApiKey ("Unknown API key: " ++ pyTake 8 apiKey ++ "...")))
  | some row =>
    if row.isRevoked then .error (.app (.missingApiKey "API key revoked"))
    else
      match verifyWsSignature lib row.secretHash apiKey timestamp signature now with
      | none => .error (.other "comparing strings with non-ASCII characters is not supported")
      | some false => .error (.app (.invalidSignature "WS signature verification failed"))
      | some true => .ok row.userId

/-- `_try_header_auth`: no user if a header is absent. -/
def tryHeaderAuth (apiKey timestamp signature : Option String) (now : ℚ≥0) (g : Gate) :
    Except WsError (Option UserId) :=
  match present apiKey, present timestamp, present signature with
  | some apiKey, some timestamp, some signature =>
    match pyInt timestamp with
    | none => .error (.app (.expiredTimestamp ("Invalid timestamp: " ++ pyRepr timestamp)))
    | some timestamp => (handshake lib apiKey timestamp signature now g).map some
  | _, _, _ => .ok none

/-- The message of a client that cannot set headers; its time is a number or a text. -/
structure AuthMessage where
  action : Option String
  apiKey : Option String
  timestamp : Option (ℤ ⊕ String)
  signature : Option String
  deriving DecidableEq

/-- `int(timestamp)`, unless it is missing, zero or empty; the text is that of the exception. -/
def AuthMessage.time (msg : AuthMessage) : Option (Except String ℤ) :=
  match msg.timestamp with
  | some (.inl n) => if n = 0 then none else some (.ok n)
  | some (.inr text) =>
    if text = "" then none
    else
      match pyInt text with
      | some n => some (.ok n)
      | none => some (.error ("Invalid timestamp: " ++ pyRepr text))
  | none => none

/-- `_wait_for_auth_message`. -/
def waitForAuthMessage (msg : AuthMessage) (now : ℚ≥0) (g : Gate) : Except WsError UserId :=
  if msg.action ≠ some "auth" then .error (.other "Expected 'auth' message")
  else
    match present msg.apiKey, msg.time, present msg.signature with
    | some apiKey, some time, some signature =>
      match time with
      | .error text => .error (.app (.expiredTimestamp text))
      | .ok timestamp => handshake lib apiKey timestamp signature now g
    | _, _, _ => .error (.other "Missing api_key/timestamp/signature in auth message")

/-! ### The client -/

/-- `computeSignature` of the client, whose key is the hash of the secret. -/
def clientSignature (rawSecret method path : String) (timestamp : ℤ) (body : String) : String :=
  computeSignature lib.upperChar lib.hmacHex (lib.sha256Hex rawSecret.toUTF8) method path timestamp body

/-- `computeWsSignature` of the client. -/
def clientWsSignature (rawSecret apiKey : String) (timestamp : ℤ) : String :=
  computeWsSignature lib.hmacHex (lib.sha256Hex rawSecret.toUTF8) apiKey timestamp

/-- What the client sends, with `buildAuthHeaders`. -/
def clientRequest (apiKey apiSecret method path query body : String) (sentAt : ℚ≥0) : HttpRequest where
  method := method
  path := path
  query := query
  apiKey := some apiKey
  timestamp := some (toString (clock sentAt))
  signature := some (clientSignature lib apiSecret method (fullPath path query) (clock sentAt) body)
  body := body.toUTF8

/-- What the client's private socket sends, `_sendAuth`. -/
def clientAuthMessage (apiKey apiSecret : String) (sentAt : ℚ≥0) : AuthMessage where
  action := some "auth"
  apiKey := some apiKey
  timestamp := some (.inl (clock sentAt))
  signature := some (clientWsSignature lib apiSecret apiKey (clock sentAt))

/-! ### The gate -/

/-- The requests of the admin panel. -/
inductive AdminAction
  | createUser (email password salt : String) (isAdmin : Bool)
  | toggleUserActive (userId : UserId) (isActive : Bool)
  | createApiKey (userId : UserId) (label : Option String) (permissions : List String) (rateLimitPerMin : ℤ)
      (rawKey : TokenHex 16) (rawSecret : TokenHex 32)
  | revokeApiKey (apiKeyId : ℕ)

/-- What is served, one after the other; a login takes three turns. -/
inductive AuthRequest
  | register (login password salt : String)
  | login (login password : String)
  | selectKey (i : ℕ)
  | finishLogin (i : ℕ) (rawSecret : TokenHex 32) (rawKey : TokenHex 16)
  | adminLogin (login password : String) (now : ℚ≥0)
  | admin (now : ℚ≥0) (authorization : Option String) (action : AdminAction)
  | call (req : HttpRequest) (verifiedAt limitedAt : ℚ≥0)

/-- The replies; a login is silent until it has ended. -/
inductive Reply
  | silent
  | registered (r : RegisterResponse)
  | loggedIn (r : LoginResponse)
  | adminLoggedIn (r : AdminLoginResponse)
  | user (r : AdminUserResponse)
  | key (r : AdminApiKeyCreateResponse)
  | revoked (success : Bool) (apiKeyId : ℕ)
  | authenticated (principal : Principal)
  deriving DecidableEq, Repr

/-- A handler of the admin panel. -/
def AdminAction.perform : AdminAction → Prog Gate AppError Reply
  | .createUser email password salt isAdmin => Reply.user <$> Api.createUser lib email password salt isAdmin
  | .toggleUserActive userId isActive => Reply.user <$> Api.toggleUserActive userId isActive
  | .createApiKey userId label permissions limit rawKey rawSecret =>
    Reply.key <$> Api.createApiKey lib userId label permissions limit rawKey rawSecret
  | .revokeApiKey apiKeyId => (fun r => Reply.revoked r.1 r.2) <$> Api.revokeApiKey apiKeyId

/-- The reply to a request. -/
def answer : AuthRequest → Prog Gate AppError Reply
  | .register login password salt => Reply.registered <$> register lib login password salt
  | .login email password => (fun _ => Reply.silent) <$> login lib email password
  | .selectKey i => (fun _ => Reply.silent) <$> selectKey i
  | .finishLogin i rawSecret rawKey =>
    (fun r => r.elim Reply.silent Reply.loggedIn) <$> finishLogin lib i rawSecret rawKey
  | .adminLogin login password now => Reply.adminLoggedIn <$> adminLogin lib login password now
  | .admin now authorization action => do
    let _ ← authenticateAdmin lib now authorization
    action.perform lib
  | .call req verifiedAt limitedAt => Reply.authenticated <$> authenticateRequest lib req verifiedAt limitedAt

/-- A secret that has been told, with what it is for. -/
structure Handout where
  apiKey : String
  userId : UserId
  secret : String
  permissions : List String
  deriving DecidableEq, Repr

/-- What somebody learns of a key or a token. -/
inductive Event
  | handed (h : Handout)
  | revoked (apiKey : String)
  | token (token : String) (userId : UserId)
  deriving DecidableEq, Repr

/-- What is told by a reply to a request that found the gate so. -/
def Gate.events (g : Gate) : Except AppError Reply → List Event
  | .ok (.loggedIn r) => [.handed ⟨r.apiKey, r.userId, r.apiSecret, r.permissions⟩]
  | .ok (.key r) => [.handed ⟨r.apiKey, r.userId, r.secret, r.permissions⟩]
  | .ok (.revoked _ id) => (g.apiKeys.filter fun row => row.id = id).map fun row => .revoked row.apiKey
  | .ok (.adminLoggedIn r) => [.token r.token r.userId]
  | _ => []

/-- The gate, and all that has been told. -/
structure Trail where
  gate : Gate
  log : List Event

/-- One request. -/
def Trail.serve (t : Trail) (req : AuthRequest) : Trail where
  gate := (answer lib req t.gate).2
  log := t.log ++ t.gate.events (answer lib req t.gate).1

/-- All requests of a list. -/
def Trail.serveAll (t : Trail) (reqs : List AuthRequest) : Trail := Run.after (Trail.serve lib) t reqs

end

/-- The users that an exchange starts with. -/
structure Seed where
  users : List User
  userIdSeq : ℕ
  ids_lt : ∀ user ∈ users, user.id < userIdSeq
  ids_nodup : (users.map User.id).Nodup
  emails_nodup : (users.map User.email).Nodup

/-- The beginning: no keys, no logins, and nothing told. -/
def Seed.trail (seed : Seed) : Trail :=
  ⟨⟨seed.users, [], seed.userIdSeq, 0, [], fun _ => .missing⟩, []⟩

namespace Trail

/-- The secrets told for a key. -/
def handouts (log : List Event) (apiKey : String) : List Handout :=
  log.filterMap fun e =>
    match e with
    | .handed h => if h.apiKey = apiKey then some h else none
    | _ => none

/-- **Whose a key is, and its secret**: the last one told, unless the key has been revoked. -/
def current (log : List Event) (apiKey : String) : Option Handout :=
  if .revoked apiKey ∈ log then none else (handouts log apiKey).getLast?

end Trail

end SpotExchange.Api
