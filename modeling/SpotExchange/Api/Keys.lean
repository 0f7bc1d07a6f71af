import SpotExchange.Api.RateLimit
import SpotExchange.Api.Signing
import SpotExchange.Exchange.Models
import SpotExchange.Lib.Prog

namespace SpotExchange.Api

open SpotExchange.Lib
open SpotExchange.Exchange (UserId)

/-!
# Users and their keys

The rows of `users` and `api_keys`, and the handlers that write them.

* `Crypto` — what the code takes from `hashlib`, `hmac`, `bcrypt` and `jwt`;
* `Gate` — both tables, the logins that wait for the database, and the rate limits;
* `register`, `login`, `selectKey`, `finishLogin`, `adminLogin` — the public handlers, a login in three
  parts, between which others are served;
* `authenticateAdmin` — the guard of the admin panel, and `createUser`, `toggleUserActive`, `createApiKey`
  and `revokeApiKey` behind it.
-/

/-! ### What is hashed and signed -/

/-- The payload of a token of the admin panel. -/
structure JwtPayload where
  sub : String
  isAdmin : Bool
  iat : ℤ
  exp : ℤ
  deriving DecidableEq, Repr

/-- What the code takes from elsewhere. -/
structure Crypto where
  /-- `hashlib.sha256(data).hexdigest()`. -/
  sha256Hex : ByteArray → String
  /-- `hmac.new(key, message, hashlib.sha256).hexdigest()`. -/
  hmacHex : ByteArray → ByteArray → String
  hmacHex_ne : ∀ key message, hmacHex key message ≠ ""
  hmacHex_ascii : ∀ key message, ∀ c ∈ (hmacHex key message).toList, c.toNat < 128
  /-- `str.upper`, one character at a time. -/
  upperChar : Char → List Char
  /-- `bcrypt.hashpw`, of a password and a salt. -/
  hashpw : ByteArray → String → String
  /-- `bcrypt.checkpw`; `none` if it raises. -/
  checkpw : ByteArray → ByteArray → Option Bool
  /-- `jwt.encode`, under the secret of the application. -/
  jwtEncode : JwtPayload → String
  /-- `jwt.decode` at a time; `none` if it raises. -/
  jwtDecode : ℚ≥0 → String → Option JwtPayload

/-- What `secrets.token_hex(n)` returns: two digits for each byte. -/
structure TokenHex (n : ℕ) where
  text : String
  length_text : text.length = 2 * n

/-- `hash_api_secret`. -/
def Crypto.hashApiSecret (lib : Crypto) (rawSecret : String) : String := lib.sha256Hex rawSecret.toUTF8

/-- `password.encode("utf-8")[:72]`. -/
def passwordBytes (password : String) : ByteArray := password.toUTF8.extract 0 72

/-- `hash_password`. -/
def Crypto.hashPassword (lib : Crypto) (password salt : String) : String :=
  lib.hashpw (passwordBytes password) salt

/-- `verify_password`. -/
def Crypto.verifyPassword (lib : Crypto) (password passwordHash : String) : Bool :=
  (lib.checkpw (passwordBytes password) passwordHash.toUTF8).getD false

/-- `int(time.time())`. -/
def clock (now : ℚ≥0) : ℤ := ⌊(now : ℚ)⌋

/-- `jwt_expires_minutes`. -/
def jwtExpiresMinutes : ℤ := 1440

/-- The payload that `create_jwt_token` signs. -/
def jwtPayload (userId : UserId) (isAdmin : Bool) (now : ℚ≥0) : JwtPayload where
  sub := toString userId
  isAdmin := isAdmin
  iat := clock now
  exp := clock now + jwtExpiresMinutes * 60

/-! ### Python texts -/

/-- `str.isspace`, for the characters of a header. -/
def isSpace (c : Char) : Bool :=
  9 ≤ c.toNat && c.toNat ≤ 13 || 28 ≤ c.toNat && c.toNat ≤ 32 || c.toNat = 133 || c.toNat = 160

/-- `str.strip`. -/
def strip (cs : List Char) : List Char := ((cs.dropWhile isSpace).reverse.dropWhile isSpace).reverse

/-- `int(text)`; `none` if it raises.  Digits may be grouped by underscores. -/
def pyInt (text : String) : Option ℤ :=
  match strip text.toList with
  | '+' :: digits => (String.ofList digits).toNat?.map Int.ofNat
  | cs => (String.ofList cs).toInt?

/-- `text[:n]`. -/
def pyTake (n : ℕ) (text : String) : String := String.ofList (text.toList.take n)

/-- A character of `repr(text)`. -/
def reprChar (quote c : Char) : List Char :=
  if c = quote ∨ c = '\\' then ['\\', c]
  else if c = '\t' then ['\\', 't']
  else if c = '\n' then ['\\', 'n']
  else if c = '\r' then ['\\', 'r']
  else if c.toNat < 32 ∨ 127 ≤ c.toNat ∧ c.toNat ≤ 160 ∨ c.toNat = 173 then
    ['\\', 'x', Nat.digitChar (c.toNat / 16), Nat.digitChar (c.toNat % 16)]
  else [c]

/-- `repr(text)`, for the characters of a header. -/
def pyRepr (text : String) : String :=
  let single := Char.ofNat 39
  let quote := if single ∈ text.toList ∧ '"' ∉ text.toList then '"' else single
  String.ofList (quote :: text.toList.flatMap (reprChar quote) ++ [quote])

/-! ### Errors -/

/-- The exceptions of `app/core/exceptions.py` that the handlers raise; any other one is `internal`. -/
inductive AppError
  | authentication (message : String)
  | invalidSignature (message : String)
  | expiredTimestamp (message : String)
  | missingApiKey (message : String)
  | revokedApiKey (message : String)
  | insufficientPermissions (message : String)
  | rateLimitExceeded (message : String) (limit : ℤ) (current : ℕ) (retryAfterSeconds : ℤ)
  | loginExists (message : String)
  | userNotFound (message : String)
  | internal
  deriving DecidableEq, Repr

/-- `status_code`. -/
def AppError.statusCode : AppError → ℕ
  | .authentication _ | .invalidSignature _ | .expiredTimestamp _ | .missingApiKey _ | .revokedApiKey _ => 401
  | .insufficientPermissions _ => 403
  | .rateLimitExceeded .. => 429
  | .loginExists _ => 409
  | .userNotFound _ => 404
  | .internal => 500

/-- `code`. -/
def AppError.code : AppError → String
  | .authentication _ => "unauthorized"
  | .invalidSignature _ => "invalid_signature"
  | .expiredTimestamp _ => "expired_timestamp"
  | .missingApiKey _ => "missing_api_key"
  | .revokedApiKey _ => "revoked_api_key"
  | .insufficientPermissions _ => "insufficient_permissions"
  | .rateLimitExceeded .. => "rate_limit_exceeded"
  | .loginExists _ => "login_exists"
  | .userNotFound _ => "user_not_found"
  | .internal => "internal_error"

/-! ### The tables -/

/-- `User`. -/
structure User where
  id : UserId
  email : String
  passwordHash : String
  isActive : Bool
  isAdmin : Bool
  deriving DecidableEq, Repr

/-- `ApiKey`. -/
structure ApiKey where
  id : ℕ
  userId : UserId
  apiKey : String
  secretHash : String
  label : Option String
  permissions : List String
  rateLimitPerMin : ℤ
  isRevoked : Bool
  deriving DecidableEq, Repr

/-- A login at an `await`: the password is right, or the user's key has been looked for. -/
inductive PendingLogin
  | verified (user : User)
  | selected (user : User) (row : Option ApiKey)
  deriving DecidableEq, Repr

/-- Whose login it is. -/
def PendingLogin.user : PendingLogin → User
  | .verified user => user
  | .selected user _ => user

/-- The tables with their sequences, the logins on their way, and `ratelimit:{api_key}` of Redis. -/
structure Gate where
  users : List User
  apiKeys : List ApiKey
  userIdSeq : ℕ
  apiKeyIdSeq : ℕ
  logins : List PendingLogin
  limits : String → RateLimitKey

namespace Gate

/-- `UserRepository.get_by_email`. -/
def getByEmail (g : Gate) (email : String) : Option User := g.users.find? fun user => user.email = email

/-- `UserRepository.get`. -/
def getUser (g : Gate) (id : UserId) : Option User := g.users.find? fun user => user.id = id

/-- `ApiKeyRepository.get_by_api_key`. -/
def getByApiKey (g : Gate) (apiKey : String) : Option ApiKey := g.apiKeys.find? fun row => row.apiKey = apiKey

/-- The keys that `login` looks for: `user_id = … AND is_revoked = false`. -/
def liveKeys (g : Gate) (userId : UserId) : List ApiKey :=
  g.apiKeys.filter fun row => row.userId = userId && !row.isRevoked

/-- `UserRepository.create`, whose users are active. -/
def createUser (g : Gate) (email passwordHash : String) (isAdmin : Bool) : User × Gate :=
  let user : User := ⟨g.userIdSeq, email, passwordHash, true, isAdmin⟩
  (user, { g with users := g.users ++ [user], userIdSeq := g.userIdSeq + 1 })

/-- `INSERT INTO api_keys`: `api_key` is unique, `user_id` is that of a user, and the sequence moves even
    if the row is refused. -/
def insertKey (g : Gate) (userId : UserId) (apiKey secretHash : String) (label : Option String)
    (permissions : List String) (rateLimitPerMin : ℤ) : Except AppError ApiKey × Gate :=
  let row : ApiKey := ⟨g.apiKeyIdSeq, userId, apiKey, secretHash, label, permissions, rateLimitPerMin, false⟩
  if g.getByApiKey apiKey = none ∧ (g.getUser userId).isSome then
    (.ok row, { g with apiKeys := g.apiKeys ++ [row], apiKeyIdSeq := g.apiKeyIdSeq + 1 })
  else (.error .internal, { g with apiKeyIdSeq := g.apiKeyIdSeq + 1 })

/-- `UPDATE api_keys … WHERE id = …`. -/
def updateKey (g : Gate) (id : ℕ) (f : ApiKey → ApiKey) : Gate :=
  { g with apiKeys := g.apiKeys.map fun row => if row.id = id then f row else row }

/-- A login is over. -/
def dropLogin (g : Gate) (i : ℕ) : Gate := { g with logins := g.logins.eraseIdx i }

end Gate

/-! ### Replies -/

/-- `RegisterResponse`. -/
structure RegisterResponse where
  userId : UserId
  login : String
  message : String
  deriving DecidableEq, Repr

/-- `LoginResponse`. -/
structure LoginResponse where
  userId : UserId
  login : String
  isAdmin : Bool
  apiKey : String
  apiSecret : String
  permissions : List String
  deriving DecidableEq, Repr

/-- `AdminLoginResponse`. -/
structure AdminLoginResponse where
  token : String
  userId : UserId
  login : String
  isAdmin : Bool
  deriving DecidableEq, Repr

/-- `AdminUserResponse`. -/
structure AdminUserResponse where
  id : UserId
  email : String
  isActive : Bool
  isAdmin : Bool
  deriving DecidableEq, Repr

/-- `AdminApiKeyCreateResponse`. -/
structure AdminApiKeyCreateResponse where
  id : ℕ
  userId : UserId
  apiKey : String
  label : Option String
  permissions : List String
  rateLimitPerMin : ℤ
  isRevoked : Bool
  secret : String
  deriving DecidableEq, Repr

/-- `["trade", "read", "ws"]`. -/
def allPermissions : List String := ["trade", "read", "ws"]

/-- `permissions or ["trade", "read", "ws"]`. -/
def orAll (permissions : List String) : List String :=
  if permissions = [] then allPermissions else permissions

def User.response (user : User) : AdminUserResponse := ⟨user.id, user.email, user.isActive, user.isAdmin⟩

def ApiKey.response (row : ApiKey) (rawSecret : String) : AdminApiKeyCreateResponse :=
  ⟨row.id, row.userId, row.apiKey, row.label, row.permissions, row.rateLimitPerMin, row.isRevoked, rawSecret⟩

def loginResponse (user : User) (row : ApiKey) (rawSecret : String) : LoginResponse :=
  ⟨user.id, user.email, user.isAdmin, row.apiKey, rawSecret, orAll row.permissions⟩

/-! ### Handlers -/

section

variable (lib : Crypto)

/-- `register`. -/
def register (login password salt : String) : Prog Gate AppError RegisterResponse := fun g =>
  match g.getByEmail login with
  | some _ => (.error (.loginExists ("User '" ++ login ++ "' already exists")), g)
  | none =>
    let (user, g) := g.createUser login (lib.hashPassword password salt) false
    (.ok ⟨user.id, user.email, "Account created. Please login."⟩, g)

/-- What `login` and `admin_login` find wrong with a login. -/
def checkPassword (login password : String) : Prog Gate AppError User := fun g =>
  match g.getByEmail login with
  | none => (.error (.authentication "Invalid login or password"), g)
  | some user =>
    if !user.isActive then (.error (.authentication "Invalid login or password"), g)
    else if !lib.verifyPassword password user.passwordHash then
      (.error (.authentication "Invalid login or password"), g)
    else (.ok user, g)

/-- `login`, up to where it waits for the user's key. -/
def login (login password : String) : Prog Gate AppError PUnit := do
  let user ← checkPassword lib login password
  Prog.modify fun g => { g with logins := g.logins ++ [.verified user] }

/-- `result.scalar_one_or_none()` of a login, which raises if there is more than one row. -/
def selectKey (i : ℕ) : Prog Gate AppError PUnit := fun g =>
  match g.logins[i]? with
  | some (.verified user) =>
    match g.liveKeys user.id with
    | [] => (.ok ⟨⟩, { g with logins := g.logins.set i (.selected user none) })
    | [row] => (.ok ⟨⟩, { g with logins := g.logins.set i (.selected user (some row)) })
    | _ => (.error .internal, g.dropLogin i)
  | _ => (.ok ⟨⟩, g)

/-- The rest of `login`: a key with its secret is made, or the secret of the key is replaced.  `none` if
    no login is so far. -/
def finishLogin (i : ℕ) (rawSecret : TokenHex 32) (rawKey : TokenHex 16) :
    Prog Gate AppError (Option LoginResponse) := fun g =>
  match g.logins[i]? with
  | some (.selected user none) =>
    match (g.dropLogin i).insertKey user.id rawKey.text (lib.hashApiSecret rawSecret.text)
      (some "auto-generated at login") allPermissions 120 with
    | (.ok row, g) => (.ok (some (loginResponse user row rawSecret.text)), g)
    | (.error e, g) => (.error e, g)
  | some (.selected user (some row)) =>
    (.ok (some (loginResponse user row rawSecret.text)),
      (g.dropLogin i).updateKey row.id fun row => { row with secretHash := lib.hashApiSecret rawSecret.text })
  | _ => (.ok none, g)

/-- `admin_login`. -/
def adminLogin (login password : String) (now : ℚ≥0) : Prog Gate AppError AdminLoginResponse := do
  let user ← checkPassword lib login password
  Prog.require (user.isAdmin = true) (.authentication "Access denied: admin privileges required")
  pure ⟨lib.jwtEncode (jwtPayload user.id true now), user.id, user.email, true⟩

/-- `authenticate_admin`. -/
def authenticateAdmin (now : ℚ≥0) (authorization : Option String) : Prog Gate AppError User := fun g =>
  match authorization.filter fun a => "Bearer ".toList <+: a.toList with
  | none => (.error (.authentication "Missing or malformed Authorization header"), g)
  | some a =>
    match lib.jwtDecode now (String.ofList (strip (a.toList.drop 7))) with
    | none => (.error (.authentication "Invalid or expired JWT"), g)
    | some payload =>
      match pyInt payload.sub with
      | none => (.error .internal, g)
      | some userId =>
        if !payload.isAdmin then (.error (.authentication "User is not an admin"), g)
        else
          match g.users.find? fun user => user.id = userId with
          | some user =>
            if user.isActive then (.ok user, g)
            else (.error (.authentication "Admin user not found or inactive"), g)
          | none => (.error (.authentication "Admin user not found or inactive"), g)

/-- `create_user`. -/
def createUser (email password salt : String) (isAdmin : Bool) : Prog Gate AppError AdminUserResponse := fun g =>
  match g.getByEmail email with
  | some _ => (.error .internal, g)
  | none =>
    let (user, g) := g.createUser email (lib.hashPassword password salt) isAdmin
    (.ok user.response, g)

/-- `toggle_user_active`. -/
def toggleUserActive (userId : UserId) (isActive : Bool) : Prog Gate AppError AdminUserResponse := fun g =>
  match g.getUser userId with
  | none => (.error (.userNotFound ("User " ++ toString userId ++ " not found")), g)
  | some user =>
    (.ok { user.response with isActive := isActive },
      { g with users := g.users.map fun u => if u.id = userId then { u with isActive := isActive } else u })

/-- `create_api_key`. -/
def createApiKey (userId : UserId) (label : Option String) (permissions : List String) (rateLimitPerMin : ℤ)
    (rawKey : TokenHex 16) (rawSecret : TokenHex 32) : Prog Gate AppError AdminApiKeyCreateResponse := fun g =>
  match g.insertKey userId rawKey.text (lib.hashApiSecret rawSecret.text) label (orAll permissions)
    rateLimitPerMin with
  | (.ok row, g) => (.ok (row.response rawSecret.text), g)
  | (.error e, g) => (.error e, g)

/-- `revoke_api_key`: whether there was a row, and its id. -/
def revokeApiKey (apiKeyId : ℕ) : Prog Gate AppError (Bool × ℕ) := fun g =>
  (.ok (g.apiKeys.any fun row => row.id = apiKeyId, apiKeyId),
    g.updateKey apiKeyId fun row => { row with isRevoked := true })

end

end SpotExchange.Api
