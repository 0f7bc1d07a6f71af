import SpotExchange.Api.Admins
import SpotExchange.Exchange.Banking

namespace SpotExchange.Api

open SpotExchange.Lib
open SpotExchange.Engine (OrderId)
open SpotExchange.Ledger (BalanceKey Row)
open SpotExchange.Exchange (UserId Symbol TradingPair OrderCreateDto Request Store Bank Markets Action
  PairCreateRequest Healthy Caused KeptAmounts KeptBalances OriginsIn)

/-!
# The platform: who can change what a user has

The gate and the exchange together, with the admin and the background tasks.

* `Handler`, `Turn` — what is asked of the platform, and what happens by itself;
* `Platform.serve` — one turn: the gate decides who calls, and the exchange serves the caller;
* `Sound` — what holds between two turns;
* `run_allowed` — what a user has changes in a turn only if the turn is `Allowed` to;
* `run_outside` — and it never changes along a run of turns that come from outside.
-/

/-! ### Turns -/

/-- The handlers behind `require_permission`, with what they read from the request. -/
inductive Handler
  | placeOrder (dto : OrderCreateDto)
  | placeBulkOrders (dtos : List OrderCreateDto)
  | modifyOrder (orderId : OrderId) (price quantity : ℚ)
  | cancelOrder (orderId : OrderId)
  | cancelBulkOrders (orderIds : Option (List OrderId)) (symbol : Option Symbol) (cancelAll : Bool)
  /-- One that only reads, or that refuses what it is sent. -/
  | idle (permission : String)

/-- What a key needs for a handler. -/
def Handler.permission : Handler → String
  | .idle permission => permission
  | _ => "trade"

/-- What a handler asks of the exchange. -/
def Handler.action (userId : UserId) : Handler → Option Action
  | .placeOrder dto => some (.request (.place userId dto))
  | .placeBulkOrders dtos => some (.request (.placeBulk userId dtos))
  | .modifyOrder orderId price quantity => some (.request (.modify userId orderId price quantity))
  | .cancelOrder orderId => some (.request (.cancel userId orderId))
  | .cancelBulkOrders orderIds symbol cancelAll => some (.cancelBulk userId orderIds symbol cancelAll)
  | .idle _ => none

/-- What the admin panel asks of the exchange. -/
inductive PanelAction
  | adjustBalance (key : BalanceKey) (delta : ℚ) (reason : String)
  | createTradingPair (req : PairCreateRequest)
  | togglePairActive (pairId : ℕ) (isActive : Bool)

/-- What comes next: a request for the gate, a signed call, a request of the panel, or a step of a task in the
    background. -/
inductive Turn
  | auth (req : AuthRequest)
  | call (req : HttpRequest) (verifiedAt limitedAt : ℚ≥0)
  | panel (now : ℚ≥0) (authorization : Option String) (action : PanelAction)
  | background (req : { req : Request // req.caller = none })

/-- The exchange, and the gate with its log; of users there is one table. -/
structure Platform extends Markets where
  trail : Trail

/-- The ids of the table of users. -/
def Gate.userIds (g : Gate) : Finset UserId := (g.users.map User.id).toFinset

/-- What an exchange starts with, besides its users: the markets with their ids, and the balances. -/
structure Stock where
  pairs : Symbol → Option TradingPair
  symbolOf : ℕ → Option Symbol
  pairIdSeq : ℕ
  balances : BalanceKey → Option Row
  balances_ok : Exchange.RowsOk balances

/-- The beginning. -/
def Platform.start (seed : Seed) (stock : Stock) : Platform where
  trail := seed.trail
  bank := { store := Store.start seed.trail.gate.userIds stock.pairs stock.balances, adjustments := [] }
  symbolOf := stock.symbolOf
  pairIdSeq := stock.pairIdSeq

/-- A request of the panel, for an admin. -/
def PanelAction.perform (m : Markets) : PanelAction → Markets
  | .adjustBalance key delta reason => { m with bank := m.bank.act (.adjust key delta reason) }
  | .createTradingPair req => (Exchange.createTradingPair req m).2
  | .togglePairActive pairId isActive => (Exchange.togglePairActive pairId isActive m).2

section

variable (lib : Crypto) (route : HttpRequest → Option Handler)

/-- A signed call, of which the route is known: the gate tells who calls, and the handler serves the caller. -/
def Platform.handle (p : Platform) (handler : Handler) (req : HttpRequest) (verifiedAt limitedAt : ℚ≥0) :
    Platform :=
  let (result, gate) := requirePermission lib handler.permission req verifiedAt limitedAt p.trail.gate
  { p with
    trail := { p.trail with gate := gate }
    bank :=
      match result with
      | .ok principal => (handler.action principal.userId).elim p.bank p.bank.act
      | .error _ => p.bank }

/-- **One turn.** -/
def Platform.serve (p : Platform) : Turn → Platform
  | .auth req =>
    let trail := p.trail.serve lib req
    { p with trail := trail, bank := { p.bank with store := p.bank.store.setUsers trail.gate.userIds } }
  | .call req verifiedAt limitedAt =>
    match route req with
    | some handler => p.handle lib handler req verifiedAt limitedAt
    | none => p
  | .panel now authorization action =>
    match (authenticateAdmin lib now authorization p.trail.gate).1 with
    | .ok _ => { p with toMarkets := action.perform p.toMarkets }
    | .error _ => p
  | .background req => { p with bank := p.bank.act (.request req.1) }

/-- All turns of a list. -/
def Platform.serveAll (p : Platform) (turns : List Turn) : Platform := Run.after (Platform.serve lib route) p turns

/-- **Why a turn may change what a user has.** -/
inductive Allowed (userId : UserId) (p : Platform) : Turn → Prop
  /-- It is a call that is signed with a secret for trading that the user was told. -/
  | signed (req : HttpRequest) (verifiedAt limitedAt : ℚ≥0) (apiKey secret : String) (permissions : List String)
      (told : Trail.current p.trail.log apiKey = some ⟨apiKey, userId, secret, permissions⟩)
      (trade : "trade" ∈ permissions) (timestamp : ℤ) (body : String)
      (signed : SignedBy lib req apiKey secret timestamp body verifiedAt) :
      Allowed userId p (.call req verifiedAt limitedAt)
  /-- An admin adjusts a balance of the user. -/
  | adjusted (now : ℚ≥0) (authorization : Option String) (asset : Exchange.Asset) (delta : ℚ) (reason : String)
      (admin : User) (served : (authenticateAdmin lib now authorization p.trail.gate).1 = .ok admin) :
      Allowed userId p (.panel now authorization (.adjustBalance (userId, asset) delta reason))
  /-- An order of the user's is triggered, taken up or made with. -/
  | caused (req : { req : Request // req.caller = none }) (cause : Caused userId p.bank.store req) :
      Allowed userId p (.background req)

/-- **A turn comes from outside**: it is no call signed with a secret of the user's, and no adjustment of a
    balance of the user's that an admin asks for. -/
def Outside (userId : UserId) (p : Platform) : Turn → Prop
  | .call req verifiedAt _ => ∀ apiKey secret permissions timestamp body,
      Trail.current p.trail.log apiKey = some ⟨apiKey, userId, secret, permissions⟩ → "trade" ∈ permissions →
        ¬ SignedBy lib req apiKey secret timestamp body verifiedAt
  | .panel now authorization (.adjustBalance key _ _) => key.1 = userId →
      ∀ admin, (authenticateAdmin lib now authorization p.trail.gate).1 ≠ .ok admin
  | _ => True

end

section

variable {s s' : Store} {b : Bank} {userId other : UserId} {a : Action}

/-- **What a handler does** is done by calls of the caller: a bulk cancel by one for each order. -/
theorem action_calls (h : Healthy b.store) {handler : Handler} (ha : handler.action other = some a) :
    ∃ reqs : List Request, (b.act a).store = b.store.serveAll reqs ∧
      ∀ req ∈ reqs, req.isCall = true ∧ req.caller = some other := by
  cases handler with
  | cancelBulkOrders orderIds symbol cancelAll =>
    obtain rfl := Option.some.inj ha
    refine ⟨_, Exchange.cancelBulkOrders_serveAll h.toSweepable other orderIds symbol cancelAll, fun req hreq => ?_⟩
    obtain ⟨id, -, rfl⟩ := List.mem_map.mp hreq
    exact ⟨rfl, rfl⟩
  | idle permission => exact nomatch ha
  | _ =>
    obtain rfl := Option.some.inj ha
    refine ⟨[_], rfl, fun req hreq => ?_⟩
    obtain rfl := List.mem_singleton.mp hreq
    exact ⟨rfl, rfl⟩

/-- **What a handler does for others** changes nothing of a user's. -/
theorem kept_action (h : Healthy b.store) (hother : other ≠ userId) {handler : Handler}
    (ha : handler.action other = some a) : KeptBalances userId b.store (b.act a).store := by
  obtain ⟨reqs, hstore, hcalls⟩ := action_calls h ha
  have hothers : Run.Along Store.serve (fun _ req => req.isCall = true ∧ req.caller = some other) b.store reqs :=
    .of_forall fun req hreq _ => hcalls req hreq
  rw [hstore]
  refine hothers.invariant (I := KeptBalances userId b.store) (fun s req hkept hreq => ?_)
    (refl_of (KeptBalances userId) b.store)
  refine trans_of (KeptBalances userId) hkept (Exchange.keptBalances_serve hreq.1 ?_)
  rw [hreq.2]
  exact fun heq => hother (Option.some.inj heq)

/-- And it gives the user no order. -/
theorem stranger_action (h : Healthy b.store) (hother : other ≠ userId)
    (hnone : OriginsIn (fun owner _ => owner ≠ userId) b.store) {handler : Handler}
    (ha : handler.action other = some a) : OriginsIn (fun owner _ => owner ≠ userId) (b.act a).store := by
  obtain ⟨reqs, hstore, hcalls⟩ := action_calls h ha
  have hothers : Run.Along Store.serve (fun _ req => req.isCall = true ∧ req.caller = some other) b.store reqs :=
    .of_forall fun req hreq _ => hcalls req hreq
  rw [hstore]
  refine (hothers.invariant (I := fun s => Healthy s ∧ OriginsIn (fun owner _ => owner ≠ userId) s)
    (fun s req hI hreq => ⟨hI.1.serve req, ?_⟩) ⟨h, hnone⟩).2
  refine (Exchange.bystander_serve hI.1.orderly hI.1.recorded hI.2 ?_).1
  rw [hreq.2]
  exact fun heq => hother (Option.some.inj heq)

end

/-! ### One turn -/

/-- **What holds between two turns.** -/
structure Sound (lib : Crypto) (p : Platform) : Prop extends Healthy p.bank.store where
  tracks : Tracks lib p.trail

section

variable {lib : Crypto} {route : HttpRequest → Option Handler} {p : Platform} {g : Gate} {log : List Event}
  {userId : UserId}

/-- Rate limits tell nothing of a key. -/
theorem Tracks.limits (h : Tracks lib ⟨g, log⟩) (limits : String → RateLimitKey) :
    Tracks lib ⟨{ g with limits := limits }, log⟩ :=
  ⟨h.ids, h.ids_nodup, h.keys_nodup, h.rows, h.told, h.pending⟩

/-- What `require_permission` lets pass; of the gate it changes the rate limits alone. -/
theorem requirePermission_cases (lib : Crypto) (perm : String) (req : HttpRequest) (verifiedAt limitedAt : ℚ≥0)
    (g : Gate) :
    ∃ limits, (requirePermission lib perm req verifiedAt limitedAt g).2 = { g with limits := limits } ∧
      ∀ principal, (requirePermission lib perm req verifiedAt limitedAt g).1 = .ok principal →
        identify lib req verifiedAt g = .ok principal ∧ perm ∈ principal.permissions := by
  obtain ⟨limits, hlimits⟩ := authenticateRequest_limits lib req verifiedAt limitedAt g
  refine ⟨limits, ?_⟩
  unfold requirePermission
  rcases hauth : authenticateRequest lib req verifiedAt limitedAt g with ⟨e | principal, g'⟩ <;>
    rw [hauth] at hlimits <;> obtain rfl : g' = { g with limits := limits } := hlimits
  · rw [Prog.bind_of_error hauth]
    exact ⟨rfl, nofun⟩
  · have hid : identify lib req verifiedAt g = .ok principal :=
      (authenticateRequest_eq_ok.mp (congrArg Prod.fst hauth)).1
    rw [Prog.bind_of_ok hauth]
    by_cases hperm : perm ∈ principal.permissions
    · have hrequire : (Prog.require (perm ∈ principal.permissions)
          (.insufficientPermissions ("API key lacks required permission: " ++ pyRepr perm)) :
          Prog Gate AppError PUnit) { g with limits := limits } = (.ok ⟨⟩, _) :=
        Prog.require_eq_ok.mpr ⟨hperm, rfl⟩
      rw [Prog.bind_of_ok hrequire]
      refine ⟨rfl, fun principal' heq => ?_⟩
      obtain rfl := Except.ok.inj heq
      exact ⟨hid, hperm⟩
    · rw [show Prog.require (perm ∈ principal.permissions) _ = _ from if_neg hperm]
      exact ⟨rfl, nofun⟩

/-- What the gate lets a handler do. -/
theorem handle_cases (lib : Crypto) (p : Platform) (handler : Handler) (req : HttpRequest)
    (verifiedAt limitedAt : ℚ≥0) :
    ∃ limits, (p.handle lib handler req verifiedAt limitedAt).trail
        = { p.trail with gate := { p.trail.gate with limits := limits } } ∧
      ((p.handle lib handler req verifiedAt limitedAt).bank = p.bank ∨
        ∃ principal a, identify lib req verifiedAt p.trail.gate = .ok principal ∧
          handler.permission ∈ principal.permissions ∧ handler.action principal.userId = some a ∧
          (p.handle lib handler req verifiedAt limitedAt).bank = p.bank.act a) := by
  obtain ⟨limits, hgate, hpass⟩ :=
    requirePermission_cases lib handler.permission req verifiedAt limitedAt p.trail.gate
  refine ⟨limits, by rw [← hgate]; rfl, ?_⟩
  unfold Platform.handle
  cases hresult : (requirePermission lib handler.permission req verifiedAt limitedAt p.trail.gate).1 with
  | error e =>
    refine .inl ?_
    simp only [hresult]
  | ok principal =>
    obtain ⟨hid, hperm⟩ := hpass principal hresult
    cases ha : handler.action principal.userId with
    | none =>
      refine .inl ?_
      simp only [hresult, ha, Option.elim_none]
    | some a =>
      refine .inr ⟨principal, a, hid, hperm, ha, ?_⟩
      simp only [hresult, ha, Option.elim_some]

theorem serve_call_none {req : HttpRequest} {verifiedAt limitedAt : ℚ≥0} (hroute : route req = none) :
    p.serve lib route (.call req verifiedAt limitedAt) = p := by
  simp only [Platform.serve, hroute]

theorem serve_call_some {req : HttpRequest} {verifiedAt limitedAt : ℚ≥0} {handler : Handler}
    (hroute : route req = some handler) :
    p.serve lib route (.call req verifiedAt limitedAt) = p.handle lib handler req verifiedAt limitedAt := by
  simp only [Platform.serve, hroute]

/-- **What a request of the panel does to the store.** -/
inductive Performed (m : Markets) : PanelAction → Store → Prop
  | kept (action : PanelAction) : Performed m action m.bank.store
  | adjusted (key : BalanceKey) (delta : ℚ) (reason : String) :
      Performed m (.adjustBalance key delta reason) (m.bank.act (.adjust key delta reason)).store
  | created (req : PairCreateRequest) (new : m.bank.store.pg.tradingPairs req.symbol = none) :
      Performed m (.createTradingPair req) (m.bank.store.setPair req.symbol req.pair)
  | toggled (pairId : ℕ) (isActive : Bool) (symbol : Symbol) (pair : TradingPair)
      (found : m.symbolOf pairId = some symbol) (listed : m.bank.store.pg.tradingPairs symbol = some pair) :
      Performed m (.togglePairActive pairId isActive)
        (m.bank.store.setPair symbol { pair with isActive := isActive })

theorem performed (m : Markets) (action : PanelAction) : Performed m action (action.perform m).bank.store := by
  cases action with
  | adjustBalance key delta reason => exact .adjusted key delta reason
  | createTradingPair req =>
    show Performed m _ (Exchange.createTradingPair req m).2.bank.store
    rcases Exchange.createTradingPair_cases req m with ⟨hnew, hx⟩ | hx <;> rw [hx]
    · exact .created req hnew
    · exact .kept _
  | togglePairActive pairId isActive =>
    show Performed m _ (Exchange.togglePairActive pairId isActive m).2.bank.store
    rcases Exchange.togglePairActive_cases pairId isActive m with ⟨symbol, pair, hfound, hpair, hx⟩ | hx <;> rw [hx]
    · exact .toggled pairId isActive symbol pair hfound hpair
    · exact .kept _

theorem serve_panel_cases (lib : Crypto) (route : HttpRequest → Option Handler) (p : Platform) (now : ℚ≥0)
    (authorization : Option String) (action : PanelAction) :
    (∃ admin, (authenticateAdmin lib now authorization p.trail.gate).1 = .ok admin ∧
      p.serve lib route (.panel now authorization action) = { p with toMarkets := action.perform p.toMarkets }) ∨
    p.serve lib route (.panel now authorization action) = p := by
  cases hadmin : (authenticateAdmin lib now authorization p.trail.gate).1 with
  | ok admin => exact .inl ⟨admin, rfl, by simp only [Platform.serve, hadmin]⟩
  | error e => exact .inr (by simp only [Platform.serve, hadmin])

/-- **Every turn keeps the platform sound.** -/
theorem Sound.serve (h : Sound lib p) (turn : Turn) : Sound lib (p.serve lib route turn) := by
  cases turn with
  | auth req => exact ⟨h.toHealthy.setUsers _, h.tracks.serve req⟩
  | call req verifiedAt limitedAt =>
    cases hroute : route req with
    | none =>
      rw [serve_call_none hroute]
      exact h
    | some handler =>
      rw [serve_call_some hroute]
      obtain ⟨limits, htrail, hbank⟩ := handle_cases lib p handler req verifiedAt limitedAt
      have htracks : Tracks lib (p.handle lib handler req verifiedAt limitedAt).trail := by
        rw [htrail]
        exact h.tracks.limits limits
      rcases hbank with hbank | ⟨principal, a, -, -, -, hbank⟩
      · exact ⟨by rw [hbank]; exact h.toHealthy, htracks⟩
      · exact ⟨by rw [hbank]; exact h.toHealthy.act a, htracks⟩
  | panel now authorization action =>
    rcases serve_panel_cases lib route p now authorization action with ⟨admin, -, hx⟩ | hx <;> rw [hx]
    · refine ⟨?_, h.tracks⟩
      show Healthy (action.perform p.toMarkets).bank.store
      generalize hs : (action.perform p.toMarkets).bank.store = s'
      have hperformed := performed p.toMarkets action
      rw [hs] at hperformed
      cases hperformed with
      | kept => exact h.toHealthy
      | adjusted key delta reason => exact h.toHealthy.act _
      | created req new => exact h.toHealthy.setPair req.symbol req.pair
      | toggled pairId isActive symbol pair found listed => exact h.toHealthy.setPair symbol _
    · exact h
  | background req => exact ⟨h.toHealthy.act _, h.tracks⟩

theorem Sound.serveAll (h : Sound lib p) (turns : List Turn) : Sound lib (p.serveAll lib route turns) :=
  Run.invariant (fun _ turn h => h.serve turn) h turns

theorem sound_start (lib : Crypto) (seed : Seed) (stock : Stock) : Sound lib (Platform.start seed stock) :=
  ⟨Exchange.healthy_start _ stock.pairs stock.balances_ok, tracks_seed lib seed⟩

/-- **What a user has stays in a turn, unless the turn is allowed to change it.** -/
theorem allowed_or_kept (route : HttpRequest → Option Handler) (h : Sound lib p) (userId : UserId) (turn : Turn) :
    Allowed lib userId p turn ∨ KeptAmounts userId p.bank.store (p.serve lib route turn).bank.store := by
  have hsame : KeptAmounts userId p.bank.store p.bank.store := refl_of (KeptAmounts userId) p.bank.store
  cases turn with
  | auth req => exact .inr fun _ row hrow => ⟨row, hrow, rfl⟩
  | call req verifiedAt limitedAt =>
    cases hroute : route req with
    | none =>
      rw [serve_call_none hroute]
      exact .inr hsame
    | some handler =>
      rw [serve_call_some hroute]
      obtain ⟨-, -, hbank | ⟨principal, a, hid, hperm, ha, hbank⟩⟩ :=
        handle_cases lib p handler req verifiedAt limitedAt
      · rw [hbank]
        exact .inr hsame
      · by_cases hown : principal.userId = userId
        · -- the caller is known by the secret that was told
          obtain ⟨-, secret, timestamp, body, htold, hsigned⟩ := h.tracks.identify_iff.mp hid
          have htrade : handler.permission = "trade" := by
            cases handler with
            | idle permission => exact nomatch ha
            | _ => rfl
          rw [hown] at htold
          rw [htrade] at hperm
          exact .inl (.signed req verifiedAt limitedAt principal.apiKey secret principal.permissions htold hperm
            timestamp body hsigned)
        · rw [hbank]
          exact .inr (kept_action h.toHealthy hown ha).amounts
  | panel now authorization action =>
    rcases serve_panel_cases lib route p now authorization action with ⟨admin, hadmin, hx⟩ | hx <;> rw [hx]
    swap
    · exact .inr hsame
    show _ ∨ KeptAmounts userId p.bank.store (action.perform p.toMarkets).bank.store
    generalize hs : (action.perform p.toMarkets).bank.store = s'
    have hperformed := performed p.toMarkets action
    rw [hs] at hperformed
    cases hperformed with
    | adjusted key delta reason =>
      obtain ⟨owner, asset⟩ := key
      by_cases hown : owner = userId
      · subst hown
        exact .inl (.adjusted now authorization asset delta reason admin hadmin)
      · exact .inr ((Exchange.adjust_quiet userId p.bank (owner, asset) delta reason).2 hown).amounts
    | _ => exact .inr hsame
  | background req =>
    exact (Exchange.caused_or_kept h.orderly h.recorded userId req.1).imp (.caused req) id

/-! ### Users who stay away -/

/-- **A turn from outside** gives a user without orders none, and changes nothing of what the user has. -/
theorem outside_serve (route : HttpRequest → Option Handler) (h : Sound lib p)
    (hnone : OriginsIn (fun owner _ => owner ≠ userId) p.bank.store)
    {turn : Turn} (hout : Outside lib userId p turn) :
    OriginsIn (fun owner _ => owner ≠ userId) (p.serve lib route turn).bank.store ∧
      KeptAmounts userId p.bank.store (p.serve lib route turn).bank.store := by
  have hkept := allowed_or_kept route h userId turn
  cases turn with
  | auth req => exact ⟨hnone, fun _ row hrow => ⟨row, hrow, rfl⟩⟩
  | call req verifiedAt limitedAt =>
    refine ⟨?_, hkept.resolve_left fun hallowed => ?_⟩
    · cases hroute : route req with
      | none =>
        rw [serve_call_none hroute]
        exact hnone
      | some handler =>
        rw [serve_call_some hroute]
        obtain ⟨-, -, hbank | ⟨principal, a, hid, hperm, ha, hbank⟩⟩ :=
          handle_cases lib p handler req verifiedAt limitedAt
        · rw [hbank]
          exact hnone
        · rw [hbank]
          refine stranger_action h.toHealthy (fun hown => ?_) hnone ha
          obtain ⟨-, secret, timestamp, body, htold, hsigned⟩ := h.tracks.identify_iff.mp hid
          have htrade : handler.permission = "trade" := by
            cases handler with
            | idle permission => exact nomatch ha
            | _ => rfl
          rw [hown] at htold
          rw [htrade] at hperm
          exact hout principal.apiKey secret principal.permissions timestamp body htold hperm hsigned
    · cases hallowed with
      | signed _ _ _ apiKey secret permissions htold htrade timestamp body hsigned =>
        exact hout apiKey secret permissions timestamp body htold htrade hsigned
  | panel now authorization action =>
    have hsame : KeptAmounts userId p.bank.store p.bank.store := refl_of (KeptAmounts userId) p.bank.store
    rcases serve_panel_cases lib route p now authorization action with ⟨admin, hadmin, hx⟩ | hx <;> rw [hx]
    swap
    · exact ⟨hnone, hsame⟩
    show OriginsIn _ (action.perform p.toMarkets).bank.store ∧
      KeptAmounts userId p.bank.store (action.perform p.toMarkets).bank.store
    generalize hs : (action.perform p.toMarkets).bank.store = s'
    have hperformed := performed p.toMarkets action
    rw [hs] at hperformed
    cases hperformed with
    | adjusted key delta reason =>
      have hother : key.1 ≠ userId := fun hown => hout hown admin hadmin
      obtain ⟨⟨balances, updates, hstore⟩, hkept⟩ := Exchange.adjust_quiet userId p.bank key delta reason
      refine ⟨?_, (hkept hother).amounts⟩
      rw [hstore]
      exact hnone
    | _ => exact ⟨hnone, hsame⟩
  | background req =>
    have hcaller : req.1.caller ≠ some userId := by
      rw [req.2]
      exact nofun
    exact Exchange.bystander_serve h.orderly h.recorded hnone hcaller

end

/-! ### Runs -/

/-- **What a user has changes only if a turn is allowed to change it**, in whatever order logins, key creations,
    revocations, calls, adjustments and background tasks have come before: the call is signed in time with the
    secret for trading that was told last for a key of the user's, or an admin adjusts it, or an order of the
    user's is triggered, taken up or made with. -/
theorem run_allowed (lib : Crypto) (route : HttpRequest → Option Handler) (seed : Seed) (stock : Stock)
    (turns : List Turn) (userId : UserId) (turn : Turn) :
    Allowed lib userId ((Platform.start seed stock).serveAll lib route turns) turn ∨
      KeptAmounts userId ((Platform.start seed stock).serveAll lib route turns).bank.store
        (((Platform.start seed stock).serveAll lib route turns).serve lib route turn).bank.store :=
  allowed_or_kept route ((sound_start lib seed stock).serveAll turns) userId turn

/-- Whatever is sent to `/api/v1/orders` asks for four units at ten. -/
def sellsFour (req : HttpRequest) : Option Handler :=
  if req.path = "/api/v1/orders" then some (.placeOrder (Exchange.limitDto .sell 4 10)) else none

/-- The request that Ada signs. -/
def adasOrder : HttpRequest :=
  clientRequest transparent adasKey.text adasSecret.text "POST" "/api/v1/orders" "" "" 2000

/-- She logs in, places an order and waits for the worker. -/
def adasTurns : List Turn := adasLogin.map .auth ++ [.call adasOrder 2010 2010, .background ⟨.work, rfl⟩]

/-- A market in which two users have a thousand of everything. -/
def twoUsersStock : Stock where
  pairs := Exchange.twoUsers.pg.tradingPairs
  symbolOf := fun id => if id = 1 then some "BTC/USDT" else none
  pairIdSeq := 2
  balances := Exchange.twoUsers.pg.balances
  balances_ok := Exchange.rowsOk_twoUsers

/-- **Who stays away keeps everything**: along a run of turns from outside, whatever the others are told, sign
    and trade, nothing that the user has changes. -/
theorem run_outside (lib : Crypto) (route : HttpRequest → Option Handler) (seed : Seed) (stock : Stock)
    {turns : List Turn} {userId : UserId}
    (hout : Run.Along (Platform.serve lib route) (Outside lib userId) (Platform.start seed stock) turns) :
    KeptAmounts userId (Platform.start seed stock).bank.store
      ((Platform.start seed stock).serveAll lib route turns).bank.store := by
  let p₀ := Platform.start seed stock
  have hnone₀ : OriginsIn (fun owner _ => owner ≠ userId) p₀.bank.store := by
    rintro _ _ ⟨⟩
  have hrun := hout.invariant (I := fun p => Sound lib p ∧
      OriginsIn (fun owner _ => owner ≠ userId) p.bank.store ∧ KeptAmounts userId p₀.bank.store p.bank.store)
    (fun p turn hI hC => by
      obtain ⟨hsound, hnone, hkept⟩ := hI
      obtain ⟨hnone', hkept'⟩ := outside_serve route hsound hnone hC
      exact ⟨hsound.serve turn, hnone', trans_of (KeptAmounts userId) hkept hkept'⟩)
    ⟨sound_start lib seed stock, hnone₀, refl_of (KeptAmounts userId) p₀.bank.store⟩
  exact hrun.2.2

theorem handed_of_current {log : List Event} {apiKey : String} {h : Handout}
    (hcurrent : Trail.current log apiKey = some h) : .handed h ∈ log := by
  unfold Trail.current at hcurrent
  split_ifs at hcurrent
  exact (Trail.mem_handouts.mp (List.mem_of_getLast? hcurrent)).1

/-- What has been told when Ada has logged in. -/
theorem adasLogin_log :
    ((Platform.start adasSeed twoUsersStock).serveAll transparent sellsFour (adasLogin.map .auth)).trail.log
      = [.handed ⟨adasKey.text, 1, adasSecret.text, allPermissions⟩] := by
  decide +kernel

/-- The other user looks on. -/
theorem run_outside_ada :
    KeptAmounts 2 (Platform.start adasSeed twoUsersStock).bank.store
      ((Platform.start adasSeed twoUsersStock).serveAll transparent sellsFour adasTurns).bank.store := by
  have hout : Run.Along (Platform.serve transparent sellsFour) (Outside transparent 2)
      (Platform.start adasSeed twoUsersStock) adasTurns := by
    refine ⟨trivial, trivial, trivial, fun apiKey secret permissions _ _ htold _ _ => ?_, trivial, trivial⟩
    have hlog : Trail.current ((Platform.start adasSeed twoUsersStock).serveAll transparent sellsFour
        (adasLogin.map .auth)).trail.log apiKey = some ⟨apiKey, 2, secret, permissions⟩ := htold
    rw [adasLogin_log] at hlog
    exact nomatch List.mem_singleton.mp (handed_of_current hlog)
  exact run_outside transparent sellsFour adasSeed twoUsersStock hout

end SpotExchange.Api
