import SpotExchange.Exchange.Supplying

namespace SpotExchange.Exchange

open Relation
open SpotExchange.Lib
open SpotExchange.Engine (OrderId)

/-!
# Markets that are opened and halted

* `createTradingPair`, `togglePairActive` — what an admin does with markets;
* `Halted` — a market that is not active;
* `Inherited` — what is in a market descends, by replacements and triggered stops, from what was in it;
* `inherits_serve` — a request brings nothing else into a market that is halted.
-/

/-! ### The admin service -/

/-- `AdminTradingPairCreateRequest`, as it has been validated. -/
structure PairCreateRequest where
  symbol : Symbol
  baseAsset : Asset
  quoteAsset : Asset
  minLotSize : ℚ
  maxLotSize : ℚ
  tickSize : ℚ
  symbol_length : 3 ≤ symbol.length ∧ symbol.length ≤ 20
  minLotSize_pos : 0 < minLotSize
  maxLotSize_pos : 0 < maxLotSize
  tickSize_pos : 0 < tickSize

/-- The new row: an active pair. -/
def PairCreateRequest.pair (req : PairCreateRequest) : TradingPair where
  baseAsset := req.baseAsset
  quoteAsset := req.quoteAsset
  minLotSize := req.minLotSize
  maxLotSize := req.maxLotSize
  tickSize := req.tickSize
  isActive := true

/-- The exchange, and the ids of the rows of `trading_pairs`. -/
structure Markets where
  bank : Bank
  symbolOf : ℕ → Option Symbol
  pairIdSeq : ℕ

/-- What the market management raises. -/
inductive PairError
  /-- `ValueError(f"Trading pair {symbol!r} already exists")` -/
  | alreadyExists (symbol : Symbol)
  /-- `TradingPairNotFoundHTTPError(f"Trading pair {pair_id} not found")` -/
  | notFound (pairId : ℕ)
  deriving DecidableEq, Repr

/-- The store with a row of `trading_pairs` written. -/
def Store.setPair (s : Store) (symbol : Symbol) (pair : TradingPair) : Store :=
  { s with pg := { s.pg with tradingPairs := Function.update s.pg.tradingPairs symbol (some pair) } }

/-- A row of `trading_pairs` written. -/
def Markets.setPair (m : Markets) (symbol : Symbol) (pair : TradingPair) : Markets :=
  { m with bank := { m.bank with store := m.bank.store.setPair symbol pair } }

/-- **`create_trading_pair`**: the id of the new pair. -/
def createTradingPair (req : PairCreateRequest) : Prog Markets PairError ℕ := do
  match ← Prog.read fun m => m.bank.store.pg.tradingPairs req.symbol with
  | some _ => Prog.raise (.alreadyExists req.symbol)
  | none => do
      let id ← Prog.read fun m => m.pairIdSeq
      Prog.modify fun m =>
        { m.setPair req.symbol req.pair with
          symbolOf := Function.update m.symbolOf id (some req.symbol)
          pairIdSeq := id + 1 }
      return id

/-- **`toggle_pair_active`.** -/
def togglePairActive (pairId : ℕ) (isActive : Bool) : Prog Markets PairError TradingPair := do
  match ← Prog.read fun m => (m.symbolOf pairId).bind fun symbol =>
      (m.bank.store.pg.tradingPairs symbol).map fun pair => (symbol, pair) with
  | none => Prog.raise (.notFound pairId)
  | some (symbol, pair) => do
      let pair := { pair with isActive := isActive }
      Prog.modify fun m => m.setPair symbol pair
      return pair

/-- **What market management does to the table**: it adds an active pair, or turns one on or off. -/
theorem createTradingPair_cases (req : PairCreateRequest) (m : Markets) :
    (m.bank.store.pg.tradingPairs req.symbol = none ∧
      (createTradingPair req m).2.bank.store = m.bank.store.setPair req.symbol req.pair) ∨
    (createTradingPair req m).2 = m := by
  unfold createTradingPair
  cases hpair : m.bank.store.pg.tradingPairs req.symbol with
  | some pair =>
    have hread : (Prog.read fun m => m.bank.store.pg.tradingPairs req.symbol : Prog Markets PairError _) m
        = (.ok (some pair), m) := by
      rw [← hpair]
      rfl
    exact .inr (by rw [Prog.bind_of_ok hread]; rfl)
  | none =>
    have hread : (Prog.read fun m => m.bank.store.pg.tradingPairs req.symbol : Prog Markets PairError _) m
        = (.ok none, m) := by
      rw [← hpair]
      rfl
    refine .inl ⟨rfl, ?_⟩
    rw [Prog.bind_of_ok hread]
    rfl

theorem togglePairActive_cases (pairId : ℕ) (isActive : Bool) (m : Markets) :
    (∃ symbol pair, m.symbolOf pairId = some symbol ∧ m.bank.store.pg.tradingPairs symbol = some pair ∧
      (togglePairActive pairId isActive m).2 = m.setPair symbol { pair with isActive := isActive }) ∨
    (togglePairActive pairId isActive m).2 = m := by
  unfold togglePairActive
  cases hrow : (m.symbolOf pairId).bind fun symbol =>
      (m.bank.store.pg.tradingPairs symbol).map fun pair => (symbol, pair) with
  | none =>
    have hread : (Prog.read fun m => (m.symbolOf pairId).bind fun symbol =>
        (m.bank.store.pg.tradingPairs symbol).map fun pair => (symbol, pair) : Prog Markets PairError _) m
          = (.ok none, m) := by
      rw [← hrow]
      rfl
    exact .inr (by rw [Prog.bind_of_ok hread]; rfl)
  | some row =>
    have hread : (Prog.read fun m => (m.symbolOf pairId).bind fun symbol =>
        (m.bank.store.pg.tradingPairs symbol).map fun pair => (symbol, pair) : Prog Markets PairError _) m
          = (.ok (some row), m) := by
      rw [← hrow]
      rfl
    obtain ⟨symbol, hsymbol, hmap⟩ := Option.bind_eq_some_iff.mp hrow
    obtain ⟨pair, hpair, rfl⟩ := Option.map_eq_some_iff.mp hmap
    refine .inl ⟨symbol, pair, hsymbol, hpair, ?_⟩
    rw [Prog.bind_of_ok hread]
    rfl

/-! ### Descent -/

/-- Order `b` has come from order `a`: it replaces it, or is its child. -/
def Store.Descends (s : Store) (b a : OrderId) : Prop :=
  ∃ o, s.pg.orders b = some o ∧ (o.replacesId = some a ∨ o.parentOrderId = some a)

/-- What of an order tells where it has come from. -/
def Order.links (o : Order) : UserId × Symbol × Option OrderId × Option OrderId :=
  (o.userId, o.symbol, o.replacesId, o.parentOrderId)

/-- The market is not active. -/
def Halted (symbol : Symbol) (s : Store) : Prop :=
  ∀ pair, s.pg.tradingPairs symbol = some pair → pair.isActive = false

/-- **What is in the market has come from what was in it**: from an order of the same user. -/
structure Inherited (symbol : Symbol) (s s' : Store) : Prop where
  ids : IdsBelow s'
  stays : ∀ id o, s.pg.orders id = some o → ∃ o', s'.pg.orders id = some o' ∧ o'.links = o.links
  heirs : ∀ id o', s'.pg.orders id = some o' → o'.symbol = symbol → ∃ a o, s.pg.orders a = some o ∧
    o.userId = o'.userId ∧ o.symbol = symbol ∧ ReflTransGen s'.Descends id a

def Inherits (symbol : Symbol) (s s' : Store) : Prop := IdsBelow s → Inherited symbol s s'

section

variable {symbol : Symbol} {s s' s'' : Store} {id : OrderId} {o : Order} {req : Request}

theorem Order.links_eq {o' : Order} (h : o'.links = o.links) : o'.userId = o.userId ∧ o'.symbol = o.symbol ∧
    o'.replacesId = o.replacesId ∧ o'.parentOrderId = o.parentOrderId := by
  simpa [Order.links] using h

/-- Links stay, and with them the descent. -/
theorem Inherited.descends (h : Inherited symbol s s') {b a : OrderId} (hdesc : s.Descends b a) :
    s'.Descends b a := by
  obtain ⟨o, ho, hlink⟩ := hdesc
  obtain ⟨o', ho', hlinks⟩ := h.stays b o ho
  obtain ⟨-, -, hreplaces, hparent⟩ := Order.links_eq hlinks
  rw [← hreplaces, ← hparent] at hlink
  exact ⟨o', ho', hlink⟩

theorem Inherited.refl (h : IdsBelow s) : Inherited symbol s s :=
  ⟨h, fun _ o ho => ⟨o, ho, rfl⟩, fun id o ho hsymbol => ⟨id, o, ho, rfl, hsymbol, .refl⟩⟩

theorem Inherited.trans (h : Inherited symbol s s') (h' : Inherited symbol s' s'') : Inherited symbol s s'' where
  ids := h'.ids
  stays := by
    intro id o ho
    obtain ⟨o', ho', hlinks⟩ := h.stays id o ho
    obtain ⟨o'', ho'', hlinks'⟩ := h'.stays id o' ho'
    exact ⟨o'', ho'', hlinks'.trans hlinks⟩
  heirs := by
    intro id o'' ho'' hsymbol
    obtain ⟨b, o', ho', huser', hsymbol', hdesc'⟩ := h'.heirs id o'' ho'' hsymbol
    obtain ⟨a, o, ho, huser, hsymbol, hdesc⟩ := h.heirs b o' ho' hsymbol'
    refine ⟨a, o, ho, huser.trans huser', hsymbol, hdesc'.trans ?_⟩
    exact ReflTransGen.mono (fun _ _ hstep => h'.descends hstep) _ _ hdesc

instance (symbol : Symbol) : IsPreorder Store (Inherits symbol) where
  refl _ h := .refl h
  trans _ _ _ h h' hids := (h hids).trans (h' (h hids).ids)

/-! ### Steps -/

/-- The rows keep their links. -/
theorem inherits_of_links (hseq : s.orderIdSeq ≤ s'.orderIdSeq)
    (hlinks : ∀ id, (s'.pg.orders id).map Order.links = (s.pg.orders id).map Order.links) :
    Inherits symbol s s' := by
  intro hids
  have hback : ∀ id o', s'.pg.orders id = some o' → ∃ o, s.pg.orders id = some o ∧ o'.links = o.links := by
    intro id o' ho'
    have h := hlinks id
    rw [ho', Option.map_some] at h
    obtain ⟨o, ho, heq⟩ := Option.map_eq_some_iff.mp h.symm
    exact ⟨o, ho, heq.symm⟩
  refine ⟨fun id hne => ?_, fun id o ho => ?_, fun id o' ho' hsymbol => ?_⟩
  · obtain ⟨o', ho'⟩ := Option.ne_none_iff_exists'.mp hne
    obtain ⟨o, ho, -⟩ := hback id o' ho'
    exact (hids id (by rw [ho]; simp)).trans_le hseq
  · have h := hlinks id
    rw [ho, Option.map_some] at h
    obtain ⟨o', ho', heq⟩ := Option.map_eq_some_iff.mp h
    exact ⟨o', ho', heq⟩
  · obtain ⟨o, ho, heq⟩ := hback id o' ho'
    obtain ⟨huser, hsame, -, -⟩ := Order.links_eq heq
    exact ⟨id, o, ho, huser.symm, hsame.symm.trans hsymbol, .refl⟩

theorem inherits_of_orders (hseq : s'.orderIdSeq = s.orderIdSeq) (horders : s'.pg.orders = s.pg.orders) :
    Inherits symbol s s' :=
  inherits_of_links hseq.ge fun id => by rw [horders]

theorem inherits_putOrder {o' : Order} (ho : s.pg.orders id = some o) (hlinks : o'.links = o.links) :
    Inherits symbol s (s.putOrder id o') := by
  refine inherits_of_links le_rfl fun k => ?_
  show (Function.update s.pg.orders id (some o') k).map Order.links = _
  by_cases hk : k = id
  · subst hk
    rw [Function.update_self, ho, Option.map_some, Option.map_some, hlinks]
  · rw [Function.update_of_ne hk]

/-- **A new order**, of another market or from an order of the same user in it. -/
theorem inherits_insert (h : o.symbol = symbol → ∃ a x, s.pg.orders a = some x ∧ x.userId = o.userId ∧
    x.symbol = symbol ∧ (o.replacesId = some a ∨ o.parentOrderId = some a)) : Inherits symbol s (s.insert o) := by
  intro hids
  have hne : ∀ k x, s.pg.orders k = some x → k ≠ s.orderIdSeq := fun k x hx => (hids k (by rw [hx]; simp)).ne
  have hrow : ∀ k, (s.insert o).pg.orders k = if k = s.orderIdSeq then some o else s.pg.orders k :=
    fun k => Function.update_apply ..
  refine ⟨fun k hk => ?_, fun k x hx => ⟨x, ?_, rfl⟩, fun k x hx hsymbol => ?_⟩
  · show k < s.orderIdSeq + 1
    rw [hrow] at hk
    split_ifs at hk with heq
    · exact heq ▸ Nat.lt_succ_self _
    · exact (hids k hk).trans (Nat.lt_succ_self _)
  · rw [hrow, if_neg (hne k x hx)]
    exact hx
  · by_cases heq : k = s.orderIdSeq
    · have hnew : (s.insert o).pg.orders k = some o := (hrow k).trans (if_pos heq)
      obtain rfl := Option.some.inj (hx.symm.trans hnew)
      obtain ⟨a, y, hy, huser, hmarket, hlink⟩ := h hsymbol
      exact ⟨a, y, hy, huser, hmarket, .single ⟨_, hx, hlink⟩⟩
    · rw [hrow, if_neg heq] at hx
      exact ⟨k, x, hx, rfl, hsymbol, .refl⟩

theorem inherits_quiet (h : Quiet s s') : Inherits symbol s s' := by
  obtain ⟨balances, updates, rfl⟩ := h
  exact inherits_of_orders rfl rfl

/-- A child of an order of another market. -/
theorem inherits_addChild {parentId : OrderId} {parent : Order} (config : Option SltpConfig)
    {link : OrderId → Order → Order} (hlink : ∀ childId o, (link childId o).links = o.links)
    (hother : parent.symbol ≠ symbol) : Inherits symbol s (s.addChild parentId parent config link) := by
  cases config with
  | none => exact refl_of (Inherits symbol) s
  | some config =>
    let t := s.insert (sltpChild parentId parent config)
    have hinsert : Inherits symbol s t := inherits_insert fun hsymbol => absurd hsymbol hother
    refine trans_of (Inherits symbol) hinsert ?_
    show Inherits symbol t (t.mapOrder parentId (link s.orderIdSeq))
    unfold Store.mapOrder
    cases ho : t.pg.orders parentId with
    | none => exact inherits_of_orders rfl rfl
    | some o => exact inherits_putOrder ho (hlink _ o)

/-- **A placement** in another market. -/
theorem inherits_placed {userId : UserId} {dto : OrderCreateDto} (hother : dto.symbol ≠ symbol) :
    Inherits symbol s (s.placed userId dto) := by
  have hparent : (newOrder userId dto).symbol ≠ symbol := hother
  have hinsert : Inherits symbol s (s.insert (newOrder userId dto)) :=
    inherits_insert fun hsymbol => absurd hsymbol hparent
  have hsl : ∀ childId (o : Order), ({ o with slOrderId := some childId } : Order).links = o.links :=
    fun _ _ => rfl
  have htp : ∀ childId (o : Order), ({ o with tpOrderId := some childId } : Order).links = o.links :=
    fun _ _ => rfl
  have hinserted : Inherits symbol s (s.inserted userId dto) :=
    trans_of (Inherits symbol) (trans_of (Inherits symbol) hinsert (inherits_addChild dto.sl hsl hparent))
      (inherits_addChild dto.tp htp hparent)
  refine trans_of (Inherits symbol) hinserted ?_
  exact inherits_of_orders rfl rfl

/-- **A cancellation.** -/
theorem inherits_cancel (ho : s.pg.orders id = some o) : Inherits symbol s (s.cancel id o) := by
  refine inherits_of_links le_rfl fun k => ?_
  show ((Function.update s.pg.orders id (some o.canceled) k).map (Order.orphaned id)).map Order.links = _
  have horphaned : ∀ x : Order, (x.orphaned id).links = x.links := by
    intro x
    unfold Order.orphaned
    split_ifs <;> rfl
  rw [Option.map_map, show Order.links ∘ Order.orphaned id = Order.links from funext horphaned]
  by_cases hk : k = id
  · subst hk
    rw [Function.update_self, ho]
    rfl
  · rw [Function.update_of_ne hk]

/-- **A replacement** comes from what it replaces. -/
theorem inherits_replace (hids : IdsBelow s) (ho : s.pg.orders id = some o) (newPrice newQuantity : ℚ) :
    Inherits symbol s (s.replace id o newPrice newQuantity) := by
  have hne : id ≠ s.orderIdSeq := (hids id (by rw [ho]; simp)).ne
  let t := s.putOrder id o.canceled
  have ht : t.pg.orders id = some o.canceled := Function.update_self ..
  have hinsert : Inherits symbol t (t.insert (replacement id o newPrice newQuantity)) :=
    inherits_insert fun hsymbol => ⟨id, o.canceled, ht, rfl, hsymbol, .inl rfl⟩
  have hrow : (t.insert (replacement id o newPrice newQuantity)).pg.orders id = some o.canceled := by
    show Function.update t.pg.orders s.orderIdSeq _ id = _
    rw [Function.update_of_ne hne]
    exact ht
  have hcanceled : Inherits symbol s t := inherits_putOrder ho rfl
  have hlinked : Inherits symbol (t.insert (replacement id o newPrice newQuantity))
      ((t.insert (replacement id o newPrice newQuantity)).putOrder id (o.replacedBy s.orderIdSeq)) :=
    inherits_putOrder hrow rfl
  refine trans_of (Inherits symbol) (trans_of (Inherits symbol) (trans_of (Inherits symbol) hcanceled hinsert)
    hlinked) ?_
  exact inherits_of_orders rfl rfl

/-- **A triggered stop** becomes its child. -/
theorem inherits_monitor : MonitorSteps (Inherits symbol) where
  quiet := inherits_quiet
  triggered := by
    intro s id order lock isTrailing ho _
    let filled : Order := { order with status := .filled, version := order.version + 1 }
    let t := s.moveBalance (order.userId, lock.1) (lockedRow (s.rowOrZero (order.userId, lock.1)) lock.2)
      (lockUpdate (order.userId, lock.1) (-lock.2) .stopTriggered (some id))
    have hput : (t.putOrder id filled).pg.orders id = some filled := Function.update_self ..
    have hinsert : Inherits symbol (t.putOrder id filled)
        ((t.putOrder id filled).insert (triggeredChild id order)) :=
      inherits_insert fun hsymbol => ⟨id, filled, hput, rfl, hsymbol, .inr rfl⟩
    have hfilled : Inherits symbol t (t.putOrder id filled) := inherits_putOrder (o := order) ho rfl
    have hlocked : Inherits symbol s t := inherits_quiet (quiet_moveBalance s _ _ _)
    refine trans_of (Inherits symbol) (trans_of (Inherits symbol) (trans_of (Inherits symbol) hlocked hfilled)
      hinsert) ?_
    exact inherits_of_orders rfl rfl

/-- **A round of the worker** inserts nothing. -/
theorem inherits_work : WorkSteps (Inherits symbol) where
  queue := fun _ _ => inherits_of_orders rfl rfl
  engine := fun _ _ => inherits_of_orders rfl rfl
  fill := fun _ _ =>
    { trade := fun _ _ _ => inherits_of_orders rfl rfl
      makerUser := fun _ _ _ _ => inherits_of_orders rfl rfl
      balance := fun _ _ _ _ => inherits_of_orders rfl rfl
      maker := fun _ _ _ _ ho => inherits_putOrder ho rfl
      redisMaker := fun _ _ _ _ _ => inherits_of_orders rfl rfl
      taker := fun _ _ ho => inherits_putOrder ho rfl }
  child := by
    intro parentId s id child ho _
    have hput : Inherits symbol s (s.putOrder id { child with status := .new, version := child.version + 1 }) :=
      inherits_putOrder ho rfl
    refine trans_of (Inherits symbol) hput ?_
    exact inherits_of_orders rfl rfl
  undo := by
    intro s s' h hids
    have h := h hids
    refine ⟨fun id hne => ?_, fun id o ho => ⟨o, ho, rfl⟩, fun id o ho hsymbol => ⟨id, o, ho, rfl, hsymbol, .refl⟩⟩
    obtain ⟨o, ho⟩ := Option.ne_none_iff_exists'.mp hne
    obtain ⟨o', ho', -⟩ := h.stays id o ho
    exact h.ids id (by rw [ho']; simp)
  refunded := fun _ _ _ _ => inherits_of_orders rfl rfl
  unscored := fun _ _ _ => inherits_of_orders rfl rfl
  rested := fun _ _ _ _ => inherits_of_orders rfl rfl

/-! ### Requests -/

/-- **What asks for an order of a halted market** changes no order. -/
theorem serve_halted (hhalted : Halted symbol s) {userId : UserId} {dto : OrderCreateDto}
    (hasks : req.Asks userId dto) (hsymbol : dto.symbol = symbol) : Quiet s (s.serve req) := by
  have hrefused : ∀ pair lock, ¬ Accepted s dto pair lock := by
    intro pair lock haccepted
    have hactive := hhalted pair (hsymbol ▸ haccepted.listed)
    exact absurd (haccepted.active.symm.trans hactive) (by decide)
  cases req with
  | place other dto' =>
    obtain ⟨rfl, rfl⟩ := hasks
    rcases serve_place_cases s other dto' with ⟨pair, lock, haccepted, -, -⟩ | ⟨hquiet, -⟩
    · exact absurd haccepted (hrefused pair lock)
    · exact hquiet
  | placeBulk other dtos =>
    obtain ⟨-, hmem⟩ := hasks
    rcases serve_placeBulk s other dtos with ⟨validated, hmap, hall, -⟩ | hquiet
    · rw [← hmap] at hmem
      obtain ⟨v, hv, rfl⟩ := List.mem_map.mp hmem
      obtain ⟨pair, haccepted⟩ := hall v hv
      exact absurd haccepted (hrefused pair v.2)
    · exact hquiet
  | _ => exact hasks.elim

/-- **A request brings nothing into a halted market** but what comes from what is there. -/
theorem inherits_serve (hcons : Consistent s) (hhalted : Halted symbol s) (req : Request) :
    Inherited symbol s (s.serve req) := by
  by_cases hasks : ∃ userId dto, req.Asks userId dto ∧ dto.symbol = symbol
  · obtain ⟨userId, dto, hasks, hsymbol⟩ := hasks
    exact inherits_quiet (serve_halted hhalted hasks hsymbol) hcons.ids
  · have hcalls : CallSteps (Inherits symbol) req :=
      { quiet := inherits_quiet
        placed := fun s userId dto _ hreq _ _ => inherits_placed fun hsymbol => hasks ⟨userId, dto, hreq, hsymbol⟩
        canceled := fun _ _ _ _ _ _ ho _ _ => inherits_cancel ho
        replaced := fun _ _ _ _ p q _ _ hids ho _ _ _ _ _ _ _ => inherits_replace hids ho p q }
    exact serve_moves hcalls inherits_monitor (fun _ _ _ => inherits_of_orders rfl rfl)
      (fun _ => inherits_work.serve hcons.engine) hcons.ids hcons.ids

end

end SpotExchange.Exchange
