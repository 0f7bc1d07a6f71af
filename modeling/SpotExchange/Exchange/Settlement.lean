import SpotExchange.Exchange.Shifts

namespace SpotExchange.Exchange

open SpotExchange.Lib
open SpotExchange.Engine (OrderId)
open SpotExchange.Ledger (BalanceKey Row Op)

/-!
# The steps of a batch

* `FillSteps`, `ChildSteps` — the steps that `persist_trade_batch` is made of.  A relation that is
  reflexive, transitive and holds across each of them holds across a batch;
* `persistTradeBatch_moves` — that rule for batches that commit;
* `persistTradeBatch_moves_error` — and for batches that raise: no child has been activated then;
* `Store.setting` — what no batch changes.
-/

/-! ### The steps -/

/-- A trade inserted. -/
def Store.addTrade (s : Store) (t : Trade) : Store :=
  { s with pg := { s.pg with trades := s.pg.trades ++ [t] }, tradeIdSeq := s.tradeIdSeq + 1 }

/-- The user of a maker written into the trades since `first`. -/
def Store.setMakerUser (s : Store) (first : ℕ) (makerId : OrderId) (userId : UserId) : Store :=
  { s with pg := { s.pg with trades := s.pg.trades.map fun t =>
      if first ≤ t.id ∧ t.makerOrderId = makerId then { t with makerUserId := userId } else t } }

/-- An order written. -/
def Store.putOrder (s : Store) (id : OrderId) (order : Order) : Store :=
  { s with pg := s.pg.setOrder id order }

@[simp] theorem putOrder_orders (s : Store) (id : OrderId) (order : Order) :
    (s.putOrder id order).pg.orders = Function.update s.pg.orders id (some order) := rfl

/-- Redis changed. -/
def Store.setRedis (s : Store) (f : Redis → Redis) : Store := { s with redis := f s.redis }

/-- A child activated. -/
def Store.activate (s : Store) (parentId childId : OrderId) (child : Order) : Store :=
  (s.putOrder childId { child with status := .new, version := child.version + 1 }).setRedis
    (enqueueOrderAction (childPayload parentId childId child))

/-- **The steps that may be followed by an exception.** -/
structure FillSteps (args : BatchArgs) (trades : List DomainTrade) (R : Store → Store → Prop) :
    Prop where
  trade : ∀ s, ∀ t ∈ trades, R s (s.addTrade (tradeRow args s.tradeIdSeq t))
  makerUser : ∀ s first makerId userId, R s (s.setMakerUser first makerId userId)
  balance : ∀ s key row (update : BalanceUpdate), R s (s.moveBalance key row update)
  maker : ∀ s, ∀ d ∈ makerFillDeltas trades, ∀ order, s.pg.orders d.makerId = some order →
    R s (s.putOrder d.makerId (order.filledAsMaker d.qty d.quoteQty))
  redisMaker : ∀ s, ∀ d ∈ makerFillDeltas trades, ∀ maker, s.pg.orders d.makerId = some maker →
    R s (s.setRedis (updateRedisMaker d.makerId maker))
  taker : ∀ s order, s.pg.orders args.takerOrderId = some order →
    R s (s.putOrder args.takerOrderId
      (order.filledAsTaker (takerTotalQty trades) (takerTotalQuote trades)))

/-- **The last steps**, which do not raise. -/
def ChildSteps (parentId : OrderId) (R : Store → Store → Prop) : Prop :=
  ∀ s id order, s.pg.orders id = some order → order.status = .pending →
    R s (s.activate parentId id order)

section

variable {R : Store → Store → Prop}

/-- What may raise in a pessimistic operation comes before the row is written. -/
theorem pessimistic_error {op : Op} {balance : BalanceKey} {amount : ℚ} {reason : BalanceReason}
    {orderId : Option OrderId} {s s' : Store} {err : PyError}
    (h : pessimistic op balance amount reason orderId s = (.error err, s')) : s' = s := by
  rcases Prog.bind_eq_error.mp h with hread | ⟨row?, s₁, hread, h⟩
  · exact absurd (congrArg Prod.fst hread) (by simp [getByUserAsset])
  obtain ⟨-, rfl⟩ : s.pg.balances balance = row? ∧ s = s₁ := by
    simpa [getByUserAsset] using hread
  cases row? with
  | none => exact (congrArg Prod.snd h).symm
  | some row =>
    rcases Prog.bind_eq_error.mp h with hop | ⟨row', s₁, -, h⟩
    · cases hr : (op.pessimistic balance row amount).mapError PyError.balance with
      | error err => rw [hr] at hop; exact (congrArg Prod.snd hop).symm
      | ok row' => rw [hr] at hop; exact absurd (congrArg Prod.fst hop) (by simp [Prog.ofExcept])
    · exact absurd (congrArg Prod.fst h) (by simp [onDatabase, publishBalanceUpdate, onRedis,
        Prog.bind_apply])

/-- A pessimistic operation moves a balance, or raises and moves nothing. -/
theorem pessimistic_moves [IsPreorder Store R] {op : Op} {balance : BalanceKey} {amount : ℚ}
    {reason : BalanceReason} {orderId : Option OrderId}
    (h : ∀ s key row (update : BalanceUpdate), update.reason = reason →
      R s (s.moveBalance key row update)) :
    Prog.Moves R (pessimistic op balance amount reason orderId) := by
  intro s
  rcases hx : pessimistic op balance amount reason orderId s with ⟨err | u, s'⟩
  · obtain rfl := pessimistic_error hx
    exact refl_of R s'
  · obtain ⟨row, row', -, -, rfl⟩ := pessimistic_eq_ok hx
    exact h _ _ _ _ rfl

theorem settleTradeBalances_moves [IsPreorder Store R]
    (h : ∀ s key row (update : BalanceUpdate), R s (s.moveBalance key row update)) (args : BatchArgs)
    (isTaker : Bool) (userId : UserId) (orderId : OrderId) (qty quoteQty : ℚ) :
    Prog.Moves R (settleTradeBalances args isTaker userId orderId qty quoteQty) := by
  have hparty : ∀ paid received paidAmount receivedAmount, Prog.Moves R
      (settleParty userId orderId paid received paidAmount receivedAmount) := by
    intro paid received paidAmount receivedAmount
    refine (Prog.moves_read _).bind fun _ => (Prog.moves_read _).bind fun _ => ?_
    exact Prog.Moves.bind (Prog.Moves.whenSome fun _ _ => pessimistic_moves fun s k r u _ => h s k r u)
      fun _ => Prog.Moves.whenSome fun _ _ => pessimistic_moves fun s k r u _ => h s k r u
  unfold settleTradeBalances
  split <;> exact hparty _ _ _ _

/-- Settlement of balances writes no orders. -/
private theorem settleTradeBalances_orders {args : BatchArgs} {isTaker : Bool} {userId : UserId}
    {orderId : OrderId} {qty quoteQty : ℚ} {s s' : Store} {u : Unit}
    (h : settleTradeBalances args isTaker userId orderId qty quoteQty s = (.ok u, s')) :
    s'.pg.orders = s.pg.orders :=
  (settleTradeBalances_moves (R := Prog.Keeps fun s => s.pg.orders) (fun _ _ _ _ => rfl) args
    isTaker userId orderId qty quoteQty).of_ok h

/-! ### Makers -/

variable {args : BatchArgs} {trades : List DomainTrade}

/-- A trade is inserted, if the rows that it refers to are there. -/
theorem insertTrade_moves [IsPreorder Store R] {t : DomainTrade}
    (h : ∀ s : Store, R s (s.addTrade (tradeRow args s.tradeIdSeq t))) : Prog.Moves R (insertTrade args t) :=
  (Prog.moves_read _).bind fun _ => (Prog.moves_require _ _).bind fun _ => Prog.moves_modify h

/-- **The trades are inserted**, one after the other. -/
theorem insertTrades_moves [IsPreorder Store R]
    (h : ∀ s : Store, ∀ t ∈ trades, R s (s.addTrade (tradeRow args s.tradeIdSeq t))) :
    Prog.Moves R (Prog.forEach trades (insertTrade args)) :=
  Prog.Moves.forEach fun t ht => insertTrade_moves fun s => h s t ht

theorem FillSteps.insertTrade [IsPreorder Store R] (h : FillSteps args trades R) {t : DomainTrade}
    (ht : t ∈ trades) : Prog.Moves R (insertTrade args t) :=
  insertTrade_moves fun s => h.trade s t ht

/-- The store in which a maker's balances are settled. -/
def Store.fillMaker (s : Store) (first : ℕ) (d : FillDelta) (order : Order) : Store :=
  (s.putOrder d.makerId (order.filledAsMaker d.qty d.quoteQty)).setMakerUser first d.makerId
    order.userId

/-- What remains to do for a maker once its row is written. -/
theorem settleMaker_apply {first : ℕ} {d : FillDelta} {s : Store} {order : Order}
    (h : s.pg.orders d.makerId = some order) :
    settleMaker args first d s =
      (settleTradeBalances args false order.userId d.makerId d.qty d.quoteQty >>= fun _ =>
        onRedis (updateRedisMaker d.makerId (order.filledAsMaker d.qty d.quoteQty)))
        (s.fillMaker first d order) := by
  have hread : getOrder d.makerId s = (.ok (some order), s) := by
    rw [← h]
    rfl
  rw [settleMaker, Prog.bind_of_ok hread]
  rfl

theorem settleMaker_none {first : ℕ} {d : FillDelta} {s : Store}
    (h : s.pg.orders d.makerId = none) : settleMaker args first d s = (.ok ⟨⟩, s) := by
  have hread : getOrder d.makerId s = (.ok none, s) := by
    rw [← h]
    rfl
  rw [settleMaker, Prog.bind_of_ok hread]
  rfl

theorem FillSteps.settleMaker [IsPreorder Store R] (h : FillSteps args trades R) {d : FillDelta}
    (hd : d ∈ makerFillDeltas trades) (first : ℕ) : Prog.Moves R (settleMaker args first d) := by
  intro s
  cases horder : s.pg.orders d.makerId with
  | none =>
    rw [settleMaker_none horder]
    exact refl_of R s
  | some order =>
    have hR : R s (s.fillMaker first d order) :=
      trans_of R (h.maker s d hd order horder) (h.makerUser _ _ _ _)
    rw [settleMaker_apply horder]
    rcases hb : settleTradeBalances args false order.userId d.makerId d.qty d.quoteQty
      (s.fillMaker first d order) with ⟨err | u, s₁⟩
    · rw [Prog.bind_of_error hb]
      exact trans_of R hR ((settleTradeBalances_moves h.balance _ _ _ _ _ _).of_error hb)
    · rw [Prog.bind_of_ok hb]
      refine trans_of R (trans_of R hR
        ((settleTradeBalances_moves h.balance _ _ _ _ _ _).of_ok hb)) (h.redisMaker _ d hd _ ?_)
      -- the row that Redis is updated from is the row that was written
      rw [settleTradeBalances_orders hb]
      exact Function.update_self ..

/-! ### The taker and its children -/

/-- A pending child is activated. -/
theorem activateChild_of_pending (parentId : OrderId) {childId : OrderId} {s : Store} {child : Order}
    (hchild : s.pg.orders childId = some child) (hpending : child.status = .pending) :
    activateChild parentId childId s = (.ok ⟨⟩, s.activate parentId childId child) := by
  have hread : getOrder childId s = (.ok (some child), s) := by
    rw [← hchild]
    rfl
  have hstatus : updateStatus childId .new s = (.ok ⟨⟩, s.putOrder childId
      { child with status := .new, version := child.version + 1 }) := by
    simp only [updateStatus, updateOrder, onDatabase, Prog.modify_apply, hchild]
    rfl
  rw [activateChild, Prog.bind_of_ok hread]
  show Prog.whenever (child.status = .pending) _ s = _
  rw [Prog.whenever, if_pos hpending, Prog.bind_of_ok hstatus]
  rfl

/-- Any other child stays as it is. -/
theorem activateChild_of_not (parentId : OrderId) {childId : OrderId} {s : Store}
    (h : ∀ child, s.pg.orders childId = some child → child.status ≠ .pending) :
    activateChild parentId childId s = (.ok ⟨⟩, s) := by
  cases hchild : s.pg.orders childId with
  | none =>
    have hread : getOrder childId s = (.ok none, s) := by
      rw [← hchild]
      rfl
    rw [activateChild, Prog.bind_of_ok hread]
    rfl
  | some child =>
    have hread : getOrder childId s = (.ok (some child), s) := by
      rw [← hchild]
      rfl
    rw [activateChild, Prog.bind_of_ok hread]
    show Prog.whenever (child.status = .pending) _ s = _
    rw [Prog.whenever, if_neg (h child hchild)]
    rfl

/-- Activating a child of a taker. -/
theorem activateChild_apply (parentId childId : OrderId) (s : Store) :
    activateChild parentId childId s = (.ok ⟨⟩, s) ∨
    ∃ child, s.pg.orders childId = some child ∧ child.status = .pending ∧
      activateChild parentId childId s = (.ok ⟨⟩, s.activate parentId childId child) := by
  by_cases h : ∃ child, s.pg.orders childId = some child ∧ child.status = .pending
  · obtain ⟨child, hchild, hpending⟩ := h
    exact .inr ⟨child, hchild, hpending, activateChild_of_pending parentId hchild hpending⟩
  · exact .inl (activateChild_of_not parentId fun child hchild hpending =>
      h ⟨child, hchild, hpending⟩)

/-- Activating the children does not raise. -/
theorem activateSltpChildren_total (parentId : OrderId) (s : Store) :
    ∃ s', activateSltpChildren parentId s = (.ok ⟨⟩, s') := by
  refine Prog.forEach_total (fun childId s => ?_) _ s
  rcases activateChild_apply parentId childId s with h | ⟨child, -, -, h⟩
  · exact ⟨_, h⟩
  · exact ⟨_, h⟩

theorem activateSltpChildren_moves [IsPreorder Store R] (parentId : OrderId)
    (h : ChildSteps parentId R) : Prog.Moves R (activateSltpChildren parentId) := by
  refine (Prog.moves_read _).bind fun _ => Prog.Moves.forEach fun childId _ s => ?_
  rcases activateChild_apply parentId childId s with hx | ⟨child, hchild, hp, hx⟩ <;> rw [hx]
  · exact refl_of R s
  · exact h s childId child hchild hp

/-- What remains to do for the taker once its row is written. -/
theorem settleTaker_apply {qty quoteQty : ℚ} {s : Store} {order : Order}
    (h : s.pg.orders args.takerOrderId = some order) :
    settleTaker args qty quoteQty s =
      (settleTradeBalances args true order.userId args.takerOrderId qty quoteQty >>= fun _ =>
        Prog.whenever ((order.filledAsTaker qty quoteQty).status = .filled)
          (activateSltpChildren args.takerOrderId))
        (s.putOrder args.takerOrderId (order.filledAsTaker qty quoteQty)) := by
  have hread : getOrder args.takerOrderId s = (.ok (some order), s) := by
    rw [← h]
    rfl
  rw [settleTaker, Prog.bind_of_ok hread]
  rfl

theorem settleTaker_none {qty quoteQty : ℚ} {s : Store}
    (h : s.pg.orders args.takerOrderId = none) : settleTaker args qty quoteQty s = (.ok ⟨⟩, s) := by
  have hread : getOrder args.takerOrderId s = (.ok none, s) := by
    rw [← h]
    rfl
  rw [settleTaker, Prog.bind_of_ok hread]
  rfl

/-- **The rule for the taker.** -/
theorem settleTaker_moves [IsPreorder Store R] {qty quoteQty : ℚ}
    (htaker : ∀ s order, s.pg.orders args.takerOrderId = some order →
      R s (s.putOrder args.takerOrderId (order.filledAsTaker qty quoteQty)))
    (hbalance : ∀ s key row (update : BalanceUpdate), R s (s.moveBalance key row update))
    (hchild : ChildSteps args.takerOrderId R) : Prog.Moves R (settleTaker args qty quoteQty) := by
  intro s
  cases horder : s.pg.orders args.takerOrderId with
  | none =>
    rw [settleTaker_none horder]
    exact refl_of R s
  | some order =>
    rw [settleTaker_apply horder]
    exact trans_of R (htaker s order horder)
      ((settleTradeBalances_moves hbalance _ _ _ _ _ _).bind (fun _ =>
        Prog.Moves.whenever fun _ => activateSltpChildren_moves _ hchild) _)

/-- A taker whose settlement raises has activated no children. -/
theorem FillSteps.settleTaker_error [IsPreorder Store R] (h : FillSteps args trades R) {s s' : Store}
    {err : PyError} (hx : Exchange.settleTaker args (takerTotalQty trades) (takerTotalQuote trades) s =
      (.error err, s')) : R s s' := by
  cases horder : s.pg.orders args.takerOrderId with
  | none =>
    rw [settleTaker_none horder] at hx
    exact absurd (congrArg Prod.fst hx) (by simp)
  | some order =>
    rw [settleTaker_apply horder] at hx
    refine trans_of R (h.taker s order horder) ?_
    rcases Prog.bind_eq_error.mp hx with hb | ⟨_, s₁, -, hx⟩
    · exact (settleTradeBalances_moves h.balance _ _ _ _ _ _).of_error hb
    · exfalso
      unfold Prog.whenever at hx
      split_ifs at hx
      · obtain ⟨s₂, hok⟩ := activateSltpChildren_total args.takerOrderId s₁
        rw [hok] at hx
        exact absurd (congrArg Prod.fst hx) (by simp)
      · exact absurd (congrArg Prod.fst hx) (by simp)

/-! ### The batch -/

theorem persistTradeBatch_eq_ok {rows : List Trade} {s s' : Store} (hne : trades ≠ [])
    (h : persistTradeBatch args trades s = (.ok rows, s')) :
    ∃ s₁ s₂, Prog.forEach trades (Exchange.insertTrade args) s = (.ok ⟨⟩, s₁) ∧
      Prog.forEach (makerFillDeltas trades) (Exchange.settleMaker args s.tradeIdSeq) s₁ =
        (.ok ⟨⟩, s₂) ∧
      Exchange.settleTaker args (takerTotalQty trades) (takerTotalQuote trades) s₂ = (.ok ⟨⟩, s') := by
  rw [persistTradeBatch, if_neg hne] at h
  obtain ⟨first, s₁, hread, h⟩ := Prog.bind_eq_ok.mp h
  obtain ⟨rfl, rfl⟩ : s.tradeIdSeq = first ∧ s = s₁ := by simpa using hread
  obtain ⟨_, s₁, hinsert, h⟩ := Prog.bind_eq_ok.mp h
  obtain ⟨_, s₂, hmakers, h⟩ := Prog.bind_eq_ok.mp h
  obtain ⟨_, s₃, htaker, h⟩ := Prog.bind_eq_ok.mp h
  obtain rfl : s₃ = s' := congrArg Prod.snd h
  exact ⟨s₁, s₂, hinsert, hmakers, htaker⟩

/-- A batch inserts trades, settles makers, and settles the taker. -/
theorem persistTradeBatch_moves_of [IsPreorder Store R]
    (hinsert : ∀ t ∈ trades, Prog.Moves R (Exchange.insertTrade args t))
    (hmaker : ∀ d ∈ makerFillDeltas trades, ∀ first, Prog.Moves R (Exchange.settleMaker args first d))
    (htaker : Prog.Moves R (Exchange.settleTaker args (takerTotalQty trades) (takerTotalQuote trades))) :
    Prog.Moves R (persistTradeBatch args trades) := by
  unfold persistTradeBatch
  refine Prog.Moves.ite (fun _ => Prog.moves_pure _) fun _ => (Prog.moves_read _).bind fun first => ?_
  refine (Prog.Moves.forEach hinsert).bind fun _ => ?_
  refine (Prog.Moves.forEach fun d hd => hmaker d hd first).bind fun _ => ?_
  exact htaker.bind fun _ => Prog.moves_read _

/-- **The rule for batches.** -/
theorem persistTradeBatch_moves [IsPreorder Store R] (h : FillSteps args trades R)
    (hchild : ChildSteps args.takerOrderId R) : Prog.Moves R (persistTradeBatch args trades) :=
  persistTradeBatch_moves_of (fun _ ht => h.insertTrade ht) (fun _ hd first => h.settleMaker hd first)
    (settleTaker_moves h.taker h.balance hchild)

/-- **The rule for batches that raise.** -/
theorem persistTradeBatch_moves_error [IsPreorder Store R] (h : FillSteps args trades R)
    {s s' : Store} {err : PyError} (hx : persistTradeBatch args trades s = (.error err, s')) :
    R s s' := by
  unfold persistTradeBatch at hx
  split_ifs at hx
  · exact absurd (congrArg Prod.fst hx) (by simp)
  rcases Prog.bind_eq_error.mp hx with hx | ⟨first, s₁, hread, hx⟩
  · exact absurd (congrArg Prod.fst hx) (by simp)
  obtain rfl : s = s₁ := congrArg Prod.snd hread
  have hinsert := Prog.Moves.forEach (R := R) fun t (ht : t ∈ trades) => h.insertTrade ht
  have hmakers := Prog.Moves.forEach (R := R) fun d (hd : d ∈ makerFillDeltas trades) =>
    h.settleMaker hd first
  rcases Prog.bind_eq_error.mp hx with hx | ⟨_, s₁, hok, hx⟩
  · exact hinsert.of_error hx
  refine trans_of R (hinsert.of_ok hok) ?_
  rcases Prog.bind_eq_error.mp hx with hx | ⟨_, s₂, hok, hx⟩
  · exact hmakers.of_error hx
  refine trans_of R (hmakers.of_ok hok) ?_
  rcases Prog.bind_eq_error.mp hx with hx | ⟨_, s₃, -, hx⟩
  · exact h.settleTaker_error hx
  · exact absurd (congrArg Prod.fst hx) (by simp)

end

/-! ### What a batch leaves alone -/

/-- What an order was placed with. -/
structure OrderTerms where
  userId : UserId
  symbol : Symbol
  side : OrderSide
  type : OrderType
  price : Option ℚ
  stopPrice : Option ℚ
  quantity : ℚ
  parentOrderId : Option OrderId
  deriving DecidableEq, Repr

/-- What an order was placed with. -/
def Order.terms (o : Order) : OrderTerms where
  userId := o.userId
  symbol := o.symbol
  side := o.side
  type := o.type
  price := o.price
  stopPrice := o.stopPrice
  quantity := o.quantity
  parentOrderId := o.parentOrderId

/-- Users, markets, and the terms of the orders. -/
def Store.setting (s : Store) :
    Finset UserId × (Symbol → Option TradingPair) × OrderId × (OrderId → Option OrderTerms) :=
  (s.pg.users, s.pg.tradingPairs, s.orderIdSeq, fun id => (s.pg.orders id).map Order.terms)

/-- Writing an order with the same terms. -/
theorem setting_putOrder {s : Store} {id : OrderId} {order order' : Order}
    (h : s.pg.orders id = some order) (hterms : order'.terms = order.terms) :
    (s.putOrder id order').setting = s.setting := by
  refine congrArg (fun f => (s.pg.users, s.pg.tradingPairs, s.orderIdSeq, f)) (funext fun k => ?_)
  show (Function.update s.pg.orders id (some order') k).map Order.terms = _
  by_cases hk : k = id
  · subst hk
    simp [h, hterms]
  · simp [hk]

/-- **No batch changes the setting.** -/
theorem settlement_setting (args : BatchArgs) (trades : List DomainTrade) :
    FillSteps args trades (Prog.Keeps Store.setting) ∧
      ChildSteps args.takerOrderId (Prog.Keeps Store.setting) where
  left :=
    { trade := fun _ _ _ => rfl
      makerUser := fun _ _ _ _ => rfl
      balance := fun _ _ _ _ => rfl
      maker := fun _ _ _ _ h => setting_putOrder h rfl
      redisMaker := fun _ _ _ _ _ => rfl
      taker := fun _ _ h => setting_putOrder h rfl }
  right := fun _ _ _ h _ => setting_putOrder h rfl

/-- The terms of an order, in two stores of the same setting. -/
theorem terms_of_setting {s s' : Store} (h : s'.setting = s.setting) {id : OrderId} {order : Order}
    (horder : s.pg.orders id = some order) :
    ∃ order', s'.pg.orders id = some order' ∧ order'.terms = order.terms := by
  have hterms := congrFun (congrArg (fun x => x.2.2.2) h) id
  simp only [Store.setting, horder, Option.map_some] at hterms
  exact Option.map_eq_some_iff.mp hterms

end SpotExchange.Exchange
