import SpotExchange.Exchange.Handling

namespace SpotExchange.Exchange

open SpotExchange.Lib
open SpotExchange.Engine (OrderId CMatchingEngine MatchResult MatchFacts)

/-!
# What the worker can do to the store

* `work` — one round of the worker's loop;
* `PlaceStep p s s'` — everything `_handle_place` can make of a store, whether it returns or raises;
* `handlePlace_step`, `work_cases` — that it is everything.
-/

/-! ### The loop -/

/-- One round of `start`: `BRPOP`, `process_action`, and exceptions logged. -/
def work : M Unit := do
  match ← Prog.read fun s => s.redis.ordersQueue with
  | [] => return ()
  | payload :: rest => do
      onRedis fun r => { r with ordersQueue := rest }
      Prog.tryExcept (processAction payload) fun _ => return ()

/-! ### The steps of a placement -/

/-- What a match that returns has found. -/
structure Matched (p : OrderActionPayload) (s : Store) (r : MatchResult) : Prop where
  quantity_pos : 0 < p.quantity
  makers_pos : ∀ o ∈ s.makers p.symbol p.side, 0 < o.qty
  facts : MatchFacts (takerOrder p) (s.offers p) r

/-- The trades of a match as they are persisted. -/
def Store.domainTrades (s : Store) (p : OrderActionPayload) (r : MatchResult) : List DomainTrade :=
  r.trades.map (domainTrade s.redis p)

/-- What `_handle_place` does when the trades are persisted. -/
inductive FinishStep (p : OrderActionPayload) (remaining : ℚ) (s : Store) : Store → Prop
  /-- The order does not rest, and nothing is refunded. -/
  | left (hrests : ¬ (0 < remaining ∧ p.type.rests = true)) : FinishStep p remaining s s
  /-- The order has no score. -/
  | unscored (hpos : 0 < remaining) (hrests : p.type.rests = true) (err : PyError)
      (hscore : encodeScore (p.price.getD 0) (s.nextSeq p.symbol) = .error err) :
      FinishStep p remaining s (s.prepareResting p remaining)
  /-- The order rests. -/
  | rested (hpos : 0 < remaining) (hrests : p.type.rests = true) (score : ℚ)
      (hscore : encodeScore (p.price.getD 0) (s.nextSeq p.symbol) = .ok score) :
      FinishStep p remaining s (s.rest p remaining score)
  /-- Something is unlocked. -/
  | refunded (hrests : ¬ (0 < remaining ∧ p.type.rests = true))
      (hrefunds : refunds p remaining = true) (key : Ledger.BalanceKey) (row : Ledger.Row)
      (update : BalanceUpdate) : FinishStep p remaining s (s.moveBalance key row update)

/-- **What `_handle_place` can make of a store.** -/
inductive PlaceStep (p : OrderActionPayload) (s : Store) : Store → Prop
  /-- It raises before there is a match, or the match is rejected, or there is no such pair. -/
  | unmatched (e : CMatchingEngine) (ready : EngineReady e) : PlaceStep p s (s.setEngine e)
  /-- Persisting the trades raises: the tables are as before, Redis is not. -/
  | undone (e : CMatchingEngine) (ready : EngineReady e) (r : MatchResult) (matched : Matched p s r)
      (pair : TradingPair) (hpair : s.pg.tradingPairs p.symbol = some pair) (err : PyError)
      (s₁ : Store) (hbatch : persistTradeBatch (batchArgs p pair) (s.domainTrades p r) (s.setEngine e) =
        (.error err, s₁)) : PlaceStep p s { s₁ with pg := s.pg }
  /-- There are no trades. -/
  | untraded (e : CMatchingEngine) (ready : EngineReady e) (r : MatchResult) (matched : Matched p s r)
      (accepted : isOutcomeReject r.outcome = false) (hnil : r.trades = []) (s' : Store)
      (finish : FinishStep p r.remainingQty (s.setEngine e) s') : PlaceStep p s s'
  /-- The trades are persisted. -/
  | traded (e : CMatchingEngine) (ready : EngineReady e) (r : MatchResult) (matched : Matched p s r)
      (accepted : isOutcomeReject r.outcome = false) (pair : TradingPair)
      (hpair : s.pg.tradingPairs p.symbol = some pair) (rows : List Trade) (s₂ : Store)
      (hbatch : persistTradeBatch (batchArgs p pair) (s.domainTrades p r) (s.setEngine e) =
        (.ok rows, s₂)) (s' : Store) (finish : FinishStep p r.remainingQty s₂ s') : PlaceStep p s s'

/-- What may raise in a refund comes before the row is written. -/
private theorem refundLeftover_error {p : OrderActionPayload} {s s' : Store} {err : PyError}
    (h : refundLeftover p s = (.error err, s')) : s' = s := by
  rcases Prog.bind_eq_error.mp h with hread | ⟨pair?, s₁, hread, h⟩
  · exact (congrArg Prod.snd hread).symm
  obtain rfl : s = s₁ := congrArg Prod.snd hread
  cases pair? with
  | none => exact (congrArg Prod.snd h).symm
  | some pair =>
    rcases Prog.bind_eq_error.mp h with hread | ⟨bal?, s₁, hread, h⟩
    · exact (congrArg Prod.snd hread).symm
    obtain rfl : s = s₁ := congrArg Prod.snd hread
    cases bal? with
    | none => exact (congrArg Prod.snd h).symm
    | some balance =>
      rcases Prog.bind_eq_error.mp h with hread | ⟨locked, s₁, hread, h⟩
      · exact (congrArg Prod.snd hread).symm
      obtain rfl : s = s₁ := congrArg Prod.snd hread
      unfold Prog.whenever at h
      split_ifs at h
      · exact pessimistic_error h
      · exact (congrArg Prod.snd h).symm

/-- **A refund** unlocks something, or changes nothing. -/
theorem refund_moves (p : OrderActionPayload) (s : Store) :
    (refundMarketBuyLeftover p s).2 = s ∨
      ∃ key row update, (refundMarketBuyLeftover p s).2 = s.moveBalance key row update := by
  rcases hx : refundMarketBuyLeftover p s with ⟨err | u, s'⟩
  · rw [refundMarketBuyLeftover, transaction, Prog.atomically_eq_error] at hx
    obtain ⟨s₁, h, rfl⟩ := hx
    obtain rfl := refundLeftover_error h
    exact .inl rfl
  · rcases refund_cases hx with ⟨rfl, -⟩ | ⟨pair, row, -, -, -, h⟩
    · exact .inl rfl
    · obtain ⟨_, row', -, -, rfl⟩ := pessimistic_eq_ok h
      exact .inr ⟨_, _, _, rfl⟩

theorem finishPlaced_step (p : OrderActionPayload) (remaining : ℚ) (s : Store) :
    FinishStep p remaining s (finishPlaced p remaining s).2 := by
  unfold finishPlaced
  split_ifs with hrests hrefunds
  · rcases insertRestingTaker_cases p remaining s with ⟨score, hscore, hx⟩ | ⟨err, herr, hx⟩ <;> rw [hx]
    · exact .rested hrests.1 hrests.2 score hscore
    · exact .unscored hrests.1 hrests.2 err herr
  · rcases refund_moves p s with hx | ⟨key, row, update, hx⟩ <;> rw [hx]
    · exact .left hrests
    · exact .refunded hrests hrefunds key row update
  · exact .left hrests

/-! ### The handler -/

/-- **What `_handle_place` does with a match.** -/
theorem handlePlace_matched {p : OrderActionPayload} {s s₁ : Store} {r : MatchResult}
    (hmatch : matchPlaced p s = (.ok r, s₁)) :
    (handlePlace p s).2 = s₁ ∨ isOutcomeReject r.outcome = false ∧
      (r.trades = [] ∧ (handlePlace p s).2 = (finishPlaced p r.remainingQty s₁).2 ∨
        r.trades ≠ [] ∧ ∃ pair, s₁.pg.tradingPairs p.symbol = some pair ∧
          ((∃ rows s₂, persistTradeBatch (batchArgs p pair) (s₁.domainTrades p r) s₁ = (.ok rows, s₂) ∧
              (handlePlace p s).2 = (finishPlaced p r.remainingQty s₂).2) ∨
            ∃ err s₂, persistTradeBatch (batchArgs p pair) (s₁.domainTrades p r) s₁ = (.error err, s₂) ∧
              (handlePlace p s).2 = { s₂ with pg := s₁.pg })) := by
  have hrun : handlePlace p s = (Prog.whenever (isOutcomeReject r.outcome = false) (do
      let persisted ← persistTrades p r.trades
      Prog.whenever (persisted = true) (finishPlaced p r.remainingQty)) >>= fun _ => (pure r : M _))
        s₁ := by
    rw [handlePlace, Prog.bind_of_ok hmatch]
  have hpure : ∀ (x : M Unit) (s : Store), ((x >>= fun _ => (pure r : M _)) s).2 = (x s).2 := by
    intro x s
    rw [Prog.bind_apply]
    rcases x s with ⟨_ | _, _⟩ <;> rfl
  rw [hrun, hpure]
  by_cases hacc : isOutcomeReject r.outcome = false
  swap
  · rw [Prog.whenever, if_neg hacc]
    exact .inl rfl
  rw [Prog.whenever, if_pos hacc]
  rcases persistTrades_cases p r.trades s₁ with
    ⟨hnil, hx⟩ | ⟨-, -, hx⟩ | ⟨hne, pair, hpair, ⟨rows, s₂, hbatch, hx⟩ | ⟨err, s₂, hbatch, hx⟩⟩
  · rw [Prog.bind_of_ok hx, Prog.whenever, if_pos rfl]
    exact .inr ⟨hacc, .inl ⟨hnil, rfl⟩⟩
  · rw [Prog.bind_of_ok hx, Prog.whenever, if_neg (by simp)]
    exact .inl rfl
  · rw [Prog.bind_of_ok hx, Prog.whenever, if_pos rfl]
    exact .inr ⟨hacc, .inr ⟨hne, pair, hpair, .inl ⟨rows, s₂, hbatch, rfl⟩⟩⟩
  · rw [Prog.bind_of_error hx]
    exact .inr ⟨hacc, .inr ⟨hne, pair, hpair, .inr ⟨err, s₂, hbatch, rfl⟩⟩⟩

/-- A match that raises. -/
theorem handlePlace_unmatched {p : OrderActionPayload} {s s₁ : Store} {err : PyError}
    (hmatch : matchPlaced p s = (.error err, s₁)) : (handlePlace p s).2 = s₁ := by
  rw [handlePlace, Prog.bind_of_error hmatch]

theorem handlePlace_step {s : Store} (h : EngineReady s.engine) (p : OrderActionPayload) :
    PlaceStep p s (handlePlace p s).2 := by
  obtain ⟨e, ready, hstate, hmatched⟩ := matchPlaced_spec h p
  rcases hmatch : matchPlaced p s with ⟨err | r, s₁⟩ <;> rw [hmatch] at hstate hmatched <;>
    obtain rfl : s₁ = s.setEngine e := hstate
  · rw [handlePlace_unmatched hmatch]
    exact .unmatched e ready
  obtain ⟨hq, hpos, hfacts⟩ := hmatched r rfl
  have matched : Matched p s r := ⟨hq, hpos, hfacts⟩
  rcases handlePlace_matched hmatch with hx | ⟨hacc, ⟨hnil, hx⟩ | ⟨-, pair, hpair,
    ⟨rows, s₂, hbatch, hx⟩ | ⟨err, s₂, hbatch, hx⟩⟩⟩ <;> rw [hx]
  · exact .unmatched e ready
  · exact .untraded e ready r matched hacc hnil _ (finishPlaced_step p _ _)
  · exact .traded e ready r matched hacc pair hpair rows s₂ hbatch _ (finishPlaced_step p _ _)
  · exact .undone e ready r matched pair hpair err s₂ hbatch

/-- The queue replaced. -/
def Store.setQueue (s : Store) (queue : List OrderActionPayload) : Store :=
  s.setRedis fun r => { r with ordersQueue := queue }

/-- A round of the worker with nothing to do. -/
theorem work_nil {s : Store} (hqueue : s.redis.ordersQueue = []) : work s = (.ok ⟨⟩, s) := by
  have hread : (Prog.read fun s => s.redis.ordersQueue : M _) s = (.ok [], s) := by
    rw [← hqueue]
    rfl
  rw [work, Prog.bind_of_ok hread]
  rfl

/-- A round of the worker takes up the oldest action. -/
theorem work_cons {s : Store} {p : OrderActionPayload} {rest : List OrderActionPayload}
    (hqueue : s.redis.ordersQueue = p :: rest) :
    work s = (.ok ⟨⟩, if p.action = .place then (handlePlace p (s.setQueue rest)).2
      else s.setQueue rest) := by
  have hread : (Prog.read fun s => s.redis.ordersQueue : M _) s = (.ok (p :: rest), s) := by
    rw [← hqueue]
    rfl
  have hrun : work s = Prog.tryExcept (processAction p) (fun _ => return ()) (s.setQueue rest) := by
    rw [work, Prog.bind_of_ok hread]
    rfl
  have htry : Prog.tryExcept (processAction p) (fun _ => return ()) (s.setQueue rest) =
      (.ok ⟨⟩, (processAction p (s.setQueue rest)).2) := by
    unfold Prog.tryExcept
    rcases processAction p (s.setQueue rest) with ⟨err | u, s'⟩ <;> rfl
  rw [hrun, htry]
  unfold processAction Prog.whenever
  split_ifs
  · rw [Prog.bind_apply]
    rcases handlePlace p (s.setQueue rest) with ⟨err | r, s'⟩ <;> rfl
  · rfl

/-- **A round of the worker**: nothing is queued, or the oldest action is acknowledged, or it is
    placed. -/
theorem work_cases {s : Store} (h : EngineReady s.engine) :
    s.redis.ordersQueue = [] ∧ work s = (.ok ⟨⟩, s) ∨
    ∃ p rest s', s.redis.ordersQueue = p :: rest ∧ work s = (.ok ⟨⟩, s') ∧
      (p.action ≠ .place ∧ s' = s.setQueue rest ∨
        p.action = .place ∧ PlaceStep p (s.setQueue rest) s') := by
  cases hqueue : s.redis.ordersQueue with
  | nil => exact .inl ⟨rfl, work_nil hqueue⟩
  | cons p rest =>
    refine .inr ⟨p, rest, _, rfl, work_cons hqueue, ?_⟩
    have hready : EngineReady (s.setQueue rest).engine := h
    split_ifs with hplace
    · exact .inr ⟨hplace, handlePlace_step hready p⟩
    · exact .inl ⟨hplace, rfl⟩

end SpotExchange.Exchange
