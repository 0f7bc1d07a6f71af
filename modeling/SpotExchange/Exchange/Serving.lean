import SpotExchange.Exchange.Running

namespace SpotExchange.Exchange

open SpotExchange.Lib
open SpotExchange.Engine (OrderId)

/-!
# What a request can do

Each of the three is a list of steps to be checked, and a theorem that then all requests of a kind are
covered.

* `CallSteps`, `CallSteps.serve` — the calls of the API;
* `MonitorSteps`, `MonitorSteps.serve` — prints and rescans of the stop monitor;
* `WorkSteps`, `WorkSteps.serve` — rounds of the worker.

With `serve_moves` a relation is checked for all requests; `consistent_serve` is the first use of it.
-/

/-- The calls of the API. -/
def Request.isCall : Request → Bool
  | .place _ _ | .placeBulk _ _ | .cancel _ _ | .modify _ _ _ _ => true
  | .print _ _ _ | .rescan _ _ | .work => false

/-- A call asks for an order. -/
def Request.Asks (userId : UserId) (dto : OrderCreateDto) : Request → Prop
  | .place userId' dto' => userId' = userId ∧ dto' = dto
  | .placeBulk userId' dtos => userId' = userId ∧ dto ∈ dtos
  | _ => False

/-- **The steps of a call of the API.** -/
structure CallSteps (R : Store → Store → Prop) (req : Request) : Prop where
  quiet : ∀ {s s'}, Quiet s s' → R s s'
  placed : ∀ s userId dto pair, req.Asks userId dto → s.pg.tradingPairs dto.symbol = some pair →
    ValidOrder dto pair → R s (s.placed userId dto)
  canceled : ∀ s userId id order, req = .cancel userId id → IdsBelow s → s.pg.orders id = some order →
    order.userId = userId → order.status.isActive = true → R s (s.cancel id order)
  replaced : ∀ s userId id old newPrice newQuantity pair, req = .modify userId id newPrice newQuantity →
    IdsBelow s → s.pg.orders id = some old → old.userId = userId → old.status.isActive = true →
    old.type.rests = true → s.pg.tradingPairs old.symbol = some pair → 0 < newPrice → 0 < newQuantity →
    pair.minLotSize ≤ newQuantity → R s (s.replace id old newPrice newQuantity)

/-- **The steps of the stop monitor.** -/
structure MonitorSteps (R : Store → Store → Prop) : Prop where
  quiet : ∀ {s s'}, Quiet s s' → R s s'
  triggered : ∀ s id order lock isTrailing, s.pg.orders id = some order → order.status = .pending →
    R s (s.trigger id order lock isTrailing)

/-- **The steps of the worker.** -/
structure WorkSteps (R : Store → Store → Prop) : Prop where
  queue : ∀ s queue, R s (s.setQueue queue)
  engine : ∀ s e, R s (s.setEngine e)
  fill : ∀ args trades, FillSteps args trades R
  child : ∀ parentId, ChildSteps parentId R
  undo : ∀ s s', R s s' → R s { s' with pg := s.pg }
  refunded : ∀ s key row (update : BalanceUpdate), R s (s.moveBalance key row update)
  unscored : ∀ s p remaining, R s (s.prepareResting p remaining)
  rested : ∀ s p remaining score, R s (s.rest p remaining score)

section

variable {R : Store → Store → Prop} [IsPreorder Store R] {s : Store}

/-! ### Calls -/

theorem addChild_pairs (parentId : OrderId) (parent : Order) (config : Option SltpConfig)
    (link : OrderId → Order → Order) (s : Store) :
    (s.addChild parentId parent config link).pg.tradingPairs = s.pg.tradingPairs ∧
      s.orderIdSeq ≤ (s.addChild parentId parent config link).orderIdSeq := by
  cases config with
  | none => exact ⟨rfl, le_rfl⟩
  | some config =>
    simp only [Store.addChild, Store.mapOrder]
    split <;> exact ⟨rfl, Nat.le_succ _⟩

/-- What a placement inserts takes ids, and leaves the pairs alone. -/
theorem inserted_pairs (s : Store) (userId : UserId) (dto : OrderCreateDto) :
    (s.inserted userId dto).pg.tradingPairs = s.pg.tradingPairs ∧
      s.orderIdSeq < (s.inserted userId dto).orderIdSeq := by
  obtain ⟨hpairs, hseq⟩ := addChild_pairs s.orderIdSeq (newOrder userId dto) dto.sl
    (fun childId o => { o with slOrderId := some childId }) (s.insert (newOrder userId dto))
  obtain ⟨hpairs', hseq'⟩ := addChild_pairs s.orderIdSeq (newOrder userId dto) dto.tp
    (fun childId o => { o with tpOrderId := some childId })
    ((s.insert (newOrder userId dto)).addChild s.orderIdSeq (newOrder userId dto) dto.sl
      fun childId o => { o with slOrderId := some childId })
  exact ⟨hpairs'.trans hpairs, (Nat.lt_succ_self _).trans_le (hseq.trans hseq')⟩

theorem placed_pairs (s : Store) (userId : UserId) (dto : OrderCreateDto) :
    (s.placed userId dto).pg.tradingPairs = s.pg.tradingPairs := (inserted_pairs s userId dto).1

theorem CallSteps.placedAll {req : Request} (h : CallSteps R req) (userId : UserId)
    (dtos : List OrderCreateDto) (s : Store) (hasks : ∀ dto ∈ dtos, req.Asks userId dto)
    (hvalid : ∀ dto ∈ dtos, ∃ pair, s.pg.tradingPairs dto.symbol = some pair ∧ ValidOrder dto pair) :
    R s (dtos.foldl (fun s dto => s.placed userId dto) s) := by
  induction dtos generalizing s with
  | nil => exact refl_of R s
  | cons dto dtos ih =>
    rw [List.forall_mem_cons] at hasks hvalid
    obtain ⟨⟨pair, hpair, hdto⟩, hdtos⟩ := hvalid
    refine trans_of R (h.placed s userId dto pair hasks.1 hpair hdto) (ih _ hasks.2 ?_)
    rw [placed_pairs]
    exact hdtos

/-- **A call of the API.** -/
theorem CallSteps.serve {req : Request} (h : CallSteps R req) (hids : IdsBelow s)
    (hcall : req.isCall = true) : R s (s.serve req) := by
  cases req with
  | place userId dto =>
    rcases serve_place s userId dto with ⟨pair, lock, haccepted, -, hx⟩ | hq
    · rw [hx]
      have hq := quiet_lockFor (s := s) userId dto lock
      refine trans_of R (h.quiet hq) (h.placed _ userId dto pair ⟨rfl, rfl⟩ ?_ haccepted.valid)
      obtain ⟨balances, updates, hx⟩ := hq
      rw [hx]
      exact haccepted.listed
    · exact h.quiet hq
  | placeBulk userId dtos =>
    rcases serve_placeBulk s userId dtos with ⟨validated, hmap, hall, hx⟩ | hq
    · rw [hx]
      have hq := quiet_lockAll (s := s) userId (sortedRequirements (lockRequirements validated))
      refine trans_of R (h.quiet hq) (h.placedAll userId dtos _ (fun dto hdto => ⟨rfl, hdto⟩) fun dto hdto => ?_)
      rw [← hmap] at hdto
      obtain ⟨v, hv, rfl⟩ := List.mem_map.mp hdto
      obtain ⟨pair, haccepted⟩ := hall v hv
      obtain ⟨balances, updates, hx⟩ := hq
      rw [hx]
      exact ⟨pair, haccepted.listed, haccepted.valid⟩
    · exact h.quiet hq
  | cancel userId orderId =>
    rcases serve_cancel s userId orderId with ⟨order, pair, s₁, ho, huser, hactive, -, -, hq, hx⟩ | hx <;>
      rw [hx]
    · refine trans_of R (h.quiet hq) ?_
      obtain ⟨balances, updates, rfl⟩ := hq
      exact h.canceled _ userId orderId order rfl hids ho huser hactive
    · exact refl_of R s
  | modify userId orderId newPrice newQuantity =>
    rcases serve_modify (fun order ho => (hids orderId (by rw [ho]; simp)).ne) userId newPrice
      newQuantity with ⟨old, s₁, hold, huser, hactive, hrests, hprice, ⟨hquantity, pair, hpair, hlot⟩, hq, hx⟩ | hq
    · rw [hx]
      refine trans_of R (h.quiet hq) ?_
      obtain ⟨balances, updates, rfl⟩ := hq
      exact h.replaced _ userId orderId old newPrice newQuantity pair rfl hids hold huser hactive hrests hpair
        hprice hquantity hlot
    · exact h.quiet hq
  | print m symbol price => exact absurd hcall (by simp [Request.isCall])
  | rescan symbol lastPrice => exact absurd hcall (by simp [Request.isCall])
  | work => exact absurd hcall (by simp [Request.isCall])

/-! ### The stop monitor -/

theorem MonitorSteps.tryTrigger (h : MonitorSteps R) (isTrailing : Bool) (id : OrderId) :
    Prog.Moves R (tryTrigger isTrailing id) := by
  intro s
  obtain ⟨s', hx, hcases⟩ := triggerStopOrder_cases id isTrailing s
  have hx' : Exchange.tryTrigger isTrailing id s = (.ok ⟨⟩, s') := by
    unfold Exchange.tryTrigger Prog.tryExcept
    rw [hx]
  rw [hx']
  rcases hcases with rfl | ⟨key, rfl⟩ | ⟨order, pair, lock, ho, hpending, -, -, -, -, rfl⟩
  · exact refl_of R _
  · exact h.quiet (quiet_withRow s key)
  · exact h.triggered s id order lock isTrailing ho hpending

theorem MonitorSteps.triggerAll (h : MonitorSteps R) (isTrailing : Bool) (ids : List OrderId)
    (s : Store) : R s (triggerAll isTrailing ids s) := by
  induction ids generalizing s with
  | nil => exact refl_of R s
  | cons id ids ih =>
    obtain ⟨s', hx, -⟩ := tryTrigger_apply isTrailing id s
    have hmove := (h.tryTrigger isTrailing id).of_ok hx
    show R s (Exchange.triggerAll isTrailing ids (Exchange.tryTrigger isTrailing id s).2)
    rw [hx]
    exact trans_of R hmove (ih s')

/-- **A print**, once it has moved the triggers of trailing stops. -/
theorem MonitorSteps.print (h : MonitorSteps R) (m : StopMonitor) (symbol : Symbol) (price : ℚ) :
    R (s.setRedis (trailingUpdate m symbol price)) (s.serve (.print m symbol price)) := by
  rw [serve_print]
  exact trans_of R (h.triggerAll false _ _) (h.triggerAll true _ _)

/-- **A rescan.** -/
theorem MonitorSteps.rescan (h : MonitorSteps R) (symbol : Symbol) (lastPrice : ℚ) :
    R s (s.serve (.rescan symbol lastPrice)) :=
  serve_rescan_moves (h.tryTrigger false) s symbol lastPrice

/-! ### The worker -/

theorem WorkSteps.finish (h : WorkSteps R) {p : OrderActionPayload} {remaining : ℚ} {s' : Store}
    (hstep : FinishStep p remaining s s') : R s s' := by
  cases hstep with
  | left _ => exact refl_of R s
  | unscored _ _ _ _ => exact h.unscored s p remaining
  | rested _ _ score _ => exact h.rested s p remaining score
  | refunded _ _ key row update => exact h.refunded s key row update

/-- **A placement.** -/
theorem WorkSteps.place (h : WorkSteps R) {p : OrderActionPayload} {s' : Store} (hstep : PlaceStep p s s') :
    R s s' := by
  cases hstep with
  | unmatched e _ => exact h.engine s e
  | undone e _ r _ pair _ err s₁ hbatch =>
    exact h.undo s s₁ (trans_of R (h.engine s e) (persistTradeBatch_moves_error (h.fill _ _) hbatch))
  | untraded e _ r _ _ _ _ finish => exact trans_of R (h.engine s e) (h.finish finish)
  | traded e _ r _ _ pair _ rows s₂ hbatch _ finish =>
    have hmoves := (persistTradeBatch_moves (h.fill _ _) (h.child _)).of_ok hbatch
    exact trans_of R (h.engine s e) (trans_of R hmoves (h.finish finish))

/-- **A round.** -/
theorem WorkSteps.serve (h : WorkSteps R) (hready : EngineReady s.engine) : R s (s.serve .work) := by
  show R s (work s).2
  rcases work_cases hready with ⟨-, hx⟩ | ⟨p, rest, s', -, hx, ⟨-, rfl⟩ | ⟨-, hstep⟩⟩ <;> rw [hx]
  · exact refl_of R s
  · exact h.queue s rest
  · exact trans_of R (h.queue s rest) (h.place hstep)

/-! ### Any request -/

/-- **Any request**, from the steps of each kind. -/
theorem serve_moves {req : Request} (hcalls : CallSteps R req) (hmonitor : MonitorSteps R)
    (htrailing : ∀ s trailing states,
      R s (s.setRedis fun r => { r with trailing := trailing, trailingState := states }))
    (hwork : req = .work → R s (s.serve .work)) (hids : IdsBelow s) : R s (s.serve req) := by
  cases req with
  | print m symbol price => exact serve_print_moves htrailing hmonitor.tryTrigger s m symbol price
  | rescan symbol lastPrice => exact hmonitor.rescan symbol lastPrice
  | work => exact hwork rfl
  | _ => exact hcalls.serve hids rfl

end

/-! ### Consistency -/

section

variable {s : Store}

theorem consistent_calls (req : Request) : CallSteps (Prog.Preserves Consistent) req where
  quiet := fun hq h => h.of_drains (drains_quiet hq)
  placed := fun _ userId dto _ _ _ _ h => consistent_placed h userId dto
  canceled := fun _ _ _ _ _ _ ho _ _ h => h.of_drains (drains_cancel ho)
  replaced := fun _ _ _ _ _ _ _ _ _ hold _ _ _ _ _ _ _ h => h.of_drains (drains_replace hold)

theorem consistent_monitor : MonitorSteps (Prog.Preserves Consistent) where
  quiet := fun hq h => h.of_drains (drains_quiet hq)
  triggered := fun _ _ _ lock isTrailing ho _ h => consistent_trigger h lock isTrailing ho

/-- **One request.** -/
theorem consistent_serve (h : Consistent s) (req : Request) : Consistent (s.serve req) := by
  refine serve_moves (consistent_calls req) consistent_monitor (fun s trailing states h => ?_)
    (fun _ h => consistent_work h) h.ids h
  exact h.of_drains (drains_setRedis (bookShrinks_refl rfl) fun _ h => .inl h)

/-- **Every store that a run reaches is consistent.** -/
theorem consistent_serveAll (h : Consistent s) (reqs : List Request) : Consistent (s.serveAll reqs) :=
  Run.invariant (I := Consistent) (fun _ req h => consistent_serve h req) h reqs

end

/-! ### Markets -/

/-- **No request touches the trading pairs.** -/
theorem serve_pairs {s : Store} (hids : IdsBelow s) (hready : EngineReady s.engine) (req : Request) :
    (s.serve req).pg.tradingPairs = s.pg.tradingPairs := by
  let R := Prog.Keeps fun s : Store => s.pg.tradingPairs
  have hquiet : ∀ {s s'}, Quiet s s' → R s s' := by
    rintro s s' ⟨balances, updates, rfl⟩
    exact rfl
  have hcalls : CallSteps R req :=
    { quiet := hquiet
      placed := fun s userId dto _ _ _ _ => placed_pairs s userId dto
      canceled := fun _ _ _ _ _ _ _ _ _ => rfl
      replaced := fun _ _ _ _ _ _ _ _ _ _ _ _ _ _ _ _ _ => rfl }
  have hmonitor : MonitorSteps R := { quiet := hquiet, triggered := fun _ _ _ _ _ _ _ => rfl }
  have hwork : WorkSteps R :=
    { queue := fun _ _ => rfl
      engine := fun _ _ => rfl
      fill := fun _ _ =>
        { trade := fun _ _ _ => rfl
          makerUser := fun _ _ _ _ => rfl
          balance := fun _ _ _ _ => rfl
          maker := fun _ _ _ _ _ => rfl
          redisMaker := fun _ _ _ _ _ => rfl
          taker := fun _ _ _ => rfl }
      child := fun _ _ _ _ _ _ => rfl
      undo := fun _ _ _ => rfl
      refunded := fun _ _ _ _ => rfl
      unscored := fun _ _ _ => rfl
      rested := fun _ _ _ _ => rfl }
  exact serve_moves hcalls hmonitor (fun _ _ _ => rfl) (fun _ => hwork.serve hready) hids

end SpotExchange.Exchange
