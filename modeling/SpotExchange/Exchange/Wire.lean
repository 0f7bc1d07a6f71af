import SpotExchange.Exchange.Scores

namespace SpotExchange.Exchange

open SpotExchange.Lib
open SpotExchange.Engine (OrderId COrder CMatchingEngine)

/-!
# From an accepted order to the matcher

Between `place_order` and the engine an order is a payload, a JSON object, an `OrderActionPayload` and
a `COrder`, and each of them decides anew what is there and what is zero.

* `ActionDict` — the JSON object, `fromDict_build` — what the worker reads back;
* `Processable` — the worker builds the right `COrder`, and can rest it if it must;
* `processable_iff` — exactly which accepted orders are.
-/

/-! ### The queue item -/

/-- The dictionary of a queue item, which JSON keeps as it is: a key that is missing is `none`, a
    `null` is `some none`. -/
structure ActionDict where
  action : OrderAction
  orderId : OrderId
  symbol : Symbol
  userId : UserId
  side : OrderSide
  type : OrderType
  price : Option (Option ℚ)
  quantity : ℚ
  isIceberg : Option Bool
  visibleQty : Option (Option ℚ)
  hiddenQty : Option (Option ℚ)
  parentOrderId : Option (Option OrderId)
  replacesId : Option (Option OrderId)
  deriving DecidableEq, Repr

/-- `build_order_action_payload`. -/
def ActionDict.build (args : OrderActionPayload) : ActionDict where
  action := args.action
  orderId := args.orderId
  symbol := args.symbol
  userId := args.userId
  side := args.side
  type := args.type
  price := args.price.map some
  quantity := args.quantity
  isIceberg := if args.isIceberg then some true else none
  visibleQty := if args.isIceberg then some args.visibleQty else none
  hiddenQty := if args.isIceberg then some args.hiddenQty else none
  parentOrderId := args.parentOrderId.map some
  replacesId := args.replacesId.map some

/-- `OrderActionPayload.from_dict`: the parts of an iceberg and the ids are tested for truth, the price
    for `None`. -/
def OrderActionPayload.fromDict (d : ActionDict) : OrderActionPayload where
  action := d.action
  orderId := d.orderId
  symbol := d.symbol
  userId := d.userId
  side := d.side
  type := d.type
  price := d.price.join
  quantity := d.quantity
  isIceberg := d.isIceberg.getD false
  visibleQty := orNone d.visibleQty.join
  hiddenQty := orNone d.hiddenQty.join
  parentOrderId := d.parentOrderId.join.filter fun id => id ≠ 0
  replacesId := d.replacesId.join.filter fun id => id ≠ 0

/-- **What the worker reads back** is what the queue holds. -/
theorem fromDict_build {args : OrderActionPayload} (hparent : args.parentOrderId ≠ some 0)
    (hreplaces : args.replacesId ≠ some 0) :
    OrderActionPayload.fromDict (ActionDict.build args) = buildOrderActionPayload args := by
  have hkept : ∀ x : Option OrderId, x ≠ some 0 → (x.map some).join.filter (fun id => id ≠ 0) = x := by
    intro x hx
    cases x with
    | none => rfl
    | some id =>
      have hne : id ≠ 0 := fun h => hx (congrArg some h)
      simp [hne]
  have hprice : (args.price.map some).join = args.price := by cases args.price <;> rfl
  unfold OrderActionPayload.fromDict ActionDict.build buildOrderActionPayload
  simp only [hkept _ hparent, hkept _ hreplaces, hprice]
  cases args.isIceberg <;> rfl

/-- The payload that the worker has for a placed order. -/
def receivedPayload (orderId : OrderId) (order : Order) : OrderActionPayload :=
  .fromDict (.build (placePayload orderId order))

/-! ### What validation accepts -/

/-- The `COrder` that an accepted order should become. -/
def acceptedCorder (orderId : OrderId) (dto : OrderCreateDto) : COrder where
  orderId := orderId
  side := toCSide dto.side
  type := toCType dto.type
  price := dto.price
  quantity := dto.quantity
  remainingQty := dto.quantity
  isIceberg := dto.type = .iceberg
  visibleQty := if dto.type = .iceberg then dto.visibleQuantity.getD 0 else dto.quantity
  hiddenQty := if dto.type = .iceberg then dto.hiddenQuantity.getD 0 else 0

/-- **The worker can process the order**: it builds the right `COrder`, and wherever it has to rest the
    order, `add_resting_order` does not raise. -/
structure Processable (userId : UserId) (orderId : OrderId) (dto : OrderCreateDto) : Prop where
  built : buildCorder (receivedPayload orderId (newOrder userId dto)) = .ok (acceptedCorder orderId dto)
  rested : ∀ s r s', EngineReady s.engine →
    matchPlaced (receivedPayload orderId (newOrder userId dto)) s = (.ok r, s') →
      isOutcomeReject r.outcome = false → 0 < r.remainingQty → dto.type.rests = true →
        ∀ t, ∃ n t', addRestingOrder orderId dto.symbol dto.side
          ((receivedPayload orderId (newOrder userId dto)).price.getD 0) t = (.ok n, t')

section

variable {dto : OrderCreateDto} {pair : TradingPair} {userId : UserId} {orderId : OrderId}

/-- What the worker is told about an accepted order: a zero part of an iceberg is lost. -/
def acceptedPayload (userId : UserId) (orderId : OrderId) (dto : OrderCreateDto) :
    OrderActionPayload where
  action := .place
  orderId := orderId
  symbol := dto.symbol
  userId := userId
  side := dto.side
  type := dto.type
  price := dto.price
  quantity := dto.quantity
  isIceberg := dto.type = .iceberg
  visibleQty := if dto.type = .iceberg then orNone dto.visibleQuantity else none
  hiddenQty := if dto.type = .iceberg then orNone dto.hiddenQuantity else none

theorem receivedPayload_eq (userId : UserId) (orderId : OrderId) (hprice : ∀ p ∈ dto.price, 0 < p) :
    receivedPayload orderId (newOrder userId dto) = acceptedPayload userId orderId dto := by
  have hkept : orNone dto.price = dto.price := by
    cases h : dto.price with
    | none => rfl
    | some p => simp [orNone, (hprice p h).ne']
  have htwice : ∀ x : Option ℚ, orNone (orNone x) = orNone x := by
    intro x
    simp [orNone, Option.filter_filter]
  rw [receivedPayload, fromDict_build (by simp [placePayload]) (by simp [placePayload])]
  unfold buildOrderActionPayload placePayload newOrder acceptedPayload
  by_cases hice : dto.type = .iceberg <;> simp [hice, hkept, htwice]

/-- The parts of an accepted iceberg. -/
theorem ValidOrder.parts (h : ValidOrder dto pair) (hice : dto.type = .iceberg) :
    ∃ v k, dto.visibleQuantity = some v ∧ dto.hiddenQuantity = some k ∧ v + k = dto.quantity ∧
      0 < v := by
  have hparts := h.iceberg
  unfold validateIceberg at hparts
  rw [if_neg (not_not.mpr hice)] at hparts
  cases hv : dto.visibleQuantity with
  | none =>
    rw [hv] at hparts
    exact absurd hparts (by simp)
  | some v =>
    cases hk : dto.hiddenQuantity with
    | none =>
      rw [hv, hk] at hparts
      exact absurd hparts (by simp)
    | some k =>
      rw [hv, hk] at hparts
      simp only at hparts
      split_ifs at hparts with hsum hpos
      exact ⟨v, k, rfl, rfl, not_not.mp hsum, not_le.mp hpos⟩

theorem checkParts_eq_ok_iff {v quantity : ℚ} {hidden : Option ℚ} (hv : 0 < v) :
    checkParts (some v) hidden quantity = .ok () ↔
      ∃ k, hidden = some k ∧ 0 ≤ k ∧ (v + k = quantity ∨ isClose (v + k) quantity = true) := by
  have hvis : ¬ v ≤ 0 := not_le.mpr hv
  unfold checkParts
  cases hidden with
  | none => simp [hvis]
  | some k =>
    by_cases hk : k < 0
    · simp [hvis, hk, not_le.mpr hk]
    · simp [hvis, hk, not_lt.mp hk, or_iff_not_imp_left]

theorem buildCorder_eq_ok_iff {payload : OrderActionPayload} (hq : 0 < payload.quantity) :
    buildCorder payload = .ok (takerOrder payload) ↔ (payload.isIceberg = true →
      checkParts payload.visibleQty payload.hiddenQty payload.quantity = .ok ()) := by
  unfold buildCorder
  rw [if_neg (not_le.mpr hq)]
  cases payload.isIceberg with
  | false => simp
  | true =>
    cases checkParts payload.visibleQty payload.hiddenQty payload.quantity <;> simp

/-- **The `COrder` is built** for every accepted order but an iceberg that hides nothing, or less. -/
theorem buildCorder_iff (h : ValidOrder dto pair) :
    buildCorder (receivedPayload orderId (newOrder userId dto)) = .ok (acceptedCorder orderId dto) ↔
      (dto.type = .iceberg → ∀ k ∈ dto.hiddenQuantity, 0 < k) := by
  rw [receivedPayload_eq userId orderId h.price_pos]
  have hbuild := buildCorder_eq_ok_iff (show 0 < (acceptedPayload userId orderId dto).quantity from
    h.quantity_pos)
  by_cases hice : dto.type = .iceberg
  swap
  · refine iff_of_true ?_ fun h' => absurd h' hice
    have hcorder : takerOrder (acceptedPayload userId orderId dto) = acceptedCorder orderId dto := by
      simp [takerOrder, acceptedPayload, acceptedCorder, hice]
    rw [← hcorder]
    exact hbuild.mpr fun h' => absurd (of_decide_eq_true h') hice
  obtain ⟨v, k, hv, hk, hsum, hvpos⟩ := h.parts hice
  have hvis : (acceptedPayload userId orderId dto).visibleQty = some v := by
    simp [acceptedPayload, hice, hv, orNone, hvpos.ne']
  have hhid : (acceptedPayload userId orderId dto).hiddenQty = orNone (some k) := by
    simp [acceptedPayload, hice, hk]
  have hflag : (acceptedPayload userId orderId dto).isIceberg = true := decide_eq_true hice
  rw [hvis, hhid] at hbuild
  constructor
  · -- a part that is zero is missing, and one that is negative is refused
    intro hbuilt _ k' hk'
    obtain rfl : k = k' := Option.some.inj (hk.symm.trans hk')
    rw [(buildCorder_eq_ok hbuilt).2] at hbuilt
    obtain ⟨k', hsome, hnonneg, -⟩ := (checkParts_eq_ok_iff hvpos).mp (hbuild.mp hbuilt hflag)
    obtain ⟨hk'', hne⟩ := Option.filter_eq_some_iff.mp hsome
    obtain rfl := Option.some.inj hk''
    exact hnonneg.lt_of_ne' (of_decide_eq_true hne)
  · intro hpos
    have hkpos : 0 < k := hpos hice k hk
    have hkept : orNone (some k) = some k := by simp [orNone, hkpos.ne']
    have hcorder : takerOrder (acceptedPayload userId orderId dto) = acceptedCorder orderId dto := by
      unfold takerOrder acceptedCorder
      rw [hflag, hvis, hhid, hkept]
      simp [acceptedPayload, hice, hv, hk]
    rw [← hcorder]
    exact hbuild.mpr fun _ => (checkParts_eq_ok_iff hvpos).mpr ⟨k, hkept, hkpos.le, .inl hsum⟩

/-! ### Resting it -/

/-- Any price from zero to the bound can be encoded. -/
theorem addRestingOrder_returns {price : ℚ} (hnonneg : 0 ≤ price) (hle : price ≤ 9200000000)
    (symbol : Symbol) (side : OrderSide) (t : Store) :
    ∃ n t', addRestingOrder orderId symbol side price t = (.ok n, t') := by
  rcases addRestingOrder_cases orderId symbol side price t with ⟨score, -, hx⟩ | ⟨err, hscore, -⟩
  · exact ⟨_, _, hx⟩
  · rw [encodeScore_of_le hnonneg hle (t.nextSeq_lt symbol)] at hscore
    exact absurd hscore (by simp)

/-- **An order that can rest** does so in an empty market. -/
theorem matchPlaced_empty {payload : OrderActionPayload} (hq : 0 < payload.quantity)
    (hbuilt : buildCorder payload = .ok (takerOrder payload)) (hrests : payload.type.rests = true) :
    ∃ r s', matchPlaced payload (Store.start ∅ (fun _ => none) fun _ => none) = (.ok r, s') ∧
      isOutcomeReject r.outcome = false ∧ 0 < r.remainingQty := by
  let s : Store := Store.start ∅ (fun _ => none) fun _ => none
  have hmakers : s.makers payload.symbol payload.side = [] := by
    unfold Store.makers
    cases payload.side <;> rfl
  have hoffers : s.offers payload = [] := by
    unfold Store.offers
    rw [hmakers]
    rfl
  obtain ⟨ls, e, hls, hrun⟩ := matchPlaced_ok (s := s) engineReady_new hbuilt (by simp [hmakers])
  rw [hoffers] at hls
  have hfacts := hls.facts rfl hq
  refine ⟨_, _, hrun, ?_, ?_⟩
  · rw [hfacts.outcome]
    show isOutcomeReject (Engine.outcomeFor (takerOrder payload) 0) = false
    unfold Engine.outcomeFor
    show isOutcomeReject (if toCType payload.type = .postOnly then _ else _) = false
    cases htype : payload.type <;> rw [htype] at hrests <;> first
      | exact absurd hrests (by decide)
      | simp [toCType, takerOrder, htype, isOutcomeReject]
  · rw [hfacts.remaining]
    show 0 < Engine.remainingFor (takerOrder payload) 0
    unfold Engine.remainingFor
    show 0 < if _ then payload.quantity else payload.quantity - min payload.quantity 0
    rw [min_eq_right hq.le, sub_zero, ite_self]
    exact hq

/-- **What validation accepts, the worker can process, exactly unless** it is an iceberg whose hidden
    part is not positive, or an order that can rest at a price that no score encodes. -/
theorem processable_iff (userId : UserId) (orderId : OrderId)
    (hvalid : validateParams dto pair = .ok ()) :
    Processable userId orderId dto ↔
      (dto.type = .iceberg → ∀ k ∈ dto.hiddenQuantity, 0 < k) ∧
      (dto.type.rests = true → ∀ p ∈ dto.price, p ≤ 9200000000) := by
  have h := validOrder_of_ok hvalid
  have hreceived := receivedPayload_eq userId orderId h.price_pos
  constructor
  · intro hproc
    refine ⟨(buildCorder_iff h).mp hproc.built, fun hrests p hp => ?_⟩
    have hbuilt := hproc.built
    rw [(buildCorder_eq_ok hbuilt).2] at hbuilt
    obtain ⟨r, s', hmatch, hreject, hleft⟩ := matchPlaced_empty
      (by rw [hreceived]; exact h.quantity_pos) hbuilt (by rw [hreceived]; exact hrests)
    obtain ⟨n, t', hrest⟩ := hproc.rested _ r s' engineReady_new hmatch hreject hleft hrests s'
    rcases addRestingOrder_cases orderId dto.symbol dto.side
      ((receivedPayload orderId (newOrder userId dto)).price.getD 0) s' with
        ⟨score, hscore, -⟩ | ⟨err, -, hx⟩
    · have hle := (encodeScore_eq_ok hscore).2.1
      rw [hreceived] at hle
      have hprice : dto.price = some p := hp
      show p ≤ 9200000000
      simpa [acceptedPayload, hprice] using hle
    · exact absurd (congrArg Prod.fst (hrest.symm.trans hx)) (by simp)
  · rintro ⟨hparts, hbound⟩
    refine ⟨(buildCorder_iff h).mpr hparts, fun s r s' _ _ _ _ hrests t => ?_⟩
    have hneeds : dto.type.needsPrice = true := by
      cases htype : dto.type <;> rw [htype] at hrests <;> first
        | exact absurd hrests (by decide)
        | rfl
    obtain ⟨p, hp⟩ := Option.ne_none_iff_exists'.mp (h.price_isSome hneeds)
    have hgot : (receivedPayload orderId (newOrder userId dto)).price.getD 0 = p := by
      rw [hreceived]
      show dto.price.getD 0 = p
      rw [hp]
      rfl
    rw [hgot]
    exact addRestingOrder_returns (h.price_pos p hp).le (hbound hrests p hp) _ _ t

end

/-! ### An iceberg that hides nothing -/

/-- A market of lots from one to a hundred, in ticks of one. -/
def wirePair : TradingPair where
  baseAsset := "BTC"
  quoteAsset := "USDT"
  minLotSize := 1
  maxLotSize := 100
  tickSize := 1
  isActive := true

/-- An iceberg of ten units at 100. -/
def icebergDto (visible hidden : ℚ) : OrderCreateDto where
  symbol := "BTC/USDT"
  side := .sell
  type := .iceberg
  price := some 100
  quantity := 10
  visibleQuantity := some visible
  hiddenQuantity := some hidden

/-- Three units shown, seven hidden. -/
theorem processable_iff_threeOfTen :
    validateParams (icebergDto 3 7) wirePair = .ok () ∧ Processable 1 1 (icebergDto 3 7) := by
  have hvalid : validateParams (icebergDto 3 7) wirePair = .ok () := by decide +kernel
  refine ⟨hvalid, (processable_iff 1 1 hvalid).mpr ⟨fun _ k hk => ?_, fun _ p hp => ?_⟩⟩
  · obtain rfl := Option.some.inj hk
    norm_num
  · obtain rfl := Option.some.inj hp
    norm_num

/-- **All ten units shown, none hidden**: the order is accepted, and the worker cannot build it. -/
theorem icebergAllShown_refused :
    validateParams (icebergDto 10 0) wirePair = .ok () ∧
      buildCorder (receivedPayload 1 (newOrder 1 (icebergDto 10 0))) =
        .error (.takerPartsMismatch (some 10) none 10) ∧
      ¬ Processable 1 1 (icebergDto 10 0) := by
  have hrefused : buildCorder (receivedPayload 1 (newOrder 1 (icebergDto 10 0))) =
      .error (.takerPartsMismatch (some 10) none 10) := by decide +kernel
  refine ⟨by decide +kernel, hrefused, fun h => ?_⟩
  exact absurd (h.built.symm.trans hrefused) (by simp)

end SpotExchange.Exchange
