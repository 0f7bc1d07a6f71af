import SpotExchange.Exchange.Releasing

namespace SpotExchange.Exchange

open SpotExchange.Lib
open SpotExchange.Engine (OrderId)

/-!
# Whose orders there are, and where

* `OriginsIn P s` — every order has a user and a market that `P` allows;
* `originsIn_serve` — a request keeps this, if what it asks for is allowed: children, replacements and
  triggered orders inherit the user and the market;
* `marketsKnown_serveAll` — so every order of a run is of a market that exists.
-/

/-- Every order has a user and a market that `P` allows. -/
def OriginsIn (P : UserId → Symbol → Prop) (s : Store) : Prop :=
  ∀ id o, s.pg.orders id = some o → P o.userId o.symbol

/-- Every order is of a market that exists. -/
def MarketsKnown (s : Store) : Prop := OriginsIn (fun _ symbol => s.pg.tradingPairs symbol ≠ none) s

section

variable {P : UserId → Symbol → Prop} {s s' : Store} {id : OrderId} {o : Order} {req : Request}

theorem OriginsIn.of_orders (h : OriginsIn P s) (horders : s'.pg.orders = s.pg.orders) :
    OriginsIn P s' := by
  intro id o ho
  rw [horders] at ho
  exact h id o ho

theorem OriginsIn.of_terms (h : OriginsIn P s) (horders : ∀ id o', s'.pg.orders id = some o' →
    ∃ o, s.pg.orders id = some o ∧ o'.terms = o.terms) : OriginsIn P s' := by
  intro id o' ho'
  obtain ⟨o, ho, hterms⟩ := horders id o' ho'
  have huser : o'.userId = o.userId := congrArg OrderTerms.userId hterms
  have hsymbol : o'.symbol = o.symbol := congrArg OrderTerms.symbol hterms
  rw [huser, hsymbol]
  exact h id o ho

theorem OriginsIn.update (h : OriginsIn P s) (ho : P o.userId o.symbol)
    (horders : s'.pg.orders = Function.update s.pg.orders id (some o)) : OriginsIn P s' := by
  intro k x hx
  rw [horders] at hx
  by_cases hk : k = id
  · subst hk
    rw [Function.update_self] at hx
    obtain rfl := Option.some.inj hx
    exact ho
  · rw [Function.update_of_ne hk] at hx
    exact h k x hx

/-! ### Placement -/

/-- A child has the user and the market of its parent. -/
theorem OriginsIn.addChild (h : OriginsIn P s) {parentId : OrderId} {parent : Order}
    (hparent : P parent.userId parent.symbol) (config : Option SltpConfig)
    {link : OrderId → Order → Order} (hlink : ∀ childId o, (link childId o).terms = o.terms) :
    OriginsIn P (s.addChild parentId parent config link) := by
  cases config with
  | none => exact h
  | some config =>
    let t := s.insert (sltpChild parentId parent config)
    have hinsert : OriginsIn P t := h.update (o := sltpChild parentId parent config) hparent rfl
    show OriginsIn P (t.mapOrder parentId (link s.orderIdSeq))
    unfold Store.mapOrder
    cases ho : t.pg.orders parentId with
    | none => exact hinsert
    | some o =>
      refine hinsert.of_terms fun k x hx => ?_
      have hx : Function.update t.pg.orders parentId (some (link s.orderIdSeq o)) k = some x := hx
      by_cases hk : k = parentId
      · subst hk
        rw [Function.update_self] at hx
        obtain rfl := Option.some.inj hx
        exact ⟨o, ho, hlink _ _⟩
      · rw [Function.update_of_ne hk] at hx
        exact ⟨x, hx, rfl⟩

theorem OriginsIn.placed (h : OriginsIn P s) {userId : UserId} {dto : OrderCreateDto}
    (hdto : P userId dto.symbol) : OriginsIn P (s.placed userId dto) := by
  have hnew : P (newOrder userId dto).userId (newOrder userId dto).symbol := hdto
  have hinsert : OriginsIn P (s.insert (newOrder userId dto)) := h.update hnew rfl
  have hsl : ∀ childId (o : Order), ({ o with slOrderId := some childId } : Order).terms = o.terms :=
    fun _ _ => rfl
  have htp : ∀ childId (o : Order), ({ o with tpOrderId := some childId } : Order).terms = o.terms :=
    fun _ _ => rfl
  exact ((hinsert.addChild hnew dto.sl hsl).addChild hnew dto.tp htp).of_orders rfl

/-! ### Requests -/

theorem originsIn_calls (hasks : ∀ userId dto, req.Asks userId dto →
    s.pg.tradingPairs dto.symbol ≠ none → P userId dto.symbol) :
    CallSteps (fun t t' => t.pg.tradingPairs = s.pg.tradingPairs → t'.pg.tradingPairs = s.pg.tradingPairs ∧
      (OriginsIn P t → OriginsIn P t')) req where
  quiet := by
    rintro t t' ⟨balances, updates, rfl⟩ hpairs
    exact ⟨hpairs, fun h => h⟩
  placed := by
    intro t userId dto pair hreq hpair _ hpairs
    refine ⟨(placed_pairs t userId dto).trans hpairs, fun h => h.placed (hasks userId dto hreq ?_)⟩
    rw [← hpairs, hpair]
    simp
  canceled := by
    intro t _ id order _ hids ho _ _ hpairs
    refine ⟨hpairs, fun h => h.of_terms fun k x hx => ?_⟩
    rcases (fillsStay_cancel ho).rows k x hx with ⟨o, ho', hterms, -⟩ | ⟨hle, -⟩
    · exact ⟨o, ho', hterms⟩
    · -- nothing is inserted
      have hlt := (drains_cancel ho hids).ids k (by rw [hx]; simp)
      exact absurd hlt (not_lt.mpr hle)
  replaced := by
    intro t _ id old newPrice newQuantity pair _ hids hold _ _ _ _ _ _ _ hpairs
    refine ⟨hpairs, fun h k x hx => ?_⟩
    have hold' := h id old hold
    rw [replace_orders] at hx
    by_cases hk : k = id
    · subst hk
      rw [Function.update_self] at hx
      obtain rfl := Option.some.inj hx
      exact hold'
    rw [Function.update_of_ne hk] at hx
    by_cases hnew : k = t.orderIdSeq
    · subst hnew
      rw [Function.update_self] at hx
      obtain rfl := Option.some.inj hx
      exact hold'
    · rw [Function.update_of_ne hnew] at hx
      exact h k x hx

theorem originsIn_monitor : MonitorSteps (Prog.Preserves (OriginsIn P)) where
  quiet := by
    rintro s s' ⟨balances, updates, rfl⟩ h
    exact h
  triggered := fun _ id order _ _ ho _ h => by
    have horigin := h id order ho
    let filled : Order := { order with status := .filled, version := order.version + 1 }
    have hfilled : OriginsIn P (Store.putOrder _ id filled) := h.update (o := filled) horigin rfl
    exact hfilled.update (o := triggeredChild id order) horigin rfl

/-- **Every request keeps the users and the markets of the orders in `P`**, if those that it asks for
    are. -/
theorem originsIn_serve (hcons : Consistent s) (h : OriginsIn P s) (hasks : ∀ userId dto,
    req.Asks userId dto → s.pg.tradingPairs dto.symbol ≠ none → P userId dto.symbol) :
    OriginsIn P (s.serve req) := by
  cases req with
  | print m symbol price =>
    exact serve_print_moves (R := Prog.Preserves (OriginsIn P)) (fun _ _ _ h => h)
      originsIn_monitor.tryTrigger s m symbol price h
  | rescan symbol lastPrice => exact originsIn_monitor.rescan symbol lastPrice h
  | work =>
    intro id o' ho'
    have hterms := work_terms hcons.engine id
    rw [show (s.serve .work).pg.orders id = some o' from ho', Option.map_some] at hterms
    obtain ⟨o, ho, heq⟩ := Option.map_eq_some_iff.mp hterms.symm
    have huser : o.userId = o'.userId := congrArg OrderTerms.userId heq
    have hsymbol : o.symbol = o'.symbol := congrArg OrderTerms.symbol heq
    rw [← huser, ← hsymbol]
    exact h id o ho
  | _ =>
    have : IsPreorder Store (fun t t' => t.pg.tradingPairs = s.pg.tradingPairs →
        t'.pg.tradingPairs = s.pg.tradingPairs ∧ (OriginsIn P t → OriginsIn P t')) :=
      { refl := fun _ hpairs => ⟨hpairs, id⟩
        trans := fun _ _ _ h h' hpairs =>
          ⟨(h' (h hpairs).1).1, fun ht => (h' (h hpairs).1).2 ((h hpairs).2 ht)⟩ }
    exact ((originsIn_calls hasks).serve hcons.ids rfl rfl).2 h

/-! ### Users and markets -/

theorem placed_users (s : Store) (userId : UserId) (dto : OrderCreateDto) :
    (s.placed userId dto).pg.users = s.pg.users := by
  have hchild : ∀ (t : Store) parentId parent config link,
      (t.addChild parentId parent config link).pg.users = t.pg.users := by
    intro t parentId parent config link
    cases config with
    | none => rfl
    | some config =>
      simp only [Store.addChild, Store.mapOrder]
      split <;> rfl
  exact (hchild _ _ _ _ _).trans (hchild _ _ _ _ _)

/-- **No request touches the users.** -/
theorem serve_users (hcons : Consistent s) (req : Request) : (s.serve req).pg.users = s.pg.users := by
  let R := Prog.Keeps fun s : Store => s.pg.users
  have hquiet : ∀ {s s'}, Quiet s s' → R s s' := by
    rintro s s' ⟨balances, updates, rfl⟩
    exact rfl
  have hcalls : CallSteps R req :=
    { quiet := hquiet
      placed := fun s userId dto _ _ _ _ => placed_users s userId dto
      canceled := fun _ _ _ _ _ _ _ _ _ => rfl
      replaced := fun _ _ _ _ _ _ _ _ _ _ _ _ _ _ _ _ _ => rfl }
  have hmonitor : MonitorSteps R := { quiet := hquiet, triggered := fun _ _ _ _ _ _ _ => rfl }
  have hwork : WorkSteps R :=
    { queue := fun _ _ => rfl
      engine := fun _ _ => rfl
      fill := fun _ _ =>
        { trade := fun _ _ _ => rfl
          makerUser := fun _ _ _ _ => rfl
          balance := fun _ _ _ _ => rfl
          maker := fun _ _ _ _ _ => rfl
          redisMaker := fun _ _ _ _ _ => rfl
          taker := fun _ _ _ => rfl }
      child := fun _ _ _ _ _ _ => rfl
      undo := fun _ _ _ => rfl
      refunded := fun _ _ _ _ => rfl
      unscored := fun _ _ _ => rfl
      rested := fun _ _ _ _ => rfl }
  exact serve_moves hcalls hmonitor (fun _ _ _ => rfl) (fun _ => hwork.serve hcons.engine) hcons.ids

theorem marketsKnown_serve (hcons : Consistent s) (h : MarketsKnown s) (req : Request) :
    MarketsKnown (s.serve req) := by
  unfold MarketsKnown
  rw [serve_pairs hcons.ids hcons.engine req]
  exact originsIn_serve hcons h fun _ _ _ hpair => hpair

theorem marketsKnown_serveAll (hcons : Consistent s) (h : MarketsKnown s) (reqs : List Request) :
    MarketsKnown (s.serveAll reqs) :=
  (Run.invariant (I := fun s => Consistent s ∧ MarketsKnown s)
    (fun _ req hI => ⟨consistent_serve hI.1 req, marketsKnown_serve hI.1 hI.2 req⟩) ⟨hcons, h⟩ reqs).2

end

end SpotExchange.Exchange
