import SpotExchange.Exchange.Serving
import SpotExchange.Lib.Lineage

namespace SpotExchange.Exchange

open Relation
open SpotExchange.Lib
open SpotExchange.Engine (OrderId)

/-!
# Chains of replacements

`modify_order` writes two links: from the new order to the old one when it inserts the new one, and
back when it is done.

* `Store.Replaces` — the relation of the first links, whose chains `ChainsWellFormed` describes;
* `Links` — the invariant: the links are mutually inverse, and what has been replaced is no longer
  active;
* `LinksKept` — ids stay below the sequence, and links stay as they should be;
* `run_chains` — chains are well formed in every store that calls of the API reach.
-/

/-- Order `b` replaces order `a`. -/
def Store.Replaces (s : Store) (b a : OrderId) : Prop :=
  ∃ o, s.pg.orders b = some o ∧ o.replacesId = some a

/-- The order is active. -/
def Store.HasActive (s : Store) (a : OrderId) : Prop :=
  ∃ o, s.pg.orders a = some o ∧ o.status.isActive = true

/-- What all the orders of a chain share. -/
def Order.origin (o : Order) : UserId × Symbol × OrderSide × OrderType :=
  (o.userId, o.symbol, o.side, o.type)

/-- **Chains of replacements.** -/
structure ChainsWellFormed (s : Store) : Prop where
  inverse : ∀ a b, (∃ o, s.pg.orders a = some o ∧ o.replacedById = some b) ↔ s.Replaces b a
  acyclic : ∀ a, ¬ TransGen s.Replaces a a
  rooted : ∀ a o, s.pg.orders a = some o → ∃ r root, ReflTransGen s.Replaces a r ∧
    s.pg.orders r = some root ∧ root.replacesId = none ∧ root.replaceCount = 0
  counted : ∀ a b o, s.pg.orders b = some o → o.replacesId = some a →
    ∃ o', s.pg.orders a = some o' ∧ o.replaceCount = o'.replaceCount + 1
  uniform : ∀ a b o o', EqvGen s.Replaces a b → s.pg.orders a = some o → s.pg.orders b = some o' →
    o.origin = o'.origin
  oneActive : ∀ a b, EqvGen s.Replaces a b → s.HasActive a → s.HasActive b → a = b
  lastActive : ∀ a b, EqvGen s.Replaces a b → s.HasActive a → ReflTransGen s.Replaces a b

/-- **The links between orders.** -/
structure Links (s : Store) : Prop where
  forth : ∀ a o b, s.pg.orders a = some o → o.replacedById = some b →
    ∃ o', s.pg.orders b = some o' ∧ o'.replacesId = some a
  back : ∀ b o a, s.pg.orders b = some o → o.replacesId = some a → a < b ∧
    ∃ o', s.pg.orders a = some o' ∧ o'.replacedById = some b ∧ o.replaceCount = o'.replaceCount + 1 ∧
      o.origin = o'.origin
  root : ∀ a o, s.pg.orders a = some o → o.replacesId = none → o.replaceCount = 0
  retired : ∀ a o b, s.pg.orders a = some o → o.replacedById = some b → o.status.isActive = false

/-- An order keeps its links, and does not come back to life. -/
structure Order.KeepsLinks (o o' : Order) : Prop where
  origin : o'.origin = o.origin
  count : o'.replaceCount = o.replaceCount
  replaces : o'.replacesId = o.replacesId
  replaced : o'.replacedById = o.replacedById
  inactive : o.status.isActive = false → o'.status.isActive = false

/-- An order that replaces nothing. -/
structure Order.Unlinked (o : Order) : Prop where
  count : o.replaceCount = 0
  replaces : o.replacesId = none
  replaced : o.replacedById = none

/-- Ids stay below the sequence, and links are kept. -/
def LinksKept (s s' : Store) : Prop := IdsBelow s ∧ Links s → IdsBelow s' ∧ Links s'

instance : IsPreorder Store LinksKept where
  refl _ := id
  trans _ _ _ h h' := h' ∘ h

section

variable {s s' : Store}

/-! ### The chains of linked orders -/

/-- Whom an order replaces. -/
theorem Links.replaces_iff (h : Links s) {a b : OrderId} :
    (∃ o, s.pg.orders a = some o ∧ o.replacedById = some b) ↔ s.Replaces b a := by
  constructor
  · rintro ⟨o, ho, hreplaced⟩
    exact h.forth a o b ho hreplaced
  · rintro ⟨o, ho, hreplaces⟩
    obtain ⟨-, o', ho', hreplaced, -, -⟩ := h.back b o a ho hreplaces
    exact ⟨o', ho', hreplaced⟩

/-- **Replacements form chains.** -/
theorem Links.lineage (h : Links s) : Lineage s.Replaces where
  one_predecessor := by
    rintro b a a' ⟨o, ho, ha⟩ ⟨o', ho', ha'⟩
    obtain rfl : o = o' := Option.some.inj (ho.symm.trans ho')
    exact Option.some.inj (ha.symm.trans ha')
  one_successor := by
    intro b b' a hb hb'
    obtain ⟨o, ho, hb⟩ := h.replaces_iff.mpr hb
    obtain ⟨o', ho', hb'⟩ := h.replaces_iff.mpr hb'
    obtain rfl : o = o' := Option.some.inj (ho.symm.trans ho')
    exact Option.some.inj (hb.symm.trans hb')
  later := by
    rintro b a ⟨o, ho, ha⟩
    exact (h.back b o a ho ha).1

/-- Nothing replaces an active order. -/
theorem Links.not_replaced (h : Links s) {a : OrderId} (ha : s.HasActive a) (b : OrderId) :
    ¬ s.Replaces b a := by
  intro hb
  obtain ⟨o, ho, hreplaced⟩ := h.replaces_iff.mpr hb
  obtain ⟨o', ho', hactive⟩ := ha
  obtain rfl : o = o' := Option.some.inj (ho.symm.trans ho')
  exact absurd hactive (by simp [h.retired a o b ho hreplaced])

/-- What an order replaces is an order of the same origin. -/
theorem Links.descends (h : Links s) {a r : OrderId} (har : ReflTransGen s.Replaces a r) {o : Order}
    (ho : s.pg.orders a = some o) : ∃ root, s.pg.orders r = some root ∧ root.origin = o.origin := by
  induction har with
  | refl => exact ⟨o, ho, rfl⟩
  | tail _ hbc ih =>
    obtain ⟨p, hp, hsame⟩ := ih
    obtain ⟨q, hq, hreplaces⟩ := hbc
    obtain rfl : p = q := Option.some.inj (hp.symm.trans hq)
    obtain ⟨-, p', hp', -, -, horigin⟩ := h.back _ p _ hp hreplaces
    exact ⟨p', hp', horigin.symm.trans hsame⟩

/-- **Linked orders form well-formed chains.** -/
theorem Links.wellFormed (h : Links s) : ChainsWellFormed s where
  inverse _ _ := h.replaces_iff
  acyclic := h.lineage.acyclic
  rooted := by
    intro a o ho
    obtain ⟨r, har, hroot⟩ := h.lineage.rooted a
    obtain ⟨root, hr, -⟩ := h.descends har ho
    have hnone : root.replacesId = none := by
      by_contra hne
      obtain ⟨c, hc⟩ := Option.ne_none_iff_exists'.mp hne
      exact hroot c ⟨root, hr, hc⟩
    exact ⟨r, root, har, hr, hnone, h.root r root hr hnone⟩
  counted := by
    intro a b o ho ha
    obtain ⟨-, o', ho', -, hcount, -⟩ := h.back b o a ho ha
    exact ⟨o', ho', hcount⟩
  uniform := by
    intro a b o o' hab ho ho'
    -- one of the two descends from the other, which keeps the terms
    rcases h.lineage.linear hab with hab | hba
    · obtain ⟨p, hp, hsame⟩ := h.descends hab ho
      obtain rfl : p = o' := Option.some.inj (hp.symm.trans ho')
      exact hsame.symm
    · obtain ⟨p, hp, hsame⟩ := h.descends hba ho'
      obtain rfl : p = o := Option.some.inj (hp.symm.trans ho)
      exact hsame
  oneActive := by
    intro a b hab ha hb
    have hab' := h.lineage.of_last (h.not_replaced ha) hab
    -- the other end of a chain that descends from `a` is replaced, unless it is `a`
    rcases ReflTransGen.cases_tail hab' with rfl | ⟨c, -, hcb⟩
    · rfl
    · exact absurd hcb (h.not_replaced hb c)
  lastActive _ _ hab ha := h.lineage.of_last (h.not_replaced ha) hab

/-! ### Rows -/

theorem Order.KeepsLinks.refl (o : Order) : o.KeepsLinks o := ⟨rfl, rfl, rfl, rfl, id⟩

/-- Rows that are old, or linked to nothing. -/
theorem Links.of_rows (h : Links s)
    (hstays : ∀ id o, s.pg.orders id = some o → ∃ o', s'.pg.orders id = some o' ∧ o.KeepsLinks o')
    (hrows : ∀ id o', s'.pg.orders id = some o' →
      (∃ o, s.pg.orders id = some o ∧ o.KeepsLinks o') ∨ o'.Unlinked) : Links s' where
  forth := by
    intro a o' b ho' hb
    -- a row that is new has no links
    rcases hrows a o' ho' with ⟨o, ho, hkeeps⟩ | hnew
    · obtain ⟨p, hp, hreplaces⟩ := h.forth a o b ho (hkeeps.replaced ▸ hb)
      obtain ⟨p', hp', hkeeps'⟩ := hstays b p hp
      exact ⟨p', hp', hkeeps'.replaces.trans hreplaces⟩
    · exact absurd (hnew.replaced.symm.trans hb) (Option.some_ne_none b).symm
  back := by
    intro b o' a ho' ha
    rcases hrows b o' ho' with ⟨o, ho, hkeeps⟩ | hnew
    · obtain ⟨hlt, p, hp, hreplaced, hcount, horigin⟩ := h.back b o a ho (hkeeps.replaces ▸ ha)
      obtain ⟨p', hp', hkeeps'⟩ := hstays a p hp
      refine ⟨hlt, p', hp', hkeeps'.replaced.trans hreplaced, ?_, ?_⟩
      · rw [hkeeps.count, hkeeps'.count]
        exact hcount
      · rw [hkeeps.origin, hkeeps'.origin]
        exact horigin
    · exact absurd (hnew.replaces.symm.trans ha) (Option.some_ne_none a).symm
  root := by
    intro a o' ho' hnone
    rcases hrows a o' ho' with ⟨o, ho, hkeeps⟩ | hnew
    · exact hkeeps.count.trans (h.root a o ho (hkeeps.replaces ▸ hnone))
    · exact hnew.count
  retired := by
    intro a o' b ho' hb
    rcases hrows a o' ho' with ⟨o, ho, hkeeps⟩ | hnew
    · exact hkeeps.inactive (h.retired a o b ho (hkeeps.replaced ▸ hb))
    · exact absurd (hnew.replaced.symm.trans hb) (Option.some_ne_none b).symm

theorem linksKept_of_orders (hseq : s'.orderIdSeq = s.orderIdSeq) (horders : s'.pg.orders = s.pg.orders) :
    LinksKept s s' := by
  rintro ⟨hids, hlinks⟩
  refine ⟨fun id hid => ?_, hlinks.of_rows (fun id o ho => ⟨o, horders ▸ ho, .refl o⟩)
    fun id o ho => .inl ⟨o, horders ▸ ho, .refl o⟩⟩
  rw [hseq]
  exact hids id (horders ▸ hid)

theorem linksKept_quiet (h : Quiet s s') : LinksKept s s' := by
  obtain ⟨balances, updates, rfl⟩ := h
  exact linksKept_of_orders rfl rfl

/-- Rows are written that keep their links. -/
theorem linksKept_of_map (hseq : s'.orderIdSeq = s.orderIdSeq) {f : OrderId → Order → Order}
    (horders : ∀ id, s'.pg.orders id = (s.pg.orders id).map (f id))
    (hf : ∀ id o, s.pg.orders id = some o → o.KeepsLinks (f id o)) : LinksKept s s' := by
  rintro ⟨hids, hlinks⟩
  refine ⟨fun id hid => ?_, hlinks.of_rows (fun id o ho => ⟨f id o, ?_, hf id o ho⟩) fun id o' ho' => ?_⟩
  · rw [hseq]
    refine hids id fun hnone => hid ?_
    rw [horders, hnone]
    rfl
  · rw [horders, ho]
    rfl
  · rw [horders] at ho'
    obtain ⟨o, ho, rfl⟩ := Option.map_eq_some_iff.mp ho'
    exact .inl ⟨o, ho, hf id o ho⟩

theorem linksKept_mapOrder {id : OrderId} {f : Order → Order} (hf : ∀ o : Order, o.KeepsLinks (f o)) :
    LinksKept s (s.mapOrder id f) := by
  unfold Store.mapOrder
  cases ho : s.pg.orders id with
  | none => exact refl_of LinksKept s
  | some o =>
    refine linksKept_of_map (f := fun k x => if k = id then f x else x) rfl (fun k => ?_) fun k x _ => ?_
    · by_cases hk : k = id
      · subst hk
        simp [ho]
      · simp [hk]
    · show x.KeepsLinks (if k = id then f x else x)
      split_ifs
      · exact hf x
      · exact .refl x

/-- A row is inserted that is linked to nothing. -/
theorem linksKept_insert {o : Order} (h : o.Unlinked) : LinksKept s (s.insert o) := by
  rintro ⟨hids, hlinks⟩
  refine ⟨(drains_insert o hids).ids, hlinks.of_rows (fun id p hp => ⟨p, ?_, .refl p⟩) fun id p hp => ?_⟩
  · have hne : id ≠ s.orderIdSeq := (hids id (by rw [hp]; simp)).ne
    simpa [Store.insert, hne] using hp
  · by_cases hid : id = s.orderIdSeq
    · obtain rfl : o = p := by simpa [Store.insert, hid] using hp
      exact .inr h
    · exact .inl ⟨p, by simpa [Store.insert, hid] using hp, .refl p⟩

theorem linksKept_addChild {parentId : OrderId} {parent : Order} {config : Option SltpConfig}
    {link : OrderId → Order → Order} (hlink : ∀ id (o : Order), o.KeepsLinks (link id o)) :
    LinksKept s (s.addChild parentId parent config link) := by
  cases config with
  | none => exact refl_of LinksKept s
  | some config =>
    have hinserted : LinksKept s (s.insert (sltpChild parentId parent config)) :=
      linksKept_insert ⟨rfl, rfl, rfl⟩
    exact trans_of LinksKept hinserted (linksKept_mapOrder (hlink _))

theorem linksKept_placed (userId : UserId) (dto : OrderCreateDto) :
    LinksKept s (s.placed userId dto) := by
  have hparent : LinksKept s (s.insert (newOrder userId dto)) := linksKept_insert ⟨rfl, rfl, rfl⟩
  have hsl : ∀ childId (o : Order), o.KeepsLinks { o with slOrderId := some childId } :=
    fun _ _ => ⟨rfl, rfl, rfl, rfl, id⟩
  have htp : ∀ childId (o : Order), o.KeepsLinks { o with tpOrderId := some childId } :=
    fun _ _ => ⟨rfl, rfl, rfl, rfl, id⟩
  have hinserted : LinksKept s (s.inserted userId dto) :=
    trans_of LinksKept (trans_of LinksKept hparent (linksKept_addChild hsl)) (linksKept_addChild htp)
  have hindexed : LinksKept (s.inserted userId dto) (s.placed userId dto) := linksKept_of_orders rfl rfl
  exact trans_of LinksKept hinserted hindexed

theorem keepsLinks_canceled (o : Order) : o.KeepsLinks o.canceled :=
  ⟨rfl, rfl, rfl, rfl, fun _ => rfl⟩

theorem keepsLinks_orphaned (parentId : OrderId) (o : Order) : o.KeepsLinks (o.orphaned parentId) := by
  unfold Order.orphaned
  split_ifs
  · exact keepsLinks_canceled o
  · exact .refl o

/-- **A cancellation** keeps all links. -/
theorem linksKept_cancel {id : OrderId} {order : Order} (ho : s.pg.orders id = some order) :
    LinksKept s (s.cancel id order) := by
  refine linksKept_of_map (f := fun k o => if k = id then o.canceled.orphaned id else o.orphaned id)
    rfl (fun k => ?_) fun k o _ => ?_
  · show (Function.update s.pg.orders id (some order.canceled) k).map (Order.orphaned id) = _
    by_cases hk : k = id
    · subst hk
      simp [ho]
    · simp [hk]
  · show o.KeepsLinks (if k = id then o.canceled.orphaned id else o.orphaned id)
    split_ifs
    · have h := keepsLinks_orphaned id o.canceled
      exact ⟨h.origin, h.count, h.replaces, h.replaced, fun _ => h.inactive rfl⟩
    · exact keepsLinks_orphaned id o

/-! ### Replacements -/

section

variable {id : OrderId} {old : Order} {newPrice newQuantity : ℚ}

/-- A row stays, with what it replaces; the old order alone is linked forwards. -/
theorem replace_stays (hids : IdsBelow s) (hold : s.pg.orders id = some old) {k : OrderId} {o : Order}
    (ho : s.pg.orders k = some o) :
    ∃ o', (s.replace id old newPrice newQuantity).pg.orders k = some o' ∧
      o'.replacesId = o.replacesId ∧ o'.replaceCount = o.replaceCount ∧ o'.origin = o.origin ∧
        (k ≠ id → o'.replacedById = o.replacedById) := by
  by_cases hk : k = id
  · subst hk
    obtain rfl : old = o := Option.some.inj (hold.symm.trans ho)
    exact ⟨_, replace_old, rfl, rfl, rfl, fun hne => absurd rfl hne⟩
  · have hseq : k ≠ s.orderIdSeq := (hids k (by rw [ho]; simp)).ne
    exact ⟨o, (replace_other hk hseq).trans ho, rfl, rfl, rfl, fun _ => rfl⟩

/-- **A replacement** links the new order to an old one that was not linked forwards. -/
theorem linksKept_replace (newPrice newQuantity : ℚ) (hold : s.pg.orders id = some old)
    (hactive : old.status.isActive = true) : LinksKept s (s.replace id old newPrice newQuantity) := by
  rintro ⟨hids, hlinks⟩
  have hlt : id < s.orderIdSeq := hids id (by rw [hold]; simp)
  -- an active order has not been replaced yet
  have hnone : old.replacedById = none := by
    by_contra hne
    obtain ⟨b, hb⟩ := Option.ne_none_iff_exists'.mp hne
    exact absurd hactive (by simp [hlinks.retired id old b hold hb])
  -- links backwards lead to rows other than the old order
  have hback : ∀ b o a, s.pg.orders b = some o → o.replacesId = some a → a < b ∧
      ∃ o', (s.replace id old newPrice newQuantity).pg.orders a = some o' ∧ o'.replacedById = some b ∧
        o.replaceCount = o'.replaceCount + 1 ∧ o.origin = o'.origin := by
    intro b o a ho ha
    obtain ⟨hab, p, hp, hreplaced, hcount, horigin⟩ := hlinks.back b o a ho ha
    have hne : a ≠ id := by
      rintro rfl
      obtain rfl : old = p := Option.some.inj (hold.symm.trans hp)
      exact absurd (hnone.symm.trans hreplaced) (Option.some_ne_none b).symm
    obtain ⟨p', hp', -, hcount', horigin', hreplaced'⟩ := replace_stays hids hold hp
    exact ⟨hab, p', hp', (hreplaced' hne).trans hreplaced, by rw [hcount', hcount],
      horigin.trans horigin'.symm⟩
  refine ⟨fun k hk => ?_, ?_, ?_, ?_, ?_⟩
  · show k < s.orderIdSeq + 1
    obtain ⟨o', ho'⟩ := Option.ne_none_iff_exists'.mp hk
    rcases replace_cases hlt ho' with ⟨rfl, -⟩ | ⟨rfl, -⟩ | ⟨-, ho⟩
    · exact hlt.trans (Nat.lt_succ_self _)
    · exact Nat.lt_succ_self _
    · exact (hids k (by rw [ho]; simp)).trans (Nat.lt_succ_self _)
  · intro a o' b ho' hb
    -- the old order is linked to the new one, and no other link changes
    rcases replace_cases hlt ho' with ⟨rfl, rfl⟩ | ⟨rfl, rfl⟩ | ⟨-, ho⟩
    · obtain rfl : s.orderIdSeq = b := Option.some.inj hb
      exact ⟨_, replace_new hlt, rfl⟩
    · exact absurd hb (Option.some_ne_none b).symm
    · obtain ⟨p, hp, hreplaces⟩ := hlinks.forth a o' b ho hb
      obtain ⟨p', hp', hreplaces', -⟩ := replace_stays hids hold hp
      exact ⟨p', hp', hreplaces'.trans hreplaces⟩
  · intro b o' a ho' ha
    rcases replace_cases hlt ho' with ⟨rfl, rfl⟩ | ⟨rfl, rfl⟩ | ⟨-, ho⟩
    · exact hback b old a hold ha
    · obtain rfl : id = a := Option.some.inj ha
      exact ⟨hlt, _, replace_old, rfl, rfl, rfl⟩
    · exact hback b o' a ho ha
  · intro a o' ho' hreplaces
    rcases replace_cases hlt ho' with ⟨rfl, rfl⟩ | ⟨rfl, rfl⟩ | ⟨-, ho⟩
    · exact hlinks.root a old hold hreplaces
    · exact absurd hreplaces (Option.some_ne_none id)
    · exact hlinks.root a o' ho hreplaces
  · intro a o' b ho' hb
    rcases replace_cases hlt ho' with ⟨rfl, rfl⟩ | ⟨rfl, rfl⟩ | ⟨-, ho⟩
    · rfl
    · exact absurd hb (Option.some_ne_none b).symm
    · exact hlinks.retired a o' b ho hb

end

/-! ### Runs -/

theorem linksKept_calls (req : Request) : CallSteps LinksKept req where
  quiet := linksKept_quiet
  placed := fun _ userId dto _ _ _ _ => linksKept_placed userId dto
  canceled := fun _ _ _ _ _ _ ho _ _ => linksKept_cancel ho
  replaced := fun _ _ _ _ p q _ _ _ ho _ hactive _ _ _ _ _ => linksKept_replace p q ho hactive

theorem links_start (users : Finset UserId) (pairs : Symbol → Option TradingPair)
    (balances : Ledger.BalanceKey → Option Ledger.Row) : Links (Store.start users pairs balances) where
  forth := fun _ _ _ ho => nomatch ho
  back := fun _ _ _ ho => nomatch ho
  root := fun _ _ ho => nomatch ho
  retired := fun _ _ _ ho => nomatch ho

end

/-- **Chains of replacements are well formed** after any calls of the API, of any users in any order. -/
theorem run_chains (users : Finset UserId) (pairs : Symbol → Option TradingPair)
    (balances : Ledger.BalanceKey → Option Ledger.Row) {reqs : List Request}
    (hcalls : ∀ req ∈ reqs, req.isCall = true) :
    ChainsWellFormed ((Store.start users pairs balances).serveAll reqs) := by
  have hrun : Run.Along Store.serve (fun _ req => req.isCall = true) (Store.start users pairs balances)
      reqs := Run.Along.of_forall fun req hreq _ => hcalls req hreq
  have hlinked := Run.Along.invariant (I := fun s => IdsBelow s ∧ Links s)
    (fun s req hs hcall => (linksKept_calls req).serve hs.1 hcall hs)
    ⟨(consistent_start users pairs balances).ids, links_start users pairs balances⟩ hrun
  exact hlinked.2.wellFormed

/-! ### A bid that is moved twice -/

/-- One unit is bid for at 10, then at 11, then at 12. -/
def movedBids : List Request :=
  [.place 1 (limitDto .buy 1 10), .modify 1 1 11 1, .modify 1 2 12 1]

theorem run_chains_movedBids : ChainsWellFormed (twoUsers.serveAll movedBids) ∧
    ((twoUsers.serveAll movedBids).pg.orders 3).map (fun o => (o.replacesId, o.replaceCount)) =
      some (some 2, 2) := by
  refine ⟨run_chains _ _ _ fun req hreq => ?_, by decide +kernel⟩
  simp only [movedBids, List.mem_cons, List.not_mem_nil, or_false] at hreq
  rcases hreq with rfl | rfl | rfl <;> rfl

end SpotExchange.Exchange
