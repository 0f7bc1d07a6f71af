import SpotExchange.Exchange.Adjusting

namespace SpotExchange.Exchange

open SpotExchange.Lib
open SpotExchange.Engine (OrderId)
open SpotExchange.Ledger (BalanceKey Row)
open scoped BigOperators

/-!
# The supply of an asset along a run

* `Backed` — orders of known users and markets, sound rows, and a row for each user and each asset that
  is traded;
* `supply_serve` — a request then neither makes nor destroys anything;
* `run_supply` — along a run with adjustments, the supply of an asset changes by those that are committed,
  and by nothing else.
-/

/-- **What the supply rests on.** -/
structure Backed (s : Store) : Prop extends Sweepable s where
  consistent : Consistent s
  owners : OriginsIn (fun userId _ => userId ∈ s.pg.users) s
  funded : ∀ symbol pair, s.pg.tradingPairs symbol = some pair → ∀ u ∈ s.pg.users,
    s.pg.balances (u, pair.baseAsset) ≠ none ∧ s.pg.balances (u, pair.quoteAsset) ≠ none

section

variable {s s' : Store} {args : BatchArgs} {trades : List DomainTrade} {owner : OrderId → UserId}
  {key : BalanceKey}

/-! ### A batch -/

/-- Only the two parties of a trade gain or lose, and only in the two assets of the market. -/
theorem expectedChange_ne_zero (h : expectedChange args owner trades key ≠ 0) :
    ∃ t ∈ trades, (key.1 = args.buyer owner t ∨ key.1 = args.seller owner t) ∧
      (key.2 = args.baseAsset ∨ key.2 = args.quoteAsset) := by
  induction trades with
  | nil => exact absurd rfl h
  | cons t trades ih =>
    by_cases hrest : expectedChange args owner trades key = 0
    · refine ⟨t, List.mem_cons_self, ?_⟩
      have hfirst : tradeChange args owner t key ≠ 0 := by
        intro hzero
        refine h ?_
        show ((t :: trades).map (tradeChange args owner)).sum key = 0
        rw [List.map_cons, List.sum_cons, Pi.add_apply, hzero, zero_add]
        exact hrest
      by_contra hnot
      refine hfirst ?_
      have hne : ∀ u a, (u = args.buyer owner t ∨ u = args.seller owner t) →
          (a = args.baseAsset ∨ a = args.quoteAsset) → key ≠ (u, a) := by
        rintro u a hu ha rfl
        exact hnot ⟨hu, ha⟩
      simp [tradeChange, hne]
    · obtain ⟨t', ht', hparty⟩ := ih hrest
      exact ⟨t', List.mem_cons_of_mem _ ht', hparty⟩

/-- The supply is the sum of the totals. -/
theorem supply_congr (husers : s'.pg.users = s.pg.users) (h : ∀ key, s'.total key = s.total key)
    (asset : Asset) : s'.supply asset = s.supply asset := by
  rw [Store.supply, Store.supply, husers]
  exact Finset.sum_congr rfl fun u _ => h (u, asset)

/-- **A committed batch** between funded users conserves every asset. -/
theorem supply_batch {rows : List Trade} (h : persistTradeBatch args trades s = (.ok rows, s'))
    (howners : OriginsIn (fun userId _ => userId ∈ s.pg.users) s)
    (hfunded : ∀ u ∈ s.pg.users, s.pg.balances (u, args.baseAsset) ≠ none ∧
      s.pg.balances (u, args.quoteAsset) ≠ none) (asset : Asset) : s'.supply asset = s.supply asset := by
  obtain ⟨hset, hrefs, hsettles⟩ := persistTradeBatch_spec h
  have hparties : ∀ t ∈ trades, args.buyer s.owner t ∈ s.pg.users ∧ args.seller s.owner t ∈ s.pg.users := by
    intro t ht
    have hown : ∀ id, (s.pg.orders id).isSome = true → s.owner id ∈ s.pg.users := by
      intro id hsome
      obtain ⟨o, ho⟩ := Option.isSome_iff_exists.mp hsome
      simpa [Store.owner, ho] using howners id o ho
    have ht := hrefs t ht
    simp only [Database.tradeRefs, Bool.and_eq_true] at ht
    unfold BatchArgs.buyer BatchArgs.seller
    cases args.takerSide
    · exact ⟨hown _ ht.1.1.1.1, hown _ ht.1.1.1.2⟩
    · exact ⟨hown _ ht.1.1.1.2, hown _ ht.1.1.1.1⟩
  -- every balance that should change has a row
  have hrows : ∀ key, expectedChange args s.owner trades key ≠ 0 → s.pg.balances key ≠ none := by
    rintro ⟨u, a⟩ hne
    obtain ⟨t, ht, hu, ha⟩ : ∃ t ∈ trades, (u = args.buyer s.owner t ∨ u = args.seller s.owner t) ∧
      (a = args.baseAsset ∨ a = args.quoteAsset) := expectedChange_ne_zero hne
    have hu : u ∈ s.pg.users := by
      rcases hu with rfl | rfl
      · exact (hparties t ht).1
      · exact (hparties t ht).2
    rcases ha with rfl | rfl
    · exact (hfunded u hu).1
    · exact (hfunded u hu).2
  have hexact : ∀ key, s'.total key - s.total key = expectedChange args s.owner trades key := by
    intro key
    rw [total_of_shifts hsettles.balances, batchEffect_total]
    split_ifs with hnone
    · by_contra hne
      exact hrows key (Ne.symm hne) hnone
    · rfl
  have husers : s'.pg.users = s.pg.users := congrArg (fun x => x.1) hset
  have hsum := expectedChange_sum hparties asset
  rw [← sub_eq_zero, Store.supply, Store.supply, husers, ← Finset.sum_sub_distrib, ← hsum]
  exact Finset.sum_congr rfl fun u _ => hexact (u, asset)

/-! ### Requests -/

/-- **A round of the worker** conserves every asset. -/
theorem supply_work (h : Backed s) (asset : Asset) : (s.serve .work).supply asset = s.supply asset := by
  have husers := serve_users h.consistent .work
  suffices hsuff : ∃ t : Store, t.pg.users = s.pg.users ∧ t.supply asset = s.supply asset ∧
      KeptTotals t (s.serve .work) by
    obtain ⟨t, ht, hsupply, hkept⟩ := hsuff
    rw [← hsupply]
    exact supply_congr (husers.trans ht.symm) hkept.total asset
  have hsame : ∀ t : Store, t.pg = s.pg → t.pg.users = s.pg.users ∧ t.supply asset = s.supply asset := by
    intro t ht
    refine ⟨by rw [ht], ?_⟩
    simp only [Store.supply, Store.total, ht]
  cases hqueue : s.redis.ordersQueue with
  | nil =>
    refine ⟨s, rfl, rfl, ?_⟩
    show KeptTotals s (work s).2
    rw [work_nil hqueue]
    exact refl_of KeptTotals s
  | cons p rest =>
    show ∃ t : Store, _ ∧ _ ∧ KeptTotals t (work s).2
    rw [work_cons hqueue]
    dsimp only
    split_ifs with hplace
    swap
    · exact ⟨s, rfl, rfl, keptTotals_steps.same rfl⟩
    obtain ⟨e, -, hstate, -⟩ := matchPlaced_spec (s := s.setQueue rest) h.consistent.engine p
    have hpg : (matchPlaced p (s.setQueue rest)).2.pg = s.pg := by
      rw [hstate]
      rfl
    rcases hmatch : matchPlaced p (s.setQueue rest) with ⟨err | r, s₁⟩ <;> rw [hmatch] at hpg
    · rw [handlePlace_unmatched hmatch]
      exact ⟨s₁, (hsame s₁ hpg).1, (hsame s₁ hpg).2, refl_of KeptTotals s₁⟩
    rcases handlePlace_matched hmatch with hx | ⟨-, ⟨-, hx⟩ | ⟨-, pair, hpair, ⟨rows, s₂, hbatch, hx⟩ |
      ⟨err, s₂, hbatch, hx⟩⟩⟩ <;> rw [hx]
    · exact ⟨s₁, (hsame s₁ hpg).1, (hsame s₁ hpg).2, refl_of KeptTotals s₁⟩
    · exact ⟨s₁, (hsame s₁ hpg).1, (hsame s₁ hpg).2, keptTotals_steps.finishPlaced p _ s₁⟩
    · -- the trades are persisted, then what is left of the order rests or is refunded
      have hset : s₂.pg.users = s₁.pg.users := congrArg (fun x => x.1) (persistTradeBatch_spec hbatch).1
      have howners : OriginsIn (fun userId _ => userId ∈ s₁.pg.users) s₁ := by
        rw [show s₁.pg = s.pg from hpg]
        exact h.owners.of_orders (congrArg Database.orders hpg)
      have hpair' : s.pg.tradingPairs p.symbol = some pair := by
        rw [← show s₁.pg = s.pg from hpg]
        exact hpair
      refine ⟨s₂, hset.trans (hsame s₁ hpg).1, ?_, keptTotals_steps.finishPlaced p _ s₂⟩
      refine (supply_batch hbatch howners ?_ asset).trans (hsame s₁ hpg).2
      rw [show s₁.pg = s.pg from hpg]
      exact h.funded p.symbol pair hpair'
    · exact ⟨s₁, (hsame s₁ hpg).1, (hsame s₁ hpg).2, keptTotals_steps.same rfl⟩

/-- **No request makes or destroys anything.** -/
theorem supply_serve (h : Backed s) (req : Request) (asset : Asset) :
    (s.serve req).supply asset = s.supply asset := by
  by_cases hwork : req = .work
  · subst hwork
    exact supply_work h asset
  · exact supply_congr (serve_users h.consistent req) (keptTotals_steps.serve s hwork).total asset

/-- Who asks for an order is a known user. -/
def AsksIn (users : Finset UserId) (req : Request) : Prop := ∀ userId dto, req.Asks userId dto → userId ∈ users

theorem backed_serve (h : Backed s) {req : Request} (hasks : AsksIn s.pg.users req) :
    Backed (s.serve req) where
  rows := (audited_serve s req).rowsOk h.rows
  markets := marketsKnown_serve h.consistent h.markets req
  consistent := consistent_serve h.consistent req
  owners := by
    rw [serve_users h.consistent req]
    exact originsIn_serve h.consistent h.owners fun userId dto hreq _ => hasks userId dto hreq
  funded := by
    rw [serve_pairs h.consistent.ids h.consistent.engine req, serve_users h.consistent req]
    intro symbol pair hpair u hu
    obtain ⟨hbase, hquote⟩ := h.funded symbol pair hpair u hu
    exact ⟨(audited_serve s req).ne_none hbase, (audited_serve s req).ne_none hquote⟩

/-- **A bulk cancel** makes and destroys nothing: it is a run of cancellations. -/
theorem backed_cancels (h : Backed s) (userId : UserId) (ids : List OrderId) :
    Backed (s.serveAll (ids.map (Request.cancel userId))) ∧
      ∀ asset, (s.serveAll (ids.map (Request.cancel userId))).supply asset = s.supply asset := by
  induction ids generalizing s with
  | nil => exact ⟨h, fun _ => rfl⟩
  | cons id ids ih =>
    have hasks : AsksIn s.pg.users (.cancel userId id) := fun _ _ hreq => hreq.elim
    obtain ⟨hbacked, hsupply⟩ := ih (backed_serve h hasks)
    exact ⟨hbacked, fun asset => (hsupply asset).trans (supply_serve h _ asset)⟩

/-! ### Runs with an admin -/

/-- What an adjustment does to the store: a missing row is made first, then a row is moved. -/
theorem loaded_rows {b b₁ : Bank} {row row' : Row} {delta : ℚ} (hloaded : Loaded b key row b₁)
    (hadjust : Ledger.adjustBalance key row delta = .ok row') :
    Relation.ReflTransGen BalanceStep b.store.pg.balances (b₁.setBalance key row').store.pg.balances := by
  cases hloaded with
  | found row hrow => exact .single (.adjusted key row row' delta hrow hadjust)
  | created hrow huser =>
    refine .tail (.single (.created key hrow)) ?_
    exact .adjusted key Row.zero row' delta (Function.update_self ..) hadjust

/-- **Every action changes the table by operations of the balance service.** -/
theorem audited_act (b : Bank) (a : Action) : Audited b.store (b.act a).store := by
  cases a with
  | request req => exact audited_serve b.store req
  | cancelBulk userId orderIds symbol cancelAll =>
    have hone : ∀ id, Prog.Moves Audited (cancelOne userId id) := fun id =>
      ((audited_steps.cancelOrder userId id).bind fun _ => Prog.moves_pure _).tryExcept fun err =>
        Prog.Moves.ite (fun _ => Prog.moves_pure _) fun _ => Prog.moves_raise _
    have heach : ∀ ids, Prog.Moves Audited (cancelEach userId ids) := by
      intro ids
      induction ids with
      | nil => exact Prog.moves_pure _
      | cons id ids ih => exact (hone id).bind fun _ => ih.bind fun _ => Prog.moves_pure _
    have hbulk : Prog.Moves Audited (cancelBulkOrders userId orderIds symbol cancelAll) :=
      (Prog.moves_read _).bind fun ids => Prog.Moves.ite (fun _ => Prog.moves_pure _) fun _ => heach ids
    exact audited_steps.transaction hbulk b.store
  | adjust key delta reason =>
    show Audited b.store (adjustBalance key delta reason b).2.store
    rcases adjustBalance_cases b key delta reason with ⟨row, b₁, row', hloaded, hadjust, hx⟩ | ⟨err, hx⟩ <;>
      rw [hx]
    · exact loaded_rows hloaded hadjust
    · exact refl_of Audited b.store

theorem audited_actAll (b : Bank) (actions : List Action) : Audited b.store (b.actAll actions).store :=
  Run.invariant (I := fun b' : Bank => Audited b.store b'.store)
    (fun b' a h => trans_of Audited h (audited_act b' a)) (refl_of Audited b.store) actions

/-- **A conditional `UPDATE` finds the row that was read, or none**: between two moments of a run, a row
    stays as it is, or gets a greater version, so that an `UPDATE` with the old one does nothing. -/
theorem run_rowsVersioned (b : Bank) (actions later : List Action) (key : BalanceKey) (row : Row)
    (h : (b.actAll actions).store.pg.balances key = some row) :
    ∃ row', (b.actAll (actions ++ later)).store.pg.balances key = some row' ∧
      (row' = row ∨ row.version < row'.version ∧
        ∀ (op : Ledger.Op) (amount : ℚ), op.optimistic row' amount row.version = none) := by
  have hrun : Audited (b.actAll actions).store (b.actAll (actions ++ later)).store := by
    rw [Bank.actAll, Bank.actAll, Run.after_append]
    exact audited_actAll _ later
  obtain ⟨row', hrow', hage⟩ := hrun.aged key row h
  refine ⟨row', hrow', hage.imp_right fun hlt => ⟨hlt, fun op amount => ?_⟩⟩
  rw [Option.eq_none_iff_forall_ne_some]
  intro row'' hupdate
  exact hlt.ne' (optimistic_version hupdate).1

/-! #### The supply -/

/-- Who asks for an order is a known user. -/
def Action.AsksIn (users : Finset UserId) : Action → Prop
  | .request req => Exchange.AsksIn users req
  | _ => True

/-- An amount added to one balance is added to the supply of its asset. -/
theorem supply_single {users : Finset UserId} {delta : ℚ} (husers : s.pg.users = users)
    (husers' : s'.pg.users = users) (h : ∀ k, s'.total k = s.total k + Moved.single key delta k)
    (asset : Asset) : s'.supply asset =
      s.supply asset + if key.1 ∈ users ∧ key.2 = asset then delta else 0 := by
  rw [Store.supply, Store.supply, husers, husers']
  simp only [h, Finset.sum_add_distrib]
  refine congrArg _ ?_
  by_cases ha : key.2 = asset
  · by_cases hu : key.1 ∈ users
    · rw [if_pos ⟨hu, ha⟩, Finset.sum_eq_single_of_mem key.1 hu]
      · simp [← ha]
      · intro u _ hne
        have hkey : (u, asset) ≠ key := fun h => hne (congrArg Prod.fst h)
        simp [hkey]
    · rw [if_neg fun h => hu h.1]
      refine Finset.sum_eq_zero fun u hu' => ?_
      have hkey : (u, asset) ≠ key := by
        rintro rfl
        exact hu hu'
      simp [hkey]
  · rw [if_neg fun h => ha h.2]
    refine Finset.sum_eq_zero fun u _ => ?_
    have hkey : (u, asset) ≠ key := fun h => ha (congrArg Prod.snd h).symm
    simp [hkey]

/-- An adjustment adds its delta to one total. -/
theorem loaded_total {b b₁ : Bank} {row row' : Row} {delta : ℚ} (hrows : RowsOk b.store.pg.balances)
    (hloaded : Loaded b key row b₁) (hadjust : Ledger.adjustBalance key row delta = .ok row') (k : BalanceKey) :
    (b₁.setBalance key row').store.total k = b.store.total k + Moved.single key delta k := by
  have hok : row.Ok := by
    cases hloaded with
    | found row hrow => exact hrows key row hrow
    | created _ _ => exact Row.ok_zero
  have htotal : row'.totalBalance = row.totalBalance + delta :=
    congrArg (fun x : Ledger.Value => x.1) (Ledger.adjustBalance_spec hadjust hok).2
  have hrow : row.totalBalance = b.store.total key := by
    cases hloaded with
    | found row hrow =>
      rw [Store.total, hrow]
      rfl
    | created hrow _ =>
      rw [Store.total, hrow]
      rfl
  by_cases hk : k = key
  · subst hk
    simp [Store.total, Bank.setBalance, htotal, hrow]
  · have hother : b₁.store.pg.balances k = b.store.pg.balances k := by
      cases hloaded with
      | found _ _ => rfl
      | created _ _ => exact Function.update_of_ne hk _ _
    simp [Store.total, Bank.setBalance, hk, hother]

/-- **Every action keeps what the supply rests on**, and changes the supply by its own adjustment. -/
theorem backed_act {b : Bank} (h : Backed b.store) {a : Action} (hasks : a.AsksIn b.store.pg.users) :
    Backed (b.act a).store ∧ (b.act a).store.pg.users = b.store.pg.users ∧
      ∀ asset, (b.act a).store.supply asset = b.store.supply asset + b.adjustedBy asset a := by
  cases a with
  | request req =>
    exact ⟨backed_serve h hasks, serve_users h.consistent req,
      fun asset => (supply_serve h req asset).trans (add_zero _).symm⟩
  | cancelBulk userId orderIds symbol cancelAll =>
    let ids := idsToCancel b.store.redis userId orderIds symbol cancelAll
    have hstore : (b.act (.cancelBulk userId orderIds symbol cancelAll)).store =
        b.store.serveAll (ids.map (Request.cancel userId)) :=
      cancelBulkOrders_serveAll h.toSweepable userId orderIds symbol cancelAll
    have hcancels := backed_cancels h userId ids
    have husers : (b.store.serveAll (ids.map (Request.cancel userId))).pg.users = b.store.pg.users :=
      (Run.invariant (I := fun s : Store => Consistent s ∧ s.pg.users = b.store.pg.users)
        (fun s req hI => ⟨consistent_serve hI.1 req, (serve_users hI.1 req).trans hI.2⟩)
        ⟨h.consistent, rfl⟩ _).2
    rw [hstore]
    exact ⟨hcancels.1, husers, fun asset => (hcancels.2 asset).trans (add_zero _).symm⟩
  | adjust key delta reason =>
    have hact : b.act (.adjust key delta reason) = (adjustBalance key delta reason b).2 := rfl
    have haudited := audited_act b (.adjust key delta reason)
    rcases adjustBalance_cases b key delta reason with ⟨row, b₁, row', hloaded, hadjust, hx⟩ | ⟨err, hx⟩
    · -- only the table of balances changes
      have hquiet : Quiet b.store (b.act (.adjust key delta reason)).store := by
        rw [hact, hx]
        cases hloaded <;> exact ⟨_, _, rfl⟩
      obtain ⟨balances, updates, hstore⟩ := hquiet
      have hdelta : ∀ asset, b.adjustedBy asset (.adjust key delta reason) =
          if key.1 ∈ b.store.pg.users ∧ key.2 = asset then delta else 0 := by
        intro asset
        simp [Bank.adjustedBy, hx, Except.isOk, Except.toBool]
      have hsupply : ∀ asset, (b.act (.adjust key delta reason)).store.supply asset = b.store.supply asset +
          if key.1 ∈ b.store.pg.users ∧ key.2 = asset then delta else 0 := by
        refine fun asset => supply_single rfl (by rw [hstore]) (fun k => ?_) asset
        rw [hact, hx]
        exact loaded_total h.rows hloaded hadjust k
      refine ⟨⟨⟨haudited.rowsOk h.rows, ?_⟩, ?_, ?_, ?_⟩, by rw [hstore], fun asset => ?_⟩
      · rw [hstore]
        exact h.markets
      · rw [hstore]
        exact h.consistent.of_drains (drains_quiet ⟨balances, updates, rfl⟩)
      · rw [hstore]
        exact h.owners
      · have husers : (b.act (.adjust key delta reason)).store.pg.users = b.store.pg.users := by rw [hstore]
        have hpairs : (b.act (.adjust key delta reason)).store.pg.tradingPairs = b.store.pg.tradingPairs := by
          rw [hstore]
        rw [husers, hpairs]
        intro symbol pair hpair u hu
        obtain ⟨hbase, hquote⟩ := h.funded symbol pair hpair u hu
        exact ⟨haudited.ne_none hbase, haudited.ne_none hquote⟩
      · rw [hsupply, hdelta]
    · have hb : b.act (.adjust key delta reason) = b := by rw [hact, hx]
      refine ⟨by rw [hb]; exact h, by rw [hb], fun asset => ?_⟩
      simp [hb, Bank.adjustedBy, hx, Except.isOk, Except.toBool]

end

/-! ### An admin among two users -/

/-- The market with two users, and an admin. -/
def twoUsersBank : Bank := { store := twoUsers, adjustments := [] }

/-- User 1 offers and user 2 takes; then the admin credits one of them, and fails to debit the other; then
    all orders of user 2 are cancelled. -/
def adjustedRun : List Action :=
  [.request (.place 1 (limitDto .sell 4 10)), .request .work, .request (.place 2 (limitDto .buy 10 10)),
    .request .work, .adjust (1, "BTC") 5 "deposit", .adjust (2, "BTC") (-5000) "admin_adjustment",
    .cancelBulk 2 none none true]

theorem run_rowsVersioned_adjusted :
    ∃ row', (twoUsersBank.actAll ([] ++ adjustedRun)).store.pg.balances (2, "USDT") = some row' ∧
      (row' = ⟨1000, 0, 1000, 1⟩ ∨ 1 < row'.version ∧
        ∀ (op : Ledger.Op) (amount : ℚ), op.optimistic row' amount 1 = none) :=
  run_rowsVersioned twoUsersBank [] adjustedRun (2, "USDT") ⟨1000, 0, 1000, 1⟩ rfl

theorem backed_twoUsers : Backed twoUsers where
  rows := rowsOk_twoUsers
  markets := fun _ _ ho => nomatch ho
  consistent := (orderly_start _ _ _).consistent
  owners := fun _ _ ho => nomatch ho
  funded := by
    intro symbol pair _ u hu
    have hu : u = 1 ∨ u = 2 := by simpa [twoUsers, Store.start] using hu
    have hrow : ∀ asset, twoUsers.pg.balances (u, asset) ≠ none := by
      intro asset
      show (if u = 1 ∨ u = 2 then some _ else none) ≠ none
      rw [if_pos hu]
      simp
    exact ⟨hrow _, hrow _⟩

end SpotExchange.Exchange
