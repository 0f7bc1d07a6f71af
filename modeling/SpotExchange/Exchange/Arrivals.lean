import SpotExchange.Exchange.Scores
import SpotExchange.Lib.Run
import Mathlib.Order.Lattice

namespace SpotExchange.Exchange

open SpotExchange.Lib
open SpotExchange.Engine (OrderId)

/-!
# Order of arrival

The book of one symbol over a run of `add_resting_order` and `remove_resting_order` calls.

* `Arrival`, `Journaled` — the asks in the book in the order in which they were added, each with the
  value that `INCR` gave it; kept beside the store;
* `Arrival.InTurn` — what the score keeps of that value: its last six digits;
* `inOrderOfArrival_iff` — the asks at one price are listed in order of arrival in every state of a run
  exactly when each ask that is added comes after those at its price by these digits.
-/

/-- A call on the book of one symbol. -/
inductive BookCall where
  | add (orderId : OrderId) (side : OrderSide) (price : ℚ)
  | remove (orderId : OrderId) (side : OrderSide)
  deriving DecidableEq

/-- How many sequence numbers a call takes. -/
def BookCall.takes : BookCall → ℕ
  | .add .. => 1
  | .remove .. => 0

/-- An ask in the book: the price it was added with, and the value of `INCR seq:orders:{symbol}`. -/
structure Arrival where
  orderId : OrderId
  price : ℚ
  counter : ℕ
  deriving DecidableEq

/-- The element of the ZSET. -/
def Arrival.element (e : Arrival) : ℚ × OrderId :=
  (tick e.price * scoreMultiplier + (e.counter % scoreMultiplier : ℕ), e.orderId)

/-- The first ask is before the second one by what `next_seq` keeps of the counter; where that is
    equal, by their members. -/
def Arrival.InTurn (e e' : Arrival) : Prop :=
  e.counter % scoreMultiplier < e'.counter % scoreMultiplier ∨
    e.counter % scoreMultiplier = e'.counter % scoreMultiplier ∧
      memberKey e.orderId < memberKey e'.orderId

/-- The store, and its asks in order of arrival. -/
structure Journaled where
  store : Store
  arrivals : List Arrival

/-- The arrivals without an order. -/
def dropArrival (id : OrderId) (arrivals : List Arrival) : List Arrival :=
  arrivals.filter fun e => e.orderId ≠ id

/-- What an addition that has returned does to the arrivals: an order that is added again arrives
    again. -/
def noteArrival (side : OrderSide) (e : Arrival) (arrivals : List Arrival) : List Arrival :=
  match side with
  | .sell => dropArrival e.orderId arrivals ++ [e]
  | .buy => arrivals

/-- One call. -/
def call (symbol : Symbol) (s : Journaled) : BookCall → Journaled
  | .add id side price =>
      match addRestingOrder id symbol side price s.store with
      | (.ok _, t) =>
          { store := t
            arrivals := noteArrival side { orderId := id, price := price, counter := t.redis.seq symbol }
              s.arrivals }
      | (.error _, t) => { s with store := t }
  | .remove id side =>
      { store := s.store.setRedis (removeRestingOrder id symbol side)
        arrivals := match side with
          | .sell => dropArrival id s.arrivals
          | .buy => s.arrivals }

/-- **Of two asks at one price, the one that was added earlier is listed first.** -/
def InOrderOfArrival (symbol : Symbol) (s : Journaled) : Prop :=
  s.arrivals.Pairwise fun e e' => e.price = e'.price →
    [e.orderId, e'.orderId].Sublist (s.store.redis.book symbol .sell).members

/-- An ask that is added is in turn after those at its price. -/
def Follows (symbol : Symbol) (s : Journaled) : BookCall → Prop
  | .add id .sell price => 0 ≤ price → price ≤ 9200000000 → ∀ e ∈ s.arrivals, e.orderId ≠ id →
      e.price = price →
        e.InTurn { orderId := id, price := price, counter := s.store.redis.seq symbol + 1 }
  | _ => True

/-! ### The book and the arrivals -/

/-- The ask side lists the arrivals. -/
structure Journal (symbol : Symbol) (s : Journaled) : Prop where
  perm : (s.store.redis.book symbol .sell).Perm (s.arrivals.map Arrival.element)
  inOrder : SortedSet.InOrder memberKey (s.store.redis.book symbol .sell)
  nodup : (s.arrivals.map Arrival.orderId).Nodup

section

variable {symbol : Symbol} {s : Journaled}

theorem Journal.distinct (h : Journal symbol s) : (s.store.redis.book symbol .sell).Distinct := by
  have hmembers : (s.store.redis.book symbol .sell).members.Perm (s.arrivals.map Arrival.orderId) := by
    have hmap := h.perm.map Prod.snd
    rwa [List.map_map] at hmap
  exact hmembers.nodup_iff.mpr h.nodup

/-- At one price, the score compares what it keeps of the counter. -/
theorem element_before_iff {e e' : Arrival} (hprice : e.price = e'.price) :
    (e.element.1 < e'.element.1 ∨
      e.element.1 = e'.element.1 ∧ memberKey e.element.2 < memberKey e'.element.2) ↔ e.InTurn e' := by
  unfold Arrival.element Arrival.InTurn
  rw [hprice]
  constructor
  · rintro (hlt | ⟨heq, hkey⟩)
    · exact .inl (Nat.cast_lt.mp (lt_of_add_lt_add_left hlt))
    · exact .inr ⟨Nat.cast_injective (add_left_cancel heq), hkey⟩
  · rintro (hlt | ⟨heq, hkey⟩)
    · exact .inl (add_lt_add_right (Nat.cast_lt.mpr hlt) _)
    · exact .inr ⟨by rw [heq], hkey⟩

/-- **Order of arrival**, read off the counters. -/
theorem Journal.arrivals_iff (h : Journal symbol s) :
    InOrderOfArrival symbol s ↔ s.arrivals.Pairwise fun e e' => e.price = e'.price → e.InTurn e' := by
  -- two arrivals are two members
  have hlisted : ∀ e ∈ s.arrivals, e.element ∈ s.store.redis.book symbol .sell := fun e he =>
    h.perm.mem_iff.mpr (List.mem_map_of_mem he)
  have hpair : ∀ {e e' : Arrival}, e ∈ s.arrivals → e' ∈ s.arrivals → e.orderId ≠ e'.orderId →
      ((e.price = e'.price →
        [e.orderId, e'.orderId].Sublist (s.store.redis.book symbol .sell).members) ↔
      (e.price = e'.price → e.InTurn e')) := by
    intro e e' he he' hne
    apply imp_congr_right
    intro hprice
    rw [← element_before_iff hprice]
    exact h.inOrder.sublist_iff memberKey_injective h.distinct (hlisted e he) (hlisted e' he') hne
  have hids : s.arrivals.Pairwise fun e e' => e.orderId ≠ e'.orderId := List.pairwise_map.mp h.nodup
  constructor
  · intro hfifo
    exact (hids.and hfifo).imp_of_mem fun he he' hboth => (hpair he he' hboth.1).mp hboth.2
  · intro hturn
    exact (hids.and hturn).imp_of_mem fun he he' hboth => (hpair he he' hboth.1).mpr hboth.2

/-- A journal begins with an empty side. -/
theorem journal_start {store : Store} (h : store.redis.book symbol .sell = []) :
    Journal symbol { store := store, arrivals := [] } :=
  ⟨by rw [h]; exact List.Perm.nil, by rw [h]; exact List.Pairwise.nil, List.nodup_nil⟩

/-! ### One call -/

/-- The book without an order, and the arrivals without it. -/
theorem Journal.drop_perm (h : Journal symbol s) (id : OrderId) :
    ((s.store.redis.book symbol .sell).zrem id).Perm
      ((dropArrival id s.arrivals).map Arrival.element) := by
  have hfilter := h.perm.filter fun x : ℚ × OrderId => x.2 ≠ id
  rw [List.filter_map] at hfilter
  exact hfilter

theorem Journal.drop_nodup (h : Journal symbol s) (id : OrderId) :
    ((dropArrival id s.arrivals).map Arrival.orderId).Nodup :=
  h.nodup.sublist (List.filter_sublist.map _)

/-- **Adding an ask.** -/
theorem Journal.addAsk (h : Journal symbol s) {t : Store} {e : Arrival}
    (hbook : t.redis.book symbol .sell =
      (s.store.redis.book symbol .sell).zadd memberKey e.element.1 e.orderId) :
    Journal symbol { store := t, arrivals := dropArrival e.orderId s.arrivals ++ [e] } := by
  refine ⟨?_, ?_, ?_⟩
  · show (t.redis.book symbol .sell).Perm ((dropArrival e.orderId s.arrivals ++ [e]).map Arrival.element)
    rw [hbook, List.map_append]
    apply (List.perm_orderedInsert _ _ _).trans
    exact ((h.drop_perm e.orderId).cons e.element).trans (List.perm_append_singleton _ _).symm
  · show SortedSet.InOrder memberKey (t.redis.book symbol .sell)
    rw [hbook]
    exact h.inOrder.zadd
  · show ((dropArrival e.orderId s.arrivals ++ [e]).map Arrival.orderId).Nodup
    rw [List.map_append, List.map_singleton, ← List.concat_eq_append]
    apply List.Nodup.concat _ (h.drop_nodup e.orderId)
    intro hmem
    obtain ⟨e', he', hid⟩ := List.mem_map.mp hmem
    have hne := (List.mem_filter.mp he').2
    simp [hid] at hne

/-- **Removing an ask.** -/
theorem Journal.removeAsk (h : Journal symbol s) {t : Store} {id : OrderId}
    (hbook : t.redis.book symbol .sell = (s.store.redis.book symbol .sell).zrem id) :
    Journal symbol { store := t, arrivals := dropArrival id s.arrivals } := by
  refine ⟨?_, ?_, h.drop_nodup id⟩
  · show (t.redis.book symbol .sell).Perm _
    rw [hbook]
    exact h.drop_perm id
  · show SortedSet.InOrder memberKey (t.redis.book symbol .sell)
    rw [hbook]
    exact h.inOrder.zrem

/-- A store with the same asks. -/
theorem Journal.frame (h : Journal symbol s) {t : Store}
    (hbook : t.redis.book symbol .sell = s.store.redis.book symbol .sell) :
    Journal symbol { s with store := t } := by
  refine ⟨?_, ?_, h.nodup⟩
  · show (t.redis.book symbol .sell).Perm _
    rw [hbook]
    exact h.perm
  · show SortedSet.InOrder memberKey (t.redis.book symbol .sell)
    rw [hbook]
    exact h.inOrder

/-- An ask at a price that has a score. -/
theorem call_addAsk (symbol : Symbol) (s : Journaled) {e : Arrival} (hnonneg : 0 ≤ e.price)
    (hle : e.price ≤ 9200000000) (hcounter : e.counter = s.store.redis.seq symbol + 1) :
    ∃ t, t.redis.book symbol .sell =
        (s.store.redis.book symbol .sell).zadd memberKey e.element.1 e.orderId ∧
      call symbol s (.add e.orderId .sell e.price) =
        { store := t, arrivals := dropArrival e.orderId s.arrivals ++ [e] } := by
  obtain ⟨id, price, counter⟩ := e
  dsimp only at hnonneg hle hcounter
  subst hcounter
  have hencode := encodeScore_of_le hnonneg hle (s.store.nextSeq_lt symbol)
  rcases addRestingOrder_cases id symbol .sell price s.store with
    ⟨score, hscore, hx⟩ | ⟨err, herr, -⟩
  · obtain rfl := Except.ok.inj (hencode.symm.trans hscore)
    refine ⟨(s.store.takeSeq symbol).addToBook symbol .sell _ id, addToBook_book .., ?_⟩
    have hcounter : ∀ score, ((s.store.takeSeq symbol).addToBook symbol .sell score id).redis.seq
        symbol = s.store.redis.seq symbol + 1 := fun _ => Function.update_self ..
    simp only [call, hx, noteArrival, hcounter]
    rfl
  · exact absurd (hencode.symm.trans herr) (by simp)

/-- **What one call does**: an ask arrives, an ask leaves, or the asks stay as they are. -/
theorem call_cases (symbol : Symbol) (s : Journaled) (c : BookCall) :
    (∃ e t, c = .add e.orderId .sell e.price ∧ 0 ≤ e.price ∧ e.price ≤ 9200000000 ∧
      e.counter = s.store.redis.seq symbol + 1 ∧
      t.redis.book symbol .sell =
        (s.store.redis.book symbol .sell).zadd memberKey e.element.1 e.orderId ∧
      call symbol s c = { store := t, arrivals := dropArrival e.orderId s.arrivals ++ [e] }) ∨
    (∃ id t, c = .remove id .sell ∧
      t.redis.book symbol .sell = (s.store.redis.book symbol .sell).zrem id ∧
      call symbol s c = { store := t, arrivals := dropArrival id s.arrivals }) ∨
    ∃ t, Follows symbol s c ∧ t.redis.book symbol .sell = s.store.redis.book symbol .sell ∧
      call symbol s c = { s with store := t } := by
  cases c with
  | remove id side =>
    cases side with
    | sell =>
      refine .inr (.inl ⟨id, _, rfl, ?_, rfl⟩)
      simp [Store.setRedis, removeRestingOrder, Redis.setBook]
    | buy =>
      refine .inr (.inr ⟨_, trivial, ?_, rfl⟩)
      simp [Store.setRedis, removeRestingOrder, Redis.setBook]
  | add id side price =>
    rcases addRestingOrder_cases id symbol side price s.store with
      ⟨score, hscore, hx⟩ | ⟨err, herr, hx⟩
    · obtain ⟨hnonneg, hle, -⟩ := encodeScore_eq_ok hscore
      -- only the asks are journaled, and an added bid leaves them alone
      cases side with
      | sell =>
        obtain ⟨t, hbook, hcall⟩ := call_addAsk symbol s
          (e := ⟨id, price, s.store.redis.seq symbol + 1⟩) hnonneg hle rfl
        exact .inl ⟨_, t, rfl, hnonneg, hle, rfl, hbook, hcall⟩
      | buy =>
        refine .inr (.inr ⟨_, trivial, ?_, by simp only [call, hx]; rfl⟩)
        simp [Store.addToBook, Store.takeSeq, Store.setRedis, Redis.setBook]
    · -- only the counter moves
      refine .inr (.inr ⟨s.store.takeSeq symbol, ?_, rfl, by simp only [call, hx]⟩)
      cases side with
      | buy => trivial
      | sell =>
        intro hnonneg hle
        have hencode := encodeScore_of_le hnonneg hle (s.store.nextSeq_lt symbol)
        exact absurd (hencode.symm.trans herr) (by simp)

/-- An addition takes one number, also where its price has no score. -/
theorem call_seq (symbol : Symbol) (s : Journaled) (c : BookCall) :
    (call symbol s c).store.redis.seq symbol = s.store.redis.seq symbol + c.takes := by
  cases c with
  | remove id side => rfl
  | add id side price =>
    rcases addRestingOrder_cases id symbol side price s.store with ⟨score, -, hx⟩ | ⟨err, -, hx⟩ <;>
      simp only [call, hx] <;> exact Function.update_self ..

/-- The journal is kept. -/
theorem Journal.call (h : Journal symbol s) (c : BookCall) : Journal symbol (call symbol s c) := by
  rcases call_cases symbol s c with ⟨e, t, -, -, -, -, hbook, heq⟩ | ⟨id, t, -, hbook, heq⟩ |
    ⟨t, -, hbook, heq⟩ <;> rw [heq]
  · exact h.addAsk hbook
  · exact h.removeAsk hbook
  · exact h.frame hbook

/-- **One call keeps the order of arrival** exactly where the ask that it adds is in turn. -/
theorem inOrderOfArrival_call_iff (h : Journal symbol s) (hfifo : InOrderOfArrival symbol s)
    (c : BookCall) : InOrderOfArrival symbol (call symbol s c) ↔ Follows symbol s c := by
  have hnext := (h.call c).arrivals_iff
  rw [h.arrivals_iff] at hfifo
  rw [hnext]
  rcases call_cases symbol s c with ⟨e, t, rfl, hnonneg, hle, hcounter, -, heq⟩ | ⟨id, t, rfl, -, heq⟩ |
    ⟨t, hfollows, -, heq⟩ <;> rw [heq]
  · -- the others are in order among themselves
    have hrest : (dropArrival e.orderId s.arrivals).Pairwise fun e e' =>
        e.price = e'.price → e.InTurn e' := hfifo.sublist List.filter_sublist
    -- a new arrival stands last, and must be in turn behind all of its price
    have hlast : Follows symbol s (.add e.orderId .sell e.price) ↔
        ∀ e' ∈ s.arrivals, e'.orderId ≠ e.orderId → e'.price = e.price → e'.InTurn e := by
      have hself : e = ⟨e.orderId, e.price, s.store.redis.seq symbol + 1⟩ := by rw [← hcounter]
      simp only [Follows]
      rw [← hself]
      exact ⟨fun hf => hf hnonneg hle, fun hf _ _ => hf⟩
    rw [hlast, List.pairwise_append]
    constructor
    · rintro ⟨-, -, hall⟩ e' he' hne
      exact hall e' (List.mem_filter.mpr ⟨he', by simpa using hne⟩) e (List.mem_singleton_self e)
    · intro hall
      refine ⟨hrest, List.pairwise_singleton _ _, fun e' he' e'' he'' => ?_⟩
      obtain rfl := List.mem_singleton.mp he''
      have hmem := List.mem_filter.mp he'
      exact hall e' hmem.1 (by simpa using hmem.2)
  · exact ⟨fun _ => trivial, fun _ => hfifo.sublist List.filter_sublist⟩
  · exact ⟨fun _ => hfollows, fun _ => hfifo⟩

/-! ### Runs -/

/-- **The asks at one price are listed in order of arrival in every state of a run exactly when each
    ask that is added is in turn after those at its price.** -/
theorem inOrderOfArrival_iff {store : Store} (hempty : store.redis.book symbol .sell = [])
    (calls : List BookCall) :
    (∀ pre, pre <+: calls →
      InOrderOfArrival symbol (Run.after (call symbol) { store := store, arrivals := [] } pre)) ↔
    Run.Along (call symbol) (Follows symbol) { store := store, arrivals := [] } calls := by
  have hstart : InOrderOfArrival symbol { store := store, arrivals := [] } := List.Pairwise.nil
  exact (Run.along_iff_forall_prefix (I := Journal symbol) (fun s c h => h.call c)
    (fun s c h hfifo => inOrderOfArrival_call_iff h hfifo c) (journal_start hempty) hstart).symm

variable (symbol s) in
/-- Additions of bids take numbers, and leave the asks as they are. -/
theorem after_bids (ids : List OrderId) (price : ℚ) :
    (Run.after (call symbol) s (ids.map fun id => .add id .buy price)).store.redis.seq symbol =
        s.store.redis.seq symbol + ids.length ∧
      (Run.after (call symbol) s (ids.map fun id => .add id .buy price)).store.redis.book symbol .sell =
        s.store.redis.book symbol .sell ∧
      (Run.after (call symbol) s (ids.map fun id => .add id .buy price)).arrivals = s.arrivals := by
  induction ids generalizing s with
  | nil => exact ⟨rfl, rfl, rfl⟩
  | cons id ids ih =>
    obtain ⟨hseq, hbook, harrivals⟩ := ih (call symbol s (.add id .buy price))
    rw [List.map_cons, Run.after_cons, hseq, hbook, harrivals, call_seq]
    rcases call_cases symbol s (.add id .buy price) with ⟨e, t, hc, -⟩ | ⟨id', t, hc, -⟩ |
      ⟨t, -, hbook', heq⟩
    · exact absurd hc (by simp)
    · exact absurd hc (by simp)
    · rw [heq]
      refine ⟨?_, hbook', rfl⟩
      rw [List.length_cons, add_assoc, Nat.add_comm ids.length]
      rfl

/-- Up to a million numbers each ask is in turn. -/
theorem follows_of_few (calls : List BookCall)
    (h : ∀ e ∈ s.arrivals, e.counter ≤ s.store.redis.seq symbol)
    (hfew : s.store.redis.seq symbol + calls.length < scoreMultiplier) :
    Run.Along (call symbol) (Follows symbol) s calls := by
  induction calls generalizing s with
  | nil => trivial
  | cons c calls ih =>
    rw [List.length_cons] at hfew
    refine ⟨?_, ih ?_ ?_⟩
    · cases c with
      | remove => trivial
      | add id side price =>
        cases side with
        | buy => trivial
        | sell =>
          intro _ _ e he _ _
          -- while the counter has not wrapped, a later value is a larger one
          apply Or.inl
          show e.counter % scoreMultiplier < (s.store.redis.seq symbol + 1) % scoreMultiplier
          have hle := h e he
          rw [Nat.mod_eq_of_lt (by omega), Nat.mod_eq_of_lt (by omega)]
          omega
    · have hseq := call_seq symbol s c
      rcases call_cases symbol s c with ⟨e, t, rfl, -, -, hcounter, -, heq⟩ | ⟨id, t, rfl, -, heq⟩ |
        ⟨t, -, -, heq⟩ <;> rw [hseq] <;> rw [heq]
      · intro e' he'
        rcases List.mem_append.mp he' with he' | he'
        · exact (h e' (List.mem_of_mem_filter he')).trans (Nat.le_add_right _ _)
        · rw [List.mem_singleton.mp he', hcounter]
          exact le_refl _
      · exact fun e he => (h e (List.mem_of_mem_filter he)).trans (Nat.le_add_right _ _)
      · exact fun e he => (h e he).trans (Nat.le_add_right _ _)
    · have htakes : c.takes ≤ 1 := by cases c <;> simp [BookCall.takes]
      rw [call_seq]
      omega

end

/-! ### Three asks, and a million orders -/

/-- An empty market. -/
def noOrders : Journaled where
  store := Store.start ∅ (fun _ => none) fun _ => none
  arrivals := []

/-- Two asks and a bid; then the older ask is removed, and added again. -/
def askAgain : List BookCall :=
  [.add 1 .sell 100, .add 2 .buy 99, .add 3 .sell 100, .remove 1 .sell, .add 1 .sell 100]

/-- The asks are listed in order of arrival before and after. -/
theorem inOrderOfArrival_iff_askAgain :
    InOrderOfArrival "BTC/USDT" (Run.after (call "BTC/USDT") noOrders (askAgain.take 3)) ∧
      InOrderOfArrival "BTC/USDT" (Run.after (call "BTC/USDT") noOrders askAgain) := by
  have hempty : noOrders.store.redis.book "BTC/USDT" .sell = [] := rfl
  have hall := (inOrderOfArrival_iff hempty askAgain).mpr (follows_of_few _ (by simp) (by decide))
  exact ⟨hall _ (List.take_prefix _ _), hall _ (List.prefix_refl _)⟩

/-- Two asks are added after 999998 numbers. -/
theorem twoAsks_after {s : Journaled} (hseq : s.store.redis.seq "BTC/USDT" = 999998)
    (hbook : s.store.redis.book "BTC/USDT" .sell = []) (harrivals : s.arrivals = []) :
    (Run.after (call "BTC/USDT") s [.add 1 .sell 100, .add 2 .sell 100]).arrivals =
        [⟨1, 100, 999999⟩, ⟨2, 100, 1000000⟩] ∧
      (Run.after (call "BTC/USDT") s [.add 1 .sell 100, .add 2 .sell 100]).store.redis.book
        "BTC/USDT" .sell = [(1000000000000, 2), (1000000999999, 1)] := by
  obtain ⟨t, htbook, htcall⟩ := call_addAsk "BTC/USDT" s (e := ⟨1, 100, 999999⟩) (by norm_num)
    (by norm_num) (by rw [hseq])
  have htseq : t.redis.seq "BTC/USDT" = 999999 := by
    have hcalled := call_seq "BTC/USDT" s (.add 1 .sell 100)
    rw [htcall, hseq] at hcalled
    exact hcalled
  obtain ⟨u, hubook, hucall⟩ := call_addAsk "BTC/USDT" (call "BTC/USDT" s (.add 1 .sell 100))
    (e := ⟨2, 100, 1000000⟩) (by norm_num) (by norm_num) (by rw [htcall]; exact congrArg (· + 1) htseq.symm)
  rw [Run.after_cons, Run.after_cons, Run.after_nil, hucall, htcall]
  rw [htcall] at hubook
  dsimp only at hubook ⊢
  rw [hubook, htbook, harrivals, hbook]
  exact ⟨by decide, by decide +kernel⟩

/-- The bids that take the numbers up to 999998. -/
def bidIds : List OrderId := (List.range 999998).map fun i => i + 3

/-- After them, two asks are added at one price. -/
def millionOrders : List BookCall :=
  bidIds.map (fun id => .add id .buy 99) ++ [.add 1 .sell 100, .add 2 .sell 100]

/-- **The millionth order overtakes the one before it.** -/
theorem millionOrders_overtaken :
    (Run.after (call "BTC/USDT") noOrders millionOrders).arrivals =
        [{ orderId := 1, price := 100, counter := 999999 },
          { orderId := 2, price := 100, counter := 1000000 }] ∧
      (Run.after (call "BTC/USDT") noOrders millionOrders).store.redis.book "BTC/USDT" .sell =
        [(1000000000000, 2), (1000000999999, 1)] ∧
      ¬ InOrderOfArrival "BTC/USDT" (Run.after (call "BTC/USDT") noOrders millionOrders) := by
  have hlength : bidIds.length = 999998 := by rw [bidIds, List.length_map, List.length_range]
  have hbids := after_bids "BTC/USDT" noOrders bidIds 99
  rw [millionOrders, Run.after_append]
  generalize Run.after (call "BTC/USDT") noOrders _ = s at hbids ⊢
  obtain ⟨hseq, hbook, harrivals⟩ := hbids
  have hstart : noOrders.store.redis.seq "BTC/USDT" = 0 := rfl
  rw [hlength, hstart, zero_add] at hseq
  obtain ⟨hasks, hlisted⟩ := twoAsks_after hseq hbook harrivals
  refine ⟨hasks, hlisted, ?_⟩
  unfold InOrderOfArrival
  rw [hasks, hlisted, List.pairwise_pair]
  decide

end SpotExchange.Exchange
