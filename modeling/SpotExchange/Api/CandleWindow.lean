import SpotExchange.Api.Candles
import SpotExchange.Lib.Sorting

namespace SpotExchange.Api

open SpotExchange.Lib

/-!
# The window of the candles

`get_candles` reads the trades since `limit` timeframes ago, an instant that need not begin a bucket, while
candles begin with their buckets.

* `tradesDuring` — the trades of a symbol in a period, `Candle.Complete` — a candle says all about its own;
* `describes_of_mem` — what a candle is about;
* `start_le_of_mem_tail` — only the first bucket can begin before the window;
* `getCandles_complete` — what each candle of the answer leaves out.
-/

/-- The trades of a symbol that were executed in `[start, stop)`, in the order of their times. -/
def tradesDuring (table : List TradeRow) (symbol : String) (start stop : ℚ) : List TradeRow :=
  (table.filter fun t => t.symbol = symbol ∧ start ≤ t.executedAt ∧ t.executedAt < stop).insertionSort
    fun a b => a.executedAt ≤ b.executedAt

/-- **A candle is complete**: it says all about the trades of its bucket. -/
def Candle.Complete (tf : ℤ) (table : List TradeRow) (symbol : String) (candle : Candle) : Prop :=
  candle.Describes (tradesDuring table symbol candle.time (candle.time + tf))

section

variable {tf : ℤ} {table trades : List TradeRow} {symbol timeframe : String} {limit : ℕ} {now start : ℚ}
  {candle : Candle} {trade : TradeRow} {bucket : ℤ}

instance : Std.Total fun a b : TradeRow => a.executedAt ≤ b.executedAt :=
  ⟨fun a b => le_total a.executedAt b.executedAt⟩

instance : IsTrans TradeRow fun a b => a.executedAt ≤ b.executedAt := ⟨fun _ _ _ => le_trans⟩

/-! ### Buckets -/

/-- Buckets are multiples of the timeframe, so they do not overlap. -/
theorem add_le_of_dvd_of_lt {a b : ℤ} (ha : tf ∣ a) (hb : tf ∣ b) (h : a < b) : a + tf ≤ b := by
  have hle : tf ≤ b - a := Int.le_of_dvd (sub_pos.mpr h) (dvd_sub hb ha)
  linarith

/-- **The trades of a bucket** are those of its period. -/
theorem bucketOf_eq_iff (htf : 0 < tf) (hepoch : 0 ≤ trade.executedAt) (hbucket : tf ∣ bucket) :
    bucketOf tf trade = bucket ↔ (bucket : ℚ) ≤ trade.executedAt ∧ trade.executedAt < bucket + tf := by
  obtain ⟨hdvd, hle, hlt⟩ := bucketOf_spec htf hepoch
  constructor
  · rintro rfl
    exact ⟨hle, hlt⟩
  · rintro ⟨hle', hlt'⟩
    -- the time lies in both periods
    rcases lt_trichotomy (bucketOf tf trade) bucket with h | h | h
    · have hsep : ((bucketOf tf trade + tf : ℤ) : ℚ) ≤ bucket :=
        Int.cast_le.mpr (add_le_of_dvd_of_lt hdvd hbucket h)
      push_cast at hsep
      exact absurd (hlt.trans_le (hsep.trans hle')) (lt_irrefl _)
    · exact h
    · have hsep : ((bucket + tf : ℤ) : ℚ) ≤ bucketOf tf trade :=
        Int.cast_le.mpr (add_le_of_dvd_of_lt hbucket hdvd h)
      push_cast at hsep
      exact absurd (hlt'.trans_le (hsep.trans hle)) (lt_irrefl _)

/-- The trades of a bucket among those since the start of the window. -/
theorem filter_selectTrades (htf : 0 < tf) (hepoch : ∀ t ∈ table, 0 ≤ t.executedAt) (hbucket : tf ∣ bucket) :
    (selectTrades table symbol start).filter (fun t => bucketOf tf t = bucket) =
      tradesDuring table symbol (max bucket start) (bucket + tf) := by
  unfold selectTrades tradesDuring
  rw [filter_insertionSort, List.filter_filter]
  congr 1
  refine List.filter_congr fun t ht => ?_
  have hiff := bucketOf_eq_iff htf (hepoch t ht) hbucket
  rw [← Bool.decide_and, decide_eq_decide, hiff, max_le_iff]
  tauto

/-! ### The candles of a window -/

theorem mem_selectTrades :
    trade ∈ selectTrades table symbol start ↔
      trade ∈ table ∧ trade.symbol = symbol ∧ start ≤ trade.executedAt := by
  unfold selectTrades
  rw [List.mem_insertionSort, List.mem_filter, decide_eq_true_eq]

theorem selectTrades_sorted (table : List TradeRow) (symbol : String) (start : ℚ) :
    (selectTrades table symbol start).Pairwise fun a b => a.executedAt ≤ b.executedAt :=
  List.pairwise_insertionSort _ _

/-- **What a candle is about**: the trades of its bucket since the start of the window. -/
theorem describes_of_mem (htf : 0 < tf) (hepoch : ∀ t ∈ table, 0 ≤ t.executedAt)
    (h : candle ∈ aggregateCandles tf (selectTrades table symbol start)) :
    candle.Describes (tradesDuring table symbol (max candle.time start) (candle.time + tf)) := by
  have hsorted := selectTrades_sorted table symbol start
  obtain ⟨t, ht, hbucket⟩ := exists_of_mem_aggregateCandles htf hsorted h
  have hdvd : tf ∣ candle.time := hbucket ▸ Dvd.intro_left _ rfl
  rw [← filter_selectTrades htf hepoch hdvd]
  exact Candle.describes_of_summary ((candlesOf_aggregateCandles htf hsorted).summaries candle h)

/-- **Only the first bucket can begin before the window.** -/
theorem start_le_of_mem_tail (htf : 0 < tf) (hepoch : ∀ t ∈ table, 0 ≤ t.executedAt)
    (h : candle ∈ (aggregateCandles tf (selectTrades table symbol start)).tail) :
    start ≤ candle.time := by
  have hsorted := selectTrades_sorted table symbol start
  have hgrouped := candlesOf_aggregateCandles htf hsorted
  cases hall : aggregateCandles tf (selectTrades table symbol start) with
  | nil => rw [hall] at h; exact absurd h (by simp)
  | cons first rest =>
    rw [hall, List.tail_cons] at h
    have hfirst : first ∈ aggregateCandles tf (selectTrades table symbol start) := by
      rw [hall]
      exact List.mem_cons_self
    have hcandle : candle ∈ aggregateCandles tf (selectTrades table symbol start) := by
      rw [hall]
      exact List.mem_cons_of_mem _ h
    obtain ⟨t, ht, hbucket⟩ := exists_of_mem_aggregateCandles htf hsorted hfirst
    obtain ⟨u, -, hbucket'⟩ := exists_of_mem_aggregateCandles htf hsorted hcandle
    obtain ⟨hmem, -, hstart⟩ := mem_selectTrades.mp ht
    obtain ⟨hdvd, -, hlt⟩ := bucketOf_spec htf (hepoch t hmem)
    have hdvd' : tf ∣ candle.time := hbucket' ▸ Dvd.intro_left _ rfl
    rw [hbucket] at hdvd hlt
    -- the next bucket begins where that of a trade in the window has ended
    have hincreasing := hgrouped.increasing
    rw [hall, List.map_cons, List.pairwise_cons] at hincreasing
    have hsep : ((first.time + tf : ℤ) : ℚ) ≤ candle.time :=
      Int.cast_le.mpr (add_le_of_dvd_of_lt hdvd hdvd' (hincreasing.1 _ (List.mem_map_of_mem h)))
    push_cast at hsep
    linarith

/-- A candle is complete if no trade of its bucket was executed before the window. -/
theorem complete_of_forall (h : candle.Describes
      (tradesDuring table symbol (max candle.time start) (candle.time + tf)))
    (hnone : ∀ t ∈ table, t.symbol = symbol → (candle.time : ℚ) ≤ t.executedAt → start ≤ t.executedAt) :
    candle.Complete tf table symbol := by
  have hsame : tradesDuring table symbol candle.time (candle.time + tf) =
      tradesDuring table symbol (max candle.time start) (candle.time + tf) := by
    unfold tradesDuring
    congr 1
    refine List.filter_congr fun t ht => ?_
    rw [decide_eq_decide, max_le_iff]
    constructor
    · rintro ⟨hsymbol, hle, hlt⟩
      exact ⟨hsymbol, ⟨hle, hnone t ht hsymbol hle⟩, hlt⟩
    · rintro ⟨hsymbol, ⟨hle, -⟩, hlt⟩
      exact ⟨hsymbol, hle, hlt⟩
  rw [Candle.Complete, hsame]
  exact h

/-! ### The answer -/

/-- **The candles of the answer.**  Each is about the trades of its bucket since the start of the window, and
    all but the first are complete.  The first one is complete, too, if no trade of its bucket was executed
    before the window, and if there were more buckets with trades than the limit. -/
theorem getCandles_complete (table : List TradeRow) (symbol timeframe : String) (limit : ℕ)
    (hlimit : 1 ≤ limit) (now : ℚ) (hepoch : ∀ t ∈ table, 0 ≤ t.executedAt) :
    let tf := tfSeconds timeframe
    let start := now - tf * limit
    let candles := (getCandles table symbol timeframe limit now).candles
    (∀ candle ∈ candles,
      candle.Describes (tradesDuring table symbol (max candle.time start) (candle.time + tf))) ∧
    (∀ candle ∈ candles.tail, candle.Complete tf table symbol) ∧
    (∀ candle ∈ candles, (∀ t ∈ table, t.symbol = symbol → (candle.time : ℚ) ≤ t.executedAt →
      start ≤ t.executedAt) → candle.Complete tf table symbol) ∧
    (limit < (aggregateCandles tf (selectTrades table symbol start)).length →
      ∀ candle ∈ candles, candle.Complete tf table symbol) := by
  intro tf start candles
  have htf : 0 < tf := tfSeconds_pos timeframe
  let all := aggregateCandles tf (selectTrades table symbol start)
  have hcandles : candles = all.drop (all.length - limit) :=
    (getCandles_candles table symbol timeframe limit now).1.trans (buildCandles_eq hlimit)
  have hdescribes : ∀ candle ∈ all,
      candle.Describes (tradesDuring table symbol (max candle.time start) (candle.time + tf)) :=
    fun candle h => describes_of_mem htf hepoch h
  have hlater : ∀ candle ∈ all.tail, candle.Complete tf table symbol := by
    intro candle h
    refine complete_of_forall (hdescribes candle (List.mem_of_mem_tail h)) fun t _ _ hle => ?_
    exact (start_le_of_mem_tail htf hepoch h).trans hle
  refine ⟨fun candle h => ?_, fun candle h => ?_, fun candle h hnone => ?_, fun hmore candle h => ?_⟩
  · rw [hcandles] at h
    exact hdescribes candle (List.mem_of_mem_drop h)
  · rw [hcandles, List.tail_drop] at h
    refine hlater candle ?_
    rw [← List.drop_one]
    exact List.mem_of_mem_drop (i := all.length - limit) (by rwa [List.drop_drop, Nat.add_comm])
  · rw [hcandles] at h
    exact complete_of_forall (hdescribes candle (List.mem_of_mem_drop h)) hnone
  · -- the first bucket is cut off
    rw [hcandles] at h
    have hmore : limit < all.length := hmore
    obtain ⟨k, hk⟩ : ∃ k, all.length - limit = 1 + k := ⟨all.length - limit - 1, by omega⟩
    refine hlater candle ?_
    rw [hk, ← List.drop_drop, List.drop_one] at h
    exact List.mem_of_mem_drop h

end

/-- Two trades of one minute. -/
def oneMinute : List TradeRow := [⟨"BTC/USDT", 70, 5, 1⟩, ⟨"BTC/USDT", 100, 7, 2⟩]

theorem getCandles_complete_oneMinute :
    (getCandles oneMinute "BTC/USDT" "1m" 2 150).candles = [⟨60, 5, 7, 5, 7, 3⟩] ∧
      ∀ candle ∈ (getCandles oneMinute "BTC/USDT" "1m" 2 150).candles,
        candle.Complete 60 oneMinute "BTC/USDT" := by
  have hwindow : ∀ t ∈ oneMinute, (150 : ℚ) - tfSeconds "1m" * (2 : ℕ) ≤ t.executedAt := by decide +kernel
  refine ⟨by decide +kernel, fun candle h => ?_⟩
  exact (getCandles_complete oneMinute "BTC/USDT" "1m" 2 (by decide) 150 (by decide +kernel)).2.2.1 candle h
    fun t ht _ _ => hwindow t ht

/-- **The first candle can be partial**: at 150, one minute goes back to 90, and the trade at 70 is left out of
    the candle that begins at 60. -/
theorem getCandles_not_always_complete :
    (getCandles oneMinute "BTC/USDT" "1m" 1 150).candles = [⟨60, 7, 7, 7, 7, 2⟩] ∧
      ¬ ∀ candle ∈ (getCandles oneMinute "BTC/USDT" "1m" 1 150).candles,
        candle.Complete 60 oneMinute "BTC/USDT" := by
  have hcandles : (getCandles oneMinute "BTC/USDT" "1m" 1 150).candles = [⟨60, 7, 7, 7, 7, 2⟩] := by
    decide +kernel
  refine ⟨hcandles, fun h => ?_⟩
  have htotal := (h ⟨60, 7, 7, 7, 7, 2⟩ (by rw [hcandles]; exact List.mem_singleton_self _)).total
  revert htotal
  decide +kernel

end SpotExchange.Api
