import SpotExchange.Lib.Grouping
import SpotExchange.Lib.HalfAway
import Mathlib.Data.List.Induction
import Mathlib.Data.List.Sort
import Mathlib.Order.Bounds.Basic

namespace SpotExchange.Api

open SpotExchange.Lib

/-!
# Candles

The trades of a symbol in the order of their times are read once.  A trade of another bucket than the
one before it closes the current candle and starts the next one.

* `aggregateCandles` — the loop of `get_candles` with its last flush, `buildCandles` — what is kept of it;
* `getCandles` — the endpoint, over the trades table;
* `Candle.Describes` — what a candle says about the trades of its bucket;
* `candles_groupBy` — one candle for each bucket, in order, that describes it.
-/

/-- What the endpoint reads of a row of the trades table. -/
structure TradeRow where
  symbol : String
  executedAt : ℚ
  price : ℚ
  quantity : ℚ
  deriving DecidableEq, Repr

/-- A candle; the price that it opens with is `open` in the source. -/
structure Candle where
  time : ℤ
  openPrice : ℚ
  high : ℚ
  low : ℚ
  close : ℚ
  volume : ℚ
  deriving DecidableEq, Repr

/-- `tf_map.get(timeframe, 60)`. -/
def tfSeconds : String → ℤ
  | "1m" => 60
  | "5m" => 300
  | "15m" => 900
  | "1h" => 3600
  | "4h" => 14400
  | "1d" => 86400
  | _ => 60

/-- The time of a trade in whole seconds, floored to the timeframe. -/
def bucketOf (tf : ℤ) (trade : TradeRow) : ℤ := truncate trade.executedAt / tf * tf

/-- The candle that a trade starts. -/
def startCandle (tf : ℤ) (trade : TradeRow) : Candle where
  time := bucketOf tf trade
  openPrice := trade.price
  high := trade.price
  low := trade.price
  close := trade.price
  volume := trade.quantity

/-- The current candle with one more trade. -/
def Candle.update (candle : Candle) (trade : TradeRow) : Candle :=
  { candle with
    high := max candle.high trade.price
    low := min candle.low trade.price
    close := trade.price
    volume := candle.volume + trade.quantity }

/-- The variables of the loop. -/
structure CandleLoop where
  candles : List Candle
  currentBucket : Option ℤ
  currentCandle : Option Candle

/-- Before the first trade. -/
def CandleLoop.init : CandleLoop := ⟨[], none, none⟩

/-- One trade. -/
def CandleLoop.step (tf : ℤ) (s : CandleLoop) (trade : TradeRow) : CandleLoop :=
  let bucket := bucketOf tf trade
  if s.currentBucket = none ∨ s.currentBucket ≠ some bucket then
    { candles := s.candles ++ s.currentCandle.toList
      currentBucket := some bucket
      currentCandle := some (startCandle tf trade) }
  else
    { s with currentCandle := s.currentCandle.map fun candle => candle.update trade }

/-- The closed candles, and the current one. -/
def CandleLoop.flush (s : CandleLoop) : List Candle := s.candles ++ s.currentCandle.toList

/-- All candles of a list of trades. -/
def aggregateCandles (tf : ℤ) (trades : List TradeRow) : List Candle :=
  (trades.foldl (CandleLoop.step tf) .init).flush

/-- `xs[-n:]`, which is all of `xs` for `n = 0`. -/
def lastOf {α : Type} (n : ℕ) (xs : List α) : List α := if n = 0 then xs else xs.drop (xs.length - n)

/-- The candles that are kept: the most recent ones. -/
def buildCandles (tf : ℤ) (limit : ℕ) (trades : List TradeRow) : List Candle :=
  let candles := aggregateCandles tf trades
  if limit < candles.length then lastOf limit candles else candles

/-- The answer of the endpoint. -/
structure CandlesResponse where
  candles : List Candle
  symbol : String
  timeframe : String
  deriving DecidableEq, Repr

/-- The trades since a time, in the order of their times. -/
def selectTrades (table : List TradeRow) (symbol : String) (start : ℚ) : List TradeRow :=
  (table.filter fun t => t.symbol = symbol ∧ start ≤ t.executedAt).insertionSort
    fun a b => a.executedAt ≤ b.executedAt

/-- **`get_candles`.** -/
def getCandles (table : List TradeRow) (symbol timeframe : String) (limit : ℕ) (now : ℚ) :
    CandlesResponse :=
  let tf := tfSeconds timeframe
  let trades := selectTrades table symbol (now - tf * limit)
  if trades = [] then ⟨[], symbol, timeframe⟩
  else ⟨buildCandles tf limit trades, symbol, timeframe⟩

/-- **What a candle says of the trades of its bucket**, in their order. -/
structure Candle.Describes (candle : Candle) (trades : List TradeRow) : Prop where
  opens : (trades.head?.map TradeRow.price) = some candle.openPrice
  closes : (trades.getLast?.map TradeRow.price) = some candle.close
  highest : IsGreatest {p | ∃ t ∈ trades, t.price = p} candle.high
  lowest : IsLeast {p | ∃ t ∈ trades, t.price = p} candle.low
  total : candle.volume = (trades.map TradeRow.quantity).sum

section

variable {tf : ℤ} {trade : TradeRow} {trades : List TradeRow} {candle : Candle}

theorem tfSeconds_pos (timeframe : String) : 0 < tfSeconds timeframe := by
  unfold tfSeconds
  split <;> decide

/-- A bucket is a multiple of the timeframe, and a trade since the epoch lies in its bucket. -/
theorem bucketOf_spec (htf : 0 < tf) (hepoch : 0 ≤ trade.executedAt) :
    tf ∣ bucketOf tf trade ∧ (bucketOf tf trade : ℚ) ≤ trade.executedAt ∧
      trade.executedAt < bucketOf tf trade + tf := by
  unfold bucketOf
  rw [truncate_of_nonneg hepoch]
  refine ⟨Dvd.intro_left _ rfl, ?_, ?_⟩
  · have hle : ⌊trade.executedAt⌋ / tf * tf ≤ ⌊trade.executedAt⌋ := Int.ediv_mul_le _ htf.ne'
    exact (Int.cast_le.mpr hle).trans (Int.floor_le _)
  · have hlt : ⌊trade.executedAt⌋ + 1 ≤ ⌊trade.executedAt⌋ / tf * tf + tf := by
      have := Int.lt_ediv_add_one_mul_self ⌊trade.executedAt⌋ htf
      linarith
    have hcast : ((⌊trade.executedAt⌋ + 1 : ℤ) : ℚ) ≤ ((⌊trade.executedAt⌋ / tf * tf + tf : ℤ) : ℚ) :=
      Int.cast_le.mpr hlt
    push_cast at hcast ⊢
    exact (Int.lt_floor_add_one _).trans_le hcast

/-- Later trades have no earlier buckets. -/
theorem bucketOf_mono {later : TradeRow} (htf : 0 < tf) (h : trade.executedAt ≤ later.executedAt) :
    bucketOf tf trade ≤ bucketOf tf later :=
  Int.mul_le_mul_of_nonneg_right (Int.ediv_le_ediv htf (truncate_mono h)) htf.le

/-! ### The loop -/

/-- The candles of a list of trades are its groups. -/
abbrev CandlesOf (tf : ℤ) : List TradeRow → List Candle → Prop :=
  Grouped (bucketOf tf) Candle.time (startCandle tf) Candle.update

/-- **The loop has grouped the trades that it has read.**  It has a current candle from the first trade
    on. -/
structure CandleLoop.Read (tf : ℤ) (trades : List TradeRow) (s : CandleLoop) : Prop where
  grouped : CandlesOf tf trades s.flush
  current : s.currentBucket = s.currentCandle.map Candle.time
  started : s.currentCandle = none → s.candles = []

theorem CandleLoop.read_init : CandleLoop.init.Read tf [] := ⟨.nil, rfl, fun _ => rfl⟩

/-- Another bucket than the current one comes after all that were read. -/
theorem CandleLoop.Read.lt_bucketOf {s : CandleLoop} (htf : 0 < tf) (h : s.Read tf trades)
    (hsorted : ∀ t ∈ trades, t.executedAt ≤ trade.executedAt)
    (hnew : s.currentBucket ≠ some (bucketOf tf trade)) :
    ∀ k ∈ trades.map (bucketOf tf), k < bucketOf tf trade := by
  intro k hk
  -- buckets do not decrease, as the trades come in the order of their times
  have hle : ∀ k ∈ trades.map (bucketOf tf), k ≤ bucketOf tf trade := by
    intro k hk
    obtain ⟨t, ht, rfl⟩ := List.mem_map.mp hk
    exact bucketOf_mono htf (hsorted t ht)
  obtain ⟨hincreasing, hcovers, -⟩ := h.grouped
  unfold CandleLoop.flush at hincreasing hcovers
  cases hcurrent : s.currentCandle with
  | none =>
    rw [h.started hcurrent, hcurrent] at hcovers
    simp [← hcovers] at hk
  | some candle =>
    rw [hcurrent, Option.toList_some] at hincreasing hcovers
    have htime : candle.time < bucketOf tf trade := by
      apply lt_of_le_of_ne
      · exact hle _ ((hcovers _).mp (by simp))
      · rintro heq
        apply hnew
        rw [h.current, hcurrent, Option.map_some, heq]
    rw [← hcovers, List.map_append, List.mem_append, List.map_singleton, List.mem_singleton] at hk
    rw [List.map_append, List.pairwise_append] at hincreasing
    obtain hk | rfl := hk
    · exact (hincreasing.2.2 k hk candle.time (by simp)).trans htime
    · exact htime

/-- **One trade.**  It goes to the current candle, or starts a new one. -/
theorem CandleLoop.Read.step {s : CandleLoop} (htf : 0 < tf) (h : s.Read tf trades)
    (hsorted : ∀ t ∈ trades, t.executedAt ≤ trade.executedAt) :
    (s.step tf trade).Read tf (trades ++ [trade]) := by
  unfold CandleLoop.step
  by_cases hnew : s.currentBucket = none ∨ s.currentBucket ≠ some (bucketOf tf trade)
  -- the trade starts a candle
  · have hother : s.currentBucket ≠ some (bucketOf tf trade) := by
      rcases hnew with hnone | hother
      · rw [hnone]
        simp
      · exact hother
    simp only [if_pos hnew]
    refine ⟨?_, rfl, fun hnone => absurd hnone (by simp)⟩
    exact h.grouped.start_new (fun _ => rfl) (h.lt_bucketOf htf hsorted hother)
  · rw [not_or, not_ne_iff] at hnew
    simp only [if_neg (not_or.mpr ⟨hnew.1, not_ne_iff.mpr hnew.2⟩)]
    cases hcurrent : s.currentCandle with
    | none =>
      rw [h.current, hcurrent] at hnew
      exact absurd rfl hnew.1
    | some candle =>
      -- the trade belongs to the candle that is open
      have htime : bucketOf tf trade = candle.time := by
        have hbucket := hnew.2
        rw [h.current, hcurrent] at hbucket
        exact (Option.some.inj hbucket).symm
      have hgrouped := h.grouped
      unfold CandleLoop.flush at hgrouped
      rw [hcurrent, Option.toList_some] at hgrouped
      refine ⟨?_, ?_, fun hnone => absurd hnone (by simp)⟩
      · exact hgrouped.extend_last (fun _ _ => rfl) htime
      · rw [hnew.2, htime]
        rfl

/-- **The whole loop.** -/
theorem CandleLoop.read_foldl (htf : 0 < tf)
    (hsorted : trades.Pairwise fun a b => a.executedAt ≤ b.executedAt) :
    (trades.foldl (CandleLoop.step tf) .init).Read tf trades := by
  induction trades using List.reverseRecOn with
  | nil => exact CandleLoop.read_init
  | append_singleton trades trade ih =>
    rw [List.pairwise_append] at hsorted
    rw [List.foldl_append, List.foldl_cons, List.foldl_nil]
    apply (ih hsorted.1).step htf
    intro t ht
    exact hsorted.2.2 t ht trade (by simp)

theorem candlesOf_aggregateCandles (htf : 0 < tf)
    (hsorted : trades.Pairwise fun a b => a.executedAt ≤ b.executedAt) :
    CandlesOf tf trades (aggregateCandles tf trades) := (CandleLoop.read_foldl htf hsorted).grouped

/-- A candle begins with the bucket of a trade. -/
theorem exists_of_mem_aggregateCandles (htf : 0 < tf)
    (hsorted : trades.Pairwise fun a b => a.executedAt ≤ b.executedAt)
    (h : candle ∈ aggregateCandles tf trades) : ∃ t ∈ trades, bucketOf tf t = candle.time := by
  have hgrouped := candlesOf_aggregateCandles htf hsorted
  exact List.mem_map.mp ((hgrouped.covers _).mp (List.mem_map_of_mem h))

/-- **One more trade** goes to the last candle, or starts the next one. -/
theorem aggregateCandles_concat {candles : List Candle} (htf : 0 < tf)
    (hsorted : trades.Pairwise fun a b => a.executedAt ≤ b.executedAt)
    (hcandles : aggregateCandles tf trades = candles ++ [candle]) :
    aggregateCandles tf (trades ++ [trade]) = if candle.time = bucketOf tf trade
      then candles ++ [candle.update trade] else candles ++ [candle] ++ [startCandle tf trade] := by
  have hread := CandleLoop.read_foldl htf hsorted
  unfold aggregateCandles at hcandles ⊢
  rw [List.foldl_append, List.foldl_cons, List.foldl_nil]
  generalize trades.foldl (CandleLoop.step tf) .init = s at hread hcandles ⊢
  -- the last candle is the one that is still open
  have hcurrent : s.candles = candles ∧ s.currentCandle = some candle := by
    unfold CandleLoop.flush at hcandles
    cases hnone : s.currentCandle with
    | none =>
      rw [hread.started hnone, hnone] at hcandles
      exact absurd hcandles (by simp)
    | some c =>
      rw [hnone, Option.toList_some] at hcandles
      obtain ⟨hinit, hlast⟩ := List.append_inj' hcandles rfl
      exact ⟨hinit, congrArg some (List.singleton_inj.mp hlast)⟩
  have hbucket : s.currentBucket = some candle.time := by rw [hread.current, hcurrent.2, Option.map_some]
  unfold CandleLoop.step CandleLoop.flush
  by_cases hsame : candle.time = bucketOf tf trade
  · rw [if_pos hsame, if_neg (by simp [hbucket, hsame]), hcurrent.1, hcurrent.2]
    rfl
  · rw [if_neg hsame, if_pos (.inr (by simpa [hbucket] using hsame)), hcurrent.1, hcurrent.2]
    rfl

/-! ### The candles -/

/-- What the trades of a bucket make of a candle describes them. -/
theorem Candle.describes_of_summary
    (h : summary (startCandle tf) Candle.update trades = some candle) : candle.Describes trades := by
  induction trades using List.reverseRecOn generalizing candle with
  | nil => simp [summary] at h
  | append_singleton trades trade ih =>
    rw [summary_concat, Option.some.injEq] at h
    cases hsum : summary (startCandle tf) Candle.update trades with
    | none =>
      have hnil : trades = [] := by
        cases trades with
        | nil => rfl
        | cons t ts => simp [summary] at hsum
      subst hnil
      rw [hsum] at h
      subst h
      constructor <;> simp [startCandle, IsGreatest, IsLeast, upperBounds, lowerBounds]
    | some earlier =>
      rw [hsum] at h
      subst h
      -- the prices of the candle are the earlier ones and the new one
      have hprices : {p | ∃ t ∈ trades ++ [trade], t.price = p}
          = insert trade.price {p | ∃ t ∈ trades, t.price = p} := by
        ext p
        simp only [List.mem_append, List.mem_singleton, Set.mem_ofPred_eq, Set.mem_insert_iff]
        constructor
        · rintro ⟨t, ht | rfl, rfl⟩
          · exact .inr ⟨t, ht, rfl⟩
          · exact .inl rfl
        · rintro (rfl | ⟨t, ht, rfl⟩)
          · exact ⟨trade, .inr rfl, rfl⟩
          · exact ⟨t, .inl ht, rfl⟩
      obtain ⟨hopens, -, hhigh, hlow, htotal⟩ := ih hsum
      constructor
      · cases trades with
        | nil => simp at hopens
        | cons t ts => exact hopens
      · simp [Candle.update]
      · rw [hprices]
        have := hhigh.insert trade.price
        simpa [Candle.update, max_comm] using this
      · rw [hprices]
        have := hlow.insert trade.price
        simpa [Candle.update, min_comm] using this
      · simp [Candle.update, htotal]

/-- As many of the most recent candles are kept as there may be. -/
theorem buildCandles_eq {limit : ℕ} (hlimit : 1 ≤ limit) : buildCandles tf limit trades
    = (aggregateCandles tf trades).drop ((aggregateCandles tf trades).length - limit) := by
  unfold buildCandles lastOf
  simp only [if_neg (Nat.one_le_iff_ne_zero.mp hlimit)]
  split_ifs with hmore
  · rfl
  · rw [Nat.sub_eq_zero_of_le (not_lt.mp hmore), List.drop_zero]

/-- **Candles are a group-by.**  There is one candle for each bucket that holds a trade, in the order of
    the buckets, and it describes the trades of its bucket; the last `limit` of them are kept. -/
theorem candles_groupBy (timeframe : String) (limit : ℕ) (hlimit : 1 ≤ limit) (trades : List TradeRow)
    (hsorted : trades.Pairwise fun a b => a.executedAt ≤ b.executedAt) :
    let tf := tfSeconds timeframe
    let candles := aggregateCandles tf trades
    (candles.map Candle.time).Pairwise (· < ·) ∧
    (∀ bucket, bucket ∈ candles.map Candle.time ↔ ∃ t ∈ trades, bucketOf tf t = bucket) ∧
    (∀ candle ∈ candles, candle.Describes (trades.filter fun t => bucketOf tf t = candle.time)) ∧
    buildCandles tf limit trades = candles.drop (candles.length - limit) := by
  intro tf candles
  have hgrouped : CandlesOf tf trades candles :=
    candlesOf_aggregateCandles (tfSeconds_pos timeframe) hsorted
  refine ⟨hgrouped.increasing, fun bucket => ?_, fun candle hcandle => ?_, buildCandles_eq hlimit⟩
  · rw [hgrouped.covers, List.mem_map]
  · exact Candle.describes_of_summary (hgrouped.summaries candle hcandle)

/-- Four trades in three minutes, two of them in the second, of which two candles are kept. -/
theorem candles_groupBy_threeMinutes :
    let trades := [(119, 7, 1), (120, 5, 2), (179.5, 6, 3), (180, 4, 1)].map
      fun t : ℚ × ℚ × ℚ => TradeRow.mk "BTC/USDT" t.1 t.2.1 t.2.2
    let candles := aggregateCandles (tfSeconds "1m") trades
    candles = [⟨60, 7, 7, 7, 7, 1⟩, ⟨120, 5, 6, 5, 6, 5⟩, ⟨180, 4, 4, 4, 4, 1⟩] ∧
    buildCandles (tfSeconds "1m") 2 trades = candles.drop (candles.length - 2) := by
  intro trades candles
  refine ⟨by decide +kernel, ?_⟩
  exact (candles_groupBy "1m" 2 (by decide) trades (by decide +kernel)).2.2.2

/-- The endpoint reads the trades in the order of their times. -/
theorem getCandles_candles (table : List TradeRow) (symbol timeframe : String) (limit : ℕ) (now : ℚ) :
    let trades := selectTrades table symbol (now - tfSeconds timeframe * limit)
    (getCandles table symbol timeframe limit now).candles
        = buildCandles (tfSeconds timeframe) limit trades ∧
      trades.Pairwise fun a b => a.executedAt ≤ b.executedAt := by
  intro trades
  constructor
  · unfold getCandles
    by_cases hnone : trades = []
    · rw [if_pos hnone, hnone]
      rfl
    · rw [if_neg hnone]
  · exact List.pairwise_insertionSort _ _

end

end SpotExchange.Api
