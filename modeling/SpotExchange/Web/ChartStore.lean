import Mathlib.Algebra.Order.Floor.Ring
import Mathlib.Data.List.DropRight
import SpotExchange.Api.Candles

namespace SpotExchange.Web

open SpotExchange.Lib
open SpotExchange.Api

/-!
# The chart store

The candles that the chart shows: what `get_candles` returned, and since then two reducers for each trade
message, of which the first opens buckets and the second adds volume.

* `ChartState.updateLastPrice`, `ChartState.addTradeToCandle` — the reducers;
* `handleTrade` — what the feed does with a trade message;
* `Live` — the candles are those of the trades so far, `Live.handleTrade` — a trade message keeps them so;
* `liveCandles_iff` — when the candles are those that the server would return.
-/

/-- The state of `useChartStore`. -/
structure ChartState where
  symbol : String
  timeframe : String
  candles : List Candle
  lastPrice : Option ℚ
  loading : Bool
  deriving DecidableEq, Repr

/-- `timeframeToSeconds`. -/
def timeframeToSeconds : String → ℤ
  | "1m" => 60
  | "5m" => 300
  | "15m" => 900
  | "1h" => 3600
  | "4h" => 14400
  | "1d" => 86400
  | _ => 60

/-- `Date.now()`, in milliseconds. -/
def dateNow (seconds : ℚ) : ℤ := ⌊seconds * 1000⌋

/-- The bucket of a moment. -/
def bucketTime (timeframe : String) (now : ℤ) : ℤ :=
  now / 1000 / timeframeToSeconds timeframe * timeframeToSeconds timeframe

/-- A candle with one more price. -/
def withPrice (candle : Candle) (price : ℚ) : Candle :=
  { candle with
    close := price
    high := max candle.high price
    low := min candle.low price }

/-- A candle that opens a bucket. -/
def newCandle (time : ℤ) (price : ℚ) : Candle where
  time := time
  openPrice := price
  high := price
  low := price
  close := price
  volume := 0

namespace ChartState

/-- The store before anything is loaded. -/
def init : ChartState where
  symbol := "BTC/USD"
  timeframe := "1m"
  candles := []
  lastPrice := none
  loading := false

def setSymbol (s : ChartState) (symbol : String) : ChartState :=
  { s with symbol := symbol, candles := [], lastPrice := none }

def setTimeframe (s : ChartState) (timeframe : String) : ChartState :=
  { s with timeframe := timeframe, candles := [] }

/-- `fetchCandles`, over the trades table at the moment of the request. -/
def fetchCandles (s : ChartState) (table : List TradeRow) (now : ℚ) (symbol timeframe : String) : ChartState :=
  { s with candles := (getCandles table symbol timeframe 500 now).candles, loading := false }

/-- `updateLastPrice`, at a value of `Date.now()`. -/
def updateLastPrice (s : ChartState) (now : ℤ) (price : ℚ) : ChartState :=
  match s.candles.getLast? with
  | none => { s with lastPrice := some price }
  | some lastCandle =>
    if lastCandle.time = bucketTime s.timeframe now then
      { s with candles := s.candles.dropLast ++ [withPrice lastCandle price], lastPrice := some price }
    else if lastCandle.time < bucketTime s.timeframe now then
      { s with
        candles := (s.candles ++ [newCandle (bucketTime s.timeframe now) price]).rtake 500
        lastPrice := some price }
    else { s with lastPrice := some price }

/-- `addTradeToCandle`, at a value of `Date.now()`. -/
def addTradeToCandle (s : ChartState) (now : ℤ) (price qty : ℚ) : ChartState :=
  match s.candles.getLast? with
  | none => s
  | some lastCandle =>
    if lastCandle.time = bucketTime s.timeframe now then
      let updated := { withPrice lastCandle price with volume := lastCandle.volume + qty }
      { s with candles := s.candles.dropLast ++ [updated], lastPrice := some price }
    else s

end ChartState

/-- **What the feed does with a trade message**, at the moment when the trade is executed. -/
def handleTrade (s : ChartState) (trade : TradeRow) : ChartState :=
  (s.updateLastPrice (dateNow trade.executedAt) trade.price).addTradeToCandle
    (dateNow trade.executedAt) trade.price trade.quantity

section

variable {s : ChartState} {trade : TradeRow} {trades news : List TradeRow} {candles : List Candle}
  {candle : Candle}

theorem timeframeToSeconds_eq (timeframe : String) : timeframeToSeconds timeframe = tfSeconds timeframe :=
  rfl

/-- **Both sides find the same bucket** for a moment since the epoch. -/
theorem bucketTime_dateNow (timeframe : String) (hepoch : 0 ≤ trade.executedAt) :
    bucketTime timeframe (dateNow trade.executedAt) = bucketOf (tfSeconds timeframe) trade := by
  have hseconds : dateNow trade.executedAt / 1000 = ⌊trade.executedAt⌋ := by
    have hfloor := Int.floor_div_natCast (trade.executedAt * 1000) 1000
    rw [Nat.cast_ofNat, Nat.cast_ofNat, mul_div_cancel_right₀ _ (by norm_num)] at hfloor
    exact hfloor.symm
  unfold bucketTime bucketOf
  rw [timeframeToSeconds_eq, hseconds, truncate_of_nonneg hepoch]

/-! ### The reducers -/

section

variable {now : ℤ} {price qty : ℚ}

theorem updateLastPrice_nil (h : s.candles = []) :
    s.updateLastPrice now price = { s with lastPrice := some price } := by
  unfold ChartState.updateLastPrice
  rw [h]
  rfl

/-- A price in the bucket of the last candle. -/
theorem updateLastPrice_same (h : s.candles = candles ++ [candle])
    (hsame : candle.time = bucketTime s.timeframe now) :
    s.updateLastPrice now price =
      { s with candles := candles ++ [withPrice candle price], lastPrice := some price } := by
  unfold ChartState.updateLastPrice
  simp only [h, List.getLast?_concat, if_pos hsame, List.dropLast_concat]

/-- A price in a later bucket, which it opens. -/
theorem updateLastPrice_later (h : s.candles = candles ++ [candle])
    (hlater : candle.time < bucketTime s.timeframe now) :
    s.updateLastPrice now price = { s with
      candles := (s.candles ++ [newCandle (bucketTime s.timeframe now) price]).rtake 500
      lastPrice := some price } := by
  unfold ChartState.updateLastPrice
  simp only [h, List.getLast?_concat, if_neg hlater.ne, if_pos hlater]

theorem updateLastPrice_timeframe (s : ChartState) : (s.updateLastPrice now price).timeframe = s.timeframe := by
  unfold ChartState.updateLastPrice
  split
  · rfl
  · split_ifs <;> rfl

theorem addTradeToCandle_nil (h : s.candles = []) : (s.addTradeToCandle now price qty).candles = [] := by
  unfold ChartState.addTradeToCandle
  rw [h]
  exact h

/-- A trade in the bucket of the last candle. -/
theorem addTradeToCandle_same (now : ℤ) (price qty : ℚ) (h : s.candles = candles ++ [candle])
    (hsame : candle.time = bucketTime s.timeframe now) :
    (s.addTradeToCandle now price qty).candles =
      candles ++ [{ withPrice candle price with volume := candle.volume + qty }] := by
  unfold ChartState.addTradeToCandle
  simp only [h, List.getLast?_concat, if_pos hsame, List.dropLast_concat]

theorem addTradeToCandle_timeframe (s : ChartState) :
    (s.addTradeToCandle now price qty).timeframe = s.timeframe := by
  unfold ChartState.addTradeToCandle
  split
  · rfl
  · split_ifs <;> rfl

end

/-! ### One message -/

/-- The timeframe is fixed. -/
theorem handleTrade_timeframe (s : ChartState) (trade : TradeRow) :
    (handleTrade s trade).timeframe = s.timeframe :=
  (addTradeToCandle_timeframe _).trans (updateLastPrice_timeframe s)

/-- Both reducers leave a chart without candles as it is. -/
theorem handleTrade_nil (h : s.candles = []) : (handleTrade s trade).candles = [] := by
  unfold handleTrade
  rw [updateLastPrice_nil h]
  exact addTradeToCandle_nil h

/-- A trade of the bucket of the last candle. -/
theorem handleTrade_same (hepoch : 0 ≤ trade.executedAt) (hcandles : s.candles = candles ++ [candle])
    (hsame : candle.time = bucketOf (tfSeconds s.timeframe) trade) :
    (handleTrade s trade).candles = candles ++ [candle.update trade] := by
  have hbucket := hsame.trans (bucketTime_dateNow s.timeframe hepoch).symm
  unfold handleTrade
  rw [updateLastPrice_same hcandles hbucket]
  rw [addTradeToCandle_same (s := { s with
    candles := candles ++ [withPrice candle trade.price]
    lastPrice := some trade.price }) _ _ _ rfl hbucket]
  -- the second reducer takes the price once more
  simp only [withPrice, Candle.update, max_assoc, max_self, min_assoc, min_self]

/-- A trade of a later bucket. -/
theorem handleTrade_later (hepoch : 0 ≤ trade.executedAt) (hcandles : s.candles = candles ++ [candle])
    (hlater : candle.time < bucketOf (tfSeconds s.timeframe) trade) :
    (handleTrade s trade).candles =
      (s.candles ++ [startCandle (tfSeconds s.timeframe) trade]).rtake 500 := by
  have hbucket := bucketTime_dateNow s.timeframe hepoch
  have hrtake : ∀ c : Candle, (s.candles ++ [c]).rtake 500 = s.candles.rtake 499 ++ [c] := fun c =>
    List.rtake_concat_succ s.candles 499 c
  unfold handleTrade
  rw [updateLastPrice_later hcandles (hbucket ▸ hlater), hrtake, hrtake]
  -- the bucket has been opened without volume
  rw [addTradeToCandle_same (s := { s with
    candles := s.candles.rtake 499 ++ [newCandle (bucketTime s.timeframe (dateNow trade.executedAt)) trade.price]
    lastPrice := some trade.price }) _ _ _ rfl rfl]
  simp only [withPrice, newCandle, startCandle, hbucket, max_self, min_self, zero_add]

/-! ### A stream of messages -/

/-- **The candles are those of the trades so far**, of which there is one. -/
structure Live (s : ChartState) (trades : List TradeRow) : Prop where
  candles : s.candles = (aggregateCandles (tfSeconds s.timeframe) trades).rtake 500
  sorted : trades.Pairwise fun a b => a.executedAt ≤ b.executedAt
  started : trades ≠ []

/-- What is kept of a list with one more entry does not depend on what has been cut off before. -/
theorem rtake_rtake_concat {α : Type} (n : ℕ) (l : List α) (x : α) :
    (l.rtake (n + 1) ++ [x]).rtake (n + 1) = (l ++ [x]).rtake (n + 1) := by
  rw [List.rtake_concat_succ, List.rtake_concat_succ, List.rtake_eq_reverse_take_reverse,
    List.rtake_eq_reverse_take_reverse, List.rtake_eq_reverse_take_reverse, List.reverse_reverse,
    List.take_take, min_eq_left (Nat.le_succ n)]

/-- There is a last candle as soon as there is a trade. -/
theorem exists_last_candle {tf : ℤ} (htf : 0 < tf)
    (hsorted : trades.Pairwise fun a b => a.executedAt ≤ b.executedAt) (hne : trades ≠ []) :
    ∃ all candle, aggregateCandles tf trades = all ++ [candle] := by
  rcases List.eq_nil_or_concat (aggregateCandles tf trades) with hnil | ⟨all, candle, hall⟩
  · obtain ⟨t, ts, rfl⟩ := List.exists_cons_of_ne_nil hne
    have hcovers := ((candlesOf_aggregateCandles htf hsorted).covers (bucketOf tf t)).mpr (by simp)
    rw [hnil] at hcovers
    exact absurd hcovers (by simp)
  · exact ⟨all, candle, hall.trans (List.concat_eq_append ..)⟩

/-- **A trade message.** -/
theorem Live.handleTrade (h : Live s trades) (hlast : ∀ t ∈ trades, t.executedAt ≤ trade.executedAt)
    (hepoch : 0 ≤ trade.executedAt) : Live (handleTrade s trade) (trades ++ [trade]) := by
  have htf := tfSeconds_pos s.timeframe
  refine ⟨?_, ?_, by simp⟩
  · rw [handleTrade_timeframe]
    obtain ⟨all, candle, hall⟩ := exists_last_candle htf h.sorted h.started
    have hcandles : s.candles = all.rtake 499 ++ [candle] := by
      rw [h.candles, hall]
      exact List.rtake_concat_succ all 499 candle
    rw [aggregateCandles_concat htf h.sorted hall]
    -- the last candle is that of an earlier trade
    have hmem : candle ∈ aggregateCandles (tfSeconds s.timeframe) trades := by
      rw [hall]
      simp
    obtain ⟨t, ht, htime⟩ := exists_of_mem_aggregateCandles htf h.sorted hmem
    have hle : candle.time ≤ bucketOf (tfSeconds s.timeframe) trade := by
      rw [← htime]
      exact bucketOf_mono htf (hlast t ht)
    split_ifs with hsame
    · rw [handleTrade_same hepoch hcandles hsame]
      exact (List.rtake_concat_succ all 499 _).symm
    · rw [handleTrade_later hepoch hcandles (lt_of_le_of_ne hle hsame), h.candles, hall]
      exact rtake_rtake_concat 499 _ _
  · rw [List.pairwise_append]
    exact ⟨h.sorted, List.pairwise_singleton _ _, fun t ht u hu => by
      rw [List.mem_singleton.mp hu]
      exact hlast t ht⟩

/-- **A stream of trade messages.** -/
theorem Live.foldl (h : Live s trades)
    (hsorted : (trades ++ news).Pairwise fun a b => a.executedAt ≤ b.executedAt)
    (hepoch : ∀ t ∈ news, 0 ≤ t.executedAt) : Live (news.foldl Web.handleTrade s) (trades ++ news) := by
  induction news generalizing s trades with
  | nil => rwa [List.append_nil]
  | cons t news ih =>
    rw [List.forall_mem_cons] at hepoch
    rw [List.append_cons] at hsorted ⊢
    have hlast : ∀ u ∈ trades, u.executedAt ≤ t.executedAt := fun u hu =>
      (List.pairwise_append.mp (List.pairwise_append.mp hsorted).1).2.2 u hu t (List.mem_singleton_self t)
    exact ih (h.handleTrade hlast hepoch.1) hsorted hepoch.2

/-- A chart without candles stays so. -/
theorem foldl_handleTrade_nil (h : s.candles = []) : (news.foldl handleTrade s).candles = [] := by
  induction news generalizing s with
  | nil => exact h
  | cons t news ih => exact ih (handleTrade_nil h)

/-- Whatever clears the chart leaves it empty until candles are fetched again. -/
theorem foldl_handleTrade_setSymbol (s : ChartState) (symbol : String) (news : List TradeRow) :
    (news.foldl handleTrade (s.setSymbol symbol)).candles = [] := foldl_handleTrade_nil rfl

theorem foldl_handleTrade_setTimeframe (s : ChartState) (timeframe : String) (news : List TradeRow) :
    (news.foldl handleTrade (s.setTimeframe timeframe)).candles = [] := foldl_handleTrade_nil rfl

theorem foldl_handleTrade_timeframe (s : ChartState) (news : List TradeRow) :
    (news.foldl handleTrade s).timeframe = s.timeframe := by
  induction news generalizing s with
  | nil => rfl
  | cons t news ih => exact (ih (handleTrade s t)).trans (handleTrade_timeframe s t)

/-- **Live candles are the server's** just if the chart has candles to begin with, or no trade comes: the
    candles are then the last 500 ones of the trades that were fetched followed by the new ones. -/
theorem liveCandles_iff (s : ChartState) (table : List TradeRow) (now : ℚ) (news : List TradeRow)
    (hsorted : (selectTrades table s.symbol (now - tfSeconds s.timeframe * (500 : ℕ)) ++ news).Pairwise
      fun a b => a.executedAt ≤ b.executedAt)
    (hepoch : ∀ t ∈ news, 0 ≤ t.executedAt) :
    (news.foldl handleTrade (s.fetchCandles table now s.symbol s.timeframe)).candles =
        buildCandles (tfSeconds s.timeframe) 500
          (selectTrades table s.symbol (now - tfSeconds s.timeframe * (500 : ℕ)) ++ news) ↔
      (s.fetchCandles table now s.symbol s.timeframe).candles ≠ [] ∨ news = [] := by
  let trades := selectTrades table s.symbol (now - tfSeconds s.timeframe * (500 : ℕ))
  let s₀ := s.fetchCandles table now s.symbol s.timeframe
  have htf := tfSeconds_pos s.timeframe
  have hearlier : trades.Pairwise fun a b => a.executedAt ≤ b.executedAt := (List.pairwise_append.mp hsorted).1
  have hkept : ∀ l, buildCandles (tfSeconds s.timeframe) 500 l =
      (aggregateCandles (tfSeconds s.timeframe) l).rtake 500 := fun l => buildCandles_eq (by decide)
  have hfetched : s₀.candles = (aggregateCandles (tfSeconds s.timeframe) trades).rtake 500 :=
    (getCandles_candles table s.symbol s.timeframe 500 now).1.trans (hkept trades)
  show (news.foldl handleTrade s₀).candles = _ ↔ s₀.candles ≠ [] ∨ news = []
  rw [hkept]
  by_cases hnone : trades = []
  · -- the chart has no candles, and gets none
    have hempty : s₀.candles = [] := by
      rw [hfetched, hnone]
      exact List.rtake_nil 500
    rw [foldl_handleTrade_nil hempty, eq_comm]
    constructor
    · intro hnil
      refine .inr (by_contra fun hnews => ?_)
      obtain ⟨all, candle, hall⟩ := exists_last_candle htf hsorted fun h =>
        hnews (List.append_eq_nil_iff.mp h).2
      rw [hall, List.rtake_concat_succ _ 499] at hnil
      exact absurd hnil (by simp)
    · rintro (h | rfl)
      · exact absurd hempty h
      · rw [List.append_nil, ← hfetched, hempty]
  · have hlive : Live s₀ trades := ⟨hfetched, hearlier, hnone⟩
    have hcandles := (hlive.foldl hsorted hepoch).candles
    rw [foldl_handleTrade_timeframe] at hcandles
    refine iff_of_true hcandles (.inl ?_)
    obtain ⟨all, candle, hall⟩ := exists_last_candle htf hearlier hnone
    rw [hfetched, hall, List.rtake_concat_succ _ 499]
    simp

end

/-- A trade, and two that come when the chart has been loaded. -/
def soldAt70 : TradeRow := ⟨"BTC/USD", 70, 5, 1⟩
def soldLater : List TradeRow := [⟨"BTC/USD", 100.5, 7, 2⟩, ⟨"BTC/USD", 130, 6, 1⟩]

theorem liveCandles_iff_soldLater :
    (soldLater.foldl handleTrade (ChartState.init.fetchCandles [soldAt70] 90 "BTC/USD" "1m")).candles =
        [⟨60, 5, 7, 5, 7, 3⟩, ⟨120, 6, 6, 6, 6, 1⟩] ∧
      ((soldLater.foldl handleTrade (ChartState.init.fetchCandles [soldAt70] 90 "BTC/USD" "1m")).candles =
          buildCandles 60 500 (selectTrades [soldAt70] "BTC/USD" (90 - 60 * (500 : ℕ)) ++ soldLater) ↔
        (ChartState.init.fetchCandles [soldAt70] 90 "BTC/USD" "1m").candles ≠ [] ∨ soldLater = []) :=
  ⟨by decide +kernel, liveCandles_iff .init [soldAt70] 90 soldLater (by decide +kernel) (by decide +kernel)⟩

/-- **The first trade of a symbol opens no candle**: the chart has none to begin with, and stays so. -/
theorem liveCandles_not_always :
    (soldLater.foldl handleTrade (ChartState.init.fetchCandles [] 90 "BTC/USD" "1m")).candles = [] ∧
      buildCandles 60 500 (selectTrades [] "BTC/USD" (90 - 60 * (500 : ℕ)) ++ soldLater) =
        [⟨60, 7, 7, 7, 7, 2⟩, ⟨120, 6, 6, 6, 6, 1⟩] := by
  constructor <;> decide +kernel

end SpotExchange.Web
