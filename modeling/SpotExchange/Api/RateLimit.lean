import SpotExchange.Lib.HalfAway
import SpotExchange.Lib.Run
import SpotExchange.Lib.Significand
import SpotExchange.Lib.SortedSet
import SpotExchange.Lib.Window
import Mathlib.Data.NNRat.Defs
import Mathlib.Data.Rat.Floor
import Mathlib.Data.String.Basic
import Mathlib.Tactic.Linarith

namespace SpotExchange.Api

open SpotExchange.Lib

/-!
# The rate limiter

One Redis key for each API key: a ZSET of the times of recent requests, whose members are the times as
texts, and a time to live.

* `RateLimitKey` — the ZSET and its expiry;
* `checkAndConsume` — one request;
* `answers` — what a sequence of requests is told;
* `rateLimit_window` — the limit holds where no request is let in under the text of another one;
* `retryAfter_truthful` — a client that waits as long as it is told to is let in.
-/

/-- `f"{now:.6f}"`: a time in whole microseconds, ties to the even one. -/
def timeText (now : ℚ≥0) : String :=
  let x := now * 10 ^ 6
  let micros := roundTo x.den x.num / x.den
  let decimals := toString (micros % 10 ^ 6)
  toString (micros / 10 ^ 6) ++ "." ++ ("".pushn '0' (6 - decimals.length)) ++ decimals

/-- `ratelimit:{api_key}`: the ZSET, and when the key expires.  Without members there is no key. -/
structure RateLimitKey where
  entries : SortedSet String
  expireAt : Option ℚ
  deriving DecidableEq, Repr

/-- `RateLimitResult`. -/
inductive RateLimitResult
  | allowed
  | rejected
  deriving DecidableEq, Repr

/-- `(result, current_count, retry_after_seconds)`. -/
structure RateLimitAnswer where
  result : RateLimitResult
  currentCount : ℕ
  retryAfter : ℤ
  deriving DecidableEq, Repr

namespace RateLimitKey

/-- No key. -/
def missing : RateLimitKey := ⟨[], none⟩

/-- The key as it is found at a time. -/
def found (key : RateLimitKey) (now : ℚ) : RateLimitKey :=
  match key.expireAt with
  | none => key
  | some e => if e ≤ now then missing else key

/-- A key lives as long as it has members. -/
def ofEntries (entries : SortedSet String) (expireAt : Option ℚ) : RateLimitKey :=
  if entries = [] then missing else ⟨entries, expireAt⟩

/-- `ZREMRANGEBYSCORE key min max`, with both ends. -/
def zremrangebyscore (key : RateLimitKey) (low high : ℚ) : RateLimitKey :=
  ofEntries (key.entries.filter fun x => ¬(low ≤ x.1 ∧ x.1 ≤ high)) key.expireAt

/-- `EXPIRE key seconds`, which does nothing if there is no key. -/
def expire (key : RateLimitKey) (deadline : ℚ) : RateLimitKey :=
  if key.entries = [] then key else { key with expireAt := some deadline }

/-- `ZADD key {member: score}`, which keeps the time to live. -/
def zadd (key : RateLimitKey) (member : String) (score : ℚ) : RateLimitKey :=
  { key with entries := key.entries.zadd id score member }

/-- The key after the pipeline of a request: what is out of the window is evicted. -/
def pruned (windowSeconds : ℕ) (now : ℚ≥0) (key : RateLimitKey) : RateLimitKey :=
  ((key.found now).zremrangebyscore 0 (now - windowSeconds)).expire (now + (windowSeconds + 10))

end RateLimitKey

/-- **`check_and_consume`.** -/
def checkAndConsume (limitPerMin windowSeconds : ℕ) (now : ℚ≥0) (key : RateLimitKey) :
    RateLimitAnswer × RateLimitKey :=
  let pruned := key.pruned windowSeconds now
  let currentCount := pruned.entries.length
  if currentCount < limitPerMin then
    (⟨.allowed, currentCount + 1, 0⟩, pruned.zadd (timeText now) now)
  else
    match pruned.entries with
    | oldest :: _ => (⟨.rejected, currentCount, max 1 (truncate (oldest.1 + windowSeconds - now) + 1)⟩, pruned)
    | [] => (⟨.rejected, currentCount, 1⟩, pruned)

/-- The key after a request under the default window. -/
def limited (limit : ℕ) (key : RateLimitKey) (now : ℚ≥0) : RateLimitKey :=
  (checkAndConsume limit 60 now key).2

/-- What the requests of a sequence are told, each with its time. -/
def answers (limit : ℕ) : RateLimitKey → List ℚ≥0 → List (ℚ × RateLimitAnswer)
  | _, [] => []
  | key, now :: times =>
    ((now : ℚ), (checkAndConsume limit 60 now key).1) :: answers limit (limited limit key now) times

/-- The times of the requests that are let in. -/
def allowedTimes (log : List (ℚ × RateLimitAnswer)) : List ℚ :=
  (log.filter fun x => x.2.result = .allowed).map Prod.fst

/-- A request that would be let in finds no entry under its own text. -/
def FreshText (limit : ℕ) (key : RateLimitKey) (now : ℚ≥0) : Prop :=
  (key.pruned 60 now).entries.length < limit → timeText now ∉ (key.pruned 60 now).entries.members

instance (limit : ℕ) (key : RateLimitKey) (now : ℚ≥0) : Decidable (FreshText limit key now) :=
  inferInstanceAs (Decidable (_ → _))

section

variable {limit windowSeconds : ℕ} {now : ℚ≥0} {last : ℚ} {key : RateLimitKey} {log : List ℚ}
  {times : List ℚ≥0}

/-! ### The key -/

namespace RateLimitKey

/-- No score is negative. -/
def Nonneg (key : RateLimitKey) : Prop := ∀ x ∈ key.entries, 0 ≤ x.1

/-- The times in the ZSET. -/
def scores (key : RateLimitKey) : List ℚ := key.entries.map Prod.fst

theorem found_cases (key : RateLimitKey) (t : ℚ) :
    key.found t = key ∨ key.found t = missing ∧ ∃ e, key.expireAt = some e ∧ e ≤ t := by
  unfold found
  cases he : key.expireAt with
  | none => exact .inl rfl
  | some e =>
    by_cases hle : e ≤ t
    · exact .inr ⟨if_pos hle, e, rfl, hle⟩
    · exact .inl (if_neg hle)

@[simp] theorem ofEntries_entries (entries : SortedSet String) (e : Option ℚ) :
    (ofEntries entries e).entries = entries := by
  unfold ofEntries
  split_ifs with hnil
  · exact hnil.symm
  · rfl

@[simp] theorem expire_entries (key : RateLimitKey) (deadline : ℚ) :
    (key.expire deadline).entries = key.entries := by
  unfold expire
  split_ifs <;> rfl

theorem pruned_entries (windowSeconds : ℕ) (now : ℚ≥0) (key : RateLimitKey) :
    (key.pruned windowSeconds now).entries
      = (key.found now).entries.filter fun x => ¬(0 ≤ x.1 ∧ x.1 ≤ (now : ℚ) - windowSeconds) := by
  simp only [pruned, expire_entries, zremrangebyscore, ofEntries_entries]

/-- A time to live is always renewed for a whole window and more. -/
theorem pruned_expireAt {e : ℚ} (h : (key.pruned windowSeconds now).expireAt = some e) :
    e = now + (windowSeconds + 10) := by
  unfold pruned expire at h
  split_ifs at h with hnil
  · unfold zremrangebyscore ofEntries at h hnil
    split_ifs at h hnil with hempty
    · simp [missing] at h
    · exact absurd hnil hempty
  · exact (Option.some.inj h).symm

theorem Nonneg.pruned (h : key.Nonneg) : (key.pruned windowSeconds now).Nonneg := by
  intro x hx
  rw [pruned_entries, List.mem_filter] at hx
  obtain hkey | ⟨hkey, -⟩ := key.found_cases now
  · rw [hkey] at hx
    exact h x hx.1
  · simp [hkey, missing] at hx

theorem Nonneg.zadd (h : key.Nonneg) (member : String) (now : ℚ≥0) :
    (key.zadd member now).Nonneg := by
  intro x hx
  rcases SortedSet.mem_zadd.mp hx with rfl | hx
  · exact now.coe_nonneg
  · exact h x hx.1

/-- What is left after the pipeline is recent. -/
theorem pruned_scores (windowSeconds : ℕ) (now : ℚ≥0) (h : key.Nonneg) :
    (key.pruned windowSeconds now).scores
    = recent (windowSeconds : ℚ) now (key.found now).scores := by
  have hnonneg : ∀ x ∈ (key.found now).entries, 0 ≤ x.1 := by
    obtain hkey | ⟨hkey, -⟩ := key.found_cases now
    · rw [hkey]
      exact h
    · simp [hkey, missing]
  unfold scores recent
  rw [pruned_entries, List.filter_map]
  congr 1
  apply List.filter_congr
  intro x hx
  simp [hnonneg x hx]

end RateLimitKey

/-- A request is let in and entered, or it is refused and leaves the key as the pipeline does. -/
theorem checkAndConsume_cases (limit : ℕ) (now : ℚ≥0) (key : RateLimitKey) :
    ((key.pruned 60 now).entries.length < limit ∧
      (checkAndConsume limit 60 now key).1.result = .allowed ∧
      limited limit key now = (key.pruned 60 now).zadd (timeText now) now) ∨
    (limit ≤ (key.pruned 60 now).entries.length ∧
      (checkAndConsume limit 60 now key).1.result = .rejected ∧
      limited limit key now = key.pruned 60 now) := by
  unfold limited checkAndConsume
  by_cases hfew : (key.pruned 60 now).entries.length < limit
  · exact .inl ⟨hfew, by simp [hfew]⟩
  · refine .inr ⟨not_lt.mp hfew, ?_⟩
    simp only [if_neg hfew]
    split <;> exact ⟨rfl, rfl⟩

/-! ### The key and the requests that were let in -/

/-- **Each entry of the key is a request that was let in.** -/
structure Backed (key : RateLimitKey) (log : List ℚ) : Prop where
  nonneg : key.Nonneg
  logged : key.scores.Subperm log

/-- **The key holds all that is recent of what was let in.**  It does not expire before that is past. -/
structure Complete (key : RateLimitKey) (log : List ℚ) (last : ℚ) : Prop where
  nonneg : key.Nonneg
  bounded : ∀ x ∈ log, x ≤ last
  kept : key.scores.Perm (recent 60 last log)
  lives : ∀ e, key.expireAt = some e → last + 60 ≤ e

theorem scores_pruned (h : key.Nonneg) (now : ℚ≥0) :
    (key.pruned 60 now).scores = recent 60 (now : ℚ) (key.found now).scores := by
  have hscores := RateLimitKey.pruned_scores 60 now h
  rwa [Nat.cast_ofNat] at hscores

theorem Backed.pruned (h : Backed key log) (now : ℚ≥0) : Backed (key.pruned 60 now) log := by
  refine ⟨h.nonneg.pruned, ?_⟩
  rw [scores_pruned h.nonneg]
  apply (List.filter_sublist.subperm).trans
  obtain hkey | ⟨hkey, -⟩ := key.found_cases now
  · rw [hkey]
    exact h.logged
  · rw [hkey]
    exact List.nil_subperm

theorem Backed.zadd (h : Backed key log) (member : String) (now : ℚ≥0) :
    Backed (key.zadd member now) (log ++ [(now : ℚ)]) := by
  refine ⟨h.nonneg.zadd member now, ?_⟩
  have hperm : (key.zadd member now).scores.Perm
      ((now : ℚ) :: (SortedSet.zrem key.entries member).map Prod.fst) :=
    (List.perm_orderedInsert (SortedSet.precedes id) ((now : ℚ), member) _).map Prod.fst
  have hrest : ((SortedSet.zrem key.entries member).map Prod.fst).Subperm log :=
    ((List.filter_sublist.map Prod.fst).subperm).trans h.logged
  exact (hperm.subperm.trans ((List.subperm_cons _).mpr hrest)).trans (List.perm_append_singleton _ _).symm.subperm

theorem Complete.pruned (h : Complete key log last) (hnow : last ≤ now) :
    Complete (key.pruned 60 now) log now := by
  refine ⟨h.nonneg.pruned, fun x hx => (h.bounded x hx).trans hnow, ?_, ?_⟩
  · rw [scores_pruned h.nonneg]
    obtain hkey | ⟨hkey, e, he, hle⟩ := key.found_cases now
    · have hrecent := h.kept.filter fun x => (now : ℚ) - 60 < x
      change (recent 60 (now : ℚ) _).Perm (recent 60 (now : ℚ) _) at hrecent
      rw [recent_recent hnow] at hrecent
      rw [hkey]
      exact hrecent
    · -- the key has expired, and so has all that was in it
      have hpast : recent 60 (now : ℚ) log = [] := by
        apply recent_eq_nil
        intro x hx
        have hlives := h.lives e he
        have hbound := h.bounded x hx
        linarith
      rw [hkey, hpast]
      exact .refl _
  · intro e he
    rw [RateLimitKey.pruned_expireAt he]
    push_cast
    linarith

theorem Complete.zadd {member : String} (h : Complete key log now)
    (hfresh : member ∉ key.entries.members) :
    Complete (key.zadd member now) (log ++ [(now : ℚ)]) now := by
  refine ⟨h.nonneg.zadd member now, ?_, ?_, h.lives⟩
  · intro x hx
    rcases List.mem_append.mp hx with hx | hx
    · exact h.bounded x hx
    · rw [List.mem_singleton.mp hx]
  · have hnew : recent 60 (now : ℚ) [(now : ℚ)] = [(now : ℚ)] := by simp [recent]
    rw [recent_append, hnew]
    have hperm : (key.zadd member now).scores.Perm ((now : ℚ) :: key.scores) :=
      (SortedSet.zadd_perm hfresh).map Prod.fst
    exact hperm.trans ((h.kept.cons _).trans (List.perm_append_singleton _ _).symm)

/-! ### The limit -/

theorem allowedTimes_cons (x : ℚ × RateLimitAnswer) (rest : List (ℚ × RateLimitAnswer)) :
    allowedTimes (x :: rest)
      = (if x.2.result = .allowed then [x.1] else []) ++ allowedTimes rest := by
  unfold allowedTimes
  by_cases hx : x.2.result = .allowed <;> simp [hx]

theorem Complete.throttled (h : Complete key log last) (hthrottled : Throttled 60 limit log)
    (hlast : ∀ t ∈ times, last ≤ (t : ℚ)) (hsorted : times.Pairwise (· ≤ ·))
    (hfresh : Run.Along (limited limit) (FreshText limit) key times) :
    Throttled 60 limit (log ++ allowedTimes (answers limit key times)) := by
  induction times generalizing key log last with
  | nil => simpa [answers, allowedTimes] using hthrottled
  | cons now times ih =>
    rw [List.forall_mem_cons] at hlast
    rw [List.pairwise_cons] at hsorted
    have hnow := h.pruned hlast.1
    have hlater : ∀ t ∈ times, (now : ℚ) ≤ t := fun t ht => by exact_mod_cast hsorted.1 t ht
    rw [answers, allowedTimes_cons]
    -- an allowed request is added to the log, a rejected one only prunes
    obtain ⟨hfew, hres, hkey⟩ | ⟨-, hres, hkey⟩ := checkAndConsume_cases limit now key
    · have hcount : (recent 60 (now : ℚ) log).length < limit := by
        rw [← hnow.kept.length_eq, RateLimitKey.scores, List.length_map]
        exact hfew
      rw [if_pos hres, ← List.append_assoc]
      apply ih _ (hthrottled.snoc hcount) hlater hsorted.2 hfresh.2
      rw [hkey]
      exact hnow.zadd (hfresh.1 hfew)
    · rw [if_neg (by simp [hres]), List.nil_append]
      apply ih _ hthrottled hlater hsorted.2 hfresh.2
      rw [hkey]
      exact hnow

/-- Whoever is refused finds the window full of requests that were let in. -/
theorem Backed.refused {pre post : List (ℚ × RateLimitAnswer)} {t : ℚ} {answer : RateLimitAnswer}
    (h : Backed key log) (hsplit : answers limit key times = pre ++ (t, answer) :: post)
    (hrej : answer.result = .rejected) : limit ≤ (recent 60 t (log ++ allowedTimes pre)).length := by
  induction times generalizing key log pre with
  | nil => simp [answers] at hsplit
  | cons now times ih =>
    have hnow := h.pruned now
    obtain ⟨hfew, hres, hkey⟩ | ⟨hfull, hres, hkey⟩ := checkAndConsume_cases limit now key
    · cases pre with
      | nil =>
        rw [answers, List.nil_append, List.cons.injEq, Prod.mk.injEq] at hsplit
        rw [← hsplit.1.2, hres] at hrej
        exact absurd hrej (by decide)
      | cons x pre =>
        rw [answers, List.cons_append, List.cons.injEq] at hsplit
        rw [← hsplit.1, allowedTimes_cons, if_pos hres, ← List.append_assoc]
        apply ih _ hsplit.2
        rw [hkey]
        exact hnow.zadd _ now
    · -- the refused answer is this one, or a later one by induction
      cases pre with
      | nil =>
        rw [answers, List.nil_append, List.cons.injEq, Prod.mk.injEq] at hsplit
        rw [← hsplit.1.1]
        have hbacked := (h.pruned now).logged.filter fun x => (now : ℚ) - 60 < x
        have hall : recent 60 (now : ℚ) (key.pruned 60 now).scores = (key.pruned 60 now).scores := by
          rw [scores_pruned h.nonneg, recent_recent (le_refl (now : ℚ))]
        have hlen := hbacked.length_le
        change (recent 60 (now : ℚ) (key.pruned 60 now).scores).length ≤ _ at hlen
        rw [hall, RateLimitKey.scores, List.length_map] at hlen
        have hnone : allowedTimes [] = [] := rfl
        rw [hnone, List.append_nil]
        exact hfull.trans hlen
      | cons x pre =>
        rw [answers, List.cons_append, List.cons.injEq] at hsplit
        rw [← hsplit.1, allowedTimes_cons, if_neg (by simp [hres]), List.nil_append]
        apply ih _ hsplit.2
        rw [hkey]
        exact hnow

theorem answers_times (limit : ℕ) (key : RateLimitKey) (times : List ℚ≥0) :
    (answers limit key times).map Prod.fst = times.map (NNRat.cast : ℚ≥0 → ℚ) := by
  induction times generalizing key with
  | nil => rfl
  | cons now times ih => simp [answers, ih]

/-- What comes before an answer is no later. -/
theorem answers_before {pre post : List (ℚ × RateLimitAnswer)} {t : ℚ} {answer : RateLimitAnswer}
    (hsorted : times.Pairwise (· ≤ ·))
    (hsplit : answers limit key times = pre ++ (t, answer) :: post) : ∀ x ∈ allowedTimes pre, x ≤ t := by
  have hmap : ((answers limit key times).map Prod.fst).Pairwise (· ≤ ·) := by
    rw [answers_times, List.pairwise_map]
    exact hsorted.imp NNRat.coe_le_coe.mpr
  rw [hsplit, List.map_append, List.pairwise_append] at hmap
  intro x hx
  obtain ⟨y, hy, rfl⟩ := List.mem_map.mp hx
  apply hmap.2.2 y.1 (List.mem_map_of_mem (List.mem_of_mem_filter hy))
  exact List.mem_cons_self

/-- **The window.**  Requests of one API key come one after the other.  No window of 60 seconds lets in
    more than the limit, if no request is let in while an entry stands under its own text.  Whoever is
    refused finds the limit used up within the 60 seconds before, text or no text. -/
theorem rateLimit_window (limit : ℕ) (times : List ℚ≥0) (hsorted : times.Pairwise (· ≤ ·)) :
    (Run.Along (limited limit) (FreshText limit) .missing times → ∀ a : ℚ,
      (allowedTimes (answers limit .missing times)).countP (fun x => a ≤ x ∧ x < a + 60) ≤ limit ∧
      (allowedTimes (answers limit .missing times)).countP (fun x => a < x ∧ x ≤ a + 60) ≤ limit) ∧
    ∀ pre t answer post, answers limit .missing times = pre ++ (t, answer) :: post →
      answer.result = .rejected → limit ≤ (allowedTimes pre).countP fun x => t - 60 < x ∧ x ≤ t := by
  constructor
  · intro hfresh a
    have hstart : Complete .missing [] (0 : ℚ) :=
      ⟨by simp [RateLimitKey.Nonneg, RateLimitKey.missing], by simp, .refl _,
        by simp [RateLimitKey.missing]⟩
    have h : Throttled 60 limit ([] ++ allowedTimes (answers limit .missing times)) :=
      hstart.throttled .nil (fun t _ => t.coe_nonneg) hsorted hfresh
    exact ⟨h.countP_Ico_le a, h.countP_Ioc_le a⟩
  · intro pre t answer post hsplit hrej
    have hstart : Backed .missing [] := ⟨by simp [RateLimitKey.Nonneg, RateLimitKey.missing], .refl _⟩
    have h := hstart.refused hsplit hrej
    have hbefore := answers_before hsorted hsplit
    rw [List.nil_append, recent, ← List.countP_eq_length_filter] at h
    apply h.trans
    apply List.countP_mono_left
    intro x hx hrecent
    simpa [hbefore x hx] using hrecent

/-- Three requests within two seconds, and one as the first of them goes out of the window. -/
theorem rateLimit_window_fourRequests :
    allowedTimes (answers 2 .missing [1000, 1001, 1002, 1060]) = [1000, 1001, 1060] ∧
    ∀ a : ℚ,
      (allowedTimes (answers 2 .missing [1000, 1001, 1002, 1060])).countP
        (fun x => a ≤ x ∧ x < a + 60) ≤ 2 ∧
      (allowedTimes (answers 2 .missing [1000, 1001, 1002, 1060])).countP
        (fun x => a < x ∧ x ≤ a + 60) ≤ 2 :=
  ⟨by decide +kernel, (rateLimit_window 2 [1000, 1001, 1002, 1060] (by decide +kernel)).1
    ⟨by decide +kernel, by decide +kernel, by decide +kernel, by decide +kernel, trivial⟩⟩

/-- **Requests of one microsecond share an entry**, so that all three of them are let in where two may be. -/
theorem sameMicrosecond_unlimited : ¬∀ limit, 1 ≤ limit → ∀ times : List ℚ≥0,
    times.Pairwise (· ≤ ·) →
    (∀ a : ℚ, (allowedTimes (answers limit .missing times)).countP
      (fun x => a ≤ x ∧ x < a + 60) ≤ limit) ∧
    ∀ pre t answer post, answers limit .missing times = pre ++ (t, answer) :: post →
      answer.result = .rejected →
        limit ≤ (allowedTimes pre).countP fun x => t - 60 < x ∧ x ≤ t := by
  intro h
  have hmore := (h 2 (by decide) [1000, 1000, 1000] (by decide +kernel)).1 1000
  revert hmore
  decide +kernel

/-! ### Waiting -/

/-- No more entries than the limit, and none with a negative score. -/
structure Bounded (limit : ℕ) (key : RateLimitKey) : Prop where
  nonneg : key.Nonneg
  length_le : key.entries.length ≤ limit

/-- The pipeline adds no entry. -/
theorem Bounded.pruned (h : Bounded limit key) (now : ℚ≥0) : Bounded limit (key.pruned 60 now) := by
  refine ⟨h.nonneg.pruned, ?_⟩
  rw [RateLimitKey.pruned_entries]
  apply (List.length_filter_le _ _).trans
  obtain hkey | ⟨hkey, -⟩ := key.found_cases now
  · rw [hkey]
    exact h.length_le
  · rw [hkey]
    exact Nat.zero_le _

theorem Bounded.limited (h : Bounded limit key) (now : ℚ≥0) : Bounded limit (limited limit key now) := by
  have hnow := h.pruned now
  obtain ⟨hfew, -, hkey⟩ | ⟨-, -, hkey⟩ := checkAndConsume_cases limit now key
  · rw [hkey]
    refine ⟨hnow.nonneg.zadd _ now, ?_⟩
    have hlen : ((key.pruned 60 now).zadd (timeText now) now).entries.length
        ≤ (key.pruned 60 now).entries.length + 1 := by
      unfold RateLimitKey.zadd SortedSet.zadd
      rw [List.orderedInsert_length]
      exact Nat.succ_le_succ (List.length_filter_le _ _)
    omega
  · rw [hkey]
    exact hnow

/-- A refusal names the time that the first entry has left. -/
theorem checkAndConsume_rejected (hlimit : 1 ≤ limit)
    (hrej : (checkAndConsume limit 60 now key).1.result = .rejected) :
    ∃ oldest ∈ (key.pruned 60 now).entries, checkAndConsume limit 60 now key
      = (⟨.rejected, (key.pruned 60 now).entries.length,
          max 1 (truncate (oldest.1 + 60 - now) + 1)⟩, key.pruned 60 now) := by
  obtain ⟨-, hres, -⟩ | ⟨hfull, -, -⟩ := checkAndConsume_cases limit now key
  · rw [hres] at hrej
    exact absurd hrej (by decide)
  · unfold checkAndConsume
    simp only [if_neg (not_lt.mpr hfull)]
    cases hentries : (key.pruned 60 now).entries with
    | nil =>
      rw [hentries, List.length_nil] at hfull
      omega
    | cons oldest rest => exact ⟨oldest, List.mem_cons_self, by simp⟩

/-- An entry that is out of the window makes room. -/
theorem pruned_length_lt {x : ℚ × String} (hx : x ∈ key.entries) (hnonneg : 0 ≤ x.1)
    (hold : x.1 + 60 ≤ now) : (key.pruned 60 now).entries.length < key.entries.length := by
  rw [RateLimitKey.pruned_entries]
  obtain hkey | ⟨hkey, -⟩ := key.found_cases now
  · rw [hkey, List.length_filter_lt_length_iff_exists]
    have hcut : x.1 ≤ (now : ℚ) - 60 := le_sub_iff_add_le.mpr hold
    exact ⟨x, hx, by simp [hnonneg, hcut]⟩
  · rw [hkey]
    exact List.length_pos_of_mem hx

/-- **Retry-After is truthful.**  Whatever the history of an API key, whoever is refused and comes back
    no earlier than it is told, with no other request in between, is let in. -/
theorem retryAfter_truthful (limit : ℕ) (hlimit : 1 ≤ limit) (history : List ℚ≥0) (t : ℚ≥0)
    (hrej : (checkAndConsume limit 60 t (Run.after (limited limit) .missing history)).1.result
      = .rejected) :
    let response := checkAndConsume limit 60 t (Run.after (limited limit) .missing history)
    1 ≤ response.1.retryAfter ∧ ∀ t' : ℚ≥0, (t : ℚ) + response.1.retryAfter ≤ t' →
      (checkAndConsume limit 60 t' response.2).1.result = .allowed := by
  have hbounded : Bounded limit (Run.after (limited limit) .missing history) :=
    Run.invariant (fun _ now h => h.limited now)
      ⟨by simp [RateLimitKey.Nonneg, RateLimitKey.missing], Nat.zero_le _⟩ history
  generalize Run.after (limited limit) .missing history = key at hrej hbounded ⊢
  have hnow := hbounded.pruned t
  -- the answer is computed from the oldest entry in the window
  obtain ⟨oldest, hmem, heq⟩ := checkAndConsume_rejected hlimit hrej
  intro response
  have hretry : response.1.retryAfter = max 1 (truncate (oldest.1 + 60 - t) + 1) := by
    simp only [response, heq]
  have hkey : response.2 = key.pruned 60 t := by simp only [response, heq]
  refine ⟨?_, fun t' hwait => ?_⟩
  · rw [hretry]
    exact le_max_left _ _
  · -- by then the first entry is out of the window
    have hlong : oldest.1 + 60 - t < response.1.retryAfter := by
      apply (lt_truncate_add_one _).trans_le
      rw [hretry]
      exact_mod_cast le_max_right _ _
    have hold : oldest.1 + 60 ≤ t' := by linarith
    have hroom := pruned_length_lt hmem (hnow.nonneg oldest hmem) hold
    rw [hkey]
    obtain ⟨-, hres, -⟩ | ⟨hfull, -, -⟩ := checkAndConsume_cases limit t' (key.pruned 60 t)
    · exact hres
    · have hlen := hnow.length_le
      omega

/-- The second of two requests that the limit does not let in is told to wait for 60 seconds. -/
theorem retryAfter_truthful_oneASecond :
    let response := checkAndConsume 1 60 1001 (Run.after (limited 1) .missing [1000])
    response.1.retryAfter = 60 ∧
    (checkAndConsume 1 60 1061 response.2).1.result = .allowed :=
  ⟨by decide +kernel, (retryAfter_truthful 1 (by decide) [1000] 1001 (by decide +kernel)).2 1061
    (by decide +kernel)⟩

end

end SpotExchange.Api
