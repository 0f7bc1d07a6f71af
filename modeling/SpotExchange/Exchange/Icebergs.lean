import SpotExchange.Exchange.Snapshot
import SpotExchange.Exchange.Bulk
import SpotExchange.Exchange.Chains
import SpotExchange.Exchange.PairRules
import SpotExchange.Exchange.Filling

namespace SpotExchange.Exchange

open SpotExchange.Lib
open SpotExchange.Engine (OrderId MatchResult)

/-!
# What is shown of an iceberg

* `Order.Displays` — an iceberg and its display size;
* `Shown` — the invariant: what HASHes and queued placements say of icebergs;
* `Refills` — what the trades of a match write into HASHes;
* `run_shown` — no iceberg shows more than its display size in a run in which no round of the worker
  leaves more of an iceberg that it fills.
-/

/-- An iceberg with a hidden part, and its visible part. -/
def Order.Displays (o : Order) (v : ℚ) : Prop :=
  o.type = .iceberg ∧ o.visibleQuantity = some v ∧ ∃ h, o.hiddenQuantity = some h ∧ 0 < h

/-- **No iceberg shows more than its display size.** -/
def Store.ShowsDisplaySize (s : Store) : Prop :=
  ∀ id o v, s.pg.orders id = some o → o.Displays v → s.redis.shownOf id ≤ v

/-- What the match of a placement fills of a maker. -/
def Store.takes (s : Store) (p : OrderActionPayload) (id : OrderId) : ℚ :=
  match matchPlaced p s with
  | (.ok r, _) => Engine.filledWith r.trades id
  | (.error _, _) => 0

/-- Of an iceberg that the next round of the worker fills, no more is left than its display size. -/
def DisplayGuard (s : Store) : Request → Prop
  | .work => ∀ p rest, s.redis.ordersQueue = p :: rest → p.action = .place →
      ∀ id o v, s.pg.orders id = some o → o.Displays v → 0 < (s.setQueue rest).takes p id →
        o.remainingQuantity - (s.setQueue rest).takes p id ≤ v
  | _ => True

/-- A placement of an iceberg carries its display size. -/
structure Store.Carries (s : Store) (p : OrderActionPayload) : Prop where
  id_lt : p.orderId < s.orderIdSeq
  displays : ∀ o v, s.pg.orders p.orderId = some o → o.Displays v →
    p.isIceberg = true ∧ p.visibleQty = some v

/-- A row of an iceberg: it shows something, and waits for nothing. -/
def Order.SoundIceberg (o : Order) : Prop := ∀ v, o.Displays v → 0 < v ∧ o.status ≠ .pending

/-- **What is said of icebergs.** -/
structure Shown (s : Store) : Prop where
  ids : IdsBelow s
  rows : ∀ id o, s.pg.orders id = some o → o.SoundIceberg
  hashed : ∀ id, s.redis.orderHash id ≠ none → id < s.orderIdSeq
  shown : ∀ id o v h, s.pg.orders id = some o → o.Displays v → s.redis.orderHash id = some h →
    h.shownQuantity ≤ v
  queued : ∀ p ∈ s.redis.ordersQueue, p.action = .place → s.Carries p

/-- A row keeps its display size, and does not become pending. -/
structure Order.KeepsDisplay (o o' : Order) : Prop where
  parts : (o'.type, o'.visibleQuantity, o'.hiddenQuantity) = (o.type, o.visibleQuantity, o.hiddenQuantity)
  status : o'.status = .pending → o.status = .pending

section

variable {s s' : Store} {o o' : Order}

theorem Order.KeepsDisplay.refl (o : Order) : o.KeepsDisplay o := ⟨rfl, id⟩

theorem Order.KeepsDisplay.trans {o'' : Order} (h : o.KeepsDisplay o') (h' : o'.KeepsDisplay o'') :
    o.KeepsDisplay o'' := ⟨h'.parts.trans h.parts, h.status ∘ h'.status⟩

theorem Order.KeepsDisplay.displays (h : o.KeepsDisplay o') {v : ℚ} (hv : o'.Displays v) :
    o.Displays v := by
  obtain ⟨htype, hvisible, hhidden⟩ : _ ∧ _ ∧ _ := by simpa only [Prod.mk.injEq] using h.parts
  unfold Order.Displays at hv ⊢
  rwa [htype, hvisible, hhidden] at hv

theorem Order.SoundIceberg.keeps (h : o.SoundIceberg) (hkeeps : o.KeepsDisplay o') :
    o'.SoundIceberg := by
  intro v hv
  obtain ⟨hpos, hstatus⟩ := h v (hkeeps.displays hv)
  exact ⟨hpos, fun hpending => hstatus (hkeeps.status hpending)⟩

/-- Without a visible part nothing is displayed. -/
theorem not_displays (h : o.visibleQuantity = none) (v : ℚ) : ¬ o.Displays v := by
  rintro ⟨-, hvisible, -⟩
  exact absurd (h.symm.trans hvisible) (Option.some_ne_none v).symm

theorem soundIceberg_of_none (h : o.visibleQuantity = none) : o.SoundIceberg :=
  fun v hv => absurd hv (not_displays h v)

/-- **What is shown**, from the HASHes. -/
theorem Shown.showsDisplaySize (h : Shown s) : s.ShowsDisplaySize := by
  intro id o v ho hv
  unfold Redis.shownOf
  cases hhash : s.redis.orderHash id with
  | none => exact (h.rows id o ho v hv).1.le
  | some hash => exact h.shown id o v hash ho hv hhash

/-! ### Steps -/

/-- Rows are old or new, HASHes and queued placements are old or right. -/
theorem Shown.of_changes (h : Shown s) (hids : IdsBelow s') (hseq : s.orderIdSeq ≤ s'.orderIdSeq)
    (hrows : ∀ id o', s'.pg.orders id = some o' → (∃ o, s.pg.orders id = some o ∧ o.KeepsDisplay o') ∨
      s.orderIdSeq ≤ id ∧ o'.SoundIceberg)
    (hhash : ∀ id h, s'.redis.orderHash id = some h → s.redis.orderHash id = some h ∨
      id < s'.orderIdSeq ∧ ∀ o v, s'.pg.orders id = some o → o.Displays v → h.shownQuantity ≤ v)
    (hqueue : ∀ p ∈ s'.redis.ordersQueue, p ∈ s.redis.ordersQueue ∨ (p.action = .place → s'.Carries p)) :
    Shown s' where
  ids := hids
  rows := by
    intro id o' ho'
    rcases hrows id o' ho' with ⟨o, ho, hkeeps⟩ | ⟨-, hsound⟩
    · exact (h.rows id o ho).keeps hkeeps
    · exact hsound
  hashed := by
    intro id hid
    obtain ⟨hash, hh⟩ := Option.ne_none_iff_exists'.mp hid
    rcases hhash id hash hh with hold | ⟨hlt, -⟩
    · exact (h.hashed id (by rw [hold]; simp)).trans_le hseq
    · exact hlt
  shown := by
    intro id o' v hash ho' hv hh
    rcases hhash id hash hh with hold | ⟨-, hshown⟩
    · -- an order that has had a HASH is old
      have hlt : id < s.orderIdSeq := h.hashed id (by rw [hold]; simp)
      rcases hrows id o' ho' with ⟨o, ho, hkeeps⟩ | ⟨hle, -⟩
      · exact h.shown id o v hash ho (hkeeps.displays hv) hold
      · exact absurd hlt (not_lt.mpr hle)
    · exact hshown o' v ho' hv
  queued := by
    intro p hp hplace
    rcases hqueue p hp with hold | hnew
    · obtain ⟨hlt, hdisplays⟩ := h.queued p hold hplace
      refine ⟨hlt.trans_le hseq, fun o' v ho' hv => ?_⟩
      rcases hrows p.orderId o' ho' with ⟨o, ho, hkeeps⟩ | ⟨hle, -⟩
      · exact hdisplays o v ho (hkeeps.displays hv)
      · exact absurd hlt (not_lt.mpr hle)
    · exact hnew hplace

/-- Only Redis has changed. -/
theorem Shown.setRedis (h : Shown s) {f : Redis → Redis}
    (hhash : ∀ id h, (f s.redis).orderHash id = some h → s.redis.orderHash id = some h ∨
      id < s.orderIdSeq ∧ ∀ o v, s.pg.orders id = some o → o.Displays v → h.shownQuantity ≤ v)
    (hqueue : ∀ p ∈ (f s.redis).ordersQueue, p ∈ s.redis.ordersQueue ∨ (p.action = .place → s.Carries p)) :
    Shown (s.setRedis f) := by
  refine h.of_changes h.ids le_rfl (fun id o ho => .inl ⟨o, ho, .refl o⟩) hhash fun p hp => ?_
  exact (hqueue p hp).imp_right fun hnew hplace => ⟨(hnew hplace).id_lt, (hnew hplace).displays⟩

/-- Only the tables have changed. -/
theorem Shown.of_tables (h : Shown s) (hids : IdsBelow s') (hseq : s.orderIdSeq ≤ s'.orderIdSeq)
    (hredis : s'.redis = s.redis)
    (hrows : ∀ id o', s'.pg.orders id = some o' → (∃ o, s.pg.orders id = some o ∧ o.KeepsDisplay o') ∨
      s.orderIdSeq ≤ id ∧ o'.SoundIceberg) : Shown s' :=
  h.of_changes hids hseq hrows (fun _ _ hh => .inl (hredis ▸ hh)) fun _ hp => .inl (hredis ▸ hp)

theorem Shown.quiet (h : Shown s) (hq : Quiet s s') : Shown s' := by
  obtain ⟨balances, updates, rfl⟩ := hq
  exact h.of_changes h.ids le_rfl (fun id o ho => .inl ⟨o, ho, .refl o⟩) (fun _ _ hh => .inl hh)
    fun _ hp => .inl hp

theorem Shown.putOrder (h : Shown s) {id : OrderId} (ho : s.pg.orders id = some o)
    (hkeeps : o.KeepsDisplay o') : Shown (s.putOrder id o') := by
  refine h.of_tables (fun k hk => ?_) le_rfl rfl fun k x hx => .inl ?_
  · by_cases hkid : k = id
    · subst hkid
      exact h.ids k (by rw [ho]; simp)
    · exact h.ids k (by simpa [hkid] using hk)
  · by_cases hkid : k = id
    · subst hkid
      obtain rfl : o' = x := by simpa using hx
      exact ⟨o, ho, hkeeps⟩
    · exact ⟨x, by simpa [hkid] using hx, .refl x⟩

theorem Shown.insert (h : Shown s) (hsound : o.SoundIceberg) : Shown (s.insert o) := by
  refine h.of_tables (drains_insert o h.ids).ids (Nat.le_succ _) rfl fun id x hx => ?_
  by_cases hid : id = s.orderIdSeq
  · obtain rfl : o = x := by simpa [Store.insert, hid] using hx
    exact .inr ⟨hid.ge, hsound⟩
  · exact .inl ⟨x, by simpa [Store.insert, hid] using hx, .refl x⟩

theorem Shown.addChild (h : Shown s) {parentId : OrderId} {parent : Order} {config : Option SltpConfig}
    {link : OrderId → Order → Order} (hlink : ∀ id (o : Order), o.KeepsDisplay (link id o)) :
    Shown (s.addChild parentId parent config link) := by
  cases config with
  | none => exact h
  | some config =>
    have hinserted : Shown (s.insert (sltpChild parentId parent config)) :=
      h.insert (soundIceberg_of_none rfl)
    show Shown ((s.insert (sltpChild parentId parent config)).mapOrder parentId (link s.orderIdSeq))
    unfold Store.mapOrder
    cases ho : (s.insert (sltpChild parentId parent config)).pg.orders parentId with
    | none => exact hinserted
    | some o => exact hinserted.putOrder ho (hlink _ o)

/-! ### Placement -/

theorem newOrder_soundIceberg {dto : OrderCreateDto} {pair : TradingPair} (h : ValidOrder dto pair)
    (userId : UserId) : (newOrder userId dto).SoundIceberg := by
  rintro v ⟨htype, hvisible, -⟩
  obtain ⟨v', q, hv', -, hpos, -⟩ := validateIceberg_parts h.iceberg htype
  have htype : dto.type = .iceberg := htype
  have hvisible : (if dto.type = .iceberg then dto.visibleQuantity else some dto.quantity) = some v :=
    hvisible
  rw [if_pos htype, hv'] at hvisible
  obtain rfl : v' = v := Option.some.inj hvisible
  refine ⟨hpos, ?_⟩
  show (if dto.type.isStop then OrderStatus.pending else .new) ≠ .pending
  simp [htype, OrderType.isStop]

/-- A HASH of an iceberg that is placed shows its visible part. -/
theorem shown_placedHash {v : ℚ} (hv : o.Displays v) (hpos : 0 < v) (h : OrderHash) :
    (placedHash o h).shownQuantity = v := by
  have hsome : orNone o.visibleQuantity = some v := by
    rw [hv.2.1, orNone, Option.filter_some]
    simp [hpos.ne']
  show ((orNone o.visibleQuantity).or (some o.quantity)).getD 0 = v
  rw [hsome]
  rfl

/-- The HASH that an order gets when it is handed over. -/
theorem handOver_own (id : OrderId) (o : Order) (r : Redis) : o.type.isStop = true ∨
    ∃ h, (handOver id o r).orderHash id = some (placedHash o h) := by
  unfold handOver
  split_ifs with hstop
  · exact .inl hstop
  · exact .inr ⟨(r.orderHash id).getD {}, Function.update_self ..⟩

/-- A placement of the iceberg that it was made for. -/
theorem carries_placePayload {id : OrderId} (hlt : id < s.orderIdSeq) (ho : s.pg.orders id = some o')
    (hkeeps : o.KeepsDisplay o') (hsound : o.SoundIceberg) :
    s.Carries (buildOrderActionPayload (placePayload id o)) := by
  refine ⟨hlt, fun x v hx hv => ?_⟩
  obtain rfl : o' = x := Option.some.inj (ho.symm.trans hx)
  have hv := hkeeps.displays hv
  have hpos := (hsound v hv).1
  have hice : (placePayload id o).isIceberg = true := decide_eq_true hv.1
  refine ⟨hice, ?_⟩
  show (if (placePayload id o).isIceberg then orNone (orNone o.visibleQuantity) else none) = some v
  rw [if_pos hice, hv.2.1]
  simp [orNone, hpos.ne']

theorem Shown.placed (h : Shown s) {dto : OrderCreateDto} {pair : TradingPair} (userId : UserId)
    (hvalid : ValidOrder dto pair) : Shown (s.placed userId dto) := by
  have hsl : ∀ childId (o : Order), o.KeepsDisplay { o with slOrderId := some childId } :=
    fun _ _ => ⟨rfl, id⟩
  have htp : ∀ childId (o : Order), o.KeepsDisplay { o with tpOrderId := some childId } :=
    fun _ _ => ⟨rfl, id⟩
  have hsound := newOrder_soundIceberg hvalid userId
  have hinserted : Shown (s.inserted userId dto) := ((h.insert hsound).addChild hsl).addChild htp
  obtain ⟨o, ho, hplaced⟩ := (insertedOne_placed s userId dto).row
  have ho : (s.inserted userId dto).pg.orders s.orderIdSeq = some o := ho
  have hlt : s.orderIdSeq < (s.inserted userId dto).orderIdSeq := (inserted_pairs s userId dto).2
  have hkeeps : (newOrder userId dto).KeepsDisplay o := by
    rw [← hplaced]
    exact ⟨rfl, id⟩
  refine hinserted.setRedis (fun id hash hh => ?_) fun p hp => ?_
  -- only the new order's HASH is written, and a stop order gets none
  · by_cases hid : id = s.orderIdSeq
    · subst hid
      refine .inr ⟨hlt, fun o' v ho' hv => ?_⟩
      obtain rfl : o = o' := Option.some.inj (ho.symm.trans ho')
      have hv := hkeeps.displays hv
      rcases handOver_own s.orderIdSeq (newOrder userId dto) (s.inserted userId dto).redis with
        hstop | ⟨h₀, hown⟩
      · rw [hv.1] at hstop
        exact absurd hstop (by decide)
      · obtain rfl : placedHash (newOrder userId dto) h₀ = hash := Option.some.inj (hown.symm.trans hh)
        exact (shown_placedHash hv (hsound v hv).1 h₀).le
    · rw [handOver_hash hid] at hh
      exact .inl hh
  -- a stop order is not queued, any other carries its own terms
  · rw [handOver_queue, List.mem_append] at hp
    refine hp.imp_right fun hp _ => ?_
    split_ifs at hp
    · exact absurd hp List.not_mem_nil
    · rw [List.mem_singleton.mp hp]
      exact carries_placePayload hlt ho hkeeps hsound

/-! ### Cancellation and replacement -/

theorem keepsDisplay_canceled (o : Order) : o.KeepsDisplay o.canceled :=
  ⟨rfl, fun hpending => nomatch hpending⟩

theorem keepsDisplay_orphaned (parentId : OrderId) (o : Order) : o.KeepsDisplay (o.orphaned parentId) := by
  unfold Order.orphaned
  split_ifs
  · exact keepsDisplay_canceled o
  · exact .refl o

theorem cleanUpCanceled_hash {id k : OrderId} {r : Redis} {h : OrderHash}
    (hh : (cleanUpCanceled id o r).orderHash k = some h) : r.orderHash k = some h := by
  unfold cleanUpCanceled at hh
  split_ifs at hh
  · exact hh
  · exact hh
  · have hh : Function.update r.orderHash id none k = some h := hh
    by_cases hk : k = id
    · rw [hk, Function.update_self] at hh
      exact absurd hh (Option.some_ne_none h).symm
    · rwa [Function.update_of_ne hk] at hh

theorem Shown.cancel (h : Shown s) {id : OrderId} (ho : s.pg.orders id = some o) :
    Shown (s.cancel id o) := by
  refine h.of_changes (drains_cancel ho h.ids).ids le_rfl (fun k o' ho' => .inl ?_)
    (fun k hash hh => .inl (cleanUpCanceled_hash hh)) fun p hp => ?_
  · obtain ⟨x, hput, rfl⟩ := Option.map_eq_some_iff.mp ho'
    by_cases hk : k = id
    · subst hk
      obtain rfl : o.canceled = x := by simpa using hput
      exact ⟨o, ho, (keepsDisplay_canceled o).trans (keepsDisplay_orphaned k _)⟩
    · exact ⟨x, by simpa [hk] using hput, keepsDisplay_orphaned id x⟩
  · rcases List.mem_append.mp hp with hp | hp
    · rw [cleanUpCanceled_queue] at hp
      exact .inl hp
    · rw [List.mem_singleton.mp hp]
      exact .inr fun hplace => nomatch hplace

/-- A replacement has the parts of the order that it replaces. -/
theorem replacement_displays {id : OrderId} {newPrice newQuantity v : ℚ}
    (h : (replacement id o newPrice newQuantity).Displays v) : o.Displays v := by
  obtain ⟨htype, hvisible, hidden, hhidden, hpos⟩ := h
  have htype : o.type = .iceberg := htype
  have hvisible : (if o.type = .iceberg then o.visibleQuantity else some newQuantity) = some v := hvisible
  have hhidden : (if o.type = .iceberg then o.hiddenQuantity else none) = some hidden := hhidden
  rw [if_pos htype] at hvisible hhidden
  exact ⟨htype, hvisible, hidden, hhidden, hpos⟩

theorem Shown.replace (h : Shown s) {id : OrderId} (newPrice newQuantity : ℚ)
    (ho : s.pg.orders id = some o) : Shown (s.replace id o newPrice newQuantity) := by
  have hlt : id < s.orderIdSeq := h.ids id (by rw [ho]; simp)
  have hsound : (replacement id o newPrice newQuantity).SoundIceberg := fun v hv =>
    ⟨(h.rows id o ho v (replacement_displays hv)).1, fun hpending => nomatch hpending⟩
  refine h.of_changes (drains_replace ho h.ids).ids (Nat.le_succ _) (fun k o' ho' => ?_)
    (fun k hash hh => ?_) fun p hp => ?_
  -- the old row, the replacement, and the rows of other orders
  · rcases replace_cases hlt ho' with ⟨rfl, rfl⟩ | ⟨rfl, rfl⟩ | ⟨-, ho'⟩
    · exact .inl ⟨o, ho, rfl, fun hpending => nomatch hpending⟩
    · exact .inr ⟨le_rfl, hsound⟩
    · exact .inl ⟨o', ho', .refl o'⟩
  · by_cases hk : k = s.orderIdSeq
    · subst hk
      refine .inr ⟨Nat.lt_succ_self _, fun o' v ho' hv => ?_⟩
      obtain rfl : replacement id o newPrice newQuantity = o' :=
        Option.some.inj ((replace_new hlt).symm.trans ho')
      obtain ⟨h₀, hown⟩ : ∃ h₀, (s.replace id o newPrice newQuantity).redis.orderHash s.orderIdSeq =
        some (placedHash (replacement id o newPrice newQuantity) h₀) := ⟨_, Function.update_self ..⟩
      obtain rfl : placedHash (replacement id o newPrice newQuantity) h₀ = hash :=
        Option.some.inj (hown.symm.trans hh)
      exact (shown_placedHash hv (hsound v hv).1 h₀).le
    · have hh : Function.update (Function.update s.redis.orderHash id none) s.orderIdSeq _ k = some hash :=
        hh
      rw [Function.update_of_ne hk] at hh
      by_cases hkid : k = id
      · rw [hkid, Function.update_self] at hh
        exact absurd hh (Option.some_ne_none hash).symm
      · rw [Function.update_of_ne hkid] at hh
        exact .inl hh
  · rcases List.mem_append.mp hp with hp | hp
    · exact .inl hp
    · rw [List.mem_singleton.mp hp]
      exact .inr fun hplace => nomatch hplace

theorem shown_calls (req : Request) : CallSteps (Prog.Preserves Shown) req where
  quiet := fun hq h => h.quiet hq
  placed := fun _ userId _ _ _ _ hvalid h => h.placed userId hvalid
  canceled := fun _ _ _ _ _ _ ho _ _ h => h.cancel ho
  replaced := fun _ _ _ _ p q _ _ _ ho _ _ _ _ _ _ _ h => h.replace p q ho

/-! ### The stop monitor -/

/-- A triggered stop is filled, and the order that it becomes is no iceberg. -/
theorem Shown.trigger (h : Shown s) {id : OrderId} (lock : Asset × ℚ) (isTrailing : Bool)
    (ho : s.pg.orders id = some o) : Shown (s.trigger id o lock isTrailing) := by
  have hmoved : Shown (s.moveBalance (o.userId, lock.1) (lockedRow (s.rowOrZero (o.userId, lock.1)) lock.2)
      (lockUpdate (o.userId, lock.1) (-lock.2) .stopTriggered (some id))) :=
    h.quiet (quiet_moveBalance s _ _ _)
  have hfilled : o.KeepsDisplay { o with status := .filled, version := o.version + 1 } :=
    ⟨rfl, fun hpending => nomatch hpending⟩
  have hconverted : Shown (s.converted id o lock) :=
    (hmoved.putOrder ho hfilled).insert (soundIceberg_of_none rfl)
  have hrow := converted_row s id o lock
  have hlt : s.orderIdSeq < (s.converted id o lock).orderIdSeq := Nat.lt_succ_self _
  -- the child of a stop is no iceberg
  have hplain : ∀ o' v, (s.converted id o lock).pg.orders s.orderIdSeq = some o' → ¬ o'.Displays v := by
    intro o' v ho'
    obtain rfl : triggeredChild id o = o' := Option.some.inj (hrow.symm.trans ho')
    exact not_displays rfl v
  refine hconverted.setRedis (fun k hash hh => ?_) fun p hp => ?_
  · by_cases hk : k = s.orderIdSeq
    · subst hk
      exact .inr ⟨hlt, fun o' v ho' hv => absurd hv (hplain o' v ho')⟩
    · rw [replaceStop_hash hk] at hh
      exact .inl hh
  · rw [replaceStop_queue, List.mem_append] at hp
    refine hp.imp_right fun hp _ => ?_
    rw [List.mem_singleton.mp hp]
    exact ⟨hlt, fun o' v ho' hv => absurd hv (hplain o' v ho')⟩

theorem shown_monitor : MonitorSteps (Prog.Preserves Shown) where
  quiet := fun hq h => h.quiet hq
  triggered := fun _ _ _ lock isTrailing ho _ h => h.trigger lock isTrailing ho

end

/-! ### The trades of a match -/

/-- **What fills of makers leave**: no row has more left, and each HASH that is written shows no more than
    what a fill has left of the order. -/
structure Refills (ds : List FillDelta) (s s' : Store) : Prop where
  seq : s'.orderIdSeq = s.orderIdSeq
  rows : ∀ id o', s'.pg.orders id = some o' → ∃ o, s.pg.orders id = some o ∧ o.KeepsDisplay o' ∧
    o'.remainingQuantity ≤ o.remainingQuantity
  hash : ∀ id h, s'.redis.orderHash id = some h → s.redis.orderHash id = some h ∨
    ∃ o, s.pg.orders id = some o ∧ ∃ d ∈ ds, d.makerId = id ∧ h.shownQuantity ≤ o.remainingQuantity - d.qty
  queue : ∀ p ∈ s'.redis.ordersQueue, p ∈ s.redis.ordersQueue ∨
    ∃ o, s.pg.orders p.orderId = some o ∧ o.status = .pending

section

variable {ds : List FillDelta} {s s' : Store} {o o' : Order}

instance : IsPreorder Store (Refills ds) where
  refl _ := ⟨rfl, fun _ o ho => ⟨o, ho, .refl o, le_rfl⟩, fun _ _ hh => .inl hh, fun _ hp => .inl hp⟩
  trans s s' s'' h h' := by
    refine ⟨h'.seq.trans h.seq, fun id o'' ho'' => ?_, fun id hash hh => ?_, fun p hp => ?_⟩
    · obtain ⟨o', ho', hkeeps', hle'⟩ := h'.rows id o'' ho''
      obtain ⟨o, ho, hkeeps, hle⟩ := h.rows id o' ho'
      exact ⟨o, ho, hkeeps.trans hkeeps', hle'.trans hle⟩
    · rcases h'.hash id hash hh with hh | ⟨o', ho', d, hd, hid, hshown⟩
      · exact h.hash id hash hh
      · obtain ⟨o, ho, -, hle⟩ := h.rows id o' ho'
        exact .inr ⟨o, ho, d, hd, hid, hshown.trans (sub_le_sub_right hle _)⟩
    · rcases h'.queue p hp with hp | ⟨o', ho', hpending⟩
      · exact h.queue p hp
      · obtain ⟨o, ho, hkeeps, -⟩ := h.rows p.orderId o' ho'
        exact .inr ⟨o, ho, hkeeps.status hpending⟩

/-- Orders, HASHes and the queue stay. -/
theorem refills_of_eq (hseq : s'.orderIdSeq = s.orderIdSeq) (horders : s'.pg.orders = s.pg.orders)
    (hhash : s'.redis.orderHash = s.redis.orderHash)
    (hqueue : s'.redis.ordersQueue = s.redis.ordersQueue) : Refills ds s s' :=
  ⟨hseq, fun _ o ho => ⟨o, horders ▸ ho, .refl o, le_rfl⟩, fun _ _ hh => .inl (hhash ▸ hh),
    fun _ hp => .inl (hqueue ▸ hp)⟩

theorem refills_putOrder {id : OrderId} (ho : s.pg.orders id = some o) (hkeeps : o.KeepsDisplay o')
    (hle : o'.remainingQuantity ≤ o.remainingQuantity) : Refills ds s (s.putOrder id o') := by
  refine ⟨rfl, fun k x hx => ?_, fun _ _ hh => .inl hh, fun _ hp => .inl hp⟩
  by_cases hk : k = id
  · subst hk
    obtain rfl : o' = x := by simpa using hx
    exact ⟨o, ho, hkeeps, hle⟩
  · exact ⟨x, by simpa [hk] using hx, .refl x, le_rfl⟩

theorem keepsDisplay_filledAsMaker (o : Order) (qty quoteQty : ℚ) :
    o.KeepsDisplay (o.filledAsMaker qty quoteQty) := by
  refine ⟨rfl, fun hpending => ?_⟩
  have hpending : (if o.filledQuantity + qty ≥ o.quantity then OrderStatus.filled else .partiallyFilled) =
      .pending := hpending
  split_ifs at hpending

theorem keepsDisplay_filledAsTaker (o : Order) (qty quoteQty : ℚ) :
    o.KeepsDisplay (o.filledAsTaker qty quoteQty) := by
  refine ⟨rfl, fun hpending => ?_⟩
  have hpending : (if o.filledQuantity + qty ≥ o.quantity then OrderStatus.filled
    else if 0 < o.filledQuantity + qty then .partiallyFilled else o.status) = .pending := hpending
  split_ifs at hpending
  exact hpending

/-- The HASH of a maker shows what is left of it, or is gone. -/
theorem updateRedisMaker_shown {maker : Order} {id : OrderId} {r : Redis} {h : OrderHash}
    (hh : (updateRedisMaker id maker r).orderHash id = some h) :
    h.shownQuantity = maker.remainingQuantity := by
  unfold updateRedisMaker at hh
  split_ifs at hh
  · exact absurd hh (by simp [removeOpenOrder, deleteOrderHash])
  · simp only [hset, Function.update_self, Option.some.injEq] at hh
    subst hh
    simp [OrderHash.shownQuantity]

/-- **Settling a maker** writes what is left of it into its HASH. -/
theorem refills_settleMaker (args : BatchArgs) (first : ℕ) {d : FillDelta} (hd : d ∈ ds) (hqty : 0 < d.qty) :
    Prog.Moves (Refills ds) (settleMaker args first d) := by
  intro s
  cases horder : s.pg.orders d.makerId with
  | none =>
    rw [settleMaker_none horder]
    exact refl_of (Refills ds) s
  | some order =>
    have hbalance : ∀ s key row (update : BalanceUpdate), Refills ds s (s.moveBalance key row update) :=
      fun _ _ _ _ => refills_of_eq rfl rfl rfl rfl
    have hleft : (order.filledAsMaker d.qty d.quoteQty).remainingQuantity =
        order.remainingQuantity - d.qty := by
      show order.quantity - (order.filledQuantity + d.qty) = order.quantity - order.filledQuantity - d.qty
      ring
    have hfilled : Refills ds s (s.fillMaker first d order) := by
      have hput : Refills ds s (s.putOrder d.makerId (order.filledAsMaker d.qty d.quoteQty)) :=
        refills_putOrder horder (keepsDisplay_filledAsMaker ..) (by linarith)
      have hnext : Refills ds (s.putOrder d.makerId (order.filledAsMaker d.qty d.quoteQty))
          (s.fillMaker first d order) := refills_of_eq rfl rfl rfl rfl
      exact trans_of (Refills ds) hput hnext
    have hsettles := settleTradeBalances_moves hbalance args false order.userId d.makerId d.qty d.quoteQty
    rw [settleMaker_apply horder]
    -- an error leaves the maker's HASH as it was
    rcases hb : settleTradeBalances args false order.userId d.makerId d.qty d.quoteQty
      (s.fillMaker first d order) with ⟨err | u, s₁⟩
    · rw [Prog.bind_of_error hb]
      exact trans_of (Refills ds) hfilled (hsettles.of_error hb)
    · rw [Prog.bind_of_ok hb]
      have hsettled : Refills ds s s₁ := trans_of (Refills ds) hfilled (hsettles.of_ok hb)
      refine ⟨hsettled.seq, hsettled.rows, fun id hash hh => ?_, fun p hp => hsettled.queue p ?_⟩
      · have hh : (updateRedisMaker d.makerId (order.filledAsMaker d.qty d.quoteQty) s₁.redis).orderHash
          id = some hash := hh
        by_cases hid : id = d.makerId
        · subst hid
          refine .inr ⟨order, horder, d, hd, rfl, ?_⟩
          rw [updateRedisMaker_shown hh, hleft]
        · rcases updateRedisMaker_hash hh with ⟨-, hh⟩ | ⟨heq, -⟩
          · exact hsettled.hash id hash hh
          · exact absurd heq hid
      · rw [← updateRedisMaker_queue d.makerId (order.filledAsMaker d.qty d.quoteQty)]
        exact hp

/-- **The trades of a match.** -/
theorem refills_batch (args : BatchArgs) {trades : List DomainTrade} (hpos : ∀ t ∈ trades, 0 < t.quantity) :
    Prog.Moves (Refills (makerFillDeltas trades)) (persistTradeBatch args trades) := by
  refine persistTradeBatch_moves_of (fun t ht => ?_) (fun d hd first => ?_) ?_
  · exact insertTrade_moves fun s => refills_of_eq rfl rfl rfl rfl
  · exact refills_settleMaker args first hd (makerFillDeltas_all (P := fun d => 0 < d.qty)
      (fun _ _ _ _ _ h h' => add_pos h h') hpos d hd)
  · refine settleTaker_moves (fun s order horder => ?_) (fun _ _ _ _ => refills_of_eq rfl rfl rfl rfl) ?_
    · have hqty : 0 ≤ takerTotalQty trades := List.sum_nonneg (by simpa using fun t ht => (hpos t ht).le)
      refine refills_putOrder horder (keepsDisplay_filledAsTaker ..) ?_
      show order.quantity - (order.filledQuantity + takerTotalQty trades) ≤
        order.quantity - order.filledQuantity
      linarith
    · intro s id order horder hpending
      have hactivated : order.KeepsDisplay { order with status := .new, version := order.version + 1 } :=
        ⟨rfl, fun hnew => nomatch hnew⟩
      have hput : Refills (makerFillDeltas trades) s
          (s.putOrder id { order with status := .new, version := order.version + 1 }) :=
        refills_putOrder horder hactivated le_rfl
      refine ⟨rfl, hput.rows, fun _ _ hh => .inl hh, fun p hp => ?_⟩
      rcases List.mem_append.mp hp with hp | hp
      · exact .inl hp
      · rw [List.mem_singleton.mp hp]
        exact .inr ⟨order, horder, hpending⟩

/-- What a match fills of a maker. -/
theorem takes_makerFillDelta {p : OrderActionPayload} {r : MatchResult} {d : FillDelta}
    (hd : d ∈ makerFillDeltas (s.domainTrades p r)) : d.qty = Engine.filledWith r.trades d.makerId := by
  rw [makerFillDelta_qty hd]
  unfold Store.domainTrades Engine.filledWith
  rw [List.map_map]
  induction r.trades with
  | nil => rfl
  | cons t trades ih =>
    rw [List.map_cons, List.sum_cons, ih, List.filter_cons]
    by_cases ht : t.makerOrderId = d.makerId <;> simp [domainTrade, ht]

/-- **Redis after a batch**, over tables that keep all display sizes. -/
theorem Shown.of_refills (h : Shown s) {s₁ : Store} (hrefills : Refills ds s s₁)
    (hleft : ∀ o v, ∀ d ∈ ds, s.pg.orders d.makerId = some o → o.Displays v →
      o.remainingQuantity - d.qty ≤ v)
    (hredis : s'.redis = s₁.redis) (hseq : s'.orderIdSeq = s.orderIdSeq)
    (hrows : ∀ id o', s'.pg.orders id = some o' → ∃ o, s.pg.orders id = some o ∧ o.KeepsDisplay o') :
    Shown s' := by
  have hold : ∀ id o', s'.pg.orders id = some o' → id < s'.orderIdSeq := by
    intro id o' ho'
    obtain ⟨o, ho, -⟩ := hrows id o' ho'
    rw [hseq]
    exact h.ids id (by rw [ho]; simp)
  refine h.of_changes (fun id hid => ?_) hseq.ge (fun id o' ho' => .inl (hrows id o' ho'))
    (fun id hash hh => ?_) fun p hp => ?_
  · obtain ⟨o', ho'⟩ := Option.ne_none_iff_exists'.mp hid
    exact hold id o' ho'
  · rw [hredis] at hh
    refine (hrefills.hash id hash hh).imp_right ?_
    -- the HASH shows what the batch left of the maker, at most the visible quantity
    rintro ⟨o, ho, d, hd, rfl, hshown⟩
    refine ⟨by rw [hseq]; exact h.ids _ (by rw [ho]; simp), fun o' v ho' hv => ?_⟩
    obtain ⟨o₀, ho₀, hkeeps⟩ := hrows d.makerId o' ho'
    obtain rfl : o = o₀ := Option.some.inj (ho.symm.trans ho₀)
    exact hshown.trans (hleft o v d hd ho (hkeeps.displays hv))
  · rw [hredis] at hp
    refine (hrefills.queue p hp).imp_right ?_
    -- the payload of an activated child, and an iceberg is never pending
    rintro ⟨o, ho, hpending⟩ -
    refine ⟨by rw [hseq]; exact h.ids _ (by rw [ho]; simp), fun o' v ho' hv => ?_⟩
    obtain ⟨o₀, ho₀, hkeeps⟩ := hrows p.orderId o' ho'
    obtain rfl : o = o₀ := Option.some.inj (ho.symm.trans ho₀)
    exact absurd hpending (h.rows _ o ho v (hkeeps.displays hv)).2

/-! ### A round of the worker -/

variable {p : OrderActionPayload}

/-- A HASH of an iceberg that rests shows its visible part. -/
theorem Shown.prepare (h : Shown s) (hcarries : s.Carries p) (remaining : ℚ) :
    Shown (s.prepareResting p remaining) := by
  refine h.setRedis (f := fun r => ((s.prepareResting p remaining).redis)) (fun id hash hh => ?_)
    fun q hq => .inl hq
  by_cases hid : id = p.orderId
  · subst hid
    refine .inr ⟨hcarries.id_lt, fun o v ho hv => ?_⟩
    obtain ⟨hice, hvisible⟩ := hcarries.displays o v ho hv
    obtain ⟨h₀, hown⟩ : ∃ h₀, (s.prepareResting p remaining).redis.orderHash p.orderId =
      some (restingHash p remaining h₀) := ⟨_, Function.update_self ..⟩
    obtain rfl : restingHash p remaining h₀ = hash := Option.some.inj (hown.symm.trans hh)
    show (((if p.isIceberg then p.visibleQty else some remaining)).or _).getD 0 ≤ v
    rw [if_pos hice, hvisible]
    exact le_rfl
  · have hh : Function.update s.redis.orderHash p.orderId _ id = some hash := hh
    rw [Function.update_of_ne hid] at hh
    exact .inl hh

/-- What follows the match. -/
theorem Shown.finish (h : Shown s) (hcarries : s.Carries p) {remaining : ℚ}
    (hstep : FinishStep p remaining s s') : Shown s' := by
  cases hstep with
  | left _ => exact h
  | unscored _ _ _ _ => exact h.prepare hcarries remaining
  | rested _ _ score _ =>
    have hprepared := h.prepare hcarries remaining
    exact ⟨hprepared.ids, hprepared.rows, hprepared.hashed, hprepared.shown, fun q hq hplace =>
      ⟨(hprepared.queued q hq hplace).id_lt, (hprepared.queued q hq hplace).displays⟩⟩
  | refunded _ _ key row update => exact h.quiet (quiet_moveBalance s key row update)

theorem Store.Carries.of_refills (h : s.Carries p) (hrefills : Refills ds s s') : s'.Carries p := by
  refine ⟨hrefills.seq ▸ h.id_lt, fun o' v ho' hv => ?_⟩
  obtain ⟨o, ho, hkeeps, -⟩ := hrefills.rows p.orderId o' ho'
  exact h.displays o v ho (hkeeps.displays hv)

/-- **A placement** whose match leaves no more than the display size of the icebergs that it fills. -/
theorem shown_handlePlace (hready : EngineReady s.engine) (h : Shown s) (hcarries : s.Carries p)
    (hguard : ∀ id o v, s.pg.orders id = some o → o.Displays v → 0 < s.takes p id →
      o.remainingQuantity - s.takes p id ≤ v) : Shown (handlePlace p s).2 := by
  obtain ⟨e, -, hstate, hmatched⟩ := matchPlaced_spec hready p
  have hengine : Shown (s.setEngine e) := h.of_tables h.ids le_rfl rfl fun id o ho => .inl ⟨o, ho, .refl o⟩
  rcases hmatch : matchPlaced p s with ⟨err | r, s₁⟩ <;> rw [hmatch] at hstate hmatched <;>
    obtain rfl : s₁ = s.setEngine e := hstate
  · rw [handlePlace_unmatched hmatch]
    exact hengine
  obtain ⟨hq, hmakers, hfacts⟩ := hmatched r rfl
  have hmatched : Matched p s r := ⟨hq, hmakers, hfacts⟩
  have hpos : ∀ t ∈ s.domainTrades p r, 0 < t.quantity := hmatched.trade_pos
  have hcarries : (s.setEngine e).Carries p := ⟨hcarries.id_lt, hcarries.displays⟩
  have hleft : ∀ o v, ∀ d ∈ makerFillDeltas (s.domainTrades p r), s.pg.orders d.makerId = some o →
      o.Displays v → o.remainingQuantity - d.qty ≤ v := by
    intro o v d hd ho hv
    -- the delta of a maker is what the placement takes from it
    have htakes : s.takes p d.makerId = d.qty := by
      unfold Store.takes
      rw [hmatch]
      exact (takes_makerFillDelta hd).symm
    have hqty : 0 < d.qty := makerFillDeltas_all (P := fun d => 0 < d.qty)
      (fun _ _ _ _ _ h h' => add_pos h h') hpos d hd
    rw [← htakes] at hqty ⊢
    exact hguard d.makerId o v ho hv hqty
  rcases handlePlace_matched hmatch with hx | ⟨-, ⟨-, hx⟩ | ⟨-, pair, -, ⟨rows, s₂, hbatch, hx⟩ |
    ⟨err, s₂, hbatch, hx⟩⟩⟩ <;> rw [hx]
  · exact hengine
  · exact hengine.finish hcarries (finishPlaced_step p r.remainingQty _)
  · have hrefills := (refills_batch (batchArgs p pair) hpos).of_ok hbatch
    have hsettled : Shown s₂ := hengine.of_refills hrefills hleft rfl hrefills.seq fun id o' ho' => by
      obtain ⟨o, ho, hkeeps, -⟩ := hrefills.rows id o' ho'
      exact ⟨o, ho, hkeeps⟩
    exact hsettled.finish (hcarries.of_refills hrefills) (finishPlaced_step p r.remainingQty s₂)
  -- the tables are rolled back and the HASHes are not
  · have hrefills := (refills_batch (batchArgs p pair) hpos).of_error hbatch
    exact hengine.of_refills hrefills hleft rfl hrefills.seq fun id o ho => ⟨o, ho, .refl o⟩

/-- **One request.** -/
theorem shown_serve (hready : EngineReady s.engine) (h : Shown s) {req : Request}
    (hguard : DisplayGuard s req) : Shown (s.serve req) := by
  refine serve_moves (shown_calls req) shown_monitor (fun _ _ _ h => h.setRedis (fun _ _ hh => .inl hh)
    fun _ hp => .inl hp) (fun hwork h => ?_) h.ids h
  subst hwork
  show Shown (work s).2
  cases hqueue : s.redis.ordersQueue with
  | nil =>
    rw [work_nil hqueue]
    exact h
  | cons p rest =>
    have hpopped : Shown (s.setQueue rest) := h.setRedis (fun _ _ hh => .inl hh) fun q hq => by
      refine .inl ?_
      rw [hqueue]
      exact List.mem_cons_of_mem p hq
    rw [work_cons hqueue]
    split_ifs with hplace
    · obtain ⟨hlt, hdisplays⟩ := h.queued p (by rw [hqueue]; exact List.mem_cons_self) hplace
      have hready : EngineReady (s.setQueue rest).engine := hready
      exact shown_handlePlace hready hpopped ⟨hlt, hdisplays⟩ (hguard p rest hqueue hplace)
    · exact hpopped

end

theorem shown_start (users : Finset UserId) (pairs : Symbol → Option TradingPair)
    (balances : Ledger.BalanceKey → Option Ledger.Row) : Shown (Store.start users pairs balances) where
  ids := (consistent_start users pairs balances).ids
  rows := fun _ _ ho => nomatch ho
  hashed := fun _ hid => absurd rfl hid
  shown := fun _ _ _ _ ho => nomatch ho
  queued := fun _ hp => absurd hp List.not_mem_nil

/-- **No iceberg shows more than its display size** in a run in which no round of the worker leaves more
    than that of an iceberg that it fills. -/
theorem run_shown (users : Finset UserId) (pairs : Symbol → Option TradingPair)
    (balances : Ledger.BalanceKey → Option Ledger.Row) {reqs : List Request}
    (h : Run.Along Store.serve DisplayGuard (Store.start users pairs balances) reqs) :
    Run.Along Store.serve (fun s req => (s.serve req).ShowsDisplaySize) (Store.start users pairs balances)
      reqs := by
  refine h.mono (I := fun s => Consistent s ∧ Shown s) (fun s req hI hC => ?_)
    ⟨consistent_start users pairs balances, shown_start users pairs balances⟩
  have hshown := shown_serve hI.1.engine hI.2 hC
  exact ⟨⟨consistent_serve hI.1 req, hshown⟩, hshown.showsDisplaySize⟩

/-! ### A sale from an iceberg -/

/-- Deciding that the next round of the worker is guarded. -/
def guardsDisplay (s : Store) : Bool :=
  match s.redis.ordersQueue with
  | [] => true
  | p :: rest =>
      match matchPlaced p (s.setQueue rest) with
      | (.error _, _) => true
      | (.ok r, _) => r.trades.all fun t => (s.pg.orders t.makerOrderId).all fun o =>
          o.visibleQuantity.all fun v =>
            decide (o.remainingQuantity - Engine.filledWith r.trades t.makerOrderId ≤ v)

theorem displayGuard_work {s : Store} (h : guardsDisplay s = true) : DisplayGuard s .work := by
  intro p rest hqueue _ id o v ho hv htakes
  unfold guardsDisplay at h
  unfold Store.takes at htakes ⊢
  simp only [hqueue] at h
  rcases hmatch : matchPlaced p (s.setQueue rest) with ⟨err | r, s₁⟩
  · rw [hmatch] at htakes
    exact absurd htakes (lt_irrefl 0)
  · simp only [hmatch] at h htakes ⊢
    obtain ⟨t, ht, rfl⟩ := Engine.exists_of_filledWith_ne_zero htakes.ne'
    have hall := List.all_eq_true.mp h t ht
    rw [ho, Option.all_some, hv.2.1, Option.all_some] at hall
    exact of_decide_eq_true hall

/-- Eight of ten units are shown, and five of them are sold. -/
def mostlyShownRun : List Request :=
  [.place 1 { limitDto .sell 10 100 with
      type := .iceberg, visibleQuantity := some 8, hiddenQuantity := some 2 }, .work,
    .place 2 (limitDto .buy 5 100), .work]

theorem run_shown_mostlyShown :
    Run.Along Store.serve (fun s req => (s.serve req).ShowsDisplaySize) twoUsers mostlyShownRun :=
  run_shown _ _ _ ⟨trivial, displayGuard_work (by decide +kernel), trivial,
    displayGuard_work (by decide +kernel), trivial⟩

/-- Three of ten units are shown, and one of them is sold. -/
def soldOneRun : List Request :=
  [.place 1 shownThreeDto, .work, .place 2 (limitDto .buy 1 100), .work]

/-- **All that is left is shown**: nine units, of an iceberg that shows three. -/
theorem nineShown :
    ¬ Run.Along Store.serve (fun s req => (s.serve req).ShowsDisplaySize) twoUsers soldOneRun := by
  rintro ⟨-, -, -, h, -⟩
  have h : (twoUsers.serveAll soldOneRun).ShowsDisplaySize := h
  have hrow : ((twoUsers.serveAll soldOneRun).pg.orders 1).map (fun o =>
      (o.type, o.visibleQuantity, o.hiddenQuantity)) = some (.iceberg, some 3, some 7) := by
    decide +kernel
  obtain ⟨o, ho, hparts⟩ := Option.map_eq_some_iff.mp hrow
  obtain ⟨htype, hvisible, hhidden⟩ : _ ∧ _ ∧ _ := by simpa only [Prod.mk.injEq] using hparts
  have hshown : (twoUsers.serveAll soldOneRun).redis.shownOf 1 = 9 := by decide +kernel
  have hle := h 1 o 3 ho ⟨htype, hvisible, 7, hhidden, by norm_num⟩
  rw [hshown] at hle
  exact absurd hle (by norm_num)

end SpotExchange.Exchange
