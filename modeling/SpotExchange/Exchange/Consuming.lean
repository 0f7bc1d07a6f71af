import SpotExchange.Lib.HalfAway
import SpotExchange.Lib.Run
import Mathlib.Data.List.Induction

namespace SpotExchange.Exchange

open SpotExchange.Lib

/-!
# The worker's loop and the dead-letter queue

The loop of `MatchingWorker.start` over raw queue items, for any reading of a text as JSON and anything
that `process_action` may do.

* `JsonPayload.fromDict` — `OrderActionPayload.from_dict` on whatever JSON an item holds;
* `LoopState`, `LoopState.poll` — the loop, whose `payload_dict` outlives an iteration;
* `Blamed` — an item that fails is dead-lettered once, as itself;
* `blamed_iff` — exactly when all items that fail are.
-/

/-! ### Items -/

/-- A JSON value as `json.loads` returns it. -/
inductive JsonValue
  | null
  | bool (b : Bool)
  | int (n : ℤ)
  | float (x : ℚ)
  | str (s : String)
  | arr (elems : List JsonValue)
  | obj (fields : List (String × JsonValue))

namespace JsonValue

/-- `type(value).__name__`. -/
def typeName : JsonValue → String
  | null => "NoneType"
  | bool _ => "bool"
  | int _ => "int"
  | float _ => "float"
  | str _ => "str"
  | arr _ => "list"
  | obj _ => "dict"

/-- The truth value. -/
def truthy : JsonValue → Bool
  | null => false
  | bool b => b
  | int n => n ≠ 0
  | float x => x ≠ 0
  | str s => s ≠ ""
  | arr elems => !elems.isEmpty
  | obj fields => !fields.isEmpty

/-- `value[key]`. -/
def subscript (value : JsonValue) (key : String) : Except String JsonValue :=
  match value with
  | obj fields =>
    match fields.lookup key with
    | some field => .ok field
    | none => .error ("'" ++ key ++ "'")
  | arr _ => .error "list indices must be integers or slices, not str"
  | str _ => .error "string indices must be integers, not 'str'"
  | _ => .error ("'" ++ value.typeName ++ "' object is not subscriptable")

/-- `value.get(key)`, of a dictionary. -/
def get (value : JsonValue) (key : String) : JsonValue :=
  match value with
  | obj fields => (fields.lookup key).getD null
  | _ => null

end JsonValue

/-- The texts that Python reads: a queue item as JSON, and a number. -/
structure TextReader (Raw : Type) where
  loads : Raw → Except String JsonValue
  intOfText : String → Except String ℤ
  floatOfText : String → Except String ℚ

/-- `int(value)`. -/
def TextReader.toInt {Raw : Type} (reader : TextReader Raw) : JsonValue → Except String ℤ
  | .bool b => .ok b.toNat
  | .int n => .ok n
  | .float x => .ok (truncate x)
  | .str s => reader.intOfText s
  | value => .error ("int() argument must be a string, a bytes-like object or a real number, not '"
      ++ value.typeName ++ "'")

/-- `float(value)`. -/
def TextReader.toFloat {Raw : Type} (reader : TextReader Raw) : JsonValue → Except String ℚ
  | .bool b => .ok b.toNat
  | .int n => .ok n
  | .float x => .ok x
  | .str s => reader.floatOfText s
  | value => .error ("float() argument must be a string or a real number, not '"
      ++ value.typeName ++ "'")

/-- `OrderActionPayload`, with what `from_dict` takes over as it is. -/
structure JsonPayload where
  action : JsonValue
  orderId : ℤ
  symbol : JsonValue
  userId : ℤ
  side : JsonValue
  type : JsonValue
  price : Option ℚ
  stopPrice : Option ℚ
  quantity : ℚ
  isIceberg : Bool
  visibleQty : Option ℚ
  hiddenQty : Option ℚ
  parentOrderId : Option ℤ
  replacesId : Option ℤ
  bulkId : JsonValue
  ts : ℤ

/-- `convert(value) if value else None`. -/
def ifTruthy {α : Type} (convert : JsonValue → Except String α) (value : JsonValue) :
    Except String (Option α) :=
  if value.truthy then some <$> convert value else .ok none

/-- `convert(value) if value is not None else None`. -/
def ifPresent {α : Type} (convert : JsonValue → Except String α) :
    JsonValue → Except String (Option α)
  | .null => .ok none
  | value => some <$> convert value

/-- **`OrderActionPayload.from_dict`.** -/
def JsonPayload.fromDict {Raw : Type} (reader : TextReader Raw) (d : JsonValue) :
    Except String JsonPayload := do
  let action ← d.subscript "action"
  let orderId ← reader.toInt (← d.subscript "order_id")
  let symbol ← d.subscript "symbol"
  let userId ← reader.toInt (← d.subscript "user_id")
  let side ← d.subscript "side"
  let type ← d.subscript "type"
  let price ← ifPresent reader.toFloat (d.get "price")
  let stopPrice ← ifTruthy reader.toFloat (d.get "stop_price")
  let quantity ← reader.toFloat (← d.subscript "quantity")
  let isIceberg := (d.get "is_iceberg").truthy
  let visibleQty ← ifTruthy reader.toFloat (d.get "visible_qty")
  let hiddenQty ← ifTruthy reader.toFloat (d.get "hidden_qty")
  let parentOrderId ← ifTruthy reader.toInt (d.get "parent_order_id")
  let replacesId ← ifTruthy reader.toInt (d.get "replaces_id")
  let bulkId := d.get "bulk_id"
  let ts ← match d.subscript "ts" with
    | .ok ts => reader.toInt ts
    | .error _ => .ok 0
  return { action, orderId, symbol, userId, side, type, price, stopPrice, quantity, isIceberg,
           visibleQty, hiddenQty, parentOrderId, replacesId, bulkId, ts }

/-! ### The loop -/

/-- How the handling of an item ends. -/
inductive Ending
  | returned
  | raised (error : String)
  | connectionLost
  | cancelled
  deriving DecidableEq, Repr

/-- What `BRPOP` answers. -/
inductive Popped (Raw : Type)
  | timeout
  | connectionLost
  | cancelled
  | item (raw : Raw)
  deriving DecidableEq, Repr

/-- An entry of the dead-letter queue. -/
structure DeadLetter where
  queue : String
  original : JsonValue
  error : String

/-- The local variables of `start`, the dead-letter queue with its last entry first, and all else. -/
structure LoopState (World : Type) where
  running : Bool
  payloadDict : Option JsonValue
  deadletters : List DeadLetter
  world : World

section

variable {Raw World : Type} (reader : TextReader Raw)
  (processAction : JsonPayload → World → Ending × World)

/-- The `try` block of an item, from `json.loads` on. -/
def handle (raw : Raw) (world : World) : Ending × World :=
  match reader.loads raw with
  | .error err => (.raised err, world)
  | .ok d =>
    match JsonPayload.fromDict reader d with
    | .error err => (.raised err, world)
    | .ok payload => processAction payload world

/-- `payload_dict` is assigned as soon as the item is parsed. -/
def LoopState.assign (s : LoopState World) (raw : Raw) : LoopState World :=
  match reader.loads raw with
  | .error _ => s
  | .ok d => { s with payloadDict := some d }

/-- `enqueue_deadletter` of `payload_dict`, or of an empty dictionary if there is no such variable. -/
def LoopState.enqueueDeadletter (s : LoopState World) (error : String) : LoopState World :=
  { s with deadletters := ⟨"queue:orders", s.payloadDict.getD (.obj []), error⟩ :: s.deadletters }

/-- **One iteration** of the loop of `start`. -/
def LoopState.poll (s : LoopState World) (popped : Popped Raw) : LoopState World :=
  if s.running = false then s
  else match popped with
    | .timeout => s
    | .connectionLost => s
    | .cancelled => { s with running := false }
    | .item raw =>
      let (ending, world) := handle reader processAction raw s.world
      let s' : LoopState World := { s.assign reader raw with world := world }
      match ending with
      | .returned => s'
      | .connectionLost => s'
      | .cancelled => { s' with running := false }
      | .raised err => s'.enqueueDeadletter err

/-- Before the first iteration. -/
def LoopState.start (world : World) : LoopState World := ⟨true, none, [], world⟩

/-- The payload of an item, which is empty if it cannot be parsed. -/
def payloadOf (raw : Raw) : JsonValue :=
  match reader.loads raw with
  | .error _ => .obj []
  | .ok d => d

/-- **An item that fails is dead-lettered once, as itself.** -/
def Blamed (s : LoopState World) (raw : Raw) : Prop :=
  ∀ err, s.running = true → (handle reader processAction raw s.world).1 = .raised err →
    (s.poll reader processAction (.item raw)).deadletters
      = ⟨"queue:orders", payloadOf reader raw, err⟩ :: s.deadletters

/-- The last of the items that can be parsed. -/
def lastParsed (popped : List (Popped Raw)) : Option JsonValue :=
  (popped.filterMap fun p => match p with
    | .item raw => (reader.loads raw).toOption
    | _ => none).getLast?

end

section

variable {Raw World : Type} {reader : TextReader Raw}
  {processAction : JsonPayload → World → Ending × World} {s : LoopState World} {world : World}
  {raw : Raw} {err : String} {popped : List (Popped Raw)}

/-! ### What an iteration dead-letters -/

/-- An item that cannot be parsed leaves `payload_dict` as it is. -/
theorem assign_of_error (h : reader.loads raw = .error err) : s.assign reader raw = s := by
  simp only [LoopState.assign, h]

theorem assign_of_ok {d : JsonValue} (h : reader.loads raw = .ok d) :
    s.assign reader raw = { s with payloadDict := some d } := by
  simp only [LoopState.assign, h]

/-- The letter of an item that raises holds what `payload_dict` is by then. -/
theorem poll_deadletters (hrun : s.running = true)
    (hraise : (handle reader processAction raw s.world).1 = .raised err) :
    (s.poll reader processAction (.item raw)).deadletters
      = ⟨"queue:orders", (s.assign reader raw).payloadDict.getD (.obj []), err⟩ :: s.deadletters := by
  have hkept : (s.assign reader raw).deadletters = s.deadletters := by
    unfold LoopState.assign
    split <;> rfl
  unfold LoopState.poll
  rw [if_neg (by simp [hrun])]
  simp only [hraise]
  unfold LoopState.enqueueDeadletter
  rw [hkept]

/-- Nothing else is dead-lettered. -/
theorem poll_deadletters_eq {p : Popped Raw} (hquiet : ∀ raw err, p = .item raw →
      (handle reader processAction raw s.world).1 ≠ .raised err) :
    (s.poll reader processAction p).deadletters = s.deadletters := by
  have hkept : ∀ raw, (s.assign reader raw).deadletters = s.deadletters := by
    intro raw
    unfold LoopState.assign
    split <;> rfl
  unfold LoopState.poll
  split_ifs with hrun
  · rfl
  · cases p with
    | timeout => rfl
    | connectionLost => rfl
    | cancelled => rfl
    | item raw =>
      cases hending : (handle reader processAction raw s.world).1 with
      | returned => simp only [hending, hkept]
      | connectionLost => simp only [hending, hkept]
      | cancelled => simp only [hending, hkept]
      | raised err => exact absurd hending (hquiet raw err rfl)

/-- **One item.**  An item that is parsed is dead-lettered as itself, one that is not as what the
    variable still holds. -/
theorem blamed_step : Blamed reader processAction s raw ↔
    ∀ err, s.running = true → reader.loads raw = .error err →
      s.payloadDict.getD (.obj []) = .obj [] := by
  cases hloads : reader.loads raw with
  | error err =>
    have hraise : (handle reader processAction raw s.world).1 = .raised err := by
      simp only [handle, hloads]
    constructor
    · intro h err' hrun _
      have hletter := h err hrun hraise
      rw [poll_deadletters hrun hraise, assign_of_error hloads, List.cons.injEq,
        DeadLetter.mk.injEq] at hletter
      simpa only [payloadOf, hloads] using hletter.1.2.1
    · intro h err' hrun hraise'
      rw [poll_deadletters hrun hraise', assign_of_error hloads, h err hrun rfl]
      simp only [payloadOf, hloads]
  | ok d =>
    constructor
    · intro _ err' _ herr
      cases herr
    · intro _ err' hrun hraise
      rw [poll_deadletters hrun hraise, assign_of_ok hloads]
      simp only [payloadOf, hloads, Option.getD_some]

/-! ### What the variable holds -/

theorem lastParsed_append (p : Popped Raw) : lastParsed reader (popped ++ [p])
    = match p with
      | .item raw => (reader.loads raw).toOption.or (lastParsed reader popped)
      | _ => lastParsed reader popped := by
  unfold lastParsed
  rw [List.filterMap_append]
  cases p with
  | item raw =>
    cases hloads : reader.loads raw <;> simp [hloads, Except.toOption]
  | timeout => simp
  | connectionLost => simp
  | cancelled => simp

theorem assign_payloadDict :
    (s.assign reader raw).payloadDict = (reader.loads raw).toOption.or s.payloadDict := by
  unfold LoopState.assign
  cases reader.loads raw <;> rfl

/-- However an item ends, the variable has been assigned or not. -/
theorem poll_payloadDict (hrun : s.running = true) :
    (s.poll reader processAction (.item raw)).payloadDict = (s.assign reader raw).payloadDict := by
  unfold LoopState.poll
  rw [if_neg (by simp [hrun])]
  cases hending : (handle reader processAction raw s.world).1 <;>
    simp only [hending, LoopState.enqueueDeadletter]

/-- As long as the loop runs, `payload_dict` is what was parsed last. -/
theorem payloadDict_after (hrun : (Run.after (LoopState.poll reader processAction)
      (LoopState.start world) popped).running = true) :
    (Run.after (LoopState.poll reader processAction) (LoopState.start world) popped).payloadDict
      = lastParsed reader popped := by
  induction popped using List.reverseRecOn with
  | nil => rfl
  | append_singleton popped p ih =>
    rw [Run.after_append] at hrun ⊢
    rw [lastParsed_append]
    set s := Run.after (LoopState.poll reader processAction) (LoopState.start world) popped
    change (s.poll reader processAction p).running = true at hrun
    change (s.poll reader processAction p).payloadDict = _
    -- a loop that is still running ran before its last poll
    have hbefore : s.running = true := by
      by_contra hstopped
      unfold LoopState.poll at hrun
      rw [if_pos (by simpa using hstopped)] at hrun
      exact hstopped hrun
    -- only an item is parsed, any other answer leaves the dictionary
    cases p with
    | item raw => rw [poll_payloadDict hbefore, assign_payloadDict, ih hbefore]
    | timeout =>
      rw [LoopState.poll, if_neg (by simp [hbefore])]
      exact ih hbefore
    | connectionLost =>
      rw [LoopState.poll, if_neg (by simp [hbefore])]
      exact ih hbefore
    | cancelled =>
      rw [LoopState.poll, if_neg (by simp [hbefore])]
      exact ih hbefore

/-- **When every item that fails is dead-lettered as itself**: just when no item that cannot be parsed
    comes after one that can, unless the last such item is an empty dictionary. -/
theorem blamed_iff {Raw World : Type} (reader : TextReader Raw)
    (processAction : JsonPayload → World → Ending × World) (world : World)
    (popped : List (Popped Raw)) :
    (∀ pre raw post, popped = pre ++ .item raw :: post → Blamed reader processAction
      (Run.after (LoopState.poll reader processAction) (.start world) pre) raw) ↔
    ∀ pre raw post err, popped = pre ++ .item raw :: post →
      (Run.after (LoopState.poll reader processAction) (.start world) pre).running = true →
        reader.loads raw = .error err → (lastParsed reader pre).getD (.obj []) = .obj [] := by
  constructor
  · intro h pre raw post err hsplit hrun hloads
    rw [← payloadDict_after hrun]
    exact blamed_step.mp (h pre raw post hsplit) err hrun hloads
  · intro h pre raw post hsplit
    rw [blamed_step]
    intro err hrun hloads
    rw [payloadDict_after hrun]
    exact h pre raw post err hsplit hrun hloads

/-- An object without most fields of an order. -/
def bareItem : String := "\x7b\"order_id\": 7\x7d"

/-- How Python reads that item and one that is no JSON. -/
def bareReader : TextReader String where
  loads raw :=
    if raw = bareItem then .ok (.obj [("order_id", .int 7)])
    else .error "Expecting value: line 1 column 1 (char 0)"
  intOfText s := .error ("invalid literal for int() with base 10: '" ++ s ++ "'")
  floatOfText s := .error ("could not convert string to float: '" ++ s ++ "'")

/-- Neither of the two items gets as far as `process_action`. -/
def neverCalled (_ : JsonPayload) (world : Unit) : Ending × Unit := (.returned, world)

/-- **A text that is no JSON is dead-lettered as the item before it.** -/
theorem staleItem_blamed :
    ¬∀ pre raw post, [.item bareItem, .item "garbage"] = pre ++ .item raw :: post →
      Blamed bareReader neverCalled
        (Run.after (LoopState.poll bareReader neverCalled) (.start ()) pre) raw := by
  intro h
  have hblamed := h [.item bareItem] "garbage" [] rfl
  have hother : "garbage" ≠ bareItem := by decide
  have hloads : bareReader.loads "garbage" = .error "Expecting value: line 1 column 1 (char 0)" := by
    simp only [bareReader, if_neg hother]
  have hempty := blamed_step.mp hblamed _ rfl hloads
  cases hempty

end

end SpotExchange.Exchange
