import SpotExchange.Api.Platform

namespace SpotExchange.Api

open SpotExchange.Lib
open SpotExchange.Exchange (Symbol Halted Inherited)

/-!
# Markets that an admin halts

* `Activates` — a turn that makes a market active;
* `inherits_turn` — any other turn leaves a halted market halted, and brings nothing into it;
* `run_halted` — so while a market is halted, what is in it comes from what was in it.
-/

/-- The panel makes the market active, or creates it. -/
def Activates (symbol : Symbol) (p : Platform) : Turn → Prop
  | .panel _ _ (.togglePairActive pairId isActive) => isActive = true ∧ p.symbolOf pairId = some symbol
  | .panel _ _ (.createTradingPair req) =>
      req.symbol = symbol ∧ p.bank.store.pg.tradingPairs req.symbol = none
  | _ => False

section

variable {lib : Crypto} {p : Platform}

/-- **A turn brings nothing into a halted market** but what comes from what is there. -/
theorem inherits_turn (route : HttpRequest → Option Handler) {symbol : Symbol} (h : Sound lib p)
    (hhalted : Halted symbol p.bank.store) {turn : Turn} (hnot : ¬ Activates symbol p turn) :
    Halted symbol (p.serve lib route turn).bank.store ∧
      Inherited symbol p.bank.store (p.serve lib route turn).bank.store := by
  have hids := h.orderly.consistent.ids
  have hsame : Halted symbol p.bank.store ∧ Inherited symbol p.bank.store p.bank.store := ⟨hhalted, .refl hids⟩
  have hact : ∀ a, Halted symbol (p.bank.act a).store ∧ Inherited symbol p.bank.store (p.bank.act a).store := by
    intro a
    obtain ⟨hpairs, hinherited⟩ := Exchange.inherits_act h.toHealthy hhalted a
    refine ⟨?_, hinherited⟩
    unfold Halted
    rw [hpairs]
    exact hhalted
  -- a pair that is written is another one, or not active
  have hset : ∀ other pair, (other = symbol → pair.isActive = false) →
      Halted symbol (p.bank.store.setPair other pair) ∧
        Inherited symbol p.bank.store (p.bank.store.setPair other pair) := by
    intro other pair hinactive
    refine ⟨fun pair' hpair' => ?_, Exchange.inherits_of_orders rfl rfl hids⟩
    have hpair' : Function.update p.bank.store.pg.tradingPairs other (some pair) symbol = some pair' := hpair'
    by_cases heq : other = symbol
    · rw [heq, Function.update_self] at hpair'
      exact Option.some.inj hpair' ▸ hinactive heq
    · rw [Function.update_of_ne (Ne.symm heq)] at hpair'
      exact hhalted pair' hpair'
  cases turn with
  | auth req => exact ⟨hhalted, Exchange.inherits_of_orders rfl rfl hids⟩
  | call req verifiedAt limitedAt =>
    cases hroute : route req with
    | none =>
      rw [serve_call_none hroute]
      exact hsame
    | some handler =>
      rw [serve_call_some hroute]
      obtain ⟨-, -, hbank | ⟨principal, a, -, -, -, hbank⟩⟩ := handle_cases lib p handler req verifiedAt limitedAt
      · rw [hbank]
        exact hsame
      · rw [hbank]
        exact hact a
  | panel now authorization action =>
    rcases serve_panel_cases lib route p now authorization action with ⟨admin, hadmin, hx⟩ | hx <;> rw [hx]
    swap
    · exact hsame
    show Halted symbol (action.perform p.toMarkets).bank.store ∧
      Inherited symbol p.bank.store (action.perform p.toMarkets).bank.store
    generalize hs : (action.perform p.toMarkets).bank.store = s'
    have hperformed := performed p.toMarkets action
    rw [hs] at hperformed
    cases hperformed with
    | kept => exact hsame
    | adjusted key delta reason => exact hact _
    | created req new => exact hset req.symbol req.pair fun heq => absurd ⟨heq, new⟩ hnot
    | toggled pairId isActive other pair found listed =>
      refine hset other { pair with isActive := isActive } fun heq => ?_
      cases isActive with
      | false => rfl
      | true => exact absurd ⟨rfl, heq ▸ found⟩ hnot
  | background req => exact hact _

end

/-- **While a market is halted, nothing is brought into it**: from when it is not active until it is made active
    again, whatever users ask for, every order in it comes, by replacements and triggered stops, from an order
    of the same user that was in it. -/
theorem run_halted (lib : Crypto) (route : HttpRequest → Option Handler) (seed : Seed) (stock : Stock)
    {before later : List Turn} {symbol : Symbol}
    (hhalted : Halted symbol ((Platform.start seed stock).serveAll lib route before).bank.store)
    (hlater : Run.Along (Platform.serve lib route) (fun p turn => ¬ Activates symbol p turn)
      ((Platform.start seed stock).serveAll lib route before) later) :
    Inherited symbol ((Platform.start seed stock).serveAll lib route before).bank.store
      ((Platform.start seed stock).serveAll lib route (before ++ later)).bank.store := by
  let p := (Platform.start seed stock).serveAll lib route before
  have hsound : Sound lib p := (sound_start lib seed stock).serveAll before
  have hrun := hlater.invariant (I := fun q => Sound lib q ∧ Halted symbol q.bank.store ∧
      Inherited symbol p.bank.store q.bank.store)
    (fun q turn hI hC => by
      obtain ⟨hq, hhalted, hinherited⟩ := hI
      obtain ⟨hhalted', hinherited'⟩ := inherits_turn route hq hhalted hC
      exact ⟨hq.serve turn, hhalted', hinherited.trans hinherited'⟩)
    ⟨hsound, hhalted, .refl hsound.orderly.consistent.ids⟩
  have hlast : (Platform.start seed stock).serveAll lib route (before ++ later) = p.serveAll lib route later :=
    Run.after_append
  rw [hlast]
  exact hrun.2.2

/-- The market of two users before it is opened. -/
def unopenedStock : Stock :=
  { twoUsersStock with pairs := fun symbol => (twoUsersStock.pairs symbol).map fun pair =>
      { pair with isActive := false } }

/-- Ada tries to place an order in it. -/
theorem run_halted_ada :
    Inherited "BTC/USDT"
      ((Platform.start adasSeed unopenedStock).serveAll transparent sellsFour (adasLogin.map .auth)).bank.store
      ((Platform.start adasSeed unopenedStock).serveAll transparent sellsFour
        (adasLogin.map .auth ++ [.call adasOrder 2010 2010, .background ⟨.work, rfl⟩])).bank.store := by
  refine run_halted transparent sellsFour adasSeed unopenedStock (fun pair hpair => ?_) ⟨id, id, trivial⟩
  obtain ⟨pair, -, rfl⟩ := Option.map_eq_some_iff.mp
    (show (twoUsersStock.pairs "BTC/USDT").map (fun pair => { pair with isActive := false }) = some pair from hpair)
  rfl

end SpotExchange.Api
