import SpotExchange.Ws.Sockets
import Mathlib.Tactic.Common

namespace SpotExchange.Ws

open SpotExchange.Lib
open SpotExchange.Exchange (Symbol UserId)

/-!
# What the gateway keeps in order

* `Acted` — everything that an act can do;
* `Gateway.Connected` — a socket whose handler has not left its loop and whose client is there;
* `Gateway.Wf` — connected sockets are registered, subscriptions belong to handlers that are at it, and
  messages to subscriptions;
* `Wf.step` — every act keeps this, and `connected_of_step` — no act brings a socket back.
-/

/-- **What an act does**, if anything. -/
inductive Acted (g : Gateway) : Act → Gateway → Prop
  | stay (a : Act) : Acted g a g
  | subscribeShared (symbol : Symbol) : Acted g (.subscribeShared symbol) (g.listen (.shared symbol))
  | subscribeUser (ws : SocketId) (userId : UserId) (phase : Phase)
      (at_it : g.handlers ws = some ⟨.privateChannel userId, phase⟩)
      (alive : phase = .serving ∨ phase = .closing) :
      Acted g (.subscribeUser ws) (g.listen (.user ws userId))
  | connect {a : Act} (ws : SocketId) (e : Endpoint) (fresh : g.handlers ws = none) :
      Acted g a (g.connect ws e)
  | greeted {a : Act} (ws : SocketId) (e : Endpoint) (phase : Phase)
      (greets : g.handlers ws = some ⟨e, .greeting⟩) : Acted g a (g.enter ws e phase)
  | subscribeClient (ws : SocketId) (symbol : Symbol)
      (greets : g.handlers ws = some ⟨.orderbook symbol, .greeting⟩) :
      Acted g (.subscribeClient ws true)
        ((g.enter ws (.orderbook symbol) .serving).listen (.client ws symbol))
  | closeClient (ws : SocketId) (symbol : Symbol)
      (serves : g.handlers ws = some ⟨.orderbook symbol, .serving⟩) :
      Acted g (.closeClient ws) ((g.unlisten (.client ws symbol)).enter ws (.orderbook symbol) .closing)
  | disconnectPublic (ws : SocketId) (symbol : Symbol)
      (closes : g.handlers ws = some ⟨.orderbook symbol, .closing⟩) :
      Acted g (.disconnectPublic ws)
        ((g.enter ws (.orderbook symbol) .done).disconnect (.orderbook symbol) {ws})
  | disconnectPrivate (ws : SocketId) (userId : UserId)
      (serves : g.handlers ws = some ⟨.privateChannel userId, .serving⟩) :
      Acted g (.disconnectPrivate ws)
        ((g.enter ws (.privateChannel userId) .closing).disconnect (.privateChannel userId) {ws})
  | cancelUser (ws : SocketId) (userId : UserId)
      (closes : g.handlers ws = some ⟨.privateChannel userId, .closing⟩) :
      Acted g (.cancelUser ws) ((g.unlisten (.user ws userId)).enter ws (.privateChannel userId) .done)
  | hangUp (ws : SocketId) : Acted g (.hangUp ws) { g with gone := insert ws g.gone }
  | publish (channel : Channel) : Acted g (.publish channel) (g.step (.publish channel))
  | poll (ws : SocketId) (symbol : Symbol) (message : Message) (inbox : List (Listener × Message))
      (taken : takeMail (.client ws symbol) g.inbox = some (message, inbox)) :
      Acted g (.poll ws) ({ g with inbox := inbox }.sendJson ws message)
  | receive (l : Listener) (message : Message) (inbox : List (Listener × Message))
      (task : l.isTask = true) (taken : takeMail l g.inbox = some (message, inbox)) :
      Acted g (.receive l)
        { g with inbox := inbox, broadcasts := (l, ⟨message, g.audience l, ∅⟩) :: g.broadcasts }
  | send (l : Listener) (ws : SocketId) (b : Broadcast) (broadcasts : List (Listener × Broadcast))
      (taken : takeMail l g.broadcasts = some (b, broadcasts)) (next : ws ∈ b.conns) :
      Acted g (.send l ws)
        ({ g with broadcasts := (l, b.sentTo ws (ws ∈ g.gone)) :: broadcasts }.sendJson ws b.message)
  | finish (l : Listener) (b : Broadcast) (broadcasts : List (Listener × Broadcast))
      (taken : takeMail l g.broadcasts = some (b, broadcasts)) (through : b.conns = ∅) :
      Acted g (.finish l) ({ g with broadcasts := broadcasts }.disconnect l.endpoint b.dead)
  | lose (l : Listener) : Acted g (.lose l) (g.unlisten l)

namespace Gateway

variable {g : Gateway} {ws c : SocketId} {e e' : Endpoint} {p : Phase} {l : Listener} {m : Message}
  {symbol : Symbol} {userId : UserId}

theorem step_acted (g : Gateway) (a : Act) : Acted g a (g.step a) := by
  cases a with
  | subscribeShared symbol =>
    unfold step
    dsimp only
    split_ifs
    · exact .subscribeShared symbol
    · exact .stay _
  | connectPublic ws symbol =>
    unfold step
    dsimp only
    split_ifs with hnone
    · exact .connect ws _ hnone
    · exact .stay _
  | subscribeClient ws succeeds =>
    unfold step
    dsimp only
    split
    · split_ifs with hsucceeds
      · rw [hsucceeds]
        exact .subscribeClient ws _ ‹_›
      · exact .greeted ws _ _ ‹_›
    · exact .stay _
  | closeClient ws =>
    unfold step
    dsimp only
    split
    · exact .closeClient ws _ ‹_›
    · exact .stay _
  | disconnectPublic ws =>
    unfold step
    dsimp only
    split
    · exact .disconnectPublic ws _ ‹_›
    · exact .stay _
  | connectPrivate ws userId =>
    unfold step
    dsimp only
    split_ifs with hnone
    · exact .connect ws _ hnone
    · exact .stay _
  | greet ws =>
    unfold step
    dsimp only
    split
    · exact .greeted ws _ _ ‹_›
    · exact .stay _
  | subscribeUser ws =>
    unfold step
    dsimp only
    split
    · split_ifs with hphase
      · exact .subscribeUser ws _ _ ‹_› hphase.2
      · exact .stay _
    · exact .stay _
  | disconnectPrivate ws =>
    unfold step
    dsimp only
    split
    · exact .disconnectPrivate ws _ ‹_›
    · exact .stay _
  | cancelUser ws =>
    unfold step
    dsimp only
    split
    · exact .cancelUser ws _ ‹_›
    · exact .stay _
  | hangUp ws => exact .hangUp ws
  | publish channel => exact .publish channel
  | poll ws =>
    unfold step
    dsimp only
    split
    · split
      · exact .poll ws _ _ _ ‹_›
      · exact .stay _
    · exact .stay _
  | receive l =>
    unfold step
    dsimp only
    split_ifs with htask
    · split
      · exact .receive l _ _ htask.1 ‹_›
      · exact .stay _
    · exact .stay _
  | send l ws =>
    unfold step
    dsimp only
    split
    · split_ifs with hws
      · exact .send l ws _ _ ‹_› hws
      · exact .stay _
    · exact .stay _
  | finish l =>
    unfold step
    dsimp only
    split
    · split_ifs with hempty
      · exact .finish l _ _ ‹_› hempty
      · exact .stay _
    · exact .stay _
  | lose l =>
    unfold step
    dsimp only
    split_ifs
    · exact .lose l
    · exact .stay _

/-! ### Registries and phases -/

@[simp] theorem registry_setRegistry (conns : Finset SocketId) :
    (g.setRegistry e conns).registry e' = if e' = e then conns else g.registry e' := by
  cases e with
  | orderbook symbol =>
    cases e' with
    | orderbook symbol' =>
      simp only [setRegistry, registry, Function.update_apply, Endpoint.orderbook.injEq]
    | privateChannel userId => exact (if_neg (by simp)).symm
  | privateChannel userId =>
    cases e' with
    | orderbook symbol => exact (if_neg (by simp)).symm
    | privateChannel userId' =>
      simp only [setRegistry, registry, Function.update_apply, Endpoint.privateChannel.injEq]

/-- The registries are all that changes. -/
theorem setRegistry_rest (conns : Finset SocketId) :
    (g.setRegistry e conns).handlers = g.handlers ∧ (g.setRegistry e conns).gone = g.gone ∧
      (g.setRegistry e conns).listening = g.listening ∧ (g.setRegistry e conns).inbox = g.inbox ∧
      (g.setRegistry e conns).broadcasts = g.broadcasts ∧ (g.setRegistry e conns).sent = g.sent ∧
      (g.setRegistry e conns).nextId = g.nextId := by
  cases e <;> exact ⟨rfl, rfl, rfl, rfl, rfl, rfl, rfl⟩

/-- **A live client** of an endpoint. -/
def Connected (g : Gateway) (c : SocketId) (e : Endpoint) : Prop :=
  (g.handlers c = some ⟨e, .greeting⟩ ∨ g.handlers c = some ⟨e, .serving⟩) ∧ c ∉ g.gone

instance (g : Gateway) (c : SocketId) (e : Endpoint) : Decidable (g.Connected c e) :=
  inferInstanceAs (Decidable (_ ∧ _))

theorem connected_enter_of_ne (hne : c ≠ ws) : (g.enter ws e' p).Connected c e ↔ g.Connected c e := by
  unfold Connected enter
  dsimp only
  rw [Function.update_of_ne hne]

theorem connected_enter_self : (g.enter ws e' p).Connected ws e ↔
    e' = e ∧ (p = .greeting ∨ p = .serving) ∧ ws ∉ g.gone := by
  unfold Connected enter
  dsimp only
  rw [Function.update_self, Option.some_inj, Option.some_inj, Handler.mk.injEq, Handler.mk.injEq,
    ← and_or_left, and_assoc]

theorem connected_setRegistry (conns : Finset SocketId) :
    (g.setRegistry e' conns).Connected c e ↔ g.Connected c e := by
  unfold Connected
  rw [(setRegistry_rest conns).1, (setRegistry_rest conns).2.1]

/-- A handler that has left its loop has no live client. -/
theorem not_connected_enter (hp : p = .closing ∨ p = .done) : ¬ (g.enter ws e' p).Connected ws e := by
  rw [connected_enter_self]
  rintro ⟨-, hopen, -⟩
  rcases hp with rfl | rfl <;> simp at hopen

/-- **No act brings a socket back**: one that has had a handler, and is connected afterwards, was. -/
theorem connected_of_step (hc : g.handlers c ≠ none) (a : Act) :
    (g.step a).handlers c ≠ none ∧ ∀ e, (g.step a).Connected c e → g.Connected c e := by
  have hstay : g.handlers c ≠ none ∧ ∀ e, g.Connected c e → g.Connected c e := ⟨hc, fun _ h => h⟩
  -- a handler that enters a phase says nothing about other sockets
  have henter : ∀ ws e' p, (∀ e, (g.enter ws e' p).Connected ws e → g.Connected ws e) →
      (g.enter ws e' p).handlers c ≠ none ∧ ∀ e, (g.enter ws e' p).Connected c e → g.Connected c e := by
    intro ws e' p hself
    by_cases hcw : c = ws
    · subst hcw
      refine ⟨?_, hself⟩
      show Function.update g.handlers c _ c ≠ none
      rw [Function.update_self]
      exact Option.some_ne_none _
    · refine ⟨?_, fun e h => (connected_enter_of_ne hcw).mp h⟩
      show Function.update g.handlers ws _ c ≠ none
      rwa [Function.update_of_ne hcw]
  have hregistry : ∀ (g' : Gateway) e' conns,
      (g'.handlers c ≠ none ∧ ∀ e, g'.Connected c e → g.Connected c e) →
      (g'.setRegistry e' conns).handlers c ≠ none ∧
        ∀ e, (g'.setRegistry e' conns).Connected c e → g.Connected c e := by
    intro g' e' conns h
    rw [(setRegistry_rest conns).1]
    exact ⟨h.1, fun e hconn => h.2 e ((connected_setRegistry conns).mp hconn)⟩
  have hacted := step_acted g a
  generalize g.step a = after at hacted ⊢
  cases hacted with
  -- these leave the handlers alone
  | stay | subscribeShared | subscribeUser | publish | receive | lose | poll | send => exact hstay
  | connect ws e fresh =>
    refine hregistry _ _ _ ?_
    have hcw : c ≠ ws := fun hcw => hc (hcw ▸ fresh)
    refine ⟨?_, fun e h => (connected_enter_of_ne hcw).mp h⟩
    show Function.update g.handlers ws _ c ≠ none
    rwa [Function.update_of_ne hcw]
  | greeted ws e' phase greets =>
    refine henter ws e' phase fun e h => ?_
    obtain ⟨rfl, -, hgone⟩ := connected_enter_self.mp h
    exact ⟨.inl greets, hgone⟩
  | subscribeClient ws symbol greets =>
    refine henter ws (.orderbook symbol) .serving fun e h => ?_
    obtain ⟨rfl, -, hgone⟩ := connected_enter_self.mp h
    exact ⟨.inl greets, hgone⟩
  | closeClient ws symbol serves =>
    exact henter ws _ _ fun e h => absurd h (not_connected_enter (.inl rfl))
  | disconnectPublic ws symbol closes =>
    exact hregistry _ _ _ (henter ws _ _ fun e h => absurd h (not_connected_enter (.inr rfl)))
  | disconnectPrivate ws userId serves =>
    exact hregistry _ _ _ (henter ws _ _ fun e h => absurd h (not_connected_enter (.inl rfl)))
  | cancelUser ws userId closes =>
    exact henter ws _ _ fun e h => absurd h (not_connected_enter (.inr rfl))
  | hangUp ws => exact ⟨hc, fun e h => ⟨h.1, fun hgone => h.2 (Finset.mem_insert_of_mem hgone)⟩⟩
  | finish l b broadcasts taken through => exact hregistry _ _ _ hstay

/-! ### What is in order -/

/-- **A gateway in order.** -/
structure Wf (g : Gateway) : Prop where
  registered : ∀ c e, g.Connected c e → c ∈ g.registry e
  clients : ∀ ws symbol, .client ws symbol ∈ g.listening →
    g.handlers ws = some ⟨.orderbook symbol, .serving⟩
  users : ∀ ws userId, .user ws userId ∈ g.listening →
    g.handlers ws = some ⟨.privateChannel userId, .serving⟩ ∨
      g.handlers ws = some ⟨.privateChannel userId, .closing⟩
  nodup : g.listening.Nodup
  inbox : ∀ x ∈ g.inbox, x.1 ∈ g.listening ∧ x.2.id < g.nextId
  broadcasts : ∀ x ∈ g.broadcasts, x.1.isTask = true ∧ x.2.message.id < g.nextId ∧ x.2.dead ⊆ g.gone
  sent : ∀ x ∈ g.sent, x.2.id < g.nextId

theorem wf_start (symbols : List Symbol) : (start symbols).Wf where
  registered := fun _ _ h => absurd h.1 (by simp [start])
  clients := fun _ _ h => absurd h List.not_mem_nil
  users := fun _ _ h => absurd h List.not_mem_nil
  nodup := List.nodup_nil
  inbox := fun _ h => absurd h List.not_mem_nil
  broadcasts := fun _ h => absurd h List.not_mem_nil
  sent := fun _ h => absurd h List.not_mem_nil

namespace Wf

/-- Only the handlers of clients in their loop have subscribed for them. -/
theorem no_client (h : g.Wf) (hphase : ∀ symbol, g.handlers ws ≠ some ⟨.orderbook symbol, .serving⟩) :
    .client ws symbol ∉ g.listening :=
  fun hl => hphase symbol (h.clients ws symbol hl)

theorem no_user (h : g.Wf) (hphase : ∀ userId, g.handlers ws ≠ some ⟨.privateChannel userId, .serving⟩ ∧
    g.handlers ws ≠ some ⟨.privateChannel userId, .closing⟩) : .user ws userId ∉ g.listening :=
  fun hl => (h.users ws userId hl).elim (hphase userId).1 (hphase userId).2

/-- A handler enters a phase that its subscriptions allow. -/
theorem enter (h : g.Wf) (hreg : p = .greeting ∨ p = .serving → ws ∉ g.gone → ws ∈ g.registry e)
    (hclient : ∀ symbol, .client ws symbol ∉ g.listening)
    (huser : ∀ userId, .user ws userId ∈ g.listening → e = .privateChannel userId ∧ p = .closing) :
    (g.enter ws e p).Wf where
  registered := by
    intro c e' hc
    by_cases hcw : c = ws
    · subst hcw
      obtain ⟨rfl, hp, hgone⟩ := connected_enter_self.mp hc
      exact hreg hp hgone
    · exact h.registered c e' ((connected_enter_of_ne hcw).mp hc)
  clients := by
    intro ws' symbol hl
    show Function.update g.handlers ws _ ws' = _
    have hw : ws' ≠ ws := fun hw => hclient symbol (hw ▸ hl)
    rw [Function.update_of_ne hw]
    exact h.clients ws' symbol hl
  users := by
    intro ws' userId hl
    show Function.update g.handlers ws _ ws' = _ ∨ Function.update g.handlers ws _ ws' = _
    by_cases hw : ws' = ws
    · subst hw
      obtain ⟨rfl, rfl⟩ := huser userId hl
      exact .inr (Function.update_self ..)
    · rw [Function.update_of_ne hw]
      exact h.users ws' userId hl
  nodup := h.nodup
  inbox := h.inbox
  broadcasts := h.broadcasts
  sent := h.sent

/-- A subscription is established for a handler that is at it. -/
theorem listen (h : g.Wf)
    (hclient : ∀ ws symbol, l = .client ws symbol → g.handlers ws = some ⟨.orderbook symbol, .serving⟩)
    (huser : ∀ ws userId, l = .user ws userId →
      g.handlers ws = some ⟨.privateChannel userId, .serving⟩ ∨
        g.handlers ws = some ⟨.privateChannel userId, .closing⟩) : (g.listen l).Wf := by
  unfold Gateway.listen
  split_ifs with hl
  · exact h
  · exact
      { h with
        clients := fun ws symbol hmem => by
          rcases List.mem_cons.mp hmem with heq | hmem
          · exact hclient ws symbol heq.symm
          · exact h.clients ws symbol hmem
        users := fun ws userId hmem => by
          rcases List.mem_cons.mp hmem with heq | hmem
          · exact huser ws userId heq.symm
          · exact h.users ws userId hmem
        nodup := List.nodup_cons.mpr ⟨hl, h.nodup⟩
        inbox := fun x hx => ⟨List.mem_cons_of_mem _ (h.inbox x hx).1, (h.inbox x hx).2⟩ }

theorem unlisten (h : g.Wf) (l : Listener) : (g.unlisten l).Wf :=
  { h with
    clients := fun ws symbol hmem => h.clients ws symbol (List.mem_of_mem_filter hmem)
    users := fun ws userId hmem => h.users ws userId (List.mem_of_mem_filter hmem)
    nodup := h.nodup.filter _
    inbox := fun x hx => by
      obtain ⟨hx, hne⟩ := List.mem_filter.mp hx
      exact ⟨List.mem_filter.mpr ⟨(h.inbox x hx).1, hne⟩, (h.inbox x hx).2⟩
    broadcasts := fun x hx => h.broadcasts x (List.mem_of_mem_filter hx) }

/-- A registry is written that keeps the live clients. -/
theorem setRegistry (h : g.Wf) {conns : Finset SocketId} (hconns : ∀ c, g.Connected c e → c ∈ conns) :
    (g.setRegistry e conns).Wf := by
  obtain ⟨hhandlers, hgone, hlistening, hinbox, hbroadcasts, hsent, hid⟩ :=
    setRegistry_rest (g := g) (e := e) conns
  refine ⟨fun c e' hc => ?_, ?_, ?_, ?_, ?_, ?_, ?_⟩
  · have hold := (connected_setRegistry conns).mp hc
    rw [registry_setRegistry]
    split_ifs with he
    · exact hconns c (he ▸ hold)
    · exact h.registered c e' hold
  · rw [hhandlers, hlistening]
    exact h.clients
  · rw [hhandlers, hlistening]
    exact h.users
  · rw [hlistening]
    exact h.nodup
  · rw [hinbox, hlistening, hid]
    exact h.inbox
  · rw [hbroadcasts, hgone, hid]
    exact h.broadcasts
  · rw [hsent, hid]
    exact h.sent

/-- Sockets that are not connected are removed. -/
theorem disconnect (h : g.Wf) {dead : Finset SocketId} (hdead : ∀ c ∈ dead, ¬ g.Connected c e) :
    (g.disconnect e dead).Wf :=
  h.setRegistry fun c hc => Finset.mem_sdiff.mpr ⟨h.registered c e hc, fun hin => hdead c hin hc⟩

theorem sendJson (h : g.Wf) (ws : SocketId) (hm : m.id < g.nextId) : (g.sendJson ws m).Wf := by
  refine { h with sent := ?_ }
  intro x hx
  have hx : x ∈ (if ws ∈ g.gone then g.sent else g.sent ++ [(ws, m)]) := hx
  split_ifs at hx
  · exact h.sent x hx
  · rcases List.mem_append.mp hx with hx | hx
    · exact h.sent x hx
    · rw [List.mem_singleton.mp hx]
      exact hm

/-- **Every act keeps the gateway in order.** -/
theorem step (h : g.Wf) (a : Act) : (g.step a).Wf := by
  have hacted := step_acted g a
  generalize g.step a = after at hacted ⊢
  cases hacted with
  | stay => exact h
  | subscribeShared symbol => exact h.listen (fun _ _ hl => nomatch hl) (fun _ _ hl => nomatch hl)
  | subscribeUser ws userId phase at_it alive =>
    refine h.listen (fun _ _ hl => nomatch hl) fun ws' userId' hl => ?_
    obtain ⟨rfl, rfl⟩ := Listener.user.inj hl
    rcases alive with rfl | rfl
    · exact .inl at_it
    · exact .inr at_it
  | connect ws e fresh =>
    -- registered first, so that the handler may be at its start
    have hreg : (g.setRegistry e (insert ws (g.registry e))).Wf :=
      h.setRegistry fun c hc => Finset.mem_insert_of_mem (h.registered c e hc)
    have hlistening := (setRegistry_rest (g := g) (e := e) (insert ws (g.registry e))).2.2.1
    have hnew : ((g.setRegistry e (insert ws (g.registry e))).enter ws e .greeting).Wf := by
      refine hreg.enter (fun _ _ => ?_) (fun symbol hl => ?_) fun userId hl => ?_
      · rw [registry_setRegistry, if_pos rfl]
        exact Finset.mem_insert_self _ _
      · rw [hlistening] at hl
        exact absurd hl (h.no_client (by simp [fresh]))
      · rw [hlistening] at hl
        exact absurd hl (h.no_user (by simp [fresh]))
    cases e <;> exact hnew
  | greeted ws e phase greets =>
    refine h.enter (fun _ hgone => h.registered ws e ⟨.inl greets, hgone⟩) (fun symbol => ?_)
      fun userId hl => ?_
    · exact h.no_client (by simp [greets])
    · exact absurd hl (h.no_user (by simp [greets]))
  | subscribeClient ws symbol greets =>
    -- it serves first, then its own subscription is added
    have hnew : (g.enter ws (.orderbook symbol) .serving).Wf := by
      refine h.enter (fun _ hgone => h.registered ws _ ⟨.inl greets, hgone⟩) (fun symbol => ?_)
        fun userId hl => ?_
      · exact h.no_client (by simp [greets])
      · exact absurd hl (h.no_user (by simp [greets]))
    refine hnew.listen (fun ws' symbol' hl => ?_) fun _ _ hl => nomatch hl
    obtain ⟨rfl, rfl⟩ := Listener.client.inj hl
    exact Function.update_self ..
  | closeClient ws symbol serves =>
    refine (h.unlisten _).enter (fun hp => by simp at hp) (fun symbol' hl => ?_) fun userId hl => ?_
    · obtain ⟨hl, hne⟩ := List.mem_filter.mp hl
      have hsame := (h.clients ws symbol' hl).symm.trans serves
      simp only [Option.some.injEq, Handler.mk.injEq, Endpoint.orderbook.injEq, and_true] at hsame
      exact absurd hne (by simp [hsame])
    · exact absurd (List.mem_of_mem_filter hl) (h.no_user (by simp [serves]))
  | disconnectPublic ws symbol closes =>
    refine (h.enter (fun hp => by simp at hp) (fun symbol' => ?_) fun userId hl => ?_).disconnect ?_
    · exact h.no_client (by simp [closes])
    · exact absurd hl (h.no_user (by simp [closes]))
    · intro c hc
      rw [Finset.mem_singleton.mp hc]
      exact not_connected_enter (.inr rfl)
  | disconnectPrivate ws userId serves =>
    refine (h.enter (fun hp => by simp at hp) (fun symbol => ?_) fun userId' hl => ?_).disconnect ?_
    · exact h.no_client (by simp [serves])
    · have hsame := h.users ws userId' hl
      simp only [serves, Option.some.injEq, Handler.mk.injEq, Endpoint.privateChannel.injEq, and_true,
        reduceCtorEq, and_false, or_false] at hsame
      exact ⟨by rw [hsame], rfl⟩
    · intro c hc
      rw [Finset.mem_singleton.mp hc]
      exact not_connected_enter (.inl rfl)
  | cancelUser ws userId closes =>
    refine (h.unlisten _).enter (fun hp => by simp at hp) (fun symbol hl => ?_) fun userId' hl => ?_
    · exact absurd (List.mem_of_mem_filter hl) (h.no_client (by simp [closes]))
    · obtain ⟨hl, hne⟩ := List.mem_filter.mp hl
      have hsame := h.users ws userId' hl
      simp only [closes, Option.some.injEq, Handler.mk.injEq, Endpoint.privateChannel.injEq, and_true,
        reduceCtorEq, and_false, false_or] at hsame
      exact absurd hne (by simp [hsame])
  | hangUp ws =>
    exact
      { h with
        registered := fun c e hc => h.registered c e ⟨hc.1, fun hgone => hc.2 (Finset.mem_insert_of_mem hgone)⟩
        broadcasts := fun x hx => ⟨(h.broadcasts x hx).1, (h.broadcasts x hx).2.1,
          (h.broadcasts x hx).2.2.trans (Finset.subset_insert _ _)⟩ }
  | publish channel =>
    refine
      { h with
        inbox := fun x hx => ?_
        broadcasts := fun x hx => ⟨(h.broadcasts x hx).1, (h.broadcasts x hx).2.1.trans (Nat.lt_succ_self _),
          (h.broadcasts x hx).2.2⟩
        sent := fun x hx => (h.sent x hx).trans (Nat.lt_succ_self _) }
    rcases List.mem_append.mp hx with hx | hx
    · exact ⟨(h.inbox x hx).1, (h.inbox x hx).2.trans (Nat.lt_succ_self _)⟩
    -- the new mail has the fresh id and goes to listeners
    · obtain ⟨l, hl, rfl⟩ := List.mem_map.mp hx
      exact ⟨List.mem_of_mem_filter hl, Nat.lt_succ_self _⟩
  | poll ws symbol message inbox taken =>
    obtain ⟨hmem, hrest⟩ := takeMail_mem taken
    have hinbox : Gateway.Wf { g with inbox := inbox } :=
      { h with inbox := fun x hx => h.inbox x (hrest x hx) }
    exact hinbox.sendJson ws (h.inbox _ hmem).2
  | receive l message inbox task taken =>
    obtain ⟨hmem, hrest⟩ := takeMail_mem taken
    exact
      { h with
        inbox := fun x hx => h.inbox x (hrest x hx)
        broadcasts := List.forall_mem_cons.mpr
          ⟨⟨task, (h.inbox _ hmem).2, Finset.empty_subset _⟩, h.broadcasts⟩ }
  | send l ws b broadcasts taken next =>
    obtain ⟨hmem, hrest⟩ := takeMail_mem taken
    obtain ⟨htask, hid, hdead⟩ := h.broadcasts _ hmem
    -- a send that fails adds the socket to the dead, and it is gone
    have hdead' : (b.sentTo ws (ws ∈ g.gone)).dead ⊆ g.gone := by
      unfold Broadcast.sentTo
      dsimp only
      split_ifs with hgone
      · exact Finset.insert_subset (by simpa using hgone) hdead
      · exact hdead
    have hnew : Gateway.Wf { g with broadcasts := (l, b.sentTo ws (ws ∈ g.gone)) :: broadcasts } :=
      { h with
        broadcasts := List.forall_mem_cons.mpr
          ⟨⟨htask, hid, hdead'⟩, fun x hx => h.broadcasts x (hrest x hx)⟩ }
    exact hnew.sendJson ws hid
  | finish l b broadcasts taken through =>
    obtain ⟨hmem, hrest⟩ := takeMail_mem taken
    have hnew : Gateway.Wf { g with broadcasts := broadcasts } :=
      { h with broadcasts := fun x hx => h.broadcasts x (hrest x hx) }
    -- sending fails for those that have hung up
    exact hnew.disconnect fun c hc hconn => hconn.2 ((h.broadcasts _ hmem).2.2 hc)
  | lose l => exact h.unlisten l

theorem after (h : g.Wf) (acts : List Act) : (g.run acts).Wf := by
  have hstep : ∀ (g : Gateway) (a : Act), g.Wf → (g.step a).Wf := fun _ a hg => hg.step a
  exact Run.invariant hstep h acts

end Wf

end Gateway

end SpotExchange.Ws
