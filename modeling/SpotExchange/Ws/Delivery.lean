import SpotExchange.Ws.Wellformed

namespace SpotExchange.Ws

open SpotExchange.Lib
open SpotExchange.Exchange (Symbol UserId)

/-!
# How often a message reaches a socket

* `Gateway.copies` — how often a message has been sent to a socket, and how often it still will be;
* `copies_step` — acts move copies along; a live client loses one only with a subscription that ends;
* `Gateway.Single` — just one subscription reaches the clients of a channel;
* `sent_once_iff` — what a live client has been sent when nothing is on its way;
* `exists_quiet` — from every state, handing on what is there leads to such a state.
-/

/-- The endpoint whose clients a channel is for. -/
def Channel.endpoint : Channel → Endpoint
  | .orderbook symbol => .orderbook symbol
  | .trades symbol => .orderbook symbol
  | .orders userId => .privateChannel userId
  | .balances userId => .privateChannel userId
  | .bulk userId => .privateChannel userId

/-- A message is handed on. -/
def Act.handsOn : Act → Bool
  | .poll _ | .receive _ | .send _ _ | .finish _ => true
  | _ => false

namespace Gateway

/-- **How often a message reaches a socket**: sent, given to a subscription that will send it there, or
    next in a broadcast. -/
def copies (g : Gateway) (c : SocketId) (m : Message) : ℕ :=
  g.sent.count (c, m) + g.inbox.countP (fun x => x.2 = m ∧ c ∈ g.audience x.1) +
    g.broadcasts.countP (fun x => x.2.message = m ∧ c ∈ x.2.conns)

/-- A subscription holds something for a socket. -/
def Owes (g : Gateway) (l : Listener) (c : SocketId) : Prop :=
  (∃ x ∈ g.inbox, x.1 = l ∧ c ∈ g.audience l) ∨ ∃ x ∈ g.broadcasts, x.1 = l ∧ c ∈ x.2.conns

/-- **No subscription ends that holds something for a live client.** -/
def EndsClean (g : Gateway) : Act → Prop
  | .cancelUser ws => ∀ userId c e, g.Connected c e → ¬ g.Owes (.user ws userId) c
  | .lose l => ∀ c e, g.Connected c e → ¬ g.Owes l c
  | _ => True

/-- The subscriptions through which a publication reaches a socket. -/
def subscriptions (g : Gateway) (channel : Channel) (c : SocketId) : ℕ :=
  g.listening.countP fun l => channel ∈ l.channels ∧ c ∈ g.audience l

/-- **A client that a publication is for**: live, and on a public endpoint subscribed. -/
def Hears (g : Gateway) (channel : Channel) (c : SocketId) : Prop :=
  g.Connected c channel.endpoint ∧
    ∀ symbol, channel.endpoint = .orderbook symbol → .client c symbol ∈ g.listening

/-- **Just one subscription** for each client of a channel: for a symbol no task of `start_subscribers`,
    for a user one task of one handler. -/
def Single (g : Gateway) (channel : Channel) : Prop :=
  match channel.endpoint with
  | .orderbook symbol => .shared symbol ∉ g.listening
  | .privateChannel userId =>
      ∃ ws, .user ws userId ∈ g.listening ∧ ∀ ws', .user ws' userId ∈ g.listening → ws' = ws

/-- Nothing is on its way. -/
def Quiet (g : Gateway) : Prop := g.inbox = [] ∧ g.broadcasts = []

instance (g : Gateway) : Decidable g.Quiet := inferInstanceAs (Decidable (_ ∧ _))

variable {g g' : Gateway} {ws c : SocketId} {e : Endpoint} {l : Listener} {m : Message}
  {channel : Channel}

/-! ### Copies -/

theorem copies_congr (hsent : g'.sent = g.sent) (hinbox : g'.inbox = g.inbox)
    (hbroadcasts : g'.broadcasts = g.broadcasts)
    (haudience : ∀ l, c ∈ g'.audience l ↔ c ∈ g.audience l) : g'.copies c m = g.copies c m := by
  unfold copies
  rw [hsent, hinbox, hbroadcasts]
  simp only [haudience]

/-- A registry is written that treats the socket as before. -/
theorem copies_setRegistry {conns : Finset SocketId} (h : c ∈ conns ↔ c ∈ g.registry e) :
    (g.setRegistry e conns).copies c m = g.copies c m := by
  obtain ⟨-, -, -, hinbox, hbroadcasts, hsent, -⟩ := setRegistry_rest (g := g) (e := e) conns
  have hregistry : ∀ e', c ∈ (g.setRegistry e conns).registry e' ↔ c ∈ g.registry e' := by
    intro e'
    rw [registry_setRegistry]
    split_ifs with he
    · rw [he]
      exact h
    · exact Iff.rfl
  refine copies_congr hsent hinbox hbroadcasts fun l => ?_
  cases l with
  | shared symbol => exact hregistry _
  | client ws symbol => exact Iff.rfl
  | user ws userId => exact hregistry _

theorem copies_unlisten (h : ¬ g.Owes l c) : (g.unlisten l).copies c m = g.copies c m := by
  have hinbox : (g.inbox.filter (·.1 ≠ l)).countP (fun x => x.2 = m ∧ c ∈ g.audience x.1) =
      g.inbox.countP (fun x => x.2 = m ∧ c ∈ g.audience x.1) := by
    rw [List.countP_filter]
    refine List.countP_congr fun x hx => ?_
    simp only [Bool.and_eq_true, decide_eq_true_eq, and_iff_left_iff_imp]
    rintro ⟨-, hc⟩ rfl
    exact h (.inl ⟨x, hx, rfl, hc⟩)
  have hbroadcasts : (g.broadcasts.filter (·.1 ≠ l)).countP (fun x => x.2.message = m ∧ c ∈ x.2.conns) =
      g.broadcasts.countP (fun x => x.2.message = m ∧ c ∈ x.2.conns) := by
    rw [List.countP_filter]
    refine List.countP_congr fun x hx => ?_
    simp only [Bool.and_eq_true, decide_eq_true_eq, and_iff_left_iff_imp]
    rintro ⟨-, hc⟩ rfl
    exact h (.inr ⟨x, hx, rfl, hc⟩)
  show g.sent.count (c, m) + (g.inbox.filter _).countP (fun x => x.2 = m ∧ c ∈ g.audience x.1) +
    (g.broadcasts.filter _).countP _ = _
  rw [hinbox, hbroadcasts]
  rfl

/-- A live client gets what is sent to it. -/
theorem copies_sendJson (hgone : c ∉ g.gone) (ws : SocketId) (message : Message) :
    (g.sendJson ws message).copies c m = g.copies c m + if message = m ∧ ws = c then 1 else 0 := by
  have hsent : (g.sendJson ws message).sent.count (c, m) =
      g.sent.count (c, m) + if message = m ∧ ws = c then 1 else 0 := by
    show (if ws ∈ g.gone then g.sent else g.sent ++ [(ws, message)]).count (c, m) = _
    split_ifs with hws hcopy hcopy
    · exact absurd (hcopy.2 ▸ hws) hgone
    · rfl
    · rw [hcopy.1, hcopy.2, List.count_append, List.count_singleton_self]
    · rw [List.count_append, List.count_singleton, if_neg]
      simp only [beq_iff_eq, Prod.mk.injEq, not_and]
      exact fun hw hm => hcopy ⟨hm, hw⟩
  unfold copies
  rw [hsent]
  show _ + _ + g.inbox.countP (fun x => x.2 = m ∧ c ∈ g.audience x.1) + g.broadcasts.countP _ = _
  omega

/-- **A publication**: one copy for each subscription that reaches the socket. -/
theorem copies_publish : (g.step (.publish channel)).copies c m =
    g.copies c m + if (⟨g.nextId, channel⟩ : Message) = m then g.subscriptions channel c else 0 := by
  have hnew : ((g.listening.filter fun l => channel ∈ l.channels).map fun l =>
      (l, (⟨g.nextId, channel⟩ : Message))).countP (fun x => x.2 = m ∧ c ∈ g.audience x.1) =
        if (⟨g.nextId, channel⟩ : Message) = m then g.subscriptions channel c else 0 := by
    rw [List.countP_map, List.countP_filter]
    split_ifs with hm
    · refine List.countP_congr fun l _ => ?_
      simp only [Function.comp_apply, Bool.and_eq_true, decide_eq_true_eq, hm, true_and, and_comm]
    · refine List.countP_eq_zero.mpr fun l _ => ?_
      simp [hm]
  show g.sent.count (c, m) + (g.inbox ++ _).countP (fun x => x.2 = m ∧ c ∈ g.audience x.1) +
    g.broadcasts.countP _ = _
  rw [List.countP_append, hnew]
  unfold copies
  omega

/-- A message that has not been published is nowhere. -/
theorem copies_fresh (h : g.Wf) : g.copies c ⟨g.nextId, channel⟩ = 0 := by
  have hsent : g.sent.count (c, ⟨g.nextId, channel⟩) = 0 :=
    List.count_eq_zero.mpr fun hx => (h.sent _ hx).ne rfl
  have hinbox : g.inbox.countP (fun x => x.2 = (⟨g.nextId, channel⟩ : Message) ∧ c ∈ g.audience x.1) = 0 := by
    refine List.countP_eq_zero.mpr fun x hx => ?_
    simp only [decide_eq_true_eq, not_and]
    intro hm
    exact absurd (congrArg Message.id hm) (h.inbox x hx).2.ne
  have hbroadcasts : g.broadcasts.countP
      (fun x => x.2.message = (⟨g.nextId, channel⟩ : Message) ∧ c ∈ x.2.conns) = 0 := by
    refine List.countP_eq_zero.mpr fun x hx => ?_
    simp only [decide_eq_true_eq, not_and]
    intro hm
    exact absurd (congrArg Message.id hm) (h.broadcasts x hx).2.1.ne
  unfold copies
  rw [hsent, hinbox, hbroadcasts]

/-- **An act moves copies along**, and neither loses nor repeats one for a client that is live throughout. -/
theorem copies_step (h : g.Wf) (a : Act) (hc : g.Connected c e) (hc' : (g.step a).Connected c e)
    (hclean : g.EndsClean a) (hm : m.id < g.nextId) : (g.step a).copies c m = g.copies c m := by
  -- a connected socket is greeting or serving
  have hhandler : ∀ e' p, g.handlers c = some ⟨e', p⟩ → p = .greeting ∨ p = .serving := by
    rintro e' p hp
    rcases hc.1 with hg | hg <;> rw [hg, Option.some_inj, Handler.mk.injEq] at hp
    · exact .inl hp.2.symm
    · exact .inr hp.2.symm
  have hacted := step_acted g a
  generalize g.step a = after at hacted hc' ⊢
  cases hacted with
  | stay | subscribeShared | subscribeUser | greeted | subscribeClient | hangUp => rfl
  | connect ws e' fresh =>
    have hne : c ≠ ws := by
      rintro rfl
      exact hc.1.elim (fun hg => by simp [fresh] at hg) fun hg => by simp [fresh] at hg
    exact (copies_setRegistry (by simp [hne, registry, enter])).trans rfl
  | closeClient ws symbol serves =>
    have hne : c ≠ ws := by
      rintro rfl
      exact not_connected_enter (.inl rfl) hc'
    -- nothing that the handler of another socket holds is for this one
    have howes : ¬ g.Owes (.client ws symbol) c := by
      rintro (⟨x, -, -, hmem⟩ | ⟨x, hx, hl, -⟩)
      · exact hne (Finset.mem_singleton.mp hmem)
      · exact absurd (h.broadcasts x hx).1 (by simp [hl, Listener.isTask])
    exact copies_unlisten howes
  | disconnectPublic ws symbol closes =>
    have hne : c ≠ ws := by
      rintro rfl
      exact absurd (hhandler _ _ closes) (by simp)
    exact (copies_setRegistry (by simp [hne])).trans rfl
  | disconnectPrivate ws userId serves =>
    have hne : c ≠ ws := by
      rintro rfl
      exact not_connected_enter (.inl rfl) ((connected_setRegistry _).mp hc')
    exact (copies_setRegistry (by simp [hne])).trans rfl
  | cancelUser ws userId closes =>
    exact copies_unlisten (hclean userId c e hc)
  | publish channel =>
    rw [copies_publish, if_neg, add_zero]
    rintro rfl
    exact hm.ne rfl
  | poll ws symbol message inbox taken =>
    rw [copies_sendJson]
    swap
    · exact hc.2
    show g.sent.count (c, m) + inbox.countP (fun x => x.2 = m ∧ c ∈ g.audience x.1) +
      g.broadcasts.countP _ + _ = g.sent.count (c, m) + g.inbox.countP _ + g.broadcasts.countP _
    -- the copy leaves the inbox and is written to the socket
    have hcopy : (message = m ∧ c ∈ g.audience (.client ws symbol)) ↔ (message = m ∧ ws = c) := by
      simp [audience, eq_comm]
    rw [takeMail_countP taken]
    simp only [decide_eq_true_eq, hcopy]
    omega
  | receive l message inbox task taken =>
    -- the copy in the inbox becomes one in the snapshot of the audience
    show g.sent.count (c, m) + inbox.countP (fun x => x.2 = m ∧ c ∈ g.audience x.1) +
      List.countP _ (_ :: g.broadcasts) = g.sent.count (c, m) + g.inbox.countP _ + g.broadcasts.countP _
    rw [takeMail_countP taken, List.countP_cons]
    simp only [decide_eq_true_eq]
    omega
  | send l ws b broadcasts taken next =>
    rw [copies_sendJson]
    swap
    · exact hc.2
    show g.sent.count (c, m) + g.inbox.countP (fun x => x.2 = m ∧ c ∈ g.audience x.1) +
      List.countP _ (_ :: broadcasts) + _ = g.sent.count (c, m) + g.inbox.countP _ + g.broadcasts.countP _
    rw [takeMail_countP taken, List.countP_cons]
    simp only [decide_eq_true_eq, Broadcast.sentTo, Finset.mem_erase]
    -- the copy for `ws` leaves the snapshot, and only that one
    by_cases hws : ws = c
    · subst hws
      simp [next, add_assoc]
    · simp [hws, Ne.symm hws]
  | finish l b broadcasts taken through =>
    have hnone : g.broadcasts.countP (fun x => x.2.message = m ∧ c ∈ x.2.conns) =
        broadcasts.countP (fun x => x.2.message = m ∧ c ∈ x.2.conns) := by
      rw [takeMail_countP taken, through]
      simp
    -- a socket that is not gone is not among the dead
    have hdead : c ∉ b.dead := fun hin => hc.2 ((h.broadcasts _ (takeMail_mem taken).1).2.2 hin)
    refine (copies_setRegistry (by simp [hdead])).trans ?_
    unfold copies
    rw [hnone]
    rfl
  | lose l => exact copies_unlisten (hclean c e hc)

theorem nextId_le_step (g : Gateway) (a : Act) : g.nextId ≤ (g.step a).nextId := by
  have hacted := step_acted g a
  generalize g.step a = after at hacted ⊢
  cases hacted with
  | publish channel => exact Nat.le_succ _
  | connect ws e fresh => exact (setRegistry_rest (g := g.enter ws e .greeting) _).2.2.2.2.2.2.ge
  | disconnectPublic ws symbol closes => exact le_rfl
  | disconnectPrivate ws userId serves => exact le_rfl
  | finish l b broadcasts taken through =>
    exact (setRegistry_rest (g := { g with broadcasts := broadcasts }) _).2.2.2.2.2.2.ge
  | _ => exact le_rfl

/-- **A run moves copies along.** -/
theorem copies_run (h : g.Wf) (hc : g.handlers c ≠ none) (hm : m.id < g.nextId) {acts : List Act}
    (hclean : Run.Along step EndsClean g acts) (hend : (g.run acts).Connected c e) :
    (g.run acts).copies c m = g.copies c m := by
  have hback : ∀ acts (g : Gateway), g.handlers c ≠ none → (g.run acts).Connected c e →
      g.Connected c e := by
    intro acts
    induction acts with
    | nil => exact fun g _ hend => hend
    | cons a acts ih =>
      intro g hc hend
      obtain ⟨hc', hconn⟩ := connected_of_step hc a
      exact hconn e (ih _ hc' hend)
  induction acts generalizing g with
  | nil => rfl
  | cons a acts ih =>
    obtain ⟨ha, hrest⟩ := hclean
    obtain ⟨hc', hconn⟩ := connected_of_step hc a
    have hnext := hback acts _ hc' hend
    have hm' : m.id < (g.step a).nextId := hm.trans_le (nextId_le_step g a)
    exact (ih (h.step a) hc' hm' hrest hend).trans (copies_step h a (hconn e hnext) hnext ha hm)

/-! ### Subscriptions -/

theorem mem_channels : channel ∈ l.channels ↔ l.endpoint = channel.endpoint := by
  cases l <;> cases channel <;> simp [Listener.channels, Listener.endpoint, Channel.endpoint, eq_comm]

/-- A list without duplicates has one member of a kind. -/
theorem countP_eq_one_iff {α : Type} {xs : List α} (h : xs.Nodup) (q : α → Bool) :
    xs.countP q = 1 ↔ ∃ a, (a ∈ xs ∧ q a = true) ∧ ∀ b ∈ xs, q b = true → b = a := by
  rw [List.countP_eq_length_filter, List.length_eq_one_iff]
  constructor
  · rintro ⟨a, ha⟩
    have hmem : ∀ b, (b ∈ xs ∧ q b = true) ↔ b = a := by
      intro b
      rw [← List.mem_filter, ha, List.mem_singleton]
    exact ⟨a, (hmem a).mpr rfl, fun b hb hq => (hmem b).mp ⟨hb, hq⟩⟩
  · rintro ⟨a, ha, hunique⟩
    refine ⟨a, List.perm_singleton.mp ?_⟩
    refine (List.perm_ext_iff_of_nodup (h.filter q) (List.nodup_singleton a)).mpr fun b => ?_
    rw [List.mem_filter, List.mem_singleton]
    exact ⟨fun hb => hunique b hb.1 hb.2, fun hb => hb ▸ ha⟩

/-- **What reaches a client**: exactly one subscription, or not. -/
theorem subscriptions_eq_one_iff (h : g.Wf) (hears : g.Hears channel c) :
    g.subscriptions channel c = 1 ↔ g.Single channel := by
  obtain ⟨hconn, hclient⟩ := hears
  have hregistered := h.registered c _ hconn
  unfold subscriptions Single
  rw [countP_eq_one_iff h.nodup]
  simp only [decide_eq_true_eq, mem_channels]
  generalize channel.endpoint = e at hregistered hclient ⊢
  -- an order-book channel is heard through the shared and the own subscription
  cases e with
  | orderbook symbol =>
    have hown := hclient symbol rfl
    have hreach : Listener.endpoint (.client c symbol) = .orderbook symbol ∧
        c ∈ g.audience (.client c symbol) := ⟨rfl, Finset.mem_singleton_self c⟩
    constructor
    · rintro ⟨a, -, hunique⟩ hshared
      -- the client's own subscription is one, the shared one would be another
      have hsame := (hunique _ hown hreach).trans (hunique _ hshared ⟨rfl, hregistered⟩).symm
      exact absurd hsame (by simp)
    · intro hshared
      refine ⟨.client c symbol, ⟨hown, hreach⟩, fun l hl hle => ?_⟩
      cases l with
      | shared symbol' =>
        obtain rfl : symbol' = symbol := Endpoint.orderbook.inj hle.1
        exact absurd hl hshared
      | client ws symbol' =>
        obtain rfl : symbol' = symbol := Endpoint.orderbook.inj hle.1
        rw [Finset.mem_singleton.mp hle.2]
      | user ws userId => exact absurd hle.1 (by simp [Listener.endpoint])
  | privateChannel userId =>
    constructor
    · rintro ⟨l, ⟨hl, hle⟩, hunique⟩
      cases l with
      | shared symbol => exact absurd hle.1 (by simp [Listener.endpoint])
      | client ws symbol => exact absurd hle.1 (by simp [Listener.endpoint])
      | user ws userId' =>
        obtain rfl : userId' = userId := Endpoint.privateChannel.inj hle.1
        exact ⟨ws, hl, fun ws' hl' => (Listener.user.inj (hunique _ hl' ⟨rfl, hregistered⟩)).1⟩
    · rintro ⟨ws, hl, hunique⟩
      refine ⟨.user ws userId, ⟨hl, rfl, hregistered⟩, fun l hl' hle => ?_⟩
      cases l with
      | shared symbol => exact absurd hle.1 (by simp [Listener.endpoint])
      | client ws' symbol => exact absurd hle.1 (by simp [Listener.endpoint])
      | user ws' userId' =>
        obtain rfl : userId' = userId := Endpoint.privateChannel.inj hle.1
        rw [hunique ws' hl']

/-! ### What is sent -/

/-- **How often a client is sent a message.**  In a run in which no subscription ends that still holds
    something for a live client: a message published on a channel, for a client that is still there, is sent
    to it exactly once when nothing is on its way any more, if and only if just one subscription reached the
    clients of the channel; and then it is never sent twice on the way there. -/
theorem sent_once_iff (symbols : List Symbol) {acts : List Act}
    (hclean : Run.Along step EndsClean (start symbols) acts) {before after : List Act}
    (hacts : acts = before ++ .publish channel :: after)
    (hears : ((start symbols).run before).Hears channel c)
    (hlive : ((start symbols).run acts).Connected c channel.endpoint) :
    (((start symbols).run before).Single channel →
      ((start symbols).run acts).sent.count (c, ⟨((start symbols).run before).nextId, channel⟩) ≤ 1) ∧
    (((start symbols).run acts).Quiet →
      (((start symbols).run acts).sent.count (c, ⟨((start symbols).run before).nextId, channel⟩) = 1 ↔
        ((start symbols).run before).Single channel)) := by
  subst hacts
  generalize hg : (start symbols).run before = g at hears ⊢
  have hwf : g.Wf := hg ▸ (wf_start symbols).after before
  have hrun : (start symbols).run (before ++ .publish channel :: after) =
      (g.step (.publish channel)).run after := by
    rw [← hg]
    exact Run.after_append
  rw [hrun] at hlive ⊢
  obtain ⟨-, -, hafter⟩ := Run.Along.append_iff.mp hclean
  change Run.Along step EndsClean (((start symbols).run before).step (.publish channel)) after at hafter
  rw [hg] at hafter
  have hhandler : g.handlers c ≠ none := by
    intro hnone
    exact hears.1.1.elim (fun h => by simp [hnone] at h) fun h => by simp [hnone] at h
  -- from the publication on the number of copies stays what it was
  have hcopies : ((g.step (.publish channel)).run after).copies c ⟨g.nextId, channel⟩ =
      g.subscriptions channel c := by
    have hhandler' : (g.step (.publish channel)).handlers c ≠ none := hhandler
    rw [copies_run (hwf.step _) hhandler' (Nat.lt_succ_self _) hafter hlive, copies_publish, copies_fresh hwf,
      if_pos rfl, zero_add]
  have hone := subscriptions_eq_one_iff hwf hears
  constructor
  · intro hsingle
    rw [hone.mpr hsingle] at hcopies
    unfold copies at hcopies
    omega
  · rintro ⟨hinbox, hbroadcasts⟩
    have hsent : ((g.step (.publish channel)).run after).sent.count (c, ⟨g.nextId, channel⟩) =
        g.subscriptions channel c := by
      rw [← hcopies, copies, hinbox, hbroadcasts, List.countP_nil, List.countP_nil, add_zero, add_zero]
    rw [hsent]
    exact hone

/-! ### One socket, and two paths to it -/

/-- A user opens a socket. -/
def oneSocket : List Act := [.connectPrivate 1 7, .greet 1, .subscribeUser 1]

/-- It is sent an event. -/
def oneSocketRun : List Act :=
  oneSocket ++ .publish (.orders 7) :: [.receive (.user 1 7), .send (.user 1 7) 1, .finish (.user 1 7)]

theorem sent_once_iff_oneSocket :
    ((start ["BTC/USDT"]).run oneSocketRun).sent.count (1, ⟨0, .orders 7⟩) = 1 := by
  have hclean : Run.Along step EndsClean (start ["BTC/USDT"]) oneSocketRun :=
    ⟨trivial, trivial, trivial, trivial, trivial, trivial, trivial, trivial⟩
  have hears : ((start ["BTC/USDT"]).run oneSocket).Hears (.orders 7) 1 :=
    ⟨by decide +kernel, fun symbol h => by simp [Channel.endpoint] at h⟩
  have hlistening : ((start ["BTC/USDT"]).run oneSocket).listening = [.user 1 7] := by decide +kernel
  have hsingle : ((start ["BTC/USDT"]).run oneSocket).Single (.orders 7) := by
    refine ⟨1, ?_, fun ws' h => ?_⟩
    · rw [hlistening]
      exact List.mem_singleton_self _
    · rw [hlistening] at h
      exact (Listener.user.inj (List.mem_singleton.mp h)).1
  exact ((sent_once_iff ["BTC/USDT"] hclean rfl hears (by decide +kernel)).2 (by decide +kernel)).mpr hsingle

/-- A client of an active symbol, and a trade. -/
def publicRun : List Act :=
  [.subscribeShared "BTC/USDT", .connectPublic 1 "BTC/USDT", .subscribeClient 1 true,
    .publish (.trades "BTC/USDT"), .poll 1, .receive (.shared "BTC/USDT"), .send (.shared "BTC/USDT") 1,
    .finish (.shared "BTC/USDT")]

/-- A user with two sockets, and an order event. -/
def twoSocketsRun : List Act :=
  [.connectPrivate 1 7, .greet 1, .subscribeUser 1, .connectPrivate 2 7, .greet 2, .subscribeUser 2,
    .publish (.orders 7),
    .receive (.user 1 7), .send (.user 1 7) 1, .send (.user 1 7) 2, .finish (.user 1 7),
    .receive (.user 2 7), .send (.user 2 7) 1, .send (.user 2 7) 2, .finish (.user 2 7)]

/-- **Two paths to one client**: the trade is sent twice to a client of an active symbol, and the event twice to
    each of the user's two sockets. -/
theorem sentTwice :
    (((start ["BTC/USDT"]).run publicRun).Quiet ∧
      ((start ["BTC/USDT"]).run publicRun).Connected 1 (.orderbook "BTC/USDT") ∧
      ((start ["BTC/USDT"]).run publicRun).sent.count (1, ⟨0, .trades "BTC/USDT"⟩) = 2) ∧
    ((start ["BTC/USDT"]).run twoSocketsRun).Quiet ∧
    ∀ ws ∈ [1, 2], ((start ["BTC/USDT"]).run twoSocketsRun).Connected ws (.privateChannel 7) ∧
      ((start ["BTC/USDT"]).run twoSocketsRun).sent.count (ws, ⟨0, .orders 7⟩) = 2 := by
  decide +kernel

/-! ### Handing on -/

/-- A gateway that has handed something on: the same handlers and clients. -/
def Forwards (g g' : Gateway) : Prop :=
  ∃ acts : List Act, (∀ a ∈ acts, a.handsOn = true) ∧ g' = g.run acts ∧ g'.handlers = g.handlers ∧
    g'.gone = g.gone

theorem Forwards.refl (g : Gateway) : Forwards g g := ⟨[], by simp, rfl, rfl, rfl⟩

theorem Forwards.step {a : Act} (ha : a.handsOn = true) (hhandlers : (g.step a).handlers = g.handlers)
    (hgone : (g.step a).gone = g.gone) (h : Forwards (g.step a) g') : Forwards g g' := by
  obtain ⟨acts, hacts, rfl, hhandlers', hgone'⟩ := h
  exact ⟨a :: acts, List.forall_mem_cons.mpr ⟨ha, hacts⟩, rfl, hhandlers'.trans hhandlers,
    hgone'.trans hgone⟩

theorem Forwards.trans {g'' : Gateway} (h : Forwards g g') (h' : Forwards g' g'') : Forwards g g'' := by
  obtain ⟨acts, hacts, rfl, hhandlers, hgone⟩ := h
  obtain ⟨acts', hacts', rfl, hhandlers', hgone'⟩ := h'
  refine ⟨acts ++ acts', fun a ha => ?_, Run.after_append.symm, hhandlers'.trans hhandlers,
    hgone'.trans hgone⟩
  exact (List.mem_append.mp ha).elim (hacts a) (hacts' a)

/-- What the broadcasts under way still have to do. -/
def toSend (g : Gateway) : ℕ := (g.broadcasts.map fun x => x.2.conns.card + 1).sum

/-- A broadcast goes on, or ends. -/
theorem broadcast_step {b : Broadcast} {rest : List (Listener × Broadcast)}
    (h : g.broadcasts = (l, b) :: rest) :
    ∃ a : Act, a.handsOn = true ∧ (g.step a).handlers = g.handlers ∧ (g.step a).gone = g.gone ∧
      (g.step a).inbox = g.inbox ∧ (g.step a).toSend < g.toSend := by
  have htake : takeMail l g.broadcasts = some (b, rest) := by
    rw [h, takeMail, if_pos rfl]
  have hsize : g.toSend = b.conns.card + 1 + (rest.map fun x => x.2.conns.card + 1).sum := by
    rw [toSend, h, List.map_cons, List.sum_cons]
  -- a broadcast that is through is finished, else its next socket is served
  rcases b.conns.eq_empty_or_nonempty with hempty | ⟨ws, hws⟩
  · have hstep : g.step (.finish l) = { g with broadcasts := rest }.disconnect l.endpoint b.dead := by
      unfold step
      dsimp only
      rw [htake]
      dsimp only
      rw [if_pos hempty]
    obtain ⟨hhandlers, hgone, -, hinbox, hrest, -, -⟩ := setRegistry_rest
      (g := { g with broadcasts := rest }) (e := l.endpoint)
      (registry { g with broadcasts := rest } l.endpoint \ b.dead)
    refine ⟨.finish l, rfl, ?_, ?_, ?_, ?_⟩ <;> rw [hstep]
    · exact hhandlers
    · exact hgone
    · exact hinbox
    · rw [hsize, toSend, disconnect, hrest]
      dsimp only
      omega
  · have hstep : g.step (.send l ws) = { g with
        broadcasts := (l, b.sentTo ws (ws ∈ g.gone)) :: rest }.sendJson ws b.message := by
      unfold step
      dsimp only
      rw [htake]
      dsimp only
      rw [if_pos hws]
    have hcard : (b.sentTo ws (ws ∈ g.gone)).conns.card + 1 = b.conns.card :=
      Finset.card_erase_add_one hws
    refine ⟨.send l ws, rfl, ?_, ?_, ?_, ?_⟩ <;> rw [hstep]
    · rfl
    · rfl
    · rfl
    · show (((l, b.sentTo ws (ws ∈ g.gone)) :: rest).map fun x => x.2.conns.card + 1).sum < _
      rw [hsize, List.map_cons, List.sum_cons]
      dsimp only
      omega

/-- A subscription takes its next message, when no broadcast is under way. -/
theorem inbox_step (h : g.Wf) (hnil : g.broadcasts = []) {rest : List (Listener × Message)}
    (hinbox : g.inbox = (l, m) :: rest) :
    ∃ a : Act, a.handsOn = true ∧ (g.step a).handlers = g.handlers ∧ (g.step a).gone = g.gone ∧
      (g.step a).inbox = rest := by
  have htake : takeMail l g.inbox = some (m, rest) := by
    rw [hinbox, takeMail, if_pos rfl]
  have hl : l ∈ g.listening := (h.inbox (l, m) (hinbox ▸ List.mem_cons_self)).1
  -- a task takes its mail by itself, a client is polled by its handler
  by_cases htask : l.isTask = true
  · have hstep : g.step (.receive l) =
        { g with inbox := rest, broadcasts := (l, ⟨m, g.audience l, ∅⟩) :: g.broadcasts } := by
      unfold step
      dsimp only
      rw [if_pos ⟨htask, by simp [hnil]⟩, htake]
    refine ⟨.receive l, rfl, ?_, ?_, ?_⟩ <;> rw [hstep]
  · cases l with
    | shared symbol => exact absurd rfl htask
    | user ws userId => exact absurd rfl htask
    | client ws symbol =>
      have hstep : g.step (.poll ws) = { g with inbox := rest }.sendJson ws m := by
        unfold step
        dsimp only
        rw [h.clients ws symbol hl]
        dsimp only
        rw [htake]
      refine ⟨.poll ws, rfl, ?_, ?_, ?_⟩ <;> rw [hstep] <;> rfl

/-- The broadcasts under way come to their end. -/
theorem exists_through (g : Gateway) : ∃ g', Forwards g g' ∧ g'.broadcasts = [] ∧ g'.inbox = g.inbox := by
  induction hn : g.toSend using Nat.strong_induction_on generalizing g with
  | _ n ih =>
    cases hbroadcasts : g.broadcasts with
    | nil => exact ⟨g, .refl g, hbroadcasts, rfl⟩
    | cons x rest =>
      obtain ⟨a, ha, hhandlers, hgone, hinbox, hless⟩ := broadcast_step hbroadcasts
      obtain ⟨g', hforward, hnil, hsame⟩ := ih _ (hn ▸ hless) (g.step a) rfl
      exact ⟨g', .step ha hhandlers hgone hforward, hnil, hsame.trans hinbox⟩

/-- **Handing on what is there comes to an end**: with the same handlers and clients, nothing is on its way
    any more. -/
theorem exists_quiet (h : g.Wf) : ∃ g', Forwards g g' ∧ g'.Quiet := by
  induction hn : g.inbox.length generalizing g with
  | zero =>
    obtain ⟨g', hforward, hnil, hsame⟩ := exists_through g
    exact ⟨g', hforward, hsame.trans (List.length_eq_zero_iff.mp hn), hnil⟩
  | succ n ih =>
    obtain ⟨g', hforward, hnil, hsame⟩ := exists_through g
    have h' : g'.Wf := by
      obtain ⟨acts, -, rfl, -, -⟩ := hforward
      exact h.after acts
    cases hinbox : g'.inbox with
    | nil => exact ⟨g', hforward, hinbox, hnil⟩
    | cons x rest =>
      obtain ⟨a, ha, hhandlers, hgone, hrest⟩ := inbox_step h' hnil hinbox
      have hlen : (g'.step a).inbox.length = n := by
        rw [← hsame, hinbox, List.length_cons] at hn
        rw [hrest]
        omega
      obtain ⟨g'', hforward', hquiet⟩ := ih (h'.step a) hlen
      exact ⟨g'', hforward.trans (.step ha hhandlers hgone hforward'), hquiet⟩

end Gateway

end SpotExchange.Ws
