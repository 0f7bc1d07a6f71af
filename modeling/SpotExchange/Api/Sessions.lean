import SpotExchange.Api.Transitions

namespace SpotExchange.Api

open SpotExchange.Lib
open SpotExchange.Exchange (UserId)

/-!
# Whose requests are let in

* `Tracks` — each key is known by the secret that was told last, and revoked if that was told;
* `run_authenticated` — so a request is let in exactly if it is signed under that secret, in time.
-/

/-! ### What is told of a key -/

namespace Trail

variable {log : List Event} {apiKey : String} {h : Handout} {events : List Event}

theorem mem_handouts : h ∈ handouts log apiKey ↔ .handed h ∈ log ∧ h.apiKey = apiKey := by
  unfold handouts
  rw [List.mem_filterMap]
  constructor
  · rintro ⟨e, he, hmap⟩
    cases e with
    | handed h' =>
      simp only [Option.ite_none_right_eq_some, Option.some.injEq] at hmap
      obtain ⟨hkey, rfl⟩ := hmap
      exact ⟨he, hkey⟩
    | revoked _ => cases hmap
    | token _ _ => cases hmap
  · rintro ⟨he, hkey⟩
    exact ⟨.handed h, he, if_pos hkey⟩

theorem handouts_append : handouts (log ++ events) apiKey = handouts log apiKey ++ handouts events apiKey :=
  List.filterMap_append

/-- What is told last counts. -/
theorem getLast_handouts_handed (log : List Event) (h : Handout) :
    (handouts (log ++ [.handed h]) h.apiKey).getLast? = some h := by
  rw [handouts_append]
  simp [handouts]

/-- Nothing new is told of a key. -/
theorem handouts_append_of_ne (hother : ∀ h, .handed h ∈ events → h.apiKey ≠ apiKey) :
    handouts (log ++ events) apiKey = handouts log apiKey := by
  have hnil : handouts events apiKey = [] := by
    rw [List.eq_nil_iff_forall_not_mem]
    intro h hmem
    rw [mem_handouts] at hmem
    exact hother h hmem.1 hmem.2
  rw [handouts_append, hnil, List.append_nil]

end Trail

/-- The key of which something is told. -/
def Event.key? : Event → Option String
  | .handed h => some h.apiKey
  | .revoked apiKey => some apiKey
  | .token _ _ => none

/-- **A row is as it has been told.** -/
structure TracksRow (lib : Crypto) (log : List Event) (row : ApiKey) : Prop where
  secret : ∃ secret, row.secretHash = lib.hashApiSecret secret ∧
    (Trail.handouts log row.apiKey).getLast? = some ⟨row.apiKey, row.userId, secret, row.permissions⟩
  revoked : row.isRevoked = true ↔ .revoked row.apiKey ∈ log
  named : row.apiKey ≠ ""
  permitted : row.permissions ≠ []

/-- What of a row never changes. -/
def SameKey (row row' : ApiKey) : Prop :=
  row'.id = row.id ∧ row'.userId = row.userId ∧ row'.apiKey = row.apiKey ∧ row'.permissions = row.permissions

/-- **The keys are as they have been told.** -/
structure Tracks (lib : Crypto) (t : Trail) : Prop where
  ids : ∀ row ∈ t.gate.apiKeys, row.id < t.gate.apiKeyIdSeq
  ids_nodup : (t.gate.apiKeys.map ApiKey.id).Nodup
  keys_nodup : (t.gate.apiKeys.map ApiKey.apiKey).Nodup
  rows : ∀ row ∈ t.gate.apiKeys, TracksRow lib t.log row
  told : ∀ e ∈ t.log, ∀ apiKey, e.key? = some apiKey → ∃ row ∈ t.gate.apiKeys, row.apiKey = apiKey
  pending : ∀ user row, .selected user (some row) ∈ t.gate.logins →
    row.userId = user.id ∧ ∃ row' ∈ t.gate.apiKeys, SameKey row row'

section

variable {lib : Crypto} {g g' : Gate} {log : List Event} {row row' : ApiKey} {t : Trail}

theorem getByApiKey_eq_none {apiKey : String} :
    g.getByApiKey apiKey = none ↔ ∀ row ∈ g.apiKeys, row.apiKey ≠ apiKey := by
  simp [Gate.getByApiKey]

/-- At the start there is nothing to track. -/
theorem tracks_seed (lib : Crypto) (seed : Seed) : Tracks lib seed.trail where
  ids := by simp [Seed.trail]
  ids_nodup := by simp [Seed.trail]
  keys_nodup := by simp [Seed.trail]
  rows := by simp [Seed.trail]
  told := by simp [Seed.trail]
  pending := by simp [Seed.trail]

/-- The keys stay, and so does what is told of them. -/
theorem Tracks.of_eq {events : List Event} (h : Tracks lib ⟨g, log⟩) (hkeys : g'.apiKeys = g.apiKeys)
    (hseq : g.apiKeyIdSeq ≤ g'.apiKeyIdSeq)
    (hlogins : ∀ user row, .selected user (some row) ∈ g'.logins →
      .selected user (some row) ∈ g.logins ∨ row.userId = user.id ∧ row ∈ g.apiKeys)
    (hevents : ∀ e ∈ events, e.key? = none) : Tracks lib ⟨g', log ++ events⟩ := by
  have hno : ∀ apiKey : String, .revoked apiKey ∉ events := fun _ he => nomatch hevents _ he
  have hnone : ∀ {apiKey} h, .handed h ∈ events → h.apiKey ≠ apiKey := fun _ he => nomatch hevents _ he
  refine ⟨?_, ?_, ?_, ?_, ?_, ?_⟩
  · intro row hrow
    rw [hkeys] at hrow
    exact (h.ids row hrow).trans_le hseq
  · rw [hkeys]
    exact h.ids_nodup
  · rw [hkeys]
    exact h.keys_nodup
  · intro row hrow
    rw [hkeys] at hrow
    obtain ⟨hsecret, hrevoked, hnamed, hpermitted⟩ := h.rows row hrow
    refine ⟨?_, ?_, hnamed, hpermitted⟩
    · rw [Trail.handouts_append_of_ne hnone]
      exact hsecret
    · rw [List.mem_append, or_iff_left (hno _)]
      exact hrevoked
  · intro e he apiKey hkey
    rw [hkeys]
    rcases List.mem_append.mp he with he | he
    · exact h.told e he apiKey hkey
    · exact nomatch (hevents e he).symm.trans hkey
  · intro user row hrow
    rw [hkeys]
    rcases hlogins user row hrow with hrow | ⟨howner, hmem⟩
    · exact h.pending user row hrow
    · exact ⟨howner, row, hmem, rfl, rfl, rfl, rfl⟩

/-- Other rows are not touched by what is told of a key. -/
theorem TracksRow.append (h : TracksRow lib log row) {events : List Event}
    (hother : ∀ e ∈ events, e.key? ≠ some row.apiKey) : TracksRow lib (log ++ events) row := by
  refine ⟨?_, ?_, h.named, h.permitted⟩
  · have hhandouts : Trail.handouts (log ++ events) row.apiKey = Trail.handouts log row.apiKey :=
      Trail.handouts_append_of_ne fun handout he hkey => hother _ he (congrArg some hkey)
    rw [hhandouts]
    exact h.secret
  · have hno : .revoked row.apiKey ∉ events := fun he => hother _ he rfl
    rw [List.mem_append, or_iff_left hno]
    exact h.revoked

/-- **A key is made**, and told. -/
theorem Tracks.issue {secret : String} (h : Tracks lib ⟨g, log⟩) (row : ApiKey)
    (hkeys : g'.apiKeys = g.apiKeys ++ [row])
    (hseq : g'.apiKeyIdSeq = g.apiKeyIdSeq + 1) (hid : row.id = g.apiKeyIdSeq)
    (hnew : g.getByApiKey row.apiKey = none) (hhash : row.secretHash = lib.hashApiSecret secret)
    (hlive : row.isRevoked = false) (hnamed : row.apiKey ≠ "") (hpermitted : row.permissions ≠ [])
    (hlogins : ∀ l ∈ g'.logins, l ∈ g.logins) :
    Tracks lib ⟨g', log ++ [.handed ⟨row.apiKey, row.userId, secret, row.permissions⟩]⟩ := by
  rw [getByApiKey_eq_none] at hnew
  have hlt : ∀ row' ∈ g.apiKeys, row'.id ≠ row.id := fun row' hrow' => by
    rw [hid]
    exact (h.ids row' hrow').ne
  refine ⟨?_, ?_, ?_, ?_, ?_, ?_⟩
  · intro row' hrow'
    rw [hkeys, List.mem_append, List.mem_singleton] at hrow'
    show row'.id < g'.apiKeyIdSeq
    rcases hrow' with hrow' | rfl
    · have hold : row'.id < g.apiKeyIdSeq := h.ids row' hrow'
      omega
    · omega
  · rw [hkeys, List.map_append, List.map_singleton, List.nodup_append]
    refine ⟨h.ids_nodup, List.nodup_singleton _, ?_⟩
    rintro _ hmem _ hlast rfl
    obtain ⟨row', hrow', hsame⟩ := List.mem_map.mp hmem
    exact hlt row' hrow' (hsame.trans (List.mem_singleton.mp hlast))
  · rw [hkeys, List.map_append, List.map_singleton, List.nodup_append]
    refine ⟨h.keys_nodup, List.nodup_singleton _, ?_⟩
    rintro _ hmem _ hlast rfl
    obtain ⟨row', hrow', hsame⟩ := List.mem_map.mp hmem
    exact hnew row' hrow' (hsame.trans (List.mem_singleton.mp hlast))
  · intro row' hrow'
    rw [hkeys, List.mem_append, List.mem_singleton] at hrow'
    rcases hrow' with hrow' | rfl
    · refine (h.rows row' hrow').append fun e he hkey => ?_
      rw [List.mem_singleton.mp he] at hkey
      exact hnew row' hrow' (Option.some.inj hkey).symm
    · refine ⟨⟨secret, hhash, ?_⟩, ?_, hnamed, hpermitted⟩
      · exact Trail.getLast_handouts_handed log ⟨row'.apiKey, row'.userId, secret, row'.permissions⟩
      · -- nothing was told of the key before
        have hno : .revoked row'.apiKey ∉ log := by
          intro he
          obtain ⟨row, hrow, hsame⟩ := h.told _ he row'.apiKey rfl
          exact hnew row hrow hsame
        simp [hlive, hno]
  · intro e he apiKey hkey
    rw [hkeys]
    rcases List.mem_append.mp he with he | he
    · obtain ⟨row', hrow', hsame⟩ := h.told e he apiKey hkey
      exact ⟨row', List.mem_append_left _ hrow', hsame⟩
    · rw [List.mem_singleton.mp he] at hkey
      exact ⟨row, List.mem_append_right _ (List.mem_singleton.mpr rfl), Option.some.inj hkey⟩
  · intro user row' hrow'
    obtain ⟨howner, row'', hrow'', hsame⟩ := h.pending user row' (hlogins _ hrow')
    rw [hkeys]
    exact ⟨howner, row'', List.mem_append_left _ hrow'', hsame⟩

theorem Tracks.eq_of_id (h : Tracks lib ⟨g, log⟩) (hrow : row ∈ g.apiKeys) (hrow' : row' ∈ g.apiKeys)
    (hid : row.id = row'.id) : row = row' :=
  List.inj_on_of_nodup_map h.ids_nodup hrow hrow' hid

theorem Tracks.eq_of_apiKey (h : Tracks lib ⟨g, log⟩) (hrow : row ∈ g.apiKeys) (hrow' : row' ∈ g.apiKeys)
    (hkey : row.apiKey = row'.apiKey) : row = row' :=
  List.inj_on_of_nodup_map h.keys_nodup hrow hrow' hkey

/-- **A row changes**, and this is told of its key. -/
theorem Tracks.updateKey {id : ℕ} {events : List Event} (h : Tracks lib ⟨g, log⟩) (f : ApiKey → ApiKey)
    (hsame : ∀ row, SameKey row (f row))
    (hevents : ∀ e ∈ events, ∃ row ∈ g.apiKeys, row.id = id ∧ e.key? = some row.apiKey)
    (hrow : ∀ row ∈ g.apiKeys, row.id = id → TracksRow lib (log ++ events) (f row))
    (hkeys : g'.apiKeys = g.apiKeys.map fun row => if row.id = id then f row else row)
    (hseq : g'.apiKeyIdSeq = g.apiKeyIdSeq) (hlogins : ∀ l ∈ g'.logins, l ∈ g.logins) :
    Tracks lib ⟨g', log ++ events⟩ := by
  have hcarry : ∀ row, SameKey row (if row.id = id then f row else row) := by
    intro row
    split_ifs
    · exact hsame row
    · exact ⟨rfl, rfl, rfl, rfl⟩
  have hmem : ∀ row ∈ g.apiKeys, ∃ row' ∈ g'.apiKeys, SameKey row row' := by
    intro row hrow
    rw [hkeys]
    exact ⟨_, List.mem_map_of_mem hrow, hcarry row⟩
  refine ⟨?_, ?_, ?_, ?_, ?_, ?_⟩
  · intro row' hrow'
    rw [hkeys] at hrow'
    obtain ⟨row, hrow, rfl⟩ := List.mem_map.mp hrow'
    rw [(hcarry row).1, hseq]
    exact h.ids row hrow
  · have hmap : g'.apiKeys.map ApiKey.id = g.apiKeys.map ApiKey.id := by
      rw [hkeys, List.map_map]
      exact List.map_congr_left fun row _ => (hcarry row).1
    rw [hmap]
    exact h.ids_nodup
  · have hmap : g'.apiKeys.map ApiKey.apiKey = g.apiKeys.map ApiKey.apiKey := by
      rw [hkeys, List.map_map]
      exact List.map_congr_left fun row _ => (hcarry row).2.2.1
    rw [hmap]
    exact h.keys_nodup
  · intro row' hrow'
    rw [hkeys] at hrow'
    obtain ⟨row, hmem, rfl⟩ := List.mem_map.mp hrow'
    split_ifs with hid
    · exact hrow row hmem hid
    · refine (h.rows row hmem).append fun e he hkey => ?_
      obtain ⟨row', hrow', hid', hkey'⟩ := hevents e he
      have heq := h.eq_of_apiKey hrow' hmem (Option.some.inj (hkey'.symm.trans hkey))
      exact hid (heq ▸ hid')
  · intro e he apiKey hkey
    rcases List.mem_append.mp he with he | he
    · obtain ⟨row, hrow, rfl⟩ := h.told e he apiKey hkey
      obtain ⟨row', hrow', hsame'⟩ := hmem row hrow
      exact ⟨row', hrow', hsame'.2.2.1⟩
    · obtain ⟨row, hrow, -, hkey'⟩ := hevents e he
      obtain ⟨row', hrow', hsame'⟩ := hmem row hrow
      exact ⟨row', hrow', hsame'.2.2.1.trans (Option.some.inj (hkey'.symm.trans hkey))⟩
  · intro user row hpending
    obtain ⟨howner, row', hrow', hsame'⟩ := h.pending user row (hlogins _ hpending)
    obtain ⟨row'', hrow'', hsame''⟩ := hmem row' hrow'
    refine ⟨howner, row'', hrow'', ?_⟩
    exact ⟨hsame''.1.trans hsame'.1, hsame''.2.1.trans hsame'.2.1, hsame''.2.2.1.trans hsame'.2.2.1,
      hsame''.2.2.2.trans hsame'.2.2.2⟩

theorem TokenHex.text_ne {n : ℕ} [NeZero n] (token : TokenHex n) : token.text ≠ "" := by
  intro hempty
  have hlength := token.length_text
  rw [hempty, String.length_empty] at hlength
  have hpos := NeZero.pos n
  omega

theorem allPermissions_ne : allPermissions ≠ [] := List.cons_ne_nil _ _

theorem orAll_ne (permissions : List String) : orAll permissions ≠ [] := by
  unfold orAll
  split_ifs with hempty
  · exact allPermissions_ne
  · exact hempty

theorem orAll_of_ne {permissions : List String} (h : permissions ≠ []) : orAll permissions = permissions :=
  if_neg h

/-- **One request keeps the keys as they are told.** -/
theorem Tracks.serve (h : Tracks lib t) (req : AuthRequest) : Tracks lib (t.serve lib req) := by
  obtain ⟨g, log⟩ := t
  have htransition := transition_answer lib req g
  unfold Trail.serve
  show Tracks lib ⟨(answer lib req g).2, log ++ g.events (answer lib req g).1⟩
  generalize (answer lib req g).2 = g', g.events (answer lib req g).1 = events at htransition ⊢
  have hnone : ∀ e ∈ ([] : List Event), e.key? = none := fun e he => nomatch he
  cases htransition with
  | kept _ limits => exact h.of_eq rfl le_rfl (fun _ _ hl => .inl hl) hnone
  | refused => exact h.of_eq rfl (Nat.le_succ _) (fun _ _ hl => .inl hl) hnone
  | enrolled _ email passwordHash isAdmin new => exact h.of_eq rfl le_rfl (fun _ _ hl => .inl hl) hnone
  | toggled _ userId isActive => exact h.of_eq rfl le_rfl (fun _ _ hl => .inl hl) hnone
  | begun email password user found active right =>
    refine h.of_eq rfl le_rfl (fun user' row hl => ?_) hnone
    rcases List.mem_append.mp hl with hl | hl
    · exact .inl hl
    · exact nomatch List.mem_singleton.mp hl
  | missed i user turn empty =>
    refine h.of_eq rfl le_rfl (fun user' row hl => ?_) hnone
    rcases List.mem_or_eq_of_mem_set hl with hl | hl
    · exact .inl hl
    · exact nomatch hl
  | found i user row turn one =>
    refine h.of_eq rfl le_rfl (fun user' row' hl => ?_) hnone
    rcases List.mem_or_eq_of_mem_set hl with hl | hl
    · exact .inl hl
    · obtain ⟨rfl, hrow⟩ := PendingLogin.selected.inj hl
      obtain rfl := Option.some.inj hrow
      have hmem : row' ∈ g.liveKeys user'.id := by
        rw [one]
        exact List.mem_singleton.mpr rfl
      have hlive := List.mem_filter.mp hmem
      rw [Bool.and_eq_true, decide_eq_true_eq] at hlive
      exact .inr ⟨hlive.2.1, hlive.1⟩
  | failed i user turn many =>
    exact h.of_eq rfl le_rfl (fun _ _ hl => .inl (List.mem_of_mem_eraseIdx hl)) hnone
  | issued i rawSecret rawKey user turn new =>
    exact h.issue ⟨g.apiKeyIdSeq, user.id, rawKey.text, lib.hashApiSecret rawSecret.text,
      some "auto-generated at login", allPermissions, 120, false⟩ rfl rfl rfl new rfl rfl rawKey.text_ne
      allPermissions_ne fun _ hl => List.mem_of_mem_eraseIdx hl
  | collided i rawSecret rawKey user turn refused =>
    exact h.of_eq rfl (Nat.le_succ _) (fun _ _ hl => .inl (List.mem_of_mem_eraseIdx hl)) hnone
  | rotated i rawSecret rawKey user row turn =>
    obtain ⟨howner, row', hrow', hid, huserId, hkey, hpermissions⟩ :=
      h.pending user row (List.mem_of_getElem? turn)
    have hall : orAll row.permissions = row'.permissions := by
      rw [hpermissions.symm]
      exact orAll_of_ne (h.rows row' hrow').permitted
    refine h.updateKey (fun r => { r with secretHash := lib.hashApiSecret rawSecret.text })
      (fun _ => ⟨rfl, rfl, rfl, rfl⟩) (fun e he => ?_) (fun row'' hrow'' hid'' => ?_) rfl rfl
      fun _ hl => List.mem_of_mem_eraseIdx hl
    · refine ⟨row', hrow', hid, ?_⟩
      rw [List.mem_singleton.mp he, hkey]
      rfl
    · obtain rfl := h.eq_of_id hrow'' hrow' (hid''.trans hid.symm)
      have hrow := h.rows row'' hrow''
      refine ⟨⟨rawSecret.text, rfl, ?_⟩, ?_, hrow.named, hrow.permitted⟩
      · rw [hall, ← howner, ← huserId, ← hkey]
        exact Trail.getLast_handouts_handed log ⟨row''.apiKey, row''.userId, rawSecret.text, row''.permissions⟩
      · rw [List.mem_append, List.mem_singleton]
        simpa using hrow.revoked
  | created now authorization userId label permissions limit rawKey rawSecret new =>
    exact h.issue ⟨g.apiKeyIdSeq, userId, rawKey.text, lib.hashApiSecret rawSecret.text, label,
      orAll permissions, limit, false⟩ rfl rfl rfl new rfl rfl rawKey.text_ne (orAll_ne permissions) fun _ hl => hl
  | revoked now authorization apiKeyId =>
    have hmem : ∀ row, row ∈ (g.apiKeys.filter fun r => r.id = apiKeyId) ↔
        row ∈ g.apiKeys ∧ row.id = apiKeyId := by
      intro row
      rw [List.mem_filter, decide_eq_true_eq]
    refine h.updateKey (fun r => { r with isRevoked := true }) (fun _ => ⟨rfl, rfl, rfl, rfl⟩)
      (fun e he => ?_) (fun row hrow hid => ?_) rfl rfl fun _ hl => hl
    · obtain ⟨row, hrow, rfl⟩ := List.mem_map.mp he
      rw [hmem] at hrow
      exact ⟨row, hrow.1, hrow.2, rfl⟩
    · have hold := h.rows row hrow
      refine ⟨?_, ?_, hold.named, hold.permitted⟩
      · rw [Trail.handouts_append_of_ne]
        · exact hold.secret
        · intro handout he
          obtain ⟨row, -, heq⟩ := List.mem_map.mp he
          exact nomatch heq
      · have htold : .revoked row.apiKey ∈ (g.apiKeys.filter fun r => r.id = apiKeyId).map fun r =>
            Event.revoked r.apiKey := List.mem_map.mpr ⟨row, (hmem row).mpr ⟨hrow, hid⟩, rfl⟩
        simp [htold]
  | token email password now user found admin =>
    refine h.of_eq rfl le_rfl (fun _ _ hl => .inl hl) fun e he => ?_
    rw [List.mem_singleton.mp he]
    rfl

/-- All requests keep them so. -/
theorem Tracks.serveAll (h : Tracks lib t) (reqs : List AuthRequest) : Tracks lib (t.serveAll lib reqs) :=
  Run.invariant (fun _ req h => h.serve req) h reqs

/-- What has been told of a key tells what its row is. -/
theorem Tracks.current_cases (h : Tracks lib ⟨g, log⟩) (apiKey : String) :
    (g.getByApiKey apiKey = none ∧ Trail.current log apiKey = none) ∨
    ∃ row ∈ g.apiKeys, g.getByApiKey apiKey = some row ∧ row.apiKey = apiKey ∧
      (row.isRevoked = true ∧ Trail.current log apiKey = none ∨
        row.isRevoked = false ∧ ∃ secret, row.secretHash = lib.hashApiSecret secret ∧
          Trail.current log apiKey = some ⟨apiKey, row.userId, secret, row.permissions⟩) := by
  unfold Trail.current
  cases hfind : g.getByApiKey apiKey with
  | none =>
    refine .inl ⟨rfl, ?_⟩
    rw [getByApiKey_eq_none] at hfind
    have hnil : Trail.handouts log apiKey = [] := by
      rw [List.eq_nil_iff_forall_not_mem]
      intro handout hmem
      obtain ⟨hmem, hkey⟩ := Trail.mem_handouts.mp hmem
      obtain ⟨row, hrow, hsame⟩ := h.told _ hmem apiKey (congrArg some hkey)
      exact hfind row hrow hsame
    rw [hnil, List.getLast?_nil, ite_self]
  | some row =>
    have hmem : row ∈ g.apiKeys := List.mem_of_find?_eq_some hfind
    have hkey : row.apiKey = apiKey := by simpa using List.find?_some hfind
    obtain ⟨⟨secret, hhash, hlast⟩, hrevoked, -, -⟩ := h.rows row hmem
    rw [hkey] at hlast hrevoked
    refine .inr ⟨row, hmem, rfl, hkey, ?_⟩
    cases hstate : row.isRevoked with
    | true => exact .inl ⟨rfl, if_pos (hrevoked.mp hstate)⟩
    | false =>
      have hno : .revoked apiKey ∉ log := fun he => by
        rw [hrevoked.mpr he] at hstate
        exact nomatch hstate
      exact .inr ⟨rfl, secret, hhash, (if_neg hno).trans hlast⟩

/-! ### What is let in -/

/-- **A request is signed** under a secret, in time, by the one who has it. -/
structure SignedBy (lib : Crypto) (req : HttpRequest) (apiKey secret : String) (timestamp : ℤ) (body : String)
    (now : ℚ≥0) : Prop where
  key : req.apiKey = some apiKey
  time : (present req.timestamp).bind pyInt = some timestamp
  text : String.fromUTF8? req.body = some body
  signature : req.signature
    = some (clientSignature lib secret req.method (fullPath req.path req.query) timestamp body)
  fresh : |clock now - timestamp| ≤ hmacReplayWindowSeconds

theorem compareDigest_eq_true {expected provided : String} (hascii : ∀ c ∈ expected.toList, c.toNat < 128) :
    compareDigest expected provided = some true ↔ provided = expected := by
  unfold compareDigest
  split_ifs with hall
  · rw [Option.some.injEq, decide_eq_true_eq]
    exact eq_comm
  · constructor
    · exact fun h => nomatch h
    · rintro rfl
      exact absurd (List.all_eq_true.mpr fun c hc => decide_eq_true (hascii c hc)) hall

theorem verifySignature_eq_true {secret method path body provided : String} {timestamp : ℤ} {now : ℚ≥0} :
    verifySignature lib secret method path timestamp body provided now = some true ↔
      |clock now - timestamp| ≤ hmacReplayWindowSeconds ∧
        provided = computeSignature lib.upperChar lib.hmacHex secret method path timestamp body := by
  unfold verifySignature
  split_ifs with hlate
  · constructor
    · exact fun h => nomatch h
    · exact fun h => absurd h.1 (not_le.mpr hlate)
  · have hascii : ∀ c ∈ (computeSignature lib.upperChar lib.hmacHex secret method path timestamp body).toList,
        c.toNat < 128 := lib.hmacHex_ascii _ _
    rw [compareDigest_eq_true hascii, and_iff_right (not_lt.mp hlate)]

theorem present_eq_some {header : Option String} {text : String} :
    present header = some text ↔ header = some text ∧ text ≠ "" := by
  unfold present
  rw [Option.filter_eq_some_iff, decide_eq_true_eq]

/-- What `identify` lets pass. -/
theorem identify_eq_ok {req : HttpRequest} {now : ℚ≥0} {p : Principal} :
    identify lib req now g = .ok p ↔ ∃ row timestamp body signature,
      present req.apiKey = some p.apiKey ∧ (present req.timestamp).bind pyInt = some timestamp ∧
      present req.signature = some signature ∧ g.getByApiKey p.apiKey = some row ∧ row.isRevoked = false ∧
      String.fromUTF8? req.body = some body ∧
      verifySignature lib row.secretHash req.method (fullPath req.path req.query) timestamp body signature now
        = some true ∧
      p = ⟨p.apiKey, row.userId, row.id, row.rateLimitPerMin, row.permissions⟩ := by
  constructor
  · intro h
    unfold identify at h
    split at h
    · next apiKey text signature hkey htime hsignature =>
      split at h
      · exact nomatch h
      · next timestamp hint =>
        split at h
        · exact nomatch h
        · next row hrow =>
          split at h
          · exact nomatch h
          · next hlive =>
            split at h
            · exact nomatch h
            · next body hbody =>
              split at h
              · exact nomatch h
              · exact nomatch h
              · next hverify =>
                cases h
                refine ⟨row, timestamp, body, signature, hkey, ?_, hsignature, hrow, ?_, hbody, hverify, rfl⟩
                · rw [htime]
                  exact hint
                · simpa using hlive
    · exact nomatch h
  · rintro ⟨row, timestamp, body, signature, hkey, htime, hsignature, hrow, hlive, hbody, hverify, hp⟩
    obtain ⟨text, htext, hint⟩ := Option.bind_eq_some_iff.mp htime
    unfold identify
    simp only [hkey, htext, hsignature, hint, hrow, hlive, hbody, hverify, Bool.false_eq_true, if_false]
    rw [← hp]

/-- **What is let in**, in terms of what has been told. -/
theorem Tracks.identify_iff (h : Tracks lib t) {req : HttpRequest} {now : ℚ≥0} {p : Principal} :
    identify lib req now t.gate = .ok p ↔
      (∃ row ∈ t.gate.apiKeys, row.apiKey = p.apiKey ∧ row.id = p.apiKeyId ∧
        row.rateLimitPerMin = p.rateLimitPerMin) ∧
      ∃ secret timestamp body, Trail.current t.log p.apiKey = some ⟨p.apiKey, p.userId, secret, p.permissions⟩ ∧
        SignedBy lib req p.apiKey secret timestamp body now := by
  obtain ⟨g, log⟩ := t
  rw [identify_eq_ok]
  constructor
  · rintro ⟨row, timestamp, body, signature, hkey, htime, hsignature, hrow, hlive, hbody, hverify, hp⟩
    obtain ⟨hfresh, heq⟩ := verifySignature_eq_true.mp hverify
    rcases h.current_cases p.apiKey with ⟨hnone, -⟩ | ⟨row', hmem, hrow', hname, hstate⟩
    · exact absurd (hrow.symm.trans hnone) (Option.some_ne_none row)
    · obtain rfl := Option.some.inj (hrow.symm.trans hrow')
      rcases hstate with ⟨hdead, -⟩ | ⟨-, secret, hhash, hcurrent⟩
      · exact absurd (hlive.symm.trans hdead) Bool.false_ne_true
      · rw [hp]
        refine ⟨⟨row, hmem, hname, rfl, rfl⟩, secret, timestamp, body, hcurrent, ?_⟩
        refine ⟨(present_eq_some.mp hkey).1, htime, hbody, ?_, hfresh⟩
        rw [(present_eq_some.mp hsignature).1, heq, hhash]
        rfl
  · rintro ⟨⟨row, hmem, hname, hid, hlimit⟩, secret, timestamp, body, hcurrent, hsigned⟩
    rcases h.current_cases p.apiKey with ⟨-, hnone⟩ | ⟨row', hmem', hrow', hname', hstate⟩
    · exact absurd (hcurrent.symm.trans hnone) (Option.some_ne_none _)
    · obtain rfl := h.eq_of_apiKey hmem hmem' (hname.trans hname'.symm)
      rcases hstate with ⟨-, hnone⟩ | ⟨hlive, secret', hhash, hcurrent'⟩
      · exact absurd (hcurrent.symm.trans hnone) (Option.some_ne_none _)
      · obtain ⟨-, huser, hsecret, hpermissions⟩ :=
          Handout.mk.inj (Option.some.inj (hcurrent.symm.trans hcurrent'))
        subst hsecret
        refine ⟨row, timestamp, body, _, present_eq_some.mpr ⟨hsigned.key, ?_⟩, hsigned.time,
          present_eq_some.mpr ⟨hsigned.signature, lib.hmacHex_ne _ _⟩, hrow', hlive, hsigned.text, ?_, ?_⟩
        · rw [← hname]
          exact (h.rows row hmem).named
        · rw [verifySignature_eq_true, hhash]
          exact ⟨hsigned.fresh, rfl⟩
        · rw [← huser, hid, hlimit, ← hpermissions]

/-- What `authenticate_request` lets pass: what `identify` does, within the rate limit. -/
theorem authenticateRequest_eq_ok {req : HttpRequest} {verifiedAt limitedAt : ℚ≥0} {p : Principal} :
    (authenticateRequest lib req verifiedAt limitedAt g).1 = .ok p ↔
      identify lib req verifiedAt g = .ok p ∧
        (checkAndConsume p.rateLimitPerMin.toNat 60 limitedAt (g.limits p.apiKey)).1.result = .allowed := by
  rcases authenticateRequest_cases lib req verifiedAt limitedAt g with
    ⟨e, hid, hx⟩ | ⟨p', hid, ⟨g', hlimit, hx⟩ | ⟨e, g', hlimit, hx⟩⟩
  · rw [hx, hid]
    constructor
    · exact fun h => nomatch h
    · exact fun h => nomatch h.1
  all_goals
    obtain ⟨limits, -, hallowed⟩ := enforceRateLimit_cases p'.apiKey p'.rateLimitPerMin limitedAt g
    rw [hlimit] at hallowed
    rw [hx, hid]
  · constructor
    · intro h
      obtain rfl := Except.ok.inj h
      exact ⟨rfl, hallowed.mp rfl⟩
    · exact fun h => h.1
  · constructor
    · exact fun h => nomatch h
    · rintro ⟨h, hpass⟩
      obtain rfl := Except.ok.inj h
      exact nomatch hallowed.mpr hpass

/-- **Who is let in**, over every run: whatever logins, key creations and revocations have been served, and in
    whatever order their parts, a request passes `authenticate_request` exactly if it is signed in time under
    the secret that was told last for its key, the key has not been revoked, and the rate limit allows it; and
    it passes as the user, and with the permissions, that the key was told with. -/
theorem run_authenticated (lib : Crypto) (seed : Seed) (reqs : List AuthRequest) (req : HttpRequest)
    (verifiedAt limitedAt : ℚ≥0) (p : Principal) :
    (authenticateRequest lib req verifiedAt limitedAt (seed.trail.serveAll lib reqs).gate).1 = .ok p ↔
      (∃ secret timestamp body,
        Trail.current (seed.trail.serveAll lib reqs).log p.apiKey
          = some ⟨p.apiKey, p.userId, secret, p.permissions⟩ ∧
        SignedBy lib req p.apiKey secret timestamp body verifiedAt) ∧
      (∃ row ∈ (seed.trail.serveAll lib reqs).gate.apiKeys, row.apiKey = p.apiKey ∧ row.id = p.apiKeyId ∧
        row.rateLimitPerMin = p.rateLimitPerMin) ∧
      (checkAndConsume p.rateLimitPerMin.toNat 60 limitedAt
        ((seed.trail.serveAll lib reqs).gate.limits p.apiKey)).1.result = .allowed := by
  have htracks := (tracks_seed lib seed).serveAll reqs
  rw [authenticateRequest_eq_ok, htracks.identify_iff]
  constructor
  · rintro ⟨⟨hrow, htold⟩, hallowed⟩
    exact ⟨htold, hrow, hallowed⟩
  · rintro ⟨htold, hrow, hallowed⟩
    exact ⟨⟨hrow, htold⟩, hallowed⟩

end

end SpotExchange.Api
