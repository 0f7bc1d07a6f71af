import SpotExchange.Api.Clients

namespace SpotExchange.Api

open SpotExchange.Lib
open SpotExchange.Exchange (UserId)

/-!
# Logins that meet

A login looks for the user's key, and makes one if there is none; it fails if there are two.

* `run_oneKey` — a user who logs in once at a time, and for whom no key is made otherwise, has at most one key
  that is not revoked, so that no login fails on it;
* `run_lockedOut` — of two logins that have both found no key, each makes one, and from then on no login of
  the user's succeeds until a key is revoked.
-/

section

variable {α : Type} {p : α → Bool} {l : List α} {i : ℕ} {a b : α}

theorem countP_of_getElem? (h : l[i]? = some a) :
    l.countP p = (l.eraseIdx i).countP p + if p a then 1 else 0 := by
  obtain ⟨hlt, rfl⟩ := List.getElem?_eq_some_iff.mp h
  have hperm : (l[i] :: l.eraseIdx i).Perm l := List.getElem_cons_eraseIdx_perm hlt
  rw [← hperm.countP_eq p, List.countP_cons]

theorem countP_set_add (h : l[i]? = some a) :
    (l.set i b).countP p + (if p a then 1 else 0) = l.countP p + if p b then 1 else 0 := by
  obtain ⟨hlt, -⟩ := List.getElem?_eq_some_iff.mp h
  have hperm : (l.set i b).Perm (b :: l.eraseIdx i) := List.set_perm_cons_eraseIdx hlt b
  rw [hperm.countP_eq p, List.countP_cons, countP_of_getElem? h]
  omega

end

/-- Logins of a user on their way. -/
def Gate.pendingCount (g : Gate) (userId : UserId) : ℕ :=
  g.logins.countP fun l => l.user.id = userId

/-- A login that has found no key. -/
def PendingLogin.missed (userId : UserId) : PendingLogin → Bool
  | .selected user none => user.id = userId
  | _ => false

/-- Logins of a user that have found no key. -/
def Gate.missedCount (g : Gate) (userId : UserId) : ℕ := g.logins.countP (PendingLogin.missed userId)

section

variable {lib : Crypto} {g g' : Gate} {userId : UserId} {req : AuthRequest} {events : List Event}

theorem missed_imp {l : PendingLogin} (h : l.missed userId = true) : l.user.id = userId := by
  cases l with
  | verified user => exact nomatch h
  | selected user row =>
    cases row with
    | none => exact of_decide_eq_true h
    | some row => exact nomatch h

theorem missedCount_le (g : Gate) (userId : UserId) : g.missedCount userId ≤ g.pendingCount userId :=
  List.countP_mono_left fun _ _ h => decide_eq_true (missed_imp h)

/-- A change of a row that stays the user's and as live as it was. -/
theorem liveKeys_updateKey (g : Gate) (userId : UserId) (id : ℕ) (f : ApiKey → ApiKey)
    (howner : ∀ row, (f row).userId = row.userId) (hlive : ∀ row, (f row).isRevoked = row.isRevoked) :
    ((g.updateKey id f).liveKeys userId).length = (g.liveKeys userId).length := by
  unfold Gate.updateKey Gate.liveKeys
  rw [← List.countP_eq_length_filter, ← List.countP_eq_length_filter, List.countP_map]
  refine List.countP_congr fun row _ => ?_
  show _ ↔ _
  simp only [Function.comp_apply]
  split_ifs
  · rw [howner, hlive]
  · exact Iff.rfl

/-- How many keys of the user's are not revoked. -/
def Gate.liveCount (g : Gate) (userId : UserId) : ℕ := (g.liveKeys userId).length

theorem liveCount_of_eq (h : g'.apiKeys = g.apiKeys) : g'.liveCount userId = g.liveCount userId := by
  unfold Gate.liveCount Gate.liveKeys
  rw [h]

/-- A key is made. -/
theorem liveCount_append (g g' : Gate) (userId : UserId) (row : ApiKey) (h : g'.apiKeys = g.apiKeys ++ [row])
    (hlive : row.isRevoked = false) :
    g'.liveCount userId = g.liveCount userId + if row.userId = userId then 1 else 0 := by
  unfold Gate.liveCount Gate.liveKeys
  rw [h, List.filter_append, List.length_append]
  congr 1
  simp only [List.filter_cons, hlive, Bool.not_false, Bool.and_true, decide_eq_true_eq, List.filter_nil]
  split_ifs <;> rfl

/-- What a key counts after its revocation. -/
theorem liveCount_revoke (g : Gate) (userId : UserId) (id : ℕ) :
    (g.updateKey id fun row => { row with isRevoked := true }).liveCount userId
      = g.apiKeys.countP fun row => (row.userId = userId && !row.isRevoked) && row.id ≠ id := by
  unfold Gate.liveCount Gate.liveKeys Gate.updateKey
  rw [← List.countP_eq_length_filter, List.countP_map]
  refine List.countP_congr fun row _ => ?_
  simp only [Function.comp_apply]
  split_ifs with hid
  · simp [hid]
  · simp [hid]

/-- The user's keys, and those that a login is about to make. -/
def Gate.keysComing (g : Gate) (userId : UserId) : ℕ := g.liveCount userId + g.missedCount userId

theorem keysComing_of_eq (hkeys : g'.apiKeys = g.apiKeys)
    (hlogins : g'.missedCount userId = g.missedCount userId) :
    g'.keysComing userId = g.keysComing userId := by
  unfold Gate.keysComing
  rw [liveCount_of_eq hkeys, hlogins]

/-- **What a request does to the keys that a user is to have.** -/
inductive Coming (lib : Crypto) (userId : UserId) (g : Gate) (req : AuthRequest) (g' : Gate) : Prop
  | same (same : g'.keysComing userId = g.keysComing userId)
  | missed (empty : g.liveCount userId = 0) (empty' : g'.liveCount userId = 0)
      (more : g'.keysComing userId = g.keysComing userId + 1)
  | created (now : ℚ≥0) (authorization label : Option String) (permissions : List String) (limit : ℤ)
      (rawKey : TokenHex 16) (rawSecret : TokenHex 32)
      (served : req = .admin now authorization (.createApiKey userId label permissions limit rawKey rawSecret))
      (more : g.keysComing userId ≤ g'.keysComing userId)
  | collided (i : ℕ) (rawSecret : TokenHex 32) (rawKey : TokenHex 16)
      (served : req = .finishLogin i rawSecret rawKey) (refused : (answer lib req g).1 = .error .internal)
      (less : g'.keysComing userId ≤ g.keysComing userId)
  | revoked (now : ℚ≥0) (authorization : Option String) (row : ApiKey)
      (served : req = .admin now authorization (.revokeApiKey row.id)) (mem : row ∈ g.apiKeys)
      (owner : row.userId = userId) (less : g'.keysComing userId ≤ g.keysComing userId)

/-- A login goes on. -/
theorem missedCount_set {i : ℕ} {l : PendingLogin} (turn : g.logins[i]? = some l) (l' : PendingLogin)
    (userId : UserId) :
    Gate.missedCount { g with logins := g.logins.set i l' } userId + (if l.missed userId then 1 else 0)
      = g.missedCount userId + if l'.missed userId then 1 else 0 :=
  countP_set_add turn

/-- A login ends. -/
theorem missedCount_dropLogin {i : ℕ} {l : PendingLogin} (turn : g.logins[i]? = some l) (userId : UserId) :
    g.missedCount userId = (g.dropLogin i).missedCount userId + if l.missed userId then 1 else 0 :=
  countP_of_getElem? turn

theorem Transition.coming (h : Transition lib g req g' events) (userId : UserId) :
    Coming lib userId g req g' := by
  cases h with
  | kept limits => exact .same rfl
  | refused => exact .same rfl
  | enrolled _ email passwordHash isAdmin new => exact .same rfl
  | toggled _ user isActive => exact .same rfl
  | begun email password user found active right =>
    refine .same (keysComing_of_eq rfl ?_)
    simp [Gate.missedCount, List.countP_append, PendingLogin.missed]
  | missed i user turn empty =>
    have hmissed : Gate.missedCount { g with logins := g.logins.set i (.selected user none) } userId
        = g.missedCount userId + if user.id = userId then 1 else 0 := by
      simpa [PendingLogin.missed] using missedCount_set turn (.selected user none) userId
    by_cases hown : user.id = userId
    · rw [if_pos hown] at hmissed
      rw [hown] at empty
      have hzero : g.liveCount userId = 0 := congrArg List.length empty
      refine .missed hzero hzero ?_
      unfold Gate.keysComing
      rw [hmissed, ← Nat.add_assoc]
      rfl
    · rw [if_neg hown] at hmissed
      exact .same (keysComing_of_eq rfl hmissed)
  | found i user row turn one =>
    have hmissed : Gate.missedCount { g with logins := g.logins.set i (.selected user (some row)) } userId
        = g.missedCount userId := by
      simpa [PendingLogin.missed] using missedCount_set turn (.selected user (some row)) userId
    exact .same (keysComing_of_eq rfl hmissed)
  | failed i user turn many =>
    have hmissed : g.missedCount userId = (g.dropLogin i).missedCount userId := by
      simpa [PendingLogin.missed] using missedCount_dropLogin turn userId
    exact .same (keysComing_of_eq rfl hmissed.symm)
  | issued i rawSecret rawKey user turn new =>
    -- the login counts no longer, but its key does
    refine .same ?_
    have hmissed : g.missedCount userId
        = (g.dropLogin i).missedCount userId + if user.id = userId then 1 else 0 := by
      simpa [PendingLogin.missed] using missedCount_dropLogin turn userId
    have hlive := liveCount_append g { g with
      logins := g.logins.eraseIdx i
      apiKeys := g.apiKeys ++ [⟨g.apiKeyIdSeq, user.id, rawKey.text, lib.hashApiSecret rawSecret.text,
        some "auto-generated at login", allPermissions, 120, false⟩]
      apiKeyIdSeq := g.apiKeyIdSeq + 1 } userId _ rfl rfl
    unfold Gate.keysComing
    rw [hlive, hmissed]
    show g.liveCount userId + (if user.id = userId then 1 else 0) + (g.dropLogin i).missedCount userId = _
    omega
  | collided i rawSecret rawKey user turn refused =>
    have hmissed := missedCount_dropLogin turn userId
    refine .collided i rawSecret rawKey rfl refused ?_
    show g.liveCount userId + (g.dropLogin i).missedCount userId ≤ g.liveCount userId + g.missedCount userId
    omega
  | rotated i rawSecret rawKey user row turn =>
    have hmissed : g.missedCount userId = (g.dropLogin i).missedCount userId := by
      simpa [PendingLogin.missed] using missedCount_dropLogin turn userId
    refine .same ?_
    unfold Gate.keysComing
    rw [hmissed]
    congr 1
    exact liveKeys_updateKey (g.dropLogin i) userId row.id _ (fun _ => rfl) fun _ => rfl
  | created now authorization owner label permissions limit rawKey rawSecret new =>
    have hlive := liveCount_append g { g with
      apiKeys := g.apiKeys ++ [⟨g.apiKeyIdSeq, owner, rawKey.text, lib.hashApiSecret rawSecret.text, label,
        orAll permissions, limit, false⟩]
      apiKeyIdSeq := g.apiKeyIdSeq + 1 } userId _ rfl rfl
    by_cases hown : owner = userId
    · subst hown
      refine .created now authorization label permissions limit rawKey rawSecret rfl ?_
      unfold Gate.keysComing
      rw [hlive]
      exact Nat.add_le_add_right (Nat.le_add_right _ _) _
    · refine .same ?_
      unfold Gate.keysComing
      rw [hlive, if_neg hown]
      rfl
  | revoked now authorization apiKeyId =>
    by_cases hrow : ∃ row ∈ g.apiKeys, row.id = apiKeyId ∧ row.userId = userId
    · obtain ⟨row, hmem, rfl, hown⟩ := hrow
      refine .revoked now authorization row rfl hmem hown (Nat.add_le_add_right ?_ _)
      rw [liveCount_revoke, Gate.liveCount, Gate.liveKeys, ← List.countP_eq_length_filter]
      exact List.countP_mono_left fun row _ h => (Bool.and_eq_true_iff.mp h).1
    · -- the key is another user's
      refine .same (congrArg (· + g.missedCount userId) ?_)
      rw [liveCount_revoke, Gate.liveCount, Gate.liveKeys, ← List.countP_eq_length_filter]
      refine List.countP_congr fun row hmem => ?_
      have hother : row.userId = userId → row.id ≠ apiKeyId := fun hown hid => hrow ⟨row, hmem, hid, hown⟩
      simpa using fun hown _ => hother hown
  | token email password now user found admin => exact .same rfl

/-! ### One login at a time -/

/-- The user logs in only when no other login of the user's is on its way, and is made no key by an admin. -/
structure OneAtATime (userId : UserId) (t : Trail) (req : AuthRequest) : Prop where
  login : ∀ email password user, req = .login email password → t.gate.getByEmail email = some user →
    user.id = userId → t.gate.pendingCount userId = 0
  create : ∀ now authorization label permissions limit rawKey rawSecret,
    req ≠ .admin now authorization (.createApiKey userId label permissions limit rawKey rawSecret)

/-- **At most one key.** -/
structure OneKey (userId : UserId) (t : Trail) : Prop where
  pending : t.gate.pendingCount userId ≤ 1
  coming : t.gate.keysComing userId ≤ 1

/-- A login that begins is the only one. -/
theorem Transition.pendingCount_le (h : Transition lib g req g' events) (hpending : g.pendingCount userId ≤ 1)
    (hlogin : ∀ email password user, req = .login email password → g.getByEmail email = some user →
      user.id = userId → g.pendingCount userId = 0) : g'.pendingCount userId ≤ 1 := by
  have hset : ∀ {i : ℕ} {user : User} (row : Option ApiKey), g.logins[i]? = some (.verified user) →
      Gate.pendingCount { g with logins := g.logins.set i (.selected user row) } userId
        = g.pendingCount userId := by
    intro i user row turn
    have hcount := countP_set_add (p := fun l => l.user.id = userId) (b := PendingLogin.selected user row) turn
    exact Nat.add_right_cancel hcount
  have hdrop : ∀ i, (g.dropLogin i).pendingCount userId ≤ 1 := fun i =>
    ((List.eraseIdx_sublist g.logins i).countP_le).trans hpending
  cases h with
  | kept limits => exact hpending
  | refused => exact hpending
  | enrolled _ email passwordHash isAdmin new => exact hpending
  | toggled _ user isActive => exact hpending
  | begun email password user found active right =>
    show (g.logins ++ [PendingLogin.verified user]).countP (fun l => l.user.id = userId) ≤ 1
    rw [List.countP_append]
    by_cases hown : user.id = userId
    · have hzero : g.logins.countP (fun l => l.user.id = userId) = 0 := hlogin email password user rfl found hown
      rw [hzero, Nat.zero_add]
      exact List.countP_le_length
    · have hother : [PendingLogin.verified user].countP (fun l => l.user.id = userId) = 0 := by
        simp [PendingLogin.user, hown]
      rw [hother]
      exact hpending
  | missed i user turn empty => exact (hset none turn).le.trans hpending
  | found i user row turn one => exact (hset (some row) turn).le.trans hpending
  | failed i user turn many => exact hdrop i
  | issued i rawSecret rawKey user turn new => exact hdrop i
  | collided i rawSecret rawKey user turn refused => exact hdrop i
  | rotated i rawSecret rawKey user row turn => exact hdrop i
  | created now authorization owner label permissions limit rawKey rawSecret new => exact hpending
  | revoked now authorization apiKeyId => exact hpending
  | token email password now user found admin => exact hpending

theorem OneKey.serve {t : Trail} (h : OneKey userId t) (hone : OneAtATime userId t req) :
    OneKey userId (t.serve lib req) := by
  have htransition := transition_answer lib req t.gate
  have hpending : (t.serve lib req).gate.pendingCount userId ≤ 1 :=
    htransition.pendingCount_le h.pending hone.login
  have hle := h.coming
  refine ⟨hpending, ?_⟩
  cases htransition.coming userId with
  | same same => exact same.trans_le hle
  | missed empty empty' more =>
    -- without keys, at most the login that is on its way makes one
    have hmissed := missedCount_le (t.serve lib req).gate userId
    show (answer lib req t.gate).2.liveCount userId + _ ≤ 1
    rw [empty', Nat.zero_add]
    exact hmissed.trans hpending
  | created now authorization label permissions limit rawKey rawSecret served more =>
    exact absurd served (hone.create now authorization label permissions limit rawKey rawSecret)
  | collided i rawSecret rawKey served refused less => exact less.trans hle
  | revoked now authorization row served mem owner less => exact less.trans hle

/-- What the search for a key answers. -/
theorem selectKey_answer {i : ℕ} {user : User} (turn : g.logins[i]? = some (.verified user)) :
    (answer lib (.selectKey i) g).1 = if g.liveCount user.id ≤ 1 then .ok .silent else .error .internal := by
  have hanswer : answer lib (.selectKey i) g = ((fun _ => Reply.silent) <$> selectKey i) g := rfl
  unfold Gate.liveCount
  rw [hanswer]
  cases hkeys : g.liveKeys user.id with
  | nil =>
    have hselect : selectKey i g = (.ok ⟨⟩, { g with logins := g.logins.set i (.selected user none) }) := by
      simp only [selectKey, turn, hkeys]
    rw [map_of_ok hselect]
    rfl
  | cons row rows =>
    cases rows with
    | nil =>
      have hselect : selectKey i g
          = (.ok ⟨⟩, { g with logins := g.logins.set i (.selected user (some row)) }) := by
        simp only [selectKey, turn, hkeys]
      rw [map_of_ok hselect]
      rfl
    | cons row' rows =>
      have hselect : selectKey i g = (.error .internal, g.dropLogin i) := by
        simp only [selectKey, turn, hkeys]
      rw [map_of_error hselect]
      rfl

/-- **A user has one key**, over every run in which the user logs in once at a time and gets no key from an
    admin: whatever others do meanwhile, at most one key of the user's is not revoked, so that the search for
    it never fails. -/
theorem run_oneKey (lib : Crypto) (seed : Seed) (userId : UserId) (reqs : List AuthRequest)
    (hrun : Run.Along (Trail.serve lib) (OneAtATime userId) seed.trail reqs) :
    ((seed.trail.serveAll lib reqs).gate.liveKeys userId).length ≤ 1 ∧
      ∀ i user, (seed.trail.serveAll lib reqs).gate.logins[i]? = some (.verified user) → user.id = userId →
        (answer lib (.selectKey i) (seed.trail.serveAll lib reqs).gate).1 = .ok .silent := by
  have hstart : OneKey userId seed.trail := ⟨Nat.zero_le _, Nat.zero_le _⟩
  have hend : OneKey userId (seed.trail.serveAll lib reqs) :=
    Run.Along.invariant (fun _ _ h hone => h.serve hone) hstart hrun
  have hlive : (seed.trail.serveAll lib reqs).gate.liveCount userId ≤ 1 :=
    (Nat.le_add_right _ _).trans hend.coming
  refine ⟨hlive, fun i user turn hown => ?_⟩
  rw [selectKey_answer turn, hown, if_pos hlive]

/-- Ada logs in. -/
theorem run_oneKey_ada : ((adasSeed.trail.serveAll transparent adasLogin).gate.liveKeys 1).length ≤ 1 :=
  (run_oneKey transparent adasSeed 1 adasLogin
    ⟨⟨fun _ _ _ _ _ _ => by decide, nofun⟩, ⟨nofun, nofun⟩, ⟨nofun, nofun⟩, trivial⟩).1

/-! ### Two keys -/

/-- No login ends in an exception, and no key of the user's is revoked. -/
structure NothingLost (lib : Crypto) (userId : UserId) (t : Trail) (req : AuthRequest) : Prop where
  finish : ∀ i rawSecret rawKey, req = .finishLogin i rawSecret rawKey →
    (answer lib req t.gate).1 ≠ .error .internal
  revoke : ∀ now authorization, ∀ row ∈ t.gate.apiKeys, row.userId = userId →
    req ≠ .admin now authorization (.revokeApiKey row.id)

/-- The keys that a user is to have become no fewer. -/
theorem keysComing_le_serve {t : Trail} (hkeep : NothingLost lib userId t req) :
    t.gate.keysComing userId ≤ (t.serve lib req).gate.keysComing userId := by
  cases (transition_answer lib req t.gate).coming userId with
  | same same => exact same.ge
  | missed empty empty' more => exact (Nat.le_succ _).trans more.ge
  | created now authorization label permissions limit rawKey rawSecret served more => exact more
  | collided i rawSecret rawKey served refused less =>
    exact absurd refused (hkeep.finish i rawSecret rawKey served)
  | revoked now authorization row served mem owner less =>
    exact absurd served (hkeep.revoke now authorization row mem owner)

/-- **A user with two keys is locked out**, over every run: once two logins of the user's have both found no
    key, or there is one key while a login is about to make another, or an admin has made a second one, every
    later login of the user's fails when it looks for the key, as soon as no login of the user's is about to
    make a key any more, and until a key of the user's is revoked. -/
theorem run_lockedOut (lib : Crypto) (seed : Seed) (userId : UserId) (before later : List AuthRequest)
    (htwo : 2 ≤ (seed.trail.serveAll lib before).gate.keysComing userId)
    (hrun : Run.Along (Trail.serve lib) (NothingLost lib userId) (seed.trail.serveAll lib before) later)
    (hdone : ((seed.trail.serveAll lib before).serveAll lib later).gate.missedCount userId = 0)
    (i : ℕ) (user : User)
    (turn : ((seed.trail.serveAll lib before).serveAll lib later).gate.logins[i]? = some (.verified user))
    (hown : user.id = userId) :
    (answer lib (.selectKey i) ((seed.trail.serveAll lib before).serveAll lib later).gate).1
      = .error .internal := by
  have hcoming : 2 ≤ ((seed.trail.serveAll lib before).serveAll lib later).gate.keysComing userId :=
    Run.Along.invariant (I := fun t : Trail => 2 ≤ t.gate.keysComing userId)
      (fun _ _ hle hkeep => hle.trans (keysComing_le_serve hkeep)) htwo hrun
  unfold Gate.keysComing at hcoming
  rw [hdone, Nat.add_zero] at hcoming
  rw [selectKey_answer turn, hown, if_neg (by omega)]

/-- Another key. -/
def adasOtherKey : TokenHex 16 where
  text := String.ofList (List.replicate 32 'c')
  length_text := by rw [String.length_ofList, List.length_replicate]

/-- Two logins that both find no key. -/
def adasRace : List AuthRequest := [.login "ada" "1234", .login "ada" "1234", .selectKey 0, .selectKey 1]

/-- Both end, and another one begins. -/
def adasReturn : List AuthRequest :=
  [.finishLogin 0 adasSecret adasKey, .finishLogin 0 adasSecret adasOtherKey, .login "ada" "1234"]

/-- Ada logs in twice at once, and then once more. -/
theorem run_lockedOut_ada :
    (answer transparent (.selectKey 0)
      ((adasSeed.trail.serveAll transparent adasRace).serveAll transparent adasReturn).gate).1
        = .error .internal := by
  have hfirst : NothingLost transparent 1 (adasSeed.trail.serveAll transparent adasRace)
      (.finishLogin 0 adasSecret adasKey) := ⟨fun _ _ _ _ => by decide +kernel, fun _ _ _ _ _ => nofun⟩
  have hsecond : NothingLost transparent 1 ((adasSeed.trail.serveAll transparent adasRace).serve transparent
      (.finishLogin 0 adasSecret adasKey)) (.finishLogin 0 adasSecret adasOtherKey) :=
    ⟨fun _ _ _ _ => by decide +kernel, fun _ _ _ _ _ => nofun⟩
  exact run_lockedOut transparent adasSeed 1 adasRace adasReturn (by decide +kernel)
    ⟨hfirst, hsecond, ⟨nofun, fun _ _ _ _ _ => nofun⟩, trivial⟩ (by decide +kernel) 0
    ⟨1, "ada", transparent.hashPassword "1234" "", true, false⟩ (by decide +kernel) rfl

end

end SpotExchange.Api
