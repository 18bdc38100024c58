import AuthenticationServer.Services.Directory
import AuthenticationServer.System.Service

/-!
# The invariant of the running service

In every reachable state the tables hold a directory whose accounts were registered by
creating calls of the run.

## Main definitions

- `State.Created` - a call of the run has registered an account
- `Invariant` - what holds in every reachable state

## Main results

- `invariant_of_reachable` - the invariant holds in every reachable state
- `wellFormed_of_reachable` - the tables are well-formed in every reachable state
-/

namespace AuthenticationServer

open Java Machine

variable {H Salt : Type}

namespace Client

/-- The call has built an account with the id, which waits for its commit or was returned. -/
def Built (c : Client H) (id : UUID) : Prop :=
  ∃ account : Account H, account.id = id ∧
    (c.stage = .save account ∨
      ∃ caller r, c.invocation = .create caller r ∧
        c.stage = .done (.ok (caller.result account)))

/-- What the stage of a call says about it. -/
structure Valid (L : Libraries H Salt) (c : Client H) : Prop where
  starting : c.stage = .start → c.authentication = none
  pending : ∀ account : Account H, c.stage = .save account →
    ∃ (caller : Caller) (r : Registration) (w : Ambient Salt), c.invocation = .create caller r ∧
      account = r.account L w ∧ (caller = .api → r.violations L = [])
  deleting : ∀ account : AccountRow, c.stage = .delete account →
    ∃ accountId : String, c.userPrincipal = .ok (some ⟨some accountId⟩) ∧
      UUID.fromString accountId = some account.id

theorem valid_call (L : Libraries H Salt) (invocation : Invocation) :
    (call invocation : Client H).Valid L := ⟨fun _ => rfl, by rintro _ ⟨⟩, by rintro _ ⟨⟩⟩

theorem Next.valid {L : Libraries H Salt} {w : Ambient Salt} {s : Store H} {c : Client H}
    {e : Effect H} (h : Next L w s c e) : e.client.Valid L := by
  have hstart := h.frame.2.1
  cases h with
  | prepared invocation _ valid =>
    refine ⟨fun h => absurd h hstart, fun account h => ?_, by rintro _ ⟨⟩⟩
    obtain rfl := Stage.save.inj h
    exact ⟨_, _, w, invocation, rfl, valid⟩
  | found _ _ lookup =>
    refine ⟨fun h => absurd h hstart, by rintro _ ⟨⟩, fun account h => ?_⟩
    obtain rfl := Stage.delete.inj h
    obtain ⟨userPrincipal, hp, ha⟩ := Fallible.bind_eq_ok.mp lookup
    obtain ⟨accountId, rfl, hfind⟩ := getAccountOfSecurityContext_eq_ok ha
    exact ⟨accountId, hp, (findById_eq_some hfind).2⟩
  | _ => exact ⟨fun h => absurd h hstart, by rintro _ ⟨⟩, by rintro _ ⟨⟩⟩

theorem result_inj {caller : Caller} {a b : Account H} (h : caller.result a = caller.result b) :
    a.id = b.id := by
  cases caller with
  | api => exact AccountDTO.mk.inj (Result.accountDTO.inj h)
  | other => rw [Result.account.inj h]

/-- What a call has built after a step it had built before, or it has just drawn the id. -/
theorem Next.built {L : Libraries H Salt} {w : Ambient Salt} {s : Store H} {c : Client H}
    {e : Effect H} (h : Next L w s c e) {id : UUID} (hb : e.client.Built id) :
    c.Built id ∨ id ∈ e.drawnIds := by
  obtain ⟨account, rfl, hs | ⟨caller, r, hi, hs⟩⟩ := hb
  · cases h with
    | prepared =>
      obtain rfl := Stage.save.inj hs
      rw [Registration.account_id]
      exact Or.inr List.mem_cons_self
    | _ => cases hs
  · -- a creation returns only at its commit, and then it was waiting with this account
    have hinv : c.invocation = .create caller r := h.frame.1.symm.trans hi
    cases h with
    | @committed _ _ account' _ invocation stage _ =>
      obtain ⟨rfl, rfl⟩ := Invocation.create.inj (invocation.symm.trans hinv)
      have hid : account'.id = account.id := result_inj (Except.ok.inj (Stage.done.inj hs))
      exact Or.inl ⟨account', hid, Or.inl stage⟩
    | signed invocation => rw [hinv] at invocation; cases invocation
    | removed invocation => rw [hinv] at invocation; cases invocation
    | answered _ invocation => rw [hinv] at invocation; cases invocation
    | _ => cases hs

/-- Only the filter chain changes what a call is admitted with. -/
theorem Next.authentication {L : Libraries H Salt} {w : Ambient Salt} {s : Store H} {c : Client H}
    {e : Effect H} (h : Next L w s c e) :
    e.client.authentication = c.authentication ∨
      ∃ operation cookies a, c.invocation = .request operation cookies ∧
        secured L w.currentTimeMillis .authenticated cookies = .ok a ∧
        e.client.authentication = some a ∧ e.client.presentedAt = some w.currentTimeMillis := by
  cases h with
  | admitted invocation _ secured => exact Or.inr ⟨_, _, _, invocation, secured, rfl, rfl⟩
  | _ => exact Or.inl rfl

/-- A step changes the tables as the commit of a creation or of a deletion, and then the call
has returned. A creation returns in no other way. -/
theorem Next.write_cases {L : Libraries H Salt} {w : Ambient Salt} {s : Store H} {c : Client H}
    {e : Effect H} (h : Next L w s c e) :
    (e.write = none ∧ ∀ caller r result, c.invocation = .create caller r →
      e.client.stage ≠ .done (.ok result)) ∨
    (∃ caller r account rows, c.invocation = .create caller r ∧ c.stage = .save account ∧
      r.commit L s caller account = .ok rows ∧ e.write = some (.insert rows) ∧
      e.client.stage = .done (.ok (caller.result account))) ∨
    (∃ account, c.invocation.isDeletion = true ∧ c.stage = .delete account ∧
      e.write = some (.remove account (s.rowsOf account.id)) ∧
      e.client.stage = .done (.ok .noContent)) := by
  cases h with
  | committed invocation stage commit =>
    exact Or.inr (Or.inl ⟨_, _, _, _, invocation, stage, commit, rfl, rfl⟩)
  | removed invocation stage => exact Or.inr (Or.inr ⟨_, invocation, stage, rfl, rfl⟩)
  | signed invocation =>
    refine Or.inl ⟨rfl, fun _ _ _ hi => ?_⟩
    rw [hi] at invocation
    cases invocation
  | answered _ invocation =>
    refine Or.inl ⟨rfl, fun _ _ _ hi => ?_⟩
    rw [hi] at invocation
    cases invocation
  | _ => exact Or.inl ⟨rfl, by rintro _ _ _ _ ⟨⟩⟩

end Client

namespace State

/-- The call `i` has registered the account `x` of the directory. -/
def Created (L : Libraries H Salt) (s : State H) (x : Registered Salt) (i : ℕ) : Prop :=
  ∃ c caller, s.clients[i]? = some c ∧ c.invocation = .create caller x.registration ∧
    c.stage = .done (.ok (caller.result (x.registration.account L x.ambient))) ∧
    (caller = .api → x.registration.violations L = [])

theorem Created.extends {L : Libraries H Salt} {s t : State H} {x : Registered Salt} {i : ℕ}
    (h : s.Created L x i) (hst : Extends s t) : t.Created L x i := by
  obtain ⟨c, caller, hc, hinv, hstage, hv⟩ := h
  exact ⟨c, caller, hst.done i c hc (by rw [Client.isDone, hstage]), hinv, hstage, hv⟩

theorem Created.built {L : Libraries H Salt} {s : State H} {x : Registered Salt} {i : ℕ}
    (h : s.Created L x i) : ∃ c, s.clients[i]? = some c ∧ c.isDone = true ∧ c.Built x.id := by
  obtain ⟨c, caller, hc, hinv, hstage, _⟩ := h
  exact ⟨c, hc, by rw [Client.isDone, hstage], _, Registration.account_id L x.ambient _,
    Or.inr ⟨caller, _, hinv, hstage⟩⟩

end State

open State

/-- What holds in every reachable state. -/
structure Invariant (L : Libraries H Salt) (s : State H) : Prop where
  valid : ∀ (i : ℕ) (c : Client H), s.clients[i]? = some c → c.Valid L
  used : ∀ (i : ℕ) (c : Client H) (id : UUID), s.clients[i]? = some c → c.Built id → id ∈ s.usedIds
  unique : ∀ (i j : ℕ) (c d : Client H) (id : UUID), s.clients[i]? = some c →
    s.clients[j]? = some d → c.Built id → d.Built id → i = j
  directory : ∃ d : Directory Salt, d.Valid ∧ s.store = d.store L ∧
    ∀ x ∈ d, ∃ i, s.Created L x i

theorem invariant_init (L : Libraries H Salt) : Invariant L init where
  valid := by intro i c hc; cases hc
  used := by intro i c id hc; cases hc
  unique := by intro i j c d id hc; cases hc
  directory := ⟨[], Directory.valid_nil, rfl, by intro x hx; cases hx⟩

theorem not_built_call {invocation : Invocation} {id : UUID} :
    ¬ (Client.call invocation : Client H).Built id := by
  rintro ⟨account, _, h | ⟨_, _, _, h⟩⟩ <;> cases h

theorem Invariant.add {L : Libraries H Salt} {s : State H} (h : Invariant L s)
    (invocation : Invocation) : Invariant L (s.add invocation) where
  valid := by
    intro i c hc
    rcases clients_add hc with hc | ⟨_, rfl⟩
    · exact h.valid i c hc
    · exact Client.valid_call L invocation
  used := by
    intro i c id hc hb
    rcases clients_add hc with hc | ⟨_, rfl⟩
    · exact h.used i c id hc hb
    · exact absurd hb not_built_call
  unique := by
    intro i j c d id hc hd hbc hbd
    rcases clients_add hc with hc | ⟨_, rfl⟩
    · rcases clients_add hd with hd | ⟨_, rfl⟩
      · exact h.unique i j c d id hc hd hbc hbd
      · exact absurd hbd not_built_call
    · exact absurd hbc not_built_call
  directory := by
    obtain ⟨d, hd, hs, hx⟩ := h.directory
    refine ⟨d, hd, hs, fun x hmem => ?_⟩
    obtain ⟨i, hi⟩ := hx x hmem
    exact ⟨i, hi.extends (extends_of_step (L := L) (a := Action.call invocation) rfl)⟩

/-- An account id was returned by one call only, for one registration. -/
theorem Invariant.created_unique {L : Libraries H Salt} {s : State H} (h : Invariant L s)
    {x y : Registered Salt} {i j : ℕ} (hx : s.Created L x i) (hy : s.Created L y j)
    (hid : x.id = y.id) : i = j ∧ x.registration = y.registration := by
  obtain ⟨c, hc, _, hbc⟩ := hx.built
  obtain ⟨d, hd, _, hbd⟩ := hy.built
  obtain rfl := h.unique i j c d y.id hc hd (hid ▸ hbc) hbd
  obtain ⟨c, _, hc, hinv, _⟩ := hx
  obtain ⟨d, _, hd, hinv', _⟩ := hy
  obtain rfl : c = d := Option.some.inj (hc.symm.trans hd)
  exact ⟨rfl, (Invocation.create.inj (hinv.symm.trans hinv')).2⟩

/-- A commit that succeeds inserts the rows of one account, whose id and key are new to the
directory. -/
theorem Invariant.commit {L : Libraries H Salt} {s : State H} (h : Invariant L s) {i : ℕ}
    {c : Client H} (hc : s.clients[i]? = some c) {caller : Caller} {r : Registration}
    {account : Account H} {rows : Store H} (hinv : c.invocation = .create caller r)
    (hstage : c.stage = .save account) (hcommit : r.commit L s.store caller account = .ok rows) :
    ∃ w, account = r.account L w ∧ rows = r.rows L w ∧ (caller = .api → r.violations L = []) ∧
      ¬ s.store.HasKey r.key ∧
      ∀ (d : Directory Salt), (∀ x ∈ d, ∃ j, s.Created L x j) → ∀ x ∈ d, x.id ≠ w.accountId := by
  obtain ⟨caller', r', w, hinv', rfl, hv⟩ := (h.valid i c hc).pending account hstage
  obtain ⟨rfl, rfl⟩ := Invocation.create.inj (hinv.symm.trans hinv')
  obtain ⟨rfl, hkey⟩ := Registration.commit_eq_ok hcommit
  refine ⟨w, rfl, rfl, hv, hkey, fun d hd x hx hid => ?_⟩
  -- a registered account has another builder, whose call has ended
  obtain ⟨j, hj⟩ := hd x hx
  obtain ⟨b, hb, hdone, hbuilt⟩ := hj.built
  have hpending : c.Built x.id := ⟨_, by rw [hid, Registration.account_id], Or.inl hstage⟩
  obtain rfl := h.unique i j c b x.id hc hb hpending hbuilt
  obtain rfl : c = b := Option.some.inj (hc.symm.trans hb)
  rw [Client.isDone, hstage] at hdone
  cases hdone

theorem Invariant.directory_apply {L : Libraries H Salt} {s : State H} (h : Invariant L s)
    {i : ℕ} {w : Ambient Salt} {c : Client H} {e : Effect H} (hc : s.clients[i]? = some c)
    (hn : Client.Next L w s.store c e) (hext : Extends s (s.apply i e)) :
    ∃ d : Directory Salt, d.Valid ∧ (s.apply i e).store = d.store L ∧
      ∀ x ∈ d, ∃ j, (s.apply i e).Created L x j := by
  obtain ⟨d, hd, hs, hx⟩ := h.directory
  have hkeep : ∀ x ∈ d, ∃ j, (s.apply i e).Created L x j := by
    intro x hmem
    obtain ⟨j, hj⟩ := hx x hmem
    exact ⟨j, hj.extends hext⟩
  rcases hn.write_cases with ⟨hw, _⟩ | ⟨caller, r, account, rows, hinv, hstage, hcommit, hw, hend⟩ |
    ⟨account, _, _, hw, _⟩
  · refine ⟨d, hd, ?_, hkeep⟩
    rw [store_apply_none hw]
    exact hs
  · obtain ⟨w', rfl, rfl, hv, hkey, hid⟩ := h.commit hc hinv hstage hcommit
    rw [hs, Directory.hasKey_store] at hkey
    refine ⟨d ++ [⟨r, w'⟩], hd.concat (x := ⟨r, w'⟩) (hid d hx) (fun y hy he => hkey ⟨y, hy, he⟩), ?_, ?_⟩
    · rw [Directory.store_concat, ← hs, store_apply_insert hw]
      rfl
    · intro x hmem
      rcases List.mem_append.mp hmem with hmem | hmem
      · exact hkeep x hmem
      · obtain rfl := List.mem_singleton.mp hmem
        exact ⟨i, e.client, caller, clients_apply_self hc, hn.frame.1.trans hinv, hend, hv⟩
  · refine ⟨List.filter (fun x => !decide (x.id = account.id)) d, hd.filter _, ?_, ?_⟩
    · rw [Directory.store_filter L d fun id => !decide (id = account.id), ← hs,
        store_apply_remove hw]
      rfl
    · intro x hmem
      exact hkeep x (List.mem_filter.mp hmem).1

theorem Invariant.apply {L : Libraries H Salt} {s : State H} (h : Invariant L s) {i : ℕ}
    {w : Ambient Salt} {c : Client H} {e : Effect H} (hc : s.clients[i]? = some c)
    (hn : Client.Next L w s.store c e) (hf : s.Fresh e) (hext : Extends s (s.apply i e)) :
    Invariant L (s.apply i e) where
  valid := by
    intro j d hd
    rcases clients_apply hd with ⟨rfl, rfl⟩ | ⟨_, hd⟩
    · exact hn.valid
    · exact h.valid j d hd
  used := by
    intro j d id hd hb
    rcases clients_apply hd with ⟨rfl, rfl⟩ | ⟨_, hd⟩
    · rcases hn.built hb with hb | hdrawn
      · exact List.mem_append_left _ (h.used j c id hc hb)
      · exact List.mem_append_right _ hdrawn
    · exact List.mem_append_left _ (h.used j d id hd hb)
  unique := by
    -- an id that the step draws is one that no call has built
    have hstep : ∀ (k : ℕ) (b : Client H) (id : UUID), s.clients[k]? = some b → b.Built id →
        e.client.Built id → k = i := by
      intro k b id hb hbuilt hbe
      rcases hn.built hbe with hbc | hdrawn
      · exact h.unique k i b c id hb hc hbuilt hbc
      · exact absurd (h.used k b id hb hbuilt) (hf.2 id hdrawn)
    intro j k a b id ha hb hba hbb
    rcases clients_apply ha with ⟨rfl, rfl⟩ | ⟨_, ha'⟩
    · rcases clients_apply hb with ⟨rfl, rfl⟩ | ⟨_, hb'⟩
      · rfl
      · exact (hstep k b id hb' hbb hba).symm
    · rcases clients_apply hb with ⟨rfl, rfl⟩ | ⟨_, hb'⟩
      · exact hstep j a id ha' hba hbb
      · exact h.unique j k a b id ha' hb' hba hbb
  directory := h.directory_apply hc hn hext

theorem Invariant.step {L : Libraries H Salt} {s s' : State H} {a : Action Salt}
    (h : Invariant L s) (hs : step L s a = some s') : Invariant L s' := by
  have hext := extends_of_step hs
  rcases step_cases hs with ⟨invocation, rfl, rfl⟩ | ⟨i, w, c, e, rfl, hc, hn, hf, rfl⟩
  · exact h.add invocation
  · exact h.apply hc hn hf hext

theorem invariant_of_reachable {L : Libraries H Salt} {s : State H}
    (h : Reachable (step L) init s) : Invariant L s :=
  h.invariant (fun _ _ _ hi hs => hi.step hs) (invariant_init L)

theorem Invariant.wellFormed {L : Libraries H Salt} {s : State H} (h : Invariant L s) :
    s.store.WellFormed := by
  obtain ⟨d, hd, hs, _⟩ := h.directory
  rw [hs]
  exact hd.wellFormed L

theorem wellFormed_of_reachable {L : Libraries H Salt} {s : State H}
    (h : Reachable (step L) init s) : s.store.WellFormed :=
  (invariant_of_reachable h).wellFormed

end AuthenticationServer
