import AuthenticationServer.System.Failures
import AuthenticationServer.System.Lifecycle
import AuthenticationServer.System.Server

/-!
# What requests change

All changes of the tables, in any run, traced back to the requests that have asked for them.

## Main definitions

- `Client.Wrote` - what a call has written
- `Write.Makes` - which rows are new after a change, and which are gone
- `Request.AsksFor` - the request asks for a change, and may do so

## Main results

- `wrote_of_reachable` - a call writes once, when it returns, and only if it creates or deletes
- `changes_requested` - no change without a request that asks for it
-/

namespace AuthenticationServer

open Java Machine State

variable {H Salt : Type}

/-! ## What calls write -/

/-- The calls that change the tables. -/
def Invocation.changes : Invocation → Bool
  | create .. => true
  | i => i.isDeletion

/-- What a call has written. -/
inductive Client.Wrote (L : Libraries H Salt) (c : Client H) : List (Write H) → Prop
  /-- the call has not returned, or it changes nothing -/
  | nothing (quiet : ∀ result, c.stage = .done (.ok result) → c.invocation.changes = false) :
      Wrote L c []
  | inserted {caller : Caller} {r : Registration} {w : Ambient Salt}
      (invocation : c.invocation = .create caller r) (valid : caller = .api → r.violations L = [])
      (stage : c.stage = .done (.ok (caller.result (r.account L w)))) :
      Wrote L c [.insert (r.rows L w)]
  | removed {account : AccountRow} (rows : Store H) (deleted : c.HasDeleted account.id) :
      Wrote L c [.remove account rows]

theorem Client.Wrote.next {L : Libraries H Salt} {s : State H} (hinv : Invariant L s) {i : ℕ}
    {c : Client H} (hc : s.clients[i]? = some c) {w : Ambient Salt} {e : Effect H}
    (hn : Client.Next L w s.store c e) : e.client.Wrote L e.write.toList := by
  have hunended : ∀ {stage : Stage H}, (∀ result, stage ≠ .done (.ok result)) →
      e.client.stage = stage → e.client.Wrote L [] := fun hne hstage =>
    .nothing fun result hdone => absurd (hstage.symm.trans hdone) (hne result)
  have hinvocation := hn.frame.1
  cases hn with
  | prepared => exact hunended (by rintro _ ⟨⟩) rfl
  | committed invocation stage commit =>
    obtain ⟨w', rfl, rfl, valid, _⟩ := hinv.commit hc invocation stage commit
    exact .inserted (hinvocation.trans invocation) valid rfl
  | matched => exact hunended (by rintro _ ⟨⟩) rfl
  | signed invocation =>
    refine .nothing fun _ _ => ?_
    rw [hinvocation, invocation]
    rfl
  | admitted => exact hunended (by rintro _ ⟨⟩) rfl
  | found => exact hunended (by rintro _ ⟨⟩) rfl
  | removed invocation stage =>
    exact .removed _
      (hasDeleted_of_removed (w := w) hinv hc (.removed invocation stage) invocation stage rfl)
  | notFound => exact hunended (by rintro _ ⟨⟩) rfl
  | failed => exact hunended (by rintro _ ⟨⟩) rfl
  | answered result invocation =>
    refine .nothing fun _ _ => ?_
    have hdeletion := Invocation.isDeletion_eq_false invocation
    rw [hinvocation]
    cases hi : c.invocation with
    | create caller r => rw [hi] at invocation; cases invocation
    | _ => rw [hi] at hdeletion; exact hdeletion

/-- In every reachable state, a call has written nothing, or it has returned and has written its
one change. -/
theorem wrote_of_reachable {L : Libraries H Salt} {s : State H} (h : Reachable (step L) init s)
    {i : ℕ} {c : Client H} (hc : s.clients[i]? = some c) : c.Wrote L (s.writesOf i) := by
  have hall : ∀ (i : ℕ) (c : Client H), s.clients[i]? = some c → c.Wrote L (s.writesOf i) := by
    refine h.invariant_of_reachable
      (I := fun s => ∀ (i : ℕ) (c : Client H), s.clients[i]? = some c → c.Wrote L (s.writesOf i))
      ?_ (fun i c hc => by cases hc)
    intro s a s' hreach ih hs j d hd
    have hledger := ledger_of_reachable hreach
    cases a with
    | call invocation =>
      obtain rfl := Option.some.inj hs
      cases clients_add hd with
      | inl hold => exact ih j d hold
      | inr hnew =>
        obtain ⟨rfl, rfl⟩ := hnew
        have hnone : (s.add invocation).writesOf s.clients.length = [] :=
          writesOf_length hledger.indexed
        rw [hnone]
        exact .nothing (by rintro _ ⟨⟩)
    | advance i w =>
      obtain ⟨c, e, hc, he, _, rfl⟩ := step_advance hs
      have hn := Client.next_cases he
      rw [writesOf_apply]
      cases clients_apply hd with
      | inl hself =>
        obtain ⟨rfl, rfl⟩ := hself
        rw [hledger.silent_of_not_done hc hn.frame.2.2.1, List.nil_append, if_pos rfl]
        exact Client.Wrote.next (invariant_of_reachable hreach) hc hn
      | inr hother =>
        obtain ⟨hne, hold⟩ := hother
        rw [if_neg (Ne.symm hne), List.append_nil]
        exact ih j d hold
  exact hall i c hc

/-- A call that has committed a change has committed this change only. -/
theorem writesOf_eq_singleton {L : Libraries H Salt} {s : State H}
    (h : Reachable (step L) init s) {i : ℕ} {c : Client H} (hc : s.clients[i]? = some c)
    {write : Write H} (hlog : (i, write) ∈ s.log) : s.writesOf i = [write] := by
  have hmem : write ∈ s.writesOf i := by
    rw [State.writesOf, List.mem_map]
    exact ⟨(i, write), List.mem_filter.mpr ⟨hlog, by simp⟩, rfl⟩
  have hwrote := wrote_of_reachable h hc
  generalize s.writesOf i = writes at hmem hwrote
  cases hwrote with
  | nothing => cases hmem
  | _ => rw [List.mem_singleton.mp hmem]

/-! ## What deletions remove -/

/-- A deletion that waits for its commit has found its account in the tables. -/
theorem exists_found {L : Libraries H Salt} {as : List (Action Salt)} {s : State H}
    (h : exec (step L) init as = some s) {i : ℕ} {c : Client H} (hc : s.clients[i]? = some c)
    {account : AccountRow} (stage : c.stage = .delete account) :
    ∃ w t t', Advances L as i w t t' ∧ account ∈ t.store.accounts := by
  obtain ⟨w, t, b, e, hadvances, hb, he, rfl⟩ := exists_advances h hc (by rw [stage]; rintro ⟨⟩)
  cases Client.next_cases he with
  | found _ _ lookup =>
    obtain rfl := Stage.delete.inj stage
    obtain ⟨_, _, ha⟩ := Fallible.bind_eq_ok.mp lookup
    obtain ⟨_, _, hfind⟩ := getAccountOfSecurityContext_eq_ok ha
    exact ⟨w, t, _, hadvances, (findById_eq_some hfind).1⟩
  | _ => cases stage

/-- An account that is gone after a run was removed by a deletion of this run. -/
theorem exists_removal {L : Libraries H Salt} {s t : State H} {as : List (Action Salt)}
    (h : exec (step L) s as = some t) {a : AccountRow} (ha : a ∈ s.store.accounts)
    (hgone : a ∉ t.store.accounts) :
    ∃ (j : ℕ) (account : AccountRow) (rows : Store H), (j, .remove account rows) ∈ t.log ∧
      a ∈ rows.accounts := by
  obtain ⟨_, x, _, u, u', _, _, hs, hrest, hkept, hnow⟩ :=
    exec_exists_step (P := fun s => a ∉ s.store.accounts) h (not_not.mpr ha) hgone
  rw [not_not] at hkept
  rcases step_cases hs with ⟨invocation, rfl, rfl⟩ | ⟨i, w, c, e, rfl, hc, hn, _, rfl⟩
  · exact absurd hkept hnow
  · rcases hn.write_cases with ⟨hw, _⟩ | ⟨_, _, _, rows, _, _, _, hw, _⟩ |
      ⟨account, _, _, hw, _⟩
    · rw [store_apply_none hw] at hnow
      exact absurd hkept hnow
    · rw [store_apply_insert hw] at hnow
      exact absurd (List.mem_append_left _ hkept) hnow
    · rw [store_apply_remove hw] at hnow
      have hid : a.id = account.id := by
        by_contra hne
        exact hnow (List.mem_filter.mpr ⟨hkept, by simpa using hne⟩)
      refine ⟨i, account, u.store.rowsOf account.id,
        (log_prefix_of_exec hrest).subset (List.mem_append_right _ ?_),
        List.mem_filter.mpr ⟨hkept, decide_eq_true hid⟩⟩
      rw [hw]
      exact List.mem_singleton.mpr rfl

/-- A deletion removes the rows of an account that is stored, or it removes nothing, since another
deletion has removed this account after it was looked up. -/
theorem removed_or_stale {L : Libraries H Salt} {as : List (Action Salt)} {s : State H}
    (h : exec (step L) init as = some s) {i : ℕ} {c : Client H} (hc : s.clients[i]? = some c)
    {account : AccountRow} (stage : c.stage = .delete account) :
    account ∈ s.store.accounts ∨
      s.store.Lacks account.id ∧ ∃ (j : ℕ) (other : AccountRow) (rows : Store H),
        (j, .remove other rows) ∈ s.log ∧ account ∈ rows.accounts := by
  obtain ⟨w, t, t', hadvances, hfound⟩ := exists_found h hc stage
  obtain ⟨bs, hbs⟩ := hadvances.rest h
  have hinv := invariant_of_reachable hadvances.reachable
  cases keptOrDeleted_of_exec hinv (hinv.spent hfound) hbs with
  | inl hkept =>
    have hrow : account ∈ (s.store.rowsOf account.id).accounts := by
      rw [hkept]
      exact List.mem_filter.mpr ⟨hfound, decide_eq_true rfl⟩
    exact Or.inl (List.mem_filter.mp hrow).1
  | inr hdeleted =>
    exact Or.inr ⟨hdeleted.1,
      exists_removal hbs hfound fun hmem => hdeleted.1.accounts account hmem rfl⟩

/-! ## Every change was asked for -/

/-- The same rows in each table. -/
def Store.Perm (s t : Store H) : Prop :=
  s.accounts.Perm t.accounts ∧ s.credentialPasswords.Perm t.credentialPasswords ∧
    s.credentialIOSDevices.Perm t.credentialIOSDevices

/-- The change makes the tables `t` of the tables `s`: its rows are new, or they are gone, and all
other rows stay. -/
def Write.Makes (s t : Store H) : Write H → Prop
  | insert rows => (s ++ rows).Perm t
  | remove _ rows => (t ++ rows).Perm s

/-- The request deletes the account that the token in its only token cookie names; the token is
accepted at the time it is presented at. -/
def Request.Deletes (L : Libraries H Salt) (request : Request) (presentedAt : Option ℤ)
    (id : UUID) : Prop :=
  request.method = "DELETE" ∧ dispatch request.method request.path = some .deleteAccount ∧
    ∃ now jws subject, presentedAt = some now ∧ AcceptsOnlyCookie L now request.cookies jws ∧
      jws.subject = some subject ∧ UUID.fromString subject = some id

/-- The request, whose cookies were checked at `presentedAt`, asks for a change at the time `now`,
and what the change does to the tables that the changes `before` have made. -/
inductive Request.AsksFor (L : Libraries H Salt) (request : Request) (presentedAt : Option ℤ)
    (now : RequestTime) (before : List (ℕ × Write H)) : Write H → Prop
  /-- the rows of a valid registration, whose key is free, are inserted with this time -/
  | registration {op : Operation} {r : Registration} {w : Ambient Salt}
      (method : request.method = "POST")
      (operation : dispatch request.method request.path = some op)
      (form : request.Calls op (.create .api r)) (valid : r.violations L = [])
      (times : ∀ d ∈ (r.rows L w).times, Date.ofInstant now.instant = some d)
      (free : ¬ (replay before).HasKey r.key) :
      AsksFor L request presentedAt now before (.insert (r.rows L w))
  /-- all rows of the account are removed -/
  | deletion {account : AccountRow} (deletes : request.Deletes L presentedAt account.id)
      (stored : account ∈ (replay before).accounts) :
      AsksFor L request presentedAt now before
        (.remove account ((replay before).rowsOf account.id))
  /-- another deletion has removed the account before, so that there is nothing to remove -/
  | staleDeletion {account : AccountRow} (deletes : request.Deletes L presentedAt account.id)
      (lacks : (replay before).Lacks account.id)
      (removed : ∃ (j : ℕ) (other : AccountRow) (rows : Store H),
        (j, .remove other rows) ∈ before ∧ account ∈ rows.accounts) :
      AsksFor L request presentedAt now before (.remove account Store.empty)

theorem Store.perm_without_append (s : Store H) (id : UUID) :
    (s.without id ++ s.rowsOf id).Perm s :=
  ⟨List.perm_append_comm.trans (List.filter_append_perm _ _),
    List.perm_append_comm.trans (List.filter_append_perm _ _),
    List.perm_append_comm.trans (List.filter_append_perm _ _)⟩

/-- A requested change inserts or removes the rows that it says. -/
theorem Request.AsksFor.makes {L : Libraries H Salt} {request : Request} {presentedAt : Option ℤ}
    {now : RequestTime} {before : List (ℕ × Write H)} {write : Write H}
    (h : request.AsksFor L presentedAt now before write) :
    write.Makes (replay before) (write.apply (replay before)) := by
  cases h with
  | registration => exact ⟨.refl _, .refl _, .refl _⟩
  | @deletion account => exact (replay before).perm_without_append account.id
  | @staleDeletion account _ lacks =>
    have hperm := (replay before).perm_without_append account.id
    rw [rowsOf_of_lacks lacks] at hperm
    exact hperm

theorem userPrincipal_of_token {c : Client H} {operation : AccountOperation}
    {cookies : Option (List Cookie)} {jws : Claims}
    (invocation : c.invocation = .request operation cookies)
    (hauth : c.authentication = some (.createJWTSpringAuthenticationToken jws)) :
    c.userPrincipal = (Authentication.createJWTSpringAuthenticationToken jws).userPrincipal := by
  rw [Client.userPrincipal, invocation, Client.context, hauth]
  rfl

/-- An operation on accounts is called with the token of the only token cookie of its request. -/
theorem Made.token {C : Container} {L : Libraries H Salt} {service : State H} {x : Exchange H}
    {i : ℕ} {c : Client H} (h : Made C L service x i c) {operation : AccountOperation}
    {cookies : Option (List Cookie)} (invocation : c.invocation = .request operation cookies) :
    ∃ now jws, c.presentedAt = some now ∧ AcceptsOnlyCookie L now x.request.cookies jws ∧
      c.authentication = some (.createJWTSpringAuthenticationToken jws) := by
  obtain ⟨now, a, hchain, hentered⟩ := h.admitted
  obtain ⟨op, hdispatch, hcalls⟩ := C.calls_of_target h.target
  have hop : op.isProtected = true := by
    rw [invocation] at hcalls
    cases hcalls <;> rfl
  have hsecured := (C.filterChain_eq_ok hchain).2
  rw [accessRule_protected C.decode_of_notMem hdispatch hop] at hsecured
  obtain ⟨jws, htoken, _, rfl⟩ := (secured_iff L now x.request.cookies a).mp hsecured
  obtain ⟨_, hpresented, hauth⟩ := hentered operation cookies invocation
  exact ⟨now, jws, hpresented, htoken, hauth⟩

/-- A request whose call inserts rows has posted their registration. -/
theorem Made.registers {C : Container} {L : Libraries H Salt} {service : State H} {x : Exchange H}
    {i : ℕ} {c : Client H} (h : Made C L service x i c) {caller : Caller} {r : Registration}
    (invocation : c.invocation = .create caller r) :
    ∃ op, dispatch x.request.method x.request.path = some op ∧ op.httpMethod = "POST" ∧
      x.request.Calls op (.create .api r) ∧ caller = .api := by
  obtain ⟨op, hdispatch, hcalls⟩ := C.calls_of_target h.target
  rw [invocation] at hcalls
  have hop : op.httpMethod = "POST" ∧ caller = .api := by
    cases hcalls <;> exact ⟨rfl, rfl⟩
  obtain ⟨hpost, rfl⟩ := hop
  exact ⟨op, hdispatch, hpost, hcalls, rfl⟩

/-- A request whose call deletes an account names it with its token. -/
theorem Made.deletes {C : Container} {L : Libraries H Salt} {service : State H} {x : Exchange H}
    {i : ℕ} {c : Client H} (h : Made C L service x i c) {id : UUID}
    (deletion : c.invocation.isDeletion = true) (actsFor : c.ActsFor id) :
    x.request.Deletes L c.presentedAt id := by
  obtain ⟨accountId, hprincipal, hid⟩ := actsFor
  obtain ⟨op, hdispatch, hcalls⟩ := C.calls_of_target h.target
  have hop : op = .deleteAccount ∧
      c.invocation = .request .deleteAccount x.request.cookies := by
    generalize c.invocation = invocation at hcalls deletion
    cases hcalls with
    | deleteAccount => exact ⟨rfl, rfl⟩
    | _ => cases deletion
  obtain ⟨rfl, invocation⟩ := hop
  obtain ⟨now, jws, hpresented, htoken, hauth⟩ := h.token invocation
  rw [userPrincipal_of_token invocation hauth] at hprincipal
  obtain ⟨subject, hsubject, hname⟩ := Authentication.userPrincipal_eq_ok.mp hprincipal
  obtain rfl : accountId = subject := by simpa using hname
  exact ⟨httpMethod_of_dispatch hdispatch (by decide), hdispatch, now, jws, accountId, hpresented,
    htoken, hsubject, hid⟩

/-- A change that a call has committed was asked for by its request. -/
theorem Made.asksFor {C : Container} {L : Libraries H Salt} {service : State H} {x : Exchange H}
    {i : ℕ} {c : Client H} (h : Made C L service x i c) (hreach : Reachable (step L) init service)
    {n : ℕ} {write : Write H} (hn : service.log[n]? = some (i, write)) :
    ∃ now op, getCurrentTime x.attributes = some now ∧
      dispatch x.request.method x.request.path = some op ∧ op.httpMethod ≠ "GET" ∧
      x.request.AsksFor L c.presentedAt now (service.log.take n) write := by
  obtain ⟨now, hnow, htimed⟩ := h.timed
  obtain ⟨as, has⟩ := hreach
  obtain ⟨w, t, b, e, hadvances, hb, he, hwrite, hlog⟩ := exists_commit has hn
  have hstore := (ledger_of_reachable hadvances.reachable).replayed
  rw [hlog] at hstore
  have hinv := invariant_of_reachable hadvances.reachable
  have hn' := Client.next_cases he
  -- the call keeps what it was called and admitted with
  obtain ⟨bs, hbs⟩ := hadvances.rest has
  obtain ⟨d, hd, hinvocation, hkeep⟩ := (extends_of_exec hbs).calls i b hb
  obtain rfl := Option.some.inj (h.client.symm.trans hd)
  rcases hn'.write_cases with ⟨hw, _⟩ | ⟨caller, r, account, rows, hcreate, hstage, hcommit, hw, _⟩ |
    ⟨account, hdeletion, hstage, hw, _⟩
  · rw [hwrite] at hw
    cases hw
  · obtain rfl := Option.some.inj (hwrite.symm.trans hw)
    obtain ⟨w', rfl, rfl, valid, hfree, _⟩ := hinv.commit hb hcreate hstage hcommit
    obtain ⟨op, hdispatch, hpost, hcalls, rfl⟩ := h.registers (hinvocation.trans hcreate)
    have hget : op.httpMethod ≠ "GET" := by
      rw [hpost]
      decide
    have hmem : .insert (r.rows L w') ∈ service.writesOf i := by
      rw [State.writesOf, List.mem_map]
      exact ⟨_, List.mem_filter.mpr ⟨List.mem_of_getElem? hn, by simp⟩, rfl⟩
    exact ⟨now, op, hnow, hdispatch, hget,
      .registration ((httpMethod_of_dispatch hdispatch hget).trans hpost) hdispatch hcalls
        (valid rfl) (htimed.inserted _ hmem) (hstore ▸ hfree)⟩
  · obtain rfl := Option.some.inj (hwrite.symm.trans hw)
    have hauth := (hkeep (by rw [hstage]; rintro ⟨⟩)).2
    obtain ⟨accountId, hprincipal, hid⟩ := (hinv.valid i b hb).deleting account hstage
    have hsame : c.userPrincipal = b.userPrincipal := by
      rw [Client.userPrincipal, Client.userPrincipal, hinvocation, Client.context, hauth]
      rfl
    have hdeletes := h.deletes (hinvocation ▸ hdeletion) ⟨accountId, hsame.trans hprincipal, hid⟩
    refine ⟨now, .deleteAccount, hnow, hdeletes.2.1, by decide, ?_⟩
    obtain ⟨before, after, rfl, hbefore, _⟩ := hadvances
    have hremoved := removed_or_stale hbefore hb hstage
    rw [hstore, hlog] at hremoved
    rw [hstore]
    cases hremoved with
    | inl hstored => exact .deletion hdeletes hstored
    | inr hstale =>
      rw [rowsOf_of_lacks hstale.1]
      exact .staleDeletion hdeletes hstale.1 hstale.2

/-- In every reachable state of the server, the tables are what the committed changes have made of
the empty tables, and each change is the only one of one request that has asked for it. The
request repeats its CSRF cookie. It posts a valid registration, whose key was free among the
changes before, and the rows of this registration were inserted, with the time at which the
request came to the service; or it deletes with one accepted token, and all rows of the account
that this token names were removed. Only if another deletion had removed this account before was
nothing removed. No other row was touched by the change. -/
theorem changes_requested {C : Container} (hcsrf : C.ChecksCsrfToken) {L : Libraries H Salt}
    {s : Server H} (h : Reachable (Server.step C L) Server.init s) :
    s.service.store = replay s.service.log ∧
    ∀ (n i : ℕ) (write : Write H), s.service.log[n]? = some (i, write) →
      ∃ (k : ℕ) (x : Exchange H) (c : Client H) (now : RequestTime), s.exchanges[k]? = some x ∧
        x.progress = .calling i ∧ s.service.clients[i]? = some c ∧
        getCurrentTime x.attributes = some now ∧ x.request.RepeatsCsrfCookie ∧
        x.request.AsksFor L c.presentedAt now (s.service.log.take n) write ∧
        write.Makes (replay (s.service.log.take n)) (replay (s.service.log.take (n + 1))) ∧
        s.service.writesOf i = [write] ∧
        ∀ (l : ℕ) (y : Exchange H), s.exchanges[l]? = some y → y.progress = .calling i → l = k := by
  have hlinked := linked_of_reachable h
  have hservice := service_of_reachable h
  have hledger := ledger_of_reachable hservice
  refine ⟨hledger.replayed, fun n i write hn => ?_⟩
  have hlog := List.mem_of_getElem? hn
  obtain ⟨k, x, hx, hi⟩ := hlinked.owner (hledger.indexed _ hlog)
  obtain ⟨c, hmade⟩ := hlinked.made k x i hx hi
  obtain ⟨now, op, hnow, hdispatch, hget, hasks⟩ := hmade.asksFor hservice hn
  obtain ⟨_, _, hchain, _⟩ := hmade.admitted
  exact ⟨k, x, c, now, hx, hi, hmade.client, hnow,
    C.repeatsCsrfCookie hcsrf hchain hdispatch hget, hasks, replay_take_succ hn ▸ hasks.makes,
    writesOf_eq_singleton hservice hmade.client hlog,
    fun l y hy hyi => hlinked.unique hy hx hyi hi⟩

theorem Symbolic.checksCsrfToken : Symbolic.container.ChecksCsrfToken := by
  intro request h hmethod _
  by_contra hrepeats
  simp only [Symbolic.container, hmethod, hrepeats, decide_false, Bool.or_false,
    Bool.false_eq_true, if_false] at h
  cases h

theorem changes_requested_serverRun :
    ∃ s, exec (Server.step Symbolic.container Symbolic.libraries) Server.init serverRun = some s ∧
      ∃ (i : ℕ) (write : Write (ℕ × String)), s.service.log[1]? = some (i, write) ∧
        ∃ (k : ℕ) (x : Exchange (ℕ × String)) (c : Client (ℕ × String)) (now : RequestTime),
          s.exchanges[k]? = some x ∧ x.progress = .calling i ∧ x.request.RepeatsCsrfCookie ∧
          x.request.AsksFor Symbolic.libraries c.presentedAt now (s.service.log.take 1) write := by
  have hrun : (exec (Server.step Symbolic.container Symbolic.libraries) Server.init serverRun).any
      (fun s => s.service.log.length = 2) = true := by
    decide +kernel
  obtain ⟨s, hs, h⟩ := (Option.any_eq_true _ _).mp hrun
  have hlog : 1 < s.service.log.length := by
    rw [of_decide_eq_true h]
    decide
  have hentry := List.getElem?_eq_getElem hlog
  obtain ⟨k, x, c, now, hx, hi, _, _, hrepeats, hasks, _⟩ :=
    (changes_requested Symbolic.checksCsrfToken ⟨_, hs⟩).2 1 _ _ hentry
  exact ⟨s, hs, _, _, hentry, k, x, c, now, hx, hi, hrepeats, hasks⟩

end AuthenticationServer
