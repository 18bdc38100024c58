import AuthenticationServer.Services.SymbolicLibraries
import AuthenticationServer.System.Invariant

/-!
# Deletions

A deletion reads its account in one transaction and removes it in another. Whatever other
calls do in between, it removes the rows of the account of its principal and nothing else,
and the account never comes back.

## Main definitions

- `Client.DeletesAs` - a deletion on behalf of an account
- `Spent` - the id of an account that no call will store again

## Main results

- `lacks_of_exec` - an account that is gone stays away
- `deletion_of_caller` - the effects of the deletions on behalf of an account
-/

namespace AuthenticationServer

open Java Machine State

variable {H Salt : Type}

/-- The call is a deletion on behalf of the account. -/
def Client.DeletesAs (c : Client H) (a : AccountRow) : Prop :=
  c.invocation.isDeletion = true ∧ c.userPrincipal = .ok (some ⟨some a.name⟩)

/-- The id was drawn, and no account waits under it for its commit. -/
structure Spent (s : State H) (id : UUID) : Prop where
  used : id ∈ s.usedIds
  notPending : ∀ (i : ℕ) (c : Client H) (account : Account H), s.clients[i]? = some c →
    c.stage = .save account → account.id ≠ id

/-- The id of a stored account is spent. -/
theorem Invariant.spent {L : Libraries H Salt} {s : State H} (h : Invariant L s) {a : AccountRow}
    (ha : a ∈ s.store.accounts) : Spent s a.id := by
  obtain ⟨d, _, hs, hcreated⟩ := h.directory
  rw [hs] at ha
  obtain ⟨x, hx, rfl⟩ := Directory.mem_accounts.mp ha
  obtain ⟨j, hj⟩ := hcreated x hx
  obtain ⟨b, hb, hdone, hbuilt⟩ := hj.built
  refine ⟨h.used j b x.id hb hbuilt, fun i c account hc hstage hid => ?_⟩
  obtain rfl := h.unique i j c b x.id hc hb ⟨account, hid, Or.inl hstage⟩ hbuilt
  obtain rfl : c = b := Option.some.inj (hc.symm.trans hb)
  rw [Client.isDone, hstage] at hdone
  cases hdone

theorem Spent.step {L : Libraries H Salt} {s s' : State H} {a : Action Salt} {id : UUID}
    (h : Spent s id) (hs : step L s a = some s') : Spent s' id := by
  refine ⟨(extends_of_step hs).usedIds h.used, ?_⟩
  rcases step_cases hs with ⟨invocation, rfl, rfl⟩ | ⟨i, w, c, e, rfl, hc, hn, hf, rfl⟩
  · intro j d account hd hstage
    rcases clients_add hd with hd | ⟨_, rfl⟩
    · exact h.notPending j d account hd hstage
    · cases hstage
  · intro j d account hd hstage hid
    rcases clients_apply hd with ⟨rfl, rfl⟩ | ⟨_, hd'⟩
    · cases hn with
      | prepared =>
        -- the id of the new account has just been drawn
        obtain rfl := Stage.save.inj hstage
        rw [Registration.account_id] at hid
        exact hf.2 w.accountId List.mem_cons_self (hid ▸ h.used)
      | _ => cases hstage
    · exact h.notPending j d account hd' hstage hid

theorem notMem_accounts_step {L : Libraries H Salt} {s s' : State H} {a : Action Salt} {id : UUID}
    (hinv : Invariant L s) (h : Spent s id) (hgone : ∀ b ∈ s.store.accounts, b.id ≠ id)
    (hs : step L s a = some s') : ∀ b ∈ s'.store.accounts, b.id ≠ id := by
  rcases step_cases hs with ⟨invocation, rfl, rfl⟩ | ⟨i, w, c, e, rfl, hc, hn, _, rfl⟩
  · exact hgone
  rcases hn.write_cases with ⟨hw, _⟩ | ⟨caller, r, account, rows, hi, hstage, hcommit, hw, _⟩ |
    ⟨account, _, _, hw, _⟩
  · rw [store_apply_none hw]
    exact hgone
  · obtain ⟨w', rfl, rfl, _⟩ := hinv.commit hc hi hstage hcommit
    rw [store_apply_insert hw]
    intro b hb
    rcases List.mem_append.mp hb with hb | hb
    · exact hgone b hb
    · obtain rfl := List.mem_singleton.mp hb
      have hne := h.notPending i c _ hc hstage
      rwa [Registration.account_id] at hne
  · rw [store_apply_remove hw]
    intro b hb
    exact hgone b (List.mem_filter.mp hb).1

/-- An account that is gone stays away. -/
theorem lacks_of_exec {L : Libraries H Salt} {s t : State H} {id : UUID}
    {as : List (Action Salt)} (hinv : Invariant L s) (h : Spent s id)
    (hgone : ∀ b ∈ s.store.accounts, b.id ≠ id) (hrun : exec (step L) s as = some t) :
    t.store.Lacks id := by
  have hall : Invariant L t ∧ Spent t id ∧ ∀ b ∈ t.store.accounts, b.id ≠ id := by
    refine exec_invariant
      (I := fun t => Invariant L t ∧ Spent t id ∧ ∀ b ∈ t.store.accounts, b.id ≠ id)
      ?_ ⟨hinv, h, hgone⟩ hrun
    rintro s a s' ⟨hi, hsp, hg⟩ hs
    exact ⟨hi.step hs, hsp.step hs, notMem_accounts_step hi hsp hg hs⟩
  exact hall.1.wellFormed.lacks hall.2.2

/-- A step of a deletion on behalf of an account removes the rows of the account or leaves the
tables alone, and when it ends the call without removing them, the account was not there. -/
theorem Client.Next.deletesAs {L : Libraries H Salt} {w : Ambient Salt} {s : Store H}
    {c : Client H} {e : Effect H} (h : Client.Next L w s c e) (hv : c.Valid L) {a : AccountRow}
    (hd : e.client.DeletesAs a) :
    (e.write = none ∧ (e.client.isDone = true →
      ∃ err, getAccountOfSecurityContext s (some ⟨some a.name⟩) = .error err)) ∨
    ∃ account, account.id = a.id ∧ e.write = some (.remove account (s.rowsOf account.id)) := by
  obtain ⟨hdeletion, hprincipal⟩ := hd
  rw [h.frame.1] at hdeletion
  cases h with
  | removed _ stage =>
    have hp : c.userPrincipal = .ok (some ⟨some a.name⟩) := hprincipal
    obtain ⟨accountId, hp', hid⟩ := hv.deleting _ stage
    rw [hp] at hp'
    have hname : a.name = accountId := by simpa using hp'
    rw [← hname, AccountRow.name, UUID.fromString_toString] at hid
    exact Or.inr ⟨_, (Option.some.inj hid).symm, rfl⟩
  | @notFound err _ _ lookup =>
    have hp : c.userPrincipal = .ok (some ⟨some a.name⟩) := hprincipal
    rw [hp, Fallible.ok_bind] at lookup
    exact Or.inl ⟨rfl, fun _ => ⟨err, lookup⟩⟩
  | failed _ _ _ deletion =>
    -- a request that was not admitted has no principal
    obtain ⟨stage, cookies, hinv⟩ := deletion hdeletion
    have hp : c.userPrincipal = .ok (some ⟨some a.name⟩) := hprincipal
    rw [userPrincipal, hinv, context, hv.starting stage] at hp
    cases hp
  | admitted => exact Or.inl ⟨rfl, Bool.noConfusion⟩
  | found => exact Or.inl ⟨rfl, Bool.noConfusion⟩
  | answered _ invocation =>
    rw [Invocation.isDeletion_eq_false invocation] at hdeletion
    cases hdeletion
  | prepared invocation => rw [invocation] at hdeletion; cases hdeletion
  | committed invocation => rw [invocation] at hdeletion; cases hdeletion
  | matched invocation => rw [invocation] at hdeletion; cases hdeletion
  | signed invocation => rw [invocation] at hdeletion; cases hdeletion

theorem store_deletesAs {L : Libraries H Salt} {s s' : State H} {k : ℕ} {w : Ambient Salt}
    (hinv : Invariant L s) (hs : step L s (.advance k w) = some s') {c : Client H}
    (hc : s'.clients[k]? = some c) {a : AccountRow} (hd : c.DeletesAs a) :
    (s'.store = s.store ∧ (c.isDone = true → ∀ b ∈ s.store.accounts, b.id ≠ a.id)) ∨
      s'.store = s.store.without a.id := by
  obtain ⟨b, e, hb, hn, _, rfl⟩ := step_advance hs
  obtain rfl : e.client = c := Option.some.inj ((clients_apply_self hb).symm.trans hc)
  rcases (Client.next_cases hn).deletesAs (hinv.valid k b hb) hd with ⟨hw, hend⟩ | ⟨account, hid, hw⟩
  · refine Or.inl ⟨store_apply_none hw, fun hdone d hmem hda => ?_⟩
    obtain ⟨err, herr⟩ := hend hdone
    have hfound := getAccountOfSecurityContext_name hinv.wellFormed hmem
    rw [AccountRow.name, hda] at hfound
    rw [AccountRow.name, hfound] at herr
    cases herr
  · refine Or.inr ?_
    rw [store_apply_remove hw, ← hid]
    rfl

theorem notMem_accounts_without (s : Store H) (id : UUID) :
    ∀ b ∈ (s.without id).accounts, b.id ≠ id := by
  intro b hb
  simpa using (List.mem_filter.mp hb).2

theorem without_without (s : Store H) (id : UUID) : (s.without id).without id = s.without id := by
  simp only [Store.without, Store.filter, List.filter_filter, Bool.and_self]

/-- A step of a deletion that does not end it without an exception leaves the tables alone. -/
theorem store_of_not_returned {L : Libraries H Salt} {s s' : State H} {k : ℕ} {w : Ambient Salt}
    (hs : step L s (.advance k w) = some s') {c : Client H} (hc : s'.clients[k]? = some c)
    (hd : c.invocation.isDeletion = true) (hstage : ∀ result, c.stage ≠ .done (.ok result)) :
    s'.store = s.store := by
  obtain ⟨b, e, hb, hn, _, rfl⟩ := step_advance hs
  obtain rfl : e.client = c := Option.some.inj ((clients_apply_self hb).symm.trans hc)
  rcases (Client.next_cases hn).write_cases with ⟨hw, _⟩ | ⟨_, _, _, _, _, _, _, _, hend⟩ | ⟨_, _, _, _, hend⟩
  · exact store_apply_none hw
  · exact absurd hend (hstage _)
  · exact absurd hend (hstage _)

/-- Once a deletion on behalf of an account has ended, the account is gone. -/
theorem gone_of_exec {L : Libraries H Salt} {s t : State H} {a : AccountRow}
    {as : List (Action Salt)} (hinv : Invariant L s) (ha : a ∈ s.store.accounts)
    (hrun : exec (step L) s as = some t) {k : ℕ} {c : Client H} (hc : t.clients[k]? = some c)
    (hd : c.DeletesAs a) (hdone : c.isDone = true)
    (hstart : ∀ b, s.clients[k]? = some b → b.isDone = false) :
    ∀ b ∈ t.store.accounts, b.id ≠ a.id := by
  have hall : Invariant L t ∧ Spent t a.id ∧ ∀ c, t.clients[k]? = some c → c.DeletesAs a →
      c.isDone = true → ∀ b ∈ t.store.accounts, b.id ≠ a.id := by
    refine exec_invariant (I := fun t => Invariant L t ∧ Spent t a.id ∧
      ∀ c, t.clients[k]? = some c → c.DeletesAs a → c.isDone = true →
        ∀ b ∈ t.store.accounts, b.id ≠ a.id) ?_ ⟨hinv, hinv.spent ha, ?_⟩ hrun
    · rintro s x s' ⟨hi, hsp, hg⟩ hs
      refine ⟨hi.step hs, hsp.step hs, fun c hc hd hdone => ?_⟩
      by_cases hbefore : s.clients[k]? = some c
      · exact notMem_accounts_step hi hsp (hg c hbefore hd hdone) hs
      · -- the call has taken this step
        rcases step_cases hs with ⟨invocation, rfl, rfl⟩ | ⟨i, w, b, e, rfl, hb, hn, _, rfl⟩
        · rcases clients_add hc with hc | ⟨_, rfl⟩
          · exact absurd hc hbefore
          · cases hdone
        · rcases clients_apply hc with ⟨rfl, rfl⟩ | ⟨_, hc'⟩
          · rcases store_deletesAs hi hs hc hd with ⟨hst, hend⟩ | hst
            · rw [hst]
              exact hend hdone
            · rw [hst]
              exact notMem_accounts_without _ _
          · exact absurd hc' hbefore
    · intro c hc _ hdone
      rw [hstart c hc] at hdone
      cases hdone
  exact hall.2.2 c hc hd hdone

/-- Take any run from a reachable state in which an account is stored. Once one of the calls
that delete on its behalf has ended after that, the account and its credentials are gone, and
they never reappear. No step of such a call, in any reachable state, changes or removes a row
of another account, or adds a row; and no step of a deletion that ends in an exception, or has
not ended, changes a row. -/
theorem deletion_of_caller {L : Libraries H Salt} {s : State H}
    (hreach : Reachable (step L) init s) {a : AccountRow} (ha : a ∈ s.store.accounts) :
    (∀ as t (k : ℕ) (c : Client H), exec (step L) s as = some t → t.clients[k]? = some c →
      c.DeletesAs a → c.isDone = true → (∀ b, s.clients[k]? = some b → b.isDone = false) →
        ∀ later u, exec (step L) t later = some u → u.store.Lacks a.id) ∧
    ∀ t u (k : ℕ) w (c : Client H), Reachable (step L) init t →
      step L t (.advance k w) = some u → u.clients[k]? = some c →
        (c.DeletesAs a → (u.store = t.store ∨ u.store = t.store.without a.id) ∧
          u.store.without a.id = t.store.without a.id) ∧
        (c.invocation.isDeletion = true → (∀ result, c.stage ≠ .done (.ok result)) →
          u.store = t.store) := by
  have hinv := invariant_of_reachable hreach
  refine ⟨?_, ?_⟩
  · intro as t k c hrun hc hd hdone hstart later u hlater
    have hinv' := invariant_of_reachable (hreach.trans ⟨as, hrun⟩)
    have hspent : Spent t a.id :=
      exec_invariant (I := fun t => Spent t a.id) (fun _ _ _ h hs => h.step hs) (hinv.spent ha) hrun
    exact lacks_of_exec hinv' hspent (gone_of_exec hinv ha hrun hc hd hdone hstart) hlater
  · intro t u k w c ht hs hc
    refine ⟨fun hd => ?_, fun hd hstage => store_of_not_returned hs hc hd hstage⟩
    rcases store_deletesAs (invariant_of_reachable ht) hs hc hd with ⟨hst, _⟩ | hst
    · exact ⟨Or.inl hst, by rw [hst]⟩
    · exact ⟨Or.inr hst, by rw [hst, without_without]⟩

/-- An account is registered, and two deletions on its behalf are called. -/
def registeredRun : List (Action ℕ) :=
  [.call (.create .other (.email "e@x" "password")),
    .advance 0 (Symbolic.ambient 0 0), .advance 0 (Symbolic.ambient 0 0),
    .call (.deleteAccount (some ⟨some (UUID.toString ⟨0, 0⟩)⟩)),
    .call (.deleteAccount (some ⟨some (UUID.toString ⟨0, 0⟩)⟩))]

/-- Both read the account; the first removes it, its email is registered again, and then the
second, stale deletion ends. -/
def staleDeletionRun : List (Action ℕ) :=
  [.advance 1 (Symbolic.ambient 1 0), .advance 2 (Symbolic.ambient 2 0),
    .advance 1 (Symbolic.ambient 1 0),
    .call (.create .other (.email "e@x" "password")),
    .advance 3 (Symbolic.ambient 3 0), .advance 3 (Symbolic.ambient 3 0),
    .advance 2 (Symbolic.ambient 2 0)]

theorem deletion_of_caller_stale :
    ∃ s t, exec (step Symbolic.libraries) init registeredRun = some s ∧
      exec (step Symbolic.libraries) s staleDeletionRun = some t ∧
      t.store.Lacks ⟨0, 0⟩ ∧ t.store.HasKey (.email "e@x") := by
  have hrun : (exec (step Symbolic.libraries) init registeredRun).any (fun s =>
      s.store.accounts = [Registration.accountRow (Symbolic.ambient 0 0)] ∧
      s.clients[2]?.any (fun c => !c.isDone) ∧
      (exec (step Symbolic.libraries) s staleDeletionRun).any fun t =>
        t.store.HasKey (.email "e@x") ∧
        t.clients[2]?.any fun c =>
          c.invocation = .deleteAccount (some ⟨some (UUID.toString ⟨0, 0⟩)⟩) ∧ c.isDone) = true := by
    decide +kernel
  obtain ⟨s, hs, h⟩ := (Option.any_eq_true _ _).mp hrun
  obtain ⟨haccounts, hcall, hrest⟩ := of_decide_eq_true h
  obtain ⟨b, hb, hbdone⟩ := (Option.any_eq_true _ _).mp hcall
  obtain ⟨t, ht, h'⟩ := (Option.any_eq_true _ _).mp hrest
  obtain ⟨hkey, hended⟩ := of_decide_eq_true h'
  obtain ⟨c, hc, hc'⟩ := (Option.any_eq_true _ _).mp hended
  obtain ⟨hinv, hdone⟩ := of_decide_eq_true hc'
  have hdeletes : c.DeletesAs (Registration.accountRow (Symbolic.ambient 0 0)) := by
    refine ⟨by rw [hinv]; rfl, ?_⟩
    rw [Client.userPrincipal, hinv]
    rfl
  have hstart : ∀ b', s.clients[2]? = some b' → b'.isDone = false := by
    intro b' hb'
    obtain rfl : b = b' := Option.some.inj (hb.symm.trans hb')
    simpa using hbdone
  have hlacks := (deletion_of_caller ⟨_, hs⟩ (haccounts ▸ List.mem_singleton.mpr rfl)).1
    staleDeletionRun t 2 c ht hc hdeletes hdone hstart [] t rfl
  exact ⟨s, t, hs, ht, hlacks, hkey⟩

end AuthenticationServer
