import AuthenticationServer.System.Deletion
import AuthenticationServer.System.Ledger
import AuthenticationServer.System.Linearizability

/-!
# The life of an account

An account is stored from the commit of the call that returns it to the commit of a deletion on
its behalf, with rows that nothing changes. After that, neither its tokens nor its credentials
lead anywhere.

## Main definitions

- `State.Returned`, `State.Removed` - the ids that creations have returned and deletions removed
- `Departed` - the ids of removed accounts, and of those that a deletion has looked up, are spent
- `KeptOrDeleted` - the rows of an account are as they were, or they are gone with a deletion
- `Client.Avoids` - the call has nothing to do with an account

## Main results

- `stored_iff_returned` - an account is stored when it was returned and not removed
- `account_kept_until_deleted` - its rows stay as they are until a deletion on its behalf
- `removed_account_stays_away` - after a deletion, no call finds the account or acts for it
-/

namespace AuthenticationServer

open Java Machine State

variable {H Salt : Type}

namespace State

/-- A creation has returned the account. -/
def Returned (s : State H) (id : UUID) : Prop :=
  ∃ (i : ℕ) (c : Client H) (caller : Caller) (r : Registration) (account : Account H),
    s.clients[i]? = some c ∧ c.invocation = .create caller r ∧
      c.stage = .done (.ok (caller.result account)) ∧ account.id = id

/-- A deletion has removed the account. -/
def Removed (s : State H) (id : UUID) : Prop :=
  ∃ (i : ℕ) (account : AccountRow) (rows : Store H),
    (i, Write.remove account rows) ∈ s.log ∧ account.id = id

def Stored (s : State H) (id : UUID) : Prop := ∃ a ∈ s.store.accounts, a.id = id

end State

/-! ## Removed accounts -/

/-- The accounts that deletions have looked up or removed were stored before, so that their ids
are spent. -/
structure Departed (s : State H) : Prop where
  lookedUp : ∀ (i : ℕ) (c : Client H) (account : AccountRow), s.clients[i]? = some c →
    c.stage = .delete account → Spent s account.id
  removed : ∀ id, s.Removed id → Spent s id

theorem departed_init : Departed (H := H) init where
  lookedUp := by intro i c account hc; cases hc
  removed := by rintro id ⟨i, account, rows, hlog, _⟩; cases hlog

/-- What a step has removed before or removes. -/
theorem removed_apply {s : State H} {i : ℕ} {e : Effect H} {id : UUID} :
    (s.apply i e).Removed id ↔
      s.Removed id ∨ ∃ account rows, e.write = some (.remove account rows) ∧ account.id = id := by
  constructor
  · rintro ⟨j, account, rows, hlog, hid⟩
    obtain hlog | hlog := List.mem_append.mp hlog
    · exact Or.inl ⟨j, account, rows, hlog, hid⟩
    · obtain ⟨write, hwrite, heq⟩ := List.mem_map.mp hlog
      obtain rfl : write = .remove account rows := congrArg Prod.snd heq
      exact Or.inr ⟨account, rows, Option.mem_toList.mp hwrite, hid⟩
  · rintro (⟨j, account, rows, hlog, hid⟩ | ⟨account, rows, hwrite, hid⟩)
    · exact ⟨j, account, rows, List.mem_append_left _ hlog, hid⟩
    · refine ⟨i, account, rows, List.mem_append_right _ ?_, hid⟩
      exact List.mem_map.mpr ⟨_, Option.mem_toList.mpr hwrite, rfl⟩

theorem Departed.step {L : Libraries H Salt} {s s' : State H} {a : Action Salt}
    (h : Departed s) (hinv : Invariant L s) (hs : step L s a = some s') : Departed s' := by
  cases a with
  | call invocation =>
    have hspent : ∀ id, Spent s id → Spent s' id := fun id hid => hid.step hs
    obtain rfl := Option.some.inj hs
    refine ⟨fun i c account hc hstage => ?_, fun id hid => hspent id (h.removed id hid)⟩
    cases clients_add hc with
    | inl hold => exact hspent _ (h.lookedUp i c account hold hstage)
    | inr hnew =>
      rw [hnew.2] at hstage
      cases hstage
  | advance i w =>
    have hspent : ∀ id, Spent s id → Spent s' id := fun id hid => hid.step hs
    obtain ⟨c, e, hc, he, _, rfl⟩ := step_advance hs
    have hn := Client.next_cases he
    refine ⟨fun j d account hd hstage => ?_, fun id hid => ?_⟩
    · cases clients_apply hd with
      | inr hother => exact hspent _ (h.lookedUp j d account hother.2 hstage)
      | inl hself =>
        obtain ⟨rfl, rfl⟩ := hself
        cases hn with
        | found _ _ lookup =>
          -- the lookup has found the account in the tables
          obtain rfl := Stage.delete.inj hstage
          obtain ⟨_, _, ha⟩ := Fallible.bind_eq_ok.mp lookup
          obtain ⟨_, _, hfind⟩ := getAccountOfSecurityContext_eq_ok ha
          exact hspent _ (hinv.spent (findById_eq_some hfind).1)
        | _ => cases hstage
    · cases removed_apply.mp hid with
      | inl hbefore => exact hspent id (h.removed id hbefore)
      | inr hnow =>
        obtain ⟨account, rows, hw, rfl⟩ := hnow
        cases hn with
        | removed _ stage =>
          obtain rfl := (Write.remove.inj (Option.some.inj hw)).1
          exact hspent _ (h.lookedUp i c _ hc stage)
        | committed => cases hw
        | _ => cases hw

theorem departed_of_reachable {L : Libraries H Salt} {s : State H}
    (h : Reachable (step L) init s) : Departed s :=
  h.invariant_of_reachable (fun _ _ _ hr hd hs => hd.step (invariant_of_reachable hr) hs)
    departed_init

/-! ## Stored accounts -/

theorem returned_add {s : State H} {invocation : Invocation} {id : UUID} :
    (s.add invocation).Returned id ↔ s.Returned id := by
  constructor
  · rintro ⟨i, c, caller, r, account, hc, hinv, hstage, hid⟩
    cases clients_add hc with
    | inl hold => exact ⟨i, c, caller, r, account, hold, hinv, hstage, hid⟩
    | inr hnew =>
      rw [hnew.2] at hstage
      cases hstage
  · rintro ⟨i, c, caller, r, account, hc, h⟩
    exact ⟨i, c, caller, r, account, clients_add_of hc, h⟩

theorem returned_apply {s : State H} {i : ℕ} {c : Client H} {e : Effect H} {id : UUID}
    (hc : s.clients[i]? = some c) (hdone : c.isDone = false) :
    (s.apply i e).Returned id ↔ s.Returned id ∨
      ∃ (caller : Caller) (r : Registration) (account : Account H),
        e.client.invocation = .create caller r ∧
          e.client.stage = .done (.ok (caller.result account)) ∧ account.id = id := by
  constructor
  · rintro ⟨j, d, caller, r, account, hd, hinv, hstage, hid⟩
    cases clients_apply hd with
    | inl hself =>
      obtain ⟨rfl, rfl⟩ := hself
      exact Or.inr ⟨caller, r, account, hinv, hstage, hid⟩
    | inr hother => exact Or.inl ⟨j, d, caller, r, account, hother.2, hinv, hstage, hid⟩
  · rintro (⟨j, d, caller, r, account, hd, hinv, hstage, hid⟩ |
      ⟨caller, r, account, hinv, hstage, hid⟩)
    · -- the call that takes the step has not returned before
      have hj : j ≠ i := by
        rintro rfl
        obtain rfl := Option.some.inj (hc.symm.trans hd)
        rw [Client.isDone, hstage] at hdone
        cases hdone
      exact ⟨j, d, caller, r, account, by rw [clients_apply_of_ne hj, hd], hinv, hstage, hid⟩
    · exact ⟨i, e.client, caller, r, account, clients_apply_self hc, hinv, hstage, hid⟩

theorem stored_step {L : Libraries H Salt} {s s' : State H} {a : Action Salt}
    (hinv : Invariant L s) (hdep : Departed s)
    (h : ∀ id, s.Stored id ↔ s.Returned id ∧ ¬ s.Removed id) (hs : step L s a = some s') (id : UUID) :
    s'.Stored id ↔ s'.Returned id ∧ ¬ s'.Removed id := by
  cases a with
  | call invocation =>
    obtain rfl := Option.some.inj hs
    rw [returned_add]
    exact h id
  | advance i w =>
    obtain ⟨c, e, hc, he, _, rfl⟩ := step_advance hs
    have hn := Client.next_cases he
    rw [returned_apply hc hn.frame.2.2.1, removed_apply]
    obtain ⟨hw, hnot⟩ | ⟨caller, r, account, rows, hcreate, hstage, hcommit, hw, hend⟩ |
      ⟨account, hdeletion, hstage, hw, hend⟩ := hn.write_cases
    · have hstored : (s.apply i e).Stored id ↔ s.Stored id := by
        rw [Stored, store_apply_none hw, Stored]
      have hreturned : ¬ ∃ (caller : Caller) (r : Registration) (account : Account H),
          e.client.invocation = .create caller r ∧
            e.client.stage = .done (.ok (caller.result account)) ∧ account.id = id := by
        rintro ⟨caller, r, account, hi, hend, _⟩
        exact hnot caller r _ (hn.frame.1.symm.trans hi) hend
      have hremoved : ¬ ∃ account rows, e.write = some (.remove account rows) ∧ account.id = id := by
        rw [hw]
        rintro ⟨_, _, hsome, _⟩
        cases hsome
      rw [hstored, h id, or_iff_left hreturned, or_iff_left hremoved]
    · obtain ⟨w', rfl, rfl, _⟩ := hinv.commit hc hcreate hstage hcommit
      have hstored : (s.apply i e).Stored id ↔ s.Stored id ∨ w'.accountId = id := by
        simp only [Stored, store_apply_insert hw, Store.accounts_append, List.mem_append,
          or_and_right, exists_or, Registration.rows, List.mem_singleton, exists_eq_left]
        rfl
      have hreturned : (∃ (caller : Caller) (r : Registration) (account : Account H),
          e.client.invocation = .create caller r ∧
            e.client.stage = .done (.ok (caller.result account)) ∧ account.id = id) ↔
          w'.accountId = id := by
        constructor
        · rintro ⟨caller', r', account', hi, hend', rfl⟩
          obtain ⟨rfl, rfl⟩ := Invocation.create.inj ((hn.frame.1.symm.trans hi).symm.trans hcreate)
          have hsame := Except.ok.inj (Stage.done.inj (hend.symm.trans hend'))
          rw [← Client.result_inj hsame, Registration.account_id]
        · rintro rfl
          exact ⟨caller, r, _, hn.frame.1.trans hcreate, hend, Registration.account_id L w' r⟩
      have hkept : w'.accountId = id → ¬ s.Removed id := by
        rintro rfl hremoved
        have hne := (hdep.removed _ hremoved).notPending i c _ hc hstage
        exact hne (Registration.account_id L w' r)
      rw [hstored, hreturned, h id, hw]
      simp only [Option.some.injEq, reduceCtorEq, false_and, exists_false, or_false]
      tauto
    · have hstored : (s.apply i e).Stored id ↔ s.Stored id ∧ account.id ≠ id := by
        simp only [Stored, store_apply_remove hw, delete, Store.without, Store.filter,
          List.mem_filter]
        constructor
        · rintro ⟨a, ⟨ha, hne⟩, rfl⟩
          exact ⟨⟨a, ha, rfl⟩, fun hid => by simp [hid] at hne⟩
        · rintro ⟨⟨a, ha, rfl⟩, hne⟩
          exact ⟨a, ⟨ha, by simpa using Ne.symm hne⟩, rfl⟩
      have hreturned : ¬ ∃ (caller : Caller) (r : Registration) (account : Account H),
          e.client.invocation = .create caller r ∧
            e.client.stage = .done (.ok (caller.result account)) ∧ account.id = id := by
        rintro ⟨caller, r, _, hi, _⟩
        rw [hn.frame.1.symm.trans hi] at hdeletion
        cases hdeletion
      have hremoved : (∃ account' rows, e.write = some (.remove account' rows) ∧
          account'.id = id) ↔ account.id = id := by
        rw [hw]
        constructor
        · rintro ⟨account', rows, hsame, rfl⟩
          rw [(Write.remove.inj (Option.some.inj hsame)).1]
        · rintro rfl
          exact ⟨account, _, rfl, rfl⟩
      rw [hstored, h id, or_iff_left hreturned, hremoved, not_or, and_assoc]

theorem stored_of_reachable {L : Libraries H Salt} {s : State H}
    (h : Reachable (step L) init s) (id : UUID) :
    s.Stored id ↔ s.Returned id ∧ ¬ s.Removed id := by
  refine h.invariant_of_reachable (I := fun s => ∀ id, s.Stored id ↔ s.Returned id ∧ ¬ s.Removed id)
    (fun s a s' hr hi hs id =>
      stored_step (invariant_of_reachable hr) (departed_of_reachable hr) hi hs id) ?_ id
  intro id
  constructor
  · rintro ⟨a, ha, _⟩
    cases ha
  · rintro ⟨⟨i, c, _, _, _, hc, _⟩, _⟩
    cases hc

/-- In every reachable state, the stored accounts are those that creations have returned and that
no deletion has removed: no account is lost, none appears that was not returned, and none comes
back. An id is returned by one creation only. -/
theorem stored_iff_returned {L : Libraries H Salt} {s : State H} (h : Reachable (step L) init s) :
    (∀ id, s.Stored id ↔ s.Returned id ∧ ¬ s.Removed id) ∧
    ∀ (i j : ℕ) (c d : Client H) (caller caller' : Caller) (r r' : Registration)
      (account account' : Account H), s.clients[i]? = some c → s.clients[j]? = some d →
      c.invocation = .create caller r → d.invocation = .create caller' r' →
      c.stage = .done (.ok (caller.result account)) →
      d.stage = .done (.ok (caller'.result account')) → account.id = account'.id → i = j := by
  refine ⟨stored_of_reachable h, ?_⟩
  intro i j c d caller caller' r r' account account' hc hd hi hj hstage hstage' hid
  exact (invariant_of_reachable h).unique i j c d account'.id hc hd
    ⟨account, hid, Or.inr ⟨caller, r, hi, hstage⟩⟩ ⟨account', rfl, Or.inr ⟨caller', r', hj, hstage'⟩⟩

/-- The account that is registered after a deletion is stored, returned and not removed. -/
theorem stored_iff_returned_reregistration :
    ∃ s, exec (step Symbolic.libraries) init reregistration = some s ∧ s.Returned ⟨0, 6⟩ ∧
      ¬ s.Removed ⟨0, 6⟩ := by
  have hrun : (exec (step Symbolic.libraries) init reregistration).any (fun s =>
      s.store.accounts = [Registration.accountRow (Symbolic.ambient 3 0)]) = true := by
    decide +kernel
  obtain ⟨s, hs, haccounts⟩ := (Option.any_eq_true _ _).mp hrun
  have hmem : Registration.accountRow (Symbolic.ambient 3 0) ∈ s.store.accounts := by
    rw [of_decide_eq_true haccounts]
    exact List.mem_cons_self
  have hstored : s.Stored ⟨0, 6⟩ := ⟨_, hmem, rfl⟩
  exact ⟨s, hs, ((stored_iff_returned ⟨_, hs⟩).1 _).mp hstored⟩

/-! ## The rows of a stored account -/

theorem filter_id_eq_nil {α : Type} {f : α → UUID} {id : UUID} {rows : List α}
    (h : ∀ r ∈ rows, f r ≠ id) : rows.filter (fun r => decide (f r = id)) = [] :=
  List.filter_eq_nil_iff.mpr fun r hr => by simpa using h r hr

theorem rowsOf_of_lacks {s : Store H} {id : UUID} (h : s.Lacks id) : s.rowsOf id = Store.empty := by
  simp only [Store.rowsOf, Store.filter, filter_id_eq_nil h.accounts,
    filter_id_eq_nil h.credentialPasswords, filter_id_eq_nil h.credentialIOSDevices, Store.empty]

theorem rowsOf_append {s t : Store H} {id : UUID} (h : ∀ a ∈ t.accounts, a.id ≠ id)
    (hpasswords : ∀ c ∈ t.credentialPasswords, c.account ≠ id)
    (hdevices : ∀ c ∈ t.credentialIOSDevices, c.account ≠ id) :
    (s ++ t).rowsOf id = s.rowsOf id := by
  simp only [Store.rowsOf, Store.filter, Store.accounts_append, Store.credentialPasswords_append,
    Store.credentialIOSDevices_append, List.filter_append, filter_id_eq_nil h,
    filter_id_eq_nil hpasswords, filter_id_eq_nil hdevices, List.append_nil]

theorem rowsOf_without {s : Store H} {id id' : UUID} (h : id ≠ id') :
    (s.without id').rowsOf id = s.rowsOf id := by
  have hboth : ∀ x : UUID, (decide (x = id) && !decide (x = id')) = decide (x = id) := by
    intro x
    by_cases hx : x = id
    · subst hx
      simp [h]
    · simp [hx]
  simp only [Store.rowsOf, Store.without, Store.filter, List.filter_filter, hboth]

theorem rowsOf_rows (L : Libraries H Salt) (w : Ambient Salt) (r : Registration) (s : Store H)
    {id : UUID} (h : w.accountId ≠ id) : (s ++ r.rows L w).rowsOf id = s.rowsOf id := by
  refine rowsOf_append (fun a ha => ?_) (fun c hc => ?_) (fun c hc => ?_)
  · obtain rfl := List.mem_singleton.mp ha
    exact h
  · cases r with
    | email e p =>
      obtain rfl := List.mem_singleton.mp hc
      exact h
    | iosDevice v n => cases hc
  · cases r with
    | email e p => cases hc
    | iosDevice v n =>
      obtain rfl := List.mem_singleton.mp hc
      exact h

/-- The principal of the call names the account. -/
def Client.ActsFor (c : Client H) (id : UUID) : Prop :=
  ∃ accountId, c.userPrincipal = .ok (some ⟨some accountId⟩) ∧ UUID.fromString accountId = some id

theorem Client.ActsFor.unique {c : Client H} {a b : UUID} (ha : c.ActsFor a) (hb : c.ActsFor b) :
    a = b := by
  obtain ⟨accountId, hprincipal, hid⟩ := ha
  obtain ⟨accountId', hprincipal', hid'⟩ := hb
  obtain rfl := principal_inj hprincipal hprincipal'
  exact Option.some.inj (hid.symm.trans hid')

/-- The call has deleted the account that its principal names. -/
def Client.HasDeleted (c : Client H) (id : UUID) : Prop :=
  c.invocation.isDeletion = true ∧ c.stage = .done (.ok .noContent) ∧ c.ActsFor id

/-- Since the state `s`, the rows of the account have stayed as they were, or they are gone and a
deletion on its behalf has ended. -/
def KeptOrDeleted (s t : State H) (id : UUID) : Prop :=
  t.store.rowsOf id = s.store.rowsOf id ∨
  t.store.Lacks id ∧ ∃ (i : ℕ) (c : Client H), t.clients[i]? = some c ∧ c.HasDeleted id ∧
    ∀ b, s.clients[i]? = some b → b.isDone = false

/-- The commit of a deletion takes away the account that its principal names. -/
theorem hasDeleted_of_removed {L : Libraries H Salt} {s : State H} (hinv : Invariant L s) {i : ℕ}
    {c : Client H} {e : Effect H} {w : Ambient Salt} (hc : s.clients[i]? = some c)
    (hn : Client.Next L w s.store c e) {account : AccountRow}
    (hdeletion : c.invocation.isDeletion = true) (hstage : c.stage = .delete account)
    (hend : e.client.stage = .done (.ok .noContent)) : e.client.HasDeleted account.id := by
  obtain ⟨accountId, hprincipal, hid⟩ := (hinv.valid i c hc).deleting account hstage
  have hinvocation := hn.frame.1
  have hauth : e.client.authentication = c.authentication :=
    hn.frame.2.2.2 (fun h => by rw [hstage] at h; cases h)
  refine ⟨hinvocation ▸ hdeletion, hend, accountId, ?_, hid⟩
  rw [← hprincipal, Client.userPrincipal, Client.userPrincipal, hinvocation, Client.context, hauth]
  rfl

theorem keptOrDeleted_step {L : Libraries H Salt} {s t t' : State H} {a : Action Salt} {id : UUID}
    (hinv : Invariant L t) (hspent : Spent t id) (hext : Extends s t)
    (h : KeptOrDeleted s t id) (hs : step L t a = some t') : KeptOrDeleted s t' id := by
  cases h with
  | inr hgone =>
    obtain ⟨hlacks, i, c, hc, hdeleted, hopen⟩ := hgone
    have hdone : c.isDone = true := by rw [Client.isDone, hdeleted.2.1]
    refine Or.inr ⟨(hinv.step hs).wellFormed.lacks ?_, i, c, (extends_of_step hs).done i c hc hdone,
      hdeleted, hopen⟩
    exact notMem_accounts_step hinv hspent hlacks.accounts hs
  | inl hkept =>
    cases a with
    | call invocation =>
      obtain rfl := Option.some.inj hs
      exact Or.inl hkept
    | advance i w =>
      obtain ⟨c, e, hc, he, _, rfl⟩ := step_advance hs
      have hn := Client.next_cases he
      obtain ⟨hw, _⟩ | ⟨caller, r, account, rows, hcreate, hstage, hcommit, hw, _⟩ |
        ⟨account, hdeletion, hstage, hw, hend⟩ := hn.write_cases
      · rw [KeptOrDeleted, store_apply_none hw]
        exact Or.inl hkept
      · obtain ⟨w', rfl, rfl, _⟩ := hinv.commit hc hcreate hstage hcommit
        have hne := hspent.notPending i c _ hc hstage
        rw [Registration.account_id] at hne
        rw [KeptOrDeleted, store_apply_insert hw, rowsOf_rows L w' r t.store hne]
        exact Or.inl hkept
      · by_cases hid : account.id = id
        · subst hid
          refine Or.inr ⟨(hinv.step hs).wellFormed.lacks ?_, i, e.client, clients_apply_self hc,
            hasDeleted_of_removed hinv hc hn hdeletion hstage hend, fun b hb => ?_⟩
          · rw [store_apply_remove hw]
            exact notMem_accounts_without _ _
          · -- a call that had ended before the run would not take this step
            cases hdone : b.isDone with
            | false => rfl
            | true =>
              have hsame := hext.done i b hb hdone
              obtain rfl := Option.some.inj (hc.symm.trans hsame)
              rw [hn.frame.2.2.1] at hdone
              cases hdone
        · rw [KeptOrDeleted, store_apply_remove hw, delete, rowsOf_without (Ne.symm hid)]
          exact Or.inl hkept

theorem keptOrDeleted_of_exec {L : Libraries H Salt} {s t : State H} {as : List (Action Salt)}
    {id : UUID} (hinv : Invariant L s) (hspent : Spent s id) (hrun : exec (step L) s as = some t) :
    KeptOrDeleted s t id := by
  have hall : Invariant L t ∧ Spent t id ∧ Extends s t ∧ KeptOrDeleted s t id := by
    refine exec_invariant
      (I := fun t => Invariant L t ∧ Spent t id ∧ Extends s t ∧ KeptOrDeleted s t id) ?_
      ⟨hinv, hspent, Extends.refl s, Or.inl rfl⟩ hrun
    rintro t x t' ⟨hi, hsp, hext, hk⟩ hs
    exact ⟨hi.step hs, hsp.step hs, hext.trans (extends_of_step hs), keptOrDeleted_step hi hsp hext hk hs⟩
  exact hall.2.2.2

/-- An account whose id was stored before was stored before with the same row. -/
theorem mem_accounts_of_exec {L : Libraries H Salt} {s t : State H} {as : List (Action Salt)}
    (hreach : Reachable (step L) init s) (hrun : exec (step L) s as = some t) {a : AccountRow}
    (hstored : s.Stored a.id) (ha : a ∈ t.store.accounts) : a ∈ s.store.accounts := by
  obtain ⟨b, hb, hid⟩ := hstored
  have hinv := invariant_of_reachable hreach
  cases keptOrDeleted_of_exec hinv (hid ▸ hinv.spent hb) hrun with
  | inl hkept =>
    have hrow : a ∈ (t.store.rowsOf a.id).accounts :=
      List.mem_filter.mpr ⟨ha, decide_eq_true rfl⟩
    rw [hkept] at hrow
    exact (List.mem_filter.mp hrow).1
  | inr hgone => exact absurd rfl (hgone.1.accounts a ha)

/-- Take any run from a reachable state in which an account is stored. At its end the rows of the
account, its credential included, are the same, or none of them is left and a deletion that had
not ended before, whose principal names this account, has returned. -/
theorem account_kept_until_deleted {L : Libraries H Salt} {s t : State H} {as : List (Action Salt)}
    (hreach : Reachable (step L) init s) {a : AccountRow} (ha : a ∈ s.store.accounts)
    (hrun : exec (step L) s as = some t) : KeptOrDeleted s t a.id := by
  have hinv := invariant_of_reachable hreach
  exact keptOrDeleted_of_exec hinv (hinv.spent ha) hrun

theorem account_kept_until_deleted_stale :
    ∃ s t, exec (step Symbolic.libraries) init registeredRun = some s ∧
      exec (step Symbolic.libraries) s staleDeletionRun = some t ∧
      ∃ (i : ℕ) (c : Client (ℕ × String)), t.clients[i]? = some c ∧ c.HasDeleted ⟨0, 0⟩ := by
  have hrun : (exec (step Symbolic.libraries) init registeredRun).any (fun s =>
      s.store.accounts = [Registration.accountRow (Symbolic.ambient 0 0)] ∧
      (exec (step Symbolic.libraries) s staleDeletionRun).any fun t =>
        t.store.accounts = [Registration.accountRow (Symbolic.ambient 3 0)]) = true := by
    decide +kernel
  obtain ⟨s, hs, h⟩ := (Option.any_eq_true _ _).mp hrun
  obtain ⟨haccounts, hrest⟩ := of_decide_eq_true h
  obtain ⟨t, ht, hlater⟩ := (Option.any_eq_true _ _).mp hrest
  have hmem : Registration.accountRow (Symbolic.ambient 0 0) ∈ s.store.accounts := by
    rw [haccounts]
    exact List.mem_cons_self
  cases account_kept_until_deleted ⟨_, hs⟩ hmem ht with
  | inl hkept =>
    -- the rows of the account are not the same at the end
    have hrows := congrArg Store.accounts hkept
    simp only [Store.rowsOf, Store.filter, haccounts, of_decide_eq_true hlater] at hrows
    exact absurd hrows (by decide)
  | inr hdeleted =>
    obtain ⟨_, i, c, hc, hdeletion, _⟩ := hdeleted
    exact ⟨s, t, hs, ht, i, c, hc, hdeletion⟩

/-! ## What is left of a removed account -/

/-- The result belongs to other accounts. -/
def Result.Avoids (L : Libraries H Salt) (id : UUID) : Result H → Prop
  | account a => a.id ≠ id
  | accountDTO a => a.id ≠ id
  | accountDTOs as => ∀ a ∈ as, a.id ≠ id
  | token t => ∃ w a, t = signToken L w a ∧ a ≠ id
  | noContent => True

namespace Client

/-- What the call has built, found or returned belongs to other accounts, and when it ends on
behalf of this one, then with `NotFoundException`. -/
structure Avoids (L : Libraries H Salt) (c : Client H) (id : UUID) : Prop where
  save : ∀ account : Account H, c.stage = .save account → account.id ≠ id
  sign : ∀ account, c.stage = .sign account → account ≠ id
  delete : ∀ account : AccountRow, c.stage = .delete account → account.id ≠ id
  returned : ∀ result, c.stage = .done (.ok result) → result.Avoids L id
  refused : ∀ accountId, c.OnAccount → c.isDone = true →
    c.userPrincipal = .ok (some ⟨some accountId⟩) → UUID.fromString accountId = some id →
      c.stage = .done (.error (.notFoundException (noAccountMessage accountId)))

/-- A call that has only passed the filter chain has not looked at the tables. -/
theorem avoids_of_stage (L : Libraries H Salt) {c : Client H} (id : UUID)
    (h : c.stage = .start ∨ c.stage = .secured) : c.Avoids L id := by
  have hne : ∀ stage, c.stage = stage → stage = .start ∨ stage = .secured := fun _ he => he ▸ h
  refine ⟨fun _ he => ?_, fun _ he => ?_, fun _ he => ?_, fun _ he => ?_, fun _ _ hdone => ?_⟩
  · cases hne _ he with | _ h => cases h
  · cases hne _ he with | _ h => cases h
  · cases hne _ he with | _ h => cases h
  · cases hne _ he with | _ h => cases h
  · cases h with | _ h => rw [isDone, h] at hdone; cases hdone

/-- A call ends as one that avoids the account, with an error or a result. -/
theorem avoids_finish {L : Libraries H Salt} {c : Client H} {id : UUID}
    {outcome : Except Throwable (Result H)}
    (returned : ∀ result, outcome = .ok result → result.Avoids L id)
    (refused : ∀ accountId, c.OnAccount → c.userPrincipal = .ok (some ⟨some accountId⟩) →
      UUID.fromString accountId = some id →
        outcome = .error (.notFoundException (noAccountMessage accountId))) :
    (c.finish outcome).client.Avoids L id where
  save := by rintro _ ⟨⟩
  sign := by rintro _ ⟨⟩
  delete := by rintro _ ⟨⟩
  returned := fun result he => returned result (Stage.done.inj he)
  refused := fun accountId hon _ hp hid => congrArg Stage.done (refused accountId hon hp hid)

theorem lookup_eq_notFound {s : Store H} {c : Client H} {id : UUID} {accountId : String}
    (hlacks : s.Lacks id) (hp : c.userPrincipal = .ok (some ⟨some accountId⟩))
    (hid : UUID.fromString accountId = some id) :
    (c.userPrincipal >>= getAccountOfSecurityContext s) =
      .error (.notFoundException (noAccountMessage accountId)) := by
  have hnone : findById s accountId = none :=
    findById_eq_none.mpr fun a ha h => hlacks.accounts a ha (Option.some.inj (h.symm.trans hid))
  rw [hp, Fallible.ok_bind]
  exact getAccountOfSecurityContext_eq_notFound (UUID.isBlank_of_fromString hid) hnone

/-- A request that was not admitted has no principal. -/
theorem userPrincipal_of_request {c : Client H} {operation : AccountOperation}
    {cookies : Option (List Cookie)} (invocation : c.invocation = .request operation cookies)
    (hauth : c.authentication = none) : c.userPrincipal = .ok none := by
  rw [userPrincipal, invocation, context, hauth]
  rfl

/-- A reading request is admitted or refused by the filter chain, and then returns what it
reads. -/
theorem next_reading {L : Libraries H Salt} {w : Ambient Salt} {s : Store H} {c : Client H}
    {e : Effect H} (hread : c.invocation.isReading = true) (he : c.next L w s = some e) :
    ∃ operation cookies, c.invocation = .request operation cookies ∧
      (c.stage = .start ∧ e = c.enter L w.currentTimeMillis cookies ∨
        c.stage = .secured ∧
          (operation = .getAccounts ∧
              e = c.finish ((getAccounts s c.context).map .accountDTOs) ∨
            operation = .getAccountInfo ∧
              e = c.finish ((getAccountInfo s c.context).map .accountDTO))) := by
  obtain ⟨invocation, stage, presentedAt, authentication⟩ := c
  match invocation, hread with
  | .request .getAccounts cookies, _ =>
    refine ⟨_, _, rfl, ?_⟩
    cases stage with
    | start => exact Or.inl ⟨rfl, (Option.some.inj he).symm⟩
    | secured => exact Or.inr ⟨rfl, Or.inl ⟨rfl, (Option.some.inj he).symm⟩⟩
    | _ => cases he
  | .request .getAccountInfo cookies, _ =>
    refine ⟨_, _, rfl, ?_⟩
    cases stage with
    | start => exact Or.inl ⟨rfl, (Option.some.inj he).symm⟩
    | secured => exact Or.inr ⟨rfl, Or.inr ⟨rfl, (Option.some.inj he).symm⟩⟩
    | _ => cases he

theorem avoids_reading {L : Libraries H Salt} {w : Ambient Salt} {s : Store H} {c : Client H}
    {e : Effect H} {id : UUID} (hvalid : c.Valid L) (hlacks : s.Lacks id)
    (hread : c.invocation.isReading = true) (he : c.next L w s = some e) :
    e.client.Avoids L id := by
  obtain ⟨operation, cookies, hinvocation, ⟨hstage, rfl⟩ | ⟨hstage, hanswer⟩⟩ :=
    next_reading hread he
  · rw [enter]
    cases AuthenticationServer.secured L w.currentTimeMillis .authenticated cookies with
    | ok a => exact avoids_of_stage L id (Or.inr rfl)
    | error err =>
      refine avoids_finish (by rintro _ ⟨⟩) fun accountId _ hp _ => ?_
      have hnone := userPrincipal_of_request hinvocation (hvalid.starting hstage)
      rw [show c.userPrincipal = _ from hp] at hnone
      cases hnone
  · cases hanswer with
    | inl hlist =>
      obtain ⟨rfl, rfl⟩ := hlist
      refine avoids_finish (fun result hr => ?_) fun _ hon _ _ => ?_
      · rw [getAccounts, preAuthorize] at hr
        obtain rfl : Result.accountDTOs (s.accounts.map AccountRow.assembleDto) = result :=
          Except.ok.inj hr
        intro a ha
        obtain ⟨row, hrow, rfl⟩ := List.mem_map.mp ha
        exact hlacks.accounts row hrow
      · exact absurd hon (not_onAccount hinvocation rfl (by rintro _ ⟨⟩))
    | inr hinfo =>
      obtain ⟨rfl, rfl⟩ := hinfo
      rw [getAccountInfo_eq hinvocation]
      refine avoids_finish (fun result hr => ?_) fun accountId _ hp hid => ?_
      · cases hl : c.userPrincipal >>= getAccountOfSecurityContext s with
        | error e =>
          rw [hl] at hr
          cases hr
        | ok a =>
          rw [hl] at hr
          obtain rfl : Result.accountDTO a.assembleDto = result := Except.ok.inj hr
          obtain ⟨_, _, ha⟩ := Fallible.bind_eq_ok.mp hl
          obtain ⟨_, _, hfind⟩ := getAccountOfSecurityContext_eq_ok ha
          exact hlacks.accounts a (findById_eq_some hfind).1
      · rw [lookup_eq_notFound hlacks hp hid]
        rfl

end Client

theorem Client.avoids_next {L : Libraries H Salt} {s : State H} {i : ℕ} {c : Client H}
    {w : Ambient Salt} {e : Effect H} {id : UUID} (hinv : Invariant L s) (hspent : Spent s id)
    (hlacks : s.store.Lacks id) (hc : s.clients[i]? = some c) (he : c.next L w s.store = some e)
    (hf : s.Fresh e) (h : c.Avoids L id) : e.client.Avoids L id := by
  have hvalid := hinv.valid i c hc
  by_cases hread : c.invocation.isReading = true
  · exact avoids_reading hvalid hlacks hread he
  have hinfo : ∀ cookies, c.invocation ≠ .request .getAccountInfo cookies := by
    intro cookies hi
    rw [hi] at hread
    exact hread rfl
  cases next_cases he with
  | prepared invocation stage =>
    refine ⟨fun account hs => ?_, by rintro _ ⟨⟩, by rintro _ ⟨⟩, by rintro _ ⟨⟩, ?_⟩
    · obtain rfl := Stage.save.inj hs
      rw [Registration.account_id]
      rintro rfl
      exact hf.2 _ List.mem_cons_self hspent.used
    · rintro _ _ ⟨⟩
  | @committed caller r account rows invocation stage commit =>
    refine avoids_finish (fun result hr => ?_) fun _ hon =>
      absurd hon (not_onAccount invocation rfl (by rintro _ ⟨⟩))
    obtain rfl := Except.ok.inj hr
    cases caller with
    | api => exact h.save account stage
    | other => exact h.save account stage
  | matched invocation stage credential =>
    refine ⟨by rintro _ ⟨⟩, fun account hs => ?_, by rintro _ ⟨⟩, by rintro _ ⟨⟩, ?_⟩
    · obtain rfl := Stage.sign.inj hs
      obtain ⟨row, hlogin, rfl⟩ := credentialAccount_eq_ok_iff.mp credential
      cases hlogin with
      | device found => exact hlacks.credentialIOSDevices _ (findByVendorId_eq_some found).1
      | email _ found => exact hlacks.credentialPasswords _ (findByEmail_eq_some found).1
    · rintro _ _ ⟨⟩
  | signed invocation stage =>
    refine avoids_finish (fun result hr => ?_) fun _ hon =>
      absurd hon (not_onAccount invocation rfl (by rintro _ ⟨⟩))
    obtain rfl := Except.ok.inj hr
    exact ⟨w, _, rfl, h.sign _ stage⟩
  | admitted => exact avoids_of_stage L id (Or.inr rfl)
  | found _ _ lookup =>
    refine ⟨by rintro _ ⟨⟩, by rintro _ ⟨⟩, fun account hs => ?_, by rintro _ ⟨⟩, ?_⟩
    · obtain rfl := Stage.delete.inj hs
      obtain ⟨_, _, ha⟩ := Fallible.bind_eq_ok.mp lookup
      obtain ⟨_, _, hfind⟩ := getAccountOfSecurityContext_eq_ok ha
      exact hlacks.accounts _ (findById_eq_some hfind).1
    · rintro _ _ ⟨⟩
  | removed _ stage =>
    refine avoids_finish (fun result hr => ?_) fun accountId _ hp hid => ?_
    · obtain rfl := Except.ok.inj hr
      exact trivial
    · -- the principal would name the account that was looked up
      have hacts : c.ActsFor id := ⟨accountId, hp, hid⟩
      exact absurd (ActsFor.unique (hvalid.deleting _ stage) hacts) (h.delete _ stage)
  | notFound _ _ lookup =>
    refine avoids_finish (by rintro _ ⟨⟩) fun accountId _ hp hid => ?_
    have hl := lookup.symm.trans (lookup_eq_notFound hlacks hp hid)
    rw [Except.error.inj hl]
  | failed presentedAt _ _ deletion =>
    refine avoids_finish (by rintro _ ⟨⟩) fun accountId hon hp _ => ?_
    obtain hdeletion | ⟨cookies, hi⟩ := hon
    · obtain ⟨stage, cookies, hi⟩ := deletion hdeletion
      have hnone := userPrincipal_of_request hi (hvalid.starting stage)
      rw [show c.userPrincipal = _ from hp] at hnone
      cases hnone
    · exact absurd hi (hinfo cookies)
  | answered _ invocation => exact absurd invocation hread

/-- The call has not looked at the tables: it was not called yet, or it has come to the end of the
filter chain at most. -/
def State.Unread (s : State H) (i : ℕ) : Prop :=
  ∀ b, s.clients[i]? = some b → b.stage = .start ∨ b.stage = .secured

/-- What holds in a later state `t` of the run, once the account was removed in `s`. -/
structure StaysAway (L : Libraries H Salt) (s t : State H) (id : UUID) : Prop where
  invariant : Invariant L t
  spent : Spent t id
  accounts : ∀ b ∈ t.store.accounts, b.id ≠ id
  avoids : ∀ (i : ℕ) (c : Client H), t.clients[i]? = some c → s.Unread i → c.Avoids L id

theorem StaysAway.lacks {L : Libraries H Salt} {s t : State H} {id : UUID}
    (h : StaysAway L s t id) : t.store.Lacks id := h.invariant.wellFormed.lacks h.accounts

theorem StaysAway.step {L : Libraries H Salt} {s t t' : State H} {id : UUID} {a : Action Salt}
    (h : StaysAway L s t id) (hs : step L t a = some t') : StaysAway L s t' id where
  invariant := h.invariant.step hs
  spent := h.spent.step hs
  accounts := notMem_accounts_step h.invariant h.spent h.accounts hs
  avoids := by
    intro j d hd hunread
    cases a with
    | call invocation =>
      obtain rfl := Option.some.inj hs
      cases clients_add hd with
      | inl hold => exact h.avoids j d hold hunread
      | inr hnew => exact hnew.2 ▸ Client.avoids_of_stage L id (Or.inl rfl)
    | advance i w =>
      obtain ⟨c, e, hc, he, hf, rfl⟩ := step_advance hs
      cases clients_apply hd with
      | inl hself =>
        obtain ⟨rfl, rfl⟩ := hself
        exact Client.avoids_next h.invariant h.spent h.lacks hc he hf (h.avoids j c hc hunread)
      | inr hother => exact h.avoids j d hother.2 hunread

theorem staysAway_of_removed {L : Libraries H Salt} {s : State H}
    (hreach : Reachable (step L) init s) {id : UUID} (hremoved : s.Removed id) :
    StaysAway L s s id where
  invariant := invariant_of_reachable hreach
  spent := (departed_of_reachable hreach).removed id hremoved
  accounts := fun b hb hid => ((stored_of_reachable hreach id).mp ⟨b, hb, hid⟩).2 hremoved
  avoids := fun _ c hc hunread => Client.avoids_of_stage L id (hunread c hc)

/-- After an account was removed, in every run from there: no row of it comes back, and no call
that has not looked at the tables before builds, finds or returns it, or signs a token for it.
Those that read or delete the account of their principal, with a token for this account, end with
`NotFoundException`. -/
theorem removed_account_stays_away {L : Libraries H Salt} {s t : State H} {as : List (Action Salt)}
    (hreach : Reachable (step L) init s) {id : UUID} (hremoved : s.Removed id)
    (hrun : exec (step L) s as = some t) :
    t.store.Lacks id ∧
      ∀ (i : ℕ) (c : Client H), t.clients[i]? = some c → s.Unread i → c.Avoids L id := by
  have haway : StaysAway L s t id :=
    exec_invariant (I := fun t => StaysAway L s t id) (fun _ _ _ h hs => h.step hs)
      (staysAway_of_removed hreach hremoved) hrun
  exact ⟨haway.lacks, haway.avoids⟩

/-- An account is registered and deleted. -/
def removedRun : List (Action ℕ) :=
  [.call (.create .other (.email "e@x" "password")),
    .advance 0 (Symbolic.ambient 0 0), .advance 0 (Symbolic.ambient 0 0),
    .call (.deleteAccount (some ⟨some (UUID.toString ⟨0, 0⟩)⟩)),
    .advance 1 (Symbolic.ambient 1 0), .advance 1 (Symbolic.ambient 1 0)]

/-- It is deleted again. -/
def repeatedDeletion : List (Action ℕ) :=
  [.call (.deleteAccount (some ⟨some (UUID.toString ⟨0, 0⟩)⟩)), .advance 2 (Symbolic.ambient 2 0)]

theorem removed_account_stays_away_repeatedDeletion :
    ∃ s t, ∃ c : Client (ℕ × String), exec (step Symbolic.libraries) init removedRun = some s ∧
      exec (step Symbolic.libraries) s repeatedDeletion = some t ∧ t.clients[2]? = some c ∧
      c.stage = .done (.error (.notFoundException (noAccountMessage (UUID.toString ⟨0, 0⟩)))) := by
  have hrun : (exec (step Symbolic.libraries) init removedRun).any (fun s =>
      s.log.any (fun x => match x.2 with
        | .remove account _ => account.id = ⟨0, 0⟩
        | .insert _ => false) ∧
      s.clients.length = 2 ∧
      (exec (step Symbolic.libraries) s repeatedDeletion).any fun t =>
        t.clients[2]?.any fun c =>
          c.invocation = .deleteAccount (some ⟨some (UUID.toString ⟨0, 0⟩)⟩) ∧ c.isDone) = true := by
    decide +kernel
  obtain ⟨s, hs, h⟩ := (Option.any_eq_true _ _).mp hrun
  obtain ⟨hlog, hlength, hrest⟩ := of_decide_eq_true h
  obtain ⟨t, ht, hended⟩ := (Option.any_eq_true _ _).mp hrest
  obtain ⟨c, hc, hcall⟩ := (Option.any_eq_true _ _).mp hended
  obtain ⟨hinvocation, hdone⟩ := of_decide_eq_true hcall
  have hremoved : s.Removed ⟨0, 0⟩ := by
    obtain ⟨⟨i, write⟩, hmem, hwrite⟩ := List.any_eq_true.mp hlog
    cases write with
    | insert rows => cases hwrite
    | remove account rows => exact ⟨i, account, rows, hmem, of_decide_eq_true hwrite⟩
  have hunread : s.Unread 2 := by
    intro b hb
    rw [List.getElem?_eq_none (by omega)] at hb
    cases hb
  have havoids := (removed_account_stays_away ⟨_, hs⟩ hremoved ht).2 2 c hc hunread
  refine ⟨s, t, c, hs, ht, hc, havoids.refused _ (Or.inl ?_) hdone ?_ (UUID.fromString_toString _)⟩
  · rw [hinvocation]
    rfl
  · rw [Client.userPrincipal, hinvocation]

end AuthenticationServer
