import AuthenticationServer.Services.SymbolicLibraries
import AuthenticationServer.System.Invariant

/-!
# What the calls of a run have written

Every committed change is the work of one call. Creations that returned have inserted the
rows of one account, all calls that have not returned have written nothing, and the accounts
created under a key are those deleted and those still stored.

## Main definitions

- `replay` - the tables after a list of changes
- `State.writesOf` - the changes that a call has committed
- `State.created`, `State.deleted` - how often a key was registered and freed

## Main results

- `ledger_of_reachable` - what the history of a run says about its calls and its tables
- `store_invariant` - the invariant of the tables and the account of all creations
-/

namespace AuthenticationServer

open Java Machine

variable {H Salt : Type}

/-- The tables after a list of changes. -/
def replay (log : List (ℕ × Write H)) : Store H :=
  log.foldl (fun s t => t.2.apply s) Store.empty

/-- The change removes a credential with the key. -/
def Write.frees (k : Key) : Write H → Bool
  | insert _ => false
  | remove _ rows => decide (rows.HasKey k)

/-- The call has registered the key. -/
def Client.hasCreated (k : Key) (c : Client H) : Bool :=
  match c.invocation, c.stage with
  | .create _ r, .done (.ok _) => r.key = k
  | _, _ => false

namespace State

/-- The changes that a call has committed. -/
def writesOf (s : State H) (i : ℕ) : List (Write H) :=
  (s.log.filter fun t => t.1 = i).map (·.2)

/-- The number of calls that have registered the key. -/
def created (s : State H) (k : Key) : ℕ := s.clients.countP fun c => c.hasCreated k

/-- The number of deletions that have freed the key. -/
def deleted (s : State H) (k : Key) : ℕ := s.log.countP fun t => t.2.frees k

end State

open State

/-- What the history of a run says about its calls and its tables. -/
structure Ledger (L : Libraries H Salt) (s : State H) : Prop where
  replayed : s.store = replay s.log
  indexed : ∀ t ∈ s.log, t.1 < s.clients.length
  silent : ∀ (i : ℕ) (c : Client H), s.clients[i]? = some c →
    (∀ result, c.stage ≠ .done (.ok result)) → s.writesOf i = []
  inserted : ∀ (i : ℕ) (c : Client H) (caller : Caller) (r : Registration) (result : Result H),
    s.clients[i]? = some c → c.invocation = .create caller r → c.stage = .done (.ok result) →
      ∃ w, result = caller.result (r.account L w) ∧ s.writesOf i = [.insert (r.rows L w)]
  counted : ∀ k, s.created k = s.deleted k + s.store.holders k

theorem ledger_init (L : Libraries H Salt) : Ledger L init where
  replayed := rfl
  indexed := by intro t ht; cases ht
  silent := by intro i c hc; cases hc
  inserted := by intro i c caller r result hc; cases hc
  counted := by intro k; cases k <;> rfl

theorem writesOf_length {s : State H} (h : ∀ t ∈ s.log, t.1 < s.clients.length) :
    s.writesOf s.clients.length = [] := by
  rw [writesOf, List.map_eq_nil_iff, List.filter_eq_nil_iff]
  intro t ht
  have hlt := h t ht
  simp only [decide_eq_true_eq]
  omega

theorem Ledger.add {L : Libraries H Salt} {s : State H} (h : Ledger L s)
    (invocation : Invocation) : Ledger L (s.add invocation) where
  replayed := h.replayed
  indexed := by
    intro t ht
    have hlt := h.indexed t ht
    rw [State.add, List.length_append]
    omega
  silent := by
    intro i c hc hstage
    rcases clients_add hc with hc | ⟨rfl, _⟩
    · exact h.silent i c hc hstage
    · exact writesOf_length h.indexed
  inserted := by
    intro i c caller r result hc hinv hstage
    rcases clients_add hc with hc | ⟨_, rfl⟩
    · exact h.inserted i c caller r result hc hinv hstage
    · cases hstage
  counted := by
    intro k
    have hcall : (Client.call invocation : Client H).hasCreated k = false := by
      cases invocation <;> rfl
    have hcount : (s.add invocation).created k = s.created k := by
      simp only [created, State.add, List.countP_append, List.countP_singleton, hcall]
      rfl
    rw [hcount]
    exact h.counted k

/-- Only the call that takes a step can commit a change. -/
theorem writesOf_apply (s : State H) (i j : ℕ) (e : Effect H) :
    (s.apply i e).writesOf j = s.writesOf j ++ if i = j then e.write.toList else [] := by
  rw [writesOf, writesOf, State.apply, List.filter_append, List.map_append]
  congr 1
  cases e.write with
  | none => simp
  | some write => by_cases hij : i = j <;> simp [hij]

theorem holders_le_one {s : Store H} (h : s.WellFormed) (k : Key) : s.holders k ≤ 1 := by
  cases k with
  | email e => exact h.emails.countP_le_one e
  | vendorId v => exact h.vendorIds.countP_le_one v

theorem holders_pos {s : Store H} {k : Key} : 0 < s.holders k ↔ s.HasKey k := by
  cases k <;> simp only [Store.holders, Store.HasKey, List.countP_pos_iff, decide_eq_true_eq]

/-- The deletion of an account takes away the holder of a key that it frees. -/
theorem holders_delete {s : Store H} (h : s.WellFormed) (account : AccountRow) (k : Key) :
    (delete s account).holders k +
      (if (Write.remove account (s.rowsOf account.id)).frees k then 1 else 0) = s.holders k := by
  have hsplit := s.holders_split (fun id => decide (id = account.id)) k
  have hone := holders_le_one h k
  change (s.rowsOf account.id).holders k + (s.without account.id).holders k = _ at hsplit
  rw [delete, Write.frees]
  by_cases hkey : (s.rowsOf account.id).HasKey k
  · have hpos := holders_pos.mpr hkey
    simp only [hkey, decide_true, if_true]
    omega
  · have hzero : ¬ 0 < (s.rowsOf account.id).holders k := fun hpos => hkey (holders_pos.mp hpos)
    simp only [hkey, decide_false, Bool.false_eq_true, if_false]
    omega

theorem created_apply {s : State H} {i : ℕ} {c : Client H} {e : Effect H}
    (hc : s.clients[i]? = some c) (hdone : c.isDone = false) (k : Key) :
    (s.apply i e).created k = s.created k + if e.client.hasCreated k then 1 else 0 := by
  have hset := Table.countP_set_add (q := fun c => c.hasCreated k) (t := e.client) hc
  have hnone : c.hasCreated k = false := by
    obtain ⟨invocation, stage, _, _⟩ := c
    cases stage with
    | done outcome => cases hdone
    | _ => cases invocation <;> rfl
  simp only [hnone, Bool.false_eq_true, if_false, Nat.add_zero] at hset
  exact hset

theorem deleted_apply (s : State H) (i : ℕ) (e : Effect H) (k : Key) :
    (s.apply i e).deleted k =
      s.deleted k + e.write.toList.countP fun write => write.frees k := by
  simp only [deleted, State.apply, List.countP_append, List.countP_map]
  rfl

theorem replay_concat (log : List (ℕ × Write H)) (i : ℕ) (write : Write H) :
    replay (log ++ [(i, write)]) = write.apply (replay log) := by
  rw [replay, List.foldl_append]
  rfl

theorem replay_take_succ {log : List (ℕ × Write H)} {n i : ℕ} {write : Write H}
    (h : log[n]? = some (i, write)) :
    replay (log.take (n + 1)) = write.apply (replay (log.take n)) := by
  rw [List.take_add_one, h, Option.toList_some, replay_concat]

theorem hasCreated_eq_false {c : Client H} {k : Key}
    (h : ∀ caller r result, c.invocation = .create caller r → c.stage ≠ .done (.ok result)) :
    c.hasCreated k = false := by
  obtain ⟨invocation, stage, _, _⟩ := c
  cases invocation with
  | create caller r =>
    cases stage with
    | done outcome =>
      cases outcome with
      | ok result => exact absurd rfl (h caller r result rfl)
      | error e => rfl
    | _ => rfl
  | _ => rfl

theorem Ledger.silent_of_not_done {L : Libraries H Salt} {s : State H} (h : Ledger L s) {i : ℕ}
    {c : Client H} (hc : s.clients[i]? = some c) (hdone : c.isDone = false) :
    s.writesOf i = [] := by
  refine h.silent i c hc fun result hstage => ?_
  rw [Client.isDone, hstage] at hdone
  cases hdone

theorem Ledger.counted_apply {L : Libraries H Salt} {s : State H} (h : Ledger L s)
    (hinv : Invariant L s) {i : ℕ} {w : Ambient Salt} {c : Client H}
    {e : Effect H} (hc : s.clients[i]? = some c) (hn : Client.Next L w s.store c e) (k : Key) :
    (s.apply i e).created k = (s.apply i e).deleted k + (s.apply i e).store.holders k := by
  obtain ⟨hinvocation, _, hdone, _⟩ := hn.frame
  rw [created_apply hc hdone, deleted_apply, h.counted k]
  -- a commit of a creation counts on both sides, and so does the deletion of a holder
  rcases hn.write_cases with ⟨hw, hnot⟩ | ⟨caller, r, account, rows, hi, hstage, hcommit, hw, hend⟩ |
    ⟨account, hi, _, hw, hend⟩
  · have hfalse : e.client.hasCreated k = false := by
      refine hasCreated_eq_false fun caller r result hi => hnot caller r result ?_
      rw [← hinvocation, hi]
    rw [hfalse, store_apply_none hw, hw]
    rfl
  · obtain ⟨w', rfl, rfl, _⟩ := hinv.commit hc hi hstage hcommit
    have hcreated : e.client.hasCreated k = decide (r.key = k) := by
      rw [Client.hasCreated, hinvocation, hi, hend]
    have hrows := Registration.holders_rows L w' r k
    rw [hcreated, store_apply_insert hw, Store.holders_append, hrows, hw]
    simp only [decide_eq_true_eq, Option.toList_some, List.countP_singleton, Write.frees,
      Bool.false_eq_true, if_false]
    omega
  · have hfalse : e.client.hasCreated k = false := by
      refine hasCreated_eq_false fun caller r result hcreate => ?_
      rw [hinvocation] at hcreate
      rw [hcreate] at hi
      cases hi
    have hdelete := holders_delete hinv.wellFormed account k
    rw [hfalse, store_apply_remove hw, hw]
    simp only [Option.toList_some, List.countP_singleton, Bool.false_eq_true, if_false]
    omega

theorem Ledger.apply {L : Libraries H Salt} {s : State H} (h : Ledger L s)
    (hinv : Invariant L s) {i : ℕ} {w : Ambient Salt} {c : Client H}
    {e : Effect H} (hc : s.clients[i]? = some c) (hn : Client.Next L w s.store c e) :
    Ledger L (s.apply i e) where
  replayed := by
    rw [State.apply]
    cases hw : e.write with
    | none => simpa using h.replayed
    | some write =>
      rw [Option.toList_some, List.map_singleton, replay_concat, ← h.replayed]
      rfl
  indexed := by
    intro t ht
    obtain ⟨hi, _⟩ := List.getElem?_eq_some_iff.mp hc
    rw [State.apply, List.length_set]
    rcases List.mem_append.mp ht with ht | ht
    · exact h.indexed t ht
    · obtain ⟨write, _, rfl⟩ := List.mem_map.mp ht
      exact hi
  silent := by
    intro j d hd hstage
    rcases clients_apply hd with ⟨rfl, rfl⟩ | ⟨hj, hd'⟩
    · rw [writesOf_apply, h.silent_of_not_done hc hn.frame.2.2.1]
      rcases hn.write_cases with ⟨hw, _⟩ | ⟨_, _, _, _, _, _, _, _, hend⟩ | ⟨_, _, _, _, hend⟩
      · rw [hw]; simp
      · exact absurd hend (hstage _)
      · exact absurd hend (hstage _)
    · rw [writesOf_apply, if_neg (Ne.symm hj), List.append_nil]
      exact h.silent j d hd' hstage
  inserted := by
    intro j d caller r result hd hi hstage
    rcases clients_apply hd with ⟨rfl, rfl⟩ | ⟨hj, hd'⟩
    · have hbefore := h.silent_of_not_done hc hn.frame.2.2.1
      rw [hn.frame.1] at hi
      rcases hn.write_cases with ⟨_, hnot⟩ | ⟨_, _, account, rows, hi', hs, hcommit, hw, hend⟩ |
        ⟨_, hi', _⟩
      · exact absurd hstage (hnot caller r result hi)
      · obtain ⟨rfl, rfl⟩ := Invocation.create.inj (hi.symm.trans hi')
        obtain ⟨w', rfl, rfl, _⟩ := hinv.commit hc hi hs hcommit
        refine ⟨w', Except.ok.inj (Stage.done.inj (hstage.symm.trans hend)), ?_⟩
        rw [writesOf_apply, hbefore, hw, if_pos rfl]
        rfl
      · rw [hi] at hi'
        cases hi'
    · rw [writesOf_apply, if_neg (Ne.symm hj), List.append_nil]
      exact h.inserted j d caller r result hd' hi hstage
  counted := h.counted_apply hinv hc hn

/-- The history of every run accounts for its calls and its tables. -/
theorem ledger_of_reachable {L : Libraries H Salt} {s : State H}
    (h : Reachable (step L) init s) : Ledger L s := by
  refine h.invariant_of_reachable ?_ (ledger_init L)
  intro s a s' hr hl hs
  rcases step_cases hs with ⟨invocation, rfl, rfl⟩ | ⟨i, w, c, e, rfl, hc, hn, _, rfl⟩
  · exact hl.add invocation
  · exact hl.apply (invariant_of_reachable hr) hc hn

/-- In every reachable state the tables are well-formed and are what the committed changes of
the calls have made of the empty tables. A creation that returned has inserted one account
row and one credential row, those of the account that it returned, and one that failed has
written nothing. A key was registered as often as it was freed, and once more exactly when a
stored credential has it. -/
theorem store_invariant {L : Libraries H Salt} {s : State H} (h : Reachable (step L) init s) :
    s.store.WellFormed ∧ s.store = replay s.log ∧
    (∀ (i : ℕ) (c : Client H) (caller : Caller) (r : Registration), s.clients[i]? = some c →
      c.invocation = .create caller r →
        (∀ result, c.stage = .done (.ok result) →
          ∃ w, result = caller.result (r.account L w) ∧ s.writesOf i = [.insert (r.rows L w)]) ∧
        (∀ e, c.stage = .done (.error e) → s.writesOf i = [])) ∧
    ∀ k, s.created k = s.deleted k + s.store.holders k ∧ s.store.holders k ≤ 1 := by
  have hledger := ledger_of_reachable h
  have hwf := wellFormed_of_reachable h
  refine ⟨hwf, hledger.replayed, ?_, fun k => ⟨hledger.counted k, holders_le_one hwf k⟩⟩
  intro i c caller r hc hinv
  refine ⟨fun result hstage => hledger.inserted i c caller r result hc hinv hstage, ?_⟩
  intro e hstage
  refine hledger.silent i c hc fun result hok => ?_
  rw [hstage] at hok
  cases hok

/-- Two calls register one email, the account is deleted, and the email is registered again. -/
def reregistration : List (Action ℕ) :=
  [.call (.create .other (.email "e@x" "password")),
    .call (.create .other (.email "e@x" "password")),
    .call (.deleteAccount (some ⟨some (Symbolic.ambient 0 0).accountId.toString⟩)),
    .call (.create .other (.email "e@x" "password")),
    .advance 0 (Symbolic.ambient 0 0), .advance 1 (Symbolic.ambient 1 0),
    .advance 0 (Symbolic.ambient 0 0), .advance 1 (Symbolic.ambient 1 0),
    .advance 2 (Symbolic.ambient 2 0), .advance 2 (Symbolic.ambient 2 0),
    .advance 3 (Symbolic.ambient 3 0), .advance 3 (Symbolic.ambient 3 0)]

theorem store_invariant_reregistration :
    ∃ s, exec (step Symbolic.libraries) init reregistration = some s ∧ s.store.WellFormed ∧
      s.created (.email "e@x") = 2 ∧ s.deleted (.email "e@x") = 1 ∧
      s.store.holders (.email "e@x") = 1 := by
  have hrun : (exec (step Symbolic.libraries) init reregistration).any (fun s =>
      s.created (.email "e@x") = 2 ∧ s.deleted (.email "e@x") = 1) = true := by
    decide +kernel
  obtain ⟨s, hs, hcounts⟩ := (Option.any_eq_true _ _).mp hrun
  obtain ⟨hcreated, hdeleted⟩ := of_decide_eq_true hcounts
  obtain ⟨hwf, _, _, hkeys⟩ := store_invariant ⟨_, hs⟩
  have hcount := (hkeys (.email "e@x")).1
  exact ⟨s, hs, hwf, hcreated, hdeleted, by omega⟩

end AuthenticationServer
