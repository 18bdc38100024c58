import AuthenticationServer.System.Ledger

/-!
# Identities of entities

The three tables have a primary key each, and nothing in the database keeps an id of one table
out of another. The ids are drawn when the entities are built, so that all stored entities, of
whatever class, and all accounts that wait for their commit have different ids. This is what
`BaseEntity.equals` and the credential tables, which share one abstract class, rely on.

## Main definitions

- `Store.idCount`, `Client.idCount` - how often an id occurs in the tables, and in a call
- `Identified` - no id occurs twice, and all of them were drawn

## Main results

- `identified_of_reachable` - every reachable state is so
- `entities_identified` - the equality and the lookups of stored entities
-/

namespace AuthenticationServer

open Java Table Machine State

variable {H Salt : Type}

/-- The ids of a new account: its own, and those of its credentials. -/
def Account.ids (a : Account H) : List UUID :=
  a.id :: a.credentials.map fun
    | .password c => c.id
    | .iosDevice c => c.id

theorem Registration.account_ids (L : Libraries H Salt) (w : Ambient Salt) (r : Registration) :
    (r.account L w).ids = [w.accountId, w.credentialId] := by
  cases r <;> rfl

/-- How many stored entities have the id. -/
def Store.idCount (s : Store H) (id : UUID) : ℕ := (s.entities.map BaseEntity.id).count id

/-- How often the id occurs in the account that the call is about to commit. -/
def Client.idCount (c : Client H) (id : UUID) : ℕ :=
  match c.stage with
  | .save account => account.ids.count id
  | _ => 0

/-- How often the id occurs among the entities that are stored or about to be. -/
def State.idCount (s : State H) (id : UUID) : ℕ :=
  s.store.idCount id + (s.clients.map fun c => c.idCount id).sum

theorem Store.idCount_append (s t : Store H) (id : UUID) :
    (s ++ t).idCount id = s.idCount id + t.idCount id := by
  simp only [idCount, entities, credentialEntities, accounts_append, credentialPasswords_append,
    credentialIOSDevices_append, List.map_append, List.count_append]
  omega

theorem Store.idCount_filter_le (s : Store H) (p : UUID → Bool) (id : UUID) :
    (s.filter p).idCount id ≤ s.idCount id := by
  have hle : ∀ {α : Type} (f : α → BaseEntity H) (rows : List α) (q : α → Bool),
      (((rows.filter q).map f).map BaseEntity.id).count id ≤
        ((rows.map f).map BaseEntity.id).count id := by
    intro α f rows q
    exact ((List.filter_sublist.map f).map BaseEntity.id).count_le id
  simp only [idCount, entities, credentialEntities, filter, List.map_append, List.count_append]
  exact Nat.add_le_add (hle _ _ _) (Nat.add_le_add (hle _ _ _) (hle _ _ _))

theorem Registration.idCount_rows (L : Libraries H Salt) (w : Ambient Salt) (r : Registration)
    (id : UUID) : (r.rows L w).idCount id = [w.accountId, w.credentialId].count id := by
  cases r <;> rfl

/-- No id occurs twice, and all of them were drawn. -/
structure Identified (s : State H) : Prop where
  unique : ∀ id, s.idCount id ≤ 1
  used : ∀ id, 0 < s.idCount id → id ∈ s.usedIds

theorem identified_init : Identified (H := H) init where
  unique := by intro id; exact Nat.zero_le 1
  used := by rintro id ⟨⟩

theorem idCount_add (s : State H) (invocation : Invocation) (id : UUID) :
    (s.add invocation).idCount id = s.idCount id := by
  rw [State.idCount, State.idCount, add, List.map_append, List.sum_append]
  rfl

theorem idCount_apply {s : State H} {i : ℕ} {c : Client H} {e : Effect H}
    (hc : s.clients[i]? = some c) (id : UUID) :
    (s.apply i e).idCount id + s.store.idCount id + c.idCount id =
      s.idCount id + (s.apply i e).store.idCount id + e.client.idCount id := by
  have hsum := sum_set_add (f := fun c : Client H => c.idCount id) (t := e.client) hc
  simp only [State.idCount]
  have hclients : (s.apply i e).clients = s.clients.set i e.client := rfl
  rw [hclients]
  omega

/-- A step draws new ids, or moves the ids of an account from its call to the tables, or forgets
ids. -/
theorem Client.Next.idCount {L : Libraries H Salt} {s : State H} (hinv : Invariant L s) {i : ℕ}
    {c : Client H} {w : Ambient Salt} {e : Effect H} (hc : s.clients[i]? = some c)
    (h : Client.Next L w s.store c e) (id : UUID) :
    (s.apply i e).store.idCount id + e.client.idCount id ≤
      s.store.idCount id + c.idCount id + e.drawnIds.count id := by
  cases h with
  | @prepared caller r invocation stage valid =>
    have hstore : (s.apply i { c.proceed (.save (r.account L w)) with
        drawnIds := [w.accountId, w.credentialId] }).store = s.store := store_apply_none rfl
    rw [hstore]
    have hids : ({ c.proceed (.save (r.account L w)) with
        drawnIds := [w.accountId, w.credentialId] } : Effect H).client.idCount id =
          [w.accountId, w.credentialId].count id := by
      rw [← Registration.account_ids L w r]
      rfl
    rw [hids]
    change _ ≤ _ + [w.accountId, w.credentialId].count id
    omega
  | @committed caller r account rows invocation stage commit =>
    obtain ⟨w', rfl, rfl, _⟩ := hinv.commit hc invocation stage commit
    rw [store_apply_insert rfl, Store.idCount_append, Registration.idCount_rows]
    have hbefore : c.idCount id = [w'.accountId, w'.credentialId].count id := by
      rw [Client.idCount, stage, ← Registration.account_ids L w' r]
    have hafter : (c.finish (.ok (caller.result (r.account L w')))).client.idCount id = 0 := rfl
    change _ + _ + (c.finish (.ok (caller.result (r.account L w')))).client.idCount id ≤ _
    omega
  | @removed account deletion stage =>
    have hstore : (s.apply i (c.remove s.store account)).store = s.store.without account.id :=
      store_apply_remove rfl
    rw [hstore]
    have hless := s.store.idCount_filter_le (fun x => !decide (x = account.id)) id
    change (s.store.without account.id).idCount id + 0 ≤ _
    exact le_trans hless (by omega)
  | _ =>
    rw [store_apply_none rfl]
    exact Nat.add_le_add (Nat.add_le_add_left (Nat.zero_le _) _) (Nat.zero_le _)

theorem Identified.step {L : Libraries H Salt} {s s' : State H} {a : Action Salt}
    (h : Identified s) (hinv : Invariant L s) (hs : step L s a = some s') : Identified s' := by
  cases a with
  | call invocation =>
    obtain rfl := Option.some.inj hs
    refine ⟨fun id => ?_, fun id hid => ?_⟩
    · rw [idCount_add]
      exact h.unique id
    · rw [idCount_add] at hid
      exact h.used id hid
  | advance i w =>
    obtain ⟨c, e, hc, he, hf, rfl⟩ := step_advance hs
    -- an id that is drawn did not occur before
    have hgrow : ∀ id, (s.apply i e).idCount id ≤ s.idCount id + e.drawnIds.count id := by
      intro id
      have hequation := idCount_apply (e := e) hc id
      have hstep := (Client.next_cases he).idCount hinv hc id
      omega
    have hnew : ∀ id ∈ e.drawnIds, s.idCount id = 0 := by
      intro id hid
      by_contra hne
      exact hf.2 id hid (h.used id (Nat.pos_of_ne_zero hne))
    refine ⟨fun id => ?_, fun id hid => ?_⟩
    · have hone := List.nodup_iff_count_le_one.mp hf.1 id
      by_cases hdrawn : id ∈ e.drawnIds
      · have hzero := hnew id hdrawn
        have hg := hgrow id
        omega
      · have hnone := List.count_eq_zero.mpr hdrawn
        have hg := hgrow id
        have hu := h.unique id
        omega
    · by_cases hdrawn : id ∈ e.drawnIds
      · exact List.mem_append_right _ hdrawn
      · have hnone := List.count_eq_zero.mpr hdrawn
        have hg := hgrow id
        exact List.mem_append_left _ (h.used id (by omega))

theorem identified_of_reachable {L : Libraries H Salt} {s : State H}
    (h : Reachable (step L) init s) : Identified s :=
  h.invariant_of_reachable (fun _ _ _ hr hi hs => hi.step (invariant_of_reachable hr) hs)
    identified_init

/-- In every reachable state, the stored entities of all classes have different ids, which were
all drawn. So two of them are equal, in the sense of their `equals`, exactly when they are the
same row, and a lookup over all credential tables finds each credential by its id. -/
theorem entities_identified {L : Libraries H Salt} {s : State H}
    (h : Reachable (step L) init s) :
    (s.store.entities.map BaseEntity.id).Nodup ∧
    (∀ e ∈ s.store.entities, e.id ∈ s.usedIds) ∧
    (∀ e ∈ s.store.entities, ∀ e' ∈ s.store.entities, e.equals (some e') = true ↔ e = e') ∧
    ∀ c ∈ s.store.credentialEntities, CredentialRepository.findById s.store c.id = .ok (some c) := by
  have hidentified := identified_of_reachable h
  have hcount : ∀ id, s.store.idCount id ≤ s.idCount id := fun id => Nat.le_add_right _ _
  have hunique : Unique BaseEntity.id s.store.entities :=
    List.nodup_iff_count_le_one.mpr fun id => le_trans (hcount id) (hidentified.unique id)
  refine ⟨hunique, fun e he => ?_, fun e he e' he' => ?_, fun c hc => ?_⟩
  · refine hidentified.used e.id (lt_of_lt_of_le ?_ (hcount e.id))
    exact List.count_pos_iff.mpr (List.mem_map.mpr ⟨e, he, rfl⟩)
  · constructor
    · intro hequals
      have hid : e.id = e'.id := of_decide_eq_true hequals
      exact List.inj_on_of_nodup_map hunique he he' hid
    · rintro rfl
      exact decide_eq_true rfl
  · have hcredentials : Unique BaseEntity.id s.store.credentialEntities := by
      rw [Table.Unique, Store.entities, List.map_append] at hunique
      exact (List.nodup_append.mp hunique).2.1
    rw [CredentialRepository.findById, hcredentials.rowsWith_eq_singleton hc]

theorem entities_identified_reregistration :
    ∃ s, exec (step Symbolic.libraries) init reregistration = some s ∧
      s.store.entities.map BaseEntity.id = [⟨0, 6⟩, ⟨0, 7⟩] ∧
      ∀ c ∈ s.store.credentialEntities,
        CredentialRepository.findById s.store c.id = .ok (some c) := by
  have hrun : (exec (step Symbolic.libraries) init reregistration).any (fun s =>
      s.store.entities.map BaseEntity.id = [⟨0, 6⟩, ⟨0, 7⟩]) = true := by
    decide +kernel
  obtain ⟨s, hs, hids⟩ := (Option.any_eq_true _ _).mp hrun
  obtain ⟨_, _, _, hlookup⟩ := entities_identified ⟨_, hs⟩
  exact ⟨s, hs, of_decide_eq_true hids, hlookup⟩

end AuthenticationServer
