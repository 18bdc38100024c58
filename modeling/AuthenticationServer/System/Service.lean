import AuthenticationServer.Library.Machine
import AuthenticationServer.System.Client

/-!
# The running service

Any number of calls on one database, in any interleaving of their steps.

## Main definitions

- `State` - the committed rows, the calls, and the history of the run
- `step` - a new call, or the next step of a call
- `Extends` - how a later state of a run continues an earlier one
- `Advances` - a run has a step of a call

## Main results

- `step_cases` - everything that a step can do
- `client_of_reachable` - the induction over a run, for a property of single calls
- `extends_of_exec` - ended calls stay as they are, ids and tokens are never forgotten
- `exists_advances` - the step at which a call has become what it is
- `exists_commit` - the step at which a change was committed
-/

namespace AuthenticationServer

open Java Machine

variable {H Salt : Type}

/-- The state of the service. Besides the committed rows and the calls it keeps what has
happened: the ids drawn, the tokens signed, and the committed changes with their calls. -/
structure State (H : Type) where
  store : Store H
  clients : List (Client H)
  usedIds : List UUID
  signed : List JwtBuilder
  log : List (ℕ × Write H)

/-- An action of the environment: a new call, or a turn for a call, with what it reads. -/
inductive Action (Salt : Type)
  | call (invocation : Invocation)
  | advance (client : ℕ) (w : Ambient Salt)

namespace State

def init : State H := ⟨Store.empty, [], [], [], []⟩

def add (s : State H) (invocation : Invocation) : State H :=
  { s with clients := s.clients ++ [Client.call invocation] }

/-- The state after a step of the call `i`. -/
def apply (s : State H) (i : ℕ) (e : Effect H) : State H where
  store := (e.write.map (Write.apply s.store)).getD s.store
  clients := s.clients.set i e.client
  usedIds := s.usedIds ++ e.drawnIds
  signed := s.signed ++ e.signed
  log := s.log ++ e.write.toList.map fun write => (i, write)

/-- The drawn ids are new: `UUID.randomUUID` does not repeat itself. -/
def Fresh (s : State H) (e : Effect H) : Prop :=
  e.drawnIds.Nodup ∧ ∀ id ∈ e.drawnIds, id ∉ s.usedIds

instance (s : State H) (e : Effect H) : Decidable (s.Fresh e) :=
  inferInstanceAs (Decidable (_ ∧ _))

end State

open State

def step (L : Libraries H Salt) (s : State H) : Action Salt → Option (State H)
  | .call invocation => some (s.add invocation)
  | .advance i w =>
    match s.clients[i]? with
    | some c =>
      match c.next L w s.store with
      | some e => if s.Fresh e then some (s.apply i e) else none
      | none => none
    | none => none

theorem step_advance {L : Libraries H Salt} {s s' : State H} {i : ℕ} {w : Ambient Salt}
    (h : step L s (.advance i w) = some s') :
    ∃ c e, s.clients[i]? = some c ∧ c.next L w s.store = some e ∧ s.Fresh e ∧
      s' = s.apply i e := by
  cases hc : s.clients[i]? with
  | none => simp [step, hc] at h
  | some c =>
    cases he : c.next L w s.store with
    | none => simp [step, hc, he] at h
    | some e =>
      by_cases hf : s.Fresh e
      · simp only [step, hc, he, if_pos hf, Option.some.injEq] at h
        exact ⟨c, e, rfl, he, hf, h.symm⟩
      · simp [step, hc, he, hf] at h

/-- Everything that a step can do. -/
theorem step_cases {L : Libraries H Salt} {s s' : State H} {a : Action Salt}
    (h : step L s a = some s') :
    (∃ invocation, a = .call invocation ∧ s' = s.add invocation) ∨
      ∃ i w c e, a = .advance i w ∧ s.clients[i]? = some c ∧ Client.Next L w s.store c e ∧
        s.Fresh e ∧ s' = s.apply i e := by
  cases a with
  | call invocation => exact Or.inl ⟨invocation, rfl, (Option.some.inj h).symm⟩
  | advance i w =>
    obtain ⟨c, e, hc, he, hf, hs⟩ := step_advance h
    exact Or.inr ⟨i, w, c, e, rfl, hc, Client.next_cases he, hf, hs⟩

/-! ## The tables and the calls after a step -/

theorem store_apply_none {s : State H} {i : ℕ} {e : Effect H} (h : e.write = none) :
    (s.apply i e).store = s.store := by
  rw [apply, h]
  rfl

theorem store_apply_insert {s : State H} {i : ℕ} {e : Effect H} {rows : Store H}
    (h : e.write = some (.insert rows)) : (s.apply i e).store = s.store ++ rows := by
  rw [apply, h]
  rfl

theorem store_apply_remove {s : State H} {i : ℕ} {e : Effect H} {account : AccountRow}
    {rows : Store H} (h : e.write = some (.remove account rows)) :
    (s.apply i e).store = delete s.store account := by
  rw [apply, h]
  rfl

theorem clients_add {s : State H} {invocation : Invocation} {j : ℕ} {d : Client H}
    (h : (s.add invocation).clients[j]? = some d) :
    s.clients[j]? = some d ∨ j = s.clients.length ∧ d = Client.call invocation := by
  rcases Nat.lt_or_ge j s.clients.length with hj | hj
  · rw [add, List.getElem?_append_left hj] at h
    exact Or.inl h
  · rw [add, List.getElem?_append_right hj] at h
    obtain ⟨hlt, hd⟩ := List.getElem?_eq_some_iff.mp h
    rw [List.length_singleton] at hlt
    refine Or.inr ⟨by omega, ?_⟩
    rw [← hd]
    simp only [List.getElem_singleton]

theorem clients_add_of {s : State H} {invocation : Invocation} {j : ℕ} {d : Client H}
    (h : s.clients[j]? = some d) : (s.add invocation).clients[j]? = some d := by
  obtain ⟨hj, _⟩ := List.getElem?_eq_some_iff.mp h
  rw [add, List.getElem?_append_left hj, h]

theorem clients_apply {s : State H} {i : ℕ} {e : Effect H} {j : ℕ} {d : Client H}
    (h : (s.apply i e).clients[j]? = some d) :
    j = i ∧ d = e.client ∨ j ≠ i ∧ s.clients[j]? = some d := by
  rw [apply, List.getElem?_set] at h
  by_cases hij : i = j
  · rw [if_pos hij] at h
    split at h
    · exact Or.inl ⟨hij.symm, (Option.some.inj h).symm⟩
    · cases h
  · rw [if_neg hij] at h
    exact Or.inr ⟨Ne.symm hij, h⟩

theorem clients_apply_self {s : State H} {i : ℕ} {e : Effect H} {c : Client H}
    (h : s.clients[i]? = some c) : (s.apply i e).clients[i]? = some e.client := by
  obtain ⟨hi, _⟩ := List.getElem?_eq_some_iff.mp h
  rw [apply, List.getElem?_set_self hi]

theorem clients_apply_of_ne {s : State H} {i : ℕ} {e : Effect H} {j : ℕ} (h : j ≠ i) :
    (s.apply i e).clients[j]? = s.clients[j]? := by
  rw [apply, List.getElem?_set_ne h.symm]

/-- What new calls have, and steps from reachable states keep, all calls of a reachable state
have. -/
theorem client_of_reachable {L : Libraries H Salt} {P : Client H → Prop}
    (hcall : ∀ invocation, P (Client.call invocation))
    (hnext : ∀ (s : State H) (w : Ambient Salt) (c : Client H) (e : Effect H),
      Reachable (step L) init s → P c → c.next L w s.store = some e → P e.client)
    {s : State H} (h : Reachable (step L) init s) {i : ℕ} {c : Client H}
    (hc : s.clients[i]? = some c) : P c := by
  have hall : ∀ (i : ℕ) (c : Client H), s.clients[i]? = some c → P c := by
    refine h.invariant_of_reachable
      (I := fun s => ∀ (i : ℕ) (c : Client H), s.clients[i]? = some c → P c)
      ?_ (fun i c hc => by cases hc)
    intro t a t' hreach ht hs j d hd
    cases a with
    | call invocation =>
      obtain rfl := Option.some.inj hs
      rcases clients_add hd with hd | ⟨_, rfl⟩
      · exact ht j d hd
      · exact hcall invocation
    | advance k w =>
      obtain ⟨b, e, hb, he, _, rfl⟩ := step_advance hs
      rcases clients_apply hd with ⟨rfl, rfl⟩ | ⟨_, hd⟩
      · exact hnext t w b e hreach (ht j b hb) he
      · exact ht j d hd
  exact hall i c hc

/-! ## The history of a run -/

/-- A step of a call keeps its invocation and, once its cookies were checked, what it was
admitted with; only a call that has not ended takes a step. -/
theorem Client.Next.frame {L : Libraries H Salt} {w : Ambient Salt} {s : Store H} {c : Client H}
    {e : Effect H} (h : Client.Next L w s c e) :
    e.client.invocation = c.invocation ∧ e.client.stage ≠ .start ∧ c.isDone = false ∧
      (c.stage ≠ .start → e.client.authentication = c.authentication) := by
  have hne : e.client.stage ≠ .start := by
    cases h <;> intro hstage <;> cases hstage
  cases h with
  | prepared _ stage => exact ⟨rfl, hne, by rw [isDone, stage], fun _ => rfl⟩
  | committed _ stage => exact ⟨rfl, hne, by rw [isDone, stage], fun _ => rfl⟩
  | matched _ stage => exact ⟨rfl, hne, by rw [isDone, stage], fun _ => rfl⟩
  | signed _ stage => exact ⟨rfl, hne, by rw [isDone, stage], fun _ => rfl⟩
  | admitted _ stage => exact ⟨rfl, hne, by rw [isDone, stage], fun h => absurd stage h⟩
  | found _ stage => exact ⟨rfl, hne, stage, fun _ => rfl⟩
  | removed _ stage => exact ⟨rfl, hne, by rw [isDone, stage], fun _ => rfl⟩
  | notFound _ stage => exact ⟨rfl, hne, stage, fun _ => rfl⟩
  | failed _ _ stage => exact ⟨rfl, hne, stage, fun _ => rfl⟩
  | answered _ _ stage => exact ⟨rfl, hne, by rw [isDone, stage], fun _ => rfl⟩

/-- How the state `t` continues the state `s`. -/
structure Extends (s t : State H) : Prop where
  /-- ended calls stay as they are -/
  done : ∀ (i : ℕ) (c : Client H), s.clients[i]? = some c → c.isDone = true → t.clients[i]? = some c
  /-- calls keep their invocation and the authentication that they were admitted with -/
  calls : ∀ (i : ℕ) (c : Client H), s.clients[i]? = some c → ∃ d, t.clients[i]? = some d ∧
    d.invocation = c.invocation ∧
    (c.stage ≠ .start → d.stage ≠ .start ∧ d.authentication = c.authentication)
  usedIds : s.usedIds ⊆ t.usedIds
  signed : s.signed ⊆ t.signed

theorem Extends.refl (s : State H) : Extends s s where
  done _ _ hc _ := hc
  calls _ c hc := ⟨c, hc, rfl, fun h => ⟨h, rfl⟩⟩
  usedIds := List.Subset.refl _
  signed := List.Subset.refl _

theorem Extends.trans {s t u : State H} (h₁ : Extends s t) (h₂ : Extends t u) : Extends s u where
  done i c hc hd := h₂.done i c (h₁.done i c hc hd) hd
  calls := by
    intro i c hc
    obtain ⟨d, hd, hinv, hauth⟩ := h₁.calls i c hc
    obtain ⟨d', hd', hinv', hauth'⟩ := h₂.calls i d hd
    refine ⟨d', hd', hinv'.trans hinv, fun hstage => ?_⟩
    obtain ⟨hs, ha⟩ := hauth hstage
    obtain ⟨hs', ha'⟩ := hauth' hs
    exact ⟨hs', ha'.trans ha⟩
  usedIds := List.Subset.trans h₁.usedIds h₂.usedIds
  signed := List.Subset.trans h₁.signed h₂.signed

theorem extends_of_step {L : Libraries H Salt} {s s' : State H} {a : Action Salt}
    (h : step L s a = some s') : Extends s s' := by
  rcases step_cases h with ⟨invocation, rfl, rfl⟩ | ⟨i, w, c, e, rfl, hc, hn, _, rfl⟩
  · exact ⟨fun _ _ hd _ => clients_add_of hd,
      fun _ d hd => ⟨d, clients_add_of hd, rfl, fun h => ⟨h, rfl⟩⟩,
      List.Subset.refl _, List.Subset.refl _⟩
  · obtain ⟨hinv, hstart, hdone, hauth⟩ := hn.frame
    refine ⟨?_, ?_, List.subset_append_left _ _, List.subset_append_left _ _⟩
    · intro j d hd hdd
      by_cases hj : j = i
      · subst hj
        obtain rfl : c = d := Option.some.inj (hc.symm.trans hd)
        rw [hdone] at hdd
        cases hdd
      · rw [clients_apply_of_ne hj, hd]
    · intro j d hd
      by_cases hj : j = i
      · subst hj
        obtain rfl : c = d := Option.some.inj (hc.symm.trans hd)
        exact ⟨e.client, clients_apply_self hc, hinv, fun h => ⟨hstart, hauth h⟩⟩
      · exact ⟨d, by rw [clients_apply_of_ne hj, hd], rfl, fun h => ⟨h, rfl⟩⟩

theorem extends_of_exec {L : Libraries H Salt} {s s' : State H} {as : List (Action Salt)}
    (h : exec (step L) s as = some s') : Extends s s' :=
  exec_relation Extends.refl (fun _ _ _ => Extends.trans) (fun _ _ _ => extends_of_step) h

/-- The run `as` has a step of the call `i`, from the state `t` to the state `t'`, which reads
`w`. -/
def Advances (L : Libraries H Salt) (as : List (Action Salt)) (i : ℕ) (w : Ambient Salt)
    (t t' : State H) : Prop :=
  ∃ before after, as = before ++ .advance i w :: after ∧ exec (step L) init before = some t ∧
    step L t (.advance i w) = some t'

theorem Advances.reachable {L : Libraries H Salt} {as : List (Action Salt)} {i : ℕ}
    {w : Ambient Salt} {t t' : State H} (h : Advances L as i w t t') :
    Reachable (step L) init t := by
  obtain ⟨before, _, _, hbefore, _⟩ := h
  exact ⟨before, hbefore⟩

theorem Advances.append {L : Libraries H Salt} {as : List (Action Salt)} {i : ℕ}
    {w : Ambient Salt} {t t' : State H} (h : Advances L as i w t t') (bs : List (Action Salt)) :
    Advances L (as ++ bs) i w t t' := by
  obtain ⟨before, after, rfl, hbefore, hstep⟩ := h
  exact ⟨before, after ++ bs, by rw [List.append_assoc, List.cons_append], hbefore, hstep⟩

/-- The rest of the run from a step of it on. -/
theorem Advances.rest {L : Libraries H Salt} {as : List (Action Salt)} {i : ℕ} {w : Ambient Salt}
    {t t' s : State H} (h : Advances L as i w t t') (hrun : exec (step L) init as = some s) :
    Reachable (step L) t s := by
  obtain ⟨before, after, rfl, hbefore, _⟩ := h
  obtain ⟨u, hu, hrest⟩ := exec_append.mp hrun
  obtain rfl := Option.some.inj (hbefore.symm.trans hu)
  exact ⟨_, hrest⟩

/-- A call that has left its start has become what it is at one of its steps. -/
theorem exists_advances {L : Libraries H Salt} {as : List (Action Salt)} {s : State H}
    (h : exec (step L) init as = some s) {i : ℕ} {c : Client H} (hc : s.clients[i]? = some c)
    (hstart : c.stage ≠ .start) :
    ∃ w t b e, Advances L as i w t (t.apply i e) ∧ t.clients[i]? = some b ∧
      b.next L w t.store = some e ∧ e.client = c := by
  obtain ⟨before, a, after, t, t', rfl, hbefore, hs, _, hnot, hbecome⟩ :=
    exec_exists_step (P := fun s => s.clients[i]? = some c) h (by rintro ⟨⟩) hc
  cases a with
  | call invocation =>
    obtain rfl := Option.some.inj hs
    cases clients_add hbecome with
    | inl hold => exact absurd hold hnot
    | inr hnew =>
      rw [hnew.2] at hstart
      exact absurd rfl hstart
  | advance j w =>
    obtain ⟨b, e, hb, he, _, rfl⟩ := step_advance hs
    cases clients_apply hbecome with
    | inl hself =>
      obtain ⟨rfl, rfl⟩ := hself
      exact ⟨w, t, b, e, ⟨before, after, rfl, hbefore, hs⟩, hb, he, rfl⟩
    | inr hother => exact absurd hother.2 hnot

theorem log_prefix_of_step {L : Libraries H Salt} {s s' : State H} {a : Action Salt}
    (h : step L s a = some s') : s.log <+: s'.log := by
  rcases step_cases h with ⟨invocation, rfl, rfl⟩ | ⟨i, w, c, e, rfl, _, _, _, rfl⟩
  · exact List.prefix_refl _
  · exact List.prefix_append _ _

/-- Committed changes stay as they are. -/
theorem log_prefix_of_exec {L : Libraries H Salt} {s s' : State H} {as : List (Action Salt)}
    (h : exec (step L) s as = some s') : s.log <+: s'.log :=
  exec_relation (R := fun s t => s.log <+: t.log) (fun _ => List.prefix_refl _)
    (fun _ _ _ => List.IsPrefix.trans) (fun _ _ _ => log_prefix_of_step) h

/-- A committed change was committed at a step of its call, after the changes before it. -/
theorem exists_commit {L : Libraries H Salt} {as : List (Action Salt)} {s : State H}
    (h : exec (step L) init as = some s) {n i : ℕ} {write : Write H}
    (hn : s.log[n]? = some (i, write)) :
    ∃ w t b e, Advances L as i w t (t.apply i e) ∧ t.clients[i]? = some b ∧
      b.next L w t.store = some e ∧ e.write = some write ∧ t.log = s.log.take n := by
  obtain ⟨hlt, _⟩ := List.getElem?_eq_some_iff.mp hn
  obtain ⟨before, a, after, t, t', rfl, hbefore, hs, hrest, hnot, hlogged⟩ :=
    exec_exists_step (P := fun s => n < s.log.length) h (Nat.not_lt_zero n) hlt
  cases a with
  | call invocation =>
    obtain rfl := Option.some.inj hs
    exact absurd hlogged hnot
  | advance j w =>
    obtain ⟨b, e, hb, he, _, rfl⟩ := step_advance hs
    cases hwrite : e.write with
    | none =>
      rw [State.apply, hwrite] at hlogged
      exact absurd (by simpa using hlogged) hnot
    | some write' =>
      have hlog : (t.apply j e).log = t.log ++ [(j, write')] := by
        rw [State.apply, hwrite]
        rfl
      rw [hlog, List.length_append, List.length_singleton] at hlogged
      obtain rfl : n = t.log.length := by omega
      -- the rest of the run only adds to the log
      obtain ⟨rest, hrest'⟩ := log_prefix_of_exec hrest
      rw [hlog, List.append_assoc] at hrest'
      rw [← hrest', List.getElem?_append_right (Nat.le_refl _), Nat.sub_self] at hn
      obtain ⟨rfl, rfl⟩ := Prod.mk.inj (Option.some.inj hn)
      exact ⟨w, t, b, e, ⟨before, after, rfl, hbefore, hs⟩, hb, he, hwrite,
        by rw [← hrest', List.take_left']; rfl⟩

end AuthenticationServer
