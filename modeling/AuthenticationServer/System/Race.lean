import AuthenticationServer.Jersey.Mappers
import AuthenticationServer.Services.SymbolicLibraries
import AuthenticationServer.System.Invariant

/-!
# Concurrent registrations of one email

`AccountApi.createEmailAccount` opens the outermost transaction. The insert is sent when it
commits, outside the try block of the service, so a request that loses the race for an email
fails with the exception of the database, not with a `ConflictException`.

## Main definitions

- `Phase` - how far a request has come, and how it has ended
- `ExactlyOneRegistered` - one request has registered the email, the others had a conflict
- `LooksUpAlone` - no request looks the email up while another is about to commit

## Main results

- `race_of_exec` - the invariant of the race
- `exactly_one_registered_iff` - the outcome is the intended one exactly when no lookup falls
  between the lookup and the commit of another request
-/

namespace AuthenticationServer

open Java Machine State

variable {H Salt : Type}

/-- How far a creating request has come. -/
inductive Phase
  | start
  | save
  | returned
  | conflict
  | violation
  | other
  deriving DecidableEq, Repr

def Client.phase (c : Client H) : Phase :=
  match c.stage with
  | .start => .start
  | .save _ => .save
  | .done (.ok _) => .returned
  | .done (.error (.conflictException ..)) => .conflict
  | .done (.error .dataIntegrityViolationException) => .violation
  | _ => .other

/-- The number of requests from the `n`-th call on that are in a phase. -/
def State.tally (s : State H) (n : ℕ) (p : Phase) : ℕ :=
  (s.clients.drop n).countP fun c => c.phase = p

/-- The actions of a race for an email: valid requests to register it, from the `n`-th call
on, and their steps. -/
def IsRaceAction (L : Libraries H Salt) (n : ℕ) (e : String) : Action Salt → Prop
  | .call invocation => ∃ p, invocation = .create .api (.email e p) ∧
      (Registration.email e p).violations L = []
  | .advance k _ => n ≤ k

/-- The documented outcome of a race: one request has returned its account, which is stored
with its credential, and all others have ended in a `ConflictException`. -/
def ExactlyOneRegistered (L : Libraries H Salt) (n : ℕ) (e : String) (s : State H) : Prop :=
  ∃ k c p w, n ≤ k ∧ s.clients[k]? = some c ∧ c.invocation = .create .api (.email e p) ∧
    c.stage = .done (.ok (.accountDTO ((Registration.email e p).account L w).assembleDto)) ∧
    s.store.Includes ((Registration.email e p).rows L w) ∧
    ∀ j d, n ≤ j → j ≠ k → s.clients[j]? = some d →
      ∃ message cause, d.stage = .done (.error (.conflictException message cause))

/-- No request of the race looks the email up while another one stands between its own lookup
and its commit. -/
def LooksUpAlone (n : ℕ) (s : State H) : Action Salt → Prop
  | .call _ => True
  | .advance k _ => ∀ c, s.clients[k]? = some c → c.phase = .start →
      ∀ d ∈ s.clients.drop n, d.phase ≠ .save

/-! ## One step of a request -/

/-- A request of the race: what it has returned is stored. -/
def Client.Racer (L : Libraries H Salt) (e : String) (s : Store H) (c : Client H) : Prop :=
  ∃ p, c.invocation = .create .api (.email e p) ∧ (Registration.email e p).violations L = [] ∧
    c.phase ≠ .other ∧
    (c.phase = .returned → ∃ w,
      c.stage = .done (.ok (.accountDTO ((Registration.email e p).account L w).assembleDto)) ∧
      s.Includes ((Registration.email e p).rows L w))

/-- A valid request that has not returned is a request of the race. -/
theorem Client.racer_of_phase {L : Libraries H Salt} {e p : String} {s : Store H} {c : Client H}
    (hinv : c.invocation = .create .api (.email e p))
    (hvalid : (Registration.email e p).violations L = []) {phase : Phase} (hc : c.phase = phase)
    (hother : phase ≠ .other) (hreturned : phase ≠ .returned) : c.Racer L e s :=
  ⟨p, hinv, hvalid, hc ▸ hother, fun h => absurd (hc.symm.trans h) hreturned⟩

/-- What a step of a request of the race does. -/
inductive Client.RaceStep (L : Libraries H Salt) (e : String) (s : Store H) (c : Client H)
    (f : Effect H) : Prop
  /-- the email was free -/
  | lookedUp (before : c.phase = .start) (free : ¬ s.HasKey (.email e))
      (after : f.client.phase = .save) (write : f.write = none)
  /-- the email was taken -/
  | refused (before : c.phase = .start) (taken : s.HasKey (.email e))
      (after : f.client.phase = .conflict) (write : f.write = none)
  /-- the insert has succeeded -/
  | committed (before : c.phase = .save) (free : ¬ s.HasKey (.email e)) (p : String)
      (w : Ambient Salt) (invocation : c.invocation = .create .api (.email e p))
      (after : f.client.stage =
        .done (.ok (.accountDTO ((Registration.email e p).account L w).assembleDto)))
      (write : f.write = some (.insert ((Registration.email e p).rows L w)))
  /-- the insert has violated the unique column -/
  | violated (before : c.phase = .save) (taken : s.HasKey (.email e))
      (after : f.client.phase = .violation) (write : f.write = none)

theorem Client.raceStep {L : Libraries H Salt} (hfit : L.HashesFit) {e : String}
    (hlength : e.length ≤ columnLength) {w : Ambient Salt} {s : Store H} (hs : s.WellFormed)
    {c : Client H} {f : Effect H} (h : c.next L w s = some f) (hv : c.Valid L)
    (hr : c.Racer L e s) : c.RaceStep L e s f := by
  obtain ⟨p, hinv, hvalid, hphase, _⟩ := hr
  cases hstage : c.stage with
  | start =>
    -- the parameters are valid, so that the step is the lookup of the email
    have hbegin : (Registration.email e p).begin L w s .api =
        (Registration.email e p).prepare L w s := by
      rw [Registration.begin, Caller.validate_eq_ok.mpr fun _ => hvalid, Fallible.ok_bind]
    have hbefore : c.phase = .start := by rw [phase, hstage]
    rw [Registration.prepare_eq L w hs] at hbegin
    by_cases hkey : s.HasKey (.email e)
    · rw [Registration.key, if_pos hkey] at hbegin
      simp only [next, hinv, hstage, hbegin, Option.some.injEq] at h
      subst h
      exact .refused hbefore hkey rfl rfl
    · rw [Registration.key, if_neg hkey] at hbegin
      simp only [next, hinv, hstage, hbegin, Option.some.injEq] at h
      subst h
      exact .lookedUp hbefore hkey rfl rfl
  | save account =>
    -- the step is the commit of the transaction that the resource method has opened
    obtain ⟨caller, r, w', hinv', rfl, _⟩ := hv.pending account hstage
    obtain ⟨rfl, rfl⟩ := Invocation.create.inj (hinv.symm.trans hinv')
    have hbefore : c.phase = .save := by rw [phase, hstage]
    have hcommit := Registration.insertedRows_account L w' s (.email e p)
    have houter : (Registration.email e p).commit L s .api ((Registration.email e p).account L w') =
        insertedRows L s ((Registration.email e p).account L w') := rfl
    have hfits : (Registration.email e p).Storable ∧ (Registration.email e p).HashFits L w' :=
      ⟨hlength, Registration.hashFits hfit w' _⟩
    by_cases hkey : s.HasKey (.email e)
    · rw [Registration.key, if_neg fun h => h.2 hkey] at hcommit
      simp only [next, hinv, hstage, houter, hcommit, Option.some.injEq] at h
      subst h
      exact .violated hbefore hkey rfl rfl
    · rw [Registration.key, if_pos ⟨hfits, hkey⟩] at hcommit
      simp only [next, hinv, hstage, houter, hcommit, Option.some.injEq] at h
      subst h
      exact .committed hbefore hkey p w' hinv rfl rfl
  | _ => simp [next, hinv, hstage] at h

/-! ## The race -/

/-- A call that has not been in the race before is at its start. -/
theorem tally_add {s : State H} {n : ℕ} (hn : n ≤ s.clients.length) (invocation : Invocation)
    (p : Phase) (hp : p ≠ .start) : (s.add invocation).tally n p = s.tally n p := by
  have hcall : (Client.call invocation : Client H).phase = .start := rfl
  rw [State.tally, State.add, List.drop_append_of_le_length hn, List.countP_append,
    List.countP_singleton, hcall]
  simp only [decide_eq_true_eq, if_neg hp.symm, Nat.add_zero]
  rfl

/-- A step moves one request from one phase to another. -/
theorem tally_apply {s : State H} {n k : ℕ} (hk : n ≤ k) {c : Client H} {f : Effect H}
    (hc : s.clients[k]? = some c) (p : Phase) :
    (s.apply k f).tally n p + (if c.phase = p then 1 else 0) =
      s.tally n p + if f.client.phase = p then 1 else 0 := by
  have hdrop : (s.clients.drop n)[k - n]? = some c := by
    rw [List.getElem?_drop, Nat.add_sub_cancel' hk, hc]
  have hset := Table.countP_set_add (q := fun c : Client H => decide (c.phase = p))
    (t := f.client) hdrop
  simp only [decide_eq_true_eq] at hset
  rw [State.tally, State.apply, List.drop_set, if_neg (by omega)]
  exact hset

/-- The invariant of the race: the email is taken exactly when one request has returned, and
before that none has failed. -/
structure Race (L : Libraries H Salt) (n : ℕ) (e : String) (s : State H) : Prop where
  invariant : Invariant L s
  start_le : n ≤ s.clients.length
  racers : ∀ (k : ℕ) (c : Client H), n ≤ k → s.clients[k]? = some c → c.Racer L e s.store
  free : ¬ s.store.HasKey (.email e) →
    s.tally n .returned = 0 ∧ s.tally n .violation = 0 ∧ s.tally n .conflict = 0
  taken : s.store.HasKey (.email e) → s.tally n .returned = 1

/-- The requests that have passed their lookup. -/
def State.passed (s : State H) (n : ℕ) : ℕ :=
  s.tally n .save + s.tally n .returned + s.tally n .violation

theorem Client.Racer.mono {L : Libraries H Salt} {e : String} {s t : Store H} {c : Client H}
    (h : c.Racer L e s) (hst : ∀ rows, s.Includes rows → t.Includes rows) : c.Racer L e t := by
  obtain ⟨p, hinv, hvalid, hphase, hreturned⟩ := h
  refine ⟨p, hinv, hvalid, hphase, fun hr => ?_⟩
  obtain ⟨w, hstage, hincludes⟩ := hreturned hr
  exact ⟨w, hstage, hst _ hincludes⟩

theorem race_start {L : Libraries H Salt} {e : String} {s : State H} (h : Invariant L s)
    (hfree : ¬ s.store.HasKey (.email e)) : Race L s.clients.length e s where
  invariant := h
  start_le := Nat.le_refl _
  racers := by
    intro k c hk hc
    obtain ⟨hlt, _⟩ := List.getElem?_eq_some_iff.mp hc
    omega
  free := by
    intro _
    simp only [State.tally, List.drop_length, List.countP_nil, and_self]
  taken := fun hkey => absurd hkey hfree

theorem Race.call {L : Libraries H Salt} {n : ℕ} {e p : String} {s : State H} (h : Race L n e s)
    (hvalid : (Registration.email e p).violations L = []) :
    Race L n e (s.add (.create .api (.email e p))) where
  invariant := h.invariant.add _
  start_le := by
    have hle := h.start_le
    rw [State.add, List.length_append]
    omega
  racers := by
    intro k c hk hc
    rcases clients_add hc with hc | ⟨_, rfl⟩
    · exact h.racers k c hk hc
    · have hstart : (Client.call (.create .api (.email e p)) : Client H).phase = .start := rfl
      exact Client.racer_of_phase rfl hvalid hstart (by decide) (by decide)
  free := by
    intro hfree
    rw [tally_add h.start_le _ .returned (by decide), tally_add h.start_le _ .violation (by decide),
      tally_add h.start_le _ .conflict (by decide)]
    exact h.free hfree
  taken := by
    intro htaken
    rw [tally_add h.start_le _ .returned (by decide)]
    exact h.taken htaken

/-- The step of a request of the race, taken apart. -/
theorem Race.raceStep {L : Libraries H Salt} (hfit : L.HashesFit) {n : ℕ} {e : String}
    (hlength : e.length ≤ columnLength) {s s' : State H} (h : Race L n e s) {k : ℕ}
    {w : Ambient Salt} (hk : n ≤ k) (hs : step L s (.advance k w) = some s') :
    ∃ c f, s.clients[k]? = some c ∧ c.RaceStep L e s.store f ∧
      f.client.invocation = c.invocation ∧ s' = s.apply k f := by
  obtain ⟨c, f, hc, hf, _, rfl⟩ := step_advance hs
  exact ⟨c, f, hc, Client.raceStep hfit hlength h.invariant.wellFormed hf
    (h.invariant.valid k c hc) (h.racers k c hk hc), (Client.next_cases hf).frame.1, rfl⟩

theorem Client.RaceStep.includes {L : Libraries H Salt} {e : String} {s : State H} {k : ℕ}
    {c : Client H} {f : Effect H} (h : c.RaceStep L e s.store f) (rows : Store H)
    (hrows : s.store.Includes rows) : (s.apply k f).store.Includes rows := by
  cases h with
  | committed _ _ _ _ _ _ write =>
    rw [store_apply_insert write]
    exact hrows.append _
  | lookedUp _ _ _ write => rw [store_apply_none write]; exact hrows
  | refused _ _ _ write => rw [store_apply_none write]; exact hrows
  | violated _ _ _ write => rw [store_apply_none write]; exact hrows

theorem Client.RaceStep.hasKey {L : Libraries H Salt} {e : String} {s : State H} {k : ℕ}
    {c : Client H} {f : Effect H} (h : c.RaceStep L e s.store f) :
    (s.apply k f).store.HasKey (.email e) ↔
      s.store.HasKey (.email e) ∨ f.client.phase = .returned := by
  cases h with
  | committed _ _ _ _ _ after write =>
    have hafter : f.client.phase = .returned := by rw [Client.phase, after]
    rw [store_apply_insert write]
    refine ⟨fun _ => Or.inr hafter, fun _ => ?_⟩
    exact Store.hasKey_append.mpr (Or.inr ((Registration.hasKey_rows L _).mpr rfl))
  | lookedUp _ _ after write => rw [store_apply_none write, after]; simp
  | refused _ _ after write => rw [store_apply_none write, after]; simp
  | violated _ _ after write => rw [store_apply_none write, after]; simp

theorem Client.RaceStep.racer {L : Libraries H Salt} {e : String} {s : State H} {k : ℕ}
    {c : Client H} {f : Effect H} (h : c.RaceStep L e s.store f) (hr : c.Racer L e s.store)
    (hinv : f.client.invocation = c.invocation) :
    f.client.Racer L e (s.apply k f).store := by
  obtain ⟨p, hp, hvalid, _, _⟩ := hr
  cases h with
  | lookedUp _ _ after => exact racer_of_phase (hinv.trans hp) hvalid after (by decide) (by decide)
  | refused _ _ after => exact racer_of_phase (hinv.trans hp) hvalid after (by decide) (by decide)
  | violated _ _ after => exact racer_of_phase (hinv.trans hp) hvalid after (by decide) (by decide)
  | committed _ _ p' w invocation after write =>
    obtain ⟨_, hpp⟩ := Invocation.create.inj (invocation.symm.trans hp)
    obtain rfl : p' = p := (Registration.email.inj hpp).2
    have hphase : f.client.phase = .returned := by rw [phase, after]
    refine ⟨p', hinv.trans hp, hvalid, by rw [hphase]; decide, fun _ => ⟨w, after, ?_⟩⟩
    rw [store_apply_insert write]
    exact Store.includes_append _ _

theorem Client.RaceStep.phases {L : Libraries H Salt} {e : String} {s : Store H} {c : Client H}
    {f : Effect H} (h : c.RaceStep L e s f) :
    (c.phase = .start ∧ ¬ s.HasKey (.email e) ∧ f.client.phase = .save) ∨
    (c.phase = .start ∧ s.HasKey (.email e) ∧ f.client.phase = .conflict) ∨
    (c.phase = .save ∧ ¬ s.HasKey (.email e) ∧ f.client.phase = .returned) ∨
    (c.phase = .save ∧ s.HasKey (.email e) ∧ f.client.phase = .violation) := by
  cases h with
  | lookedUp before free after => exact Or.inl ⟨before, free, after⟩
  | refused before taken after => exact Or.inr (Or.inl ⟨before, taken, after⟩)
  | committed before free _ _ _ after =>
    exact Or.inr (Or.inr (Or.inl ⟨before, free, by rw [phase, after]⟩))
  | violated before taken after => exact Or.inr (Or.inr (Or.inr ⟨before, taken, after⟩))

/-- A step adds a request to those that have ended in a way when it ends so. -/
theorem Client.RaceStep.tally_ended {L : Libraries H Salt} {n : ℕ} {e : String} {s : State H}
    {k : ℕ} (hk : n ≤ k) {c : Client H} {f : Effect H} (hc : s.clients[k]? = some c)
    (h : c.RaceStep L e s.store f) (p : Phase) (hstart : p ≠ .start) (hsave : p ≠ .save) :
    (s.apply k f).tally n p = s.tally n p + if f.client.phase = p then 1 else 0 := by
  have hcount := tally_apply hk hc (f := f) p
  have hne : c.phase ≠ p := by
    rcases h.phases with ⟨hc, _⟩ | ⟨hc, _⟩ | ⟨hc, _⟩ | ⟨hc, _⟩ <;> rw [hc]
    exacts [hstart.symm, hstart.symm, hsave.symm, hsave.symm]
  rw [if_neg hne] at hcount
  exact hcount

/-- A step adds a request to those that have passed their lookup when it looks the free email
up. -/
theorem Client.RaceStep.passed {L : Libraries H Salt} {n : ℕ} {e : String} {s : State H} {k : ℕ}
    (hk : n ≤ k) {c : Client H} {f : Effect H} (hc : s.clients[k]? = some c)
    (h : c.RaceStep L e s.store f) :
    (s.apply k f).passed n =
      s.passed n + if c.phase = .start ∧ ¬ s.store.HasKey (.email e) then 1 else 0 := by
  have hsave := tally_apply hk hc (f := f) .save
  have hreturned := h.tally_ended hk hc .returned (by decide) (by decide)
  have hviolation := h.tally_ended hk hc .violation (by decide) (by decide)
  simp only [State.passed]
  rcases h.phases with ⟨hb, hkey, ha⟩ | ⟨hb, hkey, ha⟩ | ⟨hb, hkey, ha⟩ | ⟨hb, hkey, ha⟩ <;>
  · simp only [hb, ha, hkey, reduceCtorEq, not_true_eq_false, not_false_eq_true, and_true,
      and_false, if_true, if_false] at hsave hreturned hviolation ⊢
    omega

theorem Race.advance {L : Libraries H Salt} {n : ℕ} {e : String} {s : State H} (h : Race L n e s)
    {k : ℕ} (hk : n ≤ k) {c : Client H} {f : Effect H} (hc : s.clients[k]? = some c)
    (hstep : c.RaceStep L e s.store f) (hinv : f.client.invocation = c.invocation)
    (hinvariant : Invariant L (s.apply k f)) : Race L n e (s.apply k f) where
  invariant := hinvariant
  start_le := by
    rw [State.apply, List.length_set]
    exact h.start_le
  racers := by
    intro j d hj hd
    rcases clients_apply hd with ⟨rfl, rfl⟩ | ⟨_, hd⟩
    · exact hstep.racer (h.racers j c hk hc) hinv
    · exact (h.racers j d hj hd).mono hstep.includes
  free := by
    intro hfree
    obtain ⟨hbefore, hnot⟩ := not_or.mp (mt hstep.hasKey.mpr hfree)
    obtain ⟨hreturned, hviolation, hconflict⟩ := h.free hbefore
    rw [hstep.tally_ended hk hc .returned (by decide) (by decide), hreturned,
      hstep.tally_ended hk hc .violation (by decide) (by decide), hviolation,
      hstep.tally_ended hk hc .conflict (by decide) (by decide), hconflict]
    rcases hstep.phases with ⟨_, _, ha⟩ | ⟨_, hkey, _⟩ | ⟨_, _, ha⟩ | ⟨_, hkey, _⟩
    · rw [ha]; decide
    · exact absurd hkey hbefore
    · exact absurd ha hnot
    · exact absurd hkey hbefore
  taken := by
    intro htaken
    rw [hstep.tally_ended hk hc .returned (by decide) (by decide)]
    rcases hstep.phases with ⟨_, hkey, ha⟩ | ⟨_, hkey, ha⟩ | ⟨_, hkey, ha⟩ | ⟨_, hkey, ha⟩
    · -- a lookup does not take the email
      have hreturned : f.client.phase = .returned := (hstep.hasKey.mp htaken).resolve_left hkey
      rw [ha] at hreturned
      cases hreturned
    · rw [h.taken hkey, ha]; decide
    · rw [(h.free hkey).1, ha]; decide
    · rw [h.taken hkey, ha]; decide

theorem Race.step {L : Libraries H Salt} (hfit : L.HashesFit) {n : ℕ} {e : String}
    (hlength : e.length ≤ columnLength) {s s' : State H} (h : Race L n e s) {a : Action Salt}
    (ha : IsRaceAction L n e a) (hs : step L s a = some s') : Race L n e s' := by
  have hinvariant := h.invariant.step hs
  cases a with
  | call invocation =>
    obtain ⟨p, rfl, hvalid⟩ := ha
    obtain rfl := Option.some.inj hs
    exact h.call hvalid
  | advance k w =>
    obtain ⟨c, f, hc, hstep, hinv, rfl⟩ := h.raceStep hfit hlength ha hs
    exact h.advance ha hc hstep hinv hinvariant

/-- The requests that have passed their lookup do not become fewer. -/
theorem Race.passed_le {L : Libraries H Salt} (hfit : L.HashesFit) {n : ℕ} {e : String}
    (hlength : e.length ≤ columnLength) {s s' : State H} (h : Race L n e s) {a : Action Salt}
    (ha : IsRaceAction L n e a) (hs : AuthenticationServer.step L s a = some s') :
    s.passed n ≤ s'.passed n := by
  cases a with
  | call invocation =>
    obtain rfl := Option.some.inj hs
    rw [State.passed, State.passed, tally_add h.start_le _ .save (by decide),
      tally_add h.start_le _ .returned (by decide), tally_add h.start_le _ .violation (by decide)]
  | advance k w =>
    obtain ⟨c, f, hc, hstep, hinv, rfl⟩ := h.raceStep hfit hlength ha hs
    rw [hstep.passed ha hc]
    omega

theorem race_of_exec {L : Libraries H Salt} (hfit : L.HashesFit) {n : ℕ} {e : String}
    (hlength : e.length ≤ columnLength) {s t : State H} (h : Race L n e s)
    {as : List (Action Salt)} (hacts : ∀ a ∈ as, IsRaceAction L n e a)
    (hrun : exec (AuthenticationServer.step L) s as = some t) :
    Race L n e t ∧ s.passed n ≤ t.passed n := by
  refine exec_invariant_of_always (G := fun _ a => IsRaceAction L n e a)
    (I := fun t => Race L n e t ∧ s.passed n ≤ t.passed n) ?_ ⟨h, Nat.le_refl _⟩
    (always_of_forall hacts s) hrun
  rintro u a u' ⟨hu, hle⟩ ha hs
  exact ⟨hu.step hfit hlength ha hs, hle.trans (hu.passed_le hfit hlength ha hs)⟩

/-- A second request passes its lookup exactly when one looks the email up while another is
about to commit. -/
theorem passed_le_one_iff {L : Libraries H Salt} (hfit : L.HashesFit) {n : ℕ} {e : String}
    (hlength : e.length ≤ columnLength) {s t : State H} (h : Race L n e s)
    (hs : s.passed n = 0) {as : List (Action Salt)} (hacts : ∀ a ∈ as, IsRaceAction L n e a)
    (hrun : exec (AuthenticationServer.step L) s as = some t) :
    t.passed n ≤ 1 ↔ Always (AuthenticationServer.step L) (LooksUpAlone n) s as := by
  constructor
  · intro hone
    by_contra hnot
    obtain ⟨pre, a, post, u, rfl, hu, ha⟩ := not_always_iff.mp hnot
    have hpre := fun b hb => hacts b (List.mem_append_left _ hb)
    have hact := hacts a (List.mem_append_right _ List.mem_cons_self)
    have hpost := fun b hb => hacts b (List.mem_append_right _ (List.mem_cons_of_mem _ hb))
    obtain ⟨u', hu', hrest⟩ := exec_append.mp hrun
    obtain rfl : u = u' := Option.some.inj (hu.symm.trans hu')
    obtain ⟨v, hv, hlast⟩ := exec_cons.mp hrest
    have hrace := (race_of_exec hfit hlength h hpre hu).1
    have hle := (race_of_exec hfit hlength (hrace.step hfit hlength hact hv) hpost hlast).2
    cases a with
    | call invocation => exact ha trivial
    | advance k w =>
      obtain ⟨c, f, hc, hstep, _, rfl⟩ := hrace.raceStep hfit hlength hact hv
      simp only [LooksUpAlone, not_forall, ne_eq, not_not] at ha
      obtain ⟨c', hc', hstart, d, hd, hsave⟩ := ha
      obtain rfl : c = c' := Option.some.inj (hc.symm.trans hc')
      have hpending : 0 < u.tally n .save :=
        List.countP_pos_iff.mpr ⟨d, hd, decide_eq_true hsave⟩
      have hbefore : u.passed n = u.tally n .save + u.tally n .returned + u.tally n .violation := rfl
      have hpassed := hstep.passed hact hc
      -- the email is taken by a request that has returned, or the lookup lets another one pass
      by_cases hkey : u.store.HasKey (.email e)
      · have hreturned := hrace.taken hkey
        simp only [hkey, not_true_eq_false, and_false, if_false] at hpassed
        omega
      · simp only [hstart, hkey, not_false_eq_true, and_self, if_true] at hpassed
        omega
  · intro halone
    have hraces : Always (AuthenticationServer.step L) (fun _ a => IsRaceAction L n e a) s as :=
      always_of_forall hacts s
    have hboth := hraces.and halone
    refine (exec_invariant_of_always (I := fun t => Race L n e t ∧ t.passed n ≤ 1) ?_
      ⟨h, by omega⟩ hboth hrun).2
    rintro u a u' ⟨hu, hone⟩ ⟨ha, halone⟩ hstep
    refine ⟨hu.step hfit hlength ha hstep, ?_⟩
    cases a with
    | call invocation =>
      obtain rfl := Option.some.inj hstep
      rw [State.passed, tally_add hu.start_le _ .save (by decide), tally_add hu.start_le _ .returned (by decide),
        tally_add hu.start_le _ .violation (by decide)]
      exact hone
    | advance k w =>
      obtain ⟨c, f, hc, hrs, _, rfl⟩ := hu.raceStep hfit hlength ha hstep
      rw [hrs.passed ha hc]
      split
      · next hlook =>
        have hpending : u.tally n .save = 0 := by
          refine List.countP_eq_zero.mpr fun d hd => ?_
          simpa using halone c hc hlook.1 d hd
        obtain ⟨hreturned, hviolation, _⟩ := hu.free hlook.2
        rw [State.passed, hpending, hreturned, hviolation]
      · exact hone

/-! ## The outcome -/

/-- A request of the race that has ended has returned or failed in one of two ways. -/
theorem Client.Racer.phase_of_isDone {L : Libraries H Salt} {e : String} {s : Store H}
    {c : Client H} (h : c.Racer L e s) (hdone : c.isDone = true) :
    c.phase = .returned ∨ c.phase = .conflict ∨ c.phase = .violation := by
  obtain ⟨_, _, _, hother, _⟩ := h
  rw [Client.isDone] at hdone
  rw [Client.phase] at hother ⊢
  split at hdone
  · next outcome hstage =>
    rw [hstage] at hother ⊢
    cases outcome with
    | ok result => exact Or.inl rfl
    | error err =>
      cases err with
      | conflictException => exact Or.inr (Or.inl rfl)
      | dataIntegrityViolationException => exact Or.inr (Or.inr rfl)
      | _ => exact absurd rfl hother
  · cases hdone

theorem stage_of_phase_conflict {c : Client H} (h : c.phase = .conflict) :
    ∃ message cause, c.stage = .done (.error (.conflictException message cause)) := by
  rw [Client.phase] at h
  split at h <;> first | exact ⟨_, _, ‹_›⟩ | cases h

/-- At the end of a race one request has returned, and the outcome is the intended one when no
insert has violated the unique column. -/
theorem Race.exactlyOne_iff {L : Libraries H Salt} {n : ℕ} {e : String} {s : State H}
    (h : Race L n e s) (hdone : ∀ c ∈ s.clients.drop n, c.isDone = true)
    (hsome : n < s.clients.length) : ExactlyOneRegistered L n e s ↔ s.passed n ≤ 1 := by
  have hrow : ∀ (i : ℕ), (s.clients.drop n)[i]? = s.clients[n + i]? := fun i => List.getElem?_drop
  have hended : ∀ i d, s.clients[n + i]? = some d →
      d.phase = .returned ∨ d.phase = .conflict ∨ d.phase = .violation := fun i d hd =>
    (h.racers _ d (Nat.le_add_right n i) hd).phase_of_isDone
      (hdone d (List.mem_of_getElem? ((hrow i).trans hd)))
  have hpositive : ∀ i d p, s.clients[n + i]? = some d → d.phase = p → 0 < s.tally n p :=
    fun i d p hd hp =>
      List.countP_pos_iff.mpr ⟨d, List.mem_of_getElem? ((hrow i).trans hd), decide_eq_true hp⟩
  have hnone : ∀ p, (∀ i d, s.clients[n + i]? = some d → d.phase ≠ p) → s.tally n p = 0 := by
    intro p hp
    refine List.countP_eq_zero.mpr fun d hd => ?_
    obtain ⟨i, hi⟩ := List.mem_iff_getElem?.mp hd
    simpa using hp i d ((hrow i).symm.trans hi)
  have hpassed : s.passed n = s.tally n .save + s.tally n .returned + s.tally n .violation := rfl
  have hsave : s.tally n .save = 0 := by
    refine hnone _ fun i d hd => ?_
    rcases hended i d hd with hp | hp | hp <;> rw [hp] <;> decide
  have hreturned : s.tally n .returned = 1 := by
    -- while the email is free no request has ended
    refine h.taken (by_contra fun hfree => ?_)
    obtain ⟨hr, hv, hc⟩ := h.free hfree
    obtain ⟨d, hd⟩ : ∃ d, s.clients[n + 0]? = some d := ⟨_, List.getElem?_eq_getElem hsome⟩
    rcases hended 0 d hd with hp | hp | hp <;> have hpos := hpositive 0 d _ hd hp <;> omega
  constructor
  · rintro ⟨k, c, p, w, hk, hc, _, hstage, _, hothers⟩
    have hviolation : s.tally n .violation = 0 := by
      refine hnone _ fun i d hd hp => ?_
      by_cases hik : n + i = k
      · rw [hik, hc] at hd
        obtain rfl := Option.some.inj hd
        rw [Client.phase, hstage] at hp
        cases hp
      · obtain ⟨message, cause, hconflict⟩ := hothers _ d (Nat.le_add_right n i) hik hd
        rw [Client.phase, hconflict] at hp
        cases hp
    omega
  · intro hone
    obtain ⟨c, hmem, hphase⟩ := List.countP_pos_iff.mp (Nat.lt_of_lt_of_eq Nat.one_pos hreturned.symm)
    obtain ⟨i, hi⟩ := List.mem_iff_getElem?.mp hmem
    have hc := (hrow i).symm.trans hi
    obtain ⟨p, hinv, _, _, hret⟩ := h.racers _ c (Nat.le_add_right n i) hc
    obtain ⟨w, hstage, hincludes⟩ := hret (of_decide_eq_true hphase)
    refine ⟨n + i, c, p, w, Nat.le_add_right n i, hc, hinv, hstage, hincludes, ?_⟩
    intro j d hj hne hd
    obtain ⟨l, rfl⟩ := Nat.exists_eq_add_of_le hj
    rcases hended l d hd with hp | hp | hp
    · have hli := Table.index_unique (Nat.le_of_eq hreturned) ((hrow l).trans hd) hi
        (decide_eq_true hp) hphase
      exact absurd (congrArg (n + ·) hli) hne
    · exact stage_of_phase_conflict hp
    · have hpos := hpositive l d _ hd hp
      omega

/-- Let any number of valid requests, at least one, register one storable email that is free in
a reachable state, in any interleaving of their steps. When all of them have ended, exactly one
has returned its account, which is stored with its credential, and the others have ended in a
`ConflictException`, if and only if no request has looked the email up while another one stood
between its own lookup and its commit. -/
theorem exactly_one_registered_iff {L : Libraries H Salt} (hfit : L.HashesFit) {s t : State H}
    (hreach : Reachable (step L) init s) {e : String} (hfree : ¬ s.store.HasKey (.email e))
    (hlength : e.length ≤ columnLength) {as : List (Action Salt)}
    (hacts : ∀ a ∈ as, IsRaceAction L s.clients.length e a)
    (hrun : exec (step L) s as = some t) (hsome : s.clients.length < t.clients.length)
    (hdone : ∀ c ∈ t.clients.drop s.clients.length, c.isDone = true) :
    ExactlyOneRegistered L s.clients.length e t ↔
      Always (step L) (LooksUpAlone s.clients.length) s as := by
  have hstart := race_start (invariant_of_reachable hreach) hfree
  have hzero : s.passed s.clients.length = 0 := by
    simp only [State.passed, State.tally, List.drop_length, List.countP_nil]
  have hend := (race_of_exec hfit hlength hstart hacts hrun).1
  rw [hend.exactlyOne_iff hdone hsome]
  exact passed_le_one_iff hfit hlength hstart hzero hacts hrun

/-- Two requests look the same email up before either of them commits. -/
def raceRun : List (Action ℕ) :=
  [.call (.create .api (.email "e@x" "password")),
    .call (.create .api (.email "e@x" "password")),
    .advance 0 (Symbolic.ambient 0 0), .advance 1 (Symbolic.ambient 1 0),
    .advance 0 (Symbolic.ambient 0 0), .advance 1 (Symbolic.ambient 1 0)]

theorem isRaceAction_raceRun :
    ∀ a ∈ raceRun, IsRaceAction Symbolic.libraries 0 "e@x" a := by
  have hvalid : (Registration.email "e@x" "password").violations Symbolic.libraries = [] := by
    decide
  intro a ha
  simp only [raceRun, List.mem_cons, List.not_mem_nil, or_false] at ha
  rcases ha with rfl | rfl | rfl | rfl | rfl | rfl
  · exact ⟨_, rfl, hvalid⟩
  · exact ⟨_, rfl, hvalid⟩
  all_goals exact Nat.zero_le _

theorem phases_raceRun :
    ∃ t, exec (step Symbolic.libraries) init raceRun = some t ∧
      t.clients.map Client.phase = [.returned, .violation] ∧
      ∀ c ∈ t.clients.drop 0, c.isDone = true := by
  have hrun : (exec (step Symbolic.libraries) init raceRun).any (fun t =>
      t.clients.map Client.phase = [.returned, .violation] ∧
      ∀ c ∈ t.clients.drop 0, c.isDone = true) = true := by
    decide +kernel
  obtain ⟨t, ht, h⟩ := (Option.any_eq_true _ _).mp hrun
  exact ⟨t, ht, of_decide_eq_true h⟩

theorem exactly_one_registered_raceRun :
    ∃ t, exec (step Symbolic.libraries) init raceRun = some t ∧
      (ExactlyOneRegistered Symbolic.libraries 0 "e@x" t ↔
        Always (step Symbolic.libraries) (LooksUpAlone 0) init raceRun) := by
  obtain ⟨t, ht, hphases, hdone⟩ := phases_raceRun
  have hlength : 0 < t.clients.length := by
    rw [← List.length_map (f := Client.phase), hphases]
    decide
  have hfree : ¬ (init : State (ℕ × String)).store.HasKey (.email "e@x") := by decide
  exact ⟨t, ht, exactly_one_registered_iff Symbolic.hashesFit (Reachable.refl init) hfree (by decide)
    isRaceAction_raceRun ht hlength hdone⟩

/-- The second of them fails with the exception of the database, which is answered with the
status 500. -/
theorem raceRun_violates :
    ∃ t, exec (step Symbolic.libraries) init raceRun = some t ∧
      (∀ a ∈ raceRun, IsRaceAction Symbolic.libraries 0 "e@x" a) ∧
      (∀ c ∈ t.clients.drop 0, c.isDone = true) ∧
      ¬ ExactlyOneRegistered Symbolic.libraries 0 "e@x" t ∧
      toResponse .dataIntegrityViolationException = .INTERNAL_SERVER_ERROR := by
  obtain ⟨t, ht, hphases, hdone⟩ := phases_raceRun
  refine ⟨t, ht, isRaceAction_raceRun, hdone, ?_, rfl⟩
  rintro ⟨k, c, p, w, _, hc, _, hstage, _, hothers⟩
  obtain ⟨d, hd, hphase⟩ : ∃ d, t.clients[1]? = some d ∧ d.phase = .violation := by
    have hone : (t.clients.map Client.phase)[1]? = some .violation := by rw [hphases]; rfl
    rw [List.getElem?_map] at hone
    exact Option.map_eq_some_iff.mp hone
  by_cases hk : 1 = k
  · subst hk
    obtain rfl : c = d := Option.some.inj (hc.symm.trans hd)
    rw [Client.phase, hstage] at hphase
    cases hphase
  · obtain ⟨message, cause, hconflict⟩ := hothers 1 d (Nat.zero_le 1) hk hd
    rw [Client.phase, hconflict] at hphase
    cases hphase

end AuthenticationServer
