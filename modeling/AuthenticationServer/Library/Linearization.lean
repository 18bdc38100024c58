import AuthenticationServer.Library.Machine

/-!
# Threads that could have run one after another

Threads take turns on a shared state. Each of them takes effect at one of its turns: before
that it only reads the shared state, and afterwards it does not look at it again. If the whole
thread could have run at once at the turn at which it takes effect, then every run ends with
the shared state that the threads leave when they run alone, one after another, in the order
in which they have taken effect.

## Main definitions

- `System` - programs, the threads that run them, and their turns
- `step` - a new thread, or a turn of a thread, with the history of the run
- `solo` - a program that runs alone
- `Serial` - programs that run alone, one after another
- `Linearizable` - the conditions on the turns of a system

## Main results

- `linearized_of_exec` - every run of a linearizable system has a serial order
- `order_prefix_of_exec` - the order of a run only grows, so it respects the order of calls that
  do not overlap
-/

namespace Linearization

open Machine

variable {σ τ π ι : Type*}

/-- Programs that are run by threads. A turn of a thread reads an input. -/
structure System (σ τ π ι : Type*) where
  start : π → τ
  next : ι → σ → τ → Option (σ × τ)
  effective : τ → Bool

/-- A thread with its history: the program that it runs, and the inputs of its turns. -/
structure Thread (τ π ι : Type*) where
  program : π
  inputs : List ι
  state : τ

/-- The shared state and the threads. `order` lists the threads that have taken effect. -/
structure Config (σ τ π ι : Type*) where
  shared : σ
  threads : List (Thread τ π ι)
  order : List ℕ

inductive Action (π ι : Type*)
  | call (p : π)
  | advance (i : ℕ) (x : ι)

def init (s : σ) : Config σ τ π ι := ⟨s, [], []⟩

variable (S : System σ τ π ι)

def call (p : π) : Thread τ π ι := ⟨p, [], S.start p⟩

/-- The configuration after a turn of the thread `t` with the number `i`. -/
def apply (c : Config σ τ π ι) (i : ℕ) (x : ι) (t : Thread τ π ι) (r : σ × τ) : Config σ τ π ι where
  shared := r.1
  threads := c.threads.set i { t with inputs := t.inputs ++ [x], state := r.2 }
  order := if S.effective r.2 && !S.effective t.state then c.order ++ [i] else c.order

def step (c : Config σ τ π ι) : Action π ι → Option (Config σ τ π ι)
  | .call p => some { c with threads := c.threads ++ [call S p] }
  | .advance i x => c.threads[i]?.bind fun t => (S.next x c.shared t.state).map (apply S c i x t)

/-- What the turns of the thread `i` read in a run. -/
def inputs (i : ℕ) (as : List (Action π ι)) : List ι :=
  as.filterMap fun
    | .call _ => none
    | .advance j x => if j = i then some x else none

/-- A turn of a thread that runs alone. One that has ended takes no more turns. -/
def turn (r : σ × τ) (x : ι) : σ × τ := (S.next x r.1 r.2).getD r

/-- A program that runs alone on the inputs `xs`. -/
def solo (xs : List ι) (s : σ) (p : π) : σ × τ := xs.foldl (turn S) (s, S.start p)

theorem solo_snoc (xs : List ι) (x : ι) (s : σ) (p : π) :
    solo S (xs ++ [x]) s p = turn S (solo S xs s p) x := by
  rw [solo, List.foldl_append]
  rfl

/-- From `s`, the threads `is`, run alone one after another, lead to `u`, and the end of each of
them is related by `R` to the state that it has among `threads`. -/
inductive Serial (R : τ → τ → Prop) (threads : List (Thread τ π ι)) : σ → List ℕ → σ → Prop
  | nil (s : σ) : Serial R threads s [] s
  | cons {s u : σ} {i : ℕ} {is : List ℕ} {t : Thread τ π ι} (thread : threads[i]? = some t)
      (related : R (solo S t.inputs s t.program).2 t.state)
      (rest : Serial R threads (solo S t.inputs s t.program).1 is u) : Serial R threads s (i :: is) u

/-- The states of a thread before it takes effect, with the inputs of its turns. The shared state
may be another one at each turn. -/
inductive Pending (I : σ → Prop) (p : π) : List ι → τ → Prop
  | start : Pending I p [] (S.start p)
  | next {xs : List ι} {x : ι} {s s' : σ} {t t' : τ} (shared : I s) (before : Pending I p xs t)
      (turn : S.next x s t = some (s', t')) (pending : S.effective t' = false) :
      Pending I p (xs ++ [x]) t'

/-- The conditions under which the threads could have run one after another, up to the relation
`R` between the ends of a thread alone and in the run. -/
structure Linearizable (I : σ → Prop) (R : τ → τ → Prop) : Prop where
  start : ∀ p, S.effective (S.start p) = false
  /-- before its effect, a thread only reads -/
  silent : ∀ {x s s' t t'}, S.next x s t = some (s', t') → S.effective t' = false → s' = s
  /-- after its effect, a thread does not look at the shared state -/
  settled : ∀ {x s s' t t'}, S.next x s t = some (s', t') → S.effective t = true →
    S.effective t' = true ∧ ∀ u, S.next x u t = some (u, t')
  refl : ∀ t, R t t
  /-- a thread whose end alone is another one has ended -/
  ended : ∀ {t₁ t}, R t₁ t → t₁ = t ∨ ∀ x s, S.next x s t = none
  /-- at its effect, a thread could have run at once -/
  effect : ∀ {p xs x s s' t t'}, I s → Pending S I p xs t → S.effective t = false →
    S.next x s t = some (s', t') → S.effective t' = true →
      (solo S (xs ++ [x]) s p).1 = s' ∧ R (solo S (xs ++ [x]) s p).2 t'

/-- A configuration whose threads could have run one after another. -/
structure Linearized (I : σ → Prop) (R : τ → τ → Prop) (s : σ) (c : Config σ τ π ι) : Prop where
  pending : ∀ (i : ℕ) (t : Thread τ π ι), c.threads[i]? = some t → S.effective t.state = false →
    Pending S I t.program t.inputs t.state
  order : ∀ i, i ∈ c.order ↔ ∃ t, c.threads[i]? = some t ∧ S.effective t.state = true
  nodup : c.order.Nodup
  serial : Serial S R c.threads s c.order c.shared

variable {S}

/-! ## Serial runs -/

theorem Serial.snoc {R : τ → τ → Prop} {threads : List (Thread τ π ι)} {s u : σ} {is : List ℕ}
    (h : Serial S R threads s is u) {i : ℕ} {t : Thread τ π ι} (ht : threads[i]? = some t)
    (hR : R (solo S t.inputs u t.program).2 t.state) :
    Serial S R threads s (is ++ [i]) (solo S t.inputs u t.program).1 := by
  induction h with
  | nil s => exact .cons ht hR (.nil _)
  | cons thread related _ ih => exact .cons thread related (ih hR)

/-- A serial run may be continued by threads that have gone on without a look at the shared
state. -/
theorem Serial.mono {R : τ → τ → Prop} {threads threads' : List (Thread τ π ι)} {s u : σ}
    {is : List ℕ} (h : Serial S R threads s is u)
    (hthreads : ∀ i ∈ is, ∀ t, threads[i]? = some t → ∃ t', threads'[i]? = some t' ∧
      ∀ s, R (solo S t.inputs s t.program).2 t.state →
        (solo S t'.inputs s t'.program).1 = (solo S t.inputs s t.program).1 ∧
        R (solo S t'.inputs s t'.program).2 t'.state) :
    Serial S R threads' s is u := by
  induction h with
  | nil s => exact .nil s
  | @cons s u i is t thread related rest ih =>
    obtain ⟨t', ht', hsolo⟩ := hthreads i List.mem_cons_self t thread
    obtain ⟨hshared, hrelated⟩ := hsolo s related
    refine .cons ht' hrelated ?_
    rw [hshared]
    exact ih fun j hj => hthreads j (List.mem_cons_of_mem _ hj)

/-- The same for threads that have not changed. -/
theorem Serial.congr {R : τ → τ → Prop} {threads threads' : List (Thread τ π ι)} {s u : σ}
    {is : List ℕ} (h : Serial S R threads s is u)
    (hthreads : ∀ i ∈ is, ∀ t, threads[i]? = some t → threads'[i]? = some t) :
    Serial S R threads' s is u :=
  h.mono fun i hi t ht => ⟨t, hthreads i hi t ht, fun _ hR => ⟨rfl, hR⟩⟩

/-! ## Steps -/

theorem step_advance {c c' : Config σ τ π ι} {i : ℕ} {x : ι}
    (h : step S c (.advance i x) = some c') :
    ∃ t r, c.threads[i]? = some t ∧ S.next x c.shared t.state = some r ∧ c' = apply S c i x t r := by
  obtain ⟨t, ht, h⟩ := Option.bind_eq_some_iff.mp h
  obtain ⟨r, hr, rfl⟩ := Option.map_eq_some_iff.mp h
  exact ⟨t, r, ht, hr, rfl⟩

theorem threads_apply_self {c : Config σ τ π ι} {i : ℕ} {t : Thread τ π ι}
    (ht : c.threads[i]? = some t) (x : ι) (r : σ × τ) :
    (apply S c i x t r).threads[i]? = some ⟨t.program, t.inputs ++ [x], r.2⟩ := by
  obtain ⟨hi, _⟩ := List.getElem?_eq_some_iff.mp ht
  rw [apply, List.getElem?_set_self hi]

theorem threads_apply_of_ne {c : Config σ τ π ι} {i j : ℕ} (h : j ≠ i) (t : Thread τ π ι) (x : ι)
    (r : σ × τ) : (apply S c i x t r).threads[j]? = c.threads[j]? := by
  rw [apply, List.getElem?_set_ne h.symm]

theorem linearized_init (I : σ → Prop) (R : τ → τ → Prop) (s : σ) :
    Linearized S I R s (init s) where
  pending := by intro i t ht; cases ht
  order := by intro i; simp [init]
  nodup := List.nodup_nil
  serial := .nil s

section

variable {I : σ → Prop} {R : τ → τ → Prop} {s : σ} {c : Config σ τ π ι}

theorem Linearized.lt_length (h : Linearized S I R s c) {i : ℕ} (hi : i ∈ c.order) :
    i < c.threads.length := by
  obtain ⟨t, ht, _⟩ := (h.order i).mp hi
  exact (List.getElem?_eq_some_iff.mp ht).1

theorem Linearized.call (hS : Linearizable S I R) (h : Linearized S I R s c) (p : π) :
    Linearized S I R s { c with threads := c.threads ++ [call S p] } where
  pending := by
    intro i t ht heff
    by_cases hi : i < c.threads.length
    · rw [List.getElem?_append_left hi] at ht
      exact h.pending i t ht heff
    · rw [List.getElem?_append_right (by omega)] at ht
      obtain rfl := List.mem_singleton.mp (List.mem_of_getElem? ht)
      exact .start
  order := by
    intro i
    by_cases hi : i < c.threads.length
    · rw [List.getElem?_append_left hi, h.order]
    · rw [List.getElem?_append_right (by omega)]
      refine ⟨fun hmem => absurd (h.lt_length hmem) hi, ?_⟩
      rintro ⟨t, ht, heff⟩
      obtain rfl := List.mem_singleton.mp (List.mem_of_getElem? ht)
      rw [Linearization.call, hS.start] at heff
      cases heff
  nodup := h.nodup
  serial := by
    refine h.serial.congr fun i hi t ht => ?_
    rw [List.getElem?_append_left (h.lt_length hi), ht]

/-- The thread takes no effect at this turn: it reads, or it has taken effect before. -/
theorem Linearized.serial_apply (hS : Linearizable S I R) (h : Linearized S I R s c) {i : ℕ}
    {x : ι} {t : Thread τ π ι} {r : σ × τ} (ht : c.threads[i]? = some t)
    (hr : S.next x c.shared t.state = some r)
    (heff : S.effective r.2 = true → S.effective t.state = true) :
    r.1 = c.shared ∧ Serial S R (apply S c i x t r).threads s c.order c.shared := by
  cases hbefore : S.effective t.state with
  | false =>
    have hafter : S.effective r.2 = false := by
      by_contra hne
      rw [heff (by simpa using hne)] at hbefore
      cases hbefore
    refine ⟨hS.silent hr hafter, h.serial.congr fun j hj u hu => ?_⟩
    have hne : j ≠ i := by
      rintro rfl
      obtain ⟨t', ht', heff'⟩ := (h.order j).mp hj
      obtain rfl := Option.some.inj (ht.symm.trans ht')
      rw [hbefore] at heff'
      cases heff'
    rw [threads_apply_of_ne hne, hu]
  | true =>
    obtain ⟨_, hany⟩ := hS.settled hr hbefore
    have hsame : r = (c.shared, r.2) := Option.some.inj (hr.symm.trans (hany c.shared))
    refine ⟨congrArg Prod.fst hsame, h.serial.mono fun j hj u hu => ?_⟩
    by_cases hij : j = i
    · subst hij
      obtain rfl := Option.some.inj (ht.symm.trans hu)
      refine ⟨_, threads_apply_self ht x _, fun v hR => ?_⟩
      -- alone, the thread takes the same turn, since it has not ended
      obtain hequal | hend := hS.ended hR
      · have hturn : turn S (solo S t.inputs v t.program) x =
            ((solo S t.inputs v t.program).1, r.2) := by
          rw [turn, hequal, hany]
          rfl
        simp only [solo_snoc, hturn]
        exact ⟨trivial, hS.refl _⟩
      · rw [hend] at hr
        cases hr
    · exact ⟨u, by rw [threads_apply_of_ne hij, hu], fun _ hR => ⟨rfl, hR⟩⟩

theorem Linearized.apply (hS : Linearizable S I R) (h : Linearized S I R s c) (hI : I c.shared)
    {i : ℕ} {x : ι} {t : Thread τ π ι} {r : σ × τ} (ht : c.threads[i]? = some t)
    (hr : S.next x c.shared t.state = some r) : Linearized S I R s (apply S c i x t r) := by
  have hself := threads_apply_self (S := S) ht x r
  have hother : ∀ j, j ≠ i → (Linearization.apply S c i x t r).threads[j]? = c.threads[j]? :=
    fun j hj => threads_apply_of_ne hj t x r
  have hpending : ∀ (j : ℕ) (u : Thread τ π ι),
      (Linearization.apply S c i x t r).threads[j]? = some u → S.effective u.state = false →
        Pending S I u.program u.inputs u.state := by
    intro j u hu heff
    by_cases hij : j = i
    · subst hij
      obtain rfl := Option.some.inj (hself.symm.trans hu)
      have hbefore : S.effective t.state = false := by
        by_contra hne
        have hafter := (hS.settled hr (by simpa using hne)).1
        rw [heff] at hafter
        cases hafter
      exact .next hI (h.pending j t ht hbefore) hr heff
    · rw [hother j hij] at hu
      exact h.pending j u hu heff
  by_cases hnew : S.effective r.2 = true ∧ S.effective t.state = false
  · -- the thread takes effect, and comes last in the order
    obtain ⟨hafter, hbefore⟩ := hnew
    have horder : (Linearization.apply S c i x t r).order = c.order ++ [i] := by
      simp [Linearization.apply, hafter, hbefore]
    have hnot : i ∉ c.order := by
      intro hi
      obtain ⟨u, hu, heff⟩ := (h.order i).mp hi
      obtain rfl := Option.some.inj (ht.symm.trans hu)
      rw [hbefore] at heff
      cases heff
    refine ⟨hpending, fun j => ?_, ?_, ?_⟩
    · rw [horder, List.mem_append, List.mem_singleton]
      by_cases hij : j = i
      · subst hij
        exact ⟨fun _ => ⟨_, hself, hafter⟩, fun _ => Or.inr rfl⟩
      · rw [hother j hij, ← h.order]
        exact ⟨fun hj => hj.resolve_right hij, Or.inl⟩
    · rw [horder]
      refine List.nodup_append.mpr ⟨h.nodup, by simp, fun j hj k hk hjk => ?_⟩
      obtain rfl := List.mem_singleton.mp hk
      exact hnot (hjk ▸ hj)
    · rw [horder]
      obtain ⟨hshared, hR⟩ := hS.effect hI (h.pending i t ht hbefore) hbefore hr hafter
      have hold : Serial S R (Linearization.apply S c i x t r).threads s c.order c.shared := by
        refine h.serial.congr fun j hj u hu => ?_
        rw [hother j fun hji => hnot (hji ▸ hj), hu]
      have hlast := hold.snoc hself hR
      rw [hshared] at hlast
      exact hlast
  · -- the order stays as it is
    have heff : S.effective r.2 = true → S.effective t.state = true := by
      intro hafter
      by_contra hne
      exact hnew ⟨hafter, by simpa using hne⟩
    have horder : (Linearization.apply S c i x t r).order = c.order := by
      rw [Linearization.apply, if_neg]
      simpa using heff
    obtain ⟨hshared, hserial⟩ := h.serial_apply hS ht hr heff
    refine ⟨hpending, fun j => ?_, horder ▸ h.nodup, ?_⟩
    · rw [horder]
      by_cases hij : j = i
      · subst hij
        rw [h.order]
        constructor
        · rintro ⟨u, hu, hbefore⟩
          obtain rfl := Option.some.inj (ht.symm.trans hu)
          exact ⟨_, hself, (hS.settled hr hbefore).1⟩
        · rintro ⟨u, hu, hafter⟩
          obtain rfl := Option.some.inj (hself.symm.trans hu)
          exact ⟨t, ht, heff hafter⟩
      · rw [hother j hij, ← h.order]
    · rw [horder]
      have hsame : (Linearization.apply S c i x t r).shared = c.shared := hshared
      rw [hsame]
      exact hserial

theorem Linearized.step (hS : Linearizable S I R) (h : Linearized S I R s c) (hI : I c.shared)
    {a : Action π ι} {c' : Config σ τ π ι} (hstep : step S c a = some c') :
    Linearized S I R s c' := by
  cases a with
  | call p =>
    obtain rfl := Option.some.inj hstep
    exact h.call hS p
  | advance i x =>
    obtain ⟨t, r, ht, hr, rfl⟩ := step_advance hstep
    exact h.apply hS hI ht hr

/-- Every run of a linearizable system has a serial order. -/
theorem linearized_of_exec (hS : Linearizable S I R) {as : List (Action π ι)}
    (hI : Always (step S) (fun c _ => I c.shared) (init s) as)
    (h : exec (step S) (init s) as = some c) : Linearized S I R s c :=
  exec_invariant_of_always (fun _ _ _ hl hshared hstep => hl.step hS hshared hstep)
    (linearized_init I R s) hI h

theorem order_prefix_of_exec {c' : Config σ τ π ι} {as : List (Action π ι)}
    (h : exec (step S) c as = some c') : c.order <+: c'.order := by
  refine exec_relation (R := fun c c' : Config σ τ π ι => c.order <+: c'.order)
    (fun _ => List.prefix_rfl) (fun _ _ _ => List.IsPrefix.trans) ?_ h
  intro c a c' hstep
  cases a with
  | call p =>
    obtain rfl := Option.some.inj hstep
    exact List.prefix_rfl
  | advance i x =>
    obtain ⟨t, r, _, _, rfl⟩ := step_advance hstep
    rw [Linearization.apply]
    split
    · exact List.prefix_append _ _
    · exact List.prefix_rfl

end

/-! ## What the threads have read -/

/-- What the turns of the thread `i` have read; one that was not called yet has read nothing. -/
def Config.inputs (c : Config σ τ π ι) (i : ℕ) : List ι :=
  (c.threads[i]?.map Thread.inputs).getD []

end Linearization
