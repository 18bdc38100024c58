import Mathlib.Data.List.Basic
import Mathlib.Logic.Relation

/-!
# Machines driven by inputs

A partial step function consumes one input at a time. A run is a list of
inputs; nondeterminism (schedules, clocks, random values) is part of the input,
so a run is a value that can be computed with.

## Main definitions

- `exec` - the state after a list of inputs, if every step is enabled
- `Reachable` - the states that some list of inputs leads to
- `Always` - a condition on the state before each step of a run

## Main results

- `exec_invariant` - what every enabled step preserves, every run preserves
- `exec_invariant_of_always` - the same under a condition on the steps
- `Reachable.invariant_of_reachable` - what every step from a reachable state preserves
- `Reachable.simulation` - what a machine does that other machines are built on
- `exec_relation` - a reflexive and transitive relation that every step respects
- `exec_exists_step` - what has come to hold in a run has come to hold at one of its steps
- `not_always_iff` - a condition fails along a run when one of its steps breaks it
-/

namespace Machine

variable {S A : Type*} (step : S → A → Option S)

/-- The state after the inputs `as`, or `none` when one of them is not enabled. -/
def exec (s : S) : List A → Option S
  | [] => some s
  | a :: as => (step s a).bind fun s' => exec s' as

/-- The states that runs from `s` lead to. -/
def Reachable (s s' : S) : Prop := ∃ as, exec step s as = some s'

/-- `G` holds of the state and the input at each step of the run `as`. -/
def Always (G : S → A → Prop) (s : S) : List A → Prop
  | [] => True
  | a :: as => G s a ∧ ∀ s', step s a = some s' → Always G s' as

variable {step}

@[simp] theorem exec_nil (s : S) : exec step s [] = some s := rfl

theorem exec_cons {s s' : S} {a : A} {as : List A} :
    exec step s (a :: as) = some s' ↔ ∃ t, step s a = some t ∧ exec step t as = some s' := by
  simp only [exec, Option.bind_eq_some_iff]

theorem exec_append {s s' : S} {as bs : List A} :
    exec step s (as ++ bs) = some s' ↔
      ∃ t, exec step s as = some t ∧ exec step t bs = some s' := by
  induction as generalizing s with
  | nil => simp
  | cons a as ih =>
    rw [List.cons_append, exec_cons]
    constructor
    · rintro ⟨t, ht, hr⟩
      obtain ⟨u, hu, hv⟩ := ih.mp hr
      exact ⟨u, exec_cons.mpr ⟨t, ht, hu⟩, hv⟩
    · rintro ⟨u, hu, hv⟩
      obtain ⟨t, ht, hr⟩ := exec_cons.mp hu
      exact ⟨t, ht, ih.mpr ⟨u, hr, hv⟩⟩

theorem exec_snoc {s s' : S} {a : A} {as : List A} :
    exec step s (as ++ [a]) = some s' ↔ ∃ t, exec step s as = some t ∧ step t a = some s' := by
  rw [exec_append]
  simp only [exec_cons, exec_nil, Option.some.injEq, exists_eq_right]

theorem Reachable.refl (s : S) : Reachable step s s := ⟨[], rfl⟩

theorem Reachable.trans {s t u : S} (h₁ : Reachable step s t) (h₂ : Reachable step t u) :
    Reachable step s u := by
  obtain ⟨as, ha⟩ := h₁
  obtain ⟨bs, hb⟩ := h₂
  exact ⟨as ++ bs, exec_append.mpr ⟨t, ha, hb⟩⟩

theorem Reachable.tail {s t u : S} {a : A} (h : Reachable step s t) (hs : step t a = some u) :
    Reachable step s u := by
  obtain ⟨as, ha⟩ := h
  exact ⟨as ++ [a], exec_snoc.mpr ⟨t, ha, hs⟩⟩

/-- A run keeps what its steps keep, when each of them meets the condition `G`. -/
theorem exec_invariant_of_always {G : S → A → Prop} {I : S → Prop}
    (hstep : ∀ s a s', I s → G s a → step s a = some s' → I s')
    {s s' : S} {as : List A} (hi : I s) (hg : Always step G s as)
    (h : exec step s as = some s') : I s' := by
  induction as generalizing s with
  | nil => cases h; exact hi
  | cons a as ih =>
    obtain ⟨t, ht, hr⟩ := exec_cons.mp h
    exact ih (hstep s a t hi hg.1 ht) (hg.2 t ht) hr

theorem exec_invariant {I : S → Prop} (hstep : ∀ s a s', I s → step s a = some s' → I s')
    {s s' : S} {as : List A} (hi : I s) (h : exec step s as = some s') : I s' := by
  induction as generalizing s with
  | nil => cases h; exact hi
  | cons a as ih =>
    obtain ⟨t, ht, hr⟩ := exec_cons.mp h
    exact ih (hstep s a t hi ht) hr

theorem Reachable.invariant {I : S → Prop} (hstep : ∀ s a s', I s → step s a = some s' → I s')
    {s s' : S} (hi : I s) (h : Reachable step s s') : I s' := by
  obtain ⟨as, ha⟩ := h
  exact exec_invariant hstep hi ha

/-- The same for an invariant whose step needs that the state before it is reachable. -/
theorem Reachable.invariant_of_reachable {I : S → Prop} {s₀ : S}
    (hstep : ∀ s a s', Reachable step s₀ s → I s → step s a = some s' → I s') (hi : I s₀)
    {s : S} (h : Reachable step s₀ s) : I s := by
  have hboth : Reachable step s₀ s ∧ I s := by
    refine h.invariant (I := fun t => Reachable step s₀ t ∧ I t) ?_ ⟨refl s₀, hi⟩
    rintro t a t' ⟨hr, ht⟩ hs
    exact ⟨hr.tail hs, hstep t a t' hr ht hs⟩
  exact hboth.2

/-- When every step of a machine is a run of another one, seen through `f`, so is every run. -/
theorem Reachable.simulation {T B : Type*} {step' : T → B → Option T} {f : T → S}
    (hstep : ∀ t b t', step' t b = some t' → Reachable step (f t) (f t')) {t t' : T}
    (h : Reachable step' t t') : Reachable step (f t) (f t') :=
  h.invariant (I := fun u => Reachable step (f t) (f u))
    (fun u b u' hu hs => hu.trans (hstep u b u' hs)) (refl (f t))

/-- A preorder that every step respects relates the two ends of every run. -/
theorem exec_relation {R : S → S → Prop} (hrefl : ∀ s, R s s)
    (htrans : ∀ s t u, R s t → R t u → R s u) (hstep : ∀ s a s', step s a = some s' → R s s')
    {s s' : S} {as : List A} (h : exec step s as = some s') : R s s' :=
  exec_invariant (I := R s) (fun t a t' hr ht => htrans s t t' hr (hstep t a t' ht)) (hrefl s) h

/-- What does not hold before a run and holds after it has come to hold at one of its steps. -/
theorem exec_exists_step {P : S → Prop} {s s' : S} {as : List A} (h : exec step s as = some s')
    (hs : ¬ P s) (hs' : P s') :
    ∃ pre a post t t', as = pre ++ a :: post ∧ exec step s pre = some t ∧ step t a = some t' ∧
      exec step t' post = some s' ∧ ¬ P t ∧ P t' := by
  induction as generalizing s with
  | nil =>
    obtain rfl := Option.some.inj h
    exact absurd hs' hs
  | cons a as ih =>
    obtain ⟨t, ht, hrest⟩ := exec_cons.mp h
    by_cases hnow : P t
    · exact ⟨[], a, as, s, t, rfl, rfl, ht, hrest, hs, hnow⟩
    · obtain ⟨pre, b, post, u, v, rfl, hu, hv, hpost, hnot, hyes⟩ := ih hrest hnow
      exact ⟨a :: pre, b, post, u, v, rfl, exec_cons.mpr ⟨t, ht, hu⟩, hv, hpost, hnot, hyes⟩

theorem always_of_forall {P : A → Prop} {as : List A} (h : ∀ a ∈ as, P a) (s : S) :
    Always step (fun _ a => P a) s as := by
  induction as generalizing s with
  | nil => trivial
  | cons a as ih =>
    exact ⟨h a List.mem_cons_self, fun t _ => ih (fun b hb => h b (List.mem_cons_of_mem _ hb)) t⟩

theorem Always.and {G G' : S → A → Prop} {s : S} {as : List A} (h : Always step G s as)
    (h' : Always step G' s as) : Always step (fun s a => G s a ∧ G' s a) s as := by
  induction as generalizing s with
  | nil => trivial
  | cons a as ih => exact ⟨⟨h.1, h'.1⟩, fun t ht => ih (h.2 t ht) (h'.2 t ht)⟩

/-- A condition fails along a run exactly when some step of it is taken without it. -/
theorem not_always_iff {G : S → A → Prop} {s : S} {as : List A} :
    ¬ Always step G s as ↔
      ∃ pre a post t, as = pre ++ a :: post ∧ exec step s pre = some t ∧ ¬ G t a := by
  induction as generalizing s with
  | nil => simp [Always]
  | cons a as ih =>
    constructor
    · intro h
      by_cases hg : G s a
      · have hr : ∃ t, step s a = some t ∧ ¬ Always step G t as := by
          simpa [Always, hg] using h
        obtain ⟨t, ht, hn⟩ := hr
        obtain ⟨pre, b, post, u, rfl, hu, hb⟩ := ih.mp hn
        exact ⟨a :: pre, b, post, u, rfl, exec_cons.mpr ⟨t, ht, hu⟩, hb⟩
      · exact ⟨[], a, as, s, rfl, rfl, hg⟩
    · rintro ⟨pre, b, post, u, he, hu, hb⟩ h
      cases pre with
      | nil =>
        simp only [List.nil_append, List.cons.injEq] at he
        obtain ⟨rfl, rfl⟩ := he
        cases hu
        exact hb h.1
      | cons c pre =>
        simp only [List.cons_append, List.cons.injEq] at he
        obtain ⟨rfl, rfl⟩ := he
        obtain ⟨t, ht, hv⟩ := exec_cons.mp hu
        exact ih.mpr ⟨pre, b, post, u, rfl, hv, hb⟩ (h.2 t ht)

end Machine
