import AuthenticationServer.Library.Rounding
import Mathlib.Algebra.Ring.Int.Defs
import Mathlib.Data.Prod.Lex

/-!
# `java.time.Instant` and `java.util.Date`

Instants count seconds and nanoseconds, dates count milliseconds in a signed 64-bit number.

## Main results

- `Instant.toEpochMilli_eq` - the two branches of `toEpochMilli` are one division that rounds
  down, checked once
- `Date.roundsDown` - an instant that is stored as a date is read back as the last whole
  millisecond that is not after it
-/

namespace Java

/-- The values of a `long`. -/
def IsLong (n : ℤ) : Prop := -2 ^ 63 ≤ n ∧ n < 2 ^ 63

instance (n : ℤ) : Decidable (IsLong n) := inferInstanceAs (Decidable (_ ∧ _))

/-- The result of an exact operation on `long`; `none` is an `ArithmeticException`. -/
def exact (n : ℤ) : Option ℤ := if IsLong n then some n else none

/-- `java.util.Date`: milliseconds since 1970. -/
structure Date where
  time : ℤ
  isLong : IsLong time
  deriving DecidableEq

/-- `java.time.Instant`, between `Instant.MIN` and `Instant.MAX`. -/
structure Instant where
  seconds : ℤ
  nanos : ℕ
  min_le : -31557014167219200 ≤ seconds
  le_max : seconds ≤ 31556889864403199
  nanos_lt : nanos < 1000000000
  deriving DecidableEq

namespace Instant

/-- `Instant.compareTo` compares the seconds, then the nanoseconds. -/
def key (i : Instant) : ℤ ×ₗ ℕ := toLex (i.seconds, i.nanos)

theorem key_injective : Function.Injective key := by
  intro i j h
  cases i
  cases j
  obtain ⟨rfl, rfl⟩ := Prod.mk.inj (toLex.injective h)
  rfl

instance : LinearOrder Instant := LinearOrder.lift' key key_injective

theorem le_iff {i j : Instant} :
    i ≤ j ↔ i.seconds < j.seconds ∨ i.seconds = j.seconds ∧ i.nanos ≤ j.nanos :=
  Prod.Lex.toLex_le_toLex

/-- The nanoseconds since 1970. -/
def epochNanos (i : Instant) : ℤ := i.seconds * 1000000000 + i.nanos

theorem le_iff_epochNanos {i j : Instant} : i ≤ j ↔ i.epochNanos ≤ j.epochNanos := by
  have hi := i.nanos_lt
  have hj := j.nanos_lt
  rw [le_iff, epochNanos, epochNanos]
  omega

/-- The instants without a fraction of a millisecond. -/
def wholeMillis : Set Instant := {i | i.nanos % 1000000 = 0}

theorem mem_wholeMillis {i : Instant} : i ∈ wholeMillis ↔ i.nanos % 1000000 = 0 := Iff.rfl

/-- `Instant.ofEpochMilli`: `Math.floorDiv` and `Math.floorMod` by 1000. -/
def ofEpochMilli (epochMilli : ℤ) (h : IsLong epochMilli) : Instant where
  seconds := epochMilli / 1000
  nanos := (epochMilli % 1000).toNat * 1000000
  min_le := by
    obtain ⟨hmin, _⟩ := h
    omega
  le_max := by
    obtain ⟨_, hmax⟩ := h
    omega
  nanos_lt := by omega

end Instant

/-- `Instant.toEpochMilli`; a negative second count with a positive nanosecond part is
computed from the next second downwards. -/
def Instant.toEpochMilli (i : Instant) : Option ℤ :=
  if i.seconds < 0 ∧ 0 < i.nanos then
    (exact ((i.seconds + 1) * 1000)).bind fun millis =>
      exact (millis + (Int.tdiv i.nanos 1000000 - 1000))
  else
    (exact (i.seconds * 1000)).bind fun millis => exact (millis + Int.tdiv i.nanos 1000000)

theorem exact_of_isLong {n : ℤ} (h : IsLong n) : exact n = some n := if_pos h

theorem isLong_of_exact {n m : ℤ} (h : exact n = some m) : IsLong m := by
  rw [exact] at h
  split at h
  · next hn => exact Option.some.inj h ▸ hn
  · cases h

theorem Instant.isLong_toEpochMilli {i : Instant} {ms : ℤ} (h : i.toEpochMilli = some ms) :
    IsLong ms := by
  rw [toEpochMilli] at h
  split at h <;>
  · obtain ⟨millis, _, hm⟩ := Option.bind_eq_some_iff.mp h
    exact isLong_of_exact hm

/-- `Date.from`; `none` is the `IllegalArgumentException` it throws for an
`ArithmeticException`. -/
def Date.ofInstant (i : Instant) : Option Date :=
  match h : i.toEpochMilli with
  | some ms => some ⟨ms, Instant.isLong_toEpochMilli h⟩
  | none => none

/-- `Date.toInstant`. -/
def Date.toInstant (d : Date) : Instant := Instant.ofEpochMilli d.time d.isLong

/-! ## Rounding -/

/-- A sum of exact parts is the exact sum when the first part fits whenever the sum does. -/
theorem exact_add {n k : ℤ} (h : IsLong (n + k) → IsLong n) :
    ((exact n).bind fun m => exact (m + k)) = exact (n + k) := by
  by_cases hn : IsLong n
  · rw [exact_of_isLong hn, Option.bind_some]
  · rw [exact, if_neg hn, exact, if_neg fun hk => hn (h hk)]
    rfl

/-- The two branches agree: the milliseconds are rounded down, and an `ArithmeticException` is
thrown for those beyond a `long` only. -/
theorem Instant.toEpochMilli_eq (i : Instant) :
    i.toEpochMilli = exact (i.epochNanos / 1000000) := by
  have hlt := i.nanos_lt
  have hnanos : Int.tdiv i.nanos 1000000 = i.nanos / 1000000 :=
    Int.tdiv_eq_ediv_of_nonneg (Int.natCast_nonneg _)
  rw [toEpochMilli, hnanos]
  split
  · next hneg =>
    -- the next second fits, since it is at most zero
    have hsum : (i.seconds + 1) * 1000 + ((i.nanos : ℤ) / 1000000 - 1000) =
        i.epochNanos / 1000000 := by
      rw [epochNanos]
      omega
    rw [exact_add, hsum]
    rintro ⟨hmin, _⟩
    exact ⟨by omega, by omega⟩
  · next hpos =>
    have hsum : i.seconds * 1000 + (i.nanos : ℤ) / 1000000 = i.epochNanos / 1000000 := by
      rw [epochNanos]
      omega
    rw [exact_add, hsum]
    rintro ⟨hmin, hmax⟩
    exact ⟨by omega, by omega⟩

/-- One nanosecond after the last second before 1970 is rounded down to that second. -/
example : Instant.toEpochMilli ⟨-1, 1, by decide, by decide, by decide⟩ = some (-1000) := by decide

/-- A stored instant is the date of its milliseconds, rounded down. -/
theorem Date.ofInstant_eq_some {i : Instant} {d : Date} :
    Date.ofInstant i = some d ↔ i.epochNanos / 1000000 = d.time := by
  have hmillis : Date.ofInstant i = some d ↔ i.toEpochMilli = some d.time := by
    obtain ⟨time, isLong⟩ := d
    rw [ofInstant]
    split
    · next ms h => simp only [h, Option.some.injEq, Date.mk.injEq]
    · next h => simp only [h, reduceCtorEq]
  rw [hmillis, i.toEpochMilli_eq]
  constructor
  · intro h
    rw [exact] at h
    split at h
    · exact Option.some.inj h
    · cases h
  · intro h
    rw [h, exact_of_isLong d.isLong]

/-- An instant cannot be stored exactly when its milliseconds, rounded down, are no `long`. -/
theorem Date.ofInstant_eq_none {i : Instant} :
    Date.ofInstant i = none ↔ ¬ IsLong (i.epochNanos / 1000000) := by
  rw [Option.eq_none_iff_forall_ne_some]
  constructor
  · intro h hlong
    exact h ⟨_, hlong⟩ (ofInstant_eq_some.mpr rfl)
  · intro hlong d hd
    rw [ofInstant_eq_some.mp hd] at hlong
    exact hlong d.isLong

theorem Date.epochNanos_toInstant (d : Date) : d.toInstant.epochNanos = d.time * 1000000 := by
  simp only [toInstant, Instant.ofEpochMilli, Instant.epochNanos]
  omega

/-- An instant that is stored as a date is read back as the last whole millisecond that is not
after it, and a date that is read is stored as itself. -/
theorem Date.roundsDown : RoundsDown Instant.wholeMillis Date.ofInstant Date.toInstant where
  write_read := by
    intro d
    rw [ofInstant_eq_some, epochNanos_toInstant]
    omega
  isGreatest := by
    intro i d hd
    have hmillis : i.epochNanos / 1000000 = d.time := ofInstant_eq_some.mp hd
    refine ⟨⟨?_, ?_⟩, ?_⟩
    · rw [Instant.mem_wholeMillis]
      exact Nat.mul_mod_left _ 1000000
    · rw [Instant.le_iff_epochNanos, epochNanos_toInstant]
      omega
    · rintro x ⟨hx, hxi⟩
      -- a whole number of milliseconds below the instant is at most its quotient
      rw [Instant.mem_wholeMillis] at hx
      rw [Instant.le_iff_epochNanos] at hxi ⊢
      rw [epochNanos_toInstant]
      simp only [Instant.epochNanos] at hxi hmillis ⊢
      omega

end Java
