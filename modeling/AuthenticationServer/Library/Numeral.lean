import Mathlib.Data.Nat.ModEq
import Mathlib.Data.List.Basic
import Mathlib.Tactic.Ring

/-!
# Positional numerals of a fixed width

Numerals are lists of digits, most significant first, as they are written and
read from left to right.

## Main definitions

- `digits b w n` - the last `w` digits of `n` in base `b`, zero-padded
- `value b ds` - the number that the digits `ds` denote

## Main results

- `value_digits` - reading back a numeral of width `w` gives the number modulo `b ^ w`
- `digits_lt` - every digit is below the base
- `digits_congr` - the digits depend on the number modulo `b ^ w`
-/

namespace Numeral

/-- The last `w` digits of `n` in base `b`, most significant first. -/
def digits (b : ℕ) : ℕ → ℕ → List ℕ
  | 0, _ => []
  | w + 1, n => digits b w (n / b) ++ [n % b]

/-- The number that a list of digits denotes, most significant first. -/
def value (b : ℕ) (ds : List ℕ) : ℕ := ds.foldl (fun acc d => acc * b + d) 0

@[simp] theorem length_digits (b w n : ℕ) : (digits b w n).length = w := by
  induction w generalizing n with
  | zero => rfl
  | succ w ih => simp [digits, ih]

theorem digits_lt {b : ℕ} (hb : 0 < b) (w n : ℕ) : ∀ d ∈ digits b w n, d < b := by
  induction w generalizing n with
  | zero => intro d hd; cases hd
  | succ w ih =>
    intro d hd
    rcases List.mem_append.mp hd with hd | hd
    · exact ih (n / b) d hd
    · rw [List.mem_singleton.mp hd]
      exact Nat.mod_lt n hb

theorem value_snoc (b : ℕ) (ds : List ℕ) (d : ℕ) :
    value b (ds ++ [d]) = value b ds * b + d := by
  simp only [value, List.foldl_append, List.foldl_cons, List.foldl_nil]

/-- Writing a number in `w` digits and reading it back keeps its last `w` digits. -/
theorem value_digits (b w n : ℕ) : value b (digits b w n) = n % b ^ w := by
  induction w generalizing n with
  | zero => rw [pow_zero, Nat.mod_one]; rfl
  | succ w ih =>
    have hd : n % b ^ (w + 1) = n % b + b * (n / b % b ^ w) := by
      rw [pow_succ, Nat.mul_comm, Nat.mod_mul]
    rw [digits, value_snoc, ih, hd]
    ring

/-- The last `w` digits of a number depend on it modulo `b ^ w` only. -/
theorem digits_congr {b w n m : ℕ} (h : n % b ^ w = m % b ^ w) : digits b w n = digits b w m := by
  induction w generalizing n m with
  | zero => rfl
  | succ w ih =>
    rw [pow_succ, Nat.mul_comm] at h
    have hlast : n % b = m % b := by
      have hmod := congrArg (· % b) h
      simpa only [Nat.mod_mul_right_mod] using hmod
    have hrest : n / b % b ^ w = m / b % b ^ w := by
      have hdiv := congrArg (· / b) h
      simpa only [Nat.mod_mul_right_div_self] using hdiv
    rw [digits, digits, ih hrest, hlast]

end Numeral
