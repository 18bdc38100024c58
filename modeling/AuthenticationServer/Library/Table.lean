import Mathlib.Algebra.GroupWithZero.Nat
import Mathlib.Data.List.Basic
import Mathlib.Data.List.Nodup
import Mathlib.Data.List.Count

/-!
# Tables with unique columns

A table is a list of rows. A column is a function of the row; it is unique when no two
rows agree in it.

## Main definitions

- `Unique f rows` - the column `f` is unique
- `rowsWith f k rows` - the rows whose column `f` is `k`

## Main results

- `Unique.rowsWith_eq_singleton` - a lookup by a unique column finds at most one row
- `unique_concat` - a row may be added when its value is not there yet
- `Unique.filter` - deleting rows keeps a column unique
- `countP_split` - counting rows splits over a partition into kept and deleted rows
-/

namespace Table

variable {α β : Type*}

/-- No two rows agree in the column `f`. -/
def Unique (f : α → β) (rows : List α) : Prop := (rows.map f).Nodup

/-- The rows whose column `f` has the value `k`. -/
def rowsWith [DecidableEq β] (f : α → β) (k : β) (rows : List α) : List α :=
  rows.filter fun r => f r = k

theorem unique_nil (f : α → β) : Unique f [] := List.nodup_nil

theorem unique_concat {f : α → β} {rows : List α} {r : α} :
    Unique f (rows ++ [r]) ↔ Unique f rows ∧ ∀ q ∈ rows, f q ≠ f r := by
  simp only [Unique, List.map_append, List.map_cons, List.map_nil, List.nodup_append,
    List.nodup_cons, List.not_mem_nil, not_false_eq_true, List.nodup_nil, List.mem_map,
    List.mem_singleton, true_and]
  constructor
  · rintro ⟨hu, hn⟩
    exact ⟨hu, fun q hq => hn (f q) ⟨q, hq, rfl⟩ (f r) rfl⟩
  · rintro ⟨hu, hn⟩
    refine ⟨hu, ?_⟩
    rintro _ ⟨q, hq, rfl⟩ _ rfl
    exact hn q hq

theorem Unique.filter {f : α → β} {rows : List α} (h : Unique f rows) (p : α → Bool) :
    Unique f (rows.filter p) :=
  List.Nodup.sublist (List.filter_sublist.map f) h

/-- A column of derived rows is unique when its value determines a unique column of the rows
that they are derived from. -/
theorem Unique.filterMap {γ δ : Type*} {f : α → β} {rows : List α} (h : Unique f rows)
    {g : α → Option γ} {k : γ → δ}
    (hk : ∀ q r b c, g q = some b → g r = some c → k b = k c → f q = f r) :
    Unique k (rows.filterMap g) := by
  rw [Unique, List.Nodup, List.pairwise_map, List.pairwise_filterMap]
  rw [Unique, List.Nodup, List.pairwise_map] at h
  refine h.imp ?_
  intro q r hne b hb c hc he
  exact hne (hk q r b c hb hc he)

theorem mem_rowsWith [DecidableEq β] {f : α → β} {k : β} {rows : List α} {r : α} :
    r ∈ rowsWith f k rows ↔ r ∈ rows ∧ f r = k := by
  simp only [rowsWith, List.mem_filter, decide_eq_true_eq]

theorem rowsWith_eq_nil [DecidableEq β] {f : α → β} {k : β} {rows : List α} :
    rowsWith f k rows = [] ↔ ∀ r ∈ rows, f r ≠ k := by
  simp only [rowsWith, List.filter_eq_nil_iff, decide_eq_true_eq, ne_eq]

/-- A lookup by a unique column finds the one row that has the value. -/
theorem Unique.rowsWith_eq_singleton [DecidableEq β] {f : α → β} {rows : List α}
    (h : Unique f rows) {r : α} (hr : r ∈ rows) : rowsWith f (f r) rows = [r] := by
  induction rows with
  | nil => cases hr
  | cons q rows ih =>
    have hq : f q ∉ rows.map f := (List.nodup_cons.mp h).1
    have hrest : Unique f rows := (List.nodup_cons.mp h).2
    rcases List.mem_cons.mp hr with rfl | hr'
    · have hn : rowsWith f (f r) rows = [] :=
        rowsWith_eq_nil.mpr fun p hp he => hq (List.mem_map.mpr ⟨p, hp, he⟩)
      rw [rowsWith, List.filter_cons_of_pos (by simp)]
      exact congrArg (r :: ·) hn
    · have hne : f q ≠ f r := fun he => hq (List.mem_map.mpr ⟨r, hr', he.symm⟩)
      rw [rowsWith, List.filter_cons_of_neg (by simpa using hne)]
      exact ih hrest hr'

theorem Unique.find?_eq_some [DecidableEq β] {f : α → β} {rows : List α}
    (h : Unique f rows) {r : α} (hr : r ∈ rows) : rows.find? (fun q => f q = f r) = some r := by
  have hs := h.rowsWith_eq_singleton hr
  rw [rowsWith] at hs
  rw [← List.head?_filter, hs]
  rfl

theorem Unique.countP_le_one [DecidableEq β] {f : α → β} {rows : List α} (h : Unique f rows)
    (k : β) : rows.countP (fun r => f r = k) ≤ 1 := by
  have hcount : (rows.map f).count k ≤ 1 := List.nodup_iff_count_le_one.mp h k
  rw [List.count_eq_countP, List.countP_map] at hcount
  exact hcount

theorem countP_split (q p : α → Bool) (rows : List α) :
    (rows.filter p).countP q + (rows.filter fun r => !p r).countP q = rows.countP q := by
  induction rows with
  | nil => rfl
  | cons r rows ih =>
    by_cases hp : p r = true
    · rw [List.filter_cons_of_pos hp, List.filter_cons_of_neg (by simpa using hp)]
      simp only [List.countP_cons]
      omega
    · rw [List.filter_cons_of_neg hp, List.filter_cons_of_pos (by simpa using hp)]
      simp only [List.countP_cons]
      omega

/-- Replacing one row changes a count by the difference between the two rows. -/
theorem countP_set_add {q : α → Bool} {rows : List α} {i : ℕ} {r t : α} (h : rows[i]? = some r) :
    (rows.set i t).countP q + (if q r then 1 else 0) =
      rows.countP q + (if q t then 1 else 0) := by
  induction rows generalizing i with
  | nil => simp at h
  | cons a rows ih =>
    cases i with
    | zero =>
      simp only [List.getElem?_cons_zero, Option.some.injEq] at h
      subst h
      simp only [List.set_cons_zero, List.countP_cons]
      omega
    | succ i =>
      have hi := ih (i := i) (by simpa using h)
      simp only [List.set_cons_succ, List.countP_cons]
      omega

/-- The same for a sum over the rows. -/
theorem sum_set_add {f : α → ℕ} {rows : List α} {i : ℕ} {r t : α} (h : rows[i]? = some r) :
    ((rows.set i t).map f).sum + f r = (rows.map f).sum + f t := by
  induction rows generalizing i with
  | nil => cases h
  | cons a rows ih =>
    cases i with
    | zero =>
      obtain rfl := Option.some.inj h
      simp only [List.set_cons_zero, List.map_cons, List.sum_cons]
      omega
    | succ i =>
      have hrest := ih (i := i) h
      simp only [List.set_cons_succ, List.map_cons, List.sum_cons]
      omega

/-- In a list with at most one marked element, none is marked before a marked one. -/
theorem countP_le_one_iff {p : α → Bool} {l : List α} :
    l.countP p ≤ 1 ↔ ∀ k a, l[k]? = some a → p a = true → (l.take k).countP p = 0 := by
  induction l with
  | nil => simp
  | cons b l ih =>
    constructor
    · intro h k a hk ha
      cases k with
      | zero => rfl
      | succ k =>
        rw [List.getElem?_cons_succ] at hk
        have hpos : 0 < l.countP p := List.countP_pos_iff.mpr ⟨a, List.mem_of_getElem? hk, ha⟩
        rw [List.countP_cons] at h
        rw [List.take_succ_cons, List.countP_cons, ih.mp (by omega) k a hk ha]
        omega
    · intro h
      rw [List.countP_cons]
      by_cases hb : p b = true
      · have hzero : l.countP p = 0 := by
          rw [List.countP_eq_zero]
          intro a ha hpa
          obtain ⟨k, hk⟩ := List.mem_iff_getElem?.mp ha
          have := h (k + 1) a hk hpa
          rw [List.take_succ_cons, List.countP_cons, if_pos hb] at this
          omega
        rw [if_pos hb]
        omega
      · rw [if_neg hb, Nat.add_zero, ih]
        intro k a hk ha
        have := h (k + 1) a hk ha
        rw [List.take_succ_cons, List.countP_cons, if_neg hb] at this
        omega

/-- When `g` numbers some elements of a list without a repetition, a number has one index. -/
theorem index_unique_of_nodup {g : α → Option β} {l : List α} (h : (l.filterMap g).Nodup)
    {i j : ℕ} {a b : α} (ha : l[i]? = some a) (hb : l[j]? = some b) {n : β} (hga : g a = some n)
    (hgb : g b = some n) : i = j := by
  rw [List.Nodup, List.pairwise_filterMap, List.pairwise_iff_getElem] at h
  have hle : ∀ {i j : ℕ} {a b : α}, l[i]? = some a → l[j]? = some b → g a = some n → g b = some n →
      ¬ i < j := by
    intro i j a b ha hb hga hgb hij
    obtain ⟨hi, rfl⟩ := List.getElem?_eq_some_iff.mp ha
    obtain ⟨hj, rfl⟩ := List.getElem?_eq_some_iff.mp hb
    exact h i j hi hj hij n hga n hgb rfl
  have h₁ := hle ha hb hga hgb
  have h₂ := hle hb ha hgb hga
  omega

theorem filterMap_set_of_eq {g : α → Option β} {l : List α} {i : ℕ} {a b : α} (h : l[i]? = some a)
    (hg : g b = g a) : (l.set i b).filterMap g = l.filterMap g := by
  induction l generalizing i with
  | nil => rfl
  | cons c l ih =>
    cases i with
    | zero =>
      obtain rfl := Option.some.inj h
      simp [List.filterMap_cons, hg]
    | succ i => simp [List.filterMap_cons, ih (i := i) h]

theorem getElem?_concat {l : List α} {a b : α} {i : ℕ} (h : (l ++ [a])[i]? = some b) :
    l[i]? = some b ∨ i = l.length ∧ b = a := by
  by_cases hi : i < l.length
  · rw [List.getElem?_append_left hi] at h
    exact Or.inl h
  · rw [List.getElem?_append_right (by omega)] at h
    obtain ⟨hlt, hb⟩ := List.getElem?_eq_some_iff.mp h
    rw [List.length_singleton] at hlt
    refine Or.inr ⟨by omega, ?_⟩
    rw [← hb]
    simp only [List.getElem_singleton]

theorem getElem?_set_cases {l : List α} {a b : α} {i j : ℕ} (h : (l.set i a)[j]? = some b) :
    l[j]? = some b ∨ j = i ∧ b = a := by
  rw [List.getElem?_set] at h
  by_cases hij : i = j
  · rw [if_pos hij] at h
    split at h
    · exact Or.inr ⟨hij.symm, (Option.some.inj h).symm⟩
    · cases h
  · rw [if_neg hij] at h
    exact Or.inl h

/-- Two marked elements are one, in a list with at most one of them. -/
theorem index_unique {p : α → Bool} {l : List α} (h : l.countP p ≤ 1) {i j : ℕ} {a b : α}
    (ha : l[i]? = some a) (hb : l[j]? = some b) (hpa : p a = true) (hpb : p b = true) : i = j := by
  have hle : ∀ {i j : ℕ} {a b : α}, l[i]? = some a → l[j]? = some b → p a = true → p b = true →
      ¬ i < j := by
    intro i j a b ha hb hpa hpb hij
    have hzero := countP_le_one_iff.mp h j b hb hpb
    have hmem : a ∈ l.take j := List.mem_of_getElem? ((List.getElem?_take_of_lt hij).trans ha)
    exact (List.countP_eq_zero.mp hzero) a hmem hpa
  have h₁ := hle ha hb hpa hpb
  have h₂ := hle hb ha hpb hpa
  omega

end Table
