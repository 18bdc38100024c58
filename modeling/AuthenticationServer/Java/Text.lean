import Mathlib.Algebra.GroupWithZero.Nat
import Mathlib.Data.List.Basic
import Mathlib.Data.List.DropRight

/-!
# Java strings

The operations of `java.lang.String`, `Character` and the Kotlin text library that the
service relies on, over sequences of Unicode characters.
-/

namespace Java

/-- `String.length`: the number of UTF-16 code units. -/
def length (s : String) : ℕ := (s.toList.map fun c => if c.val < 0x10000 then 1 else 2).sum

/-- `s.trim().isEmpty()`: `trim` drops every character up to the blank, U+0020. -/
def trimsToEmpty (s : String) : Bool := s.toList.all fun c => c.val ≤ 0x20

/-- The characters that Kotlin's `Char.isWhitespace` accepts: `Character.isWhitespace`
or `Character.isSpaceChar`. -/
def isWhitespace (c : Char) : Bool :=
  let n := c.toNat
  (0x9 ≤ n && n ≤ 0xD) || (0x1C ≤ n && n ≤ 0x20) || n == 0xA0 || n == 0x1680 || n == 0x180E ||
    (0x2000 ≤ n && n ≤ 0x200A) || n == 0x2028 || n == 0x2029 || n == 0x202F || n == 0x205F ||
    n == 0x3000

/-- Kotlin's `isBlank`. -/
def isBlank (s : String) : Bool := s.toList.all isWhitespace

/-- The first characters of the blocks of ten decimal digits of the basic multilingual plane
that Java 8 (Unicode 6.2) knows. -/
def decimalDigitZeros : List ℕ :=
  [0x30, 0x660, 0x6F0, 0x7C0, 0x966, 0x9E6, 0xA66, 0xAE6, 0xB66, 0xBE6, 0xC66, 0xCE6, 0xD66,
    0xE50, 0xED0, 0xF20, 0x1040, 0x1090, 0x17E0, 0x1810, 0x1946, 0x19D0, 0x1A80, 0x1A90, 0x1B50,
    0x1BB0, 0x1C40, 0x1C50, 0xA620, 0xA8D0, 0xA900, 0xA9D0, 0xAA50, 0xABF0, 0xFF10]

/-- `Character.digit(c, 16)`: decimal digits of any script, and the letters `a` to `f` in
lower or upper case, plain or full-width. -/
def hexDigit (c : Char) : Option ℕ :=
  let n := c.toNat
  match decimalDigitZeros.find? fun z => z ≤ n && n < z + 10 with
  | some z => some (n - z)
  | none =>
    match [0x41, 0x61, 0xFF21, 0xFF41].find? fun a => a ≤ n && n < a + 6 with
    | some a => some (n - a + 10)
    | none => none

/-- The character that `Long.toHexString` writes for a digit. -/
def hexChar (d : ℕ) : Char := "0123456789abcdef".toList.getD d '0'

/-- `s.split("-")`: without a dash the whole text; trailing empty parts are dropped. -/
def splitAtDash (cs : List Char) : List (List Char) :=
  if '-' ∈ cs then (cs.splitOn '-').rdropWhile List.isEmpty else [cs]

theorem hexDigit_hexChar {d : ℕ} (hd : d < 16) : hexDigit (hexChar d) = some d := by
  have h : ∀ d : Fin 16, hexDigit (hexChar d) = some d.val := by decide
  exact h ⟨d, hd⟩

theorem mapM_hexDigit_hexChar {ds : List ℕ} (h : ∀ d ∈ ds, d < 16) :
    (ds.map hexChar).mapM hexDigit = some ds := by
  induction ds with
  | nil => rfl
  | cons d ds ih =>
    have hd := hexDigit_hexChar (h d List.mem_cons_self)
    have ht := ih fun e he => h e (List.mem_cons_of_mem d he)
    simp [List.mapM_cons, hd, ht]

theorem hexChar_plain {d : ℕ} (hd : d < 16) :
    hexChar d ≠ '-' ∧ hexChar d ≠ '+' ∧ isWhitespace (hexChar d) = false := by
  have h : ∀ d : Fin 16, hexChar d ≠ '-' ∧ hexChar d ≠ '+' ∧ isWhitespace (hexChar d) = false := by
    decide
  exact h ⟨d, hd⟩

/-- Parts without a dash, joined by dashes, are what `split` gives back, when the last of
at least two of them is not empty. -/
theorem splitAtDash_intercalate (parts : List (List Char)) {last : List Char}
    (hdash : ∀ p ∈ parts ++ [last], '-' ∉ p) (hparts : parts ≠ []) (hlast : last ≠ []) :
    splitAtDash (['-'].intercalate (parts ++ [last])) = parts ++ [last] := by
  have hne : parts ++ [last] ≠ [] := by simp
  have hmem : '-' ∈ ['-'].intercalate (parts ++ [last]) := by
    cases parts with
    | nil => exact absurd rfl hparts
    | cons p ps =>
      cases ps with
      | nil => simp [List.intercalate]
      | cons q qs => simp [List.intercalate]
  rw [splitAtDash, if_pos hmem, List.splitOn_intercalate _ hdash hne,
    List.rdropWhile_eq_self_iff]
  intro _
  simpa using hlast

end Java
