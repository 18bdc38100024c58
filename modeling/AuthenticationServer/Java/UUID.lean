import AuthenticationServer.Library.Numeral
import AuthenticationServer.Java.Text
import Mathlib.Data.BitVec

/-!
# `java.util.UUID`

The 128-bit identifiers of Java 8 with their textual form.

## Main results

- `UUID.fromString_toString` - reading back the text of an identifier gives the identifier
- `UUID.toString_injective` - different identifiers have different texts
-/

namespace Java

/-- The two 64-bit halves of an identifier. -/
structure UUID where
  mostSigBits : BitVec 64
  leastSigBits : BitVec 64
  deriving DecidableEq, Repr

namespace UUID

/-- `UUID.digits`: the last `width` hexadecimal digits of a `long`, zero-padded. -/
def digits (val : BitVec 64) (width : ℕ) : List Char :=
  (Numeral.digits 16 width val.toNat).map hexChar

/-- `UUID.toString`: the five groups, joined by dashes. -/
def toString (u : UUID) : String :=
  String.ofList (['-'].intercalate
    [digits (u.mostSigBits >>> 32) 8, digits (u.mostSigBits >>> 16) 4, digits u.mostSigBits 4,
      digits (u.leastSigBits >>> 48) 4, digits u.leastSigBits 12])

/-- `Long.decode("0x" + s)` for a part without a dash: a sign after the radix specifier, no
digit, a character that is no digit and a value beyond `Long.MAX_VALUE` are rejected. -/
def decodeHex (s : List Char) : Option (BitVec 64) :=
  if s = [] ∨ s.head? = some '+' then none
  else
    match s.mapM hexDigit with
    | none => none
    | some ds => if Numeral.value 16 ds < 2 ^ 63 then some (Numeral.value 16 ds) else none

/-- `UUID.fromString`; `none` is an `IllegalArgumentException`. -/
def fromString (name : String) : Option UUID :=
  match splitAtDash name.toList with
  | [c₀, c₁, c₂, c₃, c₄] => do
    let l₀ ← decodeHex c₀
    let l₁ ← decodeHex c₁
    let l₂ ← decodeHex c₂
    let l₃ ← decodeHex c₃
    let l₄ ← decodeHex c₄
    return ⟨((l₀ <<< 16 ||| l₁) <<< 16) ||| l₂, l₃ <<< 48 ||| l₄⟩
  | _ => none

/-- `UUID.hashCode`: the exclusive or of the four 32-bit words. -/
def hashCode (u : UUID) : BitVec 32 :=
  let hilo := u.mostSigBits ^^^ u.leastSigBits
  (hilo >>> 32).truncate 32 ^^^ hilo.truncate 32

/-- The last digits of a signed shift are those of an unsigned one, as long as they do not
reach the copies of the sign. -/
theorem digits_sshiftRight (val : BitVec 64) {k width : ℕ} (h : k + 4 * width ≤ 64) :
    digits (val.sshiftRight k) width = digits (val >>> k) width := by
  rw [digits, digits, Numeral.digits_congr]
  rw [show 16 ^ width = 2 ^ (4 * width) by rw [pow_mul]; rfl]
  apply Nat.eq_of_testBit_eq
  intro i
  rw [Nat.testBit_mod_two_pow, Nat.testBit_mod_two_pow, BitVec.testBit_toNat, BitVec.testBit_toNat,
    BitVec.getLsbD_sshiftRight, BitVec.getLsbD_ushiftRight]
  by_cases hi : i < 4 * width
  · have hlt : k + i < 64 := by omega
    have hi' : ¬ 64 ≤ i := by omega
    simp [hlt, hi']
  · simp [hi]

/-- The shifts of the source are signed; the groups are the same. -/
theorem toString_eq_sshiftRight (u : UUID) :
    u.toString = String.ofList (['-'].intercalate
      [digits (u.mostSigBits.sshiftRight 32) 8, digits (u.mostSigBits.sshiftRight 16) 4,
        digits u.mostSigBits 4, digits (u.leastSigBits.sshiftRight 48) 4,
        digits u.leastSigBits 12]) := by
  rw [digits_sshiftRight _ (by decide), digits_sshiftRight _ (by decide),
    digits_sshiftRight _ (by decide), toString]

theorem mem_digits {val : BitVec 64} {width : ℕ} {c : Char} (hc : c ∈ digits val width) :
    ∃ d < 16, c = hexChar d := by
  obtain ⟨d, hd, rfl⟩ := List.mem_map.mp hc
  exact ⟨d, Numeral.digits_lt (by decide) width _ d hd, rfl⟩

theorem digits_ne_nil {val : BitVec 64} {width : ℕ} (hw : 0 < width) : digits val width ≠ [] := by
  intro h
  have hl := congrArg List.length h
  simp only [digits, List.length_map, Numeral.length_digits, List.length_nil] at hl
  omega

theorem dash_notMem_digits (val : BitVec 64) (width : ℕ) : '-' ∉ digits val width := by
  intro hm
  obtain ⟨d, hd, hc⟩ := mem_digits hm
  exact (hexChar_plain hd).1 hc.symm

/-- A group of at most fifteen digits is decoded to the bits it was written from. -/
theorem decodeHex_digits (val : BitVec 64) {width : ℕ} (hw : 0 < width) (hw' : width ≤ 15) :
    decodeHex (digits val width) = some (BitVec.ofNat 64 (val.toNat % 16 ^ width)) := by
  -- a group of sixteen digits may be beyond `Long.MAX_VALUE`
  have hlt : val.toNat % 16 ^ width < 2 ^ 63 := by
    have hm : val.toNat % 16 ^ width < 16 ^ width := Nat.mod_lt _ (Nat.pow_pos (by decide))
    have hp : 16 ^ width ≤ 16 ^ 15 := Nat.pow_le_pow_right (by decide) hw'
    have hq : 16 ^ 15 < 2 ^ 63 := by decide
    omega
  have hhead : (digits val width).head? ≠ some '+' := by
    intro hh
    obtain ⟨d, hd, hc⟩ := mem_digits (List.mem_of_mem_head? hh)
    exact (hexChar_plain hd).2.1 hc.symm
  rw [decodeHex, if_neg (by simp [digits_ne_nil hw, hhead])]
  have hm : (digits val width).mapM hexDigit = some (Numeral.digits 16 width val.toNat) :=
    mapM_hexDigit_hexChar (Numeral.digits_lt (by decide) width _)
  simp only [hm, Numeral.value_digits, if_pos hlt]
  rfl

/-- One bit of a group of `width` digits, decoded. -/
theorem getLsbD_group (val : BitVec 64) (k i : ℕ) :
    (BitVec.ofNat 64 (val.toNat % 2 ^ k)).getLsbD i =
      (decide (i < 64) && (decide (i < k) && val.getLsbD i)) := by
  rw [BitVec.getLsbD_ofNat, Nat.testBit_mod_two_pow, BitVec.testBit_toNat]

/-- The three groups of the first half, shifted together, are that half. -/
theorem mostSigBits_join (m : BitVec 64) :
    ((BitVec.ofNat 64 ((m >>> 32).toNat % 16 ^ 8) <<< 16 |||
        BitVec.ofNat 64 ((m >>> 16).toNat % 16 ^ 4)) <<< 16) |||
      BitVec.ofNat 64 (m.toNat % 16 ^ 4) = m := by
  rw [show 16 ^ 8 = 2 ^ 32 from rfl, show 16 ^ 4 = 2 ^ 16 from rfl]
  apply BitVec.eq_of_getLsbD_eq
  intro i hi
  simp only [BitVec.getLsbD_or, BitVec.getLsbD_shiftLeft, getLsbD_group,
    BitVec.getLsbD_ushiftRight, hi, decide_true, Bool.true_and]
  -- bit `i` lies in exactly one of the groups `0..15`, `16..31` and `32..63`
  by_cases h : i < 16
  · simp [h]
  · by_cases h' : i < 32
    · have h₁ : 16 + (i - 16) = i := by omega
      have h₂ : i - 16 < 16 := by omega
      simp [h, h₁, h₂]
      omega
    · have h₁ : 32 + (i - 16 - 16) = i := by omega
      have h₂ : ¬ i - 16 < 16 := by omega
      have h₃ : i - 16 - 16 < 32 := by omega
      have h₄ : i - 16 < 64 := by omega
      have h₅ : i - 16 - 16 < 64 := by omega
      simp [h, h₁, h₂, h₃, h₄, h₅]

theorem leastSigBits_join (l : BitVec 64) :
    BitVec.ofNat 64 ((l >>> 48).toNat % 16 ^ 4) <<< 48 |||
      BitVec.ofNat 64 (l.toNat % 16 ^ 12) = l := by
  rw [show 16 ^ 12 = 2 ^ 48 from rfl, show 16 ^ 4 = 2 ^ 16 from rfl]
  apply BitVec.eq_of_getLsbD_eq
  intro i hi
  simp only [BitVec.getLsbD_or, BitVec.getLsbD_shiftLeft, getLsbD_group,
    BitVec.getLsbD_ushiftRight, hi, decide_true, Bool.true_and]
  by_cases h : i < 48
  · simp [h]
  · have h₁ : 48 + (i - 48) = i := by omega
    have h₂ : i - 48 < 16 := by omega
    simp [h, h₁, h₂]
    omega

theorem splitAtDash_toString (u : UUID) :
    splitAtDash u.toString.toList =
      [digits (u.mostSigBits >>> 32) 8, digits (u.mostSigBits >>> 16) 4, digits u.mostSigBits 4,
        digits (u.leastSigBits >>> 48) 4, digits u.leastSigBits 12] := by
  rw [toString, String.toList_ofList]
  refine splitAtDash_intercalate [_, _, _, _] ?_ (by simp) (digits_ne_nil (by decide))
  intro p hp
  simp only [List.cons_append, List.nil_append, List.mem_cons, List.not_mem_nil, or_false] at hp
  rcases hp with rfl | rfl | rfl | rfl | rfl <;> exact dash_notMem_digits _ _

/-- Reading back the text of an identifier gives the identifier. -/
theorem fromString_toString (u : UUID) : fromString u.toString = some u := by
  rw [fromString, splitAtDash_toString]
  simp only [decodeHex_digits, Nat.zero_lt_succ, Nat.reduceLeDiff, Option.bind_eq_bind,
    Option.bind_some, mostSigBits_join, leastSigBits_join]
  rfl

theorem toString_injective {u v : UUID} (h : u.toString = v.toString) : u = v := by
  have hu := fromString_toString u
  rw [h, fromString_toString v] at hu
  exact (Option.some.inj hu).symm

/-- The text of an identifier is not blank: it begins with a digit. -/
theorem isBlank_toString (u : UUID) : isBlank u.toString = false := by
  have hne : digits (u.mostSigBits >>> 32) 8 ≠ [] := digits_ne_nil (by decide)
  obtain ⟨c, cs, hc⟩ := List.exists_cons_of_ne_nil hne
  obtain ⟨d, hd, rfl⟩ := mem_digits (hc ▸ List.mem_cons_self : c ∈ digits (u.mostSigBits >>> 32) 8)
  rw [isBlank, toString, String.toList_ofList, List.intercalate_cons_cons, hc, List.cons_append,
    List.cons_append, List.all_cons, (hexChar_plain hd).2.2, Bool.false_and]

/-- A text that is read as an identifier has a dash in it. -/
theorem isBlank_of_fromString {name : String} {u : UUID} (h : fromString name = some u) :
    isBlank name = false := by
  have hdash : '-' ∈ name.toList := by
    by_contra hn
    rw [fromString, splitAtDash, if_neg hn] at h
    cases h
  by_contra hblank
  have hall : name.toList.all isWhitespace = true := by simpa [isBlank] using hblank
  have hspace := List.all_eq_true.mp hall '-' hdash
  revert hspace
  decide

theorem toString_ne_empty (u : UUID) : u.toString ≠ "" := by
  intro hempty
  have hblank := isBlank_toString u
  rw [hempty] at hblank
  cases hblank

end UUID

end Java
