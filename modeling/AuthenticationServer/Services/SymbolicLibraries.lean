import AuthenticationServer.Java.Text
import AuthenticationServer.Services.AccountService
import Mathlib.Data.List.TakeDrop

/-!
# A symbolic instance of the third-party code

Hashes are pairs of a salt and a password, tokens are readable texts. The instance meets
all assumptions on the third-party code at once, so none of them is vacuous, and it can be
computed with.
-/

namespace AuthenticationServer

open Java

namespace Symbolic

/-- The hexadecimal digits of `n`, least significant first; `fuel` bounds their number. -/
def hexDigits : ℕ → ℕ → List ℕ
  | 0, _ => []
  | fuel + 1, n => if n = 0 then [] else n % 16 :: hexDigits fuel (n / 16)

/-- The number that digits denote, least significant first. -/
def ofHexDigits (ds : List ℕ) : ℕ := ds.foldr (fun d n => d + 16 * n) 0

/-- A sign, the digits and a full stop. -/
def encodeInt (n : ℤ) : List Char :=
  (if n < 0 then '-' else '+') :: (hexDigits n.natAbs n.natAbs).map hexChar ++ ['.']

/-- The number at the beginning of a text, and the rest of the text. -/
def decodeInt : List Char → Option (ℤ × List Char)
  | [] => none
  | sign :: cs =>
    ((cs.takeWhile (· ≠ '.')).mapM hexDigit).map fun ds =>
      (if sign = '-' then -(ofHexDigits ds : ℤ) else ofHexDigits ds,
        (cs.dropWhile (· ≠ '.')).drop 1)

def encode (b : JwtBuilder) : String :=
  String.ofList (encodeInt b.issuedAt ++ (encodeInt b.expiration ++ b.subject.toList))

def decode (token : String) : Option JwtBuilder := do
  let (issuedAt, cs) ← decodeInt token.toList
  let (expiration, cs) ← decodeInt cs
  return ⟨String.ofList cs, issuedAt, expiration⟩

/-- The symbolic third-party code. -/
def libraries : Libraries (ℕ × String) ℕ where
  scrypt salt passwd _ _ _ := (salt, passwd)
  check passwd hashed := .ok (hashed.2 = passwd)
  hashLength _ := 79
  isEmail e := e.isEmpty || e.toList.contains '@'
  compact _ b := encode b
  parseClaimsJws _ now token :=
    match decode token with
    | none => .error .malformedJwtException
    | some b => if b.claims.expired now then .error .expiredJwtException else .ok b.claims

/-- What a call reads at a time `now`, when the ids to be drawn next are `2 * n` and
`2 * n + 1`. -/
def ambient (n : ℕ) (now : ℤ) : Ambient ℕ where
  accountId := ⟨0, BitVec.ofNat 64 (2 * n)⟩
  credentialId := ⟨0, BitVec.ofNat 64 (2 * n + 1)⟩
  salt := n
  requestTime := ⟨0, 0, by decide, by decide, by decide⟩
  storable := by decide
  date := now
  currentTimeMillis := now
  violationOrder := id
  violationOrder_perm := List.Perm.refl

theorem hexDigits_lt (fuel n : ℕ) : ∀ d ∈ hexDigits fuel n, d < 16 := by
  induction fuel generalizing n with
  | zero => intro d hd; cases hd
  | succ fuel ih =>
    intro d hd
    rw [hexDigits] at hd
    split at hd
    · cases hd
    · rcases List.mem_cons.mp hd with rfl | hd
      · exact Nat.mod_lt n (by decide)
      · exact ih _ d hd

theorem ofHexDigits_hexDigits {fuel n : ℕ} (h : n ≤ fuel) :
    ofHexDigits (hexDigits fuel n) = n := by
  induction fuel generalizing n with
  | zero =>
    obtain rfl : n = 0 := by omega
    rfl
  | succ fuel ih =>
    rw [hexDigits]
    split
    · next hn => rw [hn]; rfl
    · have hrec : ofHexDigits (hexDigits fuel (n / 16)) = n / 16 := ih (by omega)
      change n % 16 + 16 * ofHexDigits (hexDigits fuel (n / 16)) = n
      rw [hrec]
      omega

theorem decodeInt_encodeInt (n : ℤ) (rest : List Char) :
    decodeInt (encodeInt n ++ rest) = some (n, rest) := by
  have hlt := hexDigits_lt n.natAbs n.natAbs
  have hstop : ∀ c ∈ (hexDigits n.natAbs n.natAbs).map hexChar, decide (c ≠ '.') = true := by
    intro c hc
    obtain ⟨d, hd, rfl⟩ := List.mem_map.mp hc
    have h : ∀ d : Fin 16, decide (hexChar d ≠ '.') = true := by decide
    exact h ⟨d, hlt d hd⟩
  have htake : ((hexDigits n.natAbs n.natAbs).map hexChar ++ ['.'] ++ rest).takeWhile (· ≠ '.') =
      (hexDigits n.natAbs n.natAbs).map hexChar := by
    rw [List.append_assoc, List.takeWhile_append_of_pos hstop]
    simp
  have hdrop : ((hexDigits n.natAbs n.natAbs).map hexChar ++ ['.'] ++ rest).dropWhile (· ≠ '.') =
      '.' :: rest := by
    rw [List.append_assoc, List.dropWhile_append_of_pos hstop]
    simp
  rw [encodeInt, List.cons_append, List.cons_append, decodeInt, htake, hdrop, mapM_hexDigit_hexChar hlt]
  simp only [Option.map_some, ofHexDigits_hexDigits le_rfl, List.drop_succ_cons, List.drop_zero]
  by_cases hn : n < 0
  · rw [if_pos hn, if_pos rfl]
    congr 2
    omega
  · rw [if_neg hn, if_neg (by decide)]
    congr 2
    omega

theorem decode_encode (b : JwtBuilder) : decode (encode b) = some b := by
  rw [decode, encode, String.toList_ofList, decodeInt_encodeInt]
  simp only [Option.bind_eq_bind, Option.bind_some, decodeInt_encodeInt, String.ofList_toList]
  rfl

theorem checksOwnHash : libraries.ChecksOwnHash := by
  intro salt p n r k
  simp [libraries]

theorem checksOnlyHashed : libraries.ChecksOnlyHashed := by
  intro salt p q n r k h
  simp only [libraries, Except.ok.injEq, decide_eq_true_eq] at h
  exact h.symm

theorem checksAnyPassword : libraries.ChecksAnyPassword := fun _ _ _ _ _ _ => ⟨_, rfl⟩

theorem hashesFit : libraries.HashesFit := by
  intro salt p n r k
  change 79 ≤ 255
  decide

theorem emailsHaveAt : libraries.EmailsHaveAt := by
  intro e hne h
  simpa [libraries, hne] using h

theorem parsesCompacted : libraries.ParsesCompacted := by
  intro key now b _
  simp only [libraries, decode_encode]

end Symbolic

end AuthenticationServer
