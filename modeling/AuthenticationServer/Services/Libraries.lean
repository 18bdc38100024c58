import AuthenticationServer.Services.Throwable
import Mathlib.Data.Int.Basic

/-!
# Third-party code

The functions of other packages that the service calls, as fields of one structure, and
what the service relies on about them, as named propositions.
-/

namespace AuthenticationServer

/-- The claims of a parsed token; dates are whole seconds. -/
structure Claims where
  subject : Option String
  issuedAt : Option ℤ
  expiration : Option ℤ
  deriving DecidableEq, Repr

/-- What `Jwts.builder()` has been given before `signWith`; dates are milliseconds. -/
structure JwtBuilder where
  subject : String
  issuedAt : ℤ
  expiration : ℤ
  deriving DecidableEq, Repr

/-- The claims that a builder writes: a date is divided by 1000 as a `long`. -/
def JwtBuilder.claims (b : JwtBuilder) : Claims :=
  ⟨some b.subject, some (b.issuedAt.tdiv 1000), some (b.expiration.tdiv 1000)⟩

/-- The check of the parser against the clock, in milliseconds: `now.after(exp)`. -/
def Claims.expired (c : Claims) (now : ℤ) : Bool :=
  match c.expiration with
  | some exp => exp * 1000 < now
  | none => false

/-- The code outside the repository. `H` is the type of the texts that scrypt returns and
`Salt` that of its random input. -/
structure Libraries (H Salt : Type) where
  /-- `SCryptUtil.scrypt(passwd, N, r, p)` -/
  scrypt : Salt → String → ℕ → ℕ → ℕ → H
  /-- `SCryptUtil.check(passwd, hashed)` -/
  check : String → H → Except Throwable Bool
  /-- the number of characters of a hash -/
  hashLength : H → ℕ
  /-- the check behind `@Email` -/
  isEmail : String → Bool
  /-- `compact()` of a builder signed with HS512 under a key -/
  compact : String → JwtBuilder → String
  /-- `Jwts.parser().setSigningKey(key).parseClaimsJws(token)` at a time in milliseconds -/
  parseClaimsJws : String → ℤ → String → Except ParserException Claims

variable {H Salt : Type}

namespace Libraries

/-- A password checks against its own hash. -/
def ChecksOwnHash (L : Libraries H Salt) : Prop :=
  ∀ salt p n r k, L.check p (L.scrypt salt p n r k) = .ok true

/-- Only the hashed password checks against a hash. -/
def ChecksOnlyHashed (L : Libraries H Salt) : Prop :=
  ∀ salt p q n r k, L.check p (L.scrypt salt q n r k) = .ok true → p = q

/-- Checking a password against a hash that scrypt has returned raises no exception. -/
def ChecksAnyPassword (L : Libraries H Salt) : Prop :=
  ∀ salt p q n r k, ∃ b, L.check p (L.scrypt salt q n r k) = .ok b

/-- The hashes fit into a column without a length. -/
def HashesFit (L : Libraries H Salt) : Prop :=
  ∀ salt p n r k, L.hashLength (L.scrypt salt p n r k) ≤ 255

/-- An accepted email address contains an at sign; the empty text is accepted, too. -/
def EmailsHaveAt (L : Libraries H Salt) : Prop :=
  ∀ e, e ≠ "" → L.isEmail e = true → '@' ∈ e.toList

/-- A token verifies under the key it was signed with; it is rejected as expired exactly
when its expiration lies before the current time. -/
def ParsesCompacted (L : Libraries H Salt) : Prop :=
  ∀ key now (b : JwtBuilder), b.subject ≠ "" →
    L.parseClaimsJws key now (L.compact key b) =
      if b.claims.expired now then .error .expiredJwtException else .ok b.claims

end Libraries

end AuthenticationServer
