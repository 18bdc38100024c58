import AuthenticationServer.Services.AccountService

/-!
# `JWTService`

Issuing and checking tokens.

## Main definitions

- `createToken` - the login: a token for the account of a credential
- `getTokenIfValid` - the claims of a token that is accepted
- `LogsIn` - the credential that a user name and a password log in with

## Main results

- `credentialAccount_eq_ok_iff` - a login succeeds with the account of such a credential
- `credentialAccount_cases` - on tables that the service has filled, it fails with a challenge only
- `getTokenIfValid_signToken_eq` - a token is accepted exactly as long as it has not expired
-/

namespace AuthenticationServer

open Java

variable {H Salt : Type}

def SECRET : String := "SecretKeyToGenJWTs"

/-- Ten days, in milliseconds. -/
def EXPIRATION_TIME : ℤ := 864000000

/-- The sum of two values of type `long`. -/
def addLong (m n : ℤ) : ℤ := (m + n).bmod (2 ^ 64)

/-- The first half of `createToken`: the account of the credential that the user name and
the password belong to. -/
def credentialAccount (L : Libraries H Salt) (s : Store H) (username password : String) :
    Except Throwable UUID :=
  if username = "deviceId" then do
    -- the reserved user name: the password is the vendor id of a device
    match ← findByVendorId s password with
    | some credential => return credential.account
    | none => throw (.challengeException ("no account for deviceId '" ++ password ++ "'"))
  else do
    match ← findByEmail s username with
    | some emailCredential =>
      if (← verify L password emailCredential.password) = false then
        throw (.challengeException ("wrong password for email '" ++ username ++ "'"))
      else
        return emailCredential.account
    | none => throw (.challengeException ("no account for email '" ++ username ++ "'"))

/-- The builder that `createToken` fills for an account. -/
def tokenBuilder (w : Ambient Salt) (account : UUID) : JwtBuilder :=
  ⟨account.toString, w.date, addLong w.currentTimeMillis EXPIRATION_TIME⟩

/-- The second half of `createToken`. -/
def signToken (L : Libraries H Salt) (w : Ambient Salt) (account : UUID) : String :=
  L.compact SECRET (tokenBuilder w account)

/-- `JWTService.createToken`. -/
def createToken (L : Libraries H Salt) (w : Ambient Salt) (s : Store H)
    (username password : String) : Except Throwable String := do
  return signToken L w (← credentialAccount L s username password)

/-- `JWTService.getTokenIfValid` at a time in milliseconds. -/
def getTokenIfValid (L : Libraries H Salt) (now : ℤ) (token : String) :
    Except Throwable (Option Claims) :=
  match L.parseClaimsJws SECRET now token with
  | .ok jws => .ok (some jws)
  | .error .expiredJwtException | .error .unsupportedJwtException
  | .error .malformedJwtException | .error .signatureException
  | .error .illegalArgumentException => .ok none
  -- the classes that the catch clause does not list are thrown again
  | .error e => .error (.parserException e)

/-! ## Logging in -/

/-- The credential that a user name and a password log in with. -/
inductive LogsIn (L : Libraries H Salt) (s : Store H) :
    String → String → Credential Date → Prop
  /-- the reserved user name, with the vendor id of a device -/
  | device {vendorId : String} {c : CredentialIOSDevice Date}
      (found : findByVendorId s vendorId = .ok (some c)) :
      LogsIn L s "deviceId" vendorId c.toCredential
  | email {email password : String} {c : CredentialPassword H Date} (reserved : email ≠ "deviceId")
      (found : findByEmail s email = .ok (some c))
      (verified : verify L password c.password = .ok true) :
      LogsIn L s email password c.toCredential

theorem LogsIn.credentialAccount {L : Libraries H Salt} {s : Store H} {username password : String}
    {c : Credential Date} (h : LogsIn L s username password c) :
    credentialAccount L s username password = .ok c.account := by
  cases h with
  | device found =>
    rw [AuthenticationServer.credentialAccount, if_pos rfl, found]
    rfl
  | email reserved found verified =>
    simp only [AuthenticationServer.credentialAccount, if_neg reserved, found, Fallible.ok_bind,
      verified]
    rfl

theorem LogsIn.createToken {L : Libraries H Salt} {s : Store H} {username password : String}
    {c : Credential Date} (h : LogsIn L s username password c) (w : Ambient Salt) :
    createToken L w s username password = .ok (signToken L w c.account) := by
  rw [AuthenticationServer.createToken, h.credentialAccount]
  rfl

theorem createToken_eq_ok {L : Libraries H Salt} {w : Ambient Salt} {s : Store H}
    {username password token : String} :
    createToken L w s username password = .ok token ↔
      ∃ id, credentialAccount L s username password = .ok id ∧ signToken L w id = token := by
  rw [createToken]
  cases credentialAccount L s username password <;> simp

theorem createToken_eq_error {L : Libraries H Salt} {w : Ambient Salt} {s : Store H}
    {username password : String} {e : Throwable} :
    createToken L w s username password = .error e ↔
      credentialAccount L s username password = .error e := by
  rw [createToken]
  cases credentialAccount L s username password <;> simp

theorem credentialAccount_eq_ok_iff {L : Libraries H Salt} {s : Store H}
    {username password : String} {id : UUID} :
    credentialAccount L s username password = .ok id ↔
      ∃ c, LogsIn L s username password c ∧ c.account = id := by
  refine ⟨fun h => ?_, fun ⟨c, hc, he⟩ => he ▸ hc.credentialAccount⟩
  rw [credentialAccount] at h
  by_cases hdevice : username = "deviceId"
  · rw [if_pos hdevice] at h
    obtain ⟨found, hfound, h⟩ := Fallible.bind_eq_ok.mp h
    cases found with
    | none => cases h
    | some c => exact ⟨c.toCredential, hdevice ▸ .device hfound, Except.ok.inj h⟩
  · rw [if_neg hdevice] at h
    obtain ⟨found, hfound, h⟩ := Fallible.bind_eq_ok.mp h
    cases found with
    | none => cases h
    | some c =>
      obtain ⟨verified, hverify, h⟩ := Fallible.bind_eq_ok.mp h
      cases verified with
      | false => cases h
      | true => exact ⟨c.toCredential, .email hdevice hfound hverify, Except.ok.inj h⟩

/-- On tables with unique columns whose passwords the service has hashed, a login finds a
credential or fails with a challenge. -/
theorem credentialAccount_cases {L : Libraries H Salt} (hcheck : L.ChecksAnyPassword) {s : Store H}
    (hs : s.WellFormed)
    (hhash : ∀ c ∈ s.credentialPasswords, ∃ salt password, c.password = hash L salt password)
    (username password : String) :
    (∃ c, LogsIn L s username password c) ∨
      ∃ challenge,
        credentialAccount L s username password = .error (.challengeException challenge) := by
  rw [credentialAccount]
  by_cases hdevice : username = "deviceId"
  · rw [if_pos hdevice]
    obtain ⟨found, hfound⟩ := singleResult_rowsWith hs.vendorIds password
    cases found with
    | none => exact Or.inr ⟨_, by rw [findByVendorId, hfound]; rfl⟩
    | some c => exact Or.inl ⟨c.toCredential, hdevice ▸ .device hfound⟩
  · rw [if_neg hdevice]
    obtain ⟨found, hfound⟩ := singleResult_rowsWith hs.emails username
    cases found with
    | none => exact Or.inr ⟨_, by rw [findByEmail, hfound]; rfl⟩
    | some c =>
      have hc : findByEmail s username = .ok (some c) := hfound
      obtain ⟨salt, p, hp⟩ := hhash c (findByEmail_eq_some hc).1
      obtain ⟨verified, hverify⟩ := hcheck salt password p 16384 8 1
      rw [← hash, ← hp] at hverify
      cases verified with
      | true => exact Or.inl ⟨c.toCredential, .email hdevice hc hverify⟩
      | false =>
        refine Or.inr ⟨"wrong password for email '" ++ username ++ "'", ?_⟩
        simp only [hc, Fallible.ok_bind, verify, hverify]
        rfl

/-! ## Checking a token -/

/-- A signed token is accepted with its claims as long as it has not expired, and is rejected
without an exception afterwards. -/
theorem getTokenIfValid_signToken_eq {L : Libraries H Salt} (hparse : L.ParsesCompacted)
    (w : Ambient Salt) (id : UUID) (now : ℤ) :
    getTokenIfValid L now (signToken L w id) =
      .ok (if (tokenBuilder w id).claims.expired now then none
        else some (tokenBuilder w id).claims) := by
  have hsubject : (tokenBuilder w id).subject ≠ "" := id.toString_ne_empty
  rw [getTokenIfValid, signToken, hparse SECRET now (tokenBuilder w id) hsubject]
  cases (tokenBuilder w id).claims.expired now <;> rfl

end AuthenticationServer
