import AuthenticationServer.Model.WellFormed

/-!
# `AccountService`

Creation, lookup and deletion of accounts, as one call computes them from the committed
rows. The creating methods are split where the source calls `save`: `prepare` is everything
before it.

## Main definitions

- `createAccountForEmail`, `createAccountForIOSDevice` - the creating methods
- `getAccountOfSecurityContext` - the account of the principal of a request
- `deleteAccount` - the deletion of that account
-/

namespace AuthenticationServer

open Java Table

variable {H Salt : Type}

def EMAIL_IS_ALREADY_LINKED_TO_ANOTHER_ACCOUNT : String :=
  "there is already an account associated with this email"

def DEVICE_ID_ALREADY_LINKED_TO_ANOTHER_ACCOUNT : String :=
  "there is already an account associated with this device id"

def THERE_WAS_NO_PRINCIPAL_SET_IN_THE_SECURITY_CONTEXT : String :=
  "there was no principal set in the security context"

def THE_PRINCIPAL_DID_NOT_HAVE_A_NON_BLANK_NAME : String :=
  "the principal did not have a non blank name"

def THERE_WAS_NO_ACCOUNT_FOR_ACCOUNT_ID : String := "there was no account for accountId "

/-- What a call reads from outside: the two ids that `UUID.randomUUID` draws for the new
entities, the salt, the time of the request, the clock readings behind `Date()` and
`System.currentTimeMillis()`, and the order in which the hash codes let a set of violated
constraints be iterated. The time of the request is an `Instant.now()`, a reading of the same
millisecond clock, so it can be converted to a date. -/
structure Ambient (Salt : Type) where
  accountId : UUID
  credentialId : UUID
  salt : Salt
  requestTime : Instant
  storable : (Date.ofInstant requestTime).isSome
  date : ℤ
  currentTimeMillis : ℤ
  violationOrder : List String → List String
  violationOrder_perm : ∀ messages, (violationOrder messages).Perm messages

/-- The time of the request at the precision of its column. -/
def Ambient.requestDate (w : Ambient Salt) : Date := (Date.ofInstant w.requestTime).get w.storable

theorem Ambient.ofInstant_requestTime (w : Ambient Salt) :
    Date.ofInstant w.requestTime = some w.requestDate := (Option.some_get w.storable).symm

/-- `PasswordService.hash`. -/
def hash (L : Libraries H Salt) (salt : Salt) (password : String) : H :=
  L.scrypt salt password 16384 8 1

/-- `PasswordService.verify`. -/
def verify (L : Libraries H Salt) (password : String) (hash : H) : Except Throwable Bool :=
  L.check password hash

/-- The catch clause of the two creating methods. -/
def catchDataIntegrityViolation {α : Type} (message : String) :
    Except Throwable α → Except Throwable α
  | .error .dataIntegrityViolationException =>
    .error (.conflictException message (some .dataIntegrityViolationException))
  | r => r

/-- The account that `createAccountForEmailInternal` builds. -/
def newEmailAccount (L : Libraries H Salt) (w : Ambient Salt) (email password : String) :
    Account H :=
  (Account.new w.accountId w.requestTime).add
    (.password (CredentialPassword.new w.credentialId w.accountId email
      (hash L w.salt password) w.requestTime))

/-- `createAccountForEmailInternal` up to `save`. -/
def prepareEmailAccount (L : Libraries H Salt) (w : Ambient Salt) (s : Store H)
    (email password : String) : Except Throwable (Account H) := do
  match ← findByEmail s email with
  | some _ => throw (.conflictException EMAIL_IS_ALREADY_LINKED_TO_ANOTHER_ACCOUNT none)
  | none => return newEmailAccount L w email password

def createAccountForEmailInternal (L : Libraries H Salt) (w : Ambient Salt) (s : Store H)
    (email password : String) : Except Throwable (Account H × Store H) := do
  save L s (← prepareEmailAccount L w s email password)

/-- `AccountService.createAccountForEmail`, when it opens the outermost transaction. -/
def createAccountForEmail (L : Libraries H Salt) (w : Ambient Salt) (s : Store H)
    (email password : String) : Except Throwable (Account H × Store H) :=
  catchDataIntegrityViolation EMAIL_IS_ALREADY_LINKED_TO_ANOTHER_ACCOUNT
    (createAccountForEmailInternal L w s email password)

/-- The account that `createAccountForIOSDeviceInternal` builds. -/
def newIOSAccount (w : Ambient Salt) (vendorId deviceName : String) : Account H :=
  (Account.new w.accountId w.requestTime).add
    (.iosDevice (CredentialIOSDevice.new w.credentialId w.accountId vendorId deviceName
      w.requestTime))

/-- `createAccountForIOSDeviceInternal` up to `save`. -/
def prepareIOSAccount (w : Ambient Salt) (s : Store H) (vendorId deviceName : String) :
    Except Throwable (Account H) :=
  if findAllByVendorId s vendorId ≠ [] then
    throw (.conflictException DEVICE_ID_ALREADY_LINKED_TO_ANOTHER_ACCOUNT none)
  else
    return newIOSAccount w vendorId deviceName

def createAccountForIOSDeviceInternal (L : Libraries H Salt) (w : Ambient Salt) (s : Store H)
    (vendorId deviceName : String) : Except Throwable (Account H × Store H) := do
  save L s (← prepareIOSAccount w s vendorId deviceName)

/-- `AccountService.createAccountForIOSDevice`. -/
def createAccountForIOSDevice (L : Libraries H Salt) (w : Ambient Salt) (s : Store H)
    (vendorId deviceName : String) : Except Throwable (Account H × Store H) :=
  catchDataIntegrityViolation DEVICE_ID_ALREADY_LINKED_TO_ANOTHER_ACCOUNT
    (createAccountForIOSDeviceInternal L w s vendorId deviceName)

/-- `java.security.Principal`, by the name that it returns. -/
structure Principal where
  name : Option String
  deriving DecidableEq, Repr

/-- `AccountService.getAccountOfSecurityContext`, for the `userPrincipal` of the context. -/
def getAccountOfSecurityContext (s : Store H) (userPrincipal : Option Principal) :
    Except Throwable AccountRow :=
  match userPrincipal with
  | none => throw (.notAuthorizedException THERE_WAS_NO_PRINCIPAL_SET_IN_THE_SECURITY_CONTEXT)
  | some ⟨none⟩ => throw (.notAuthorizedException THE_PRINCIPAL_DID_NOT_HAVE_A_NON_BLANK_NAME)
  | some ⟨some accountId⟩ =>
    if isBlank accountId then
      throw (.notAuthorizedException THE_PRINCIPAL_DID_NOT_HAVE_A_NON_BLANK_NAME)
    else
      match findById s accountId with
      | some account => return account
      | none =>
        throw (.notFoundException (THERE_WAS_NO_ACCOUNT_FOR_ACCOUNT_ID ++ "'" ++ accountId ++ "'"))

theorem getAccountOfSecurityContext_eq_ok {s : Store H} {userPrincipal : Option Principal}
    {a : AccountRow} (h : getAccountOfSecurityContext s userPrincipal = .ok a) :
    ∃ accountId, userPrincipal = some ⟨some accountId⟩ ∧ findById s accountId = some a := by
  match userPrincipal, h with
  | some ⟨some accountId⟩, h =>
    refine ⟨accountId, rfl, ?_⟩
    rw [getAccountOfSecurityContext] at h
    split at h
    · cases h
    · cases hf : findById s accountId with
      | none => rw [hf] at h; cases h
      | some b =>
        rw [hf] at h
        exact congrArg some (Except.ok.inj h)

theorem getAccountOfSecurityContext_eq_notFound {s : Store H} {accountId : String}
    (hblank : isBlank accountId = false) (h : findById s accountId = none) :
    getAccountOfSecurityContext s (some ⟨some accountId⟩) =
      .error (.notFoundException
        (THERE_WAS_NO_ACCOUNT_FOR_ACCOUNT_ID ++ "'" ++ accountId ++ "'")) := by
  rw [getAccountOfSecurityContext, hblank, h]
  rfl

theorem getAccountOfSecurityContext_name {s : Store H} (h : s.WellFormed) {a : AccountRow}
    (ha : a ∈ s.accounts) : getAccountOfSecurityContext s (some ⟨some a.name⟩) = .ok a := by
  have hblank : isBlank a.name = false := a.id.isBlank_toString
  rw [getAccountOfSecurityContext, findById_name h ha, hblank]
  rfl

/-- `AccountService.deleteAccount`, with no other step between its two transactions. -/
def deleteAccount (s : Store H) (userPrincipal : Option Principal) :
    Except Throwable (Store H) := do
  return delete s (← getAccountOfSecurityContext s userPrincipal)

end AuthenticationServer
