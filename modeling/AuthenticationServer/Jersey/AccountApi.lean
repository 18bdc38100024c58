import AuthenticationServer.Security.SecurityConfig
import AuthenticationServer.Services.Registration

/-!
# `AccountApi`

The resource methods on accounts: the constraints on their parameters, the transactions that they
open, and their bodies. The constraints are checked before the body runs.

## Main definitions

- `Registration.violations`, `tokenViolations` - the messages of the violated constraints
- `validate` - the check of constraints
- `Registration.commit` - the insert of a new account, at the end of the outermost transaction
- `getAccounts`, `getAccountInfo` - the reading operations
-/

namespace AuthenticationServer

open Java

variable {H Salt : Type}

structure AccountDTO where
  id : UUID
  deriving DecidableEq, Repr

/-- `Account.assembleDto`. -/
def Account.assembleDto (account : Account H) : AccountDTO := ⟨account.id⟩

/-- `Account.assembleDto`, for an account that was read. -/
def AccountRow.assembleDto (account : AccountRow) : AccountDTO := ⟨account.id⟩

/-! ## Constraints -/

/-- The message of a constraint, when it is violated. -/
def constraint (message : String) (satisfied : Bool) : List String :=
  if satisfied then [] else [message]

/-- `@NotBlank`. -/
def notBlank (message value : String) : List String := constraint message (!trimsToEmpty value)

/-- `@Size`. -/
def size (min max : ℕ) (message value : String) : List String :=
  constraint message (decide (min ≤ length value ∧ length value ≤ max))

/-- The violated constraints of `createEmailAccount` and `createAccountForIOSDevice`; as a set, in
no order. -/
def Registration.violations (L : Libraries H Salt) : Registration → List String
  | .email e p =>
    notBlank "you need to provide a valid email address" e ++
    constraint "must be a well-formed email address" (L.isEmail e) ++
    size 0 256 "the email address was too long" e ++
    notBlank "you need to provide a password" p ++
    size 8 256 "the password must be between 8 and 256 characters long" p
  | .iosDevice v d =>
    notBlank "you need to provide a vendor id" v ++
    notBlank "you need to provide the name of the device" d

/-- The violated constraints of `TokenApi.createToken`. -/
def tokenViolations (username : String) : List String := notBlank "" username

/-- The check of the constraints. The exception has the violations as a `HashSet`, whose order is
one of the values that the call reads. -/
def validate (w : Ambient Salt) (violations : List String) : Except Throwable Unit :=
  if violations = [] then return ()
  else throw (.constraintViolationException (w.violationOrder violations))

/-! ## Transactions -/

/-- Who calls a creating method of `AccountService`: a resource method, or other code. -/
inductive Caller
  | api
  | other
  deriving DecidableEq, Repr

/-- `AccountApi.createEmailAccount` is transactional and so opens the transaction that the
service joins; `AccountApi.createAccountForIOSDevice` is not. -/
def Caller.opensTransaction : Caller → Registration → Bool
  | api, .email .. => true
  | _, _ => false

/-- The insert of a new account. It is sent when the outermost transaction commits: inside
the try block of the service, unless the resource method has opened the transaction. -/
def Registration.commit (L : Libraries H Salt) (s : Store H) (caller : Caller)
    (account : Account H) (r : Registration) : Except Throwable (Store H) :=
  if caller.opensTransaction r then insertedRows L s account
  else catchDataIntegrityViolation r.message (insertedRows L s account)

/-- The constraints are those of the resource method. -/
def Caller.validate (w : Ambient Salt) (violations : List String) : Caller → Except Throwable Unit
  | api => AuthenticationServer.validate w violations
  | other => return ()

/-- A creating call up to `save`. -/
def Registration.begin (L : Libraries H Salt) (w : Ambient Salt) (s : Store H) (caller : Caller)
    (r : Registration) : Except Throwable (Account H) := do
  caller.validate w (r.violations L)
  r.prepare L w s

/-! ## Reading operations -/

/-- The annotations of the configuration classes. -/
def configurationAnnotations : List String :=
  ["Configuration", "EnableWebSecurity", "SpringBootApplication", "EnableSpringConfigured",
    "EnableTransactionManagement", "EnableLoadTimeWeaving"]

/-- Method security is off unless a configuration class enables it. -/
def methodSecurityEnabled : Bool := configurationAnnotations.contains "EnableGlobalMethodSecurity"

/-- `hasRole`, with the default prefix of roles. -/
def hasRole (role : String) (authentication : Authentication) : Bool :=
  authentication.authorities.contains ("ROLE_" ++ role)

/-- `@PreAuthorize`. -/
def preAuthorize (expression : Authentication → Bool) (authentication : Authentication) :
    Except Throwable Unit :=
  if methodSecurityEnabled && !expression authentication then throw .accessDeniedException
  else return ()

/-- `AccountApi.getAccounts`. -/
def getAccounts (s : Store H) (authentication : Authentication) :
    Except Throwable (List AccountDTO) := do
  preAuthorize (hasRole "USER") authentication
  return s.accounts.map AccountRow.assembleDto

/-- `AccountApi.getAccountInfo`. -/
def getAccountInfo (s : Store H) (authentication : Authentication) :
    Except Throwable AccountDTO := do
  return (← getAccountOfSecurityContext s (← authentication.userPrincipal)).assembleDto

/-! ## Results -/

theorem validate_eq_ok {w : Ambient Salt} {violations : List String} :
    validate w violations = .ok () ↔ violations = [] := by
  rw [validate]
  split <;> simp_all

theorem validate_eq_error {w : Ambient Salt} {violations : List String} {e : Throwable} :
    validate w violations = .error e ↔
      violations ≠ [] ∧ e = .constraintViolationException (w.violationOrder violations) := by
  rw [validate]
  by_cases h : violations = []
  · rw [if_pos h]
    exact ⟨by rintro ⟨⟩, fun he => absurd h he.1⟩
  · rw [if_neg h]
    exact ⟨fun he => ⟨h, (Except.error.inj he).symm⟩, fun he => he.2 ▸ rfl⟩

theorem Caller.validate_eq_ok {w : Ambient Salt} {violations : List String} {caller : Caller} :
    caller.validate w violations = .ok () ↔ (caller = .api → violations = []) := by
  cases caller with
  | api => exact AuthenticationServer.validate_eq_ok.trans ⟨fun h _ => h, fun h => h rfl⟩
  | other => exact ⟨by rintro _ ⟨⟩, fun _ => rfl⟩

theorem Caller.validate_eq_error {w : Ambient Salt} {violations : List String} {caller : Caller}
    {e : Throwable} :
    caller.validate w violations = .error e ↔ (caller = .api ∧ violations ≠ []) ∧
      e = .constraintViolationException (w.violationOrder violations) := by
  cases caller with
  | api =>
    rw [Caller.validate, AuthenticationServer.validate_eq_error]
    simp
  | other => exact ⟨by rintro ⟨⟩, by rintro ⟨⟨⟨⟩, _⟩, _⟩⟩

theorem getAccountInfo_of_found {s : Store H} {authentication : Authentication}
    {userPrincipal : Option Principal} {a : AccountRow}
    (hp : authentication.userPrincipal = .ok userPrincipal)
    (ha : getAccountOfSecurityContext s userPrincipal = .ok a) :
    getAccountInfo s authentication = .ok a.assembleDto := by
  rw [getAccountInfo, hp, Fallible.ok_bind, ha]
  rfl

theorem Registration.begin_eq_ok {L : Libraries H Salt} {w : Ambient Salt} {s : Store H}
    {caller : Caller} {r : Registration} {a : Account H} (h : r.begin L w s caller = .ok a) :
    a = r.account L w ∧ (caller = .api → r.violations L = []) := by
  obtain ⟨_, hv, hp⟩ := Fallible.bind_eq_ok.mp h
  exact ⟨prepare_eq_ok hp, Caller.validate_eq_ok.mp hv⟩

theorem Registration.commit_eq_ok {L : Libraries H Salt} {w : Ambient Salt} {s : Store H}
    {caller : Caller} {r : Registration} {rows : Store H}
    (h : r.commit L s caller (r.account L w) = .ok rows) :
    rows = r.rows L w ∧ ¬ s.HasKey r.key := by
  rw [commit, insertedRows_account] at h
  by_cases hc : (r.Storable ∧ r.HashFits L w) ∧ ¬ s.HasKey r.key
  · rw [if_pos hc] at h
    refine ⟨?_, hc.2⟩
    split at h <;> exact (Except.ok.inj h).symm
  · rw [if_neg hc] at h
    split at h <;> cases h

end AuthenticationServer
