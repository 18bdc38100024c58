import AuthenticationServer.Java.UUID
import AuthenticationServer.Java.Time
import AuthenticationServer.Services.Throwable

/-!
# Entities

The entities of the model package. `H` is the type of the text that `SCryptUtil.scrypt`
returns; `T` is `Instant` for an entity in memory and `Date` for a row of a table. A
reference to another entity is its id, which `BaseEntity.equals` compares.
-/

namespace AuthenticationServer

open Java

variable {H : Type}

/-- The columns of the abstract class `Credential`, which every subclass table repeats. -/
structure Credential (T : Type) where
  id : UUID
  account : UUID
  firstTimeSeen : T
  lastTimeSeen : T
  deriving DecidableEq

structure CredentialPassword (H T : Type) extends Credential T where
  email : String
  password : H
  deriving DecidableEq

structure CredentialIOSDevice (T : Type) extends Credential T where
  vendorId : String
  deviceName : String
  deriving DecidableEq

/-- A credential in memory, by its class. -/
inductive CredentialEntity (H : Type)
  | password (c : CredentialPassword H Instant)
  | iosDevice (c : CredentialIOSDevice Instant)
  deriving DecidableEq

/-- An account in memory, with the credentials that `save` cascades to. -/
structure Account (H : Type) where
  id : UUID
  creationDate : Instant
  credentials : List (CredentialEntity H)
  deriving DecidableEq

/-- A row of the account table. -/
structure AccountRow where
  id : UUID
  creationDate : Date
  deriving DecidableEq

/-- A stored entity, by its class. -/
inductive BaseEntity (H : Type)
  | account (a : AccountRow)
  | credentialPassword (c : CredentialPassword H Date)
  | credentialIOSDevice (c : CredentialIOSDevice Date)
  deriving DecidableEq

namespace BaseEntity

def id : BaseEntity H → UUID
  | account a => a.id
  | credentialPassword c => c.id
  | credentialIOSDevice c => c.id

/-- `BaseEntity.equals`; `none` is null or an object of a class that does not extend
`BaseEntity`. -/
def equals (e : BaseEntity H) : Option (BaseEntity H) → Bool
  | some other => e.id = other.id
  | none => false

/-- `BaseEntity.hashCode`; the id is never null. -/
def hashCode (e : BaseEntity H) : BitVec 32 := e.id.hashCode

/-- Equal entities have one hash code, also when their classes differ. -/
theorem hashCode_eq_of_equals {e other : BaseEntity H} (h : e.equals (some other) = true) :
    e.hashCode = other.hashCode := by
  have hid : e.id = other.id := of_decide_eq_true h
  rw [hashCode, hashCode, hid]

end BaseEntity

/-- `Account.getName`. -/
def AccountRow.name (a : AccountRow) : String := a.id.toString

/-- The constructor of `Credential`, with the id that `BaseEntity` draws. -/
def Credential.new (id account : UUID) (now : Instant) : Credential Instant :=
  ⟨id, account, now, now⟩

def CredentialPassword.new (id account : UUID) (email : String) (password : H) (now : Instant) :
    CredentialPassword H Instant :=
  ⟨Credential.new id account now, email, password⟩

def CredentialIOSDevice.new (id account : UUID) (vendorId deviceName : String) (now : Instant) :
    CredentialIOSDevice Instant :=
  ⟨Credential.new id account now, vendorId, deviceName⟩

def Account.new (id : UUID) (creationDate : Instant) : Account H := ⟨id, creationDate, []⟩

/-- `account.credentials.add(credential)`. -/
def Account.add (a : Account H) (c : CredentialEntity H) : Account H :=
  { a with credentials := a.credentials ++ [c] }

/-- `InstantAttributeConverter.convertToDatabaseColumn`. -/
def convertToDatabaseColumn : Option Instant → Except Throwable (Option Date)
  | none => .ok none
  | some i =>
    match Date.ofInstant i with
    | some d => .ok (some d)
    | none => .error .illegalArgumentException

/-- `InstantAttributeConverter.convertToEntityAttribute`. -/
def convertToEntityAttribute (dbData : Option Date) : Option Instant := dbData.map Date.toInstant

theorem convertToDatabaseColumn_eq_ok {i : Instant} {column : Option Date} :
    convertToDatabaseColumn (some i) = .ok column ↔
      ∃ d, column = some d ∧ Date.ofInstant i = some d := by
  rw [convertToDatabaseColumn]
  cases hd : Date.ofInstant i with
  | none => simp
  | some d => simp [eq_comm]

theorem convertToDatabaseColumn_eq_error {i : Instant} {e : Throwable} :
    convertToDatabaseColumn (some i) = .error e ↔
      e = .illegalArgumentException ∧ Date.ofInstant i = none := by
  rw [convertToDatabaseColumn]
  cases hd : Date.ofInstant i with
  | none => simp [eq_comm]
  | some d => simp

end AuthenticationServer
