import AuthenticationServer.Library.Table
import AuthenticationServer.Model.Entities
import AuthenticationServer.Services.Libraries

/-!
# Repositories

The three tables and the repository methods that read and write them.

## Main definitions

- `Store` - the rows of the account table and of the two credential tables
- `findByEmail`, `findByVendorId`, `findById` - the lookups
- `save` - one flush of a new account, cascading to its credentials
- `delete` - the removal of an account, cascading to the credentials linked to it
-/

namespace AuthenticationServer

open Java Table

variable {H Salt : Type}

/-- The committed rows, in the order of their insertion. -/
structure Store (H : Type) where
  accounts : List AccountRow
  credentialPasswords : List (CredentialPassword H Date)
  credentialIOSDevices : List (CredentialIOSDevice Date)

namespace Store

def empty : Store H := ⟨[], [], []⟩

/-- The rows of `s` followed by those of `t`, table by table. -/
instance : Append (Store H) where
  append s t := ⟨s.accounts ++ t.accounts, s.credentialPasswords ++ t.credentialPasswords,
    s.credentialIOSDevices ++ t.credentialIOSDevices⟩

@[simp] theorem accounts_append (s t : Store H) :
    (s ++ t).accounts = s.accounts ++ t.accounts := rfl

@[simp] theorem credentialPasswords_append (s t : Store H) :
    (s ++ t).credentialPasswords = s.credentialPasswords ++ t.credentialPasswords := rfl

@[simp] theorem credentialIOSDevices_append (s t : Store H) :
    (s ++ t).credentialIOSDevices = s.credentialIOSDevices ++ t.credentialIOSDevices := rfl

/-- The rows of the accounts that satisfy `p`. -/
def filter (p : UUID → Bool) (s : Store H) : Store H :=
  ⟨s.accounts.filter fun a => p a.id, s.credentialPasswords.filter fun c => p c.account,
    s.credentialIOSDevices.filter fun c => p c.account⟩

def rowsOf (s : Store H) (id : UUID) : Store H := s.filter fun x => x = id

def without (s : Store H) (id : UUID) : Store H := s.filter fun x => !decide (x = id)

end Store

/-- The result of a query method with a single result. -/
def singleResult {α : Type} : List α → Except Throwable (Option α)
  | [] => .ok none
  | [r] => .ok (some r)
  | _ => .error .incorrectResultSizeDataAccessException

theorem mem_of_singleResult {α : Type} {rows : List α} {r : α}
    (h : singleResult rows = .ok (some r)) : r ∈ rows := by
  match rows, h with
  | [q], h => exact List.mem_singleton.mpr (Option.some.inj (Except.ok.inj h)).symm

/-- A query by a unique column does not find two rows. -/
theorem singleResult_rowsWith {α β : Type} [DecidableEq β] {f : α → β} {rows : List α}
    (h : Unique f rows) (k : β) : ∃ r, singleResult (rowsWith f k rows) = .ok r := by
  by_cases hmem : ∃ r ∈ rows, f r = k
  · obtain ⟨r, hr, rfl⟩ := hmem
    exact ⟨some r, by rw [h.rowsWith_eq_singleton hr]; rfl⟩
  · have hnil : rowsWith f k rows = [] := rowsWith_eq_nil.mpr fun r hr he => hmem ⟨r, hr, he⟩
    exact ⟨none, by rw [hnil]; rfl⟩

/-- `CredentialPasswordRepository.findByEmail`. -/
def findByEmail (s : Store H) (email : String) :
    Except Throwable (Option (CredentialPassword H Date)) :=
  singleResult (rowsWith (·.email) email s.credentialPasswords)

/-- `CredentialIOSDeviceRepository.findByVendorId`. -/
def findByVendorId (s : Store H) (vendorId : String) :
    Except Throwable (Option (CredentialIOSDevice Date)) :=
  singleResult (rowsWith (·.vendorId) vendorId s.credentialIOSDevices)

/-- `credentialIOSDeviceRepository.findAll(credentialIOSDevice.vendorId.eq(vendorId))`. -/
def findAllByVendorId (s : Store H) (vendorId : String) : List (CredentialIOSDevice Date) :=
  rowsWith (·.vendorId) vendorId s.credentialIOSDevices

/-- `AccountRepository.findById(uuid: String)`, as the value that it returns. -/
def findById (s : Store H) (uuid : String) : Option AccountRow :=
  match UUID.fromString uuid with
  | some id => s.accounts.find? fun a => a.id = id
  | none => none

/-- The rows of the class `Credential`, which are those of the tables of its subclasses. -/
def Store.credentialEntities (s : Store H) : List (BaseEntity H) :=
  s.credentialPasswords.map .credentialPassword ++ s.credentialIOSDevices.map .credentialIOSDevice

def Store.entities (s : Store H) : List (BaseEntity H) :=
  s.accounts.map .account ++ s.credentialEntities

/-- `CredentialRepository.findById`, over the union of the tables: two rows with one identifier
are an error. -/
def CredentialRepository.findById (s : Store H) (id : UUID) :
    Except Throwable (Option (BaseEntity H)) :=
  match rowsWith BaseEntity.id id s.credentialEntities with
  | [] => .ok none
  | [c] => .ok (some c)
  | _ => .error .jpaSystemException

namespace AccountRepository

/-- `UUID.fromString`, with the exception that it throws. -/
def fromString (uuid : String) : Except Throwable UUID :=
  match UUID.fromString uuid with
  | some id => return id
  | none => throw .illegalArgumentException

/-- `AccountRepository.findById(uuid: String)` with its try block, which catches one class. -/
def findById (s : Store H) (uuid : String) : Except Throwable (Option AccountRow) :=
  tryCatch
    (do
      let id ← fromString uuid
      return s.accounts.find? fun a => a.id = id)
    fun
      | .illegalArgumentException => return none
      | e => throw e

theorem findById_eq (s : Store H) (uuid : String) :
    findById s uuid = .ok (AuthenticationServer.findById s uuid) := by
  rw [findById, fromString, AuthenticationServer.findById]
  cases UUID.fromString uuid <;> rfl

end AccountRepository

/-- The characters that a `@Column` without a length holds. -/
def columnLength : ℕ := 255

/-- The value of a `nullable = false` column for a non-null attribute. -/
def timeColumn (i : Instant) : Except Throwable Date :=
  match convertToDatabaseColumn (some i) with
  | .ok (some d) => .ok d
  | .ok none => .error .dataIntegrityViolationException
  | .error _ => .error .jpaSystemException

theorem timeColumn_eq_ok {i : Instant} {d : Date} :
    timeColumn i = .ok d ↔ Date.ofInstant i = some d := by
  rw [timeColumn, convertToDatabaseColumn]
  cases Date.ofInstant i <;> simp

/-- The row that the insert of a credential adds to the tables `s`, unless a value is too
long for its column or already stands in a unique one. -/
def insertCredential (L : Libraries H Salt) (s : Store H) :
    CredentialEntity H → Except Throwable (Store H)
  | .password c => do
    let firstTimeSeen ← timeColumn c.firstTimeSeen
    let lastTimeSeen ← timeColumn c.lastTimeSeen
    -- the exception does not tell which constraint was violated
    if columnLength < c.email.length ∨ columnLength < L.hashLength c.password ∨
        rowsWith (·.email) c.email s.credentialPasswords ≠ [] then
      throw .dataIntegrityViolationException
    else
      return ⟨[], [⟨⟨c.id, c.account, firstTimeSeen, lastTimeSeen⟩, c.email, c.password⟩], []⟩
  | .iosDevice c => do
    let firstTimeSeen ← timeColumn c.firstTimeSeen
    let lastTimeSeen ← timeColumn c.lastTimeSeen
    if columnLength < c.vendorId.length ∨ columnLength < c.deviceName.length ∨
        rowsWith (·.vendorId) c.vendorId s.credentialIOSDevices ≠ [] then
      throw .dataIntegrityViolationException
    else
      return ⟨[], [],
        [⟨⟨c.id, c.account, firstTimeSeen, lastTimeSeen⟩, c.vendorId, c.deviceName⟩]⟩

/-- The rows that one flush of a new account inserts, the account first. Its ids are fresh
values of `UUID.randomUUID`, so that the merge behind `save` finds no row under them. -/
def insertedRows (L : Libraries H Salt) (s : Store H) (account : Account H) :
    Except Throwable (Store H) := do
  let creationDate ← timeColumn account.creationDate
  account.credentials.foldlM
    (fun rows c => do return rows ++ (← insertCredential L (s ++ rows) c))
    ⟨[⟨account.id, creationDate⟩], [], []⟩

/-- `accountRepository.save(account)`, flushed. -/
def save (L : Libraries H Salt) (s : Store H) (account : Account H) :
    Except Throwable (Account H × Store H) := do
  let rows ← insertedRows L s account
  return (account, s ++ rows)

/-- `accountRepository.delete(account)`. -/
def delete (s : Store H) (account : AccountRow) : Store H := s.without account.id

end AuthenticationServer
