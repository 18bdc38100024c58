import AuthenticationServer.Model.WellFormed
import AuthenticationServer.Services.AccountService

/-!
# The two creating operations as one

`createAccountForEmail` and `createAccountForIOSDevice` differ in the credential they build,
in the lookup before it and in a message. A `Registration` is the parameters of one of them.

## Main definitions

- `Key` - the value of a unique column that a registration takes
- `Registration.rows` - the rows of a new account

## Main results

- `insertedRows_account` - what one flush of a new account inserts, or why it fails
- `prepare_eq` - the part before `save`, on a store with unique keys
- `create_split` - the operation as the part before `save` and the insert
- `create_eq` - the whole call, with no other step in between
-/

namespace AuthenticationServer

open Java Table

variable {H Salt : Type}

theorem catchDataIntegrityViolation_map {α β : Type} (message : String) (f : α → β)
    (x : Except Throwable α) :
    catchDataIntegrityViolation message (x.map f) = (catchDataIntegrityViolation message x).map f := by
  cases x with
  | ok a => rfl
  | error e => cases e <;> rfl

/-- A value of one of the two unique columns. -/
inductive Key
  | email (email : String)
  | vendorId (vendorId : String)
  deriving DecidableEq, Repr

namespace Store

/-- The number of stored credentials with a key. -/
def holders (s : Store H) : Key → ℕ
  | .email e => s.credentialPasswords.countP fun c => c.email = e
  | .vendorId v => s.credentialIOSDevices.countP fun c => c.vendorId = v

def HasKey (s : Store H) : Key → Prop
  | .email e => ∃ c ∈ s.credentialPasswords, c.email = e
  | .vendorId v => ∃ c ∈ s.credentialIOSDevices, c.vendorId = v

instance (s : Store H) (k : Key) : Decidable (s.HasKey k) := by
  cases k <;> unfold HasKey <;> infer_instance

@[simp] theorem holders_append (s t : Store H) (k : Key) :
    (s ++ t).holders k = s.holders k + t.holders k := by
  cases k <;> exact List.countP_append

/-- The holders of a key are those whose accounts are kept and those whose accounts are not. -/
theorem holders_split (s : Store H) (p : UUID → Bool) (k : Key) :
    (s.filter p).holders k + (s.filter fun id => !p id).holders k = s.holders k := by
  cases k <;> exact countP_split _ _ _

theorem hasKey_append {s t : Store H} {k : Key} :
    (s ++ t).HasKey k ↔ s.HasKey k ∨ t.HasKey k := by
  cases k <;> simp only [HasKey, credentialPasswords_append, credentialIOSDevices_append,
    List.mem_append, or_and_right, exists_or]

theorem rowsWith_email_ne_nil {s : Store H} {e : String} :
    rowsWith (·.email) e s.credentialPasswords ≠ [] ↔ s.HasKey (.email e) := by
  rw [ne_eq, rowsWith_eq_nil]
  simp only [HasKey, not_forall, ne_eq, not_not, exists_prop]

theorem rowsWith_vendorId_ne_nil {s : Store H} {v : String} :
    rowsWith (·.vendorId) v s.credentialIOSDevices ≠ [] ↔ s.HasKey (.vendorId v) := by
  rw [ne_eq, rowsWith_eq_nil]
  simp only [HasKey, not_forall, ne_eq, not_not, exists_prop]

end Store

/-- The parameters of a creating operation. -/
inductive Registration
  | email (email password : String)
  | iosDevice (vendorId deviceName : String)
  deriving DecidableEq, Repr

namespace Registration

/-- The unique value that the new credential will have. -/
def key : Registration → Key
  | email e _ => .email e
  | iosDevice v _ => .vendorId v

/-- The account that the operation builds. -/
def account (L : Libraries H Salt) (w : Ambient Salt) : Registration → Account H
  | email e p => newEmailAccount L w e p
  | iosDevice v d => newIOSAccount w v d

/-- The operation up to `save`. -/
def prepare (L : Libraries H Salt) (w : Ambient Salt) (s : Store H) :
    Registration → Except Throwable (Account H)
  | email e p => prepareEmailAccount L w s e p
  | iosDevice v d => prepareIOSAccount w s v d

def message : Registration → String
  | email .. => EMAIL_IS_ALREADY_LINKED_TO_ANOTHER_ACCOUNT
  | iosDevice .. => DEVICE_ID_ALREADY_LINKED_TO_ANOTHER_ACCOUNT

/-- The operation of `AccountService`. -/
def create (L : Libraries H Salt) (w : Ambient Salt) (s : Store H) :
    Registration → Except Throwable (Account H × Store H)
  | email e p => createAccountForEmail L w s e p
  | iosDevice v d => createAccountForIOSDevice L w s v d

/-- The texts of the request fit into their columns. -/
def Storable : Registration → Prop
  | email e _ => e.length ≤ columnLength
  | iosDevice v d => v.length ≤ columnLength ∧ d.length ≤ columnLength

instance (r : Registration) : Decidable r.Storable := by
  cases r <;> unfold Storable <;> infer_instance

/-- The hash of the password, where there is one, fits into its column. -/
def HashFits (L : Libraries H Salt) (w : Ambient Salt) : Registration → Prop
  | email _ p => L.hashLength (hash L w.salt p) ≤ columnLength
  | iosDevice .. => True

instance (L : Libraries H Salt) (w : Ambient Salt) (r : Registration) :
    Decidable (r.HashFits L w) := by
  cases r <;> unfold HashFits <;> infer_instance

theorem hashFits {L : Libraries H Salt} (h : L.HashesFit) (w : Ambient Salt) (r : Registration) :
    r.HashFits L w := by
  cases r with
  | email e p => exact h w.salt p _ _ _
  | iosDevice v d => trivial

def accountRow (w : Ambient Salt) : AccountRow := ⟨w.accountId, w.requestDate⟩

/-- The columns that all credentials have. -/
def credentialRow (w : Ambient Salt) : Credential Date :=
  ⟨w.credentialId, w.accountId, w.requestDate, w.requestDate⟩

def passwordRow (L : Libraries H Salt) (w : Ambient Salt) :
    Registration → Option (CredentialPassword H Date)
  | email e p => some ⟨credentialRow w, e, hash L w.salt p⟩
  | iosDevice .. => none

def iosDeviceRow (w : Ambient Salt) : Registration → Option (CredentialIOSDevice Date)
  | email .. => none
  | iosDevice v d => some ⟨credentialRow w, v, d⟩

/-- The rows of a new account, all with the same date. -/
def rows (L : Libraries H Salt) (w : Ambient Salt) (r : Registration) : Store H :=
  ⟨[accountRow w], (r.passwordRow L w).toList, (r.iosDeviceRow w).toList⟩

theorem holders_rows (L : Libraries H Salt) (w : Ambient Salt) (r : Registration) (k : Key) :
    (r.rows L w).holders k = if r.key = k then 1 else 0 := by
  cases r <;> cases k <;>
    simp [rows, passwordRow, iosDeviceRow, key, Store.holders, List.countP_cons]

theorem hasKey_rows (L : Libraries H Salt) (w : Ambient Salt) {r : Registration} {k : Key} :
    (r.rows L w).HasKey k ↔ r.key = k := by
  cases r <;> cases k <;> simp [rows, passwordRow, iosDeviceRow, key, Store.HasKey]

def credential (L : Libraries H Salt) (w : Ambient Salt) : Registration → CredentialEntity H
  | email e p => .password
      (CredentialPassword.new w.credentialId w.accountId e (hash L w.salt p) w.requestTime)
  | iosDevice v n => .iosDevice
      (CredentialIOSDevice.new w.credentialId w.accountId v n w.requestTime)

theorem account_eq (L : Libraries H Salt) (w : Ambient Salt) (r : Registration) :
    r.account L w = ⟨w.accountId, w.requestTime, [r.credential L w]⟩ := by
  cases r <;> rfl

theorem account_id (L : Libraries H Salt) (w : Ambient Salt) (r : Registration) :
    (r.account L w).id = w.accountId := by
  rw [account_eq]

theorem timeColumn_requestTime (w : Ambient Salt) :
    timeColumn w.requestTime = .ok w.requestDate :=
  timeColumn_eq_ok.mpr w.ofInstant_requestTime

theorem insertCredential_credential (L : Libraries H Salt) (w : Ambient Salt) {s t : Store H}
    {r : Registration} (ht : t.credentialPasswords = s.credentialPasswords)
    (ht' : t.credentialIOSDevices = s.credentialIOSDevices) :
    insertCredential L t (r.credential L w) =
      if (r.Storable ∧ r.HashFits L w) ∧ ¬ s.HasKey r.key then
        .ok ⟨[], (r.rows L w).credentialPasswords, (r.rows L w).credentialIOSDevices⟩
      else .error .dataIntegrityViolationException := by
  -- the conditions of the two inserts, in the terms of a registration
  cases r with
  | email e p =>
    have hcond : (columnLength < e.length ∨ columnLength < L.hashLength (hash L w.salt p) ∨
        rowsWith (·.email) e s.credentialPasswords ≠ []) ↔
        ¬ (((email e p).Storable ∧ (email e p).HashFits L w) ∧ ¬ s.HasKey (email e p).key) := by
      rw [Store.rowsWith_email_ne_nil, Storable, HashFits, key, not_and_or, not_and_or, not_le,
        not_le, not_not, or_assoc]
    simp only [credential, insertCredential, CredentialPassword.new, Credential.new,
      timeColumn_requestTime, ht, hcond, Fallible.ok_bind, ite_not]
    rfl
  | iosDevice v n =>
    have hcond : (columnLength < v.length ∨ columnLength < n.length ∨
        rowsWith (·.vendorId) v s.credentialIOSDevices ≠ []) ↔
        ¬ (((iosDevice v n).Storable ∧ (iosDevice v n).HashFits L w) ∧
          ¬ s.HasKey (iosDevice v n).key) := by
      rw [Store.rowsWith_vendorId_ne_nil, Storable, HashFits, key, and_true, not_and_or,
        not_and_or, not_le, not_le, not_not, or_assoc]
    simp only [credential, insertCredential, CredentialIOSDevice.new, Credential.new,
      timeColumn_requestTime, ht', hcond, Fallible.ok_bind, ite_not]
    rfl

/-- One flush of a new account inserts its rows, unless a text does not fit or the key is
taken. -/
theorem insertedRows_account (L : Libraries H Salt) (w : Ambient Salt) (s : Store H)
    (r : Registration) :
    insertedRows L s (r.account L w) =
      if (r.Storable ∧ r.HashFits L w) ∧ ¬ s.HasKey r.key then .ok (r.rows L w)
      else .error .dataIntegrityViolationException := by
  have hins := insertCredential_credential L w (r := r) (s := s)
    (t := s ++ ⟨[accountRow w], [], []⟩) (List.append_nil _) (List.append_nil _)
  rw [insertedRows, account_eq, timeColumn_requestTime]
  simp only [accountRow] at hins
  simp only [Fallible.ok_bind, List.foldlM_cons, List.foldlM_nil, hins]
  split
  · rfl
  · rfl

/-- Before `save`, an operation on a store with unique keys refuses a taken key. -/
theorem prepare_eq (L : Libraries H Salt) (w : Ambient Salt) {s : Store H} (hs : s.WellFormed)
    (r : Registration) :
    r.prepare L w s =
      if s.HasKey r.key then .error (.conflictException r.message none)
      else .ok (r.account L w) := by
  cases r with
  | email e p =>
    by_cases hkey : s.HasKey (.email e)
    · obtain ⟨c, hc, rfl⟩ := id hkey
      rw [key, if_pos hkey, prepare, prepareEmailAccount, findByEmail_of_mem hs hc]
      rfl
    · have hnone : findByEmail s e = .ok none :=
        findByEmail_of_notMem fun c hc he => hkey ⟨c, hc, he⟩
      rw [key, if_neg hkey, prepare, prepareEmailAccount, hnone]
      rfl
  | iosDevice v n =>
    by_cases hkey : s.HasKey (.vendorId v)
    · have hrows : findAllByVendorId s v ≠ [] := Store.rowsWith_vendorId_ne_nil.mpr hkey
      rw [key, if_pos hkey, prepare, prepareIOSAccount, if_pos hrows]
      rfl
    · have hrows : ¬ findAllByVendorId s v ≠ [] := fun h =>
        hkey (Store.rowsWith_vendorId_ne_nil.mp h)
      rw [key, if_neg hkey, prepare, prepareIOSAccount, if_neg hrows]
      rfl

theorem prepare_eq_ok {L : Libraries H Salt} {w : Ambient Salt} {s : Store H} {r : Registration}
    {a : Account H} (h : r.prepare L w s = .ok a) : a = r.account L w := by
  cases r with
  | email e p =>
    obtain ⟨found, _, hf⟩ := Fallible.bind_eq_ok.mp h
    cases found with
    | none => exact (Except.ok.inj hf).symm
    | some c => cases hf
  | iosDevice v n =>
    rw [prepare, prepareIOSAccount] at h
    split at h
    · cases h
    · exact (Except.ok.inj h).symm

theorem catch_prepare (L : Libraries H Salt) (w : Ambient Salt) (s : Store H)
    (r : Registration) :
    catchDataIntegrityViolation r.message (r.prepare L w s) = r.prepare L w s := by
  cases r with
  | email e p =>
    rw [prepare, prepareEmailAccount, findByEmail]
    cases rowsWith (·.email) e s.credentialPasswords with
    | nil => rfl
    | cons c rows => cases rows <;> rfl
  | iosDevice v n =>
    rw [prepare, prepareIOSAccount]
    split <;> rfl

/-- Only the insert can fail in a way that the catch clause of a creating method takes up. -/
theorem create_split (L : Libraries H Salt) (w : Ambient Salt) (s : Store H)
    (r : Registration) :
    r.create L w s = r.prepare L w s >>= fun account =>
      (catchDataIntegrityViolation r.message (insertedRows L s account)).map fun rows =>
        (account, s ++ rows) := by
  have hcreate : r.create L w s =
      catchDataIntegrityViolation r.message (r.prepare L w s >>= save L s) := by
    cases r <;> rfl
  have hcatch := r.catch_prepare L w s
  rw [hcreate]
  cases hp : r.prepare L w s with
  | ok account => exact catchDataIntegrityViolation_map r.message _ (insertedRows L s account)
  | error e =>
    rw [hp] at hcatch
    cases e <;> first | rfl | cases hcatch

/-- A call of a creating operation with no other step in between: every failed insert is
reported as a conflict. -/
theorem create_eq (L : Libraries H Salt) (w : Ambient Salt) {s : Store H} (hs : s.WellFormed)
    (r : Registration) :
    r.create L w s =
      if s.HasKey r.key then .error (.conflictException r.message none)
      else if r.Storable ∧ r.HashFits L w then .ok (r.account L w, s ++ r.rows L w)
      else .error (.conflictException r.message (some .dataIntegrityViolationException)) := by
  rw [create_split, prepare_eq L w hs]
  by_cases hkey : s.HasKey r.key
  · rw [if_pos hkey, if_pos hkey]
    rfl
  · rw [if_neg hkey, if_neg hkey, Fallible.ok_bind, insertedRows_account]
    by_cases hfit : r.Storable ∧ r.HashFits L w
    · rw [if_pos ⟨hfit, hkey⟩, if_pos hfit]
      rfl
    · rw [if_neg fun h => hfit h.1, if_neg hfit]
      rfl

end Registration

end AuthenticationServer
