import AuthenticationServer.Model.Repositories

/-!
# Well-formed stores

The invariant of the three tables: unique keys, no dangling credential, and exactly one
credential for each account, first and last seen when the account was created.

## Main results

- `findById_name` - a stored account is found under its name
- `findByEmail_of_mem`, `findByVendorId_of_mem` - a stored credential is found under its key
-/

namespace AuthenticationServer

open Java Table

variable {H : Type}

namespace Store

/-- The number of credentials of an account, over both tables. -/
def credentialCount (s : Store H) (id : UUID) : ℕ :=
  (rowsWith (·.account) id s.credentialPasswords).length +
    (rowsWith (·.account) id s.credentialIOSDevices).length

/-- The credential points to a stored account and has its times. -/
def Linked (s : Store H) (c : Credential Date) : Prop :=
  ∃ a ∈ s.accounts, a.id = c.account ∧ c.firstTimeSeen = a.creationDate ∧
    c.lastTimeSeen = a.creationDate

/-- The invariant of the tables. -/
structure WellFormed (s : Store H) : Prop where
  accountIds : Unique (·.id) s.accounts
  emails : Unique (·.email) s.credentialPasswords
  vendorIds : Unique (·.vendorId) s.credentialIOSDevices
  passwordsLinked : ∀ c ∈ s.credentialPasswords, s.Linked c.toCredential
  iosDevicesLinked : ∀ c ∈ s.credentialIOSDevices, s.Linked c.toCredential
  oneCredential : ∀ a ∈ s.accounts, s.credentialCount a.id = 1

/-- The rows of a new account are among those of the store. -/
structure Includes (s rows : Store H) : Prop where
  accounts : rows.accounts ⊆ s.accounts
  credentialPasswords : rows.credentialPasswords ⊆ s.credentialPasswords
  credentialIOSDevices : rows.credentialIOSDevices ⊆ s.credentialIOSDevices

theorem includes_append (s t : Store H) : (s ++ t).Includes t :=
  ⟨List.subset_append_right _ _, List.subset_append_right _ _, List.subset_append_right _ _⟩

theorem Includes.append {s rows : Store H} (h : s.Includes rows) (t : Store H) :
    (s ++ t).Includes rows :=
  ⟨List.Subset.trans h.accounts (List.subset_append_left _ _),
    List.Subset.trans h.credentialPasswords (List.subset_append_left _ _),
    List.Subset.trans h.credentialIOSDevices (List.subset_append_left _ _)⟩

/-- The store has no row of the account left. -/
structure Lacks (s : Store H) (id : UUID) : Prop where
  accounts : ∀ a ∈ s.accounts, a.id ≠ id
  credentialPasswords : ∀ c ∈ s.credentialPasswords, c.account ≠ id
  credentialIOSDevices : ∀ c ∈ s.credentialIOSDevices, c.account ≠ id

/-- In a well-formed store the credentials of an account go with the account. -/
theorem WellFormed.lacks {s : Store H} (h : s.WellFormed) {id : UUID}
    (hid : ∀ a ∈ s.accounts, a.id ≠ id) : s.Lacks id where
  accounts := hid
  credentialPasswords := by
    intro c hc he
    obtain ⟨a, ha, hac, _⟩ := h.passwordsLinked c hc
    exact hid a ha (hac.trans he)
  credentialIOSDevices := by
    intro c hc he
    obtain ⟨a, ha, hac, _⟩ := h.iosDevicesLinked c hc
    exact hid a ha (hac.trans he)

end Store

theorem findById_eq_some {s : Store H} {uuid : String} {a : AccountRow}
    (h : findById s uuid = some a) : a ∈ s.accounts ∧ UUID.fromString uuid = some a.id := by
  rw [findById] at h
  cases hu : UUID.fromString uuid with
  | none => rw [hu] at h; cases h
  | some id =>
    rw [hu] at h
    have hid : a.id = id := by simpa using List.find?_some h
    exact ⟨List.mem_of_find?_eq_some h, congrArg some hid.symm⟩

/-- With unique ids, a text finds the account whose id it is read as. -/
theorem findById_eq_some_iff {s : Store H} (h : Unique (·.id) s.accounts) {uuid : String}
    {a : AccountRow} :
    findById s uuid = some a ↔ a ∈ s.accounts ∧ UUID.fromString uuid = some a.id := by
  refine ⟨findById_eq_some, fun ⟨ha, hu⟩ => ?_⟩
  rw [findById, hu]
  exact h.find?_eq_some ha

theorem findById_eq_none {s : Store H} {uuid : String} :
    findById s uuid = none ↔ ∀ a ∈ s.accounts, UUID.fromString uuid ≠ some a.id := by
  rw [findById]
  cases UUID.fromString uuid with
  | none => simp
  | some id =>
    simp only [List.find?_eq_none, decide_eq_true_eq, ne_eq, Option.some.injEq]
    exact forall₂_congr fun a _ => not_congr eq_comm

theorem findById_name {s : Store H} (h : s.WellFormed) {a : AccountRow} (ha : a ∈ s.accounts) :
    findById s a.name = some a :=
  (findById_eq_some_iff h.accountIds).mpr ⟨ha, UUID.fromString_toString a.id⟩

theorem findByEmail_of_mem {s : Store H} (h : s.WellFormed) {c : CredentialPassword H Date}
    (hc : c ∈ s.credentialPasswords) : findByEmail s c.email = .ok (some c) := by
  rw [findByEmail, h.emails.rowsWith_eq_singleton hc]
  rfl

theorem findByVendorId_of_mem {s : Store H} (h : s.WellFormed) {c : CredentialIOSDevice Date}
    (hc : c ∈ s.credentialIOSDevices) : findByVendorId s c.vendorId = .ok (some c) := by
  rw [findByVendorId, h.vendorIds.rowsWith_eq_singleton hc]
  rfl

theorem findByEmail_of_notMem {s : Store H} {email : String}
    (h : ∀ c ∈ s.credentialPasswords, c.email ≠ email) : findByEmail s email = .ok none := by
  rw [findByEmail, rowsWith_eq_nil.mpr h]
  rfl

theorem findByEmail_eq_some {s : Store H} {email : String} {c : CredentialPassword H Date}
    (h : findByEmail s email = .ok (some c)) : c ∈ s.credentialPasswords ∧ c.email = email :=
  mem_rowsWith.mp (mem_of_singleResult h)

theorem findByVendorId_eq_some {s : Store H} {vendorId : String} {c : CredentialIOSDevice Date}
    (h : findByVendorId s vendorId = .ok (some c)) :
    c ∈ s.credentialIOSDevices ∧ c.vendorId = vendorId :=
  mem_rowsWith.mp (mem_of_singleResult h)

end AuthenticationServer
