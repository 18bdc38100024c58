import AuthenticationServer.Services.Registration
import AuthenticationServer.Services.JWTService

/-!
# The directory behind the tables

What the three tables are for: a directory of registered accounts, in which an account is
found by its id and, for a login, by its key. The tables of the service are the image of a
directory with distinct ids and distinct keys.

## Main definitions

- `Directory` - the accounts that were registered and not deleted
- `Directory.store` - the tables that hold a directory
- `Registration.Authenticates` - the user name and the password that log an account in

## Main results

- `Directory.Valid.wellFormed` - the tables of a directory are well-formed
- `Directory.store_concat`, `Directory.store_filter` - registering and deleting, on the tables
- `credentialAccount_eq_ok`, `credentialAccount_of_mem` - a login finds exactly the account
  that it belongs to
-/

namespace AuthenticationServer

open Java Table

variable {H Salt : Type}

/-- A registered account: the parameters of the request, and what its call read from outside. -/
structure Registered (Salt : Type) where
  registration : Registration
  ambient : Ambient Salt

namespace Registered

def id (x : Registered Salt) : UUID := x.ambient.accountId

def key (x : Registered Salt) : Key := x.registration.key

def rows (L : Libraries H Salt) (x : Registered Salt) : Store H :=
  x.registration.rows L x.ambient

end Registered

abbrev Directory (Salt : Type) := List (Registered Salt)

namespace Directory

/-- The tables that hold the directory. -/
def store (L : Libraries H Salt) (d : Directory Salt) : Store H :=
  ⟨d.map fun x => Registration.accountRow x.ambient,
    d.filterMap fun x => x.registration.passwordRow L x.ambient,
    d.filterMap fun x => x.registration.iosDeviceRow x.ambient⟩

/-- No two accounts of the directory share their id or their key. -/
structure Valid (d : Directory Salt) : Prop where
  ids : Unique Registered.id d
  keys : Unique Registered.key d

theorem valid_nil : Valid ([] : Directory Salt) := ⟨unique_nil _, unique_nil _⟩

theorem Valid.filter {d : Directory Salt} (h : d.Valid) (p : Registered Salt → Bool) :
    Valid (List.filter p d) := ⟨h.ids.filter p, h.keys.filter p⟩

theorem Valid.concat {d : Directory Salt} (h : d.Valid) {x : Registered Salt}
    (hid : ∀ y ∈ d, y.id ≠ x.id) (hkey : ∀ y ∈ d, y.key ≠ x.key) : Valid (d ++ [x]) :=
  ⟨unique_concat.mpr ⟨h.ids, hid⟩, unique_concat.mpr ⟨h.keys, hkey⟩⟩

theorem store_concat (L : Libraries H Salt) (d : Directory Salt) (x : Registered Salt) :
    store L (d ++ [x]) = d.store L ++ x.rows L := by
  have hlist : ∀ {β : Type} (f : Registered Salt → Option β), [x].filterMap f = (f x).toList := by
    intro β f
    cases hf : f x <;> simp [hf]
  simp only [store, List.map_append, List.filterMap_append, hlist]
  rfl

theorem passwordRow_eq_some {L : Libraries H Salt} {x : Registered Salt}
    {c : CredentialPassword H Date} (h : x.registration.passwordRow L x.ambient = some c) :
    c.toCredential = Registration.credentialRow x.ambient ∧ x.key = .email c.email := by
  obtain ⟨r, w⟩ := x
  cases r with
  | email e p =>
    obtain rfl := Option.some.inj h
    exact ⟨rfl, rfl⟩
  | iosDevice v n => cases h

theorem iosDeviceRow_eq_some {x : Registered Salt} {c : CredentialIOSDevice Date}
    (h : x.registration.iosDeviceRow x.ambient = some c) :
    c.toCredential = Registration.credentialRow x.ambient ∧ x.key = .vendorId c.vendorId := by
  obtain ⟨r, w⟩ := x
  cases r with
  | email e p => cases h
  | iosDevice v n =>
    obtain rfl := Option.some.inj h
    exact ⟨rfl, rfl⟩

theorem store_filter (L : Libraries H Salt) (d : Directory Salt) (p : UUID → Bool) :
    store L (List.filter (fun x => p x.id) d) = (d.store L).filter p := by
  have hcred : ∀ {β : Type} (f : Registered Salt → Option β) (account : β → UUID),
      (∀ x c, f x = some c → account c = x.id) →
      (List.filter (fun x => p x.id) d).filterMap f =
        (d.filterMap f).filter fun c => p (account c) := by
    intro β f account hf
    rw [List.filter_filterMap, List.filterMap_filter]
    refine List.filterMap_congr fun x _ => ?_
    cases hx : f x with
    | none => simp
    | some c => simp [Option.filter, hf x c hx]
  have haccounts : (List.filter (fun x => p x.id) d).map (fun x => Registration.accountRow x.ambient) =
      (d.map fun x => Registration.accountRow x.ambient).filter fun a => p a.id := by
    rw [List.filter_map]
    rfl
  rw [store, Store.filter, store, haccounts,
    hcred _ (·.account) fun x c h => congrArg Credential.account (passwordRow_eq_some h).1,
    hcred _ (·.account) fun x c h => congrArg Credential.account (iosDeviceRow_eq_some h).1]

theorem mem_accounts {L : Libraries H Salt} {d : Directory Salt} {a : AccountRow} :
    a ∈ (d.store L).accounts ↔ ∃ x ∈ d, Registration.accountRow x.ambient = a :=
  List.mem_map

theorem mem_credentialPasswords {L : Libraries H Salt} {d : Directory Salt}
    {c : CredentialPassword H Date} :
    c ∈ (d.store L).credentialPasswords ↔
      ∃ x ∈ d, x.registration.passwordRow L x.ambient = some c :=
  List.mem_filterMap

theorem mem_credentialIOSDevices {L : Libraries H Salt} {d : Directory Salt}
    {c : CredentialIOSDevice Date} :
    c ∈ (d.store L).credentialIOSDevices ↔
      ∃ x ∈ d, x.registration.iosDeviceRow x.ambient = some c :=
  List.mem_filterMap

theorem includes_rows (L : Libraries H Salt) {d : Directory Salt} {x : Registered Salt}
    (hx : x ∈ d) : (d.store L).Includes (x.rows L) where
  accounts := by
    intro a ha
    obtain rfl := List.mem_singleton.mp ha
    exact mem_accounts.mpr ⟨x, hx, rfl⟩
  credentialPasswords := by
    intro c hc
    exact mem_credentialPasswords.mpr ⟨x, hx, Option.mem_toList.mp hc⟩
  credentialIOSDevices := by
    intro c hc
    exact mem_credentialIOSDevices.mpr ⟨x, hx, Option.mem_toList.mp hc⟩

theorem hasKey_store {L : Libraries H Salt} {d : Directory Salt} {k : Key} :
    (d.store L).HasKey k ↔ ∃ x ∈ d, x.key = k := by
  induction d using List.reverseRecOn with
  | nil => cases k <;> simp [store, Store.HasKey]
  | append_singleton d x ih =>
    rw [store_concat, Store.hasKey_append, ih, Registered.rows, Registration.hasKey_rows]
    simp only [List.mem_append, List.mem_singleton, or_and_right, exists_or, exists_eq_left]
    rfl

theorem credentialCount_store (L : Libraries H Salt) (d : Directory Salt) (id : UUID) :
    (d.store L).credentialCount id = (d.map Registered.id).count id := by
  induction d with
  | nil => rfl
  | cons x d ih =>
    obtain ⟨r, w⟩ := x
    rw [List.map_cons, List.count_cons, ← ih]
    -- the account has one row in one of the two credential tables
    cases r <;>
    · by_cases h : w.accountId = id
      · simp [store, Store.credentialCount, rowsWith, Registration.passwordRow,
          Registration.iosDeviceRow, Registration.credentialRow, Registered.id, h]
        omega
      · simp [store, Store.credentialCount, rowsWith, Registration.passwordRow,
          Registration.iosDeviceRow, Registration.credentialRow, Registered.id, h]

theorem Valid.wellFormed (L : Libraries H Salt) {d : Directory Salt} (h : d.Valid) :
    (d.store L).WellFormed where
  accountIds := by
    rw [Table.Unique, store, List.map_map]
    exact h.ids
  emails := by
    refine h.keys.filterMap fun x y b c hb hc he => ?_
    rw [(passwordRow_eq_some hb).2, (passwordRow_eq_some hc).2, he]
  vendorIds := by
    refine h.keys.filterMap fun x y b c hb hc he => ?_
    rw [(iosDeviceRow_eq_some hb).2, (iosDeviceRow_eq_some hc).2, he]
  passwordsLinked := by
    intro c hc
    obtain ⟨x, hx, hrow⟩ := mem_credentialPasswords.mp hc
    rw [(passwordRow_eq_some hrow).1]
    exact ⟨_, mem_accounts.mpr ⟨x, hx, rfl⟩, rfl, rfl, rfl⟩
  iosDevicesLinked := by
    intro c hc
    obtain ⟨x, hx, hrow⟩ := mem_credentialIOSDevices.mp hc
    rw [(iosDeviceRow_eq_some hrow).1]
    exact ⟨_, mem_accounts.mpr ⟨x, hx, rfl⟩, rfl, rfl, rfl⟩
  oneCredential := by
    intro a ha
    obtain ⟨x, hx, rfl⟩ := mem_accounts.mp ha
    rw [credentialCount_store]
    exact List.count_eq_one_of_mem h.ids (List.mem_map.mpr ⟨x, hx, rfl⟩)

end Directory

/-! ## Logging in -/

/-- The user name and the password that log in the account of a registration. -/
def Registration.Authenticates (username password : String) : Registration → Prop
  | .email e p => username ≠ "deviceId" ∧ username = e ∧ password = p
  | .iosDevice v _ => username = "deviceId" ∧ password = v

open Directory

/-- A login that succeeds does so with the credential of the account that it returns. -/
theorem credentialAccount_eq_ok {L : Libraries H Salt} (hcheck : L.ChecksOnlyHashed)
    {d : Directory Salt} {username password : String} {id : UUID}
    (h : credentialAccount L (d.store L) username password = .ok id) :
    ∃ x ∈ d, x.id = id ∧ x.registration.Authenticates username password := by
  obtain ⟨c, hlogin, rfl⟩ := credentialAccount_eq_ok_iff.mp h
  cases hlogin with
  | device found =>
    obtain ⟨hc, rfl⟩ := findByVendorId_eq_some found
    obtain ⟨⟨r, w⟩, hx, hrow⟩ := mem_credentialIOSDevices.mp hc
    cases r with
    | email e p => cases hrow
    | iosDevice v n =>
      obtain rfl := Option.some.inj hrow
      exact ⟨_, hx, rfl, rfl, rfl⟩
  | email reserved found verified =>
    obtain ⟨hc, rfl⟩ := findByEmail_eq_some found
    obtain ⟨⟨r, w⟩, hx, hrow⟩ := mem_credentialPasswords.mp hc
    cases r with
    | iosDevice v n => cases hrow
    | email e p =>
      obtain rfl := Option.some.inj hrow
      -- the stored hash is the hash of the registered password
      exact ⟨_, hx, rfl, reserved, rfl, hcheck _ _ _ _ _ _ verified⟩

/-- The credential of an account of the directory logs it in. -/
theorem credentialAccount_of_mem {L : Libraries H Salt} (hcheck : L.ChecksOwnHash)
    {d : Directory Salt} (hd : d.Valid) {x : Registered Salt} (hx : x ∈ d)
    {username password : String} (h : x.registration.Authenticates username password) :
    credentialAccount L (d.store L) username password = .ok x.id := by
  obtain ⟨r, w⟩ := x
  cases r with
  | email e p =>
    obtain ⟨hdevice, rfl, rfl⟩ := h
    have hc := (includes_rows L hx).credentialPasswords (List.mem_singleton.mpr rfl)
    have hfound := findByEmail_of_mem (hd.wellFormed L) hc
    exact (LogsIn.email hdevice hfound (hcheck w.salt password 16384 8 1)).credentialAccount
  | iosDevice v n =>
    obtain ⟨rfl, rfl⟩ := h
    have hc := (includes_rows L hx).credentialIOSDevices (List.mem_singleton.mpr rfl)
    exact (LogsIn.device (findByVendorId_of_mem (hd.wellFormed L) hc)).credentialAccount

end AuthenticationServer
