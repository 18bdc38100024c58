import AuthenticationServer.System.Linearizability
import AuthenticationServer.System.RoleCheck

/-!
# Calls one after another, and the directory

What the service is for, said without its tables: it keeps a directory of accounts, to which a
call adds one, in which it finds one by its key or by its id, or from which it takes one away.
Calls that run one after another do exactly that.

## Main definitions

- `Directory.perform` - what a call does to the directory, and how it ends
- `sequential` - calls that run one after another on the tables

## Main results

- `solo_perform` - a call alone, on the tables that hold a directory
- `sequential_eq_directory` - calls one after another, from the empty tables
-/

namespace AuthenticationServer

open Java Table
open Linearization (solo solo_snoc turn)

variable {H Salt : Type}

instance (username password : String) :
    (r : Registration) → Decidable (r.Authenticates username password)
  | .email .. => inferInstanceAs (Decidable (_ ∧ _))
  | .iosDevice .. => inferInstanceAs (Decidable (_ ∧ _))

namespace Directory

/-- The account that a user name and a password log in. -/
def authenticate (d : Directory Salt) (username password : String) : Option (Registered Salt) :=
  List.find? (fun x => x.registration.Authenticates username password) d

/-- Why a login is refused. -/
def challenge (d : Directory Salt) (username password : String) : String :=
  if username = "deviceId" then "no account for deviceId '" ++ password ++ "'"
  else if .email username ∈ d.map Registered.key then
    "wrong password for email '" ++ username ++ "'"
  else "no account for email '" ++ username ++ "'"

/-- The account that a principal names. -/
def principal (d : Directory Salt) : Option Principal → Except Throwable (Registered Salt)
  | none => .error (.notAuthorizedException THERE_WAS_NO_PRINCIPAL_SET_IN_THE_SECURITY_CONTEXT)
  | some ⟨none⟩ => .error (.notAuthorizedException THE_PRINCIPAL_DID_NOT_HAVE_A_NON_BLANK_NAME)
  | some ⟨some accountId⟩ =>
    if isBlank accountId then
      .error (.notAuthorizedException THE_PRINCIPAL_DID_NOT_HAVE_A_NON_BLANK_NAME)
    else
      match List.find? (fun x => UUID.fromString accountId = some x.id) d with
      | some x => .ok x
      | none => .error (.notFoundException (noAccountMessage accountId))

def register (L : Libraries H Salt) (w : Ambient Salt) (d : Directory Salt) (caller : Caller)
    (r : Registration) : Except Throwable (Result H) × Directory Salt :=
  if r.key ∈ d.map Registered.key then (.error (.conflictException r.message none), d)
  else if r.Storable ∧ r.HashFits L w then
    (.ok (caller.result (r.account L w)), d ++ [⟨r, w⟩])
  else (.error (r.refusal caller), d)

def logIn (L : Libraries H Salt) (w : Ambient Salt) (d : Directory Salt)
    (username password : String) : Except Throwable (Result H) × Directory Salt :=
  match d.authenticate username password with
  | some x => (.ok (.token (signToken L w x.id)), d)
  | none => (.error (.challengeException (d.challenge username password)), d)

def unregister (d : Directory Salt) (userPrincipal : Except Throwable (Option Principal)) :
    Except Throwable (Result H) × Directory Salt :=
  match userPrincipal >>= d.principal with
  | .ok x => (.ok .noContent, List.filter (fun y => !decide (y.id = x.id)) d)
  | .error e => (.error e, d)

/-- What a call does to the directory, and how it ends. Its first step reads `w`, and its second
step `w'`. -/
def perform (L : Libraries H Salt) (w w' : Ambient Salt) (d : Directory Salt) :
    Invocation → Except Throwable (Result H) × Directory Salt
  | .create caller r =>
    match caller.validate w (r.violations L) with
    | .ok _ => d.register L w caller r
    | .error e => (.error e, d)
  | .createToken username password =>
    match validate w (tokenViolations username) with
    | .ok _ => d.logIn L w' username password
    | .error e => (.error e, d)
  | .request operation cookies =>
    match secured L w.currentTimeMillis .authenticated cookies with
    | .ok a =>
      match operation with
      | .getAccounts => (.ok (.accountDTOs (d.map fun x => ⟨x.id⟩)), d)
      | .getAccountInfo => ((a.userPrincipal >>= d.principal).map fun x => .accountDTO ⟨x.id⟩, d)
      | .deleteAccount => d.unregister a.userPrincipal
    | .error e => (.error e, d)
  | .deleteAccount userPrincipal => d.unregister (.ok userPrincipal)

/-! ## Lookups in the tables that hold a directory -/

theorem authenticate_eq_some {d : Directory Salt} {username password : String}
    {x : Registered Salt} (h : d.authenticate username password = some x) :
    x ∈ d ∧ x.registration.Authenticates username password := by
  rw [authenticate] at h
  refine ⟨List.mem_of_find?_eq_some h, ?_⟩
  simpa using List.find?_some h

theorem authenticate_eq_none {d : Directory Salt} {username password : String}
    (h : d.authenticate username password = none) :
    ∀ x ∈ d, ¬ x.registration.Authenticates username password := by
  intro x hx hauth
  exact List.find?_eq_none.mp h x hx (decide_eq_true hauth)

theorem hasKey_store_iff {L : Libraries H Salt} {d : Directory Salt} {k : Key} :
    (d.store L).HasKey k ↔ k ∈ d.map Registered.key := by
  rw [hasKey_store, List.mem_map]

/-- A login finds its account, or is refused. -/
theorem credentialAccount_store {L : Libraries H Salt} (hown : L.ChecksOwnHash)
    (honly : L.ChecksOnlyHashed) (hany : L.ChecksAnyPassword) {d : Directory Salt} (hd : d.Valid)
    (username password : String) :
    credentialAccount L (d.store L) username password =
      match d.authenticate username password with
      | some x => .ok x.id
      | none => .error (.challengeException (d.challenge username password)) := by
  cases hauth : d.authenticate username password with
  | some x =>
    obtain ⟨hx, hmatch⟩ := authenticate_eq_some hauth
    exact credentialAccount_of_mem hown hd hx hmatch
  | none =>
    have hnone := authenticate_eq_none hauth
    by_cases hdevice : username = "deviceId"
    · have hfree : findByVendorId (d.store L) password = .ok none := by
        rw [findByVendorId, rowsWith_eq_nil.mpr]
        · rfl
        · intro c hc hv
          obtain ⟨⟨r, w⟩, hx, hrow⟩ := mem_credentialIOSDevices.mp hc
          cases r with
          | email e p => cases hrow
          | iosDevice v n =>
            obtain rfl := Option.some.inj hrow
            exact hnone _ hx ⟨hdevice, hv.symm⟩
      rw [credentialAccount, if_pos hdevice, hfree, challenge, if_pos hdevice]
      rfl
    · by_cases hkey : .email username ∈ d.map Registered.key
      · obtain ⟨⟨r, w⟩, hx, hxkey⟩ := List.mem_map.mp hkey
        cases r with
        | iosDevice v n => cases hxkey
        | email e p =>
          obtain rfl := Key.email.inj hxkey
          have hc := (includes_rows L hx).credentialPasswords (List.mem_singleton.mpr rfl)
          have hfound := findByEmail_of_mem (hd.wellFormed L) hc
          -- the password is not the hashed one, and checking it raises no exception
          have hwrong : verify L password (hash L w.salt p) = .ok false := by
            obtain ⟨b, hb⟩ := hany w.salt password p 16384 8 1
            cases b with
            | false => exact hb
            | true => exact absurd ⟨hdevice, rfl, honly _ _ _ _ _ _ hb⟩ (hnone _ hx)
          rw [credentialAccount, if_neg hdevice, challenge, if_neg hdevice, if_pos hkey]
          simp only [hfound, Fallible.ok_bind, hwrong]
          rfl
      · have hfree : findByEmail (d.store L) username = .ok none := by
          refine findByEmail_of_notMem fun c hc he => hkey ?_
          exact (hasKey_store_iff (L := L)).mp ⟨c, hc, he⟩
        rw [credentialAccount, if_neg hdevice, hfree, challenge, if_neg hdevice, if_neg hkey]
        rfl

theorem findById_store {L : Libraries H Salt} (d : Directory Salt) (accountId : String) :
    findById (d.store L) accountId =
      (List.find? (fun x => UUID.fromString accountId = some x.id) d).map fun x =>
        Registration.accountRow x.ambient := by
  rw [findById]
  cases hid : UUID.fromString accountId with
  | none => simp
  | some id =>
    simp only [store, List.find?_map, Option.some.injEq]
    congr 2
    funext x
    exact decide_eq_decide.mpr eq_comm

/-- The lookup of the service, on the tables that hold a directory. -/
theorem getAccountOfSecurityContext_store (L : Libraries H Salt) (d : Directory Salt)
    (userPrincipal : Option Principal) :
    getAccountOfSecurityContext (d.store L) userPrincipal =
      (d.principal userPrincipal).map fun x => Registration.accountRow x.ambient := by
  match userPrincipal with
  | none => rfl
  | some ⟨none⟩ => rfl
  | some ⟨some accountId⟩ =>
    rw [getAccountOfSecurityContext, principal, findById_store]
    cases isBlank accountId with
    | true => rfl
    | false =>
      cases List.find? (fun x => UUID.fromString accountId = some x.id) d with
      | none => rfl
      | some x => rfl

theorem lookup_store (L : Libraries H Salt) (d : Directory Salt)
    (userPrincipal : Except Throwable (Option Principal)) :
    userPrincipal >>= getAccountOfSecurityContext (d.store L) =
      (userPrincipal >>= d.principal).map fun x => Registration.accountRow x.ambient := by
  cases userPrincipal with
  | error e => rfl
  | ok p => exact getAccountOfSecurityContext_store L d p

theorem getAccountInfo_store (L : Libraries H Salt) (d : Directory Salt) (a : Authentication) :
    (getAccountInfo (d.store L) a).map Result.accountDTO =
      ((a.userPrincipal >>= d.principal).map fun x => .accountDTO ⟨x.id⟩ :
        Except Throwable (Result H)) := by
  rw [getAccountInfo]
  cases a.userPrincipal with
  | error e => rfl
  | ok p =>
    simp only [Fallible.ok_bind, getAccountOfSecurityContext_store]
    cases d.principal p <;> rfl

/-! ## A call alone, on the tables that hold a directory -/

/-- The tables and the call after the directory's step. -/
def Ends (L : Libraries H Salt) (r : Store H × Client H)
    (outcome : Except Throwable (Result H) × Directory Salt) : Prop :=
  r.1 = outcome.2.store L ∧ r.2.stage = .done outcome.1

/-- An ended call takes no more steps. -/
theorem Ends.turn {L : Libraries H Salt} {r : Store H × Client H}
    {outcome : Except Throwable (Result H) × Directory Salt} (h : Ends L r outcome)
    (w : Ambient Salt) : Ends L (turn (system L) r w) outcome := by
  rw [Client.turn_of_done L w r.1 h.2]
  exact h

theorem ends_unregister (L : Libraries H Salt) (w w' : Ambient Salt) (d : Directory Salt)
    {c : Client H} (deletion : c.invocation.isDeletion = true)
    (next : ∀ w s, c.next L w s = some (c.lookUp s)) :
    Ends L (turn (system L) (turn (system L) (d.store L, c) w) w')
      (d.unregister c.userPrincipal) := by
  have hlookUp := Client.turn_system L w (next w (d.store L))
  rw [Client.lookUp, lookup_store] at hlookUp
  rw [unregister]
  cases hp : c.userPrincipal >>= d.principal with
  | error e =>
    simp only [hp] at hlookUp
    rw [hlookUp]
    exact Ends.turn ⟨rfl, rfl⟩ w'
  | ok x =>
    simp only [hp] at hlookUp
    change turn (system L) _ w = (d.store L,
      { c with stage := .delete (Registration.accountRow x.ambient) }) at hlookUp
    rw [hlookUp, Client.turn_system L w' (Client.next_delete L w' (d.store L) deletion _)]
    exact ⟨(store_filter L d fun id => !decide (id = x.id)).symm, rfl⟩

theorem ends_create (L : Libraries H Salt) (w w' : Ambient Salt) {d : Directory Salt}
    (hd : d.Valid) (caller : Caller) (r : Registration) :
    Ends L (turn (system L) (turn (system L) (d.store L, Client.call (.create caller r)) w) w')
      (d.perform L w w' (.create caller r)) := by
  have hnext := Client.next_start_create L w (d.store L) caller r
  rw [Registration.begin] at hnext
  rw [perform]
  cases hv : caller.validate w (r.violations L) with
  | error e =>
    rw [hv] at hnext
    rw [Client.turn_system L w hnext]
    exact Ends.turn ⟨rfl, rfl⟩ w'
  | ok _ =>
    rw [hv, Fallible.ok_bind, Registration.prepare_eq L w (hd.wellFormed L)] at hnext
    simp only [register, ← hasKey_store_iff (L := L)]
    by_cases hkey : (d.store L).HasKey r.key
    · simp only [if_pos hkey] at hnext ⊢
      rw [Client.turn_system L w hnext]
      exact Ends.turn ⟨rfl, rfl⟩ w'
    · simp only [if_neg hkey] at hnext ⊢
      have hsave := Client.next_save L w' (d.store L) caller r (r.account L w)
      rw [Registration.commit_account] at hsave
      have hpending := Client.turn_system L w hnext
      change turn (system L) _ w =
        (d.store L, ⟨.create caller r, .save (r.account L w), none, none⟩) at hpending
      rw [hpending, Client.turn_system L w' hsave]
      by_cases hfit : r.Storable ∧ r.HashFits L w
      · rw [if_pos hfit, if_pos ⟨hfit, hkey⟩]
        exact ⟨(store_concat L d ⟨r, w⟩).symm, rfl⟩
      · rw [if_neg hfit, if_neg fun h => hfit h.1]
        exact ⟨rfl, rfl⟩

theorem ends_createToken {L : Libraries H Salt} (hown : L.ChecksOwnHash)
    (honly : L.ChecksOnlyHashed) (hany : L.ChecksAnyPassword) (w w' : Ambient Salt)
    {d : Directory Salt} (hd : d.Valid) (username password : String) :
    Ends L (turn (system L)
        (turn (system L) (d.store L, Client.call (.createToken username password)) w) w')
      (d.perform L w w' (.createToken username password)) := by
  have hok : ∀ account, (validate w (tokenViolations username) >>= fun _ =>
      credentialAccount L (d.store L) username password) = .ok account →
      (Client.call (.createToken username password)).next L w (d.store L) =
        some ((Client.call (.createToken username password)).proceed (.sign account)) := by
    intro account h
    simp only [Client.next, Client.call, h]
  have herror : ∀ e, (validate w (tokenViolations username) >>= fun _ =>
      credentialAccount L (d.store L) username password) = .error e →
      (Client.call (.createToken username password)).next L w (d.store L) =
        some ((Client.call (.createToken username password)).finish (.error e)) := by
    intro e h
    simp only [Client.next, Client.call, h]
  rw [credentialAccount_store hown honly hany hd] at hok herror
  rw [perform]
  cases hv : validate w (tokenViolations username) with
  | error e =>
    rw [hv] at herror
    rw [Client.turn_system L w (herror e rfl)]
    exact Ends.turn ⟨rfl, rfl⟩ w'
  | ok _ =>
    rw [hv, Fallible.ok_bind] at hok herror
    simp only [logIn]
    cases hauth : d.authenticate username password with
    | none =>
      rw [hauth] at herror
      rw [Client.turn_system L w (herror _ rfl)]
      exact Ends.turn ⟨rfl, rfl⟩ w'
    | some x =>
      rw [hauth] at hok
      rw [Client.turn_system L w (hok _ rfl)]
      exact ⟨rfl, rfl⟩

theorem ends_request (L : Libraries H Salt) (w w' w'' : Ambient Salt) (d : Directory Salt)
    (operation : AccountOperation) (cookies : Option (List Cookie)) :
    Ends L (turn (system L) (turn (system L) (turn (system L)
        (d.store L, Client.call (.request operation cookies)) w) w') w'')
      (d.perform L w w' (.request operation cookies)) := by
  have henter : (Client.call (.request operation cookies)).next L w (d.store L) =
      some ((Client.call (.request operation cookies)).enter L w.currentTimeMillis cookies) := by
    cases operation <;> rfl
  rw [Client.turn_system L w henter, Client.enter, perform]
  cases secured L w.currentTimeMillis .authenticated cookies with
  | error e => exact (Ends.turn ⟨rfl, rfl⟩ w').turn w''
  | ok a =>
    cases operation with
    | getAccounts =>
      refine Ends.turn ⟨rfl, ?_⟩ w''
      have hlist : ((d.store L).accounts.map AccountRow.assembleDto) = d.map fun x => ⟨x.id⟩ :=
        List.map_map
      rw [← hlist]
      exact congrArg Stage.done (congrArg (Except.map Result.accountDTOs)
        (getAccounts_eq (d.store L) a))
    | getAccountInfo =>
      refine Ends.turn ⟨rfl, ?_⟩ w''
      exact congrArg Stage.done (getAccountInfo_store L d a)
    | deleteAccount => exact ends_unregister L w' w'' d rfl fun _ _ => rfl

/-- A call alone, on the tables that hold a directory, does what it does to the directory. -/
theorem solo_perform {L : Libraries H Salt} (hown : L.ChecksOwnHash) (honly : L.ChecksOnlyHashed)
    (hany : L.ChecksAnyPassword) (w w' w'' : Ambient Salt) {d : Directory Salt} (hd : d.Valid)
    (p : Invocation) :
    Ends L (solo (system L) [w, w', w''] (d.store L) p) (d.perform L w w' p) := by
  cases p with
  | create caller r => exact (ends_create L w w' hd caller r).turn w''
  | createToken username password =>
    exact (ends_createToken hown honly hany w w' hd username password).turn w''
  | request operation cookies => exact ends_request L w w' w'' d operation cookies
  | deleteAccount userPrincipal => exact (ends_unregister L w w' d rfl fun _ _ => rfl).turn w''

/-- The call adds an account to the directory. -/
def Adds (L : Libraries H Salt) (w w' : Ambient Salt) (d : Directory Salt) (p : Invocation) : Prop :=
  ∃ caller r, p = .create caller r ∧
    (d.perform L w w' p).1 = .ok (caller.result (r.account L w))

/-- The ids in the directory stay distinct, as long as the id of an account that is added is
new. -/
theorem Valid.perform {L : Libraries H Salt} {w w' : Ambient Salt} {d : Directory Salt}
    (hd : d.Valid) {p : Invocation} (hid : d.Adds L w w' p → ∀ x ∈ d, x.id ≠ w.accountId) :
    (d.perform L w w' p).2.Valid ∧
      ∀ x ∈ (d.perform L w w' p).2, x ∈ d ∨ d.Adds L w w' p ∧ x.id = w.accountId := by
  have hunregister : ∀ userPrincipal,
      (d.unregister (H := H) userPrincipal).2.Valid ∧
        ∀ x ∈ (d.unregister (H := H) userPrincipal).2, x ∈ d := by
    intro userPrincipal
    rw [unregister]
    cases userPrincipal >>= d.principal with
    | error e => exact ⟨hd, fun x hx => hx⟩
    | ok y => exact ⟨hd.filter _, fun x hx => (List.mem_filter.mp hx).1⟩
  cases p with
  | create caller r =>
    cases hv : caller.validate w (r.violations L) with
    | error e =>
      simp only [Directory.perform, hv]
      exact ⟨hd, fun x hx => Or.inl hx⟩
    | ok _ =>
      by_cases hkey : r.key ∈ d.map Registered.key
      · simp only [Directory.perform, hv, register, if_pos hkey]
        exact ⟨hd, fun x hx => Or.inl hx⟩
      · by_cases hfit : r.Storable ∧ r.HashFits L w
        · have hadds : d.Adds L w w' (.create caller r) :=
            ⟨caller, r, rfl, by simp only [Directory.perform, hv, register, if_neg hkey, if_pos hfit]⟩
          simp only [Directory.perform, hv, register, if_neg hkey, if_pos hfit]
          refine ⟨hd.concat (x := ⟨r, w⟩) (hid hadds) fun y hy he => hkey ?_, fun x hx => ?_⟩
          · exact List.mem_map.mpr ⟨y, hy, he⟩
          · obtain hx | hx := List.mem_append.mp hx
            · exact Or.inl hx
            · obtain rfl := List.mem_singleton.mp hx
              exact Or.inr ⟨hadds, rfl⟩
        · simp only [Directory.perform, hv, register, if_neg hkey, if_neg hfit]
          exact ⟨hd, fun x hx => Or.inl hx⟩
  | createToken username password =>
    rw [Directory.perform]
    cases validate w (tokenViolations username) with
    | error e => exact ⟨hd, fun x hx => Or.inl hx⟩
    | ok _ =>
      simp only [logIn]
      cases d.authenticate username password <;> exact ⟨hd, fun x hx => Or.inl hx⟩
  | request operation cookies =>
    rw [Directory.perform]
    cases secured L w.currentTimeMillis .authenticated cookies with
    | error e => exact ⟨hd, fun x hx => Or.inl hx⟩
    | ok a =>
      cases operation with
      | deleteAccount =>
        obtain ⟨hvalid, hmem⟩ := hunregister a.userPrincipal
        exact ⟨hvalid, fun x hx => Or.inl (hmem x hx)⟩
      | _ => exact ⟨hd, fun x hx => Or.inl hx⟩
  | deleteAccount userPrincipal =>
    obtain ⟨hvalid, hmem⟩ := hunregister (.ok userPrincipal)
    exact ⟨hvalid, fun x hx => Or.inl (hmem x hx)⟩

end Directory

/-! ## Calls one after another -/

/-- A call that runs alone, with what its at most three steps read. -/
structure SoloCall (Salt : Type) where
  invocation : Invocation
  first : Ambient Salt
  second : Ambient Salt
  third : Ambient Salt

/-- The tables and the ended calls, when calls run one after another. -/
def sequential (L : Libraries H Salt) (s : Store H) :
    List (SoloCall Salt) → Store H × List (Client H)
  | [] => (s, [])
  | x :: xs =>
    let r := solo (system L) [x.first, x.second, x.third] s x.invocation
    let q := sequential L r.1 xs
    (q.1, r.2 :: q.2)

/-- The directory and the ends of calls. -/
def Directory.performAll (L : Libraries H Salt) (d : Directory Salt) :
    List (SoloCall Salt) → Directory Salt × List (Except Throwable (Result H))
  | [] => (d, [])
  | x :: xs =>
    let r := d.perform L x.first x.second x.invocation
    let q := performAll L r.2 xs
    (q.1, r.1 :: q.2)

theorem sequential_performAll {L : Libraries H Salt} (hown : L.ChecksOwnHash)
    (honly : L.ChecksOnlyHashed) (hany : L.ChecksAnyPassword) {xs : List (SoloCall Salt)}
    (hnew : (xs.map fun x => x.first.accountId).Nodup) {d : Directory Salt} (hd : d.Valid)
    (hids : ∀ y ∈ d, ∀ x ∈ xs, y.id ≠ x.first.accountId) :
    (d.performAll L xs).1.Valid ∧ (sequential L (d.store L) xs).1 = (d.performAll L xs).1.store L ∧
      (sequential L (d.store L) xs).2.map (·.stage) = (d.performAll L xs).2.map .done := by
  induction xs generalizing d with
  | nil => exact ⟨hd, rfl, rfl⟩
  | cons x xs ih =>
    obtain ⟨hstore, hstage⟩ := Directory.solo_perform hown honly hany x.first x.second x.third hd
      x.invocation
    have hid : d.Adds L x.first x.second x.invocation → ∀ y ∈ d, y.id ≠ x.first.accountId :=
      fun _ y hy => hids y hy x List.mem_cons_self
    obtain ⟨hvalid, hmem⟩ := hd.perform hid
    obtain ⟨hx, hxs⟩ := List.nodup_cons.mp hnew
    have hrest := ih hxs hvalid (fun y hy z hz => by
      obtain hy | hy := hmem y hy
      · exact hids y hy z (List.mem_cons_of_mem _ hz)
      · rw [hy.2]
        exact fun he => hx (List.mem_map.mpr ⟨z, hz, he.symm⟩))
    rw [← hstore] at hrest
    obtain ⟨hvalid', hstore', hstages⟩ := hrest
    refine ⟨hvalid', hstore', ?_⟩
    exact List.cons_eq_cons.mpr ⟨hstage, hstages⟩

/-- Let calls run one after another, from the empty tables, each with a new id for the account
that it may create. Then the tables hold, at the end, the directory that the calls have built,
with distinct ids and distinct keys, and every call has ended as the directory prescribes: with
the account that it has added, the token of the account that its user name and password log in,
the accounts or the account that it asks for, or the reason why it was refused. -/
theorem sequential_eq_directory {L : Libraries H Salt} (hown : L.ChecksOwnHash)
    (honly : L.ChecksOnlyHashed) (hany : L.ChecksAnyPassword) (xs : List (SoloCall Salt))
    (hnew : (xs.map fun x => x.first.accountId).Nodup) :
    (Directory.performAll L [] xs).1.Valid ∧
      (sequential L Store.empty xs).1 = (Directory.performAll L [] xs).1.store L ∧
      (sequential L Store.empty xs).2.map (·.stage) = (Directory.performAll L [] xs).2.map .done :=
  sequential_performAll hown honly hany hnew Directory.valid_nil fun _ hy => by cases hy

/-- An account is registered, logs in, and is deleted, and then its login is refused. -/
def soloCalls : List (SoloCall ℕ) :=
  [⟨.create .api (.email "e@x" "password"), Symbolic.ambient 0 0, Symbolic.ambient 0 0, Symbolic.ambient 0 0⟩,
    ⟨.createToken "e@x" "password", Symbolic.ambient 1 0, Symbolic.ambient 1 0, Symbolic.ambient 1 0⟩,
    ⟨.request .deleteAccount
        (some [⟨"jwt", signToken Symbolic.libraries (Symbolic.ambient 1 0) ⟨0, 0⟩⟩]),
      Symbolic.ambient 2 0, Symbolic.ambient 2 0, Symbolic.ambient 2 0⟩,
    ⟨.createToken "e@x" "password", Symbolic.ambient 3 0, Symbolic.ambient 3 0, Symbolic.ambient 3 0⟩]

theorem sequential_eq_directory_soloCalls :
    (Directory.performAll Symbolic.libraries [] soloCalls).1.Valid ∧
      (sequential Symbolic.libraries Store.empty soloCalls).1 =
        (Directory.performAll Symbolic.libraries [] soloCalls).1.store Symbolic.libraries ∧
      (Directory.performAll Symbolic.libraries [] soloCalls).2.map Except.toOption =
        [some (.accountDTO ⟨⟨0, 0⟩⟩),
          some (.token (signToken Symbolic.libraries (Symbolic.ambient 1 0) ⟨0, 0⟩)),
          some .noContent, none] := by
  obtain ⟨hvalid, hstore, _⟩ := sequential_eq_directory Symbolic.checksOwnHash
    Symbolic.checksOnlyHashed Symbolic.checksAnyPassword soloCalls (by decide)
  exact ⟨hvalid, hstore, by decide +kernel⟩

end AuthenticationServer
