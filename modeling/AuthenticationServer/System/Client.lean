import AuthenticationServer.Jersey.AccountApi
import AuthenticationServer.Services.JWTService

/-!
# Calls in progress

A client is one call of an operation, cut where steps of other clients can come in between:
after the filter chain, after a lookup, and before a commit.

## Main definitions

- `Invocation` - the operations with their parameters
- `Stage` - how far a call has come
- `Client.next` - the next step of a call

## Main results

- `Client.next_cases` - everything that a step can do
- `Client.alone_create`, `Client.alone_createToken`, `Client.alone_deleteAccount` - a call with no
  other step in between ends as the method of the service behind it
-/

namespace AuthenticationServer

open Java

variable {H Salt : Type}

/-- The resource methods that only an authenticated request reaches. -/
inductive AccountOperation
  | getAccounts
  | getAccountInfo
  | deleteAccount
  deriving DecidableEq, Repr

/-- The operations with their parameters. -/
inductive Invocation
  | create (caller : Caller) (r : Registration)
  | createToken (username password : String)
  | request (operation : AccountOperation) (cookies : Option (List Cookie))
  /-- `AccountService.deleteAccount` with the security context of other code -/
  | deleteAccount (userPrincipal : Option Principal)
  deriving DecidableEq, Repr

/-- The calls that delete the account of their principal. -/
def Invocation.isDeletion : Invocation → Bool
  | request .deleteAccount _ | deleteAccount _ => true
  | _ => false

/-- The calls that return what they read. -/
def Invocation.isReading : Invocation → Bool
  | request .getAccounts _ | request .getAccountInfo _ => true
  | _ => false

theorem Invocation.isDeletion_eq_false {i : Invocation} (h : i.isReading = true) :
    i.isDeletion = false := by
  match i, h with
  | request .getAccounts _, _ => rfl
  | request .getAccountInfo _, _ => rfl

inductive Result (H : Type)
  | account (account : Account H)
  | accountDTO (account : AccountDTO)
  | accountDTOs (accounts : List AccountDTO)
  | token (token : String)
  | noContent
  deriving DecidableEq

/-- What a creating call returns: the service the account, the resource method its DTO. -/
def Caller.result (account : Account H) : Caller → Result H
  | api => .accountDTO account.assembleDto
  | other => .account account

/-- How far a call has come. -/
inductive Stage (H : Type)
  | start
  /-- the filter chain has admitted the request -/
  | secured
  /-- the key was free, and the new account is not committed yet -/
  | save (account : Account H)
  /-- the credential matched, and its account is known -/
  | sign (account : UUID)
  /-- the account of the principal was read -/
  | delete (account : AccountRow)
  | done (outcome : Except Throwable (Result H))

/-- A call. `presentedAt` is the time at which its cookies were checked, and `authentication`
what the filter chain then admitted it with. -/
structure Client (H : Type) where
  invocation : Invocation
  stage : Stage H
  presentedAt : Option ℤ
  authentication : Option Authentication

/-- A committed change of the tables. A removal keeps the rows that it removed. -/
inductive Write (H : Type)
  | insert (rows : Store H)
  | remove (account : AccountRow) (rows : Store H)

def Write.apply (s : Store H) : Write H → Store H
  | insert rows => s ++ rows
  | remove account _ => delete s account

/-- What a step does: the call afterwards, the ids drawn, the tokens signed, and the change
of the tables. -/
structure Effect (H : Type) where
  client : Client H
  drawnIds : List UUID
  signed : List JwtBuilder
  write : Option (Write H)

namespace Client

def call (invocation : Invocation) : Client H := ⟨invocation, .start, none, none⟩

/-- The authentication in the `SecurityContext` of the call. -/
def context (c : Client H) : Authentication := c.authentication.getD .anonymousAuthenticationToken

/-- The `userPrincipal` of the security context that the call passes on. -/
def userPrincipal (c : Client H) : Except Throwable (Option Principal) :=
  match c.invocation with
  | .deleteAccount userPrincipal => .ok userPrincipal
  | _ => c.context.userPrincipal

def proceed (c : Client H) (stage : Stage H) : Effect H :=
  ⟨{ c with stage := stage }, [], [], none⟩

def finish (c : Client H) (outcome : Except Throwable (Result H)) : Effect H :=
  c.proceed (.done outcome)

/-- The filter chain in front of the operations for authenticated requests. -/
def enter (L : Libraries H Salt) (now : ℤ) (cookies : Option (List Cookie)) (c : Client H) :
    Effect H :=
  match secured L now .authenticated cookies with
  | .ok a =>
    { c with presentedAt := some now, authentication := some a : Client H }.proceed .secured
  | .error e => { c with presentedAt := some now : Client H }.finish (.error e)

/-- The first transaction of `AccountService.deleteAccount`. -/
def lookUp (s : Store H) (c : Client H) : Effect H :=
  match c.userPrincipal >>= getAccountOfSecurityContext s with
  | .ok account => c.proceed (.delete account)
  | .error e => c.finish (.error e)

/-- The second transaction of `AccountService.deleteAccount`. -/
def remove (s : Store H) (account : AccountRow) (c : Client H) : Effect H :=
  { c.finish (.ok .noContent) with write := some (.remove account (s.rowsOf account.id)) }

/-- The next step of a call on the committed rows, if it has not ended. -/
def next (L : Libraries H Salt) (w : Ambient Salt) (s : Store H) (c : Client H) :
    Option (Effect H) :=
  match c.invocation, c.stage with
  | .create caller r, .start =>
    match r.begin L w s caller with
    | .ok account =>
      some { c.proceed (.save account) with drawnIds := [w.accountId, w.credentialId] }
    | .error e => some (c.finish (.error e))
  | .create caller r, .save account =>
    match r.commit L s caller account with
    | .ok rows => some { c.finish (.ok (caller.result account)) with write := some (.insert rows) }
    | .error e => some (c.finish (.error e))
  | .createToken username password, .start =>
    match validate w (tokenViolations username) >>= fun _ =>
        credentialAccount L s username password with
    | .ok account => some (c.proceed (.sign account))
    | .error e => some (c.finish (.error e))
  | .createToken .., .sign account =>
    some { c.finish (.ok (.token (signToken L w account))) with signed := [tokenBuilder w account] }
  | .request _ cookies, .start => some (c.enter L w.currentTimeMillis cookies)
  | .request .getAccounts _, .secured =>
    some (c.finish ((getAccounts s c.context).map .accountDTOs))
  | .request .getAccountInfo _, .secured =>
    some (c.finish ((getAccountInfo s c.context).map .accountDTO))
  -- a deletion is two transactions
  | .request .deleteAccount _, .secured | .deleteAccount _, .start => some (c.lookUp s)
  | .request .deleteAccount _, .delete account | .deleteAccount _, .delete account =>
    some (c.remove s account)
  -- the call has ended
  | _, _ => none

def isDone (c : Client H) : Bool :=
  match c.stage with
  | .done _ => true
  | _ => false

def returned (c : Client H) : Option (Result H) :=
  match c.stage with
  | .done (.ok result) => some result
  | _ => none

theorem returned_eq_some {c : Client H} {result : Result H} :
    c.returned = some result ↔ c.stage = .done (.ok result) := by
  rw [returned]
  split
  · next h => rw [h]; simp
  · next h => exact ⟨nofun, fun hstage => absurd hstage (h result)⟩

/-- Everything that a step of a call can do. -/
inductive Next (L : Libraries H Salt) (w : Ambient Salt) (s : Store H) (c : Client H) :
    Effect H → Prop
  /-- a creation has found its key free -/
  | prepared {caller : Caller} {r : Registration} (invocation : c.invocation = .create caller r)
      (stage : c.stage = .start) (valid : caller = .api → r.violations L = []) :
      Next L w s c
        { c.proceed (.save (r.account L w)) with drawnIds := [w.accountId, w.credentialId] }
  /-- a creation has inserted its rows -/
  | committed {caller : Caller} {r : Registration} {account : Account H} {rows : Store H}
      (invocation : c.invocation = .create caller r) (stage : c.stage = .save account)
      (commit : r.commit L s caller account = .ok rows) :
      Next L w s c
        { c.finish (.ok (caller.result account)) with write := some (.insert rows) }
  /-- a login has found the account of its credential -/
  | matched {username password : String} {account : UUID}
      (invocation : c.invocation = .createToken username password) (stage : c.stage = .start)
      (credential : credentialAccount L s username password = .ok account) :
      Next L w s c (c.proceed (.sign account))
  /-- a login has signed its token -/
  | signed {username password : String} {account : UUID}
      (invocation : c.invocation = .createToken username password)
      (stage : c.stage = .sign account) :
      Next L w s c
        { c.finish (.ok (.token (signToken L w account))) with signed := [tokenBuilder w account] }
  /-- the filter chain has admitted a request -/
  | admitted {operation : AccountOperation} {cookies : Option (List Cookie)} {a : Authentication}
      (invocation : c.invocation = .request operation cookies) (stage : c.stage = .start)
      (secured : secured L w.currentTimeMillis .authenticated cookies = .ok a) :
      Next L w s c
        (proceed { c with presentedAt := some w.currentTimeMillis, authentication := some a }
          .secured)
  /-- a deletion has read its account -/
  | found {account : AccountRow} (invocation : c.invocation.isDeletion = true)
      (stage : c.isDone = false)
      (lookup : (c.userPrincipal >>= getAccountOfSecurityContext s) = .ok account) :
      Next L w s c (c.proceed (.delete account))
  /-- a deletion has removed the rows of its account -/
  | removed {account : AccountRow} (invocation : c.invocation.isDeletion = true)
      (stage : c.stage = .delete account) : Next L w s c (c.remove s account)
  /-- a deletion has not found its account -/
  | notFound {e : Throwable} (invocation : c.invocation.isDeletion = true)
      (stage : c.isDone = false)
      (lookup : (c.userPrincipal >>= getAccountOfSecurityContext s) = .error e) :
      Next L w s c (c.finish (.error e))
  /-- a call has failed otherwise; a deletion does so at its start only -/
  | failed (presentedAt : Option ℤ) (e : Throwable) (stage : c.isDone = false)
      (deletion : c.invocation.isDeletion = true →
        c.stage = .start ∧ ∃ cookies, c.invocation = .request .deleteAccount cookies) :
      Next L w s c (finish { c with presentedAt := presentedAt } (.error e))
  /-- a call has returned what it has read -/
  | answered (result : Result H) (invocation : c.invocation.isReading = true)
      (stage : c.stage = .secured) : Next L w s c (c.finish (.ok result))

theorem next_enter {L : Libraries H Salt} {w : Ambient Salt} {s : Store H} {c : Client H}
    {operation : AccountOperation} {cookies : Option (List Cookie)}
    (invocation : c.invocation = .request operation cookies) (stage : c.stage = .start) :
    Next L w s c (c.enter L w.currentTimeMillis cookies) := by
  have hdone : c.isDone = false := by rw [isDone, stage]
  rw [enter]
  cases hs : secured L w.currentTimeMillis .authenticated cookies with
  | ok a => exact .admitted invocation stage hs
  | error e =>
    refine .failed _ e hdone fun hdeletion => ⟨stage, cookies, ?_⟩
    rw [invocation] at hdeletion ⊢
    cases operation with
    | deleteAccount => rfl
    | _ => cases hdeletion

theorem next_lookUp {L : Libraries H Salt} {w : Ambient Salt} {s : Store H} {c : Client H}
    (invocation : c.invocation.isDeletion = true) (stage : c.isDone = false) :
    Next L w s c (c.lookUp s) := by
  rw [lookUp]
  cases hl : c.userPrincipal >>= getAccountOfSecurityContext s with
  | ok account => exact .found invocation stage hl
  | error e => exact .notFound invocation stage hl

theorem next_answer {L : Libraries H Salt} {w : Ambient Salt} {s : Store H} {c : Client H}
    (invocation : c.invocation.isReading = true) (stage : c.stage = .secured)
    (outcome : Except Throwable (Result H)) : Next L w s c (c.finish outcome) := by
  cases outcome with
  | ok result => exact .answered result invocation stage
  | error e =>
    refine .failed _ e (by rw [isDone, stage]) fun hdeletion => ?_
    rw [Invocation.isDeletion_eq_false invocation] at hdeletion
    cases hdeletion

theorem next_cases {L : Libraries H Salt} {w : Ambient Salt} {s : Store H} {c : Client H}
    {e : Effect H} (h : c.next L w s = some e) : Next L w s c e := by
  obtain ⟨invocation, stage, presentedAt, authentication⟩ := c
  cases invocation with
  | create caller r =>
    cases stage with
    | start =>
      cases hb : r.begin L w s caller with
      | ok account =>
        obtain ⟨rfl, hv⟩ := Registration.begin_eq_ok hb
        simp only [next, hb, Option.some.injEq] at h
        exact h ▸ .prepared rfl rfl hv
      | error e =>
        simp only [next, hb, Option.some.injEq] at h
        exact h ▸ .failed _ e rfl nofun
    | save account =>
      cases hc : r.commit L s caller account with
      | ok rows =>
        simp only [next, hc, Option.some.injEq] at h
        exact h ▸ .committed rfl rfl hc
      | error e =>
        simp only [next, hc, Option.some.injEq] at h
        exact h ▸ .failed _ e rfl nofun
    | _ => cases h
  | createToken username password =>
    cases stage with
    | start =>
      cases hm : validate w (tokenViolations username) >>= fun _ =>
          credentialAccount L s username password with
      | ok account =>
        obtain ⟨_, _, hcred⟩ := Fallible.bind_eq_ok.mp hm
        simp only [next, hm, Option.some.injEq] at h
        exact h ▸ .matched rfl rfl hcred
      | error e =>
        simp only [next, hm, Option.some.injEq] at h
        exact h ▸ .failed _ e rfl nofun
    | sign account => exact Option.some.inj h ▸ .signed rfl rfl
    | _ => cases h
  | request operation cookies =>
    cases stage with
    | start => cases operation <;> exact Option.some.inj h ▸ next_enter rfl rfl
    | secured =>
      cases operation with
      | getAccounts => exact Option.some.inj h ▸ next_answer rfl rfl _
      | getAccountInfo => exact Option.some.inj h ▸ next_answer rfl rfl _
      | deleteAccount => exact Option.some.inj h ▸ next_lookUp rfl rfl
    | delete account =>
      cases operation with
      | deleteAccount => exact Option.some.inj h ▸ .removed rfl rfl
      | _ => cases h
    | _ => cases operation <;> cases h
  | deleteAccount userPrincipal =>
    cases stage with
    | start => exact Option.some.inj h ▸ next_lookUp rfl rfl
    | delete account => exact Option.some.inj h ▸ .removed rfl rfl
    | _ => cases h

/-! ## A call with no other step in between -/

/-- The tables and the call after at most `n` steps of the call alone. -/
def alone (L : Libraries H Salt) (w : Ambient Salt) : ℕ → Store H → Client H → Store H × Client H
  | 0, s, c => (s, c)
  | n + 1, s, c =>
    match c.next L w s with
    | some e => alone L w n ((e.write.map (Write.apply s)).getD s) e.client
    | none => (s, c)

/-- The tables and the call when the method behind it has returned or failed. -/
def ended (s : Store H) (c : Client H) :
    Except Throwable (Result H × Store H) → Store H × Client H
  | .ok (result, t) => (t, { c with stage := .done (.ok result) })
  | .error e => (s, { c with stage := .done (.error e) })

theorem alone_of_done (L : Libraries H Salt) (w : Ambient Salt) (n : ℕ) (s : Store H) (c : Client H)
    (outcome : Except Throwable (Result H)) :
    alone L w n s { c with stage := .done outcome } = (s, { c with stage := .done outcome }) := by
  cases n with
  | zero => rfl
  | succ n =>
    have hnone : ({ c with stage := .done outcome } : Client H).next L w s = none := by
      obtain ⟨invocation, _, _, _⟩ := c
      cases invocation with
      | request operation cookies => cases operation <;> rfl
      | _ => rfl
    rw [alone, hnone]

theorem alone_deleteAccount (L : Libraries H Salt) (w : Ambient Salt) (s : Store H)
    (userPrincipal : Option Principal) :
    alone L w 2 s (call (.deleteAccount userPrincipal)) =
      ended s (call (.deleteAccount userPrincipal))
        ((deleteAccount s userPrincipal).map fun t => (.noContent, t)) := by
  have hnext : (call (.deleteAccount userPrincipal)).next L w s =
      some ((call (.deleteAccount userPrincipal)).lookUp s) := rfl
  have hprincipal : (call (.deleteAccount userPrincipal) : Client H).userPrincipal =
      .ok userPrincipal := rfl
  rw [alone, hnext, lookUp, hprincipal, Fallible.ok_bind, deleteAccount]
  cases getAccountOfSecurityContext s userPrincipal with
  | ok account => rfl
  | error e => exact alone_of_done L w 1 s (call (.deleteAccount userPrincipal)) (.error e)

theorem alone_createToken (L : Libraries H Salt) (w : Ambient Salt) (s : Store H)
    {username password : String} (hvalid : tokenViolations username = []) :
    alone L w 2 s (call (.createToken username password)) =
      ended s (call (.createToken username password))
        ((createToken L w s username password).map fun token => (.token token, s)) := by
  have hbody : (validate w (tokenViolations username) >>= fun _ =>
      credentialAccount L s username password) = credentialAccount L s username password := by
    rw [validate_eq_ok.mpr hvalid, Fallible.ok_bind]
  rw [createToken, alone]
  simp only [next, call, hbody]
  cases credentialAccount L s username password with
  | ok account => rfl
  | error e => exact alone_of_done L w 1 s (call (.createToken username password)) (.error e)

theorem alone_create (L : Libraries H Salt) (w : Ambient Salt) (s : Store H) {caller : Caller}
    {r : Registration} (hvalid : caller.validate w (r.violations L) = .ok ())
    (htransaction : caller.opensTransaction r = false) :
    alone L w 2 s (call (.create caller r)) =
      ended s (call (.create caller r))
        ((r.create L w s).map fun x => (caller.result x.1, x.2)) := by
  have hbegin : r.begin L w s caller = r.prepare L w s := by
    rw [Registration.begin, hvalid]
    rfl
  rw [Registration.create_split, alone]
  simp only [next, call, hbegin]
  cases r.prepare L w s with
  | error e => exact alone_of_done L w 1 s (call (.create caller r)) (.error e)
  | ok account =>
    have hcommit : r.commit L s caller account =
        catchDataIntegrityViolation r.message (insertedRows L s account) := by
      rw [Registration.commit, htransaction]
      rfl
    simp only [alone, next, proceed, hcommit, Option.map_none, Option.getD_none, Fallible.ok_bind]
    cases catchDataIntegrityViolation r.message (insertedRows L s account) with
    | ok rows => rfl
    | error e => rfl

end Client

end AuthenticationServer
