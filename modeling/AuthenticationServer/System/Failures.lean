import AuthenticationServer.System.FailedLogin
import AuthenticationServer.System.Linearizability
import AuthenticationServer.System.RoleCheck

/-!
# How calls fail

All exceptions that a call of the service can end with, in any run, and the cause of each of them
in what the failing step has read.

## Main definitions

- `NotAdmitted` - why the filter chain refuses a request
- `LookupFailure` - why no account is found for a principal
- `Challenge` - why a login is challenged
- `Client.Failure` - how the next step of a call fails

## Main results

- `Client.Failure.next` - a step that has a cause to fail fails with its exception
- `Client.failure_of_next` - a step that fails has a cause
- `every_failure_explained` - both, for all calls of all runs
-/

namespace AuthenticationServer

open Java Machine State

variable {H Salt : Type}

/-! ## The filter chain -/

/-- Why the filter chain refuses a request for an operation on accounts. -/
inductive NotAdmitted (L : Libraries H Salt) (now : ℤ) (cookies : Option (List Cookie)) :
    Throwable → Prop
  /-- the request does not have one accepted token, so that it is anonymous -/
  | anonymous (token : ∀ jws, ¬ AcceptsOnlyCookie L now cookies jws)
      (caught : ∀ cookie p, jwtCookieList cookies = [cookie] →
        L.parseClaimsJws SECRET now cookie.value = .error p → p.escapes = false) :
      NotAdmitted L now cookies .accessDeniedException
  /-- the parser rejects the only token with an exception that leaves the filter -/
  | escaped {cookie : Cookie} {p : ParserException} (only : jwtCookieList cookies = [cookie])
      (rejected : L.parseClaimsJws SECRET now cookie.value = .error p)
      (escapes : p.escapes = true) : NotAdmitted L now cookies (.parserException p)
  /-- the accepted token has no subject -/
  | noSubject {jws : Claims} (token : AcceptsOnlyCookie L now cookies jws)
      (subject : jws.subject = none) : NotAdmitted L now cookies .illegalStateException

theorem secured_eq_error {L : Libraries H Salt} {now : ℤ} {cookies : Option (List Cookie)}
    {e : Throwable} :
    secured L now .authenticated cookies = .error e ↔ NotAdmitted L now cookies e := by
  rcases secured_cases L now cookies with
    ⟨jws, ha, hs⟩ | ⟨hnone, hcaught, hs⟩ | ⟨cookie, p, hcookie, hp, hescapes, hs⟩ <;> rw [hs]
  · constructor
    · intro h
      split at h
      · cases h
      · next hsubject =>
        obtain rfl := Except.error.inj h
        exact .noSubject ha (Option.not_isSome_iff_eq_none.mp hsubject)
    · rintro (⟨hnone, _⟩ | ⟨hcookie, hp, _⟩ | ⟨ha', hsubject⟩)
      · exact absurd ha (hnone jws)
      · rw [ha.parse hcookie] at hp
        cases hp
      · obtain rfl := ha.unique ha'
        rw [hsubject]
        rfl
  · constructor
    · intro h
      obtain rfl := Except.error.inj h
      exact .anonymous hnone hcaught
    · rintro (_ | ⟨hcookie, hp, hescapes⟩ | ⟨ha, _⟩)
      · rfl
      · rw [hcaught _ _ hcookie hp] at hescapes
        cases hescapes
      · exact absurd ha (hnone _)
  · constructor
    · intro h
      obtain rfl := Except.error.inj h
      exact .escaped hcookie hp hescapes
    · rintro (⟨_, hcaught⟩ | ⟨hcookie', hp', _⟩ | ⟨ha, _⟩)
      · rw [hcaught _ _ hcookie hp] at hescapes
        cases hescapes
      · obtain ⟨rfl, _⟩ := List.cons.inj (hcookie.symm.trans hcookie')
        obtain rfl := Except.error.inj (hp.symm.trans hp')
        rfl
      · rw [ha.parse hcookie] at hp
        cases hp

/-! ## Lookups -/

/-- Why no account is found for a principal in the tables `s`. -/
inductive LookupFailure (s : Store H) : Option Principal → Throwable → Prop
  | noPrincipal : LookupFailure s none
      (.notAuthorizedException THERE_WAS_NO_PRINCIPAL_SET_IN_THE_SECURITY_CONTEXT)
  | noName (name : Option String) (blank : name.all isBlank = true) :
      LookupFailure s (some ⟨name⟩)
        (.notAuthorizedException THE_PRINCIPAL_DID_NOT_HAVE_A_NON_BLANK_NAME)
  /-- the name is not the id of a stored account -/
  | noAccount (accountId : String) (blank : isBlank accountId = false)
      (unknown : ∀ a ∈ s.accounts, UUID.fromString accountId ≠ some a.id) :
      LookupFailure s (some ⟨some accountId⟩) (.notFoundException (noAccountMessage accountId))

theorem getAccountOfSecurityContext_eq_error {s : Store H} {userPrincipal : Option Principal}
    {e : Throwable} :
    getAccountOfSecurityContext s userPrincipal = .error e ↔ LookupFailure s userPrincipal e := by
  constructor
  · intro h
    rcases userPrincipal with _ | ⟨_ | accountId⟩
    · obtain rfl := Except.error.inj h
      exact .noPrincipal
    · obtain rfl := Except.error.inj h
      exact .noName none rfl
    · cases hblank : isBlank accountId with
      | true =>
        rw [getAccountOfSecurityContext, hblank] at h
        obtain rfl := Except.error.inj h
        exact .noName (some accountId) hblank
      | false =>
        cases hfind : findById s accountId with
        | some a =>
          rw [getAccountOfSecurityContext, hblank, hfind] at h
          cases h
        | none =>
          rw [getAccountOfSecurityContext_eq_notFound hblank hfind] at h
          obtain rfl := Except.error.inj h
          exact .noAccount accountId hblank (findById_eq_none.mp hfind)
  · intro h
    cases h with
    | noPrincipal => rfl
    | noName name blank =>
      cases name with
      | none => rfl
      | some accountId =>
        have hblank : isBlank accountId = true := blank
        rw [getAccountOfSecurityContext, hblank]
        rfl
    | noAccount accountId blank unknown =>
      exact getAccountOfSecurityContext_eq_notFound blank (findById_eq_none.mpr unknown)

/-! ## Logins -/

/-- Why a login is challenged on the tables `s`, and with which text. -/
inductive Challenge (L : Libraries H Salt) (s : Store H) : String → String → String → Prop
  | unknownDevice (vendorId : String) (unknown : ¬ s.HasKey (.vendorId vendorId)) :
      Challenge L s "deviceId" vendorId ("no account for deviceId '" ++ vendorId ++ "'")
  | unknownEmail {email : String} (password : String) (reserved : email ≠ "deviceId")
      (unknown : ¬ s.HasKey (.email email)) :
      Challenge L s email password ("no account for email '" ++ email ++ "'")
  /-- the password does not check against the stored hash -/
  | wrongPassword {c : CredentialPassword H Date} (password : String)
      (reserved : c.email ≠ "deviceId") (stored : c ∈ s.credentialPasswords)
      (wrong : verify L password c.password = .ok false) :
      Challenge L s c.email password ("wrong password for email '" ++ c.email ++ "'")

theorem Challenge.credentialAccount {L : Libraries H Salt} {s : Store H} (hs : s.WellFormed)
    {username password text : String} (h : Challenge L s username password text) :
    credentialAccount L s username password = .error (.challengeException text) := by
  rw [AuthenticationServer.credentialAccount]
  cases h with
  | unknownDevice _ unknown =>
    have hnone : findByVendorId s password = .ok none := by
      rw [findByVendorId, not_not.mp (mt Store.rowsWith_vendorId_ne_nil.mp unknown)]
      rfl
    rw [if_pos rfl, hnone]
    rfl
  | unknownEmail _ reserved unknown =>
    have hnone : findByEmail s username = .ok none :=
      findByEmail_of_notMem fun c hc he => unknown ⟨c, hc, he⟩
    rw [if_neg reserved, hnone]
    rfl
  | wrongPassword _ reserved stored wrong =>
    rw [if_neg reserved, findByEmail_of_mem hs stored, Fallible.ok_bind]
    simp only [wrong]
    rfl

/-- On a reachable store, a login fails with a challenge that has its cause in the tables. -/
theorem Invariant.challenge {L : Libraries H Salt} (hcheck : L.ChecksAnyPassword) {s : State H}
    (h : Invariant L s) {username password : String} {e : Throwable}
    (he : credentialAccount L s.store username password = .error e) :
    ∃ text, Challenge L s.store username password text ∧ e = .challengeException text := by
  suffices hchallenge : ∃ text, Challenge L s.store username password text by
    obtain ⟨text, htext⟩ := hchallenge
    exact ⟨text, htext, Except.error.inj (he.symm.trans (htext.credentialAccount h.wellFormed))⟩
  by_cases hdevice : username = "deviceId"
  · subst hdevice
    refine ⟨_, .unknownDevice password fun hkey => ?_⟩
    obtain ⟨c, hc, rfl⟩ := hkey
    have hlogin : LogsIn L s.store "deviceId" c.vendorId c.toCredential :=
      .device (findByVendorId_of_mem h.wellFormed hc)
    rw [hlogin.credentialAccount] at he
    cases he
  · by_cases hkey : s.store.HasKey (.email username)
    · obtain ⟨c, hc, rfl⟩ := hkey
      obtain ⟨salt, p, hp⟩ := h.password_hashed hc
      obtain ⟨b, hb⟩ := hcheck salt password p 16384 8 1
      have hverify : verify L password c.password = .ok b := by
        rw [hp]
        exact hb
      cases b with
      | false => exact ⟨_, .wrongPassword password hdevice hc hverify⟩
      | true =>
        have hlogin : LogsIn L s.store c.email password c.toCredential :=
          .email hdevice (findByEmail_of_mem h.wellFormed hc) hverify
        rw [hlogin.credentialAccount] at he
        cases he
    · exact ⟨_, .unknownEmail password hdevice hkey⟩

/-- A login fails on a violated constraint or with a challenge. -/
theorem Invariant.login_eq_error {L : Libraries H Salt} (hcheck : L.ChecksAnyPassword)
    {s : State H} (h : Invariant L s) {w : Ambient Salt} {username password : String}
    {e : Throwable} :
    (validate w (tokenViolations username) >>= fun _ =>
        credentialAccount L s.store username password) = .error e ↔
      tokenViolations username ≠ [] ∧
          e = .constraintViolationException (w.violationOrder (tokenViolations username)) ∨
        tokenViolations username = [] ∧
          ∃ text, Challenge L s.store username password text ∧ e = .challengeException text := by
  rw [Fallible.bind_eq_error, validate_eq_error]
  refine or_congr_right ⟨?_, ?_⟩
  · rintro ⟨_, hvalid, he⟩
    exact ⟨validate_eq_ok.mp hvalid, h.challenge hcheck he⟩
  · rintro ⟨hvalid, text, htext, rfl⟩
    exact ⟨(), validate_eq_ok.mpr hvalid, htext.credentialAccount h.wellFormed⟩

/-! ## Registrations -/

/-- A creation fails before its insert on a violated constraint or on a taken key. -/
theorem Registration.begin_eq_error {L : Libraries H Salt} {w : Ambient Salt} {s : Store H}
    (hs : s.WellFormed) {caller : Caller} {r : Registration} {e : Throwable} :
    r.begin L w s caller = .error e ↔
      (caller = .api ∧ r.violations L ≠ []) ∧
          e = .constraintViolationException (w.violationOrder (r.violations L)) ∨
        (caller = .api → r.violations L = []) ∧ s.HasKey r.key ∧
          e = .conflictException r.message none := by
  rw [begin, Fallible.bind_eq_error, Caller.validate_eq_error]
  refine or_congr_right ⟨?_, ?_⟩
  · rintro ⟨_, hvalid, he⟩
    rw [prepare_eq L w hs] at he
    refine ⟨Caller.validate_eq_ok.mp hvalid, ?_⟩
    by_cases hkey : s.HasKey r.key
    · rw [if_pos hkey] at he
      exact ⟨hkey, (Except.error.inj he).symm⟩
    · rw [if_neg hkey] at he
      cases he
  · rintro ⟨hvalid, hkey, rfl⟩
    exact ⟨(), Caller.validate_eq_ok.mpr hvalid, by rw [prepare_eq L w hs, if_pos hkey]⟩

/-- The insert of a new account is refused for a text that does not fit or a taken key. -/
theorem Registration.commit_eq_error {L : Libraries H Salt} {w : Ambient Salt} {s : Store H}
    {caller : Caller} {r : Registration} {e : Throwable} :
    r.commit L s caller (r.account L w) = .error e ↔
      (¬ r.Storable ∨ ¬ r.HashFits L w ∨ s.HasKey r.key) ∧ e = r.refusal caller := by
  rw [commit_account]
  by_cases h : (r.Storable ∧ r.HashFits L w) ∧ ¬ s.HasKey r.key
  · rw [if_pos h]
    constructor
    · rintro ⟨⟩
    · rintro ⟨hcause, _⟩
      tauto
  · have hcause : ¬ r.Storable ∨ ¬ r.HashFits L w ∨ s.HasKey r.key := by tauto
    rw [if_neg h]
    exact ⟨fun he => ⟨hcause, (Except.error.inj he).symm⟩, fun he => he.2 ▸ rfl⟩

/-! ## Calls -/

namespace Client

/-- The next step of the call looks up the account of its principal. -/
inductive LooksUp (c : Client H) : Prop
  | getAccountInfo {cookies : Option (List Cookie)}
      (invocation : c.invocation = .request .getAccountInfo cookies) (stage : c.stage = .secured)
  | deleteRequest {cookies : Option (List Cookie)}
      (invocation : c.invocation = .request .deleteAccount cookies) (stage : c.stage = .secured)
  | deleteAccount {userPrincipal : Option Principal}
      (invocation : c.invocation = .deleteAccount userPrincipal) (stage : c.stage = .start)

theorem LooksUp.onAccount {c : Client H} (h : c.LooksUp) : c.OnAccount := by
  cases h with
  | getAccountInfo invocation => exact Or.inr ⟨_, invocation⟩
  | deleteRequest invocation => exact Or.inl (by rw [invocation]; rfl)
  | deleteAccount invocation => exact Or.inl (by rw [invocation]; rfl)

/-- How the next step of a call fails, on the tables `s`. -/
inductive Failure (L : Libraries H Salt) (w : Ambient Salt) (s : Store H) (c : Client H) :
    Throwable → Prop
  /-- the constraints on the parameters of a resource method are violated -/
  | invalidRegistration {r : Registration} (invocation : c.invocation = .create .api r)
      (stage : c.stage = .start) (violations : r.violations L ≠ []) :
      Failure L w s c (.constraintViolationException (w.violationOrder (r.violations L)))
  /-- the key is taken at the lookup -/
  | keyTaken {caller : Caller} {r : Registration} (invocation : c.invocation = .create caller r)
      (stage : c.stage = .start) (valid : caller = .api → r.violations L = [])
      (taken : s.HasKey r.key) : Failure L w s c (.conflictException r.message none)
  /-- a text does not fit into its column, or the key is taken at the insert -/
  | insertRefused {caller : Caller} {r : Registration} {w₁ : Ambient Salt}
      (invocation : c.invocation = .create caller r) (stage : c.stage = .save (r.account L w₁))
      (valid : caller = .api → r.violations L = [])
      (refused : ¬ r.Storable ∨ ¬ r.HashFits L w₁ ∨ s.HasKey r.key) :
      Failure L w s c (r.refusal caller)
  | invalidLogin {username password : String}
      (invocation : c.invocation = .createToken username password) (stage : c.stage = .start)
      (violations : tokenViolations username ≠ []) :
      Failure L w s c (.constraintViolationException (w.violationOrder (tokenViolations username)))
  /-- the user name is unknown, or its password is another one -/
  | challenged {username password text : String}
      (invocation : c.invocation = .createToken username password) (stage : c.stage = .start)
      (valid : tokenViolations username = []) (challenge : Challenge L s username password text) :
      Failure L w s c (.challengeException text)
  | notAdmitted {operation : AccountOperation} {cookies : Option (List Cookie)} {e : Throwable}
      (invocation : c.invocation = .request operation cookies) (stage : c.stage = .start)
      (chain : NotAdmitted L w.currentTimeMillis cookies e) : Failure L w s c e
  | notFound {userPrincipal : Option Principal} {e : Throwable} (looksUp : c.LooksUp)
      (principal : c.userPrincipal = .ok userPrincipal) (lookup : LookupFailure s userPrincipal e) :
      Failure L w s c e

/-- A lookup that finds no account ends the call. -/
theorem LooksUp.next {L : Libraries H Salt} {w : Ambient Salt} {s : Store H} {c : Client H}
    (h : c.LooksUp) {e : Throwable}
    (hlookup : (c.userPrincipal >>= getAccountOfSecurityContext s) = .error e) :
    c.next L w s = some (c.finish (.error e)) := by
  cases h with
  | getAccountInfo invocation stage =>
    simp only [Client.next, invocation, stage, getAccountInfo_eq invocation, hlookup]
    rfl
  | deleteRequest invocation stage =>
    simp only [Client.next, invocation, stage, lookUp, hlookup]
  | deleteAccount invocation stage =>
    simp only [Client.next, invocation, stage, lookUp, hlookup]

/-- A step that has a cause to fail ends the call with the exception, and does nothing else. -/
theorem Failure.next {L : Libraries H Salt} (hcheck : L.ChecksAnyPassword) {s : State H}
    (hinv : Invariant L s) {w : Ambient Salt} {c : Client H} {e : Throwable}
    (h : c.Failure L w s.store e) :
    ∃ presentedAt, c.next L w s.store =
      some (finish { c with presentedAt := presentedAt } (.error e)) := by
  have hended : c.next L w s.store = some (c.finish (.error e)) → ∃ presentedAt,
      c.next L w s.store = some (finish { c with presentedAt := presentedAt } (.error e)) :=
    fun h => ⟨_, h⟩
  cases h with
  | @invalidRegistration r invocation stage violations =>
    have hbegin : r.begin L w s.store .api = _ :=
      (Registration.begin_eq_error hinv.wellFormed).mpr (Or.inl ⟨⟨rfl, violations⟩, rfl⟩)
    refine hended ?_
    simp only [Client.next, invocation, stage, hbegin]
  | @keyTaken caller r invocation stage valid taken =>
    have hbegin : r.begin L w s.store caller = _ :=
      (Registration.begin_eq_error hinv.wellFormed).mpr (Or.inr ⟨valid, taken, rfl⟩)
    refine hended ?_
    simp only [Client.next, invocation, stage, hbegin]
  | @insertRefused caller r w₁ invocation stage valid refused =>
    have hcommit : r.commit L s.store caller (r.account L w₁) = _ :=
      Registration.commit_eq_error.mpr ⟨refused, rfl⟩
    refine hended ?_
    simp only [Client.next, invocation, stage, hcommit]
  | @invalidLogin username password invocation stage violations =>
    have hlogin : (validate w (tokenViolations username) >>= fun _ =>
        credentialAccount L s.store username password) = _ :=
      (hinv.login_eq_error hcheck).mpr (Or.inl ⟨violations, rfl⟩)
    refine hended ?_
    simp only [Client.next, invocation, stage, hlogin]
  | challenged invocation stage valid challenge =>
    have hlogin := (hinv.login_eq_error hcheck (w := w)).mpr (Or.inr ⟨valid, _, challenge, rfl⟩)
    refine hended ?_
    simp only [Client.next, invocation, stage, hlogin]
  | @notAdmitted operation cookies _ invocation stage chain =>
    have hnext : c.next L w s.store = some (c.enter L w.currentTimeMillis cookies) := by
      cases operation <;> simp only [Client.next, invocation, stage]
    rw [hnext, enter, secured_eq_error.mpr chain]
    exact ⟨_, rfl⟩
  | notFound looksUp principal lookup =>
    refine hended (looksUp.next ?_)
    rw [principal, Fallible.ok_bind]
    exact getAccountOfSecurityContext_eq_error.mpr lookup

/-- An admitted request has a principal. -/
def HasPrincipal (c : Client H) : Prop :=
  c.stage = .secured → ∃ userPrincipal, c.userPrincipal = .ok userPrincipal

theorem hasPrincipal_next {L : Libraries H Salt} {w : Ambient Salt} {s : Store H} {c : Client H}
    {e : Effect H} (h : c.next L w s = some e) : e.client.HasPrincipal := by
  intro hstage
  cases next_cases h with
  | @admitted operation cookies a invocation _ hsecured =>
    obtain ⟨jws, _, hsubject, rfl⟩ := (secured_iff L w.currentTimeMillis cookies a).mp hsecured
    obtain ⟨subject, hsubject⟩ := Option.isSome_iff_exists.mp hsubject
    refine ⟨some ⟨some subject⟩, ?_⟩
    simp only [userPrincipal, proceed, invocation, context, Option.getD_some]
    exact Authentication.userPrincipal_eq_ok.mpr ⟨subject, hsubject, rfl⟩
  | _ => cases hstage

theorem hasPrincipal_of_reachable {L : Libraries H Salt} {s : State H}
    (h : Reachable (step L) init s) {i : ℕ} {c : Client H} (hc : s.clients[i]? = some c) :
    c.HasPrincipal :=
  client_of_reachable (by rintro _ ⟨⟩) (fun _ _ _ _ _ _ he => hasPrincipal_next he) h hc

/-- A lookup that fails has found no account for the principal. -/
theorem LooksUp.failure {L : Libraries H Salt} {w : Ambient Salt} {s : Store H} {c : Client H}
    (h : c.LooksUp) {userPrincipal : Option Principal}
    (principal : c.userPrincipal = .ok userPrincipal) {effect : Effect H} {e : Throwable}
    (he : c.next L w s = some effect) (hfailed : effect.client.stage = .done (.error e)) :
    c.Failure L w s e := by
  refine .notFound h principal (getAccountOfSecurityContext_eq_error.mp ?_)
  cases hlookup : getAccountOfSecurityContext s userPrincipal with
  | error e' =>
    have hbind : (c.userPrincipal >>= getAccountOfSecurityContext s) = .error e' := by
      rw [principal, Fallible.ok_bind, hlookup]
    rw [h.next hbind] at he
    obtain rfl := Option.some.inj he
    exact congrArg Except.error (Except.error.inj (Stage.done.inj hfailed))
  | ok account =>
    -- the step would have kept the account or returned it
    have hbind : (c.userPrincipal >>= getAccountOfSecurityContext s) = .ok account := by
      rw [principal, Fallible.ok_bind, hlookup]
    cases h with
    | getAccountInfo invocation stage =>
      simp only [Client.next, invocation, stage, getAccountInfo_eq invocation, hbind,
        Option.some.injEq] at he
      subst he
      cases hfailed
    | deleteRequest invocation stage =>
      simp only [Client.next, invocation, stage, lookUp, hbind, Option.some.injEq] at he
      subst he
      cases hfailed
    | deleteAccount invocation stage =>
      simp only [Client.next, invocation, stage, lookUp, hbind, Option.some.injEq] at he
      subst he
      cases hfailed

theorem failure_create {L : Libraries H Salt} {s : Store H} (hs : s.WellFormed) {c : Client H}
    (hvalid : c.Valid L) {w : Ambient Salt} {effect : Effect H} {e : Throwable} {caller : Caller}
    {r : Registration} (invocation : c.invocation = .create caller r)
    (he : c.next L w s = some effect) (hfailed : effect.client.stage = .done (.error e)) :
    c.Failure L w s e := by
  cases stage : c.stage with
  | start =>
    cases hbegin : r.begin L w s caller with
    | ok account =>
      simp only [Client.next, invocation, stage, hbegin, Option.some.injEq] at he
      subst he
      cases hfailed
    | error e' =>
      simp only [Client.next, invocation, stage, hbegin, Option.some.injEq] at he
      subst he
      obtain rfl := Except.error.inj (Stage.done.inj hfailed)
      rcases (Registration.begin_eq_error hs).mp hbegin with
        ⟨⟨rfl, violations⟩, rfl⟩ | ⟨valid, taken, rfl⟩
      · exact .invalidRegistration invocation stage violations
      · exact .keyTaken invocation stage valid taken
  | save account =>
    obtain ⟨caller', r', w₁, invocation', rfl, valid⟩ := hvalid.pending account stage
    obtain ⟨rfl, rfl⟩ := Invocation.create.inj (invocation.symm.trans invocation')
    cases hcommit : r.commit L s caller (r.account L w₁) with
    | ok rows =>
      simp only [Client.next, invocation, stage, hcommit, Option.some.injEq] at he
      subst he
      cases hfailed
    | error e' =>
      simp only [Client.next, invocation, stage, hcommit, Option.some.injEq] at he
      subst he
      obtain rfl := Except.error.inj (Stage.done.inj hfailed)
      obtain ⟨refused, rfl⟩ := Registration.commit_eq_error.mp hcommit
      exact .insertRefused invocation stage valid refused
  | _ => simp [Client.next, invocation, stage] at he

theorem failure_createToken {L : Libraries H Salt} (hcheck : L.ChecksAnyPassword) {s : State H}
    (hinv : Invariant L s) {c : Client H} {w : Ambient Salt} {effect : Effect H} {e : Throwable}
    {username password : String} (invocation : c.invocation = .createToken username password)
    (he : c.next L w s.store = some effect) (hfailed : effect.client.stage = .done (.error e)) :
    c.Failure L w s.store e := by
  cases stage : c.stage with
  | start =>
    have hlogin := next_createToken_error he invocation hfailed
    rcases (hinv.login_eq_error hcheck).mp hlogin with
      ⟨violations, rfl⟩ | ⟨valid, text, challenge, rfl⟩
    · exact .invalidLogin invocation stage violations
    · exact .challenged invocation stage valid challenge
  | sign account =>
    simp only [Client.next, invocation, stage, Option.some.injEq] at he
    subst he
    cases hfailed
  | _ => simp [Client.next, invocation, stage] at he

theorem failure_request {L : Libraries H Salt} {s : Store H} {c : Client H}
    (hprincipal : c.HasPrincipal) {w : Ambient Salt} {effect : Effect H} {e : Throwable}
    {operation : AccountOperation} {cookies : Option (List Cookie)}
    (invocation : c.invocation = .request operation cookies) (he : c.next L w s = some effect)
    (hfailed : effect.client.stage = .done (.error e)) : c.Failure L w s e := by
  cases stage : c.stage with
  | start =>
    have henter : effect = c.enter L w.currentTimeMillis cookies := by
      cases operation <;> simpa [Client.next, invocation, stage] using he.symm
    subst henter
    rw [enter] at hfailed
    cases hsecured : AuthenticationServer.secured L w.currentTimeMillis .authenticated cookies with
    | ok a =>
      rw [hsecured] at hfailed
      cases hfailed
    | error e' =>
      rw [hsecured] at hfailed
      obtain rfl := Except.error.inj (Stage.done.inj hfailed)
      exact .notAdmitted invocation stage (secured_eq_error.mp hsecured)
  | secured =>
    obtain ⟨userPrincipal, principal⟩ := hprincipal stage
    cases operation with
    | getAccounts =>
      simp only [Client.next, invocation, stage, getAccounts_eq, Option.some.injEq] at he
      subst he
      cases hfailed
    | getAccountInfo =>
      exact (LooksUp.getAccountInfo invocation stage).failure principal he hfailed
    | deleteAccount =>
      exact (LooksUp.deleteRequest invocation stage).failure principal he hfailed
  | delete account =>
    cases operation with
    | deleteAccount =>
      simp only [Client.next, invocation, stage, Option.some.injEq] at he
      subst he
      cases hfailed
    | _ => simp [Client.next, invocation, stage] at he
  | _ => cases operation <;> simp [Client.next, invocation, stage] at he

theorem failure_deleteAccount {L : Libraries H Salt} {s : Store H} {c : Client H}
    {w : Ambient Salt} {effect : Effect H} {e : Throwable} {userPrincipal : Option Principal}
    (invocation : c.invocation = .deleteAccount userPrincipal) (he : c.next L w s = some effect)
    (hfailed : effect.client.stage = .done (.error e)) : c.Failure L w s e := by
  cases stage : c.stage with
  | start =>
    have principal : c.userPrincipal = .ok userPrincipal := by
      rw [Client.userPrincipal, invocation]
    exact (LooksUp.deleteAccount invocation stage).failure principal he hfailed
  | delete account =>
    simp only [Client.next, invocation, stage, Option.some.injEq] at he
    subst he
    cases hfailed
  | _ => simp [Client.next, invocation, stage] at he

/-- A step that fails in a reachable state has a cause there. -/
theorem failure_of_next {L : Libraries H Salt} (hcheck : L.ChecksAnyPassword) {s : State H}
    (h : Reachable (step L) init s) {i : ℕ} {c : Client H} (hc : s.clients[i]? = some c)
    {w : Ambient Salt} {effect : Effect H} {e : Throwable}
    (he : c.next L w s.store = some effect) (hfailed : effect.client.stage = .done (.error e)) :
    c.Failure L w s.store e := by
  have hinv := invariant_of_reachable h
  cases invocation : c.invocation with
  | create caller r =>
    exact failure_create hinv.wellFormed (hinv.valid i c hc) invocation he hfailed
  | createToken username password => exact failure_createToken hcheck hinv invocation he hfailed
  | request operation cookies =>
    exact failure_request (hasPrincipal_of_reachable h hc) invocation he hfailed
  | deleteAccount userPrincipal => exact failure_deleteAccount invocation he hfailed

end Client

/-- In every run, a call that has failed has failed at one of its own steps, and this step had a
cause in what it has read: violated constraints, a key that was taken, a text that does not fit,
an unknown user name or a wrong password, cookies that the filter chain does not admit, or a
principal without a stored account. Conversely, a call whose next step has such a cause fails with
its exception, whatever the other calls do. So no call fails on the tables themselves: no lookup
finds two rows, and no stored value cannot be read. -/
theorem every_failure_explained {L : Libraries H Salt} (hcheck : L.ChecksAnyPassword) :
    (∀ (as : List (Action Salt)) (s : State H) (i : ℕ) (c : Client H) (e : Throwable),
      exec (step L) init as = some s → s.clients[i]? = some c → c.stage = .done (.error e) →
        ∃ w t t' b, Advances L as i w t t' ∧ t.clients[i]? = some b ∧
          b.invocation = c.invocation ∧ t'.clients[i]? = some c ∧ b.Failure L w t.store e) ∧
    ∀ (s : State H) (i : ℕ) (c : Client H) (w : Ambient Salt) (e : Throwable),
      Reachable (step L) init s → s.clients[i]? = some c → c.Failure L w s.store e →
        ∃ s' d, step L s (.advance i w) = some s' ∧ s'.clients[i]? = some d ∧
          d.stage = .done (.error e) ∧ s'.store = s.store := by
  constructor
  · intro as s i c e h hc hfailed
    obtain ⟨w, t, b, effect, hadvances, hb, he, rfl⟩ :=
      exists_advances h hc (by rw [hfailed]; rintro ⟨⟩)
    exact ⟨w, t, _, b, hadvances, hb, (Client.next_cases he).frame.1.symm, clients_apply_self hb,
      Client.failure_of_next hcheck hadvances.reachable hb he hfailed⟩
  · intro s i c w e h hc hfailure
    obtain ⟨presentedAt, he⟩ := hfailure.next hcheck (invariant_of_reachable h)
    -- a step that fails draws no ids
    have hfresh : s.Fresh (Client.finish { c with presentedAt := presentedAt } (.error e)) :=
      ⟨List.nodup_nil, by rintro _ ⟨⟩⟩
    refine ⟨s.apply i (Client.finish { c with presentedAt := presentedAt } (.error e)), _, ?_,
      clients_apply_self hc, rfl, store_apply_none rfl⟩
    simp only [step, hc, he, if_pos hfresh]

/-- A registration that was overtaken fails at its insert, since the key is taken there. -/
theorem every_failure_explained_overtakenRun :
    ∃ s, exec (step Symbolic.libraries) init overtakenRun = some s ∧
      ∃ (c : Client (ℕ × String)) (e : Throwable) (w : Ambient ℕ) (t t' : State (ℕ × String))
          (b : Client (ℕ × String)), s.clients[0]? = some c ∧ c.stage = .done (.error e) ∧
        Advances Symbolic.libraries overtakenRun 0 w t t' ∧
        b.Failure Symbolic.libraries w t.store e := by
  have hrun : (exec (step Symbolic.libraries) init overtakenRun).any (fun s =>
      s.clients[0]?.any fun c => c.isDone ∧ c.returned = none) = true := by
    decide +kernel
  obtain ⟨s, hs, h⟩ := (Option.any_eq_true _ _).mp hrun
  obtain ⟨c, hc, hended⟩ := (Option.any_eq_true _ _).mp h
  obtain ⟨hdone, hnone⟩ := of_decide_eq_true hended
  cases hstage : c.stage with
  | done outcome =>
    cases outcome with
    | error e =>
      obtain ⟨w, t, t', b, hadvances, _, _, _, hfailure⟩ :=
        (every_failure_explained Symbolic.checksAnyPassword).1 _ s 0 c e hs hc hstage
      exact ⟨s, hs, c, e, w, t, t', b, hc, hstage, hadvances, hfailure⟩
    | ok result =>
      rw [Client.returned_eq_some.mpr hstage] at hnone
      cases hnone
  | _ =>
    rw [Client.isDone, hstage] at hdone
    cases hdone

end AuthenticationServer
