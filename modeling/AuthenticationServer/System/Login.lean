import AuthenticationServer.Services.SymbolicLibraries
import AuthenticationServer.System.Invariant
import AuthenticationServer.System.TokenLifetime

/-!
# Every registered user can log in

Creation and login are separate code paths. They agree on how a credential is keyed, hashed
and found, for both kinds of credentials and after any history.

## Main definitions

- `LeadsTo` - a token is accepted, and the requests that carry it find their account

## Main results

- `Invariant.mem_directory` - a stored account is the one that its request has registered
- `registered_user_can_log_in` - and its token leads back to the account
-/

namespace AuthenticationServer

open Java Machine State

variable {H Salt : Type}

/-- The user name and the password to log in with. -/
def Registration.login : Registration → String × String
  | .email e p => (e, p)
  | .iosDevice v _ => ("deviceId", v)

theorem constraint_eq_nil {message : String} {satisfied : Bool} :
    constraint message satisfied = [] ↔ satisfied = true := by
  cases satisfied <;> simp [constraint]

/-- No valid email address is the reserved user name, so every valid request can log in. -/
theorem Registration.authenticates_login {L : Libraries H Salt} (hat : L.EmailsHaveAt)
    {r : Registration} (h : r.violations L = []) : r.Authenticates r.login.1 r.login.2 := by
  cases r with
  | iosDevice v d => exact ⟨rfl, rfl⟩
  | email e p =>
    refine ⟨?_, rfl, rfl⟩
    rintro rfl
    simp only [violations, List.append_eq_nil_iff, constraint_eq_nil] at h
    have hmem := hat "deviceId" (by decide) h.1.1.1.2
    revert hmem
    decide

theorem Registration.tokenViolations_login {L : Libraries H Salt} {r : Registration}
    (h : r.violations L = []) : tokenViolations r.login.1 = [] := by
  cases r with
  | iosDevice v d =>
    have hname : tokenViolations "deviceId" = [] := by decide
    exact hname
  | email e p =>
    simp only [violations, List.append_eq_nil_iff, notBlank, constraint_eq_nil] at h
    simp only [login, tokenViolations, notBlank, constraint_eq_nil]
    exact h.1.1.1.1

/-- A stored account that a resource method has created is in the directory, with the
registration of that request. -/
theorem Invariant.mem_directory {L : Libraries H Salt} {s : State H} (h : Invariant L s)
    {a : AccountRow} (ha : a ∈ s.store.accounts) {i : ℕ} {c : Client H} {r : Registration}
    {dto : AccountDTO} (hc : s.clients[i]? = some c) (hinv : c.invocation = .create .api r)
    (hstage : c.stage = .done (.ok (.accountDTO dto))) (hid : dto.id = a.id) :
    ∃ (d : Directory Salt), ∃ x ∈ d, d.Valid ∧ s.store = d.store L ∧ x.id = a.id ∧
      x.registration = r ∧ r.violations L = [] := by
  obtain ⟨d, hd, hs, hcreated⟩ := h.directory
  rw [hs] at ha
  obtain ⟨x, hx, rfl⟩ := Directory.mem_accounts.mp ha
  obtain ⟨j, hj⟩ := hcreated x hx
  obtain ⟨b, hb, _, hbuilt⟩ := hj.built
  -- the call that returned the id is the one that registered the account
  have hbuilt' : c.Built x.id :=
    ⟨⟨dto.id, x.ambient.requestTime, []⟩, hid, Or.inr ⟨.api, r, hinv, hstage⟩⟩
  obtain rfl := h.unique i j c b x.id hc hb hbuilt' hbuilt
  obtain ⟨b', caller, hb', hinv', _, hv⟩ := hj
  obtain rfl : c = b' := Option.some.inj (hc.symm.trans hb')
  obtain ⟨rfl, hr⟩ := Invocation.create.inj (hinv.symm.trans hinv')
  exact ⟨d, x, hx, hd, hs, rfl, hr.symm, hr ▸ hv rfl⟩

/-- Every stored password is one that the service has hashed. -/
theorem Invariant.password_hashed {L : Libraries H Salt} {s : State H} (h : Invariant L s)
    {c : CredentialPassword H Date} (hc : c ∈ s.store.credentialPasswords) :
    ∃ salt password, c.password = hash L salt password := by
  obtain ⟨d, _, hs, _⟩ := h.directory
  rw [hs] at hc
  obtain ⟨⟨r, w⟩, _, hrow⟩ := Directory.mem_credentialPasswords.mp hc
  cases r with
  | email e p =>
    obtain rfl := Option.some.inj hrow
    exact ⟨w.salt, p, rfl⟩
  | iosDevice v n => cases hrow

/-- A token of an account is accepted until it expires, with the name of the account. -/
theorem getTokenIfValid_signToken {L : Libraries H Salt} (hparse : L.ParsesCompacted)
    (w : Ambient Salt) (id : UUID) {now : ℤ}
    (hnow : (tokenBuilder w id).claims.expired now = false) :
    getTokenIfValid L now (signToken L w id) = .ok (some (tokenBuilder w id).claims) := by
  rw [getTokenIfValid_signToken_eq hparse w id now, hnow]
  rfl

/-- At the time `now` the token is accepted, with the name of the account. A request that then
carries it as its only token cookie is admitted, and whenever it looks the account up while this
is still stored, it returns `dto`. -/
def LeadsTo (L : Libraries H Salt) (s : State H) (now : ℤ) (token : String) (a : AccountRow)
    (dto : AccountDTO) : Prop :=
  (∃ jws, getTokenIfValid L now token = .ok (some jws) ∧ jws.subject = some a.name) ∧
    ∀ cookies cookie, jwtCookieList cookies = [cookie] → cookie.value = token →
      ∃ authentication, secured L now .authenticated cookies = .ok authentication ∧
        ∀ post t, exec (step L) s post = some t → a ∈ t.store.accounts →
          getAccountInfo t.store authentication = .ok dto

/-- A token of an account leads to it until the token expires. -/
theorem leadsTo_signToken {L : Libraries H Salt} (hparse : L.ParsesCompacted) {s : State H}
    (hreach : Reachable (step L) init s) (a : AccountRow) (w : Ambient Salt) {now : ℤ}
    (hnow : (tokenBuilder w a.id).claims.expired now = false) :
    LeadsTo L s now (signToken L w a.id) a ⟨a.id⟩ := by
  have htoken := getTokenIfValid_signToken hparse w a.id hnow
  refine ⟨⟨_, htoken, rfl⟩, fun cookies cookie hcookies hcookie => ?_⟩
  rw [← hcookie] at htoken
  refine ⟨_, (secured_iff L now cookies _).mpr
    ⟨_, ⟨cookie, hcookies, getTokenIfValid_ok.mp htoken⟩, rfl, rfl⟩, fun post t ht hat => ?_⟩
  have hfound := getAccountOfSecurityContext_name
    (wellFormed_of_reachable (hreach.trans ⟨post, ht⟩)) hat
  exact getAccountInfo_of_found (Authentication.userPrincipal_claims _) hfound

/-- Take any reachable state. For any stored account that a resource method has created, the
login with the parameters of that request raises no exception, whatever the clock. Its token is
accepted, with the name of the account, as long as it has not expired: if the clock has computed
its expiration as a `long`, up to the last time that it is accepted at. A request that carries it
as its only token cookie is then admitted, and at any later time at which the account is still
stored it returns the id that the creating request returned. Passwords are only verified against
what the service has hashed. -/
theorem registered_user_can_log_in {L : Libraries H Salt} (hown : L.ChecksOwnHash)
    (hat : L.EmailsHaveAt) (hparse : L.ParsesCompacted) {s : State H}
    (hreach : Reachable (step L) init s) :
    (∀ a ∈ s.store.accounts, ∀ (i : ℕ) (c : Client H) (r : Registration) (dto : AccountDTO),
      s.clients[i]? = some c → c.invocation = .create .api r →
        c.stage = .done (.ok (.accountDTO dto)) → dto.id = a.id →
      tokenViolations r.login.1 = [] ∧ ∀ w, ∃ token,
        createToken L w s.store r.login.1 r.login.2 = .ok token ∧ token = signToken L w a.id ∧
        (0 ≤ w.currentTimeMillis → IsLong (w.currentTimeMillis + EXPIRATION_TIME) →
          ∀ now ≤ lastAccepted w.currentTimeMillis, LeadsTo L s now token a dto) ∧
        ∀ now, (tokenBuilder w a.id).claims.expired now = false → LeadsTo L s now token a dto) ∧
    ∀ username credential, findByEmail s.store username = .ok (some credential) →
      ∃ salt password, credential.password = hash L salt password := by
  have hinvariant := invariant_of_reachable hreach
  refine ⟨?_, fun username credential hfind =>
    hinvariant.password_hashed (findByEmail_eq_some hfind).1⟩
  intro a ha i c r dto hc hinv hstage hid
  obtain ⟨d, x, hx, hd, hs, hxid, hxr, hv⟩ := hinvariant.mem_directory ha hc hinv hstage hid
  obtain ⟨id⟩ := dto
  obtain rfl : id = a.id := hid
  refine ⟨Registration.tokenViolations_login hv, fun w => ⟨_, ?_, rfl, fun ht hlong now hnow => ?_,
    fun now hnow => leadsTo_signToken hparse hreach a w hnow⟩⟩
  · have hmatch := Registration.authenticates_login hat hv
    rw [createToken, hs, credentialAccount_of_mem hown hd hx (hxr ▸ hmatch), hxid]
    rfl
  · have hexpired : (tokenBuilder w a.id).claims.expired now = false := by
      rw [expired_tokenBuilder ht hlong]
      simpa using hnow
    exact leadsTo_signToken hparse hreach a w hexpired

/-- A device is registered. -/
def deviceRun : List (Action ℕ) :=
  [.call (.create .api (.iosDevice "vendor" "device")),
    .advance 0 (Symbolic.ambient 0 0), .advance 0 (Symbolic.ambient 0 0)]

/-- The token of a login after it is accepted up to its last millisecond, and a request that
carries it is answered with the id of the account. -/
theorem registered_user_can_log_in_deviceRun :
    ∃ s token, exec (step Symbolic.libraries) init deviceRun = some s ∧
      createToken Symbolic.libraries (Symbolic.ambient 1 1500) s.store "deviceId" "vendor" =
        .ok token ∧
      (∃ jws, getTokenIfValid Symbolic.libraries 864001000 token = .ok (some jws) ∧
        jws.subject = some (Registration.accountRow (Symbolic.ambient 0 0)).name) ∧
      ∃ authentication,
        secured Symbolic.libraries 864001000 .authenticated (some [⟨"jwt", token⟩]) =
          .ok authentication ∧
        getAccountInfo s.store authentication = .ok ⟨⟨0, 0⟩⟩ := by
  have hrun : (exec (step Symbolic.libraries) init deviceRun).any (fun s =>
      s.store.accounts = [Registration.accountRow (Symbolic.ambient 0 0)] ∧
      s.clients[0]?.any fun c => c.invocation = .create .api (.iosDevice "vendor" "device") ∧
        c.returned = some (.accountDTO ⟨⟨0, 0⟩⟩)) = true := by
    decide +kernel
  obtain ⟨s, hs, h⟩ := (Option.any_eq_true _ _).mp hrun
  obtain ⟨haccounts, hcall⟩ := of_decide_eq_true h
  obtain ⟨c, hc, hc'⟩ := (Option.any_eq_true _ _).mp hcall
  obtain ⟨hinv, hdto⟩ := of_decide_eq_true hc'
  have hstored : Registration.accountRow (Symbolic.ambient 0 0) ∈ s.store.accounts :=
    haccounts ▸ List.mem_singleton.mpr rfl
  obtain ⟨_, hlogin⟩ := (registered_user_can_log_in Symbolic.checksOwnHash Symbolic.emailsHaveAt
    Symbolic.parsesCompacted ⟨_, hs⟩).1 _ hstored 0 c _ _ hc hinv
      (Client.returned_eq_some.mp hdto) rfl
  obtain ⟨token, htoken, _, hwindow, _⟩ := hlogin (Symbolic.ambient 1 1500)
  obtain ⟨haccepted, hrequest⟩ := hwindow (by decide) (by decide) 864001000 (by decide)
  obtain ⟨authentication, hadmitted, hinfo⟩ :=
    hrequest (some [⟨"jwt", token⟩]) ⟨"jwt", token⟩ rfl rfl
  exact ⟨s, token, hs, htoken, haccepted, authentication, hadmitted,
    hinfo [] s (exec_nil s) hstored⟩

end AuthenticationServer
