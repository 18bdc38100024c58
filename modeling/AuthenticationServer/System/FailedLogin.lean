import AuthenticationServer.Jersey.Mappers
import AuthenticationServer.Jersey.TokenApi
import AuthenticationServer.System.Login

/-!
# Failed logins

A login fails for an unknown email address, a wrong password or an unknown device, with a text
of its own for each. The mapper copies none of them into the response.

## Main results

- `Invariant.credentialAccount_error` - on a reachable store, a login fails with a challenge only
- `failed_calls_answered` - all failed logins of all runs are answered with one response
- `failed_logins_indistinguishable` - the responses to any two failed logins are equal
-/

namespace AuthenticationServer

open Java Machine State

variable {H Salt : Type}

/-- The response to every exception with a challenge. -/
def unauthorized : BuiltResponse where
  response := ⟨401, [("Content-Type", "application/json")], some ⟨401, "HTTP 401 Unauthorized"⟩⟩
  corsFree := by simp [Response.corsFree, corsHeaders, Response.occurrences]

/-- The mapper drops the headers of the response that the exception carries. -/
theorem toResponse_challengeException (challenge : String) :
    toResponse (.challengeException challenge) = .built unauthorized := rfl

theorem Invariant.credentialAccount_error {L : Libraries H Salt} (hcheck : L.ChecksAnyPassword)
    {s : State H} (h : Invariant L s) {username password : String} {e : Throwable}
    (he : credentialAccount L s.store username password = .error e) :
    ∃ challenge, e = .challengeException challenge := by
  rcases credentialAccount_cases hcheck h.wellFormed (fun c hc => h.password_hashed hc) username
    password with ⟨c, hlogin⟩ | ⟨challenge, herror⟩
  · rw [hlogin.credentialAccount] at he
    cases he
  · exact ⟨challenge, Except.error.inj (he.symm.trans herror)⟩

/-- The first step of a login fails as its method does; the second one does not fail. -/
theorem Client.next_createToken_error {L : Libraries H Salt} {w : Ambient Salt} {s : Store H}
    {c : Client H} {effect : Effect H} (h : c.next L w s = some effect) {username password : String}
    (hinv : c.invocation = .createToken username password) {e : Throwable}
    (hdone : effect.client.stage = .done (.error e)) :
    (validate w (tokenViolations username) >>= fun _ =>
      credentialAccount L s username password) = .error e := by
  obtain ⟨invocation, stage, presentedAt, authentication⟩ := c
  obtain rfl : invocation = .createToken username password := hinv
  cases stage with
  | start =>
    cases hm : validate w (tokenViolations username) >>= fun _ =>
        credentialAccount L s username password with
    | ok account =>
      simp only [next, hm, Option.some.injEq] at h
      subst h
      cases hdone
    | error e' =>
      simp only [next, hm, Option.some.injEq] at h
      subst h
      exact congrArg Except.error (Except.error.inj (Stage.done.inj hdone))
  | sign account =>
    obtain rfl := Option.some.inj h
    cases hdone
  | _ => cases h

/-- If the call is a login that has failed, and its user name is not blank, it has failed with a
challenge. -/
def Client.Challenged (c : Client H) : Prop :=
  ∀ username password, c.invocation = .createToken username password →
    tokenViolations username = [] → ∀ e, c.stage = .done (.error e) →
      ∃ challenge, e = .challengeException challenge

theorem Client.challenged_next {L : Libraries H Salt} (hcheck : L.ChecksAnyPassword) {s : State H}
    (hinvariant : Invariant L s) {w : Ambient Salt} {c : Client H} {effect : Effect H}
    (h : c.next L w s.store = some effect) : effect.client.Challenged := by
  intro username password hinv hvalid e hdone
  have hsame := (next_cases h).frame.1
  have herror := next_createToken_error h (hsame.symm.trans hinv) hdone
  rw [validate_eq_ok.mpr hvalid] at herror
  exact hinvariant.credentialAccount_error hcheck herror

theorem challenged_of_reachable {L : Libraries H Salt} (hcheck : L.ChecksAnyPassword)
    {s : State H} (h : Reachable (step L) init s) {i : ℕ} {c : Client H}
    (hc : s.clients[i]? = some c) : c.Challenged :=
  client_of_reachable (P := Client.Challenged) (fun _ _ _ _ _ _ hdone => by cases hdone)
    (fun _ _ _ _ hreach _ hnext =>
      Client.challenged_next hcheck (invariant_of_reachable hreach) hnext) h hc

/-- The logins of all runs that have failed with a user name that is not blank, are answered
with one response. -/
theorem failed_calls_answered {L : Libraries H Salt} (hcheck : L.ChecksAnyPassword)
    {s : State H} (h : Reachable (step L) init s) {i : ℕ} {c : Client H}
    (hc : s.clients[i]? = some c) {username password : String}
    (hinv : c.invocation = .createToken username password) (hvalid : tokenViolations username = [])
    {e : Throwable} (hdone : c.stage = .done (.error e)) : toResponse e = .built unauthorized := by
  obtain ⟨challenge, rfl⟩ := challenged_of_reachable hcheck h hc username password hinv hvalid e
    hdone
  exact toResponse_challengeException challenge

/-- Take any two reachable states and any two logins on their stores that end in an exception,
whatever the user names and the passwords. For user names that are not blank, the resource
method ends in these exceptions, too. The mapper for web exceptions is the one that is selected
for both; it produces equal responses, and equal responses are sent. -/
theorem failed_logins_indistinguishable {L : Libraries H Salt} (hcheck : L.ChecksAnyPassword)
    {s₁ s₂ : State H} (hreach₁ : Reachable (step L) init s₁) (hreach₂ : Reachable (step L) init s₂)
    {w₁ w₂ : Ambient Salt} {username₁ password₁ username₂ password₂ : String} {e₁ e₂ : Throwable}
    (h₁ : createToken L w₁ s₁.store username₁ password₁ = .error e₁)
    (h₂ : createToken L w₂ s₂.store username₂ password₂ = .error e₂) :
    (tokenViolations username₁ = [] →
      TokenApi.createToken L w₁ s₁.store username₁ password₁ = .error e₁) ∧
    (tokenViolations username₂ = [] →
      TokenApi.createToken L w₂ s₂.store username₂ password₂ = .error e₂) ∧
    toResponse e₁ = webApplicationExceptionMapper e₁ ∧
    toResponse e₂ = webApplicationExceptionMapper e₂ ∧
    webApplicationExceptionMapper e₁ = webApplicationExceptionMapper e₂ ∧
    ∀ shared₁ shared₂, (respond shared₁ (.failure e₁)).1 = (respond shared₂ (.failure e₂)).1 := by
  obtain ⟨challenge₁, rfl⟩ := (invariant_of_reachable hreach₁).credentialAccount_error hcheck
    (createToken_eq_error.mp h₁)
  obtain ⟨challenge₂, rfl⟩ := (invariant_of_reachable hreach₂).credentialAccount_error hcheck
    (createToken_eq_error.mp h₂)
  refine ⟨fun hvalid => ?_, fun hvalid => ?_, rfl, rfl, rfl, fun _ _ => rfl⟩
  · rw [TokenApi.createToken_eq L w₁ s₁.store password₁ hvalid, h₁]
    rfl
  · rw [TokenApi.createToken_eq L w₂ s₂.store password₂ hvalid, h₂]
    rfl

/-- An email address is registered. -/
def emailRun : List (Action ℕ) :=
  [.call (.create .api (.email "user@host" "password")),
    .advance 0 (Symbolic.ambient 0 0), .advance 0 (Symbolic.ambient 0 0)]

/-- The exceptions for a wrong password and for an unknown device carry different responses, and
are answered with the same one. -/
theorem failed_logins_indistinguishable_emailRun :
    ∃ s, exec (step Symbolic.libraries) init emailRun = some s ∧
      ∃ e₁ e₂,
        createToken Symbolic.libraries (Symbolic.ambient 1 5) s.store "user@host" "passwords" =
          .error e₁ ∧
        createToken Symbolic.libraries (Symbolic.ambient 2 7) Store.empty "deviceId" "vendor" =
          .error e₂ ∧
        e₁.response ≠ e₂.response ∧
        webApplicationExceptionMapper e₁ = webApplicationExceptionMapper e₂ := by
  have hrun : (exec (step Symbolic.libraries) init emailRun).any (fun s =>
      s.store.credentialPasswords =
        [⟨Registration.credentialRow (Symbolic.ambient 0 0), "user@host", (0, "password")⟩]) =
        true := by
    decide +kernel
  obtain ⟨s, hs, h⟩ := (Option.any_eq_true _ _).mp hrun
  have hrows := of_decide_eq_true h
  have hwrong : createToken Symbolic.libraries (Symbolic.ambient 1 5) s.store "user@host"
      "passwords" = .error (.challengeException "wrong password for email 'user@host'") := by
    rw [createToken_eq_error, credentialAccount, if_neg (by decide), findByEmail, hrows]
    rfl
  have hunknown : createToken Symbolic.libraries (Symbolic.ambient 2 7) Store.empty "deviceId"
      "vendor" = .error (.challengeException "no account for deviceId 'vendor'") := rfl
  obtain ⟨_, _, _, _, hequal, _⟩ := failed_logins_indistinguishable Symbolic.checksAnyPassword
    ⟨_, hs⟩ (Reachable.refl init) hwrong hunknown
  exact ⟨s, hs, _, _, hwrong, hunknown, by decide, hequal⟩

end AuthenticationServer
