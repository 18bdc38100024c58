import AuthenticationServer.System.Lifecycle

/-!
# Tokens and accounts

The account that a request acts for is the one whose credential obtained its token.

## Main definitions

- `Unforgeable` - an accepted token was signed by the service before

## Main results

- `exists_login_of_signed` - what was signed was returned by a login
- `exists_lookup_of_login` - a login signs a token for the account that it has found
- `authentication_sound` - from the cookie of a request back to the login and the account
-/

namespace AuthenticationServer

open Java Machine State

variable {H Salt : Type}

/-- What was signed was returned by a login. -/
theorem exists_login_of_signed {L : Libraries H Salt} {as : List (Action Salt)} {s : State H}
    (h : exec (step L) init as = some s) {b : JwtBuilder} (hb : b ∈ s.signed) :
    ∃ (i : ℕ) (d : Client H) (username password : String) (w : Ambient Salt) (id : UUID),
      s.clients[i]? = some d ∧ d.invocation = .createToken username password ∧
        d.stage = .done (.ok (.token (signToken L w id))) ∧ b = tokenBuilder w id := by
  obtain ⟨_, a, _, t, t', _, _, hs, hrest, hnot, hsigned⟩ :=
    exec_exists_step (P := fun s => b ∈ s.signed) h (by rintro ⟨⟩) hb
  rcases step_cases hs with ⟨invocation, rfl, rfl⟩ | ⟨i, w, c, e, rfl, hc, hn, _, rfl⟩
  · exact absurd hsigned hnot
  · have hmem : b ∈ e.signed := (List.mem_append.mp hsigned).resolve_left hnot
    cases hn with
    | @signed username password account invocation stage =>
      obtain rfl := List.mem_singleton.mp hmem
      have hdone := (extends_of_exec hrest).done i _ (clients_apply_self hc) rfl
      exact ⟨i, _, username, password, w, account, hdone, invocation, rfl, rfl⟩
    | _ => cases hmem

/-- A login that has returned a token has signed it for the account that it has found by its
credential, at an earlier step of its own. -/
theorem exists_lookup_of_login {L : Libraries H Salt} {as : List (Action Salt)} {s : State H}
    (h : exec (step L) init as = some s) {i : ℕ} {d : Client H} {username password token : String}
    (hd : s.clients[i]? = some d) (hlogin : d.invocation = .createToken username password)
    (hdone : d.stage = .done (.ok (.token token))) :
    ∃ id, (∃ w, token = signToken L w id) ∧ ∃ w t t', Advances L as i w t t' ∧
      credentialAccount L t.store username password = .ok id := by
  obtain ⟨w, t, b, e, hadvances, hb, he, rfl⟩ :=
    exists_advances h hd (by rw [hdone]; rintro ⟨⟩)
  obtain ⟨before, after, rfl, hbefore, _⟩ := hadvances
  have hn := Client.next_cases he
  rw [hn.frame.1] at hlogin
  cases hn with
  | @signed _ _ id invocation stage =>
    obtain rfl := Result.token.inj (Except.ok.inj (Stage.done.inj hdone))
    obtain ⟨w₁, t₁, b₁, e₁, hadvances₁, _, he₁, rfl⟩ :=
      exists_advances hbefore hb (by rw [stage]; rintro ⟨⟩)
    have hn₁ := Client.next_cases he₁
    rw [hn₁.frame.1] at hlogin
    cases hn₁ with
    | matched invocation₁ _ credential =>
      obtain rfl := Stage.sign.inj stage
      obtain ⟨rfl, rfl⟩ := Invocation.createToken.inj (hlogin.symm.trans invocation₁)
      exact ⟨_, ⟨w, rfl⟩, w₁, t₁, _, hadvances₁.append _, credential⟩
    | _ => cases stage
  | committed invocation => rw [hlogin] at invocation; cases invocation
  | answered _ invocation => rw [hlogin] at invocation; cases invocation
  | _ => cases hdone

/-- The account that a login finds was registered with its credential, and is stored. -/
theorem exists_created_of_credential {L : Libraries H Salt} (hcheck : L.ChecksOnlyHashed)
    {s : State H} (h : Invariant L s) {username password : String} {id : UUID}
    (hcredential : credentialAccount L s.store username password = .ok id) :
    ∃ x j, s.Created L x j ∧ x.id = id ∧ x.registration.Authenticates username password ∧
      s.Stored id := by
  obtain ⟨directory, _, hs, hcreated⟩ := h.directory
  have hfound := hcredential
  rw [hs] at hfound
  obtain ⟨x, hx, hid, hauth⟩ := credentialAccount_eq_ok hcheck hfound
  obtain ⟨j, hj⟩ := hcreated x hx
  refine ⟨x, j, hj, hid, hauth, Registration.accountRow x.ambient, ?_, hid⟩
  rw [hs]
  exact Directory.mem_accounts.mpr ⟨x, hx, rfl⟩

/-- The token that a request presents at this step is not forged: if it is accepted, the
service has signed it before. -/
def Unforgeable (L : Libraries H Salt) (s : State H) (k : ℕ) (w : Ambient Salt) : Prop :=
  ∀ (c : Client H) operation cookies cookie jws, s.clients[k]? = some c →
    c.invocation = .request operation cookies → jwtCookieList cookies = [cookie] →
      L.parseClaimsJws SECRET w.currentTimeMillis cookie.value = .ok jws →
        ∃ b ∈ s.signed, cookie.value = L.compact SECRET b

/-- What the filter chain admits a request with are the claims of a token of the run. -/
theorem admitted_with_signed {L : Libraries H Salt} (hparse : L.ParsesCompacted) {s s₁ : State H}
    {pre : List (Action Salt)} (hpre : exec (step L) init pre = some s) {k : ℕ} {w : Ambient Salt}
    (hstep : step L s (.advance k w) = some s₁) (hunforgeable : Unforgeable L s k w)
    {c c₁ : Client H} {operation : AccountOperation} {cookies : Option (List Cookie)}
    (hc : s.clients[k]? = some c) (hop : c.invocation = .request operation cookies)
    (hstart : c.stage = .start) (hc₁ : s₁.clients[k]? = some c₁) {a : Authentication}
    (ha : c₁.authentication = some a) :
    ∃ cookie b, jwtCookieList cookies = [cookie] ∧ b ∈ s.signed ∧
      cookie.value = L.compact SECRET b ∧ b.claims.expired w.currentTimeMillis = false ∧
      a = .createJWTSpringAuthenticationToken b.claims := by
  obtain ⟨c', e, hc', hn, _, rfl⟩ := step_advance hstep
  obtain rfl : c = c' := Option.some.inj (hc.symm.trans hc')
  obtain rfl : e.client = c₁ := Option.some.inj ((clients_apply_self hc).symm.trans hc₁)
  rcases (Client.next_cases hn).authentication with hsame | ⟨operation', cookies', a', hop', hsecured, ha', _⟩
  · rw [hsame, ((invariant_of_reachable ⟨pre, hpre⟩).valid k c hc).starting hstart] at ha
    cases ha
  obtain ⟨rfl, rfl⟩ := Invocation.request.inj (hop.symm.trans hop')
  obtain rfl : a = a' := Option.some.inj (ha.symm.trans ha')
  obtain ⟨jws, ⟨cookie, hcookie, hjws⟩, _, rfl⟩ := (secured_iff L _ cookies a).mp hsecured
  obtain ⟨b, hb, hvalue⟩ := hunforgeable c operation cookies cookie jws hc hop hcookie hjws
  have hsubject : b.subject ≠ "" := by
    obtain ⟨_, _, _, _, _, id, _, _, _, rfl⟩ := exists_login_of_signed hpre hb
    exact id.toString_ne_empty
  rw [hvalue, hparse SECRET _ b hsubject] at hjws
  cases hexpired : b.claims.expired w.currentTimeMillis with
  | true => rw [hexpired] at hjws; cases hjws
  | false =>
    rw [hexpired] at hjws
    exact ⟨cookie, b, hcookie, hb, hvalue, hexpired, by rw [Except.ok.inj hjws]⟩

/-- The claims of an accepted token name the account that it was signed for. -/
theorem signToken_id {L : Libraries H Salt} (hparse : L.ParsesCompacted) {now : ℤ} {jws : Claims}
    {w : Ambient Salt} {id id' : UUID}
    (hjws : L.parseClaimsJws SECRET now (signToken L w id) = .ok jws)
    (hsubject : jws.subject = some id'.toString) : id = id' := by
  rw [signToken, hparse SECRET now (tokenBuilder w id) id.toString_ne_empty] at hjws
  split at hjws
  · cases hjws
  · obtain rfl := Except.ok.inj hjws
    have hname : id.toString = id'.toString := Option.some.inj hsubject
    have hid := congrArg UUID.fromString hname
    rw [UUID.fromString_toString, UUID.fromString_toString] at hid
    exact Option.some.inj hid

/-- Take any run in which, at some step, the filter chain checks the cookies of a request, and
suppose that this step is not given a forged token. If at any later time the lookup of the
service returns an account for what the request was admitted with, then the request carried
one token, which had not expired and was signed for this account and for no other; logins of the
run have returned it. Each of them was given the user name and the password that this very
account was registered with, and has found it in the tables, where it was stored already then.
And the account is still stored. -/
theorem authentication_sound {L : Libraries H Salt} (hcheck : L.ChecksOnlyHashed)
    (hparse : L.ParsesCompacted) {s s₁ s₂ : State H} {k : ℕ} {w : Ambient Salt}
    {pre post : List (Action Salt)} (hpre : exec (step L) init pre = some s)
    (hstep : step L s (.advance k w) = some s₁) (hpost : exec (step L) s₁ post = some s₂)
    (hunforgeable : Unforgeable L s k w) {c c₂ : Client H} {operation : AccountOperation}
    {cookies : Option (List Cookie)} (hc : s.clients[k]? = some c)
    (hop : c.invocation = .request operation cookies) (hstart : c.stage = .start)
    (hc₂ : s₂.clients[k]? = some c₂) {authentication : Authentication}
    (hauth : c₂.authentication = some authentication) {userPrincipal : Option Principal}
    (hprincipal : authentication.userPrincipal = .ok userPrincipal) {a : AccountRow}
    (ha : getAccountOfSecurityContext s₂.store userPrincipal = .ok a) :
    ∃ cookie jws, jwtCookieList cookies = [cookie] ∧
      (L.parseClaimsJws SECRET w.currentTimeMillis cookie.value = .ok jws ∧
        jws.subject = some a.name ∧ jws.expired w.currentTimeMillis = false) ∧
      (∃ w', cookie.value = signToken L w' a.id) ∧
      (∀ w' id, cookie.value = signToken L w' id → id = a.id) ∧
      (∃ (i : ℕ) (d : Client H) (username password : String), s.clients[i]? = some d ∧
        d.invocation = .createToken username password ∧
        d.stage = .done (.ok (.token cookie.value))) ∧
      (∀ (i : ℕ) (d : Client H) (username password : String), s.clients[i]? = some d →
        d.invocation = .createToken username password →
          d.stage = .done (.ok (.token cookie.value)) →
            ∃ x j, x.id = a.id ∧ x.registration.Authenticates username password ∧
              (∀ y j', s₂.Created L y j' → y.id = a.id → j' = j ∧ y.registration = x.registration) ∧
              ∃ w' t t', Advances L pre i w' t t' ∧ t.Created L x j ∧ a ∈ t.store.accounts ∧
                credentialAccount L t.store username password = .ok a.id) ∧
      a ∈ s₂.store.accounts := by
  have hext₂ := extends_of_exec hpost
  have hreach : Reachable (step L) s s₂ := ⟨_, exec_cons.mpr ⟨s₁, hstep, hpost⟩⟩
  -- the authentication of the request is the one that this step has set
  obtain ⟨c₁, hc₁, hstarted⟩ : ∃ c₁, s₁.clients[k]? = some c₁ ∧ c₁.stage ≠ .start := by
    obtain ⟨c', e, hc', hn, _, rfl⟩ := step_advance hstep
    exact ⟨e.client, clients_apply_self hc', (Client.next_cases hn).frame.2.1⟩
  obtain ⟨d, hd, _, hkeep⟩ := hext₂.calls k c₁ hc₁
  obtain rfl : d = c₂ := Option.some.inj (hd.symm.trans hc₂)
  rw [(hkeep hstarted).2] at hauth
  obtain ⟨cookie, b, hcookie, hb, hvalue, hexpired, rfl⟩ :=
    admitted_with_signed hparse hpre hstep hunforgeable hc hop hstart hc₁ hauth
  -- its name is the id that the token was signed for
  obtain ⟨i, l, username, password, w', id, hl, hlogin, hdone, rfl⟩ :=
    exists_login_of_signed hpre hb
  obtain ⟨accountId, rfl, hfind⟩ := getAccountOfSecurityContext_eq_ok ha
  have hname := (Authentication.userPrincipal_claims (tokenBuilder w' id)).symm.trans hprincipal
  obtain rfl : id.toString = accountId :=
    Option.some.inj (Principal.mk.inj (Option.some.inj (Except.ok.inj hname)))
  obtain ⟨hmem, hid⟩ := findById_eq_some hfind
  rw [UUID.fromString_toString] at hid
  obtain rfl : id = a.id := Option.some.inj hid
  have hparsed : L.parseClaimsJws SECRET w.currentTimeMillis cookie.value =
      .ok (tokenBuilder w' a.id).claims := by
    rw [hvalue, hparse SECRET _ _ a.id.toString_ne_empty, hexpired]
    rfl
  have hsame : ∀ w' id, cookie.value = signToken L w' id → id = a.id := by
    intro w'' id hsigned
    rw [hsigned] at hparsed
    exact signToken_id hparse hparsed rfl
  refine ⟨cookie, _, hcookie, ⟨hparsed, rfl, hexpired⟩, ⟨w', hvalue⟩, hsame,
    ⟨i, l, username, password, hl, hlogin, hvalue ▸ hdone⟩, ?_, hmem⟩
  intro i d username password hd hlogin hdone
  obtain ⟨id, ⟨w'', hsigned⟩, w₁, t, t', hadvances, hcredential⟩ :=
    exists_lookup_of_login hpre hd hlogin hdone
  obtain rfl := hsame w'' id hsigned
  obtain ⟨x, j, hx, hxid, hxauth, hstored⟩ :=
    exists_created_of_credential hcheck (invariant_of_reachable hadvances.reachable) hcredential
  obtain ⟨as, has⟩ := (hadvances.rest hpre).trans hreach
  refine ⟨x, j, hxid, hxauth, fun y j' hy hya => ?_, w₁, t, t', hadvances, hx,
    mem_accounts_of_exec hadvances.reachable has hstored hmem, hcredential⟩
  have hreach₂ := hadvances.reachable.trans ⟨as, has⟩
  exact (invariant_of_reachable hreach₂).created_unique hy (hx.extends (extends_of_exec has))
    (hya.trans hxid.symm)

/-- An account is registered, a login obtains a token for it, and a request presents it. -/
def loginRun : List (Action ℕ) :=
  [.call (.create .api (.email "e@x" "password")),
    .advance 0 (Symbolic.ambient 0 0), .advance 0 (Symbolic.ambient 0 0),
    .call (.createToken "e@x" "password"),
    .advance 1 (Symbolic.ambient 1 0), .advance 1 (Symbolic.ambient 1 0),
    .call (.request .getAccountInfo
      (some [⟨"jwt", signToken Symbolic.libraries (Symbolic.ambient 1 0) ⟨0, 0⟩⟩]))]

theorem authentication_sound_loginRun :
    ∃ s s₁ a, exec (step Symbolic.libraries) init loginRun = some s ∧
      step Symbolic.libraries s (.advance 2 (Symbolic.ambient 2 0)) = some s₁ ∧
      a ∈ s₁.store.accounts ∧ ∃ (i : ℕ) (d : Client (ℕ × String)) (username password : String),
        s.clients[i]? = some d ∧ d.invocation = .createToken username password ∧
        ∃ w t t', Advances Symbolic.libraries loginRun i w t t' ∧ a ∈ t.store.accounts ∧
          credentialAccount Symbolic.libraries t.store username password = .ok a.id := by
  have hrun : (exec (step Symbolic.libraries) init loginRun).any (fun s =>
      s.signed = [tokenBuilder (Symbolic.ambient 1 0) ⟨0, 0⟩] ∧
      s.clients[2]?.any (fun c => c.invocation = .request .getAccountInfo
        (some [⟨"jwt", signToken Symbolic.libraries (Symbolic.ambient 1 0) ⟨0, 0⟩⟩]) ∧
        c.stage matches .start) ∧
      (step Symbolic.libraries s (.advance 2 (Symbolic.ambient 2 0))).any fun s₁ =>
        s₁.clients[2]?.any (fun c => c.authentication =
          some (.createJWTSpringAuthenticationToken
            (tokenBuilder (Symbolic.ambient 1 0) ⟨0, 0⟩).claims)) ∧
        (getAccountOfSecurityContext s₁.store
          (some ⟨some (UUID.toString ⟨0, 0⟩)⟩)).toOption.isSome) = true := by
    decide +kernel
  obtain ⟨s, hs, h⟩ := (Option.any_eq_true _ _).mp hrun
  obtain ⟨hsigned, hcall, hnext⟩ := of_decide_eq_true h
  obtain ⟨c, hc, hc'⟩ := (Option.any_eq_true _ _).mp hcall
  obtain ⟨hop, hstage⟩ := of_decide_eq_true hc'
  obtain ⟨s₁, hs₁, h₁⟩ := (Option.any_eq_true _ _).mp hnext
  obtain ⟨hadmitted, hfound⟩ := of_decide_eq_true h₁
  obtain ⟨c₁, hc₁, hauth⟩ := (Option.any_eq_true _ _).mp hadmitted
  obtain ⟨a, ha⟩ := Option.isSome_iff_exists.mp hfound
  have hstart : c.stage = .start := by
    cases hst : c.stage <;> simp_all
  have hlookup : getAccountOfSecurityContext s₁.store
      (some ⟨some (UUID.toString ⟨0, 0⟩)⟩) = .ok a :=
    Fallible.toOption_eq_some.mp ha
  have hunforgeable : Unforgeable Symbolic.libraries s 2 (Symbolic.ambient 2 0) := by
    intro c' operation cookies cookie jws hc' hop' hcookie _
    obtain rfl : c = c' := Option.some.inj (hc.symm.trans hc')
    obtain ⟨_, rfl⟩ := Invocation.request.inj (hop.symm.trans hop')
    obtain ⟨rfl, _⟩ := List.cons.inj hcookie
    exact ⟨_, hsigned ▸ List.mem_singleton.mpr rfl, rfl⟩
  obtain ⟨_, _, _, _, _, _, ⟨i, d, u, p, hd, hlogin, hdone⟩, hall, hmem⟩ :=
    authentication_sound Symbolic.checksOnlyHashed Symbolic.parsesCompacted hs hs₁
      (exec_nil s₁) hunforgeable hc hop hstart hc₁ (of_decide_eq_true hauth) rfl hlookup
  obtain ⟨_, _, _, _, _, w, t, t', hadvances, _, hstored, hcredential⟩ :=
    hall i d u p hd hlogin hdone
  exact ⟨s, s₁, a, hs, hs₁, hmem, i, d, u, p, hd, hlogin, w, t, t', hadvances, hstored,
    hcredential⟩

end AuthenticationServer
