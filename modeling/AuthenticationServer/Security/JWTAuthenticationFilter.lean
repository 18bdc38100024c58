import AuthenticationServer.Services.JWTService
import AuthenticationServer.Services.SymbolicLibraries

/-!
# `JWTAuthenticationFilter`

The servlet filter that turns a valid token cookie into an `Authentication`.

## Main definitions

- `Authentication` - the authentication objects that can stand in the `SecurityContext`
- `doFilterInternal` - the filter, with the rest of the chain as a parameter
- `FiltersTransparently` - the documented behaviour: one call of the rest of the chain, no
  exception of its own, an authentication for exactly one accepted token

## Main results

- `no_cookie_value_fails_filter_iff` - the filter behaves so on all requests but those whose
  only token cookie is rejected with an exception that `getTokenIfValid` does not list
-/

namespace AuthenticationServer

variable {H Salt α : Type}

structure Cookie where
  name : String
  value : String
  deriving DecidableEq, Repr

/-- An `Authentication`: the token class of the service, or Spring's anonymous token. -/
inductive Authentication
  | jwtSpringAuthenticationToken (jws : Claims) (authorities : List String)
  | anonymousAuthenticationToken
  deriving DecidableEq, Repr

namespace Authentication

/-- `JWTSpringAuthenticationToken.createJWTSpringAuthenticationToken`. -/
def createJWTSpringAuthenticationToken (jws : Claims) : Authentication :=
  jwtSpringAuthenticationToken jws []

def authorities : Authentication → List String
  | jwtSpringAuthenticationToken _ authorities => authorities
  | anonymousAuthenticationToken => ["ROLE_ANONYMOUS"]

def isAnonymous : Authentication → Bool
  | jwtSpringAuthenticationToken .. => false
  | anonymousAuthenticationToken => true

/-- The `authenticated` flag: only the anonymous token sets it. -/
def isAuthenticated : Authentication → Bool
  | jwtSpringAuthenticationToken .. => false
  | anonymousAuthenticationToken => true

/-- `getPrincipal`: a missing subject fails Kotlin's null check. -/
def getPrincipal : Authentication → Except Throwable String
  | jwtSpringAuthenticationToken jws _ =>
    match jws.subject with
    | some subject => .ok subject
    | none => .error .illegalStateException
  | anonymousAuthenticationToken => .ok "anonymousUser"

/-- `request.userPrincipal`: no principal for the anonymous token, else the token itself, named by
its principal. -/
def userPrincipal (authentication : Authentication) : Except Throwable (Option Principal) :=
  if authentication.isAnonymous then return none
  else return some ⟨some (← authentication.getPrincipal)⟩

theorem userPrincipal_claims (b : JwtBuilder) :
    (createJWTSpringAuthenticationToken b.claims).userPrincipal = .ok (some ⟨some b.subject⟩) :=
  rfl

/-- The principal of a token is named by its subject. -/
theorem userPrincipal_eq_ok {jws : Claims} {userPrincipal : Option Principal} :
    (createJWTSpringAuthenticationToken jws).userPrincipal = .ok userPrincipal ↔
      ∃ subject, jws.subject = some subject ∧ userPrincipal = some ⟨some subject⟩ := by
  obtain ⟨subject, issuedAt, expiration⟩ := jws
  constructor
  · intro h
    cases subject with
    | none => cases h
    | some subject => exact ⟨subject, rfl, (Except.ok.inj h).symm⟩
  · rintro ⟨subject', rfl, rfl⟩
    rfl

end Authentication

/-- What the filter can change: the authentication in the `SecurityContext`, and the calls
of `filterChain.doFilter`, each with the authentication that it finds. -/
structure FilterState where
  authentication : Option Authentication
  doFilterCalls : List (Option Authentication)
  deriving DecidableEq, Repr

/-- The cookies of a request that are named `jwt`; `request.cookies` may be null. -/
def jwtCookieList (cookies : Option (List Cookie)) : List Cookie :=
  (cookies.map fun cs => cs.filter fun c => c.name = "jwt").getD []

/-- `filterChain.doFilter(request, response)`, where `chain` is what the rest of the chain
makes of the request. -/
def doFilter (chain : Option Authentication → Except Throwable α) (s : FilterState) :
    Except Throwable α × FilterState :=
  (chain s.authentication, { s with doFilterCalls := s.doFilterCalls ++ [s.authentication] })

/-- `JWTAuthenticationFilter.doFilterInternal` at a time in milliseconds. -/
def doFilterInternal (L : Libraries H Salt) (now : ℤ)
    (chain : Option Authentication → Except Throwable α) (cookies : Option (List Cookie))
    (s : FilterState) : Except Throwable α × FilterState :=
  match jwtCookieList cookies with
  | [cookie] =>
    match getTokenIfValid L now cookie.value with
    | .ok (some jws) =>
      doFilter chain
        { s with authentication := some (.createJWTSpringAuthenticationToken jws) }
    | .ok none => doFilter chain s
    | .error e => (.error e, s)
  -- no token cookie, or more than one
  | _ => doFilter chain s

/-- The request has exactly one token cookie, and the parser accepts its value. -/
def AcceptsOnlyCookie (L : Libraries H Salt) (now : ℤ) (cookies : Option (List Cookie))
    (jws : Claims) : Prop :=
  ∃ cookie, jwtCookieList cookies = [cookie] ∧ L.parseClaimsJws SECRET now cookie.value = .ok jws

theorem AcceptsOnlyCookie.parse {L : Libraries H Salt} {now : ℤ} {cookies : Option (List Cookie)}
    {jws : Claims} (h : AcceptsOnlyCookie L now cookies jws) {cookie : Cookie}
    (hc : jwtCookieList cookies = [cookie]) :
    L.parseClaimsJws SECRET now cookie.value = .ok jws := by
  obtain ⟨cookie', hc', hp⟩ := h
  rw [hc] at hc'
  obtain rfl : cookie = cookie' := (List.cons.inj hc').1
  exact hp

theorem AcceptsOnlyCookie.unique {L : Libraries H Salt} {now : ℤ}
    {cookies : Option (List Cookie)} {jws jws' : Claims}
    (h : AcceptsOnlyCookie L now cookies jws) (h' : AcceptsOnlyCookie L now cookies jws') :
    jws = jws' := by
  obtain ⟨cookie, hc, hp⟩ := h
  have hp' := h'.parse hc
  rw [hp] at hp'
  exact Except.ok.inj hp'

/-- The documented behaviour of the filter: it calls the rest of the chain once, ends as
that call does, and has set an authentication exactly for one accepted token. -/
def FiltersTransparently (L : Libraries H Salt) (now : ℤ)
    (chain : Option Authentication → Except Throwable α) (cookies : Option (List Cookie))
    (s : FilterState) : Prop :=
  ∃ context,
    doFilterInternal L now chain cookies s =
      (chain context, ⟨context, s.doFilterCalls ++ [context]⟩) ∧
    ((∃ jws, AcceptsOnlyCookie L now cookies jws ∧
        context = some (.createJWTSpringAuthenticationToken jws)) ∨
      ((∀ jws, ¬ AcceptsOnlyCookie L now cookies jws) ∧ context = s.authentication))

/-- The exceptions of the parser that the catch clause of `getTokenIfValid` lets through. -/
def ParserException.escapes : ParserException → Bool
  | prematureJwtException | compressionException => true
  | _ => false

theorem getTokenIfValid_error {L : Libraries H Salt} {now : ℤ} {token : String}
    {e : ParserException} (h : L.parseClaimsJws SECRET now token = .error e) :
    getTokenIfValid L now token =
      if e.escapes then .error (.parserException e) else .ok none := by
  rw [getTokenIfValid, h]
  cases e <;> rfl

theorem getTokenIfValid_ok {L : Libraries H Salt} {now : ℤ} {token : String} {jws : Claims} :
    getTokenIfValid L now token = .ok (some jws) ↔
      L.parseClaimsJws SECRET now token = .ok jws := by
  cases h : L.parseClaimsJws SECRET now token with
  | ok c => simp [getTokenIfValid, h]
  | error e =>
    rw [getTokenIfValid_error h]
    cases e <;> simp [ParserException.escapes]

/-- A list of token cookies is acted on in one of three ways. -/
theorem doFilterInternal_cases (L : Libraries H Salt) (now : ℤ)
    (chain : Option Authentication → Except Throwable α) (cookies : Option (List Cookie))
    (s : FilterState) :
    (∃ jws, AcceptsOnlyCookie L now cookies jws ∧
      doFilterInternal L now chain cookies s =
        doFilter chain
          { s with authentication := some (.createJWTSpringAuthenticationToken jws) }) ∨
    ((∀ jws, ¬ AcceptsOnlyCookie L now cookies jws) ∧
      (∀ cookie e, jwtCookieList cookies = [cookie] →
        L.parseClaimsJws SECRET now cookie.value = .error e → e.escapes = false) ∧
      doFilterInternal L now chain cookies s = doFilter chain s) ∨
    (∃ cookie e, jwtCookieList cookies = [cookie] ∧
      L.parseClaimsJws SECRET now cookie.value = .error e ∧ e.escapes = true ∧
      doFilterInternal L now chain cookies s = (.error (.parserException e), s)) := by
  by_cases hone : ∃ cookie, jwtCookieList cookies = [cookie]
  · obtain ⟨cookie, hc⟩ := hone
    cases hp : L.parseClaimsJws SECRET now cookie.value with
    | ok jws =>
      refine Or.inl ⟨jws, ⟨cookie, hc, hp⟩, ?_⟩
      simp only [doFilterInternal, hc, getTokenIfValid_ok.mpr hp]
    | error e =>
      have hn : ∀ jws, ¬ AcceptsOnlyCookie L now cookies jws := by
        intro jws ha
        have hp' := ha.parse hc
        rw [hp] at hp'
        cases hp'
      have hg := getTokenIfValid_error hp
      by_cases he : e.escapes = true
      · refine Or.inr (Or.inr ⟨cookie, e, hc, hp, he, ?_⟩)
        rw [if_pos he] at hg
        simp only [doFilterInternal, hc, hg]
      · refine Or.inr (Or.inl ⟨hn, ?_, ?_⟩)
        · intro cookie' e' hc' hp'
          rw [hc] at hc'
          obtain rfl : cookie = cookie' := (List.cons.inj hc').1
          rw [hp] at hp'
          obtain rfl : e = e' := Except.error.inj hp'
          simpa using he
        · rw [if_neg he] at hg
          simp only [doFilterInternal, hc, hg]
  · refine Or.inr (Or.inl ⟨?_, ?_, ?_⟩)
    · rintro jws ⟨cookie, hc, _⟩
      exact hone ⟨cookie, hc⟩
    · intro cookie _ hc
      exact absurd ⟨cookie, hc⟩ hone
    · rw [doFilterInternal]
      split
      · next cookie hc => exact absurd ⟨cookie, hc⟩ hone
      · rfl

/-- The filter is transparent for exactly the requests that do not carry, as their only
token cookie, a value that the parser rejects with an exception that escapes. -/
theorem filtersTransparently_iff (L : Libraries H Salt) (now : ℤ)
    (chain : Option Authentication → Except Throwable α) (cookies : Option (List Cookie))
    (s : FilterState) :
    FiltersTransparently L now chain cookies s ↔
      ¬ ∃ cookie e, jwtCookieList cookies = [cookie] ∧
        L.parseClaimsJws SECRET now cookie.value = .error e ∧ e.escapes = true := by
  rcases doFilterInternal_cases L now chain cookies s with
    ⟨jws, ha, hf⟩ | ⟨hn, hq, hf⟩ | ⟨cookie, e, hc, hp, he, hf⟩
  · refine ⟨fun _ => ?_, fun _ => ⟨_, hf, Or.inl ⟨jws, ha, rfl⟩⟩⟩
    rintro ⟨cookie, e, hc, hp, _⟩
    rw [ha.parse hc] at hp
    cases hp
  · refine ⟨fun _ => ?_, fun _ => ⟨_, hf, Or.inr ⟨hn, rfl⟩⟩⟩
    rintro ⟨cookie, e, hc, hp, he⟩
    rw [hq cookie e hc hp] at he
    cases he
  · refine ⟨?_, fun h => absurd ⟨cookie, e, hc, hp, he⟩ h⟩
    rintro ⟨context, hr, _⟩
    -- the exception leaves the filter before the rest of the chain is called
    rw [hf] at hr
    have hcalls := congrArg (fun r => r.2.doFilterCalls.length) hr
    simp at hcalls

/-- No cookie value makes the filter fail, and `getTokenIfValid` answers every rejected
string with null, exactly as long as the parser rejects with an exception of the list. -/
theorem no_cookie_value_fails_filter_iff (L : Libraries H Salt) (now : ℤ) :
    (∀ (chain : Option Authentication → Except Throwable α) cookies s,
      FiltersTransparently L now chain cookies s ↔
        ¬ ∃ cookie e, jwtCookieList cookies = [cookie] ∧
          L.parseClaimsJws SECRET now cookie.value = .error e ∧ e.escapes = true) ∧
    (∀ token,
      (∀ e, L.parseClaimsJws SECRET now token = .error e →
          getTokenIfValid L now token = .ok none) ↔
        ¬ ∃ e, L.parseClaimsJws SECRET now token = .error e ∧ e.escapes = true) := by
  refine ⟨fun chain cookies s => filtersTransparently_iff L now chain cookies s, ?_⟩
  intro token
  constructor
  · rintro h ⟨e, he, hesc⟩
    have hnull := h e he
    rw [getTokenIfValid_error he, if_pos hesc] at hnull
    cases hnull
  · intro h e he
    rw [getTokenIfValid_error he, if_neg fun hesc => h ⟨e, he, hesc⟩]

/-- A token whose header is `{"alg":"HS512","zip":"FOO"}`: the compression codec is looked
up before the signature is checked. -/
def unknownZipToken : String := "eyJhbGciOiJIUzUxMiIsInppcCI6IkZPTyJ9.e30.e30"

/-- A parser that looks up the compression codec of that header. -/
def zipCheckingLibraries : Libraries (ℕ × String) ℕ :=
  { Symbolic.libraries with
    parseClaimsJws := fun key now token =>
      if token = unknownZipToken then .error .compressionException
      else Symbolic.libraries.parseClaimsJws key now token }

/-- The cookie with this value makes the filter fail and keeps the request from the rest of
the chain. -/
theorem unknownZipToken_fails_filter :
    ¬ FiltersTransparently zipCheckingLibraries 0 (fun _ => .ok ())
      (some [⟨"jwt", unknownZipToken⟩]) ⟨none, []⟩ := by
  rintro ⟨context, h, _⟩
  have hcalls := congrArg (fun r => r.2.doFilterCalls.length) h
  have hzero : (doFilterInternal zipCheckingLibraries 0 (fun _ => .ok ())
      (some [⟨"jwt", unknownZipToken⟩]) ⟨none, []⟩).2.doFilterCalls.length = 0 := by decide
  simp only [hzero, List.nil_append, List.length_singleton] at hcalls
  omega

end AuthenticationServer
