import AuthenticationServer.Jersey.Routing
import AuthenticationServer.Security.JWTAuthenticationFilter

/-!
# `SecurityConfig`

The security filter chain in front of Jersey: the CSRF filter, the JWT filter, the access
rules by ant patterns, and the dispatch of what they admit.

## Main results

- `secured_iff` - the rule for all other requests admits exactly the requests with one
  accepted token cookie
- `dispatch_protected` - the paths that lead to an operation on accounts
- `complete_mediation` - an operation on accounts runs only for such a request
-/

namespace AuthenticationServer

variable {H Salt : Type}

/-! ## Ant patterns -/

/-- Matching within a segment: `*` is any text, `?` any character. -/
def segmentMatches : List Char → List Char → Bool
  | [], cs => cs.isEmpty
  | '*' :: ps, cs => cs.tails.any (segmentMatches ps)
  | _ :: _, [] => false
  | p :: ps, c :: cs => (p = '?' || p = c) && segmentMatches ps cs

/-- Matching segment by segment: `**` is any number of segments. -/
def segmentsMatch : List (List Char) → List (List Char) → Bool
  | [], segments => segments.isEmpty
  | ['*', '*'] :: ps, segments => segments.tails.any (segmentsMatch ps)
  | _ :: _, [] => false
  | p :: ps, segment :: segments => segmentMatches p segment && segmentsMatch ps segments

/-- The segments of a path or a pattern; empty ones are ignored. -/
def tokenize (path : String) : List (List Char) :=
  (path.toList.splitOn '/').filter fun segment => !segment.isEmpty

/-- `AntPathMatcher.match`. -/
def antMatch (pattern path : String) : Bool :=
  (pattern.toList.head? = some '/') = (path.toList.head? = some '/') &&
    segmentsMatch (tokenize pattern) (tokenize path)

/-! ## The configured rules -/

/-- The patterns of the `permitAll` rule. -/
def permitAllPatterns : List String :=
  ["/*.html", "/*.js", "/*.css", "/*.png", "/h2-console/**",
    JERSEY_BASE_PATH ++ "/openapi.json",
    JERSEY_BASE_PATH ++ "/" ++ FULL_EMAIL_ACCOUNT_CREATION_PATH,
    JERSEY_BASE_PATH ++ "/" ++ FULL_ACCOUNT_CREATION_PATH_FOR_IOS_DEVICES,
    JERSEY_BASE_PATH ++ "/" ++ CREATE_TOKEN_PATH]

/-- The patterns whose requests the CSRF filter ignores. -/
def csrfIgnoringPatterns : List String := ["/h2-console/**"]

inductive AccessRule
  | permitAll
  | authenticated
  deriving DecidableEq, Repr

/-- The first rule of `authorizeRequests` that a path falls under. -/
def accessRule (path : String) : AccessRule :=
  if permitAllPatterns.any fun pattern => antMatch pattern path then .permitAll
  else .authenticated

def AccessRule.admits : AccessRule → Authentication → Bool
  | permitAll, _ => true
  | authenticated, a => !a.isAnonymous

/-! ## The filter chain -/

/-- A request as it reaches the filter chain. `path` is the path as sent; `csrfToken` is the CSRF
token in its header or its parameter. -/
structure HttpRequest where
  method : String
  path : String
  cookies : Option (List Cookie)
  csrfToken : Option String

/-- `JWTAuthenticationProvider.supports`. -/
def supports : Authentication → Bool
  | .jwtSpringAuthenticationToken .. => true
  | .anonymousAuthenticationToken => false

/-- `JWTAuthenticationProvider.authenticate`. -/
def authenticate (authentication : Authentication) : Authentication := authentication

/-- `AuthenticationManager.authenticate` with the one configured provider. To erase the credentials
of the result, it reads the principal. -/
def providerManager (authentication : Authentication) : Except Throwable Authentication := do
  if supports authentication then
    let result := authenticate authentication
    let _ ← result.getPrincipal
    return result
  else throw .providerNotFoundException

/-- `AnonymousAuthenticationFilter` and `FilterSecurityInterceptor`: an empty context gets the
anonymous token; a token that is not marked as authenticated goes through the provider. -/
def interceptor (rule : AccessRule) (context : Option Authentication) :
    Except Throwable Authentication := do
  let authentication := context.getD .anonymousAuthenticationToken
  let authentication ←
    if authentication.isAuthenticated then pure authentication else providerManager authentication
  if rule.admits authentication then return authentication else throw .accessDeniedException

/-- The chain from the JWT filter on; the session policy leaves the context empty before. -/
def secured (L : Libraries H Salt) (now : ℤ) (rule : AccessRule)
    (cookies : Option (List Cookie)) : Except Throwable Authentication :=
  (doFilterInternal L now (interceptor rule) cookies ⟨none, []⟩).1

/-- The operation whose body runs for a request, with the authentication that it finds.
`csrfFilter` is Spring's filter, and `decode` the percent-decoding of the servlet container, whose
result the ant patterns are matched with. -/
def handle (L : Libraries H Salt) (csrfFilter : HttpRequest → Except Throwable Unit)
    (decode : String → String) (now : ℤ) (request : HttpRequest) :
    Except Throwable (Operation × Authentication) := do
  csrfFilter request
  let authentication ← secured L now (accessRule (decode request.path)) request.cookies
  match dispatch request.method request.path with
  | some operation => return (operation, authentication)
  | none => throw (.notFoundException "HTTP 404 Not Found")

/-- The operations that read or delete accounts. -/
def Operation.isProtected : Operation → Bool
  | getAccounts | getAccountInfo | deleteAccount => true
  | _ => false

/-! ## Results -/

/-- An accepted token passes the rule for all other requests if it has a subject. -/
theorem interceptor_token (jws : Claims) :
    interceptor .authenticated (some (.createJWTSpringAuthenticationToken jws)) =
      if jws.subject.isSome then .ok (.createJWTSpringAuthenticationToken jws)
      else .error .illegalStateException := by
  obtain ⟨subject, issuedAt, expiration⟩ := jws
  cases subject <;> rfl

/-- What the rule for all other requests makes of the three ways through the JWT filter. -/
theorem secured_cases (L : Libraries H Salt) (now : ℤ) (cookies : Option (List Cookie)) :
    (∃ jws, AcceptsOnlyCookie L now cookies jws ∧ secured L now .authenticated cookies =
      if jws.subject.isSome then .ok (.createJWTSpringAuthenticationToken jws)
      else .error .illegalStateException) ∨
    ((∀ jws, ¬ AcceptsOnlyCookie L now cookies jws) ∧
      (∀ cookie p, jwtCookieList cookies = [cookie] →
        L.parseClaimsJws SECRET now cookie.value = .error p → p.escapes = false) ∧
      secured L now .authenticated cookies = .error .accessDeniedException) ∨
    ∃ cookie p, jwtCookieList cookies = [cookie] ∧
      L.parseClaimsJws SECRET now cookie.value = .error p ∧ p.escapes = true ∧
      secured L now .authenticated cookies = .error (.parserException p) := by
  rcases doFilterInternal_cases L now (interceptor .authenticated) cookies ⟨none, []⟩ with
    ⟨jws, ha, hf⟩ | ⟨hnone, hcaught, hf⟩ | ⟨cookie, p, hcookie, hp, hescapes, hf⟩
  · refine Or.inl ⟨jws, ha, ?_⟩
    rw [secured, hf, ← interceptor_token]
    rfl
  · refine Or.inr (Or.inl ⟨hnone, hcaught, ?_⟩)
    rw [secured, hf]
    rfl
  · refine Or.inr (Or.inr ⟨cookie, p, hcookie, hp, hescapes, ?_⟩)
    rw [secured, hf]

/-- The rule for all other requests admits exactly the requests whose only token cookie the
parser accepts, with the token of that cookie, if it has a subject. -/
theorem secured_iff (L : Libraries H Salt) (now : ℤ) (cookies : Option (List Cookie))
    (a : Authentication) :
    secured L now .authenticated cookies = .ok a ↔
      ∃ jws, AcceptsOnlyCookie L now cookies jws ∧ jws.subject.isSome = true ∧
        a = .createJWTSpringAuthenticationToken jws := by
  rcases secured_cases L now cookies with
    ⟨jws, ha, hs⟩ | ⟨hnone, _, hs⟩ | ⟨cookie, p, hcookie, hp, _, hs⟩ <;> rw [hs]
  · constructor
    · intro h
      split at h
      · next hsubject => exact ⟨jws, ha, hsubject, (Except.ok.inj h).symm⟩
      · cases h
    · rintro ⟨jws', ha', hsubject, rfl⟩
      obtain rfl := ha.unique ha'
      rw [if_pos hsubject]
  · constructor
    · intro h; cases h
    · rintro ⟨jws, ha, _⟩
      exact absurd ha (hnone jws)
  · constructor
    · intro h; cases h
    · rintro ⟨jws, ha, _⟩
      rw [ha.parse hcookie] at hp
      cases hp

theorem dispatch_protected {httpMethod path : String} {op : Operation}
    (h : dispatch httpMethod path = some op) (hop : op.isProtected = true) :
    path ∈ ["/api/accounts", "/api/accounts/", "/api/accounts/self", "/api/accounts/self/"] := by
  obtain ⟨resource, hres, m, hm, rfl, slash, hslash, hpath⟩ := dispatch_eq_some h
  -- the two paths of the protected methods, without and with the trailing slash
  have hkeys : ∀ r ∈ resources, ∀ m ∈ r.2, m.operation.isProtected = true →
      JERSEY_BASE_PATH.toList ++ (r.1.toList ++ (m.path.toList ++ [])) ∈
        ["/api/accounts".toList, "/api/accounts/self".toList] ∧
      JERSEY_BASE_PATH.toList ++ (r.1.toList ++ (m.path.toList ++ ['/'])) ∈
        ["/api/accounts/".toList, "/api/accounts/self/".toList] := by
    decide
  have hk := hkeys resource hres m hm hop
  simp only [List.mem_cons, List.not_mem_nil, or_false, ← String.toList_inj] at hk ⊢
  rcases hslash with rfl | rfl
  · rw [← hpath] at hk
    exact hk.1.elim Or.inl fun hp => Or.inr (Or.inr (Or.inl hp))
  · rw [← hpath] at hk
    exact hk.2.elim (fun hp => Or.inr (Or.inl hp)) fun hp => Or.inr (Or.inr (Or.inr hp))

/-- No operation on accounts lies under a pattern of the `permitAll` rule. -/
theorem antMatch_protected {decode : String → String}
    (hdecode : ∀ path : String, '%' ∉ path.toList → decode path = path)
    {httpMethod path : String} {op : Operation}
    (h : dispatch httpMethod path = some op) (hop : op.isProtected = true) :
    ∀ pattern ∈ permitAllPatterns, antMatch pattern (decode path) = false := by
  have hp := dispatch_protected h hop
  simp only [List.mem_cons, List.not_mem_nil, or_false] at hp
  rcases hp with rfl | rfl | rfl | rfl <;> rw [hdecode _ (by decide)] <;> decide

theorem accessRule_protected {decode : String → String}
    (hdecode : ∀ path : String, '%' ∉ path.toList → decode path = path)
    {httpMethod path : String} {op : Operation}
    (h : dispatch httpMethod path = some op) (hop : op.isProtected = true) :
    accessRule (decode path) = .authenticated := by
  rw [accessRule, if_neg]
  simpa using antMatch_protected hdecode h hop

theorem handle_eq_ok {L : Libraries H Salt} {csrfFilter : HttpRequest → Except Throwable Unit}
    {decode : String → String} {now : ℤ} {request : HttpRequest} {op : Operation}
    {a : Authentication} (h : handle L csrfFilter decode now request = .ok (op, a)) :
    dispatch request.method request.path = some op ∧
      secured L now (accessRule (decode request.path)) request.cookies = .ok a := by
  obtain ⟨_, _, h⟩ := Fallible.bind_eq_ok.mp h
  obtain ⟨b, hs, h⟩ := Fallible.bind_eq_ok.mp h
  cases hd : dispatch request.method request.path with
  | none => simp [hd] at h
  | some op' =>
    have he : op' = op ∧ b = a := by simpa [hd] using h
    exact ⟨congrArg some he.1, he.2 ▸ hs⟩

/-- An operation on accounts runs only for a request with exactly one token cookie, whose
value `getTokenIfValid` accepts: no path of these operations matches a `permitAll` pattern,
and the rule for all other requests admits no request without such a cookie. -/
theorem complete_mediation (L : Libraries H Salt)
    (csrfFilter : HttpRequest → Except Throwable Unit) {decode : String → String}
    (hdecode : ∀ path : String, '%' ∉ path.toList → decode path = path) (now : ℤ) :
    (∀ request op a, op.isProtected = true → handle L csrfFilter decode now request = .ok (op, a) →
      ∃ cookie jws, jwtCookieList request.cookies = [cookie] ∧
        getTokenIfValid L now cookie.value = .ok (some jws)) ∧
    (∀ httpMethod path op, op.isProtected = true → dispatch httpMethod path = some op →
      ∀ pattern ∈ permitAllPatterns, antMatch pattern (decode path) = false) ∧
    (∀ cookies a, secured L now .authenticated cookies = .ok a →
      ∃ cookie jws, jwtCookieList cookies = [cookie] ∧
        getTokenIfValid L now cookie.value = .ok (some jws)) := by
  have hadmit : ∀ cookies a, secured L now .authenticated cookies = .ok a →
      ∃ cookie jws, jwtCookieList cookies = [cookie] ∧
        getTokenIfValid L now cookie.value = .ok (some jws) := by
    intro cookies a h
    obtain ⟨jws, ⟨cookie, hc, hp⟩, _⟩ := (secured_iff L now cookies a).mp h
    exact ⟨cookie, jws, hc, getTokenIfValid_ok.mpr hp⟩
  refine ⟨?_, fun _ _ _ hop hd => antMatch_protected hdecode hd hop, hadmit⟩
  intro request op a hop h
  obtain ⟨hd, hs⟩ := handle_eq_ok h
  rw [accessRule_protected hdecode hd hop] at hs
  exact hadmit request.cookies a hs

/-- A request for the account of a token that has not expired. -/
def infoRequest : HttpRequest :=
  ⟨"GET", "/api/accounts/self", some [⟨"jwt", Symbolic.encode ⟨"subject", 0, 1000⟩⟩], none⟩

theorem complete_mediation_infoRequest :
    handle Symbolic.libraries (fun _ => .ok ()) id 0 infoRequest =
      .ok (.getAccountInfo, .jwtSpringAuthenticationToken ⟨some "subject", some 0, some 1⟩ []) ∧
    ∃ cookie jws, jwtCookieList infoRequest.cookies = [cookie] ∧
      getTokenIfValid Symbolic.libraries 0 cookie.value = .ok (some jws) := by
  have hrun : (handle Symbolic.libraries (fun _ => .ok ()) id 0 infoRequest).toOption =
      some (.getAccountInfo, .jwtSpringAuthenticationToken ⟨some "subject", some 0, some 1⟩ []) := by
    decide +kernel
  have hhandle := Fallible.toOption_eq_some.mp hrun
  have hdecode : ∀ path : String, '%' ∉ path.toList → id path = path := fun _ _ => rfl
  exact ⟨hhandle, (complete_mediation Symbolic.libraries _ hdecode 0).1 _ _ _ rfl hhandle⟩

end AuthenticationServer
