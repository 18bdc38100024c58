import AuthenticationServer.Jersey.Mappers
import AuthenticationServer.Jersey.TokenApi
import AuthenticationServer.System.Client

/-!
# From a request to a call, and from its outcome to a response

What stands between the filter chain and the operations: the form parameters with their
constraints, the time of the request, and the responses of the resource methods.

## Main definitions

- `Request` - a request with its form
- `Container` - the code around the two resource classes
- `Container.ChecksCsrfToken` - what Spring's CSRF filter checks as it is configured
- `Container.filterChain` - the security filter chain
- `Container.target` - what answers a request
- `TimeFilter.filter`, `getCurrentTime` - the time of the request, as it is set and as it is read
- `Container.outcome` - the response of a resource method

## Main results

- `filter_eq_some` - the time that is read is the time that was set
- `Container.calls_of_target` - everything that a request can call
- `Container.repeatsCsrfCookie` - no request of another site reaches an operation that is not `GET`
-/

namespace AuthenticationServer

open Java

variable {H Salt : Type}

/-! ## Form parameters -/

/-- A request with the parameters of its form. -/
structure Request extends HttpRequest where
  form : List (String × String)

/-- `@FormParam`: the first value of a parameter, or null. -/
def Request.formParam (request : Request) (name : String) : Option String :=
  (request.form.find? fun p => p.1 = name).map (·.2)

/-- `@NotBlank`, which null violates. -/
def notBlankParam (message : String) : Option String → List String
  | none => [message]
  | some value => notBlank message value

/-- A constraint that null satisfies. -/
def nullable (check : String → List String) : Option String → List String
  | none => []
  | some value => check value

/-- `@NotNull` with its default message. -/
def notNull : Option String → List String
  | none => ["must not be null"]
  | some _ => []

/-- The violated constraints of `createEmailAccount`. -/
def emailAccountViolations (L : Libraries H Salt) (email password : Option String) : List String :=
  notBlankParam "you need to provide a valid email address" email ++
  nullable (fun e => constraint "must be a well-formed email address" (L.isEmail e)) email ++
  nullable (size 0 256 "the email address was too long") email ++
  notBlankParam "you need to provide a password" password ++
  nullable (size 8 256 "the password must be between 8 and 256 characters long") password

/-- The violated constraints of `createAccountForIOSDevice`. -/
def iosDeviceAccountViolations (vendorId deviceName : Option String) : List String :=
  notBlankParam "you need to provide a vendor id" vendorId ++
  notBlankParam "you need to provide the name of the device" deviceName

/-- The violated constraints of `createToken`. -/
def createTokenViolations (username password : Option String) : List String :=
  notBlankParam "" username ++ notNull password

theorem emailAccountViolations_some (L : Libraries H Salt) (email password : String) :
    emailAccountViolations L (some email) (some password) =
      (Registration.email email password).violations L := rfl

theorem iosDeviceAccountViolations_some (L : Libraries H Salt) (vendorId deviceName : String) :
    iosDeviceAccountViolations (some vendorId) (some deviceName) =
      (Registration.iosDevice vendorId deviceName).violations L := rfl

theorem createTokenViolations_some (username password : String) :
    createTokenViolations (some username) (some password) = tokenViolations username :=
  List.append_nil _

/-! ## The code around the resource classes -/

/-- What the servlet container, Spring's CSRF filter and Jersey do. -/
structure Container where
  /-- the percent-decoding of a path -/
  decode : String → String
  decode_of_notMem : ∀ path : String, '%' ∉ path.toList → decode path = path
  /-- `CsrfFilter` with the `CookieCsrfTokenRepository` -/
  csrfFilter : HttpRequest → Except Throwable Unit
  /-- the request is answered by another servlet -/
  elsewhere : Request → Bool
  /-- what keeps Jersey from calling a method that matches, such as a media type -/
  rejects : Request → Option Outcome
  /-- the answer to a request that no method of the two resource classes matches -/
  unmatched : Request → Outcome
  /-- the text of a cookie in its header -/
  setCookie : NewCookie → String

/-- What answers a request: a call of the service, Jersey, or another servlet. -/
inductive Target
  | invocation (invocation : Invocation)
  /-- a parameter is null, and these constraints are violated -/
  | violations (messages : List String)
  | outcome (o : Outcome)
  | elsewhere

/-- A method whose parameters must not be null. -/
def Target.ofForm (call : String → String → Invocation) (violations : List String) :
    Option String → Option String → Target
  | some p, some q => .invocation (call p q)
  | _, _ => .violations violations

/-- The method that an operation leads to, with the parameters of the request. Its constraints
are part of the call when no parameter is null. -/
def Operation.target (L : Libraries H Salt) (request : Request) : Operation → Option Target
  | getAccounts => some (.invocation (.request .getAccounts request.cookies))
  | createEmailAccount =>
    let email := request.formParam "email"
    let password := request.formParam "password"
    some (.ofForm (fun e p => .create .api (.email e p)) (emailAccountViolations L email password)
      email password)
  | createAccountForIOSDevice =>
    let vendorId := request.formParam "vendorId"
    let deviceName := request.formParam "deviceName"
    some (.ofForm (fun v d => .create .api (.iosDevice v d))
      (iosDeviceAccountViolations vendorId deviceName) vendorId deviceName)
  | getAccountInfo => some (.invocation (.request .getAccountInfo request.cookies))
  | deleteAccount => some (.invocation (.request .deleteAccount request.cookies))
  | createToken =>
    let username := request.formParam "username"
    let password := request.formParam "password"
    some (.ofForm .createToken (createTokenViolations username password) username password)
  | openApi => none

def Container.target (C : Container) (L : Libraries H Salt) (request : Request) : Target :=
  if C.elsewhere request then .elsewhere
  else
    match C.rejects request with
    | some o => .outcome o
    | none =>
      ((dispatch request.method request.path).bind (Operation.target L request)).getD
        (.outcome (C.unmatched request))

/-- Everything that a request can call. -/
inductive Request.Calls (request : Request) : Operation → Invocation → Prop
  | getAccounts : Calls request .getAccounts (.request .getAccounts request.cookies)
  | createEmailAccount {email password : String} (email_eq : request.formParam "email" = some email)
      (password_eq : request.formParam "password" = some password) :
      Calls request .createEmailAccount (.create .api (.email email password))
  | createAccountForIOSDevice {vendorId deviceName : String}
      (vendorId_eq : request.formParam "vendorId" = some vendorId)
      (deviceName_eq : request.formParam "deviceName" = some deviceName) :
      Calls request .createAccountForIOSDevice (.create .api (.iosDevice vendorId deviceName))
  | getAccountInfo : Calls request .getAccountInfo (.request .getAccountInfo request.cookies)
  | deleteAccount : Calls request .deleteAccount (.request .deleteAccount request.cookies)
  | createToken {username password : String}
      (username_eq : request.formParam "username" = some username)
      (password_eq : request.formParam "password" = some password) :
      Calls request .createToken (.createToken username password)

theorem Target.ofForm_eq_invocation {call : String → String → Invocation} {violations : List String}
    {p q : Option String} {i : Invocation} (h : ofForm call violations p q = .invocation i) :
    ∃ a b, p = some a ∧ q = some b ∧ i = call a b := by
  cases p with
  | none => cases h
  | some a =>
    cases q with
    | none => cases h
    | some b => exact ⟨a, b, rfl, rfl, (Target.invocation.inj h).symm⟩

theorem Operation.calls_of_target {L : Libraries H Salt} {request : Request} {op : Operation}
    {i : Invocation} (h : op.target L request = some (.invocation i)) : request.Calls op i := by
  cases op with
  | getAccounts => exact Target.invocation.inj (Option.some.inj h) ▸ .getAccounts
  | getAccountInfo => exact Target.invocation.inj (Option.some.inj h) ▸ .getAccountInfo
  | deleteAccount => exact Target.invocation.inj (Option.some.inj h) ▸ .deleteAccount
  | createEmailAccount =>
    obtain ⟨email, password, he, hp, rfl⟩ := Target.ofForm_eq_invocation (Option.some.inj h)
    exact .createEmailAccount he hp
  | createAccountForIOSDevice =>
    obtain ⟨vendorId, deviceName, hv, hd, rfl⟩ := Target.ofForm_eq_invocation (Option.some.inj h)
    exact .createAccountForIOSDevice hv hd
  | createToken =>
    obtain ⟨username, password, hu, hp, rfl⟩ := Target.ofForm_eq_invocation (Option.some.inj h)
    exact .createToken hu hp
  | openApi => cases h

theorem Container.calls_of_target {C : Container} {L : Libraries H Salt} {request : Request}
    {i : Invocation} (h : C.target L request = .invocation i) :
    ∃ op, dispatch request.method request.path = some op ∧ request.Calls op i := by
  rw [target] at h
  split at h
  · cases h
  · split at h
    · cases h
    · cases hd : dispatch request.method request.path with
      | none => rw [hd] at h; cases h
      | some op =>
        rw [hd, Option.bind_some] at h
        cases ht : op.target L request with
        | none => rw [ht] at h; cases h
        | some t =>
          rw [ht] at h
          obtain rfl : t = .invocation i := h
          exact ⟨op, rfl, Operation.calls_of_target ht⟩

/-- The security filter chain: the CSRF filter, the JWT filter and the access rules. -/
def Container.filterChain (C : Container) (L : Libraries H Salt) (now : ℤ) (request : Request) :
    Except Throwable Authentication := do
  C.csrfFilter request.toHttpRequest
  secured L now (accessRule (C.decode request.path)) request.cookies

theorem Container.filterChain_eq_ok {C : Container} {L : Libraries H Salt} {now : ℤ}
    {request : Request} {a : Authentication} (h : C.filterChain L now request = .ok a) :
    C.csrfFilter request.toHttpRequest = .ok () ∧
      secured L now (accessRule (C.decode request.path)) request.cookies = .ok a := by
  obtain ⟨_, hcsrf, hsecured⟩ := Fallible.bind_eq_ok.mp h
  exact ⟨hcsrf, hsecured⟩

/-- The HTTP method of the resource method behind an operation. -/
def Operation.httpMethod : Operation → String
  | getAccounts | getAccountInfo | openApi => "GET"
  | createEmailAccount | createAccountForIOSDevice | createToken => "POST"
  | deleteAccount => "DELETE"

theorem httpMethod_of_dispatch {httpMethod path : String} {op : Operation}
    (h : dispatch httpMethod path = some op) (hop : op.httpMethod ≠ "GET") :
    httpMethod = op.httpMethod := by
  obtain ⟨rest, _, hfound⟩ := Option.bind_eq_some_iff.mp h
  obtain ⟨resource, hresource, hmethod⟩ := List.exists_of_findSome?_eq_some hfound
  obtain ⟨rest', _, hmethod⟩ := Option.bind_eq_some_iff.mp hmethod
  obtain ⟨m, hm, rfl⟩ := Option.map_eq_some_iff.mp hmethod
  have hmatches := List.find?_some hm
  have hsame : ∀ r ∈ resources, ∀ m ∈ r.2, m.httpMethod = m.operation.httpMethod := by decide
  have heq := hsame resource hresource m (List.mem_of_find?_eq_some hm)
  rw [← heq] at hop ⊢
  simp only [ResourceMethod.matches, ResourceMethod.accepts, hop, decide_false, Bool.false_and,
    Bool.or_false, Bool.and_eq_true, decide_eq_true_eq] at hmatches
  exact hmatches.1.symm

/-- The paths of the operations are plain, and the CSRF filter ignores none of them. -/
theorem csrf_of_dispatch {decode : String → String}
    (hdecode : ∀ path : String, '%' ∉ path.toList → decode path = path) {httpMethod path : String}
    {op : Operation} (h : dispatch httpMethod path = some op) :
    (csrfIgnoringPatterns.any fun pattern => antMatch pattern (decode path)) = false := by
  obtain ⟨resource, hresource, m, hm, rfl, slash, hslash, hpath⟩ := dispatch_eq_some h
  have hplain : ∀ r ∈ resources, ∀ m ∈ r.2, ∀ slash ∈ [[], ['/']],
      '%' ∉ JERSEY_BASE_PATH.toList ++ (r.1.toList ++ (m.path.toList ++ slash)) ∧
      (csrfIgnoringPatterns.any fun pattern => antMatch pattern (String.ofList
        (JERSEY_BASE_PATH.toList ++ (r.1.toList ++ (m.path.toList ++ slash))))) = false := by
    decide
  obtain ⟨hpercent, hignored⟩ := hplain resource hresource m hm slash (by simpa using hslash)
  rw [← hpath] at hpercent hignored
  rw [String.ofList_toList] at hignored
  rwa [hdecode path hpercent]

/-- The request repeats the value of its CSRF cookie, which only a page of the service can read. -/
def HttpRequest.RepeatsCsrfCookie (request : HttpRequest) : Prop :=
  ∃ c, (request.cookies.getD []).find? (fun c => c.name = "XSRF-TOKEN") = some c ∧
    c.value ≠ "" ∧ request.csrfToken = some c.value

instance (request : HttpRequest) : Decidable request.RepeatsCsrfCookie :=
  decidable_of_iff
    (((request.cookies.getD []).find? fun c => c.name = "XSRF-TOKEN").any fun c =>
      c.value ≠ "" ∧ request.csrfToken = some c.value)
    (by simp only [HttpRequest.RepeatsCsrfCookie, Option.any_eq_true, decide_eq_true_eq])

/-- The methods for which Spring's CSRF filter demands no token. -/
def safeMethods : List String := ["GET", "HEAD", "TRACE", "OPTIONS"]

/-- With the cookie repository, the CSRF filter lets a request through without a repeated cookie for
a safe method or an ignored path only. -/
def Container.ChecksCsrfToken (C : Container) : Prop :=
  ∀ request : HttpRequest, C.csrfFilter request = .ok () →
    safeMethods.contains request.method = false →
      (csrfIgnoringPatterns.any fun pattern => antMatch pattern (C.decode request.path)) = false →
        request.RepeatsCsrfCookie

/-- An operation that is not behind `GET` is called by a request that repeats its CSRF cookie. -/
theorem Container.repeatsCsrfCookie {C : Container} (hcheck : C.ChecksCsrfToken)
    {L : Libraries H Salt} {now : ℤ} {request : Request} {a : Authentication}
    (h : C.filterChain L now request = .ok a) {op : Operation}
    (hd : dispatch request.method request.path = some op) (hop : op.httpMethod ≠ "GET") :
    request.RepeatsCsrfCookie := by
  refine hcheck request.toHttpRequest (C.filterChain_eq_ok h).1 ?_
    (csrf_of_dispatch C.decode_of_notMem hd)
  rw [httpMethod_of_dispatch hd hop]
  cases op <;> first | rfl | exact absurd rfl hop

/-! ## The time of the request -/

def REQUEST_TIME : String := "REQUEST_TIME"

/-- An `Instant.now()`, a reading of the millisecond clock. -/
structure RequestTime where
  instant : Instant
  storable : (Date.ofInstant instant).isSome
  deriving DecidableEq

/-- The attributes of a request, which are the properties of its `ContainerRequestContext`, too. -/
abbrev Attributes := String → Option RequestTime

/-- `TimeFilter.filter`; `none` is the exception that it throws. -/
def TimeFilter.filter (now : RequestTime) (attributes : Attributes) : Option Attributes :=
  let attributes := Function.update attributes REQUEST_TIME (some now)
  let getProperty := attributes
  if getProperty REQUEST_TIME ≠ attributes REQUEST_TIME then none else some attributes

/-- `TimeService.getCurrentTime`; `none` is the failed cast of null. -/
def getCurrentTime (attributes : Attributes) : Option RequestTime := attributes REQUEST_TIME

theorem filter_eq_some (now : RequestTime) (attributes : Attributes) :
    ∃ attributes', TimeFilter.filter now attributes = some attributes' ∧
      getCurrentTime attributes' = some now := by
  refine ⟨_, if_neg (by simp), ?_⟩
  simp [getCurrentTime]

/-! ## The responses of the resource methods -/

/-- The response of a resource method that has returned; its entity is the result. -/
def Container.response (C : Container) : Result H → BuiltResponse
  | .noContent => ⟨⟨204, [], none⟩, by simp [Response.corsFree, Response.occurrences]⟩
  | .token token =>
    ⟨⟨200, [("Set-Cookie", C.setCookie (tokenCookie token))], none⟩,
      by simp [Response.corsFree, corsHeaders, Response.occurrences]⟩
  | .account _ | .accountDTO _ | .accountDTOs _ =>
    ⟨⟨200, [("Content-Type", "application/json")], none⟩,
      by simp [Response.corsFree, corsHeaders, Response.occurrences]⟩

def Container.outcome (C : Container) : Except Throwable (Result H) → Outcome
  | .ok result => .success (C.response result)
  | .error e => .failure e

end AuthenticationServer
