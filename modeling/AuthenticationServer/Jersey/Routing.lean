import Mathlib.Data.List.Basic

/-!
# JAX-RS routing

The paths of the resource classes under `/api` and the operation that a request path is
dispatched to. A template matches a prefix of the path that ends at a slash or at the end
of the path; what is left of the path after the template of an operation is empty or one
slash.
-/

namespace AuthenticationServer

def JERSEY_BASE_PATH : String := "/api"

def ACCOUNT_RESOURCE_BASE_PATH : String := "/accounts"

def EMAIL_ACCOUNT_CREATION_PATH : String := "/create-account-for-email-and-password"

def FULL_EMAIL_ACCOUNT_CREATION_PATH : String :=
  ACCOUNT_RESOURCE_BASE_PATH ++ EMAIL_ACCOUNT_CREATION_PATH

def ACCOUNT_CREATION_PATH_FOR_IOS_DEVICES : String := "/create-account-for-ios-device"

def FULL_ACCOUNT_CREATION_PATH_FOR_IOS_DEVICES : String :=
  ACCOUNT_RESOURCE_BASE_PATH ++ ACCOUNT_CREATION_PATH_FOR_IOS_DEVICES

def TOKENS_RESOURCE_BASE : String := "/tokens"

def TOKEN_CREATION : String := "/create-token"

def CREATE_TOKEN_PATH : String := TOKENS_RESOURCE_BASE ++ TOKEN_CREATION

/-- The operations of `AccountApi`, `TokenApi` and the OpenAPI resource. -/
inductive Operation
  | getAccounts
  | createEmailAccount
  | createAccountForIOSDevice
  | getAccountInfo
  | deleteAccount
  | createToken
  | openApi
  deriving DecidableEq, Repr

/-- A resource method: its HTTP method, and its `@Path` with a leading slash, or the empty
text for a method without one. -/
structure ResourceMethod where
  httpMethod : String
  path : String
  operation : Operation

/-- The root resources by their `@Path`, with their methods. -/
def resources : List (String × List ResourceMethod) :=
  [(ACCOUNT_RESOURCE_BASE_PATH,
    [⟨"GET", "", .getAccounts⟩,
      ⟨"POST", EMAIL_ACCOUNT_CREATION_PATH, .createEmailAccount⟩,
      ⟨"POST", ACCOUNT_CREATION_PATH_FOR_IOS_DEVICES, .createAccountForIOSDevice⟩,
      ⟨"GET", "/self", .getAccountInfo⟩,
      ⟨"DELETE", "/self", .deleteAccount⟩]),
    (TOKENS_RESOURCE_BASE, [⟨"POST", TOKEN_CREATION, .createToken⟩]),
    ("/openapi.json", [⟨"GET", "", .openApi⟩]),
    ("/openapi.yaml", [⟨"GET", "", .openApi⟩])]

/-- What a path has left after a template that matches it up to a slash or its end. -/
def remainder (template path : List Char) : Option (List Char) :=
  if template <+: path then
    match path.drop template.length with
    | [] => some []
    | '/' :: rest => some ('/' :: rest)
    | _ => none
  else none

/-- A `HEAD` request is answered by the `GET` method. -/
def ResourceMethod.accepts (m : ResourceMethod) (httpMethod : String) : Bool :=
  m.httpMethod = httpMethod || (m.httpMethod = "GET" && httpMethod = "HEAD")

/-- A resource method matches what is left of the path up to an optional trailing slash. -/
def ResourceMethod.matches (m : ResourceMethod) (httpMethod : String) (path : List Char) : Bool :=
  m.accepts httpMethod &&
    (remainder m.path.toList path = some [] || remainder m.path.toList path = some ['/'])

/-- The operation that Jersey dispatches a request to. -/
def dispatch (httpMethod path : String) : Option Operation :=
  (remainder JERSEY_BASE_PATH.toList path.toList).bind fun rest =>
    resources.findSome? fun resource =>
      (remainder resource.1.toList rest).bind fun rest =>
        (resource.2.find? fun m => m.matches httpMethod rest).map (·.operation)

theorem remainder_eq_some {template path rest : List Char}
    (h : remainder template path = some rest) : path = template ++ rest := by
  rw [remainder] at h
  split at h
  · next hp =>
    obtain ⟨t, rfl⟩ := hp
    rw [List.drop_left] at h
    split at h <;> simp_all
  · cases h

/-- A dispatched request has a path of `/api`, a root resource and one of its methods, up
to an optional trailing slash. -/
theorem dispatch_eq_some {httpMethod path : String} {op : Operation}
    (h : dispatch httpMethod path = some op) :
    ∃ resource ∈ resources, ∃ m ∈ resource.2, m.operation = op ∧
      ∃ slash, (slash = [] ∨ slash = ['/']) ∧
        path.toList = JERSEY_BASE_PATH.toList ++ (resource.1.toList ++ (m.path.toList ++ slash)) := by
  obtain ⟨rest, hrest, hop⟩ := Option.bind_eq_some_iff.mp h
  obtain ⟨resource, hres, hm⟩ := List.exists_of_findSome?_eq_some hop
  obtain ⟨rest', hrest', hm⟩ := Option.bind_eq_some_iff.mp hm
  obtain ⟨m, hfind, rfl⟩ := Option.map_eq_some_iff.mp hm
  have hmatch := List.find?_some hfind
  simp only [ResourceMethod.matches, Bool.and_eq_true, Bool.or_eq_true, decide_eq_true_eq] at hmatch
  rw [remainder_eq_some hrest, remainder_eq_some hrest']
  refine ⟨resource, hres, m, List.mem_of_find?_eq_some hfind, rfl, ?_⟩
  rcases hmatch.2 with hr | hr
  · exact ⟨[], Or.inl rfl, by rw [← remainder_eq_some hr]⟩
  · exact ⟨['/'], Or.inr rfl, by rw [← remainder_eq_some hr]⟩

end AuthenticationServer
