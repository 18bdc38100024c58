import AuthenticationServer.Library.Table
import AuthenticationServer.Services.Throwable

/-!
# Exception mappers and the CORS filter

How the outcome of an operation becomes a response. `INTERNAL_SERVER_ERROR` is one object
for the life of the process: two mappers return it, and the CORS filter adds headers to
whatever response passes through it.

## Main definitions

- `toResponse` - the mapper that Jersey selects for an exception
- `serve` - the responses to a sequence of requests
- `ResponsesIndependent` - no response depends on the requests before it

## Main results

- `serve_getElem?` - the response to the `k`-th request, in terms of the failures before it
- `responses_independent_iff` - the responses are independent as long as at most one request
  is answered with the shared object
-/

namespace AuthenticationServer

structure ErrorMessageDTO where
  code : ℕ
  message : String
  deriving DecidableEq, Repr

/-- A response: status, headers in the order they were added, and the error entity. -/
structure Response where
  status : ℕ
  headers : List (String × String)
  entity : Option ErrorMessageDTO
  deriving DecidableEq, Repr

/-- What the CORS filter adds. -/
def corsHeaders : List (String × String) :=
  [("Access-Control-Allow-Origin", "*"),
    ("Access-Control-Allow-Headers", "origin, content-type, accept, authorization"),
    ("Access-Control-Allow-Credentials", "true"),
    ("Access-Control-Allow-Methods", "GET, POST, PUT, DELETE, OPTIONS, HEAD")]

/-- `CORSFilter.filter`. -/
def corsFilter (response : Response) : Response :=
  { response with headers := response.headers ++ corsHeaders }

/-- How often a header occurs in a response. -/
def Response.occurrences (r : Response) (name : String) : ℕ :=
  r.headers.countP fun h => h.1 = name

def Response.corsFree (r : Response) : Prop := ∀ h ∈ corsHeaders, r.occurrences h.1 = 0

/-- A response that a resource method or a mapper builds: CORS headers are left to the filter. -/
structure BuiltResponse where
  response : Response
  corsFree : response.corsFree

/-- What a mapper returns: a response built for the exception, or the shared object. -/
inductive MappedResponse
  | built (r : BuiltResponse)
  | INTERNAL_SERVER_ERROR

/-- The shared object as it is created. -/
def internalServerError : Response := ⟨500, [], some ⟨500, "Internal Server Error"⟩⟩

/-- `exception.response` of a `WebApplicationException`, as its constructor builds it: a
challenge stands in a header. -/
def Throwable.response : Throwable → Option Response
  | conflictException .. => some ⟨409, [], none⟩
  | notAuthorizedException _ => some ⟨401, [], none⟩
  | challengeException challenge => some ⟨401, [("WWW-Authenticate", challenge)], none⟩
  | notFoundException _ => some ⟨404, [], none⟩
  | _ => none

/-- `exception.response.status`; only the mapper of a `WebApplicationException` reads it. -/
def Throwable.status (exception : Throwable) : ℕ :=
  (exception.response.map Response.status).getD 500

/-- `exception.message` of a `WebApplicationException`; the constructor with a challenge
leaves the default message of the status. -/
def Throwable.message : Throwable → String
  | conflictException message _ | notAuthorizedException message | notFoundException message =>
    message
  | challengeException _ => "HTTP 401 Unauthorized"
  | _ => ""

/-- `WebApplicationExceptionMapper.toResponse`. -/
def webApplicationExceptionMapper (exception : Throwable) : MappedResponse :=
  .built
    { response := ⟨exception.status, [("Content-Type", "application/json")],
        some ⟨exception.status, exception.message⟩⟩
      corsFree := by simp [Response.corsFree, corsHeaders, Response.occurrences] }

/-- `ValidationExceptionMapper.toResponse`. -/
def validationExceptionMapper : Throwable → MappedResponse
  | .constraintViolationException messages =>
    .built
      { response := ⟨400, [], some ⟨400, "\n".intercalate messages⟩⟩
        corsFree := by simp [Response.corsFree, corsHeaders, Response.occurrences] }
  | _ => .INTERNAL_SERVER_ERROR

/-- `AllExceptionMapper.toResponse`. -/
def allExceptionMapper (_exception : Throwable) : MappedResponse := .INTERNAL_SERVER_ERROR

/-- The mapper that Jersey selects: the one for the nearest superclass of the exception. -/
def toResponse (exception : Throwable) : MappedResponse :=
  if exception.isWebApplicationException then webApplicationExceptionMapper exception
  else
    match exception with
    | .constraintViolationException _ | .validationException => validationExceptionMapper exception
    | _ => allExceptionMapper exception

inductive Outcome
  | success (r : BuiltResponse)
  | failure (exception : Throwable)

def Outcome.response : Outcome → MappedResponse
  | success r => .built r
  | failure exception => toResponse exception

def Outcome.isShared (o : Outcome) : Bool :=
  match o.response with
  | .built _ => false
  | .INTERNAL_SERVER_ERROR => true

/-- One response through the CORS filter: what is sent, and the shared object afterwards. -/
def respond (shared : Response) (o : Outcome) : Response × Response :=
  match o.response with
  | .built r => (corsFilter r.response, shared)
  | .INTERNAL_SERVER_ERROR => (corsFilter shared, corsFilter shared)

/-- The responses to a sequence of requests, from the shared object on. -/
def serve (shared : Response) : List Outcome → List Response
  | [] => []
  | o :: os => (respond shared o).1 :: serve (respond shared o).2 os

/-- The shared object after the CORS filter has seen it `n` times. -/
def sharedAfter (shared : Response) : ℕ → Response
  | 0 => shared
  | n + 1 => corsFilter (sharedAfter shared n)

/-- The headers of each response are those of a run with this request alone, and each CORS
header occurs in it exactly once. -/
def ResponsesIndependent (os : List Outcome) : Prop :=
  ∀ (k : ℕ) (o : Outcome) (r : Response), os[k]? = some o →
    (serve internalServerError os)[k]? = some r →
      (∃ alone, serve internalServerError [o] = [alone] ∧ r.headers = alone.headers) ∧
      ∀ h ∈ corsHeaders, r.occurrences h.1 = 1

/-! ## The shared object along a run -/

theorem corsFilter_sharedAfter (shared : Response) (n : ℕ) :
    sharedAfter (corsFilter shared) n = corsFilter (sharedAfter shared n) := by
  induction n with
  | zero => rfl
  | succ n ih => rw [sharedAfter, ih, sharedAfter]

theorem respond_snd (shared : Response) (o : Outcome) :
    (respond shared o).2 = sharedAfter shared (if o.isShared then 1 else 0) := by
  rw [respond, Outcome.isShared]
  cases o.response <;> rfl

/-- The `k`-th response is built from the shared object as the earlier failures left it. -/
theorem serve_getElem? (shared : Response) (os : List Outcome) (k : ℕ) :
    (serve shared os)[k]? =
      os[k]?.map fun o => (respond (sharedAfter shared ((os.take k).countP Outcome.isShared)) o).1 := by
  induction os generalizing shared k with
  | nil => rfl
  | cons o os ih =>
    cases k with
    | zero => rfl
    | succ k =>
      -- a shared answer to the first request counts for all later ones
      have hshift : ∀ n, sharedAfter (respond shared o).2 n =
          sharedAfter shared (n + if o.isShared then 1 else 0) := by
        intro n
        rw [respond_snd]
        split
        · exact corsFilter_sharedAfter shared n
        · rfl
      simp only [serve, List.getElem?_cons_succ, ih, List.take_succ_cons, List.countP_cons, hshift]

theorem occurrences_corsFilter (r : Response) {h : String × String} (hh : h ∈ corsHeaders) :
    (corsFilter r).occurrences h.1 = r.occurrences h.1 + 1 := by
  have hone : ∀ h ∈ corsHeaders, corsHeaders.countP (fun h' => h'.1 = h.1) = 1 := by decide
  rw [Response.occurrences, corsFilter, List.countP_append, hone h hh]
  rfl

theorem occurrences_sharedAfter {h : String × String} (hh : h ∈ corsHeaders) (n : ℕ) :
    (sharedAfter internalServerError n).occurrences h.1 = n := by
  induction n with
  | zero => rfl
  | succ n ih => rw [sharedAfter, occurrences_corsFilter _ hh, ih]

/-- No response depends on the requests before it, and each CORS header occurs in it once,
exactly when at most one request of the sequence is answered with the shared object. -/
theorem responses_independent_iff (os : List Outcome) :
    ResponsesIndependent os ↔ os.countP Outcome.isShared ≤ 1 := by
  rw [Table.countP_le_one_iff]
  constructor
  · intro h k o hk ho
    obtain ⟨h', hmem⟩ : ∃ h', h' ∈ corsHeaders := ⟨_, List.mem_cons_self⟩
    have hr := serve_getElem? internalServerError os k
    rw [hk, Option.map_some] at hr
    have hone := (h k o _ hk hr).2 _ hmem
    rw [Outcome.isShared] at ho
    cases hresp : o.response with
    | built r => rw [hresp] at ho; cases ho
    | INTERNAL_SERVER_ERROR =>
      rw [respond, hresp, occurrences_corsFilter _ hmem, occurrences_sharedAfter hmem] at hone
      omega
  · intro h k o r hk hr
    rw [serve_getElem?, hk, Option.map_some, Option.some.injEq] at hr
    subst hr
    cases hresp : o.response with
    | built r =>
      have hsame : ∀ shared, (respond shared o).1 = corsFilter r.response := by
        intro shared
        rw [respond, hresp]
      refine ⟨⟨_, rfl, ?_⟩, fun h' hmem => ?_⟩
      · rw [hsame, hsame]
      · rw [hsame, occurrences_corsFilter _ hmem, r.corsFree h' hmem]
    | INTERNAL_SERVER_ERROR =>
      have hshared : o.isShared = true := by rw [Outcome.isShared, hresp]
      rw [h k o hk hshared]
      refine ⟨⟨_, rfl, rfl⟩, fun h' hmem => ?_⟩
      rw [respond, hresp, occurrences_corsFilter _ hmem, occurrences_sharedAfter hmem]

/-- The second of two requests that fail with an unmapped exception is answered with every
CORS header twice. -/
theorem second_failure_repeats_headers :
    ¬ ResponsesIndependent
      [.failure .dataIntegrityViolationException, .failure .dataIntegrityViolationException] := by
  intro h
  have hone := (h 1 _ _ rfl rfl).2 ("Access-Control-Allow-Origin", "*") (by decide)
  revert hone
  decide

end AuthenticationServer
