import AuthenticationServer.Jersey.Resources
import AuthenticationServer.System.Ledger
import AuthenticationServer.System.Timestamps

/-!
# Requests and their responses

Any number of requests in front of the running service. A request passes the filter chain and
makes at most one call, whose steps come in between those of the other calls; when the call has
ended, the request is answered.

## Main definitions

- `Exchange` - a request and what has become of it
- `Server` - the service, the exchanges, and the shared response
- `Server.step` - a request arrives, its call takes a step, or it is answered
- `Server.Follows` - how a later state of the server continues an earlier one

## Main results

- `Server.step_cases` - everything that a step can do
- `service_of_reachable` - what the service does behind its requests is a run of the service
- `linked_of_reachable` - every call is the call of one exchange, and has its time and its reply
- `follows_of_exec` - exchanges keep their request and their call, and their answer once they have it
-/

namespace AuthenticationServer

open Java Machine

variable {H Salt : Type}

/-- What the call reads, at the time of its request. -/
def Ambient.requestedAt (w : Ambient Salt) (now : RequestTime) : Ambient Salt :=
  { w with requestTime := now.instant, storable := now.storable }

/-- How a call has ended. -/
def Client.outcome (c : Client H) : Option (Except Throwable (Result H)) :=
  match c.stage with
  | .done outcome => some outcome
  | _ => none

theorem Client.outcome_eq_some {c : Client H} {outcome : Except Throwable (Result H)} :
    c.outcome = some outcome ↔ c.stage = .done outcome := by
  rw [Client.outcome]
  cases c.stage <;> simp

/-- How far an exchange has come. -/
inductive Progress
  /-- the filter chain has thrown -/
  | rejected (exception : Throwable)
  /-- another servlet answers -/
  | elsewhere
  /-- Jersey answers without a call of the services -/
  | answered (o : Outcome)
  /-- the resource method has made the call with this number -/
  | calling (client : ℕ)

def Progress.client : Progress → Option ℕ
  | calling client => some client
  | _ => none

theorem Progress.client_eq_some {p : Progress} {i : ℕ} : p.client = some i ↔ p = .calling i := by
  cases p <;> simp [client]

/-- What a client is sent. The entity of a success is the result of the call. -/
inductive Reply (H : Type)
  | rejected (exception : Throwable)
  | elsewhere
  | response (response : Response) (entity : Option (Result H))

structure Exchange (H : Type) where
  request : Request
  attributes : Attributes
  progress : Progress
  reply : Option (Reply H)

/-- The service behind its requests. `shared` is the object `INTERNAL_SERVER_ERROR`. -/
structure Server (H : Type) where
  service : State H
  exchanges : List (Exchange H)
  shared : Response

/-- A new request, a turn for the call of an exchange, or its answer. -/
inductive Event (Salt : Type)
  | arrive (request : Request) (now : RequestTime) (w : Ambient Salt)
  | work (exchange : ℕ) (w : Ambient Salt)
  | answer (exchange : ℕ)

/-- The actions of the service when a request makes a call: the call, and its way through the
filter chain where that is a part of it. -/
def Invocation.begin (i : ℕ) (w : Ambient Salt) : Invocation → List (Action Salt)
  | request operation cookies => [.call (.request operation cookies), .advance i w]
  | invocation => [.call invocation]

namespace Server

def init : Server H := ⟨State.init, [], internalServerError⟩

def noAttributes : Attributes := fun _ => none

/-- The server with a new exchange. -/
def receive (s : Server H) (x : Exchange H) : Server H := { s with exchanges := s.exchanges ++ [x] }

def arrive (C : Container) (L : Libraries H Salt) (s : Server H) (request : Request)
    (now : RequestTime) (w : Ambient Salt) : Option (Server H) :=
  match C.filterChain L w.currentTimeMillis request with
  | .error e => some (s.receive ⟨request, noAttributes, .rejected e, none⟩)
  | .ok _ =>
    match C.target L request with
    | .elsewhere => some (s.receive ⟨request, noAttributes, .elsewhere, none⟩)
    | .violations messages =>
      let e := .constraintViolationException (w.violationOrder messages)
      some (s.receive ⟨request, noAttributes, .answered (.failure e), none⟩)
    | .outcome o => some (s.receive ⟨request, noAttributes, .answered o, none⟩)
    | .invocation invocation =>
      match TimeFilter.filter now noAttributes with
      -- a `RuntimeException`, for which Jersey selects the same mapper
      | none =>
        some (s.receive ⟨request, noAttributes, .answered (.failure .illegalStateException), none⟩)
      | some attributes =>
        let i := s.service.clients.length
        (exec (AuthenticationServer.step L) s.service (invocation.begin i w)).map fun service =>
          { s with service := service }.receive ⟨request, attributes, .calling i, none⟩

/-- A turn for the call of an exchange, which reads the time from the attributes. -/
def work (L : Libraries H Salt) (s : Server H) (k : ℕ) (w : Ambient Salt) : Option (Server H) := do
  let x ← s.exchanges[k]?
  let i ← x.progress.client
  let now ← getCurrentTime x.attributes
  let service ← AuthenticationServer.step L s.service (.advance i (w.requestedAt now))
  return { s with service := service }

/-- What an exchange is answered with once it can be, and the shared response afterwards. -/
def reply (C : Container) (service : State H) (shared : Response) :
    Progress → Option (Reply H × Response)
  | .rejected e => some (.rejected e, shared)
  | .elsewhere => some (.elsewhere, shared)
  | .answered o => some (.response (respond shared o).1 none, (respond shared o).2)
  | .calling i =>
    (service.clients[i]?.bind Client.outcome).map fun outcome =>
      (.response (respond shared (C.outcome outcome)).1 outcome.toOption,
        (respond shared (C.outcome outcome)).2)

def answer (C : Container) (s : Server H) (k : ℕ) : Option (Server H) := do
  let x ← s.exchanges[k]?
  guard x.reply.isNone
  let (reply, shared) ← reply C s.service s.shared x.progress
  return { s with exchanges := s.exchanges.set k { x with reply := some reply }, shared := shared }

def step (C : Container) (L : Libraries H Salt) (s : Server H) : Event Salt → Option (Server H)
  | .arrive request now w => arrive C L s request now w
  | .work k w => work L s k w
  | .answer k => answer C s k

/-- Everything that a step can do. -/
inductive Next (C : Container) (L : Libraries H Salt) (s : Server H) : Server H → Prop
  /-- a request has arrived that makes no call -/
  | received (request : Request) (progress : Progress) (client : progress.client = none) :
      Next C L s (s.receive ⟨request, noAttributes, progress, none⟩)
  /-- a request has arrived and made a call -/
  | called {request : Request} {w : Ambient Salt} {a : Authentication} {invocation : Invocation}
      {now : RequestTime} {attributes : Attributes} {service : State H}
      (admitted : C.filterChain L w.currentTimeMillis request = .ok a)
      (target : C.target L request = .invocation invocation)
      (time : getCurrentTime attributes = some now)
      (run : exec (AuthenticationServer.step L) s.service
        (invocation.begin s.service.clients.length w) = some service) :
      Next C L s ({ s with service := service }.receive
        ⟨request, attributes, .calling s.service.clients.length, none⟩)
  /-- the call of an exchange has taken a step -/
  | worked {k i : ℕ} {x : Exchange H} {now : RequestTime} {w : Ambient Salt} {service : State H}
      (exchange : s.exchanges[k]? = some x) (progress : x.progress = .calling i)
      (time : getCurrentTime x.attributes = some now)
      (step : AuthenticationServer.step L s.service (.advance i (w.requestedAt now)) =
        some service) :
      Next C L s { s with service := service }
  /-- an exchange was answered -/
  | answered {k : ℕ} {x : Exchange H} {r : Reply H} {shared : Response}
      (exchange : s.exchanges[k]? = some x) (unanswered : x.reply = none)
      (reply : reply C s.service s.shared x.progress = some (r, shared)) :
      Next C L s { s with
        exchanges := s.exchanges.set k { x with reply := some r }, shared := shared }

theorem next_arrive {C : Container} {L : Libraries H Salt} {s s' : Server H} {request : Request}
    {now : RequestTime} {w : Ambient Salt} (h : arrive C L s request now w = some s') :
    Next C L s s' := by
  rw [arrive] at h
  cases hchain : C.filterChain L w.currentTimeMillis request with
  | error e =>
    rw [hchain] at h
    exact Option.some.inj h ▸ .received request (.rejected e) rfl
  | ok a =>
    cases htarget : C.target L request with
    | elsewhere =>
      rw [hchain, htarget] at h
      exact Option.some.inj h ▸ .received request .elsewhere rfl
    | violations messages =>
      rw [hchain, htarget] at h
      exact Option.some.inj h ▸ .received request (.answered _) rfl
    | outcome o =>
      rw [hchain, htarget] at h
      exact Option.some.inj h ▸ .received request (.answered o) rfl
    | invocation invocation =>
      obtain ⟨attributes, hfilter, htime⟩ := filter_eq_some now noAttributes
      simp only [hchain, htarget, hfilter] at h
      obtain ⟨service, hservice, rfl⟩ := Option.map_eq_some_iff.mp h
      exact .called hchain htarget htime hservice

theorem next_work {C : Container} {L : Libraries H Salt} {s s' : Server H} {k : ℕ}
    {w : Ambient Salt} (h : work L s k w = some s') : Next C L s s' := by
  obtain ⟨x, hx, h⟩ := Option.bind_eq_some_iff.mp h
  obtain ⟨i, hi, h⟩ := Option.bind_eq_some_iff.mp h
  obtain ⟨now, hnow, h⟩ := Option.bind_eq_some_iff.mp h
  obtain ⟨service, hservice, h⟩ := Option.bind_eq_some_iff.mp h
  exact Option.some.inj h ▸ .worked hx (Progress.client_eq_some.mp hi) hnow hservice

theorem next_answer {C : Container} {L : Libraries H Salt} {s s' : Server H} {k : ℕ}
    (h : answer C s k = some s') : Next C L s s' := by
  obtain ⟨x, hx, h⟩ := Option.bind_eq_some_iff.mp h
  obtain ⟨_, hopen, h⟩ := Option.bind_eq_some_iff.mp h
  obtain ⟨⟨r, shared⟩, hr, h⟩ := Option.bind_eq_some_iff.mp h
  have hnone : x.reply = none := by
    cases hreply : x.reply with
    | none => rfl
    | some r => simp [hreply, guard, failure] at hopen
  exact Option.some.inj h ▸ .answered hx hnone hr

theorem step_cases {C : Container} {L : Libraries H Salt} {s s' : Server H} {e : Event Salt}
    (h : step C L s e = some s') : Next C L s s' := by
  cases e with
  | arrive request now w => exact next_arrive h
  | work k w => exact next_work h
  | answer k => exact next_answer h

end Server

/-! ## The call of a request -/

/-- A new call, after its way through the filter chain where that is a part of it. -/
def Client.arrived (L : Libraries H Salt) (now : ℤ) : Invocation → Client H
  | .request operation cookies =>
    ((call (.request operation cookies)).enter L now cookies).client
  | invocation => call invocation

theorem Client.enter_client_of_ok {L : Libraries H Salt} {now : ℤ} {cookies : Option (List Cookie)}
    {a : Authentication} (h : secured L now .authenticated cookies = .ok a) (c : Client H) :
    (c.enter L now cookies).client =
      { c with stage := .secured, presentedAt := some now, authentication := some a } := by
  rw [enter, h]
  rfl

theorem Client.arrived_invocation (L : Libraries H Salt) (now : ℤ) (invocation : Invocation) :
    (arrived L now invocation : Client H).invocation = invocation := by
  cases invocation with
  | request operation cookies =>
    rw [arrived, enter]
    split <;> rfl
  | _ => rfl

/-- The arrival of a request at the service: its call is added, and nothing else changes. -/
theorem exec_begin (L : Libraries H Salt) (w : Ambient Salt) (s : State H)
    (invocation : Invocation) :
    exec (step L) s (invocation.begin s.clients.length w) =
      some { s with clients := s.clients ++ [Client.arrived L w.currentTimeMillis invocation] } := by
  cases invocation with
  | request operation cookies =>
    have hclient : (s.add (.request operation cookies)).clients[s.clients.length]? =
        some (Client.call (.request operation cookies)) := List.getElem?_concat_length
    have hnext : (Client.call (.request operation cookies)).next L w s.store =
        some ((Client.call (.request operation cookies)).enter L w.currentTimeMillis cookies) := by
      cases operation <;> rfl
    -- the filter chain draws no ids, signs nothing and writes nothing
    have hquiet : ∀ c : Client H, (c.enter L w.currentTimeMillis cookies).drawnIds = [] ∧
        (c.enter L w.currentTimeMillis cookies).signed = [] ∧
        (c.enter L w.currentTimeMillis cookies).write = none := by
      intro c
      rw [Client.enter]
      split <;> exact ⟨rfl, rfl, rfl⟩
    obtain ⟨hids, hsigned, hwrite⟩ := hquiet (Client.call (.request operation cookies))
    have hfresh : (s.add (.request operation cookies)).Fresh
        ((Client.call (.request operation cookies)).enter L w.currentTimeMillis cookies) := by
      rw [State.Fresh, hids]
      simp
    have hset : (s.clients ++ [Client.call (.request operation cookies)]).set s.clients.length
        (Client.arrived L w.currentTimeMillis (.request operation cookies)) =
          s.clients ++ [Client.arrived L w.currentTimeMillis (.request operation cookies)] := by
      simp
    have hstep : step L (s.add (.request operation cookies)) (.advance s.clients.length w) =
        some ((s.add (.request operation cookies)).apply s.clients.length
          ((Client.call (.request operation cookies)).enter L w.currentTimeMillis cookies)) := by
      simp only [step, hclient]
      rw [State.add, hnext]
      exact if_pos hfresh
    rw [Invocation.begin, exec, step, Option.bind_some, exec, hstep, Option.bind_some, exec_nil,
      State.apply, hids, hsigned, hwrite]
    simp only [State.add, List.append_nil, Option.map_none, Option.getD_none, Option.toList_none,
      List.map_nil]
    exact congrArg some (congrArg (fun clients => { s with clients := clients }) hset)
  | _ => rfl

/-- What a call has stored, or is about to store, has the time of its request. -/
structure Timed (now : RequestTime) (service : State H) (i : ℕ) (c : Client H) : Prop where
  pending : ∀ account : Account H, c.stage = .save account → account.CreatedAt now.instant
  inserted : ∀ rows : Store H, .insert rows ∈ service.writesOf i →
    ∀ d ∈ rows.times, Date.ofInstant now.instant = some d

/-- An exchange and the call that it has made. -/
structure Made (C : Container) (L : Libraries H Salt) (service : State H) (x : Exchange H) (i : ℕ)
    (c : Client H) : Prop where
  client : service.clients[i]? = some c
  target : C.target L x.request = .invocation c.invocation
  admitted : ∃ now a, C.filterChain L now x.request = .ok a ∧
    ∀ operation cookies, c.invocation = .request operation cookies →
      c.stage ≠ .start ∧ c.presentedAt = some now ∧ c.authentication = some a
  timed : ∃ now, getCurrentTime x.attributes = some now ∧ Timed now service i c

/-- The steps of other calls change nothing for an exchange. -/
theorem Made.frame {C : Container} {L : Libraries H Salt} {service service' : State H}
    {x : Exchange H} {i : ℕ} {c : Client H} (h : Made C L service x i c)
    (hclient : service'.clients[i]? = service.clients[i]?)
    (hwrites : service'.writesOf i = service.writesOf i) : Made C L service' x i c where
  client := hclient.trans h.client
  target := h.target
  admitted := h.admitted
  timed := by
    obtain ⟨now, hnow, htimed⟩ := h.timed
    exact ⟨now, hnow, htimed.pending, by rw [hwrites]; exact htimed.inserted⟩

theorem catchDataIntegrityViolation_eq_ok {α : Type} {message : String} {x : Except Throwable α}
    {a : α} (h : catchDataIntegrityViolation message x = .ok a) : x = .ok a := by
  cases x with
  | ok b => exact h
  | error e => cases e <;> cases h

theorem Registration.insertedRows_of_commit {L : Libraries H Salt} {s : Store H} {caller : Caller}
    {account : Account H} {r : Registration} {rows : Store H}
    (h : r.commit L s caller account = .ok rows) : insertedRows L s account = .ok rows := by
  rw [commit] at h
  split at h
  · exact h
  · exact catchDataIntegrityViolation_eq_ok h

/-- What a step of a call at the time of its request stores has this time. -/
theorem Timed.apply {L : Libraries H Salt} {now : RequestTime} {s : State H} {i : ℕ} {c : Client H}
    (h : Timed now s i c) {w : Ambient Salt} {e : Effect H}
    (hn : Client.Next L (w.requestedAt now) s.store c e) : Timed now (s.apply i e) i e.client where
  pending := by
    intro account hstage
    cases hn with
    | prepared =>
      obtain rfl := Stage.save.inj hstage
      exact Registration.createdAt_account L (w.requestedAt now) _
    | _ => cases hstage
  inserted := by
    intro rows hrows
    rw [writesOf_apply, if_pos rfl] at hrows
    cases List.mem_append.mp hrows with
    | inl hold => exact h.inserted rows hold
    | inr hnew =>
      rw [Option.mem_toList] at hnew
      cases hn with
      | committed _ stage commit =>
        obtain rfl := Write.insert.inj (Option.some.inj hnew)
        exact insertedRows_times (h.pending _ stage) (Registration.insertedRows_of_commit commit)
      | _ => cases hnew

/-- After the filter chain, only the stage of a call changes. -/
theorem Client.next_client {L : Libraries H Salt} {w : Ambient Salt} {s : Store H} {c : Client H}
    {e : Effect H} (he : c.next L w s = some e) (hstage : c.stage ≠ .start) :
    ∃ stage, e.client = { c with stage := stage } := by
  have hlookUp : ∀ c : Client H, ∃ stage, (c.lookUp s).client = { c with stage := stage } := by
    intro c
    rw [lookUp]
    split <;> exact ⟨_, rfl⟩
  obtain ⟨invocation, stage, presentedAt, authentication⟩ := c
  cases stage with
  | start => exact absurd rfl hstage
  | save account =>
    cases invocation with
    | create caller r =>
      cases hc : r.commit L s caller account <;> simp only [next, hc, Option.some.injEq] at he <;>
        exact he ▸ ⟨_, rfl⟩
    | request operation cookies => cases operation <;> cases he
    | _ => cases he
  | sign account =>
    cases invocation with
    | createToken username password => exact Option.some.inj he ▸ ⟨_, rfl⟩
    | request operation cookies => cases operation <;> cases he
    | _ => cases he
  | secured =>
    cases invocation with
    | request operation cookies =>
      cases operation with
      | deleteAccount => exact Option.some.inj he ▸ hlookUp _
      | _ => exact Option.some.inj he ▸ ⟨_, rfl⟩
    | _ => cases he
  | delete account =>
    cases invocation with
    | request operation cookies =>
      cases operation with
      | deleteAccount => exact Option.some.inj he ▸ ⟨_, rfl⟩
      | _ => cases he
    | deleteAccount userPrincipal => exact Option.some.inj he ▸ ⟨_, rfl⟩
    | _ => cases he
  | done outcome =>
    cases invocation with
    | request operation cookies => cases operation <;> cases he
    | _ => cases he

theorem Made.advance {C : Container} {L : Libraries H Salt} {s s' : State H} {x : Exchange H}
    {i : ℕ} {c : Client H} (h : Made C L s x i c) {now : RequestTime} {w : Ambient Salt}
    (hnow : getCurrentTime x.attributes = some now)
    (hs : step L s (.advance i (w.requestedAt now)) = some s') : ∃ d, Made C L s' x i d := by
  obtain ⟨d, e, hd, he, _, rfl⟩ := step_advance hs
  obtain rfl := Option.some.inj (h.client.symm.trans hd)
  have hn := Client.next_cases he
  refine ⟨e.client, clients_apply_self hd, by rw [hn.frame.1]; exact h.target, ?_, ?_⟩
  · obtain ⟨time, a, hchain, hentered⟩ := h.admitted
    refine ⟨time, a, hchain, fun operation cookies hinvocation => ⟨hn.frame.2.1, ?_⟩⟩
    obtain ⟨hstage, hpresented, hauth⟩ :=
      hentered operation cookies (hn.frame.1.symm.trans hinvocation)
    obtain ⟨_, hclient⟩ := Client.next_client he hstage
    rw [hclient]
    exact ⟨hpresented, hauth⟩
  · obtain ⟨now', hnow', htimed⟩ := h.timed
    obtain rfl := Option.some.inj (hnow.symm.trans hnow')
    exact ⟨now, hnow, htimed.apply hn⟩

/-- A request that is admitted, and makes a call, makes it with the authentication that the filter
chain has set. -/
theorem Client.arrived_authentication {C : Container} {L : Libraries H Salt} {now : ℤ}
    {request : Request} {a : Authentication} (hchain : C.filterChain L now request = .ok a)
    {operation : AccountOperation} {cookies : Option (List Cookie)}
    (htarget : C.target L request = .invocation (.request operation cookies)) :
    (arrived L now (.request operation cookies) : Client H).stage = .secured ∧
      (arrived L now (.request operation cookies) : Client H).presentedAt = some now ∧
      (arrived L now (.request operation cookies) : Client H).authentication = some a := by
  obtain ⟨op, hdispatch, hcalls⟩ := C.calls_of_target htarget
  have hprotected : op.isProtected = true ∧ cookies = request.cookies := by
    cases hcalls <;> exact ⟨rfl, rfl⟩
  obtain ⟨hop, rfl⟩ := hprotected
  have hsecured := (C.filterChain_eq_ok hchain).2
  rw [accessRule_protected C.decode_of_notMem hdispatch hop] at hsecured
  rw [arrived, enter_client_of_ok hsecured]
  exact ⟨rfl, rfl, rfl⟩

/-- What holds of the exchanges in every reachable state. -/
structure Linked (C : Container) (L : Libraries H Salt) (s : Server H) : Prop where
  /-- the calls of the exchanges, in their order, are the calls of the service -/
  clients : s.exchanges.filterMap (fun x => x.progress.client) =
    List.range s.service.clients.length
  made : ∀ (k : ℕ) (x : Exchange H) (i : ℕ), s.exchanges[k]? = some x → x.progress = .calling i →
    ∃ c, Made C L s.service x i c
  replied : ∀ (k : ℕ) (x : Exchange H) (r : Reply H), s.exchanges[k]? = some x →
    x.reply = some r → ∃ n shared,
      Server.reply C s.service (sharedAfter internalServerError n) x.progress = some (r, shared)
  shared : ∃ n, s.shared = sharedAfter internalServerError n

theorem linked_init (C : Container) (L : Libraries H Salt) : Linked C L Server.init where
  clients := rfl
  made := by intro k x i hx; cases hx
  replied := by intro k x r hx; cases hx
  shared := ⟨0, rfl⟩

/-- An exchange that has come to its end stays there. -/
theorem reply_extends {C : Container} {service service' : State H} (hext : Extends service service')
    {shared : Response} {p : Progress} {y : Reply H × Response}
    (h : Server.reply C service shared p = some y) : Server.reply C service' shared p = some y := by
  cases p with
  | calling i =>
    obtain ⟨outcome, houtcome, rfl⟩ := Option.map_eq_some_iff.mp h
    obtain ⟨c, hc, hdone⟩ := Option.bind_eq_some_iff.mp houtcome
    have hstage := Client.outcome_eq_some.mp hdone
    have hsame := hext.done i c hc (by rw [Client.isDone, hstage])
    rw [Server.reply, hsame, Option.bind_some, hdone]
    rfl
  | _ => exact h

/-- The shared response is the object as it was created, with what the CORS filter has added. -/
theorem shared_of_reply {C : Container} {service : State H} {n : ℕ} {p : Progress} {r : Reply H}
    {shared : Response}
    (h : Server.reply C service (sharedAfter internalServerError n) p = some (r, shared)) :
    ∃ m, shared = sharedAfter internalServerError m := by
  have hrespond : ∀ o, ∃ m, (respond (sharedAfter internalServerError n) o).2 =
      sharedAfter internalServerError m := by
    intro o
    rw [respond_snd]
    split
    · exact ⟨n + 1, rfl⟩
    · exact ⟨n, rfl⟩
  cases p with
  | rejected e => exact ⟨n, (congrArg Prod.snd (Option.some.inj h)).symm⟩
  | elsewhere => exact ⟨n, (congrArg Prod.snd (Option.some.inj h)).symm⟩
  | answered o =>
    obtain rfl : (respond _ o).2 = shared := congrArg Prod.snd (Option.some.inj h)
    exact hrespond o
  | calling i =>
    obtain ⟨outcome, _, hy⟩ := Option.map_eq_some_iff.mp h
    obtain rfl : (respond _ (C.outcome outcome)).2 = shared := congrArg Prod.snd hy
    exact hrespond (C.outcome outcome)

theorem Linked.lt_length {C : Container} {L : Libraries H Salt} {s : Server H} (h : Linked C L s)
    {k : ℕ} {x : Exchange H} {i : ℕ} (hx : s.exchanges[k]? = some x)
    (hi : x.progress = .calling i) : i < s.service.clients.length := by
  obtain ⟨c, hc⟩ := h.made k x i hx hi
  exact (List.getElem?_eq_some_iff.mp hc.client).1

/-- A call is the call of one exchange only. -/
theorem Linked.unique {C : Container} {L : Libraries H Salt} {s : Server H} (h : Linked C L s)
    {k l : ℕ} {x y : Exchange H} {i : ℕ} (hx : s.exchanges[k]? = some x)
    (hy : s.exchanges[l]? = some y) (hxi : x.progress = .calling i) (hyi : y.progress = .calling i) :
    k = l := by
  have hnodup : (s.exchanges.filterMap fun x => x.progress.client).Nodup := by
    rw [h.clients]
    exact List.nodup_range
  exact Table.index_unique_of_nodup hnodup hx hy (Progress.client_eq_some.mpr hxi)
    (Progress.client_eq_some.mpr hyi)

/-- Every call is the call of an exchange. -/
theorem Linked.owner {C : Container} {L : Libraries H Salt} {s : Server H} (h : Linked C L s)
    {i : ℕ} (hi : i < s.service.clients.length) :
    ∃ (k : ℕ) (x : Exchange H), s.exchanges[k]? = some x ∧ x.progress = .calling i := by
  have hmem : i ∈ s.exchanges.filterMap fun x => x.progress.client := by
    rw [h.clients]
    exact List.mem_range.mpr hi
  obtain ⟨x, hx, hclient⟩ := List.mem_filterMap.mp hmem
  obtain ⟨k, hk⟩ := List.mem_iff_getElem?.mp hx
  exact ⟨k, x, hk, Progress.client_eq_some.mp hclient⟩

theorem Linked.received {C : Container} {L : Libraries H Salt} {s : Server H} (h : Linked C L s)
    (request : Request) {progress : Progress} (hclient : progress.client = none) :
    Linked C L (s.receive ⟨request, Server.noAttributes, progress, none⟩) where
  clients := by
    rw [Server.receive, List.filterMap_append, h.clients]
    simp [hclient]
  made := by
    intro k x i hx hi
    cases Table.getElem?_concat hx with
    | inl hold => exact h.made k x i hold hi
    | inr hnew =>
      obtain ⟨_, rfl⟩ := hnew
      rw [Progress.client_eq_some.mpr hi] at hclient
      cases hclient
  replied := by
    intro k x r hx hr
    cases Table.getElem?_concat hx with
    | inl hold => exact h.replied k x r hold hr
    | inr hnew =>
      obtain ⟨_, rfl⟩ := hnew
      cases hr
  shared := h.shared

theorem Linked.called {C : Container} {L : Libraries H Salt} {s : Server H} (h : Linked C L s)
    (hindexed : ∀ t ∈ s.service.log, t.1 < s.service.clients.length) {request : Request}
    {w : Ambient Salt} {a : Authentication} {invocation : Invocation} {now : RequestTime}
    {attributes : Attributes} {service : State H}
    (admitted : C.filterChain L w.currentTimeMillis request = .ok a)
    (target : C.target L request = .invocation invocation)
    (time : getCurrentTime attributes = some now)
    (run : exec (step L) s.service (invocation.begin s.service.clients.length w) = some service) :
    Linked C L ({ s with service := service }.receive
      ⟨request, attributes, .calling s.service.clients.length, none⟩) := by
  have hext := extends_of_exec run
  rw [exec_begin] at run
  obtain rfl := Option.some.inj run
  refine ⟨?_, ?_, ?_, h.shared⟩
  · rw [Server.receive, List.filterMap_append, h.clients, List.length_append, List.length_singleton,
      List.range_succ]
    rfl
  · intro k x i hx hi
    cases Table.getElem?_concat hx with
    | inl hold =>
      obtain ⟨c, hc⟩ := h.made k x i hold hi
      refine ⟨c, hc.frame ?_ rfl⟩
      exact List.getElem?_append_left (h.lt_length hold hi)
    | inr hnew =>
      obtain ⟨_, rfl⟩ := hnew
      obtain rfl := Progress.calling.inj hi
      refine ⟨Client.arrived L w.currentTimeMillis invocation, List.getElem?_concat_length, ?_,
        ⟨_, a, admitted, ?_⟩, ⟨now, time, ?_, ?_⟩⟩
      · rw [Client.arrived_invocation]
        exact target
      · intro operation cookies hinvocation
        rw [Client.arrived_invocation] at hinvocation
        obtain rfl := hinvocation
        obtain ⟨hstage, hentered⟩ := Client.arrived_authentication (H := H) admitted target
        rw [hstage]
        exact ⟨by rintro ⟨⟩, hentered⟩
      · intro account hstage
        cases invocation with
        | request operation cookies =>
          rw [(Client.arrived_authentication admitted target).1] at hstage
          cases hstage
        | _ => cases hstage
      · intro rows hrows
        rw [State.writesOf, List.mem_map] at hrows
        obtain ⟨t, ht, _⟩ := hrows
        have hlt := hindexed t (List.mem_filter.mp ht).1
        have heq := (List.mem_filter.mp ht).2
        simp only [decide_eq_true_eq] at heq
        omega
  · intro k x r hx hr
    cases Table.getElem?_concat hx with
    | inl hold =>
      obtain ⟨n, shared, hreply⟩ := h.replied k x r hold hr
      exact ⟨n, shared, reply_extends hext hreply⟩
    | inr hnew =>
      obtain ⟨_, rfl⟩ := hnew
      cases hr

theorem Linked.worked {C : Container} {L : Libraries H Salt} {s : Server H} (h : Linked C L s)
    {k i : ℕ} {x : Exchange H} {now : RequestTime} {w : Ambient Salt} {service : State H}
    (hx : s.exchanges[k]? = some x) (hi : x.progress = .calling i)
    (hnow : getCurrentTime x.attributes = some now)
    (hs : step L s.service (.advance i (w.requestedAt now)) = some service) :
    Linked C L { s with service := service } := by
  have hext := extends_of_step hs
  refine ⟨?_, ?_, ?_, h.shared⟩
  · obtain ⟨c, e, _, _, _, rfl⟩ := step_advance hs
    simp only [State.apply, List.length_set]
    exact h.clients
  · intro l y j hy hj
    obtain ⟨c, hc⟩ := h.made l y j hy hj
    by_cases hij : j = i
    · subst hij
      obtain rfl := h.unique hx hy hi hj
      obtain rfl := Option.some.inj (hx.symm.trans hy)
      exact hc.advance hnow hs
    · obtain ⟨d, e, _, _, _, rfl⟩ := step_advance hs
      refine ⟨c, hc.frame (clients_apply_of_ne hij) ?_⟩
      rw [writesOf_apply, if_neg (Ne.symm hij), List.append_nil]
  · intro l y r hy hr
    obtain ⟨n, shared, hreply⟩ := h.replied l y r hy hr
    exact ⟨n, shared, reply_extends hext hreply⟩

theorem Linked.answered {C : Container} {L : Libraries H Salt} {s : Server H} (h : Linked C L s)
    {k : ℕ} {x : Exchange H} {r : Reply H} {shared : Response} (hx : s.exchanges[k]? = some x)
    (hreply : Server.reply C s.service s.shared x.progress = some (r, shared)) :
    Linked C L { s with
      exchanges := s.exchanges.set k { x with reply := some r }, shared := shared } := by
  obtain ⟨n, hn⟩ := h.shared
  rw [hn] at hreply
  refine ⟨?_, ?_, ?_, shared_of_reply hreply⟩
  · rw [← h.clients]
    exact Table.filterMap_set_of_eq hx rfl
  · intro l y i hy hi
    cases Table.getElem?_set_cases hy with
    | inl hold => exact h.made l y i hold hi
    | inr hnew =>
      obtain ⟨rfl, rfl⟩ := hnew
      obtain ⟨c, hc⟩ := h.made l x i hx hi
      exact ⟨c, hc.client, hc.target, hc.admitted, hc.timed⟩
  · intro l y r' hy hr
    cases Table.getElem?_set_cases hy with
    | inl hold => exact h.replied l y r' hold hr
    | inr hnew =>
      obtain ⟨rfl, rfl⟩ := hnew
      obtain rfl := Option.some.inj hr
      exact ⟨n, shared, hreply⟩

/-- What the service does behind one step of the server is a run of the service. -/
theorem service_step {C : Container} {L : Libraries H Salt} {s s' : Server H} {e : Event Salt}
    (h : Server.step C L s e = some s') : Reachable (step L) s.service s'.service := by
  cases Server.step_cases h with
  | received => exact .refl _
  | called _ _ _ run => exact ⟨_, run⟩
  | worked _ _ _ hs => exact (Reachable.refl _).tail hs
  | answered => exact .refl _

theorem service_of_reachable {C : Container} {L : Libraries H Salt} {s : Server H}
    (h : Reachable (Server.step C L) Server.init s) : Reachable (step L) State.init s.service :=
  h.simulation (f := Server.service) fun _ _ _ => service_step

theorem linked_of_reachable {C : Container} {L : Libraries H Salt} {s : Server H}
    (h : Reachable (Server.step C L) Server.init s) : Linked C L s := by
  refine h.invariant_of_reachable ?_ (linked_init C L)
  intro t e t' hreach ht hs
  cases Server.step_cases hs with
  | received request progress client => exact ht.received request client
  | called admitted target time run =>
    exact ht.called (ledger_of_reachable (service_of_reachable hreach)).indexed admitted target time
      run
  | worked exchange progress time hstep => exact ht.worked exchange progress time hstep
  | answered exchange _ reply => exact ht.answered exchange reply

/-! ## How runs continue -/

/-- The exchange `y` continues the exchange `x`. -/
structure Exchange.Follows (x y : Exchange H) : Prop where
  request : y.request = x.request
  attributes : y.attributes = x.attributes
  progress : y.progress = x.progress
  reply : ∀ r, x.reply = some r → y.reply = some r

theorem Exchange.Follows.refl (x : Exchange H) : x.Follows x := ⟨rfl, rfl, rfl, fun _ h => h⟩

theorem Exchange.Follows.trans {x y z : Exchange H} (h₁ : x.Follows y) (h₂ : y.Follows z) :
    x.Follows z where
  request := h₂.request.trans h₁.request
  attributes := h₂.attributes.trans h₁.attributes
  progress := h₂.progress.trans h₁.progress
  reply r hr := h₂.reply r (h₁.reply r hr)

/-- How the state `t` of the server continues the state `s`. -/
def Server.Follows (s t : Server H) : Prop :=
  ∀ (k : ℕ) (x : Exchange H), s.exchanges[k]? = some x →
    ∃ y, t.exchanges[k]? = some y ∧ x.Follows y

theorem follows_receive {s : Server H} (service : State H) (x : Exchange H) :
    s.Follows ({ s with service := service }.receive x) := by
  intro k y hy
  obtain ⟨hk, _⟩ := List.getElem?_eq_some_iff.mp hy
  exact ⟨y, by rw [Server.receive, List.getElem?_append_left hk, hy], .refl y⟩

theorem follows_of_step {C : Container} {L : Libraries H Salt} {s s' : Server H} {e : Event Salt}
    (h : Server.step C L s e = some s') : s.Follows s' := by
  cases Server.step_cases h with
  | received request progress => exact follows_receive s.service _
  | called => exact follows_receive _ _
  | worked => exact fun k x hx => ⟨x, hx, .refl x⟩
  | @answered k x r shared exchange unanswered =>
    intro l y hy
    by_cases hlk : l = k
    · subst hlk
      obtain rfl := Option.some.inj (exchange.symm.trans hy)
      obtain ⟨hl, _⟩ := List.getElem?_eq_some_iff.mp hy
      refine ⟨{ x with reply := some r }, List.getElem?_set_self hl, rfl, rfl, rfl, fun r' hr' => ?_⟩
      rw [unanswered] at hr'
      cases hr'
    · exact ⟨y, by rw [List.getElem?_set_ne (Ne.symm hlk), hy], .refl y⟩

theorem follows_of_exec {C : Container} {L : Libraries H Salt} {s t : Server H}
    {es : List (Event Salt)} (h : exec (Server.step C L) s es = some t) : s.Follows t := by
  refine exec_relation (R := Server.Follows) (fun s k x hx => ⟨x, hx, .refl x⟩) ?_
    (fun _ _ _ => follows_of_step) h
  intro s t u h₁ h₂ k x hx
  obtain ⟨y, hy, hxy⟩ := h₁ k x hx
  obtain ⟨z, hz, hyz⟩ := h₂ k y hy
  exact ⟨z, hz, hxy.trans hyz⟩

/-! ## A run of the server -/

/-- A container that lets every request with a CSRF token through to Jersey. -/
def Symbolic.container : Container where
  decode := id
  decode_of_notMem _ _ := rfl
  csrfFilter request :=
    if safeMethods.contains request.method || request.RepeatsCsrfCookie then .ok ()
    else .error .accessDeniedException
  elsewhere _ := false
  rejects _ := none
  unmatched _ := .failure (.notFoundException "HTTP 404 Not Found")
  setCookie c := c.name ++ "=" ++ c.value

def Symbolic.requestTime : RequestTime :=
  ⟨(Symbolic.ambient 0 0).requestTime, (Symbolic.ambient 0 0).storable⟩

def registrationRequest : Request where
  method := "POST"
  path := "/api/accounts/create-account-for-email-and-password"
  cookies := some [⟨"XSRF-TOKEN", "x"⟩]
  csrfToken := some "x"
  form := [("email", "e@x"), ("password", "password")]

def deletionRequest : Request where
  method := "DELETE"
  path := "/api/accounts/self"
  cookies := some [⟨"XSRF-TOKEN", "x"⟩,
    ⟨"jwt", signToken Symbolic.libraries (Symbolic.ambient 1 0) ⟨0, 0⟩⟩]
  csrfToken := some "x"
  form := []

/-- An account is registered and deleted, and a second deletion with the same token finds nothing. -/
def serverRun : List (Event ℕ) :=
  [.arrive registrationRequest Symbolic.requestTime (Symbolic.ambient 0 0),
    .work 0 (Symbolic.ambient 0 0), .work 0 (Symbolic.ambient 0 0), .answer 0,
    .arrive deletionRequest Symbolic.requestTime (Symbolic.ambient 1 0),
    .work 1 (Symbolic.ambient 1 0), .work 1 (Symbolic.ambient 1 0), .answer 1,
    .arrive deletionRequest Symbolic.requestTime (Symbolic.ambient 2 0),
    .work 2 (Symbolic.ambient 2 0), .answer 2]

end AuthenticationServer
