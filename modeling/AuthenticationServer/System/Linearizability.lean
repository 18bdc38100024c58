import AuthenticationServer.Library.Linearization
import AuthenticationServer.Services.SymbolicLibraries
import AuthenticationServer.System.Invariant

/-!
# Calls that could have run one after another

The calls of every run could have run alone, one after another, in the order in which they take
their effect on the tables: with the same tables at the end, and each call with the same outcome
but for two kinds of calls. A creation that loses the race for its key is refused at its insert
and not at its lookup, and a deletion whose account is removed between its two transactions
returns although it has removed nothing.

## Main definitions

- `system` - the service as programs on the tables
- `Client.Agrees` - the outcome of a call in a run, and its outcome alone

## Main results

- `Client.linearizable_system` - the conditions on the steps of single calls
- `exec_schedule` - a run of the service is a run of these programs
- `calls_linearizable` - every run has a serial order
-/

namespace AuthenticationServer

open Java Machine State

variable {H Salt : Type}

/-- How the insert of a new account is refused. -/
def Registration.refusal (caller : Caller) (r : Registration) : Throwable :=
  if caller.opensTransaction r then .dataIntegrityViolationException
  else .conflictException r.message (some .dataIntegrityViolationException)

theorem Registration.commit_account (L : Libraries H Salt) (w : Ambient Salt) (s : Store H)
    (caller : Caller) (r : Registration) :
    r.commit L s caller (r.account L w) =
      if (r.Storable ∧ r.HashFits L w) ∧ ¬ s.HasKey r.key then .ok (r.rows L w)
      else .error (r.refusal caller) := by
  rw [commit, insertedRows_account, refusal]
  by_cases hfit : (r.Storable ∧ r.HashFits L w) ∧ ¬ s.HasKey r.key
  · rw [if_pos hfit]
    split <;> rfl
  · rw [if_neg hfit]
    split <;> rfl

/-- The call has taken its effect: it has ended, or it has only to sign its token. -/
def Client.effective (c : Client H) : Bool :=
  match c.stage with
  | .sign _ | .done _ => true
  | _ => false

/-- The service as programs on the tables. -/
def system (L : Libraries H Salt) :
    Linearization.System (Store H) (Client H) Invocation (Ambient Salt) where
  start := Client.call
  next w s c := (c.next L w s).map fun e => ((e.write.map (Write.apply s)).getD s, e.client)
  effective := Client.effective

/-- The message for an account that is not stored. -/
def noAccountMessage (accountId : String) : String :=
  THERE_WAS_NO_ACCOUNT_FOR_ACCOUNT_ID ++ "'" ++ accountId ++ "'"

/-- The end of a call alone, and its end in a run. -/
inductive Client.Agrees : Client H → Client H → Prop
  | same (c : Client H) : Agrees c c
  /-- the key was free at the lookup and taken at the insert -/
  | lostRace {c : Client H} {caller : Caller} {r : Registration}
      (invocation : c.invocation = .create caller r)
      (stage : c.stage = .done (.error (r.refusal caller))) :
      Agrees { c with stage := .done (.error (.conflictException r.message none)) } c
  /-- the account was stored at the lookup and gone at the removal -/
  | staleDeletion {c : Client H} {accountId : String} (deletion : c.invocation.isDeletion = true)
      (principal : c.userPrincipal = .ok (some ⟨some accountId⟩))
      (stage : c.stage = .done (.ok .noContent)) :
      Agrees { c with stage := .done (.error (.notFoundException (noAccountMessage accountId))) } c

namespace Client

/-- What a call knows before it takes its effect, from what it has read at its steps. -/
inductive Trail (L : Libraries H Salt) (p : Invocation) : List (Ambient Salt) → Client H → Prop
  | start : Trail L p [] (call p)
  | save {caller : Caller} {r : Registration} {w : Ambient Salt} (program : p = .create caller r)
      (valid : caller.validate w (r.violations L) = .ok ()) :
      Trail L p [w] ⟨p, .save (r.account L w), none, none⟩
  | secured {operation : AccountOperation} {cookies : Option (List Cookie)} {w : Ambient Salt}
      {a : Authentication} (program : p = .request operation cookies)
      (admitted : secured L w.currentTimeMillis .authenticated cookies = .ok a) :
      Trail L p [w] ⟨p, .secured, some w.currentTimeMillis, some a⟩
  | delete {ws : List (Ambient Salt)} {c : Client H} {w : Ambient Salt} {account : AccountRow}
      {accountId : String} (before : Trail L p ws c) (deletion : p.isDeletion = true)
      (stage : c.stage = .start ∨ c.stage = .secured)
      (next : ∀ w s, c.next L w s = some (c.lookUp s))
      (principal : c.userPrincipal = .ok (some ⟨some accountId⟩))
      (blank : isBlank accountId = false) (id : UUID.fromString accountId = some account.id) :
      Trail L p (ws ++ [w]) { c with stage := .delete account }

theorem next_system {L : Libraries H Salt} {w : Ambient Salt} {s s' : Store H} {c c' : Client H}
    (h : (system L).next w s c = some (s', c')) :
    ∃ e, c.next L w s = some e ∧ (e.write.map (Write.apply s)).getD s = s' ∧ e.client = c' := by
  obtain ⟨e, he, hr⟩ := Option.map_eq_some_iff.mp h
  exact ⟨e, he, congrArg Prod.fst hr, congrArg Prod.snd hr⟩

theorem next_start_create (L : Libraries H Salt) (w : Ambient Salt) (s : Store H) (caller : Caller)
    (r : Registration) :
    (call (.create caller r)).next L w s =
      match r.begin L w s caller with
      | .ok account =>
        some { (call (.create caller r)).proceed (.save account) with
          drawnIds := [w.accountId, w.credentialId] }
      | .error e => some ((call (.create caller r)).finish (.error e)) := rfl

theorem effective_of_done {c : Client H} {outcome : Except Throwable (Result H)}
    (h : c.stage = .done outcome) : c.effective = true := by
  rw [effective, h]

/-- A lookup keeps the account that the principal names, or ends the call. -/
theorem lookUp_cases (s : Store H) (c : Client H) :
    (∃ accountId account, c.userPrincipal = .ok (some ⟨some accountId⟩) ∧
      isBlank accountId = false ∧ findById s accountId = some account ∧
      c.lookUp s = c.proceed (.delete account)) ∨
    ∃ e, c.lookUp s = c.finish (.error e) := by
  rw [lookUp]
  cases hl : c.userPrincipal >>= getAccountOfSecurityContext s with
  | error e => exact Or.inr ⟨e, rfl⟩
  | ok account =>
    obtain ⟨userPrincipal, hp, ha⟩ := Fallible.bind_eq_ok.mp hl
    obtain ⟨accountId, rfl, hfind⟩ := getAccountOfSecurityContext_eq_ok ha
    cases hblank : isBlank accountId with
    | false => exact Or.inl ⟨accountId, account, hp, hblank, hfind, rfl⟩
    | true =>
      rw [getAccountOfSecurityContext, hblank] at ha
      cases ha

theorem lookUp_of_principal {s : Store H} {c : Client H} {accountId : String}
    (principal : c.userPrincipal = .ok (some ⟨some accountId⟩))
    (blank : isBlank accountId = false) :
    c.lookUp s =
      match findById s accountId with
      | some account => c.proceed (.delete account)
      | none => c.finish (.error (.notFoundException (noAccountMessage accountId))) := by
  rw [lookUp, principal, Fallible.ok_bind]
  cases hfind : findById s accountId with
  | none =>
    rw [getAccountOfSecurityContext_eq_notFound blank hfind]
    rfl
  | some account =>
    rw [getAccountOfSecurityContext, blank, hfind]
    rfl

theorem Trail.lookUp {L : Libraries H Salt} {p : Invocation} {ws : List (Ambient Salt)}
    {c : Client H} (h : Trail L p ws c) (deletion : p.isDeletion = true)
    (stage : c.stage = .start ∨ c.stage = .secured)
    (next : ∀ w s, c.next L w s = some (c.lookUp s)) (w : Ambient Salt) (s : Store H)
    (heff : (c.lookUp s).client.effective = false) : Trail L p (ws ++ [w]) (c.lookUp s).client := by
  obtain ⟨accountId, account, principal, blank, hfind, hl⟩ | ⟨e, hl⟩ := lookUp_cases s c
  · rw [hl]
    exact .delete h deletion stage next principal blank (findById_eq_some hfind).2
  · rw [hl] at heff
    cases heff

theorem Trail.invocation {L : Libraries H Salt} {p : Invocation} {ws : List (Ambient Salt)}
    {c : Client H} (h : Trail L p ws c) : c.invocation = p := by
  induction h with
  | delete _ _ _ _ _ _ _ ih => exact ih
  | _ => rfl

theorem next_save (L : Libraries H Salt) (w : Ambient Salt) (s : Store H) (caller : Caller)
    (r : Registration) (account : Account H) :
    (⟨.create caller r, .save account, none, none⟩ : Client H).next L w s =
      some
        (match r.commit L s caller account with
        | .ok rows =>
          { (call (.create caller r)).finish (.ok (caller.result account)) with
            write := some (.insert rows) : Effect H }
        | .error e => (call (.create caller r)).finish (.error e)) := by
  cases hc : r.commit L s caller account <;>
    simp only [next, call, hc, finish, proceed]

theorem next_delete (L : Libraries H Salt) (w : Ambient Salt) (s : Store H) {c : Client H}
    (deletion : c.invocation.isDeletion = true) (account : AccountRow) :
    ({ c with stage := .delete account } : Client H).next L w s = some (c.remove s account) := by
  obtain ⟨invocation, _, _, _⟩ := c
  match invocation, deletion with
  | .request .deleteAccount _, _ => rfl
  | .deleteAccount _, _ => rfl

/-- A request that was admitted reads its answer, or looks up the account that it deletes. -/
theorem next_secured (L : Libraries H Salt) (w : Ambient Salt) (s : Store H) {c : Client H}
    {operation : AccountOperation} {cookies : Option (List Cookie)}
    (invocation : c.invocation = .request operation cookies) (stage : c.stage = .secured) :
    (∃ outcome, c.next L w s = some (c.finish outcome)) ∨
      operation = .deleteAccount ∧ ∀ w s, c.next L w s = some (c.lookUp s) := by
  obtain ⟨_, _, presentedAt, authentication⟩ := c
  obtain rfl := invocation
  obtain rfl := stage
  cases operation with
  | deleteAccount => exact Or.inr ⟨rfl, fun _ _ => rfl⟩
  | _ => exact Or.inl ⟨_, rfl⟩

/-- The call reads or deletes the account of its principal. -/
def OnAccount (c : Client H) : Prop :=
  c.invocation.isDeletion = true ∨ ∃ cookies, c.invocation = .request .getAccountInfo cookies

theorem not_onAccount {c : Client H} {p : Invocation} (h : c.invocation = p)
    (hdeletion : p.isDeletion = false) (hinfo : ∀ cookies, p ≠ .request .getAccountInfo cookies) :
    ¬ c.OnAccount := by
  subst h
  rintro (h | ⟨cookies, h⟩)
  · rw [hdeletion] at h
    cases h
  · exact hinfo cookies h

/-- A principal has one name. -/
theorem principal_inj {c : Client H} {accountId accountId' : String}
    (h : c.userPrincipal = .ok (some ⟨some accountId⟩))
    (h' : c.userPrincipal = .ok (some ⟨some accountId'⟩)) : accountId = accountId' := by
  simpa using h.symm.trans h'

/-- The account information is the account that the principal names. -/
theorem getAccountInfo_eq {s : Store H} {c : Client H} {operation : AccountOperation}
    {cookies : Option (List Cookie)} (hinvocation : c.invocation = .request operation cookies) :
    getAccountInfo s c.context =
      (c.userPrincipal >>= getAccountOfSecurityContext s).map AccountRow.assembleDto := by
  have hprincipal : c.userPrincipal = c.context.userPrincipal := by
    rw [userPrincipal, hinvocation]
  rw [getAccountInfo, hprincipal]
  cases c.context.userPrincipal with
  | error e => rfl
  | ok p => cases getAccountOfSecurityContext s p <;> rfl

/-- A step that is not the effect of the call leaves such a trail. -/
theorem Trail.next {L : Libraries H Salt} {p : Invocation} {ws : List (Ambient Salt)}
    {c c' : Client H} (h : Trail L p ws c) {w : Ambient Salt} {s s' : Store H}
    (hnext : (system L).next w s c = some (s', c')) (heff : c'.effective = false) :
    Trail L p (ws ++ [w]) c' := by
  obtain ⟨e, he, _, rfl⟩ := next_system hnext
  cases h with
  | start =>
    cases p with
    | create caller r =>
      rw [next_start_create] at he
      cases hb : r.begin L w s caller with
      | ok account =>
        obtain ⟨rfl, _⟩ := Registration.begin_eq_ok hb
        obtain ⟨_, hv, _⟩ := Fallible.bind_eq_ok.mp hb
        simp only [hb, Option.some.injEq] at he
        exact he ▸ .save rfl hv
      | error err =>
        simp only [hb, Option.some.injEq] at he
        subst he
        cases heff
    | createToken username password =>
      -- a login takes its effect at its first step
      have hend : e.client.effective = true := by
        cases hm : validate w (tokenViolations username) >>= fun _ =>
            credentialAccount L s username password <;>
        · simp only [Client.next, call, hm, Option.some.injEq] at he
          exact he ▸ rfl
      rw [heff] at hend
      cases hend
    | request operation cookies =>
      have henter : (call (.request operation cookies)).next L w s =
          some ((call (.request operation cookies)).enter L w.currentTimeMillis cookies) := by
        cases operation <;> rfl
      obtain rfl := Option.some.inj (henter.symm.trans he)
      rw [enter] at heff ⊢
      cases hs : AuthenticationServer.secured L w.currentTimeMillis .authenticated cookies with
      | ok a => exact .secured rfl hs
      | error err =>
        rw [hs] at heff
        cases heff
    | deleteAccount userPrincipal =>
      have hlookUp : ∀ w s, (call (.deleteAccount userPrincipal) : Client H).next L w s =
          some ((call (.deleteAccount userPrincipal)).lookUp s) := fun _ _ => rfl
      obtain rfl := Option.some.inj ((hlookUp w s).symm.trans he)
      exact Trail.start.lookUp rfl (Or.inl rfl) hlookUp w s heff
  | save program valid =>
    subst program
    rw [next_save] at he
    obtain rfl := Option.some.inj he
    split at heff <;> cases heff
  | @secured operation cookies w₁ a program admitted =>
    obtain ⟨outcome, hfinish⟩ | ⟨rfl, hlookUp⟩ := next_secured L w s
      (c := ⟨p, .secured, some w₁.currentTimeMillis, some a⟩) program rfl
    · obtain rfl := Option.some.inj (hfinish.symm.trans he)
      cases heff
    · obtain rfl := Option.some.inj ((hlookUp w s).symm.trans he)
      exact (Trail.secured program admitted).lookUp (by rw [program]; rfl) (Or.inr rfl) hlookUp
        w s heff
  | delete before deletion _ _ _ _ _ =>
    rw [next_delete L w s (before.invocation ▸ deletion)] at he
    obtain rfl := Option.some.inj he
    cases heff

/-! ## A call alone -/

open Linearization (solo solo_snoc turn)

theorem turn_system (L : Libraries H Salt) (w : Ambient Salt) {s : Store H} {c : Client H}
    {e : Effect H} (h : c.next L w s = some e) :
    turn (system L) (s, c) w = ((e.write.map (Write.apply s)).getD s, e.client) := by
  have hnext : (system L).next w s c = some ((e.write.map (Write.apply s)).getD s, e.client) :=
    Option.map_eq_some_iff.mpr ⟨e, h, rfl⟩
  rw [turn, hnext]
  rfl

theorem next_of_done (L : Libraries H Salt) (w : Ambient Salt) (s : Store H) {c : Client H}
    {outcome : Except Throwable (Result H)} (h : c.stage = .done outcome) :
    c.next L w s = none := by
  cases hnext : c.next L w s with
  | none => rfl
  | some e =>
    have hdone := (next_cases hnext).frame.2.2.1
    rw [isDone, h] at hdone
    cases hdone

theorem turn_of_done (L : Libraries H Salt) (w : Ambient Salt) (s : Store H) {c : Client H}
    {outcome : Except Throwable (Result H)} (h : c.stage = .done outcome) :
    turn (system L) (s, c) w = (s, c) := by
  have hnext : (system L).next w s c = none :=
    Option.map_eq_none_iff.mpr (next_of_done L w s h)
  rw [turn, hnext]
  rfl

/-- Up to the lookup of a deletion, and to what a request reads, no step depends on the tables. -/
theorem Trail.solo_of_stage {L : Libraries H Salt} {p : Invocation} {ws : List (Ambient Salt)}
    {c : Client H} (h : Trail L p ws c) (stage : c.stage = .start ∨ c.stage = .secured)
    (s : Store H) : solo (system L) ws s p = (s, c) := by
  cases h with
  | start => rfl
  | @secured operation cookies w a program admitted =>
    subst program
    have henter : (call (.request operation cookies)).next L w s =
        some ((call (.request operation cookies)).enter L w.currentTimeMillis cookies) := by
      cases operation <;> rfl
    have hturn := turn_system L w henter
    rw [enter, admitted] at hturn
    exact hturn
  | save => simp at stage
  | delete => simp at stage

theorem solo_save (L : Libraries H Salt) (w : Ambient Salt) {s : Store H} (hs : s.WellFormed)
    {caller : Caller} {r : Registration} (valid : caller.validate w (r.violations L) = .ok ()) :
    solo (system L) [w] s (.create caller r) =
      if s.HasKey r.key then
        (s, ⟨.create caller r, .done (.error (.conflictException r.message none)), none, none⟩)
      else (s, ⟨.create caller r, .save (r.account L w), none, none⟩) := by
  have hbegin : r.begin L w s caller =
      if s.HasKey r.key then .error (.conflictException r.message none)
      else .ok (r.account L w) := by
    rw [Registration.begin, valid, Fallible.ok_bind, Registration.prepare_eq L w hs]
  have hnext := next_start_create L w s caller r
  by_cases hkey : s.HasKey r.key
  · rw [hbegin, if_pos hkey] at hnext
    rw [if_pos hkey]
    exact turn_system L w hnext
  · rw [hbegin, if_neg hkey] at hnext
    rw [if_neg hkey]
    exact turn_system L w hnext

/-- A removal at which the account is gone removes nothing. -/
theorem delete_of_notMem {s : Store H} (hs : s.WellFormed) {account : AccountRow}
    (h : ∀ a ∈ s.accounts, a.id ≠ account.id) : AuthenticationServer.delete s account = s := by
  obtain ⟨haccounts, hpasswords, hdevices⟩ := hs.lacks h
  rw [AuthenticationServer.delete, Store.without, Store.filter]
  obtain ⟨accounts, passwords, devices⟩ := s
  congr 1 <;> simpa [List.filter_eq_self] using by assumption

/-- The effect of a creation at its insert: alone, it finds the key free or taken. -/
theorem effect_save {L : Libraries H Salt} {w₁ w : Ambient Salt} {s : Store H} (hs : s.WellFormed)
    {caller : Caller} {r : Registration} (valid : caller.validate w₁ (r.violations L) = .ok ())
    {e : Effect H}
    (he : (⟨.create caller r, .save (r.account L w₁), none, none⟩ : Client H).next L w s = some e) :
    (solo (system L) [w₁, w] s (.create caller r)).1 = (e.write.map (Write.apply s)).getD s ∧
      Agrees (solo (system L) [w₁, w] s (.create caller r)).2 e.client := by
  have hsolo := solo_snoc (system L) [w₁] w s (.create caller r)
  rw [solo_save L w₁ hs valid] at hsolo
  change solo (system L) [w₁, w] s (.create caller r) = _ at hsolo
  by_cases hkey : s.HasKey r.key
  · have hcommit : r.commit L s caller (r.account L w₁) = .error (r.refusal caller) := by
      rw [Registration.commit_account, if_neg fun h => h.2 hkey]
    rw [if_pos hkey, turn_of_done L w s rfl] at hsolo
    rw [next_save, hcommit] at he
    obtain rfl := Option.some.inj he
    rw [hsolo]
    refine ⟨rfl, ?_⟩
    exact .lostRace (c := ⟨.create caller r, .done (.error (r.refusal caller)), none, none⟩) rfl rfl
  · rw [if_neg hkey, turn_system L w he] at hsolo
    rw [hsolo]
    exact ⟨rfl, .same _⟩

/-- The effect of a deletion at its removal: alone, it finds its account or not. -/
theorem effect_delete {L : Libraries H Salt} {ws : List (Ambient Salt)} {w₁ w : Ambient Salt}
    {s : Store H} (hs : s.WellFormed) {p : Invocation} {c : Client H} {account : AccountRow}
    {accountId : String} (before : Trail L p ws c) (deletion : p.isDeletion = true)
    (stage : c.stage = .start ∨ c.stage = .secured)
    (next : ∀ w s, c.next L w s = some (c.lookUp s))
    (principal : c.userPrincipal = .ok (some ⟨some accountId⟩)) (blank : isBlank accountId = false)
    (id : UUID.fromString accountId = some account.id) :
    (solo (system L) (ws ++ [w₁] ++ [w]) s p).1 = AuthenticationServer.delete s account ∧
      Agrees (solo (system L) (ws ++ [w₁] ++ [w]) s p).2 (c.remove s account).client := by
  have hdeletion : c.invocation.isDeletion = true := before.invocation ▸ deletion
  have hlookUp := turn_system L w₁ (next w₁ s)
  rw [lookUp_of_principal principal blank] at hlookUp
  rw [solo_snoc, solo_snoc, before.solo_of_stage stage]
  cases hfind : findById s accountId with
  | some found =>
    have hid : found.id = account.id :=
      Option.some.inj ((findById_eq_some hfind).2.symm.trans id)
    simp only [hfind] at hlookUp
    have hremove := turn_system L w (next_delete L w s hdeletion found)
    change turn (system L) _ w₁ = (s, { c with stage := .delete found }) at hlookUp
    rw [hlookUp, hremove]
    refine ⟨?_, .same _⟩
    change s.without found.id = s.without account.id
    rw [hid]
  | none =>
    have hgone : ∀ a ∈ s.accounts, a.id ≠ account.id := by
      intro a ha hid
      exact findById_eq_none.mp hfind a ha (hid ▸ id)
    simp only [hfind] at hlookUp
    change turn (system L) _ w₁ = (s, { c with stage := .done (.error (.notFoundException
      (noAccountMessage accountId))) }) at hlookUp
    rw [hlookUp, turn_of_done L w s rfl]
    refine ⟨(delete_of_notMem hs hgone).symm, ?_⟩
    exact .staleDeletion (c := (c.remove s account).client) hdeletion principal rfl

theorem Trail.effect {L : Libraries H Salt} {p : Invocation} {ws : List (Ambient Salt)}
    {c : Client H} (h : Trail L p ws c) {w : Ambient Salt} {s : Store H} (hs : s.WellFormed)
    {e : Effect H} (he : c.next L w s = some e) :
    (solo (system L) (ws ++ [w]) s p).1 = (e.write.map (Write.apply s)).getD s ∧
      Agrees (solo (system L) (ws ++ [w]) s p).2 e.client := by
  cases h with
  | start =>
    have hturn := turn_system L w he
    exact ⟨congrArg Prod.fst hturn, congrArg Prod.snd hturn ▸ .same _⟩
  | secured program admitted =>
    rw [solo_snoc, (Trail.secured program admitted).solo_of_stage (Or.inr rfl),
      turn_system L w he]
    exact ⟨rfl, .same _⟩
  | save program valid =>
    subst program
    exact effect_save hs valid he
  | delete before deletion stage next principal blank id =>
    rw [next_delete L w s (before.invocation ▸ deletion)] at he
    obtain rfl := Option.some.inj he
    exact effect_delete hs before deletion stage next principal blank id

theorem effective_eq_true {c : Client H} (h : c.effective = true) :
    (∃ account, c.stage = .sign account) ∨ ∃ outcome, c.stage = .done outcome := by
  rw [effective] at h
  split at h
  · next account hstage => exact Or.inl ⟨account, hstage⟩
  · next outcome hstage => exact Or.inr ⟨outcome, hstage⟩
  · cases h

/-- To sign its token, a login does not look at the tables. -/
theorem next_sign {L : Libraries H Salt} {w : Ambient Salt} {s : Store H} {c : Client H}
    {e : Effect H} (h : c.next L w s = some e) {account : UUID} (hstage : c.stage = .sign account) :
    e.client.stage = .done (.ok (.token (signToken L w account))) ∧
      ∀ u, c.next L w u = some e ∧ e.write = none := by
  obtain ⟨invocation, stage, _, _⟩ := c
  obtain rfl : stage = .sign account := hstage
  cases invocation with
  | createToken username password =>
    obtain rfl := Option.some.inj h
    exact ⟨rfl, fun u => ⟨rfl, rfl⟩⟩
  | create => cases h
  | request operation => cases operation <;> cases h
  | deleteAccount => cases h

theorem trail_of_pending {L : Libraries H Salt} {I : Store H → Prop} {p : Invocation}
    {ws : List (Ambient Salt)} {c : Client H}
    (h : Linearization.Pending (system L) I p ws c) : Trail L p ws c := by
  induction h with
  | start => exact .start
  | next _ _ turn pending ih => exact ih.next turn pending

/-- The conditions on the steps of single calls under which every run has a serial order. -/
theorem linearizable_system (L : Libraries H Salt) :
    Linearization.Linearizable (system L) Store.WellFormed Agrees where
  start _ := rfl
  silent := by
    intro w s s' c c' hnext heff
    obtain ⟨e, he, rfl, rfl⟩ := next_system hnext
    -- a step that changes the tables ends its call
    have hopen : ∀ outcome, e.client.stage ≠ .done outcome := by
      intro outcome hend
      have htrue : (system L).effective e.client = true := effective_of_done hend
      rw [heff] at htrue
      cases htrue
    obtain ⟨hw, _⟩ | ⟨_, _, _, _, _, _, _, _, hend⟩ | ⟨_, _, _, _, hend⟩ :=
      (next_cases he).write_cases
    · rw [hw]
      rfl
    · exact absurd hend (hopen _)
    · exact absurd hend (hopen _)
  settled := by
    intro w s s' c c' hnext heff
    obtain ⟨e, he, rfl, rfl⟩ := next_system hnext
    obtain ⟨account, hstage⟩ | ⟨outcome, hstage⟩ := effective_eq_true heff
    · obtain ⟨hclient, hany⟩ := next_sign he hstage
      refine ⟨effective_of_done hclient, fun u => ?_⟩
      exact Option.map_eq_some_iff.mpr ⟨e, (hany u).1, by rw [(hany u).2]; rfl⟩
    · rw [next_of_done L w s hstage] at he
      cases he
  refl := Agrees.same
  ended := by
    intro c₁ c h
    cases h with
    | same => exact Or.inl rfl
    | lostRace _ stage =>
      refine Or.inr fun w s => Option.map_eq_none_iff.mpr (next_of_done L w s stage)
    | staleDeletion _ _ stage =>
      refine Or.inr fun w s => Option.map_eq_none_iff.mpr (next_of_done L w s stage)
  effect := by
    intro p ws w s s' c c' hs hpending _ hnext _
    obtain ⟨e, he, rfl, rfl⟩ := next_system hnext
    exact (trail_of_pending hpending).effect hs he

end Client

/-! ## Runs of the service -/

/-- An action of the environment, as an action on the programs. -/
def Action.schedule : Action Salt → Linearization.Action Invocation (Ambient Salt)
  | call invocation => .call invocation
  | advance i w => .advance i w

/-- The tables and the calls, with the history of the calls. -/
abbrev Configuration (H Salt : Type) :=
  Linearization.Config (Store H) (Client H) Invocation (Ambient Salt)

/-- The configuration has the tables and the calls of the state. -/
structure Matches (s : State H) (c : Configuration H Salt) : Prop where
  shared : c.shared = s.store
  threads : c.threads.map (·.state) = s.clients
  programs : ∀ t ∈ c.threads, t.program = t.state.invocation

theorem matches_init :
    Matches init (Linearization.init Store.empty : Configuration H Salt) where
  shared := rfl
  threads := rfl
  programs := by intro t ht; cases ht

theorem Matches.thread {s : State H} {c : Configuration H Salt} (h : Matches s c) {i : ℕ}
    {d : Client H} : s.clients[i]? = some d ↔ ∃ t, c.threads[i]? = some t ∧ t.state = d := by
  rw [← h.threads, List.getElem?_map, Option.map_eq_some_iff]

theorem step_schedule {L : Libraries H Salt} {s s' : State H} {a : Action Salt}
    {c : Configuration H Salt} (hm : Matches s c) (h : step L s a = some s') :
    ∃ c', Linearization.step (system L) c a.schedule = some c' ∧ Matches s' c' := by
  cases a with
  | call invocation =>
    obtain rfl := Option.some.inj h
    refine ⟨_, rfl, hm.shared, ?_, fun t ht => ?_⟩
    · rw [List.map_append, hm.threads]
      rfl
    · obtain ht | ht := List.mem_append.mp ht
      · exact hm.programs t ht
      · obtain rfl := List.mem_singleton.mp ht
        rfl
  | advance i w =>
    obtain ⟨d, e, hd, he, _, rfl⟩ := step_advance h
    obtain ⟨t, ht, rfl⟩ := hm.thread.mp hd
    have hnext : (system L).next w c.shared t.state =
        some ((e.write.map (Write.apply s.store)).getD s.store, e.client) := by
      rw [hm.shared]
      exact Option.map_eq_some_iff.mpr ⟨e, he, rfl⟩
    have hinvocation := (Client.next_cases he).frame.1
    refine ⟨_, by rw [Action.schedule, Linearization.step, ht, Option.bind_some, hnext]; rfl,
      rfl, ?_, fun u hu => ?_⟩
    · rw [Linearization.apply, List.map_set, hm.threads]
      rfl
    · obtain hu | rfl := List.mem_or_eq_of_mem_set hu
      · exact hm.programs u hu
      · exact (hm.programs t (List.mem_of_getElem? ht)).trans hinvocation.symm

/-- A run of the service is a run of the programs, on well-formed tables. -/
theorem exec_schedule {L : Libraries H Salt} {s s' : State H} {as : List (Action Salt)}
    {c : Configuration H Salt} (hm : Matches s c)
    (hreach : Reachable (step L) init s) (h : exec (step L) s as = some s') :
    ∃ c', exec (Linearization.step (system L)) c (as.map Action.schedule) = some c' ∧
      Matches s' c' ∧
      Always (Linearization.step (system L)) (fun c _ => c.shared.WellFormed) c
        (as.map Action.schedule) := by
  induction as generalizing s c with
  | nil =>
    obtain rfl := Option.some.inj h
    exact ⟨c, rfl, hm, trivial⟩
  | cons a as ih =>
    obtain ⟨t, ht, hrest⟩ := exec_cons.mp h
    obtain ⟨d, hd, hmatch⟩ := step_schedule hm ht
    obtain ⟨c', hc', hm', halways⟩ := ih hmatch (hreach.tail ht) hrest
    have hshared : c.shared.WellFormed := by
      rw [hm.shared]
      exact wellFormed_of_reachable hreach
    refine ⟨c', exec_cons.mpr ⟨d, hd, hc'⟩, hm', hshared, fun d' hd' => ?_⟩
    obtain rfl := Option.some.inj (hd.symm.trans hd')
    exact halways

theorem linearized_of_run {L : Libraries H Salt} {as : List (Action Salt)} {s : State H}
    (h : exec (step L) init as = some s) :
    ∃ c, exec (Linearization.step (system L)) (Linearization.init Store.empty)
        (as.map Action.schedule) = some c ∧ Matches s c ∧
      Linearization.Linearized (system L) Store.WellFormed Client.Agrees Store.empty c := by
  obtain ⟨c, hc, hm, halways⟩ := exec_schedule matches_init (Reachable.refl init) h
  exact ⟨c, hc, hm, Linearization.linearized_of_exec (Client.linearizable_system L) halways hc⟩

theorem mem_order {L : Libraries H Salt} {s : State H} {c : Configuration H Salt}
    (hm : Matches s c)
    (h : Linearization.Linearized (system L) Store.WellFormed Client.Agrees Store.empty c) (i : ℕ) :
    i ∈ c.order ↔ ∃ d, s.clients[i]? = some d ∧ d.effective = true := by
  rw [h.order]
  constructor
  · rintro ⟨t, ht, heff⟩
    exact ⟨t.state, hm.thread.mpr ⟨t, ht, rfl⟩, heff⟩
  · rintro ⟨d, hd, heff⟩
    obtain ⟨t, ht, rfl⟩ := hm.thread.mp hd
    exact ⟨t, ht, heff⟩

theorem effective_of_isDone {c : Client H} (h : c.isDone = true) : c.effective = true := by
  rw [Client.isDone] at h
  split at h
  · next outcome hstage => exact Client.effective_of_done hstage
  · cases h

/-- The order at the end of the first part of a run is the first part of the order. -/
theorem exists_order_split {L : Libraries H Salt} {pre post : List (Action Salt)} {t : State H}
    {c : Configuration H Salt}
    (hc : exec (Linearization.step (system L)) (Linearization.init Store.empty)
      ((pre ++ post).map Action.schedule) = some c) (hnodup : c.order.Nodup)
    (hpre : exec (step L) init pre = some t) :
    ∃ earlier later, c.order = earlier ++ later ∧ (∀ i ∈ earlier, i < t.clients.length) ∧
      ∀ i ∈ later, ∀ d, t.clients[i]? = some d → d.isDone = false := by
  obtain ⟨d, hd, hmd, hlind⟩ := linearized_of_run hpre
  obtain ⟨d', hd', hrest⟩ := exec_append.mp ((List.map_append (f := Action.schedule)) ▸ hc)
  obtain rfl := Option.some.inj (hd.symm.trans hd')
  obtain ⟨later, hlater⟩ := Linearization.order_prefix_of_exec hrest
  refine ⟨d.order, later, hlater.symm, fun i hi => ?_, fun i hi b hb => ?_⟩
  · obtain ⟨b, hb, _⟩ := (mem_order hmd hlind i).mp hi
    exact (List.getElem?_eq_some_iff.mp hb).1
  · by_contra hdone
    have heff : b.effective = true := effective_of_isDone (by simpa using hdone)
    have hfirst : i ∈ d.order := (mem_order hmd hlind i).mpr ⟨b, hb, heff⟩
    rw [← hlater] at hnodup
    exact (List.disjoint_of_nodup_append hnodup) hfirst hi

/-- Take any run of the service, and list its calls in the order in which they have taken their
effect. These are the calls that have ended, and logins that have only to sign their token. Run
alone, one after another in this order, each on the clock readings and random values of its own
steps, they lead from the empty tables to the tables of the run, and each call ends as it does in
the run, but for a creation that lost the race for its key and a deletion whose account another
call has removed. In this order, a call that had ended when another one was called comes first. -/
theorem calls_linearizable (L : Libraries H Salt) {as : List (Action Salt)} {s : State H}
    (h : exec (step L) init as = some s) :
    ∃ c, exec (Linearization.step (system L)) (Linearization.init Store.empty)
        (as.map Action.schedule) = some c ∧ Matches s c ∧
      c.order.Nodup ∧
      (∀ i, i ∈ c.order ↔ ∃ d, s.clients[i]? = some d ∧ d.effective = true) ∧
      Linearization.Serial (system L) Client.Agrees c.threads Store.empty c.order s.store ∧
      ∀ pre post t, as = pre ++ post → exec (step L) init pre = some t →
        ∃ earlier later, c.order = earlier ++ later ∧ (∀ i ∈ earlier, i < t.clients.length) ∧
          ∀ i ∈ later, ∀ d, t.clients[i]? = some d → d.isDone = false := by
  obtain ⟨c, hc, hm, hlin⟩ := linearized_of_run h
  refine ⟨c, hc, hm, hlin.nodup, mem_order hm hlin, ?_, ?_⟩
  · have hserial := hlin.serial
    rw [hm.shared] at hserial
    exact hserial
  · rintro pre post t rfl hpre
    exact exists_order_split hc hlin.nodup hpre

/-- Two calls register one email, and the one that was called last is the first to insert. -/
def overtakenRun : List (Action ℕ) :=
  [.call (.create .api (.email "e@x" "password")), .call (.create .other (.email "e@x" "password")),
    .advance 0 (Symbolic.ambient 0 0), .advance 1 (Symbolic.ambient 1 0),
    .advance 1 (Symbolic.ambient 1 0), .advance 0 (Symbolic.ambient 0 0)]

theorem calls_linearizable_overtakenRun :
    ∃ s, ∃ c : Configuration _ ℕ, exec (step Symbolic.libraries) init overtakenRun = some s ∧
      c.order = [1, 0] ∧
      Linearization.Serial (system Symbolic.libraries) Client.Agrees c.threads Store.empty [1, 0]
        s.store := by
  have hrun : (exec (step Symbolic.libraries) init overtakenRun).isSome = true ∧
      (exec (Linearization.step (system Symbolic.libraries)) (Linearization.init Store.empty)
        (overtakenRun.map Action.schedule)).map (·.order) = some [1, 0] := by
    decide +kernel
  obtain ⟨s, hs⟩ := Option.isSome_iff_exists.mp hrun.1
  obtain ⟨c, hc, _, _, _, hserial, _⟩ := calls_linearizable Symbolic.libraries hs
  have horder : c.order = [1, 0] := by
    have h := hrun.2
    rw [hc] at h
    exact Option.some.inj h
  exact ⟨s, c, hs, horder, horder ▸ hserial⟩

end AuthenticationServer
