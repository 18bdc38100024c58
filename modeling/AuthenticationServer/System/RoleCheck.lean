import AuthenticationServer.Services.SymbolicLibraries
import AuthenticationServer.System.Invariant

/-!
# Who receives the list of accounts

`@PreAuthorize` on `getAccounts` demands a role that no token has, but no configuration class
enables method security, so the list is returned to every authenticated request.

## Main definitions

- `RoleChecked` - the list was returned to requests with the role only

## Main results

- `listing_of_reachable` - how the requests for the list have ended
- `role_checked_iff` - the role was checked exactly in the runs without a request that could
  have received the list
-/

namespace AuthenticationServer

open Java Machine State

variable {H Salt : Type}

/-- Every list of accounts was returned to a request whose authentication has the role. -/
def RoleChecked (s : State H) : Prop :=
  ∀ c ∈ s.clients, ∀ cookies accounts, c.invocation = .request .getAccounts cookies →
    c.stage = .done (.ok (.accountDTOs accounts)) →
      ∃ a, c.authentication = some a ∧ "ROLE_USER" ∈ a.authorities

/-- The request was admitted with the token of its only token cookie. -/
def Client.Admitted (L : Libraries H Salt) (cookies : Option (List Cookie)) (c : Client H) :
    Prop :=
  ∃ now jws, c.presentedAt = some now ∧ AcceptsOnlyCookie L now cookies jws ∧
    jws.subject.isSome = true ∧ c.authentication = some (.createJWTSpringAuthenticationToken jws)

/-- The request was not admitted. -/
def Client.Refused (L : Libraries H Salt) (cookies : Option (List Cookie)) (c : Client H) : Prop :=
  ∃ now, c.presentedAt = some now ∧
    ∀ jws, jws.subject.isSome = true → ¬ AcceptsOnlyCookie L now cookies jws

/-- How far a request for the list has come. -/
inductive Client.Listing (L : Libraries H Salt) (cookies : Option (List Cookie)) (c : Client H) :
    Prop
  | start (stage : c.stage = .start)
  | secured (stage : c.stage = .secured) (admitted : c.Admitted L cookies)
  | refused (e : Throwable) (stage : c.stage = .done (.error e)) (refused : c.Refused L cookies)
  | listed (accounts : List AccountDTO) (stage : c.stage = .done (.ok (.accountDTOs accounts)))
      (admitted : c.Admitted L cookies)

/-- Method security is off, so the body runs for every authentication. -/
theorem getAccounts_eq (s : Store H) (a : Authentication) :
    getAccounts s a = .ok (s.accounts.map AccountRow.assembleDto) := by
  have hoff : methodSecurityEnabled = false := by decide
  rw [getAccounts, preAuthorize, hoff]
  rfl

theorem Client.listing_enter {L : Libraries H Salt} (now : ℤ) (cookies : Option (List Cookie))
    (c : Client H) : (c.enter L now cookies).client.Listing L cookies := by
  rw [enter]
  cases hs : AuthenticationServer.secured L now .authenticated cookies with
  | ok a =>
    obtain ⟨jws, hjws, hsubject, rfl⟩ := (secured_iff L now cookies a).mp hs
    exact .secured rfl ⟨now, jws, rfl, hjws, hsubject, rfl⟩
  | error e =>
    refine .refused e rfl ⟨now, rfl, fun jws hsubject hjws => ?_⟩
    rw [(secured_iff L now cookies _).mpr ⟨jws, hjws, hsubject, rfl⟩] at hs
    cases hs

theorem Client.listing_next {L : Libraries H Salt} {w : Ambient Salt} {s : Store H} {c : Client H}
    {e : Effect H} {cookies : Option (List Cookie)} (h : c.next L w s = some e)
    (hinv : c.invocation = .request .getAccounts cookies) (hl : c.Listing L cookies) :
    e.client.Listing L cookies := by
  cases hl with
  | start stage =>
    simp only [next, hinv, stage, Option.some.injEq] at h
    exact h ▸ listing_enter _ cookies c
  | secured stage admitted =>
    simp only [next, hinv, stage, getAccounts_eq, Option.some.injEq] at h
    exact h ▸ .listed _ rfl admitted
  | refused _ stage => simp [next, hinv, stage] at h
  | listed _ stage => simp [next, hinv, stage] at h

/-- In every reachable state a request for the list has only come as far as its cookies take
it. -/
theorem listing_of_reachable {L : Libraries H Salt} {s : State H}
    (hreach : Reachable (step L) init s) {i : ℕ} {c : Client H} {cookies : Option (List Cookie)}
    (hc : s.clients[i]? = some c) (hinv : c.invocation = .request .getAccounts cookies) :
    c.Listing L cookies := by
  refine client_of_reachable
    (P := fun c => ∀ cookies, c.invocation = .request .getAccounts cookies → c.Listing L cookies)
    (fun _ _ _ => .start rfl) ?_ hreach hc cookies hinv
  intro s w c e _ ih he cookies hinv
  have hsame := (Client.next_cases he).frame.1
  exact Client.listing_next he (hsame ▸ hinv) (ih cookies (hsame ▸ hinv))

/-- In every reachable state, the list of accounts was returned to requests with `ROLE_USER`
only, if and only if no request for it that has ended had, as its only token cookie, a token
with a subject that the parser accepted. -/
theorem role_checked_iff {L : Libraries H Salt} {s : State H}
    (hreach : Reachable (step L) init s) :
    RoleChecked s ↔ ∀ c ∈ s.clients, ∀ cookies now, c.invocation = .request .getAccounts cookies →
      c.isDone = true → c.presentedAt = some now →
        ∀ jws, jws.subject.isSome = true → ¬ AcceptsOnlyCookie L now cookies jws := by
  constructor
  · intro h c hmem cookies now hinv hdone hnow jws hsubject hjws
    obtain ⟨i, hc⟩ := List.mem_iff_getElem?.mp hmem
    cases listing_of_reachable hreach hc hinv with
    | start stage => rw [Client.isDone, stage] at hdone; cases hdone
    | secured stage => rw [Client.isDone, stage] at hdone; cases hdone
    | refused _ _ refused =>
      obtain ⟨now', hnow', hnot⟩ := refused
      obtain rfl : now = now' := Option.some.inj (hnow.symm.trans hnow')
      exact hnot jws hsubject hjws
    | listed accounts stage admitted =>
      obtain ⟨a, ha, hrole⟩ := h c hmem cookies accounts hinv stage
      obtain ⟨_, jws', _, _, _, ha'⟩ := admitted
      obtain rfl := Option.some.inj (ha.symm.trans ha')
      -- the token class grants no authority for any token
      cases hrole
  · intro h c hmem cookies accounts hinv hstage
    obtain ⟨i, hc⟩ := List.mem_iff_getElem?.mp hmem
    cases listing_of_reachable hreach hc hinv with
    | start stage => rw [hstage] at stage; cases stage
    | secured stage => rw [hstage] at stage; cases stage
    | refused _ stage => rw [hstage] at stage; cases stage
    | listed _ _ admitted =>
      obtain ⟨now, jws, hnow, hjws, hsubject, _⟩ := admitted
      exact absurd hjws (h c hmem cookies now hinv (by rw [Client.isDone, hstage]) hnow jws hsubject)

/-- A request for the list without cookies. -/
def refusedRun : List (Action ℕ) :=
  [.call (.request .getAccounts none), .advance 0 (Symbolic.ambient 0 0)]

theorem role_checked_refusedRun :
    ∃ s, exec (step Symbolic.libraries) init refusedRun = some s ∧ RoleChecked s := by
  refine ⟨_, rfl, (role_checked_iff (L := Symbolic.libraries) ⟨refusedRun, rfl⟩).mpr ?_⟩
  rintro c hmem cookies now hinv _ _ jws _ ⟨cookie, hcookie, _⟩
  obtain rfl := List.mem_singleton.mp hmem
  cases hinv
  cases hcookie

/-- A user registers, logs in and asks for the list of all accounts. -/
def listingRun : List (Action ℕ) :=
  [.call (.create .api (.email "e@x" "password")),
    .advance 0 (Symbolic.ambient 0 0), .advance 0 (Symbolic.ambient 0 0),
    .call (.createToken "e@x" "password"),
    .advance 1 (Symbolic.ambient 1 0), .advance 1 (Symbolic.ambient 1 0),
    .call (.request .getAccounts
      (some [⟨"jwt", signToken Symbolic.libraries (Symbolic.ambient 1 0) ⟨0, 0⟩⟩])),
    .advance 2 (Symbolic.ambient 2 0), .advance 2 (Symbolic.ambient 2 0)]

/-- The user receives it without the role. -/
theorem listingRun_discloses_accounts :
    ∃ s, exec (step Symbolic.libraries) init listingRun = some s ∧ ¬ RoleChecked s := by
  have hrun : (exec (step Symbolic.libraries) init listingRun).any (fun s =>
      s.clients[2]?.any fun c =>
        c.invocation = .request .getAccounts
          (some [⟨"jwt", signToken Symbolic.libraries (Symbolic.ambient 1 0) ⟨0, 0⟩⟩]) ∧
        c.returned = some (.accountDTOs [⟨⟨0, 0⟩⟩]) ∧
        c.authentication.all fun a => "ROLE_USER" ∉ a.authorities) = true := by
    decide +kernel
  obtain ⟨s, hs, h⟩ := (Option.any_eq_true _ _).mp hrun
  obtain ⟨c, hc, hc'⟩ := (Option.any_eq_true _ _).mp h
  obtain ⟨hinv, hlist, hnone⟩ := of_decide_eq_true hc'
  refine ⟨s, hs, fun hrole => ?_⟩
  obtain ⟨a, ha, hmem⟩ := hrole c (List.mem_of_getElem? hc) _ _ hinv (Client.returned_eq_some.mp hlist)
  rw [ha] at hnone
  exact of_decide_eq_true hnone hmem

end AuthenticationServer
