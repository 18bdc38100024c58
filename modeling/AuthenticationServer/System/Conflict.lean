import AuthenticationServer.Services.SymbolicLibraries
import AuthenticationServer.System.Invariant

/-!
# When a conflict is reported

The creating methods report every violated constraint of the tables as a conflict, also that
a text is too long for its column.

## Main definitions

- `ReportsConflict` - a conflict is reported for taken keys only, and other accounts are stored

## Main results

- `reports_conflict_iff` - this holds unless a text of a new account is too long
-/

namespace AuthenticationServer

open Java Machine State

variable {H Salt : Type}

/-- The documented behaviour of a creating method: it throws a `ConflictException` if and only
if the key is taken, and otherwise returns the new account and stores it. -/
def ReportsConflict (L : Libraries H Salt) (w : Ambient Salt) (s : Store H) (r : Registration) :
    Prop :=
  ((∃ message cause, r.create L w s = .error (.conflictException message cause)) ↔
    s.HasKey r.key) ∧
  (¬ s.HasKey r.key → ∃ t, r.create L w s = .ok (r.account L w, t) ∧ t.Includes (r.rows L w))

/-- A text that does not fit into its column is reported as a conflict that there is not. -/
theorem not_reportsConflict {L : Libraries H Salt} {w : Ambient Salt} {s : Store H}
    (hs : s.WellFormed) {r : Registration} (hkey : ¬ s.HasKey r.key) (hlong : ¬ r.Storable) :
    ¬ ReportsConflict L w s r := by
  rintro ⟨_, hstored⟩
  obtain ⟨t, ht, _⟩ := hstored hkey
  rw [Registration.create_eq L w hs, if_neg hkey, if_neg fun h => hlong h.1] at ht
  cases ht

/-- On every reachable store, a creating method reports a conflict exactly when there is one,
and stores the account otherwise, if and only if the key is taken or the texts of the request
fit into their columns. -/
theorem reports_conflict_iff {L : Libraries H Salt} (hfit : L.HashesFit) {s : State H}
    (hreach : Reachable (step L) init s) (w : Ambient Salt) (r : Registration) :
    ReportsConflict L w s.store r ↔ s.store.HasKey r.key ∨ r.Storable := by
  have hwf := wellFormed_of_reachable hreach
  by_cases hkey : s.store.HasKey r.key
  · refine ⟨fun _ => Or.inl hkey, fun _ => ⟨⟨fun _ => hkey, fun _ => ?_⟩, fun h => absurd hkey h⟩⟩
    exact ⟨r.message, none, by rw [Registration.create_eq L w hwf, if_pos hkey]⟩
  · constructor
    · intro h
      by_contra hnot
      exact not_reportsConflict hwf hkey (fun hstorable => hnot (Or.inr hstorable)) h
    · rintro (h | hstorable)
      · exact absurd h hkey
      · -- the key is free and every text fits, so that the insert succeeds
        have hcreate : r.create L w s.store = .ok (r.account L w, s.store ++ r.rows L w) := by
          rw [Registration.create_eq L w hwf, if_neg hkey,
            if_pos ⟨hstorable, Registration.hashFits hfit w r⟩]
        refine ⟨⟨?_, fun h => absurd h hkey⟩, fun _ => ⟨_, hcreate, Store.includes_append _ _⟩⟩
        rintro ⟨message, cause, h⟩
        rw [hcreate] at h
        cases h

theorem reports_conflict_init :
    ReportsConflict Symbolic.libraries (Symbolic.ambient 0 0) Store.empty
      (.iosDevice "vendor" "device") :=
  (reports_conflict_iff Symbolic.hashesFit (Reachable.refl init) _ _).mpr (Or.inr (by decide))

/-- A valid request whose device name has 256 characters. -/
def longDeviceName : Registration := .iosDevice "vendor" (String.ofList (List.replicate 256 'x'))

/-- On the empty store it is reported as a conflict. -/
theorem longDeviceName_reported :
    longDeviceName.violations Symbolic.libraries = [] ∧
      ¬ ReportsConflict Symbolic.libraries (Symbolic.ambient 0 0) Store.empty longDeviceName := by
  refine ⟨?_, not_reportsConflict ?_ ?_ ?_⟩
  · have hname : trimsToEmpty (String.ofList (List.replicate 256 'x')) = false := by
      rw [trimsToEmpty, String.toList_ofList, List.all_replicate]
      decide
    rw [longDeviceName, Registration.violations, notBlank, notBlank, hname]
    decide
  · exact Directory.valid_nil.wellFormed Symbolic.libraries
  · rintro ⟨c, hc, _⟩
    cases hc
  · rintro ⟨_, hlength⟩
    rw [String.length_ofList, List.length_replicate] at hlength
    revert hlength
    decide

end AuthenticationServer
