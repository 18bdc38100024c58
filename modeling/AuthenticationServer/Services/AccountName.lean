import AuthenticationServer.Services.AccountService

/-!
# Account names

The subject of a token is the name of an account, and the account is found again by that name.
Any other text is looked up as the identifier that it is read as.

## Main results

- `account_name_lookup` - the lookup inverts the name, and is total
-/

namespace AuthenticationServer

open Java Table

variable {H : Type}

theorem AccountRow.name_injective {a b : AccountRow} (h : a.name = b.name) : a.id = b.id :=
  UUID.toString_injective h

/-- With unique ids, an account is found by its name, and accounts with different ids have
different names. The lookup of any text raises no exception: it returns the account whose id the
text is read as, and nothing for a text that is no identifier. For a principal whose name is not
blank, it is a `NotFoundException` exactly when no stored account has the id that the name is
read as. -/
theorem account_name_lookup {s : Store H} (h : Unique (·.id) s.accounts) :
    (∀ a ∈ s.accounts, AccountRepository.findById s a.name = .ok (some a)) ∧
    (∀ a b : AccountRow, a.id ≠ b.id → a.name ≠ b.name) ∧
    ∀ uuid : String, ∃ found, AccountRepository.findById s uuid = .ok found ∧
      (∀ a, found = some a ↔ a ∈ s.accounts ∧ UUID.fromString uuid = some a.id) ∧
      (UUID.fromString uuid = none → found = none) ∧
      (isBlank uuid = false →
        ((∀ a ∈ s.accounts, UUID.fromString uuid ≠ some a.id) ↔
          getAccountOfSecurityContext s (some ⟨some uuid⟩) =
            .error (.notFoundException
              (THERE_WAS_NO_ACCOUNT_FOR_ACCOUNT_ID ++ "'" ++ uuid ++ "'")))) := by
  refine ⟨fun a ha => ?_, fun a b hne hname => hne (AccountRow.name_injective hname), fun uuid =>
    ⟨_, AccountRepository.findById_eq s uuid, fun a => findById_eq_some_iff h, fun hnone => ?_,
      fun hblank => ⟨fun hall => ?_, fun hnotFound => ?_⟩⟩⟩
  · have hfound : findById s a.name = some a :=
      (findById_eq_some_iff h).mpr ⟨ha, UUID.fromString_toString a.id⟩
    rw [AccountRepository.findById_eq, hfound]
  · refine findById_eq_none.mpr fun a _ hid => ?_
    rw [hnone] at hid
    cases hid
  · exact getAccountOfSecurityContext_eq_notFound hblank (findById_eq_none.mpr hall)
  · -- an account that is found is returned
    refine findById_eq_none.mp (Option.eq_none_iff_forall_ne_some.mpr fun a ha => ?_)
    rw [getAccountOfSecurityContext, hblank, ha] at hnotFound
    cases hnotFound

/-- The name is not the only text that an account is found by. -/
example : UUID.fromString "0-0-0-0-1" = UUID.fromString "00000000-0000-0000-0000-000000000001" := by
  decide

/-- A row whose two halves are negative. -/
def negativeRow : AccountRow := ⟨⟨0x8000000000000000, 0xFFFFFFFFFFFFFFFF⟩, ⟨0, by decide⟩⟩

def negativeAndZeroIds : Store ℕ := ⟨[negativeRow, ⟨⟨0, 0⟩, ⟨1, by decide⟩⟩], [], []⟩

theorem account_name_lookup_negativeAndZeroIds :
    AccountRepository.findById negativeAndZeroIds "80000000-0000-0000-ffff-ffffffffffff" =
      .ok (some negativeRow) ∧
    getAccountOfSecurityContext negativeAndZeroIds (some ⟨some "no id"⟩) =
      .error (.notFoundException
        (THERE_WAS_NO_ACCOUNT_FOR_ACCOUNT_ID ++ "'" ++ "no id" ++ "'")) := by
  have hunique : Table.Unique (·.id) negativeAndZeroIds.accounts := by
    rw [Table.Unique]
    decide
  have htext : negativeRow.name = "80000000-0000-0000-ffff-ffffffffffff" := by decide
  obtain ⟨hname, _, hall⟩ := account_name_lookup hunique
  obtain ⟨_, _, _, _, hnotFound⟩ := hall "no id"
  refine ⟨?_, (hnotFound (by decide)).mp (by decide)⟩
  rw [← htext]
  exact hname negativeRow List.mem_cons_self

end AuthenticationServer
