import AuthenticationServer.System.Invariant

/-!
# Stored timestamps

Instants are stored as dates of whole milliseconds. The converter rounds down, so that storing
and reading back keeps the order of the times at which accounts were created.

## Main definitions

- `Store.times` - the values of all time columns
- `Account.CreatedAt` - every time of a new account is the time of its request

## Main results

- `insertedRows_times` - every time column of an inserted account stores the time of its request
- `stored_timestamps` - the converter, over all instants and dates, and the order of the columns
- `times_ordered_of_reachable` - the order of the columns in every reachable state
-/

namespace AuthenticationServer

open Java Machine

variable {H Salt : Type}

namespace Store

/-- The credentials of both tables. -/
def credentials (s : Store H) : List (Credential Date) :=
  s.credentialPasswords.map (·.toCredential) ++ s.credentialIOSDevices.map (·.toCredential)

/-- The values of the columns `creationDate`, `firstTimeSeen` and `lastTimeSeen`. -/
def times (s : Store H) : List Date :=
  s.accounts.map (·.creationDate) ++
    s.credentials.flatMap fun c => [c.firstTimeSeen, c.lastTimeSeen]

theorem mem_times {s : Store H} {d : Date} :
    d ∈ s.times ↔ (∃ a ∈ s.accounts, a.creationDate = d) ∨
      ∃ c ∈ s.credentials, d = c.firstTimeSeen ∨ d = c.lastTimeSeen := by
  simp only [times, List.mem_append, List.mem_map, List.mem_flatMap, List.mem_cons,
    List.not_mem_nil, or_false]

theorem mem_credentials_append {s t : Store H} {c : Credential Date} :
    c ∈ (s ++ t).credentials ↔ c ∈ s.credentials ∨ c ∈ t.credentials := by
  simp only [credentials, credentialPasswords_append, credentialIOSDevices_append, List.map_append,
    List.mem_append, or_or_or_comm]

theorem mem_times_append {s t : Store H} {d : Date} :
    d ∈ (s ++ t).times ↔ d ∈ s.times ∨ d ∈ t.times := by
  simp only [mem_times, mem_credentials_append, accounts_append, List.mem_append, or_and_right,
    exists_or, or_or_or_comm]

end Store

def CredentialEntity.toCredential : CredentialEntity H → Credential Instant
  | password c => c.toCredential
  | iosDevice c => c.toCredential

/-- Every time of the account and of its credentials is `i`. -/
structure Account.CreatedAt (a : Account H) (i : Instant) : Prop where
  creationDate : a.creationDate = i
  credentials : ∀ c ∈ a.credentials, c.toCredential.firstTimeSeen = i ∧
    c.toCredential.lastTimeSeen = i

theorem Registration.createdAt_account (L : Libraries H Salt) (w : Ambient Salt)
    (r : Registration) : (r.account L w).CreatedAt w.requestTime := by
  cases r with
  | email e p => exact ⟨rfl, fun c hc => by rw [List.mem_singleton.mp hc]; exact ⟨rfl, rfl⟩⟩
  | iosDevice v n => exact ⟨rfl, fun c hc => by rw [List.mem_singleton.mp hc]; exact ⟨rfl, rfl⟩⟩

/-- The time columns of the rows of a new account store the time of its request. -/
theorem Registration.rows_times {L : Libraries H Salt} {w : Ambient Salt} {r : Registration}
    {d : Date} (h : d ∈ (r.rows L w).times) : Date.ofInstant w.requestTime = some d := by
  have hd : d = w.requestDate := by
    cases r <;>
      simpa [rows, accountRow, passwordRow, iosDeviceRow, credentialRow, Store.times,
        Store.credentials] using h
  rw [hd, w.ofInstant_requestTime]

/-- The row of a credential has the times of the credential. -/
theorem insertCredential_times {L : Libraries H Salt} {s rows : Store H} {c : CredentialEntity H}
    (h : insertCredential L s c = .ok rows) {d : Date} (hd : d ∈ rows.times) :
    Date.ofInstant c.toCredential.firstTimeSeen = some d ∨
      Date.ofInstant c.toCredential.lastTimeSeen = some d := by
  cases c <;>
  · obtain ⟨first, hfirst, h⟩ := Fallible.bind_eq_ok.mp h
    obtain ⟨last, hlast, h⟩ := Fallible.bind_eq_ok.mp h
    split at h
    · cases h
    · obtain rfl := Except.ok.inj h
      have hcases : d = first ∨ d = last := by simpa [Store.times, Store.credentials] using hd
      rcases hcases with rfl | rfl
      · exact Or.inl (timeColumn_eq_ok.mp hfirst)
      · exact Or.inr (timeColumn_eq_ok.mp hlast)

/-- Every time column of an inserted account stores the time of its request. -/
theorem insertedRows_times {L : Libraries H Salt} {s rows : Store H} {a : Account H} {i : Instant}
    (ha : a.CreatedAt i) (h : insertedRows L s a = .ok rows) :
    ∀ d ∈ rows.times, Date.ofInstant i = some d := by
  obtain ⟨creationDate, hdate, hfold⟩ := Fallible.bind_eq_ok.mp h
  refine Fallible.foldlM_invariant (I := fun rows => ∀ d ∈ rows.times, Date.ofInstant i = some d)
    ?_ ?_ hfold
  · intro rows c rows' hc hi hstep d hd
    obtain ⟨row, hrow, hconcat⟩ := Fallible.bind_eq_ok.mp hstep
    obtain rfl := Except.ok.inj hconcat
    obtain ⟨hfirst, hlast⟩ := ha.credentials c hc
    cases Store.mem_times_append.mp hd with
    | inl hd => exact hi d hd
    | inr hd =>
      cases insertCredential_times hrow hd with
      | inl h => exact hfirst ▸ h
      | inr h => exact hlast ▸ h
  · intro d hd
    obtain rfl : d = creationDate := by simpa [Store.times, Store.credentials] using hd
    rw [← ha.creationDate]
    exact timeColumn_eq_ok.mp hdate

/-- The columns of an earlier account are not after those of a later one, neither as they are
stored nor as they are read back. -/
theorem stored_le {i j : Instant} (hij : i ≤ j) {d d' : Date} (hd : Date.ofInstant i = some d)
    (hd' : Date.ofInstant j = some d') : d.time ≤ d'.time ∧ d.toInstant ≤ d'.toInstant := by
  have hle := Date.roundsDown.read_mono hd hd' hij
  refine ⟨?_, hle⟩
  rw [Instant.le_iff_epochNanos, Date.epochNanos_toInstant, Date.epochNanos_toInstant] at hle
  omega

/-- An instant cannot be stored exactly when its milliseconds, rounded down, are no `long`;
otherwise it is read back as the last whole millisecond that is not after it, and storing that
again gives the same date. Every date is stored as itself after it was read. Storing and reading
back keeps the order of instants, and so do the columns of accounts created at two request times. -/
theorem stored_timestamps (L : Libraries H Salt) :
    (∀ i : Instant,
      ((∃ e, convertToDatabaseColumn (some i) = .error e) ↔ ¬ IsLong (i.epochNanos / 1000000)) ∧
      ∀ column, convertToDatabaseColumn (some i) = .ok column →
        ∃ d i', column = some d ∧ convertToEntityAttribute (some d) = some i' ∧
          IsGreatest {x ∈ Instant.wholeMillis | x ≤ i} i' ∧
          convertToDatabaseColumn (some i') = .ok (some d)) ∧
    (∀ d : Date, ∃ i, convertToEntityAttribute (some d) = some i ∧
      convertToDatabaseColumn (some i) = .ok (some d)) ∧
    (∀ (i j i' j' : Instant) (column column' : Option Date), i ≤ j →
      convertToDatabaseColumn (some i) = .ok column → convertToEntityAttribute column = some i' →
      convertToDatabaseColumn (some j) = .ok column' → convertToEntityAttribute column' = some j' →
      i' ≤ j') ∧
    (∀ (w : Ambient Salt) (r : Registration), (r.account L w).CreatedAt w.requestTime) ∧
    ∀ (i j : Instant) (a b : Account H) (s t rows rows' : Store H), i ≤ j →
      a.CreatedAt i → b.CreatedAt j → insertedRows L s a = .ok rows →
      insertedRows L t b = .ok rows' → ∀ d ∈ rows.times, ∀ d' ∈ rows'.times,
        d.time ≤ d'.time ∧ d.toInstant ≤ d'.toInstant := by
  have hread : ∀ d : Date, convertToDatabaseColumn (some d.toInstant) = .ok (some d) :=
    fun d => convertToDatabaseColumn_eq_ok.mpr ⟨d, rfl, Date.roundsDown.write_read d⟩
  refine ⟨fun i => ⟨?_, fun column hcolumn => ?_⟩, fun d => ⟨_, rfl, hread d⟩, ?_,
    fun w r => r.createdAt_account L w, ?_⟩
  · simp only [convertToDatabaseColumn_eq_error, exists_eq_left, Date.ofInstant_eq_none]
  · obtain ⟨d, rfl, hd⟩ := convertToDatabaseColumn_eq_ok.mp hcolumn
    exact ⟨d, _, rfl, rfl, Date.roundsDown.isGreatest hd, hread d⟩
  · intro i j i' j' column column' hij hcolumn hi' hcolumn' hj'
    obtain ⟨d, rfl, hd⟩ := convertToDatabaseColumn_eq_ok.mp hcolumn
    obtain ⟨d', rfl, hd'⟩ := convertToDatabaseColumn_eq_ok.mp hcolumn'
    obtain rfl := Option.some.inj hi'
    obtain rfl := Option.some.inj hj'
    exact (stored_le hij hd hd').2
  · intro i j a b s t rows rows' hij ha hb hrows hrows' d hd d' hd'
    exact stored_le hij (insertedRows_times ha hrows d hd) (insertedRows_times hb hrows' d' hd')

/-- In every reachable state the tables hold accounts that calls of the run have created, and
the time columns of two accounts are ordered as the times of their requests. -/
theorem times_ordered_of_reachable {L : Libraries H Salt} {s : State H}
    (h : Reachable (step L) State.init s) :
    ∃ d : Directory Salt, s.store = d.store L ∧ (∀ x ∈ d, ∃ i, s.Created L x i) ∧
      ∀ x ∈ d, ∀ y ∈ d, x.ambient.requestTime ≤ y.ambient.requestTime →
        ∀ p ∈ (x.rows L).times, ∀ q ∈ (y.rows L).times, p.time ≤ q.time := by
  obtain ⟨d, _, hs, hcreated⟩ := (invariant_of_reachable h).directory
  refine ⟨d, hs, hcreated, fun x _ y _ hle p hp q hq => ?_⟩
  exact (stored_le hle (Registration.rows_times hp) (Registration.rows_times hq)).1

end AuthenticationServer
