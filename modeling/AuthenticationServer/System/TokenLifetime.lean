import AuthenticationServer.Jersey.TokenApi
import AuthenticationServer.Services.SymbolicLibraries

/-!
# The lifetime of a token

The expiration is computed in milliseconds, written in seconds, checked in milliseconds and
repeated in seconds for the cookie.

## Main definitions

- `lastAccepted` - the last time at which a token is accepted

## Main results

- `getTokenIfValid_signToken_of_long` - a token is accepted up to that time, and not after it
- `token_lifetime` - the round trip of a token, and the bounds of its lifetime
- `secured_tokenCookie_iff` - its cookie admits a request for as long
-/

namespace AuthenticationServer

open Java

variable {H Salt : Type}

/-- The last time at which a token is accepted whose expiration was computed at the time `t`:
the expiration in whole seconds. -/
def lastAccepted (t : ℤ) : ℤ := 1000 * ((t + EXPIRATION_TIME) / 1000)

theorem lastAccepted_le (t : ℤ) : lastAccepted t ≤ t + EXPIRATION_TIME := by
  rw [lastAccepted]
  omega

theorem lt_lastAccepted (t : ℤ) : t + EXPIRATION_TIME - 1000 < lastAccepted t := by
  rw [lastAccepted]
  omega

/-- The seconds of the cookie are the lifetime, and an `Int` holds them. -/
theorem maxAge_tokenCookie (token : String) :
    1000 * (tokenCookie token).maxAge = EXPIRATION_TIME := by
  have h : 1000 * toInt (EXPIRATION_TIME.tdiv 1000) = EXPIRATION_TIME := by decide
  exact h

theorem addLong_of_isLong {m n : ℤ} (h : IsLong (m + n)) : addLong m n = m + n := by
  obtain ⟨hmin, hmax⟩ := h
  rw [addLong]
  exact Int.bmod_eq_of_le (by omega) (by omega)

/-- The division of the builder rounds the expiration down, since it is not negative. -/
theorem expired_tokenBuilder {w : Ambient Salt} (ht : 0 ≤ w.currentTimeMillis)
    (hlong : IsLong (w.currentTimeMillis + EXPIRATION_TIME)) (id : UUID) (now : ℤ) :
    (tokenBuilder w id).claims.expired now = decide (lastAccepted w.currentTimeMillis < now) := by
  have hpos : 0 ≤ w.currentTimeMillis + EXPIRATION_TIME := by
    rw [EXPIRATION_TIME]
    omega
  rw [tokenBuilder, JwtBuilder.claims, addLong_of_isLong hlong, Int.tdiv_eq_ediv_of_nonneg hpos,
    lastAccepted, Claims.expired, Int.mul_comm]

/-- A token is accepted up to the last time, and not after it. -/
theorem getTokenIfValid_signToken_of_long {L : Libraries H Salt} (hparse : L.ParsesCompacted)
    {w : Ambient Salt} (ht : 0 ≤ w.currentTimeMillis)
    (hlong : IsLong (w.currentTimeMillis + EXPIRATION_TIME)) (id : UUID) (now : ℤ) :
    getTokenIfValid L now (signToken L w id) =
      .ok (if now ≤ lastAccepted w.currentTimeMillis then some (tokenBuilder w id).claims
        else none) := by
  rw [getTokenIfValid_signToken_eq hparse, expired_tokenBuilder ht hlong]
  by_cases h : now ≤ lastAccepted w.currentTimeMillis
  · rw [if_pos h, if_neg (by simpa using h)]
  · rw [if_neg h, if_pos (by simpa using h)]

/-- Take any credential that a user name and a password log in with, and a clock that computes
the expiration at the time `t`. The login returns a token. From then on it is accepted up to the
last time, with the name of the account of the credential as its subject, and rejected without
an exception after it. So it is not accepted after ten days, it is accepted for ten days less
999 milliseconds, and it stays rejected. If the user name is valid, `TokenApi` returns the token in
its cookie, and whenever this response is sent, the token is not accepted after the cookie has
expired. -/
theorem token_lifetime {L : Libraries H Salt} (hparse : L.ParsesCompacted) {s : Store H}
    {username password : String} {c : Credential Date} (hlogin : LogsIn L s username password c)
    {a : AccountRow} (ha : a.id = c.account) {w : Ambient Salt} {t : ℤ}
    (hclock : w.currentTimeMillis = t) (ht : 0 ≤ t) (hlong : IsLong (t + EXPIRATION_TIME)) :
    ∃ token, createToken L w s username password = .ok token ∧
      (∀ now, t ≤ now →
        (now ≤ lastAccepted t → ∃ jws, getTokenIfValid L now token = .ok (some jws) ∧
          jws.subject = some a.name) ∧
        (lastAccepted t < now → getTokenIfValid L now token = .ok none)) ∧
      (∀ now, t + EXPIRATION_TIME < now → getTokenIfValid L now token = .ok none) ∧
      (∀ now, t ≤ now → now ≤ t + EXPIRATION_TIME - 999 →
        ∃ jws, getTokenIfValid L now token = .ok (some jws)) ∧
      (∀ now later, now ≤ later → getTokenIfValid L now token = .ok none →
        getTokenIfValid L later token = .ok none) ∧
      (tokenViolations username = [] → ∃ response,
        TokenApi.createToken L w s username password = .ok response ∧ response.status = 200 ∧
        response.cookie = tokenCookie token ∧ response.cookie.value = token ∧
        ∀ sent now jws, t ≤ sent → getTokenIfValid L now token = .ok (some jws) →
          now ≤ sent + 1000 * response.cookie.maxAge) ∧
      ∀ response, TokenApi.createToken L w s username password = .ok response →
        response.cookie.value = token ∧
        ∀ sent now jws, t ≤ sent → getTokenIfValid L now token = .ok (some jws) →
          now ≤ sent + 1000 * response.cookie.maxAge := by
  subst hclock
  have hverdict := getTokenIfValid_signToken_of_long hparse ht hlong c.account
  have hle := lastAccepted_le w.currentTimeMillis
  have hlt := lt_lastAccepted w.currentTimeMillis
  have haccepted : ∀ now, now ≤ lastAccepted w.currentTimeMillis →
      getTokenIfValid L now (signToken L w c.account) =
        .ok (some (tokenBuilder w c.account).claims) := by
    intro now h
    rw [hverdict, if_pos h]
  have hrejected : ∀ now, getTokenIfValid L now (signToken L w c.account) = .ok none ↔
      lastAccepted w.currentTimeMillis < now := by
    intro now
    rw [hverdict]
    split <;> simp <;> omega
  -- the cookie counts from the response, which is not sent before the expiration is computed
  have hcookie : ∀ sent now jws, w.currentTimeMillis ≤ sent →
      getTokenIfValid L now (signToken L w c.account) = .ok (some jws) →
        now ≤ sent + 1000 * (tokenCookie (signToken L w c.account)).maxAge := by
    intro sent now jws hsent h
    have hmax := maxAge_tokenCookie (signToken L w c.account)
    by_cases hnow : lastAccepted w.currentTimeMillis < now
    · rw [(hrejected now).mpr hnow] at h
      cases h
    · omega
  refine ⟨_, hlogin.createToken w, fun now _ => ⟨fun h => ⟨_, haccepted now h, ?_⟩,
    (hrejected now).mpr⟩, fun now h => (hrejected now).mpr (by omega),
    fun now _ h => ⟨_, haccepted now (by omega)⟩, fun now later hnow h => ?_,
    fun hvalid => ?_, fun response hresponse => ?_⟩
  · rw [AccountRow.name, ha]
    rfl
  · have hnow' := (hrejected now).mp h
    exact (hrejected later).mpr (by omega)
  · have hresponse := TokenApi.createToken_eq L w s password hvalid
    rw [hlogin.createToken w] at hresponse
    exact ⟨_, hresponse, rfl, rfl, rfl, hcookie⟩
  · obtain ⟨token, htoken, rfl⟩ := TokenApi.createToken_eq_ok hresponse
    rw [hlogin.createToken w] at htoken
    obtain rfl := Except.ok.inj htoken
    exact ⟨rfl, hcookie⟩

/-- A request that sends the cookie of a login back, and no other token cookie, is admitted up
to the last time of the token. -/
theorem secured_tokenCookie_iff {L : Libraries H Salt} (hparse : L.ParsesCompacted) {s : Store H}
    {username password : String} {w : Ambient Salt} (ht : 0 ≤ w.currentTimeMillis)
    (hlong : IsLong (w.currentTimeMillis + EXPIRATION_TIME)) {response : CookieResponse}
    (h : TokenApi.createToken L w s username password = .ok response) (now : ℤ) :
    (∃ a, secured L now .authenticated (some [response.cookie.toCookie]) = .ok a) ↔
      now ≤ lastAccepted w.currentTimeMillis := by
  obtain ⟨token, htoken, rfl⟩ := TokenApi.createToken_eq_ok h
  obtain ⟨id, _, rfl⟩ := createToken_eq_ok.mp htoken
  have hverdict := getTokenIfValid_signToken_of_long hparse ht hlong id now
  have hcookies := jwtCookieList_tokenCookie (signToken L w id)
  constructor
  · rintro ⟨a, ha⟩
    obtain ⟨jws, haccepted, _⟩ := (secured_iff L now _ a).mp ha
    have htoken' : getTokenIfValid L now (signToken L w id) = .ok (some jws) :=
      getTokenIfValid_ok.mpr (haccepted.parse hcookies)
    by_contra hnow
    rw [if_neg hnow, htoken'] at hverdict
    cases hverdict
  · intro hnow
    rw [if_pos hnow] at hverdict
    exact ⟨_, (secured_iff L now _ _).mpr
      ⟨_, ⟨_, hcookies, getTokenIfValid_ok.mp hverdict⟩, rfl, rfl⟩⟩

/-- The rows of a registered device. -/
def deviceRows : Store (ℕ × String) :=
  (Registration.iosDevice "vendor" "device").rows Symbolic.libraries (Symbolic.ambient 0 0)

/-- A token of half past a second lasts as long as one of the full second before, and its cookie
half a second longer. -/
theorem token_lifetime_deviceRows :
    ∃ token,
      createToken Symbolic.libraries (Symbolic.ambient 0 1500) deviceRows "deviceId" "vendor" =
        .ok token ∧
      (∃ jws, getTokenIfValid Symbolic.libraries 864001000 token = .ok (some jws) ∧
        jws.subject = some (Registration.accountRow (Symbolic.ambient 0 0)).name) ∧
      getTokenIfValid Symbolic.libraries 864001001 token = .ok none ∧
      ∃ response, TokenApi.createToken Symbolic.libraries (Symbolic.ambient 0 1500) deviceRows
          "deviceId" "vendor" = .ok response ∧
        response.cookie = tokenCookie token ∧ 864001000 ≤ 1500 + 1000 * response.cookie.maxAge := by
  have hlogin : LogsIn Symbolic.libraries deviceRows "deviceId" "vendor"
      (Registration.credentialRow (Symbolic.ambient 0 0)) :=
    .device (c := ⟨Registration.credentialRow (Symbolic.ambient 0 0), "vendor", "device"⟩) rfl
  obtain ⟨token, htoken, hverdict, _, _, _, hcookie, _⟩ := token_lifetime Symbolic.parsesCompacted hlogin
    (a := Registration.accountRow (Symbolic.ambient 0 0)) rfl
    (w := Symbolic.ambient 0 1500) rfl (by decide) (by decide)
  obtain ⟨response, hresponse, _, htokenCookie, _, hmaxAge⟩ := hcookie (by decide)
  obtain ⟨jws, haccepted, hsubject⟩ := (hverdict 864001000 (by decide)).1 (by decide)
  exact ⟨token, htoken, ⟨jws, haccepted, hsubject⟩, (hverdict 864001001 (by decide)).2 (by decide),
    response, hresponse, htokenCookie, hmaxAge 1500 864001000 jws (by decide) haccepted⟩

end AuthenticationServer
