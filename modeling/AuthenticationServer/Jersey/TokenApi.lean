import AuthenticationServer.Jersey.AccountApi
import AuthenticationServer.Services.JWTService

/-!
# `TokenApi`

The login as a resource method: its constraints, and the cookie that the token is returned in.

## Main definitions

- `TokenApi.createToken` - the resource method
-/

namespace AuthenticationServer

open Java

variable {H Salt : Type}

/-- `javax.ws.rs.core.NewCookie`; `maxAge` counts seconds. -/
structure NewCookie where
  name : String
  value : String
  path : String
  domain : String
  comment : String
  maxAge : ℤ
  secure : Bool
  httpOnly : Bool
  deriving DecidableEq, Repr

/-- A response without an entity that sets a cookie. -/
structure CookieResponse where
  status : ℕ
  cookie : NewCookie
  deriving DecidableEq, Repr

/-- `Long.toInt`: the low 32 bits, with their sign. -/
def toInt (n : ℤ) : ℤ := n.bmod (2 ^ 32)

/-- The cookie that carries a token. -/
def tokenCookie (token : String) : NewCookie :=
  ⟨"jwt", token, "/", "0.0.0.0", "JWT Token", toInt (EXPIRATION_TIME.tdiv 1000), true, true⟩

/-- `TokenApi.createToken`, with the constraints on its parameters. -/
def TokenApi.createToken (L : Libraries H Salt) (w : Ambient Salt) (s : Store H)
    (username password : String) : Except Throwable CookieResponse := do
  validate w (tokenViolations username)
  let token ← AuthenticationServer.createToken L w s username password
  return ⟨200, tokenCookie token⟩

/-- The cookie as a browser sends it back. -/
def NewCookie.toCookie (c : NewCookie) : Cookie := ⟨c.name, c.value⟩

theorem jwtCookieList_tokenCookie (token : String) :
    jwtCookieList (some [(tokenCookie token).toCookie]) = [(tokenCookie token).toCookie] := rfl

theorem TokenApi.createToken_eq (L : Libraries H Salt) (w : Ambient Salt) (s : Store H)
    {username : String} (password : String) (h : tokenViolations username = []) :
    TokenApi.createToken L w s username password =
      (AuthenticationServer.createToken L w s username password).map fun token =>
        ⟨200, tokenCookie token⟩ := by
  rw [TokenApi.createToken, validate_eq_ok.mpr h]
  rfl

theorem TokenApi.createToken_eq_ok {L : Libraries H Salt} {w : Ambient Salt} {s : Store H}
    {username password : String} {response : CookieResponse}
    (h : TokenApi.createToken L w s username password = .ok response) :
    ∃ token, AuthenticationServer.createToken L w s username password = .ok token ∧
      response = ⟨200, tokenCookie token⟩ := by
  obtain ⟨_, _, hbody⟩ := Fallible.bind_eq_ok.mp h
  obtain ⟨token, htoken, hresponse⟩ := Fallible.bind_eq_ok.mp hbody
  exact ⟨token, htoken, (Except.ok.inj hresponse).symm⟩

end AuthenticationServer
