import AuthenticationServer.Library.Fallible

/-!
# The exceptions of the service

One constructor for each class that the code throws, catches or maps, with the data that
its constructor is given.
-/

namespace AuthenticationServer

/-- What `parseClaimsJws` of jjwt rejects a string with: the subclasses of `JwtException`
and `IllegalArgumentException`. -/
inductive ParserException
  | expiredJwtException
  | prematureJwtException
  | unsupportedJwtException
  | malformedJwtException
  | signatureException
  | compressionException
  | illegalArgumentException
  deriving DecidableEq, Repr

/-- The exceptions by their classes. -/
inductive Throwable
  /-- `services.exceptions.ConflictException`, with or without a cause -/
  | conflictException (message : String) (cause : Option Throwable)
  /-- `services.exceptions.NotAuthorizedException(message)` -/
  | notAuthorizedException (message : String)
  /-- `javax.ws.rs.NotAuthorizedException(challenge)` -/
  | challengeException (challenge : String)
  /-- `javax.ws.rs.NotFoundException(message)` -/
  | notFoundException (message : String)
  /-- `javax.validation.ConstraintViolationException`, by the messages of its violations, in the
  order in which their set is iterated -/
  | constraintViolationException (messages : List String)
  /-- any other `javax.validation.ValidationException` -/
  | validationException
  | dataIntegrityViolationException
  | incorrectResultSizeDataAccessException
  /-- what a failed attribute conversion surfaces as -/
  | jpaSystemException
  | illegalArgumentException
  /-- a failed null check of Kotlin -/
  | illegalStateException
  /-- Spring Security's `AccessDeniedException` -/
  | accessDeniedException
  /-- no authentication provider supports the class of an authentication -/
  | providerNotFoundException
  /-- an exception of the token parser that is not caught -/
  | parserException (e : ParserException)
  deriving Repr

/-- The subclasses of `javax.ws.rs.WebApplicationException`. -/
def Throwable.isWebApplicationException : Throwable → Bool
  | conflictException .. | notAuthorizedException _ | challengeException _
  | notFoundException _ => true
  | _ => false

end AuthenticationServer
