import AuthenticationServer.Jersey.Mappers
import AuthenticationServer.Services.AccountName
import AuthenticationServer.System.Conflict
import AuthenticationServer.System.Deletion
import AuthenticationServer.System.Identity
import AuthenticationServer.System.Lifecycle
import AuthenticationServer.System.Login
import AuthenticationServer.System.Race
import AuthenticationServer.System.Refinement
import AuthenticationServer.System.RoleCheck
import AuthenticationServer.System.ServerRefinement
import AuthenticationServer.System.Session
import AuthenticationServer.System.SharedResponse
import AuthenticationServer.System.Timestamps
import AuthenticationServer.System.TokenLifetime
