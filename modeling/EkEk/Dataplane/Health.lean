import EkEk.Config.Config
import EkEk.Lib.Assoc
import EkEk.Lib.Overflow

/-!
# Which members are in rotation

Reference: `crates/ek-ek-dataplane/src/health.rs`.

The answers of the probes of a member become a state, by counting how many of them in a row were good
or bad. A member nothing is known about is in rotation.
-/

namespace EkEk.Dataplane

open Overflow (saturatingAdd)

/-- What is known about one member's health. -/
structure HealthState where
  healthy : Bool
  failures : UInt32
  successes : UInt32
  transitions : UInt64
deriving DecidableEq, Repr

/-- Healthy until proven otherwise. -/
def HealthState.initial : HealthState := ⟨true, 0, 0, 0⟩

/-- What health checking knows. -/
structure Health where
  states : Assoc (BackendId × MemberId) HealthState
deriving DecidableEq, Repr

/-- What one recorded answer did to a member's state. -/
inductive Change where
  | none
  | wentUnhealthy
  | wentHealthy
deriving DecidableEq, Repr

namespace HealthState

/-- Take one answer in. -/
def record (state : HealthState) (check : HealthCheck) (good : Bool) : HealthState × Change :=
  if good then
    let state := { state with successes := saturatingAdd state.successes 1, failures := 0 }
    if !state.healthy && (max check.healthyThreshold 1).toUInt32 ≤ state.successes then
      ({ state with healthy := true, transitions := saturatingAdd state.transitions 1 }, .wentHealthy)
    else (state, .none)
  else
    let state := { state with failures := saturatingAdd state.failures 1, successes := 0 }
    if state.healthy && (max check.unhealthyThreshold 1).toUInt32 ≤ state.failures then
      ({ state with healthy := false, transitions := saturatingAdd state.transitions 1 }, .wentUnhealthy)
    else (state, .none)

end HealthState

namespace Health

/-- Nothing is known, which means everybody is in rotation. -/
def new : Health := ⟨.empty⟩

/-- Whether a member is taking traffic. -/
def isHealthy (health : Health) (pool : BackendId) (member : MemberId) : Bool :=
  match health.states.get (pool, member) with
  | some state => state.healthy
  | none => true

/-- Record the answer of one probe. -/
def record (health : Health) (pool : BackendId) (member : MemberId) (check : HealthCheck) (good : Bool) :
    Health × Change :=
  let (state, change) := ((health.states.get (pool, member)).getD .initial).record check good
  (⟨health.states.insert (pool, member) state⟩, change)

end Health

end EkEk.Dataplane
