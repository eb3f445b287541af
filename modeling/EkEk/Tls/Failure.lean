import Mathlib.Init

/-!
# What can go wrong with an order

Reference: `crates/ek-ek-tls/src/error.rs`.
-/

namespace EkEk.Tls

/-- What kind of thing went wrong. -/
inductive Reason where
  | network
  | server
  | protocol
  | challenge
  | crypto
  | configuration
  | noQuorum
  | tooManyAttempts
deriving DecidableEq, Repr

/-- A stable identifier for logs and reports. -/
def Reason.key : Reason → String
  | .network => "acme.network"
  | .server => "acme.server"
  | .protocol => "acme.protocol"
  | .challenge => "acme.challenge"
  | .crypto => "acme.crypto"
  | .configuration => "acme.configuration"
  | .noQuorum => "acme.no_quorum"
  | .tooManyAttempts => "acme.too_many_attempts"

/-- Whether trying the same order again could succeed. -/
def Reason.worthRetrying : Reason → Bool
  | .network | .server | .protocol | .noQuorum => true
  | _ => false

/-- One failed order, and why. -/
structure Failure where
  reason : Reason
  detail : String
deriving DecidableEq, Repr

def Failure.worthRetrying (failure : Failure) : Bool := failure.reason.worthRetrying

/-- How a failure is printed. -/
def Failure.text (failure : Failure) : String := s!"{failure.reason.key}: {failure.detail}"

end EkEk.Tls
