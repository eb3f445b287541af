import EkEk.Serde
import EkEk.Store.Journal

/-!
# What consensus keeps

Reference: `crates/ek-ek-raft/src/fault.rs` and `types.rs`, and the types of openraft the crate names.

An entry of the log has an identity, the leader it was written by and its position, and carries
something. A fault names the part of the store that failed and whether it was read or written.
-/

namespace EkEk.Raft

/-- The leader an entry was written by. -/
structure LeaderId where
  term : UInt64
  node : UInt64
deriving DecidableEq, Repr

/-- The identity of an entry. -/
structure LogId where
  leader : LeaderId
  index : UInt64
deriving DecidableEq, Repr

/-- An entry of the log. -/
structure Entry (Payload : Type) where
  logId : LogId
  payload : Payload
deriving DecidableEq, Repr

/-- The position of an entry, as a number. -/
def Entry.position {Payload : Type} (entry : Entry Payload) : ℕ := entry.logId.index.toNat

/-- What a node is called and where it can be reached. -/
structure PeerNode where
  name : String
  address : String
deriving DecidableEq, Repr

/-- The part of the store that failed. -/
inductive Subject where
  | logs
  | stateMachine
  | apply (id : LogId)
  | snapshot
deriving DecidableEq, Repr

/-- What the store failed to do. -/
inductive Verb where
  | read
  | write
deriving DecidableEq, Repr

/-- A storage fault, with what was said about it. -/
structure Fault where
  subject : Subject
  verb : Verb
  detail : String
deriving DecidableEq, Repr

namespace Fault

/-- The log could not be read. -/
def readLogs (detail : String) : Fault := ⟨.logs, .read, detail⟩

/-- The log could not be written. -/
def writeLogs (detail : String) : Fault := ⟨.logs, .write, detail⟩

/-- The state could not be read. -/
def readStateMachine (detail : String) : Fault := ⟨.stateMachine, .read, detail⟩

/-- The state could not be written. -/
def writeStateMachine (detail : String) : Fault := ⟨.stateMachine, .write, detail⟩

/-- An entry could not be applied. -/
def apply (id : LogId) (detail : String) : Fault := ⟨.apply id, .write, detail⟩

/-- A snapshot could not be read. -/
def readSnapshot (detail : String) : Fault := ⟨.snapshot, .read, detail⟩

/-- A snapshot could not be written. -/
def writeSnapshot (detail : String) : Fault := ⟨.snapshot, .write, detail⟩

end Fault

end EkEk.Raft
