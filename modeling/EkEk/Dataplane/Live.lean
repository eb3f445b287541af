import EkEk.Config.Accepted
import EkEk.Dataplane.Balance

/-!
# The configuration the traffic path is serving

Reference: `crates/ek-ek-dataplane/src/live.rs`.

A delivery replaces everything at once or nothing at all: `Live.apply` checks a document and puts what
is built from it in the place of what was served. Whoever serves a request holds on to the `Live` it
started with.

The parsed certificates of a delivery are left out, since only handshakes read them.
-/

namespace EkEk.Dataplane

open Validation

/-- What the agent delivers. -/
structure ConfigUpdate where
  generation : UInt64
  config : Config
  /-- The answers to serve to certificate authorities, by token. -/
  challenges : Assoc String String
deriving DecidableEq, Repr

/-- A configuration together with the delivery it came from. -/
structure Live where
  generation : UInt64
  config : Config
  /-- One ring per pool. -/
  rings : Assoc BackendId HashRing
  challenges : Assoc String String
deriving DecidableEq, Repr

namespace Live

/-- Build the rings that go with a configuration. -/
def build (update : ConfigUpdate) : Live where
  generation := update.generation
  config := update.config
  rings := update.config.backends.foldl (fun rings pool => rings.insert pool.id (ringFor pool)) .empty
  challenges := update.challenges

/-- The ring of a pool, or an empty one when the pool is unknown. -/
def ring (live : Live) (pool : BackendId) : HashRing := (live.rings.get pool).getD .empty

/-- Find a frontend by identity. -/
def frontend (live : Live) (name : FrontendId) : Option Frontend :=
  live.config.frontends.find? fun frontend => frontend.id = name

/-- Find a pool by identity. -/
def pool (live : Live) (name : BackendId) : Option Backend :=
  live.config.backends.find? fun pool => pool.id = name

/-- Check a delivery and swap it in. A refused one changes nothing. -/
def apply (live : Live) (update : ConfigUpdate) : Live × Except (List ValidationError) Unit :=
  match validate update.config with
  | .ok () => (build update, .ok ())
  | .error errors => (live, .error errors)

variable {live : Live} {update : ConfigUpdate}

/-- What a delivery leaves is its own if it was accepted, and what was there if not. -/
theorem apply_cases (live : Live) (update : ConfigUpdate) :
    (Accepted update.config ∧ (live.apply update).1 = build update) ∨
      (¬ Accepted update.config ∧ (live.apply update).1 = live) := by
  rw [apply]
  cases h : validate update.config with
  | ok _ => exact .inl ⟨validate_eq_ok.mp h, rfl⟩
  | error errors =>
    refine .inr ⟨fun haccepted => ?_, rfl⟩
    rw [validate_eq_ok.mpr haccepted] at h
    cases h

theorem accepted_apply (h : Accepted live.config) : Accepted (live.apply update).1.config := by
  rcases apply_cases live update with ⟨haccepted, heq⟩ | ⟨-, heq⟩
  · rw [heq]
    exact haccepted
  · rw [heq]
    exact h

/-- A pool found by its identity is in the document. -/
theorem pool_eq_some {name : BackendId} {pool : Backend} (h : live.pool name = some pool) :
    pool ∈ live.config.backends ∧ pool.id = name :=
  ⟨List.mem_of_find?_eq_some h, by simpa using List.find?_some h⟩

end Live

/-- In an accepted document pools are told apart by their identity. -/
theorem backend_eq_of_id {config : Config} (h : Accepted config) {first second : Backend}
    (hfirst : first ∈ config.backends) (hsecond : second ∈ config.backends)
    (hid : first.id = second.id) : first = second :=
  List.inj_on_of_nodup_map (checkDuplicateIds_eq_nil.mp h.duplicateIds).backends hfirst hsecond
    (congrArg BackendId.asStr hid)

/-- And so are the members of a pool. -/
theorem member_eq_of_id {config : Config} (h : Accepted config) {pool : Backend}
    (hpool : pool ∈ config.backends) {first second : BackendMember} (hfirst : first ∈ pool.members)
    (hsecond : second ∈ pool.members) (hid : first.id = second.id) : first = second :=
  List.inj_on_of_nodup_map ((checkDuplicateIds_eq_nil.mp h.duplicateIds).members pool hpool) hfirst hsecond
    (congrArg MemberId.asStr hid)

end EkEk.Dataplane
