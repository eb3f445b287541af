import EkEk.Config.Validation
import EkEk.Dataplane.Probe
import EkEk.Lib.Assoc

/-!
# Choosing which rule a request falls under

Reference: `crates/ek-ek-dataplane/src/route.rs` and `challenge.rs`.

The rules of a frontend are tried in order against the host and the normal form of the path. A request
for a challenge of a certificate authority is answered before any rule is tried. The lower case of a
string is the standard library's and a parameter here.
-/

namespace EkEk.Dataplane.Route

variable (toLowercase : String → String)

/-- What is done with a request. -/
inductive Decision where
  | pool (name : BackendId) (requestTimeoutSeconds : UInt32)
  | redirect (code : ℕ)
  | nowhere
deriving DecidableEq, Repr

/-- The status code of a redirect. -/
def redirectCode : RedirectStatus → ℕ
  | .movedPermanently => 301
  | .permanent => 308

/-- Whether a host pattern covers a host. A leading `*.` stands for exactly one label. -/
def hostMatches (pattern host : String) : Bool :=
  let pattern := toLowercase pattern
  let host := toLowercase host
  match Text.stripPrefix pattern "*." with
  | some suffix =>
    match Text.splitOnce host (· = '.') with
    | some (label, rest) => label ≠ "" && rest = suffix
    | none => false
  | none => pattern = host

/-- Whether a path prefix covers a path, on a component boundary. -/
def pathMatches (start path : String) (case : PathCase) : Bool :=
  let (start, path) := match case with
    | .insensitive => (toLowercase start, toLowercase path)
    | .sensitive => (start, path)
  path = start ||
    match Text.stripPrefix path start with
    | some rest => start.toList.getLast? = some '/' || rest.toList.head? = some '/'
    | none => false

/-- Whether a rule takes a request. -/
def ruleMatches (rule : RoutingRule) (host : Option String) (path : String) : Bool :=
  let hostOk := match rule.hostPattern with
    | none => true
    | some pattern => host.any fun host => hostMatches toLowercase pattern host
  hostOk &&
    match rule.pathPrefix with
    | none => true
    | some start => pathMatches toLowercase start path rule.pathCase

/-- The byte an escape stands for. -/
def escaped (byte high low : UInt8) : Option UInt8 :=
  if byte = 0x25 then do
    let high ← toDigit (Char.ofNat high.toNat)
    let low ← toDigit (Char.ofNat low.toNat)
    some (UInt8.ofNat (high * 16 + low))
  else none

/-- Decode percent escapes once. An escape that is not one is left as it stands. -/
def decodeBytes : List UInt8 → List UInt8
  | byte :: high :: low :: rest =>
    match escaped byte high low with
    | some value => value :: decodeBytes rest
    | none => byte :: decodeBytes (high :: low :: rest)
  | byte :: rest => byte :: decodeBytes rest
  | [] => []

/-- Decode the percent escapes of a path. What is not text then is left as it arrived. -/
def percentDecode (path : String) : String :=
  (Text.fromUtf8 (decodeBytes (Text.bytes path))).getD path

/-- Take one part of a path. -/
def climb (parts : List String) (part : String) : List String :=
  if part = "" ∨ part = "." then parts
  else if part = ".." then parts.dropLast
  else parts ++ [part]

/-- Put a path into the one form matching is done against. -/
def normalise (path : String) : String :=
  let path := match Text.splitOnce path fun c => c = '?' || c = '#' with
    | some (before, _) => before
    | none => path
  let path := percentDecode path
  let parts := (Text.split path '/').foldl climb []
  if parts = [] then "/"
  else
    let out := String.join (parts.map fun part => "/" ++ part)
    if path.toList.getLast? = some '/' then out ++ "/" else out

/-- Drop the port a host may carry. The colons of a bracketed literal are not a port. -/
def stripPort (host : String) : String :=
  match Text.stripPrefix host "[" with
  | some rest =>
    match Text.splitOnce rest (· = ']') with
    | some (inside, _) => "[" ++ inside ++ "]"
    | none => host
  | none =>
    match Text.splitOnce host (· = ':') with
    | some (name, _) => name
    | none => host

/-- Pick the rule a request falls under and say what happens to it. -/
def decide (frontend : Frontend) (host : Option String) (path : String) : Decision :=
  let path := normalise path
  let host := host.map stripPort
  match frontend.routingRules.find? fun rule => ruleMatches toLowercase rule host path with
  | some rule =>
    match rule.action with
    | .proxy backend => .pool backend (rule.requestTimeoutSeconds.getD frontend.requestTimeoutSeconds)
    | .redirect status => .redirect (redirectCode status)
  | none =>
    match frontend.defaultBackend with
    | some backend => .pool backend frontend.requestTimeoutSeconds
    | none => .nowhere

/-! ## Challenges -/

/-- The port a certificate authority asks the challenge on. -/
def http01Port : UInt16 := 80

/-- The path a certificate authority asks the challenge on. -/
def challengePath : String := "/.well-known/acme-challenge/"

/-- What to do with a request that arrived on a challenge path. -/
inductive Reply where
  | elsewhere
  | unknown
  | answer (value : String)
deriving DecidableEq, Repr

/-- What a request on a listener gets. -/
def reply (challenges : Assoc String String) (port : UInt16) (path : String) : Reply :=
  if port ≠ http01Port then .elsewhere
  else
    match Text.stripPrefix (normalise path) challengePath with
    | none => .elsewhere
    | some token =>
      match challenges.get token with
      | some value => .answer value
      | none => .unknown

end EkEk.Dataplane.Route
