import EkEk.Config.Config
import EkEk.Dataplane.Probe
import EkEk.Text

/-!
# Keeping one client on one member

Reference: `crates/ek-ek-dataplane/src/sticky.rs`.

A cookie names a member by a digest of the pool and the member under a key of the configuration. It is
read back by computing the digest of every member that can take traffic. The keyed digest is the
library's and a parameter here.
-/

namespace EkEk.Dataplane.Sticky

/-- A keyed digest, of a key and a message. -/
abbrev Hmac := List UInt8 → List UInt8 → Vector UInt8 32

/-- How many digest bytes the cookie carries. -/
def digestBytes : ℕ := 16

/-- Read digits in pairs. -/
def pairs : List UInt8 → Option (List UInt8)
  | [] => some []
  | high :: low :: rest => do
    let high ← toDigit (Char.ofNat high.toNat)
    let low ← toDigit (Char.ofNat low.toNat)
    let bytes ← pairs rest
    some (UInt8.ofNat (high * 16 + low) :: bytes)
  | [_] => none

/-- Read a hex key into bytes. -/
def keyBytes (key : String) : Option (List UInt8) :=
  if key = "" ∨ key.utf8ByteSize % 2 ≠ 0 then none else pairs (Text.bytes key)

/-- Signs and recognises cookie values for one key. -/
structure Signer where
  key : List UInt8
deriving DecidableEq, Repr

namespace Signer

/-- A signer from the hex key a configuration carries. A digest takes a key of any length. -/
def fromHex (key : String) : Option Signer := (keyBytes key).map Signer.mk

variable (hmac : Hmac)

/-- The opaque value naming one member. -/
def token (signer : Signer) (pool : BackendId) (member : MemberId) : String :=
  Text.hex ((hmac signer.key (Text.bytes pool.asStr ++ 0 :: Text.bytes member.asStr)).toList.take
    digestBytes)

/-- Which of these members a cookie value names. The last one counts. -/
def memberFor (signer : Signer) (pool : BackendId) (eligible : List BackendMember) (value : String) :
    Option BackendMember :=
  eligible.reverse.find? fun member => signer.token hmac pool member.id = value

end Signer

/-- The stickiness settings of a pool. -/
def settings (pool : Backend) : Option (String × SameSitePolicy) :=
  match pool.stickiness with
  | .disabled => none
  | .signedCookie cookieName sameSite => some (cookieName, sameSite)

/-- The pairs of one line of cookies. -/
def cookiePairs (line : String) : List (String × String) :=
  (Text.split line ';').filterMap fun pair =>
    (Text.splitOnce (Text.trim pair) (· = '=')).map fun (key, value) => (Text.trim key, Text.trim value)

/-- The value a named cookie carries. Every line is walked. -/
def read (lines : List String) (name : String) : Option String :=
  ((lines.flatMap cookiePairs).find? fun pair => pair.1 = name).map Prod.snd

/-- The line that pins a client to a member. -/
def setCookie (name value : String) (sameSite : SameSitePolicy) (secure : Bool) : String :=
  let policy := match sameSite with
    | .strict => "Strict"
    | .lax => "Lax"
    | .none => "None"
  let cookie := name ++ "=" ++ value ++ "; Path=/; HttpOnly; SameSite=" ++ policy
  if secure ∨ sameSite = .none then cookie ++ "; Secure" else cookie

end EkEk.Dataplane.Sticky
