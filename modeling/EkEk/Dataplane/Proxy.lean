import EkEk.Dataplane.Listeners
import EkEk.Dataplane.Live
import EkEk.Dataplane.Route
import EkEk.Dataplane.Sticky

/-!
# The HTTP reverse proxy

Reference: `crates/ek-ek-dataplane/src/proxy.rs`, with `requestid.rs` and the reuse groups of `pool.rs`.

One request goes through the phases the server calls: `request_filter` takes a snapshot of the live
configuration, decides what becomes of the request and waits for a slot of its pool before it picks a
member; `upstream_request_filter` writes the forwarded headers, once for every attempt to reach the
member; `response_filter` writes the cookie. Deliveries and other requests come in between.

`advance` is one phase with the configuration it reads. The proxy gives it the live one. A request that
is served from its snapshot is one that fares as if the configuration had stayed as it was, which
`served_from_snapshot_iff` gives the exact condition for.

The counters of the status, the access log and the wait for a slot itself are left out.
-/

namespace EkEk.Dataplane.Proxy

open Validation

/-! ## Headers -/

/-- The headers of a message, with their names in lower case. -/
abbrev Headers := List (String × List UInt8)

/-- The bytes a header value can have. -/
def validValue (value : List UInt8) : Bool := value.all fun byte => byte = 9 || 32 ≤ byte && byte ≠ 127

/-- Put a value in the place of all the values of a header. What no header can have is not written. -/
def insertHeader (headers : Headers) (name : String) (value : List UInt8) : Headers :=
  if validValue value then headers.filter (fun header => header.1 ≠ name) ++ [(name, value)] else headers

/-- Add a value to those of a header. -/
def appendHeader (headers : Headers) (name : String) (value : List UInt8) : Headers :=
  if validValue value then headers ++ [(name, value)] else headers

/-- The first value of a header. -/
def getHeader (headers : Headers) (name : String) : Option (List UInt8) :=
  (headers.find? fun header => header.1 = name).map Prod.snd

/-- A value as text, if it is visible ASCII. -/
def toStr (value : List UInt8) : Option String :=
  if value.all fun byte => byte = 9 || 32 ≤ byte && byte < 127 then
    some (String.ofList (value.map fun byte => Char.ofNat byte.toNat))
  else none

/-! ## The request and its context -/

/-- What a client sent. -/
structure Request where
  headers : Headers
  path : String
  pathAndQuery : Option String
  /-- The address it came from, if that can be read. -/
  client : Option IpAddr
deriving DecidableEq, Repr

/-- An answer that is given without reaching a member. -/
structure Answer where
  status : ℕ
  headers : Headers
  body : String
deriving DecidableEq, Repr

/-- Where a request is sent, with the options of the connection. Durations are in nanoseconds. -/
structure Peer where
  address : SocketAddr
  tls : Bool
  sni : String
  groupKey : UInt64
  connectionTimeout : Option ℕ
  readTimeout : Option ℕ
  idleTimeout : Option ℕ
deriving DecidableEq, Repr

/-- What one request carries while it is being proxied. -/
structure Context where
  peer : Option Peer
  chosen : Option (BackendId × MemberId)
  setCookie : Option String
  requestId : String
  logged : Bool
deriving DecidableEq, Repr

/-- What the requests of the process share besides the configuration: the balancer, and the counters of
requests taken, request ids made and reuse groups made. -/
structure Shared where
  balancer : Balancer
  seen : UInt64
  nextId : UInt64
  nextGroup : UInt64

/-- A request that waits for a slot of its pool. -/
structure Waiting where
  frontend : Frontend
  name : BackendId
  requestLimit : UInt32
  pool : Backend

/-- How far a request has come. A request that waits holds the snapshot. -/
inductive Progress where
  | fresh
  | answered (ctx : Context) (answer : Answer)
  | queued (snapshot : Live) (ctx : Context) (waiting : Waiting)
  | proxied (ctx : Context) (forwarded responses : List Headers)

/-- Answered when the pool has nobody able to take the request. -/
def noMember : ℕ := 503

/-- The shortest duration the timers can hold, a millisecond. -/
def shortestTimer : ℕ := 10 ^ 6

/-- Marks a reuse group that belongs to one request. -/
def neverShared : UInt64 := 1 <<< (63 : UInt64)

/-- The address a request came from, or the unspecified one. -/
def clientAddress (request : Request) : IpAddr := request.client.getD (.v4 ⟨0, 0, 0, 0⟩)

/-- Every line of cookies a request carries. -/
def cookieLines (request : Request) : List String :=
  (request.headers.filter fun header => header.1 = "cookie").filterMap fun header => toStr header.2

/-- A bare status answer. -/
def bare (status : ℕ) : Answer := ⟨status, [("content-length", Text.bytes "0")], ""⟩

/-- The answer to a challenge. -/
def challengeAnswer (value : String) : Answer where
  status := 200
  headers := [("content-type", Text.bytes "text/plain"),
    ("content-length", Text.bytes (toString value.utf8ByteSize))]
  body := value

/-- The redirect to HTTPS on the same host. The port is dropped. -/
def redirectToHttps (request : Request) (code : ℕ) : Option Answer := do
  let host ← (getHeader request.headers "host").bind toStr
  let name := (Text.split host ':').headD host
  let location := "https://" ++ name ++ request.pathAndQuery.getD "/"
  if validValue (Text.bytes location) then
    some ⟨code, [("location", Text.bytes location), ("content-length", Text.bytes "0")], ""⟩
  else none

/-! ## Request ids -/

/-- Whether an arriving id may be used as it stands. -/
def acceptable (value : String) : Bool :=
  value ≠ "" && value.utf8ByteSize ≤ 64 &&
    value.toList.all fun c => c.isAlphanum || c = '-' || c = '_' || c = '.'

/-- A number in hex. -/
def lowerHex (n : ℕ) : String := String.ofList (Nat.toDigits 16 n)

/-- The id a request is known by. Unless the client brought one that can be kept, it is made of the
process id and a counter. -/
def forRequest (processId : ℕ) (arrived : Option String) (shared : Shared) : Shared × String :=
  match arrived.filter acceptable with
  | some value => (shared, value)
  | none => ({ shared with nextId := shared.nextId + 1 },
      lowerHex processId ++ "-" ++ lowerHex shared.nextId.toNat)

/-- Whether the request with a number gets an access record. -/
def writes (log : AccessLog) (number : UInt64) : Bool :=
  log.enabled && (log.sampleOneIn ≤ 1 || number.toNat % log.sampleOneIn.toNat = 0)

/-! ## The peer -/

/-- A duration of so many seconds, or no limit for zero. -/
def limitOf (seconds : UInt32) : Option ℕ := if seconds = 0 then none else some (seconds.toNat * 10 ^ 9)

/-- The upstream peer a request is sent to. -/
def upstream (address : SocketAddr) (connectLimit : Option ℕ) (requestTimeoutSeconds : UInt32)
    (pooling : ConnectionPooling) (reuseGroup : UInt64) : Peer where
  address := address
  tls := false
  sni := ""
  groupKey := reuseGroup
  connectionTimeout := connectLimit
  readTimeout := limitOf requestTimeoutSeconds
  -- a pool that does not reuse has a group for every request, so this is never waited for
  idleTimeout := if pooling = .disabled then some shortestTimer else none

/-- The reuse group a request to a pool belongs to, at so many seconds since the epoch. -/
def reuseGroup (pool : Backend) (now : UInt64) (shared : Shared) : Shared × UInt64 :=
  if pool.connectionPooling = .disabled then
    ({ shared with nextGroup := shared.nextGroup + 1 }, neverShared ||| shared.nextGroup)
  else if pool.connectionLifetimeSeconds = 0 then (shared, 0)
  else (shared, now / pool.connectionLifetimeSeconds.toUInt64)

/-! ## The phases -/

section Phases

variable (toLowercase : String → String) (hmac : Sticky.Hmac) (processId : ℕ) (frontend : FrontendId)
  (request : Request)

/-- The first part of `request_filter`, up to the wait for a slot. -/
def arrive (live : Live) (shared : Shared) : Shared × Progress :=
  let (shared, requestId) :=
    forRequest processId ((getHeader request.headers "x-request-id").bind toStr) shared
  let ctx : Context := ⟨none, none, none, requestId, false⟩
  match live.frontend frontend with
  | none => (shared, .answered ctx (bare noMember))
  | some frontend =>
    let ctx := { ctx with logged := writes frontend.accessLog shared.seen }
    let shared := { shared with seen := shared.seen + 1 }
    if frontend.application ≠ .http then (shared, .answered ctx (bare noMember))
    else
      -- before routing, so that no rule takes the path away from the order that waits on it
      match Route.reply live.challenges frontend.port request.path with
      | .answer value => (shared, .answered ctx (challengeAnswer value))
      | .unknown => (shared, .answered ctx (bare 404))
      | .elsewhere =>
        let askedFor := (getHeader request.headers "host").bind toStr
        match Route.decide toLowercase frontend askedFor request.path with
        | .redirect code => (shared, .answered ctx ((redirectToHttps request code).getD (bare 400)))
        | .nowhere => (shared, .answered ctx (bare noMember))
        | .pool name requestLimit =>
          match live.pool name with
          | none => (shared, .answered ctx (bare noMember))
          | some pool => (shared, .queued live ctx ⟨frontend, name, requestLimit, pool⟩)

/-- Send a request to a member. -/
def claim (ctx : Context) (waiting : Waiting) (member : BackendMember) (now : UInt64) (shared : Shared) :
    Shared × Progress :=
  let balancer := shared.balancer.opened frontend waiting.name member.id
  let (shared, group) := reuseGroup waiting.pool now { shared with balancer }
  let peer := upstream ⟨member.address, member.port⟩ (limitOf waiting.frontend.connectTimeoutSeconds)
    waiting.requestLimit waiting.pool.connectionPooling group
  (shared, .proxied { ctx with chosen := some (waiting.name, member.id), peer := some peer } [] [])

/-- The rest of `request_filter`, once the slot is there. -/
def serve (live : Live) (ctx : Context) (waiting : Waiting) (now : UInt64) (shared : Shared) :
    Shared × Progress :=
  let sticky := do
    let (cookie, policy) ← Sticky.settings waiting.pool
    let signer ← Sticky.Signer.fromHex live.config.stickinessKey
    some (cookie, policy, signer)
  let pinned := do
    let (cookie, _, signer) ← sticky
    let value ← Sticky.read (cookieLines request) cookie
    -- only members that can take traffic are offered
    signer.memberFor hmac waiting.name (eligible waiting.pool shared.balancer.health) value
  match pinned with
  | some member => claim frontend ctx waiting member now shared
  | none =>
    match shared.balancer.choose waiting.pool (live.ring waiting.name) (clientAddress request) with
    | (balancer, none) => ({ shared with balancer }, .answered ctx (bare noMember))
    | (balancer, some member) =>
      let setCookie := sticky.map fun (cookie, policy, signer) =>
        Sticky.setCookie cookie (signer.token hmac waiting.name member.id) policy
          waiting.frontend.tls.isSome
      claim frontend { ctx with setCookie } waiting member now { shared with balancer }

/-- Whether a configuration has the frontend terminate TLS. -/
def terminates (live : Live) : Bool := (live.frontend frontend).any fun frontend => frontend.tls.isSome

/-- `upstream_request_filter`: the headers a member gets, from those it would get. -/
def forwarded (live : Live) (headers : Headers) : Headers :=
  let headers := insertHeader headers "x-forwarded-for" (Text.bytes (clientAddress request).display)
  let scheme := if terminates frontend live then "https" else "http"
  let headers := insertHeader headers "x-forwarded-proto" (Text.bytes scheme)
  match getHeader request.headers "host" with
  | some host => insertHeader headers "x-forwarded-host" host
  | none => headers

/-- `response_filter`: the headers a client gets, from those the member answered. -/
def responded (ctx : Context) (headers : Headers) : Headers :=
  let headers := match ctx.setCookie with
    | some cookie => appendHeader headers "set-cookie" (Text.bytes cookie)
    | none => headers
  insertHeader headers "x-request-id" (Text.bytes ctx.requestId)

/-- What happens while a request is served. -/
inductive Event where
  | deliver (update : ConfigUpdate)
  | others (shared : Shared)
  | requestFilter
  | slotGranted (now : UInt64)
  | upstreamRequestFilter (headers : Headers)
  | responseFilter (headers : Headers)

/-- One phase of the request, with the configuration it reads if it reads any. Other requests may leave
the balancer and the counters in any state. -/
def advance (live : Live) (here : Shared × Progress) (event : Event) : Shared × Progress :=
  match event, here.2 with
  | .others shared, progress => (shared, progress)
  | .requestFilter, .fresh => arrive toLowercase processId frontend request live here.1
  | .slotGranted now, .queued snapshot ctx waiting =>
    serve hmac frontend request snapshot ctx waiting now here.1
  | .upstreamRequestFilter headers, .proxied ctx sent responses =>
    (here.1, .proxied ctx (sent ++ [forwarded frontend request live headers]) responses)
  | .responseFilter headers, .proxied ctx sent responses =>
    -- the cookie is written once
    (here.1, .proxied { ctx with setCookie := none } sent (responses ++ [responded ctx headers]))
  | _, _ => here

/-- The process, as far as a request sees it. -/
structure State where
  live : Live
  shared : Shared
  progress : Progress

/-- One step. Every phase that reads the configuration reads the live one. -/
def step (s : State) (event : Event) : State :=
  match event with
  | .deliver update => { s with live := (s.live.apply update).1 }
  | event =>
    let (shared, progress) :=
      advance toLowercase hmac processId frontend request s.live (s.shared, s.progress) event
    { s with shared, progress }

/-- Whenever the forwarded headers are written, the live configuration and the snapshot agree on whether
the frontend terminates TLS. -/
def SameScheme (snapshot : Live) (s : State) : Event → Prop
  | .upstreamRequestFilter _ => ∀ ctx sent responses, s.progress = .proxied ctx sent responses →
    terminates frontend s.live = terminates frontend snapshot
  | _ => True

end Phases

/-! ## Forwarded headers -/

theorem getHeader_insertHeader {headers : Headers} {name : String} {value : List UInt8}
    (h : validValue value = true) : getHeader (insertHeader headers name value) name = some value := by
  have hnone :
      (headers.filter fun header => header.1 ≠ name).find? (fun header => header.1 = name) = none := by
    rw [List.find?_eq_none]
    intro header hheader
    simpa using (List.mem_filter.mp hheader).2
  rw [getHeader, insertHeader, if_pos h, List.find?_append, hnone]
  simp

theorem getHeader_insertHeader_of_ne {headers : Headers} {name other : String} {value : List UInt8}
    (h : other ≠ name) : getHeader (insertHeader headers name value) other = getHeader headers other := by
  rw [insertHeader]
  split
  · have hkept : (headers.filter fun header => header.1 ≠ name).find? (fun header => header.1 = other) =
        headers.find? fun header => header.1 = other := by
      rw [List.find?_filter]
      congr 1
      funext header
      by_cases hother : header.1 = other
      · simp [hother, h]
      · simp [hother]
    have hlast : [(name, value)].find? (fun header => header.1 = other) = none := by simp [h.symm]
    rw [getHeader, List.find?_append, hkept, hlast, Option.or_none, getHeader]
  · rfl

/-- What a member is told about the scheme is what the configuration says that was read for it. -/
theorem getHeader_forwarded (frontend : FrontendId) (request : Request) (live : Live)
    (headers : Headers) :
    getHeader (forwarded frontend request live headers) "x-forwarded-proto" =
      some (Text.bytes (if terminates frontend live then "https" else "http")) := by
  have hvalid : ∀ terminating : Bool,
      validValue (Text.bytes (if terminating then "https" else "http")) = true := by decide
  simp only [forwarded]
  split
  · rw [getHeader_insertHeader_of_ne (by decide), getHeader_insertHeader (hvalid _)]
  · rw [getHeader_insertHeader (hvalid _)]

section

variable (toLowercase : String → String) (hmac : Sticky.Hmac) (processId : ℕ) (frontend : FrontendId)
  (request : Request)

/-- Two configurations forward the same headers exactly when they agree on the scheme. -/
theorem forwarded_eq_iff {live snapshot : Live} {headers : Headers} :
    forwarded frontend request live headers = forwarded frontend request snapshot headers ↔
      terminates frontend live = terminates frontend snapshot := by
  constructor
  · intro h
    have hproto := congrArg (getHeader · "x-forwarded-proto") h
    simp only [getHeader_forwarded, Option.some.injEq] at hproto
    have hinj : ∀ first second : Bool, Text.bytes (if first then "https" else "http") =
        Text.bytes (if second then "https" else "http") → first = second := by decide
    exact hinj _ _ hproto
  · intro h
    simp only [forwarded, h]

/-! ## Served from the snapshot -/

/-- What `request_filter` leaves is decided, or waits for a slot. -/
theorem arrive_ne_fresh (live : Live) (shared : Shared) :
    (arrive toLowercase processId frontend request live shared).2 ≠ .fresh := by
  unfold arrive
  dsimp only
  repeat' split
  all_goals rintro ⟨⟩

theorem serve_ne_fresh (live : Live) (ctx : Context) (waiting : Waiting) (now : UInt64) (shared : Shared) :
    (serve hmac frontend request live ctx waiting now shared).2 ≠ .fresh := by
  unfold serve claim
  dsimp only
  repeat' split
  all_goals rintro ⟨⟩

/-- The request is past `request_filter` and stands where it would stand with the snapshot alone. -/
def Agrees (s : State) (here : Shared × Progress) : Prop :=
  (s.shared, s.progress) = here ∧ s.progress ≠ .fresh

variable {toLowercase hmac processId frontend request} {s : State} {here : Shared × Progress}
  {event : Event} {live : Live}

/-- A step that meets the condition does what it would do with the snapshot alone. -/
theorem agrees_step (h : Agrees s here) (hscheme : SameScheme frontend live s event) :
    Agrees (step toLowercase hmac processId frontend request s event)
      (advance toLowercase hmac processId frontend request live here event) := by
  obtain ⟨current, shared, progress⟩ := s
  obtain ⟨rfl, hfresh⟩ := h
  cases event with
  | deliver update => exact ⟨by simp only [step, advance], hfresh⟩
  | others others => exact ⟨rfl, hfresh⟩
  | requestFilter =>
    cases progress with
    | fresh => exact absurd rfl hfresh
    | _ => exact ⟨rfl, hfresh⟩
  | slotGranted now =>
    cases progress with
    | queued snapshot ctx waiting =>
      exact ⟨rfl, serve_ne_fresh hmac frontend request snapshot ctx waiting now shared⟩
    | _ => exact ⟨rfl, hfresh⟩
  | upstreamRequestFilter headers =>
    cases progress with
    | proxied ctx sent responses =>
      have hheaders :
          forwarded frontend request current headers = forwarded frontend request live headers :=
        (forwarded_eq_iff frontend request).mpr (hscheme ctx sent responses rfl)
      refine ⟨?_, by rintro ⟨⟩⟩
      simp only [step, advance, hheaders]
    | _ => exact ⟨rfl, hfresh⟩
  | responseFilter headers =>
    cases progress with
    | proxied ctx sent responses => exact ⟨rfl, by rintro ⟨⟩⟩
    | _ => exact ⟨rfl, hfresh⟩

/-- A step that misses it tells the member another scheme. -/
theorem ne_of_not_sameScheme (h : Agrees s here) (hscheme : ¬ SameScheme frontend live s event) :
    (step toLowercase hmac processId frontend request s event).progress ≠
      (advance toLowercase hmac processId frontend request live here event).2 := by
  obtain ⟨current, shared, progress⟩ := s
  obtain ⟨rfl, -⟩ := h
  cases event with
  | upstreamRequestFilter headers =>
    simp only [SameScheme, not_forall] at hscheme
    obtain ⟨ctx, sent, responses, rfl, hscheme⟩ := hscheme
    intro heq
    simp only [step, advance, Progress.proxied.injEq, List.append_cancel_left_eq, List.cons.injEq,
      and_true, true_and] at heq
    exact hscheme ((forwarded_eq_iff frontend request).mp heq)
  | _ => exact absurd trivial hscheme

variable (toLowercase hmac processId frontend request)

/-- Whatever configurations are delivered and whatever other requests do between its phases, a request
is served from the configuration its `request_filter` started with exactly when the live one agrees with
it, each time the forwarded headers are written, on whether the frontend terminates TLS. -/
theorem served_from_snapshot_iff (live : Live) (shared : Shared) (events : List Event) :
    (∀ first, first <+: events →
      (Runs.run (step toLowercase hmac processId frontend request) ⟨live, shared, .fresh⟩
        (.requestFilter :: first)).progress =
      (Runs.run (advance toLowercase hmac processId frontend request live) (shared, .fresh)
        (.requestFilter :: first)).2) ↔
      Runs.Along (step toLowercase hmac processId frontend request) (SameScheme frontend live)
        (step toLowercase hmac processId frontend request ⟨live, shared, .fresh⟩ .requestFilter)
        events := by
  have hstart : Agrees
      (step toLowercase hmac processId frontend request ⟨live, shared, .fresh⟩ .requestFilter)
      (advance toLowercase hmac processId frontend request live (shared, .fresh) .requestFilter) :=
    ⟨rfl, arrive_ne_fresh toLowercase processId frontend request live shared⟩
  exact @Runs.agree_iff _ _ (step toLowercase hmac processId frontend request) _
    (advance toLowercase hmac processId frontend request live) (SameScheme frontend live) Agrees
    (fun s here => s.progress = here.2) (fun s here h => congrArg Prod.snd h.1)
    (fun s here event h => agrees_step h) (fun s here event h => ne_of_not_sameScheme h) _ _ hstart events

end

/-- A shop behind one HTTP frontend, which terminates TLS or not. -/
def shop (tls : Option TlsSettings) : ConfigUpdate where
  generation := 1
  config := { Config.empty with
    vips := [⟨⟨"one"⟩, .v4 ⟨10, 0, 0, 1⟩, 24, "eth0", none⟩]
    frontends := [{ plain "web" "one" with
      application := .http
      tls := tls
      defaultBackend := some ⟨"shop"⟩ }]
    backends := [⟨⟨"shop"⟩, [⟨⟨"main"⟩, .v4 ⟨10, 0, 0, 11⟩, 8080, 1, .enabled⟩], .roundRobin, none,
      .disabled, .enabled, 0, 0⟩] }
  challenges := .empty

/-- A request for the front page of the shop. -/
def frontPage : Request := ⟨[("host", Text.bytes "shop.example")], "/", some "/", some (.v4 ⟨10, 0, 1, 1⟩)⟩

/-- The headers a request has sent to its member. -/
def Progress.sent : Progress → List Headers
  | .proxied _ sent _ => sent
  | _ => []

/-- The request has its slot, the frontend gains TLS settings, and then the headers are written. -/
def midway : List Event :=
  [.slotGranted 0, .deliver (shop (some ⟨[], none, .balanced⟩)), .upstreamRequestFilter []]

/-- A frontend that gains TLS settings after a request arrived in the clear: the member is told that the
client used HTTPS. -/
theorem gained_tls_not_snapshot : validate (shop none).config = .ok () ∧
    validate (shop (some ⟨[], none, .balanced⟩)).config = .ok () ∧
    ¬ ∀ first, first <+: midway →
      (Runs.run (step String.toLower (fun _ _ => Vector.replicate 32 0) 1 ⟨"web"⟩ frontPage)
        ⟨.build (shop none), ⟨.new, 0, 0, 0⟩, .fresh⟩ (.requestFilter :: first)).progress =
      (Runs.run (advance String.toLower (fun _ _ => Vector.replicate 32 0) 1 ⟨"web"⟩ frontPage
        (.build (shop none))) (⟨.new, 0, 0, 0⟩, .fresh) (.requestFilter :: first)).2 := by
  refine ⟨by decide, by decide, fun h => ?_⟩
  have hsent := congrArg Progress.sent (h midway List.prefix_rfl)
  exact absurd hsent (by decide +kernel)

end EkEk.Dataplane.Proxy
