import EkEk.Config.Config
import EkEk.Tls.Cloudflare
import EkEk.Tls.Update

/-!
# Publishing challenge records

Reference: `crates/ek-ek-tls/src/dns/mod.rs`, and `txt` of `dns/resolver.rs`.

Records are written over the API or with updates, and then looked up until every value is there. What is
relied on of the two kinds of provider is `Cloudflare.Serves` and `Rfc2136.Serves`. Whichever of them it is,
and wherever publishing ends, a withdrawal that goes through leaves nothing of it in the zone
(`withdrawn_behind_publish`). `wait_decided` says what has been seen when the wait is over, and how long it was.
-/

namespace EkEk.Tls

open Checked Wire

/-! ## Updates of a zone -/

namespace Rfc2136

section

variable {κ W : Type} [DecidableEq κ] (canon : String → κ) (held : W → κ → Finset String)

/-- What a name server makes of one change: the deletion of a set, or one value more. -/
def change (zone : κ → Finset String) (record : Record) : κ → Finset String :=
  if record.recordClass = classAny then Function.update zone (canon record.name) ∅
  else
    match readStrings record.data with
    | .ok value => Function.update zone (canon record.name) (insert value (zone (canon record.name)))
    | .error _ => zone

/-- A name server of a zone. It makes an update that is signed with the key as a whole or not at all, and only
says that it made it, with the key, when it did. -/
structure Serves (outside : Outside W) (hmac : TsigAlgorithm → List UInt8 → List UInt8 → List UInt8)
    (connection : Connection) : Prop where
  draw : ∀ w, held (outside.draw w).2 = held w
  clock : ∀ w, held (outside.clock w).2 = held w
  send : ∀ w id now request changes signature, Requests hmac request connection id now changes signature →
    let (reply, w') := outside.send connection.server (u16 (UInt16.ofNat request.length) ++ request) w
    (held w' = held w ∨ held w' = changes.foldl (change canon) (held w)) ∧
      ∀ sent answer, reply = .ok sent → framed sent = some answer →
        Confirms hmac connection id signature.mac now answer → held w' = changes.foldl (change canon) (held w)

variable {canon held} {outside : Outside W} {hmac : TsigAlgorithm → List UInt8 → List UInt8 → List UInt8}
  {connection : Connection} {name : String}

theorem change_deleteTxtSet (zone : κ → Finset String) :
    change canon zone (Record.deleteTxtSet name) = Function.update zone (canon name) ∅ := rfl

theorem change_added {value : String} (h : value.utf8ByteSize ≤ mostString) (zone : κ → Finset String) :
    change canon zone (added name value) =
      Function.update zone (canon name) (insert value (zone (canon name))) := by
  have hvalue : readStrings (item .asGiven value) = .ok value := by
    have hstrings : stringsFrom (item .asGiven value) 0 = .ok (String.join [value]) :=
      stringsFrom_eq (by simpa using h) (by simp)
    rw [readStrings, hstrings, String.join_cons, String.join_nil, String.append_empty]
  have hclass : classIn ≠ classAny := by decide
  rw [change, added, if_neg hclass]
  dsimp only
  rw [hvalue]

/-- The set is deleted, and the values are put in its place. -/
theorem foldl_change {values : List String} (h : ∀ value ∈ values, value.utf8ByteSize ≤ mostString)
    (zone : κ → Finset String) (held : Finset String) :
    (values.map (added name)).foldl (change canon) (Function.update zone (canon name) held) =
      Function.update zone (canon name) (values.toFinset ∪ held) := by
  induction values generalizing held with
  | nil => simp
  | cons value values ih =>
    obtain ⟨hle, hall⟩ := List.forall_mem_cons.mp h
    rw [List.map_cons, List.foldl_cons, change_added hle, Function.update_idem, Function.update_self, ih hall,
      List.toFinset_cons, Finset.insert_union, Finset.union_insert]

theorem keeps_reach {α : Type} {act : W → Except String α × W} {failure : String → Failure} {I : W → Prop}
    (h : ∀ w, I w → I (act w).2) : Acting.Keeps I (reach act failure) := .of_world h

/-- An update is made when it is said to have been, and made as a whole or not at all when it is not. -/
theorem ensures_apply (h : Serves canon held outside hmac connection) (changes : List Record)
    (before : κ → Finset String) :
    Acting.Ensures (fun w => held w = before) (apply outside hmac connection changes)
      (fun _ w => held w = changes.foldl (change canon) before)
      fun w => held w = before ∨ held w = changes.foldl (change canon) before := by
  have hkept {α : Type} {x : Acting Halt W α} {P : W → Prop} (hP : ∀ w, P w → held w = before)
      (hx : Acting.Keeps P x) : Acting.Ensures P x (fun _ => P)
        fun w => held w = before ∨ held w = changes.foldl (change canon) before :=
    hx.ensures fun w hw => .inl (hP w hw)
  refine .bind (hkept (fun w hw => hw) (keeps_reach fun w hw => (h.draw w).trans hw)) fun id => ?_
  refine .bind (Q := fun message w => held w = before ∧ update id connection.zone changes = .ok message)
    (.lift (fun message w hmessage hw => ⟨hw, mapError_eq_ok.mp hmessage⟩) fun w hw => .inl hw) fun message =>
      ?_
  refine .bind (hkept (fun w hw => hw.1) (keeps_reach fun w hw => ⟨(h.clock w).trans hw.1, hw.2⟩)) fun now =>
    ?_
  refine .bind (Q := fun signed w => held w = before ∧
      ∃ signature, Requests hmac signed.message connection id now changes signature ∧
        signature.mac = signed.mac)
    (.lift (fun signed w hsigned hw => ⟨hw.1, update_read hw.2 hsigned⟩) fun w hw => .inl hw.1) fun signed =>
      ?_
  refine .bind (Q := fun answer w => (held w = before ∨ held w = changes.foldl (change canon) before) ∧
      (Confirms hmac connection id signed.mac now answer → held w = changes.foldl (change canon) before))
    ?_ fun answer => .lift (fun _ w hjudged hw => hw.2 (confirms_of_judged hjudged)) fun w hw => hw.1
  refine .bind (hkept (fun w hw => hw.1) (.lift _)) fun _ => ?_
  refine .bind (Q := fun sent w => (held w = before ∨ held w = changes.foldl (change canon) before) ∧
      ∀ answer, framed sent = some answer → Confirms hmac connection id signed.mac now answer →
        held w = changes.foldl (change canon) before)
    ?_ fun sent => .lift (fun answer w hanswer hw => ⟨hw.1, hw.2 answer (found_eq_ok.mp hanswer)⟩) fun w hw =>
      hw.1
  rintro w ⟨hw, signature, hrequests, hmac'⟩
  obtain ⟨hmade, hconfirmed⟩ := h.send w id now signed.message changes signature hrequests
  rw [hw] at hmade hconfirmed
  refine ⟨fun sent hsent => ⟨hmade, fun answer hanswer hconfirms => ?_⟩, fun _ _ => hmade⟩
  exact hconfirmed sent answer (mapError_eq_ok.mp hsent) hanswer (hmac'.symm ▸ hconfirms)

/-- One update leaves the values at a name, and nothing else there. -/
theorem publish_replaces (h : Serves canon held outside hmac connection) (name : String)
    (values : List String) :
    Replaces held (publish outside hmac connection name values) (canon name) values.toFinset := by
  intro before
  refine .bind (Q := fun records w => held w = before ∧ (∀ value ∈ values, value.utf8ByteSize ≤ mostString) ∧
      records = values.map (added name))
    (.lift (fun records w hrecords hw => ⟨hw, mapM_addTxt (mapError_eq_ok.mp hrecords)⟩)
      fun w hw other _ => congrFun hw other) fun records => ?_
  intro w hw
  obtain ⟨hheld, hfits, hrecords⟩ := hw
  have hfold : (Record.deleteTxtSet name :: records).foldl (change canon) before =
      Function.update before (canon name) values.toFinset := by
    rw [hrecords, List.foldl_cons, change_deleteTxtSet, foldl_change hfits, Finset.union_empty]
  refine (ensures_apply h (Record.deleteTxtSet name :: records) before).weaken (fun w hw => hw)
    (fun _ w hw => hw.trans hfold) (fun w hw other hother => ?_) w hheld
  obtain hw | hw := hw
  · exact congrFun hw other
  · rw [hw, hfold, Function.update_of_ne hother]

/-- One update leaves nothing at a name. -/
theorem withdraw_replaces (h : Serves canon held outside hmac connection) (name : String) :
    Replaces held (withdraw outside hmac connection name) (canon name) ∅ := by
  intro before
  refine (ensures_apply h [Record.deleteTxtSet name] before).weaken (fun w hw => hw)
    (fun _ w hw => hw) fun w hw other hother => ?_
  obtain hw | hw := hw
  · exact congrFun hw other
  · exact (congrFun hw other).trans (Function.update_of_ne hother _ _)

end

end Rfc2136

/-! ## The two kinds of provider -/

namespace Publishing

open Rfc2136 (Server messageId exchange reach)

/-- How long to wait between two looks at a name server, in seconds. -/
def lookInterval : ℕ := 2

/-- Where the API answers. -/
def cloudflareApiBase : String := "https://api.cloudflare.com/client/v4"

/-- What publishing needs of the outside: what an update does, calls of an API, the resolver of the machine,
and some seconds to pass. -/
structure Outside (W : Type) extends Rfc2136.Outside W where
  call : Cloudflare.Call W
  systemResolver : W → Except Failure Server × W
  pause : ℕ → W → W

/-- What a failure that is no panic is to the caller. -/
def failing {W α : Type} (x : Acting Failure W α) : Acting Halt W α :=
  ⟨fun w => ((x.run w).1.mapError .failure, (x.run w).2)⟩

section

variable (decodeBlock : String → Except String (List UInt8)) (provider : DnsProvider) (secret : String)

def mismatched : Failure :=
  ⟨.configuration, s!"{provider.id.asStr} was reached as a kind of provider it is not"⟩

def updateConnection : Except Failure Rfc2136.Connection :=
  match provider.connection with
  | .rfc2136 server port zone tsigKeyName tsigAlgorithm _ => do
    let decoded ← (decodeBlock (Text.trim secret)).mapError fun error =>
      (⟨.configuration,
        s!"the shared key of {provider.id.asStr} is not readable as base64: {error}"⟩ : Failure)
    ensure (decoded ≠ []) (⟨.configuration, s!"the shared key of {provider.id.asStr} is empty"⟩ : Failure)
    .ok ⟨⟨server, port⟩, zone, tsigKeyName, tsigAlgorithm, decoded⟩
  | .cloudflare .. => .error (mismatched provider)

def apiConnection : Except Failure Cloudflare.Connection :=
  match provider.connection with
  | .rfc2136 .. => .error (mismatched provider)
  | .cloudflare zoneId _ apiBase => do
    let token := Text.trim secret
    ensure (token ≠ "") (⟨.configuration, s!"the API token of {provider.id.asStr} is empty"⟩ : Failure)
    let base := if apiBase = "" then cloudflareApiBase else apiBase
    .ok ⟨Text.trimEndMatches base '/', zoneId, token⟩

variable {W : Type} (outside : Outside W) (hmac : TsigAlgorithm → List UInt8 → List UInt8 → List UInt8)
  (fromStr : String → Except String Value)

/-- Do something to a zone, in the way of its provider. -/
def byKind (update : Rfc2136.Connection → Acting Halt W Unit)
    (api : Cloudflare.Connection → Acting Failure W Unit) :
    Acting Halt W Unit :=
  match provider.connection with
  | .rfc2136 .. => Acting.lift ((updateConnection decodeBlock provider secret).mapError .failure) >>= update
  | .cloudflare .. => failing (Acting.lift (apiConnection provider secret) >>= api)

def publishOne (name : String) (values : List String) : Acting Halt W Unit :=
  byKind decodeBlock provider secret
    (fun connection => Rfc2136.publish outside.toOutside hmac connection name values)
    fun connection => Cloudflare.publish connection fromStr outside.call name values

def withdrawOne (name : String) : Acting Halt W Unit :=
  byKind decodeBlock provider secret
    (fun connection => Rfc2136.withdraw outside.toOutside hmac connection name)
    fun connection => Cloudflare.withdraw connection fromStr outside.call name

/-- Which name server is asked whether a record is visible. -/
def asking : Acting Halt W Server :=
  match provider.connection with
  | .rfc2136 server port .. => pure ⟨server, port⟩
  | .cloudflare .. => failing ⟨outside.systemResolver⟩

/-- Ask one name server what TXT records sit at a name. -/
def txt (server : Server) (name : String) : Acting Halt W (List String) := do
  let id ← messageId outside.toOutside
  let message ← Acting.lift ((question id name typeTxt).mapError .failure)
  let answer ← exchange outside.toOutside server message
  let head ← Acting.lift (Header.read answer)
  -- a name that is not there yet is what waiting is for
  Acting.lift (ensure (head.rcode = 0 ∨ head.rcode = 3) (.failure ⟨.protocol,
    s!"the name server at {server.address} answered the question about {name} with code {head.rcode}"⟩))
  Acting.lift (txtAnswers answer)

end

/-! ## Waiting -/

section

variable {W : Type} (look : String → Acting Halt W (List String)) (pause : ℕ → W → W)
  (records : List (String × List String)) (allowed : ℕ)

/-- Look at the names, up to the first that is not answered with what it has to carry. -/
def missing : List (String × List String) → Acting Halt W (Option String)
  | [] => pure none
  | (name, values) :: rest => do
    let held ← look name
    if values.any fun value => !held.contains value then pure (some name) else missing rest

def invisible (name : String) : Failure :=
  ⟨.challenge, s!"{name} was written but is still not answered with what it has to carry after {allowed}s; " ++
    "raise this provider's propagation timeout or check that it serves this zone"⟩

def settleFrom (waited : ℕ) : Acting Halt W Unit := do
  match ← missing look records with
  | none => pure ()
  | some name =>
    if allowed ≤ waited then Acting.fail (.failure (invisible allowed name))
    else do
      let () ← ⟨fun w => (.ok (), pause lookInterval w)⟩
      settleFrom (waited + lookInterval)
termination_by allowed - waited
decreasing_by
  simp only [lookInterval]
  omega

/-- Wait until every value that was written can be looked up. -/
def settle : Acting Halt W Unit := settleFrom look pause records allowed 0

end

section

variable {W : Type} (decodeBlock : String → Except String (List UInt8)) (provider : DnsProvider)
  (secret : String)
  (outside : Outside W) (hmac : TsigAlgorithm → List UInt8 → List UInt8 → List UInt8)
  (fromStr : String → Except String Value)

/-- Write the challenge records, and wait until a name server answers with them. -/
def publish (records : List (String × List String)) : Acting Halt W Unit := do
  Acting.each (fun record => publishOne decodeBlock provider secret outside hmac fromStr record.1 record.2)
    records
  let server ← asking provider outside
  settle (txt outside server) outside.pause records provider.propagationTimeoutSecs.toNat

/-- Take what is at some names away, and end with the first failure there was. -/
def withdrawFrom : Option Failure → List String → Acting Halt W Unit
  | none, [] => pure ()
  | some failure, [] => Acting.fail (.failure failure)
  | first, name :: rest => ⟨fun w =>
    match (withdrawOne decodeBlock provider secret outside hmac fromStr name).run w with
    | (.ok (), w') => (withdrawFrom first rest).run w'
    | (.error (.failure failure), w') => (withdrawFrom (some (first.getD failure)) rest).run w'
    | (.error .panic, w') => (.error .panic, w')⟩

/-- Take every challenge record away. -/
def withdraw (names : List String) : Acting Halt W Unit :=
  withdrawFrom decodeBlock provider secret outside hmac fromStr none names

end

/-! ## What is left in the zone -/

section

variable {κ W : Type} [DecidableEq κ] (canon : String → κ) (held : W → κ → Finset String)
  (decodeBlock : String → Except String (List UInt8)) (provider : DnsProvider) (secret : String)
  (outside : Outside W) (hmac : TsigAlgorithm → List UInt8 → List UInt8 → List UInt8)
  (fromStr : String → Except String Value)

/-- A provider that does what it says, of either kind, and a way to ask that changes nothing. -/
structure Serves : Prop where
  update : ∀ connection, updateConnection decodeBlock provider secret = .ok connection →
    Rfc2136.Serves canon held outside.toOutside hmac connection
  api : ∀ connection, apiConnection provider secret = .ok connection →
    ∃ entries : W → List (Cloudflare.Entry κ),
    (∀ w, Cloudflare.heldOf (entries w) = held w) ∧
      Cloudflare.Serves canon entries connection fromStr outside.call
  draw : ∀ w, held (outside.draw w).2 = held w
  question : ∀ w server id name message, question id name typeTxt = .ok message →
    held (outside.send server (u16 (UInt16.ofNat message.length) ++ message) w).2 = held w
  resolver : ∀ w, held (outside.systemResolver w).2 = held w
  pause : ∀ w seconds, held (outside.pause seconds w) = held w

/-- What is at names other than these is as it is in a zone. -/
def Kept (names : List String) (zone : κ → Finset String) (w : W) : Prop :=
  ∀ other, other ∉ names.map canon → held w other = zone other

/-- A zone with some records written to it, one behind the other. -/
def written (records : List (String × List String)) (zone : κ → Finset String) : κ → Finset String :=
  records.foldl (fun zone record => Function.update zone (canon record.1) record.2.toFinset) zone

/-- A zone with nothing left at some names. -/
def cleared (names : List String) (zone : κ → Finset String) : κ → Finset String :=
  names.foldl (fun zone name => Function.update zone (canon name) ∅) zone

variable {canon held decodeBlock provider secret outside hmac fromStr}

theorem written_of_notMem {records : List (String × List String)} {key : κ}
    (h : key ∉ (records.map Prod.fst).map canon) (zone : κ → Finset String) :
    written canon records zone key = zone key := by
  induction records generalizing zone with
  | nil => rfl
  | cons record records ih =>
    rw [List.map_cons, List.map_cons, List.mem_cons, not_or] at h
    exact (ih h.2 _).trans (Function.update_of_ne h.1 _ _)

theorem cleared_apply (names : List String) (zone : κ → Finset String) (key : κ) :
    cleared canon names zone key = if key ∈ names.map canon then ∅ else zone key := by
  induction names generalizing zone with
  | nil => rfl
  | cons name names ih =>
    refine (ih _).trans ?_
    by_cases hkey : key = canon name <;> simp [hkey]

theorem ensures_failing {α : Type} {x : Acting Failure W α} {P E : W → Prop} {Q : α → W → Prop}
    (h : Acting.Ensures P x Q E) : Acting.Ensures P (failing x) Q E := by
  intro w hw
  obtain ⟨hok, herror⟩ := h w hw
  refine ⟨fun a ha => hok a (mapError_eq_ok.mp ha), fun e he => ?_⟩
  rcases hrun : (x.run w).1 with failure | a
  · exact herror failure hrun
  · have hsame : (x.run w).1.mapError Halt.failure = .error e := he
    rw [hrun] at hsame
    cases hsame

/-- What replaces for either kind of provider replaces. -/
theorem byKind_replaces {update : Rfc2136.Connection → Acting Halt W Unit}
    {api : Cloudflare.Connection → Acting Failure W Unit} {key : κ} {values : Finset String}
    (hupdate : ∀ connection, updateConnection decodeBlock provider secret = .ok connection →
      Replaces held (update connection) key values)
    (hapi : ∀ connection, apiConnection provider secret = .ok connection →
      Replaces held (api connection) key values) :
    Replaces held (byKind decodeBlock provider secret update api) key values := by
  intro before
  rw [byKind]
  split
  · refine .bind (Q := fun connection w => held w = before ∧
      updateConnection decodeBlock provider secret = .ok connection)
      (.lift (fun _ w h hw => ⟨hw, mapError_eq_ok.mp h⟩) fun w hw other _ => congrFun hw other)
        fun connection => ?_
    exact fun w hw => hupdate connection hw.2 before w hw.1
  · refine ensures_failing (.bind (Q := fun connection w => held w = before ∧
      apiConnection provider secret = .ok connection)
      (.lift (fun _ w h hw => ⟨hw, h⟩) fun w hw other _ => congrFun hw other) fun connection => ?_)
    exact fun w hw => hapi connection hw.2 before w hw.1

theorem publishOne_replaces (h : Serves canon held decodeBlock provider secret outside hmac fromStr)
    (name : String)
    (values : List String) :
    Replaces held (publishOne decodeBlock provider secret outside hmac fromStr name values)
      (canon name) values.toFinset := by
  refine byKind_replaces (fun connection hconnection =>
    Rfc2136.publish_replaces (h.update connection hconnection) name values)
    fun connection hconnection => ?_
  obtain ⟨entries, hheld, hserves⟩ := h.api connection hconnection
  obtain rfl : (fun w => Cloudflare.heldOf (entries w)) = held := funext hheld
  exact Cloudflare.publish_replaces hserves name values

theorem withdrawOne_replaces (h : Serves canon held decodeBlock provider secret outside hmac fromStr)
    (name : String) :
    Replaces held (withdrawOne decodeBlock provider secret outside hmac fromStr name) (canon name) ∅ := by
  refine byKind_replaces (fun connection hconnection => Rfc2136.withdraw_replaces
    (h.update connection hconnection) name)
    fun connection hconnection => ?_
  obtain ⟨entries, hheld, hserves⟩ := h.api connection hconnection
  obtain rfl : (fun w => Cloudflare.heldOf (entries w)) = held := funext hheld
  exact Cloudflare.withdraw_replaces hserves name

/-- Looking changes nothing in the zone. -/
theorem keeps_txt (h : Serves canon held decodeBlock provider secret outside hmac fromStr) (server : Server)
    (name : String) (zone : κ → Finset String) :
    Acting.Keeps (fun w => held w = zone) (txt outside server name) := by
  refine .bind (.of_world fun w hw => (h.draw w).trans hw) fun id => ?_
  intro w hw
  rw [Acting.run_bind]
  rcases hmessage : (question id name typeTxt).mapError Halt.failure with failure | message
  · exact .of_error hw
  refine (Acting.Keeps.bind (.bind (.lift _) fun _ => .bind (.of_world fun w hw => ?_) fun _ => .lift _)
    fun answer =>
    .bind (.lift _) fun head => .bind (.lift _) fun _ => .lift _ : Acting.Keeps (fun w => held w = zone) _)
      w hw
  exact (h.question w server id name message (mapError_eq_ok.mp hmessage)).trans hw

theorem keeps_missing {look : String → Acting Halt W (List String)} {I : W → Prop}
    (h : ∀ name, Acting.Keeps I (look name)) (records : List (String × List String)) :
    Acting.Keeps I (missing look records) := by
  induction records with
  | nil => exact .pure none
  | cons record records ih =>
    refine .bind (h record.1) fun held => ?_
    split
    · exact .pure _
    · exact ih

theorem keeps_settleFrom {look : String → Acting Halt W (List String)} {pause : ℕ → W → W} {I : W → Prop}
    (h : ∀ name, Acting.Keeps I (look name)) (hpause : ∀ w seconds, I w → I (pause seconds w))
    (records : List (String × List String)) (allowed waited : ℕ) :
    Acting.Keeps I (settleFrom look pause records allowed waited) := by
  induction waited using settleFrom.induct allowed with
  | case1 waited ih =>
    rw [settleFrom]
    refine .bind (keeps_missing h records) fun name => ?_
    cases name with
    | none => exact .pure ()
    | some name =>
      by_cases hover : allowed ≤ waited
      · simp only [if_pos hover]
        exact .fail _
      · simp only [if_neg hover]
        exact .bind (.of_world fun w hw => hpause w _ hw) fun _ => ih hover

theorem written_append (records : List (String × List String)) (name : String) (values : List String)
    (zone : κ → Finset String) : written canon (records ++ [(name, values)]) zone =
      Function.update (written canon records zone) (canon name) values.toFinset := by
  rw [written, List.foldl_append]
  rfl

/-- Where publishing goes through, each name carries its values. However it ends, what is at other names is as
it was. -/
theorem ensures_publish (h : Serves canon held decodeBlock provider secret outside hmac fromStr)
    (records : List (String × List String)) (zone : κ → Finset String) :
    Acting.Ensures (fun w => held w = zone) (publish decodeBlock provider secret outside hmac fromStr records)
      (fun _ w => held w = written canon records zone) (Kept canon held (records.map Prod.fst) zone) := by
  have hkept {w : W} (hw : held w = written canon records zone) :
      Kept canon held (records.map Prod.fst) zone w :=
    fun other hother => (congrFun hw other).trans (written_of_notMem hother zone)
  refine .bind (Q := fun _ w => held w = written canon records zone) ?_ fun _ => ?_
  · refine (Acting.Ensures.each (I := fun done w => done ⊆ records ∧ held w = written canon done zone) records
      (fun done record hrecord => ?_) []).weaken (fun w hw => ⟨List.nil_subset _, hw⟩) (fun _ w hw => hw.2)
      fun w hw => hw
    intro w hw
    obtain ⟨hdone, hheld⟩ := hw
    have hmore : done ++ [record] ⊆ records :=
      List.append_subset.mpr ⟨hdone, List.cons_subset.mpr ⟨hrecord, List.nil_subset _⟩⟩
    refine (publishOne_replaces h record.1 record.2 (written canon done zone)).weaken (fun w hw => hw)
      (fun _ w hw => ⟨hmore, hw.trans (written_append done record.1 record.2 zone).symm⟩)
        (fun w hw other hother => ?_) w
      hheld
    have hname : other ≠ canon record.1 := fun hsame =>
      hother (hsame ▸ List.mem_map_of_mem (List.mem_map_of_mem hrecord))
    have hbehind : other ∉ (done.map Prod.fst).map canon := fun hmem =>
      hother (List.map_subset _ (List.map_subset _ hdone) hmem)
    exact (hw other hname).trans (written_of_notMem hbehind zone)
  · refine .bind (Q := fun _ w => held w = written canon records zone) ?_ fun server => ?_
    · rw [asking]
      split
      · exact .pure fun w hw => hw
      · refine ensures_failing (Acting.Keeps.ensures (.of_world fun w hw => ?_) fun w hw => hkept hw)
        exact (h.resolver w).trans hw
    · refine (keeps_settleFrom (fun name => keeps_txt h server name _) (fun w seconds hw => ?_) _ _ _).ensures
        fun w hw => hkept hw
      exact (h.pause w seconds).trans hw

theorem keeps_withdrawOne (h : Serves canon held decodeBlock provider secret outside hmac fromStr)
    {names : List String} {name : String} (hname : name ∈ names) (zone : κ → Finset String) :
    Acting.Keeps (Kept canon held names zone)
    (withdrawOne decodeBlock provider secret outside hmac fromStr name) := by
  refine .of_world fun w hw other hother => ?_
  have hne : other ≠ canon name := fun hsame => hother (hsame ▸ List.mem_map_of_mem hname)
  refine Eq.trans ?_ (hw other hother)
  refine (withdrawOne_replaces h name (held w)).weaken (fun w hw => hw) (fun _ w' hw' => ?_)
    (fun w' hw' => hw' other hne) |>.always (R := fun w' => held w' other = held w other) rfl
  rw [hw', Function.update_of_ne hne]

theorem keeps_withdrawFrom (h : Serves canon held decodeBlock provider secret outside hmac fromStr)
    {names rest : List String} (hrest : rest ⊆ names) (first : Option Failure) (zone : κ → Finset String) :
    Acting.Keeps (Kept canon held names zone)
      (withdrawFrom decodeBlock provider secret outside hmac fromStr first rest) := by
  induction rest generalizing first with
  | nil =>
    cases first with
    | none => exact .pure ()
    | some failure => exact .fail _
  | cons name rest ih =>
    obtain ⟨hname, hrest⟩ := List.cons_subset.mp hrest
    refine .of_world fun w hw => ?_
    have hone := (keeps_withdrawOne h hname zone).world hw
    rw [withdrawFrom]
    rcases hrun : (withdrawOne decodeBlock provider secret outside hmac fromStr name).run w with
      ⟨(failure | _) | done, w'⟩ <;> rw [hrun] at hone <;> simp only [hrun]
    · exact (ih hrest _).world hone
    · exact hone
    · exact (ih hrest _).world hone

theorem withdrawFrom_ne_ok (failure : Failure) (names : List String) (w : W) :
    ((withdrawFrom decodeBlock provider secret outside hmac fromStr (some failure) names).run w).1 ≠
      .ok () := by
  induction names generalizing w with
  | nil =>
    intro hok
    cases hok
  | cons name names ih =>
    rw [withdrawFrom]
    rcases hrun : (withdrawOne decodeBlock provider secret outside hmac fromStr name).run w with
      ⟨(later | _) | done, w'⟩ <;> simp only [hrun]
    · exact ih w'
    · intro hok
      cases hok
    · exact ih w'

/-- Where a withdrawal goes through, nothing is left at the names. -/
theorem ensures_withdraw (h : Serves canon held decodeBlock provider secret outside hmac fromStr)
    (names : List String) (zone : κ → Finset String) :
    Acting.Ensures (fun w => held w = zone) (withdraw decodeBlock provider secret outside hmac fromStr names)
      (fun _ w => held w = cleared canon names zone) fun _ => True := by
  rw [withdraw]
  induction names generalizing zone with
  | nil => exact .pure fun w hw => hw
  | cons name names ih =>
    intro w hw
    obtain ⟨hok, -⟩ := withdrawOne_replaces h name zone w hw
    rw [withdrawFrom]
    rcases hrun : (withdrawOne decodeBlock provider secret outside hmac fromStr name).run w with
      ⟨(failure | _) | done, w'⟩ <;> rw [hrun] at hok <;> simp only [hrun]
    · exact ⟨fun _ hdone => absurd hdone (withdrawFrom_ne_ok _ _ _), fun _ _ => trivial⟩
    · exact .of_error trivial
    · exact ih _ w' (hok done rfl)

/-- Whichever the kind of provider, and however publishing ends, only what is at the names is touched, by it
and by a withdrawal of them. Where publishing goes through, each name carries its values and nothing else; and
where a withdrawal behind it does, nothing is left at the names. -/
theorem withdrawn_behind_publish (h : Serves canon held decodeBlock provider secret outside hmac fromStr)
    {records : List (String × List String)} {w w₁ w₂ : W} {published withdrawn : Except Halt Unit}
    (hpublished : (publish decodeBlock provider secret outside hmac fromStr records).run w = (published, w₁))
    (hwithdrawn : (withdraw decodeBlock provider secret outside hmac fromStr (records.map Prod.fst)).run w₁ =
      (withdrawn, w₂)) :
    Kept canon held (records.map Prod.fst) (held w) w₁ ∧ Kept canon held (records.map Prod.fst) (held w) w₂ ∧
      (published = .ok () → held w₁ = written canon records (held w)) ∧
      (withdrawn = .ok () → held w₂ = cleared canon (records.map Prod.fst) (held w)) := by
  have hpublish := ensures_publish h records (held w)
  have hkept : Kept canon held (records.map Prod.fst) (held w) w₁ := by
    have halways := (hpublish.weaken (fun w hw => hw)
      (fun _ w' hw' other hother => (congrFun hw' other).trans (written_of_notMem hother (held w)))
      fun w' hw' => hw').always rfl
    rwa [hpublished] at halways
  have hafter := (keeps_withdrawFrom h (List.Subset.refl _) none (held w)).world hkept
  rw [← withdraw, hwithdrawn] at hafter
  refine ⟨hkept, hafter, fun hok => ?_, fun hok => ?_⟩
  · have hwritten := (hpublish w rfl).ok ()
    rw [hpublished] at hwritten
    exact hwritten hok
  · have hgone := (ensures_withdraw h (records.map Prod.fst) _ w₁ rfl).ok ()
    rw [hwithdrawn] at hgone
    rw [hgone hok]
    funext key
    rw [cleared_apply, cleared_apply]
    split
    · rfl
    · next hkey => exact hkept key hkey

end

/-! ### A zone behind the API -/

def sampleProvider : DnsProvider := ⟨⟨"zone"⟩, .cloudflare "zone" ⟨"token"⟩ "", 60⟩

/-- A machine that reaches the API, and no name server. -/
def sampleOutside : Outside Bool where
  draw made := (.ok 7, made)
  clock made := (.ok 1700000000, made)
  send _ _ made := (.error "connection refused", made)
  call := Cloudflare.sampleCall
  systemResolver made := (.error ⟨.configuration, "/etc/resolv.conf names no name server to ask"⟩, made)
  pause _ made := made

/-- The values in the zone, where the record is there and where it is not. -/
def sampleHeld (made : Bool) : String → Finset String := Cloudflare.heldOf (Cloudflare.sampleEntries made)

theorem sample_serves : Serves id sampleHeld (fun _ => .ok []) sampleProvider " token" sampleOutside
    (fun _ key message => Tsig.paired key message) Cloudflare.sampleFromStr where
  update connection h := by cases h
  api connection h := by
    have hconnection : apiConnection sampleProvider " token" = .ok Cloudflare.sampleConnection := by rfl
    obtain rfl := Except.ok.inj (hconnection.symm.trans h)
    exact ⟨Cloudflare.sampleEntries, fun _ => rfl, Cloudflare.sample_serves⟩
  draw _ := rfl
  question _ _ _ _ _ _ := rfl
  resolver _ := rfl
  pause _ _ := rfl

def samplePublish : Acting Halt Bool Unit :=
  publish (fun _ => .ok []) sampleProvider " token" sampleOutside
    (fun _ key message => Tsig.paired key message)
    Cloudflare.sampleFromStr [(Cloudflare.sampleName, ["token"])]

def sampleWithdraw : Acting Halt Bool Unit :=
  withdraw (fun _ => .ok []) sampleProvider " token" sampleOutside
    (fun _ key message => Tsig.paired key message)
    Cloudflare.sampleFromStr [Cloudflare.sampleName]

/-- The record is written and cannot be looked up. It is taken away again. -/
theorem withdrawn_behind_publish_unseen : ∃ halt, samplePublish.run false = (.error halt, true) ∧
    sampleWithdraw.run true = (.ok (), false) ∧
      sampleHeld false = cleared id [Cloudflare.sampleName] (sampleHeld false) := by
  have hpublish : (samplePublish.run false).1.isOk = false ∧
      (samplePublish.run false).2 = true := by decide +kernel
  have hwithdraw : (sampleWithdraw.run true).1.isOk = true ∧
      (sampleWithdraw.run true).2 = false := by decide +kernel
  rcases hpublished : samplePublish.run false with ⟨halt | done, w₁⟩ <;> rw [hpublished] at hpublish
  · obtain rfl : w₁ = true := hpublish.2
    rcases hwithdrawn : sampleWithdraw.run true with ⟨failure | done, w₂⟩ <;> rw [hwithdrawn] at hwithdraw
    · cases hwithdraw.1
    · obtain rfl : w₂ = false := hwithdraw.2
      obtain ⟨-, -, -, hgone⟩ := withdrawn_behind_publish sample_serves hpublished hwithdrawn
      exact ⟨halt, rfl, rfl, hgone rfl⟩
  · cases hpublish.1

/-! ## What was seen -/

section

variable {W : Type} (look : String → Acting Halt W (List String)) (pause : ℕ → W → W)

/-- Each of some names, looked at in turn, was answered with all it has to carry. -/
inductive Shown : List (String × List String) → W → W → Prop where
  | none (w : W) : Shown [] w w
  | more {name : String} {values held : List String} {rest : List (String × List String)} {w w' w'' : W}
    (hlook : (look name).run w = (.ok held, w')) (hall : ∀ value ∈ values, value ∈ held)
    (hrest : Shown rest w' w'') :
    Shown ((name, values) :: rest) w w''

/-- A look at some names stopped at one that lacks something. -/
def Lacking (records : List (String × List String)) (name : String) (w w' : W) : Prop :=
  ∃ front values back held w₁, records = front ++ (name, values) :: back ∧ Shown look front w w₁ ∧
    (look name).run w₁ = (.ok held, w') ∧ ∃ value ∈ values, value ∉ held

/-- A look at some names stopped at one that could not be looked up. -/
def Failing (records : List (String × List String)) (halt : Halt) (w w' : W) : Prop :=
  ∃ front name values back w₁, records = front ++ (name, values) :: back ∧ Shown look front w w₁ ∧
    (look name).run w₁ = (.error halt, w')

/-- So many looks stopped at a name that lacks something, and were followed by a pause. -/
inductive Waited (records : List (String × List String)) : ℕ → W → W → Prop where
  | none (w : W) : Waited records 0 w w
  | more {name : String} {rounds : ℕ} {w w' w'' : W} (hlacking : Lacking look records name w w')
    (hrest : Waited records rounds (pause lookInterval w') w'') : Waited records (rounds + 1) w w''

/-- What a look at some names was, from how it ended. -/
def Looked (records : List (String × List String)) (w w' : W) : Except Halt (Option String) → Prop
  | .ok none => Shown look records w w'
  | .ok (some name) => Lacking look records name w w'
  | .error halt => Failing look records halt w w'

/-- What the last look at some names was, from how waiting ended. -/
def Decided (records : List (String × List String)) (allowed waited : ℕ) (w w' : W) : Except Halt Unit → Prop
  | .ok () => Shown look records w w'
  | .error halt => Failing look records halt w w' ∨
    ∃ name, Lacking look records name w w' ∧ allowed ≤ waited ∧ halt = .failure (invisible allowed name)

variable {look pause} {records : List (String × List String)} {allowed : ℕ} {w w' : W}

theorem missing_eq {result : Except Halt (Option String)} (h : (missing look records).run w = (result, w')) :
    Looked look records w w' result := by
  induction records generalizing w with
  | nil =>
    cases h
    exact Shown.none _
  | cons record records ih =>
    obtain ⟨name, values⟩ := record
    rw [missing, Acting.run_bind] at h
    rcases hlook : (look name).run w with ⟨halt | held, w₁⟩ <;> simp only [hlook] at h
    · cases h
      exact ⟨[], name, values, records, w, rfl, .none w, hlook⟩
    · by_cases hlacks : (values.any fun value => !held.contains value) = true
      · rw [if_pos hlacks] at h
        cases h
        exact ⟨[], values, records, held, w, rfl, .none w, hlook, by simpa using hlacks⟩
      · rw [if_neg hlacks] at h
        have hall : ∀ value ∈ values, value ∈ held := by simpa using hlacks
        have hrest := ih h
        rcases result with halt | _ | lacking
        · obtain ⟨front, other, others, back, w₂, rfl, hshown, hfailed⟩ := hrest
          exact ⟨(name, values) :: front, other, others, back, w₂, rfl, .more hlook hall hshown, hfailed⟩
        · exact Shown.more hlook hall hrest
        · obtain ⟨front, others, back, seen, w₂, rfl, hshown, hseen⟩ := hrest
          exact ⟨(name, values) :: front, others, back, seen, w₂, rfl, .more hlook hall hshown, hseen⟩

theorem decided_settleFrom {waited : ℕ} (hwaited : waited < allowed + lookInterval) {result : Except Halt Unit}
    (h : (settleFrom look pause records allowed waited).run w = (result, w')) :
    ∃ rounds w₁, Waited look pause records rounds w w₁ ∧
      waited + rounds * lookInterval < allowed + lookInterval ∧
      Decided look records allowed (waited + rounds * lookInterval) w₁ w' result := by
  have hnow : waited + 0 * lookInterval < allowed + lookInterval := by rwa [Nat.zero_mul]
  induction waited using settleFrom.induct allowed generalizing w with
  | case1 waited ih =>
    rw [settleFrom, Acting.run_bind] at h
    rcases hmissing : (missing look records).run w with ⟨halt | _ | name, w₁⟩ <;>
      simp only [hmissing] at h <;> have hlooked := missing_eq hmissing
    · cases h
      exact ⟨0, w, .none w, hnow, .inl hlooked⟩
    · cases h
      exact ⟨0, w, .none w, hnow, hlooked⟩
    · by_cases hover : allowed ≤ waited
      · rw [if_pos hover] at h
        cases h
        exact ⟨0, w, .none w, hnow, .inr ⟨name, hlooked, by rwa [Nat.zero_mul], rfl⟩⟩
      · rw [if_neg hover] at h
        have hless : waited + lookInterval < allowed + lookInterval := by omega
        obtain ⟨rounds, w₂, hrounds, hlimit, hend⟩ := ih hover hless h (by rwa [Nat.zero_mul])
        have htotal : waited + (rounds + 1) * lookInterval =
            waited + lookInterval + rounds * lookInterval := by ring
        rw [← htotal] at hlimit hend
        exact ⟨rounds + 1, w₂, .more hlooked hrounds, hlimit, hend⟩

/-- When the wait is over, it was the last look at the names that decided: each was answered with all it has
to carry, or one could not be looked up, or one still lacked something and all the time that is allowed had
passed. All looks before it found something lacking, and were a pause apart, up to the first of them behind
that time. -/
theorem wait_decided (records : List (String × List String)) (allowed : ℕ) (w : W) :
    let (result, w') := (settle look pause records allowed).run w
    ∃ rounds w₁, Waited look pause records rounds w w₁ ∧ rounds * lookInterval < allowed + lookInterval ∧
      Decided look records allowed (rounds * lookInterval) w₁ w' result := by
  have hstart : 0 < allowed + lookInterval := by
    rw [lookInterval]
    omega
  obtain ⟨rounds, w₁, hrounds, hlimit, hend⟩ :=
    decided_settleFrom hstart (rfl : (settleFrom look pause records allowed 0).run w = _)
  rw [Nat.zero_add] at hlimit hend
  exact ⟨rounds, w₁, hrounds, hlimit, hend⟩

end

end Publishing

end EkEk.Tls
