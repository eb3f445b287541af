import EkEk.Lib.Acting
import EkEk.Tls.Order
import Mathlib.Data.Finset.Dedup
import Mathlib.Data.Finset.Insert
import Mathlib.Logic.Function.Basic

/-!
# Records written over an API

Reference: `crates/ek-ek-tls/src/dns/cloudflare.rs`.

The API has no call that replaces a set: what is at the name is listed and deleted record by record, and the
values are added one by one. `Serves` says what is relied on of the API, each call of which may fail having
done its work or not, and `publish_replaces` that the calls together replace the set, and touch nothing else
whatever fails.
-/

namespace EkEk.Tls

open Checked

/-! ## Zones -/

section

variable {W ε κ : Type} [DecidableEq κ]

/-- An action puts some values in the place of those at one name of a zone. Where it fails, all the other
names are as they were. -/
def Replaces (held : W → κ → Finset String) (x : Acting ε W Unit) (name : κ) (values : Finset String) :
    Prop :=
  ∀ before, Acting.Ensures (fun w => held w = before) x
    (fun _ w => held w = Function.update before name values)
    fun w => ∀ other, other ≠ name → held w other = before other

end

namespace Cloudflare

/-- How long a resolver may hold a challenge record. -/
def recordTtl : ℕ := 60

/-- Everything one call needs. -/
structure Connection where
  base : String
  zoneId : String
  token : String
deriving DecidableEq, Repr

/-- One record as the API describes it. -/
structure Held where
  id : String
  content : String
deriving DecidableEq, Repr

/-- One call: a method, an address, the token and a body, and the status and the body of the answer. -/
abbrev Call (W : Type) := String → String → String → Option String → W → Except Failure (UInt16 × String) × W

def isSafe (character : Char) : Bool := character.isAlphanum || ['-', '.', '_', '*'].contains character

/-- Refuse anything that would change the meaning of an address or a document. -/
def escape (value : String) : Except Failure String := do
  ensure (value.toList.all isSafe) (⟨.protocol,
    "a name or an identity carries a character that cannot be sent as it is"⟩ : Failure)
  .ok value

section

variable (fromStr : String → Except String Value)

def asBool : Value → Option Bool
  | .bool value => some value
  | _ => none

/-- A number as a signed one of 64 bits. -/
def asI64 : Value → Option Int
  | .number (.posInt value) => if value.toNat < 2 ^ 63 then some value.toNat else none
  | .number (.negInt value) => some value.toInt
  | _ => none

/-- The API's own error code and message, when it sent one. -/
def firstCode (body : String) : String :=
  match fromStr body with
  | .error _ => ""
  | .ok document =>
    match ((document.get "errors").bind Value.asArray).bind List.head? with
    | none => ""
    | some first =>
      let code := ((first.get "code").bind asI64).getD 0
      let message := ((first.get "message").bind Value.asStr).getD ""
      s!": code {code}, {message}"

/-- Read one answer. -/
def read (status : UInt16) (body : String) : Except Failure Value := do
  ensure (¬ (status = 401 ∨ status = 403)) (⟨.configuration,
    s!"the API refused the token ({status}); it is wrong, expired, or lacks DNS edit permission on " ++
      "this zone" ++
      firstCode fromStr body⟩ : Failure)
  let document ← (fromStr body).mapError fun error =>
    (⟨.protocol, s!"the API answered something that is not JSON: {error}"⟩ : Failure)
  ensure (¬ (400 ≤ status ∨ (document.get "success").bind asBool ≠ some true))
    -- the server's own faults are worth another attempt, what was asked for is not
    (⟨if 500 ≤ status then .server else .configuration,
      s!"the API refused the change ({status}){firstCode fromStr body}"⟩ : Failure)
  .ok document

/-- The records a list answers with. -/
def listed (document : Value) : Except Failure (List Held) := do
  let found ← found ((document.get "result").bind Value.asArray)
    (⟨.protocol, "the API answered a list request without a list"⟩ : Failure)
  .ok (found.filterMap fun record =>
    ((record.get "id").bind Value.asStr).bind fun id =>
      ((record.get "content").bind Value.asStr).map fun content => ⟨id, content⟩)

end

section

variable (connection : Connection)

def listUrl (name : String) : String :=
  s!"{connection.base}/zones/{connection.zoneId}/dns_records?type=TXT&name={name}"

def recordUrl (id : String) : String := s!"{connection.base}/zones/{connection.zoneId}/dns_records/{id}"

def createUrl : String := s!"{connection.base}/zones/{connection.zoneId}/dns_records"

def createBody (name value : String) : String :=
  s!"\x7b\"type\":\"TXT\",\"name\":\"{name}\",\"content\":\"{value}\",\"ttl\":{recordTtl}\x7d"

variable {W : Type} (fromStr : String → Except String Value) (call : Call W)

/-- Send one request and read the answer. -/
def ask (method url : String) (body : Option String) : Acting Failure W Value := do
  let (status, answered) ← (⟨call method url connection.token body⟩ : Acting Failure W (UInt16 × String))
  Acting.lift (read fromStr status answered)

/-- What the API says is at a name. -/
def records (name : String) : Acting Failure W (List Held) := do
  let name ← Acting.lift (escape name)
  let document ← ask connection fromStr call "GET" (listUrl connection name) none
  Acting.lift (listed document)

/-- Take one record away. -/
def remove (id : String) : Acting Failure W Unit := do
  let id ← Acting.lift (escape id)
  let _ ← ask connection fromStr call "DELETE" (recordUrl connection id) none
  pure ()

/-- Write one record. -/
def create (name value : String) : Acting Failure W Unit := do
  let name ← Acting.lift (escape name)
  let value ← Acting.lift (escape value)
  let _ ← ask connection fromStr call "POST" (createUrl connection) (some (createBody name value))
  pure ()

/-- Take every TXT record at one name away. -/
def withdraw (name : String) : Acting Failure W Unit := do
  let found ← records connection fromStr call name
  Acting.each (remove connection fromStr call) (found.map Held.id)

/-- Replace every TXT record at one name with some values. -/
def publish (name : String) (values : List String) : Acting Failure W Unit := do
  withdraw connection fromStr call name
  Acting.each (create connection fromStr call name) values

end

/-! ## What is relied on -/

/-- A TXT record of a zone. -/
structure Entry (κ : Type) where
  id : String
  name : κ
  content : String
deriving DecidableEq, Repr

section

variable {κ : Type} [DecidableEq κ]

/-- The values at a name. -/
def heldOf (entries : List (Entry κ)) (name : κ) : Finset String :=
  ((entries.filter fun entry => entry.name = name).map Entry.content).toFinset

variable {W : Type} (canon : String → κ) (entries : W → List (Entry κ)) (connection : Connection)
  (fromStr : String → Except String Value) (call : Call W)

/-- An API that does what it says. Names that mean the same have one key. A call that fails may have done its
work, and a list is of everything that is at the name. Only names and values that go into a document as they
are are written. -/
structure Serves : Prop where
  ids : ∀ w, ((entries w).map Entry.id).Nodup
  list : ∀ w name, let (reply, w') := call "GET" (listUrl connection name) connection.token none w
    entries w' = entries w ∧ ∀ status body document found, reply = .ok (status, body) →
      read fromStr status body = .ok document → listed document = .ok found →
        found = ((entries w).filter fun entry => entry.name = canon name).map fun entry =>
          ⟨entry.id, entry.content⟩
  remove : ∀ w id, let (reply, w') := call "DELETE" (recordUrl connection id) connection.token none w
    (entries w' = entries w ∨ entries w' = (entries w).filter fun entry => entry.id ≠ id) ∧
      ∀ status body document, reply = .ok (status, body) → read fromStr status body = .ok document →
        entries w' = (entries w).filter fun entry => entry.id ≠ id
  create : ∀ w name value, escape name = .ok name → escape value = .ok value →
    let (reply, w') := call "POST" (createUrl connection) connection.token (some (createBody name value)) w
    (entries w' = entries w ∨ ∃ id, entries w' = entries w ++ [⟨id, canon name, value⟩]) ∧
      ∀ status body document, reply = .ok (status, body) → read fromStr status body = .ok document →
        ∃ id, entries w' = entries w ++ [⟨id, canon name, value⟩]

variable {canon entries connection fromStr call} {name : κ} {held : List (Entry κ)}

theorem heldOf_append (value id : String) :
    heldOf (held ++ [⟨id, name, value⟩]) = Function.update (heldOf held) name
    (insert value (heldOf held name)) := by
  funext other
  by_cases hother : other = name
  · subst hother
    rw [Function.update_self, heldOf, heldOf, List.filter_append, List.filter_cons_of_pos (by simp),
      List.filter_nil, List.map_append, List.toFinset_append, List.map_singleton, List.toFinset_cons,
      List.toFinset_nil, insert_empty_eq, Finset.union_comm, ← Finset.insert_eq]
  · rw [Function.update_of_ne hother, heldOf, heldOf, List.filter_append,
      List.filter_cons_of_neg (by simpa using Ne.symm hother), List.filter_nil, List.append_nil]

/-- The identities of what is at a name. -/
def idsAt (held : List (Entry κ)) (name : κ) : List String :=
  (held.filter fun entry => entry.name = name).map Entry.id

theorem name_of_mem_idsAt (h : (held.map Entry.id).Nodup) {entry : Entry κ} (hentry : entry ∈ held)
    (hid : entry.id ∈ idsAt held name) : entry.name = name := by
  obtain ⟨other, hother, hsame⟩ := List.mem_map.mp hid
  obtain ⟨hmem, hname⟩ := List.mem_filter.mp hother
  rw [← List.inj_on_of_nodup_map h hmem hentry hsame]
  exact of_decide_eq_true hname

/-- Taking some of what is at a name away leaves the others. -/
theorem heldOf_removed (h : (held.map Entry.id).Nodup) {removed : List String}
    (hremoved : removed ⊆ idsAt held name) {other : κ} (hother : other ≠ name) :
    heldOf (held.filter fun entry => entry.id ∉ removed) other = heldOf held other := by
  rw [heldOf, heldOf, List.filter_filter]
  refine congrArg _ (congrArg _ (List.filter_congr fun entry hentry => ?_))
  by_cases hname : entry.name = other
  · have hkept : entry.id ∉ removed := fun hid =>
      hother (hname.symm.trans (name_of_mem_idsAt h hentry (hremoved hid)))
    simp [hname, hkept]
  · simp [hname]

/-- Taking all of it away leaves nothing there. -/
theorem heldOf_cleared (h : (held.map Entry.id).Nodup) :
    heldOf (held.filter fun entry => entry.id ∉ idsAt held name) = Function.update (heldOf held) name ∅ := by
  funext other
  by_cases hother : other = name
  · subst hother
    rw [Function.update_self, heldOf, List.filter_filter, List.filter_eq_nil_iff.mpr]
    · rfl
    · intro entry hentry hboth
      rw [Bool.and_eq_true, decide_eq_true_iff, decide_eq_true_iff] at hboth
      exact hboth.2 (List.mem_map_of_mem (List.mem_filter.mpr ⟨hentry, decide_eq_true hboth.1⟩))
  · rw [Function.update_of_ne hother, heldOf_removed h (List.Subset.refl _) hother]

/-! ## What the calls do -/

/-- One call, from what is relied on of it. -/
theorem ensures_ask {method url : String} {body : Option String} {P E : W → Prop} {Q : Value → W → Prop}
    (hfailed : ∀ w, P w → E (call method url connection.token body w).2)
    (hdone : ∀ w status answered document, P w →
      (call method url connection.token body w).1 = .ok (status, answered) →
        read fromStr status answered = .ok document →
          Q document (call method url connection.token body w).2) :
    Acting.Ensures P (ask connection fromStr call method url body) Q E := by
  intro w hw
  rw [ask, Acting.run_bind]
  rcases hcall : call method url connection.token body w with ⟨failure | ⟨status, answered⟩, w'⟩
  · have hE := hfailed w hw
    rw [hcall] at hE
    simp only [hcall]
    exact .of_error hE
  · have hE := hfailed w hw
    have hQ := hdone w status answered
    rw [hcall] at hE hQ
    simp only [hcall, Acting.lift]
    rcases hread : read fromStr status answered with failure | document
    · exact .of_error hE
    · exact .of_ok (hQ document hw rfl hread)

variable {before : List (Entry κ)}

theorem ensures_records (h : Serves canon entries connection fromStr call) (name : String) :
    Acting.Ensures (fun w => entries w = before) (records connection fromStr call name)
      (fun found w => entries w = before ∧ found.map Held.id = idsAt before (canon name))
      fun w => entries w = before := by
  refine .bind (Q := fun value w => entries w = before ∧ value = name)
    (.lift (fun value w hvalue hw => ⟨hw, ?_⟩) fun w hw => hw) fun value => ?_
  · obtain ⟨_, -, hsame⟩ := bind_eq_ok.mp hvalue
    exact (Except.ok.inj hsame).symm
  refine .bind (Q := fun document w => entries w = before ∧ ∀ found, listed document = .ok found →
    found.map Held.id = idsAt before (canon name)) (ensures_ask ?_ ?_) fun document => ?_
  · rintro w ⟨hw, rfl⟩
    exact (h.list w value).1.trans hw
  · rintro w status answered document ⟨hw, rfl⟩ hanswer hread
    obtain ⟨hsame, hlisted⟩ := h.list w value
    refine ⟨hsame.trans hw, fun found hfound => ?_⟩
    rw [hlisted status answered document found hanswer hread hfound, hw, List.map_map]
    rfl
  · exact .lift (fun found w hfound hw => ⟨hw.1, hw.2 found hfound⟩) fun w hw => hw.1

/-- Some of what was at a name is gone, and nothing else. -/
def Removed (before : List (Entry κ)) (name : κ) (held : List (Entry κ)) : Prop :=
  ∃ removed ⊆ idsAt before name, held = before.filter fun entry => entry.id ∉ removed

theorem ensures_remove (h : Serves canon entries connection fromStr call) {key : κ} {done : List String}
    (hdone : done ⊆ idsAt before key) {id : String} (hid : id ∈ idsAt before key) :
    Acting.Ensures (fun w => entries w = before.filter fun entry => entry.id ∉ done)
      (remove connection fromStr call id)
      (fun _ w => entries w = before.filter fun entry => entry.id ∉ done ++ [id])
      fun w => Removed before key (entries w) := by
  have hmore : (before.filter fun entry => entry.id ∉ done).filter (fun entry => entry.id ≠ id) =
      before.filter fun entry => entry.id ∉ done ++ [id] := by
    rw [List.filter_filter]
    refine List.filter_congr fun entry _ => ?_
    simp [and_comm]
  have hsub : done ++ [id] ⊆ idsAt before key :=
    List.append_subset.mpr ⟨hdone, List.cons_subset.mpr ⟨hid, List.nil_subset _⟩⟩
  refine .bind (Q := fun value w => entries w = (before.filter fun entry => entry.id ∉ done) ∧ value = id)
    (.lift (fun value w hvalue hw => ⟨hw, ?_⟩) fun w hw => ⟨done, hdone, hw⟩) fun value => ?_
  · obtain ⟨_, -, hsame⟩ := bind_eq_ok.mp hvalue
    exact (Except.ok.inj hsame).symm
  refine .bind (Q := fun _ w => entries w = before.filter fun entry => entry.id ∉ done ++ [id])
    (ensures_ask ?_ ?_)
    fun _ => .pure fun w hw => hw
  · rintro w ⟨hw, rfl⟩
    rcases (h.remove w value).1 with hsame | hgone
    · exact ⟨done, hdone, hsame.trans hw⟩
    · exact ⟨_, hsub, hgone.trans (by rw [hw, hmore])⟩
  · rintro w status answered document ⟨hw, rfl⟩ hanswer hread
    rw [(h.remove w value).2 status answered document hanswer hread, hw, hmore]

/-- What is listed at a name is all gone where nothing failed, and some of it where something did. -/
theorem ensures_withdraw (h : Serves canon entries connection fromStr call) (name : String)
    (before : List (Entry κ)) :
    Acting.Ensures (fun w => entries w = before) (withdraw connection fromStr call name)
      (fun _ w => entries w = before.filter fun entry => entry.id ∉ idsAt before (canon name))
      fun w => Removed before (canon name) (entries w) := by
  have hall : before.filter (fun entry => entry.id ∉ ([] : List String)) = before := by simp
  refine .bind (Q := fun found w => entries w = before ∧ found.map Held.id = idsAt before (canon name))
    ((ensures_records h name).weaken (fun w hw => hw) (fun _ w hw => hw) fun w hw =>
      ⟨[], by simp, hw.trans hall.symm⟩)
    fun found => ?_
  intro w hw
  obtain ⟨hheld, hids⟩ := hw
  rw [hids]
  refine Acting.Ensures.each (I := fun done w => done ⊆ idsAt before (canon name) ∧
    entries w = before.filter fun entry => entry.id ∉ done) _ (fun done id hid => ?_) [] |>.weaken
      (fun w hw => hw) (fun _ w hw => hw.2) (fun w hw => hw) w ⟨List.nil_subset _, hheld.trans hall.symm⟩
  intro w hw
  obtain ⟨hdone, hheld⟩ := hw
  refine (ensures_remove h hdone hid).weaken (fun w hw => hw) (fun _ w hw => ⟨?_, hw⟩) (fun w hw => hw)
    w hheld
  exact List.append_subset.mpr ⟨hdone, List.cons_subset.mpr ⟨hid, List.nil_subset _⟩⟩

/-- A record that is written is one more, and one that could not be written may be. -/
theorem ensures_create (h : Serves canon entries connection fromStr call) (name value : String)
    {zone : κ → Finset String} : Acting.Ensures (fun w => heldOf (entries w) = zone)
      (create connection fromStr call name value)
      (fun _ w => heldOf (entries w) = Function.update zone (canon name) (insert value (zone (canon name))))
      fun w => ∀ other, other ≠ canon name → heldOf (entries w) other = zone other := by
  have hescaped {text : String} {P E : W → Prop} (hE : ∀ w, P w → E w) :
      Acting.Ensures P (Acting.lift (ε := Failure) (escape text))
        (fun value w => P w ∧ escape text = .ok text ∧ value = text) E := by
    refine .lift (fun value w hvalue hw => ?_) hE
    obtain ⟨_, -, hsame⟩ := bind_eq_ok.mp hvalue
    obtain rfl := Except.ok.inj hsame
    exact ⟨hw, hvalue, rfl⟩
  refine .bind (hescaped fun w hw other _ => congrFun hw other) fun sent =>
    .bind (hescaped fun w hw other _ => congrFun hw.1 other) fun content => ?_
  have hmade (id : String) {held : List (Entry κ)} (hheld : heldOf held = zone) :
      heldOf (held ++ [⟨id, canon name, value⟩]) =
        Function.update zone (canon name) (insert value (zone (canon name))) := by
    rw [heldOf_append, hheld]
  refine .bind (Q := fun _ w => heldOf (entries w) =
    Function.update zone (canon name) (insert value (zone (canon name)))) (ensures_ask ?_ ?_) fun _ =>
      .pure fun w hw => hw
  · rintro w ⟨⟨hw, hname, rfl⟩, hvalue, rfl⟩ other hother
    rcases (h.create w sent content hname hvalue).1 with hsame | ⟨id, hone⟩
    · rw [hsame, hw]
    · rw [hone, hmade id hw, Function.update_of_ne hother]
  · rintro w status answered document ⟨⟨hw, hname, rfl⟩, hvalue, rfl⟩ hanswer hread
    obtain ⟨id, hone⟩ := (h.create w sent content hname hvalue).2 status answered document hanswer hread
    rw [hone, hmade id hw]

/-- Withdrawing leaves nothing at a name. -/
theorem withdraw_replaces (h : Serves canon entries connection fromStr call) (name : String) :
    Replaces (fun w => heldOf (entries w)) (withdraw connection fromStr call name) (canon name) ∅ := by
  intro zone w hw
  refine (ensures_withdraw h name (entries w)).weaken (fun w hw => hw) (fun _ w' hgone => ?_)
    (fun w' hsome => ?_)
    w rfl
  · show heldOf (entries w') = _
    rw [hgone, heldOf_cleared (h.ids w)]
    exact congrArg (Function.update · (canon name) ∅) hw
  · obtain ⟨removed, hremoved, hheld⟩ := hsome
    intro other hother
    show heldOf (entries w') other = _
    rw [hheld, heldOf_removed (h.ids w) hremoved hother]
    exact congrFun hw other

/-- Publishing leaves the values at a name, and nothing else there. -/
theorem publish_replaces (h : Serves canon entries connection fromStr call) (name : String)
    (values : List String) :
    Replaces (fun w => heldOf (entries w)) (publish connection fromStr call name values) (canon name)
      values.toFinset := by
  intro zone
  refine .bind (withdraw_replaces h name zone) fun _ => ?_
  refine (Acting.Ensures.each (I := fun done w =>
    heldOf (entries w) = Function.update zone (canon name) done.toFinset) values (fun done value _ => ?_)
      []).weaken
      (fun w hw => hw) (fun _ w hw => hw) fun w hw => hw
  refine (ensures_create h name value).weaken (fun w hw => hw) (fun _ w hw => ?_) fun w hw other hother => ?_
  · rw [hw, Function.update_idem, Function.update_self, List.toFinset_append, List.toFinset_cons,
      List.toFinset_nil,
      insert_empty_eq, Finset.union_comm, ← Finset.insert_eq]
  · exact (hw other hother).trans (Function.update_of_ne hother _ _)

end

/-! ## An API that knows one name -/

/-- A document without a character that ends a text says which name and value are meant. -/
theorem createBody_injective {name name' value value' : String} (hname : escape name = .ok name)
    (hname' : escape name' = .ok name') (h : createBody name value = createBody name' value') :
    name = name' ∧ value = value' := by
  have hspan {text : String} (htext : escape text = .ok text) (rest : List Char) :
      (text.toList ++ '"' :: rest).takeWhile (· ≠ '"') = text.toList := by
    obtain ⟨_, hsafe, -⟩ := bind_eq_ok.mp htext
    have hall : ∀ c ∈ text.toList, decide (c ≠ '"') = true := by
      intro c hc
      refine decide_eq_true fun hquote => ?_
      have hc' := List.all_eq_true.mp (ensure_eq_ok.mp hsafe) c hc
      rw [hquote] at hc'
      exact absurd hc' (by decide)
    rw [List.takeWhile_append_of_pos hall, List.takeWhile_cons_of_neg (by simp), List.append_nil]
  have hbody (name value : String) : (createBody name value).toList =
      "\x7b\"type\":\"TXT\",\"name\":\"".toList ++ (name.toList ++ '"' :: (",\"content\":\"".toList ++
        (value.toList ++ "\",\"ttl\":60\x7d".toList))) := by
    have hsent : createBody name value =
        "\x7b\"type\":\"TXT\",\"name\":\"" ++ name ++ "\",\"content\":\"" ++ value ++
        "\",\"ttl\":60\x7d" := by
      unfold createBody
      have hend : "\",\"ttl\":" ++ toString recordTtl ++ "\x7d" = "\",\"ttl\":60\x7d" := by decide
      rw [← hend, ← String.append_assoc, ← String.append_assoc]
      rfl
    rw [hsent]
    simp
  have htexts := congrArg String.toList h
  rw [hbody, hbody] at htexts
  have hrest := List.append_cancel_left htexts
  have hsame : name = name' := String.toList_inj.mp
    ((hspan hname _).symm.trans ((congrArg _ hrest).trans (hspan hname' _)))
  subst hsame
  have hvalue := List.append_cancel_left (List.tail_eq_of_cons_eq (List.append_cancel_left hrest))
  exact ⟨rfl, String.toList_inj.mp (List.append_cancel_right hvalue)⟩

/-- What the API is reached with. -/
def sampleConnection : Connection := ⟨"https://api.cloudflare.com/client/v4", "zone", "token"⟩

def sampleName : String := "_acme-challenge.example"

/-- The record is there, or it is not. -/
def sampleEntries (made : Bool) : List (Entry String) := if made then [⟨"1", sampleName, "token"⟩] else []

def sampleDone : String := "\x7b\"success\":true\x7d"

def sampleNone : String := "\x7b\"success\":true,\"result\":[]\x7d"

def sampleOne : String := "\x7b\"success\":true,\"result\":[\x7b\"id\":\"1\",\"content\":\"token\"\x7d]\x7d"

/-- What these documents are read as. -/
def sampleFromStr (text : String) : Except String Value :=
  if text = sampleDone then .ok (.object [("success", .bool true)])
  else if text = sampleNone then .ok (.object [("result", .array []), ("success", .bool true)])
  else if text = sampleOne then .ok (.object [
    ("result", .array [.object [("content", .string "token"), ("id", .string "1")]]),
    ("success", .bool true)])
  else .error "expected value"

/-- It lists one name, and writes or deletes one record there. Everything else it refuses. -/
def sampleCall : Call Bool := fun method url _ body made =>
  if method = "GET" ∧ url = listUrl sampleConnection sampleName then
    (.ok (200, if made then sampleOne else sampleNone), made)
  else if method = "DELETE" ∧ url = recordUrl sampleConnection "1" then (.ok (200, sampleDone), false)
  else if method = "POST" ∧ body = some (createBody sampleName "token") ∧ made = false then
    (.ok (200, sampleDone), true)
  else (.ok (500, ""), made)

theorem read_refused (document : Value) : read sampleFromStr 500 "" ≠ .ok document := by
  have hread : (read sampleFromStr 500 "").isOk = false := by decide +kernel
  intro h
  rw [h] at hread
  cases hread

theorem sample_serves : Serves id sampleEntries sampleConnection sampleFromStr sampleCall where
  ids := by decide
  list w name := by
    by_cases hname : name = sampleName
    · subst hname
      rw [sampleCall, if_pos ⟨rfl, rfl⟩]
      refine ⟨rfl, fun status body document found hreply hread hlisted => ?_⟩
      obtain ⟨rfl, rfl⟩ := Prod.mk.inj (Except.ok.inj hreply)
      cases w
      · have hnone : read sampleFromStr 200 sampleNone =
            .ok (.object [("result", .array []), ("success", .bool true)]) := rfl
        obtain rfl := Except.ok.inj (hnone.symm.trans hread)
        exact (Except.ok.inj hlisted).symm
      · have hone : read sampleFromStr 200 sampleOne = .ok (.object [
            ("result", .array [.object [("content", .string "token"), ("id", .string "1")]]),
            ("success", .bool true)]) := rfl
        obtain rfl := Except.ok.inj (hone.symm.trans hread)
        exact (Except.ok.inj hlisted).symm
    · have hurl : listUrl sampleConnection name ≠ listUrl sampleConnection sampleName := by
        intro h
        exact hname (String.append_right_inj _ |>.mp h)
      rw [sampleCall, if_neg fun h => hurl h.2, if_neg (by simp), if_neg (by simp)]
      refine ⟨rfl, fun status body document found hreply hread _ => ?_⟩
      obtain ⟨rfl, rfl⟩ := Prod.mk.inj (Except.ok.inj hreply)
      exact absurd hread (read_refused document)
  remove w id := by
    rw [sampleCall, if_neg (by simp)]
    by_cases hid : id = "1"
    · subst hid
      rw [if_pos ⟨rfl, rfl⟩]
      have hgone : sampleEntries false = (sampleEntries w).filter fun entry => entry.id ≠ "1" := by
        cases w <;> rfl
      exact ⟨.inr hgone, fun _ _ _ _ _ => hgone⟩
    · have hurl : recordUrl sampleConnection id ≠ recordUrl sampleConnection "1" := by
        intro h
        exact hid (String.append_right_inj _ |>.mp h)
      rw [if_neg fun h => hurl h.2, if_neg (by simp)]
      refine ⟨.inl rfl, fun status body document hreply hread => ?_⟩
      obtain ⟨rfl, rfl⟩ := Prod.mk.inj (Except.ok.inj hreply)
      exact absurd hread (read_refused document)
  create w name value hname hvalue := by
    have hsafe : escape sampleName = .ok sampleName := rfl
    rw [sampleCall, if_neg (by simp), if_neg (by simp)]
    by_cases hmade : some (createBody name value) = some (createBody sampleName "token") ∧ w = false
    · obtain ⟨hbody, rfl⟩ := hmade
      obtain ⟨rfl, rfl⟩ := createBody_injective hname hsafe (Option.some.inj hbody)
      rw [if_pos ⟨rfl, rfl, rfl⟩]
      exact ⟨.inr ⟨"1", rfl⟩, fun _ _ _ _ _ => ⟨"1", rfl⟩⟩
    · rw [if_neg fun h => hmade h.2]
      refine ⟨.inl rfl, fun status body document hreply hread => ?_⟩
      obtain ⟨rfl, rfl⟩ := Prod.mk.inj (Except.ok.inj hreply)
      exact absurd hread (read_refused document)

end Cloudflare

end EkEk.Tls
