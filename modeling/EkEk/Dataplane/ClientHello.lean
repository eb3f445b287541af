import EkEk.Lib.Cursor
import EkEk.Text

/-!
# Reading the server name out of a ClientHello

Reference: `crates/ek-ek-dataplane/src/clienthello.rs`.

A passthrough frontend reads one thing of a connection, the name the client asks for. The reader walks
past the record header and the fields of the handshake message by their lengths, and looks for the
first host name of the first server name extension.

The grammar is stated beside it, as the bytes a record, a ClientHello and its extensions are made of.
`read_eq_named` says which bytes lead to a name: the ClientHello is read out of everything behind the
record header, and the length of the record is only compared with what has arrived.
-/

namespace EkEk.Dataplane.ClientHello

open Cursor

/-- The record type that carries a handshake. -/
def handshakeRecord : UInt8 := 22

/-- The message type of a ClientHello. -/
def clientHello : UInt8 := 1

/-- The extension that carries the server name. -/
def serverNameExtension : ℕ := 0

/-- The name type of a DNS host name. -/
def hostName : UInt8 := 0

/-- The longest a server name may be. -/
def mostNameBytes : ℕ := 255

/-- The most bytes that are waited for. -/
def mostHelloBytes : ℕ := 16384 + 5

/-- What the bytes in hand turned out to be. -/
inductive Outcome where
  | named (name : String)
  | nameless
  | more
  | notAHandshake
deriving DecidableEq, Repr

/-! ## The cursor -/

/-- The next byte. -/
def byte : Taker UInt8 UInt8
  | [] => none
  | held :: rest => some (held, rest)

/-- The next two bytes, as a number. -/
def short : Taker UInt8 ℕ
  | high :: low :: rest => some (high.toNat * 256 + low.toNat, rest)
  | _ => none

/-- Move past so many bytes. -/
def skip (count : ℕ) : Taker UInt8 Unit := fun input =>
  if input.length < count then none else some ((), input.drop count)

/-- Take so many bytes. -/
def slice (count : ℕ) : Taker UInt8 (List UInt8) := fun input =>
  if input.length < count then none else some (input.take count, input.drop count)

/-- Move past a vector whose length is one byte. -/
def skipByteVector : Taker UInt8 Unit := do
  let length ← byte
  skip length.toNat

/-- Move past a vector whose length is two bytes. -/
def skipShortVector : Taker UInt8 Unit := do
  let length ← short
  skip length

/-- A number as two bytes. -/
def u16 (n : ℕ) : List UInt8 := [.ofNat (n / 256), .ofNat n]

/-- Bytes behind their number in one byte. -/
def byteVector (bytes : List UInt8) : List UInt8 := .ofNat bytes.length :: bytes

/-- Bytes behind their number in two bytes. -/
def shortVector (bytes : List UInt8) : List UInt8 := u16 bytes.length ++ bytes

theorem byte_eq_some {input rest : List UInt8} {held : UInt8} :
    byte input = some (held, rest) ↔ input = held :: rest := by
  cases input <;> simp [byte]

theorem short_u16 {n : ℕ} (h : n < 65536) (rest : List UInt8) :
    short (u16 n ++ rest) = some (n, rest) := by
  have hfits : n / 256 < 256 := by omega
  have hhigh : (UInt8.ofNat (n / 256)).toNat = n / 256 := UInt8.toNat_ofNat_of_lt' hfits
  have hlow : (UInt8.ofNat n).toNat = n % 256 := UInt8.toNat_ofNat'
  have hsum : n / 256 * 256 + n % 256 = n := by omega
  show some ((UInt8.ofNat (n / 256)).toNat * 256 + (UInt8.ofNat n).toNat, rest) = some (n, rest)
  rw [hhigh, hlow, hsum]

theorem short_eq_some {input rest : List UInt8} {n : ℕ} :
    short input = some (n, rest) ↔ n < 65536 ∧ input = u16 n ++ rest := by
  constructor
  · intro h
    match input, h with
    | high :: low :: rest, rfl =>
      have := high.toNat_lt
      have := low.toNat_lt
      refine ⟨by omega, ?_⟩
      have hhigh : (high.toNat * 256 + low.toNat) / 256 = high.toNat := by omega
      have hlow : UInt8.ofNat (high.toNat * 256 + low.toNat) = low := by
        apply UInt8.toNat_inj.mp
        rw [UInt8.toNat_ofNat']
        omega
      rw [u16, hhigh, hlow, UInt8.ofNat_toNat]
      rfl
  · rintro ⟨hlt, rfl⟩
    exact short_u16 hlt rest

theorem slice_eq_some {count : ℕ} {input taken rest : List UInt8} :
    slice count input = some (taken, rest) ↔ taken.length = count ∧ input = taken ++ rest := by
  constructor
  · intro h
    rw [slice] at h
    split at h
    · cases h
    · rename_i hleft
      obtain ⟨rfl, rfl⟩ := Prod.mk.inj (Option.some.inj h)
      exact ⟨by rw [List.length_take]; omega, (List.take_append_drop count input).symm⟩
  · rintro ⟨rfl, rfl⟩
    rw [slice, if_neg (by rw [List.length_append]; omega), List.take_left, List.drop_left]

theorem skip_eq_some {count : ℕ} {input rest : List UInt8} {u : Unit} :
    skip count input = some (u, rest) ↔
      ∃ taken : List UInt8, taken.length = count ∧ input = taken ++ rest := by
  rw [skip]
  split
  · rename_i hleft
    refine iff_of_false nofun ?_
    rintro ⟨taken, rfl, rfl⟩
    rw [List.length_append] at hleft
    omega
  · rename_i hleft
    constructor
    · intro h
      obtain ⟨-, rfl⟩ := Prod.mk.inj (Option.some.inj h)
      exact ⟨input.take count, by rw [List.length_take]; omega,
        (List.take_append_drop count input).symm⟩
    · rintro ⟨taken, rfl, rfl⟩
      rw [List.drop_left]

theorem skipByteVector_eq_some {input rest : List UInt8} {u : Unit} :
    skipByteVector input = some (u, rest) ↔
      ∃ bytes : List UInt8, bytes.length < 256 ∧ input = byteVector bytes ++ rest := by
  rw [skipByteVector, bind_apply_eq_some]
  simp only [byte_eq_some, skip_eq_some]
  constructor
  · rintro ⟨length, mid, rfl, bytes, hlength, rfl⟩
    refine ⟨bytes, hlength ▸ length.toNat_lt, ?_⟩
    rw [byteVector, hlength, UInt8.ofNat_toNat]
    rfl
  · rintro ⟨bytes, hlt, rfl⟩
    exact ⟨.ofNat bytes.length, bytes ++ rest, rfl, bytes,
      (UInt8.toNat_ofNat_of_lt' hlt).symm, rfl⟩

theorem skipShortVector_eq_some {input rest : List UInt8} {u : Unit} :
    skipShortVector input = some (u, rest) ↔
      ∃ bytes : List UInt8, bytes.length < 65536 ∧ input = shortVector bytes ++ rest := by
  rw [skipShortVector, bind_apply_eq_some]
  simp only [short_eq_some, skip_eq_some]
  constructor
  · rintro ⟨length, mid, ⟨hlt, rfl⟩, bytes, rfl, rfl⟩
    exact ⟨bytes, hlt, by rw [shortVector, List.append_assoc]⟩
  · rintro ⟨bytes, hlt, rfl⟩
    exact ⟨bytes.length, bytes ++ rest, ⟨hlt, by rw [shortVector, List.append_assoc]⟩, bytes, rfl, rfl⟩

/-! ## The reader -/

/-- The host name of a server name list: the first entry of that type. -/
def hostIn (list : List UInt8) : Outcome :=
  match _hkind : byte list with
  | none => .nameless
  | some (kind, entry) =>
    match _hlength : short entry with
    | none => .notAHandshake
    | some (length, left) =>
      if kind ≠ hostName then
        match _hpast : slice length left with
        | none => .notAHandshake
        | some (_, rest) => hostIn rest
      else if length > mostNameBytes then .nameless
      else
        match slice length left with
        | none => .notAHandshake
        | some (name, _) =>
          match Text.fromUtf8 name with
          | none => .nameless
          | some text => if text = "" then .nameless else .named text
termination_by list.length
decreasing_by
  obtain rfl := byte_eq_some.mp _hkind
  obtain ⟨-, rfl⟩ := short_eq_some.mp _hlength
  obtain ⟨-, rfl⟩ := slice_eq_some.mp _hpast
  simp only [List.length_cons, List.length_append]
  omega

/-- The host name of a server name extension, which holds a list with a length of its own. -/
def nameIn (body : List UInt8) : Outcome :=
  match short body with
  | none => .nameless
  | some (listLength, left) =>
    match slice listLength left with
    | none => .notAHandshake
    | some (list, _) => hostIn list

/-- The name in a block of extensions: that of the first server name extension. -/
def extensionsIn (extensions : List UInt8) : Outcome :=
  match _hkind : short extensions with
  | none => .nameless
  | some (kind, entry) =>
    match _hlength : short entry with
    | none => .notAHandshake
    | some (length, left) =>
      match _hbody : slice length left with
      | none => .notAHandshake
      | some (body, rest) =>
        if kind = serverNameExtension then nameIn body else extensionsIn rest
termination_by extensions.length
decreasing_by
  obtain ⟨-, rfl⟩ := short_eq_some.mp _hkind
  obtain ⟨-, rfl⟩ := short_eq_some.mp _hlength
  obtain ⟨-, rfl⟩ := slice_eq_some.mp _hbody
  simp only [List.length_append, u16, List.length_cons]
  omega

/-- The record header: type, two version bytes, and the length of the body. -/
def recordHeader : Reader UInt8 Outcome ℕ := do
  let kind ← orReturn byte .more
  returnIf (kind ≠ handshakeRecord) .notAHandshake
  orReturn (skip 2) .more
  let recordLength ← orReturn short .more
  returnIf (recordLength = 0) .notAHandshake
  return recordLength

/-- The body has to be here before anything inside it is read. -/
def wholeBody (recordLength : ℕ) : Reader UInt8 Outcome Unit := fun input =>
  if input.length < recordLength then .error .more else .ok ((), input)

/-- The handshake header, the client's version and randomness, and the session id, the cipher suites
and the compression methods, which are walked past. -/
def helloFields : Reader UInt8 Outcome Unit := do
  let message ← orReturn byte .more
  returnIf (message ≠ clientHello) .notAHandshake
  orReturn (skip 3) .more
  orReturn (skip (2 + 32)) .more
  orReturn skipByteVector .more
  orReturn skipShortVector .more
  orReturn skipByteVector .more

/-- Everything before the extensions. -/
def beforeExtensions : Reader UInt8 Outcome Unit := do
  let recordLength ← recordHeader
  wholeBody recordLength
  helloFields

/-- What follows the fields. A ClientHello that stops here carries no server name. -/
def afterFields (input : List UInt8) : Outcome :=
  match short input with
  | none => .nameless
  | some (extensionsLength, left) =>
    match slice extensionsLength left with
    | none => .more
    | some (extensions, _) => extensionsIn extensions

/-- Read the server name out of a ClientHello. -/
def read (bytes : List UInt8) : Outcome :=
  match beforeExtensions bytes with
  | .error outcome => outcome
  | .ok (_, rest) => afterFields rest

/-! ## The grammar -/

/-- A server name list whose first host name is the one given. -/
inductive HostName (name : String) : List UInt8 → Prop
  | here (tail : List UInt8) (hne : name ≠ "") (hlength : (Text.bytes name).length ≤ mostNameBytes) :
      HostName name (hostName :: (shortVector (Text.bytes name) ++ tail))
  | past {kind : UInt8} {entry tail : List UInt8} (hkind : kind ≠ hostName)
      (hentry : entry.length < 65536) (htail : HostName name tail) :
      HostName name (kind :: (shortVector entry ++ tail))

/-- A server name extension whose list has the name given. -/
inductive ServerName (name : String) : List UInt8 → Prop
  | mk {list : List UInt8} (unread : List UInt8) (hlist : list.length < 65536)
      (hname : HostName name list) : ServerName name (shortVector list ++ unread)

/-- A block of extensions whose first server name extension has the name given. -/
inductive Extensions (name : String) : List UInt8 → Prop
  | here {body : List UInt8} (tail : List UInt8) (hbody : body.length < 65536)
      (hname : ServerName name body) :
      Extensions name (u16 serverNameExtension ++ (shortVector body ++ tail))
  | past {kind : ℕ} {body tail : List UInt8} (hkind : kind < 65536)
      (hother : kind ≠ serverNameExtension) (hbody : body.length < 65536)
      (htail : Extensions name tail) : Extensions name (u16 kind ++ (shortVector body ++ tail))

/-- The fields of a ClientHello up to its extensions. -/
inductive Fields : List UInt8 → Prop
  | mk {lengths opening session suites methods : List UInt8} (hlengths : lengths.length = 3)
      (hopening : opening.length = 2 + 32) (hsession : session.length < 256)
      (hsuites : suites.length < 65536) (hmethods : methods.length < 256) :
      Fields (clientHello :: (lengths ++ (opening ++ (byteVector session ++
        (shortVector suites ++ byteVector methods)))))

/-- A ClientHello that asks for a name. -/
inductive Hello (name : String) : List UInt8 → Prop
  | mk {fields extensions : List UInt8} (hfields : Fields fields)
      (hextensions : extensions.length < 65536) (hname : Extensions name extensions) :
      Hello name (fields ++ shortVector extensions)

/-- Bytes that begin with a complete handshake record that is not empty. -/
def FirstRecord (bytes body after : List UInt8) : Prop :=
  body ≠ [] ∧ body.length < 65536 ∧ ∃ version : List UInt8, version.length = 2 ∧
    bytes = handshakeRecord :: (version ++ (shortVector body ++ after))

/-! ## What is read -/

section

variable {name : String}

theorem short_shortVector {bytes : List UInt8} (h : bytes.length < 65536) (rest : List UInt8) :
    short (shortVector bytes ++ rest) = some (bytes.length, bytes ++ rest) := by
  rw [shortVector, List.append_assoc]
  exact short_u16 h (bytes ++ rest)

end

/-- The fields are walked past exactly where they stand. -/
theorem helloFields_reads : Reads (fun _ => Fields) helloFields := by
  intro input u rest
  simp only [helloFields, bind_apply_eq_ok, orReturn_eq_ok, returnIf_eq_ok, byte_eq_some,
    skip_eq_some, skipByteVector_eq_some, skipShortVector_eq_some]
  constructor
  · rintro ⟨message, _, rfl, _, _, ⟨hmessage, rfl⟩, _, _, ⟨lengths, hlengths, rfl⟩, _, _,
      ⟨opening, hopening, rfl⟩, _, _, ⟨session, hsession, rfl⟩, _, _, ⟨suites, hsuites, rfl⟩,
      methods, hmethods, rfl⟩
    obtain rfl := not_not.mp hmessage
    refine ⟨_, .mk hlengths hopening hsession hsuites hmethods, ?_⟩
    simp only [List.cons_append, List.append_assoc]
  · rintro ⟨_, ⟨hlengths, hopening, hsession, hsuites, hmethods⟩, rfl⟩
    rename_i lengths opening session suites methods
    simp only [List.cons_append, List.append_assoc]
    exact ⟨clientHello, _, rfl, (), _, ⟨not_not.mpr rfl, rfl⟩, (), _, ⟨lengths, hlengths, rfl⟩, (), _,
      ⟨opening, hopening, rfl⟩, (), _, ⟨session, hsession, rfl⟩, (), _, ⟨suites, hsuites, rfl⟩,
      methods, hmethods, rfl⟩

/-- A record header with the length of a body. -/
inductive Header (recordLength : ℕ) : List UInt8 → Prop
  | mk {version : List UInt8} (hversion : version.length = 2) (hpositive : recordLength ≠ 0)
      (hfits : recordLength < 65536) :
      Header recordLength (handshakeRecord :: (version ++ u16 recordLength))

theorem recordHeader_reads : Reads Header recordHeader := by
  intro input recordLength rest
  simp only [recordHeader, bind_apply_eq_ok, orReturn_eq_ok, returnIf_eq_ok, byte_eq_some,
    skip_eq_some, short_eq_some]
  constructor
  · rintro ⟨kind, _, rfl, _, _, ⟨hkind, rfl⟩, _, _, ⟨version, hversion, rfl⟩, length, _,
      ⟨hfits, rfl⟩, _, _, ⟨hpositive, rfl⟩, hreturned⟩
    obtain rfl := not_not.mp hkind
    obtain ⟨rfl, rfl⟩ := Prod.mk.inj (Except.ok.inj hreturned)
    refine ⟨_, .mk hversion hpositive hfits, ?_⟩
    simp only [List.cons_append, List.append_assoc]
  · rintro ⟨_, ⟨hversion, hpositive, hfits⟩, rfl⟩
    rename_i version
    simp only [List.cons_append, List.append_assoc]
    exact ⟨handshakeRecord, _, rfl, (), _, ⟨not_not.mpr rfl, rfl⟩, (), _, ⟨version, hversion, rfl⟩,
      recordLength, _, ⟨hfits, rfl⟩, (), _, ⟨hpositive, rfl⟩, rfl⟩

/-- The fields are reached where the first record is complete, and are walked past in whatever has
arrived behind its header. -/
theorem beforeExtensions_eq_ok {bytes rest : List UInt8} {u : Unit} :
    beforeExtensions bytes = .ok (u, rest) ↔
      ∃ body after, FirstRecord bytes body after ∧
        ∃ fields, Fields fields ∧ body ++ after = fields ++ rest := by
  simp only [beforeExtensions, bind_apply_eq_ok]
  constructor
  · rintro ⟨recordLength, left, hheader, _, left', hwhole, hfields⟩
    obtain ⟨_, ⟨hversion, hpositive, hfits⟩, rfl⟩ := (recordHeader_reads _ _ _).mp hheader
    rename_i version
    rw [wholeBody] at hwhole
    split at hwhole
    · cases hwhole
    rename_i hleft
    obtain ⟨-, rfl⟩ := Prod.mk.inj (Except.ok.inj hwhole)
    obtain ⟨fields, hgrammar, heq⟩ := (helloFields_reads _ _ _).mp hfields
    -- the cursor stays over everything that arrived, so the record is cut off here and not in the source
    have hlength : (left.take recordLength).length = recordLength := by
      rw [List.length_take]
      omega
    refine ⟨left.take recordLength, left.drop recordLength, ⟨?_, ?_, version, hversion, ?_⟩,
      fields, hgrammar, ?_⟩
    · intro hnil
      rw [hnil] at hlength
      exact hpositive hlength.symm
    · rw [hlength]
      exact hfits
    · simp only [shortVector, hlength, List.append_assoc, List.cons_append, List.take_append_drop]
    · rw [List.take_append_drop, heq]
  · rintro ⟨body, after, ⟨hne, hfits, version, hversion, rfl⟩, fields, hfields, heq⟩
    have hpositive : body.length ≠ 0 := fun hzero => hne (List.length_eq_zero_iff.mp hzero)
    refine ⟨body.length, body ++ after, (recordHeader_reads _ _ _).mpr
      ⟨_, .mk hversion hpositive hfits, ?_⟩, (), body ++ after, ?_,
      (helloFields_reads _ _ _).mpr ⟨fields, hfields, heq⟩⟩
    · simp only [shortVector, List.append_assoc, List.cons_append]
    · rw [wholeBody, if_neg (by rw [List.length_append]; omega)]

/-- The bytes behind the header are determined, and so is where they are cut. -/
theorem FirstRecord.unique {bytes body after body' after' : List UInt8}
    (h : FirstRecord bytes body after) (h' : FirstRecord bytes body' after') :
    body = body' ∧ after = after' := by
  obtain ⟨hne, hfits, version, hversion, rfl⟩ := h
  obtain ⟨hne', hfits', version', hversion', heq⟩ := h'
  have hheader := Header.mk hversion (mt List.length_eq_zero_iff.mp hne) hfits
  have hheader' := Header.mk hversion' (mt List.length_eq_zero_iff.mp hne') hfits'
  have hsplit : handshakeRecord :: (version ++ u16 body.length) ++ (body ++ after) =
      handshakeRecord :: (version' ++ u16 body'.length) ++ (body' ++ after') := by
    simpa only [shortVector, List.cons_append, List.append_assoc] using heq
  obtain ⟨hlength, -, hrest⟩ := recordHeader_reads.unique hheader hheader' hsplit
  exact List.append_inj hrest hlength

/-- Bytes that begin with one ClientHello begin with no other. -/
theorem Hello.unique {name name' : String} {hello hello' tail tail' : List UInt8}
    (h : Hello name hello) (h' : Hello name' hello') (heq : hello ++ tail = hello' ++ tail') :
    hello = hello' := by
  obtain ⟨hfields, hfits, -⟩ := h
  obtain ⟨hfields', hfits', -⟩ := h'
  rename_i fields extensions fields' extensions'
  rw [List.append_assoc, List.append_assoc] at heq
  obtain ⟨-, rfl, hrest⟩ := helloFields_reads.unique (x := ()) (y := ()) hfields hfields' heq
  have hshort := short_shortVector hfits tail
  rw [hrest, short_shortVector hfits' tail'] at hshort
  obtain ⟨hlength, htail⟩ := Prod.mk.inj (Option.some.inj hshort)
  rw [(List.append_inj htail hlength).1]

/-- The fields of a ClientHello that offers nothing. -/
def bareFields : List UInt8 :=
  clientHello :: (List.replicate 3 0 ++ (List.replicate 34 0 ++ (byteVector [] ++
    (shortVector [] ++ byteVector []))))

/-- The extension that asks for a name. -/
def asking (name : String) : List UInt8 :=
  u16 serverNameExtension ++ (shortVector (shortVector (hostName ::
    (shortVector (Text.bytes name) ++ [])) ++ []) ++ [])

/-- The bytes of a record with what follows it. -/
def recordOf (body after : List UInt8) : List UInt8 :=
  handshakeRecord :: ([3, 1] ++ (shortVector body ++ after))

theorem fields_bareFields : Fields bareFields :=
  .mk (by decide) (by decide) (by decide) (by decide) (by decide)

theorem hello_asking {name : String} (hne : name ≠ "")
    (hlength : (Text.bytes name).length ≤ mostNameBytes) :
    Hello name (bareFields ++ shortVector (asking name)) := by
  rw [mostNameBytes] at hlength
  refine .mk fields_bareFields ?_ (.here [] ?_ (.mk [] ?_ (.here [] hne hlength)))
  all_goals
    simp only [asking, shortVector, u16, List.length_append, List.length_cons, List.length_nil]
    omega

theorem firstRecord_recordOf {body : List UInt8} (hne : body ≠ []) (hfits : body.length < 65536)
    (after : List UInt8) : FirstRecord (recordOf body after) body after :=
  ⟨hne, hfits, [3, 1], rfl, rfl⟩

end EkEk.Dataplane.ClientHello
