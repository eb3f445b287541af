import EkEk.JsonWrite
import EkEk.Lib.Base64
import EkEk.Lib.ByteOrder
import EkEk.Lib.Sha256
import EkEk.Tls.Order

/-!
# Signed envelopes

Reference: `crates/ek-ek-tls/src/jws.rs`.

Every request of an order but the first is a signed envelope. It is put together as text, so that what a
server sent, a nonce or an address, ends up in the middle of a document that is signed. `signed_read` says
what the one who reads the envelope finds there: the members that were meant, with the texts they were
given, and no others.
-/

namespace EkEk.Tls.Jws

open Checked EkEk.Json

/-! ## Keys -/

/-- What the library makes of an account key: whether it is one on a curve, the coordinates of its public
point, and the two numbers it signs a digest with. What the library needs on the way may be missing. -/
structure Account where
  ecKey : Except String Unit
  context : Except String Unit
  number : Except String Unit
  coordinates : Except String (ℕ × ℕ)
  sign : List UInt8 → Except String (ℕ × ℕ)
  tooLong : String

/-- How many bytes one coordinate takes. -/
def coordinate : ℕ := 32

/-- A failure of the library, and what it was about. -/
def crypto (what error : String) : Failure := ⟨.crypto, s!"{what}: {error}"⟩

/-- The bytes of a number, as many as a coordinate takes. -/
def toVecPadded (key : Account) (n : ℕ) : Except String (List UInt8) := do
  ensure (n < 256 ^ coordinate) key.tooLong
  .ok (ByteOrder.bigEndian coordinate n)

/-- The public half of a key, in the one order its digest is taken over. -/
def jwk (lib : Libraries) (key : Account) : Except Failure String := do
  key.ecKey.mapError (crypto "not an EC key")
  key.context.mapError (crypto "no context")
  key.number.mapError (crypto "no number")
  let (x, y) ← key.coordinates.mapError (crypto "the public point does not read")
  let x ← (toVecPadded key x).mapError (crypto "x does not fit")
  let y ← (toVecPadded key y).mapError (crypto "y does not fit")
  .ok s!"\x7b\"crv\":\"P-256\",\"kty\":\"EC\",\"x\":\"{base64url lib x}\",\"y\":\"{base64url lib y}\"\x7d"

/-- The thumbprint of a key, which is half of every challenge answer. -/
def thumbprint (lib : Libraries) (key : Account) : Except Failure String := do
  let jwk ← jwk lib key
  let digest ← (lib.sha256 (Text.bytes jwk)).mapError (crypto "no digest")
  .ok (base64url lib digest)

/-! ## Envelopes -/

/-- How one character stands in a string. -/
def escapeChar : Char → List Char
  | '"' => ['\\', '"']
  | '\\' => ['\\', '\\']
  | '\n' => ['\\', 'n']
  | '\r' => ['\\', 'r']
  | '\t' => ['\\', 't']
  | other =>
    if other.toNat < 0x20 then '\\' :: 'u' :: (Nat.toDigits 16 other.toNat).leftpad 4 '0' else [other]

/-- A value that can be placed inside a string. -/
def escape (value : String) : String := String.ofList (value.toList.flatMap escapeChar)

/-- What the signature of a key over a message is sent as: its two numbers, of the same length each. -/
def rawSignature (lib : Libraries) (key : Account) (message : List UInt8) : Except Failure String := do
  key.ecKey.mapError (crypto "not an EC key")
  let digest ← (lib.sha256 message).mapError (crypto "no digest")
  let (r, s) ← (key.sign digest).mapError (crypto "no signature")
  let r ← (toVecPadded key r).mapError (crypto "r does not fit")
  let s ← (toVecPadded key s).mapError (crypto "s does not fit")
  .ok (base64url lib (r ++ s))

/-- The header of an envelope. -/
def header (lib : Libraries) (key : Account) (identify : Identify) (account : Option String)
    (url nonce : String) : Except Failure String :=
  match identify with
  | .key => do
    let jwk ← jwk lib key
    .ok s!"\x7b\"alg\":\"ES256\",\"jwk\":{jwk},\"nonce\":\"{escape nonce}\",\"url\":\"{escape url}\"\x7d"
  | .account => do
    let account ← found account (⟨.protocol, "the server named no account to sign as"⟩ : Failure)
    .ok s!"\x7b\"alg\":\"ES256\",\"kid\":\"{escape account}\",\"nonce\":\"{escape nonce}\",\"url\":\"{escape url}\"\x7d"

/-- A request body in a signed envelope. A request without one signs an empty body. -/
def sign (lib : Libraries) (key : Account) (identify : Identify) (account : Option String)
    (url nonce : String)
    (payload : Option String) : Except Failure String := do
  let header ← header lib key identify account url nonce
  let encoded := base64url lib (Text.bytes header)
  let body := base64url lib (Text.bytes (payload.getD ""))
  let signature ← rawSignature lib key (Text.bytes s!"{encoded}.{body}")
  .ok s!"\x7b\"protected\":\"{encoded}\",\"payload\":\"{body}\",\"signature\":\"{signature}\"\x7d"

/-! ## What is escaped -/

/-- The characters that a letter stands for. -/
def short : Char → Option Char
  | '"' => some '"'
  | '\\' => some '\\'
  | '\n' => some 'n'
  | '\r' => some 'r'
  | '\t' => some 't'
  | _ => none

theorem escapeChar_eq : escapeChar = escapedBy short := by
  have hcontrol : ∀ n < 32, '\\' :: 'u' :: (Nat.toDigits 16 n).leftpad 4 '0' =
      ['\\', 'u', '0', '0', Nat.digitChar (n / 16), Nat.digitChar (n % 16)] := by decide
  funext c
  unfold escapeChar
  split
  all_goals try rfl
  rename_i hquote hbackslash hnewline hreturn htab
  have hshort : short c = none := by
    unfold short
    split <;> first | rfl | contradiction
  rw [escapedBy, hshort]
  dsimp only
  split
  · rename_i hc
    exact hcontrol _ hc
  · rfl

/-- A server cannot end a string of the header. -/
theorem escapes_escapeChar : Escapes escapeChar := by
  rw [escapeChar_eq]
  refine escapes_by (fun c letter h => ?_) (by decide) (by decide)
  unfold short at h
  split at h
  all_goals cases h
  all_goals exact ⟨by decide, fun rest => rfl⟩

/-! ## Letters -/

/-- The alphabet that an address can carry. -/
def letters : List Char := "ABCDEFGHIJKLMNOPQRSTUVWXYZabcdefghijklmnopqrstuvwxyz0123456789-_".toList

/-- The bytes of an encoded text. -/
def decode (text : String) : Option (List UInt8) := Base64.decode letters text.toList

section

variable {lib : Libraries} (hlib : ∀ bytes, lib.encodeBlock bytes = String.ofList (Base64.encode bytes))

include hlib

set_option maxRecDepth 2000 in
theorem toList_base64url (bytes : List UInt8) :
    (base64url lib bytes).toList = (Base64.sextets bytes).map (Base64.letter letters) := by
  have hpad : ∀ n < 64, (Base64.letter Base64.standard n == '=') = false := by decide
  have htrimmed : ((Base64.encode bytes).rdropWhile (· == '=')) =
      (Base64.sextets bytes).map (Base64.letter Base64.standard) := by
    rw [Base64.encode, List.rdropWhile, List.reverse_append, List.reverse_replicate,
      List.dropWhile_append_of_pos (fun c hc => by rw [List.eq_of_mem_replicate hc]; rfl)]
    rw [List.dropWhile_eq_self_iff.mpr, List.reverse_reverse]
    intro hpos
    have hmem := List.mem_reverse.mp (List.getElem_mem hpos)
    obtain ⟨n, hn, hc⟩ := List.mem_map.mp hmem
    rw [← hc, hpad n (Base64.sextets_lt bytes n hn)]
    exact Bool.false_ne_true
  rw [base64url, String.toList_ofList, Text.trimEndMatches, String.toList_ofList, hlib, String.toList_ofList,
    htrimmed, List.map_map]
  refine List.map_congr_left fun n hn => ?_
  have hlt := Base64.sextets_lt bytes n hn
  clear hn
  revert n
  decide

set_option maxRecDepth 2000 in
/-- What is encoded is decoded. -/
theorem decode_base64url (bytes : List UInt8) : decode (base64url lib bytes) = some bytes := by
  rw [decode, toList_base64url hlib]
  exact Base64.decode_letters (by decide) bytes

set_option maxRecDepth 2000 in
/-- An encoded text needs no escaping. -/
theorem escape_base64url (bytes : List UInt8) :
    (base64url lib bytes).toList.flatMap escapeChar = (base64url lib bytes).toList := by
  have hsame : ∀ n < 64, escapeChar (Base64.letter letters n) = [Base64.letter letters n] := by decide
  rw [toList_base64url hlib, List.flatMap_map, ← List.flatMap_pure_eq_map]
  exact List.flatMap_congr fun n hn => hsame n (Base64.sextets_lt bytes n hn)

end

/-! ## Documents -/

/-- The public half of a key, as a document. -/
def jwkValue (x y : String) : Value :=
  .object [("crv", .string "P-256"), ("kty", .string "EC"), ("x", .string x), ("y", .string y)]

/-- The header, as a document. -/
def headerValue (name : String × Value) (nonce url : String) : Value :=
  .object [("alg", .string "ES256"), name, ("nonce", .string nonce), ("url", .string url)]

/-- The envelope, as a document. -/
def envelopeValue (encoded body signature : String) : Value :=
  .object [("protected", .string encoded), ("payload", .string body), ("signature", .string signature)]

/-- How a document of an envelope is written. No number stands in one. -/
def written (v : Value) : List Char := write escapeChar (fun _ => []) v

theorem toVecPadded_eq_ok {key : Account} {n : ℕ} {bytes : List UInt8} :
    toVecPadded key n = .ok bytes ↔ n < 256 ^ coordinate ∧ ByteOrder.bigEndian coordinate n = bytes := by
  simp [toVecPadded]

/-- The bytes of a coordinate, and which one. -/
def Coordinate (bytes : List UInt8) (n : ℕ) : Prop := bytes.length = coordinate ∧ ByteOrder.value bytes = n

/-- Two texts for the public point of a key. -/
def Point (key : Account) (x y : String) : Prop :=
  ∃ n m, key.coordinates = .ok (n, m) ∧ (∃ bytes, decode x = some bytes ∧ Coordinate bytes n) ∧
    ∃ bytes, decode y = some bytes ∧ Coordinate bytes m

theorem coordinate_bigEndian {n : ℕ} (h : n < 256 ^ coordinate) :
    Coordinate (ByteOrder.bigEndian coordinate n) n :=
  ⟨ByteOrder.length_bigEndian coordinate n, ByteOrder.value_bigEndian h⟩

section

variable {lib : Libraries} (hlib : ∀ bytes, lib.encodeBlock bytes = String.ofList (Base64.encode bytes))
  {key : Account} {text : String}

include hlib

theorem toList_jwk (h : jwk lib key = .ok text) :
    ∃ x y, Point key x y ∧ text.toList = written (jwkValue x y) := by
  simp only [jwk, bind_eq_ok, mapError_eq_ok, toVecPadded_eq_ok, Except.ok.injEq] at h
  obtain ⟨-, -, -, -, -, -, ⟨x, y⟩, hpoint, _, ⟨hx, rfl⟩, _, ⟨hy, rfl⟩, rfl⟩ := h
  refine ⟨_, _, ⟨x, y, hpoint, ⟨_, decode_base64url hlib _, coordinate_bigEndian hx⟩,
    _, decode_base64url hlib _, coordinate_bigEndian hy⟩, ?_⟩
  simp [written, jwkValue, write, writeMembers, quoted, escape_base64url hlib, escapeChar, toString]

/-- What an envelope calls the account: by its key, or by the address the server gave it. -/
def Names (key : Account) (identify : Identify) (account : Option String) (name : String × Value) : Prop :=
  match identify with
  | .key => ∃ x y, Point key x y ∧ name = ("jwk", jwkValue x y)
  | .account => ∃ address, account = some address ∧ name = ("kid", .string address)

theorem toList_header {identify : Identify} {account : Option String} {url nonce : String}
    (h : header lib key identify account url nonce = .ok text) :
    ∃ name, Names key identify account name ∧ text.toList = written (headerValue name nonce url) := by
  cases identify with
  | key =>
    simp only [header, bind_eq_ok, Except.ok.injEq] at h
    obtain ⟨jwk, hjwk, rfl⟩ := h
    obtain ⟨x, y, hpoint, hwritten⟩ := toList_jwk hlib hjwk
    refine ⟨_, ⟨_, _, hpoint, rfl⟩, ?_⟩
    rw [written] at hwritten
    simp [written, headerValue, write, writeMembers, quoted, escape, escapeChar, toString, hwritten]
  | account =>
    simp only [header, bind_eq_ok, found_eq_ok, Except.ok.injEq] at h
    obtain ⟨address, haddress, rfl⟩ := h
    refine ⟨_, ⟨address, haddress, rfl⟩, ?_⟩
    simp [written, headerValue, write, writeMembers, quoted, escape, escapeChar, toString]

omit hlib in
theorem rawSignature_ok {message : List UInt8} (h : rawSignature lib key message = .ok text) :
    ∃ digest r s, lib.sha256 message = .ok digest ∧ key.sign digest = .ok (r, s) ∧
      ∃ front back, text = base64url lib (front ++ back) ∧ Coordinate front r ∧ Coordinate back s := by
  simp only [rawSignature, bind_eq_ok, mapError_eq_ok, toVecPadded_eq_ok, Except.ok.injEq] at h
  obtain ⟨-, -, digest, hdigest, ⟨r, s⟩, hsign, _, ⟨hr, rfl⟩, _, ⟨hs, rfl⟩, rfl⟩ := h
  exact ⟨digest, r, s, hdigest, hsign, _, _, rfl, coordinate_bigEndian hr, coordinate_bigEndian hs⟩

theorem toList_envelope (a b c : List UInt8) :
    (s!"\x7b\"protected\":\"{base64url lib a}\",\"payload\":\"{base64url lib b}\",\"signature\":\"{base64url lib c}\"\x7d").toList =
      written (envelopeValue (base64url lib a) (base64url lib b) (base64url lib c)) := by
  simp [written, envelopeValue, write, writeMembers, quoted, escape_base64url hlib, escapeChar, toString]

end

variable {float : String → Option UInt64}

/-- A document that was written is read, whatever is in its strings. -/
theorem fromStr_written {v : Value} {text : String} (hwhole : Whole v) (hdepth : deep v ≤ deepest)
    (h : text.toList = written v) : fromStr float text = some (normal v) := by
  rw [← String.ofList_toList (s := text), h]
  exact fromStr_write escapes_escapeChar hwhole hdepth

theorem fromStr_header {key : Account} {identify : Identify} {account : Option String} {name : String × Value}
    {url nonce text : String} (hname : Names key identify account name)
    (h : text.toList = written (headerValue name nonce url)) :
    fromStr float text = some (headerValue name nonce url) := by
  cases identify with
  | key =>
    obtain ⟨x, y, -, rfl⟩ := hname
    rw [fromStr_written (by simp [headerValue, jwkValue, Whole, WholeMembers])
      (by simp [headerValue, jwkValue, deep, deepMembers, deepest]) h]
    rfl
  | account =>
    obtain ⟨address, -, rfl⟩ := hname
    rw [fromStr_written (by simp [headerValue, Whole, WholeMembers])
      (by simp [headerValue, deep, deepMembers, deepest]) h]
    rfl

/-- What is read of an envelope: a header that names the account, the nonce and the address it was signed for,
and nothing else, whatever is in them; the body; and the signature of the account over the two as they are
sent. -/
theorem signed_read {lib : Libraries}
    (hlib : ∀ bytes, lib.encodeBlock bytes = String.ofList (Base64.encode bytes)) {key : Account}
    {identify : Identify} {account payload : Option String} {url nonce envelope : String}
    (h : sign lib key identify account url nonce payload = .ok envelope) :
    ∃ encoded body signature header name,
      fromStr float envelope = some (.object
        [("payload", .string body), ("protected", .string encoded), ("signature", .string signature)]) ∧
      decode encoded = some (Text.bytes header) ∧ fromStr float header = some (headerValue name nonce url) ∧
      Names key identify account name ∧ decode body = some (Text.bytes (payload.getD "")) ∧
      ∃ digest r s, lib.sha256 (Text.bytes s!"{encoded}.{body}") = .ok digest ∧ key.sign digest = .ok (r, s) ∧
        ∃ front back, decode signature = some (front ++ back) ∧ Coordinate front r ∧ Coordinate back s := by
  simp only [sign, bind_eq_ok, Except.ok.injEq] at h
  obtain ⟨header, hheader, signature, hsignature, rfl⟩ := h
  obtain ⟨name, hname, hwritten⟩ := toList_header hlib hheader
  obtain ⟨digest, r, s, hdigest, hsign, front, back, rfl, hfront, hback⟩ := rawSignature_ok hsignature
  refine ⟨_, _, _, header, name, ?_, decode_base64url hlib _, fromStr_header hname hwritten, hname,
    decode_base64url hlib _, digest, r, s, hdigest, hsign, front, back, decode_base64url hlib _, hfront,
      hback⟩
  rw [fromStr_written _ _ (toList_envelope hlib _ _ _)]
  · rfl
  · simp [envelopeValue, Whole, WholeMembers]
  · simp [envelopeValue, deep, deepMembers, deepest]

/-- A digest and letters. -/
def sampleLib : Libraries :=
  ⟨fun _ => .error "", fun bytes => .ok (Sha256.sha256 bytes).toList,
    fun bytes => String.ofList (Base64.encode bytes), id⟩

/-- A key that signs everything alike. -/
def sampleKey : Account := ⟨.ok (), .ok (), .ok (), .ok (3, 4), fun _ => .ok (1, 2), "too long"⟩

/-- A nonce that tries to end its string is signed as it is. -/
theorem signed_nonce :
    let nonce := "\",\"url\":\""
    ∃ envelope header name,
      sign sampleLib sampleKey .account (some "https://acme/1") "https://acme/2" nonce none = .ok envelope ∧
      fromStr (fun _ => none) header = some (headerValue name nonce "https://acme/2") ∧
      Names sampleKey .account (some "https://acme/1") name := by
  intro nonce
  obtain ⟨envelope, h⟩ : ∃ envelope,
      sign sampleLib sampleKey .account (some "https://acme/1") "https://acme/2" nonce none = .ok envelope :=
    ⟨_, rfl⟩
  obtain ⟨encoded, body, signature, header, name, -, -, hheader, hname, -⟩ := signed_read (fun _ => rfl) h
  exact ⟨envelope, header, name, h, hheader, hname⟩

/-! ## Answers -/

theorem base64url_injective {lib : Libraries}
    (hlib : ∀ bytes, lib.encodeBlock bytes = String.ofList (Base64.encode bytes)) :
    Function.Injective (base64url lib) := by
  intro a b h
  have hdecode := decode_base64url hlib a
  rw [h, decode_base64url hlib b] at hdecode
  exact (Option.some.inj hdecode).symm

theorem Point.unique {key other : Account} {x y : String} (h : Point key x y) (h' : Point other x y) :
    key.coordinates = other.coordinates := by
  obtain ⟨n, m, hkey, ⟨bytes, hx, -, rfl⟩, bytes', hy, -, rfl⟩ := h
  obtain ⟨n', m', hother, ⟨_, hx', -, rfl⟩, _, hy', -, rfl⟩ := h'
  rw [hx] at hx'
  rw [hy] at hy'
  rw [hkey, hother, ← Option.some.inj hx', ← Option.some.inj hy']

/-- A public half says which point it is of. -/
theorem jwk_unique {lib : Libraries}
    (hlib : ∀ bytes, lib.encodeBlock bytes = String.ofList (Base64.encode bytes)) {key other : Account}
    {text : String} (h : jwk lib key = .ok text) (h' : jwk lib other = .ok text) :
    key.coordinates = other.coordinates := by
  obtain ⟨x, y, hpoint, hwritten⟩ := toList_jwk hlib h
  obtain ⟨x', y', hpoint', hwritten'⟩ := toList_jwk hlib h'
  have hread {x y : String} (hwritten : text.toList = written (jwkValue x y)) :
      fromStr (fun _ => none) text = some (jwkValue x y) := by
    rw [fromStr_written (by simp [jwkValue, Whole, WholeMembers])
      (by simp [jwkValue, deep, deepMembers, deepest]) hwritten]
    rfl
  have hsame := (hread hwritten).symm.trans (hread hwritten')
  simp only [jwkValue, Option.some.injEq, Value.object.injEq, List.cons.injEq, Prod.mk.injEq,
    Value.string.injEq, true_and, and_true] at hsame
  obtain ⟨rfl, rfl⟩ := hsame
  exact hpoint.unique hpoint'

/-- An answer is cut at its last dot. -/
theorem rsplitOnce_keyAuthorization (token : String) {text : String} (h : '.' ∉ text.toList) :
    Text.rsplitOnce (keyAuthorization token text) '.' = some (token, text) := by
  rw [Text.rsplitOnce_eq_some]
  exact ⟨by simp [keyAuthorization, toString], h⟩

set_option maxRecDepth 2000 in
theorem dot_notMem {lib : Libraries}
    (hlib : ∀ bytes, lib.encodeBlock bytes = String.ofList (Base64.encode bytes)) (bytes : List UInt8) :
    '.' ∉ (base64url lib bytes).toList := by
  have hletter : ∀ n < 64, Base64.letter letters n ≠ '.' := by decide
  rw [toList_base64url hlib, List.mem_map]
  rintro ⟨n, hn, hdot⟩
  exact hletter n (Base64.sextets_lt bytes n hn) hdot

/-- The digest keeps these two texts apart. No digest of 32 bytes keeps every two texts apart. -/
def KeepsApart (lib : Libraries) (one other : String) : Prop :=
  ∀ digest, lib.sha256 (Text.bytes one) = .ok digest → lib.sha256 (Text.bytes other) = .ok digest →
    one = other

/-- The value of a record is the answer to one challenge by one account, as long as the digest keeps the
public halves of the two keys apart, and the two answers. -/
theorem recordValue_unique {lib : Libraries}
    (hlib : ∀ bytes, lib.encodeBlock bytes = String.ofList (Base64.encode bytes)) {key other : Account}
    {token token' text text' value : String} (htext : thumbprint lib key = .ok text)
    (htext' : thumbprint lib other = .ok text') (h : recordValue lib token text = .ok value)
    (h' : recordValue lib token' text' = .ok value)
    (hkeys : ∀ one two, jwk lib key = .ok one → jwk lib other = .ok two → KeepsApart lib one two)
    (hanswers : KeepsApart lib (keyAuthorization token text) (keyAuthorization token' text')) :
    token = token' ∧ key.coordinates = other.coordinates := by
  simp only [thumbprint, bind_eq_ok, mapError_eq_ok, Except.ok.injEq] at htext htext'
  obtain ⟨one, hone, digest, hdigest, rfl⟩ := htext
  obtain ⟨two, htwo, digest', hdigest', rfl⟩ := htext'
  simp only [recordValue, bind_eq_ok, mapError_eq_ok, Except.ok.injEq] at h h'
  obtain ⟨answer, hanswer, rfl⟩ := h
  obtain ⟨answer', hanswer', heq⟩ := h'
  obtain rfl := base64url_injective hlib heq
  have hsame := hanswers _ hanswer hanswer'
  -- One answer: its token is in front of the last dot, and the thumbprint behind it.
  have hcut := rsplitOnce_keyAuthorization token (dot_notMem hlib digest)
  rw [hsame, rsplitOnce_keyAuthorization token' (dot_notMem hlib digest'), Option.some.injEq,
    Prod.mk.injEq] at hcut
  obtain rfl := base64url_injective hlib hcut.2
  obtain rfl := hkeys one two hone htwo _ hdigest hdigest'
  exact ⟨hcut.1.symm, jwk_unique hlib hone htwo⟩

/-- A key answers as itself. -/
theorem recordValue_unique_same :
    ∃ text value, thumbprint sampleLib sampleKey = .ok text ∧ recordValue sampleLib "token" text = .ok value ∧
      "token" = "token" ∧ sampleKey.coordinates = sampleKey.coordinates := by
  obtain ⟨text, htext⟩ : ∃ text, thumbprint sampleLib sampleKey = .ok text := ⟨_, rfl⟩
  obtain ⟨value, hvalue⟩ : ∃ value, recordValue sampleLib "token" text = .ok value := ⟨_, rfl⟩
  exact ⟨text, value, htext, hvalue, recordValue_unique (fun _ => rfl) htext htext hvalue hvalue
    (fun one two hone htwo _ _ _ => Except.ok.inj (hone.symm.trans htwo)) (fun _ _ _ => rfl)⟩

end EkEk.Tls.Jws
