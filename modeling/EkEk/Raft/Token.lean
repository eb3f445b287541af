import EkEk.Text
import EkEk.Lib.Checked
import EkEk.Store.Snapshot

/-!
# Join tokens

Reference: `crates/ek-ek-raft/src/token.rs` and `error.rs`.

A token is one word an operator carries to a new node: `ekek1.<id>.<secret>.<fingerprint>`. The
cluster keeps the digest of the secret and never the secret. What is drawn at random and what the
digest computes are parameters here.
-/

namespace EkEk.Raft

open Store Text Checked

/-! ## Failures -/

inductive Reason where
  | notLeader
  | noQuorum
  | consensus
  | storage
  | configuration
  | schema
  | crypto
  | rejected
deriving DecidableEq, Repr

/-- One failure, and why. -/
structure Failure where
  reason : Reason
  detail : String
deriving DecidableEq, Repr

/-- The refusal of something that cannot be built at all. -/
def malformed (detail : String) : Failure := ⟨.configuration, detail⟩

/-! ## Tokens -/

/-- The word every token starts with. -/
def format : String := "ekek1"

/-- How many characters the public half is. -/
def idCharacters : ℕ := 16

/-- How many characters the secret half is. -/
def secretCharacters : ℕ := 64

/-- How many characters a fingerprint is. -/
def fingerprintCharacters : ℕ := 64

/-- How long a token is usable, in seconds. -/
def lifetimeSeconds : ℤ := 3600

/-- A join token, taken apart. -/
structure Token where
  id : TokenId
  secret : String
  fingerprint : String
deriving DecidableEq, Repr

/-- Whether a value could be a fingerprint at all. -/
def wellFormed (value : String) : Prop := hexOfLength value fingerprintCharacters

instance (value : String) : Decidable (wellFormed value) :=
  inferInstanceAs (Decidable (hexOfLength _ _))

/-- How a value that is no fingerprint is refused. -/
def fingerprintMalformed : Failure :=
  malformed s!"a join token carries a fingerprint of {fingerprintCharacters} lowercase hex characters"

/-- The random bytes one token is made of. -/
structure Draw where
  id : Vector UInt8 8
  secret : Vector UInt8 32
deriving DecidableEq, Repr

namespace Token

/-- The one word, ready to be carried. -/
def word (token : Token) : String :=
  format ++ String.singleton '.' ++ (token.id.asStr ++ String.singleton '.' ++
    (token.secret ++ String.singleton '.' ++ token.fingerprint))

/-- Take a token apart, refusing anything that is not one. -/
def read (word : String) : Except Failure Token :=
  match split (trim word) '.' with
  | [version, id, secret, fingerprint] =>
    if version ≠ format then
      .error (malformed s!"this release reads {format} join tokens and the token says {version}")
    else if ¬ hexOfLength id idCharacters then
      .error (malformed s!"a join token identity is {idCharacters} lowercase hex characters")
    else if ¬ hexOfLength secret secretCharacters then
      .error (malformed s!"a join token secret is {secretCharacters} lowercase hex characters")
    else if ¬ wellFormed fingerprint then
      .error fingerprintMalformed
    else .ok ⟨⟨id⟩, secret, fingerprint⟩
  | parts => .error (malformed
      s!"a join token is four parts separated by dots, and {parts.length} were given")

/-- Mint a fresh token against one authority, from what was drawn at random. -/
def mint (fingerprint : String) (drawn : Except String Draw) : Except Failure Token := do
  ensure (wellFormed fingerprint) fingerprintMalformed
  let draw ← drawn.mapError fun error =>
    (⟨.crypto, s!"a join token could not be made random: {error}"⟩ : Failure)
  .ok ⟨⟨hex draw.id.toList⟩, hex draw.secret.toList, fingerprint⟩

/-- A token whose parts have the length and the alphabet they are read with. -/
structure Shaped (token : Token) : Prop where
  id : hexOfLength token.id.asStr idCharacters
  secret : hexOfLength token.secret secretCharacters
  fingerprint : wellFormed token.fingerprint

theorem not_mem_of_hexOfLength {s : String} {bytes : ℕ} (h : hexOfLength s bytes) :
    '.' ∉ s.toList := by
  intro hmem
  exact absurd (List.all_eq_true.mp h.2 _ hmem) (by decide)

theorem isWhitespace_of_hexOfLength {s : String} {bytes : ℕ} (h : hexOfLength s bytes) :
    ∀ c ∈ s.toList, isWhitespace c = false :=
  fun c hc => isWhitespace_of_isHex (List.all_eq_true.mp h.2 c hc)

theorem trim_word {token : Token} (h : token.Shaped) : trim token.word = token.word := by
  refine trim_eq_self fun c hc => ?_
  simp only [word, String.toList_append, String.toList_singleton, List.mem_append,
    List.mem_singleton] at hc
  have hformat : ∀ c ∈ format.toList, isWhitespace c = false := by simp [format, isWhitespace]
  rcases hc with (hc | rfl) | (hc | rfl) | (hc | rfl) | hc
  · exact hformat c hc
  · rfl
  · exact isWhitespace_of_hexOfLength h.id c hc
  · rfl
  · exact isWhitespace_of_hexOfLength h.secret c hc
  · rfl
  · exact isWhitespace_of_hexOfLength h.fingerprint c hc

/-- The word carries the token: what was minted is what is read back. -/
theorem read_word {token : Token} (h : token.Shaped) : read token.word = .ok token := by
  have hsplit : split token.word '.' =
      [format, token.id.asStr, token.secret, token.fingerprint] := by
    rw [word, split_append (by decide), split_append (not_mem_of_hexOfLength h.id),
      split_append (not_mem_of_hexOfLength h.secret),
      split_eq_self (not_mem_of_hexOfLength h.fingerprint)]
  rw [read, trim_word h, hsplit]
  simp [h.id, h.secret, h.fingerprint]

theorem mint_shaped {fingerprint : String} {drawn : Except String Draw} {token : Token}
    (h : mint fingerprint drawn = .ok token) : token.Shaped := by
  simp only [mint, bind_eq_ok, ensure_eq_ok, mapError_eq_ok] at h
  obtain ⟨-, hprint, draw, -, htoken⟩ := h
  cases htoken
  have hid := hexOfLength_hex draw.id.toList
  have hsecret := hexOfLength_hex draw.secret.toList
  rw [Vector.length_toList] at hid hsecret
  exact ⟨hid, hsecret, hprint⟩

end Token

end EkEk.Raft
