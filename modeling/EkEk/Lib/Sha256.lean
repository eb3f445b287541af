import Mathlib.Data.UInt

/-!
# SHA-256

The hash function of FIPS 180-4, on lists of bytes. It can be evaluated, which is all that is asked of
it here: nothing is proved about its values but what single ones are.
-/

namespace Sha256

/-- Rotate a word to the right. -/
def rotr (n x : UInt32) : UInt32 := x >>> n ||| x <<< (32 - n)

/-- The eight words of a hash value. -/
structure State where
  a : UInt32
  b : UInt32
  c : UInt32
  d : UInt32
  e : UInt32
  f : UInt32
  g : UInt32
  h : UInt32
deriving DecidableEq, Repr

/-- The initial hash value. -/
def initial : State where
  a := 0x6a09e667
  b := 0xbb67ae85
  c := 0x3c6ef372
  d := 0xa54ff53a
  e := 0x510e527f
  f := 0x9b05688c
  g := 0x1f83d9ab
  h := 0x5be0cd19

/-- The constants, one for each round. -/
def constants : List UInt32 := [
  0x428a2f98, 0x71374491, 0xb5c0fbcf, 0xe9b5dba5, 0x3956c25b, 0x59f111f1, 0x923f82a4, 0xab1c5ed5,
  0xd807aa98, 0x12835b01, 0x243185be, 0x550c7dc3, 0x72be5d74, 0x80deb1fe, 0x9bdc06a7, 0xc19bf174,
  0xe49b69c1, 0xefbe4786, 0x0fc19dc6, 0x240ca1cc, 0x2de92c6f, 0x4a7484aa, 0x5cb0a9dc, 0x76f988da,
  0x983e5152, 0xa831c66d, 0xb00327c8, 0xbf597fc7, 0xc6e00bf3, 0xd5a79147, 0x06ca6351, 0x14292967,
  0x27b70a85, 0x2e1b2138, 0x4d2c6dfc, 0x53380d13, 0x650a7354, 0x766a0abb, 0x81c2c92e, 0x92722c85,
  0xa2bfe8a1, 0xa81a664b, 0xc24b8b70, 0xc76c51a3, 0xd192e819, 0xd6990624, 0xf40e3585, 0x106aa070,
  0x19a4c116, 0x1e376c08, 0x2748774c, 0x34b0bcb5, 0x391c0cb3, 0x4ed8aa4a, 0x5b9cca4f, 0x682e6ff3,
  0x748f82ee, 0x78a5636f, 0x84c87814, 0x8cc70208, 0x90befffa, 0xa4506ceb, 0xbef9a3f7, 0xc67178f2]

/-- One round, with its constant and its word of the message schedule. -/
def round (s : State) (constant word : UInt32) : State :=
  let sum1 := rotr 6 s.e ^^^ rotr 11 s.e ^^^ rotr 25 s.e
  let ch := (s.e &&& s.f) ^^^ (~~~ s.e &&& s.g)
  let t1 := s.h + sum1 + ch + constant + word
  let sum0 := rotr 2 s.a ^^^ rotr 13 s.a ^^^ rotr 22 s.a
  let maj := (s.a &&& s.b) ^^^ (s.a &&& s.c) ^^^ (s.b &&& s.c)
  ⟨t1 + (sum0 + maj), s.a, s.b, s.c, s.d + t1, s.e, s.f, s.g⟩

/-- The word of the schedule that follows sixteen others. -/
def next (words : List UInt32) : UInt32 :=
  let w1 := words.getD 1 0
  let w14 := words.getD 14 0
  let sigma0 := rotr 7 w1 ^^^ rotr 18 w1 ^^^ w1 >>> 3
  let sigma1 := rotr 17 w14 ^^^ rotr 19 w14 ^^^ w14 >>> 10
  sigma1 + words.getD 9 0 + sigma0 + words.getD 0 0

/-- The rounds of one block. Only the sixteen words that are next in the schedule are kept. -/
def rounds : List UInt32 → List UInt32 → State → State
  | [], _, s => s
  | constant :: constants, words, s =>
    rounds constants (words.tail ++ [next words]) (round s constant (words.getD 0 0))

/-- The number that big-endian bytes are. -/
def ofBytes (bytes : List UInt8) : ℕ := bytes.foldl (fun n byte => n * 256 + byte.toNat) 0

/-- The last bytes of a number, big-endian. -/
def toBytes : ℕ → ℕ → List UInt8
  | 0, _ => []
  | count + 1, n => toBytes count (n / 256) ++ [UInt8.ofNat n]

/-- Take one block of 64 bytes into the hash value. -/
def compress (s : State) (block : List UInt8) : State :=
  let words := (List.range 16).map fun i => UInt32.ofNat (ofBytes ((block.drop (4 * i)).take 4))
  let r := rounds constants words s
  ⟨s.a + r.a, s.b + r.b, s.c + r.c, s.d + r.d, s.e + r.e, s.f + r.f, s.g + r.g, s.h + r.h⟩

/-- The message with its padding and its length in bits. -/
def pad (message : List UInt8) : List UInt8 :=
  message ++ 0x80 :: List.replicate ((119 - message.length % 64) % 64) 0 ++
    toBytes 8 (8 * message.length)

/-- The hash value of a message. -/
def value (message : List UInt8) : State :=
  let padded := pad message
  (List.range (padded.length / 64)).foldl (fun s i => compress s ((padded.drop (64 * i)).take 64)) initial

@[simp] theorem length_toBytes (count n : ℕ) : (toBytes count n).length = count := by
  induction count generalizing n with
  | zero => rfl
  | succ count ih => simp [toBytes, ih]

/-- The digest of a message. -/
def sha256 (message : List UInt8) : Vector UInt8 32 :=
  let s := value message
  ⟨([s.a, s.b, s.c, s.d, s.e, s.f, s.g, s.h].flatMap fun word => toBytes 4 word.toNat).toArray,
    by simp⟩

-- the first bytes of the digest of `abc`
example : (sha256 [97, 98, 99]).toList.take 4 = [0xba, 0x78, 0x16, 0xbf] := by decide +kernel

end Sha256
