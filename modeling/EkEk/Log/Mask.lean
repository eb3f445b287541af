import EkEk.Lib.Searching
import EkEk.Text

/-!
# Taking the secrets out of a message

Reference: `crates/ek-ek-log/src/mask.rs`.

The message is its bytes, and a position in it is a number of bytes. Taking a part of a text at a
position inside a character panics, which is `none` here, and so is running out of the number of rounds
the loop is given.
-/

namespace EkEk.Mask

open Text (bytes)
open Searching (find)

/-! ## Bytes and parts of texts -/

def isAsciiAlphanumeric (byte : UInt8) : Bool :=
  (48 ≤ byte && byte ≤ 57) || (65 ≤ byte && byte ≤ 90) || (97 ≤ byte && byte ≤ 122)

/-- A blank, a tab, a line end or a form feed. -/
def isAsciiWhitespace (byte : UInt8) : Bool :=
  byte == 32 || byte == 9 || byte == 10 || byte == 12 || byte == 13

def toAsciiLowercase (byte : UInt8) : UInt8 := if 65 ≤ byte && byte ≤ 90 then byte + 32 else byte

/-- A byte that goes on with a character. -/
def isContinuation (byte : UInt8) : Bool := 128 ≤ byte && byte < 192

def isCharBoundary (text : List UInt8) (index : ℕ) : Bool :=
  index == 0 || match text[index]? with
    | none => index == text.length
    | some byte => !isContinuation byte

/-- `&text[start..]` -/
def sliceFrom (text : List UInt8) (start : ℕ) : Option (List UInt8) :=
  if isCharBoundary text start then some (text.drop start) else none

/-- `&text[start..stop]` -/
def slice (text : List UInt8) (start stop : ℕ) : Option (List UInt8) :=
  if start ≤ stop && isCharBoundary text start && isCharBoundary text stop then
    some ((text.take stop).drop start)
  else none

/-! ## Names -/

def MASK : List UInt8 := bytes "***"

def SECRET : List (List UInt8) :=
  [bytes "authorization", bytes "proxy-authorization", bytes "cookie", bytes "set-cookie",
    bytes "x-api-key", bytes "x-auth-token", bytes "password", bytes "body"]

/-- Whether a byte that follows a name leaves it a name. -/
def boundaryAfter (after : UInt8) : Bool := !isAsciiAlphanumeric after && after != 95 && after != 45

/-- Whether the byte before a position ends whatever came before it. -/
def boundaryBefore (bytes : List UInt8) (position : ℕ) : Option Bool :=
  if position = 0 then some true
  else do
    let before ← bytes[position - 1]?
    if (before == 110 || before == 114 || before == 116) && 2 ≤ position && bytes[position - 2]? == some 92 then
      return true
    else return !isAsciiAlphanumeric before && before != 95

/-- The secret name that starts at a position. -/
def secretAt (lower : List UInt8) (position : ℕ) : Option (Option (List UInt8)) := do
  if ← boundaryBefore lower position then
    let rest ← sliceFrom lower position
    return SECRET.find? fun name =>
      name.isPrefixOf rest && (lower[position + name.length]?).all boundaryAfter
  else return none

/-! ## Values -/

def skipWhitespace (bytes : List UInt8) (position : ℕ) : ℕ :=
  position + ((bytes.drop position).takeWhile isAsciiWhitespace).length

/-- What a debug format puts in front of a value. -/
def wrappers : List (List UInt8) := [bytes "Some(", bytes "b", [92, 34], [34]]

/-- One wrapper taken off, if it is there. -/
def unwrap (bytes : List UInt8) (held : ℕ × Bool) (wrapper : List UInt8) : Option (ℕ × Bool) :=
  if bytes.length < held.1 then none
  else if wrapper.isPrefixOf (bytes.drop held.1) then
    some (held.1 + wrapper.length, held.2 || wrapper.getLast? == some 34)
  else some held

/-- An escaped line break. -/
def escapedBreak (bytes : List UInt8) : Bool := [92, 114].isPrefixOf bytes || [92, 110].isPrefixOf bytes

/-- A byte that a value ends at. -/
def ends (byte : UInt8) : Bool :=
  byte == 34 || byte == 13 || byte == 10 || byte == 44 || byte == 125 || byte == 41

/-- How long a value is. The closing quote belongs to a value in quotes. -/
def valueLength (quoted : Bool) : List UInt8 → ℕ
  | [] => 0
  | byte :: rest =>
    if escapedBreak (byte :: rest) then 0
    else if ends byte then if quoted && byte == 34 then 1 else 0
    else valueLength quoted rest + 1

/-- The stretch of a message that holds a value. -/
def valueSpan (bytes : List UInt8) (position : ℕ) : Option (Option (ℕ × ℕ)) :=
  let position := if bytes[position]? == some 34 then position + 1 else position
  let position := skipWhitespace bytes position
  if bytes[position]? == some 58 || bytes[position]? == some 61 then do
    let start := skipWhitespace bytes (position + 1)
    let (opened, quoted) ← wrappers.foldlM (unwrap bytes) (start, false)
    return some (start, opened + valueLength quoted (bytes.drop opened))
  else some none

/-! ## Private keys -/

def OPEN : List UInt8 := bytes "-----begin"

def CLOSE : List UInt8 := bytes "-----"

def PRIVATE_KEY : List UInt8 := bytes "private key"

def END : List UInt8 := bytes "-----end"

/-- The end of a private key block that starts at a position. -/
def pemKeyAt (lower : List UInt8) (position : ℕ) : Option (Option ℕ) := do
  let block ← sliceFrom lower position
  if OPEN.isPrefixOf block then
    let head ← sliceFrom lower (position + OPEN.length)
    match find CLOSE head with
    | none => return none
    | some closed =>
      let headEnd := closed + position + OPEN.length
      let head ← slice lower position headEnd
      if (find PRIVATE_KEY head).isSome then
        let rest ← sliceFrom lower headEnd
        match find END rest with
        | none => return none
        | some last =>
          let tail := last + headEnd
          let rest ← sliceFrom lower (tail + CLOSE.length)
          match find CLOSE rest with
          | none => return none
          | some closed => return some (min (closed + tail + CLOSE.length + CLOSE.length) lower.length)
      else return none
  else return none

/-! ## The scan -/

/-- How many bytes the character that begins with a byte takes. -/
def charLen (first : UInt8) : ℕ :=
  if first < 128 then 1
  else if 192 ≤ first && first ≤ 223 then 2
  else if 224 ≤ first && first ≤ 239 then 3
  else 4

/-- The value of the secret that starts at a position. -/
def spanAt (text lower : List UInt8) (position : ℕ) : Option (Option (ℕ × ℕ)) := do
  match ← secretAt lower position with
  | some name => valueSpan text (position + name.length)
  | none => return none

def scan (text lower : List UInt8) : ℕ → ℕ → List UInt8 → Option (List UInt8)
  | 0, _, _ => none
  | rounds + 1, position, out =>
    match text[position]? with
    | none => some out
    | some first => do
      match ← spanAt text lower position with
      | some (start, stop) => scan text lower rounds stop (out ++ (← slice text position start) ++ MASK)
      | none =>
        match ← pemKeyAt lower position with
        | some stop => scan text lower rounds stop (out ++ MASK)
        | none =>
          let stop := min (position + charLen first) text.length
          scan text lower rounds stop (out ++ (← slice text position stop))

/-- The message with every secret value replaced. -/
def message (message : String) : Option (List UInt8) :=
  scan (bytes message) ((bytes message).map toAsciiLowercase) ((bytes message).length + 1) 0 []

end EkEk.Mask
