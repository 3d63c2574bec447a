import Esp8266.Source.WString

/-!
# Strings in memory

cores/esp8266/WString.cpp over the buffer of a `String`, with what it holds behind the terminator.
A function that reaches outside the buffer is `none`; the functions of C read a text as far as its
terminator.
-/
set_option autoImplicit false

namespace Esp8266.Source

/-! ## Functions of C -/

/-- The text at an address, when there is a terminator behind it. -/
def cString : List UInt8 → Option (List UInt8)
  | [] => none
  | c :: rest => if c = 0 then some [] else (cString rest).map (c :: ·)

def strncmp : Nat → List UInt8 → List UInt8 → Option Int
  | 0, _, _ => some 0
  | n + 1, a :: as, b :: bs =>
    if a ≠ b then some (a.toNat - b.toNat) else if a = 0 then some 0 else strncmp n as bs
  | _ + 1, _, _ => none

def strcmp : List UInt8 → List UInt8 → Option Int
  | a :: as, b :: bs =>
    if a ≠ b then some (a.toNat - b.toNat) else if a = 0 then some 0 else strcmp as bs
  | _, _ => none

/-- `strstr` from an index of a buffer on; what it finds is an index as well. -/
def strstrFrom (buffer : List UInt8) (start : Nat) (needle : List UInt8) : Option (Option Nat) := do
  let hay ← cString (buffer.drop start)
  let text ← cString needle
  some ((WString.strstr text hay).map (start + ·))

/-- `String`; its buffer has room for the capacity and a terminator, and is null after a move. -/
structure StringMemory where
  isSSO : Bool
  buffer : Option (List UInt8)
  len : Nat
  deriving DecidableEq

namespace StringMemory

/-! ## Searching -/

/-- `startsWith`, with an offset. -/
def startsWith (s s2 : StringMemory) (offset : UInt32) : Option Bool :=
  if UInt32.ofNat s.len - UInt32.ofNat s2.len < offset then some false
  else
    match s.buffer, s2.buffer with
    | some buffer, some text =>
      (strncmp s2.len (buffer.drop offset.toNat) text).map fun order => order = 0
    | _, _ => some false

def endsWith (s s2 : StringMemory) : Option Bool :=
  if s.len < s2.len then some false
  else
    match s.buffer, s2.buffer with
    | some buffer, some text =>
      (strcmp (buffer.drop (s.len - s2.len)) text).map fun order => order = 0
    | _, _ => some false

/-- `indexOf` of a string. -/
def indexOf (s s2 : StringMemory) (fromIndex : UInt32) : Option Int :=
  if s.len ≤ fromIndex.toNat then some (-1)
  else do
    let buffer ← s.buffer
    let text ← s2.buffer
    let found ← strstrFrom buffer fromIndex.toNat text
    some (found.elim (-1) Int.ofNat)

/-- The loop of `lastIndexOf`; `left` bounds the rounds. -/
def lastIndexOfLoop (buffer text : List UInt8) (fromIndex : Nat) : Nat → Nat → Int → Option Int
  | 0, _, found => some found
  | left + 1, p, found =>
    if fromIndex < p then some found
    else do
      match ← strstrFrom buffer p text with
      | none => some found
      | some p =>
        lastIndexOfLoop buffer text fromIndex left (p + 1) (if p ≤ fromIndex then p else found)

/-- `lastIndexOf` of a string. -/
def lastIndexOf (s s2 : StringMemory) (fromIndex : UInt32) : Option Int :=
  if s2.len = 0 ∨ s.len = 0 ∨ s.len < s2.len then some (-1)
  else do
    let buffer ← s.buffer
    let text ← s2.buffer
    let fromIndex := if s.len ≤ fromIndex.toNat then s.len - 1 else fromIndex.toNat
    lastIndexOfLoop buffer text fromIndex (fromIndex + 1) 0 (-1)

/-! ## Memory -/

/-- `SSOSIZE`: the buffer inside the object. -/
def ssoSize : Nat := 11

def capacityMax : Nat := 65535

def capacity (s : StringMemory) : Nat :=
  if s.isSSO then ssoSize - 1 else (s.buffer.getD []).length - 1

/-- `setLen`; a bit field of 7 bits in the object, 16 bits else. -/
def setLen (len : Int) (s : StringMemory) : StringMemory :=
  { s with len := (len % (if s.isSSO then 2 ^ 7 else 2 ^ 16)).toNat }

/-- Bytes are written into the buffer. -/
def write (dest : Nat) (bytes : List UInt8) (s : StringMemory) : Option StringMemory := do
  let buffer ← s.buffer
  if dest + bytes.length ≤ buffer.length then
    some { s with
      buffer := some (buffer.take dest ++ bytes ++ buffer.drop (dest + bytes.length)) }
  else none

/-- `memmove_P` inside the buffer. -/
def memmove (dest src n : Nat) (s : StringMemory) : Option StringMemory := do
  let buffer ← s.buffer
  if src + n ≤ buffer.length then s.write dest ((buffer.drop src).take n) else none

/-- `memmove_P` of another string into the buffer. -/
def copyFrom (s : StringMemory) (dest : Nat) (other : StringMemory) : Option StringMemory :=
  let text := other.buffer.getD []
  if other.len ≤ text.length then s.write dest (text.take other.len) else none

/-- `changeBuffer`, for more than fits into the object: the new bytes of the memory are zero. -/
def changeBuffer (allocated : Bool) (maxStrLen : Nat) (s : StringMemory) : Bool × StringMemory :=
  let newSize := (maxStrLen + 16) / 16 * 16
  if capacityMax < newSize then (false, s)
  else if !allocated then (false, s)
  else
    let buffer := s.buffer.getD []
    (true, { s with
      isSSO := false
      buffer := some ((buffer ++ List.replicate (newSize - buffer.length) 0).take newSize) })

/-! ## Replacing -/

/-- `strstr` in the buffer, of another string. -/
def strstr (s : StringMemory) (readFrom : Nat) (find : StringMemory) : Option (Option Nat) := do
  strstrFrom (← s.buffer) readFrom (← find.buffer)

/-- The loop for a text of the same length; `rounds` bounds it, as it does the other loops. -/
def replaceSame (find replace : StringMemory) :
    Nat → Nat → StringMemory → Option StringMemory
  | 0, _, _ => none
  | rounds + 1, readFrom, s => do
    match ← s.strstr readFrom find with
    | none => some s
    | some foundAt =>
      replaceSame find replace rounds (foundAt + replace.len) (← s.copyFrom foundAt replace)

/-- The loop for a shorter text, and the move of what is left. -/
def replaceShrinking (find replace : StringMemory) :
    Nat → Nat → Nat → StringMemory → Option StringMemory
  | 0, _, _, _ => none
  | rounds + 1, writeTo, readFrom, s => do
    match ← s.strstr readFrom find with
    | some foundAt =>
      let n := foundAt - readFrom
      let s ← s.memmove writeTo readFrom n
      let writeTo := writeTo + n
      let s ← s.copyFrom writeTo replace
      let s := s.setLen (s.len + (replace.len - find.len : Int))
      replaceShrinking find replace rounds (writeTo + replace.len) (foundAt + find.len) s
    | none =>
      let rest ← cString ((← s.buffer).drop readFrom)
      s.memmove writeTo readFrom (rest.length + 1)

/-- The size for a longer text, an `unsigned int`. -/
def replaceSize (find replace : StringMemory) :
    Nat → Nat → Nat → StringMemory → Option Nat
  | 0, _, _, _ => none
  | rounds + 1, readFrom, size, s => do
    match ← s.strstr readFrom find with
    | none => some size
    | some foundAt =>
      replaceSize find replace rounds (foundAt + find.len)
        ((size + (replace.len - find.len)) % 2 ^ 32) s

/-- A round of the loop for a longer text: the occurrence at an index is replaced. -/
def replaceAt (s : StringMemory) (find replace : StringMemory) (index : Nat) :
    Option StringMemory := do
  let diff := replace.len - find.len
  let readFrom := index + find.len
  let s ← s.memmove (readFrom + diff) readFrom (s.len - readFrom)
  let newLen := s.len + diff
  let s ← s.copyFrom index replace
  (s.setLen newLen).write newLen [0]

/-- The loop for a longer text, from the end of the string on. -/
def replaceGrowing (find replace : StringMemory) :
    Nat → Int → StringMemory → Option StringMemory
  | 0, _, _ => none
  | rounds + 1, index, s =>
    if index < 0 then some s
    else do
      let index ← s.lastIndexOf find (UInt32.ofNat index.toNat)
      if index < 0 then some s
      else replaceGrowing find replace rounds (index - 1) (← s.replaceAt find replace index.toNat)

/-- `replace` of a string by another one; `allocated` is whether a new buffer gets memory. -/
def replace (s : StringMemory) (allocated : Bool) (find replace : StringMemory) :
    Option StringMemory :=
  if s.len = 0 ∨ find.len = 0 then some s
  else
    let diff : Int := replace.len - find.len
    if diff = 0 then replaceSame find replace (s.len + 1) 0 s
    else if diff < 0 then replaceShrinking find replace (s.len + 1) 0 0 s
    else do
      let size ← replaceSize find replace (s.len + 1) 0 s.len s
      if size = s.len then some s
      else
        let (reserved, s) := if s.capacity < size then s.changeBuffer allocated size else (true, s)
        if !reserved then some s -- tell user!
        else replaceGrowing find replace (s.len + 1) (s.len - 1) s

end StringMemory

end Esp8266.Source
