import Esp8266.Source.WString

/-!
# ESP8266NetBIOS

libraries/ESP8266NetBIOS/ESP8266NetBIOS.cpp:80-268. A packet is a chain of buffers, each the list
of its bytes. A read or a store outside of a buffer, of `_name`, of the decoded name or of a member
that is encoded ends the model. Memory is always found for an answer.
-/
set_option autoImplicit false

namespace Esp8266.Source.NetBios
open Esp8266.Source.WString

inductive Fault where
  | outside
deriving DecidableEq

/-- `toupper` -/
def toUpper (c : UInt8) : UInt8 := if 0x61 ≤ c ∧ c ≤ 0x7a then c - 0x20 else c

/-- `sizeof(_name)`, which is `NBNS_MAX_HOSTNAME_LEN + 1`. -/
def nameSize : Nat := 17

/-! ## begin -/

/-- The name that `begin` accepted. -/
structure ESP8266NetBIOS where
  name : WString
  accepted : name.length ≤ nameSize
  plain : 0 ∉ name

theorem toUpper_ne_zero : ∀ c : UInt8, c ≠ 0 → toUpper c ≠ 0 := by
  intro c some
  rw [toUpper]
  split
  · rename_i lower
    have low := UInt8.le_iff_toNat_le.mp lower.1
    change 0x61 ≤ c.toNat at low
    intro zero
    have same := congrArg UInt8.toNat zero
    rw [UInt8.toNat_sub_of_le c 0x20 (UInt8.le_iff_toNat_le.mpr (by
      change 0x20 ≤ c.toNat
      omega))] at same
    change c.toNat - 0x20 = 0 at same
    omega
  · exact some

/-- What `begin` makes of its argument, unless it refuses it. -/
def beginNBNS (name : WString) : Option ESP8266NetBIOS :=
  if accepted : (cstr name).length ≤ nameSize then
    some {
      name := (cstr name).map toUpper
      accepted := by rwa [List.length_map]
      plain := by
        intro mem
        obtain ⟨c, listed, zero⟩ := List.mem_map.mp mem
        exact toUpper_ne_zero c (fun same => not_mem_cstr name (same ▸ listed)) zero }
  else none

/-- The bytes of `_name`, as far as they were set; the zero behind 17 characters is outside. -/
def ESP8266NetBIOS.cells (own : ESP8266NetBIOS) : List UInt8 := (own.name ++ [0]).take nameSize

/-! ## Strings in arrays -/

/-- `strcmp(s, t) == 0` -/
def strcmp : List UInt8 → List UInt8 → Except Fault Bool
  | c :: s, d :: t => if c ≠ d then .ok false else if c = 0 then .ok true else strcmp s t
  | _, _ => .error .outside

def strlen : List UInt8 → Except Fault Nat
  | [] => .error .outside
  | c :: s => if c = 0 then .ok 0 else (strlen s).map (· + 1)

/-! ## _getnbname -/

/-- `*name++ = b` of what is stored in `name`. -/
def store (name : List UInt8) (b : UInt8) : Except Fault (List UInt8) :=
  if name.length < nameSize then .ok (name ++ [b]) else .error .outside

/-- The loop of `_getnbname`, and the zero behind it: the bytes in front of that. -/
def getnbnameLoop (maxlen : UInt8) :
    List UInt8 → UInt8 → List UInt8 → Except Fault (List UInt8)
  | [], _, _ => .error .outside
  | x :: nbname, c, name =>
    if x ≠ 0 ∧ c < maxlen then
      let b := (x - 0x41) <<< 4
      match nbname with
      | [] => .error .outside
      | y :: rest =>
        if y ≠ 0 then do
          let name ← store name (b ||| (y - 0x41))
          getnbnameLoop maxlen rest (c + 1 + 1) name
        else do
          let name ← store name b
          getnbnameLoop maxlen (y :: rest) (c + 1) name
    else do
      let _ ← store name 0
      return name

def getnbname (nbname : List UInt8) (maxlen : UInt8) : Except Fault (List UInt8) :=
  getnbnameLoop maxlen nbname 0 []

/-- The decoded name up to its first space. -/
def cutAtSpace (name : List UInt8) : WString := (cstr name).takeWhile (· ≠ 0x20)

/-! ## _makenbname -/

/-- So many turns of the loop of `_makenbname`. -/
def makenbnameLoop : Nat → List UInt8 → Except Fault (List UInt8)
  | 0, _ => .ok []
  | _ + 1, [] => .error .outside
  | turns + 1, b :: name => do
    let (c, name) := if b ≠ 0 then (b, name) else (0x20, b :: name)
    let nbname ← makenbnameLoop turns name
    return ((c >>> 4) + 0x41) :: ((c &&& 0xf) + 0x41) :: nbname

/-- `_makenbname`, into an array with a byte more than `outlen`. -/
def makenbname (name : List UInt8) (outlen : Nat) : Except Fault (List UInt8) := do
  let nbname ← makenbnameLoop ((outlen - 2 + 1) / 2) name
  let nbname := nbname ++ [0x41, 0x41, 0]
  if nbname.length ≤ outlen + 1 then return nbname else .error .outside

/-! ## _recv -/

/-- `struct NBNSANSWER`; the members that are constants are left out. -/
structure Answer where
  id : List UInt8
  nbname : List UInt8
  nodeAddress : List UInt8
deriving DecidableEq

/-- `struct NBNSANSWERN`; the members that are constants are left out. -/
structure AnswerN where
  id : List UInt8
  nameSize : UInt8
  nbname : List UInt8
  nname : List UInt8
deriving DecidableEq

inductive Sent where
  | nbnsa (answer : Answer)
  | nbnsan (answer : AnswerN)
deriving DecidableEq

def Answer.bytes (a : Answer) : List UInt8 :=
  a.id ++ [0x85, 0, 0, 0, 0, 1, 0, 0, 0, 0, 32] ++ a.nbname ++
    [0, 0x20, 0, 1, 0, 0x04, 0x93, 0xe0, 0, 6, 0, 0] ++ a.nodeAddress

def AnswerN.bytes (a : AnswerN) : List UInt8 :=
  a.id ++ [0x84, 0, 0, 0, 0, 1, 0, 0, 0, 0, a.nameSize] ++ a.nbname ++
    [0, 0x21, 0, 1, 0, 0, 0, 0, 0, 19, 1] ++ a.nname ++ [0, 0x04, 0]

def Sent.bytes : Sent → List UInt8
  | .nbnsa answer => answer.bytes
  | .nbnsan answer => answer.bytes

/-- `sizeof(struct NBNSANSWER)` and `sizeof(struct NBNSANSWERN)` -/
def Sent.size : Sent → Nat
  | .nbnsa _ => 62
  | .nbnsan _ => 75

/-- The members of `struct NBNSQUESTION`. -/
def flags1 (data : List UInt8) : UInt8 := data.getD 2 0

def namesize (data : List UInt8) : UInt8 := data.getD 12 0

def nbnsqName : Nat := 13

/-- `sizeof(struct NBNSQUESTION)` -/
def questionSize : Nat := 50

/-- What `_recv` does with one buffer of the chain. -/
def ESP8266NetBIOS.answer (own : ESP8266NetBIOS) (localIP data : List UInt8) :
    Except Fault (Option Sent) :=
  if data.length ≥ questionSize then
    if flags1 data &&& 0x80 = 0 then do
      let name ← getnbname (data.drop nbnsqName) (namesize data)
      let name := cutAtSpace name
      if ← strcmp (name ++ [0]) own.cells then
        let nbname ← makenbname own.cells 32
        return some (.nbnsa { id := data.take 2, nbname, nodeAddress := localIP })
      else if name = [0x2a] then
        let length ← strlen own.cells
        -- The sixteenth character goes to `NBNSAN_NTYPE`, which is set behind it.
        let nname := own.name.take length ++ (List.replicate 15 0x20).drop length
        return some (.nbnsan {
          id := data.take 2
          nameSize := namesize data
          nbname := (data.drop nbnsqName).take 33
          nname := nname.take 15 })
      else return none
    else .ok none
  else .ok none

/-- `_recv`: what is sent for each buffer of the chain. -/
def ESP8266NetBIOS.recv (own : ESP8266NetBIOS) (localIP : List UInt8) :
    List (List UInt8) → Except Fault (List (Option Sent))
  | [] => .ok []
  | data :: pb => do
    let sent ← own.answer localIP data
    let rest ← own.recv localIP pb
    return sent :: rest

end Esp8266.Source.NetBios
