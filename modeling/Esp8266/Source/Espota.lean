import Esp8266.Source.ArduinoOta

/-!
# espota.py

tools/espota.py, `serve`. A Python string is the bytes of its encoding; a device prints nothing
but ASCII, so that `decode` is left out. What a socket delivers is given from outside.
-/
set_option autoImplicit false

namespace Esp8266.Source.Espota
open Esp8266.Lib.Decimal Esp8266.Source.WString Esp8266.Source.Ota

def flash : Nat := 0
def spiffs : Nat := 100
def auth : Nat := 200

/-- The arguments of `serve`, with the contents of the file. -/
structure Serve where
  remoteAddr : List UInt8
  localPort : Nat
  password : List UInt8
  filename : List UInt8
  contents : List UInt8
  command : Nat

namespace Serve

def contentSize (serve : Serve) : Nat := serve.contents.length

def fileMd5 (md5 : List UInt8 → Digest) (serve : Serve) : List UInt8 := (md5 serve.contents).text

/-- The first message, espota.py:97. -/
def invitation (md5 : List UInt8 → Digest) (serve : Serve) : List UInt8 :=
  decimal serve.command ++ [0x20] ++ decimal serve.localPort ++ [0x20] ++
    decimal serve.contentSize ++ [0x20] ++ serve.fileMd5 md5 ++ [0x0a]

def cnonce (md5 : List UInt8 → Digest) (serve : Serve) : List UInt8 :=
  (md5 (serve.filename ++ decimal serve.contentSize ++ serve.fileMd5 md5 ++ serve.remoteAddr)).text

def result (md5 : List UInt8 → Digest) (nonce : List UInt8) (serve : Serve) : List UInt8 :=
  let passmd5 := (md5 serve.password).text
  (md5 (passmd5 ++ [0x3a] ++ nonce ++ [0x3a] ++ serve.cnonce md5)).text

end Serve

/-- `split()`, for ASCII. -/
def split (data : List UInt8) : List (List UInt8) :=
  (data.splitOnP fun c => c = 0x20 ∨ (0x09 ≤ c ∧ c ≤ 0x0d) ∨ (0x1c ≤ c ∧ c ≤ 0x1f)).filter (· ≠ [])

/-- What `serve` does after an answer to the invitation. -/
inductive Reaction where
  | upload
  | authenticate (message : List UInt8)
  | giveUp
deriving DecidableEq

/-- From the answer on, as `recv(128)` returns it (espota.py:106-141). -/
def Serve.onAnswer (md5 : List UInt8 → Digest) (datagram : List UInt8) (serve : Serve) : Reaction :=
  let data := datagram.take 128
  if data = ofString "OK" then .upload
  else if ofString "AUTH" <+: data then
    match (split data)[1]? with
    | some nonce =>
      .authenticate (decimal auth ++ [0x20] ++ serve.cnonce md5 ++ [0x20] ++
        serve.result md5 nonce ++ [0x0a])
    | none => .giveUp
  else .giveUp

/-! ## The upload -/

/-- The connection from the device, as `serve` sees it. -/
structure Connection where
  /-- What arrives. -/
  bytes : List UInt8
  /-- How much of the rest is there when `recv` returns, for each time it is called. It waits
  for one byte at least. -/
  there : Nat → Nat
  /-- Behind these bytes the device has closed the connection; otherwise `recv` raises. -/
  closed : Bool
  /-- Whether `sendall` returns, for each time it is called. -/
  sends : Nat → Bool

/-- The call of `recv` with the number `i`: what it returns, if it does, and the rest. -/
def Connection.recv (c : Connection) (size i : Nat) (bytes : List UInt8) :
    Option (List UInt8 × List UInt8) :=
  if bytes = [] then
    if c.closed then some ([], []) else none
  else
    let n := min size (max 1 (c.there i))
    some (bytes.take n, bytes.drop n)

/-- The state of the upload loop. -/
structure Upload where
  receivedOk : Bool
  /-- How often `sendall` and `recv` were called. -/
  calls : Nat
  bytes : List UInt8

/-- espota.py:165-182, with fuel for the length of the file; nothing, when it returns 1. -/
def uploadLoop (c : Connection) : Nat → List UInt8 → Upload → Option Upload
  | 0, _, u => some u
  | fuel + 1, f, u =>
    let chunk := f.take 1460
    if chunk = [] then some u
    else if !c.sends u.calls then none
    else
      match c.recv 32 u.calls u.bytes with
      | none => none
      | some (reply, bytes) =>
        uploadLoop c fuel (f.drop 1460)
          { receivedOk := u.receivedOk || decide (0x4f ∈ reply), calls := u.calls + 1, bytes }

/-- espota.py:193-215; nothing, when the fuel does not suffice. -/
def resultLoop (c : Connection) : Nat → Upload → Option Nat
  | 0, _ => none
  | fuel + 1, u =>
    match c.recv 64 u.calls u.bytes with
    | none => some 1
    | some (reply, bytes) =>
      if 0x45 ∈ reply then some 1
      else if 0x4f ∈ reply then some 0
      else resultLoop c fuel { u with calls := u.calls + 1, bytes }

/-- The upload phase of `serve`, espota.py:155-215. -/
def upload (c : Connection) (contents : List UInt8) (fuel : Nat) : Option Nat :=
  match uploadLoop c (contents.length + 1) contents ⟨false, 0, c.bytes⟩ with
  | none => some 1
  | some u => resultLoop c fuel { u with receivedOk := false }

end Esp8266.Source.Espota
