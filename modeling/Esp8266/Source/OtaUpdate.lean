import Esp8266.Source.Updater

/-!
# The update that ArduinoOTA runs

`ArduinoOTAClass::_runUpdate` (libraries/ArduinoOTA/ArduinoOTA.cpp:255) on the updater and on a TCP
client whose sender is given from outside: all that it will deliver, and what happens before each
look that the device takes at the connection. The callbacks do nothing here but are listed, with
what the code sees of the sender between them; the answers to the sender, the UDP socket and the
delays that wait for nothing are left out.
-/
set_option autoImplicit false

namespace Esp8266.Source.OtaUpdate
open Esp8266.Lib.Word32 Esp8266.Source.Esp Esp8266.Source.Updater

/-! ## The client -/

/-- What happens between two looks: bytes that arrive, and the end of the connection. -/
structure Tick where
  arrives : Nat
  closes : Bool

/-- `WiFiClient`: the bytes that the sender will still deliver, how many of them are in the receive
buffer, and the ticks to come. -/
structure Client where
  established : Bool
  bytes : List UInt8
  pending : Nat
  ticks : Nat → Tick

namespace Client

/-- Time passes up to the next look. The receive buffer counts its bytes in 16 bits. -/
def look (c : Client) : Client :=
  let arrived := if c.established then (c.ticks 0).arrives else 0
  { c with
    established := c.established && !(c.ticks 0).closes
    pending := min (min (c.pending + arrived) (2 ^ 16 - 1)) c.bytes.length
    ticks := fun k => c.ticks (k + 1) }

/-- `read(buf, size)`, of bytes that are there. -/
def read (n : Nat) (c : Client) : Client :=
  { c with bytes := c.bytes.drop n, pending := c.pending - n }

/-- A client whose `connect` has failed: `_client` is null. -/
def refused : Client := ⟨false, [], 0, fun _ => ⟨0, false⟩⟩

end Client

/-! ## Update.write(client) -/

/-- `write<WiFiClient>` (Updater.h:140) from the call of `available()` on: each pass reads a byte
or empties a full buffer, so `fuel` can be taken large enough. -/
def writeClientLoop (env : Env) : Nat → Client → Nat → Machine → Nat × Client × Machine
  | 0, c, written, m => (written, c, m)
  | fuel + 1, c, written, m =>
    let c := c.look
    let available := c.pending
    if available = 0 then (written, c, m)
    else
      let available :=
        if add32 m.updater.bufferLen available > m.updater.remaining then
          sub32 m.updater.remaining m.updater.bufferLen
        else available
      if add32 m.updater.bufferLen available > m.updater.bufferSize then
        let toBuff := sub32 m.updater.bufferSize m.updater.bufferLen
        let (ok, m) := writeBuffer env (m.fill (c.bytes.take toBuff))
        let c := c.read toBuff
        if !ok then (written, c, m)
        else if m.updater.remaining = 0 then (written + toBuff, c, m)
        else writeClientLoop env fuel c (written + toBuff) m
      else
        let m := m.fill (c.bytes.take available)
        let c := c.read available
        if m.updater.bufferLen = m.updater.remaining then
          let (ok, m) := writeBuffer env m
          if !ok then (written + available, c, m)
          else if m.updater.remaining = 0 then (written + available, c, m)
          else writeClientLoop env fuel c (written + available) m
        else if m.updater.remaining = 0 then (written + available, c, m)
        else writeClientLoop env fuel c (written + available) m

/-- Twice the bytes that may still come, and one pass more. -/
def writeClient (env : Env) (c : Client) (m : Machine) : Nat × Client × Machine :=
  if m.updater.hasError || !m.updater.isRunning then (0, c, m)
  else writeClientLoop env (2 * c.bytes.length + 2) c 0 m

/-! ## _runUpdate -/

inductive OtaError where
  | begin | connect | receive | ended
deriving DecidableEq, Repr

/-- What is seen of a run: the callbacks, a wait of 1000 empty polls, the bytes that
`Update.write` took, and what `Update.end()` returned. -/
inductive Note where
  | error (error : OtaError)
  | endCallback
  | silence
  | received (n : Nat)
  | ended (ok : Bool)
deriving DecidableEq, Repr

/-- `while (!client.available() && waited--) delay(1);` and `waited` behind it; none where the test
has counted it down to -1. -/
def waitForData : Nat → Client → Option Nat × Client
  | waited, c =>
    let c := c.look
    if c.pending ≠ 0 then (some waited, c)
    else
      match waited with
      | 0 => (none, c)
      | waited + 1 => waitForData waited c

/-- Between two passes of the loop. -/
structure Run where
  machine : Machine
  client : Client
  notes : List Note

namespace Run

def note (more : List Note) (r : Run) : Run := { r with notes := r.notes ++ more }

/-- `!Update.isFinished() && (client.connected() || client.available())`. -/
def again (r : Run) : Bool × Run :=
  if r.machine.updater.isFinished then (false, r)
  else
    let c := r.client.look
    if c.established || c.pending ≠ 0 then (true, { r with client := c })
    else
      let c := c.look
      (c.pending ≠ 0, { r with client := c })

/-- The notes of a wait: 1000 polls were empty when `waited` has come down to 0, and the error is
reported when it stands at 0 then. -/
def waitNotes : Option Nat → List Note
  | none => [.silence]
  | some 0 => [.silence, .error .receive]
  | some (_ + 1) => []

/-- The body of the loop. -/
def pass (env : Env) (r : Run) : Run :=
  let (waited, c) := waitForData 1000 r.client
  let (_, c', m) := writeClient env c r.machine
  let taken := c.bytes.length - c'.bytes.length
  { machine := m
    client := c'
    notes := r.notes ++ waitNotes waited ++ (if 0 < taken then [.received taken] else []) }

/-- The loop; it has no result while it goes on. -/
def loop (env : Env) : Nat → Run → Option Run
  | 0, _ => none
  | fuel + 1, r =>
    let (more, r) := r.again
    if more then loop env fuel (r.pass env) else some r

/-- From `Update.end()` on. -/
def finish (env : Env) (r : Run) : Run :=
  let (ok, m) := endUpdate env false r.machine
  { r with machine := m }.note [.ended ok, if ok then .endCallback else .error .ended]

end Run

/-- What the device is told to do, and who answers. -/
structure Invitation where
  size : Nat
  cmd : Nat
  md5 : List UInt8
  around : Surroundings
  /-- `client.connect` succeeds. -/
  accepts : Bool
  client : Client

/-- Up to the loop; `none` where `_runUpdate` returns before it. -/
def connect (inv : Invitation) (m : Machine) : Run :=
  let m := (setMD5 inv.md5 m).2
  if inv.accepts then ⟨m, inv.client, []⟩ else ⟨m, .refused, [.error .connect]⟩

/-- ArduinoOTA.cpp:255; without a result while the loop goes on. -/
def runUpdate (env : Env) (inv : Invitation) (fuel : Nat) (m : Machine) : Option Run :=
  let (ok, m) := begin env inv.size inv.cmd inv.around m
  if !ok then some ⟨m, .refused, [.error .begin]⟩
  else (Run.loop env fuel (connect inv m)).map (Run.finish env)

end Esp8266.Source.OtaUpdate
