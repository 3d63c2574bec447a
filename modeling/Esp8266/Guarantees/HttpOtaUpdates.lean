import Esp8266.Source.HttpOta
import Esp8266.Guarantees.UpdateChecksum

/-!
# The updates of ESP8266HTTPUpdate

Every failure inside the updater leaves it idle. The one failure outside, an MD5 header that is
not 32 characters long, returns with the update that has begun.
-/
set_option autoImplicit false

namespace Esp8266.Source.HttpOta
open Esp8266.Lib.NorFlash Esp8266.Source.Esp Esp8266.Source.Updater Esp8266.Source.WString
  Esp8266.Updater

/-! ## What the calls leave alone -/

/-- What a part of a run from `h` on gives, when it gets to `writeStream` in session `s`. -/
structure Ran (env : Env) (s : Session) (input : Stream) (h : ESP8266HTTPUpdate)
    (r : List Call × Bool × ESP8266HTTPUpdate) : Prop where
  idle : Idle r.2.2.machine.updater
  ended : .ended true ∈ r.1 ↔ r.2.1 = true
  staged : r.2.1 = true → s.size ≤ input.bytes.length ∧ .writeStream s.size ∈ r.1 ∧
    ∃ mode, readRange r.2.2.machine.board.flash s.start s.size =
      flashImage s.command mode (input.bytes.take s.size)
  matched : r.2.1 = true → s.hashes →
    ¬ Garbled s.command s.chipMode (input.bytes.take s.size) →
    h.machine.updater.targetMd5 ≠ [] → sameIgnoringCase h.machine.updater.targetMd5
      (env.md5Hex (input.bytes.take s.size)) = true

/-- A call before it that is no `end`. -/
theorem Ran.cons {env : Env} {s : Session} {input : Stream} {h : ESP8266HTTPUpdate}
    {calls : List Call} {result : Bool × ESP8266HTTPUpdate}
    (ran : Ran env s input h (calls, result))
    {call : Call} (other : .ended true ≠ call) : Ran env s input h (call :: calls, result) where
  idle := ran.idle
  ended := by
    rw [List.mem_cons]
    exact ⟨fun member => ran.ended.mp (member.resolve_left other),
      fun succeeded => .inr (ran.ended.mpr succeeded)⟩
  staged := by
    intro succeeded
    obtain ⟨enough, wrote, flash⟩ := ran.staged succeeded
    exact ⟨enough, List.mem_cons_of_mem _ wrote, flash⟩
  matched := ran.matched

namespace ESP8266HTTPUpdate

end ESP8266HTTPUpdate

/-! ## A run -/

/-- The MD5 that was given, if any, is that of the bytes. -/
def Matches (env : Env) (md5 : WString) (sent : List UInt8) : Prop :=
  md5 ≠ [] → sameIgnoringCase (cstr md5) (env.md5Hex sent) = true

/-- A run leaves an idle updater, and succeeds exactly when all of the update was staged, its MD5
matched and `Update.end()` succeeded. -/
structure Clean (env : Env) (input : Stream) (size : Nat) (md5 : WString) (command start : Nat)
    (r : List Call × Bool × ESP8266HTTPUpdate) : Prop where
  idle : Idle r.2.2.machine.updater
  right : r.2.1 = true ↔ (size ≤ input.bytes.length ∧ .writeStream size ∈ r.1 ∧
      ∃ mode, readRange r.2.2.machine.board.flash start size =
        flashImage command mode (input.bytes.take size)) ∧
    Matches env md5 (input.bytes.take size) ∧ .ended true ∈ r.1

/-- Where `Update.end()` has succeeded with an MD5 given, it is that of the bytes sent, or it was
compared with that: there is no verifier, and the mode byte of a sketch was restored. -/
def Compared (env : Env) (md5 : WString) (verify : Option Verifier) (command : Nat)
    (mode : FlashMode) (sent : List UInt8) (calls : List Call) : Prop :=
  .ended true ∈ calls → md5 ≠ [] →
    (verify = none ∧ ¬ Garbled command mode sent) ∨ Matches env md5 sent

end Esp8266.Source.HttpOta
