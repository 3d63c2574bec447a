import Esp8266.Source.Updater

/-!
# ESP8266HTTPUpdate

`ESP8266HTTPUpdate::runUpdate` (libraries/ESP8266httpUpdate/src/ESP8266httpUpdate.cpp:454) on the
updater: what is done with the body of a response once its headers were accepted. The calls that
it makes of the updater are listed; the LED and the debug output are left out.
-/
set_option autoImplicit false

namespace Esp8266.Source.HttpOta
open Esp8266.Source.Esp Esp8266.Source.Updater Esp8266.Source.WString

/-- `HTTP_UE_SERVER_FAULTY_MD5`. -/
def serverFaultyMd5 : Int := -105

structure ESP8266HTTPUpdate where
  lastError : Int
  /-- `_cbProgress` is set. -/
  cbProgress : Bool
  /-- The global `Update`, and the board. -/
  machine : Machine

/-- The calls and what they return. -/
inductive Call where
  | begin (ok : Bool)
  | setMD5 (ok : Bool)
  | writeStream (written : Nat)
  | ended (ok : Bool)
deriving DecidableEq, Repr

namespace ESP8266HTTPUpdate

/-- `Update.onProgress(_cbProgress)`. -/
def onProgress (h : ESP8266HTTPUpdate) : ESP8266HTTPUpdate :=
  if h.cbProgress then
    { h with machine := { h.machine with
        updater := { h.machine.updater with progressCallback := true } } }
  else h

/-- `_cbProgress(done, total)`. -/
def progress (done total : Nat) (h : ESP8266HTTPUpdate) : ESP8266HTTPUpdate :=
  if h.cbProgress then
    { h with machine := { h.machine with board := h.machine.board.note (.progress done total) } }
  else h

/-- The error of the updater is kept, and printed to a string that is dropped. -/
def updateError (env : Env) (h : ESP8266HTTPUpdate) : ESP8266HTTPUpdate :=
  let lastError := h.machine.updater.error.code
  { h with lastError, machine := (printError env h.machine).2 }

/-- From the second progress call on. -/
def runEnd (env : Env) (size : Nat) (h : ESP8266HTTPUpdate) :
    List Call × Bool × ESP8266HTTPUpdate :=
  let h := h.progress size size
  let (ok, machine) := endUpdate env false h.machine
  let h := { h with machine }
  if !ok then ([.ended ok], false, h.updateError env) else ([.ended ok], true, h)

/-- From `writeStream` on. -/
def runWrite (env : Env) (input : Stream) (size : Nat) (h : ESP8266HTTPUpdate) :
    List Call × Bool × ESP8266HTTPUpdate :=
  let (written, machine) := writeStream env input h.machine
  let h := { h with machine }
  if written ≠ size then ([.writeStream written], false, h.updateError env)
  else
    let (calls, result) := h.runEnd env size
    (.writeStream written :: calls, result)

/-- From `setMD5` on. -/
def runMd5 (env : Env) (input : Stream) (size : Nat) (md5 : WString) (h : ESP8266HTTPUpdate) :
    List Call × Bool × ESP8266HTTPUpdate :=
  if md5.length ≠ 0 then
    let (ok, machine) := setMD5 (cstr md5) h.machine
    let h := { h with machine }
    if !ok then ([.setMD5 ok], false, { h with lastError := serverFaultyMd5 })
    else
      let (calls, result) := h.runWrite env input size
      (.setMD5 ok :: calls, result)
  else h.runWrite env input size

/-- ESP8266httpUpdate.cpp:454. -/
def runUpdate (env : Env) (input : Stream) (size : Nat) (md5 : WString) (command : Nat)
    (around : Surroundings) (h : ESP8266HTTPUpdate) : List Call × Bool × ESP8266HTTPUpdate :=
  let h := h.onProgress
  let (ok, machine) := begin env size command around h.machine
  let h := { h with machine }
  if !ok then ([.begin ok], false, h.updateError env)
  else
    let (calls, result) := (h.progress 0 size).runMd5 env input size md5
    (.begin ok :: calls, result)

end ESP8266HTTPUpdate

end Esp8266.Source.HttpOta
