import Esp8266.Source.Base64

/-!
# HTTPClient

libraries/ESP8266HTTPClient/src/ESP8266HTTPClient.cpp: the URL, the header lines and the fields
that requests share.
-/
set_option autoImplicit false

namespace Esp8266.Source.HttpClient
open Esp8266.Source.WString

inductive TransferEncoding where
  | identity
  | chunked
  deriving DecidableEq

inductive FollowRedirects where
  | disable
  | strict
  | force
  deriving DecidableEq

structure HTTPClient where
  host : WString := []
  port : UInt16 := 0
  reuse : Bool := true
  useHTTP10 : Bool := false
  uri : WString := []
  protocol : WString := []
  headers : WString := []
  userAgent : WString := ofString "ESP8266HTTPClient"
  base64Authorization : WString := []
  /-- `_currentHeaders`: the keys that are collected, with their values. -/
  currentHeaders : List (WString × WString) := []
  returnCode : Int := 0
  size : Int := -1
  canReuse : Bool := false
  followRedirects : FollowRedirects := .disable
  redirectLimit : UInt16 := 10
  location : WString := []
  transferEncoding : TransferEncoding := .identity
  payload : Option WString := none
  deriving DecidableEq

namespace HTTPClient

def clear (h : HTTPClient) : HTTPClient :=
  { h with returnCode := 0, size := -1, headers := [], location := [], payload := none }

/-- The port of a part `hostname ':' port`, and the hostname; the part without a colon is all
hostname. -/
def getPort (h : HTTPClient) (host : WString) : HTTPClient :=
  let index := host.indexOf 0x3a 0
  if 0 ≤ index then
    let h := { h with host := host.substring 0 (host.rightEnd index) }
    let host := host.remove 0 (host.rightEnd (index + 1))
    { h with port := UInt16.ofInt host.toInt }
  else { h with host }

/-- The part of the URL up to the first slash, with the user information. -/
def getAuthorization (h : HTTPClient) (host : WString) : HTTPClient × WString :=
  let index := host.indexOf 0x40 0
  if 0 ≤ index then
    let auth := host.substring 0 (host.rightEnd index)
    let host := host.remove 0 (host.rightEnd (index + 1))
    ({ h with base64Authorization := (Base64.encode auth false true).base64 }, host)
  else (h, host)

/-- `beginInternal` from where the scheme is removed and the default port is set. -/
def beginHost (h : HTTPClient) (url : WString) (expectedProtocol : Option WString) :
    HTTPClient × Bool :=
  let index := url.indexOf 0x2f 0
  let host := url.substring 0 (url.rightEnd index)
  let url := url.remove 0 (url.rightEnd index)
  let (h, host) := h.getAuthorization host
  let h := h.getPort host
  let h := { h with uri := url }
  (h, !expectedProtocol.any fun expected => !h.protocol.equalsText expected)

/-- ESP8266HTTPClient.cpp:284; `expectedProtocol` is a text of C or null. -/
def beginInternal (h : HTTPClient) (url : WString) (expectedProtocol : Option WString) :
    HTTPClient × Bool :=
  let h := h.clear
  let index := url.indexOf 0x3a 0
  if index < 0 then (h, false)
  else
    let h := { h with protocol := url.substring 0 (url.rightEnd index) }
    let url := url.remove 0 (url.rightEnd (index + 3))
    if h.protocol.equalsText (ofString "http") then
      { h with port := 80 }.beginHost url expectedProtocol
    else if h.protocol.equalsText (ofString "https") then
      { h with port := 443 }.beginHost url expectedProtocol
    else (h, false)

/-- ESP8266HTTPClient.cpp:1119. -/
def addHeader (h : HTTPClient) (name value : WString) (first replace : Bool) : HTTPClient :=
  if !name.equalsIgnoreCase (ofString "Connection") &&
      !name.equalsIgnoreCase (ofString "User-Agent") &&
      !name.equalsIgnoreCase (ofString "Host") &&
      !(name.equalsIgnoreCase (ofString "Authorization") &&
        decide (h.base64Authorization.length ≠ 0)) then
    let headerLine := name ++ [0x3a, 0x20]
    let headers :=
      if replace then
        let headerStart := h.headers.indexOfString headerLine 0
        if headerStart ≠ -1 then
          let headerEnd := h.headers.indexOf 0x0a headerStart.toNat
          h.headers.substring 0 (h.headers.rightEnd headerStart) ++
            h.headers.substring (headerEnd + 1).toNat h.headers.length
        else h.headers
      else h.headers
    let headerLine := headerLine ++ value ++ [0x0d, 0x0a]
    { h with headers := if first then headerLine ++ headers else headers ++ headerLine }
  else h

end HTTPClient
end Esp8266.Source.HttpClient
