import AeEventLoop.CurlMulti
import AeEventLoop.Resources
import AeEventLoop.WhileLoop

/-! The HTTP side of `socket_action_ae.cpp`: transfers that are handed to libcurl, and what becomes of
their objects. Of libcurl the model has what `multi.c` keeps of an easy handle (whether it is in the
multi handle, whether its transfer is still running, whether a message about it waits); which
transfers move on in a call, and which timeout `update_timer` reports after it, is up to libcurl. A
timeout of 0 makes `multiTimerCallback` call libcurl again at once.

Allocations succeed. `fault` says that an assertion failed or that freed memory was touched. -/

namespace AeEventLoop.HttpClient

open Resources

abbrev Text := List Char

def CURL_SOCKET_TIMEOUT : Int := -1

def CURL_CSELECT_IN : Mask := 1#32
def CURL_CSELECT_OUT : Mask := 2#32

/-- What `curl_easy_setopt` was told. -/
structure Easy where
  TCP_KEEPALIVE : Option Int
  TCP_KEEPIDLE : Option Int
  TCP_KEEPINTVL : Option Int
  URL : Option Text
  TIMEOUT_MS : Option Int
  HTTPHEADER : Option ℕ
  WRITEDATA : Option ℕ
  PRIVATE : Option ℕ

def Easy.init : Easy := ⟨none, none, none, none, none, none, none, none⟩

structure CConnInfo where
  m_strUrl : Text
  m_i64TimeOut : Int
  s_mapCurl : Int → Option ℕ
  m_header : Option ℕ
  m_strResp : Text

def CConnInfo.GetCurlHandle (c : CConnInfo) : Option ℕ := c.s_mapCurl c.m_i64TimeOut

/-- What `multi.c` keeps: the handles added, those whose transfer is not completed and their number,
and those with a message that waits. -/
structure Curlm where
  easyp : List ℕ
  alive : Finset ℕ
  num_alive : Int
  msglist : List ℕ

/-- The line that `checkMultiInfo` logs, with the number of the transfer. -/
structure Report where
  no : ℕ
  url : Text
  resp : Text

/-- `number`, `asked` and `body` are kept for the statements alone: which transfer an easy handle is
for, the addresses asked for, and what libcurl has delivered for each transfer. -/
structure Http where
  calls : ℕ
  updates : ℕ
  conns : Account ℕ
  easies : Account ℕ
  slists : Account ℕ
  conn : ℕ → CConnInfo
  easy : ℕ → Easy
  slist : ℕ → List Text
  curlm : Curlm
  m_iRunning : Int
  timers : List Int
  log : List Report
  fault : Bool
  number : ℕ → ℕ
  asked : List Text
  body : ℕ → Text

inductive Progress
  | received (easy : ℕ) (buffer : Text)
  | completed (easy : ℕ)

/-- What is up to libcurl and to the allocator: by the number of calls made before, and the timeouts
by the number of those that were due before. -/
structure Libcurl where
  progress : ℕ → Int → Mask → List Progress
  timeout : ℕ → Option Int
  alloc : ℕ → Finset ℕ → ℕ
  alloc_new : ∀ k used, alloc k used ∉ used

def Http.assert (m : Http) (holds : Bool) : Http := { m with fault := m.fault || !holds }

def Http.follow (m : Http) (p : Option ℕ) : Http :=
  m.assert (p.any fun c => decide (c ∈ m.conns.held))

def easyWriteCallback (m : Http) (buffer : Text) (outstream : Option ℕ) : Http :=
  match outstream with
  | none => m.assert false
  | some c =>
      { m.follow (some c) with
        conn := Function.update m.conn c
          { m.conn c with m_strResp := (m.conn c).m_strResp ++ buffer } }

/-- The part of `multi_runsingle` that the program notices: data, and the end of a transfer. -/
def runsingle (m : Http) : Progress → Http
  | .received e buffer =>
      if e ∈ m.curlm.alive then
        let m := easyWriteCallback m buffer (m.easy e).WRITEDATA
        { m with body := Function.update m.body (m.number e) (m.body (m.number e) ++ buffer) }
      else m
  | .completed e =>
      if e ∈ m.curlm.alive then
        { m with
          curlm :=
            { m.curlm with
              alive := m.curlm.alive.erase e
              num_alive := m.curlm.num_alive - 1
              msglist := m.curlm.msglist ++ [e] } }
      else m

namespace Libcurl

variable (lib : Libcurl)

def multi_socket (m : Http) (s : Int) (ev_bitmask : Mask) : Http :=
  let m := (lib.progress m.calls s ev_bitmask).foldl runsingle { m with calls := m.calls + 1 }
  { m with m_iRunning := m.curlm.num_alive }

end Libcurl

def multiTimerCallback (evHttpTimerCb : Http → Option Http) (m : Http) (timeout_ms : Int) :
    Option Http :=
  if timeout_ms > 0 then some { m with timers := m.timers ++ [timeout_ms] }
  else if timeout_ms = 0 then evHttpTimerCb m
  else some m

namespace Libcurl

variable (lib : Libcurl)

def update_timer (timer_cb : Http → Int → Option Http) (m : Http) : Option Http :=
  match lib.timeout m.updates with
  | none => some { m with updates := m.updates + 1 }
  | some timeout_ms => timer_cb { m with updates := m.updates + 1 } timeout_ms

/-- The callback may call the function again. -/
def curl_multi_socket_action : ℕ → Http → Int → Mask → Option Http
  | 0, _, _, _ => none
  | fuel + 1, m, s, ev_bitmask =>
      lib.update_timer
        (multiTimerCallback fun m => curl_multi_socket_action fuel m CURL_SOCKET_TIMEOUT 0#32)
        (lib.multi_socket m s ev_bitmask)

def evHttpTimerCb (fuel : ℕ) (m : Http) : Option Http :=
  lib.curl_multi_socket_action fuel m CURL_SOCKET_TIMEOUT 0#32

def timer_cb (fuel : ℕ) : Http → Int → Option Http := multiTimerCallback (lib.evHttpTimerCb fuel)

/-- A handle that is in no multi handle is left alone. -/
def curl_multi_remove_handle (fuel : ℕ) (m : Http) (e : ℕ) : Option Http :=
  if e ∈ m.curlm.easyp then
    lib.update_timer (lib.timer_cb fuel)
      { m with
        curlm :=
          { easyp := m.curlm.easyp.erase e
            alive := m.curlm.alive.erase e
            num_alive := if e ∈ m.curlm.alive then m.curlm.num_alive - 1 else m.curlm.num_alive
            msglist := m.curlm.msglist.erase e } }
  else some m

/-- The result says whether the handle was added. -/
def curl_multi_add_handle (fuel : ℕ) (m : Http) (e : ℕ) : Option (Bool × Http) :=
  if e ∈ m.curlm.easyp then some (false, m)
  else
    (lib.update_timer (lib.timer_cb fuel)
      { m with
        curlm :=
          { m.curlm with
            easyp := m.curlm.easyp ++ [e]
            alive := insert e m.curlm.alive
            num_alive := m.curlm.num_alive + 1 } }).map fun m => (true, m)

/-- A handle that is still in the multi handle is removed first. -/
def curl_easy_cleanup (fuel : ℕ) (m : Http) (e : ℕ) : Option Http :=
  (lib.curl_multi_remove_handle fuel m e).map fun m => { m with easies := m.easies.release e }

/-- `delete pConnInfo`, with the destructor. -/
def deleteConnInfo (fuel : ℕ) (m : Http) (c : ℕ) : Option Http :=
  let m := m.follow (some c)
  let m := { m with slists := (m.conn c).m_header.elim m.slists m.slists.release }
  ((m.conn c).GetCurlHandle.elim (some m) (lib.curl_easy_cleanup fuel m)).map fun m =>
    { m with conns := m.conns.release c }

/-- The body of the loop of `checkMultiInfo`, for the message at the head of the queue. -/
def checkMessage (fuel : ℕ) (m : Http) : Option Http :=
  match m.curlm.msglist with
  | [] => some m
  | e :: rest =>
      let m := { m with curlm := { m.curlm with msglist := rest } }
      match (m.easy e).PRIVATE with
      | none => some (m.assert false)
      | some c =>
          let m := (m.follow (some c)).assert (some e == (m.conn c).GetCurlHandle)
          let m :=
            { m with log := m.log ++ [⟨m.number e, (m.conn c).m_strUrl, (m.conn c).m_strResp⟩] }
          (lib.curl_multi_remove_handle fuel m e).bind fun m => lib.deleteConnInfo fuel m c

def checkMultiInfo (fuel : ℕ) (m : Http) : Option Http :=
  WhileLoop.runNested (fun m => m.curlm.msglist.isEmpty) lib.checkMessage fuel m

def iEvBitMask (mask : Mask) : Mask :=
  (if mask &&& AE_READABLE ≠ 0 then CURL_CSELECT_IN else 0) |||
    (if mask &&& AE_WRITABLE ≠ 0 then CURL_CSELECT_OUT else 0)

def evSockCallback (fuel : ℕ) (m : Http) (fd : ℕ) (mask : Mask) : Option Http :=
  (lib.curl_multi_socket_action fuel m fd (iEvBitMask mask)).bind (lib.checkMultiInfo fuel)

def newConnInfo (m : Http) : ℕ × Http :=
  let c := lib.alloc m.calls m.conns.held
  (c, { m with
    calls := m.calls + 1
    conns := m.conns.acquire c
    conn := Function.update m.conn c ⟨[], 0, fun _ => none, none, []⟩ })

def curl_easy_init (m : Http) : ℕ × Http :=
  let e := lib.alloc m.calls m.easies.held
  (e, { m with
    calls := m.calls + 1
    easies := m.easies.acquire e
    easy := Function.update m.easy e Easy.init })

def curl_slist_append (m : Http) (text : Text) : ℕ × Http :=
  let h := lib.alloc m.calls m.slists.held
  (h, { m with
    calls := m.calls + 1
    slists := m.slists.acquire h
    slist := Function.update m.slist h [text] })

def hostHeader (m : Http) (strHost : Text) : Option ℕ × Http :=
  if strHost ≠ [] then
    let r := lib.curl_slist_append m ("Host: ".toList ++ strHost)
    (some r.1, r.2)
  else (none, m)

/-- The handle that the map has already, emptied, or a new one. -/
def handleFor (m : Http) (c : ℕ) : ℕ × Http :=
  match (m.conn c).GetCurlHandle with
  | none => lib.curl_easy_init m
  | some e => (e, { m with easy := Function.update m.easy e Easy.init })

def addHttpCondi (fuel : ℕ) (m : Http) (strUrl strHost : Text) (i64TimeOutMs : Int) :
    Option (Int × Http) :=
  let new := lib.newConnInfo m
  let c := new.1
  let m := new.2
  let m := { m with
    conn := Function.update m.conn c { m.conn c with m_i64TimeOut := i64TimeOutMs } }
  let got := lib.handleFor m c
  let e := got.1
  let m := got.2
  let header := lib.hostHeader m strHost
  let m := header.2
  let m := { m with
    conn := Function.update m.conn c
      { m.conn c with
        s_mapCurl := Function.update (m.conn c).s_mapCurl i64TimeOutMs (some e)
        m_header := header.1
        m_strUrl := strUrl }
    easy := Function.update m.easy e
      { m.easy e with
        TCP_KEEPALIVE := some 1
        TCP_KEEPIDLE := some 120
        TCP_KEEPINTVL := some 30
        URL := some strUrl
        TIMEOUT_MS := if i64TimeOutMs > 0 then some i64TimeOutMs else (m.easy e).TIMEOUT_MS
        HTTPHEADER := if strHost ≠ [] then header.1 else (m.easy e).HTTPHEADER
        WRITEDATA := some c
        PRIVATE := some c }
    number := Function.update m.number e m.asked.length
    asked := m.asked ++ [strUrl] }
  (lib.curl_multi_add_handle fuel m e).map fun r => (if r.1 then 0 else -1, r.2)

end Libcurl

end AeEventLoop.HttpClient
