import AeEventLoop.FileTable
import AeEventLoop.Resources

/-! `anet.c`: sockets that are created, configured, bound, connected and accepted, with an error text
left behind when something fails. The operating system is a parameter: it answers the `k`-th system
call as it likes, except that a descriptor it hands out is not open, nor is an address list it hands
out in use. Descriptors and address lists are accounted for, and `close` or `freeaddrinfo` of one
that is not in use is a misuse. -/

namespace AeEventLoop.Anet

open Resources

abbrev Text := List Char

def ANET_ERR_LEN : ℕ := 256

def AF_LOCAL : ℕ := 1
def AF_INET : ℕ := 2
def AF_INET6 : ℕ := 10
def AF_UNSPEC : ℕ := 0
def SOCK_STREAM : ℕ := 1

def EINTR : ℕ := 4
def EBADF : ℕ := 9
def EINPROGRESS : ℕ := 115

def O_NONBLOCK : Mask := 2048#32

def ANET_NONE : Mask := 0#32
def ANET_IP_ONLY : Mask := 1#32

def ANET_CONNECT_NONE : Mask := 0#32
def ANET_CONNECT_NONBLOCK : Mask := 1#32
def ANET_CONNECT_BE_BINDING : Mask := 2#32

structure AddrInfo where
  ai_family : ℕ
  ai_socktype : ℕ
  ai_protocol : ℕ
  ai_addr : Text

structure Hints where
  ai_family : ℕ
  passive : Bool
  numericHost : Bool

inductive SockOpt
  | SO_REUSEADDR
  | SO_KEEPALIVE
  | SO_SNDBUF
  | SO_SNDTIMEO
  | TCP_NODELAY
  | TCP_KEEPIDLE
  | TCP_KEEPINTVL
  | TCP_KEEPCNT
  | IPV6_V6ONLY

inductive Call
  | socket (family socktype protocol : ℕ)
  | setsockopt (fd : ℕ) (option : SockOpt) (value : List Int)
  | getfl (fd : ℕ)
  | setfl (fd : ℕ) (flags : Mask)
  | bind (fd : ℕ) (addr : Text)
  | connect (fd : ℕ) (addr : Text)
  | listen (fd : ℕ) (backlog : Int)
  | accept (fd : ℕ)

/-- The operating system and the library, by the number of calls made before. -/
structure Os where
  fails : ℕ → Call → Option ℕ
  flags : ℕ → ℕ → Mask
  getaddrinfo : ℕ → Option Text → Option Text → Hints → Except Int (AddrInfo × List AddrInfo)
  newFd : ℕ → Finset ℕ → ℕ
  newFd_closed : ∀ k fds, newFd k fds ∉ fds
  newInfo : ℕ → Finset ℕ → ℕ
  newInfo_free : ∀ k infos, newInfo k infos ∉ infos
  inet_ntop : AddrInfo → Text
  strerror : ℕ → Text
  gai_strerror : Int → Text

inductive Failure
  | call (c : Call) (errno : ℕ)
  | resolver (rv : Int)

/-- What the calls read and change; `err` is `none` for a null pointer. No function looks at
`failed`: it remembers the last call that failed, and its number. -/
structure Net where
  calls : ℕ
  fds : Account ℕ
  infos : Account ℕ
  errno : ℕ
  err : Option Text
  failed : Option (ℕ × Failure)

def Net.anetSetError (n : Net) (text : Text) : Net :=
  { n with err := n.err.map fun _ => text.take (ANET_ERR_LEN - 1) }

def Net.close (n : Net) (fd : ℕ) : Net :=
  { n with
    fds := n.fds.release fd
    errno := if fd ∈ n.fds.held then n.errno else EBADF }

def Net.freeaddrinfo (n : Net) (info : ℕ) : Net := { n with infos := n.infos.release info }

def Net.fail (n : Net) (c : Call) (errno : ℕ) : Net :=
  { n with calls := n.calls + 1, errno := errno, failed := some (n.calls, .call c errno) }

namespace Os

variable (os : Os)

/-- A call that answers 0, or -1 and sets `errno`. -/
def call (n : Net) (c : Call) : Bool × Net :=
  match os.fails n.calls c with
  | none => (true, { n with calls := n.calls + 1 })
  | some e => (false, n.fail c e)

def openFd (n : Net) (c : Call) : Option ℕ × Net :=
  match os.fails n.calls c with
  | none =>
      let s := os.newFd n.calls n.fds.held
      (some s, { n with calls := n.calls + 1, fds := n.fds.acquire s })
  | some e => (none, n.fail c e)

def resolve (n : Net) (host service : Option Text) (hints : Hints) :
    Except Int (ℕ × AddrInfo × List AddrInfo) × Net :=
  match os.getaddrinfo n.calls host service hints with
  | .error rv =>
      (.error rv, { n with calls := n.calls + 1, failed := some (n.calls, .resolver rv) })
  | .ok list =>
      let info := os.newInfo n.calls n.infos.held
      (.ok (info, list), { n with calls := n.calls + 1, infos := n.infos.acquire info })

/-- A call whose failure is reported with a text of its own. -/
def checked (n : Net) (c : Call) (text tail : String) : Bool × Net :=
  let r := os.call n c
  if r.1 then r
  else (false, r.2.anetSetError (text.toList ++ os.strerror r.2.errno ++ tail.toList))

def anetSetBlock (n : Net) (fd : ℕ) (non_block : Bool) : Bool × Net :=
  let flags := os.flags n.calls fd
  let r := os.checked n (.getfl fd) "fcntl(F_GETFL): " ""
  if r.1 then
    os.checked r.2 (.setfl fd (if non_block then flags ||| O_NONBLOCK else flags &&& ~~~O_NONBLOCK))
      "fcntl(F_SETFL,O_NONBLOCK): " ""
  else r

def anetNonBlock (n : Net) (fd : ℕ) : Bool × Net := os.anetSetBlock n fd true

def anetBlock (n : Net) (fd : ℕ) : Bool × Net := os.anetSetBlock n fd false

def anetKeepAlive (n : Net) (fd : ℕ) (interval : Int) : Bool × Net :=
  let r := os.checked n (.setsockopt fd .SO_KEEPALIVE [1]) "setsockopt SO_KEEPALIVE: " ""
  if r.1 then
    let r := os.checked r.2 (.setsockopt fd .TCP_KEEPIDLE [interval]) "setsockopt TCP_KEEPIDLE: " "\n"
    if r.1 then
      let val := if interval.tdiv 3 = 0 then 1 else interval.tdiv 3
      let r := os.checked r.2 (.setsockopt fd .TCP_KEEPINTVL [val]) "setsockopt TCP_KEEPINTVL: " "\n"
      if r.1 then
        os.checked r.2 (.setsockopt fd .TCP_KEEPCNT [3]) "setsockopt TCP_KEEPCNT: " "\n"
      else r
    else r
  else r

def anetSetTcpNoDelay (n : Net) (fd : ℕ) (val : Int) : Bool × Net :=
  os.checked n (.setsockopt fd .TCP_NODELAY [val]) "setsockopt TCP_NODELAY: " ""

def anetEnableTcpNoDelay (n : Net) (fd : ℕ) : Bool × Net := os.anetSetTcpNoDelay n fd 1

def anetDisableTcpNoDelay (n : Net) (fd : ℕ) : Bool × Net := os.anetSetTcpNoDelay n fd 0

def anetSetSendBuffer (n : Net) (fd : ℕ) (buffsize : Int) : Bool × Net :=
  os.checked n (.setsockopt fd .SO_SNDBUF [buffsize]) "setsockopt SO_SNDBUF: " ""

def anetTcpKeepAlive (n : Net) (fd : ℕ) : Bool × Net :=
  os.checked n (.setsockopt fd .SO_KEEPALIVE [1]) "setsockopt SO_KEEPALIVE: " ""

def anetSendTimeout (n : Net) (fd : ℕ) (ms : Int) : Bool × Net :=
  os.checked n (.setsockopt fd .SO_SNDTIMEO [ms.tdiv 1000, ms.tmod 1000 * 1000])
    "setsockopt SO_SNDTIMEO: " ""

def anetSetReuseAddr (n : Net) (fd : ℕ) : Bool × Net :=
  os.checked n (.setsockopt fd .SO_REUSEADDR [1]) "setsockopt SO_REUSEADDR: " ""

/-- `anetGenericResolve`, with the text left in `ipbuf`; an address that does not fit leaves it. -/
def anetGenericResolve (n : Net) (host ipbuf : Text) (ipbuf_len : ℕ) (flags : Mask) :
    Bool × Text × Net :=
  match os.resolve n host none ⟨AF_UNSPEC, false, flags &&& ANET_IP_ONLY ≠ 0⟩ with
  | (.error rv, n) => (false, ipbuf, n.anetSetError (os.gai_strerror rv))
  | (.ok (info, first, _), n) =>
      let ip := os.inet_ntop first
      (true, if ip.length < ipbuf_len then ip else ipbuf, n.freeaddrinfo info)

def anetResolve (n : Net) (host ipbuf : Text) (ipbuf_len : ℕ) : Bool × Text × Net :=
  os.anetGenericResolve n host ipbuf ipbuf_len ANET_NONE

def anetResolveIP (n : Net) (host ipbuf : Text) (ipbuf_len : ℕ) : Bool × Text × Net :=
  os.anetGenericResolve n host ipbuf ipbuf_len ANET_IP_ONLY

def anetCreateSocket (n : Net) (domain : ℕ) : Option ℕ × Net :=
  match os.openFd n (.socket domain SOCK_STREAM 0) with
  | (none, n) => (none, n.anetSetError ("creating socket: ".toList ++ os.strerror n.errno))
  | (some s, n) =>
      let r := os.anetSetReuseAddr n s
      if r.1 then (some s, r.2) else (none, r.2.close s)

/-- `snprintf(portstr, 6, "%d", port)`. -/
def portstr (port : Int) : Text := (toString port).toList.take 5

def bindFirst (n : Net) (s : ℕ) : List AddrInfo → Bool × Net
  | [] => (false, n)
  | b :: rest =>
      let r := os.call n (.bind s b.ai_addr)
      if r.1 then r else bindFirst r.2 s rest

def bindSource (n : Net) (s : ℕ) (source_addr : Text) : Bool × Net :=
  match os.resolve n source_addr none ⟨AF_UNSPEC, false, false⟩ with
  | (.error rv, n) => (false, n.anetSetError (os.gai_strerror rv))
  | (.ok (info, first, rest), n) =>
      let r := os.bindFirst n s (first :: rest)
      let n := r.2.freeaddrinfo info
      if r.1 then (true, n)
      else (false, n.anetSetError ("bind: ".toList ++ os.strerror n.errno))

end Os

inductive Attempt
  | next
  | error (s : ℕ)
  | done (s : ℕ)

namespace Os

variable (os : Os)

/-- The body of the loop of `anetTcpGenericConnect`. -/
def attempt (n : Net) (source_addr : Option Text) (flags : Mask) (p : AddrInfo) : Attempt × Net :=
  match os.openFd n (.socket p.ai_family p.ai_socktype p.ai_protocol) with
  | (none, n) => (.next, n)
  | (some s, n) =>
      let r := os.anetSetReuseAddr n s
      if r.1 then
        let r := if flags &&& ANET_CONNECT_NONBLOCK ≠ 0 then os.anetNonBlock r.2 s else r
        if r.1 then
          let r := source_addr.elim r (os.bindSource r.2 s)
          if r.1 then
            let r := os.call r.2 (.connect s p.ai_addr)
            if r.1 then (.done s, r.2)
            else if r.2.errno = EINPROGRESS ∧ flags &&& ANET_CONNECT_NONBLOCK ≠ 0 then (.done s, r.2)
            else (.next, r.2.close s)
          else (.error s, r.2)
        else (.error s, r.2)
      else (.error s, r.2)

def connectLoop (n : Net) (source_addr : Option Text) (flags : Mask) :
    List AddrInfo → Option ℕ × Net
  | [] => (none, n.anetSetError ("creating socket: ".toList ++ os.strerror n.errno))
  | p :: rest =>
      match os.attempt n source_addr flags p with
      | (.next, n) => connectLoop n source_addr flags rest
      | (.error s, n) => (none, n.close s)
      | (.done s, n) => (some s, n)

/-- `anetTcpGenericConnect` up to the test for another try; `none` if the name did not resolve. -/
def connectOnce (n : Net) (addr : Text) (port : Int) (source_addr : Option Text) (flags : Mask) :
    Option (Option ℕ) × Net :=
  match os.resolve n addr (portstr port) ⟨AF_UNSPEC, false, false⟩ with
  | (.error rv, n) => (none, n.anetSetError (os.gai_strerror rv))
  | (.ok (info, first, rest), n) =>
      let r := os.connectLoop n source_addr flags (first :: rest)
      (some r.1, r.2.freeaddrinfo info)

/-- The second try has no `source_addr`, so there is no third. -/
def anetTcpGenericConnect (n : Net) (addr : Text) (port : Int) (source_addr : Option Text)
    (flags : Mask) : Option ℕ × Net :=
  let r := os.connectOnce n addr port source_addr flags
  if r.1 = some none ∧ source_addr.isSome ∧ flags &&& ANET_CONNECT_BE_BINDING ≠ 0 then
    let r := os.connectOnce r.2 addr port none flags
    (r.1.join, r.2)
  else (r.1.join, r.2)

def anetTcpConnect (n : Net) (addr : Text) (port : Int) : Option ℕ × Net :=
  os.anetTcpGenericConnect n addr port none ANET_CONNECT_NONE

def anetTcpNonBlockConnect (n : Net) (addr : Text) (port : Int) : Option ℕ × Net :=
  os.anetTcpGenericConnect n addr port none ANET_CONNECT_NONBLOCK

def anetTcpNonBlockBindConnect (n : Net) (addr : Text) (port : Int) (source_addr : Text) :
    Option ℕ × Net :=
  os.anetTcpGenericConnect n addr port source_addr ANET_CONNECT_NONBLOCK

def anetTcpNonBlockBestEffortBindConnect (n : Net) (addr : Text) (port : Int)
    (source_addr : Text) : Option ℕ × Net :=
  os.anetTcpGenericConnect n addr port source_addr (ANET_CONNECT_NONBLOCK ||| ANET_CONNECT_BE_BINDING)

/-- The `sun_path` that `strncpy` leaves room for. -/
def sunPath (path : Text) : Text := path.take 107

def anetUnixGenericConnect (n : Net) (path : Text) (flags : Mask) : Option ℕ × Net :=
  match os.anetCreateSocket n AF_LOCAL with
  | (none, n) => (none, n)
  | (some s, n) =>
      let r := if flags &&& ANET_CONNECT_NONBLOCK ≠ 0 then os.anetNonBlock n s else (true, n)
      if r.1 then
        let r := os.call r.2 (.connect s (sunPath path))
        if r.1 then (some s, r.2)
        else if r.2.errno = EINPROGRESS ∧ flags &&& ANET_CONNECT_NONBLOCK ≠ 0 then (some s, r.2)
        else (none, (r.2.anetSetError ("connect: ".toList ++ os.strerror r.2.errno)).close s)
      else (none, r.2.close s)

def anetUnixConnect (n : Net) (path : Text) : Option ℕ × Net :=
  os.anetUnixGenericConnect n path ANET_CONNECT_NONE

def anetUnixNonBlockConnect (n : Net) (path : Text) : Option ℕ × Net :=
  os.anetUnixGenericConnect n path ANET_CONNECT_NONBLOCK

def anetListen (n : Net) (s : ℕ) (sa : Text) (backlog : Int) : Bool × Net :=
  let r := os.checked n (.bind s sa) "bind: " ""
  if r.1 then
    let r := os.checked r.2 (.listen s backlog) "listen: " ""
    if r.1 then r else (false, r.2.close s)
  else (false, r.2.close s)

def anetV6Only (n : Net) (s : ℕ) : Bool × Net :=
  let r := os.checked n (.setsockopt s .IPV6_V6ONLY [1]) "setsockopt: " ""
  if r.1 then r else (false, r.2.close s)

/-- The loop of `_anetTcpServer`. The label `error` closes the descriptor, also after `anetV6Only`,
which has closed it. -/
def serverLoop (n : Net) (af : ℕ) (backlog : Int) : List AddrInfo → Option ℕ × Net
  | [] =>
      (none, n.anetSetError ("unable to bind socket, errno: ".toList ++ (toString n.errno).toList))
  | p :: rest =>
      match os.openFd n (.socket p.ai_family p.ai_socktype p.ai_protocol) with
      | (none, n) => serverLoop n af backlog rest
      | (some s, n) =>
          let r := if af = AF_INET6 then os.anetV6Only n s else (true, n)
          if r.1 then
            let r := os.anetSetReuseAddr r.2 s
            if r.1 then
              let r := os.anetListen r.2 s p.ai_addr backlog
              (if r.1 then some s else none, r.2)
            else (none, r.2.close s)
          else (none, r.2.close s)

def _anetTcpServer (n : Net) (port : Int) (bindaddr : Option Text) (af : ℕ) (backlog : Int) :
    Option ℕ × Net :=
  match os.resolve n bindaddr (portstr port) ⟨af, true, false⟩ with
  | (.error rv, n) => (none, n.anetSetError (os.gai_strerror rv))
  | (.ok (info, first, rest), n) =>
      let r := os.serverLoop n af backlog (first :: rest)
      (r.1, r.2.freeaddrinfo info)

def anetTcpServer (n : Net) (port : Int) (bindaddr : Option Text) (backlog : Int) :
    Option ℕ × Net := os._anetTcpServer n port bindaddr AF_INET backlog

def anetTcp6Server (n : Net) (port : Int) (bindaddr : Option Text) (backlog : Int) :
    Option ℕ × Net := os._anetTcpServer n port bindaddr AF_INET6 backlog

/-- The `chmod` at the end has no effect here. -/
def anetUnixServer (n : Net) (path : Text) (backlog : Int) : Option ℕ × Net :=
  match os.anetCreateSocket n AF_LOCAL with
  | (none, n) => (none, n)
  | (some s, n) =>
      let r := os.anetListen n s (sunPath path) backlog
      (if r.1 then some s else none, r.2)

/-- The loop of `anetGenericAccept` ends only with a call that is not interrupted. -/
def anetGenericAccept (s : ℕ) : ℕ → Net → Option (Option ℕ × Net)
  | 0, _ => none
  | fuel + 1, n =>
      match os.openFd n (.accept s) with
      | (some fd, n) => some (some fd, n)
      | (none, n) =>
          if n.errno = EINTR then anetGenericAccept s fuel n
          else some (none, n.anetSetError ("accept: ".toList ++ os.strerror n.errno))

end Os

end AeEventLoop.Anet
