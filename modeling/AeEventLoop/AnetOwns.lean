import AeEventLoop.Anet
import AeEventLoop.WhileLoop
import Mathlib.Data.Finset.Option

/-! What the functions of `anet.c` leave behind, whatever the operating system answers. The
descriptor that a function returns is the only one it leaves open, and it leaves no address list; a
function that fails leaves its own text about the last call that failed. One function breaks this:
when `IPV6_V6ONLY` cannot be set, `_anetTcpServer` closes its descriptor twice, and `errno` is then
that of the second `close`. -/

namespace AeEventLoop.Anet

open Resources

/-- The functions that answer a descriptor, and those that take one or a name. -/
inductive Caller
  | tcpConnect
  | unixConnect
  | tcpServer
  | unixServer
  | accept
  | other
deriving DecidableEq

/-- What stands before and after `strerror(errno)` when an option cannot be set. -/
def SockOpt.text : SockOpt → String × String
  | SO_REUSEADDR => ("setsockopt SO_REUSEADDR: ", "")
  | SO_KEEPALIVE => ("setsockopt SO_KEEPALIVE: ", "")
  | SO_SNDBUF => ("setsockopt SO_SNDBUF: ", "")
  | SO_SNDTIMEO => ("setsockopt SO_SNDTIMEO: ", "")
  | TCP_NODELAY => ("setsockopt TCP_NODELAY: ", "")
  | TCP_KEEPIDLE => ("setsockopt TCP_KEEPIDLE: ", "\n")
  | TCP_KEEPINTVL => ("setsockopt TCP_KEEPINTVL: ", "\n")
  | TCP_KEEPCNT => ("setsockopt TCP_KEEPCNT: ", "\n")
  | IPV6_V6ONLY => ("setsockopt: ", "")

/-- The text of a function whose last failing call was this. A connect over addresses reports only
at the end of its loop. -/
def Call.errorText (os : Os) (caller : Caller) (errno : ℕ) : Call → Text
  | socket _ _ _ =>
      if caller = .tcpServer then
        "unable to bind socket, errno: ".toList ++ (toString errno).toList
      else "creating socket: ".toList ++ os.strerror errno
  | connect _ _ =>
      (if caller = .unixConnect then "connect: " else "creating socket: ").toList ++
        os.strerror errno
  | setsockopt _ option _ => option.text.1.toList ++ os.strerror errno ++ option.text.2.toList
  | getfl _ => "fcntl(F_GETFL): ".toList ++ os.strerror errno
  | setfl _ _ => "fcntl(F_SETFL,O_NONBLOCK): ".toList ++ os.strerror errno
  | bind _ _ => "bind: ".toList ++ os.strerror errno
  | listen _ _ => "listen: ".toList ++ os.strerror errno
  | accept _ => "accept: ".toList ++ os.strerror errno

theorem errorText_server (os : Os) {caller : Caller} (server : caller = .tcpServer)
    (errno family socktype protocol : ℕ) :
    (Call.socket family socktype protocol).errorText os caller errno =
      "unable to bind socket, errno: ".toList ++ (toString errno).toList := if_pos server

theorem errorText_socket (os : Os) {caller : Caller} (other : caller ≠ .tcpServer)
    (errno family socktype protocol : ℕ) :
    (Call.socket family socktype protocol).errorText os caller errno =
      "creating socket: ".toList ++ os.strerror errno := if_neg other

namespace Failure

def errorText (os : Os) (caller : Caller) : Failure → Text
  | call c errno => c.errorText os caller errno
  | resolver rv => os.gai_strerror rv

def Answered (os : Os) (k : ℕ) : Failure → Prop
  | call c errno => os.fails k c = some errno
  | resolver rv => ∃ host service hints, os.getaddrinfo k host service hints = .error rv

end Failure

/-- `f` is the last call that failed, and not one before number `since`. -/
def LastFailed (os : Os) (since : ℕ) (n : Net) (f : Failure) : Prop :=
  ∃ k, since ≤ k ∧ n.failed = some (k, f) ∧ f.Answered os k

/-- And `errno` is what it set. -/
structure Pending (os : Os) (since : ℕ) (n : Net) (f : Failure) : Prop where
  last : LastFailed os since n f
  errno : ∀ c e, f = .call c e → n.errno = e

/-- The error buffer, if there is one, holds the function's text about `f`, cut to size. -/
def Tells (os : Os) (caller : Caller) (n : Net) (f : Failure) : Prop :=
  ∀ t, n.err = some t → t = (f.errorText os caller).take (ANET_ERR_LEN - 1)

def Explained (os : Os) (caller : Caller) (since : ℕ) (n : Net) : Prop :=
  ∃ f, Pending os since n f ∧ Tells os caller n f

/-- A call on a descriptor: nothing is opened or closed, and a failure is explained. -/
structure Checked (os : Os) (caller : Caller) (since : ℕ) (n : Net) (r : Bool × Net) : Prop where
  fds : r.2.fds = n.fds
  infos : r.2.infos = n.infos
  calls : since ≤ r.2.calls
  explained : r.1 = false → Explained os caller since r.2

/-- A function that answers a descriptor gains only that, and a failure is explained. -/
structure Delivered (os : Os) (caller : Caller) (since : ℕ) (n : Net) (r : Option ℕ × Net) :
    Prop where
  fds : Gained n.fds r.2.fds r.1.toFinset
  infos : r.2.infos = n.infos
  calls : since ≤ r.2.calls
  explained : r.1 = none → Explained os caller since r.2

section Basic

variable {os : Os} {caller : Caller} {since : ℕ} {n m : Net} {f : Failure}

@[simp] theorem call_fds (os : Os) (n : Net) (c : Call) : (os.call n c).2.fds = n.fds := by
  unfold Os.call
  split <;> rfl

@[simp] theorem call_infos (os : Os) (n : Net) (c : Call) : (os.call n c).2.infos = n.infos := by
  unfold Os.call
  split <;> rfl

theorem call_calls (os : Os) (n : Net) (c : Call) : (os.call n c).2.calls = n.calls + 1 := by
  unfold Os.call
  split <;> rfl

theorem Pending.frame (pending : Pending os since n f) (failed : m.failed = n.failed)
    (errno : m.errno = n.errno) : Pending os since m f := by
  obtain ⟨k, le, last, answered⟩ := pending.last
  exact ⟨⟨k, le, failed.trans last, answered⟩, fun c e eq => errno.trans (pending.errno c e eq)⟩

theorem Pending.fail {c : Call} {e : ℕ} (answered : os.fails n.calls c = some e)
    (le : since ≤ n.calls) : Pending os since (n.fail c e) (.call c e) :=
  ⟨⟨n.calls, le, rfl, answered⟩, fun _ _ eq => (Failure.call.inj eq).2⟩

/-- The text is written while `errno` is still that of the failure. -/
theorem Pending.set (pending : Pending os since n f) {text : Text}
    (eq : text = f.errorText os caller) : Explained os caller since (n.anetSetError text) := by
  refine ⟨f, pending.frame rfl rfl, fun t here => ?_⟩
  obtain ⟨-, -, rfl⟩ := Option.map_eq_some_iff.mp here
  rw [eq]

theorem Pending.close (pending : Pending os since n f) {fd : ℕ} (open' : fd ∈ n.fds.held) :
    Pending os since (n.close fd) f :=
  pending.frame rfl (if_pos open')

theorem Explained.close (explained : Explained os caller since n) {fd : ℕ}
    (open' : fd ∈ n.fds.held) : Explained os caller since (n.close fd) := by
  obtain ⟨f, pending, tells⟩ := explained
  exact ⟨f, pending.close open', tells⟩

theorem Explained.free (explained : Explained os caller since n) (info : ℕ) :
    Explained os caller since (n.freeaddrinfo info) := by
  obtain ⟨f, pending, tells⟩ := explained
  exact ⟨f, pending.frame rfl rfl, tells⟩

theorem call_pending (os : Os) {c : Call} (le : since ≤ n.calls)
    (failed : (os.call n c).1 = false) :
    Pending os since (os.call n c).2 (.call c (os.call n c).2.errno) := by
  cases answered : os.fails n.calls c with
  | none => simp [Os.call, answered] at failed
  | some e =>
      have eq : os.call n c = (false, n.fail c e) := by simp only [Os.call, answered]
      rw [eq]
      exact .fail answered le

theorem checked_spec {c : Call} {text tail : String} (le : since ≤ n.calls)
    (known : ∀ e, text.toList ++ os.strerror e ++ tail.toList = c.errorText os caller e) :
    Checked os caller since n (os.checked n c text tail) := by
  have calls : since ≤ (os.call n c).2.calls := by
    rw [call_calls]
    omega
  unfold Os.checked
  dsimp only
  split_ifs with done
  · exact ⟨call_fds os n c, call_infos os n c, calls,
      fun failed => absurd (failed.symm.trans done) (by decide)⟩
  · exact ⟨call_fds os n c, call_infos os n c, calls,
      fun _ => (call_pending os le (by simpa using done)).set (known _)⟩

/-- `if (... == ANET_ERR) return ANET_ERR;` between two of them. -/
theorem Checked.seq {r q : Bool × Net} (first : Checked os caller since n r)
    (next : since ≤ r.2.calls → Checked os caller since r.2 q) :
    Checked os caller since n (if r.1 then q else r) := by
  have second := next first.calls
  split_ifs
  · exact ⟨second.fds.trans first.fds, second.infos.trans first.infos, second.calls,
      second.explained⟩
  · exact first

theorem Checked.skip (le : since ≤ n.calls) : Checked os caller since n (true, n) :=
  ⟨rfl, rfl, le, fun failed => by cases failed⟩

theorem anetSetBlock_checked (le : since ≤ n.calls) (fd : ℕ) (non_block : Bool) :
    Checked os caller since n (os.anetSetBlock n fd non_block) :=
  (checked_spec le fun _ => List.append_nil _).seq fun le =>
    checked_spec le fun _ => List.append_nil _

theorem anetKeepAlive_checked (le : since ≤ n.calls) (fd : ℕ) (interval : Int) :
    Checked os caller since n (os.anetKeepAlive n fd interval) :=
  (checked_spec le fun _ => rfl).seq fun le => (checked_spec le fun _ => rfl).seq fun le =>
    (checked_spec le fun _ => rfl).seq fun le => checked_spec le fun _ => rfl

theorem anetSetReuseAddr_checked (le : since ≤ n.calls) (fd : ℕ) :
    Checked os caller since n (os.anetSetReuseAddr n fd) := checked_spec le fun _ => rfl

theorem openFd_some {c : Call} {s : ℕ} (h : os.openFd n c = (some s, m)) :
    Gained n.fds m.fds {s} ∧ m.infos = n.infos ∧ m.calls = n.calls + 1 := by
  unfold Os.openFd at h
  split at h
  · obtain ⟨eq, rfl⟩ := Prod.mk.inj h
    obtain rfl := Option.some.inj eq
    exact ⟨(Gained.nothing n.fds).acquire_nothing (os.newFd_closed n.calls n.fds.held), rfl, rfl⟩
  · cases h

theorem openFd_none {c : Call} (le : since ≤ n.calls) (h : os.openFd n c = (none, m)) :
    m.fds = n.fds ∧ m.infos = n.infos ∧ since ≤ m.calls ∧
      Pending os since m (.call c m.errno) := by
  unfold Os.openFd at h
  split at h
  · cases h
  · rename_i e answered
    obtain ⟨-, rfl⟩ := Prod.mk.inj h
    exact ⟨rfl, rfl, Nat.le_succ_of_le le, .fail answered le⟩

end Basic

section Sockets

variable {os : Os} {caller : Caller} {since : ℕ} {n m : Net} {s : ℕ}

theorem Delivered.closed (gained : Gained n.fds m.fds {s}) (infos : m.infos = n.infos)
    (calls : since ≤ m.calls) (explained : Explained os caller since m) :
    Delivered os caller since n (none, m.close s) :=
  ⟨gained.release_singleton, infos, calls,
    fun _ => explained.close (gained.mem (Finset.mem_singleton_self s))⟩

theorem Delivered.some (gained : Gained n.fds m.fds {s}) (infos : m.infos = n.infos)
    (calls : since ≤ m.calls) : Delivered os caller since n (some s, m) :=
  ⟨by simpa using gained, infos, calls, fun failed => absurd failed (Option.some_ne_none s)⟩

theorem anetCreateSocket_delivered (le : since ≤ n.calls) (other : caller ≠ .tcpServer)
    (domain : ℕ) : Delivered os caller since n (os.anetCreateSocket n domain) := by
  unfold Os.anetCreateSocket
  rcases opened : os.openFd n (.socket domain SOCK_STREAM 0) with ⟨_ | s, m⟩
  · obtain ⟨fds, infos, calls, pending⟩ := openFd_none le opened
    have nothing : Gained n.fds m.fds ∅ := fds ▸ Gained.nothing n.fds
    exact ⟨nothing, infos, calls, fun _ =>
      pending.set (errorText_socket os other m.errno domain SOCK_STREAM 0).symm⟩
  · obtain ⟨gained, infos, calls⟩ := openFd_some opened
    have reuse : Checked os caller since m (os.anetSetReuseAddr m s) :=
      anetSetReuseAddr_checked (by omega) s
    dsimp only
    split_ifs with done
    · exact .some (reuse.fds ▸ gained) (reuse.infos.trans infos) reuse.calls
    · exact .closed (reuse.fds ▸ gained) (reuse.infos.trans infos) reuse.calls
        (reuse.explained (by simpa using done))

theorem resolve_ok {host service : Option Text} {hints : Hints} {info : ℕ}
    {list : AddrInfo × List AddrInfo} (h : os.resolve n host service hints = (.ok (info, list), m)) :
    m.fds = n.fds ∧ Gained n.infos m.infos {info} ∧ m.calls = n.calls + 1 := by
  unfold Os.resolve at h
  split at h
  · cases h
  · simp only [Prod.mk.injEq, Except.ok.injEq] at h
    obtain ⟨⟨rfl, -⟩, rfl⟩ := h
    exact ⟨rfl, (Gained.nothing n.infos).acquire_nothing (os.newInfo_free _ _), rfl⟩

theorem resolve_error {host service : Option Text} {hints : Hints} {rv : Int}
    (le : since ≤ n.calls) (h : os.resolve n host service hints = (.error rv, m)) :
    m.fds = n.fds ∧ m.infos = n.infos ∧ since ≤ m.calls ∧
      Explained os caller since (m.anetSetError (os.gai_strerror rv)) := by
  unfold Os.resolve at h
  split at h
  · rename_i rv' answered
    obtain ⟨eq, rfl⟩ := Prod.mk.inj h
    obtain rfl := Except.error.inj eq
    have pending : Pending os since
        { n with calls := n.calls + 1, failed := some (n.calls, .resolver rv') } (.resolver rv') :=
      ⟨⟨n.calls, le, rfl, host, service, hints, answered⟩, fun _ _ eq => by cases eq⟩
    exact ⟨rfl, rfl, Nat.le_succ_of_le le, pending.set rfl⟩
  · cases h

def Awaits (os : Os) (caller : Caller) (since : ℕ) (n : Net) (text : Text) : Prop :=
  ∃ f, Pending os since n f ∧ text = f.errorText os caller

theorem Awaits.set {text : Text} (awaits : Awaits os caller since n text) :
    Explained os caller since (n.anetSetError text) := by
  obtain ⟨f, pending, eq⟩ := awaits
  exact pending.set eq

theorem bindFirst_frame (list : List AddrInfo) (le : since ≤ n.calls)
    (none : list = [] → Awaits os caller since n ("bind: ".toList ++ os.strerror n.errno)) :
    let r := os.bindFirst n s list
    r.2.fds = n.fds ∧ r.2.infos = n.infos ∧ since ≤ r.2.calls ∧
      (r.1 = false → Awaits os caller since r.2 ("bind: ".toList ++ os.strerror r.2.errno)) := by
  induction list generalizing n with
  | nil => exact ⟨rfl, rfl, le, fun _ => none rfl⟩
  | cons b rest ih =>
      have calls : since ≤ (os.call n (.bind s b.ai_addr)).2.calls := by
        rw [call_calls]
        omega
      unfold Os.bindFirst
      dsimp only
      split_ifs with done
      · exact ⟨call_fds os n _, call_infos os n _, calls,
          fun failed => absurd (done.symm.trans failed) (by decide)⟩
      · have pending := call_pending os le (by simpa using done)
        obtain ⟨fds, infos, later, awaits⟩ := ih calls fun _ => ⟨_, pending, rfl⟩
        exact ⟨fds.trans (call_fds os n _), infos.trans (call_infos os n _), later, awaits⟩

theorem bindSource_checked (le : since ≤ n.calls) (s : ℕ) (source_addr : Text) :
    Checked os caller since n (os.bindSource n s source_addr) := by
  unfold Os.bindSource
  rcases resolved : os.resolve n source_addr none ⟨AF_UNSPEC, false, false⟩ with
    ⟨rv | ⟨info, first, rest⟩, m⟩
  · obtain ⟨fds, infos, calls, explained⟩ := resolve_error le resolved
    exact ⟨fds, infos, calls, fun _ => explained⟩
  · obtain ⟨fds, gained, calls⟩ := resolve_ok resolved
    have le : since ≤ m.calls := by omega
    have list : first :: rest = [] → Awaits os caller since m
      ("bind: ".toList ++ os.strerror m.errno) := fun nil => by cases nil
    obtain ⟨fds', infos', calls', awaits⟩ := bindFirst_frame (first :: rest) le list
    have infos : (os.bindFirst m s (first :: rest)).2.infos.release info = n.infos := by
      rw [infos']
      exact gained.release_eq
    dsimp only
    split_ifs with bound
    · exact ⟨fds'.trans fds, infos, calls', fun failed => by cases failed⟩
    · obtain ⟨f, pending, eq⟩ := awaits (by simpa using bound)
      have freed : Pending os since ((os.bindFirst m s (first :: rest)).2.freeaddrinfo info) f :=
        pending.frame rfl rfl
      exact ⟨fds'.trans fds, infos, calls', fun _ => freed.set eq⟩

end Sockets

section Connect

variable {os : Os} {caller : Caller} {since : ℕ} {n m : Net} {s : ℕ}

inductive Attempted (os : Os) (since : ℕ) (n : Net) : Attempt × Net → Prop
  | next {m : Net} : m.fds = n.fds → m.infos = n.infos → since ≤ m.calls →
      Awaits os .tcpConnect since m ("creating socket: ".toList ++ os.strerror m.errno) →
      Attempted os since n (.next, m)
  | error {m : Net} {s : ℕ} : Gained n.fds m.fds {s} → m.infos = n.infos → since ≤ m.calls →
      Explained os .tcpConnect since m → Attempted os since n (.error s, m)
  | done {m : Net} {s : ℕ} : Gained n.fds m.fds {s} → m.infos = n.infos → since ≤ m.calls →
      Attempted os since n (.done s, m)

theorem Checked.kept {r : Bool × Net} (checked : Checked os caller since m r)
    (gained : Gained n.fds m.fds {s}) (infos : m.infos = n.infos) :
    Gained n.fds r.2.fds {s} ∧ r.2.infos = n.infos :=
  ⟨checked.fds ▸ gained, checked.infos.trans infos⟩

theorem Checked.none {r : Bool × Net} (checked : Checked os .tcpConnect since m r)
    (gained : Gained n.fds m.fds {s}) (infos : m.infos = n.infos) (failed : ¬ r.1 = true) :
    Attempted os since n (.error s, r.2) :=
  .error (checked.kept gained infos).1 (checked.kept gained infos).2 checked.calls
    (checked.explained (by simpa using failed))

theorem attempt_attempted (os : Os) (le : since ≤ n.calls) (source_addr : Option Text) (flags : Mask)
    (p : AddrInfo) : Attempted os since n (os.attempt n source_addr flags p) := by
  unfold Os.attempt
  rcases opened : os.openFd n (.socket p.ai_family p.ai_socktype p.ai_protocol) with ⟨_ | s, m⟩
  · obtain ⟨fds, infos, calls, pending⟩ := openFd_none le opened
    have other : Caller.tcpConnect ≠ .tcpServer := by decide
    exact .next fds infos calls ⟨_, pending, (errorText_socket os other m.errno p.ai_family
      p.ai_socktype p.ai_protocol).symm⟩
  · obtain ⟨gained, infos, calls⟩ := openFd_some opened
    have reuse : Checked os .tcpConnect since m (os.anetSetReuseAddr m s) :=
      anetSetReuseAddr_checked (by omega) s
    dsimp only
    generalize os.anetSetReuseAddr m s = r at reuse
    by_cases ok : r.1 = true
    · rw [if_pos ok]
      obtain ⟨gained, infos⟩ := reuse.kept gained infos
      have nonblock : Checked os .tcpConnect since r.2
          (if flags &&& ANET_CONNECT_NONBLOCK ≠ 0 then os.anetNonBlock r.2 s else r) := by
        split_ifs
        · exact anetSetBlock_checked reuse.calls s true
        · exact ⟨rfl, rfl, reuse.calls, reuse.explained⟩
      generalize (if flags &&& ANET_CONNECT_NONBLOCK ≠ 0 then os.anetNonBlock r.2 s else r) = r
        at nonblock
      by_cases ok : r.1 = true
      · rw [if_pos ok]
        obtain ⟨gained, infos⟩ := nonblock.kept gained infos
        have bound : Checked os .tcpConnect since r.2
            (source_addr.elim r (os.bindSource r.2 s)) := by
          cases source_addr with
          | none => exact ⟨rfl, rfl, nonblock.calls, nonblock.explained⟩
          | some addr => exact bindSource_checked nonblock.calls s addr
        generalize source_addr.elim r (os.bindSource r.2 s) = r at bound
        by_cases ok : r.1 = true
        · rw [if_pos ok]
          obtain ⟨gained, infos⟩ := bound.kept gained infos
          have gained' : Gained n.fds (os.call r.2 (.connect s p.ai_addr)).2.fds {s} := by
            rwa [call_fds]
          have infos' : (os.call r.2 (.connect s p.ai_addr)).2.infos = n.infos := by
            rwa [call_infos]
          have calls : since ≤ (os.call r.2 (.connect s p.ai_addr)).2.calls := by
            rw [call_calls]
            exact Nat.le_succ_of_le bound.calls
          split_ifs with connected
          · exact .done gained' infos' calls
          · exact .done gained' infos' calls
          · have pending := call_pending os bound.calls (by simpa using connected)
            have open' := gained'.mem (Finset.mem_singleton_self s)
            have errno : ((os.call r.2 (.connect s p.ai_addr)).2.close s).errno =
                (os.call r.2 (.connect s p.ai_addr)).2.errno := if_pos open'
            exact .next gained'.release_eq infos' calls
              ⟨_, pending.close open', by rw [errno]; rfl⟩
        · rw [if_neg ok]
          exact bound.none gained infos ok
      · rw [if_neg ok]
        exact nonblock.none gained infos ok
    · rw [if_neg ok]
      exact reuse.none gained infos ok

theorem connectLoop_delivered (le : since ≤ n.calls) (source_addr : Option Text) (flags : Mask)
    (list : List AddrInfo) (none : list = [] →
      Awaits os .tcpConnect since n ("creating socket: ".toList ++ os.strerror n.errno)) :
    Delivered os .tcpConnect since n (os.connectLoop n source_addr flags list) := by
  induction list generalizing n with
  | nil => exact ⟨Gained.nothing n.fds, rfl, le, fun _ => (none rfl).set⟩
  | cons p rest ih =>
      have attempted := attempt_attempted os le source_addr flags p
      unfold Os.connectLoop
      generalize os.attempt n source_addr flags p = r at attempted
      cases attempted with
      | @next m fds infos calls awaits =>
          have later := ih calls fun _ => awaits
          exact ⟨fds ▸ later.fds, later.infos.trans infos, later.calls, later.explained⟩
      | error gained infos calls explained => exact .closed gained infos calls explained
      | done gained infos calls => exact .some gained infos calls

theorem connectOnce_delivered (le : since ≤ n.calls) (addr : Text) (port : Int)
    (source_addr : Option Text) (flags : Mask) :
    Delivered os .tcpConnect since n ((os.connectOnce n addr port source_addr flags).1.join,
      (os.connectOnce n addr port source_addr flags).2) := by
  unfold Os.connectOnce
  rcases resolved : os.resolve n addr (Os.portstr port) ⟨AF_UNSPEC, false, false⟩ with
    ⟨rv | ⟨info, first, rest⟩, m⟩
  · obtain ⟨fds, infos, calls, explained⟩ := resolve_error le resolved
    refine ⟨?_, infos, calls, fun _ => explained⟩
    change Gained n.fds m.fds ∅
    rw [fds]
    exact Gained.nothing n.fds
  · obtain ⟨fds, gained, calls⟩ := resolve_ok resolved
    have loop : Delivered os .tcpConnect since m
        (os.connectLoop m source_addr flags (first :: rest)) :=
      connectLoop_delivered (by omega) source_addr flags (first :: rest) fun nil => by cases nil
    refine ⟨fds ▸ loop.fds, ?_, loop.calls, fun failed => (loop.explained failed).free info⟩
    change (os.connectLoop m source_addr flags (first :: rest)).2.infos.release info = n.infos
    rw [loop.infos]
    exact gained.release_eq

theorem anetTcpGenericConnect_delivered (le : since ≤ n.calls) (addr : Text) (port : Int)
    (source_addr : Option Text) (flags : Mask) :
    Delivered os .tcpConnect since n (os.anetTcpGenericConnect n addr port source_addr flags) := by
  have first : Delivered os .tcpConnect since n _ :=
    connectOnce_delivered le addr port source_addr flags
  unfold Os.anetTcpGenericConnect
  dsimp only
  split_ifs with again
  · have second : Delivered os .tcpConnect since _ _ :=
      connectOnce_delivered first.calls addr port none flags
    rw [again.1] at first
    have fds : (os.connectOnce n addr port source_addr flags).2.fds = n.fds := first.fds.eq
    refine ⟨?_, second.infos.trans first.infos, second.calls, second.explained⟩
    rw [← fds]
    exact second.fds
  · exact first

theorem anetUnixGenericConnect_delivered (le : since ≤ n.calls) (path : Text) (flags : Mask) :
    Delivered os .unixConnect since n (os.anetUnixGenericConnect n path flags) := by
  have created : Delivered os .unixConnect since n (os.anetCreateSocket n AF_LOCAL) :=
    anetCreateSocket_delivered le (by decide) AF_LOCAL
  unfold Os.anetUnixGenericConnect
  generalize os.anetCreateSocket n AF_LOCAL = c at created
  obtain ⟨_ | s, m⟩ := c
  · exact created
  · have gained : Gained n.fds m.fds {s} := by simpa using created.fds
    have infos : m.infos = n.infos := created.infos
    have nonblock : Checked os .unixConnect since m
        (if flags &&& ANET_CONNECT_NONBLOCK ≠ 0 then os.anetNonBlock m s else (true, m)) := by
      split_ifs
      · exact anetSetBlock_checked created.calls s true
      · exact .skip created.calls
    dsimp only
    generalize (if flags &&& ANET_CONNECT_NONBLOCK ≠ 0 then os.anetNonBlock m s else (true, m)) = r
      at nonblock
    obtain ⟨gained, infos⟩ := nonblock.kept gained infos
    by_cases ok : r.1 = true
    · rw [if_pos ok]
      have gained' : Gained n.fds (os.call r.2 (.connect s (Os.sunPath path))).2.fds {s} := by
        rwa [call_fds]
      have infos' : (os.call r.2 (.connect s (Os.sunPath path))).2.infos = n.infos := by
        rwa [call_infos]
      have calls : since ≤ (os.call r.2 (.connect s (Os.sunPath path))).2.calls := by
        rw [call_calls]
        exact Nat.le_succ_of_le nonblock.calls
      split_ifs with connected
      · exact .some gained' infos' calls
      · exact .some gained' infos' calls
      · have pending := call_pending os nonblock.calls (by simpa using connected)
        exact .closed gained' infos' calls (pending.set rfl)
    · rw [if_neg ok]
      exact .closed gained infos nonblock.calls (nonblock.explained (by simpa using ok))

end Connect

section Servers

variable {os : Os} {caller : Caller} {since : ℕ} {n m : Net} {s : ℕ}

theorem anetListen_delivered (le : since ≤ m.calls) (gained : Gained n.fds m.fds {s})
    (infos : m.infos = n.infos) (sa : Text) (backlog : Int) :
    Delivered os caller since n (if (os.anetListen m s sa backlog).1 then some s else none,
      (os.anetListen m s sa backlog).2) := by
  have bound : Checked os caller since m (os.checked m (.bind s sa) "bind: " "") :=
    checked_spec le fun _ => List.append_nil _
  unfold Os.anetListen
  generalize os.checked m (.bind s sa) "bind: " "" = r at bound
  dsimp only
  by_cases ok : r.1 = true
  · rw [if_pos ok]
    have listens : Checked os caller since r.2
        (os.checked r.2 (.listen s backlog) "listen: " "") :=
      checked_spec bound.calls fun _ => List.append_nil _
    obtain ⟨gained, infos⟩ := bound.kept gained infos
    generalize os.checked r.2 (.listen s backlog) "listen: " "" = q at listens
    obtain ⟨gained, infos⟩ := listens.kept gained infos
    by_cases ok : q.1 = true
    · rw [if_pos ok, if_pos ok]
      exact .some gained infos listens.calls
    · rw [if_neg ok]
      exact .closed gained infos listens.calls (listens.explained (by simpa using ok))
  · rw [if_neg ok]
    obtain ⟨gained, infos⟩ := bound.kept gained infos
    exact .closed gained infos bound.calls (bound.explained (by simpa using ok))

theorem anetUnixServer_delivered (le : since ≤ n.calls) (path : Text) (backlog : Int) :
    Delivered os .unixServer since n (os.anetUnixServer n path backlog) := by
  have created : Delivered os .unixServer since n (os.anetCreateSocket n AF_LOCAL) :=
    anetCreateSocket_delivered le (by decide) AF_LOCAL
  unfold Os.anetUnixServer
  generalize os.anetCreateSocket n AF_LOCAL = c at created
  obtain ⟨_ | s, m⟩ := c
  · exact created
  · exact anetListen_delivered created.calls (by simpa using created.fds) created.infos _ backlog

/-- `IPV6_V6ONLY` is refused for the first socket that can be created. -/
def refusesV6 (os : Os) (n : Net) : List AddrInfo → Bool
  | [] => false
  | p :: rest =>
      match os.openFd n (.socket p.ai_family p.ai_socktype p.ai_protocol) with
      | (none, n) => refusesV6 os n rest
      | (some s, n) => (os.fails n.calls (.setsockopt s .IPV6_V6ONLY [1])).isSome

/-- A descriptor was closed twice, and the second `close` has overwritten the `errno` that the
buffer tells of. -/
structure ClosedTwice (os : Os) (since : ℕ) (n m : Net) : Prop where
  fds : m.fds = ⟨n.fds.held, true⟩
  errno : m.errno = EBADF
  told : ∃ s e, LastFailed os since m (.call (.setsockopt s .IPV6_V6ONLY [1]) e) ∧
    Tells os .tcpServer m (.call (.setsockopt s .IPV6_V6ONLY [1]) e)

structure Served (os : Os) (caller : Caller) (since : ℕ) (n : Net) (refused : Bool)
    (r : Option ℕ × Net) : Prop where
  infos : r.2.infos = n.infos
  regular : refused = false → Delivered os caller since n r
  twice : refused = true → r.1 = none ∧ caller = .tcpServer ∧ ClosedTwice os since n r.2

theorem Delivered.served {r : Option ℕ × Net} (delivered : Delivered os caller since n r) :
    Served os caller since n false r :=
  ⟨delivered.infos, fun _ => delivered, fun refused => by cases refused⟩

/-- The option is refused: the descriptor is closed by `anetV6Only` and again at the label. -/
theorem anetV6Only_refused (le : since ≤ m.calls) (gained : Gained n.fds m.fds {s})
    (infos : m.infos = n.infos)
    (refused : (os.fails m.calls (.setsockopt s .IPV6_V6ONLY [1])).isSome) :
    (os.anetV6Only m s).1 = false ∧ ((os.anetV6Only m s).2.close s).infos = n.infos ∧
      ClosedTwice os since n ((os.anetV6Only m s).2.close s) := by
  obtain ⟨e, answered⟩ := Option.isSome_iff_exists.mp refused
  let told := (m.fail (.setsockopt s .IPV6_V6ONLY [1]) e).anetSetError
    ("setsockopt: ".toList ++ os.strerror e ++ "".toList)
  have failed : os.anetV6Only m s = (false, told.close s) := by
    simp only [Os.anetV6Only, Os.checked, Os.call, answered]
    rfl
  rw [failed]
  have released : (told.close s).fds = n.fds := gained.release_eq
  have absent : s ∉ (told.close s).fds.held := by
    rw [released]
    exact gained.fresh (Finset.mem_singleton_self s)
  refine ⟨rfl, infos, ?_, if_neg absent, s, e, ⟨m.calls, le, rfl, answered⟩, fun t here => ?_⟩
  · change (told.close s).fds.release s = _
    rw [release_absent absent, released]
  · obtain ⟨-, -, rfl⟩ := Option.map_eq_some_iff.mp here
    rfl

theorem anetV6Only_accepted (le : since ≤ m.calls) (s : ℕ)
    (accepted : (os.fails m.calls (.setsockopt s .IPV6_V6ONLY [1])).isSome = false) :
    (os.anetV6Only m s).1 = true ∧ Checked os caller since m (os.anetV6Only m s) := by
  have set : Checked os caller since m
      (os.checked m (.setsockopt s .IPV6_V6ONLY [1]) "setsockopt: " "") :=
    checked_spec le fun _ => rfl
  have done : (os.checked m (.setsockopt s .IPV6_V6ONLY [1]) "setsockopt: " "").1 = true := by
    cases answered : os.fails m.calls (.setsockopt s .IPV6_V6ONLY [1]) with
    | none => simp [Os.checked, Os.call, answered]
    | some e => simp [answered] at accepted
  unfold Os.anetV6Only
  dsimp only
  rw [if_pos done]
  exact ⟨done, set⟩

theorem serverLoop_served (le : since ≤ n.calls) (af : ℕ) (backlog : Int) (list : List AddrInfo)
    (none : list = [] → Awaits os .tcpServer since n
      ("unable to bind socket, errno: ".toList ++ (toString n.errno).toList)) :
    Served os .tcpServer since n (decide (af = AF_INET6) && refusesV6 os n list)
      (os.serverLoop n af backlog list) := by
  induction list generalizing n with
  | nil =>
      rw [refusesV6, Bool.and_false]
      exact Delivered.served ⟨Gained.nothing n.fds, rfl, le, fun _ => (none rfl).set⟩
  | cons p rest ih =>
      unfold Os.serverLoop refusesV6
      rcases opened : os.openFd n (.socket p.ai_family p.ai_socktype p.ai_protocol) with ⟨_ | s, m⟩
      · obtain ⟨fds, infos, calls, pending⟩ := openFd_none le opened
        have awaits : Awaits os .tcpServer since m
            ("unable to bind socket, errno: ".toList ++ (toString m.errno).toList) :=
          ⟨_, pending, (errorText_server os rfl m.errno p.ai_family p.ai_socktype
            p.ai_protocol).symm⟩
        obtain ⟨infos', regular, twice⟩ := ih calls fun _ => awaits
        refine ⟨infos'.trans infos, fun fine => ?_, fun refused => ?_⟩
        · have delivered := regular fine
          exact ⟨fds ▸ delivered.fds, delivered.infos.trans infos, delivered.calls,
            delivered.explained⟩
        · obtain ⟨nothing, caller, closed⟩ := twice refused
          exact ⟨nothing, caller, fds ▸ closed.fds, closed.errno, closed.told⟩
      · obtain ⟨gained, infos, calls⟩ := openFd_some opened
        have le : since ≤ m.calls := by omega
        dsimp only
        cases refused : (decide (af = AF_INET6) &&
            (os.fails m.calls (.setsockopt s .IPV6_V6ONLY [1])).isSome) with
        | true =>
            rw [Bool.and_eq_true, decide_eq_true_iff] at refused
            obtain ⟨failed, infos', closed⟩ := anetV6Only_refused le gained infos refused.2
            rw [if_pos refused.1, if_neg (by simp [failed])]
            exact ⟨infos', fun fine => (by cases fine), fun _ => ⟨rfl, rfl, closed⟩⟩
        | false =>
            refine Delivered.served ?_
            have only : (if af = AF_INET6 then os.anetV6Only m s else (true, m)).1 = true ∧
                Checked os .tcpServer since m
                  (if af = AF_INET6 then os.anetV6Only m s else (true, m)) := by
              split_ifs with six
              · exact anetV6Only_accepted le s (by simpa [six] using refused)
              · exact ⟨rfl, .skip le⟩
            generalize (if af = AF_INET6 then os.anetV6Only m s else (true, m)) = r at only
            obtain ⟨ok, checked⟩ := only
            obtain ⟨gained, infos⟩ := checked.kept gained infos
            have reuse : Checked os .tcpServer since r.2 (os.anetSetReuseAddr r.2 s) :=
              anetSetReuseAddr_checked checked.calls s
            rw [if_pos ok]
            generalize os.anetSetReuseAddr r.2 s = q at reuse
            obtain ⟨gained, infos⟩ := reuse.kept gained infos
            by_cases done : q.1 = true
            · rw [if_pos done]
              exact anetListen_delivered reuse.calls gained infos p.ai_addr backlog
            · rw [if_neg done]
              exact .closed gained infos reuse.calls (reuse.explained (by simpa using done))

/-- `_anetTcpServer` of these arguments has `IPV6_V6ONLY` refused. -/
def serverRefused (os : Os) (n : Net) (port : Int) (bindaddr : Option Text) (af : ℕ) : Bool :=
  match os.resolve n bindaddr (Os.portstr port) ⟨af, true, false⟩ with
  | (.error _, _) => false
  | (.ok (_, first, rest), n) => decide (af = AF_INET6) && refusesV6 os n (first :: rest)

theorem anetTcpServer_served (le : since ≤ n.calls) (port : Int) (bindaddr : Option Text)
    (af : ℕ) (backlog : Int) :
    Served os .tcpServer since n (serverRefused os n port bindaddr af)
      (os._anetTcpServer n port bindaddr af backlog) := by
  unfold Os._anetTcpServer serverRefused
  rcases resolved : os.resolve n bindaddr (Os.portstr port) ⟨af, true, false⟩ with
    ⟨rv | ⟨info, first, rest⟩, m⟩
  · obtain ⟨fds, infos, calls, explained⟩ := resolve_error le resolved
    refine Delivered.served ⟨?_, infos, calls, fun _ => explained⟩
    change Gained n.fds m.fds ∅
    rw [fds]
    exact Gained.nothing n.fds
  · obtain ⟨fds, gained, calls⟩ := resolve_ok resolved
    obtain ⟨infos, regular, twice⟩ : Served os .tcpServer since m _ _ :=
      serverLoop_served (by omega) af backlog (first :: rest) fun nil => by cases nil
    have freed : (os.serverLoop m af backlog (first :: rest)).2.infos.release info = n.infos := by
      rw [infos]
      exact gained.release_eq
    refine ⟨freed, fun fine => ?_, fun refused => ?_⟩
    · have delivered := regular fine
      exact ⟨fds ▸ delivered.fds, freed, delivered.calls,
        fun failed => (delivered.explained failed).free info⟩
    · obtain ⟨nothing, caller, closed⟩ := twice refused
      exact ⟨nothing, caller, fds ▸ closed.fds, closed.errno, closed.told⟩

theorem anetGenericAccept_delivered (le : since ≤ n.calls) (s fuel : ℕ) {r : Option ℕ × Net}
    (h : os.anetGenericAccept s fuel n = some r) : Delivered os .accept since n r := by
  induction fuel generalizing n with
  | zero => cases h
  | succ fuel ih =>
      unfold Os.anetGenericAccept at h
      rcases opened : os.openFd n (.accept s) with ⟨_ | fd, m⟩
      · rw [opened] at h
        dsimp only at h
        obtain ⟨fds, infos, calls, pending⟩ := openFd_none le opened
        split_ifs at h
        · have later := ih calls h
          exact ⟨fds ▸ later.fds, later.infos.trans infos, later.calls, later.explained⟩
        · obtain rfl := Option.some.inj h
          have nothing : Gained n.fds m.fds ∅ := fds ▸ Gained.nothing n.fds
          exact ⟨nothing, infos, calls, fun _ => pending.set rfl⟩
      · rw [opened] at h
        obtain rfl := Option.some.inj h
        obtain ⟨gained, infos, calls⟩ := openFd_some opened
        exact .some gained infos (by omega)

end Servers

inductive Tune
  | setBlock (non_block : Bool)
  | keepAlive (interval : Int)
  | tcpNoDelay (val : Int)
  | sendBuffer (buffsize : Int)
  | tcpKeepAlive
  | sendTimeout (ms : Int)

def Tune.run (os : Os) (n : Net) (fd : ℕ) : Tune → Bool × Net
  | setBlock non_block => os.anetSetBlock n fd non_block
  | keepAlive interval => os.anetKeepAlive n fd interval
  | tcpNoDelay val => os.anetSetTcpNoDelay n fd val
  | sendBuffer buffsize => os.anetSetSendBuffer n fd buffsize
  | tcpKeepAlive => os.anetTcpKeepAlive n fd
  | sendTimeout ms => os.anetSendTimeout n fd ms

inductive Request
  | tcpConnect (addr : Text) (port : Int) (source_addr : Option Text) (flags : Mask)
  | unixConnect (path : Text) (flags : Mask)
  | tcpServer (port : Int) (bindaddr : Option Text) (af : ℕ) (backlog : Int)
  | unixServer (path : Text) (backlog : Int)
  | accept (s fuel : ℕ)

def Request.run (os : Os) (n : Net) : Request → Option (Option ℕ × Net)
  | tcpConnect addr port source_addr flags =>
      some (os.anetTcpGenericConnect n addr port source_addr flags)
  | unixConnect path flags => some (os.anetUnixGenericConnect n path flags)
  | tcpServer port bindaddr af backlog => some (os._anetTcpServer n port bindaddr af backlog)
  | unixServer path backlog => some (os.anetUnixServer n path backlog)
  | accept s fuel => os.anetGenericAccept s fuel n

def Request.caller : Request → Caller
  | tcpConnect _ _ _ _ => .tcpConnect
  | unixConnect _ _ => .unixConnect
  | tcpServer _ _ _ _ => .tcpServer
  | unixServer _ _ => .unixServer
  | accept _ _ => .accept

def Request.refused (os : Os) (n : Net) : Request → Bool
  | tcpServer port bindaddr af _ => serverRefused os n port bindaddr af
  | _ => false

theorem Tune.checked (os : Os) (n : Net) (fd : ℕ) (tune : Tune) :
    Checked os .other n.calls n (tune.run os n fd) := by
  cases tune with
  | setBlock non_block => exact anetSetBlock_checked le_rfl fd non_block
  | keepAlive interval => exact anetKeepAlive_checked le_rfl fd interval
  | tcpNoDelay val => exact checked_spec le_rfl fun _ => rfl
  | sendBuffer buffsize => exact checked_spec le_rfl fun _ => rfl
  | tcpKeepAlive => exact checked_spec le_rfl fun _ => rfl
  | sendTimeout ms => exact checked_spec le_rfl fun _ => rfl

theorem Request.served {os : Os} {n : Net} {request : Request} {r : Option ℕ × Net}
    (h : request.run os n = some r) :
    Served os request.caller n.calls n (request.refused os n) r := by
  cases request with
  | tcpConnect addr port source_addr flags =>
      obtain rfl := Option.some.inj h
      exact (anetTcpGenericConnect_delivered le_rfl addr port source_addr flags).served
  | unixConnect path flags =>
      obtain rfl := Option.some.inj h
      exact (anetUnixGenericConnect_delivered le_rfl path flags).served
  | tcpServer port bindaddr af backlog =>
      obtain rfl := Option.some.inj h
      exact anetTcpServer_served le_rfl port bindaddr af backlog
  | unixServer path backlog =>
      obtain rfl := Option.some.inj h
      exact (anetUnixServer_delivered le_rfl path backlog).served
  | accept s fuel => exact (anetGenericAccept_delivered le_rfl s fuel h).served

theorem anetGenericResolve_checked (os : Os) (n : Net) (host ipbuf : Text) (ipbuf_len : ℕ)
    (flags : Mask) : Checked os .other n.calls n
      ((os.anetGenericResolve n host ipbuf ipbuf_len flags).1,
        (os.anetGenericResolve n host ipbuf ipbuf_len flags).2.2) := by
  unfold Os.anetGenericResolve
  rcases resolved : os.resolve n host none ⟨AF_UNSPEC, false, flags &&& ANET_IP_ONLY ≠ 0⟩ with
    ⟨rv | ⟨info, first, rest⟩, m⟩
  · obtain ⟨fds, infos, calls, explained⟩ := resolve_error le_rfl resolved
    exact ⟨fds, infos, calls, fun _ => explained⟩
  · obtain ⟨fds, gained, calls⟩ := resolve_ok resolved
    exact ⟨fds, gained.release_eq, calls ▸ Nat.le_succ _, fun failed => by cases failed⟩

/-- A program on these functions: what it was given and has not closed, and whether a request of
its was refused `IPV6_V6ONLY`. -/
structure Client where
  net : Net
  owned : Finset ℕ
  refused : Bool

inductive Act
  | request (request : Request)
  | tune (fd : ℕ) (tune : Tune)
  | resolve (host ipbuf : Text) (ipbuf_len : ℕ) (flags : Mask)
  | close (fd : ℕ)

/-- A program closes what it was given, once. -/
inductive Step (os : Os) : Client → Act → Client → Prop
  | request {c : Client} {request : Request} {r : Option ℕ × Net} :
      request.run os c.net = some r →
      Step os c (.request request)
        ⟨r.2, c.owned ∪ r.1.toFinset, c.refused || request.refused os c.net⟩
  | tune (c : Client) (fd : ℕ) (tune : Tune) :
      Step os c (.tune fd tune) { c with net := (tune.run os c.net fd).2 }
  | resolve (c : Client) (host ipbuf : Text) (ipbuf_len : ℕ) (flags : Mask) :
      Step os c (.resolve host ipbuf ipbuf_len flags)
        { c with net := (os.anetGenericResolve c.net host ipbuf ipbuf_len flags).2.2 }
  | close {c : Client} {fd : ℕ} : fd ∈ c.owned →
      Step os c (.close fd) { c with net := c.net.close fd, owned := c.owned.erase fd }

def Run (os : Os) (n : Net) : Client → Prop :=
  WhileLoop.Reach (fun c => c = ⟨n, ∅, false⟩) (Step os) fun _ _ => True

structure Books (n : Net) (c : Client) : Prop where
  held : c.net.fds.held = n.fds.held ∪ c.owned
  apart : Disjoint n.fds.held c.owned
  misused : c.net.fds.misused = (n.fds.misused || c.refused)
  infos : c.net.infos = n.infos

theorem Books.step {os : Os} {n : Net} {c d : Client} {act : Act} (books : Books n c)
    (step : Step os c act d) : Books n d := by
  cases step with
  | @request request r h =>
      obtain ⟨infos, regular, twice⟩ := Request.served h
      cases refused : request.refused os c.net with
      | false =>
          obtain ⟨held, apart, fine⟩ := (regular refused).fds
          rw [books.held, Finset.disjoint_union_left] at apart
          refine ⟨?_, Finset.disjoint_union_right.mpr ⟨books.apart, apart.1⟩, ?_,
            infos.trans books.infos⟩
          · rw [held, books.held, Finset.union_assoc]
          · rw [fine, books.misused, Bool.or_false]
      | true =>
          obtain ⟨none, -, closed⟩ := twice refused
          refine ⟨?_, ?_, ?_, infos.trans books.infos⟩
          · rw [closed.fds, none, Option.toFinset_none, Finset.union_empty, books.held]
          · rw [none, Option.toFinset_none, Finset.union_empty]
            exact books.apart
          · rw [closed.fds, Bool.or_true, Bool.or_true]
  | tune fd tune =>
      have checked := tune.checked os c.net fd
      refine ⟨?_, books.apart, ?_, checked.infos.trans books.infos⟩
      · rw [checked.fds]
        exact books.held
      · rw [checked.fds]
        exact books.misused
  | resolve host ipbuf ipbuf_len flags =>
      have checked := anetGenericResolve_checked os c.net host ipbuf ipbuf_len flags
      refine ⟨?_, books.apart, ?_, checked.infos.trans books.infos⟩
      · rw [checked.fds]
        exact books.held
      · rw [checked.fds]
        exact books.misused
  | @close fd own =>
      have other : fd ∉ n.fds.held := fun before =>
        Finset.disjoint_left.mp books.apart before own
      have held : fd ∈ c.net.fds.held := by
        rw [books.held]
        exact Finset.mem_union_right _ own
      refine ⟨?_, books.apart.mono_right (Finset.erase_subset fd c.owned), ?_, books.infos⟩
      · change c.net.fds.held.erase fd = _
        rw [books.held, Finset.erase_union_distrib, Finset.erase_eq_of_notMem other]
      · change (c.net.fds.misused || decide (fd ∉ c.net.fds.held)) = _
        simp [held, books.misused]

theorem Run.books {os : Os} {n : Net} {c : Client} (run : Run os n c) : Books n c := by
  refine WhileLoop.Reach.invariant (Books n) ?_ (fun c act d books _ step => books.step step) run
  rintro c rfl
  exact ⟨(Finset.union_empty _).symm, Finset.disjoint_empty_right _, (Bool.or_false _).symm, rfl⟩

/-- In every state of every run the open descriptors are those of others and those the program was
given and has not closed, no address list is left, and a descriptor has been closed that was not
open exactly if a server was refused `IPV6_V6ONLY`. -/
theorem descriptors_accounted {os : Os} {n : Net} {c : Client} (run : Run os n c)
    (proper : n.fds.misused = false) :
    c.net.fds.held = n.fds.held ∪ c.owned ∧ Disjoint n.fds.held c.owned ∧ c.net.infos = n.infos ∧
      (c.net.fds.misused = true ↔ c.refused = true) := by
  have books := run.books
  refine ⟨books.held, books.apart, books.infos, ?_⟩
  rw [books.misused, proper, Bool.false_or]

/-- A system that refuses `IPV6_V6ONLY`, where every name has one address. -/
def plainOs : Os where
  fails _ c :=
    match c with
    | .setsockopt _ .IPV6_V6ONLY _ => some 92
    | _ => none
  flags _ _ := 0#32
  getaddrinfo _ _ _ _ := .ok (⟨AF_INET, SOCK_STREAM, 0, "127.0.0.1".toList⟩, [])
  newFd _ fds := fds.sup id + 1
  newFd_closed := fun _ fds => above_notMem fds
  newInfo _ infos := infos.sup id + 1
  newInfo_free := fun _ infos => above_notMem infos
  inet_ntop p := p.ai_addr
  strerror _ := "Protocol not available".toList
  gai_strerror _ := "Name or service not known".toList

def startUp : Net := ⟨0, ⟨{0, 1, 2}, false⟩, ⟨∅, false⟩, 0, some [], none⟩

def server6 : Request := .tcpServer 6379 none AF_INET6 511

theorem descriptors_accounted_refused : ∃ c, Run plainOs startUp c ∧ c.owned = {3} ∧
    c.refused = true ∧ c.net.fds.held = {0, 1, 2} ∪ c.owned ∧ c.net.fds.misused = true := by
  obtain ⟨r, h⟩ : ∃ r, server6.run plainOs startUp = some r := ⟨_, rfl⟩
  obtain ⟨q, g⟩ : ∃ q, (Request.unixConnect "/tmp/s".toList ANET_CONNECT_NONBLOCK).run plainOs r.2 =
    some q := ⟨_, rfl⟩
  have run : Run plainOs startUp _ := .move (.move (.start rfl) trivial (.request h)) trivial
    (.request g)
  obtain rfl := Option.some.inj h
  obtain rfl := Option.some.inj g
  obtain ⟨held, -, -, misused⟩ := descriptors_accounted run rfl
  exact ⟨_, run, by decide, rfl, held, misused.mpr rfl⟩

/-- Every request that fails, in whatever state it is made, does so after a call of its that failed,
and leaves its text about the last such call. `errno` is still what that call set, unless the
request was refused `IPV6_V6ONLY`: then it is that of closing a descriptor again. -/
theorem failure_explained {os : Os} {n : Net} {request : Request} {m : Net}
    (failed : request.run os n = some (none, m)) :
    ∃ k f, n.calls ≤ k ∧ m.failed = some (k, f) ∧ f.Answered os k ∧
      (∀ text, m.err = some text →
        text = (f.errorText os request.caller).take (ANET_ERR_LEN - 1)) ∧
      ∀ c e, f = .call c e → m.errno = if request.refused os n then EBADF else e := by
  obtain ⟨-, regular, twice⟩ := Request.served failed
  cases refused : request.refused os n with
  | false =>
      obtain ⟨f, ⟨⟨k, le, last, answered⟩, errno⟩, tells⟩ := (regular refused).explained rfl
      exact ⟨k, f, le, last, answered, tells, errno⟩
  | true =>
      obtain ⟨-, caller, closed⟩ := twice refused
      obtain ⟨s, e, ⟨k, le, last, answered⟩, tells⟩ := closed.told
      exact ⟨k, _, le, last, answered, caller ▸ tells, fun _ _ _ => closed.errno⟩

/-- A server is refused the option: its descriptor is closed twice. -/
theorem failure_explained_refused : ∃ m, server6.run plainOs startUp = some (none, m) ∧
    m.errno = EBADF ∧ m.err = some "setsockopt: Protocol not available".toList := by
  obtain ⟨m, failed⟩ : ∃ m, server6.run plainOs startUp = some (none, m) := ⟨_, rfl⟩
  obtain ⟨k, f, -, last, -, tells, errno⟩ := failure_explained failed
  obtain ⟨known, text, err⟩ : m.failed = some (2, .call (.setsockopt 3 .IPV6_V6ONLY [1]) 92) ∧
      ∃ text, m.err = some text := by
    obtain ⟨-, rfl⟩ := Prod.mk.inj (Option.some.inj failed)
    exact ⟨rfl, _, rfl⟩
  obtain ⟨-, rfl⟩ := Prod.mk.inj (Option.some.inj (known.symm.trans last))
  refine ⟨m, failed, errno _ _ rfl, ?_⟩
  rw [err, tells text err]
  decide

end AeEventLoop.Anet
