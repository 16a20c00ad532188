import AeEventLoop.Timer

/-! `aeProcessEvents` and `aeApiPoll`. The three files carry them with the same text; what differs
is the timer store behind `aeSearchNearestTimer` and `processTimeEvents`. `Backend` names what the
text uses of an event loop with states `σ`, file handlers and the hook included, so that there is
one model of it. The kernel is a parameter: `poll` sees the state and the timeout and answers with
what `epoll_wait` reports, the empty list standing for a timeout or an error. -/

namespace AeEventLoop

def AE_FILE_EVENTS : Mask := 1#32
def AE_TIME_EVENTS : Mask := 2#32
def AE_ALL_EVENTS : Mask := AE_FILE_EVENTS ||| AE_TIME_EVENTS
def AE_DONT_WAIT : Mask := 4#32
def AE_CALL_AFTER_SLEEP : Mask := 8#32

def EPOLLERR : Mask := 8#32
def EPOLLHUP : Mask := 16#32

def int (x : Int) : Int := x.bmod (2 ^ 32)

def waitMillis (shortest : TimeEvent) (now : Int × Int) : Int :=
  long ((shortest.when_sec - now.1) * 1000 + shortest.when_ms - now.2)

def waitTimeval (ms : Int) : Int × Int :=
  if ms > 0 then (ms.tdiv 1000, ms.tmod 1000 * 1000) else (0, 0)

/-- The last argument of `epoll_wait`; `none` is a null `tvp`. -/
def epollTimeout : Option (Int × Int) → Int
  | some tv => int (long (tv.1 * 1000 + tv.2.tdiv 1000))
  | none => -1

def firedMask (events : Mask) : Mask :=
  (if events &&& EPOLLIN ≠ 0 then AE_READABLE else 0) |||
    (if events &&& EPOLLOUT ≠ 0 then AE_WRITABLE else 0) |||
    (if events &&& EPOLLERR ≠ 0 then AE_WRITABLE else 0) |||
    (if events &&& EPOLLHUP ≠ 0 then AE_WRITABLE else 0)

/-- The part of `aeApiPoll` after `epoll_wait`: the reports go to the front of `fired`. -/
def FileTable.storeFired (t : FileTable) (reports : List (ℕ × Mask)) : FileTable :=
  { t with
    fired := fun j =>
      match reports[j]? with
      | some e => ⟨e.1, firedMask e.2⟩
      | none => t.fired j }

inductive FileKind
  | readable
  | writable
deriving DecidableEq

def FileKind.bit : FileKind → Mask
  | readable => AE_READABLE
  | writable => AE_WRITABLE

def FileEvent.proc (fe : FileEvent) : FileKind → ℕ
  | .readable => fe.rfileProc
  | .writable => fe.wfileProc

structure FileCall where
  kind : FileKind
  fd : ℕ
  proc : ℕ
  clientData : ℕ
  mask : Mask
deriving DecidableEq

/-- What the dispatch loop uses of an event loop. The entry of a descriptor is looked up at every
test; the code keeps a pointer to it, which shows the same unless a handler of the turn resizes the
table. -/
structure Host (σ : Type) where
  table : σ → FileTable
  setTable : FileTable → σ → σ
  call : FileCall → σ → σ

namespace Host

variable {σ : Type} (h : Host σ)

def Ready (s : σ) (ev : FiredEvent) (kind : FileKind) : Prop :=
  ((h.table s).events ev.fd).mask &&& ev.mask &&& kind.bit ≠ 0

instance (s : σ) (ev : FiredEvent) (kind : FileKind) : Decidable (h.Ready s ev kind) :=
  inferInstanceAs (Decidable (_ ≠ _))

def fire (s : σ) (ev : FiredEvent) (kind : FileKind) : σ :=
  let fe := (h.table s).events ev.fd
  h.call ⟨kind, ev.fd, fe.proc kind, fe.clientData, ev.mask⟩ s

def Distinct (s : σ) (fd : ℕ) : Prop :=
  ((h.table s).events fd).wfileProc ≠ ((h.table s).events fd).rfileProc

instance (s : σ) (fd : ℕ) : Decidable (h.Distinct s fd) := inferInstanceAs (Decidable (_ ≠ _))

/-- `if (fe->mask & mask & bit) if (!fired || fe->wfileProc != fe->rfileProc) ...`, with the number
of handlers called for this descriptor. -/
def fireUnlessDone (ev : FiredEvent) (kind : FileKind) (c : σ × ℕ) : σ × ℕ :=
  if h.Ready c.1 ev kind ∧ (c.2 = 0 ∨ h.Distinct c.1 ev.fd) then
    (h.fire c.1 ev kind, c.2 + 1)
  else c

/-- The body of the loop over the fired events. -/
def dispatchEvent (ev : FiredEvent) (s : σ) : σ :=
  let invert := ((h.table s).events ev.fd).mask &&& AE_BARRIER ≠ 0
  let c := if ¬ invert ∧ h.Ready s ev .readable then (h.fire s ev .readable, 1) else (s, 0)
  let c := h.fireUnlessDone ev .writable c
  let c := if invert then h.fireUnlessDone ev .readable c else c
  c.1

/-- `for (j = 0; j < numevents; j++)`, with `processed`. -/
def dispatch : (numevents j : ℕ) → σ × Int → σ × Int
  | 0, _, c => c
  | n + 1, j, c => dispatch n (j + 1) (h.dispatchEvent ((h.table c.1).fired j) c.1, c.2 + 1)

end Host

/-- What `aeProcessEvents` uses of an event loop beyond that: the nearest timer, the clock, the
hook called after the sleep, and the pass over the timers. -/
structure Backend (σ : Type) extends Host σ where
  aeSearchNearestTimer : σ → Option TimeEvent
  now : σ → Int × Int
  readClock : σ → σ
  aftersleep : σ → σ
  processTimeEvents : ℕ → σ → Option (σ × Int)

namespace Backend

variable {σ : Type} (b : Backend σ)

def shortest (flags : Mask) (s : σ) : Option TimeEvent :=
  if flags &&& AE_TIME_EVENTS ≠ 0 ∧ flags &&& AE_DONT_WAIT = 0 then b.aeSearchNearestTimer s
  else none

def tvp (flags : Mask) (s : σ) : Option (Int × Int) :=
  match b.shortest flags s with
  | some te => some (waitTimeval (waitMillis te (b.now s)))
  | none => if flags &&& AE_DONT_WAIT ≠ 0 then some (0, 0) else none

def timeout (flags : Mask) (s : σ) : Int := epollTimeout (b.tvp flags s)

/-- The state when `epoll_wait` is entered: the clock has been read if there is a timer. -/
def sleep (flags : Mask) (s : σ) : σ :=
  match b.shortest flags s with
  | some _ => b.readClock s
  | none => s

/-- The block that polls and dispatches, with `processed`. -/
def processFileEvents (poll : σ → Int → List (ℕ × Mask)) (flags : Mask) (s : σ) : σ × Int :=
  if (b.table s).maxfd ≠ -1 ∨ flags &&& AE_TIME_EVENTS ≠ 0 ∧ flags &&& AE_DONT_WAIT = 0 then
    let reports := poll (b.sleep flags s) (b.timeout flags s)
    let s := b.sleep flags s
    let s := b.setTable ((b.table s).storeFired reports) s
    let s := if flags &&& AE_CALL_AFTER_SLEEP ≠ 0 then b.aftersleep s else s
    b.dispatch reports.length 0 (s, 0)
  else (s, 0)

def aeProcessEvents (poll : σ → Int → List (ℕ × Mask)) (fuel : ℕ) (flags : Mask) (s : σ) :
    Option (σ × Int) :=
  if flags &&& AE_TIME_EVENTS = 0 ∧ flags &&& AE_FILE_EVENTS = 0 then some (s, 0)
  else
    let c := b.processFileEvents poll flags s
    if flags &&& AE_TIME_EVENTS ≠ 0 then
      (b.processTimeEvents fuel c.1).map fun r => (r.1, c.2 + r.2)
    else some c

end Backend

end AeEventLoop
