import AeEventLoop.Ae
import AeEventLoop.ProcessEvents
import Mathlib.Data.Finset.Insert

/-! The TCP client of `socket_action_ae.cpp`: three file handlers and a timer callback that hand a
connection over to one another, on the loop of `ae.c`. Any number of connections share the loop
with timers that have no client data, such as the one by which `main` bounds the whole run; `aeStop`
only sets a flag, and runs may go on after it.

A pointer to a `CSockInfo` is a number, zero for `NULL`; client data is such a pointer. What `new`
hands out is not initialised. The address a connection connects to, the fields marked unused in the
source and the bytes read and written are left out; `write` and `read` succeed, and so does every
registration below `setsize`. `history` records what the handlers do, for specifications.

`evTimerCb` calls nothing on the timers and a pass over the timers reads nothing of the file table,
so what the callbacks of a pass do to file events is done when the walk is over, in the order in
which they were called. -/

namespace AeEventLoop.TcpClient

/-- `E_TCP_STATE_DEF`. -/
inductive TcpState
  | init
  | connect
  | wrote
  | read
deriving DecidableEq

structure CSockInfo where
  m_iTcpState : TcpState
  m_iFd : ℕ
  m_lTimerId : Int
deriving DecidableEq

def EV_TCP_CONNECT_CB : ℕ := 1
def EV_TCP_WRITE_CB : ℕ := 2
def EV_TCP_READ_CB : ℕ := 3
def EV_TIMER_CB : ℕ := 4

/-- What a callback did that was given the pointer `pCondTcp`. -/
inductive TcpEvent
  | ran (pCondTcp proc : ℕ)
  | moved (pCondTcp : ℕ) (state : TcpState)
  | closed (pCondTcp fd : ℕ)
  | expired (pCondTcp : ℕ) (id : Int)
deriving DecidableEq

@[simp] def TcpEvent.pointer : TcpEvent → ℕ
  | ran p _ => p
  | moved p _ => p
  | closed p _ => p
  | expired p _ => p

/-- The loop, the connections `new` has handed out, and the descriptors that are open. -/
structure App where
  loop : Ae.EventLoop
  heap : ℕ → Option CSockInfo
  fresh : ℕ
  sockets : Finset ℕ
  history : List TcpEvent

def App.log (a : App) (e : TcpEvent) : App := { a with history := a.history ++ [e] }

def App.withFiles (a : App) (t : FileTable) : App :=
  { a with loop := { a.loop with toFileTable := t } }

def aeCreateFileEvent (a : App) (fd : ℕ) (mask : Mask) (proc clientData : ℕ) : App :=
  a.withFiles (a.loop.toFileTable.aeCreateFileEvent fd mask proc clientData false).2

def aeDeleteFileEvent (a : App) (fd : ℕ) (mask : Mask) : App :=
  a.withFiles (a.loop.toFileTable.aeDeleteFileEvent fd mask)

/-- `pCondTcp->m_iTcpState = state`. -/
def setTcpState (a : App) (pCondTcp : ℕ) (state : TcpState) : App :=
  { a with
    heap := Function.update a.heap pCondTcp
      ((a.heap pCondTcp).map fun c => { c with m_iTcpState := state })
    history := a.history ++ [.moved pCondTcp state] }

def close (a : App) (pCondTcp fd : ℕ) : App :=
  { a with
    sockets := a.sockets.erase fd
    history := a.history ++ [.closed pCondTcp fd] }

/-- The exit the three handlers share. -/
def abort (a : App) (pCondTcp fd : ℕ) : App :=
  close (aeDeleteFileEvent a fd (AE_READABLE ||| AE_WRITABLE)) pCondTcp fd

/-- The result of `connect` and, on failure, whether `errno` is `EINPROGRESS`. -/
inductive ConnectResult
  | ok
  | einprogress
  | failed
deriving DecidableEq

def evTcpReadCb (c : FileCall) (a : App) : App :=
  match a.heap c.clientData with
  | none => a
  | some pCondTcp =>
      if c.mask &&& AE_READABLE = 0 ∨ pCondTcp.m_iTcpState ≠ .wrote then abort a c.clientData c.fd
      else
        let a := setTcpState a c.clientData .read
        let a := aeDeleteFileEvent a c.fd (AE_READABLE ||| AE_WRITABLE)
        let a := { a with loop := (Ae.aeDeleteTimeEvent a.loop pCondTcp.m_lTimerId).2 }
        close a c.clientData c.fd

def evTcpWriteCb (env : Env Int) (c : FileCall) (a : App) : App :=
  match a.heap c.clientData with
  | none => a
  | some pCondTcp =>
      if c.mask &&& AE_WRITABLE = 0 ∨ pCondTcp.m_iTcpState ≠ .connect then
        abort a c.clientData c.fd
      else
        let a := setTcpState a c.clientData .wrote
        let a := aeDeleteFileEvent a c.fd AE_WRITABLE
        let a := aeCreateFileEvent a c.fd AE_READABLE EV_TCP_READ_CB c.clientData
        let r := Ae.aeCreateTimeEvent env a.loop 1100 EV_TIMER_CB c.clientData none
        { a with
          loop := r.2
          heap := Function.update a.heap c.clientData
            ((a.heap c.clientData).map fun p => { p with m_lTimerId := r.1 }) }

def evTcpConnectCb (connect : App → ConnectResult) (c : FileCall) (a : App) : App :=
  match a.heap c.clientData with
  | none => a
  | some pCondTcp =>
      if c.mask &&& AE_WRITABLE = 0 ∨ pCondTcp.m_iTcpState ≠ .init then abort a c.clientData c.fd
      else if connect a = .failed then abort a c.clientData c.fd
      else
        aeCreateFileEvent (setTcpState a c.clientData .connect) c.fd AE_WRITABLE EV_TCP_WRITE_CB
          c.clientData

/-- What `evTimerCb` does to the file events; it returns `AE_NOMORE`. -/
def evTimerCb (a : App) (te : TimeEvent) : App :=
  let a := a.log (.expired te.clientData te.id)
  if te.id = 0 then a
  else if te.clientData = 0 then a
  else
    match a.heap te.clientData with
    | none => a
    | some pCondTcp => aeDeleteFileEvent a pCondTcp.m_iFd (AE_READABLE ||| AE_WRITABLE)

/-- `socket` answers a descriptor or fails; `memory` is what `new` hands out. -/
def addTcpCondi (a : App) (memory : CSockInfo) (socket : Option ℕ) (setNonBlock : Bool) :
    Int × App :=
  match socket with
  | none => (-1, a)
  | some fd =>
      let a := { a with sockets := insert fd a.sockets }
      if setNonBlock then
        let a := { a with
          heap := Function.update a.heap a.fresh (some { memory with m_iFd := fd })
          fresh := a.fresh + 1 }
        (0, aeCreateFileEvent a fd (AE_READABLE ||| AE_WRITABLE) EV_TCP_CONNECT_CB (a.fresh - 1))
      else (-2, a)

def env (gettimeofday : ℕ → Timeval) (time : ℕ → Int) : Env Int where
  gettimeofday := gettimeofday
  time := time
  timeProc _ _ := ⟨[], AE_NOMORE⟩
  finalizerProc _ _ := []

def call (env : Env Int) (connect : App → ConnectResult) (c : FileCall) (a : App) : App :=
  let a := a.log (.ran c.clientData c.proc)
  if c.proc = EV_TCP_CONNECT_CB then evTcpConnectCb connect c a
  else if c.proc = EV_TCP_WRITE_CB then evTcpWriteCb env c a
  else if c.proc = EV_TCP_READ_CB then evTcpReadCb c a
  else a

def processTimeEvents (env : Env Int) (fuel : ℕ) (a : App) : Option (App × Int) :=
  (Ae.processTimeEvents env fuel a.loop).map fun r =>
    ((calledIn (r.1.trace.drop a.loop.trace.length)).foldl evTimerCb { a with loop := r.1 }, r.2)

def backend (env : Env Int) (connect : App → ConnectResult) : Backend App where
  table a := a.loop.toFileTable
  setTable t a := a.withFiles t
  call := call env connect
  aeSearchNearestTimer a := Ae.aeSearchNearestTimer a.loop
  now a := aeGetTime (env.gettimeofday a.loop.tick)
  readClock a := { a with loop := { a.loop with tick := a.loop.tick + 1 } }
  aftersleep a := a
  processTimeEvents := processTimeEvents env

inductive Op
  | addTcpCondi
  | aeCreateTimeEvent
  | aeProcessEvents

/-- What can happen next. A descriptor that `socket` answers is not open, and `epoll_wait` reports
descriptors of its set. -/
inductive Step (env : Env Int) : App → Op → App → Prop
  | addTcpCondi (a : App) (memory : CSockInfo) (socket : Option ℕ) (setNonBlock : Bool) :
      memory.m_iTcpState = .init → (∀ fd, socket = some fd → fd ∉ a.sockets) →
      Step env a .addTcpCondi (addTcpCondi a memory socket setNonBlock).2
  | aeCreateTimeEvent (a : App) (milliseconds : Int) :
      Step env a .aeCreateTimeEvent
        { a with loop := (Ae.aeCreateTimeEvent env a.loop milliseconds EV_TIMER_CB 0 none).2 }
  | aeProcessEvents {a b : App} {fuel : ℕ} {processed : Int} (connect : App → ConnectResult)
      (poll : App → Int → List (ℕ × Mask)) (flags : Mask) :
      (∀ r ∈ poll ((backend env connect).sleep flags a) ((backend env connect).timeout flags a),
        a.loop.interest r.1 ≠ none) →
      (backend env connect).aeProcessEvents poll fuel flags a = some (b, processed) →
      Step env a .aeProcessEvents b

def start (loop : Ae.EventLoop) : App where
  loop := loop
  heap _ := none
  fresh := 1
  sockets := ∅
  history := []

/-- The states between iterations, of runs from `aeCreateEventLoop` on. -/
def Run (env : Env Int) : App → Prop :=
  WhileLoop.Reach (fun a => ∃ mem setsize loop,
      Ae.aeCreateEventLoop env mem setsize = some loop ∧ a = start loop)
    (Step env) fun _ _ => True

end AeEventLoop.TcpClient
