import AeEventLoop.WhileLoop
import AeEventLoop.LinkedStore
import AeEventLoop.Timer

/-! `ae.c`: timers in an unsorted doubly linked list, new ones in front, deleted ones unlinked and
freed at once. A pass walks the list by its `next` pointers while callbacks edit it. A timer whose
callback returned `AE_NOMORE` is marked by its id and met again in the next turn, which unlinks it,
runs its finalizer and frees it; the record in the trace then has the mark for an id. Reading or
writing a freed node is undefined, and `undef` records that. Allocations succeed. -/

namespace AeEventLoop.Ae

structure EventLoop extends Loop Int where
  timeEvents : LinkedStore TimeEvent
  undef : Bool

def aeCreateEventLoop (env : Env Int) (mem : Memory) (setsize : Int) : Option EventLoop :=
  (Loop.create env mem setsize).map fun l => { l with timeEvents := .empty, undef := false }

def aeResizeSetSize (mem : Memory) (s : EventLoop) (setsize : Int) : Int × EventLoop :=
  if setsize = s.setsize then (AE_OK, s)
  else if s.maxfd ≥ setsize then (AE_ERR, s)
  else (AE_OK, { s with toFileTable := s.toFileTable.realloc mem setsize })

def log (s : EventLoop) (e : Event Int) : EventLoop := { s with trace := s.trace ++ [e] }

/-- The loop after an operation on the list; one that touched freed memory has no result. -/
def store (s : EventLoop) (l : Option (LinkedStore TimeEvent)) : EventLoop :=
  match l with
  | some l => { s with timeEvents := l }
  | none => { s with undef := true }

def aeCreateTimeEvent (env : Env Int) (s : EventLoop) (milliseconds : Int)
    (proc clientData : ℕ) (finalizerProc : Option ℕ) : Int × EventLoop :=
  let te := s.newTimeEvent env milliseconds proc clientData finalizerProc
  (te.id,
    log (store { s with timeEventNextId := s.timeEventNextId + 1, tick := s.tick + 1 }
      (s.timeEvents.pushFront te)) (.created te))

def markDeleted (te : TimeEvent) : TimeEvent := { te with id := AE_DELETED_EVENT_ID }

def aeDeleteTimeEvent (s : EventLoop) (id : Int) : Int × EventLoop :=
  match s.timeEvents.search fun te => te.id = id with
  | none => (AE_ERR, { s with undef := true })
  | some none => (AE_ERR, log s (.deleted id AE_ERR))
  | some (some p) =>
      (AE_OK,
        log (store s (((s.timeEvents.setVal p markDeleted).bind fun l => l.unlink p).map
          fun l => l.free p)) (.deleted id AE_OK))

/-- The test by which `aeSearchNearestTimer` prefers `te` to the nearest timer so far. -/
def Nearer (te nearest : TimeEvent) : Prop :=
  te.when_sec < nearest.when_sec ∨ te.when_sec = nearest.when_sec ∧ te.when_ms < nearest.when_ms

instance (te nearest : TimeEvent) : Decidable (Nearer te nearest) :=
  inferInstanceAs (Decidable (_ ∨ _))

/-- The body of the loop of `aeSearchNearestTimer`. -/
def pickNearest (nearest : Option TimeEvent) (te : TimeEvent) : Option TimeEvent :=
  match nearest with
  | none => some te
  | some n => if Nearer te n then some te else some n

def aeSearchNearestTimer (s : EventLoop) : Option TimeEvent :=
  s.timeEvents.contents.foldl pickNearest none

def runCall (env : Env Int) (s : EventLoop) : TimerCall Int → EventLoop
  | .create milliseconds proc clientData finalizerProc =>
      (aeCreateTimeEvent env s milliseconds proc clientData finalizerProc).2
  | .delete id => (aeDeleteTimeEvent s id).2

def runCalls (env : Env Int) (s : EventLoop) (calls : List (TimerCall Int)) : EventLoop :=
  calls.foldl (runCall env) s

def runFinalizer (env : Env Int) (s : EventLoop) (te : TimeEvent) : EventLoop :=
  match te.finalizerProc with
  | none => s
  | some _ => runCalls env (log s (.finalized te)) (env.finalizerProc s.trace te)

def runTimeProc (env : Env Int) (s : EventLoop) (te : TimeEvent) : EventLoop :=
  let script := env.timeProc s.trace te
  log (runCalls env (log s (.called te)) script.calls) (.returned te script.retval)

structure Pass where
  loop : EventLoop
  te : Option ℕ
  processed : Int

/-- `te = te->next`. -/
def advance (c : Pass) (p : ℕ) : Pass :=
  match c.loop.timeEvents.cells p with
  | none => { c with loop := { c.loop with undef := true } }
  | some cell => { c with te := cell.next }

/-- The branch for a node marked deleted: unlink, finalize, free, and on to the saved `next`. -/
def sweep (env : Env Int) (c : Pass) (p : ℕ) (cell : Cell TimeEvent) : Pass :=
  let s := log (store c.loop (c.loop.timeEvents.unlink p)) (.unlinked cell.val)
  let s := runFinalizer env s cell.val
  { c with
    loop := { s with timeEvents := s.timeEvents.free p }
    te := cell.next }

/-- `aeAddMillisecondsToNow` on the node itself, then `te = te->next`. -/
def rearm (env : Env Int) (c : Pass) (p : ℕ) (te : TimeEvent) (retval : Int) : Pass :=
  let t := aeAddMillisecondsToNow (env.gettimeofday c.loop.tick) retval
  let s := store { c.loop with tick := c.loop.tick + 1 }
    (c.loop.timeEvents.setVal p fun te => te.setWhen t)
  advance { c with loop := log s (.rearmed (te.setWhen t)) } p

def fire (env : Env Int) (c : Pass) (p : ℕ) (te : TimeEvent) : Pass :=
  let retval := (env.timeProc c.loop.trace te).retval
  let c := { c with loop := runTimeProc env c.loop te, processed := c.processed + 1 }
  if retval ≠ AE_NOMORE then rearm env c p te retval
  else { c with loop := store c.loop (c.loop.timeEvents.setVal p markDeleted) }

/-- One turn of `while(te)`. -/
def passStep (env : Env Int) (maxId : Int) (c : Pass) : Option Pass :=
  if c.loop.undef then none
  else
    match c.te with
    | none => none
    | some p =>
        match c.loop.timeEvents.cells p with
        | none => some { c with loop := { c.loop with undef := true } }
        | some cell =>
            if cell.val.id = AE_DELETED_EVENT_ID then some (sweep env c p cell)
            else if cell.val.id > maxId then some (advance c p)
            else
              let now := aeGetTime (env.gettimeofday c.loop.tick)
              let c := { c with
                loop := log { c.loop with tick := c.loop.tick + 1 } (.reached cell.val now) }
              if Due cell.val.deadline now then some (fire env c p cell.val)
              else some (advance c p)

/-- The skew check: a clock set back makes every timer due at once. -/
def skew (env : Env Int) (s : EventLoop) : EventLoop :=
  let now := env.time s.tick
  let s' := if now < s.lastTime then store s (s.timeEvents.forEach fun te => { te with when_sec := 0 })
    else s
  { s' with lastTime := now, tick := s.tick + 1 }

def passStart (env : Env Int) (s : EventLoop) : Pass where
  loop := skew env s
  te := (skew env s).timeEvents.head
  processed := 0

def processTimeEvents (env : Env Int) (fuel : ℕ) (s : EventLoop) : Option (EventLoop × Int) :=
  (WhileLoop.run (passStep env (s.timeEventNextId - 1)) fuel (passStart env s)).map
    fun c => (c.loop, c.processed)

/-- `c` is met at the loop head of a pass that starts in `s`. -/
def PassVisits (env : Env Int) (s : EventLoop) (c : Pass) : Prop :=
  WhileLoop.Visits (passStep env (s.timeEventNextId - 1)) (passStart env s) c

theorem processTimeEvents_unique {env : Env Int} {s : EventLoop} {i j : ℕ}
    {a b : EventLoop × Int} (ha : processTimeEvents env i s = some a)
    (hb : processTimeEvents env j s = some b) : a = b := by
  obtain ⟨c, hc, rfl⟩ := Option.map_eq_some_iff.mp ha
  obtain ⟨d, hd, rfl⟩ := Option.map_eq_some_iff.mp hb
  rw [WhileLoop.run_unique hc hd]

abbrev Step (env : Env Int) : EventLoop → Op Int → EventLoop → Prop :=
  LoopStep (runCall env) (fun op s => { s with toFileTable := op.apply s.toFileTable })
    aeResizeSetSize (processTimeEvents env)

/-- The states of runs from `aeCreateEventLoop` whose every step was `allowed`. -/
def Run (env : Env Int) (allowed : EventLoop → Op Int → Prop) : EventLoop → Prop :=
  WhileLoop.Reach (fun s => ∃ mem setsize, aeCreateEventLoop env mem setsize = some s)
    (Step env) allowed

def fresh (env : Env Int) : EventLoop :=
  { Loop.fresh env with timeEvents := .empty, undef := false }

theorem fresh_run (env : Env Int) (allowed : EventLoop → Op Int → Prop) :
    Run env allowed (fresh env) :=
  .start ⟨zeroedMemory, 4, by rw [aeCreateEventLoop, Loop.create_eq_fresh]; rfl⟩

end AeEventLoop.Ae
