import AeEventLoop.WhileLoop
import AeEventLoop.PriorityQueue
import AeEventLoop.Timer
import Mathlib.Data.Finset.Insert

/-! `ae2.cpp`: timers in a `std::priority_queue`, deletion by a set of tombstones that the pass
consults when a timer comes to the top. The queue is any lawful one. `processTimeEvents` copies
the top, runs user code and only then pops: `popped` in the trace names the timer that `pop`
really removed. -/

namespace AeEventLoop.Ae2

open PriorityQueue

/-- `aeTimeEvent::operator<`, which makes the queue's greatest element the earliest timer. -/
def operatorLt (lhs rhs : TimeEvent) : Prop :=
  if lhs.when_sec = rhs.when_sec then lhs.when_ms > rhs.when_ms else lhs.when_sec > rhs.when_sec

def Earlier (a b : TimeEvent) : Prop := operatorLt b a

instance : DecidableRel Earlier := fun a b =>
  inferInstanceAs (Decidable (ite (b.when_sec = a.when_sec) _ _))

theorem earlier_iff (a b : TimeEvent) :
    Earlier a b ↔ a.when_sec < b.when_sec ∨ a.when_sec = b.when_sec ∧ a.when_ms < b.when_ms := by
  unfold Earlier operatorLt
  split_ifs <;> omega

instance : IsStrictOrder TimeEvent Earlier where
  irrefl a := by rw [earlier_iff]; omega
  trans a b c := by simp only [earlier_iff]; omega

structure EventLoop (Q : Type) extends Loop Int where
  timeMinHead : Q
  setDelTimeId : Finset Int

variable {Q : Type} [PriorityQueue Q TimeEvent Earlier]

def aeCreateEventLoop (env : Env Int) (mem : Memory) (setsize : Int) : Option (EventLoop Q) :=
  (Loop.create env mem setsize).map fun l => { l with timeMinHead := empty, setDelTimeId := ∅ }

def aeResizeSetSize (mem : Memory) (s : EventLoop Q) (setsize : Int) : Int × EventLoop Q :=
  if setsize = s.setsize then (AE_OK, s)
  else if s.maxfd ≥ setsize then (AE_ERR, s)
  else (AE_OK,
    { s with
      timeMinHead := empty
      setDelTimeId := ∅
      toFileTable := s.toFileTable.realloc mem setsize })

def aeCreateTimeEvent (env : Env Int) (s : EventLoop Q) (milliseconds : Int)
    (proc clientData : ℕ) (finalizerProc : Option ℕ) : Int × EventLoop Q :=
  let te := s.newTimeEvent env milliseconds proc clientData finalizerProc
  (te.id,
    { s with
      timeEventNextId := s.timeEventNextId + 1
      tick := s.tick + 1
      timeMinHead := push s.timeMinHead te
      trace := s.trace ++ [.created te] })

def aeDeleteTimeEvent (s : EventLoop Q) (id : Int) : Int × EventLoop Q :=
  (AE_OK,
    { s with
      setDelTimeId := insert id s.setDelTimeId
      trace := s.trace ++ [.deleted id AE_OK] })

def aeSearchNearestTimer (s : EventLoop Q) : Option TimeEvent := top s.timeMinHead

def runCall (env : Env Int) (s : EventLoop Q) : TimerCall Int → EventLoop Q
  | .create milliseconds proc clientData finalizerProc =>
      (aeCreateTimeEvent env s milliseconds proc clientData finalizerProc).2
  | .delete id => (aeDeleteTimeEvent s id).2

def runCalls (env : Env Int) (s : EventLoop Q) (calls : List (TimerCall Int)) : EventLoop Q :=
  calls.foldl (runCall env) s

def log (s : EventLoop Q) (e : Event Int) : EventLoop Q := { s with trace := s.trace ++ [e] }

def runFinalizer (env : Env Int) (s : EventLoop Q) (te : TimeEvent) : EventLoop Q :=
  match te.finalizerProc with
  | none => s
  | some _ => runCalls env (log s (.finalized te)) (env.finalizerProc s.trace te)

/-- `timeMinHead->pop()`. -/
def popHead (s : EventLoop Q) : EventLoop Q :=
  match top s.timeMinHead with
  | none => s
  | some te => log { s with timeMinHead := pop s.timeMinHead } (.popped te)

/-- `aeAddMillisecondsToNow` on the copied record, and its `push`. -/
def rearm (env : Env Int) (s : EventLoop Q) (te : TimeEvent) (retval : Int) : EventLoop Q :=
  let te' := te.setWhen (aeAddMillisecondsToNow (env.gettimeofday s.tick) retval)
  log { s with tick := s.tick + 1, timeMinHead := push s.timeMinHead te' } (.rearmed te')

/-- The callback of `te` has run and returned; nothing is popped yet. -/
def runTimeProc (env : Env Int) (s : EventLoop Q) (te : TimeEvent) : EventLoop Q :=
  let script := env.timeProc s.trace te
  log (runCalls env (log s (.called te)) script.calls) (.returned te script.retval)

def fire (env : Env Int) (s : EventLoop Q) (te : TimeEvent) : EventLoop Q :=
  let retval := (env.timeProc s.trace te).retval
  let s := popHead (runTimeProc env s te)
  if retval ≠ AE_NOMORE then rearm env s te retval else s

def discard (env : Env Int) (s : EventLoop Q) (te : TimeEvent) : EventLoop Q :=
  popHead (runFinalizer env (log s (.discarded te)) te)

/-- One turn of `while(!timeMinHead->empty())`, with the number of timers processed. -/
def passStep (env : Env Int) (now : Int × Int) (c : EventLoop Q × Int) :
    Option (EventLoop Q × Int) :=
  match top c.1.timeMinHead with
  | none => none
  | some te =>
      if te.id ∈ c.1.setDelTimeId then
        some (discard env (log c.1 (.reached te now)) te, c.2)
      else if Due te.deadline now then
        some (fire env (log c.1 (.reached te now)) te, c.2 + 1)
      else none

def processTimeEvents (env : Env Int) (fuel : ℕ) (s : EventLoop Q) :
    Option (EventLoop Q × Int) :=
  WhileLoop.run (passStep env (aeGetTime (env.gettimeofday s.tick))) fuel
    ({ s with tick := s.tick + 1 }, 0)

/-- The reading a pass that starts in `s` compares deadlines with. -/
def snapshot (env : Env Int) (s : EventLoop Q) : Int × Int := aeGetTime (env.gettimeofday s.tick)

/-- `c` is met at the loop head of a pass that starts in `s`; the pass need not end. -/
def PassVisits (env : Env Int) (s : EventLoop Q) (c : EventLoop Q × Int) : Prop :=
  WhileLoop.Visits (passStep env (snapshot env s)) ({ s with tick := s.tick + 1 }, 0) c

abbrev Step (env : Env Int) : EventLoop Q → Op Int → EventLoop Q → Prop :=
  LoopStep (runCall env) (fun op s => { s with toFileTable := op.apply s.toFileTable })
    aeResizeSetSize (processTimeEvents env)

def Run (env : Env Int) (allowed : EventLoop Q → Op Int → Prop) : EventLoop Q → Prop :=
  WhileLoop.Reach (fun s => ∃ mem setsize, aeCreateEventLoop env mem setsize = some s)
    (Step env) allowed

def fresh (env : Env Int) : EventLoop (SortedQueue TimeEvent Earlier) :=
  { Loop.fresh env with timeMinHead := empty, setDelTimeId := ∅ }

theorem fresh_run (env : Env Int)
    (allowed : EventLoop (SortedQueue TimeEvent Earlier) → Op Int → Prop) :
    Run env allowed (fresh env) :=
  .start ⟨zeroedMemory, 4, by rw [aeCreateEventLoop, Loop.create_eq_fresh]; rfl⟩

end AeEventLoop.Ae2
