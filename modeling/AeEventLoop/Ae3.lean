import AeEventLoop.WhileLoop
import AeEventLoop.KeyedSet
import AeEventLoop.Timer

/-! `ae3.cpp`: timers in a `std::map` from deadline to the `std::set` of timers with it, ordered by
id. A pass walks map and sets with iterators while callbacks insert into and erase from the very
containers; the buckets it has walked and the timers to arm again wait in two vectors until the
walk is over. Iterators are keys. An iterator whose element a callback has erased is dangling:
the code reads and advances it all the same, which is undefined, and `undef` records that.
The finalizer of a timer is stored and never called. -/

namespace AeEventLoop.Ae3

abbrev Bucket : Type := KeyedSet TimeEvent.id

abbrev TimeEventMap : Type := KeyedSet (Prod.fst : Int × Bucket → Int)

/-- `te.when_sec * 1000 + te.when_ms`, a `long`. -/
def timeKey (te : TimeEvent) : Int := long (millis te.deadline)

namespace TimeEventMap

/-- What `(*timeEventMap)[k]` refers to; an absent bucket springs up empty. -/
def bucket (m : TimeEventMap) (k : Int) : Bucket :=
  match m.find? k with
  | some p => p.2
  | none => .empty

/-- `(*timeEventMap)[timeKey te].insert(te)`. -/
def insertTimer (m : TimeEventMap) (te : TimeEvent) : TimeEventMap :=
  m.put (timeKey te, (bucket m (timeKey te)).insert te)

/-- `(*timeEventMap)[timeKey te].erase(te)`, and the bucket goes if that leaves it empty. -/
def eraseTimer (m : TimeEventMap) (te : TimeEvent) : TimeEventMap :=
  let left := (bucket m (timeKey te)).erase te.id
  if left.elems.length ≤ 0 then (m.put (timeKey te, left)).erase (timeKey te)
  else m.put (timeKey te, left)

def timers (m : TimeEventMap) : List TimeEvent := m.elems.flatMap fun p => p.2.elems

end TimeEventMap

open TimeEventMap

structure EventLoop extends Loop TimeEvent where
  timeEventMap : TimeEventMap
  undef : Bool

def aeCreateEventLoop (env : Env TimeEvent) (mem : Memory) (setsize : Int) : Option EventLoop :=
  (Loop.create env mem setsize).map fun l => { l with timeEventMap := .empty, undef := false }

def aeResizeSetSize (mem : Memory) (s : EventLoop) (setsize : Int) : Int × EventLoop :=
  if setsize = s.setsize then (AE_OK, s)
  else if s.maxfd ≥ setsize then (AE_ERR, s)
  else (AE_OK,
    { s with
      timeEventMap := .empty
      toFileTable := s.toFileTable.realloc mem setsize })

def aeCreateTimeEvent (env : Env TimeEvent) (s : EventLoop) (milliseconds : Int)
    (proc clientData : ℕ) (finalizerProc : Option ℕ) : Int × EventLoop :=
  let te := s.newTimeEvent env milliseconds proc clientData finalizerProc
  (te.id,
    { s with
      timeEventNextId := s.timeEventNextId + 1
      tick := s.tick + 1
      timeEventMap := insertTimer s.timeEventMap te
      trace := s.trace ++ [.created te] })

def aeDeleteTimeEvent (s : EventLoop) (te : TimeEvent) : Int × EventLoop :=
  (AE_OK,
    { s with
      timeEventMap := eraseTimer s.timeEventMap te
      trace := s.trace ++ [.deleted te AE_OK] })

def aeSearchNearestTimer (s : EventLoop) : Option TimeEvent :=
  match s.timeEventMap.first? with
  | none => none
  | some p => p.2.first?

def runCall (env : Env TimeEvent) (s : EventLoop) : TimerCall TimeEvent → EventLoop
  | .create milliseconds proc clientData finalizerProc =>
      (aeCreateTimeEvent env s milliseconds proc clientData finalizerProc).2
  | .delete te => (aeDeleteTimeEvent s te).2

def runCalls (env : Env TimeEvent) (s : EventLoop) (calls : List (TimerCall TimeEvent)) :
    EventLoop :=
  calls.foldl (runCall env) s

def log (s : EventLoop) (e : Event TimeEvent) : EventLoop := { s with trace := s.trace ++ [e] }

/-- Where the two nested `for` loops are: `mit` at a key or at `end()`, and inside a bucket also
`sit` at an id or at `end()`. -/
inductive Cursor
  | outer (mit : Option Int)
  | inner (mit : Int) (sit : Option Int)

structure Pass where
  loop : EventLoop
  cursor : Cursor
  processed : Int
  vecDelTimeMs : List Int
  vecAddTimeEvent : List TimeEvent

def runTimeProc (env : Env TimeEvent) (s : EventLoop) (te : TimeEvent) : EventLoop :=
  let script := env.timeProc s.trace te
  log (runCalls env (log s (.called te)) script.calls) (.returned te script.retval)

/-- `tmp` with its new deadline, put off in `vecAddTimeEvent`. -/
def rearm (env : Env TimeEvent) (c : Pass) (te : TimeEvent) (retval : Int) : Pass :=
  let tmp := te.setWhen (aeAddMillisecondsToNow (env.gettimeofday c.loop.tick) retval)
  { c with
    loop := log { c.loop with tick := c.loop.tick + 1 } (.rearmed tmp)
    vecAddTimeEvent := c.vecAddTimeEvent ++ [tmp] }

/-- The body of the inner loop at `te`, and `++sit`. -/
def fire (env : Env TimeEvent) (c : Pass) (mit : Int) (te : TimeEvent) : Pass :=
  let retval := (env.timeProc c.loop.trace te).retval
  let c := { c with loop := runTimeProc env c.loop te }
  let b := bucket c.loop.timeEventMap mit
  match b.find? te.id with
  | none => { c with loop := { c.loop with undef := true } }
  | some _ =>
      let c := if retval ≠ AE_NOMORE then rearm env c te retval else c
      { c with cursor := .inner mit ((b.next? te.id).map TimeEvent.id) }

/-- One step of the walk. The inner loop has found `sit` where it left it, or `fire` has said
otherwise. -/
def passStep (env : Env TimeEvent) (lNow : Int) (c : Pass) : Option Pass :=
  if c.loop.undef then none
  else
    match c.cursor with
    | .outer none => none
    | .outer (some k) =>
        if k ≤ lNow then
          some { c with
            cursor := .inner k ((bucket c.loop.timeEventMap k).first?.map TimeEvent.id) }
        else none
    | .inner k (some id) =>
        match (bucket c.loop.timeEventMap k).find? id with
        | none => some { c with loop := { c.loop with undef := true } }
        | some te => some (fire env c k te)
    | .inner k none =>
        some { c with
          processed := c.processed + (bucket c.loop.timeEventMap k).elems.length
          vecDelTimeMs := c.vecDelTimeMs ++ [k]
          cursor := .outer ((c.loop.timeEventMap.next? k).map Prod.fst) }

def lNow (env : Env TimeEvent) (s : EventLoop) : Int :=
  long (millis (aeGetTime (env.gettimeofday s.tick)))

def passStart (s : EventLoop) : Pass where
  loop := { s with tick := s.tick + 1 }
  cursor := .outer (s.timeEventMap.first?.map Prod.fst)
  processed := 0
  vecDelTimeMs := []
  vecAddTimeEvent := []

/-- The two loops over the vectors. -/
def finish (c : Pass) : EventLoop × Int :=
  if c.loop.undef then (c.loop, c.processed)
  else
    ({ c.loop with
        timeEventMap := c.vecAddTimeEvent.foldl insertTimer
          (c.vecDelTimeMs.foldl KeyedSet.erase c.loop.timeEventMap) },
      c.processed)

def processTimeEvents (env : Env TimeEvent) (fuel : ℕ) (s : EventLoop) :
    Option (EventLoop × Int) :=
  (WhileLoop.run (passStep env (lNow env s)) fuel (passStart s)).map finish

def PassVisits (env : Env TimeEvent) (s : EventLoop) (c : Pass) : Prop :=
  WhileLoop.Visits (passStep env (lNow env s)) (passStart s) c

theorem processTimeEvents_unique {env : Env TimeEvent} {s : EventLoop} {i j : ℕ}
    {a b : EventLoop × Int} (ha : processTimeEvents env i s = some a)
    (hb : processTimeEvents env j s = some b) : a = b := by
  obtain ⟨c, hc, rfl⟩ := Option.map_eq_some_iff.mp ha
  obtain ⟨d, hd, rfl⟩ := Option.map_eq_some_iff.mp hb
  rw [WhileLoop.run_unique hc hd]

abbrev Step (env : Env TimeEvent) : EventLoop → Op TimeEvent → EventLoop → Prop :=
  LoopStep (runCall env) (fun op s => { s with toFileTable := op.apply s.toFileTable })
    aeResizeSetSize (processTimeEvents env)

def Run (env : Env TimeEvent) (allowed : EventLoop → Op TimeEvent → Prop) : EventLoop → Prop :=
  WhileLoop.Reach (fun s => ∃ mem setsize, aeCreateEventLoop env mem setsize = some s)
    (Step env) allowed

def fresh (env : Env TimeEvent) : EventLoop :=
  { Loop.fresh env with timeEventMap := .empty, undef := false }

theorem fresh_run (env : Env TimeEvent) (allowed : EventLoop → Op TimeEvent → Prop) :
    Run env allowed (fresh env) :=
  .start ⟨zeroedMemory, 4, by rw [aeCreateEventLoop, Loop.create_eq_fresh]; rfl⟩

end AeEventLoop.Ae3
