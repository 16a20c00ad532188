import AeEventLoop.AeMain
import AeEventLoop.AeNodes
import AeEventLoop.TcpMain

/-! The timer test of `time_event.cpp`, built on `ae.c`. `main` creates timers of random delays, each
with an object of its own; a callback frees the object, sometimes deletes another timer at random,
and ends its timer. The callback keeps a static set of the ids it has dealt with when it last drew,
its own among them, so it never deletes its own timer. `beforeSleepProc` stops the loop when the list
is empty. No descriptor is ever registered. -/

namespace AeEventLoop

namespace Ae

/-- Every callback ends its timer and creates none, and finalizers call nothing. -/
structure Deleting (env : Env Int) : Prop where
  returns : ∀ tr te, (env.timeProc tr te).retval = AE_NOMORE
  calls : ∀ tr te, ∀ call ∈ (env.timeProc tr te).calls, ∃ id, call = .delete id
  finalizers : ∀ tr te, env.finalizerProc tr te = []

/-- The events of a pass with such callbacks. -/
def Expiring : Event Int → Prop
  | .created _ => False
  | .rearmed _ => False
  | .returned _ retval => retval = AE_NOMORE
  | _ => True

structure Expired (s t : EventLoop) : Prop where
  next : t.timeEventNextId = s.timeEventNextId
  trace : ∃ new, t.trace = s.trace ++ new ∧ ∀ e ∈ new, Expiring e

section Pass

variable {env : Env Int} {maxId : Int} {c c' : Pass} {s t u : EventLoop} {seg : List (Event Int)}
  {xs : List (ℕ × TimeEvent)}

theorem Expired.same (next : t.timeEventNextId = s.timeEventNextId) (trace : t.trace = s.trace) :
    Expired s t := ⟨next, [], by simp [trace], by simp⟩

theorem Expired.trans (first : Expired s t) (second : Expired t u) : Expired s u := by
  obtain ⟨a, ha, quiet⟩ := first.trace
  obtain ⟨b, hb, quiet'⟩ := second.trace
  refine ⟨second.next.trans first.next, a ++ b, by rw [hb, ha, List.append_assoc], fun e he => ?_⟩
  exact (List.mem_append.mp he).elim (quiet e) (quiet' e)

theorem Expired.log (expired : Expired s t) {e : Event Int} (he : Expiring e) :
    Expired s (log t e) := expired.trans ⟨rfl, [e], rfl, by simpa using he⟩

theorem Expired.store (expired : Expired s t) (l : Option (LinkedStore TimeEvent)) :
    Expired s (store t l) := by
  unfold Ae.store
  split <;> exact ⟨expired.next, expired.trace⟩

theorem aeDeleteTimeEvent_expired (s : EventLoop) (id : Int) :
    Expired s (aeDeleteTimeEvent s id).2 := by
  unfold aeDeleteTimeEvent
  split
  · exact .same rfl rfl
  · exact (Expired.same rfl rfl).log trivial
  · exact ((Expired.same rfl rfl).store _).log trivial

theorem runCalls_expired (env : Env Int) {calls : List (TimerCall Int)}
    (deletes : ∀ call ∈ calls, ∃ id, call = .delete id) (s : EventLoop) :
    Expired s (runCalls env s calls) := by
  induction calls generalizing s with
  | nil => exact .same rfl rfl
  | cons call calls ih =>
      obtain ⟨id, rfl⟩ := deletes call List.mem_cons_self
      have rest := ih (fun call' h => deletes call' (List.mem_cons_of_mem _ h))
        (aeDeleteTimeEvent s id).2
      exact (aeDeleteTimeEvent_expired s id).trans rest

theorem advance_expired (c : Pass) (p : ℕ) : Expired c.loop (advance c p).loop := by
  unfold advance
  split <;> exact .same rfl rfl

theorem Deleting.sweep (deleting : Deleting env) (c : Pass) (p : ℕ) (cell : Cell TimeEvent) :
    Expired c.loop (sweep env c p cell).loop := by
  have unlinked : Expired c.loop (Ae.log (Ae.store c.loop (c.loop.timeEvents.unlink p))
      (.unlinked cell.val)) := ((Expired.same rfl rfl).store _).log trivial
  have finalized := unlinked.trans (u := runFinalizer env (Ae.log (Ae.store c.loop
    (c.loop.timeEvents.unlink p)) (.unlinked cell.val)) cell.val) ?_
  · exact finalized.trans (.same rfl rfl)
  · unfold runFinalizer
    split
    · exact .same rfl rfl
    · rw [deleting.finalizers]
      exact (Expired.same rfl rfl).log trivial

theorem Deleting.fire (deleting : Deleting env) (c : Pass) (p : ℕ) (te : TimeEvent) :
    Expired c.loop (fire env c p te).loop := by
  have ran : Expired c.loop (runTimeProc env c.loop te) := by
    have called : Expired c.loop (Ae.log c.loop (.called te)) := (Expired.same rfl rfl).log trivial
    refine Expired.log ?_ (deleting.returns c.loop.trace te)
    exact called.trans (runCalls_expired env (deleting.calls c.loop.trace te) _)
  simp only [Ae.fire, deleting.returns, ne_eq, not_true_eq_false, if_false]
  exact ran.store _

theorem Deleting.passStep (deleting : Deleting env) (h : passStep env maxId c = some c') :
    Expired c.loop c'.loop := by
  unfold Ae.passStep at h
  split at h
  · cases h
  split at h
  · cases h
  split at h
  · obtain rfl := Option.some.inj h
    exact .same rfl rfl
  next p _ _ cell _ =>
    have reached : Expired c.loop (reachTimer env c cell.val).loop :=
      (Expired.same rfl rfl : Expired c.loop { c.loop with tick := c.loop.tick + 1 }).log trivial
    dsimp only at h
    split_ifs at h with marked new due
    · obtain rfl := Option.some.inj h
      exact deleting.sweep c p cell
    · obtain rfl := Option.some.inj h
      exact advance_expired c p
    · obtain rfl := Option.some.inj h
      exact reached.trans (deleting.fire (reachTimer env c cell.val) p cell.val)
    · obtain rfl := Option.some.inj h
      exact reached.trans (advance_expired (reachTimer env c cell.val) p)

theorem Deleting.pass (deleting : Deleting env) {fuel : ℕ} {n : Int}
    (h : processTimeEvents env fuel s = some (t, n)) : Expired s t := by
  obtain ⟨c, run, same⟩ := Option.map_eq_some_iff.mp h
  obtain ⟨rfl, -⟩ := Prod.mk.inj same
  refine (WhileLoop.run_invariant (fun c => Expired s c.loop) (fun _ => True)
    (fun a b before _ body => before.trans (deleting.passStep body)) (fun _ _ => trivial) ?_ run).1
  simp only [passStart, skew]
  split_ifs
  · exact ((Expired.same rfl rfl).store _).trans (.same rfl rfl)
  · exact .same rfl rfl

theorem createdIn_of_expiring (quiet : ∀ e ∈ seg, Expiring e) : createdIn seg = [] :=
  List.eq_nil_iff_forall_not_mem.mpr fun _ h => quiet _ (mem_createdIn.mp h)

theorem rearmedIn_of_expiring (quiet : ∀ e ∈ seg, Expiring e) : rearmedIn seg = [] :=
  List.eq_nil_iff_forall_not_mem.mpr fun _ h => quiet _ (mem_rearmedIn.mp h)

theorem Nodes.ok (nodes : Nodes ∅ s xs) (unmarked : Unmarked xs) : Ok s xs := by
  have account := nodes.account
  rw [liveIds_of_unmarked unmarked] at account
  have nonneg := nodes.next
  have nodup : (idsBelow s.timeEventNextId).Nodup :=
    (List.nodup_range).map Nat.cast_injective
  refine ⟨nodes.undef, nodes.repr, (account.nodup_iff.mpr nodup).of_append_left, fun x hx => ?_,
    nodes.next⟩
  have listed : x.2.id ∈ idsBelow s.timeEventNextId :=
    account.subset (List.mem_append_left _ (List.mem_map_of_mem hx))
  obtain ⟨i, hi, same⟩ := List.mem_map.mp listed
  have below := List.mem_range.mp hi
  constructor <;> omega

end Pass

end Ae

namespace TimeEventTest

open Ae

/-- What the program draws on: `rand`, the clocks, and the addresses that `new CTimeVal` gives it. -/
structure World where
  rand : ℕ → ℕ
  gettimeofday : ℕ → Timeval
  time : ℕ → Int
  newTimeVal : ℕ ↪ ℕ
  notNull : ∀ i, newTimeVal i ≠ 0

/-- What `evTimeProc` keeps from call to call: its static set, and how often `rand` was called. -/
structure Statics where
  setDelId : Finset Int
  rands : ℕ

/-- `evTimeProc`, but for the object it frees. -/
def evTimeProc (rand : ℕ → ℕ) (g_iTimerNum : ℕ) (st : Statics) (id : Int) :
    Statics × Script Int :=
  if rand st.rands % 2 = 1 then
    let setDelId := insert id st.setDelId
    let iDelId : Int := (rand (st.rands + 1) % g_iTimerNum : ℕ)
    if iDelId ∈ setDelId then (⟨setDelId, st.rands + 2⟩, ⟨[], AE_NOMORE⟩)
    else (⟨insert iDelId setDelId, st.rands + 2⟩, ⟨[.delete iDelId], AE_NOMORE⟩)
  else (⟨st.setDelId, st.rands + 1⟩, ⟨[], AE_NOMORE⟩)

/-- The statics after the calls so far; `main` has drawn a delay for each timer. -/
def statics (rand : ℕ → ℕ) (g_iTimerNum : ℕ) (tr : List (Event Int)) : Statics :=
  (calledIn tr).foldl (fun st te => (evTimeProc rand g_iTimerNum st te.id).1) ⟨∅, g_iTimerNum⟩

def freedIn (tr : List (Event Int)) : List ℕ :=
  ((calledIn tr).map TimeEvent.clientData).filter fun clientData => clientData ≠ 0

def EV_TIME_PROC : ℕ := 1

variable (w : World) (g_iTimerNum : ℕ)

def env : Env Int where
  gettimeofday := w.gettimeofday
  time := w.time
  timeProc tr te := (evTimeProc w.rand g_iTimerNum (statics w.rand g_iTimerNum tr) te.id).2
  finalizerProc _ _ := []

/-- `iTime`. -/
def delay (i : ℕ) : Int := (w.rand i % 10 + 1 : ℕ)

def addTimer (s : EventLoop) (i : ℕ) : EventLoop :=
  (aeCreateTimeEvent (env w g_iTimerNum) s (delay w i) EV_TIME_PROC (w.newTimeVal i) none).2

structure Program where
  loop : EventLoop
  stop : Bool

def beforeSleepProc (s : Program) : Program :=
  if s.loop.maxfd < 0 then
    if s.loop.timeEvents.head = none then { s with stop := true } else s
  else s

/-- The program behind `aeMain`. It registers no file handler. -/
def program : MainBackend Program where
  table s := s.loop.toFileTable
  setTable t s := { s with loop := { s.loop with toFileTable := t } }
  call _ s := s
  aeSearchNearestTimer s := aeSearchNearestTimer s.loop
  now s := aeGetTime (w.gettimeofday s.loop.tick)
  readClock s := { s with loop := { s.loop with tick := s.loop.tick + 1 } }
  aftersleep s := s
  processTimeEvents fuel s :=
    (processTimeEvents (env w g_iTimerNum) fuel s.loop).map fun r => ({ s with loop := r.1 }, r.2)
  stop := Program.stop
  setStop stop s := { s with stop := stop }
  beforesleep := some beforeSleepProc

def prepared (loop : EventLoop) : Program :=
  ⟨(List.range g_iTimerNum).foldl (addTimer w g_iTimerNum) loop, false⟩

variable {w g_iTimerNum}

theorem env_deleting : Deleting (env w g_iTimerNum) where
  returns tr te := by
    simp only [env, evTimeProc]
    split_ifs <;> rfl
  calls tr te call h := by
    simp only [env, evTimeProc] at h
    split_ifs at h
    · cases h
    · exact ⟨_, List.mem_singleton.mp h⟩
    · cases h
  finalizers _ _ := rfl

theorem env_gentle : Gentle (env w g_iTimerNum) where
  callbacks tr te h := by
    simp only [env, evTimeProc] at h
    split_ifs at h with coin known
    · cases h
    · obtain same := TimerCall.delete.inj (List.mem_singleton.mp h)
      exact known (same ▸ Finset.mem_insert_self _ _)
    · cases h
  finalizers tr te id h := by cases h

variable (w) in
def deadline (i : ℕ) : Int × Int := aeAddMillisecondsToNow (w.gettimeofday (i + 1)) (delay w i)

/-- One of the first `n` timers, up to a clock set back. -/
def Made (w : World) (n : ℕ) (te : TimeEvent) : Prop :=
  ∃ i < n, te.id = i ∧ te.clientData = w.newTimeVal i ∧ te.when_ms = (deadline w i).2 ∧
    (te.when_sec = (deadline w i).1 ∨ te.when_sec = 0)

/-- The first `n` timers have been created, and `xs` of them are pending. -/
structure Timed (w : World) (n : ℕ) (s : EventLoop) (xs : List (ℕ × TimeEvent)) : Prop where
  nodes : Nodes ∅ s xs
  unmarked : Unmarked xs
  next : s.timeEventNextId = n
  ended : endedIn s.trace = (calledIn s.trace).map TimeEvent.id
  listed : ∀ x ∈ xs, Made w n x.2
  called : ∀ te ∈ calledIn s.trace, Made w n te
  maxfd : s.maxfd = -1
  kernel : ∀ fd, s.interest fd = none

section Timed

variable {n : ℕ} {s t : EventLoop} {xs : List (ℕ × TimeEvent)}

theorem Made.mono {te : TimeEvent} {m : ℕ} (made : Made w n te) (more : n ≤ m) : Made w m te := by
  obtain ⟨i, hi, rest⟩ := made
  exact ⟨i, hi.trans_le more, rest⟩

theorem Made.zeroed {te : TimeEvent} (made : Made w n te) : Made w n { te with when_sec := 0 } := by
  obtain ⟨i, hi, id, data, ms, -⟩ := made
  exact ⟨i, hi, id, data, ms, .inr rfl⟩

theorem Made.due {te : TimeEvent} (made : Made w n te) {now : Int × Int} (late : 0 < now.1)
    (past : ∀ i < n, Due (deadline w i) now) : Due te.deadline now := by
  obtain ⟨i, hi, -, -, ms, sec | sec⟩ := made
  · have same : te.deadline = deadline w i := Prod.ext sec ms
    rw [same]
    exact past i hi
  · exact .inl (sec.trans_lt late)

theorem Timed.tick (timed : Timed w n s xs) (k : ℕ) : Timed w n { s with tick := k } xs where
  nodes := timed.nodes.same rfl rfl rfl rfl rfl
  unmarked := timed.unmarked
  next := timed.next
  ended := timed.ended
  listed := timed.listed
  called := timed.called
  maxfd := timed.maxfd
  kernel := timed.kernel

theorem Timed.start {mem : Memory} {setsize : Int}
    (h : aeCreateEventLoop (env w g_iTimerNum) mem setsize = some s) :
    Timed w 0 s [] ∧ s.tick = 1 := by
  have nodes := start_nodes h
  obtain ⟨l, hl, rfl⟩ := Option.map_eq_some_iff.mp h
  obtain ⟨files, hf, rfl⟩ := Option.map_eq_some_iff.mp hl
  unfold FileTable.create at hf
  split_ifs at hf
  obtain rfl := Option.some.inj hf
  exact ⟨⟨nodes, by simp [Unmarked], rfl, rfl, by simp, by simp, rfl, fun _ => rfl⟩, rfl⟩

theorem Timed.addTimer (timed : Timed w n s xs) (tick : s.tick = n + 1) :
    (∃ ys, Timed w (n + 1) (addTimer w g_iTimerNum s n) ys) ∧
      (addTimer w g_iTimerNum s n).tick = n + 1 + 1 := by
  let e := env w g_iTimerNum
  let te := s.newTimeEvent e (delay w n) EV_TIME_PROC (w.newTimeVal n) none
  obtain ⟨l, eq, -⟩ := aeCreateTimeEvent_eq timed.nodes.repr e (delay w n) EV_TIME_PROC
    (w.newTimeVal n) none
  obtain ⟨nodes, -⟩ := timed.nodes.create e (delay w n) EV_TIME_PROC (w.newTimeVal n) none
  have made : Made w (n + 1) te := by
    refine ⟨n, n.lt_succ_self, timed.next, rfl, ?_, .inl ?_⟩ <;>
      simp only [te, e, Loop.newTimeEvent, tick, deadline, env]
  have trace : (TimeEventTest.addTimer w g_iTimerNum s n).trace = s.trace ++ [.created te] := by
    rw [TimeEventTest.addTimer, eq]
  refine ⟨⟨(s.timeEvents.fresh, te) :: xs, nodes, fun x hx => ?_, ?_, ?_, fun x hx => ?_,
    fun x hx => ?_, ?_, fun fd => ?_⟩, ?_⟩
  · rcases List.mem_cons.mp hx with rfl | old
    · obtain ⟨i, -, id, -⟩ := made
      simp only [id, AE_DELETED_EVENT_ID]
      omega
    · exact timed.unmarked x old
  · rw [TimeEventTest.addTimer, eq]
    exact congrArg (· + 1) timed.next
  · rw [trace, endedIn_append, calledIn_append, List.map_append, timed.ended]
    rfl
  · rcases List.mem_cons.mp hx with rfl | old
    · exact made
    · exact (timed.listed x old).mono n.le_succ
  · rw [trace, calledIn_append] at hx
    exact (timed.called x (by simpa using hx)).mono n.le_succ
  · rw [TimeEventTest.addTimer, eq]
    exact timed.maxfd
  · rw [TimeEventTest.addTimer, eq]
    exact timed.kernel fd
  · rw [TimeEventTest.addTimer, eq]
    exact congrArg (· + 1) tick

theorem prepared_timed {mem : Memory} {setsize : Int} {loop : EventLoop}
    (h : aeCreateEventLoop (env w g_iTimerNum) mem setsize = some loop) :
    ∃ xs, Timed w g_iTimerNum (prepared w g_iTimerNum loop).loop xs := by
  have upTo : ∀ n, (∃ xs, Timed w n
      ((List.range n).foldl (addTimer w g_iTimerNum) loop) xs) ∧
      ((List.range n).foldl (addTimer w g_iTimerNum) loop).tick = n + 1 := by
    intro n
    induction n with
    | zero => exact ⟨⟨[], (Timed.start h).1⟩, (Timed.start h).2⟩
    | succ n ih =>
        obtain ⟨⟨xs, timed⟩, tick⟩ := ih
        rw [List.range_succ, List.foldl_append]
        exact timed.addTimer tick
  exact (upTo g_iTimerNum).1

/-- What a pass does: the timers it called ended, and when all were due none is left. -/
theorem Timed.pass (timed : Timed w n s xs) {fuel : ℕ} {m : Int}
    (h : processTimeEvents (env w g_iTimerNum) fuel s = some (t, m)) :
    ∃ ys, Timed w n t ys ∧ s.tick < t.tick ∧
      ((∀ k, s.tick < k → 0 < (w.gettimeofday k).tv_sec ∧
        ∀ i < n, Due (deadline w i) (aeGetTime (w.gettimeofday k))) → ys = []) := by
  have ok := timed.nodes.ok timed.unmarked
  obtain ⟨fuel', u, zs, m', seg, h', after, exact'⟩ := pass_exact env_gentle ok
  obtain ⟨rfl, rfl⟩ := Prod.mk.inj (processTimeEvents_unique h' h)
  obtain ⟨ys, nodes, unmarked⟩ := pass_nodes timed.nodes timed.unmarked h after.undef
  obtain ⟨next, new, trace, quiet⟩ := env_deleting.pass h
  obtain rfl := List.append_cancel_left (exact'.trace.symm.trans trace)
  have ended := endedIn_of_last (fun te r mem => quiet _ mem) exact'.account.returned
  have old : ∀ te ∈ pending (env w g_iTimerNum) s xs, Made w n te := by
    intro te hte
    rw [pending] at hte
    split_ifs at hte
    · obtain ⟨x, hx, rfl⟩ := List.mem_map.mp hte
      exact (timed.listed x hx).zeroed
    · obtain ⟨x, hx, rfl⟩ := List.mem_map.mp hte
      exact timed.listed x hx
  have reached : ∀ r ∈ reachedIn seg, r.1 ∈ pending (env w g_iTimerNum) s xs := by
    intro r hr
    have met : r.1 ∈ (reachedIn seg).map Prod.fst := List.mem_map_of_mem hr
    rw [exact'.visits] at met
    exact List.mem_of_mem_filter met
  have left : ys.map Prod.snd = (pending (env w g_iTimerNum) s xs).filterMap (survivor seg) := by
    rw [← LinkedStore.contents_repr nodes.repr, LinkedStore.contents_repr after.repr, exact'.after,
      createdIn_of_expiring quiet]
    rfl
  have kept : ∀ te ∈ ys.map Prod.snd, te ∈ pending (env w g_iTimerNum) s xs ∧
      te.id ∉ deletedIn seg ∧ te.id ∉ endedIn seg := by
    intro te hte
    rw [left] at hte
    obtain ⟨x, hx, is⟩ := List.mem_filterMap.mp hte
    rw [survivor, rearmedIn_of_expiring quiet] at is
    split_ifs at is with gone
    obtain rfl := Option.some.inj is
    rw [not_or] at gone
    exact ⟨hx, gone⟩
  refine ⟨ys, ⟨nodes, unmarked, next.trans timed.next, ?_, fun x hx => ?_, fun te hte => ?_,
    ?_, fun fd => ?_⟩, (pass_counts env_gentle ok h).1, fun clock => ?_⟩
  · rw [trace, endedIn_append, calledIn_append, List.map_append, timed.ended, ended]
  · exact old _ (kept _ (List.mem_map_of_mem hx)).1
  · rw [trace, calledIn_append] at hte
    rcases List.mem_append.mp hte with before | now
    · exact timed.called te before
    · rw [exact'.account.calls] at now
      obtain ⟨r, hr, rfl⟩ := List.mem_map.mp now
      exact old _ (reached r (List.mem_of_mem_filter hr))
  · rw [exact'.files]
    exact timed.maxfd
  · rw [exact'.files]
    exact timed.kernel fd
  · refine List.eq_nil_iff_forall_not_mem.mpr fun y hy => ?_
    obtain ⟨found, undeleted, unended⟩ := kept y.2 (List.mem_map_of_mem hy)
    have met : y.2 ∈ (reachedIn seg).map Prod.fst := by
      rw [exact'.visits]
      exact List.mem_filter.mpr ⟨found, by simp [deletedFirst_of_kept undeleted]⟩
    obtain ⟨⟨te, now⟩, hr, same⟩ := List.mem_map.mp met
    obtain rfl : te = y.2 := same
    obtain ⟨pre, occurs⟩ := exists_occurs (mem_reachedIn.mp hr)
    have now_eq := exact'.account.readings pre y.2 now occurs
    obtain ⟨late, past⟩ := clock (s.tick + 1 + readsIn pre) (by omega)
    have due : Due y.2.deadline now := by
      rw [now_eq]
      exact (old _ found).due late past
    refine unended ?_
    rw [ended, exact'.account.calls]
    exact List.mem_map.mpr ⟨y.2, List.mem_map.mpr ⟨(y.2, now), List.mem_filter.mpr
      ⟨hr, decide_eq_true due⟩, rfl⟩, rfl⟩

theorem Timed.ends (timed : Timed w n s xs) : ∃ fuel t m,
    processTimeEvents (env w g_iTimerNum) fuel s = some (t, m) := by
  obtain ⟨fuel, t, -, m, -, h, -⟩ :=
    pass_exact (@env_gentle w g_iTimerNum) (timed.nodes.ok timed.unmarked)
  exact ⟨fuel, t, m, h⟩

end Timed

section Main

variable {n : ℕ} {s : EventLoop} {xs : List (ℕ × TimeEvent)}
  {poll : Program → Int → List (ℕ × Mask)}

def Faithful (poll : Program → Int → List (ℕ × Mask)) : Prop :=
  ∀ s timeout, ∀ r ∈ poll s timeout, s.loop.interest r.1 ≠ none

theorem program_drains (faithful : Faithful poll) {k : ℕ}
    (clock : ∀ j, k ≤ j → 0 < (w.gettimeofday j).tv_sec ∧
      ∀ i < n, Due (deadline w i) (aeGetTime (w.gettimeofday j))) :
    (program w g_iTimerNum).Drains poll (fun s => ∃ xs, Timed w n s.loop xs)
      (fun s => s.loop.timeEvents.head = none) (fun s => s.loop.tick) k where
  stops s inv empty := by
    obtain ⟨xs, timed⟩ := inv
    have hooked : (program w g_iTimerNum).hooked s = { s with stop := true } := by
      change beforeSleepProc s = _
      rw [beforeSleepProc, if_pos (by rw [timed.maxfd]; decide), if_pos empty]
    rw [hooked]
    exact ⟨rfl, ⟨xs, timed⟩, empty⟩
  waits s inv pending := by
    obtain ⟨xs, timed⟩ := inv
    change beforeSleepProc s = _
    rw [beforeSleepProc, if_pos (by rw [timed.maxfd]; decide), if_neg pending]
  iterates s inv _ runs := by
    obtain ⟨loop, stop⟩ := s
    obtain rfl : stop = false := runs
    obtain ⟨xs, timed⟩ := inv
    dsimp only at timed
    let b := program w g_iTimerNum
    let flags := AE_ALL_EVENTS ||| AE_CALL_AFTER_SLEEP
    obtain ⟨j, later, asleep⟩ : ∃ j, loop.tick ≤ j ∧
        b.sleep flags ⟨loop, false⟩ = ⟨{ loop with tick := j }, false⟩ := by
      unfold Backend.sleep
      split
      · exact ⟨loop.tick + 1, Nat.le_succ _, rfl⟩
      · exact ⟨loop.tick, le_refl _, rfl⟩
    have silent : poll ⟨{ loop with tick := j }, false⟩ (b.timeout flags ⟨loop, false⟩) = [] :=
      List.eq_nil_iff_forall_not_mem.mpr fun r hr => faithful _ _ r hr (timed.kernel r.1)
    obtain ⟨fuel, t, m, pass⟩ := @Timed.ends w g_iTimerNum n _ xs (timed.tick j)
    obtain ⟨ys, timed', tick, none⟩ := (timed.tick j).pass pass
    dsimp only at tick none
    refine ⟨fuel, ⟨t, false⟩, 0 + m, ?_, ⟨ys, timed'⟩, rfl, ?_, fun late => ?_⟩
    · rw [Backend.aeProcessEvents_silent fuel asleep silent]
      change Option.map _ (Option.map _
        (Ae.processTimeEvents _ fuel { loop with tick := j })) = _
      rw [pass]
      rfl
    · exact later.trans_lt tick
    · dsimp only at late ⊢
      rw [timed'.nodes.repr.head, none fun i hi => clock i (by omega)]
      rfl

theorem processTimeEvents_mono (env : Env Int) {i j : ℕ} {s : EventLoop} {r : EventLoop × Int}
    (more : i ≤ j) (h : processTimeEvents env i s = some r) :
    processTimeEvents env j s = some r := by
  obtain ⟨c, walk, rfl⟩ := Option.map_eq_some_iff.mp h
  rw [Ae.processTimeEvents, WhileLoop.run_mono more walk, Option.map_some]

/-- When every timer was called or is `gone`, the objects freed are those of the timers called. -/
theorem freed_exact {calls : List TimeEvent} {gone : List Int}
    (split : (calls.map TimeEvent.id ++ gone).Perm (idsBelow n))
    (data : ∀ te ∈ calls, ∃ i : ℕ, te.id = i ∧ te.clientData = w.newTimeVal i) :
    ((calls.map TimeEvent.clientData).filter fun clientData => clientData ≠ 0).Nodup ∧
      ∀ i < n, w.newTimeVal i ∈
        (calls.map TimeEvent.clientData).filter (fun clientData => clientData ≠ 0) ↔
          (i : Int) ∉ gone := by
  have ids : (calls.map TimeEvent.id ++ gone).Nodup :=
    split.nodup_iff.mpr ((List.nodup_range).map Nat.cast_injective)
  have freed : (calls.map TimeEvent.clientData).filter (fun clientData => clientData ≠ 0) =
      calls.map TimeEvent.clientData := by
    rw [List.filter_eq_self]
    intro a ha
    obtain ⟨te, hte, rfl⟩ := List.mem_map.mp ha
    obtain ⟨i, -, object⟩ := data te hte
    exact decide_eq_true (object ▸ w.notNull i)
  rw [freed]
  refine ⟨List.Nodup.map_on (fun x hx y hy same => ?_) ids.of_append_left.of_map, fun i hi => ?_⟩
  · obtain ⟨a, xa, xw⟩ := data x hx
    obtain ⟨b, yb, yw⟩ := data y hy
    have equal : a = b := w.newTimeVal.injective (by rw [← xw, ← yw, same])
    exact List.inj_on_of_nodup_map ids.of_append_left hx hy (by rw [xa, yb, equal])
  · have known : (i : Int) ∈ calls.map TimeEvent.id ++ gone :=
      split.mem_iff.mpr (List.mem_map_of_mem (List.mem_range.mpr (by simpa using hi)))
    constructor
    · intro freed there
      obtain ⟨te, hte, same⟩ := List.mem_map.mp freed
      obtain ⟨a, ta, tw⟩ := data te hte
      have equal : a = i := w.newTimeVal.injective (tw.symm.trans same)
      exact List.disjoint_of_nodup_append ids (List.mem_map.mpr ⟨te, hte, by rw [ta, equal]⟩) there
    · intro kept
      obtain ⟨te, hte, same⟩ := List.mem_map.mp ((List.mem_append.mp known).resolve_right kept)
      obtain ⟨a, ta, tw⟩ := data te hte
      have equal : a = i := by
        rw [ta] at same
        exact_mod_cast same
      exact List.mem_map.mpr ⟨te, hte, by rw [tw, equal]⟩

end Main

/-- The test returns once the clock has passed all deadlines. No freed memory was touched, no node
is left, every timer was called once or deleted once and never both, and the objects freed are those
of the timers called, each freed once. -/
theorem aeMain_accounts {w : World} {g_iTimerNum : ℕ} {mem : Memory} {loop : EventLoop}
    (created : aeCreateEventLoop (env w g_iTimerNum) mem 1024 = some loop)
    {poll : Program → Int → List (ℕ × Mask)} (faithful : Faithful poll) {k : ℕ}
    (clock : ∀ j, k ≤ j → 0 < (w.gettimeofday j).tv_sec ∧
      ∀ i < g_iTimerNum, Due (deadline w i) (aeGetTime (w.gettimeofday j))) :
    ∃ fuel t, (program w g_iTimerNum).aeMain poll fuel (prepared w g_iTimerNum loop) = some t ∧
      t.loop.undef = false ∧ (∀ p, t.loop.timeEvents.cells p = none) ∧
      ((calledIn t.loop.trace).map TimeEvent.id ++ deletedIn t.loop.trace).Perm
        (idsBelow g_iTimerNum) ∧
      (freedIn t.loop.trace).Nodup ∧
      ∀ i < g_iTimerNum, w.newTimeVal i ∈ freedIn t.loop.trace ↔
        (i : Int) ∉ deletedIn t.loop.trace := by
  obtain ⟨xs, timed⟩ := prepared_timed created
  have drains := @program_drains w g_iTimerNum g_iTimerNum poll faithful k clock
  obtain ⟨fuel, t, run, ⟨ys, done⟩, empty⟩ := drains.returns (s := prepared w g_iTimerNum loop)
    (fun i j s r more pass => by
      obtain ⟨q, run, rfl⟩ := Option.map_eq_some_iff.mp pass
      simp only [program, processTimeEvents_mono _ more run, Option.map_some])
    ⟨xs, timed⟩ rfl
  obtain rfl : ys = [] := by
    have head := done.nodes.repr.head
    rw [empty] at head
    exact List.map_eq_nil_iff.mp (List.head?_eq_none_iff.mp head.symm)
  have account := done.nodes.account
  rw [done.ended, done.next] at account
  have split : ((calledIn t.loop.trace).map TimeEvent.id ++ deletedIn t.loop.trace).Perm
      (idsBelow g_iTimerNum) := List.perm_append_comm.trans account
  obtain ⟨once, freed⟩ := freed_exact (w := w) split fun te hte => by
    obtain ⟨i, -, id, data, -⟩ := done.called te hte
    exact ⟨i, id, data⟩
  refine ⟨fuel, t, run, done.nodes.undef, fun p => ?_, split, once, freed⟩
  have allocated := Set.ext_iff.mp done.nodes.allocated p
  simpa [LinkedStore.allocated] using allocated

def steadyWorld : World where
  rand k := k
  gettimeofday k := Timeval.ofMillis (1000 + 20 * k)
  time k := 1 + k / 50
  newTimeVal := ⟨fun i => i + 1, Nat.succ_injective⟩
  notNull := Nat.succ_ne_zero

theorem steadyWorld_clock (j : ℕ) (late : 4 ≤ j) : 0 < (steadyWorld.gettimeofday j).tv_sec ∧
    ∀ i < 3, Due (deadline steadyWorld i) (aeGetTime (steadyWorld.gettimeofday j)) := by
  refine ⟨?_, fun i hi => ?_⟩
  · change 0 < (1000 + 20 * (j : Int)) / 1000
    omega
  · have low : 0 ≤ delay steadyWorld i := Nat.cast_nonneg _
    have high : delay steadyWorld i ≤ 10 := by
      simp only [delay]
      omega
    rw [deadline, due_iff (aeAddMillisecondsToNow_normal _ low) (aeGetTime_normal _),
      millis_aeAddMillisecondsToNow, millis_aeGetTime, millis_aeGetTime]
    generalize delay steadyWorld i = d at low high
    simp only [steadyWorld, Timeval.micros, Timeval.ofMillis]
    omega

theorem aeMain_accounts_steady : ∃ loop,
    aeCreateEventLoop (env steadyWorld 3) zeroedMemory 1024 = some loop ∧
    ∃ fuel t, (program steadyWorld 3).aeMain (fun _ _ => []) fuel (prepared steadyWorld 3 loop) =
      some t ∧
    ((calledIn t.loop.trace).map TimeEvent.id ++ deletedIn t.loop.trace).Perm [0, 1, 2] := by
  obtain ⟨loop, created⟩ : ∃ loop,
      aeCreateEventLoop (env steadyWorld 3) zeroedMemory 1024 = some loop := ⟨_, rfl⟩
  obtain ⟨fuel, t, run, -, -, split, -⟩ := aeMain_accounts created
    (fun _ _ r hr => absurd hr List.not_mem_nil : Faithful fun _ _ => []) steadyWorld_clock
  exact ⟨loop, created, fuel, t, run, split⟩

end TimeEventTest

end AeEventLoop
