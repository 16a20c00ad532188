import AeEventLoop.Poll
import AeEventLoop.Deadlines
import AeEventLoop.Ae2Pops
import AeEventLoop.Steady
import Mathlib.Data.Int.ConditionallyCompleteOrder

/-! What a sleep is good for. A sleep that ran its full length ends in a pass that calls a timer:
the wait is computed from the nearest timer in seconds and milliseconds, the due test is made on
pairs (`ae.c`, `ae2.cpp`) or on keys (`ae3.cpp`), and the two agree. Delays and return values are
those of timers set ahead; what user code does is otherwise arbitrary. -/

namespace AeEventLoop

/-- The deadlines that delays of a `long long` set ahead of a clock in its era. -/
structure Timely (t : Int × Int) : Prop where
  normal : Normal t
  low : -2 ^ 51 < millis t
  high : millis t < 2 ^ 63 + 2 ^ 51

theorem timely_add {tv : Timeval} (era : InEra tv) {ms : Int} (low : 0 ≤ ms) (high : ms < 2 ^ 63) :
    Timely (aeAddMillisecondsToNow tv ms) := by
  have now := millis_inEra era
  refine ⟨aeAddMillisecondsToNow_normal tv low, ?_, ?_⟩
  · rw [millis_aeAddMillisecondsToNow]
    omega
  · rw [millis_aeAddMillisecondsToNow]
    omega

theorem Timely.forget {te : TimeEvent} (h : Timely te.deadline) :
    Timely ({ te with when_sec := 0 } : TimeEvent).deadline := by
  obtain ⟨low, high⟩ := h.normal
  have same : millis ({ te with when_sec := 0 } : TimeEvent).deadline = te.when_ms := by
    simp [millis, TimeEvent.deadline]
  simp only [TimeEvent.deadline] at low high
  refine ⟨⟨low, high⟩, ?_, ?_⟩
  · rw [same]
    omega
  · rw [same]
    omega

def TimerCall.Forward {κ : Type} : TimerCall κ → Prop
  | .create milliseconds _ _ _ => 0 ≤ milliseconds ∧ milliseconds < 2 ^ 63
  | .delete _ => True

structure Forward {κ : Type} (env : Env κ) : Prop where
  era : ∀ k, InEra (env.gettimeofday k)
  calls : ∀ tr te, ∀ call ∈ (env.timeProc tr te).calls, call.Forward
  retval : ∀ tr te, (env.timeProc tr te).retval ≠ AE_NOMORE →
    0 ≤ (env.timeProc tr te).retval ∧ (env.timeProc tr te).retval < 2 ^ 63
  finals : ∀ tr te, ∀ call ∈ env.finalizerProc tr te, call.Forward

def ForwardStep {σ κ : Type} (_ : σ) (op : Op κ) : Prop := ∀ call, op = .timer call → call.Forward

theorem Forward.rearmed {κ : Type} {env : Env κ} (forward : Forward env) (k : ℕ)
    {tr : List (Event κ)} {te : TimeEvent} (more : (env.timeProc tr te).retval ≠ AE_NOMORE) :
    Timely (aeAddMillisecondsToNow (env.gettimeofday k) (env.timeProc tr te).retval) :=
  timely_add (forward.era k) (forward.retval tr te more).1 (forward.retval tr te more).2

namespace Ae

open LinkedStore

/-- What any piece of the code keeps: timely deadlines, a clock that was read, the last pass. -/
structure After (s t : EventLoop) : Prop where
  timely : All (fun te => Timely te.deadline) s.timeEvents →
    All (fun te => Timely te.deadline) t.timeEvents
  tick : s.tick ≤ t.tick
  lastTime : t.lastTime = s.lastTime

section After

variable {env : Env Int} {s t u : EventLoop} {c c' : Pass} {maxId : Int}

theorem After.refl (s : EventLoop) : After s s := ⟨id, le_refl _, rfl⟩

theorem After.trans (h : After s t) (h' : After t u) : After s u :=
  ⟨fun all => h'.timely (h.timely all), h.tick.trans h'.tick, h'.lastTime.trans h.lastTime⟩

theorem After.log (s : EventLoop) (e : Event Int) : After s (log s e) := ⟨id, le_refl _, rfl⟩

theorem After.store {l : Option (LinkedStore TimeEvent)}
    (keeps : All (fun te => Timely te.deadline) s.timeEvents →
      ∀ l', l = some l' → All (fun te => Timely te.deadline) l') : After s (store s l) := by
  cases l with
  | none => exact ⟨id, le_refl _, rfl⟩
  | some l' => exact ⟨fun all => keeps all l' rfl, le_refl _, rfl⟩

theorem After.runCall (forward : Forward env) (s : EventLoop) {call : TimerCall Int}
    (ahead : call.Forward) : After s (runCall env s call) := by
  cases call with
  | create ms proc data fin =>
      have new : Timely (s.newTimeEvent env ms proc data fin).deadline :=
        timely_add (forward.era s.tick) ahead.1 ahead.2
      have read : After s { s with
          timeEventNextId := s.timeEventNextId + 1, tick := s.tick + 1 } :=
        ⟨id, Nat.le_succ _, rfl⟩
      refine (read.trans (After.store fun all l' pushed => ?_)).trans (After.log _ _)
      exact All.pushFront all new pushed
  | delete id =>
      simp only [Ae.runCall, aeDeleteTimeEvent]
      split
      · exact ⟨fun all => all, le_refl _, rfl⟩
      · exact After.log _ _
      · rename_i p found
        refine (After.store fun all l' done => ?_).trans (After.log _ _)
        obtain ⟨m, unlinked, rfl⟩ := Option.map_eq_some_iff.mp done
        obtain ⟨k, marked, unlinked⟩ := Option.bind_eq_some_iff.mp unlinked
        have kept : All (fun te => Timely te.deadline) k := All.setVal all marked fun _ h => h
        exact (All.unlink kept unlinked).free p

theorem After.runCalls (forward : Forward env) (s : EventLoop) (calls : List (TimerCall Int))
    (ahead : ∀ call ∈ calls, call.Forward) : After s (runCalls env s calls) := by
  induction calls generalizing s with
  | nil => exact After.refl s
  | cons call calls ih =>
      have first := After.runCall forward s (ahead call List.mem_cons_self)
      exact first.trans (ih _ fun call' later => ahead call' (List.mem_cons_of_mem _ later))

theorem After.runTimeProc (forward : Forward env) (s : EventLoop) (te : TimeEvent) :
    After s (runTimeProc env s te) :=
  ((After.log s _).trans (After.runCalls forward _ _ (forward.calls s.trace te))).trans
    (After.log _ _)

theorem After.runFinalizer (forward : Forward env) (s : EventLoop) (te : TimeEvent) :
    After s (runFinalizer env s te) := by
  unfold Ae.runFinalizer
  split
  · exact After.refl s
  · exact (After.log s _).trans (After.runCalls forward _ _ (forward.finals s.trace te))

theorem After.advance (c : Pass) (p : ℕ) : After c.loop (advance c p).loop := by
  unfold Ae.advance
  split
  · exact ⟨id, le_refl _, rfl⟩
  · exact After.refl _

theorem After.sweep (forward : Forward env) (c : Pass) (p : ℕ) (cell : Cell TimeEvent) :
    After c.loop (sweep env c p cell).loop := by
  have off : After c.loop (Ae.log (Ae.store c.loop (c.loop.timeEvents.unlink p))
      (.unlinked cell.val)) :=
    (After.store fun all l' unlinked => All.unlink all unlinked).trans (After.log _ _)
  have done := off.trans (After.runFinalizer forward _ cell.val)
  exact done.trans ⟨fun all => All.free all p, le_refl _, rfl⟩

theorem After.rearm (c : Pass) (p : ℕ) (te : TimeEvent) {retval : Int}
    (ahead : Timely (aeAddMillisecondsToNow (env.gettimeofday c.loop.tick) retval)) :
    After c.loop (rearm env c p te retval).loop := by
  have read : After c.loop { c.loop with tick := c.loop.tick + 1 } := ⟨id, Nat.le_succ _, rfl⟩
  unfold Ae.rearm
  refine After.trans ?_ (After.advance _ p)
  refine read.trans (After.trans (After.store fun all l' set => ?_) (After.log _ _))
  exact All.setVal all set fun _ _ => ahead

theorem After.fire (forward : Forward env) (c : Pass) (p : ℕ) (te : TimeEvent) :
    After c.loop (fire env c p te).loop := by
  have ran := After.runTimeProc forward c.loop te
  unfold Ae.fire
  dsimp only
  split_ifs with more
  · exact ran.trans (After.rearm { c with
      loop := Ae.runTimeProc env c.loop te, processed := c.processed + 1 } p te
      (forward.rearmed _ more))
  · exact ran.trans (After.store fun all l' marked => All.setVal all marked fun _ h => h)

theorem After.passStep (forward : Forward env) (h : passStep env maxId c = some c') :
    After c.loop c'.loop := by
  unfold Ae.passStep at h
  split_ifs at h
  split at h
  · cases h
  · rename_i p here
    split at h
    · obtain rfl := Option.some.inj h
      exact ⟨id, le_refl _, rfl⟩
    · rename_i cell found
      dsimp only at h
      have read : After c.loop (reachTimer env c cell.val).loop := ⟨id, Nat.le_succ _, rfl⟩
      split_ifs at h
      · obtain rfl := Option.some.inj h
        exact After.sweep forward c p cell
      · obtain rfl := Option.some.inj h
        exact After.advance c p
      · obtain rfl := Option.some.inj h
        exact read.trans (After.fire forward (reachTimer env c cell.val) p cell.val)
      · obtain rfl := Option.some.inj h
        exact read.trans (After.advance (reachTimer env c cell.val) p)

theorem After.skew (env : Env Int) (s : EventLoop)
    (all : All (fun te => Timely te.deadline) s.timeEvents) :
    All (fun te => Timely te.deadline) (skew env s).timeEvents ∧
      (skew env s).tick = s.tick + 1 ∧ (skew env s).lastTime = env.time s.tick := by
  refine ⟨?_, rfl, rfl⟩
  unfold Ae.skew
  dsimp only
  split_ifs
  · exact (After.store fun all l' set => All.forEach all set fun _ => Timely.forget).timely all
  · exact all

theorem run_timely (forward : Forward env) (run : Run env ForwardStep s) :
    All (fun te => Timely te.deadline) s.timeEvents ∧ ∃ i, i < s.tick ∧ s.lastTime = env.time i := by
  refine WhileLoop.Reach.invariant (fun s => All (fun te => Timely te.deadline) s.timeEvents ∧
    ∃ i, i < s.tick ∧ s.lastTime = env.time i) ?_ ?_ run
  · rintro s ⟨mem, setsize, h⟩
    obtain ⟨l, hl, rfl⟩ := Option.map_eq_some_iff.mp h
    obtain ⟨files, -, rfl⟩ := Option.map_eq_some_iff.mp hl
    exact ⟨All.empty _, 0, Nat.zero_lt_one, rfl⟩
  · rintro s op t ⟨all, i, older, last⟩ ahead step
    cases step with
    | timer call =>
        have after := After.runCall forward s (ahead call rfl)
        exact ⟨after.timely all, i, older.trans_le after.tick, after.lastTime.trans last⟩
    | file op => exact ⟨all, i, older, last⟩
    | resize mem setsize =>
        rw [aeResizeSetSize]
        split_ifs
        · exact ⟨all, i, older, last⟩
        · exact ⟨all, i, older, last⟩
        · exact ⟨all, i, older, last⟩
    | pass h =>
        obtain ⟨c, walked, eq⟩ := Option.map_eq_some_iff.mp h
        obtain ⟨rfl, rfl⟩ := Prod.mk.inj eq
        obtain ⟨kept, tick, now⟩ := After.skew env s all
        have after : After (skew env s) c.loop := (WhileLoop.run_invariant
          (fun c => After (skew env s) c.loop) (fun _ => True)
          (fun a b inv _ body => inv.trans (After.passStep forward body)) (fun _ _ => trivial)
          (After.refl _) walked).1
        have later := after.tick
        exact ⟨after.timely kept, s.tick, by omega, after.lastTime.trans now⟩

end After

/-- A walk on whose way lies a timer that is due whenever it is reached calls a timer: up to the
first due timer it only reads the clock. -/
theorem walk_calls {env : Env Int} {maxId : Int} (front rest : List (ℕ × TimeEvent)) {c : Pass}
    (ok : Ok c.loop (front ++ rest)) (cursor : c.te = headAddr rest)
    (old : ∀ x ∈ rest, x.2.id ≤ maxId) {x : ℕ × TimeEvent} (mem : x ∈ rest)
    (due : ∀ d e, WhileLoop.Visits (passStep env maxId) c d → passStep env maxId d = some e →
      Due x.2.deadline (reading env d)) :
    ∃ d seg, WhileLoop.Visits (passStep env maxId) c d ∧ d.loop.trace = c.loop.trace ++ seg ∧
      calledIn seg ≠ [] := by
  induction rest generalizing front c with
  | nil => cases mem
  | cons y rest ih =>
      obtain ⟨p, te⟩ := y
      have body := passStep_eq env ok cursor (old (p, te) List.mem_cons_self)
      by_cases here : Due te.deadline (reading env c)
      · rw [if_pos here] at body
        have start : Ok (log (reachTimer env c te).loop (.called te)) (front ++ (p, te) :: rest) :=
          ok.same rfl rfl rfl
        obtain ⟨made, user, ran⟩ := runCalls_ran env (script env c te).calls start
        have trace := (fire_trace env (reachTimer env c te) p te).2
        rw [runTimeProc_trace ran, List.append_assoc] at trace
        exact ⟨_, _, .single body, trace, by simp⟩
      · rw [if_neg here] at body
        rcases List.mem_cons.mp mem with rfl | later
        · exact absurd (due c _ .refl body) here
        · have ok' : Ok { reachTimer env c te with te := headAddr rest }.loop
              ((front ++ [(p, te)]) ++ rest) := by
            rw [List.append_assoc]
            exact reachTimer_ok ok env te
          obtain ⟨d, seg, visits, trace, some⟩ := ih (front ++ [(p, te)]) ok' rfl
            (fun z hz => old z (List.mem_cons_of_mem _ hz)) later fun d e met => due d e (.head body met)
          refine ⟨d, .reached te (reading env c) :: seg, .head body visits, ?_, by simpa using some⟩
          rw [trace]
          simp [reachTimer, log]

end Ae

namespace Ae2

open PriorityQueue

variable {Q : Type} [PriorityQueue Q TimeEvent Earlier] {env : Env Int}

def AllTimely (q : Q) : Prop := ∀ te ∈ elems q, Timely te.deadline

theorem AllTimely.push {q : Q} (all : AllTimely q) {te : TimeEvent} (new : Timely te.deadline) :
    AllTimely (PriorityQueue.push q te) := by
  intro x hx
  rw [elems_push, Multiset.mem_cons] at hx
  rcases hx with rfl | old
  · exact new
  · exact all x old

theorem AllTimely.popHead {s : EventLoop Q} (all : AllTimely s.timeMinHead) :
    AllTimely (popHead s).timeMinHead := by
  cases found : top s.timeMinHead with
  | none =>
      simp only [Ae2.popHead, found]
      exact all
  | some te =>
      rw [popHead_eq found]
      intro x hx
      change x ∈ elems (pop s.timeMinHead) at hx
      rw [elems_pop found] at hx
      exact all x (Multiset.mem_of_mem_erase hx)

theorem AllTimely.runCalls (forward : Forward env) (s : EventLoop Q) (all : AllTimely s.timeMinHead)
    (calls : List (TimerCall Int)) (ahead : ∀ call ∈ calls, call.Forward) :
    AllTimely (runCalls env s calls).timeMinHead := by
  induction calls generalizing s with
  | nil => exact all
  | cons call calls ih =>
      have rest : ∀ call ∈ calls, call.Forward := fun call' later =>
        ahead call' (List.mem_cons_of_mem _ later)
      cases call with
      | create ms proc data fin =>
          obtain ⟨low, high⟩ := ahead _ List.mem_cons_self
          have new : Timely (s.newTimeEvent env ms proc data fin).deadline :=
            timely_add (forward.era s.tick) low high
          exact ih (runCall env s (.create ms proc data fin)) (all.push new) rest
      | delete id => exact ih (runCall env s (.delete id)) all rest

theorem AllTimely.passStep (forward : Forward env) {now : Int × Int} {s t : EventLoop Q} {n m : Int}
    (all : AllTimely s.timeMinHead) (h : passStep env now (s, n) = some (t, m)) :
    AllTimely t.timeMinHead := by
  obtain ⟨te, -, ⟨-, -, rfl⟩ | ⟨-, -, -, rfl⟩⟩ := passStep_cases h
  · refine AllTimely.popHead ?_
    unfold runFinalizer
    split
    · exact all
    · exact AllTimely.runCalls forward (log (log (log s (.reached te now)) (.discarded te))
        (.finalized te)) all _ (forward.finals _ te)
  · have ran : AllTimely (runTimeProc env (log s (.reached te now)) te).timeMinHead :=
      AllTimely.runCalls forward (log (log s (.reached te now)) (.called te)) all _
        (forward.calls _ te)
    have left := ran.popHead
    unfold fire
    dsimp only
    split_ifs with more
    · refine AllTimely.push left ?_
      exact forward.rearmed _ more
    · exact left

theorem run_timely (forward : Forward env) {s : EventLoop Q} (run : Run env ForwardStep s) :
    AllTimely s.timeMinHead := by
  refine WhileLoop.Reach.invariant (fun s : EventLoop Q => AllTimely s.timeMinHead) ?_ ?_ run
  · rintro s ⟨mem, setsize, h⟩ te mem
    obtain ⟨l, -, rfl⟩ := Option.map_eq_some_iff.mp h
    simp at mem
  · intro s op t all ahead step
    cases step with
    | timer call =>
        exact AllTimely.runCalls forward s all [call] fun _ mem =>
          List.mem_singleton.mp mem ▸ ahead call rfl
    | file op => exact all
    | resize mem setsize =>
        rw [aeResizeSetSize]
        split_ifs
        · exact all
        · exact all
        · intro te mem
          simp at mem
    | pass h =>
        exact (WhileLoop.run_invariant (fun c => AllTimely c.1.timeMinHead) (fun _ => True)
          (fun a b inv _ body => AllTimely.passStep forward inv body) (fun _ _ => trivial) all h).1

end Ae2

namespace Ae3

open TimeEventMap

variable {env : Env TimeEvent}

def AllTimely (m : TimeEventMap) : Prop := ∀ te ∈ timers m, Timely te.deadline

theorem mem_of_insertTimer {m : TimeEventMap} {te x : TimeEvent}
    (h : x ∈ timers (insertTimer m te)) : x ∈ timers m ∨ x = te := by
  rw [insertTimer, mem_timers_put, KeyedSet.mem_insert] at h
  rw [mem_timers_split m (timeKey te)]
  rcases h with (old | ⟨same, -⟩) | other
  · exact .inl (.inl old)
  · exact .inr same
  · exact .inl (.inr other)

theorem AllTimely.insertTimer {m : TimeEventMap} (all : AllTimely m) {te : TimeEvent}
    (new : Timely te.deadline) : AllTimely (insertTimer m te) := by
  intro x hx
  rcases mem_of_insertTimer hx with old | rfl
  · exact all x old
  · exact new

theorem AllTimely.eraseTimer {m : TimeEventMap} (all : AllTimely m) (te : TimeEvent) :
    AllTimely (eraseTimer m te) := by
  intro x hx
  refine all x ?_
  rw [mem_timers_split m (timeKey te)]
  rcases mem_eraseTimer.mp hx with ⟨here, -⟩ | other
  · exact .inl here
  · exact .inr other

theorem AllTimely.runCalls (forward : Forward env) (s : EventLoop) (all : AllTimely s.timeEventMap)
    (calls : List (TimerCall TimeEvent)) (ahead : ∀ call ∈ calls, call.Forward) :
    AllTimely (runCalls env s calls).timeEventMap := by
  induction calls generalizing s with
  | nil => exact all
  | cons call calls ih =>
      have rest : ∀ call ∈ calls, call.Forward := fun call' later =>
        ahead call' (List.mem_cons_of_mem _ later)
      cases call with
      | create ms proc data fin =>
          obtain ⟨low, high⟩ := ahead _ List.mem_cons_self
          have new : Timely (s.newTimeEvent env ms proc data fin).deadline :=
            timely_add (forward.era s.tick) low high
          exact ih (runCall env s (.create ms proc data fin)) (all.insertTimer new) rest
      | delete te => exact ih (runCall env s (.delete te)) (all.eraseTimer te) rest

structure PassTimely (c : Pass) : Prop where
  map : AllTimely c.loop.timeEventMap
  adds : ∀ te ∈ c.vecAddTimeEvent, Timely te.deadline

theorem PassTimely.fire (forward : Forward env) {c : Pass} (all : PassTimely c) (mit : Int)
    (te : TimeEvent) : PassTimely (fire env c mit te) := by
  have ran : AllTimely (runTimeProc env c.loop te).timeEventMap :=
    AllTimely.runCalls forward (log c.loop (.called te)) all.map _ (forward.calls _ te)
  unfold Ae3.fire
  dsimp only
  split
  · exact ⟨ran, all.adds⟩
  · split_ifs with more
    · refine ⟨ran, fun x hx => ?_⟩
      rcases List.mem_append.mp hx with old | new
      · exact all.adds x old
      · rw [List.mem_singleton.mp new]
        exact forward.rearmed _ more
    · exact ⟨ran, all.adds⟩

theorem PassTimely.passStep (forward : Forward env) {now : Int} {c c' : Pass} (all : PassTimely c)
    (h : passStep env now c = some c') : PassTimely c' := by
  unfold Ae3.passStep at h
  split_ifs at h
  split at h
  · cases h
  · split_ifs at h
    obtain rfl := Option.some.inj h
    exact ⟨all.map, all.adds⟩
  · split at h
    · obtain rfl := Option.some.inj h
      exact ⟨all.map, all.adds⟩
    · obtain rfl := Option.some.inj h
      exact all.fire forward _ _
  · obtain rfl := Option.some.inj h
    exact ⟨all.map, all.adds⟩

theorem AllTimely.foldl_erase {m : TimeEventMap} (all : AllTimely m) (ks : List Int) :
    AllTimely (ks.foldl KeyedSet.erase m) := by
  induction ks generalizing m with
  | nil => exact all
  | cons k ks ih =>
      refine ih fun x hx => ?_
      obtain ⟨p, hp, -, mem⟩ := mem_timers_erase.mp hx
      exact all x (mem_timers.mpr ⟨p, hp, mem⟩)

theorem AllTimely.foldl_insertTimer {m : TimeEventMap} (all : AllTimely m) (tes : List TimeEvent)
    (new : ∀ te ∈ tes, Timely te.deadline) : AllTimely (tes.foldl TimeEventMap.insertTimer m) := by
  induction tes generalizing m with
  | nil => exact all
  | cons te tes ih =>
      exact ih (all.insertTimer (new te List.mem_cons_self))
        fun te' later => new te' (List.mem_cons_of_mem _ later)

theorem PassTimely.finish {c : Pass} (all : PassTimely c) : AllTimely (finish c).1.timeEventMap := by
  unfold Ae3.finish
  split_ifs
  · exact all.map
  · exact (all.map.foldl_erase _).foldl_insertTimer _ all.adds

theorem run_timely (forward : Forward env) {s : EventLoop} (run : Run env ForwardStep s) :
    AllTimely s.timeEventMap := by
  refine WhileLoop.Reach.invariant (fun s : EventLoop => AllTimely s.timeEventMap) ?_ ?_ run
  · rintro s ⟨mem, setsize, h⟩ te stored
    obtain ⟨l, -, rfl⟩ := Option.map_eq_some_iff.mp h
    exact absurd stored (not_mem_timers_empty te)
  · intro s op t all ahead step
    cases step with
    | timer call =>
        exact AllTimely.runCalls forward s all [call] fun _ mem =>
          List.mem_singleton.mp mem ▸ ahead call rfl
    | file op => exact all
    | resize mem setsize =>
        rw [aeResizeSetSize]
        split_ifs
        · exact all
        · exact all
        · exact fun te stored => absurd stored (not_mem_timers_empty te)
    | pass h =>
        obtain ⟨c, walked, eq⟩ := Option.map_eq_some_iff.mp h
        have last : PassTimely c := (WhileLoop.run_invariant PassTimely (fun _ => True)
          (fun a b inv _ body => inv.passStep forward body) (fun _ _ => trivial)
          ⟨all, fun te mem => absurd mem List.not_mem_nil⟩ walked).1
        have final := last.finish
        rwa [eq] at final

end Ae3

namespace Backend

variable {σ : Type} {b : Backend σ} {s : σ} {flags : Mask} {poll : σ → Int → List (ℕ × Mask)}

/-- A turn of the event loop that sleeps and hears nothing, up to where the pass begins. -/
structure Idle (b : Backend σ) (poll : σ → Int → List (ℕ × Mask)) (flags : Mask) (s w : σ) :
    Prop where
  timed : flags &&& AE_TIME_EVENTS ≠ 0
  waits : flags &&& AE_DONT_WAIT = 0
  quiet : poll (b.sleep flags s) (b.timeout flags s) = []
  woken : w = (b.processFileEvents poll flags s).1

theorem storeFired_nil (t : FileTable) : t.storeFired [] = t := by
  simp [FileTable.storeFired]

theorem Idle.processFileEvents {w : σ} (idle : Idle b poll flags s w)
    (same : ∀ s, b.setTable (b.table s) s = s) :
    b.processFileEvents poll flags s = (w, 0) ∧
      w = if flags &&& AE_CALL_AFTER_SLEEP ≠ 0 then b.aftersleep (b.sleep flags s)
        else b.sleep flags s := by
  have eq : b.processFileEvents poll flags s =
      (if flags &&& AE_CALL_AFTER_SLEEP ≠ 0 then b.aftersleep (b.sleep flags s)
        else b.sleep flags s, 0) := by
    rw [Backend.processFileEvents, if_pos (.inr ⟨idle.timed, idle.waits⟩)]
    simp only [idle.quiet, storeFired_nil, same, List.length_nil, Host.dispatch]
  have woken := idle.woken
  rw [eq] at woken ⊢
  exact ⟨by rw [woken], woken⟩

theorem Idle.slept {w : σ} (idle : Idle b poll flags s w)
    (same : ∀ s, b.setTable (b.table s) s = s) {te : TimeEvent}
    (nearest : b.aeSearchNearestTimer s = some te) :
    w = b.aftersleep (b.readClock s) ∨ w = b.readClock s := by
  have woken := (idle.processFileEvents same).2
  have slept : b.sleep flags s = b.readClock s := by
    simp only [sleep, shortest, idle.timed, idle.waits, nearest, ne_eq, not_false_eq_true, and_self,
      if_true]
  rw [slept] at woken
  split_ifs at woken
  · exact .inl woken
  · exact .inr woken

theorem Idle.aeProcessEvents {w : σ} (idle : Idle b poll flags s w)
    (same : ∀ s, b.setTable (b.table s) s = s) (fuel : ℕ) :
    b.aeProcessEvents poll fuel flags s = b.processTimeEvents fuel w := by
  rw [Backend.aeProcessEvents, if_neg fun h => idle.timed h.1]
  simp only [idle.timed, (idle.processFileEvents same).1, ne_eq, not_false_eq_true, if_true]
  cases b.processTimeEvents fuel w with
  | none => rfl
  | some r => simp

theorem Idle.due {w : σ} (idle : Idle b poll flags s w) {te : TimeEvent}
    (nearest : b.aeSearchNearestTimer s = some te)
    (low : -2 ^ 63 ≤ millis te.deadline - millis (b.now s))
    (near : millis te.deadline - millis (b.now s) < 2 ^ 31) {r : Int}
    (later : millis (b.now s) + b.timeout flags s ≤ r) : millis te.deadline ≤ r := by
  rw [b.timeout_nearest idle.timed idle.waits nearest ⟨low, by omega⟩] at later
  split_ifs at later with ahead
  · have whole : (millis te.deadline - millis (b.now s)) % 2 ^ 32 =
        millis te.deadline - millis (b.now s) := by omega
    rw [int_of_low (by omega), whole] at later
    omega
  · omega

end Backend

section Wake

variable {flags : Mask} {D : Int}

theorem Ae.pass_calls {env : Env Int} {w : Ae.EventLoop} {xs : List (ℕ × TimeEvent)}
    (ok : Ae.Ok w xs) (forwards : w.lastTime ≤ env.time w.tick) {x : ℕ × TimeEvent} (mem : x ∈ xs)
    (due : ∀ c d, Ae.PassVisits env w c → Ae.passStep env (w.timeEventNextId - 1) c = some d →
      Due x.2.deadline (Ae.reading env c)) :
    ∃ c seg, Ae.PassVisits env w c ∧ c.loop.trace = w.trace ++ seg ∧ calledIn seg ≠ [] := by
  have started : Ae.skew env w = { w with tick := w.tick + 1, lastTime := env.time w.tick } := by
    simp only [Ae.skew, if_neg (not_lt.mpr forwards)]
  have ok' : Ae.Ok (Ae.passStart env w).loop ([] ++ xs) := by
    rw [Ae.passStart, started]
    exact ok.same rfl rfl rfl
  have old : ∀ x ∈ xs, x.2.id ≤ w.timeEventNextId - 1 := fun x hx => by
    have := (ok.range x hx).2
    omega
  obtain ⟨c, seg, visits, trace, some⟩ := Ae.walk_calls [] xs ok' ok'.repr.head old mem due
  refine ⟨c, seg, visits, ?_, some⟩
  rw [trace, Ae.passStart, started]

theorem Ae.nearest_earliest {s : Ae.EventLoop} {xs : List (ℕ × TimeEvent)} (ok : Ae.Ok s xs)
    (each : ∀ x ∈ xs, Timely x.2.deadline) (earliest : EarliestDeadline s.timeEvents.contents D) :
    ∃ x ∈ xs, Ae.aeSearchNearestTimer s = some x.2 ∧ millis x.2.deadline = D := by
  have finds := Ae.aeSearchNearestTimer_finds s
  rw [LinkedStore.contents_repr ok.repr] at finds earliest
  obtain ⟨y, stored, same⟩ := earliest.1
  cases nearest : Ae.aeSearchNearestTimer s with
  | none =>
      rw [finds.nothing nearest] at stored
      exact absurd stored (Multiset.notMem_zero y)
  | some te =>
      obtain ⟨mem, first⟩ := finds.first te nearest
      have least := earliest.2 ⟨te, mem, rfl⟩
      obtain ⟨x, hx, rfl⟩ := List.mem_map.mp (Multiset.mem_coe.mp mem)
      obtain ⟨z, hz, rfl⟩ := List.mem_map.mp (Multiset.mem_coe.mp stored)
      have order := (lexicographic_iff (each z hz).normal (each x hx).normal).not.mp (first z.2 stored)
      exact ⟨x, hx, rfl, by omega⟩

/-- In `ae.c` the walk comes to the timer it slept for, unless it calls another one first. -/
theorem Ae.idle_calls {env : Env Int} {call : FileCall → Ae.EventLoop → Ae.EventLoop}
    {hook : Ae.EventLoop → FileTable} {poll : Ae.EventLoop → Int → List (ℕ × Mask)}
    {s w : Ae.EventLoop} (forward : Forward env) (steady : Monotone env.time)
    (run : Ae.Run env ForwardStep s) (fine : s.undef = false)
    (earliest : EarliestDeadline s.timeEvents.contents D)
    (near : D - millis (aeGetTime (env.gettimeofday s.tick)) < 2 ^ 31)
    (idle : (Ae.backend env call fun s => { s with toFileTable := hook s }).Idle poll flags s w)
    (later : ∀ c d, Ae.PassVisits env w c → Ae.passStep env (w.timeEventNextId - 1) c = some d →
      millis (aeGetTime (env.gettimeofday s.tick)) +
        (Ae.backend env call fun s => { s with toFileTable := hook s }).timeout flags s ≤
          millis (Ae.reading env c)) :
    ∃ c seg, Ae.PassVisits env w c ∧ c.loop.trace = s.trace ++ seg ∧ calledIn seg ≠ [] := by
  obtain ⟨timely, i, older, last⟩ := Ae.run_timely forward run
  obtain ⟨xs, ok⟩ := Ae.run_ok_of_defined (run.mono fun _ _ _ => trivial) fine
  have each : ∀ x ∈ xs, Timely x.2.deadline := fun x hx => timely.of_repr ok.repr hx
  have now := millis_inEra (forward.era s.tick)
  obtain ⟨x, hx, nearest, rfl⟩ := Ae.nearest_earliest ok each earliest
  have low := (each x hx).low
  have due : ∀ c d, Ae.PassVisits env w c → Ae.passStep env (w.timeEventNextId - 1) c = some d →
      Due x.2.deadline (Ae.reading env c) := by
    intro c d met body
    rw [Ae.reading, due_iff (each x hx).normal (aeGetTime_normal _)]
    have wide : -2 ^ 63 ≤ millis x.2.deadline - millis (aeGetTime (env.gettimeofday s.tick)) := by
      omega
    exact idle.due nearest wide near (later c d met body)
  have forwards : s.lastTime ≤ env.time (s.tick + 1) := by
    rw [last]
    exact steady (by omega)
  rcases idle.slept (fun _ => rfl) nearest with rfl | rfl
  · exact Ae.pass_calls (ok.same rfl rfl rfl) forwards hx due
  · exact Ae.pass_calls (ok.same rfl rfl rfl) forwards hx due

theorem Ae2.pass_works {Q : Type} [PriorityQueue Q TimeEvent Ae2.Earlier] {env : Env Int}
    {w : Ae2.EventLoop Q} {te : TimeEvent} (top : PriorityQueue.top w.timeMinHead = some te)
    (due : Due te.deadline (Ae2.snapshot env w)) :
    ∃ c seg, Ae2.PassVisits env w c ∧ c.1.trace = w.trace ++ seg ∧
      (calledIn seg ≠ [] ∨ discardedIn seg ≠ []) := by
  have turn : ∃ c, Ae2.passStep env (Ae2.snapshot env w) ({ w with tick := w.tick + 1 }, 0) =
      some c := by
    simp only [Ae2.passStep, top, due, if_true]
    split_ifs
    · exact ⟨_, rfl⟩
    · exact ⟨_, rfl⟩
  obtain ⟨⟨t, m⟩, body⟩ := turn
  obtain ⟨x, front, user, back, gone, again, turn, shape⟩ := Ae2.passStep_turn body
  refine ⟨(t, m), front ++ user ++ back, .single body, turn.trace, ?_⟩
  cases shape with
  | discard gone marked => exact .inr (by simp)
  | fire gone again live due' last => exact .inl (by simp)

theorem Ae2.idle_works {Q : Type} [PriorityQueue Q TimeEvent Ae2.Earlier] {env : Env Int}
    {call : FileCall → Ae2.EventLoop Q → Ae2.EventLoop Q} {hook : Ae2.EventLoop Q → FileTable}
    {poll : Ae2.EventLoop Q → Int → List (ℕ × Mask)} {s w : Ae2.EventLoop Q}
    (forward : Forward env) (run : Ae2.Run env ForwardStep s)
    (earliest : EarliestDeadline (PriorityQueue.elems s.timeMinHead) D)
    (near : D - millis (aeGetTime (env.gettimeofday s.tick)) < 2 ^ 31)
    (idle : (Ae2.backend env call fun s => { s with toFileTable := hook s }).Idle poll flags s w)
    (later : millis (aeGetTime (env.gettimeofday s.tick)) +
      (Ae2.backend env call fun s => { s with toFileTable := hook s }).timeout flags s ≤
        millis (Ae2.snapshot env w)) :
    ∃ c seg, Ae2.PassVisits env w c ∧ c.1.trace = s.trace ++ seg ∧
      (calledIn seg ≠ [] ∨ discardedIn seg ≠ []) := by
  have timely := Ae2.run_timely forward run
  have now := millis_inEra (forward.era s.tick)
  obtain ⟨y, stored, same⟩ := earliest.1
  cases nearest : Ae2.aeSearchNearestTimer s with
  | none =>
      rw [(PriorityQueue.top_eq_none _).mp nearest] at stored
      exact absurd stored (Multiset.notMem_zero y)
  | some te =>
      have mem := PriorityQueue.top_mem nearest
      have order := PriorityQueue.top_first nearest y stored
      rw [Ae2.earlier_iff, lexicographic_iff (timely y stored).normal (timely te mem).normal] at order
      have low := (timely te mem).low
      have due : Due te.deadline (Ae2.snapshot env w) := by
        rw [Ae2.snapshot, due_iff (timely te mem).normal (aeGetTime_normal _)]
        have wide : -2 ^ 63 ≤ millis te.deadline - millis (aeGetTime (env.gettimeofday s.tick)) := by
          omega
        have close : millis te.deadline - millis (aeGetTime (env.gettimeofday s.tick)) < 2 ^ 31 := by
          omega
        exact idle.due nearest wide close later
      rcases idle.slept (fun _ => rfl) nearest with rfl | rfl
      · exact Ae2.pass_works nearest due
      · exact Ae2.pass_works nearest due

theorem Ae3.pass_calls {env : Env TimeEvent} {w : Ae3.EventLoop} (fine : w.undef = false)
    (ok : Ae3.MapOk w.timeEventMap) {te : TimeEvent} (nearest : Ae3.aeSearchNearestTimer w = some te)
    (due : Ae3.timeKey te ≤ Ae3.lNow env w) :
    ∃ c seg, Ae3.PassVisits env w c ∧ c.loop.trace = w.trace ++ seg ∧ calledIn seg ≠ [] := by
  cases first : w.timeEventMap.first? with
  | none => simp [Ae3.aeSearchNearestTimer, first] at nearest
  | some p =>
      have head : p.2.first? = some te := by simpa [Ae3.aeSearchNearestTimer, first] using nearest
      have hp : p ∈ w.timeEventMap := List.mem_of_head? first
      have mem : te ∈ p.2 := List.mem_of_head? head
      have key := ok.keyed p hp te mem
      have bucket := Ae3.bucket_of_mem hp
      let enter : Ae3.Pass := { Ae3.passStart w with cursor := .inner p.1 (some te.id) }
      have one : Ae3.passStep env (Ae3.lNow env w) (Ae3.passStart w) = some enter := by
        simp only [Ae3.passStep, Ae3.passStart, fine, first, Option.map_some, bucket, head,
          Bool.false_eq_true, if_false, if_pos (key ▸ due), enter]
      have found : p.2.find? te.id = some te := KeyedSet.find?_eq_some.mpr ⟨mem, rfl⟩
      have two : Ae3.passStep env (Ae3.lNow env w) enter = some (Ae3.fire env enter p.1 te) := by
        simp only [Ae3.passStep, Ae3.passStart, fine, bucket, found, Bool.false_eq_true, if_false,
          enter]
      have visits : Ae3.PassVisits env w (Ae3.fire env enter p.1 te) := .head one (.single two)
      rcases Ae3.fire_cases env enter p.1 te with ⟨user, -, -, trace, -⟩ | ⟨user, again, fired⟩
      · exact ⟨_, _, visits, trace, by simp⟩
      · exact ⟨_, _, visits, fired.trace, by simp⟩

/-- In `ae3.cpp` the bucket slept for is the first one, or one whose key has wrapped is. -/
theorem Ae3.idle_calls {env : Env TimeEvent} {call : FileCall → Ae3.EventLoop → Ae3.EventLoop}
    {hook : Ae3.EventLoop → FileTable} {poll : Ae3.EventLoop → Int → List (ℕ × Mask)}
    {s w : Ae3.EventLoop} (forward : Forward env) (run : Ae3.Run env ForwardStep s)
    (fine : s.undef = false)
    (earliest : EarliestDeadline (Ae3.TimeEventMap.timers s.timeEventMap) D)
    (near : D - millis (aeGetTime (env.gettimeofday s.tick)) < 2 ^ 31)
    (idle : (Ae3.backend env call fun s => { s with toFileTable := hook s }).Idle poll flags s w)
    (later : millis (aeGetTime (env.gettimeofday s.tick)) +
      (Ae3.backend env call fun s => { s with toFileTable := hook s }).timeout flags s ≤
        millis (aeGetTime (env.gettimeofday w.tick))) :
    ∃ c seg, Ae3.PassVisits env w c ∧ c.loop.trace = s.trace ++ seg ∧ calledIn seg ≠ [] := by
  have timely := Ae3.run_timely forward run
  have ok := (Ae3.run_sound (run.mono fun _ _ _ => trivial) fine).map
  have now := millis_inEra (forward.era s.tick)
  have then' := millis_inEra (forward.era w.tick)
  obtain ⟨y, stored, same⟩ := earliest.1
  have stored := Multiset.mem_coe.mp stored
  have head := Ae3.aeSearchNearestTimer_eq s ok
  cases nearest : Ae3.aeSearchNearestTimer s with
  | none =>
      rw [nearest] at head
      rw [List.head?_eq_none_iff.mp head.symm] at stored
      cases stored
  | some te =>
      have mem := List.mem_of_head? (head.symm.trans nearest)
      have order := Ae3.aeSearchNearestTimer_least ok nearest stored
      have least := earliest.2 ⟨te, Multiset.mem_coe.mpr mem, rfl⟩
      have low := (timely te mem).low
      have high := (timely te mem).high
      have low' := (timely y stored).low
      have keyed := timeKey_cases (a := te) rfl (by omega) (by omega)
      have keyed' := timeKey_cases (a := y) same (by omega) (by omega)
      have due : Ae3.timeKey te ≤ Ae3.lNow env w := by
        rw [Ae3.lNow, long_millis_inEra (forward.era w.tick)]
        rcases keyed with ⟨fits, key⟩ | ⟨past, key⟩
        · have wide : -2 ^ 63 ≤ millis te.deadline -
              millis (aeGetTime (env.gettimeofday s.tick)) := by omega
          have close : millis te.deadline - millis (aeGetTime (env.gettimeofday s.tick)) < 2 ^ 31 := by
            omega
          rw [key]
          exact idle.due nearest wide close later
        · omega
      rcases idle.slept (fun _ => rfl) nearest with rfl | rfl
      · exact Ae3.pass_calls fine ok nearest due
      · exact Ae3.pass_calls fine ok nearest due

end Wake

/-- A sleep that ran its full length is followed by a pass that calls a timer, or in `ae2.cpp` at
least discards one. -/
theorem wake_never_wasted {Q : Type} [PriorityQueue Q TimeEvent Ae2.Earlier] {flags : Mask} {D : Int} :
    (∀ (env : Env Int) (call : FileCall → Ae.EventLoop → Ae.EventLoop)
        (hook : Ae.EventLoop → FileTable) (poll : Ae.EventLoop → Int → List (ℕ × Mask))
        (s w : Ae.EventLoop),
      let b := Ae.backend env call fun s => { s with toFileTable := hook s }
      let now := millis (aeGetTime (env.gettimeofday s.tick))
      Forward env → Monotone env.time → Ae.Run env ForwardStep s → s.undef = false →
      EarliestDeadline s.timeEvents.contents D → D - now < 2 ^ 31 → b.Idle poll flags s w →
      (∀ c d, Ae.PassVisits env w c → Ae.passStep env (w.timeEventNextId - 1) c = some d →
        now + b.timeout flags s ≤ millis (Ae.reading env c)) →
      (∀ fuel, b.aeProcessEvents poll fuel flags s = Ae.processTimeEvents env fuel w) ∧
        ∃ c seg, Ae.PassVisits env w c ∧ c.loop.trace = s.trace ++ seg ∧ calledIn seg ≠ []) ∧
    (∀ (env : Env Int) (call : FileCall → Ae2.EventLoop Q → Ae2.EventLoop Q)
        (hook : Ae2.EventLoop Q → FileTable) (poll : Ae2.EventLoop Q → Int → List (ℕ × Mask))
        (s w : Ae2.EventLoop Q),
      let b := Ae2.backend env call fun s => { s with toFileTable := hook s }
      let now := millis (aeGetTime (env.gettimeofday s.tick))
      Forward env → Ae2.Run env ForwardStep s →
      EarliestDeadline (PriorityQueue.elems s.timeMinHead) D → D - now < 2 ^ 31 →
      b.Idle poll flags s w → now + b.timeout flags s ≤ millis (Ae2.snapshot env w) →
      (∀ fuel, b.aeProcessEvents poll fuel flags s = Ae2.processTimeEvents env fuel w) ∧
        ∃ c seg, Ae2.PassVisits env w c ∧ c.1.trace = s.trace ++ seg ∧
          (calledIn seg ≠ [] ∨ discardedIn seg ≠ [])) ∧
    ∀ (env : Env TimeEvent) (call : FileCall → Ae3.EventLoop → Ae3.EventLoop)
        (hook : Ae3.EventLoop → FileTable) (poll : Ae3.EventLoop → Int → List (ℕ × Mask))
        (s w : Ae3.EventLoop),
      let b := Ae3.backend env call fun s => { s with toFileTable := hook s }
      let now := millis (aeGetTime (env.gettimeofday s.tick))
      Forward env → Ae3.Run env ForwardStep s → s.undef = false →
      EarliestDeadline (Ae3.TimeEventMap.timers s.timeEventMap) D → D - now < 2 ^ 31 →
      b.Idle poll flags s w →
      now + b.timeout flags s ≤ millis (aeGetTime (env.gettimeofday w.tick)) →
      (∀ fuel, b.aeProcessEvents poll fuel flags s = Ae3.processTimeEvents env fuel w) ∧
        ∃ c seg, Ae3.PassVisits env w c ∧ c.loop.trace = s.trace ++ seg ∧ calledIn seg ≠ [] := by
  refine ⟨?_, ?_, ?_⟩
  · intro env call hook poll s w b now forward steady run fine earliest near idle later
    exact ⟨idle.aeProcessEvents fun _ => rfl,
      Ae.idle_calls forward steady run fine earliest near idle later⟩
  · intro env call hook poll s w b now forward run earliest near idle later
    exact ⟨idle.aeProcessEvents fun _ => rfl,
      Ae2.idle_works forward run earliest near idle later⟩
  · intro env call hook poll s w b now forward run fine earliest near idle later
    exact ⟨idle.aeProcessEvents fun _ => rfl,
      Ae3.idle_calls forward run fine earliest near idle later⟩

section Runs

def wakeEnv (κ : Type) : Env κ :=
  { stillEnv κ with gettimeofday := fun k => Timeval.ofMillis (if k ≤ 2 then 5000 else 6000) }

theorem wakeEnv_forward (κ : Type) : Forward (wakeEnv κ) where
  era k := by
    change InEra (Timeval.ofMillis (if k ≤ 2 then 5000 else 6000))
    split_ifs
    · exact ⟨by decide, by decide⟩
    · exact ⟨by decide, by decide⟩
  calls tr te call mem := absurd mem List.not_mem_nil
  retval tr te more := absurd rfl more
  finals tr te call mem := absurd mem List.not_mem_nil

theorem wakeEnv_late (κ : Type) {k : ℕ} (h : 3 ≤ k) :
    millis (aeGetTime ((wakeEnv κ).gettimeofday k)) = 6000 := by
  have late : ¬ k ≤ 2 := by omega
  simp only [wakeEnv, if_neg late]
  rfl

theorem Ae.pass_tick {env : Env Int} (forward : Forward env) {w : Ae.EventLoop} {c : Ae.Pass}
    (met : Ae.PassVisits env w c) : w.tick + 1 ≤ c.loop.tick := by
  refine WhileLoop.visits_invariant (fun c => w.tick + 1 ≤ c.loop.tick) (fun _ => True) ?_
    (fun _ _ => trivial) (le_refl _) met
  intro a b inv _ body
  exact inv.trans (Ae.After.passStep forward body).tick

def Ae.ahead : Ae.EventLoop :=
  (Ae.aeCreateTimeEvent (wakeEnv Int) (Ae.fresh (wakeEnv Int)) 1000 3 4 none).2

def Ae2.ahead : Ae2.EventLoop (SortedQueue TimeEvent Ae2.Earlier) :=
  (Ae2.aeCreateTimeEvent (wakeEnv Int) (Ae2.fresh (wakeEnv Int)) 1000 3 4 none).2

def Ae3.ahead : Ae3.EventLoop :=
  (Ae3.aeCreateTimeEvent (wakeEnv TimeEvent) (Ae3.fresh (wakeEnv TimeEvent)) 1000 3 4 none).2

theorem earliestDeadline_onlyTimer (ms : Int) : EarliestDeadline {onlyTimer ms} (5000 + ms) := by
  refine ⟨⟨onlyTimer ms, Multiset.mem_singleton_self _, onlyTimer_millis ms⟩, ?_⟩
  rintro _ ⟨te, mem, rfl⟩
  rw [Multiset.mem_singleton.mp mem, onlyTimer_millis]

/-- One timer a second ahead: each event loop sleeps for a second and then calls it. -/
theorem wake_never_wasted_second :
    let one := Ae.backend (wakeEnv Int) (fun _ s => s) fun s => s
    let two := Ae2.backend (wakeEnv Int) (fun _ s => s) fun s => s
    let three := Ae3.backend (wakeEnv TimeEvent) (fun _ s => s) fun s => s
    (one.timeout AE_ALL_EVENTS Ae.ahead = 1000 ∧ ∃ c seg, Ae.PassVisits (wakeEnv Int)
      (one.processFileEvents (fun _ _ => []) AE_ALL_EVENTS Ae.ahead).1 c ∧
      c.loop.trace = Ae.ahead.trace ++ seg ∧ calledIn seg ≠ []) ∧
    (two.timeout AE_ALL_EVENTS Ae2.ahead = 1000 ∧ ∃ c seg, Ae2.PassVisits (wakeEnv Int)
      (two.processFileEvents (fun _ _ => []) AE_ALL_EVENTS Ae2.ahead).1 c ∧
      c.1.trace = Ae2.ahead.trace ++ seg ∧ (calledIn seg ≠ [] ∨ discardedIn seg ≠ [])) ∧
    three.timeout AE_ALL_EVENTS Ae3.ahead = 1000 ∧ ∃ c seg, Ae3.PassVisits (wakeEnv TimeEvent)
      (three.processFileEvents (fun _ _ => []) AE_ALL_EVENTS Ae3.ahead).1 c ∧
      c.loop.trace = Ae3.ahead.trace ++ seg ∧ calledIn seg ≠ [] := by
  intro one two three
  obtain ⟨first, second, third⟩ := @wake_never_wasted (SortedQueue TimeEvent Ae2.Earlier) _
    AE_ALL_EVENTS 6000
  have ahead : ∀ {κ : Type} (call : TimerCall κ), Op.timer (.create 1000 3 4 none) = .timer call →
      call.Forward := by
    intro κ call same
    cases same
    exact ⟨by decide, by decide⟩
  have earliest := earliestDeadline_onlyTimer 1000
  refine ⟨⟨by decide, ?_⟩, ⟨by decide, ?_⟩, by decide, ?_⟩
  · refine (first (wakeEnv Int) (fun _ s => s) (fun s => s.toFileTable) (fun _ _ => []) Ae.ahead _
      (wakeEnv_forward Int) (fun _ _ _ => le_refl _)
      (.move (Ae.fresh_run _ _) ahead (.timer _ (.create 1000 3 4 none))) rfl earliest (by decide)
      ⟨by decide, by decide, rfl, rfl⟩ ?_).2
    intro c d met _
    have tick := Ae.pass_tick (wakeEnv_forward Int) met
    rw [Ae.reading, wakeEnv_late Int (le_trans (by decide) tick)]
    decide
  · exact (second (wakeEnv Int) (fun _ s => s) (fun s => s.toFileTable) (fun _ _ => []) Ae2.ahead _
      (wakeEnv_forward Int)
      (.move (Ae2.fresh_run _ _) ahead (.timer _ (.create 1000 3 4 none))) earliest (by decide)
      ⟨by decide, by decide, rfl, rfl⟩ (by decide)).2
  · exact (third (wakeEnv TimeEvent) (fun _ s => s) (fun s => s.toFileTable) (fun _ _ => [])
      Ae3.ahead _ (wakeEnv_forward TimeEvent)
      (.move (Ae3.fresh_run _ _) ahead (.timer _ (.create 1000 3 4 none))) rfl earliest (by decide)
      ⟨by decide, by decide, rfl, rfl⟩ (by decide)).2

end Runs

end AeEventLoop
