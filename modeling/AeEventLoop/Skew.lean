import AeEventLoop.AeSafe
import AeEventLoop.Ae2Pass
import AeEventLoop.Ae2Pops
import AeEventLoop.Ae3Survive

/-! A clock that is set back between two passes. `ae.c` keeps the second of its last pass in
`lastTime` and, on seeing an earlier one, makes every timer due. `ae2.cpp` and `ae3.cpp` have the
field and fill it in when the loop is created, but their passes neither read nor write it: a timer
is called if and only if it is due at the pass's own reading. User code is arbitrary, up to
undefined behaviour. -/

namespace AeEventLoop

namespace Ae

variable {env : Env Int} {s t u v : EventLoop}

/-- Two passes with no pass between them, the second at an earlier second than the first. -/
structure SetBack (env : Env Int) (s t u v : EventLoop) : Prop where
  first : ∃ fuel n, processTimeEvents env fuel s = some (t, n)
  between : WhileLoop.Reach (fun x => x = t) (Step env) (fun _ op => op ≠ .pass) u
  second : ∃ fuel n, processTimeEvents env fuel u = some (v, n)
  back : env.time u.tick < env.time s.tick

theorem runCall_lastTime (env : Env Int) (s : EventLoop) (call : TimerCall Int) :
    (runCall env s call).lastTime = s.lastTime := by
  cases call with
  | create ms proc data fin => exact aeCreateTimeEvent_lastTime env s ms proc data fin
  | delete id =>
      simp only [runCall, aeDeleteTimeEvent]
      split
      · rfl
      · rfl
      · simp only [log, store]
        split <;> rfl

theorem between_lastTime
    (between : WhileLoop.Reach (fun x => x = t) (Step env) (fun _ op => op ≠ .pass) u) :
    u.lastTime = t.lastTime := by
  refine WhileLoop.Reach.invariant (fun u : EventLoop => u.lastTime = t.lastTime)
    (fun x same => congrArg (fun y : EventLoop => y.lastTime) same) ?_ between
  intro x op y ih other step
  cases step with
  | timer call => exact (runCall_lastTime env x call).trans ih
  | file op => exact ih
  | resize mem setsize =>
      rw [aeResizeSetSize]
      split_ifs
      · exact ih
      · exact ih
      · exact ih
  | pass h => exact absurd rfl other

theorem SetBack.run (back : SetBack env s t u v) (run : Run env (fun _ _ => True) s) :
    Run env (fun _ _ => True) t ∧ Run env (fun _ _ => True) u := by
  obtain ⟨fuel, n, first⟩ := back.first
  have runT : Run env (fun _ _ => True) t := .move run trivial (.pass first)
  refine ⟨runT, WhileLoop.Reach.invariant (Run env fun _ _ => True) ?_
    (fun x op y ih _ step => .move ih trivial step) back.between⟩
  rintro x rfl
  exact runT

theorem pass_lastTime {fuel : ℕ} {n : Int} {xs : List (ℕ × TimeEvent)} (ok : Ok s xs)
    (run : processTimeEvents env fuel s = some (t, n)) (fine : t.undef = false) :
    t.lastTime = env.time s.tick := by
  obtain ⟨fuel', t', n', ys, zs, seg, run', -, -, -, -, last⟩ :=
    safe_pass env ok (returned_safe ok run fine)
  rw [(Prod.mk.inj (processTimeEvents_unique run run')).1]
  exact last

theorem between_defined
    (between : WhileLoop.Reach (fun x => x = t) (Step env) (fun _ op => op ≠ .pass) u)
    (fine : u.undef = false) : t.undef = false := by
  revert fine
  refine WhileLoop.Reach.invariant (fun u : EventLoop => u.undef = false → t.undef = false) ?_ ?_
    between
  · rintro x rfl fine
    exact fine
  · intro x op y ih other step fine
    cases step with
    | timer call => exact ih (runCall_defined fine)
    | file op => exact ih fine
    | resize mem setsize =>
        rw [aeResizeSetSize] at fine
        split_ifs at fine
        · exact ih fine
        · exact ih fine
        · exact ih fine
    | pass h => exact absurd rfl other

/-- After the clock was set back, `ae.c` calls every timer that is not deleted before its turn. -/
theorem SetBack.called (back : SetBack env s t u v) (run : Run env (fun _ _ => True) s)
    (fine : v.undef = false) (epoch : ∀ k, u.tick ≤ k → 0 < (env.gettimeofday k).tv_sec) :
    ∃ seg, v.trace = u.trace ++ seg ∧ ∀ x ∈ u.timeEvents.contents, x.id ∉ deletedIn seg →
      { x with when_sec := 0 } ∈ calledIn seg := by
  obtain ⟨runT, runU⟩ := back.run run
  obtain ⟨i, m, second⟩ := back.second
  obtain ⟨j, n, first⟩ := back.first
  have fineU := pass_defined second fine
  have fineT := between_defined back.between fineU
  obtain ⟨xs, ok⟩ := run_ok_of_defined run (pass_defined first fineT)
  obtain ⟨ys, okU⟩ := run_ok_of_defined runU fineU
  have skewed : env.time u.tick < u.lastTime := by
    rw [between_lastTime back.between, pass_lastTime ok first fineT]
    exact back.back
  obtain ⟨k, v', n', zs, _, seg, second', nodes, tally, trace, -, -⟩ :=
    safe_pass env okU (returned_safe okU second fine)
  have same := (Prod.mk.inj (processTimeEvents_unique second second')).1
  refine ⟨seg, same ▸ trace, fun x stored alive => ?_⟩
  rw [LinkedStore.contents_repr okU.repr] at stored
  obtain ⟨y, hy, rfl⟩ := List.mem_map.mp stored
  rw [pending, if_pos skewed] at nodes
  have node : { y.2 with when_sec := 0 } ∈ zs.map Prod.snd := by
    rw [nodes]
    exact List.mem_map.mpr ⟨y, hy, rfl⟩
  obtain ⟨z, hz, eq⟩ := List.mem_map.mp node
  rcases tally.complete z hz with left | gone | reached
  · cases left
  · rw [eq] at gone
    exact absurd gone alive
  · obtain ⟨r, hr, eq'⟩ := List.mem_map.mp reached
    obtain ⟨k, late, read⟩ := tally.readings r hr
    have due : Due r.1.deadline r.2 := by
      rw [eq', eq, read]
      exact .inl (epoch k late)
    have called := tally.fired r hr due
    rwa [eq', eq] at called

end Ae

namespace Ae2

open PriorityQueue

variable {Q : Type} [PriorityQueue Q TimeEvent Earlier] {env : Env Int} {s t u v : EventLoop Q}

structure SetBack (env : Env Int) (s t u v : EventLoop Q) : Prop where
  first : ∃ fuel n, processTimeEvents env fuel s = some (t, n)
  between : WhileLoop.Reach (fun x => x = t) (Step env) (fun _ op => op ≠ .pass) u
  second : ∃ fuel n, processTimeEvents env fuel u = some (v, n)
  back : (snapshot env u).1 < (snapshot env s).1

theorem pass_called_iff {fuel : ℕ} {n : Int} (run : processTimeEvents env fuel u = some (v, n)) :
    ∃ seg, v.trace = u.trace ++ seg ∧ ∀ x ∈ elems u.timeMinHead, x.id ∉ u.setDelTimeId →
      x.id ∉ deletedIn seg → (x ∈ calledIn seg ↔ Due x.deadline (snapshot env u)) := by
  obtain ⟨seg, serving⟩ := visits_serving (WhileLoop.run_visits run)
  have exit := WhileLoop.run_left run
  refine ⟨seg, serving.trace, fun x hx live alive => ⟨serving.called x, fun due => ?_⟩⟩
  rcases serving.kept x hx with stored | called | marked
  · exact absurd due (passStep_none_due exit x stored)
  · exact called
  · rw [serving.dels, Finset.mem_union, List.mem_toFinset] at marked
    rcases marked with before | now
    · exact absurd before live
    · exact absurd now alive

end Ae2

namespace Ae3

open TimeEventMap

variable {env : Env TimeEvent} {s t u v : EventLoop}

structure SetBack (env : Env TimeEvent) (s t u v : EventLoop) : Prop where
  first : ∃ fuel n, processTimeEvents env fuel s = some (t, n)
  between : WhileLoop.Reach (fun x => x = t) (Step env) (fun _ op => op ≠ .pass) u
  second : ∃ fuel n, processTimeEvents env fuel u = some (v, n)
  back : (aeGetTime (env.gettimeofday u.tick)).1 < (aeGetTime (env.gettimeofday s.tick)).1

theorem SetBack.run (back : SetBack env s t u v) (run : Run env (fun _ _ => True) s) :
    Run env (fun _ _ => True) u := by
  obtain ⟨fuel, n, first⟩ := back.first
  have runT : Run env (fun _ _ => True) t := .move run trivial (.pass first)
  refine WhileLoop.Reach.invariant (Run env fun _ _ => True) ?_
    (fun x op y ih _ step => .move ih trivial step) back.between
  rintro x rfl
  exact runT

theorem pass_called_iff {fuel : ℕ} {n : Int} (sound : Sound u)
    (run : processTimeEvents env fuel u = some (v, n)) (fine : v.undef = false) :
    ∃ seg, v.trace = u.trace ++ seg ∧ ∀ x ∈ timers u.timeEventMap, ¬ Erased seg x →
      (x ∈ calledIn seg ↔ timeKey x ≤ lNow env u) := by
  obtain ⟨c, seg, mit, rfl, walk, -, cursor, past, -⟩ := pass_walk sound run fine
  refine ⟨seg, walk.finish_trace, fun x hx alive => ⟨fun called => ?_, fun due => ?_⟩⟩
  · exact (walk.calledLow x called).1
  · exact walk.all_called cursor past hx due alive

end Ae3

/-- When the clock was set back between two passes, `ae.c` calls every timer that is not deleted;
`ae2.cpp` and `ae3.cpp` call such a timer exactly when it is due at the second pass's own
reading. -/
theorem set_back_called_iff {Q : Type} [PriorityQueue Q TimeEvent Ae2.Earlier] :
    (∀ (env : Env Int) (s t u v : Ae.EventLoop), Ae.Run env (fun _ _ => True) s →
      Ae.SetBack env s t u v → v.undef = false →
      (∀ k, u.tick ≤ k → 0 < (env.gettimeofday k).tv_sec) →
      ∃ seg, v.trace = u.trace ++ seg ∧ ∀ x ∈ u.timeEvents.contents, x.id ∉ deletedIn seg →
        { x with when_sec := 0 } ∈ calledIn seg) ∧
    (∀ (env : Env Int) (s t u v : Ae2.EventLoop Q), Ae2.Run env (fun _ _ => True) s →
      Ae2.SetBack env s t u v →
      ∃ seg, v.trace = u.trace ++ seg ∧ ∀ x ∈ PriorityQueue.elems u.timeMinHead,
        x.id ∉ u.setDelTimeId → x.id ∉ deletedIn seg →
        (x ∈ calledIn seg ↔ Due x.deadline (Ae2.snapshot env u))) ∧
    ∀ (env : Env TimeEvent) (s t u v : Ae3.EventLoop), Ae3.Run env (fun _ _ => True) s →
      Ae3.SetBack env s t u v → v.undef = false →
      ∃ seg, v.trace = u.trace ++ seg ∧ ∀ x ∈ Ae3.TimeEventMap.timers u.timeEventMap,
        ¬ Ae3.Erased seg x → (x ∈ calledIn seg ↔ Ae3.timeKey x ≤ Ae3.lNow env u) := by
  refine ⟨?_, ?_, ?_⟩
  · intro env s t u v run back fine epoch
    exact back.called run fine epoch
  · intro env s t u v _ back
    obtain ⟨fuel, n, second⟩ := back.second
    exact Ae2.pass_called_iff second
  · intro env s t u v run back fine
    obtain ⟨fuel, n, second⟩ := back.second
    have sound := Ae3.run_sound (back.run run) (Ae3.pass_defined second fine)
    exact Ae3.pass_called_iff sound second fine

section Runs

def setBackEnv (κ : Type) : Env κ :=
  { stillEnv κ with
    gettimeofday := fun k => Timeval.ofMillis (if k ≤ 2 then 10000 else 5000)
    time := fun k => if k ≤ 2 then 10 else 5 }

def Ae.waiting : Ae.EventLoop :=
  (Ae.aeCreateTimeEvent (setBackEnv Int) (Ae.fresh (setBackEnv Int)) 1000 3 4 none).2

def Ae2.waiting : Ae2.EventLoop (SortedQueue TimeEvent Ae2.Earlier) :=
  (Ae2.aeCreateTimeEvent (setBackEnv Int) (Ae2.fresh (setBackEnv Int)) 1000 3 4 none).2

def Ae3.waiting : Ae3.EventLoop :=
  (Ae3.aeCreateTimeEvent (setBackEnv TimeEvent) (Ae3.fresh (setBackEnv TimeEvent)) 1000 3 4 none).2

def Ae.passed (s : Ae.EventLoop) : Ae.EventLoop :=
  ((Ae.processTimeEvents (setBackEnv Int) 5 s).getD (s, 0)).1

def Ae2.passed (s : Ae2.EventLoop (SortedQueue TimeEvent Ae2.Earlier)) :
    Ae2.EventLoop (SortedQueue TimeEvent Ae2.Earlier) :=
  ((Ae2.processTimeEvents (setBackEnv Int) 5 s).getD (s, 0)).1

def Ae3.passed (s : Ae3.EventLoop) : Ae3.EventLoop :=
  ((Ae3.processTimeEvents (setBackEnv TimeEvent) 5 s).getD (s, 0)).1

theorem Ae.waiting_run : Ae.Run (setBackEnv Int) (fun _ _ => True) Ae.waiting :=
  .move (Ae.fresh_run _ _) trivial (.timer _ (.create 1000 3 4 none))

theorem Ae2.waiting_run : Ae2.Run (setBackEnv Int) (fun _ _ => True) Ae2.waiting :=
  .move (Ae2.fresh_run _ _) trivial (.timer _ (.create 1000 3 4 none))

theorem Ae3.waiting_run : Ae3.Run (setBackEnv TimeEvent) (fun _ _ => True) Ae3.waiting :=
  .move (Ae3.fresh_run _ _) trivial (.timer _ (.create 1000 3 4 none))

theorem Ae.waiting_setBack : Ae.SetBack (setBackEnv Int) Ae.waiting (Ae.passed Ae.waiting)
    (Ae.passed Ae.waiting) (Ae.passed (Ae.passed Ae.waiting)) where
  first := ⟨5, _, rfl⟩
  between := .start rfl
  second := ⟨5, _, rfl⟩
  back := by decide

theorem Ae2.waiting_setBack : Ae2.SetBack (setBackEnv Int) Ae2.waiting (Ae2.passed Ae2.waiting)
    (Ae2.passed Ae2.waiting) (Ae2.passed (Ae2.passed Ae2.waiting)) where
  first := ⟨5, _, rfl⟩
  between := .start rfl
  second := ⟨5, _, rfl⟩
  back := by decide

theorem Ae3.waiting_setBack : Ae3.SetBack (setBackEnv TimeEvent) Ae3.waiting
    (Ae3.passed Ae3.waiting) (Ae3.passed Ae3.waiting) (Ae3.passed (Ae3.passed Ae3.waiting)) where
  first := ⟨5, _, rfl⟩
  between := .start rfl
  second := ⟨5, _, rfl⟩
  back := by decide

def laterTimer : TimeEvent :=
  (Loop.fresh (setBackEnv Int)).newTimeEvent (setBackEnv Int) 1000 3 4 none

/-- A timer one second ahead of a clock that goes back five: `ae.c` calls it, the others do not. -/
theorem set_back_called_iff_waiting :
    (∃ seg, (Ae.passed (Ae.passed Ae.waiting)).trace = (Ae.passed Ae.waiting).trace ++ seg ∧
      { laterTimer with when_sec := 0 } ∈ calledIn seg) ∧
    (∃ seg, (Ae2.passed (Ae2.passed Ae2.waiting)).trace = (Ae2.passed Ae2.waiting).trace ++ seg ∧
      laterTimer ∉ calledIn seg) ∧
    ∃ seg, (Ae3.passed (Ae3.passed Ae3.waiting)).trace = (Ae3.passed Ae3.waiting).trace ++ seg ∧
      laterTimer ∉ calledIn seg := by
  obtain ⟨one, two, three⟩ := @set_back_called_iff (SortedQueue TimeEvent Ae2.Earlier) _
  refine ⟨?_, ?_, ?_⟩
  · obtain ⟨seg, trace, called⟩ := one _ _ _ _ _ Ae.waiting_run Ae.waiting_setBack rfl
      (fun k _ => by
        change 0 < (Timeval.ofMillis (if k ≤ 2 then 10000 else 5000)).tv_sec
        split_ifs
        · decide
        · decide)
    have tail : seg = (Ae.passed (Ae.passed Ae.waiting)).trace.drop
        (Ae.passed Ae.waiting).trace.length := by rw [trace, List.drop_left]
    have alive : laterTimer.id ∉ deletedIn seg := by
      rw [tail]
      decide
    exact ⟨seg, trace, called laterTimer (by decide) alive⟩
  · obtain ⟨seg, trace, called⟩ := two _ _ _ _ _ Ae2.waiting_run Ae2.waiting_setBack
    have tail : seg = (Ae2.passed (Ae2.passed Ae2.waiting)).trace.drop
        (Ae2.passed Ae2.waiting).trace.length := by rw [trace, List.drop_left]
    have alive : laterTimer.id ∉ deletedIn seg := by
      rw [tail]
      decide
    refine ⟨seg, trace, ?_⟩
    rw [called laterTimer (by decide) (by decide) alive]
    decide
  · obtain ⟨seg, trace, called⟩ := three _ _ _ _ _ Ae3.waiting_run Ae3.waiting_setBack rfl
    have tail : seg = (Ae3.passed (Ae3.passed Ae3.waiting)).trace.drop
        (Ae3.passed Ae3.waiting).trace.length := by rw [trace, List.drop_left]
    have alive : ¬ Ae3.Erased seg laterTimer := by
      rintro ⟨d, mem, -⟩
      rw [tail] at mem
      revert d
      decide
    refine ⟨seg, trace, ?_⟩
    rw [called laterTimer (by decide) alive]
    decide

/-- A clock set back between two passes stalls the timers of `ae2.cpp` and of `ae3.cpp`. -/
theorem set_back_called_fails_waiting :
    (¬ ∀ (env : Env Int) (s t u v : Ae2.EventLoop (SortedQueue TimeEvent Ae2.Earlier)),
      Ae2.Run env (fun _ _ => True) s → Ae2.SetBack env s t u v →
      ∃ seg, v.trace = u.trace ++ seg ∧ ∀ x ∈ PriorityQueue.elems u.timeMinHead,
        x.id ∉ u.setDelTimeId → x.id ∉ deletedIn seg → x ∈ calledIn seg) ∧
    ¬ ∀ (env : Env TimeEvent) (s t u v : Ae3.EventLoop), Ae3.Run env (fun _ _ => True) s →
      Ae3.SetBack env s t u v → v.undef = false →
      ∃ seg, v.trace = u.trace ++ seg ∧ ∀ x ∈ Ae3.TimeEventMap.timers u.timeEventMap,
        ¬ Ae3.Erased seg x → x ∈ calledIn seg := by
  refine ⟨fun claim => ?_, fun claim => ?_⟩
  · obtain ⟨seg, trace, called⟩ := claim _ _ _ _ _ Ae2.waiting_run Ae2.waiting_setBack
    have quiet : (Ae2.passed (Ae2.passed Ae2.waiting)).trace = (Ae2.passed Ae2.waiting).trace := rfl
    obtain rfl : seg = [] := List.self_eq_append_right.mp (quiet.symm.trans trace)
    exact absurd (called laterTimer (by decide) (by decide) (by decide)) (by decide)
  · obtain ⟨seg, trace, called⟩ := claim _ _ _ _ _ Ae3.waiting_run Ae3.waiting_setBack rfl
    have quiet : (Ae3.passed (Ae3.passed Ae3.waiting)).trace = (Ae3.passed Ae3.waiting).trace := rfl
    obtain rfl : seg = [] := List.self_eq_append_right.mp (quiet.symm.trans trace)
    have alive : ¬ Ae3.Erased [] laterTimer := by
      rintro ⟨_, mem, -⟩
      cases mem
    exact absurd (called laterTimer (by decide) alive) (by decide)

end Runs

end AeEventLoop
