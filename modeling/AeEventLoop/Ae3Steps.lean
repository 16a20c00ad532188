import AeEventLoop.Ae3Map

/-! What each piece of a pass of `ae3.cpp` does to the map, the vectors and the trace, said once. -/

namespace AeEventLoop.Ae3

open TimeEventMap

def effect (m : TimeEventMap) : Event TimeEvent → TimeEventMap
  | .created te => insertTimer m te
  | .deleted te _ => eraseTimer m te
  | _ => m

structure Ran (env : Env TimeEvent) (calls : List (TimerCall TimeEvent)) (s t : EventLoop)
    (seg : List (Event TimeEvent)) : Prop extends Loop.Ran env calls s.toLoop t.toLoop seg where
  map : t.timeEventMap = seg.foldl effect s.timeEventMap
  asked : ∀ te ret, .deleted te ret ∈ seg → ret = AE_OK ∧ TimerCall.delete te ∈ calls
  deleted : ∀ te, TimerCall.delete te ∈ calls → te ∈ deletedIn seg
  undef : t.undef = s.undef

section Ran

variable {env : Env TimeEvent} {calls : List (TimerCall TimeEvent)} {s t : EventLoop}
  {seg : List (Event TimeEvent)}

theorem Ran.create (ms : Int) (proc data : ℕ) (fin : Option ℕ)
    (h : Ran env calls (aeCreateTimeEvent env s ms proc data fin).2 t seg) :
    Ran env (.create ms proc data fin :: calls) s t
      (.created (s.newTimeEvent env ms proc data fin) :: seg) where
  toRan := .cons_create ms proc data fin h.toRan
  map := h.map
  asked te ret hte := by
    obtain ⟨ok, called⟩ := h.asked te ret (by simpa using hte)
    exact ⟨ok, List.mem_cons_of_mem _ called⟩
  deleted te called := by simpa using h.deleted te (by simpa using called)
  undef := h.undef

theorem Ran.delete (te : TimeEvent) (h : Ran env calls (aeDeleteTimeEvent s te).2 t seg) :
    Ran env (.delete te :: calls) s t (.deleted te AE_OK :: seg) where
  toRan := .cons_delete te AE_OK h.toRan
  map := h.map
  asked x ret hx := by
    rcases List.mem_cons.mp hx with same | later
    · injection same with same ok
      exact ⟨ok, by rw [same]; exact List.mem_cons_self⟩
    · obtain ⟨ok, called⟩ := h.asked x ret later
      exact ⟨ok, List.mem_cons_of_mem _ called⟩
  deleted x called := by
    rw [deletedIn_cons, List.mem_append]
    rcases List.mem_cons.mp called with same | later
    · injection same with same
      exact .inl (by simp [same])
    · exact .inr (h.deleted x later)
  undef := h.undef

end Ran

theorem runCalls_ran (env : Env TimeEvent) (calls : List (TimerCall TimeEvent)) (s : EventLoop) :
    ∃ seg, Ran env calls s (runCalls env s calls) seg := by
  induction calls generalizing s with
  | nil => exact ⟨[], .nil env s.toLoop, rfl, by simp, by simp, rfl⟩
  | cons call calls ih =>
      obtain ⟨seg, h⟩ := ih (runCall env s call)
      cases call with
      | create ms proc data fin => exact ⟨_, h.create ms proc data fin⟩
      | delete te => exact ⟨_, h.delete te⟩

def script (env : Env TimeEvent) (c : Pass) (te : TimeEvent) : Script TimeEvent :=
  env.timeProc c.loop.trace te

/-- A turn of the inner loop at `te`: user code did `user`, the element survived it, and `again`
holds the re-armed copy, if there is one. -/
structure Fired (env : Env TimeEvent) (mit : Int) (te : TimeEvent) (c c' : Pass)
    (user : List (Event TimeEvent)) (again : List TimeEvent) : Prop where
  ran : Ran env (script env c te).calls (log c.loop (.called te))
    (runCalls env (log c.loop (.called te)) (script env c te).calls) user
  trace : c'.loop.trace = c.loop.trace ++ (.called te :: user ++
    .returned te (script env c te).retval :: again.map Event.rearmed)
  map : c'.loop.timeEventMap = user.foldl effect c.loop.timeEventMap
  nextId : c'.loop.timeEventNextId = c.loop.timeEventNextId + (createdIn user).length
  tick : c.loop.tick ≤ c'.loop.tick
  undef : c'.loop.undef = c.loop.undef
  files : c'.loop.toFileTable = c.loop.toFileTable
  survived : ∃ x ∈ bucket c'.loop.timeEventMap mit, x.id = te.id
  cursor : c'.cursor =
    .inner mit (((bucket c'.loop.timeEventMap mit).next? te.id).map TimeEvent.id)
  processed : c'.processed = c.processed
  dels : c'.vecDelTimeMs = c.vecDelTimeMs
  adds : c'.vecAddTimeEvent = c.vecAddTimeEvent ++ again
  last : again = [] ↔ (script env c te).retval = AE_NOMORE
  once : again.length ≤ 1
  armed : ∀ x ∈ again, ∃ k, c.loop.tick ≤ k ∧ x = te.setWhen
    (aeAddMillisecondsToNow (env.gettimeofday k) (script env c te).retval)

/-- Either user code erased the element the iterator is at, or the turn is as it should be. -/
theorem fire_cases (env : Env TimeEvent) (c : Pass) (mit : Int) (te : TimeEvent) :
    (∃ user, Ran env (script env c te).calls (log c.loop (.called te))
        (runCalls env (log c.loop (.called te)) (script env c te).calls) user ∧
      (fire env c mit te).loop.undef = true ∧
      (fire env c mit te).loop.trace = c.loop.trace ++
        (.called te :: user ++ [.returned te (script env c te).retval]) ∧
      ∀ x ∈ bucket (user.foldl effect c.loop.timeEventMap) mit, x.id ≠ te.id) ∨
    ∃ user again, Fired env mit te c (fire env c mit te) user again := by
  obtain ⟨user, ran⟩ := runCalls_ran env (script env c te).calls (log c.loop (.called te))
  have map : (runTimeProc env c.loop te).timeEventMap =
      user.foldl effect c.loop.timeEventMap := ran.map
  have trace : (runTimeProc env c.loop te).trace = c.loop.trace ++
      (.called te :: user ++ [.returned te (script env c te).retval]) := by
    change (runCalls env _ (script env c te).calls).trace ++ [_] = _
    rw [ran.trace]
    simp [log, script]
  cases found : (bucket (runTimeProc env c.loop te).timeEventMap mit).find? te.id with
  | none =>
      refine .inl ⟨user, ran, ?_, ?_, ?_⟩
      · simp only [fire, found]
      · simp only [fire, found]
        exact trace
      · rw [← map]
        exact KeyedSet.find?_eq_none.mp found
  | some x =>
      have survived : ∃ x ∈ bucket (runTimeProc env c.loop te).timeEventMap mit, x.id = te.id :=
        ⟨x, KeyedSet.find?_eq_some.mp found⟩
      refine .inr ?_
      by_cases ends : (script env c te).retval = AE_NOMORE
      · have eq : fire env c mit te =
            { c with
              loop := runTimeProc env c.loop te
              cursor := .inner mit
                (((bucket (runTimeProc env c.loop te).timeEventMap mit).next? te.id).map
                  TimeEvent.id) } := by
          have stop : (env.timeProc c.loop.trace te).retval = AE_NOMORE := ends
          simp only [fire, found, stop, ne_eq, not_true_eq_false, if_false]
        rw [eq]
        exact ⟨user, [], ran, by simpa using trace, map, ran.nextId, ran.tick, ran.undef, ran.files,
          survived, rfl, rfl, rfl, by simp, by simpa using ends, by simp, by simp⟩
      · have eq : fire env c mit te =
            { rearm env { c with loop := runTimeProc env c.loop te } te (script env c te).retval with
              cursor := .inner mit
                (((bucket (runTimeProc env c.loop te).timeEventMap mit).next? te.id).map
                  TimeEvent.id) } := by
          have more : ¬ (env.timeProc c.loop.trace te).retval = AE_NOMORE := ends
          simp only [fire, found, more, ne_eq, not_false_eq_true, if_true]
          rfl
        rw [eq]
        refine ⟨user, [te.setWhen (aeAddMillisecondsToNow
          (env.gettimeofday (runTimeProc env c.loop te).tick) (script env c te).retval)], ran, ?_,
          map, ran.nextId, ran.tick.trans (Nat.le_succ _), ran.undef, ran.files, survived, rfl, rfl,
          rfl, rfl, by simpa using ends, le_refl _, ?_⟩
        · simp only [rearm, log, trace]
          simp
        · intro y hy
          exact ⟨_, ran.tick, List.mem_singleton.mp hy⟩

theorem foldl_effect_of_creates {seg : List (Event TimeEvent)} (user : ∀ e ∈ seg, UserEvent e)
    (creates : ∀ te ret, .deleted te ret ∉ seg) (m : TimeEventMap) :
    seg.foldl effect m = (createdIn seg).foldl insertTimer m := by
  induction seg generalizing m with
  | nil => rfl
  | cons e seg ih =>
      have rest := ih (fun e he => user e (List.mem_cons_of_mem _ he))
        (fun te ret h => creates te ret (List.mem_cons_of_mem _ h))
      cases e with
      | created te => simp [effect, rest]
      | deleted te ret => exact absurd List.mem_cons_self (creates te ret)
      | _ => exact absurd (user _ List.mem_cons_self) (by simp [UserEvent])

end AeEventLoop.Ae3
