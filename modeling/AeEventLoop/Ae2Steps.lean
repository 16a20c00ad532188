import AeEventLoop.Ae2
import Mathlib.Data.Finset.Dedup
import Mathlib.Data.Finset.Basic
import Mathlib.Data.Multiset.Filter

/-! What each piece of `ae2.cpp` does to the queue, the tombstones and the trace, said once. A
block of user calls pushes what it creates and marks what it deletes; a turn of the loop reaches
the top, runs user code, pops, and perhaps pushes the same timer again. -/

namespace AeEventLoop.Ae2

open PriorityQueue

variable {Q : Type} [PriorityQueue Q TimeEvent Earlier]

structure Ran (env : Env Int) (calls : List (TimerCall Int)) (s t : EventLoop Q)
    (seg : List (Event Int)) : Prop extends Loop.Ran env calls s.toLoop t.toLoop seg where
  heap : t.timeMinHead = (createdIn seg).foldl push s.timeMinHead
  dels : t.setDelTimeId = s.setDelTimeId ∪ (deletedIn seg).toFinset
  asked : ∀ id, id ∈ deletedIn seg → TimerCall.delete id ∈ calls

section Ran

variable {env : Env Int} {calls : List (TimerCall Int)} {s t : EventLoop Q}
  {seg : List (Event Int)}

theorem Ran.create (ms : Int) (proc data : ℕ) (fin : Option ℕ)
    (h : Ran env calls (aeCreateTimeEvent env s ms proc data fin).2 t seg) :
    Ran env (.create ms proc data fin :: calls) s t
      (.created (s.newTimeEvent env ms proc data fin) :: seg) where
  toRan := .cons_create ms proc data fin h.toRan
  heap := h.heap
  dels := h.dels
  asked id hid := List.mem_cons_of_mem _ (h.asked id hid)

theorem Ran.delete (id : Int) (h : Ran env calls (aeDeleteTimeEvent s id).2 t seg) :
    Ran env (.delete id :: calls) s t (.deleted id AE_OK :: seg) where
  toRan := .cons_delete id AE_OK h.toRan
  heap := h.heap
  dels := by
    rw [h.dels]
    ext x
    simp only [aeDeleteTimeEvent, deletedIn_cons, Event.deleted?, if_true, Option.toList_some,
      List.cons_append, List.nil_append, List.toFinset_cons, Finset.mem_union, Finset.mem_insert,
      List.mem_toFinset]
    exact or_assoc.trans or_left_comm
  asked := by
    simp only [deletedIn_cons, Event.deleted?, if_true, Option.toList_some, List.singleton_append, List.mem_cons]
    rintro id' (rfl | hid)
    · exact .inl rfl
    · exact .inr (h.asked id' hid)

end Ran

theorem runCalls_ran (env : Env Int) (calls : List (TimerCall Int)) (s : EventLoop Q) :
    ∃ seg, Ran env calls s (runCalls env s calls) seg := by
  induction calls generalizing s with
  | nil => exact ⟨[], .nil env s.toLoop, rfl, by simp [runCalls], by simp⟩
  | cons call calls ih =>
      obtain ⟨seg, h⟩ := ih (runCall env s call)
      cases call with
      | create ms proc data fin => exact ⟨_, h.create ms proc data fin⟩
      | delete id => exact ⟨_, h.delete id⟩

theorem runCalls_tick (env : Env Int) (calls : List (TimerCall Int)) (s : EventLoop Q) :
    (runCalls env s calls).tick = s.tick + (createdDeadlines env s.tick calls).length := by
  induction calls generalizing s with
  | nil => rfl
  | cons call calls ih =>
      have later := ih (runCall env s call)
      cases call with
      | create ms proc data fin =>
          have tick : (runCall env s (.create ms proc data fin)).tick = s.tick + 1 := rfl
          change (runCalls env (runCall env s (.create ms proc data fin)) calls).tick = _
          rw [later, tick, createdDeadlines, List.length_cons]
          omega
      | delete id => exact later

def turnCalls (env : Env Int) (now : Int × Int) (s : EventLoop Q) (te : TimeEvent) :
    List (TimerCall Int) :=
  if te.id ∈ s.setDelTimeId then
    if te.finalizerProc.isSome then
      env.finalizerProc (s.trace ++ [.reached te now, .discarded te]) te
    else []
  else if Due te.deadline now then (env.timeProc (s.trace ++ [.reached te now]) te).calls
  else []

/-- The deadline that the callback of `te` is set anew for, by a return value other than
`AE_NOMORE`, in the turn that finds `te` on top of `s`. -/
def rearmDeadline (env : Env Int) (now : Int × Int) (s : EventLoop Q) (te : TimeEvent) : Int × Int :=
  let script := env.timeProc (s.trace ++ [.reached te now]) te
  aeAddMillisecondsToNow
    (env.gettimeofday (s.tick + (createdDeadlines env s.tick script.calls).length)) script.retval

/-- One turn of the loop, at the top `te`: the trace gets `front`, then what user code did, then
`back`; `pop` removed `gone`; `again` holds the re-armed copy of `te`, if there is one. -/
structure Turn (env : Env Int) (calls : List (TimerCall Int)) (te : TimeEvent)
    (s t : EventLoop Q) (front user back : List (Event Int)) (gone : TimeEvent)
    (again : List TimeEvent) : Prop where
  top : top s.timeMinHead = some te
  ran : Ran env calls { s with trace := s.trace ++ front }
    (runCalls env { s with trace := s.trace ++ front } calls) user
  trace : t.trace = s.trace ++ (front ++ user ++ back)
  isUser : ∀ e ∈ user, UserEvent e
  topGone : PriorityQueue.top ((createdIn user).foldl push s.timeMinHead) = some gone
  heap : t.timeMinHead = again.foldl push (pop ((createdIn user).foldl push s.timeMinHead))
  dels : t.setDelTimeId = s.setDelTimeId ∪ (deletedIn user).toFinset
  nextId : t.timeEventNextId = s.timeEventNextId + (createdIn user).length
  newIds : ∀ x ∈ createdIn user, s.timeEventNextId ≤ x.id ∧ x.id < t.timeEventNextId
  idsNodup : ((createdIn user).map TimeEvent.id).Nodup
  origin : ∀ x ∈ createdIn user, ∃ ms proc data fin, TimerCall.create ms proc data fin ∈ calls ∧
    ∃ k, s.tick ≤ k ∧ x.deadline = aeAddMillisecondsToNow (env.gettimeofday k) ms
  deadlines : (createdIn user).map TimeEvent.deadline = createdDeadlines env s.tick calls
  asked : ∀ id, id ∈ deletedIn user → TimerCall.delete id ∈ calls
  rearmed : ∀ x ∈ again, ∃ r k, s.tick ≤ k ∧
    x = te.setWhen (aeAddMillisecondsToNow (env.gettimeofday k) r)
  once : again.length ≤ 1
  tick : s.tick ≤ t.tick
  files : t.toFileTable = s.toFileTable

theorem exists_top_foldl_push {q : Q} {te : TimeEvent} (h : top q = some te)
    (xs : List TimeEvent) : ∃ gone, top (xs.foldl push q) = some gone := by
  refine Option.ne_none_iff_exists'.mp fun none => ?_
  have zero := (top_eq_none _).mp none
  have stored : te ∈ elems (xs.foldl push q) := by
    rw [elems_foldl_push q xs]
    exact Multiset.mem_add.mpr (.inr (top_mem h))
  rw [zero] at stored
  exact Multiset.notMem_zero te stored

theorem popHead_eq {s : EventLoop Q} {te : TimeEvent} (h : top s.timeMinHead = some te) :
    popHead s = log { s with timeMinHead := pop s.timeMinHead } (.popped te) := by
  simp only [popHead, h]

theorem popHead_tick (s : EventLoop Q) : (popHead s).tick = s.tick := by
  unfold popHead
  split <;> rfl

theorem Ran.turn {env : Env Int} {calls : List (TimerCall Int)} {s : EventLoop Q}
    {te : TimeEvent} {front user : List (Event Int)} (h : top s.timeMinHead = some te)
    (ran : Ran env calls { s with trace := s.trace ++ front }
      (runCalls env { s with trace := s.trace ++ front } calls) user)
    (between : List (Event Int)) :
    ∃ gone, Turn env calls te s
      (popHead { runCalls env { s with trace := s.trace ++ front } calls with
        trace := (runCalls env { s with trace := s.trace ++ front } calls).trace ++ between })
      front user (between ++ [.popped gone]) gone [] := by
  let mid := runCalls env { s with trace := s.trace ++ front } calls
  obtain ⟨gone, hgone⟩ := exists_top_foldl_push h (createdIn user)
  have htop : top mid.timeMinHead = some gone := by rw [ran.heap]; exact hgone
  refine ⟨gone, ?_⟩
  rw [popHead_eq (s := { mid with trace := mid.trace ++ between }) htop]
  exact ⟨h, ran, by simp [log, mid, ran.trace], ran.user, hgone, congrArg pop ran.heap, ran.dels,
    ran.nextId, ran.newIds, ran.idsNodup, ran.origin, ran.deadlines, ran.asked, by simp, by simp,
    ran.tick, ran.files⟩

theorem Turn.rearm {env : Env Int} {calls : List (TimerCall Int)} {te : TimeEvent}
    {s t : EventLoop Q} {front user back : List (Event Int)} {gone : TimeEvent}
    (h : Turn env calls te s t front user back gone []) (r : Int) :
    ∃ te', te' = te.setWhen (aeAddMillisecondsToNow (env.gettimeofday t.tick) r) ∧
      Turn env calls te s (Ae2.rearm env t te r) front user (back ++ [.rearmed te']) gone [te'] :=
  ⟨_, rfl, h.top, h.ran, by simp [Ae2.rearm, log, h.trace], h.isUser, h.topGone,
    congrArg (push · _) h.heap, h.dels, h.nextId, h.newIds, h.idsNodup, h.origin, h.deadlines, h.asked,
    fun x hx => ⟨r, t.tick, h.tick, List.mem_singleton.mp hx⟩, le_refl _,
    h.tick.trans (Nat.le_succ _), h.files⟩

/-- The timer at the top is tombstoned: its finalizer runs, if it has one, and the queue pops. -/
theorem discard_turn (env : Env Int) (now : Int × Int) {s : EventLoop Q} {te : TimeEvent}
    (h : top s.timeMinHead = some te) :
    ∃ calls front user gone,
      Turn env calls te s (discard env (log s (.reached te now)) te) front user
        [.popped gone] gone [] ∧
      front = [.reached te now, .discarded te] ++
        (if te.finalizerProc.isSome then [.finalized te] else []) ∧
      calls = if te.finalizerProc.isSome then
        env.finalizerProc (s.trace ++ [.reached te now, .discarded te]) te else [] := by
  cases fin : te.finalizerProc with
  | none =>
      obtain ⟨user, ran⟩ := runCalls_ran env []
        { s with trace := s.trace ++ [.reached te now, .discarded te] }
      obtain ⟨gone, turn⟩ := ran.turn h []
      refine ⟨[], [.reached te now, .discarded te], user, gone, ?_, by simp, by simp⟩
      simpa [discard, runFinalizer, fin, log, runCalls] using turn
  | some f =>
      let calls := env.finalizerProc (s.trace ++ [.reached te now, .discarded te]) te
      obtain ⟨user, ran⟩ := runCalls_ran env calls
        { s with trace := s.trace ++ [.reached te now, .discarded te, .finalized te] }
      obtain ⟨gone, turn⟩ := ran.turn h []
      refine ⟨calls, [.reached te now, .discarded te, .finalized te], user, gone, ?_, by simp,
        by simp [calls]⟩
      simpa [discard, runFinalizer, fin, log, calls] using turn

/-- The timer at the top is due: its callback runs, the queue pops, and unless the callback
returned `AE_NOMORE` the copied record is pushed again with a new deadline. -/
theorem fire_turn (env : Env Int) (now : Int × Int) {s : EventLoop Q} {te : TimeEvent}
    (h : top s.timeMinHead = some te) :
    ∃ user back gone again,
      Turn env (env.timeProc (s.trace ++ [.reached te now]) te).calls te s
        (fire env (log s (.reached te now)) te) [.reached te now, .called te] user back gone again ∧
      back = [.returned te (env.timeProc (s.trace ++ [.reached te now]) te).retval, .popped gone] ++
        again.map Event.rearmed ∧
      (again = [] ↔ (env.timeProc (s.trace ++ [.reached te now]) te).retval = AE_NOMORE) ∧
      ∀ x ∈ again, x = te.setWhen (rearmDeadline env now s te) := by
  let script := env.timeProc (s.trace ++ [.reached te now]) te
  obtain ⟨user, ran⟩ := runCalls_ran env script.calls
    { s with trace := s.trace ++ [.reached te now, .called te] }
  obtain ⟨gone, turn⟩ := ran.turn h [.returned te script.retval]
  have popped : popHead (runTimeProc env (log s (.reached te now)) te) = popHead
      { runCalls env { s with trace := s.trace ++ [.reached te now, .called te] } script.calls with
        trace := (runCalls env { s with trace := s.trace ++ [.reached te now, .called te] }
          script.calls).trace ++ [.returned te script.retval] } := by
    simp [runTimeProc, log, script]
  by_cases last : script.retval = AE_NOMORE
  · refine ⟨user, _, gone, [], ?_, rfl, by simpa using last, by simp⟩
    have eq : fire env (log s (.reached te now)) te =
        popHead (runTimeProc env (log s (.reached te now)) te) := by
      simp only [fire]
      exact if_neg (not_not.mpr last)
    rw [eq, popped]
    exact turn
  · obtain ⟨te', hte', again⟩ := turn.rearm script.retval
    have eq : fire env (log s (.reached te now)) te =
        Ae2.rearm env (popHead (runTimeProc env (log s (.reached te now)) te)) te script.retval := by
      simp only [fire]
      exact if_pos last
    refine ⟨user, _, gone, [te'], ?_, rfl, by simpa using last, ?_⟩
    · rw [eq, popped]
      simpa using again
    · intro x hx
      rw [List.mem_singleton.mp hx, hte', popHead_tick]
      change te.setWhen (aeAddMillisecondsToNow
        (env.gettimeofday (runCalls env _ script.calls).tick) _) = _
      rw [runCalls_tick]
      rfl

section Elems

variable {env : Env Int} {calls : List (TimerCall Int)} {te : TimeEvent} {s t : EventLoop Q}
  {front user back : List (Event Int)} {gone : TimeEvent} {again : List TimeEvent}

theorem Turn.elems_eq (h : Turn env calls te s t front user back gone again) :
    elems t.timeMinHead = (again : Multiset TimeEvent) +
      ((createdIn user : Multiset TimeEvent) + elems s.timeMinHead).erase gone := by
  rw [h.heap, elems_foldl_push, elems_pop h.topGone, elems_foldl_push]

/-- What `pop` removes is the timer just run exactly if user code created nothing earlier. -/
theorem Turn.gone_eq_iff (h : Turn env calls te s t front user back gone again) :
    gone = te ↔ ∀ x ∈ createdIn user, ¬ Earlier x te := by
  constructor
  · rintro rfl x hx early
    refine top_ne_of_earlier early ?_ h.topGone
    rw [elems_foldl_push]
    exact Multiset.mem_add.mpr (.inl hx)
  · intro later
    have := top_foldl_push h.top (createdIn user) later
    exact Option.some.inj (h.topGone.symm.trans this)

theorem Turn.elems_of_exact (h : Turn env calls te s t front user back te again) :
    elems t.timeMinHead = (again : Multiset TimeEvent) +
      ((createdIn user : Multiset TimeEvent) + (elems s.timeMinHead).erase te) := by
  rw [h.elems_eq, Multiset.erase_add_right_pos _ (top_mem h.top)]

theorem Turn.account (h : Turn env calls te s t front user back te again) :
    te ::ₘ elems t.timeMinHead = (createdIn user : Multiset TimeEvent) +
      (again : Multiset TimeEvent) + elems s.timeMinHead := by
  rw [h.elems_of_exact, ← Multiset.add_assoc, ← Multiset.add_cons,
    Multiset.cons_erase (top_mem h.top), Multiset.add_comm (again : Multiset TimeEvent)]

end Elems

/-- Ids name timers: no id is stored twice and the next one is unused. -/
structure IdsOk (s : EventLoop Q) : Prop where
  nodup : ((elems s.timeMinHead).map TimeEvent.id).Nodup
  below : ∀ te ∈ elems s.timeMinHead, te.id < s.timeEventNextId

theorem Turn.grown_ids {env : Env Int} {calls : List (TimerCall Int)} {te gone : TimeEvent}
    {s t : EventLoop Q} {front user back : List (Event Int)} {again : List TimeEvent}
    (h : Turn env calls te s t front user back gone again) (ok : IdsOk s) :
    (((createdIn user : Multiset TimeEvent) + elems s.timeMinHead).map TimeEvent.id).Nodup ∧
      ∀ x ∈ (createdIn user : Multiset TimeEvent) + elems s.timeMinHead,
        x.id < t.timeEventNextId := by
  refine ⟨?_, fun x hx => ?_⟩
  · rw [Multiset.map_add, Multiset.nodup_add, Multiset.map_coe, Multiset.coe_nodup]
    refine ⟨h.idsNodup, ok.nodup, Multiset.disjoint_left.mpr fun {i} hi hj => ?_⟩
    obtain ⟨x, hx, rfl⟩ := List.mem_map.mp (Multiset.mem_coe.mp hi)
    obtain ⟨y, hy, same⟩ := Multiset.mem_map.mp hj
    have := (h.newIds x hx).1
    have := ok.below y hy
    omega
  · rcases Multiset.mem_add.mp hx with new | old
    · exact (h.newIds x new).2
    · have := ok.below x old
      have := h.nextId
      omega

/-- Ids stay distinct if nothing is pushed again, or if the timer run was popped. -/
theorem Turn.idsOk_of {env : Env Int} {calls : List (TimerCall Int)} {te gone : TimeEvent}
    {s t : EventLoop Q} {front user back : List (Event Int)} {again : List TimeEvent}
    (h : Turn env calls te s t front user back gone again) (ok : IdsOk s)
    (own : ∀ x ∈ again, gone = te) : IdsOk t := by
  obtain ⟨nodup, below⟩ := h.grown_ids ok
  have stored : te ∈ (createdIn user : Multiset TimeEvent) + elems s.timeMinHead :=
    Multiset.mem_add.mpr (.inr (top_mem h.top))
  have sameId : ∀ x ∈ again, x.id = te.id := by
    intro x hx
    obtain ⟨r, k, -, rfl⟩ := h.rearmed x hx
    rfl
  have againNodup : ((again : Multiset TimeEvent).map TimeEvent.id).Nodup := by
    rcases eq_nil_or_singleton h.once with rfl | ⟨x, rfl⟩
    · simp
    · simp
  refine ⟨?_, fun x hx => ?_⟩
  · rw [h.elems_eq, Multiset.map_add, Multiset.nodup_add]
    refine ⟨againNodup, Multiset.nodup_of_le (Multiset.map_le_map (Multiset.erase_le _ _)) nodup, ?_⟩
    refine Multiset.disjoint_left.mpr fun {i} hi hj => ?_
    obtain ⟨x, hx, rfl⟩ := Multiset.mem_map.mp hi
    rw [sameId x hx, own x hx] at hj
    rw [← Multiset.cons_erase stored, Multiset.map_cons, Multiset.nodup_cons] at nodup
    exact nodup.1 hj
  · rw [h.elems_eq, Multiset.mem_add] at hx
    rcases hx with rearmed | left
    · rw [sameId x rearmed]
      exact below te stored
    · exact below x (Multiset.mem_of_mem_erase left)

theorem Turn.idsOk {env : Env Int} {calls : List (TimerCall Int)} {te : TimeEvent}
    {s t : EventLoop Q} {front user back : List (Event Int)} {again : List TimeEvent}
    (h : Turn env calls te s t front user back te again) (ok : IdsOk s) : IdsOk t :=
  h.idsOk_of ok fun _ _ => rfl

/-- After an exact turn a timer with the top's id is stored only if it was armed again; other
old ids are stored only if they were. -/
theorem Turn.stored_id {env : Env Int} {calls : List (TimerCall Int)} {te : TimeEvent}
    {s t : EventLoop Q} {front user back : List (Event Int)} {again : List TimeEvent}
    (turn : Turn env calls te s t front user back te again) (ok : IdsOk s) {x : TimeEvent}
    (hx : x ∈ elems t.timeMinHead) :
    x ∈ again ∨ s.timeEventNextId ≤ x.id ∨ x ∈ elems s.timeMinHead ∧ x.id ≠ te.id := by
  rw [turn.elems_of_exact, Multiset.mem_add, Multiset.mem_add] at hx
  rcases hx with rearmed | fresh | old
  · exact .inl rearmed
  · exact .inr (.inl (turn.newIds x fresh).1)
  · refine .inr (.inr ⟨Multiset.mem_of_mem_erase old, fun same => ?_⟩)
    have nodup := ok.nodup
    rw [← Multiset.cons_erase (top_mem turn.top), Multiset.map_cons, Multiset.nodup_cons] at nodup
    exact nodup.1 (Multiset.mem_map.mpr ⟨x, old, same⟩)

section IdsOk

variable {env : Env Int} {s t : EventLoop Q}

theorem IdsOk.push (ok : IdsOk s) (te : TimeEvent) (new : te.id = s.timeEventNextId)
    (heap : t.timeMinHead = push s.timeMinHead te)
    (next : t.timeEventNextId = s.timeEventNextId + 1) : IdsOk t where
  nodup := by
    rw [heap, elems_push, Multiset.map_cons, Multiset.nodup_cons]
    refine ⟨fun stored => ?_, ok.nodup⟩
    obtain ⟨x, hx, same⟩ := Multiset.mem_map.mp stored
    have := ok.below x hx
    omega
  below x hx := by
    rw [heap, elems_push, Multiset.mem_cons] at hx
    rcases hx with rfl | hx
    · omega
    · have := ok.below x hx
      omega

theorem runCall_idsOk (env : Env Int) (ok : IdsOk s) (call : TimerCall Int) :
    IdsOk (runCall env s call) := by
  cases call with
  | create ms proc data fin => exact ok.push (s.newTimeEvent env ms proc data fin) rfl rfl rfl
  | delete id => exact ⟨ok.nodup, ok.below⟩

theorem aeResizeSetSize_idsOk (ok : IdsOk s) (mem : Memory) (setsize : Int) :
    IdsOk (aeResizeSetSize mem s setsize).2 := by
  unfold aeResizeSetSize
  split_ifs
  · exact ok
  · exact ok
  · exact ⟨by simp, by simp⟩

theorem aeCreateEventLoop_idsOk {mem : Memory} {setsize : Int}
    (h : aeCreateEventLoop env mem setsize = some s) : IdsOk s := by
  obtain ⟨l, -, rfl⟩ := Option.map_eq_some_iff.mp h
  exact ⟨by simp, by simp⟩

end IdsOk

theorem passStep_cases {env : Env Int} {now : Int × Int} {s t : EventLoop Q} {n m : Int}
    (h : passStep env now (s, n) = some (t, m)) :
    ∃ te, top s.timeMinHead = some te ∧
      (te.id ∈ s.setDelTimeId ∧ m = n ∧ t = discard env (log s (.reached te now)) te ∨
        te.id ∉ s.setDelTimeId ∧ Due te.deadline now ∧ m = n + 1 ∧
          t = fire env (log s (.reached te now)) te) := by
  simp only [passStep] at h
  split at h
  · cases h
  · rename_i te htop
    split_ifs at h with marked due
    · obtain ⟨rfl, rfl⟩ := Prod.mk.inj (Option.some.inj h)
      exact ⟨te, htop, .inl ⟨marked, rfl, rfl⟩⟩
    · obtain ⟨rfl, rfl⟩ := Prod.mk.inj (Option.some.inj h)
      exact ⟨te, htop, .inr ⟨marked, due, rfl, rfl⟩⟩

theorem passStep_exit {env : Env Int} {now : Int × Int} {s : EventLoop Q} {n : Int}
    (h : passStep env now (s, n) = none) :
    elems s.timeMinHead = 0 ∨ ∃ te, top s.timeMinHead = some te ∧ te.id ∉ s.setDelTimeId ∧
      ¬ Due te.deadline now := by
  simp only [passStep] at h
  split at h
  · rename_i none
    exact .inl ((top_eq_none _).mp none)
  · rename_i te htop
    split_ifs at h with marked due
    exact .inr ⟨te, htop, marked, due⟩

end AeEventLoop.Ae2
