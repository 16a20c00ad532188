import AeEventLoop.AePass
import AeEventLoop.Ae2Pass
import AeEventLoop.Ae3Pass

/-! What a pass is for, in a world where it can be said without mentioning how timers are stored:
the clock stands still while the pass goes on, callbacks and finalizers make no timer calls, and
what a callback returns depends on its timer's id and on how often it has run. Each of the three
event loops refines this pass. -/

namespace AeEventLoop

def fired {κ : Type} (tr : List (Event κ)) (id : Int) : ℕ :=
  (calledIn tr).countP fun te => te.id = id

/-- The clock stands at `clock`, and the `k`-th return of timer `id` is `r id k`. -/
def steadyEnv (κ : Type) (clock : Timeval) (r : Int → ℕ → Int) : Env κ where
  gettimeofday _ := clock
  time _ := clock.tv_sec
  timeProc tr te := ⟨[], r te.id (fired tr te.id)⟩
  finalizerProc _ _ := []

/-- What becomes of `te` when its callback returns `retval`. -/
def rearmedAt (clock : Timeval) (retval : Int) (te : TimeEvent) : Option TimeEvent :=
  if retval = AE_NOMORE then none
  else some (te.setWhen (aeAddMillisecondsToNow clock retval))

theorem rearmedAt_id {clock : Timeval} {retval : Int} {te x : TimeEvent}
    (h : rearmedAt clock retval te = some x) : x.id = te.id := by
  rw [rearmedAt] at h
  split_ifs at h
  obtain rfl := Option.some.inj h
  rfl

theorem again_eq_rearmedAt {clock : Timeval} {retval : Int} {te : TimeEvent}
    {again : List TimeEvent} (once : again.length ≤ 1) (last : again = [] ↔ retval = AE_NOMORE)
    (armed : ∀ x ∈ again, x = te.setWhen (aeAddMillisecondsToNow clock retval)) :
    again = (rearmedAt clock retval te).toList := by
  rcases eq_nil_or_singleton once with rfl | ⟨x, rfl⟩
  · rw [rearmedAt, if_pos (last.mp rfl), Option.toList_none]
  · have more : retval ≠ AE_NOMORE := fun ended => List.cons_ne_nil _ _ (last.mpr ended)
    rw [rearmedAt, if_neg more, armed x List.mem_cons_self, Option.toList_some]

/-- A pass over the timers `before` that called `called`, returned `n` and left the timers
`after`; `count id` is how often the callback of timer `id` had run. -/
structure SteadyPass (clock : Timeval) (r : Int → ℕ → Int) (count : Int → ℕ)
    (before after : TimeEvent → Prop) (called : List TimeEvent) (n : Int) : Prop where
  calls : ∀ te, te ∈ called ↔ before te ∧ Due te.deadline (aeGetTime clock)
  once : (called.map TimeEvent.id).Nodup
  returns : n = called.length
  left : ∀ x, after x ↔ before x ∧ ¬ Due x.deadline (aeGetTime clock) ∨
    ∃ te ∈ called, rearmedAt clock (r te.id (count te.id)) te = some x

section Replied

variable {κ : Type} {clock : Timeval} {r : Int → ℕ → Int} {history new seg : List (Event κ)}

/-- What one turn of a steady pass adds to the trace: nothing of note, or one call with its
return and, unless that was `AE_NOMORE`, the re-arming. -/
structure Replied (clock : Timeval) (r : Int → ℕ → Int) (history new : List (Event κ)) : Prop where
  created : createdIn new = []
  deleted : deletedIn new = []
  reply : calledIn new = [] ∧ returnedIn new = [] ∧ rearmedIn new = [] ∨
    ∃ te, calledIn new = [te] ∧ returnedIn new = [(te, r te.id (fired history te.id))] ∧
      rearmedIn new = (rearmedAt clock (r te.id (fired history te.id)) te).toList

/-- The same of a whole stretch that calls no timer twice. -/
structure Steady (clock : Timeval) (r : Int → ℕ → Int) (history seg : List (Event κ)) : Prop where
  created : createdIn seg = []
  deleted : deletedIn seg = []
  returned : ((calledIn seg).map TimeEvent.id).Nodup → returnedIn seg =
    (calledIn seg).map fun te => (te, r te.id (fired history te.id))
  rearmed : ((calledIn seg).map TimeEvent.id).Nodup → rearmedIn seg =
    (calledIn seg).filterMap fun te => rearmedAt clock (r te.id (fired history te.id)) te

theorem Steady.nil : Steady clock r history [] := ⟨rfl, rfl, fun _ => rfl, fun _ => rfl⟩

theorem fired_append (a b : List (Event κ)) (id : Int) :
    fired (a ++ b) id = fired a id + fired b id := by
  simp [fired]

theorem fired_eq_zero {id : Int} (absent : id ∉ (calledIn seg).map TimeEvent.id) :
    fired seg id = 0 := by
  rw [fired, List.countP_eq_zero]
  intro te hte same
  exact absent (List.mem_map.mpr ⟨te, hte, by simpa using same⟩)

theorem Steady.append (h : Steady clock r history seg)
    (turn : Replied clock r (history ++ seg) new) : Steady clock r history (seg ++ new) := by
  have created : createdIn (seg ++ new) = [] := by simp [h.created, turn.created]
  have deleted : deletedIn (seg ++ new) = [] := by simp [h.deleted, turn.deleted]
  rcases turn.reply with ⟨called, returned, rearmed⟩ | ⟨te, called, returned, rearmed⟩
  · refine ⟨created, deleted, ?_, ?_⟩
    · simpa [called, returned] using h.returned
    · simpa [called, rearmed] using h.rearmed
  · have before : ((calledIn (seg ++ new)).map TimeEvent.id).Nodup →
        ((calledIn seg).map TimeEvent.id).Nodup ∧ fired (history ++ seg) te.id = fired history te.id := by
      intro once
      rw [calledIn_append, called, List.map_append, List.nodup_append] at once
      obtain ⟨first, -, apart⟩ := once
      have absent : te.id ∉ (calledIn seg).map TimeEvent.id := fun h =>
        apart te.id h te.id (by simp) rfl
      exact ⟨first, by rw [fired_append, fired_eq_zero absent, Nat.add_zero]⟩
    refine ⟨created, deleted, fun once => ?_, fun once => ?_⟩
    · obtain ⟨first, same⟩ := before once
      rw [returnedIn_append, calledIn_append, h.returned first, called, returned, same]
      simp
    · obtain ⟨first, same⟩ := before once
      rw [rearmedIn_append, calledIn_append, h.rearmed first, called, rearmed, same,
        List.filterMap_append, filterMap_cons_toList]
      simp

theorem steady_of_visits {σ : Type} {step : σ → Option σ} (trace : σ → List (Event κ))
    (next : σ → Int) {s c : σ}
    (turn : ∀ a b, step a = some b → next b = next a ∧
      ∃ new, trace b = trace a ++ new ∧ Replied clock r (trace a) new)
    (visited : WhileLoop.Visits step s c) :
    next c = next s ∧ ∃ seg, trace c = trace s ++ seg ∧ Steady clock r (trace s) seg := by
  refine WhileLoop.visits_invariant (fun c => next c = next s ∧
      ∃ seg, trace c = trace s ++ seg ∧ Steady clock r (trace s) seg) (fun _ => True)
    ?_ (fun _ _ => trivial) ⟨rfl, [], by simp, .nil⟩ visited
  rintro a b ⟨same, seg, eq, steady⟩ - body
  obtain ⟨same', new, eq', replied⟩ := turn a b body
  rw [eq] at replied
  exact ⟨same'.trans same, seg ++ new, by rw [eq', eq, List.append_assoc], steady.append replied⟩

end Replied

def Answers (r : Int → ℕ → Int) : Prop := ∀ id k, r id k = AE_NOMORE ∨ 1 ≤ r id k

namespace Ae2

open PriorityQueue

variable {Q : Type} [PriorityQueue Q TimeEvent Earlier] {clock : Timeval} {r : Int → ℕ → Int}
  {now : Int × Int} {s t : EventLoop Q} {n m : Int}

def Live (s : EventLoop Q) (te : TimeEvent) : Prop :=
  te ∈ elems s.timeMinHead ∧ te.id ∉ s.setDelTimeId

theorem steadyEnv_polite (clock : Timeval) (answers : Answers r) :
    Polite (steadyEnv Int clock r) where
  clock _ _ _ := le_refl _
  creates _ _ _ _ _ _ h := absurd h List.not_mem_nil
  returns _ te := answers te.id _
  finalizers _ _ := rfl

theorem Ran.of_nil {env : Env Int} {s : EventLoop Q} {user : List (Event Int)}
    (ran : Ran env [] s (runCalls env s []) user) : user = [] := by
  have trace : s.trace = s.trace ++ user := ran.trace
  simpa using trace

theorem passStep_replied (h : passStep (steadyEnv Int clock r) now (s, n) = some (t, m)) :
    t.timeEventNextId = s.timeEventNextId ∧
      ∃ new, t.trace = s.trace ++ new ∧ Replied clock r s.trace new := by
  obtain ⟨te, htop, ⟨-, -, rfl⟩ | ⟨-, -, -, rfl⟩⟩ := passStep_cases h
  · obtain ⟨calls, front, user, gone, turn, rfl, rfl⟩ :=
      discard_turn (steadyEnv Int clock r) now htop
    have none : (if te.finalizerProc.isSome then (steadyEnv Int clock r).finalizerProc
        (s.trace ++ [.reached te now, .discarded te]) te else []) = [] := by
      split_ifs <;> rfl
    rw [none] at turn
    obtain rfl := turn.ran.of_nil
    refine ⟨by simpa using turn.nextId, _, turn.trace, ?_⟩
    split_ifs
    · exact ⟨by simp, by simp, .inl (by simp)⟩
    · exact ⟨by simp, by simp, .inl (by simp)⟩
  · obtain ⟨user, back, gone, again, turn, rfl, last, armed⟩ :=
      fire_turn (steadyEnv Int clock r) now htop
    obtain rfl := turn.ran.of_nil
    have answer : ((steadyEnv Int clock r).timeProc (s.trace ++ [.reached te now]) te).retval =
        r te.id (fired s.trace te.id) := by
      simp [steadyEnv, fired]
    rw [answer] at last turn
    have rearmed := @again_eq_rearmedAt clock _ te again turn.once last fun x hx => by
      rw [armed x hx, ← answer]
      rfl
    refine ⟨by simpa using turn.nextId, _, turn.trace, by simp, by simp, .inr ⟨te, ?_⟩⟩
    simp [rearmed]

omit [PriorityQueue Q TimeEvent Earlier] in
theorem tombstones_of_quiet (s : EventLoop Q) {seg pre : List (Event Int)} {e : Event Int}
    (deleted : deletedIn seg = []) (occurs : Occurs seg pre e) :
    tombstones s pre = s.setDelTimeId := by
  obtain ⟨post, rfl⟩ := occurs
  rw [deletedIn_append, List.append_eq_nil_iff] at deleted
  simp [tombstones, deleted.1]

section Quiet

variable {seg : List (Event Int)} (passing : Passing now s t n seg) (deleted : deletedIn seg = [])

include passing deleted

theorem dels_of_quiet : t.setDelTimeId = s.setDelTimeId := by
  rw [passing.dels]
  simp [tombstones, deleted]

theorem calls_of_quiet (ok : IdsOk s) (finished : ∀ te ∈ elems t.timeMinHead, ¬ Due te.deadline now)
    (te : TimeEvent) : te ∈ calledIn seg ↔ Live s te ∧ Due te.deadline now := by
  have exact' := passing.exact ok finished
  rw [exact'.calls]
  constructor
  · rintro ⟨stored, due, pre, occurs, live⟩
    exact ⟨⟨stored, tombstones_of_quiet s deleted occurs ▸ live⟩, due⟩
  · rintro ⟨⟨stored, live⟩, due⟩
    obtain ⟨pre, occurs⟩ := exists_occurs (exact'.reaches te stored due)
    exact ⟨stored, due, pre, occurs, (tombstones_of_quiet s deleted occurs).symm ▸ live⟩

theorem unreached_of_quiet {x : TimeEvent} (live : x.id ∉ s.setDelTimeId)
    (late : ¬ Due x.deadline now) : ((reachedIn seg).map Prod.fst).count x = 0 := by
  refine List.count_eq_zero.mpr fun reached => ?_
  obtain ⟨⟨y, at'⟩, hy, rfl⟩ := List.mem_map.mp reached
  obtain ⟨pre, occurs⟩ := exists_occurs (mem_reachedIn.mp hy)
  exact late (passing.due y (passing.reachedLive pre y at' occurs
    ((tombstones_of_quiet s deleted occurs).symm ▸ live)))

/-- A pass in which nobody creates or deletes takes away only due timers, and brings back only
those re-armed. -/
theorem left_of_quiet (created : createdIn seg = [])
    (finished : ∀ te ∈ elems t.timeMinHead, ¬ Due te.deadline now)
    (again : ∀ x ∈ rearmedIn seg, x.id ∉ s.setDelTimeId) (x : TimeEvent) :
    Live t x ↔ Live s x ∧ ¬ Due x.deadline now ∨ x ∈ rearmedIn seg := by
  have dels := dels_of_quiet passing deleted
  have balance : ((reachedIn seg).map Prod.fst).count x + (elems t.timeMinHead).count x =
      (rearmedIn seg).count x + (elems s.timeMinHead).count x := by
    have counted := congrArg (Multiset.count x) passing.account
    simpa [created] using counted
  constructor
  · rintro ⟨stored, live⟩
    have late := finished x stored
    rw [dels] at live
    rw [unreached_of_quiet passing deleted live late] at balance
    have present := Multiset.count_pos.mpr stored
    rcases Nat.eq_zero_or_pos ((rearmedIn seg).count x) with none | some
    · exact .inl ⟨⟨Multiset.count_pos.mp (by omega), live⟩, late⟩
    · exact .inr (List.count_pos_iff.mp some)
  · rintro (⟨⟨stored, live⟩, late⟩ | armed)
    · rw [unreached_of_quiet passing deleted live late] at balance
      have present := Multiset.count_pos.mpr stored
      exact ⟨Multiset.count_pos.mp (by omega), dels.symm ▸ live⟩
    · have live := again x armed
      rw [unreached_of_quiet passing deleted live (passing.notDue x (.inr armed))] at balance
      have present := List.count_pos_iff.mpr armed
      exact ⟨Multiset.count_pos.mp (by omega), dels.symm ▸ live⟩

end Quiet

theorem steady_pass (clock : Timeval) (answers : Answers r) (ok : IdsOk s) :
    ∃ fuel t n seg, processTimeEvents (steadyEnv Int clock r) fuel s = some (t, n) ∧
      IdsOk t ∧ t.setDelTimeId = s.setDelTimeId ∧ t.timeEventNextId = s.timeEventNextId ∧
      t.trace = s.trace ++ seg ∧
      SteadyPass clock r (fired s.trace) (Live s) (Live t) (calledIn seg) n := by
  obtain ⟨fuel, t, n, seg, h, passing, exit⟩ :=
    processTimeEvents_passing (steadyEnv_polite clock answers) ok
  obtain ⟨next, seg', trace', steady⟩ := steady_of_visits (fun c : EventLoop Q × Int => c.1.trace)
    (fun c => c.1.timeEventNextId) (fun a b body => passStep_replied body) (WhileLoop.run_visits h)
  obtain rfl : seg = seg' := List.append_cancel_left (passing.trace.symm.trans trace')
  have finished := passStep_none_due exit
  have calls := calls_of_quiet passing steady.deleted ok finished
  have once := passing.called_nodup ok
  have rearmed : ∀ x, x ∈ rearmedIn seg ↔ ∃ te ∈ calledIn seg,
      rearmedAt clock (r te.id (fired s.trace te.id)) te = some x := by
    intro x
    rw [steady.rearmed once, List.mem_filterMap]
  refine ⟨fuel, t, n, seg, h, passing.idsOk, dels_of_quiet passing steady.deleted, next,
    passing.trace, calls, once, passing.count, fun x => ?_⟩
  rw [← rearmed]
  refine left_of_quiet passing steady.deleted steady.created finished (fun y hy => ?_) x
  obtain ⟨te, called, armed⟩ := (rearmed y).mp hy
  rw [rearmedAt_id armed]
  exact ((calls te).mp called).1.2

end Ae2

namespace Ae3

open TimeEventMap

variable {clock : Timeval} {r : Int → ℕ → Int} {s : EventLoop} {c c' : Pass}

theorem steadyEnv_orderly (clock : Timeval) (answers : Answers r) :
    Orderly (steadyEnv TimeEvent clock r) where
  clock _ _ _ := le_refl _
  calls _ _ _ h := absurd h List.not_mem_nil
  returns _ te := answers te.id _

theorem fire_replied {k : Int} {te : TimeEvent}
    (found : (bucket c.loop.timeEventMap k).find? te.id = some te) :
    (fire (steadyEnv TimeEvent clock r) c k te).loop.timeEventNextId = c.loop.timeEventNextId ∧
      ∃ new, (fire (steadyEnv TimeEvent clock r) c k te).loop.trace = c.loop.trace ++ new ∧
        Replied clock r c.loop.trace new := by
  have nothing : ∀ user, Ran (steadyEnv TimeEvent clock r) [] (log c.loop (.called te))
      (runCalls (steadyEnv TimeEvent clock r) (log c.loop (.called te)) []) user → user = [] := by
    intro user ran
    have trace : (log c.loop (.called te)).trace = (log c.loop (.called te)).trace ++ user :=
      ran.trace
    simpa using trace
  rcases fire_cases (steadyEnv TimeEvent clock r) c k te with
    ⟨user, ran, -, -, gone⟩ | ⟨user, again, fire⟩
  · obtain rfl := nothing user ran
    exact absurd rfl (gone te (KeyedSet.find?_eq_some.mp found).1)
  · obtain rfl := nothing user fire.ran
    have answer : (script (steadyEnv TimeEvent clock r) c te).retval =
        r te.id (fired c.loop.trace te.id) := rfl
    have last := fire.last
    have armed := fire.armed
    have trace := fire.trace
    rw [answer] at last armed trace
    have rearmed := again_eq_rearmedAt fire.once last fun x hx => by
      obtain ⟨i, -, eq⟩ := armed x hx
      exact eq
    refine ⟨by simpa using fire.nextId, _, trace, by simp, by simp, .inr ⟨te, ?_⟩⟩
    simp [rearmed]

theorem passStep_replied {bound : Int}
    (h : passStep (steadyEnv TimeEvent clock r) bound c = some c') :
    c'.loop.timeEventNextId = c.loop.timeEventNextId ∧
      ∃ new, c'.loop.trace = c.loop.trace ++ new ∧ Replied clock r c.loop.trace new := by
  have quiet : ∀ d : Pass, d.loop.trace = c.loop.trace →
      ∃ new, d.loop.trace = c.loop.trace ++ new ∧ Replied clock r c.loop.trace new :=
    fun d same => ⟨[], by simpa using same, rfl, rfl, .inl ⟨rfl, rfl, rfl⟩⟩
  unfold passStep at h
  split at h
  · cases h
  · split at h
    · cases h
    · split_ifs at h
      obtain rfl := Option.some.inj h
      exact ⟨rfl, quiet _ rfl⟩
    · split at h
      · obtain rfl := Option.some.inj h
        exact ⟨rfl, quiet _ rfl⟩
      · next k id te found =>
          obtain rfl := Option.some.inj h
          obtain ⟨stored, rfl⟩ := KeyedSet.find?_eq_some.mp found
          exact fire_replied found
    · obtain rfl := Option.some.inj h
      exact ⟨rfl, quiet _ rfl⟩

theorem finish_trace (c : Pass) : (finish c).1.trace = c.loop.trace := by
  unfold finish
  split_ifs <;> rfl

theorem finish_next (c : Pass) : (finish c).1.timeEventNextId = c.loop.timeEventNextId := by
  unfold finish
  split_ifs <;> rfl

theorem key_le_iff (rep : Rep s) (fits : PassFits (steadyEnv TimeEvent clock r) s)
    {te : TimeEvent} (stored : te ∈ timers s.timeEventMap) (normal : Normal te.deadline) :
    timeKey te ≤ lNow (steadyEnv TimeEvent clock r) s ↔ Due te.deadline (aeGetTime clock) := by
  have now : lNow (steadyEnv TimeEvent clock r) s = millis (aeGetTime clock) :=
    long_of_fits fits.now
  rw [timeKey_of_fits (rep.fits te stored), now, due_iff normal (aeGetTime_normal clock)]

theorem steady_pass (answers : Answers r) (rep : Rep s)
    (fits : PassFits (steadyEnv TimeEvent clock r) s)
    (normal : ∀ te ∈ timers s.timeEventMap, Normal te.deadline) :
    ∃ fuel t n seg, processTimeEvents (steadyEnv TimeEvent clock r) fuel s = some (t, n) ∧
      Rep t ∧ t.timeEventNextId = s.timeEventNextId ∧ t.trace = s.trace ++ seg ∧
      SteadyPass clock r (fired s.trace) (fun te => te ∈ timers s.timeEventMap)
        (fun te => te ∈ timers t.timeEventMap) (calledIn seg) n := by
  obtain ⟨fuel, t, n, seg, h, after, exact'⟩ :=
    processTimeEvents_exact (steadyEnv_orderly clock answers) fits rep
  obtain ⟨c, walked, finished⟩ := Option.map_eq_some_iff.mp h
  have ended : t = (finish c).1 := congrArg Prod.fst finished.symm
  obtain ⟨next, seg', trace', steady⟩ := steady_of_visits (fun c : Pass => c.loop.trace)
    (fun c => c.loop.timeEventNextId) (fun a b body => passStep_replied body)
    (WhileLoop.run_visits walked)
  have trace : t.trace = s.trace ++ seg' := by
    rw [ended, finish_trace]
    exact trace'
  obtain rfl : seg = seg' := List.append_cancel_left (exact'.trace.symm.trans trace)
  have rearmed : ∀ x, x ∈ rearmedIn seg ↔ ∃ te ∈ calledIn seg,
      rearmedAt clock (r te.id (fired s.trace te.id)) te = some x := by
    intro x
    rw [show rearmedIn seg = _ from steady.rearmed exact'.once, List.mem_filterMap]
    rfl
  refine ⟨fuel, t, n, seg, h, after, ?_, trace, fun te => ?_, exact'.once, exact'.count,
    fun x => ?_⟩
  · rw [ended, finish_next]
    exact next
  · rw [exact'.calls, List.mem_filter, decide_eq_true_eq]
    exact and_congr_right fun stored => key_le_iff rep fits stored (normal te stored)
  · rw [exact'.contents, ← rearmed, steady.created]
    have late : x ∈ timers s.timeEventMap ∧ lNow (steadyEnv TimeEvent clock r) s < timeKey x ↔
        x ∈ timers s.timeEventMap ∧ ¬ Due x.deadline (aeGetTime clock) :=
      and_congr_right fun stored => by
        rw [← key_le_iff rep fits stored (normal x stored), not_le]
    rw [late]
    simp

end Ae3

namespace Ae

variable {clock : Timeval} {r : Int → ℕ → Int} {s : EventLoop} {c c' : Pass}
  {xs : List (ℕ × TimeEvent)}

theorem steadyEnv_gentle (clock : Timeval) (r : Int → ℕ → Int) :
    Gentle (steadyEnv Int clock r) where
  callbacks _ _ := List.not_mem_nil
  finalizers _ _ _ := List.not_mem_nil

theorem sweep_replied (p : ℕ) (cell : Cell TimeEvent) :
    (sweep (steadyEnv Int clock r) c p cell).loop.timeEventNextId = c.loop.timeEventNextId ∧
      ∃ new, (sweep (steadyEnv Int clock r) c p cell).loop.trace = c.loop.trace ++ new ∧
        Replied clock r c.loop.trace new := by
  obtain ⟨trace, next⟩ := store_trace c.loop (c.loop.timeEvents.unlink p)
  simp only [sweep, runFinalizer]
  cases cell.val.finalizerProc with
  | none =>
      exact ⟨next, [.unlinked cell.val], by simp [log, trace], by simp, by simp, .inl (by simp)⟩
  | some f =>
      exact ⟨next, [.unlinked cell.val, .finalized cell.val],
        by simp [log, trace, runCalls, steadyEnv], by simp, by simp, .inl (by simp)⟩

theorem fire_trace (env : Env Int) (c : Pass) (p : ℕ) (te : TimeEvent) :
    (fire env c p te).loop.timeEventNextId = (runTimeProc env c.loop te).timeEventNextId ∧
      (fire env c p te).loop.trace = (runTimeProc env c.loop te).trace ++
        ((rearmedAt (env.gettimeofday (runTimeProc env c.loop te).tick)
          (env.timeProc c.loop.trace te).retval te).toList.map Event.rearmed) := by
  by_cases last : (env.timeProc c.loop.trace te).retval = AE_NOMORE
  · have eq : (fire env c p te).loop = store (runTimeProc env c.loop te)
        ((runTimeProc env c.loop te).timeEvents.setVal p markDeleted) := by
      simp only [fire, last, ne_eq, not_true_eq_false, if_false]
    obtain ⟨trace, next⟩ := store_trace (runTimeProc env c.loop te)
      ((runTimeProc env c.loop te).timeEvents.setVal p markDeleted)
    rw [eq]
    exact ⟨next, by simp [trace, rearmedAt, last]⟩
  · have eq : fire env c p te = rearm env
        { c with loop := runTimeProc env c.loop te, processed := c.processed + 1 } p te
        (env.timeProc c.loop.trace te).retval := if_pos last
    rw [eq]
    simp only [rearm]
    constructor
    · rw [(advance_trace _ p).2]
      exact (store_trace _ _).2
    · rw [(advance_trace _ p).1]
      simp [log, (store_trace _ _).1, rearmedAt, last]

theorem fire_replied (c : Pass) (p : ℕ) (te : TimeEvent) :
    (fire (steadyEnv Int clock r) (reachTimer (steadyEnv Int clock r) c te) p
        te).loop.timeEventNextId = c.loop.timeEventNextId ∧
      ∃ new, (fire (steadyEnv Int clock r) (reachTimer (steadyEnv Int clock r) c te) p
        te).loop.trace = c.loop.trace ++ new ∧ Replied clock r c.loop.trace new := by
  obtain ⟨next, trace⟩ :=
    fire_trace (steadyEnv Int clock r) (reachTimer (steadyEnv Int clock r) c te) p te
  have answer : fired (c.loop.trace ++ [.reached te (aeGetTime clock)]) te.id =
      fired c.loop.trace te.id := by
    simp [fired]
  refine ⟨next, [.reached te (aeGetTime clock), .called te,
    .returned te (r te.id (fired c.loop.trace te.id))] ++
    (rearmedAt clock (r te.id (fired c.loop.trace te.id)) te).toList.map Event.rearmed, ?_,
    by simp, by simp, .inr ⟨te, by simp, by simp, by simp⟩⟩
  rw [trace]
  simp [runTimeProc, steadyEnv, runCalls, reachTimer, log, reading, answer]

theorem passStep_replied {maxId : Int}
    (h : passStep (steadyEnv Int clock r) maxId c = some c') :
    c'.loop.timeEventNextId = c.loop.timeEventNextId ∧
      ∃ new, c'.loop.trace = c.loop.trace ++ new ∧ Replied clock r c.loop.trace new := by
  unfold passStep at h
  split at h
  · cases h
  split at h
  · cases h
  split at h
  · obtain rfl := Option.some.inj h
    exact ⟨rfl, [], by simp, rfl, rfl, .inl ⟨rfl, rfl, rfl⟩⟩
  next p _ _ cell _ =>
      dsimp only at h
      split_ifs at h with marked new due
      · obtain rfl := Option.some.inj h
        exact sweep_replied p cell
      · obtain rfl := Option.some.inj h
        obtain ⟨trace, next⟩ := advance_trace c p
        exact ⟨next, [], by simpa using trace, rfl, rfl, .inl ⟨rfl, rfl, rfl⟩⟩
      · obtain rfl := Option.some.inj h
        exact fire_replied c p cell.val
      · obtain rfl := Option.some.inj h
        obtain ⟨trace, next⟩ := advance_trace (reachTimer (steadyEnv Int clock r) c cell.val) p
        refine ⟨next, [.reached cell.val (aeGetTime clock)], trace, ?_⟩
        exact ⟨by simp, by simp, .inl (by simp)⟩

section Survivors

variable {history seg : List (Event Int)} {old : List TimeEvent} {te : TimeEvent}

section Called

variable (ids : (old.map TimeEvent.id).Nodup) (called : (calledIn seg).Sublist old)
  (steady : Steady clock r history seg) (hte : te ∈ old)

include ids called steady hte

theorem mem_ended_iff : te.id ∈ endedIn seg ↔
    te ∈ calledIn seg ∧ r te.id (fired history te.id) = AE_NOMORE := by
  rw [endedIn, steady.returned (ids.sublist (called.map _))]
  constructor
  · intro h
    obtain ⟨v, hv, id⟩ := List.mem_map.mp h
    obtain ⟨mem, last⟩ := List.mem_filter.mp hv
    obtain ⟨x, hx, rfl⟩ := List.mem_map.mp mem
    obtain rfl := List.inj_on_of_nodup_map ids (called.subset hx) hte id
    exact ⟨hx, by simpa using last⟩
  · rintro ⟨hx, last⟩
    refine List.mem_map.mpr ⟨(te, r te.id (fired history te.id)), List.mem_filter.mpr ⟨?_, ?_⟩, rfl⟩
    · exact List.mem_map.mpr ⟨te, hx, rfl⟩
    · simpa using last

theorem rearmed_id_iff (y : TimeEvent) : y ∈ rearmedIn seg ∧ y.id = te.id ↔
    te ∈ calledIn seg ∧ rearmedAt clock (r te.id (fired history te.id)) te = some y := by
  rw [steady.rearmed (ids.sublist (called.map _)), List.mem_filterMap]
  constructor
  · rintro ⟨⟨x, hx, armed⟩, id⟩
    obtain rfl := List.inj_on_of_nodup_map ids (called.subset hx) hte
      ((rearmedAt_id armed).symm.trans id)
    exact ⟨hx, armed⟩
  · rintro ⟨hx, armed⟩
    exact ⟨⟨te, hx, armed⟩, rearmedAt_id armed⟩

theorem find?_rearmed : (rearmedIn seg).find? (fun x => x.id = te.id) =
    if te ∈ calledIn seg then rearmedAt clock (r te.id (fired history te.id)) te else none := by
  have rearmed := rearmed_id_iff ids called steady hte
  cases found : (rearmedIn seg).find? fun x => x.id = te.id with
  | some z =>
      obtain ⟨hx, armed⟩ := (rearmed z).mp
        ⟨List.mem_of_find?_eq_some found, by simpa using List.find?_some found⟩
      rw [if_pos hx, armed]
  | none =>
      split_ifs with hx
      · cases armed : rearmedAt clock (r te.id (fired history te.id)) te with
        | none => rfl
        | some y =>
            obtain ⟨mem, id⟩ := (rearmed y).mpr ⟨hx, armed⟩
            exact absurd id (by simpa using List.find?_eq_none.mp found y mem)
      · rfl

theorem survivor_steady : survivor seg te = if te ∈ calledIn seg then
    rearmedAt clock (r te.id (fired history te.id)) te else some te := by
  rw [survivor, steady.deleted, find?_rearmed ids called steady hte]
  simp only [List.not_mem_nil, false_or, mem_ended_iff ids called steady hte]
  by_cases hx : te ∈ calledIn seg
  · by_cases last : r te.id (fired history te.id) = AE_NOMORE
    · rw [if_pos ⟨hx, last⟩, if_pos hx, rearmedAt, if_pos last]
    · rw [if_neg fun h => last h.2, if_pos hx, rearmedAt, if_neg last, if_pos hx, Option.getD_some]
  · rw [if_neg fun h => hx h.1, if_neg hx, if_neg hx, Option.getD_none]

end Called

theorem survivors_steady (ids : (old.map TimeEvent.id).Nodup)
    (calls : ∀ te, te ∈ calledIn seg ↔ te ∈ old ∧ Due te.deadline (aeGetTime clock))
    (called : (calledIn seg).Sublist old) (steady : Steady clock r history seg) (x : TimeEvent) :
    x ∈ old.filterMap (survivor seg) ↔ x ∈ old ∧ ¬ Due x.deadline (aeGetTime clock) ∨
      ∃ te ∈ calledIn seg, rearmedAt clock (r te.id (fired history te.id)) te = some x := by
  rw [List.mem_filterMap]
  constructor
  · rintro ⟨te, hte, left⟩
    rw [survivor_steady ids called steady hte] at left
    split_ifs at left with hx
    · exact .inr ⟨te, hx, left⟩
    · obtain rfl := Option.some.inj left
      exact .inl ⟨hte, fun due => hx ((calls te).mpr ⟨hte, due⟩)⟩
  · rintro (⟨hx, late⟩ | ⟨te, hx, armed⟩)
    · refine ⟨x, hx, ?_⟩
      rw [survivor_steady ids called steady hx, if_neg fun h => late ((calls x).mp h).2]
    · refine ⟨te, called.subset hx, ?_⟩
      rw [survivor_steady ids called steady (called.subset hx), if_pos hx]
      exact armed

end Survivors

theorem Account.calls_steady {seg : List (Event Int)} {n : Int} {k : ℕ}
    (account : Account (steadyEnv Int clock r) k seg n) (te : TimeEvent) :
    te ∈ calledIn seg ↔
      te ∈ (reachedIn seg).map Prod.fst ∧ Due te.deadline (aeGetTime clock) := by
  have readings : ∀ p ∈ reachedIn seg, p.2 = aeGetTime clock := by
    rintro ⟨te, now⟩ hp
    obtain ⟨pre, occurs⟩ := exists_occurs (mem_reachedIn.mp hp)
    exact account.readings pre te now occurs
  rw [account.calls]
  constructor
  · intro h
    obtain ⟨p, hp, rfl⟩ := List.mem_map.mp h
    obtain ⟨reached, due⟩ := List.mem_filter.mp hp
    exact ⟨List.mem_map_of_mem reached, readings p reached ▸ of_decide_eq_true due⟩
  · rintro ⟨h, due⟩
    obtain ⟨p, reached, rfl⟩ := List.mem_map.mp h
    refine List.mem_map.mpr ⟨p, List.mem_filter.mpr ⟨reached, ?_⟩, rfl⟩
    exact decide_eq_true (readings p reached ▸ due)

theorem steady_pass (r : Int → ℕ → Int) (ok : Ok s xs) (forward : s.lastTime ≤ clock.tv_sec) :
    ∃ fuel t ys n seg, processTimeEvents (steadyEnv Int clock r) fuel s = some (t, n) ∧
      Ok t ys ∧ t.lastTime = clock.tv_sec ∧ t.timeEventNextId = s.timeEventNextId ∧
      t.trace = s.trace ++ seg ∧
      SteadyPass clock r (fired s.trace) (fun te => te ∈ xs.map Prod.snd)
        (fun te => te ∈ ys.map Prod.snd) (calledIn seg) n := by
  obtain ⟨fuel, t, ys, n, seg, h, after, exact'⟩ := pass_exact (steadyEnv_gentle clock r) ok
  have start : (passStart (steadyEnv Int clock r) s).loop =
      { s with lastTime := clock.tv_sec, tick := s.tick + 1 } := by
    simp only [passStart, skew, steadyEnv, not_lt.mpr forward, if_false]
  obtain ⟨c, walked, finished⟩ := Option.map_eq_some_iff.mp h
  obtain ⟨rfl, rfl⟩ := Prod.mk.inj finished
  obtain ⟨next, seg', trace', steady⟩ := steady_of_visits (fun c : Pass => c.loop.trace)
    (fun c => c.loop.timeEventNextId) (fun a b body => passStep_replied body)
    (WhileLoop.run_visits walked)
  rw [start] at next trace' steady
  obtain rfl : seg = seg' := List.append_cancel_left (exact'.trace.symm.trans trace')
  have old : pending (steadyEnv Int clock r) s xs = xs.map Prod.snd :=
    if_neg (not_lt.mpr forward)
  rw [old] at exact'
  have ids : ((xs.map Prod.snd).map TimeEvent.id).Nodup := by
    rw [List.map_map]
    exact ok.ids
  have visits : (reachedIn seg).map Prod.fst = xs.map Prod.snd := by
    rw [exact'.visits, List.filter_eq_self]
    intro te _
    have kept : te.id ∉ deletedIn seg := by simp [steady.deleted]
    simp [deletedFirst_of_kept kept]
  have calls := fun te => exact'.account.calls_steady te
  rw [visits] at calls
  have called : (calledIn seg).Sublist (xs.map Prod.snd) := by
    rw [exact'.account.calls, ← visits]
    exact List.filter_sublist.map _
  refine ⟨fuel, c.loop, ys, c.processed, seg, h, after, exact'.lastTime, next, exact'.trace, calls,
    exact'.once, exact'.account.count, fun x => ?_⟩
  rw [exact'.after, steady.created, List.filter_nil, List.reverse_nil, List.nil_append]
  exact survivors_steady ids calls called steady x

end Ae

end AeEventLoop
