import AeEventLoop.AeSteps

/-! What the walk of `ae.c` does at one node, from the turn that reaches its timer to the turn that
has the cursor on the next one. Callbacks may delete any timer but the one they run for, and
finalizers delete none; what they create, what they return and the clock are arbitrary. -/

namespace AeEventLoop.Ae

open LinkedStore

structure Gentle (env : Env Int) : Prop where
  callbacks : ∀ tr te, .delete te.id ∉ (env.timeProc tr te).calls
  finalizers : ∀ tr te id, .delete id ∉ env.finalizerProc tr te

def reading (env : Env Int) (c : Pass) : Int × Int := aeGetTime (env.gettimeofday c.loop.tick)

def reachTimer (env : Env Int) (c : Pass) (te : TimeEvent) : Pass :=
  { c with
    loop := log { c.loop with tick := c.loop.tick + 1 } (.reached te (reading env c)) }

/-- How often `ae.c` reads the clock for the events of `tr`: once for each timer created, reached
or re-armed. -/
def readsIn (tr : List (Event Int)) : ℕ :=
  (createdIn tr).length + (reachedIn tr).length + (rearmedIn tr).length

@[simp] theorem readsIn_append (a b : List (Event Int)) :
    readsIn (a ++ b) = readsIn a + readsIn b := by
  simp only [readsIn, createdIn_append, reachedIn_append, rearmedIn_append, List.length_append]
  omega

def script (env : Env Int) (c : Pass) (te : TimeEvent) : Script Int :=
  env.timeProc (c.loop.trace ++ [.reached te (reading env c)]) te

/-- `te` re-armed by the turn in which the walk in state `c` reached it and `user` happened. -/
def rearmedTimer (env : Env Int) (c : Pass) (te : TimeEvent) (user : List (Event Int)) : TimeEvent :=
  te.setWhen (aeAddMillisecondsToNow
    (env.gettimeofday (c.loop.tick + 1 + (createdIn user).length)) (script env c te).retval)

inductive Finalized (te : TimeEvent) : List (Event Int) → Prop
  | none : te.finalizerProc = none → Finalized te []
  | some (user : List (Event Int)) : te.finalizerProc.isSome → (∀ e ∈ user, UserEvent e) →
      deletedIn user = [] → Finalized te (.finalized (markDeleted te) :: user)

theorem Finalized.quiet {te : TimeEvent} {fin : List (Event Int)} (h : Finalized te fin) :
    reachedIn fin = [] ∧ rearmedIn fin = [] := by
  cases h with
  | none _ => exact ⟨rfl, rfl⟩
  | some user _ isUser _ => simp [reachedIn_of_user isUser, rearmedIn_of_user isUser]

/-- The three ways the walk gets past `te`: the events of each, what is left of the timer, and
how much `processed` grows. -/
inductive Shape (env : Env Int) (c : Pass) (te : TimeEvent) :
    List (Event Int) → Option TimeEvent → Int → Prop
  | late : ¬ Due te.deadline (reading env c) →
      Shape env c te [.reached te (reading env c)] (some te) 0
  | again (user : List (Event Int)) : Due te.deadline (reading env c) →
      (∀ e ∈ user, UserEvent e) → te.id ∉ deletedIn user →
      (script env c te).retval ≠ AE_NOMORE →
      Shape env c te
        (.reached te (reading env c) :: .called te :: (user ++
          [.returned te (script env c te).retval, .rearmed (rearmedTimer env c te user)]))
        (some (rearmedTimer env c te user)) 1
  | ended (user fin : List (Event Int)) : Due te.deadline (reading env c) →
      (∀ e ∈ user, UserEvent e) → te.id ∉ deletedIn user →
      (script env c te).retval = AE_NOMORE → Finalized te fin →
      Shape env c te
        (.reached te (reading env c) :: .called te :: (user ++
          .returned te (script env c te).retval :: .unlinked (markDeleted te) :: fin)) none 1

/-- The walk has got from the node `(p, te)`, between `front` and `rest`, to the next one. -/
structure Turn (env : Env Int) (maxId : Int) (p : ℕ) (te : TimeEvent) (c c' : Pass)
    (front rest made : List (ℕ × TimeEvent)) (seg : List (Event Int)) (kept : Option TimeEvent) :
    Prop where
  visits : WhileLoop.Visits (passStep env maxId) c c'
  shape : ∃ n, Shape env c te seg kept n ∧ c'.processed = c.processed + n
  trace : c'.loop.trace = c.loop.trace ++ seg
  ok : Ok c'.loop ((made ++ front.filter fun x => x.2.id ∉ deletedIn seg) ++
    (kept.toList.map (Prod.mk p) ++ rest.filter fun x => x.2.id ∉ deletedIn seg))
  made : made.map Prod.snd = ((createdIn seg).filter fun te => te.id ∉ deletedIn seg).reverse
  cursor : c'.te = headAddr (rest.filter fun x => x.2.id ∉ deletedIn seg)
  nextId : c'.loop.timeEventNextId = c.loop.timeEventNextId + (createdIn seg).length
  newIds : ∀ x ∈ createdIn seg, c.loop.timeEventNextId ≤ x.id
  gone : ∀ id ∈ deletedIn seg, id < c'.loop.timeEventNextId
  tick : c'.loop.tick = c.loop.tick + readsIn seg
  lastTime : c'.loop.lastTime = c.loop.lastTime
  files : c'.loop.toFileTable = c.loop.toFileTable

section Turn

variable {env : Env Int} {maxId : Int} {c : Pass} {p : ℕ} {te : TimeEvent}
  {front rest : List (ℕ × TimeEvent)}

theorem store_trace (s : EventLoop) (l : Option (LinkedStore TimeEvent)) :
    (store s l).trace = s.trace ∧ (store s l).timeEventNextId = s.timeEventNextId := by
  cases l <;> exact ⟨rfl, rfl⟩

theorem advance_trace (c : Pass) (p : ℕ) : (advance c p).loop.trace = c.loop.trace ∧
    (advance c p).loop.timeEventNextId = c.loop.timeEventNextId := by
  unfold advance
  split <;> exact ⟨rfl, rfl⟩

theorem advance_eq (ok : Ok c.loop (front ++ (p, te) :: rest)) :
    advance c p = { c with te := headAddr rest } := by
  simp only [advance, ok.repr.cell front p te rest rfl]

theorem reachTimer_ok {xs : List (ℕ × TimeEvent)} (ok : Ok c.loop xs) (env : Env Int)
    (te : TimeEvent) : Ok (reachTimer env c te).loop xs :=
  ok.same rfl rfl rfl

/-- The node under the cursor holds an old timer: its turn takes a reading and tests it. -/
theorem passStep_eq (env : Env Int) (ok : Ok c.loop (front ++ (p, te) :: rest))
    (cursor : c.te = some p) (old : te.id ≤ maxId) :
    passStep env maxId c =
      if Due te.deadline (reading env c) then some (fire env (reachTimer env c te) p te)
      else some { reachTimer env c te with te := headAddr rest } := by
  have here := ok.repr.cell front p te rest rfl
  have id := (ok.range (p, te) (by simp)).1
  have unmarked : ¬ te.id = AE_DELETED_EVENT_ID := by
    simp only [AE_DELETED_EVENT_ID]
    intro same
    rw [same] at id
    omega
  rw [← advance_eq (reachTimer_ok ok env te)]
  simp only [passStep, ok.undef, Bool.false_eq_true, if_false, cursor, here, unmarked,
    not_lt.mpr old, reachTimer, reading]

theorem late_turn (ok : Ok c.loop (front ++ (p, te) :: rest)) (cursor : c.te = some p)
    (old : te.id ≤ maxId) (late : ¬ Due te.deadline (reading env c)) :
    ∃ c' made seg kept, Turn env maxId p te c c' front rest made seg kept := by
  have body := passStep_eq env ok cursor old
  rw [if_neg late] at body
  refine ⟨_, [], _, _, .single body, ⟨0, .late late, by simp [reachTimer]⟩, rfl, ?_, rfl, ?_,
    by simp [reachTimer, log], by simp, by simp, rfl, rfl, rfl⟩
  · simpa using (reachTimer_ok ok env te)
  · simp

/-- The callback of the timer under the cursor has run: its node is still where it was, between
what is left of its neighbours and behind what was created. -/
theorem runTimeProc_ran (ok : Ok c.loop (front ++ (p, te) :: rest))
    (spared : .delete te.id ∉ (script env c te).calls) :
    ∃ made user, (∀ e ∈ user, UserEvent e) ∧ te.id ∉ deletedIn user ∧
      Ran (script env c te).calls (log (reachTimer env c te).loop (.called te))
        (runCalls env (log (reachTimer env c te).loop (.called te)) (script env c te).calls)
        (front ++ (p, te) :: rest) made user ∧
      Ok (runTimeProc env (reachTimer env c te).loop te)
        ((made ++ front.filter fun x => x.2.id ∉ deletedIn user) ++
          (p, te) :: rest.filter fun x => x.2.id ∉ deletedIn user) := by
  have start : Ok (log (reachTimer env c te).loop (.called te)) (front ++ (p, te) :: rest) :=
    ok.same rfl rfl rfl
  obtain ⟨made, user, ran⟩ := runCalls_ran env (script env c te).calls start
  have own : te.id ∉ deletedIn user := fun hid => spared (ran.asked te.id hid)
  refine ⟨made, user, ran.user, own, ran, ?_⟩
  have after := ran.ok
  rw [List.filter_append, List.filter_cons_of_pos (by simpa using own), ← List.append_assoc] at after
  exact after.same rfl rfl rfl

theorem runTimeProc_trace {xs made : List (ℕ × TimeEvent)} {user : List (Event Int)}
    (ran : Ran (script env c te).calls (log (reachTimer env c te).loop (.called te))
      (runCalls env (log (reachTimer env c te).loop (.called te)) (script env c te).calls)
      xs made user) :
    (runTimeProc env (reachTimer env c te).loop te).trace = c.loop.trace ++
      (.reached te (reading env c) :: .called te :: (user ++
        [.returned te (script env c te).retval])) := by
  change (runCalls env (log (reachTimer env c te).loop (.called te))
    (script env c te).calls).trace ++ [_] = _
  rw [ran.trace]
  simp [log, reachTimer, script]

theorem fire_again {made : List (ℕ × TimeEvent)} {user : List (Event Int)}
    (ran : Ran (script env c te).calls (log (reachTimer env c te).loop (.called te))
      (runCalls env (log (reachTimer env c te).loop (.called te)) (script env c te).calls)
      (front ++ (p, te) :: rest) made user)
    (after : Ok (runTimeProc env (reachTimer env c te).loop te)
      ((made ++ front.filter fun x => x.2.id ∉ deletedIn user) ++
        (p, te) :: rest.filter fun x => x.2.id ∉ deletedIn user))
    (more : (script env c te).retval ≠ AE_NOMORE) :
    ∃ next : EventLoop, fire env (reachTimer env c te) p te =
        { loop := next
          te := headAddr (rest.filter fun x => x.2.id ∉ deletedIn user)
          processed := c.processed + 1 } ∧
      Ok next ((made ++ front.filter fun x => x.2.id ∉ deletedIn user) ++
        (p, rearmedTimer env c te user) :: rest.filter fun x => x.2.id ∉ deletedIn user) ∧
      next.trace = (runTimeProc env (reachTimer env c te).loop te).trace ++
        [.rearmed (rearmedTimer env c te user)] ∧
      next.timeEventNextId = (runTimeProc env (reachTimer env c te).loop te).timeEventNextId ∧
      next.tick = (runTimeProc env (reachTimer env c te).loop te).tick + 1 ∧
      next.lastTime = (runTimeProc env (reachTimer env c te).loop te).lastTime ∧
      next.toFileTable = (runTimeProc env (reachTimer env c te).loop te).toFileTable := by
  let s := runTimeProc env (reachTimer env c te).loop te
  have tick : s.tick = c.loop.tick + 1 + (createdIn user).length := ran.tick
  have armed : te.setWhen (aeAddMillisecondsToNow (env.gettimeofday s.tick)
      (script env c te).retval) = rearmedTimer env c te user := by
    simp only [tick, rearmedTimer]
  let t := aeAddMillisecondsToNow (env.gettimeofday s.tick) (script env c te).retval
  obtain ⟨l, changed, repr, -⟩ := setVal_repr after.repr fun te => te.setWhen t
  let next : EventLoop :=
    { s with tick := s.tick + 1, timeEvents := l, trace := s.trace ++ [.rearmed (te.setWhen t)] }
  have nextOk : Ok next ((made ++ front.filter fun x => x.2.id ∉ deletedIn user) ++
      (p, te.setWhen t) :: rest.filter fun x => x.2.id ∉ deletedIn user) :=
    after.replace (TimeEvent.setWhen_id te t) after.undef repr rfl
  have rearmed : rearm env { reachTimer env c te with loop := s, processed := c.processed + 1 } p
      te (script env c te).retval =
      advance { reachTimer env c te with loop := next, processed := c.processed + 1 } p := by
    simp only [rearm, store]
    rw [show (s.timeEvents.setVal p fun te => te.setWhen t) = some l from changed]
    rfl
  have fired : fire env (reachTimer env c te) p te =
      rearm env { reachTimer env c te with loop := s, processed := c.processed + 1 } p te
        (script env c te).retval := if_pos more
  refine ⟨next, ?_, armed ▸ nextOk, armed ▸ rfl, rfl, rfl, rfl, rfl⟩
  rw [fired, rearmed, advance_eq (c := { reachTimer env c te with
    loop := next, processed := c.processed + 1 }) nextOk]

theorem again_turn (gentle : Gentle env) (ok : Ok c.loop (front ++ (p, te) :: rest))
    (cursor : c.te = some p) (old : te.id ≤ maxId) (due : Due te.deadline (reading env c))
    (more : (script env c te).retval ≠ AE_NOMORE) :
    ∃ c' made seg kept, Turn env maxId p te c c' front rest made seg kept := by
  have spared : .delete te.id ∉ (script env c te).calls := gentle.callbacks _ _
  obtain ⟨made, user, isUser, own, ran, after⟩ := runTimeProc_ran ok spared
  have body := passStep_eq env ok cursor old
  obtain ⟨next, eq, nextOk, trace, nextId, tick, lastTime, files⟩ := fire_again ran after more
  rw [if_pos due, eq] at body
  have same : ∀ te' : TimeEvent, deletedIn (.reached te (reading env c) :: .called te :: (user ++
      [.returned te (script env c te).retval, .rearmed te'])) = deletedIn user := by
    simp
  have created : ∀ te' : TimeEvent, createdIn (.reached te (reading env c) :: .called te ::
      (user ++ [.returned te (script env c te).retval, .rearmed te'])) = createdIn user := by
    simp
  refine ⟨_, made, _, _, .single body, ⟨1, .again user due isUser own more, rfl⟩, ?_,
    ?_, ?_, ?_, ?_, ?_, ?_, ?_, lastTime.trans ran.lastTime, files.trans ran.files⟩
  · change next.trace = _
    rw [trace, runTimeProc_trace ran]
    simp
  · rw [same]
    exact nextOk
  · rw [same]
    simpa using ran.made
  · rw [same]
  · rw [created]
    exact nextId.trans ran.nextId
  · rw [created]
    exact ran.newIds
  · rw [same]
    exact fun id hid => nextId.symm ▸ ran.gone id hid
  · change next.tick = _
    have before : (runTimeProc env (reachTimer env c te).loop te).tick =
        c.loop.tick + 1 + (createdIn user).length := ran.tick
    rw [tick, before]
    simp [readsIn, reachedIn_of_user isUser, rearmedIn_of_user isUser]
    omega

theorem fire_ended {made : List (ℕ × TimeEvent)} {user : List (Event Int)}
    (after : Ok (runTimeProc env (reachTimer env c te).loop te)
      ((made ++ front.filter fun x => x.2.id ∉ deletedIn user) ++
        (p, te) :: rest.filter fun x => x.2.id ∉ deletedIn user))
    (last : (script env c te).retval = AE_NOMORE) :
    ∃ l, (runTimeProc env (reachTimer env c te).loop te).timeEvents.setVal p markDeleted = some l ∧
      fire env (reachTimer env c te) p te =
        { reachTimer env c te with
          loop := { runTimeProc env (reachTimer env c te).loop te with timeEvents := l }
          processed := c.processed + 1 } := by
  obtain ⟨l, marked, -⟩ := setVal_repr after.repr markDeleted
  have stop : (env.timeProc (reachTimer env c te).loop.trace te).retval = AE_NOMORE := last
  refine ⟨l, marked, ?_⟩
  simp only [fire, stop, ne_eq, not_true_eq_false, if_false, store, marked]
  rfl

theorem sweep_eq (env : Env Int) (maxId : Int) {c : Pass} {a b : List (ℕ × TimeEvent)}
    (unmarked : Ok c.loop (a ++ (p, te) :: b)) {l : LinkedStore TimeEvent}
    (marked : c.loop.timeEvents.setVal p markDeleted = some l) (cursor : c.te = some p) :
    ∃ s : EventLoop, Ok s (a ++ b) ∧ p < s.timeEvents.fresh ∧
      s.trace = c.loop.trace ++ [.unlinked (markDeleted te)] ∧
      s.timeEventNextId = c.loop.timeEventNextId ∧ s.tick = c.loop.tick ∧
      s.lastTime = c.loop.lastTime ∧ s.toFileTable = c.loop.toFileTable ∧
      passStep env maxId { c with loop := { c.loop with timeEvents := l } } =
        some { c with
          loop := { runFinalizer env s (markDeleted te) with
            timeEvents := (runFinalizer env s (markDeleted te)).timeEvents.free p }
          te := headAddr b } := by
  obtain ⟨l', marked', repr, fresh⟩ := setVal_repr unmarked.repr markDeleted
  obtain rfl := Option.some.inj (marked.symm.trans marked')
  obtain ⟨l₂, unlinked, repr₂, fresh₂, -⟩ := unlink_repr repr
  have here := repr.cell a p (markDeleted te) b rfl
  have below : p < l₂.fresh := by
    rw [fresh₂]
    exact repr.below (p, markDeleted te) (by simp)
  refine ⟨log { c.loop with timeEvents := l₂ } (.unlinked (markDeleted te)), ?_, below, rfl, rfl,
    rfl, rfl, rfl, ?_⟩
  · exact unmarked.sublist (List.Sublist.append_left (List.sublist_cons_self _ _) a)
      unmarked.undef repr₂ rfl
  · have isMarked : (markDeleted te).id = AE_DELETED_EVENT_ID := rfl
    unfold passStep
    rw [if_neg (by simp [unmarked.undef])]
    simp only [cursor, here, isMarked, if_true, sweep, unlinked, store]

theorem runFinalizer_ran (env : Env Int) {s : EventLoop} {xs : List (ℕ × TimeEvent)}
    (ok : Ok s xs) (te : TimeEvent) :
    (te.finalizerProc = none ∧ runFinalizer env s te = s) ∨
      ∃ made user, te.finalizerProc.isSome ∧
        Ran (env.finalizerProc s.trace te) (log s (.finalized te)) (runFinalizer env s te)
          xs made user := by
  cases hfin : te.finalizerProc with
  | none =>
      left
      exact ⟨rfl, by simp only [runFinalizer, hfin]⟩
  | some f =>
      right
      have start : Ok (log s (.finalized te)) xs :=
        ok.same rfl rfl rfl
      obtain ⟨made, user, ran⟩ := runCalls_ran env (env.finalizerProc s.trace te) start
      refine ⟨made, user, rfl, ?_⟩
      simpa only [runFinalizer, hfin] using ran

theorem free_ok {s : EventLoop} {xs : List (ℕ × TimeEvent)} (ok : Ok s xs)
    (off : ∀ x ∈ xs, x.1 ≠ p) : Ok { s with timeEvents := s.timeEvents.free p } xs :=
  ⟨ok.undef, free_repr ok.repr off, ok.ids, ok.range, ok.next⟩

theorem sweep_turn (gentle : Gentle env) (maxId : Int) {c : Pass} {a b : List (ℕ × TimeEvent)}
    (unmarked : Ok c.loop (a ++ (p, te) :: b)) {l : LinkedStore TimeEvent}
    (marked : c.loop.timeEvents.setVal p markDeleted = some l) (cursor : c.te = some p) :
    ∃ c' made fin, passStep env maxId { c with loop := { c.loop with timeEvents := l } } = some c' ∧
      Finalized te fin ∧ Ok c'.loop (made ++ (a ++ b)) ∧
      made.map Prod.snd = (createdIn fin).reverse ∧
      c'.loop.trace = c.loop.trace ++ .unlinked (markDeleted te) :: fin ∧
      c'.te = headAddr b ∧ c'.processed = c.processed ∧
      c'.loop.timeEventNextId = c.loop.timeEventNextId + (createdIn fin).length ∧
      (∀ x ∈ createdIn fin, c.loop.timeEventNextId ≤ x.id) ∧
      c'.loop.tick = c.loop.tick + (createdIn fin).length ∧
      c'.loop.lastTime = c.loop.lastTime ∧ c'.loop.toFileTable = c.loop.toFileTable := by
  obtain ⟨s, ok, below, trace, nextId, tick, lastTime, files, body⟩ :=
    sweep_eq env maxId unmarked marked cursor
  have off : ∀ x ∈ a ++ b, x.1 ≠ p := fun x hx => unmarked.repr.addr_ne (x := (p, te)) hx
  rcases runFinalizer_ran env ok (markDeleted te) with ⟨noFin, silent⟩ | ⟨made, user, someFin, ran⟩
  · rw [silent] at body
    exact ⟨_, [], [], body, .none noFin, free_ok ok off, rfl, trace, rfl, rfl, by simp [nextId],
      by simp, by simp [tick], lastTime, files⟩
  · have none : deletedIn user = [] := List.eq_nil_iff_forall_not_mem.mpr fun id hid =>
      gentle.finalizers _ _ id (ran.asked id hid)
    have after := ran.ok
    have made' := ran.made
    rw [none] at after made'
    simp only [List.not_mem_nil, not_false_eq_true, decide_true, List.filter_true] at after made'
    have offAll : ∀ x ∈ made ++ (a ++ b), x.1 ≠ p := by
      intro x hx
      rcases List.mem_append.mp hx with new | old
      · have : s.timeEvents.fresh ≤ x.1 := ran.addrs x new
        omega
      · exact off x old
    refine ⟨_, made, _, body, .some user someFin ran.user none, free_ok after offAll, ?_, ?_, rfl,
      rfl, ?_, ?_, ?_, ran.lastTime.trans lastTime, ran.files.trans files⟩
    · simpa using made'
    · change (runFinalizer env s (markDeleted te)).trace = _
      rw [ran.trace]
      simp [log, trace]
    · rw [← nextId]
      exact ran.nextId
    · rw [← nextId]
      exact ran.newIds
    · rw [← tick]
      exact ran.tick

theorem ended_turn (gentle : Gentle env) (ok : Ok c.loop (front ++ (p, te) :: rest))
    (cursor : c.te = some p) (old : te.id ≤ maxId) (due : Due te.deadline (reading env c))
    (last : (script env c te).retval = AE_NOMORE) :
    ∃ c' made seg kept, Turn env maxId p te c c' front rest made seg kept := by
  have spared : .delete te.id ∉ (script env c te).calls := gentle.callbacks _ _
  obtain ⟨made, user, isUser, own, ran, after⟩ := runTimeProc_ran ok spared
  have body := passStep_eq env ok cursor old
  rw [if_pos due] at body
  let s := runTimeProc env (reachTimer env c te).loop te
  obtain ⟨l, marked, fired⟩ := fire_ended after last
  rw [fired] at body
  obtain ⟨c', made', fin, swept, finalized, after', made'_eq, trace, next, processed, nextId,
    newIds, tick, lastTime, files⟩ := sweep_turn gentle maxId
      (c := { reachTimer env c te with loop := s, processed := c.processed + 1 }) after marked cursor
  have seg : ∀ fin : List (Event Int), Finalized te fin →
      deletedIn (.reached te (reading env c) :: .called te :: (user ++
        .returned te (script env c te).retval :: .unlinked (markDeleted te) :: fin)) =
        deletedIn user ∧
      createdIn (.reached te (reading env c) :: .called te :: (user ++
        .returned te (script env c te).retval :: .unlinked (markDeleted te) :: fin)) =
        createdIn user ++ createdIn fin := by
    intro fin h
    cases h with
    | none _ => simp
    | some user' _ _ none => simp [none]
  obtain ⟨deleted, created⟩ := seg fin finalized
  have low : ∀ x ∈ createdIn fin, x.id ∉ deletedIn user := by
    intro x hx hid
    have fresh : s.timeEventNextId ≤ x.id := newIds x hx
    have gone : x.id < s.timeEventNextId := ran.gone x.id hid
    omega
  have grown : s.timeEventNextId = c.loop.timeEventNextId + (createdIn user).length := ran.nextId
  refine ⟨c', made' ++ made, _, none, .tail (.single body) swept,
    ⟨1, .ended user fin due isUser own last finalized, processed⟩, ?_, ?_, ?_, ?_, ?_, ?_, ?_, ?_, ?_, ?_⟩
  · rw [trace]
    change (runTimeProc env (reachTimer env c te).loop te).trace ++ _ = _
    rw [runTimeProc_trace ran]
    simp
  · rw [deleted]
    simpa using after'
  · have all : (createdIn fin).filter (fun x => x.id ∉ deletedIn user) = createdIn fin :=
      List.filter_eq_self.mpr (by simpa using low)
    rw [deleted, created, List.filter_append, all, List.reverse_append, List.map_append, made'_eq,
      ran.made]
  · rw [deleted]
    exact next
  · change c'.loop.timeEventNextId = s.timeEventNextId + _ at nextId
    rw [nextId, grown, created, List.length_append, Nat.cast_add, Int.add_assoc]
  · rw [created]
    intro x hx
    rcases List.mem_append.mp hx with early | late
    · exact ran.newIds x early
    · have fresh : s.timeEventNextId ≤ x.id := newIds x late
      omega
  · rw [deleted]
    intro id hid
    have before : id < s.timeEventNextId := ran.gone id hid
    change c'.loop.timeEventNextId = s.timeEventNextId + _ at nextId
    omega
  · have before : s.tick = c.loop.tick + 1 + (createdIn user).length := ran.tick
    change c'.loop.tick = s.tick + _ at tick
    obtain ⟨reached, rearmed⟩ := finalized.quiet
    rw [tick, before]
    simp [readsIn, reachedIn_of_user isUser, rearmedIn_of_user isUser, reached, rearmed]
    omega
  · exact lastTime.trans ran.lastTime
  · exact files.trans ran.files

/-- Every turn at an old timer's node goes one of the three ways. -/
theorem visit (gentle : Gentle env) (ok : Ok c.loop (front ++ (p, te) :: rest))
    (cursor : c.te = some p) (old : te.id ≤ maxId) :
    ∃ c' made seg kept, Turn env maxId p te c c' front rest made seg kept := by
  by_cases due : Due te.deadline (reading env c)
  · by_cases last : (script env c te).retval = AE_NOMORE
    · exact ended_turn gentle ok cursor old due last
    · exact again_turn gentle ok cursor old due last
  · exact late_turn ok cursor old due

end Turn

end AeEventLoop.Ae
