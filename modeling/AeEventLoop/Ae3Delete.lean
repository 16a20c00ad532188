import AeEventLoop.Ae3Steps

/-! Deleting by record in `ae3.cpp`. `aeDeleteTimeEvent` looks only in the bucket the record's
own deadline selects. A timer that has been armed again lies under another key or waits in
`vecAddTimeEvent`, where the call does not look, and a callback that deletes its own timer pulls
the element from under the iterators. Where neither is the case a delete lasts. User code, return
values and the clock are arbitrary otherwise. -/

namespace AeEventLoop.Ae3

open TimeEventMap

/-- A record that had been handed to a callback was deleted, and nobody called its timer since. -/
def Effective (tr : List (Event TimeEvent)) : Prop :=
  ∀ pre te post, tr = pre ++ .deleted te AE_OK :: post → te ∈ calledIn pre →
    ∀ x ∈ calledIn post, x.id ≠ te.id

def Deleted (tr : List (Event TimeEvent)) (id : Int) : Prop :=
  ∃ pre te, Occurs tr pre (.deleted te AE_OK) ∧ te ∈ calledIn pre ∧ te.id = id

/-- When deleting `te` hits its timer: the timer is in the bucket of the record's deadline if it
is in any, it does not wait to be armed again, and it is not running. -/
structure CleanDelete (m : TimeEventMap) (adds : List TimeEvent) (running : Option Int)
    (tr : List (Event TimeEvent)) (te : TimeEvent) : Prop where
  notRunning : running ≠ some te.id
  here : te ∈ calledIn tr → ∀ p ∈ m, ∀ x ∈ p.2, x.id = te.id → p.1 = timeKey te
  notWaiting : te ∈ calledIn tr → ∀ x ∈ adds, x.id ≠ te.id

def CleanCalls (env : Env TimeEvent) (adds : List TimeEvent) (running : Option Int) :
    EventLoop → List (TimerCall TimeEvent) → Prop
  | _, [] => True
  | s, .create ms proc data fin :: calls =>
      CleanCalls env adds running (runCall env s (.create ms proc data fin)) calls
  | s, .delete te :: calls =>
      CleanDelete s.timeEventMap adds running s.trace te ∧
        CleanCalls env adds running (runCall env s (.delete te)) calls

def CleanTurn (env : Env TimeEvent) (c : Pass) : Prop :=
  ∀ k id te, c.cursor = .inner k (some id) → (bucket c.loop.timeEventMap k).find? id = some te →
    CleanCalls env c.vecAddTimeEvent (some te.id) (log c.loop (.called te)) (script env c te).calls

def CleanPass (env : Env TimeEvent) (s : EventLoop) : Prop :=
  ∀ c, PassVisits env s c → CleanTurn env c

def CleanStep (env : Env TimeEvent) (s : EventLoop) : Op TimeEvent → Prop
  | .timer (.delete te) => CleanDelete s.timeEventMap [] none s.trace te
  | .pass => CleanPass env s
  | _ => True

/-- What clean deletes keep, of the map, the timers that wait to be armed again, the next id and
the trace: a deleted timer is in neither place. -/
structure Buried (m : TimeEventMap) (adds : List TimeEvent) (next : Int)
    (tr : List (Event TimeEvent)) : Prop where
  stored : ∀ x ∈ timers m, x.id < next
  waiting : ∀ x ∈ adds, x.id < next
  handed : ∀ x ∈ calledIn tr, x.id < next
  gone : ∀ id, Deleted tr id → (∀ x ∈ timers m, x.id ≠ id) ∧ ∀ x ∈ adds, x.id ≠ id
  effective : Effective tr

section Buried

variable {m : TimeEventMap} {adds : List TimeEvent} {next : Int} {tr : List (Event TimeEvent)}

theorem deleted_append_one {e : Event TimeEvent} {id : Int} (h : Deleted (tr ++ [e]) id) :
    Deleted tr id ∨ ∃ te, e = .deleted te AE_OK ∧ te ∈ calledIn tr ∧ te.id = id := by
  obtain ⟨pre, te, occurs, handed, same⟩ := h
  rcases occurs_append.mp occurs with old | ⟨c, rfl, new⟩
  · exact .inl ⟨pre, te, old, handed, same⟩
  · rcases occurs_cons.mp new with ⟨rfl, eq⟩ | ⟨d, -, none⟩
    · rw [List.append_nil] at handed
      exact .inr ⟨te, eq.symm, handed, same⟩
    · exact absurd none (not_occurs_nil d _)

theorem Effective.append_one (h : Effective tr) {e : Event TimeEvent}
    (live : ∀ x, e = .called x → ¬ Deleted tr x.id) : Effective (tr ++ [e]) := by
  intro pre te post split handed x hx
  rcases split_append split with ⟨c, old, rfl⟩ | ⟨c, -, new⟩
  · rw [calledIn_append, List.mem_append] at hx
    rcases hx with before | now
    · exact h pre te c old handed x before
    · intro same
      have called : e = .called x := by
        rw [mem_calledIn, List.mem_singleton] at now
        exact now.symm
      exact live x called ⟨pre, te, ⟨c, old⟩, handed, same.symm⟩
  · have short := congrArg List.length new
    simp only [List.length_append, List.length_cons, List.length_nil] at short
    have none : post = [] := List.eq_nil_of_length_eq_zero (by omega)
    rw [none] at hx
    exact absurd hx List.not_mem_nil

/-- Any event but a delete of a handed record and a call. -/
theorem Buried.quiet (h : Buried m adds next tr) {e : Event TimeEvent}
    (notDeleted : ∀ te, e = .deleted te AE_OK → te ∉ calledIn tr) (notCalled : e.called? = none) :
    Buried m adds next (tr ++ [e]) where
  stored := h.stored
  waiting := h.waiting
  handed x hx := by
    rw [calledIn_append, calledIn_cons, notCalled] at hx
    exact h.handed x (by simpa using hx)
  gone id hid := by
    rcases deleted_append_one hid with old | ⟨te, same, handed, -⟩
    · exact h.gone id old
    · exact absurd handed (notDeleted te same)
  effective := h.effective.append_one fun x same => by
    rw [same] at notCalled
    cases notCalled

theorem Buried.shrink (h : Buried m adds next tr) {m' : TimeEventMap}
    (sub : ∀ x ∈ timers m', x ∈ timers m) : Buried m' adds next tr :=
  ⟨fun x hx => h.stored x (sub x hx), h.waiting, h.handed,
    fun id hid => ⟨fun x hx => (h.gone id hid).1 x (sub x hx), (h.gone id hid).2⟩, h.effective⟩

theorem Buried.create (h : Buried m adds next tr) {te : TimeEvent} (new : te.id = next) :
    Buried (insertTimer m te) adds (next + 1) (tr ++ [.created te]) := by
  have after := h.quiet (e := .created te) (by simp) rfl
  refine ⟨?_, ?_, ?_, ?_, after.effective⟩
  · intro x hx
    rcases of_mem_insertTimer hx with old | rfl
    · have := h.stored x old
      omega
    · omega
  · intro x hx
    have := h.waiting x hx
    omega
  · intro x hx
    have := after.handed x hx
    omega
  · intro id hid
    refine ⟨fun x hx same => ?_, (after.gone id hid).2⟩
    rcases of_mem_insertTimer hx with old | rfl
    · exact (after.gone id hid).1 x old same
    · obtain ⟨pre, te, ⟨post, split⟩, handed, eq⟩ := hid
      have : te ∈ calledIn (tr ++ [.created x]) := by
        rw [split, calledIn_append]
        exact List.mem_append_left _ handed
      have := after.handed te this
      omega

theorem Buried.delete (h : Buried m adds next tr) {running : Option Int} {te : TimeEvent}
    (clean : CleanDelete m adds running tr te) :
    Buried (eraseTimer m te) adds next (tr ++ [.deleted te AE_OK]) := by
  refine ⟨fun x hx => h.stored x (of_mem_eraseTimer hx), h.waiting, ?_, ?_, ?_⟩
  · intro x hx
    exact h.handed x (by simpa using hx)
  · intro id hid
    rcases deleted_append_one hid with old | ⟨te', same, handed, rfl⟩
    · exact ⟨fun x hx => (h.gone id old).1 x (of_mem_eraseTimer hx), (h.gone id old).2⟩
    · injection same with same
      rw [← same] at handed ⊢
      refine ⟨fun x hx eq => ?_, clean.notWaiting handed⟩
      rcases mem_eraseTimer.mp hx with ⟨-, other⟩ | ⟨p, hp, elsewhere, hxp⟩
      · exact other eq
      · exact elsewhere (clean.here handed p hp x hxp eq)
  · exact h.effective.append_one fun x same => by cases same

theorem Buried.call (h : Buried m adds next tr) {te : TimeEvent} (stored : te ∈ timers m) :
    Buried m adds next (tr ++ [.called te]) where
  stored := h.stored
  waiting := h.waiting
  handed x hx := by
    rw [calledIn_append, List.mem_append] at hx
    rcases hx with old | now
    · exact h.handed x old
    · rw [mem_calledIn, List.mem_singleton] at now
      injection now with same
      rw [same]
      exact h.stored te stored
  gone id hid := by
    rcases deleted_append_one hid with old | ⟨x, same, -⟩
    · exact h.gone id old
    · cases same
  effective := h.effective.append_one fun x same deleted => by
    injection same with same
    rw [← same] at deleted
    exact (h.gone te.id deleted).1 te stored rfl

theorem Buried.rearm (h : Buried m adds next tr) {te x : TimeEvent} (stored : te ∈ timers m)
    (same : x.id = te.id) : Buried m (adds ++ [x]) next (tr ++ [.rearmed x]) := by
  have after := h.quiet (e := .rearmed x) (by simp) rfl
  refine ⟨after.stored, ?_, after.handed, ?_, after.effective⟩
  · intro y hy
    rcases List.mem_append.mp hy with old | new
    · exact h.waiting y old
    · rw [List.mem_singleton.mp new, same]
      exact h.stored te stored
  · intro id hid
    refine ⟨(after.gone id hid).1, fun y hy eq => ?_⟩
    rcases List.mem_append.mp hy with old | new
    · exact (after.gone id hid).2 y old eq
    · rw [List.mem_singleton.mp new, same] at eq
      exact (after.gone id hid).1 te stored eq

theorem Buried.flush (h : Buried m adds next tr) (ks : List Int) :
    Buried (adds.foldl insertTimer (ks.foldl KeyedSet.erase m)) [] next tr := by
  have origin : ∀ x ∈ timers (adds.foldl insertTimer (ks.foldl KeyedSet.erase m)),
      x ∈ timers m ∨ x ∈ adds := by
    intro x hx
    rcases of_mem_foldl_insertTimer hx with old | new
    · exact .inl (of_mem_foldl_erase old)
    · exact .inr new
  refine ⟨?_, by simp, h.handed, ?_, h.effective⟩
  · intro x hx
    exact (origin x hx).elim (h.stored x) (h.waiting x)
  · intro id hid
    refine ⟨fun x hx => ?_, by simp⟩
    exact (origin x hx).elim ((h.gone id hid).1 x) ((h.gone id hid).2 x)

end Buried

section Runs

variable {env : Env TimeEvent} {s : EventLoop} {c c' : Pass}

def BuriedAt (adds : List TimeEvent) (s : EventLoop) : Prop :=
  Buried s.timeEventMap adds s.timeEventNextId s.trace

theorem runCalls_buried {adds : List TimeEvent} {running : Option Int}
    (calls : List (TimerCall TimeEvent)) (clean : CleanCalls env adds running s calls)
    (h : BuriedAt adds s) : BuriedAt adds (runCalls env s calls) := by
  induction calls generalizing s with
  | nil => exact h
  | cons call calls ih =>
      cases call with
      | create ms proc data fin => exact ih clean (Buried.create h rfl)
      | delete te => exact ih clean.2 (Buried.delete h clean.1)

theorem runCalls_keeps {adds : List TimeEvent} {k : Int} {te : TimeEvent}
    (calls : List (TimerCall TimeEvent)) (clean : CleanCalls env adds (some te.id) s calls)
    (h : te ∈ bucket s.timeEventMap k) : te ∈ bucket (runCalls env s calls).timeEventMap k := by
  induction calls generalizing s with
  | nil => exact h
  | cons call calls ih =>
      cases call with
      | create ms proc data fin => exact ih clean (bucket_insertTimer h)
      | delete x =>
          refine ih clean.2 (bucket_eraseTimer h fun same => ?_)
          exact clean.1.notRunning (congrArg some same)

structure CleanWalk (c : Pass) : Prop where
  undef : c.loop.undef = false
  buried : BuriedAt c.vecAddTimeEvent c.loop
  sit : ∀ k id, c.cursor = .inner k (some id) → ∃ x ∈ bucket c.loop.timeEventMap k, x.id = id

theorem CleanWalk.fire (h : CleanWalk c) {k : Int} {te : TimeEvent}
    (stored : te ∈ bucket c.loop.timeEventMap k)
    (clean : CleanCalls env c.vecAddTimeEvent (some te.id) (log c.loop (.called te))
      (script env c te).calls) : CleanWalk (fire env c k te) := by
  have called : BuriedAt c.vecAddTimeEvent (log c.loop (.called te)) :=
    h.buried.call (bucket_sub_timers stored)
  have after := runCalls_buried _ clean called
  have kept := runCalls_keeps (k := k) _ clean stored
  rcases fire_cases env c k te with ⟨user, ran, -, -, gone⟩ | ⟨user, again, fired⟩
  · rw [ran.map] at kept
    exact absurd rfl (gone te kept)
  · have map : (Ae3.fire env c k te).loop.timeEventMap =
        (runCalls env (log c.loop (.called te)) (script env c te).calls).timeEventMap := by
      rw [fired.map, fired.ran.map]
      rfl
    have returned : Buried (Ae3.fire env c k te).loop.timeEventMap c.vecAddTimeEvent
        (Ae3.fire env c k te).loop.timeEventNextId
        ((c.loop.trace ++ (.called te :: user)) ++ [.returned te (script env c te).retval]) := by
      have next : (Ae3.fire env c k te).loop.timeEventNextId =
          (runCalls env (log c.loop (.called te)) (script env c te).calls).timeEventNextId :=
        fired.nextId.trans fired.ran.nextId.symm
      have trace : c.loop.trace ++ (.called te :: user) =
          (runCalls env (log c.loop (.called te)) (script env c te).calls).trace := by
        rw [fired.ran.trace]
        simp [log]
      rw [map, next, trace]
      exact Buried.quiet after (by simp) rfl
    refine ⟨fired.undef.trans h.undef, ?_, ?_⟩
    · rw [BuriedAt, fired.adds, fired.trace]
      rcases eq_nil_or_singleton fired.once with rfl | ⟨x, rfl⟩
      · simpa using returned
      · obtain ⟨r, -, rfl⟩ := fired.armed x List.mem_cons_self
        rw [← map] at kept
        have := returned.rearm (bucket_sub_timers kept) (TimeEvent.setWhen_id te
          (aeAddMillisecondsToNow (env.gettimeofday r) (script env c te).retval))
        simpa using this
    · intro k' id cursor
      rw [fired.cursor] at cursor
      injection cursor with hk hid
      rw [← hk]
      obtain ⟨x, hx, rfl⟩ := Option.map_eq_some_iff.mp hid
      exact ⟨x, (KeyedSet.mem_above.mp (List.mem_of_head? hx)).1, rfl⟩

theorem CleanWalk.step {bound : Int} (h : CleanWalk c) (clean : CleanTurn env c)
    (body : passStep env bound c = some c') : CleanWalk c' := by
  unfold passStep at body
  rw [if_neg (by simp [h.undef])] at body
  split at body
  next => cases body
  next k cursor =>
      split_ifs at body
      obtain rfl := Option.some.inj body
      refine ⟨h.undef, h.buried, fun k' id same => ?_⟩
      injection same with hk hid
      rw [← hk]
      obtain ⟨x, hx, rfl⟩ := Option.map_eq_some_iff.mp hid
      exact ⟨x, List.mem_of_head? hx, rfl⟩
  next k id cursor =>
      obtain ⟨x, hx, rfl⟩ := h.sit k id cursor
      have found : (bucket c.loop.timeEventMap k).find? x.id = some x :=
        KeyedSet.find?_eq_some.mpr ⟨hx, rfl⟩
      rw [found] at body
      obtain rfl := Option.some.inj body
      exact h.fire hx (clean k x.id x cursor found)
  next k cursor =>
      obtain rfl := Option.some.inj body
      refine ⟨h.undef, h.buried, fun k' id same => ?_⟩
      cases same

theorem cleanPass_walk (clean : CleanPass env s) (undef : s.undef = false)
    (buried : BuriedAt [] s) (visited : PassVisits env s c) : CleanWalk c :=
  WhileLoop.visits_invariant CleanWalk (CleanTurn env)
    (fun _ _ walk turn body => walk.step turn body) clean
    ⟨undef, buried, fun k id cursor => by cases cursor⟩ visited

theorem run_buried (run : Run env (CleanStep env) s) : s.undef = false ∧ BuriedAt [] s := by
  refine run.invariant (fun s => s.undef = false ∧ BuriedAt [] s) ?_ ?_
  · rintro s ⟨mem, setsize, h⟩
    obtain ⟨l, hl, rfl⟩ := Option.map_eq_some_iff.mp h
    obtain ⟨files, -, rfl⟩ := Option.map_eq_some_iff.mp hl
    refine ⟨rfl, fun x hx => absurd hx (not_mem_timers_empty x), by simp, by simp, ?_, ?_⟩
    · rintro id ⟨pre, te, occurs, -⟩
      exact absurd occurs (not_occurs_nil pre _)
    · intro pre te post split
      simp at split
  · rintro s op t ⟨undef, buried⟩ clean step
    cases step with
    | timer call =>
        cases call with
        | create ms proc data fin => exact ⟨undef, Buried.create buried rfl⟩
        | delete te => exact ⟨undef, Buried.delete buried clean⟩
    | file op => exact ⟨undef, buried⟩
    | resize mem setsize =>
        unfold aeResizeSetSize
        split_ifs
        · exact ⟨undef, buried⟩
        · exact ⟨undef, buried⟩
        · exact ⟨undef, Buried.shrink buried fun x hx => absurd hx (not_mem_timers_empty x)⟩
    | pass h =>
        obtain ⟨c, hc, eq⟩ := Option.map_eq_some_iff.mp h
        have walk := cleanPass_walk clean undef buried (WhileLoop.run_visits hc)
        rw [finish, if_neg (by simp [walk.undef])] at eq
        obtain ⟨rfl, -⟩ := Prod.mk.inj eq
        exact ⟨walk.undef, Buried.flush walk.buried _⟩

/-- In a run of clean deletes nothing is undefined and no timer deleted by a record it was handed
is called again, neither between operations nor in a clean pass still going on. -/
theorem run_deletes_effective (run : Run env (CleanStep env) s) :
    (s.undef = false ∧ Effective s.trace) ∧
      (CleanPass env s → ∀ c, PassVisits env s c →
        c.loop.undef = false ∧ Effective c.loop.trace) := by
  obtain ⟨undef, buried⟩ := run_buried run
  refine ⟨⟨undef, buried.effective⟩, fun clean c visited => ?_⟩
  have walk := cleanPass_walk clean undef buried visited
  exact ⟨walk.undef, walk.buried.effective⟩

end Runs

/-- The clock stands still, and callbacks ask to be called again at once. -/
def promptEnv : Env TimeEvent where
  gettimeofday _ := Timeval.ofMillis 5000
  time _ := 5
  timeProc _ _ := ⟨[], 0⟩
  finalizerProc _ _ := []

/-- Two timers are called and armed again under the key they had; one is deleted by the record it
was handed, and the next pass calls the other alone. -/
theorem run_deletes_effective_prompt :
    ∃ s, Run promptEnv (CleanStep promptEnv) s ∧ (deletedIn s.trace).map TimeEvent.id = [0] ∧
      (calledIn s.trace).map TimeEvent.id = [0, 1, 1] ∧ s.undef = false ∧ Effective s.trace := by
  let s₁ := runCall promptEnv (fresh promptEnv) (.create 0 3 4 none)
  let s₂ := runCall promptEnv s₁ (.create 0 3 4 none)
  have run₂ : Run promptEnv (CleanStep promptEnv) s₂ :=
    .move (i := .timer (.create 0 3 4 none)) (.move (i := .timer (.create 0 3 4 none))
      (fresh_run _ _) trivial (.timer _ _)) trivial (.timer _ _)
  have all : ((processTimeEvents promptEnv 9 s₂).bind fun c =>
      (processTimeEvents promptEnv 9 (runCall promptEnv c.1 (.delete ⟨0, 5, 0, 3, none, 4⟩))).map
        fun d => (c.1.timeEventMap.elems.map Prod.fst, deletedIn d.1.trace,
          (calledIn d.1.trace).map TimeEvent.id)) =
      some ([5000], [⟨0, 5, 0, 3, none, 4⟩], [0, 1, 1]) := by decide
  obtain ⟨⟨s₃, n⟩, h₃, rest⟩ := Option.bind_eq_some_iff.mp all
  obtain ⟨⟨s₄, m⟩, h₄, facts⟩ := Option.map_eq_some_iff.mp rest
  simp only [Prod.mk.injEq] at facts
  obtain ⟨stored, deleted, called⟩ := facts
  have run₃ : Run promptEnv (CleanStep promptEnv) s₃ :=
    .move (i := .pass) run₂ (fun c _ k id te _ _ => trivial) (.pass h₃)
  have clean : CleanDelete s₃.timeEventMap [] none s₃.trace ⟨0, 5, 0, 3, none, 4⟩ := by
    refine ⟨by simp, fun _ p hp x _ _ => ?_, by simp⟩
    have key : p.1 ∈ s₃.timeEventMap.elems.map Prod.fst := List.mem_map_of_mem hp
    rw [stored, List.mem_singleton] at key
    rw [key]
    decide
  have run₄ : Run promptEnv (CleanStep promptEnv)
      (runCall promptEnv s₃ (.delete ⟨0, 5, 0, 3, none, 4⟩)) :=
    .move (i := .timer (.delete _)) run₃ clean (.timer _ _)
  have run : Run promptEnv (CleanStep promptEnv) s₄ :=
    .move (i := .pass) run₄ (fun c _ k id te _ _ => trivial) (.pass h₄)
  exact ⟨s₄, run, by rw [deleted]; rfl, called, (run_deletes_effective run).1⟩

/-- The clock moves on by a second with every reading, and callbacks ask to be called again a second
later. -/
def repeatingEnv : Env TimeEvent where
  gettimeofday k := Timeval.ofMillis (5000 + 1000 * k)
  time k := 5 + k
  timeProc _ _ := ⟨[], 1000⟩
  finalizerProc _ _ := []

/-- Timer 0 fires once and is armed again; deleting it by the record it was handed answers
`AE_OK`, and the next pass calls it again. -/
theorem deletes_effective_fails_rearmed :
    ∃ s, Run repeatingEnv (fun _ _ => True) s ∧ s.undef = false ∧ ¬ Effective s.trace ∧
      (calledIn s.trace).map TimeEvent.id = [0, 0] := by
  let s₁ := runCall repeatingEnv (fresh repeatingEnv) (.create 0 3 4 none)
  have run₁ : Run repeatingEnv (fun _ _ => True) s₁ :=
    .move (i := .timer (.create 0 3 4 none)) (fresh_run _ _) trivial (.timer _ _)
  have all : ((processTimeEvents repeatingEnv 9 s₁).bind fun c =>
      (processTimeEvents repeatingEnv 9 (runCall repeatingEnv c.1
        (.delete ⟨0, 6, 0, 3, none, 4⟩))).map fun d =>
          (d.1.undef, calledIn (d.1.trace.take 4), d.1.trace[4]?, calledIn (d.1.trace.drop 5))) =
      some (false, [⟨0, 6, 0, 3, none, 4⟩], some (.deleted ⟨0, 6, 0, 3, none, 4⟩ AE_OK),
        [⟨0, 9, 0, 3, none, 4⟩]) := by decide
  obtain ⟨⟨s₂, n⟩, h₂, rest⟩ := Option.bind_eq_some_iff.mp all
  obtain ⟨⟨s₃, m⟩, h₃, facts⟩ := Option.map_eq_some_iff.mp rest
  simp only [Prod.mk.injEq] at facts
  obtain ⟨undef, handed, deleted, again⟩ := facts
  have split : s₃.trace = s₃.trace.take 4 ++ .deleted ⟨0, 6, 0, 3, none, 4⟩ AE_OK ::
      s₃.trace.drop 5 := by
    conv_lhs => rw [← List.take_append_drop 4 s₃.trace]
    obtain ⟨short, eq⟩ := List.getElem?_eq_some_iff.mp deleted
    rw [List.drop_eq_getElem_cons short, eq]
  refine ⟨s₃, .move (i := .pass) (.move (i := .timer (.delete _)) (.move (i := .pass) run₁ trivial
    (.pass h₂)) trivial (.timer _ _)) trivial (.pass h₃), undef, fun effective => ?_, ?_⟩
  · exact effective _ _ _ split (by simp [handed]) ⟨0, 9, 0, 3, none, 4⟩ (by simp [again]) rfl
  · rw [split]
    simp [handed, again]

end AeEventLoop.Ae3
