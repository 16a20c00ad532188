import AeEventLoop.AePass

/-! The walk of `ae.c` under arbitrary callbacks and finalizers. A timer call of user code can free
two nodes that the turn still needs: the one under the cursor, and the one whose address was saved
in `next` before a finalizer ran. Those two are the whole condition; the walk stays on allocated
nodes exactly when user code spares them. The second half is what such a walk does, whatever else
user code creates and deletes: every timer it finds is reached at most once, and left out only if
it was deleted. -/

namespace AeEventLoop.Ae

open LinkedStore

/-- The callback that the walk in state `c` is about to run does not delete its own timer. -/
def SparesSelf (env : Env Int) (maxId : Int) (c : Pass) : Prop :=
  ∀ p cell, c.te = some p → c.loop.timeEvents.cells p = some cell →
    cell.val.id ≠ AE_DELETED_EVENT_ID → cell.val.id ≤ maxId →
    Due cell.val.deadline (reading env c) →
    .delete cell.val.id ∉ (script env c cell.val).calls

/-- The finalizer that the walk in state `c` is about to run does not delete the timer behind the
swept one. -/
def SparesNext (env : Env Int) (c : Pass) : Prop :=
  ∀ p cell q following, c.te = some p → c.loop.timeEvents.cells p = some cell →
    cell.val.id = AE_DELETED_EVENT_ID → cell.val.finalizerProc.isSome →
    cell.next = some q → c.loop.timeEvents.cells q = some following →
    .delete following.val.id ∉
      env.finalizerProc (c.loop.trace ++ [.unlinked cell.val]) cell.val

/-- Where the walk can be with `todo` still to come: at the first of them (phase 0), or at a node
that the turn before has marked (phase 1). -/
inductive Stands (c : Pass) (todo : List (ℕ × TimeEvent)) : ℕ → Prop
  | here {front : List (ℕ × TimeEvent)} : Ok c.loop (front ++ todo) → c.te = headAddr todo →
      Stands c todo 0
  | marked {s : EventLoop} {front : List (ℕ × TimeEvent)} {p : ℕ} {te : TimeEvent}
      {l : LinkedStore TimeEvent} : Ok s (front ++ (p, te) :: todo) →
      s.timeEvents.setVal p markDeleted = some l → c.loop = { s with timeEvents := l } →
      c.te = some p → Stands c todo 1

/-- The events of one turn, with the timers to come before and after it. -/
inductive Wrote (env : Env Int) (c : Pass) :
    List (ℕ × TimeEvent) → List (ℕ × TimeEvent) → List (Event Int) → Prop
  | late (p : ℕ) (te : TimeEvent) (rest : List (ℕ × TimeEvent)) :
      ¬ Due te.deadline (reading env c) →
      Wrote env c ((p, te) :: rest) rest [.reached te (reading env c)]
  | ran (p : ℕ) (te : TimeEvent) (rest : List (ℕ × TimeEvent)) (user tail : List (Event Int)) :
      (∀ e ∈ user, UserEvent e) → (∀ x ∈ createdIn user, c.loop.timeEventNextId ≤ x.id) →
      tail = [] ∨ (∃ x, tail = [.rearmed x]) →
      Wrote env c ((p, te) :: rest) (rest.filter fun x => x.2.id ∉ deletedIn user)
        (.reached te (reading env c) :: .called te :: (user ++
          .returned te (script env c te).retval :: tail))
  | swept (te : TimeEvent) (todo : List (ℕ × TimeEvent)) (fin user : List (Event Int)) :
      (∀ e ∈ user, UserEvent e) → (∀ x ∈ createdIn user, c.loop.timeEventNextId ≤ x.id) →
      fin = [] ∨ fin = [.finalized te] →
      Wrote env c todo (todo.filter fun x => x.2.id ∉ deletedIn user)
        (.unlinked te :: (fin ++ user))

/-- One turn of the walk, from `todo` to come to `todo'` to come. -/
structure Moved (env : Env Int) (c c' : Pass) (todo todo' : List (ℕ × TimeEvent))
    (new : List (Event Int)) : Prop where
  wrote : Wrote env c todo todo' new
  trace : c'.loop.trace = c.loop.trace ++ new
  nextId : c.loop.timeEventNextId ≤ c'.loop.timeEventNextId
  tick : c.loop.tick ≤ c'.loop.tick
  lastTime : c'.loop.lastTime = c.loop.lastTime
  files : c'.loop.toFileTable = c.loop.toFileTable

section Freed

variable {env : Env Int} {s : EventLoop} {p : ℕ}

theorem runCall_freed (env : Env Int) (freed : Freed s.timeEvents p) (call : TimerCall Int) :
    Freed (runCall env s call).timeEvents p := by
  cases call with
  | create ms proc data fin =>
      simp only [runCall, aeCreateTimeEvent, log, store]
      cases run : s.timeEvents.pushFront (s.newTimeEvent env ms proc data fin) with
      | none => exact freed
      | some l => exact freed.pushFront run
  | delete id =>
      simp only [runCall, aeDeleteTimeEvent]
      split
      · exact freed
      · exact freed
      · rename_i q _
        simp only [log, store]
        cases run : ((s.timeEvents.setVal q markDeleted).bind fun l => l.unlink q).map
            fun l => l.free q with
        | none => exact freed
        | some l =>
            obtain ⟨l₂, both, rfl⟩ := Option.map_eq_some_iff.mp run
            obtain ⟨l₁, marked, unlinked⟩ := Option.bind_eq_some_iff.mp both
            have marked' : Freed l₁ p := freed.modify marked
            exact (marked'.unlink unlinked).free q

theorem runCalls_freed (env : Env Int) (freed : Freed s.timeEvents p)
    (calls : List (TimerCall Int)) : Freed (runCalls env s calls).timeEvents p := by
  induction calls generalizing s with
  | nil => exact freed
  | cons call calls ih => exact ih (runCall_freed env freed call)

theorem runCalls_frees (env : Env Int) {xs : List (ℕ × TimeEvent)} {te : TimeEvent}
    {calls : List (TimerCall Int)} (ok : Ok s xs) (stored : (p, te) ∈ xs)
    (asked : .delete te.id ∈ calls) : (runCalls env s calls).timeEvents.cells p = none := by
  induction calls generalizing s xs with
  | nil => cases asked
  | cons call calls ih =>
      by_cases own : call = .delete te.id
      · obtain ⟨a, b, rfl⟩ := List.append_of_mem stored
        obtain ⟨l, eq, -, -, freed⟩ := ok.delete_found
        have step : runCall env s call = log { s with timeEvents := l } (.deleted te.id AE_OK) := by
          rw [own]
          exact congrArg Prod.snd eq
        change (runCalls env (runCall env s call) calls).timeEvents.cells p = none
        rw [step]
        exact (runCalls_freed env freed calls).1
      · obtain ⟨new, seg, ran⟩ := runCalls_ran env [call] ok
        have kept : te.id ∉ deletedIn seg := fun gone =>
          own (List.mem_singleton.mp (ran.asked te.id gone)).symm
        have stored' : (p, te) ∈ new ++ xs.filter fun x => x.2.id ∉ deletedIn seg :=
          List.mem_append_right _ (List.mem_filter.mpr ⟨stored, by simpa using kept⟩)
        have later : .delete te.id ∈ calls := by
          rcases List.mem_cons.mp asked with same | later
          · exact absurd same.symm own
          · exact later
        exact ih ran.ok stored' later

end Freed

section Turn

variable {env : Env Int} {maxId : Int} {c c' : Pass} {todo : List (ℕ × TimeEvent)} {phase : ℕ}

theorem Stands.undef (stands : Stands c todo phase) : c.loop.undef = false := by
  cases stands with
  | here ok _ => exact ok.undef
  | marked ok _ eq _ =>
      rw [eq]
      exact ok.undef

theorem Stands.cell (stands : Stands c todo phase) {p : ℕ} {cell : Cell TimeEvent}
    (cursor : c.te = some p) (here : c.loop.timeEvents.cells p = some cell) :
    (phase = 0 ∧ ∃ front rest, todo = (p, cell.val) :: rest ∧ Ok c.loop (front ++ todo)) ∨
      (phase = 1 ∧ cell.val.id = AE_DELETED_EVENT_ID ∧ cell.next = headAddr todo) := by
  cases stands with
  | here ok at_ =>
      rename_i front
      cases todo with
      | nil =>
          rw [cursor] at at_
          cases at_
      | cons x rest =>
          rw [cursor] at at_
          obtain rfl := Option.some.inj at_
          have stored := ok.repr.cell front x.1 x.2 rest rfl
          rw [here] at stored
          rw [Option.some.inj stored]
          exact .inl ⟨rfl, front, rest, rfl, ok⟩
  | marked ok mark eq at_ =>
      rename_i s front q te l
      rw [cursor] at at_
      obtain rfl := Option.some.inj at_
      obtain ⟨l', mark', repr, -⟩ := setVal_repr ok.repr markDeleted
      obtain rfl := Option.some.inj (mark.symm.trans mark')
      have stored := repr.cell front p (markDeleted te) todo rfl
      rw [eq] at here
      rw [here] at stored
      rw [Option.some.inj stored]
      exact .inr ⟨rfl, rfl, rfl⟩

theorem Ok.unmarked {s : EventLoop} {xs : List (ℕ × TimeEvent)} (ok : Ok s xs)
    {x : ℕ × TimeEvent} (stored : x ∈ xs) : x.2.id ≠ AE_DELETED_EVENT_ID := by
  have low := (ok.range x stored).1
  simp only [AE_DELETED_EVENT_ID]
  omega

theorem due_moved {front rest : List (ℕ × TimeEvent)} {p : ℕ} {te : TimeEvent}
    (ok : Ok c.loop (front ++ (p, te) :: rest)) (cursor : c.te = some p)
    (spared : .delete te.id ∉ (script env c te).calls) :
    ∃ todo' phase' new, Stands (fire env (reachTimer env c te) p te) todo' phase' ∧
      Moved env c (fire env (reachTimer env c te) p te) ((p, te) :: rest) todo' new ∧
      2 * todo'.length + phase' < 2 * (rest.length + 1) := by
  obtain ⟨made, user, isUser, -, ran, after⟩ := runTimeProc_ran ok spared
  have fewer : (rest.filter fun x => x.2.id ∉ deletedIn user).length ≤ rest.length :=
    List.length_filter_le _ _
  have nextId : (runTimeProc env (reachTimer env c te).loop te).timeEventNextId =
      c.loop.timeEventNextId + (createdIn user).length := ran.nextId
  have tick : (runTimeProc env (reachTimer env c te).loop te).tick =
      c.loop.tick + 1 + (createdIn user).length := ran.tick
  by_cases last : (script env c te).retval = AE_NOMORE
  · obtain ⟨l, marked, fired⟩ := fire_ended after last
    rw [fired]
    refine ⟨_, 1, _, .marked after marked rfl cursor,
      ⟨.ran p te rest user [] isUser ran.newIds (.inl rfl), runTimeProc_trace ran, ?_, ?_,
        ran.lastTime, ran.files⟩, by omega⟩
    · change _ ≤ (runTimeProc env (reachTimer env c te).loop te).timeEventNextId
      omega
    · change _ ≤ (runTimeProc env (reachTimer env c te).loop te).tick
      omega
  · obtain ⟨next, fired, nextOk, trace, nextId', tick', lastTime, files⟩ :=
      fire_again ran after last
    rw [fired]
    have nextOk' : Ok next (((made ++ front.filter fun x => x.2.id ∉ deletedIn user) ++
        [(p, rearmedTimer env c te user)]) ++ rest.filter fun x => x.2.id ∉ deletedIn user) := by
      simpa using nextOk
    refine ⟨_, 0, _, .here nextOk' rfl,
      ⟨.ran p te rest user _ isUser ran.newIds (.inr ⟨rearmedTimer env c te user, rfl⟩), ?_, ?_, ?_,
        lastTime.trans ran.lastTime, files.trans ran.files⟩, by omega⟩
    · change next.trace = _
      rw [trace, runTimeProc_trace ran]
      simp
    · change _ ≤ next.timeEventNextId
      omega
    · change _ ≤ next.tick
      omega

theorem marked_step (env : Env Int) (maxId : Int) {s : EventLoop} {front : List (ℕ × TimeEvent)}
    {p : ℕ} {te : TimeEvent} {l : LinkedStore TimeEvent} (ok : Ok s (front ++ (p, te) :: todo))
    (marked : s.timeEvents.setVal p markDeleted = some l)
    (eq : c.loop = { s with timeEvents := l }) (cursor : c.te = some p) :
    ∃ u : EventLoop, Ok u (front ++ todo) ∧ p < u.timeEvents.fresh ∧
      u.trace = c.loop.trace ++ [.unlinked (markDeleted te)] ∧
      u.timeEventNextId = c.loop.timeEventNextId ∧ u.tick = c.loop.tick ∧
      u.lastTime = c.loop.lastTime ∧ u.toFileTable = c.loop.toFileTable ∧
      passStep env maxId c =
        some { c with
          loop := { runFinalizer env u (markDeleted te) with
            timeEvents := (runFinalizer env u (markDeleted te)).timeEvents.free p }
          te := headAddr todo } := by
  obtain ⟨loop, cur, processed⟩ := c
  subst eq
  exact sweep_eq env maxId (c := ⟨s, cur, processed⟩) ok marked cursor

theorem swept_moved {s : EventLoop} {front : List (ℕ × TimeEvent)} {p : ℕ} {te : TimeEvent}
    {l : LinkedStore TimeEvent} (ok : Ok s (front ++ (p, te) :: todo))
    (marked : s.timeEvents.setVal p markDeleted = some l)
    (eq : c.loop = { s with timeEvents := l }) (cursor : c.te = some p)
    (next : SparesNext env c) (body : passStep env maxId c = some c') :
    ∃ todo' new, Stands c' todo' 0 ∧ Moved env c c' todo todo' new ∧
      todo'.length ≤ todo.length := by
  obtain ⟨u, okU, below, trace, nextId, tick, lastTime, files, swept⟩ :=
    marked_step env maxId ok marked eq cursor
  rw [body] at swept
  obtain rfl := Option.some.inj swept
  have off : ∀ x ∈ front ++ todo, x.1 ≠ p := fun x hx => ok.repr.addr_ne (x := (p, te)) hx
  rcases runFinalizer_ran env okU (markDeleted te) with ⟨-, silent⟩ | ⟨made, user, someFin, ran⟩
  · rw [silent]
    refine ⟨todo.filter fun x => x.2.id ∉ deletedIn ([] : List (Event Int)), _, ?_,
      ⟨.swept (markDeleted te) todo [] [] (by simp) (by simp) (.inl rfl), ?_, ?_, ?_, ?_, ?_⟩,
      List.length_filter_le _ _⟩
    · have all : (todo.filter fun x => x.2.id ∉ deletedIn ([] : List (Event Int))) = todo := by simp
      rw [all]
      exact .here (free_ok okU off) rfl
    · simpa using trace
    · exact nextId.ge
    · exact tick.ge
    · exact lastTime
    · exact files
  · have offAll : ∀ x ∈ made ++ (front ++ todo).filter (fun x => x.2.id ∉ deletedIn user),
        x.1 ≠ p := by
      intro x hx
      rcases List.mem_append.mp hx with new | old
      · have : u.timeEvents.fresh ≤ x.1 := ran.addrs x new
        omega
      · exact off x (List.mem_of_mem_filter old)
    have after := free_ok ran.ok offAll
    rw [List.filter_append, ← List.append_assoc] at after
    have grows : (runFinalizer env u (markDeleted te)).timeEventNextId =
        u.timeEventNextId + (createdIn user).length := ran.nextId
    have reads : (runFinalizer env u (markDeleted te)).tick = u.tick + (createdIn user).length :=
      ran.tick
    have newIds : ∀ x ∈ createdIn user, c.loop.timeEventNextId ≤ x.id := fun x hx => by
      rw [← nextId]
      exact ran.newIds x hx
    refine ⟨_, _, .here after ?_, ⟨.swept (markDeleted te) todo [.finalized (markDeleted te)] user
      ran.user newIds (.inr rfl), ?_, ?_, ?_, ?_, ?_⟩, List.length_filter_le _ _⟩
    · change headAddr todo = _
      cases todo with
      | nil => rfl
      | cons y rest =>
          have kept : y.2.id ∉ deletedIn user := by
            intro gone
            obtain ⟨l', marked', repr, -⟩ := setVal_repr ok.repr markDeleted
            obtain rfl := Option.some.inj (marked.symm.trans marked')
            have here := repr.cell front p (markDeleted te) (y :: rest) rfl
            have behind := repr.cell (front ++ [(p, markDeleted te)]) y.1 y.2 rest (by simp)
            refine next p _ y.1 _ cursor (by rw [eq]; exact here) rfl someFin rfl
              (by rw [eq]; exact behind) ?_
            rw [← trace]
            exact ran.asked _ gone
          rw [List.filter_cons_of_pos (by simpa using kept)]
          rfl
    · change (runFinalizer env u (markDeleted te)).trace = _
      rw [ran.trace]
      simp [log, trace]
    · change _ ≤ (runFinalizer env u (markDeleted te)).timeEventNextId
      omega
    · change _ ≤ (runFinalizer env u (markDeleted te)).tick
      omega
    · exact ran.lastTime.trans lastTime
    · exact ran.files.trans files

theorem Stands.exit (stands : Stands c todo phase) (exit : passStep env maxId c = none) :
    todo = [] ∧ ∃ xs, Ok c.loop xs := by
  have fine := stands.undef
  cases stands with
  | here ok cursor =>
      rename_i front
      cases todo with
      | nil => exact ⟨rfl, front, by simpa using ok⟩
      | cons x rest =>
          have here := ok.repr.cell front x.1 x.2 rest rfl
          rw [passStep, if_neg (by simp [fine]), cursor] at exit
          simp only [headAddr_cons, here] at exit
          split_ifs at exit
  | marked ok marked eq cursor =>
      obtain ⟨u, -, -, -, -, -, -, -, swept⟩ := marked_step env maxId ok marked eq cursor
      rw [exit] at swept
      cases swept

theorem Stands.step (stands : Stands c todo phase) (old : ∀ x ∈ todo, x.2.id ≤ maxId)
    (self : SparesSelf env maxId c) (next : SparesNext env c)
    (body : passStep env maxId c = some c') :
    ∃ todo' phase' new, Stands c' todo' phase' ∧ Moved env c c' todo todo' new ∧
      2 * todo'.length + phase' < 2 * todo.length + phase := by
  cases stands with
  | here ok cursor =>
      rename_i front
      cases todo with
      | nil =>
          rw [passStep, if_neg (by simp [ok.undef]), cursor] at body
          cases body
      | cons x rest =>
          obtain ⟨p, te⟩ := x
          have low : te.id ≤ maxId := old (p, te) (by simp)
          rw [passStep_eq env ok cursor low] at body
          split_ifs at body with due
          · obtain rfl := Option.some.inj body
            have spared := self p _ cursor (ok.repr.cell front p te rest rfl)
              (ok.unmarked (x := (p, te)) (by simp)) low due
            exact due_moved ok cursor spared
          · obtain rfl := Option.some.inj body
            have ok' : Ok (reachTimer env c te).loop ((front ++ [(p, te)]) ++ rest) := by
              simpa using reachTimer_ok ok env te
            exact ⟨rest, 0, _, .here ok' rfl, ⟨.late p te rest due, rfl, le_refl _,
              Nat.le_succ _, rfl, rfl⟩, by simp⟩
  | marked ok marked eq cursor =>
      obtain ⟨todo', new, stands', moved, fewer⟩ := swept_moved ok marked eq cursor next body
      exact ⟨todo', 0, new, stands', moved, by omega⟩

/-- A callback whose node is gone when it returns: both branches write to the node. -/
theorem fire_undef {p : ℕ} {te : TimeEvent}
    (gone : (runTimeProc env c.loop te).timeEvents.cells p = none) :
    (fire env c p te).loop.undef = true := by
  by_cases last : (env.timeProc c.loop.trace te).retval = AE_NOMORE
  · simp [fire, last, store, setVal_none gone]
  · simp only [fire, ne_eq, last, not_false_eq_true, if_true, rearm, store, setVal_none gone,
      advance, log, gone]

theorem passStep_freed (env : Env Int) (maxId : Int) {p : ℕ} (fine : c.loop.undef = false)
    (cursor : c.te = some p) (gone : c.loop.timeEvents.cells p = none) :
    passStep env maxId c = some { c with loop := { c.loop with undef := true } } := by
  rw [passStep, if_neg (by simp [fine])]
  simp only [cursor, gone]

/-- The finalizer deletes the node behind: the walk goes on to it all the same. -/
theorem swept_undef {s : EventLoop} {front rest : List (ℕ × TimeEvent)} {p q : ℕ}
    {te following : TimeEvent} {l : LinkedStore TimeEvent}
    (ok : Ok s (front ++ (p, te) :: (q, following) :: rest))
    (marked : s.timeEvents.setVal p markDeleted = some l)
    (eq : c.loop = { s with timeEvents := l }) (cursor : c.te = some p)
    (someFin : te.finalizerProc.isSome)
    (asked : .delete following.id ∈
      env.finalizerProc (c.loop.trace ++ [.unlinked (markDeleted te)]) (markDeleted te)) :
    ∃ d, WhileLoop.Visits (passStep env maxId) c d ∧ d.loop.undef = true := by
  obtain ⟨u, okU, -, trace, -, -, -, -, swept⟩ := marked_step env maxId ok marked eq cursor
  rcases runFinalizer_ran env okU (markDeleted te) with ⟨noFin, -⟩ | ⟨made, user, -, ran⟩
  · rw [show te.finalizerProc = none from noFin] at someFin
    cases someFin
  · have start : Ok (log u (.finalized (markDeleted te))) (front ++ (q, following) :: rest) :=
      okU.same rfl rfl rfl
    rw [← trace] at asked
    have stored : (q, following) ∈ front ++ (q, following) :: rest := by simp
    have freed := runCalls_frees env start stored asked
    obtain ⟨f, hf⟩ := Option.isSome_iff_exists.mp someFin
    have run : runFinalizer env u (markDeleted te) = runCalls env
        (log u (.finalized (markDeleted te))) (env.finalizerProc u.trace (markDeleted te)) := by
      simp only [runFinalizer, markDeleted, hf]
    have gone : ((runFinalizer env u (markDeleted te)).timeEvents.free p).cells q = none := by
      rw [run]
      by_cases own : q = p
      · exact own ▸ Function.update_self _ _ _
      · exact (Function.update_of_ne own _ _).trans freed
    exact ⟨_, .tail (.single swept) (passStep_freed env maxId ran.ok.undef rfl gone), rfl⟩

/-- Where the callback deletes its own timer, or the finalizer the next one, the walk goes on to a
freed node. -/
theorem Stands.unsafe (stands : Stands c todo phase)
    (harm : ¬ (SparesSelf env maxId c ∧ SparesNext env c)) :
    ∃ d, WhileLoop.Visits (passStep env maxId) c d ∧ d.loop.undef = true := by
  by_cases self : SparesSelf env maxId c
  · have next : ¬ SparesNext env c := fun next => harm ⟨self, next⟩
    simp only [SparesNext, not_forall, not_not] at next
    obtain ⟨p, cell, q, following, cursor, here, isMarked, someFin, saved, behind, asked⟩ := next
    cases stands with
    | here ok at_ =>
        rcases (Stands.here ok at_).cell cursor here with ⟨-, front, rest, rfl, ok⟩ | ⟨other, -⟩
        · exact absurd isMarked (ok.unmarked (x := (p, cell.val)) (by simp))
        · cases other
    | marked ok marked eq at_ =>
        rename_i s front p' te l
        rw [cursor] at at_
        obtain rfl := Option.some.inj at_
        obtain ⟨l', marked', repr, -⟩ := setVal_repr ok.repr markDeleted
        obtain rfl := Option.some.inj (marked.symm.trans marked')
        rw [eq] at here behind
        obtain rfl := Option.some.inj (here.symm.trans (repr.cell front p _ todo rfl))
        cases todo with
        | nil => cases saved
        | cons y rest =>
            obtain rfl := Option.some.inj saved
            have stored := repr.cell (front ++ [(p, markDeleted te)]) y.1 y.2 rest (by simp)
            obtain rfl := Option.some.inj (behind.symm.trans stored)
            exact swept_undef ok marked eq cursor someFin asked
  · simp only [SparesSelf, not_forall, not_not] at self
    obtain ⟨p, cell, cursor, here, notMarked, low, due, asked⟩ := self
    rcases stands.cell cursor here with ⟨-, front, rest, rfl, ok⟩ | ⟨-, isMarked, -⟩
    · refine ⟨_, .single ((passStep_eq env ok cursor low).trans (if_pos due)), fire_undef ?_⟩
      have start : Ok (log (reachTimer env c cell.val).loop (.called cell.val))
          (front ++ (p, cell.val) :: rest) := ok.same rfl rfl rfl
      exact runCalls_frees env start (by simp) asked
    · exact absurd isMarked notMarked

end Turn

/-- What the events `seg` of a walk that started in `s` and found the nodes `xs` amount to while
`todo` is still to come. -/
structure Tally (env : Env Int) (s : EventLoop) (xs todo : List (ℕ × TimeEvent))
    (seg : List (Event Int)) : Prop where
  nodes : todo.Sublist xs
  called : ∀ te ∈ calledIn seg, te ∈ xs.map Prod.snd
  once : ((calledIn seg).map TimeEvent.id).Nodup
  past : ∀ te ∈ calledIn seg, ∀ x ∈ todo, x.2.id ≠ te.id
  complete : ∀ x ∈ xs, x ∈ todo ∨ x.2.id ∈ deletedIn seg ∨ x.2 ∈ (reachedIn seg).map Prod.fst
  fired : ∀ r ∈ reachedIn seg, Due r.1.deadline r.2 → r.1 ∈ calledIn seg
  readings : ∀ r ∈ reachedIn seg, ∃ k, s.tick ≤ k ∧ r.2 = aeGetTime (env.gettimeofday k)
  newIds : ∀ x ∈ createdIn seg, s.timeEventNextId ≤ x.id

section Tally

variable {env : Env Int} {s : EventLoop} {c : Pass} {xs todo todo' : List (ℕ × TimeEvent)}
  {seg new : List (Event Int)}

theorem Tally.start (env : Env Int) (s : EventLoop) (xs : List (ℕ × TimeEvent)) :
    Tally env s xs xs [] where
  nodes := List.Sublist.refl _
  called := by simp
  once := by simp
  past := by simp
  complete x hx := .inl hx
  fired := by simp
  readings := by simp
  newIds := by simp

theorem mem_filter_or {ids : List Int} {x : ℕ × TimeEvent} (here : x ∈ todo) :
    x ∈ todo.filter (fun y => y.2.id ∉ ids) ∨ x.2.id ∈ ids := by
  by_cases gone : x.2.id ∈ ids
  · exact .inr gone
  · exact .inl (List.mem_filter.mpr ⟨here, by simpa using gone⟩)

theorem Tally.extend (head : Option (ℕ × TimeEvent)) {rest : List (ℕ × TimeEvent)} {tick : ℕ}
    (tally : Tally env s xs (head.toList ++ rest) seg) (ids : (xs.map fun x => x.2.id).Nodup)
    (later : s.tick ≤ tick) (left : todo'.Sublist rest)
    (lost : ∀ x ∈ rest, x ∈ todo' ∨ x.2.id ∈ deletedIn new)
    (reached : reachedIn new = head.toList.map fun x => (x.2, aeGetTime (env.gettimeofday tick)))
    (called : (calledIn new).Sublist (head.toList.map Prod.snd))
    (fired : ∀ r ∈ reachedIn new, Due r.1.deadline r.2 → r.1 ∈ calledIn new)
    (created : ∀ x ∈ createdIn new, s.timeEventNextId ≤ x.id) :
    Tally env s xs todo' (seg ++ new) := by
  have found : ∀ te ∈ calledIn new, ∃ x ∈ head.toList, x.2 = te := fun te hte =>
    List.mem_map.mp (called.subset hte)
  have idsTodo : ((head.toList ++ rest).map fun x => x.2.id).Nodup :=
    ids.sublist (tally.nodes.map _)
  rw [List.map_append, List.nodup_append] at idsTodo
  have alone : ((calledIn new).map TimeEvent.id).Nodup := by
    refine List.Nodup.sublist (called.map _) ?_
    rw [List.map_map]
    exact idsTodo.1
  refine ⟨left.trans ((List.sublist_append_right _ _).trans tally.nodes), ?_, ?_, ?_, ?_, ?_, ?_, ?_⟩
  · rw [calledIn_append]
    intro te hte
    rcases List.mem_append.mp hte with early | now
    · exact tally.called te early
    · obtain ⟨x, hx, rfl⟩ := found te now
      exact List.mem_map_of_mem (tally.nodes.subset (List.mem_append_left _ hx))
  · rw [calledIn_append, List.map_append]
    refine List.nodup_append.mpr ⟨tally.once, alone, ?_⟩
    intro i hi j hj same
    obtain ⟨te, hte, rfl⟩ := List.mem_map.mp hi
    obtain ⟨te', hte', rfl⟩ := List.mem_map.mp hj
    obtain ⟨x, hx, rfl⟩ := found te' hte'
    exact tally.past te hte x (List.mem_append_left _ hx) same.symm
  · rw [calledIn_append]
    intro te hte y hy
    have behind := left.subset hy
    rcases List.mem_append.mp hte with early | now
    · exact tally.past te early y (List.mem_append_right _ behind)
    · obtain ⟨x, hx, rfl⟩ := found te now
      exact (idsTodo.2.2 _ (List.mem_map_of_mem hx) _ (List.mem_map_of_mem behind)).symm
  · intro x hx
    rw [deletedIn_append, reachedIn_append, List.map_append]
    rcases tally.complete x hx with here | gone | seen
    · rcases List.mem_append.mp here with now | behind
      · refine .inr (.inr (List.mem_append_right _ ?_))
        rw [reached, List.map_map]
        exact List.mem_map.mpr ⟨x, now, rfl⟩
      · exact (lost x behind).imp_right fun gone => .inl (List.mem_append_right _ gone)
    · exact .inr (.inl (List.mem_append_left _ gone))
    · exact .inr (.inr (List.mem_append_left _ seen))
  · rw [reachedIn_append, calledIn_append]
    intro r hr due
    rcases List.mem_append.mp hr with early | now
    · exact List.mem_append_left _ (tally.fired r early due)
    · exact List.mem_append_right _ (fired r now due)
  · rw [reachedIn_append]
    intro r hr
    rcases List.mem_append.mp hr with early | now
    · exact tally.readings r early
    · rw [reached] at now
      obtain ⟨x, -, rfl⟩ := List.mem_map.mp now
      exact ⟨tick, later, rfl⟩
  · rw [createdIn_append]
    intro x hx
    exact (List.mem_append.mp hx).elim (tally.newIds x) (created x)

theorem Tally.step (tally : Tally env s xs todo seg) (wrote : Wrote env c todo todo' new)
    (ids : (xs.map fun x => x.2.id).Nodup) (tick : s.tick ≤ c.loop.tick)
    (nextId : s.timeEventNextId ≤ c.loop.timeEventNextId) :
    Tally env s xs todo' (seg ++ new) := by
  cases wrote with
  | late p te rest late =>
      refine Tally.extend (some (p, te)) tally ids tick (List.Sublist.refl _)
        (fun x hx => .inl hx) rfl (List.nil_sublist _) ?_ (by simp)
      intro r hr due
      obtain rfl : r = (te, reading env c) := by simpa using hr
      exact absurd due late
  | ran p te rest user tail isUser fresh shape =>
      have called : calledIn (.reached te (reading env c) :: .called te :: (user ++
          .returned te (script env c te).retval :: tail)) = [te] := by
        rcases shape with rfl | ⟨x, rfl⟩ <;> simp [calledIn_of_user isUser]
      have reached : reachedIn (.reached te (reading env c) :: .called te :: (user ++
          .returned te (script env c te).retval :: tail)) = [(te, reading env c)] := by
        rcases shape with rfl | ⟨x, rfl⟩ <;> simp [reachedIn_of_user isUser]
      have deleted : deletedIn (.reached te (reading env c) :: .called te :: (user ++
          .returned te (script env c te).retval :: tail)) = deletedIn user := by
        rcases shape with rfl | ⟨x, rfl⟩ <;> simp
      have created : createdIn (.reached te (reading env c) :: .called te :: (user ++
          .returned te (script env c te).retval :: tail)) = createdIn user := by
        rcases shape with rfl | ⟨x, rfl⟩ <;> simp
      refine Tally.extend (some (p, te)) tally ids tick List.filter_sublist ?_ reached ?_ ?_ ?_
      · rw [deleted]
        exact fun x hx => mem_filter_or hx
      · rw [called]
        exact List.Sublist.refl _
      · rw [called, reached]
        intro r hr _
        rw [List.mem_singleton.mp hr]
        exact List.mem_singleton_self te
      · rw [created]
        exact fun x hx => nextId.trans (fresh x hx)
  | swept te todo fin user isUser fresh shape =>
      have called : calledIn (.unlinked te :: (fin ++ user)) = [] := by
        rcases shape with rfl | rfl <;> simp [calledIn_of_user isUser]
      have reached : reachedIn (.unlinked te :: (fin ++ user)) = [] := by
        rcases shape with rfl | rfl <;> simp [reachedIn_of_user isUser]
      have deleted : deletedIn (.unlinked te :: (fin ++ user)) = deletedIn user := by
        rcases shape with rfl | rfl <;> simp
      have created : createdIn (.unlinked te :: (fin ++ user)) = createdIn user := by
        rcases shape with rfl | rfl <;> simp
      refine Tally.extend none tally ids tick List.filter_sublist ?_ reached ?_ ?_ ?_
      · rw [deleted]
        exact fun x hx => mem_filter_or hx
      · rw [called]
        exact List.nil_sublist _
      · rw [reached]
        exact fun r hr => absurd hr List.not_mem_nil
      · rw [created]
        exact fun x hx => nextId.trans (fresh x hx)

end Tally

structure OnList (env : Env Int) (s : EventLoop) (xs : List (ℕ × TimeEvent)) (c : Pass)
    (todo : List (ℕ × TimeEvent)) (phase : ℕ) (seg : List (Event Int)) : Prop where
  stands : Stands c todo phase
  tally : Tally env s xs todo seg
  trace : c.loop.trace = s.trace ++ seg
  nextId : s.timeEventNextId ≤ c.loop.timeEventNextId
  tick : s.tick ≤ c.loop.tick
  lastTime : c.loop.lastTime = env.time s.tick
  files : c.loop.toFileTable = s.toFileTable

section Pass

variable {env : Env Int} {s t : EventLoop} {c c' : Pass} {xs todo : List (ℕ × TimeEvent)}
  {phase : ℕ} {seg : List (Event Int)}

theorem OnList.start (env : Env Int) (ok : Ok s xs) :
    ∃ ys, ys.map Prod.snd = pending env s xs ∧ Ok (skew env s) ys ∧
      OnList env s ys (passStart env s) ys 0 [] := by
  obtain ⟨ys, ok', found, trace, next, files⟩ := skew_ok env ok
  have stands : Stands (passStart env s) ys 0 := @Stands.here _ _ [] ok' ok'.repr.head
  refine ⟨ys, found, ok', stands, .start env s ys, ?_, next.ge, ?_, rfl, files⟩
  · simpa [passStart] using trace
  · exact Nat.le_succ _

theorem OnList.step (walk : OnList env s xs c todo phase seg)
    (ids : (xs.map fun x => x.2.id).Nodup) (low : ∀ x ∈ xs, x.2.id < s.timeEventNextId)
    (safe : SparesSelf env (s.timeEventNextId - 1) c ∧ SparesNext env c)
    (body : passStep env (s.timeEventNextId - 1) c = some c') :
    ∃ todo' phase' seg', OnList env s xs c' todo' phase' seg' ∧
      2 * todo'.length + phase' < 2 * todo.length + phase := by
  have old : ∀ x ∈ todo, x.2.id ≤ s.timeEventNextId - 1 := fun x hx =>
    Int.le_sub_one_of_lt (low x (walk.tally.nodes.subset hx))
  obtain ⟨todo', phase', new, stands, moved, fewer⟩ :=
    walk.stands.step old safe.1 safe.2 body
  refine ⟨todo', phase', seg ++ new, ⟨stands, ?_, ?_, walk.nextId.trans moved.nextId,
    walk.tick.trans moved.tick, moved.lastTime.trans walk.lastTime,
    moved.files.trans walk.files⟩, fewer⟩
  · exact walk.tally.step moved.wrote ids walk.tick walk.nextId
  · rw [moved.trace, walk.trace, List.append_assoc]

theorem pending_nodup {ys : List (ℕ × TimeEvent)} (ok : Ok (skew env s) ys)
    (found : ys.map Prod.snd = pending env s xs) (okS : Ok s xs) :
    (ys.map fun x => x.2.id).Nodup ∧ ∀ x ∈ ys, x.2.id < s.timeEventNextId := by
  refine ⟨ok.ids, fun x hx => pending_low env okS ?_⟩
  rw [← found]
  exact List.mem_map_of_mem hx

/-- The walk reads and writes allocated nodes only, if and only if no callback it runs deletes its
own timer and no finalizer it runs deletes the timer next in the list. -/
theorem walk_allocated_iff (env : Env Int) (ok : Ok s xs) :
    (∀ c, PassVisits env s c → c.loop.undef = false) ↔
      ∀ c, PassVisits env s c → SparesSelf env (s.timeEventNextId - 1) c ∧ SparesNext env c := by
  obtain ⟨ys, found, ok', start⟩ := OnList.start env ok
  obtain ⟨ids, low⟩ := pending_nodup ok' found ok
  have safe : (∀ c, PassVisits env s c → ¬ c.loop.undef = true) ↔ ∀ c, PassVisits env s c →
      SparesSelf env (s.timeEventNextId - 1) c ∧ SparesNext env c := WhileLoop.visits_safe_iff
    (fun c => ∃ todo phase seg, OnList env s ys c todo phase seg)
    (fun c => SparesSelf env (s.timeEventNextId - 1) c ∧ SparesNext env c)
    (fun c => c.loop.undef = true)
    (fun a b on spares body => by
      obtain ⟨todo, phase, seg, walk⟩ := on
      obtain ⟨todo', phase', seg', walk', -⟩ := walk.step ids low spares body
      exact ⟨todo', phase', seg', walk'⟩)
    (fun a on => by
      obtain ⟨todo, phase, seg, walk⟩ := on
      simp [walk.stands.undef])
    (fun a on harm => by
      obtain ⟨todo, phase, seg, walk⟩ := on
      exact walk.stands.unsafe harm)
    ⟨ys, 0, [], start⟩
  simpa only [Bool.not_eq_true] using safe

theorem Gentle.spares (gentle : Gentle env) (maxId : Int) (c : Pass) :
    SparesSelf env maxId c ∧ SparesNext env c :=
  ⟨fun _ _ _ _ _ _ _ => gentle.callbacks _ _, fun _ _ _ _ _ _ _ _ _ _ => gentle.finalizers _ _ _⟩

/-- A timer whose callback deletes another and ends, with a finalizer that creates one. -/
theorem walk_allocated_iff_editing :
    ∃ s xs, Ok s xs ∧ s.timeEventNextId = 3 ∧
      ∀ c, PassVisits editingEnv s c → c.loop.undef = false := by
  obtain ⟨xs, ok⟩ := run_ok editingEnv_gentle edited_run
  exact ⟨edited, xs, ok, by decide, (walk_allocated_iff editingEnv ok).mpr
    fun c _ => editingEnv_gentle.spares _ c⟩

def quittingEnv : Env Int :=
  { stillEnv Int with timeProc := fun _ te => ⟨[.delete te.id], 1000⟩ }

theorem walk_allocated_fails_quitting :
    ¬ ∀ (env : Env Int) (s : EventLoop) (xs : List (ℕ × TimeEvent)), Ok s xs →
      ∀ c, PassVisits env s c → c.loop.undef = false := by
  intro claim
  let s := runCall quittingEnv (fresh quittingEnv) (.create 0 3 4 none)
  have empty : Ok (fresh quittingEnv) [] := ⟨rfl, repr_empty, by simp, by simp, le_refl _⟩
  have ok := (empty.create quittingEnv 0 3 4 none).1
  have outcome : (WhileLoop.run (passStep quittingEnv (s.timeEventNextId - 1)) 3
      (passStart quittingEnv s)).map (fun c => c.loop.undef) = some true := by decide
  obtain ⟨c, run, broken⟩ := Option.map_eq_some_iff.mp outcome
  have fine := claim quittingEnv s _ ok c (WhileLoop.run_visits run)
  rw [fine] at broken
  cases broken

theorem safe_pass (env : Env Int) (ok : Ok s xs)
    (safe : ∀ d, PassVisits env s d →
      SparesSelf env (s.timeEventNextId - 1) d ∧ SparesNext env d) :
    ∃ fuel t n ys zs seg, processTimeEvents env fuel s = some (t, n) ∧
      ys.map Prod.snd = pending env s xs ∧ Tally env s ys [] seg ∧ t.trace = s.trace ++ seg ∧
      Ok t zs ∧ t.lastTime = env.time s.tick := by
  obtain ⟨ys, found, ok', start⟩ := OnList.start env ok
  obtain ⟨ids, low⟩ := pending_nodup ok' found ok
  obtain ⟨fuel, m, c, run, ⟨-, todo, phase, seg, walk, -⟩, exit⟩ := WhileLoop.run_ranked
    (fun m c => PassVisits env s c ∧ ∃ todo phase seg, OnList env s ys c todo phase seg ∧
      m = 2 * todo.length + phase) (by
        rintro m a b ⟨met, todo, phase, seg, walk, rfl⟩ body
        obtain ⟨todo', phase', seg', walk', fewer⟩ := walk.step ids low (safe a met) body
        exact ⟨_, fewer, met.tail body, todo', phase', seg', walk', rfl⟩)
    ⟨.refl, ys, 0, [], start, rfl⟩
  obtain ⟨rfl, zs, last⟩ := walk.stands.exit exit
  refine ⟨fuel, c.loop, c.processed, ys, zs, seg, ?_, found, walk.tally, walk.trace, last,
    walk.lastTime⟩
  rw [processTimeEvents, run, Option.map_some]

theorem returned_safe {fuel : ℕ} {n : Int} (ok : Ok s xs)
    (run : processTimeEvents env fuel s = some (t, n)) (fine : t.undef = false) :
    ∀ d, PassVisits env s d → SparesSelf env (s.timeEventNextId - 1) d ∧ SparesNext env d := by
  obtain ⟨c, walked, eq⟩ := Option.map_eq_some_iff.mp run
  obtain ⟨rfl, rfl⟩ := Prod.mk.inj eq
  refine (walk_allocated_iff env ok).mp fun d met => ?_
  by_contra broken
  have exit : passStep env (s.timeEventNextId - 1) d = none := by
    rw [passStep, if_pos (by simpa using broken)]
  obtain ⟨fuel', walked'⟩ := WhileLoop.run_of_visits met exit
  rw [WhileLoop.run_unique walked walked'] at fine
  exact broken fine

theorem runCall_defined {call : TimerCall Int} (fine : (runCall env s call).undef = false) :
    s.undef = false := by
  cases call with
  | create ms proc data fin =>
      simp only [runCall, aeCreateTimeEvent, log, store] at fine
      split at fine
      · exact fine
      · cases fine
  | delete id =>
      simp only [runCall, aeDeleteTimeEvent] at fine
      split at fine
      · cases fine
      · exact fine
      · simp only [log, store] at fine
        split at fine
        · exact fine
        · cases fine

theorem pass_defined {fuel : ℕ} {n : Int} (run : processTimeEvents env fuel s = some (t, n))
    (fine : t.undef = false) : s.undef = false := by
  by_contra broken
  have undef : (passStart env s).loop.undef = true := by
    simp only [passStart, skew, store]
    split_ifs
    · split
      · simpa using broken
      · rfl
    · simpa using broken
  have exit : passStep env (s.timeEventNextId - 1) (passStart env s) = none := by
    rw [passStep, if_pos undef]
  obtain ⟨c, walked, eq⟩ := Option.map_eq_some_iff.mp run
  obtain ⟨rfl, rfl⟩ := Prod.mk.inj eq
  have same := WhileLoop.run_unique walked (WhileLoop.run_exit 0 exit)
  rw [same, undef] at fine
  cases fine

/-- Whatever user code does, the nodes are a list of timers until freed memory is touched. -/
theorem run_ok_of_defined (run : Run env (fun _ _ => True) s) (fine : s.undef = false) :
    ∃ xs, Ok s xs := by
  revert fine
  refine WhileLoop.Reach.invariant (fun s => s.undef = false → ∃ xs, Ok s xs) ?_ ?_ run
  · rintro s ⟨mem, setsize, h⟩ -
    exact ⟨[], start_ok h⟩
  · intro s op t ih _ step fine
    cases step with
    | timer call =>
        obtain ⟨xs, ok⟩ := ih (runCall_defined fine)
        obtain ⟨new, seg, ran⟩ := runCalls_ran env [call] ok
        exact ⟨_, ran.ok⟩
    | file op =>
        obtain ⟨xs, ok⟩ := ih fine
        exact ⟨xs, ok.same rfl rfl rfl⟩
    | resize mem setsize =>
        obtain ⟨undef, timers, next⟩ := aeResizeSetSize_timers mem s setsize
        obtain ⟨xs, ok⟩ := ih (undef.symm.trans fine)
        exact ⟨xs, ok.same undef timers next⟩
    | pass h =>
        obtain ⟨xs, ok⟩ := ih (pass_defined h fine)
        obtain ⟨fuel, u, n, ys, zs, seg, hu, -, -, -, after, -⟩ :=
          safe_pass env ok (returned_safe ok h fine)
        rw [(Prod.mk.inj (processTimeEvents_unique h hu)).1]
        exact ⟨zs, after⟩

end Pass

end AeEventLoop.Ae
