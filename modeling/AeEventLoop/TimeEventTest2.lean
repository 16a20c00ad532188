import AeEventLoop.Ae2Steps
import AeEventLoop.TimeEventTest

/-! The timer test built on `ae2.cpp`, the target `time_event_2`. A deletion only marks an id, and
answers `AE_OK` for a timer that has been called already as well; the marked timer stays in the heap
until it comes to the top, where a pass discards it. So a timer ends by being called or by being
discarded. -/

namespace AeEventLoop.TimeEventTest2

open PriorityQueue Ae2 TimeEventTest

variable {Q : Type} [PriorityQueue Q TimeEvent Earlier]

structure Program (Q : Type) where
  loop : EventLoop Q
  stop : Bool

def addTimer (w : World) (g_iTimerNum : ℕ) (s : EventLoop Q) (i : ℕ) : EventLoop Q :=
  (aeCreateTimeEvent (env w g_iTimerNum) s (delay w i) EV_TIME_PROC (w.newTimeVal i) none).2

/-- `beforeSleepProc`, by the size of the heap. -/
def beforeSleepProc (s : Program Q) : Program Q :=
  if s.loop.maxfd < 0 then
    if (elems s.loop.timeMinHead).card = 0 then { s with stop := true } else s
  else s

def program (w : World) (g_iTimerNum : ℕ) : MainBackend (Program Q) where
  table s := s.loop.toFileTable
  setTable t s := { s with loop := { s.loop with toFileTable := t } }
  call _ s := s
  aeSearchNearestTimer s := aeSearchNearestTimer s.loop
  now s := aeGetTime (w.gettimeofday s.loop.tick)
  readClock s := { s with loop := { s.loop with tick := s.loop.tick + 1 } }
  aftersleep s := s
  processTimeEvents fuel s :=
    (processTimeEvents (env w g_iTimerNum) fuel s.loop).map fun r => ({ s with loop := r.1 }, r.2)
  stop := Program.stop
  setStop stop s := { s with stop := stop }
  beforesleep := some beforeSleepProc

def prepared (w : World) (g_iTimerNum : ℕ) (loop : EventLoop Q) : Program Q :=
  ⟨(List.range g_iTimerNum).foldl (addTimer w g_iTimerNum) loop, false⟩

def Made (w : World) (n : ℕ) (te : TimeEvent) : Prop :=
  ∃ i < n, te.id = i ∧ te.clientData = w.newTimeVal i ∧ te.finalizerProc = none ∧
    te.deadline = deadline w i

def overIn (tr : List (Event Int)) : List Int :=
  (calledIn tr).map TimeEvent.id ++ (discardedIn tr).map TimeEvent.id

/-- The first `n` timers have been created, and each is in the heap or over. -/
structure Timed (w : World) (n : ℕ) (s : EventLoop Q) : Prop where
  next : s.timeEventNextId = n
  account : (elems s.timeMinHead).map TimeEvent.id + (overIn s.trace : Multiset Int) =
    (Ae.idsBelow n : Multiset Int)
  listed : ∀ te ∈ elems s.timeMinHead, Made w n te
  called : ∀ te ∈ calledIn s.trace, Made w n te
  marked : s.setDelTimeId = (deletedIn s.trace).toFinset
  discarded : ∀ te ∈ discardedIn s.trace, te.id ∈ deletedIn s.trace
  maxfd : s.maxfd = -1
  kernel : ∀ fd, s.interest fd = none

section Timed

variable {w : World} {g_iTimerNum n : ℕ} {s t : EventLoop Q} {now : Int × Int} {te : TimeEvent}

theorem Made.mono {m : ℕ} (made : Made w n te) (more : n ≤ m) : Made w m te := by
  obtain ⟨i, hi, rest⟩ := made
  exact ⟨i, hi.trans_le more, rest⟩

theorem Timed.tick (timed : Timed w n s) (k : ℕ) : Timed w n { s with tick := k } where
  next := timed.next
  account := timed.account
  listed := timed.listed
  called := timed.called
  marked := timed.marked
  discarded := timed.discarded
  maxfd := timed.maxfd
  kernel := timed.kernel

theorem Timed.start {mem : Memory} {setsize : Int}
    (h : aeCreateEventLoop (env w g_iTimerNum) mem setsize = some s) :
    Timed w 0 s ∧ s.tick = 1 := by
  obtain ⟨l, hl, rfl⟩ := Option.map_eq_some_iff.mp h
  obtain ⟨files, hf, rfl⟩ := Option.map_eq_some_iff.mp hl
  unfold FileTable.create at hf
  split_ifs at hf
  obtain rfl := Option.some.inj hf
  exact ⟨⟨rfl, by simp [overIn, Ae.idsBelow], by simp, by simp, by simp, by simp, rfl,
    fun _ => rfl⟩, rfl⟩

theorem Timed.addTimer (timed : Timed w n s) (tick : s.tick = n + 1) :
    Timed w (n + 1) (addTimer w g_iTimerNum s n) ∧
      (addTimer w g_iTimerNum s n).tick = n + 1 + 1 := by
  let te := s.newTimeEvent (env w g_iTimerNum) (delay w n) EV_TIME_PROC (w.newTimeVal n) none
  have made : Made w (n + 1) te := by
    refine ⟨n, n.lt_succ_self, timed.next, rfl, rfl, ?_⟩
    simp only [te, Loop.newTimeEvent, TimeEvent.deadline, tick, deadline, env]
  refine ⟨⟨congrArg (· + 1) timed.next, ?_, fun x hx => ?_, fun x hx => ?_, ?_, fun x hx => ?_,
    timed.maxfd, timed.kernel⟩, congrArg (· + 1) tick⟩
  · change (elems (push s.timeMinHead te)).map TimeEvent.id +
      (overIn (s.trace ++ [.created te]) : Multiset Int) = _
    have id : te.id = n := timed.next
    have same : overIn (s.trace ++ [.created te]) = overIn s.trace := by simp [overIn]
    rw [elems_push, Multiset.map_cons, Multiset.cons_add, same, timed.account, id]
    have grown := Ae.idsBelow_succ (Int.natCast_nonneg n)
    push_cast at grown ⊢
    rw [grown, ← Multiset.coe_add, Multiset.add_comm]
    rfl
  · change x ∈ elems (push s.timeMinHead te) at hx
    rw [elems_push] at hx
    rcases Multiset.mem_cons.mp hx with rfl | old
    · exact made
    · exact (timed.listed x old).mono n.le_succ
  · change x ∈ calledIn (s.trace ++ [.created te]) at hx
    exact (timed.called x (by simpa using hx)).mono n.le_succ
  · change s.setDelTimeId = (deletedIn (s.trace ++ [.created te])).toFinset
    simpa using timed.marked
  · change x ∈ discardedIn (s.trace ++ [.created te]) at hx
    change x.id ∈ deletedIn (s.trace ++ [.created te])
    simpa using timed.discarded x (by simpa using hx)

theorem prepared_timed {mem : Memory} {setsize : Int} {loop : EventLoop Q}
    (h : aeCreateEventLoop (env w g_iTimerNum) mem setsize = some loop) :
    Timed w g_iTimerNum (prepared w g_iTimerNum loop).loop := by
  have upTo : ∀ n, Timed w n ((List.range n).foldl (addTimer w g_iTimerNum) loop) ∧
      ((List.range n).foldl (addTimer w g_iTimerNum) loop).tick = n + 1 := by
    intro n
    induction n with
    | zero => exact Timed.start h
    | succ n ih =>
        rw [List.range_succ, List.foldl_append]
        exact ih.1.addTimer ih.2
  exact (upTo g_iTimerNum).1

theorem Timed.popped (timed : Timed w n s) {e : Env Int} {calls : List (TimerCall Int)}
    {front user back : List (Event Int)} (turn : Turn e calls te s t front user back te [])
    (none : createdIn user = []) (deleted : deletedIn (front ++ user ++ back) = deletedIn user)
    (fate : (calledIn (front ++ user ++ back) = [te] ∧ discardedIn (front ++ user ++ back) = []) ∨
      (calledIn (front ++ user ++ back) = [] ∧ discardedIn (front ++ user ++ back) = [te] ∧
        te.id ∈ s.setDelTimeId)) :
    Timed w n t ∧ (elems t.timeMinHead).card < (elems s.timeMinHead).card ∧ s.tick ≤ t.tick := by
  have shrunk : te ::ₘ elems t.timeMinHead = elems s.timeMinHead := by
    simpa [none] using turn.account
  have stored : te ∈ elems s.timeMinHead := top_mem turn.top
  refine ⟨⟨?_, ?_, fun x hx => ?_, fun x hx => ?_, ?_, fun x hx => ?_, ?_, fun fd => ?_⟩, ?_,
    turn.tick⟩
  · rw [turn.nextId, none, timed.next]
    simp
  · have gone : (overIn t.trace : Multiset Int) = te.id ::ₘ (overIn s.trace : Multiset Int) := by
      rw [overIn, overIn, turn.trace, calledIn_append, discardedIn_append]
      refine Multiset.coe_eq_coe.mpr ?_
      rcases fate with ⟨called, discarded⟩ | ⟨called, discarded, -⟩ <;>
        rw [called, discarded, List.perm_iff_count] <;> intro i <;>
        simp only [List.map_append, List.map_cons, List.map_nil, List.count_append, List.count_cons,
          List.count_nil] <;> omega
    rw [gone, Multiset.add_cons, ← Multiset.cons_add, ← Multiset.map_cons, shrunk, timed.account]
  · refine timed.listed x ?_
    rw [← shrunk]
    exact Multiset.mem_cons_of_mem hx
  · rw [turn.trace, calledIn_append] at hx
    rcases List.mem_append.mp hx with before | now
    · exact timed.called x before
    · rcases fate with ⟨called, -⟩ | ⟨called, -⟩
      · rw [called] at now
        rw [List.mem_singleton.mp now]
        exact timed.listed te stored
      · rw [called] at now
        cases now
  · rw [turn.dels, turn.trace, deletedIn_append, deleted, List.toFinset_append, timed.marked]
  · rw [turn.trace, discardedIn_append] at hx
    rw [turn.trace, deletedIn_append]
    refine List.mem_append_left _ ?_
    rcases List.mem_append.mp hx with before | now
    · exact timed.discarded x before
    · rcases fate with ⟨-, discarded⟩ | ⟨-, discarded, marked⟩
      · rw [discarded] at now
        cases now
      · rw [discarded] at now
        rw [List.mem_singleton.mp now]
        rw [timed.marked] at marked
        exact List.mem_toFinset.mp marked
  · rw [turn.files]
    exact timed.maxfd
  · rw [turn.files]
    exact timed.kernel fd
  · rw [← shrunk, Multiset.card_cons]
    exact Nat.lt_succ_self _

theorem Timed.step (timed : Timed w n s) {m m' : Int}
    (h : passStep (env w g_iTimerNum) now (s, m) = some (t, m')) :
    Timed w n t ∧ (elems t.timeMinHead).card < (elems s.timeMinHead).card ∧ s.tick ≤ t.tick := by
  have creates {calls : List (TimerCall Int)} {te gone : TimeEvent} {again : List TimeEvent}
      {front user back : List (Event Int)} {t : EventLoop Q}
      (turn : Turn (env w g_iTimerNum) calls te s t front user back gone again)
      (deletes : ∀ call ∈ calls, ∃ id, call = .delete id) : createdIn user = [] := by
    refine List.eq_nil_iff_forall_not_mem.mpr fun x hx => ?_
    obtain ⟨ms, proc, data, fin, asked, -⟩ := turn.origin x hx
    obtain ⟨id, same⟩ := deletes _ asked
    cases same
  obtain ⟨te, top, ⟨marked, -, rfl⟩ | ⟨-, -, -, rfl⟩⟩ := passStep_cases h
  · obtain ⟨i, -, -, -, fin, -⟩ := timed.listed te (top_mem top)
    obtain ⟨calls, front, user, gone, turn, rfl, rfl⟩ := discard_turn (env w g_iTimerNum) now top
    have none := creates turn (by simp [fin])
    obtain rfl := turn.gone_eq_iff.mpr (by simp [none])
    refine timed.popped turn none (by simp [fin]) (.inr ⟨?_, ?_, marked⟩)
    · simp [fin, calledIn_of_user turn.isUser]
    · simp [fin, discardedIn_of_user turn.isUser]
  · obtain ⟨user, back, gone, again, turn, rfl, last, -⟩ := fire_turn (env w g_iTimerNum) now top
    obtain rfl := last.mpr (env_deleting.returns _ _)
    have none := creates turn (env_deleting.calls _ _)
    obtain rfl := turn.gone_eq_iff.mpr (by simp [none])
    refine timed.popped turn none (by simp) (.inl ⟨?_, ?_⟩)
    · simp [calledIn_of_user turn.isUser]
    · simp [discardedIn_of_user turn.isUser]

theorem Timed.pass (timed : Timed w n s) : ∃ fuel t m,
    processTimeEvents (env w g_iTimerNum) fuel s = some (t, m) ∧ Timed w n t ∧ s.tick < t.tick ∧
      ((∀ i < n, Due (deadline w i) (snapshot (env w g_iTimerNum) s)) →
        (elems t.timeMinHead).card = 0) := by
  let I : ℕ → EventLoop Q × Int → Prop := fun k c =>
    Timed w n c.1 ∧ s.tick < c.1.tick ∧ (elems c.1.timeMinHead).card = k
  obtain ⟨fuel, k, ⟨t, m⟩, run, ⟨after, later, -⟩, exit⟩ := WhileLoop.run_ranked I
    (fun k c c' before body => by
      obtain ⟨c, m⟩ := c
      obtain ⟨c', m'⟩ := c'
      obtain ⟨timed', later, card⟩ := before
      obtain ⟨after, fewer, tick⟩ := timed'.step body
      exact ⟨_, card ▸ fewer, after, later.trans_le tick, rfl⟩)
    (⟨timed.tick (s.tick + 1), Nat.lt_succ_self _, rfl⟩ :
      I _ ({ s with tick := s.tick + 1 }, 0))
  refine ⟨fuel, t, m, run, after, later, fun due => ?_⟩
  rcases passStep_exit exit with empty | ⟨te, top, -, early⟩
  · rw [empty]
    rfl
  · obtain ⟨i, hi, -, -, -, same⟩ := after.listed te (top_mem top)
    rw [same] at early
    exact absurd (due i hi) early

end Timed

section Main

variable {w : World} {g_iTimerNum n : ℕ} {poll : Program Q → Int → List (ℕ × Mask)}

def Faithful (poll : Program Q → Int → List (ℕ × Mask)) : Prop :=
  ∀ s timeout, ∀ r ∈ poll s timeout, s.loop.interest r.1 ≠ none

theorem program_drains (faithful : Faithful poll) {k : ℕ}
    (clock : ∀ j, k ≤ j → ∀ i < n, Due (deadline w i) (aeGetTime (w.gettimeofday j))) :
    (program w g_iTimerNum).Drains poll (fun s => Timed w n s.loop)
      (fun s => (elems s.loop.timeMinHead).card = 0) (fun s => s.loop.tick) k where
  stops s timed empty := by
    have hooked : (program w g_iTimerNum).hooked s = { s with stop := true } := by
      change beforeSleepProc s = _
      rw [beforeSleepProc, if_pos (by rw [timed.maxfd]; decide), if_pos empty]
    rw [hooked]
    exact ⟨rfl, timed, empty⟩
  waits s timed pending := by
    change beforeSleepProc s = _
    rw [beforeSleepProc, if_pos (by rw [timed.maxfd]; decide), if_neg pending]
  iterates s timed _ runs := by
    obtain ⟨loop, stop⟩ := s
    obtain rfl : stop = false := runs
    dsimp only at timed
    let b : MainBackend (Program Q) := program w g_iTimerNum
    let flags := AE_ALL_EVENTS ||| AE_CALL_AFTER_SLEEP
    obtain ⟨j, later, asleep⟩ : ∃ j, loop.tick ≤ j ∧
        b.sleep flags ⟨loop, false⟩ = ⟨{ loop with tick := j }, false⟩ := by
      unfold Backend.sleep
      split
      · exact ⟨loop.tick + 1, Nat.le_succ _, rfl⟩
      · exact ⟨loop.tick, le_refl _, rfl⟩
    have silent : poll ⟨{ loop with tick := j }, false⟩ (b.timeout flags ⟨loop, false⟩) = [] :=
      List.eq_nil_iff_forall_not_mem.mpr fun r hr => faithful _ _ r hr (timed.kernel r.1)
    obtain ⟨fuel, t, m, pass, timed', tick, none⟩ :=
      @Timed.pass Q _ w g_iTimerNum n _ (timed.tick j)
    refine ⟨fuel, ⟨t, false⟩, 0 + m, ?_, timed', rfl, ?_, fun late => ?_⟩
    · rw [Backend.aeProcessEvents_silent fuel asleep silent]
      change Option.map _ (Option.map _
        (Ae2.processTimeEvents _ fuel { loop with tick := j })) = _
      rw [pass]
      rfl
    · exact later.trans_lt tick
    · exact none fun i hi => clock j (late.trans later) i hi

end Main

/-- The test returns once the clock has passed all deadlines. Every timer was called once or
discarded once and never both, only deleted ones were discarded, and the objects freed are those of
the timers called, each freed once. -/
theorem aeMain_heap_accounts {w : World} {g_iTimerNum : ℕ} {mem : Memory} {loop : EventLoop Q}
    (created : aeCreateEventLoop (env w g_iTimerNum) mem 1024 = some loop)
    {poll : Program Q → Int → List (ℕ × Mask)} (faithful : Faithful poll) {k : ℕ}
    (clock : ∀ j, k ≤ j → ∀ i < g_iTimerNum,
      Due (deadline w i) (aeGetTime (w.gettimeofday j))) :
    ∃ fuel t, (program w g_iTimerNum).aeMain poll fuel (prepared w g_iTimerNum loop) = some t ∧
      elems t.loop.timeMinHead = 0 ∧
      (overIn t.loop.trace).Perm (Ae.idsBelow g_iTimerNum) ∧
      (∀ te ∈ discardedIn t.loop.trace, te.id ∈ deletedIn t.loop.trace) ∧
      (freedIn t.loop.trace).Nodup ∧
      ∀ i < g_iTimerNum, w.newTimeVal i ∈ freedIn t.loop.trace ↔
        (i : Int) ∉ (discardedIn t.loop.trace).map TimeEvent.id := by
  have drains := @program_drains Q _ w g_iTimerNum g_iTimerNum poll faithful k clock
  obtain ⟨fuel, t, run, done, empty⟩ := drains.returns (s := prepared w g_iTimerNum loop)
    (fun i j s r more pass => by
      obtain ⟨q, run, rfl⟩ := Option.map_eq_some_iff.mp pass
      simp only [program, Ae2.processTimeEvents, WhileLoop.run_mono more run, Option.map_some])
    (prepared_timed created) rfl
  have split : (overIn t.loop.trace).Perm (Ae.idsBelow g_iTimerNum) := by
    have account := done.account
    rw [Multiset.card_eq_zero.mp empty, Multiset.map_zero, Multiset.zero_add] at account
    exact Multiset.coe_eq_coe.mp account
  obtain ⟨once, freed⟩ := freed_exact (w := w) split fun te hte => by
    obtain ⟨i, -, id, data, -⟩ := done.called te hte
    exact ⟨i, id, data⟩
  exact ⟨fuel, t, run, Multiset.card_eq_zero.mp empty, split, done.discarded, once, freed⟩

theorem aeMain_heap_accounts_steady : ∃ loop : EventLoop (SortedQueue TimeEvent Earlier),
    aeCreateEventLoop (env steadyWorld 3) zeroedMemory 1024 = some loop ∧
    ∃ fuel t, (program steadyWorld 3).aeMain (fun _ _ => []) fuel (prepared steadyWorld 3 loop) =
      some t ∧ (overIn t.loop.trace).Perm [0, 1, 2] := by
  obtain ⟨loop, created⟩ : ∃ loop : EventLoop (SortedQueue TimeEvent Earlier),
      aeCreateEventLoop (env steadyWorld 3) zeroedMemory 1024 = some loop := ⟨_, rfl⟩
  obtain ⟨fuel, t, run, -, split, -⟩ := aeMain_heap_accounts created
    (fun _ _ r hr => absurd hr List.not_mem_nil : Faithful fun _ _ => [])
    fun j late => (steadyWorld_clock j late).2
  exact ⟨loop, created, fuel, t, run, split⟩

end AeEventLoop.TimeEventTest2
