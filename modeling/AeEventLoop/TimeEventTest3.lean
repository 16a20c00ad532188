import AeEventLoop.Ae3Survive
import AeEventLoop.TimeEventTest

/-! The timer test built on `ae3.cpp`, the target `time_event_3`. Its callback cannot name another
timer, so where the other builds delete the timer that `rand` chose, this one deletes the record it is
called with, which `ae3.cpp` does not survive. Either no callback gets that far, and the test does
what the others do, or the first that does ends all that can be said. -/

namespace AeEventLoop.TimeEventTest3

open Ae3 TimeEventMap TimeEventTest

/-- `evTimeProc_3`, but for the object it frees. -/
def evTimeProc_3 (rand : ℕ → ℕ) (g_iTimerNum : ℕ) (st : Statics) (te : TimeEvent) :
    Statics × Script TimeEvent :=
  if rand st.rands % 2 = 1 then
    let setDelId := insert te.id st.setDelId
    let iDelId : Int := (rand (st.rands + 1) % g_iTimerNum : ℕ)
    if iDelId ∈ setDelId then (⟨setDelId, st.rands + 2⟩, ⟨[], AE_NOMORE⟩)
    else (⟨insert iDelId setDelId, st.rands + 2⟩, ⟨[.delete te], AE_NOMORE⟩)
  else (⟨st.setDelId, st.rands + 1⟩, ⟨[], AE_NOMORE⟩)

def statics (rand : ℕ → ℕ) (g_iTimerNum : ℕ) (tr : List (Event TimeEvent)) : Statics :=
  (calledIn tr).foldl (fun st te => (evTimeProc_3 rand g_iTimerNum st te).1) ⟨∅, g_iTimerNum⟩

def freedIn (tr : List (Event TimeEvent)) : List ℕ :=
  ((calledIn tr).map TimeEvent.clientData).filter fun clientData => clientData ≠ 0

def EV_TIME_PROC_3 : ℕ := 1

variable (w : World) (g_iTimerNum : ℕ)

def env : Env TimeEvent where
  gettimeofday := w.gettimeofday
  time := w.time
  timeProc tr te := (evTimeProc_3 w.rand g_iTimerNum (statics w.rand g_iTimerNum tr) te).2
  finalizerProc _ _ := []

def addTimer (s : EventLoop) (i : ℕ) : EventLoop :=
  (aeCreateTimeEvent (env w g_iTimerNum) s (delay w i) EV_TIME_PROC_3 (w.newTimeVal i) none).2

structure Program where
  loop : EventLoop
  stop : Bool

/-- `beforeSleepProc`, by the size of the map. -/
def beforeSleepProc (s : Program) : Program :=
  if s.loop.maxfd < 0 then
    if s.loop.timeEventMap.elems.length = 0 then { s with stop := true } else s
  else s

def program : MainBackend Program where
  table s := s.loop.toFileTable
  setTable t s := { s with loop := { s.loop with toFileTable := t } }
  call _ s := s
  aeSearchNearestTimer s := aeSearchNearestTimer s.loop
  now s := aeGetTime (w.gettimeofday s.loop.tick)
  readClock s := { s with loop := { s.loop with tick := s.loop.tick + 1 } }
  aftersleep s := s
  processTimeEvents fuel s :=
    (processTimeEvents (env w g_iTimerNum) fuel s.loop).map fun r => ({ s with loop := r.1 }, r.2)
  stop := Program.stop
  setStop stop s := { s with stop := stop }
  beforesleep := some beforeSleepProc

def prepared (loop : EventLoop) : Program :=
  ⟨(List.range g_iTimerNum).foldl (addTimer w g_iTimerNum) loop, false⟩

/-- A callback has deleted its own record; that needs an odd number from `rand`. -/
structure Broken (s : EventLoop) : Prop where
  undef : s.undef = true
  deleted : deletedIn s.trace ≠ []
  odd : ∃ j, g_iTimerNum ≤ j ∧ w.rand j % 2 = 1

variable {w g_iTimerNum}

theorem statics_rands (tr : List (Event TimeEvent)) :
    g_iTimerNum ≤ (statics w.rand g_iTimerNum tr).rands := by
  have more : ∀ (calls : List TimeEvent) (st : Statics), st.rands ≤
      (calls.foldl (fun st te => (evTimeProc_3 w.rand g_iTimerNum st te).1) st).rands := by
    intro calls
    induction calls with
    | nil => exact fun st => le_refl _
    | cons te calls ih =>
        intro st
        refine le_trans ?_ (ih _)
        simp only [evTimeProc_3]
        split_ifs
        · exact Nat.le_add_right _ _
        · exact Nat.le_add_right _ _
        · exact Nat.le_add_right _ _
  exact more (calledIn tr) ⟨∅, g_iTimerNum⟩

theorem script_cases (c : Pass) (te : TimeEvent) :
    (script (env w g_iTimerNum) c te).retval = AE_NOMORE ∧
      ((script (env w g_iTimerNum) c te).calls = [] ∨
        (script (env w g_iTimerNum) c te).calls = [.delete te] ∧
          ∃ j, g_iTimerNum ≤ j ∧ w.rand j % 2 = 1) := by
  simp only [script, env, evTimeProc_3]
  split_ifs with odd known
  · exact ⟨rfl, .inl rfl⟩
  · exact ⟨rfl, .inr ⟨rfl, _, statics_rands c.loop.trace, odd⟩⟩
  · exact ⟨rfl, .inl rfl⟩

def Made (w : World) (n : ℕ) (te : TimeEvent) : Prop :=
  ∃ i < n, te.id = i ∧ te.clientData = w.newTimeVal i ∧ te.deadline = deadline w i

/-- The first `n` timers have been created, and each is in the map or was called. -/
structure Timed (w : World) (n : ℕ) (s : EventLoop) : Prop where
  sound : Sound s
  next : s.timeEventNextId = n
  account : ((timers s.timeEventMap ++ calledIn s.trace).map TimeEvent.id).Perm (Ae.idsBelow n)
  made : ∀ te ∈ timers s.timeEventMap ++ calledIn s.trace, Made w n te
  quiet : deletedIn s.trace = []
  maxfd : s.maxfd = -1
  kernel : ∀ fd, s.interest fd = none

/-- The walk of a pass in which all callbacks have only ended, so far. -/
structure Plain (env : Env TimeEvent) (s : EventLoop) (c : Pass) (seg : List (Event TimeEvent)) :
    Prop where
  walk : Walking env s c seg
  map : c.loop.timeEventMap = s.timeEventMap
  created : createdIn seg = []
  deleted : deletedIn seg = []
  rearmed : rearmedIn seg = []
  nextId : c.loop.timeEventNextId = s.timeEventNextId
  files : c.loop.toFileTable = s.toFileTable
  later : s.tick < c.loop.tick

section Pass

variable {n : ℕ} {s t : EventLoop} {c c' : Pass} {seg : List (Event TimeEvent)}

theorem Plain.start (sound : Sound s) : Plain (env w g_iTimerNum) s (passStart s) [] :=
  ⟨.start sound, rfl, rfl, rfl, rfl, rfl, rfl, Nat.lt_succ_self _⟩

theorem Plain.fire (plain : Plain (env w g_iTimerNum) s c seg) {k : Int} {te : TimeEvent}
    (cursor : c.cursor = .inner k (some te.id)) (here : te ∈ bucket c.loop.timeEventMap k) :
    (∃ seg', Plain (env w g_iTimerNum) s (fire (env w g_iTimerNum) c k te) seg' ∧
      rank (env w g_iTimerNum) s (fire (env w g_iTimerNum) c k te) <
        rank (env w g_iTimerNum) s c) ∨
      Broken w g_iTimerNum (fire (env w g_iTimerNum) c k te).loop := by
  obtain ⟨ends, calls | ⟨calls, odd⟩⟩ := @script_cases w g_iTimerNum c te
  · have only : ∀ k' id te', c.cursor = .inner k' (some id) →
        (bucket c.loop.timeEventMap k').find? id = some te' → te' = te := by
      intro k' id te' cursor' found
      rw [cursor] at cursor'
      injection cursor' with hk hid
      rw [← hk, ← Option.some.inj hid, KeyedSet.find?_eq_some.mpr ⟨here, rfl⟩] at found
      exact (Option.some.inj found).symm
    have spares : SparesRunning (env w g_iTimerNum) c := by
      intro k' id te' cursor' found d asked
      rw [only k' id te' cursor' found, calls] at asked
      cases asked
    have clear : LandsClear (env w g_iTimerNum) s c := by
      intro k' id te' cursor' found key hkey
      rw [createdKeys, only k' id te' cursor' found, calls] at hkey
      cases hkey
    obtain ⟨user, again, fired⟩ := plain.walk.fire_spared cursor here spares
    have idle : user = [] := by
      have ran := fired.ran
      rw [calls] at ran
      have trace : (log c.loop (.called te)).trace = (log c.loop (.called te)).trace ++ user :=
        ran.trace
      exact List.self_eq_append_right.mp trace
    obtain rfl := fired.last.mpr ends
    subst idle
    refine .inl ⟨_, ⟨plain.walk.fired cursor here fired, ?_, ?_, ?_, ?_, ?_, ?_, ?_⟩, ?_⟩
    · rw [fired.map, List.foldl_nil, plain.map]
    · simp [plain.created]
    · simp [plain.deleted]
    · simp [plain.rearmed]
    · simpa [plain.nextId] using fired.nextId
    · rw [fired.files, plain.files]
    · exact plain.later.trans_le fired.tick
    · exact plain.walk.fired_rank cursor here fired clear
  · have harm : ¬ SparesRunning (env w g_iTimerNum) c := by
      intro spares
      refine spares k te.id te cursor (KeyedSet.find?_eq_some.mpr ⟨here, rfl⟩) te ?_
        ⟨rfl, (plain.walk.map.mem_bucket_iff.mp here).2⟩
      rw [calls]
      exact List.mem_singleton_self _
    have asked : .delete te ∈ (script (env w g_iTimerNum) c te).calls := by
      rw [calls]
      exact List.mem_singleton_self _
    have logged : te ∈ deletedIn (Ae3.fire (env w g_iTimerNum) c k te).loop.trace := by
      rcases fire_cases (env w g_iTimerNum) c k te with ⟨user, ran, -, trace, -⟩ |
          ⟨user, again, fired⟩
      · rw [trace]
        simp [ran.deleted te asked]
      · rw [fired.trace]
        simp [fired.ran.deleted te asked]
    exact .inr ⟨plain.walk.fire_undef cursor here harm, List.ne_nil_of_mem logged, odd⟩

theorem Plain.step (plain : Plain (env w g_iTimerNum) s c seg)
    (body : passStep (env w g_iTimerNum) (lNow (env w g_iTimerNum) s) c = some c') :
    (∃ seg', Plain (env w g_iTimerNum) s c' seg' ∧
      rank (env w g_iTimerNum) s c' < rank (env w g_iTimerNum) s c) ∨
      Broken w g_iTimerNum c'.loop := by
  cases plain.walk.turn body with
  | enter cursor low =>
      exact .inl ⟨seg, { plain with walk := plain.walk.enter cursor low },
        plain.walk.enter_rank cursor low⟩
  | fire cursor here => exact plain.fire cursor here
  | leave cursor =>
      exact .inl ⟨seg, { plain with walk := plain.walk.leave cursor },
        plain.walk.leave_rank cursor⟩

theorem Plain.ended (plain : Plain (env w g_iTimerNum) s c seg) (sound : Sound s)
    {mit : Option Int} (cursor : c.cursor = .outer mit)
    (past : ∀ k, mit = some k → lNow (env w g_iTimerNum) s < k) :
    Sound (finish c).1 ∧
      (timers (finish c).1.timeEventMap ++ calledIn seg).Perm (timers s.timeEventMap) ∧
      ∀ te ∈ timers (finish c).1.timeEventMap, lNow (env w g_iTimerNum) s < timeKey te := by
  have walk := plain.walk
  obtain ⟨mapOk, mem⟩ := walk.finish_map cursor
  have alive : ∀ x, ¬ Erased seg x := by
    rintro x ⟨d, deleted, -⟩
    rw [plain.deleted] at deleted
    cases deleted
  have left : ∀ x, x ∈ timers (finish c).1.timeEventMap ↔
      x ∈ timers s.timeEventMap ∧ x ∉ calledIn seg := by
    intro x
    rw [mem x, plain.rearmed, plain.map]
    constructor
    · rintro (⟨stored, kept⟩ | none)
      · refine ⟨stored, fun called => ?_⟩
        rcases walk.calledKeys x called with done | inside
        · exact kept done
        · rw [cursor] at inside
          exact inside
      · cases none
    · rintro ⟨stored, uncalled⟩
      refine .inl ⟨stored, fun done => uncalled ?_⟩
      exact (walk.old x stored (plain.map ▸ stored)).resolve_right
        (Cursor.Past.not_ahead (walk.dels _ done))
  refine ⟨walk.finish_sound cursor, ?_, fun te hte => ?_⟩
  · have once : (calledIn seg).Nodup := walk.once.of_map
    have apart : (timers (finish c).1.timeEventMap).Disjoint (calledIn seg) :=
      fun x stays called => ((left x).mp stays).2 called
    refine (List.perm_ext_iff_of_nodup (mapOk.timers_nodup.append once apart)
      sound.map.timers_nodup).mpr fun x => ?_
    rw [List.mem_append, left x]
    constructor
    · rintro (⟨stored, -⟩ | called)
      · exact stored
      · rcases walk.calledSource x called with stored | new
        · exact stored
        · rw [plain.created] at new
          cases new
    · intro stored
      by_cases called : x ∈ calledIn seg
      · exact .inr called
      · exact .inl ⟨stored, called⟩
  · obtain ⟨stored, uncalled⟩ := (left te).mp hte
    by_contra early
    exact uncalled (walk.all_called cursor past stored (not_lt.mp early) (alive te))

/-- A pass returns, and unless a callback broke it all is in order, and nothing is left that was
due. -/
theorem Timed.pass (timed : Timed w n s) : ∃ fuel t m,
    processTimeEvents (env w g_iTimerNum) fuel s = some (t, m) ∧
      (Broken w g_iTimerNum t ∨ Timed w n t ∧ s.tick < t.tick ∧
        ((∀ i < n, long (millis (deadline w i)) ≤ lNow (env w g_iTimerNum) s) →
          t.timeEventMap.elems = [])) := by
  let I : ℕ → Pass → Prop := fun m c =>
    (∃ seg, Plain (env w g_iTimerNum) s c seg ∧ m = rank (env w g_iTimerNum) s c + 1) ∨
      Broken w g_iTimerNum c.loop ∧ m = 0
  obtain ⟨fuel, m, c, run, inv, exit⟩ := WhileLoop.run_ranked I
    (fun m c c' before body => by
      rcases before with ⟨seg, plain, rfl⟩ | ⟨broken, -⟩
      · rcases plain.step body with ⟨seg', plain', less⟩ | broken
        · exact ⟨_, Nat.succ_lt_succ less, .inl ⟨seg', plain', rfl⟩⟩
        · exact ⟨0, Nat.succ_pos _, .inr ⟨broken, rfl⟩⟩
      · rw [passStep, if_pos broken.undef] at body
        cases body)
    (.inl ⟨[], .start timed.sound, rfl⟩ : I _ (passStart s))
  refine ⟨fuel, (finish c).1, (finish c).2, by rw [processTimeEvents, run]; rfl, ?_⟩
  rcases inv with ⟨seg, plain, -⟩ | ⟨broken, -⟩
  · obtain ⟨mit, cursor, past⟩ := plain.walk.exit exit
    obtain ⟨sound, split, due⟩ := plain.ended timed.sound cursor past
    have trace := plain.walk.finish_trace
    have same : (finish c).1.toLoop = c.loop.toLoop := by simp [finish, plain.walk.undef]
    have moved : (timers (finish c).1.timeEventMap ++ calledIn (finish c).1.trace).Perm
        (timers s.timeEventMap ++ calledIn s.trace) := by
      rw [trace, calledIn_append]
      refine List.Perm.trans ?_ (split.append_right _)
      rw [List.append_assoc]
      exact List.Perm.append_left _ List.perm_append_comm
    refine .inr ⟨⟨sound, ?_, (moved.map _).trans timed.account, fun te hte => ?_, ?_, ?_, ?_⟩, ?_, ?_⟩
    · have next : (finish c).1.timeEventNextId = c.loop.timeEventNextId := by rw [same]
      rw [next, plain.nextId, timed.next]
    · exact timed.made te (moved.mem_iff.mp hte)
    · rw [trace, deletedIn_append, timed.quiet, plain.deleted]
      rfl
    · have files : (finish c).1.maxfd = c.loop.toFileTable.maxfd := by rw [same]
      rw [files, plain.files]
      exact timed.maxfd
    · intro fd
      have files : (finish c).1.interest = c.loop.toFileTable.interest := by rw [same]
      rw [files, plain.files]
      exact timed.kernel fd
    · have tick : (finish c).1.tick = c.loop.tick := by rw [same]
      rw [tick]
      exact plain.later
    · intro late
      by_contra some
      obtain ⟨p, hp⟩ := List.exists_mem_of_ne_nil _ some
      obtain ⟨te, hte⟩ := List.exists_mem_of_ne_nil _ (sound.map.nonempty p hp)
      have stored : te ∈ timers (finish c).1.timeEventMap := mem_timers.mpr ⟨p, hp, hte⟩
      obtain ⟨i, hi, -, -, deadline⟩ :=
        timed.made te (moved.mem_iff.mp (List.mem_append_left _ stored))
      have early := due te stored
      rw [timeKey, deadline] at early
      have := late i hi
      omega
  · refine .inl ?_
    rw [finish, if_pos broken.undef]
    exact broken

end Pass

section Main

variable {n : ℕ} {s : EventLoop} {poll : Program → Int → List (ℕ × Mask)}

theorem Timed.tick (timed : Timed w n s) (k : ℕ) : Timed w n { s with tick := k } where
  sound := ⟨timed.sound.undef, timed.sound.map, timed.sound.below⟩
  next := timed.next
  account := timed.account
  made := timed.made
  quiet := timed.quiet
  maxfd := timed.maxfd
  kernel := timed.kernel

theorem Timed.start {mem : Memory} {setsize : Int}
    (h : aeCreateEventLoop (env w g_iTimerNum) mem setsize = some s) :
    Timed w 0 s ∧ s.tick = 1 := by
  have sound : Sound s := run_sound (.start ⟨mem, setsize, h⟩) <| by
    obtain ⟨l, -, rfl⟩ := Option.map_eq_some_iff.mp h
    rfl
  obtain ⟨l, hl, rfl⟩ := Option.map_eq_some_iff.mp h
  obtain ⟨files, hf, rfl⟩ := Option.map_eq_some_iff.mp hl
  unfold FileTable.create at hf
  split_ifs at hf
  obtain rfl := Option.some.inj hf
  exact ⟨⟨sound, rfl, by simp [timers, Ae.idsBelow, KeyedSet.empty],
    by simp [timers, KeyedSet.empty], rfl, rfl, fun _ => rfl⟩, rfl⟩

theorem Timed.addTimer (timed : Timed w n s) (tick : s.tick = n + 1) :
    Timed w (n + 1) (addTimer w g_iTimerNum s n) ∧
      (addTimer w g_iTimerNum s n).tick = n + 1 + 1 := by
  let te := s.newTimeEvent (env w g_iTimerNum) (delay w n) EV_TIME_PROC_3 (w.newTimeVal n) none
  have id : te.id = n := timed.next
  have sound : Sound (TimeEventTest3.addTimer w g_iTimerNum s n) := timed.sound.timer _
    (.create (delay w n) EV_TIME_PROC_3 (w.newTimeVal n) none)
  have free : ∀ x ∈ timers s.timeEventMap, x.id ≠ te.id := by
    intro x hx same
    have := timed.sound.below x hx
    rw [same, id, timed.next] at this
    omega
  have grown : (timers (insertTimer s.timeEventMap te)).Perm (te :: timers s.timeEventMap) := by
    have new : te ∉ timers s.timeEventMap := fun there => free te there rfl
    refine (List.perm_ext_iff_of_nodup sound.map.timers_nodup
      (List.nodup_cons.mpr ⟨new, timed.sound.map.timers_nodup⟩)).mpr fun x => ?_
    rw [List.mem_cons]
    exact (mem_insertTimer free).trans or_comm
  have trace : calledIn (s.trace ++ [.created te]) = calledIn s.trace := by simp
  have moved : (timers (TimeEventTest3.addTimer w g_iTimerNum s n).timeEventMap ++
      calledIn (TimeEventTest3.addTimer w g_iTimerNum s n).trace).Perm
        (te :: (timers s.timeEventMap ++ calledIn s.trace)) := by
    change (timers (insertTimer s.timeEventMap te) ++
      calledIn (s.trace ++ [.created te])).Perm _
    rw [trace]
    exact grown.append_right _
  refine ⟨⟨sound, congrArg (· + 1) timed.next, ?_, fun x hx => ?_, ?_, timed.maxfd, timed.kernel⟩,
    congrArg (· + 1) tick⟩
  · refine (moved.map _).trans ?_
    have ids := Ae.idsBelow_succ (Int.natCast_nonneg n)
    push_cast at ids ⊢
    rw [ids, List.map_cons, id]
    exact (timed.account.cons _).trans (List.perm_append_singleton _ _).symm
  · rcases List.mem_cons.mp (moved.mem_iff.mp hx) with rfl | old
    · refine ⟨n, n.lt_succ_self, id, rfl, ?_⟩
      simp only [te, Loop.newTimeEvent, TimeEvent.deadline, tick, deadline, env]
    · obtain ⟨i, hi, rest⟩ := timed.made x old
      exact ⟨i, hi.trans n.lt_succ_self, rest⟩
  · change deletedIn (s.trace ++ [.created te]) = []
    simpa using timed.quiet

theorem prepared_timed {mem : Memory} {setsize : Int} {loop : EventLoop}
    (h : aeCreateEventLoop (env w g_iTimerNum) mem setsize = some loop) :
    Timed w g_iTimerNum (prepared w g_iTimerNum loop).loop := by
  have upTo : ∀ n, Timed w n ((List.range n).foldl (TimeEventTest3.addTimer w g_iTimerNum) loop) ∧
      ((List.range n).foldl (TimeEventTest3.addTimer w g_iTimerNum) loop).tick = n + 1 := by
    intro n
    induction n with
    | zero => exact Timed.start h
    | succ n ih =>
        rw [List.range_succ, List.foldl_append]
        exact ih.1.addTimer ih.2
  exact (upTo g_iTimerNum).1

def Faithful (poll : Program → Int → List (ℕ × Mask)) : Prop :=
  ∀ s timeout, ∀ r ∈ poll s timeout, s.loop.interest r.1 ≠ none

theorem Timed.hooked_pending {loop : EventLoop} (timed : Timed w n loop)
    (pending : loop.timeEventMap.elems ≠ []) (stop : Bool) :
    (program w g_iTimerNum).hooked ⟨loop, stop⟩ = ⟨loop, stop⟩ := by
  change beforeSleepProc _ = _
  rw [beforeSleepProc, if_pos (by rw [timed.maxfd]; decide),
    if_neg (mt List.eq_nil_of_length_eq_zero pending)]

theorem program_drains (faithful : Faithful poll) {k : ℕ} {start : Program}
    (whole : ∀ s, (program w g_iTimerNum).Iterates poll start s → ¬ Broken w g_iTimerNum s.loop)
    (clock : ∀ j, k ≤ j → ∀ i < n,
      long (millis (deadline w i)) ≤ long (millis (aeGetTime (w.gettimeofday j)))) :
    (program w g_iTimerNum).Drains poll
      (fun s => Timed w n s.loop ∧
        (s.loop.timeEventMap.elems = [] ∨ (program w g_iTimerNum).Iterates poll start s))
      (fun s => s.loop.timeEventMap.elems = []) (fun s => s.loop.tick) k where
  stops s inv empty := by
    have hooked : (program w g_iTimerNum).hooked s = { s with stop := true } := by
      change beforeSleepProc s = _
      rw [beforeSleepProc, if_pos (by rw [inv.1.maxfd]; decide), if_pos (by rw [empty]; rfl)]
    rw [hooked]
    exact ⟨rfl, ⟨inv.1, .inl empty⟩, empty⟩
  waits s inv pending := inv.1.hooked_pending pending s.stop
  iterates s inv pending runs := by
    obtain ⟨loop, stop⟩ := s
    obtain rfl : stop = false := runs
    obtain ⟨timed, empty | iterated⟩ := inv
    · exact absurd empty pending
    dsimp only at timed pending
    let b := program w g_iTimerNum
    let flags := AE_ALL_EVENTS ||| AE_CALL_AFTER_SLEEP
    obtain ⟨j, later, asleep⟩ : ∃ j, loop.tick ≤ j ∧
        b.sleep flags ⟨loop, false⟩ = ⟨{ loop with tick := j }, false⟩ := by
      unfold Backend.sleep
      split
      · exact ⟨loop.tick + 1, Nat.le_succ _, rfl⟩
      · exact ⟨loop.tick, le_refl _, rfl⟩
    have silent : poll ⟨{ loop with tick := j }, false⟩ (b.timeout flags ⟨loop, false⟩) = [] :=
      List.eq_nil_iff_forall_not_mem.mpr fun r hr => faithful _ _ r hr (timed.kernel r.1)
    obtain ⟨fuel, t, m, pass, fate⟩ := @Timed.pass w g_iTimerNum n _ (timed.tick j)
    have ran : b.aeProcessEvents poll fuel flags ⟨loop, false⟩ = some (⟨t, false⟩, 0 + m) := by
      rw [Backend.aeProcessEvents_silent fuel asleep silent]
      change Option.map _ (Option.map _
        (Ae3.processTimeEvents _ fuel { loop with tick := j })) = _
      rw [pass]
      rfl
    have waits : b.hooked ⟨loop, false⟩ = ⟨loop, false⟩ := timed.hooked_pending pending false
    have iterated' : b.Iterates poll start ⟨t, false⟩ := by
      refine iterated.tail ⟨rfl, fuel, ?_⟩
      rw [MainBackend.turn, waits, if_neg (by simp [program]), ran]
      rfl
    rcases fate with broken | ⟨timed', tick, none⟩
    · exact absurd broken (whole _ iterated')
    · refine ⟨fuel, ⟨t, false⟩, 0 + m, ran, ⟨timed', .inr iterated'⟩, rfl, later.trans_lt tick, ?_⟩
      exact fun late => none fun i hi => clock j (late.trans later) i hi

end Main

/-- Either a callback of the test deletes the record it is called with, which takes an odd number
from `rand` and leaves an iterator dangling, or the test returns once the clock has passed all
deadlines: the map is empty, every timer was called once, and every object was freed once. -/
theorem aeMain_map_accounts {w : World} {g_iTimerNum : ℕ} {mem : Memory} {loop : EventLoop}
    (created : aeCreateEventLoop (env w g_iTimerNum) mem 1024 = some loop)
    {poll : Program → Int → List (ℕ × Mask)} (faithful : Faithful poll) {k : ℕ}
    (clock : ∀ j, k ≤ j → ∀ i < g_iTimerNum,
      long (millis (deadline w i)) ≤ long (millis (aeGetTime (w.gettimeofday j)))) :
    (∃ s, (program w g_iTimerNum).Iterates poll (prepared w g_iTimerNum loop) s ∧
      Broken w g_iTimerNum s.loop) ∨
    ∃ fuel t, (program w g_iTimerNum).aeMain poll fuel (prepared w g_iTimerNum loop) = some t ∧
      t.loop.undef = false ∧ deletedIn t.loop.trace = [] ∧ t.loop.timeEventMap.elems = [] ∧
      ((calledIn t.loop.trace).map TimeEvent.id).Perm (Ae.idsBelow g_iTimerNum) ∧
      (freedIn t.loop.trace).Nodup ∧ ∀ i < g_iTimerNum, w.newTimeVal i ∈ freedIn t.loop.trace := by
  refine or_iff_not_imp_left.mpr fun whole => ?_
  have drains := @program_drains w g_iTimerNum g_iTimerNum poll faithful k
    (prepared w g_iTimerNum loop) (fun s met broken => whole ⟨s, met, broken⟩) clock
  obtain ⟨fuel, t, run, ⟨done, -⟩, empty⟩ := drains.returns (s := prepared w g_iTimerNum loop)
    (fun i j s r more pass => by
      obtain ⟨q, run, rfl⟩ := Option.map_eq_some_iff.mp pass
      obtain ⟨c, walk, rfl⟩ := Option.map_eq_some_iff.mp run
      simp only [program, Ae3.processTimeEvents, WhileLoop.run_mono more walk, Option.map_some])
    ⟨prepared_timed created, .inr .refl⟩ rfl
  have none : timers t.loop.timeEventMap = [] := by rw [timers, empty, List.flatMap_nil]
  have account := done.account
  have made := done.made
  rw [none, List.nil_append] at account made
  have split : ((calledIn t.loop.trace).map TimeEvent.id ++ []).Perm (Ae.idsBelow g_iTimerNum) := by
    rwa [List.append_nil]
  obtain ⟨once, freed⟩ := freed_exact (w := w) split fun te hte => by
    obtain ⟨i, -, id, data, -⟩ := made te hte
    exact ⟨i, id, data⟩
  exact ⟨fuel, t, run, done.sound.undef, done.quiet, empty, account, once,
    fun i hi => (freed i hi).mpr List.not_mem_nil⟩

/-- Even numbers, and a clock that stands after ten readings. -/
def evenWorld : World where
  rand _ := 0
  gettimeofday k := Timeval.ofMillis (1000 + 20 * min k 10)
  time _ := 1
  newTimeVal := ⟨fun i => i + 1, Nat.succ_injective⟩
  notNull := Nat.succ_ne_zero

theorem evenWorld_clock (j : ℕ) (late : 4 ≤ j) (i : ℕ) (hi : i < 3) :
    long (millis (deadline evenWorld i)) ≤ long (millis (aeGetTime (evenWorld.gettimeofday j))) := by
  have reading (k : ℕ) : millis (aeGetTime (evenWorld.gettimeofday k)) = 1000 + 20 * min k 10 := by
    rw [millis_aeGetTime]
    simp only [evenWorld, Timeval.micros, Timeval.ofMillis]
    omega
  have wait : delay evenWorld i = 1 := rfl
  rw [deadline, millis_aeAddMillisecondsToNow, reading, reading, wait,
    long_of_fits ⟨by omega, by omega⟩, long_of_fits ⟨by omega, by omega⟩]
  omega

theorem aeMain_map_accounts_even : ∃ loop,
    aeCreateEventLoop (env evenWorld 3) zeroedMemory 1024 = some loop ∧
    ∃ fuel t, (program evenWorld 3).aeMain (fun _ _ => []) fuel (prepared evenWorld 3 loop) =
      some t ∧ ((calledIn t.loop.trace).map TimeEvent.id).Perm [0, 1, 2] := by
  obtain ⟨loop, created⟩ : ∃ loop,
      aeCreateEventLoop (env evenWorld 3) zeroedMemory 1024 = some loop := ⟨_, rfl⟩
  rcases aeMain_map_accounts created (fun _ _ r hr => absurd hr List.not_mem_nil :
    Faithful fun _ _ => []) evenWorld_clock with ⟨s, -, broken⟩ | ⟨fuel, t, run, -, -, -, all, -⟩
  · obtain ⟨j, -, odd⟩ := broken.odd
    exact absurd odd (by simp [evenWorld])
  · exact ⟨loop, created, fuel, t, run, all⟩

end AeEventLoop.TimeEventTest3
