import AeEventLoop.ProcessEvents
import AeEventLoop.AeSafe
import AeEventLoop.Ae3Walk
import AeEventLoop.Ae2
import Mathlib.Order.Bounds.Basic
import Mathlib.Data.Finset.Max

/-! How long the three event loops sleep. The wait for the nearest timer is a `long`, goes through
a `timeval`, and is narrowed to the `int` that `epoll_wait` takes; a wait of `2^31` milliseconds
comes out negative there, and one of `2^32` comes out zero. User code is arbitrary, up to undefined
behaviour. -/

namespace AeEventLoop

/-- `ae.c` behind `aeProcessEvents`, with any file handlers and any hook. -/
def Ae.backend (env : Env Int) (call : FileCall → Ae.EventLoop → Ae.EventLoop)
    (aftersleep : Ae.EventLoop → Ae.EventLoop) : Backend Ae.EventLoop where
  table s := s.toFileTable
  setTable t s := { s with toFileTable := t }
  call := call
  aeSearchNearestTimer := Ae.aeSearchNearestTimer
  now s := aeGetTime (env.gettimeofday s.tick)
  readClock s := { s with tick := s.tick + 1 }
  aftersleep := aftersleep
  processTimeEvents := Ae.processTimeEvents env

def Ae2.backend {Q : Type} [PriorityQueue Q TimeEvent Ae2.Earlier] (env : Env Int)
    (call : FileCall → Ae2.EventLoop Q → Ae2.EventLoop Q)
    (aftersleep : Ae2.EventLoop Q → Ae2.EventLoop Q) : Backend (Ae2.EventLoop Q) where
  table s := s.toFileTable
  setTable t s := { s with toFileTable := t }
  call := call
  aeSearchNearestTimer := Ae2.aeSearchNearestTimer
  now s := aeGetTime (env.gettimeofday s.tick)
  readClock s := { s with tick := s.tick + 1 }
  aftersleep := aftersleep
  processTimeEvents := Ae2.processTimeEvents env

def Ae3.backend (env : Env TimeEvent) (call : FileCall → Ae3.EventLoop → Ae3.EventLoop)
    (aftersleep : Ae3.EventLoop → Ae3.EventLoop) : Backend Ae3.EventLoop where
  table s := s.toFileTable
  setTable t s := { s with toFileTable := t }
  call := call
  aeSearchNearestTimer := Ae3.aeSearchNearestTimer
  now s := aeGetTime (env.gettimeofday s.tick)
  readClock s := { s with tick := s.tick + 1 }
  aftersleep := aftersleep
  processTimeEvents := Ae3.processTimeEvents env

def EarliestDeadline (stored : Multiset TimeEvent) (D : Int) : Prop :=
  IsLeast {x | ∃ te ∈ stored, millis te.deadline = x} D

/-- Milliseconds of the deadline of a timer that none precedes in the order of the store. -/
def FirstDeadline (before : TimeEvent → TimeEvent → Prop) (stored : Multiset TimeEvent) (E : Int) :
    Prop :=
  ∃ te ∈ stored, (∀ x ∈ stored, ¬ before x te) ∧ millis te.deadline = E

/-- The sleep is endless exactly when there is no timer, and it never runs past the earliest
deadline. -/
structure NeverOversleeps (timeout : Int) (stored : Multiset TimeEvent) (now : Int) : Prop where
  forever : timeout < 0 ↔ stored = 0
  past : ∀ D, EarliestDeadline stored D → D ≤ now → timeout = 0
  ahead : ∀ D, EarliestDeadline stored D → now < D → 1 ≤ timeout ∧ timeout ≤ D - now

/-- What is left of the wait for `E` in 32 bits suits the earliest deadline `D`. -/
def WaitFits (E D now : Int) : Prop :=
  E ≤ now ∨ D ≤ now ∧ (E - now) % 2 ^ 32 = 0 ∨
    now < D ∧ 1 ≤ (E - now) % 2 ^ 32 ∧ (E - now) % 2 ^ 32 < 2 ^ 31 ∧ (E - now) % 2 ^ 32 ≤ D - now

section Timeout

variable {ms E D now : Int} {stored : Multiset TimeEvent} {nearest : Option TimeEvent}
  {before : TimeEvent → TimeEvent → Prop}

theorem int_of_low (h : ms % 2 ^ 32 < 2 ^ 31) : int ms = ms % 2 ^ 32 := by
  rw [int, Int.bmod_def]
  exact if_pos (by norm_num at h ⊢; omega)

theorem int_of_high (h : 2 ^ 31 ≤ ms % 2 ^ 32) : int ms = ms % 2 ^ 32 - 2 ^ 32 := by
  rw [int, Int.bmod_def]
  exact if_neg (by norm_num at h ⊢; omega)

theorem waitTimeval_millis (ms : Int) :
    (waitTimeval ms).1 * 1000 + (waitTimeval ms).2.tdiv 1000 = if 0 < ms then ms else 0 := by
  have parts := Int.mul_tdiv_add_tmod ms 1000
  have whole : (ms.tmod 1000 * 1000).tdiv 1000 = ms.tmod 1000 :=
    Int.mul_tdiv_cancel _ (by decide)
  unfold waitTimeval
  split_ifs <;> simp only [Int.zero_tdiv] <;> omega

/-- The way through the `timeval` loses nothing but the sign. -/
theorem epollTimeout_wait (fits : FitsLong ms) :
    epollTimeout (some (waitTimeval ms)) = if 0 < ms then int ms else 0 := by
  have exact' : FitsLong (if 0 < ms then ms else 0) := by
    obtain ⟨low, high⟩ := fits
    constructor <;> split_ifs <;> omega
  rw [epollTimeout, waitTimeval_millis, long_of_fits exact']
  split_ifs
  · rfl
  · rfl

theorem int_nonneg_iff (ms : Int) : 0 ≤ int ms ↔ ms % 2 ^ 32 < 2 ^ 31 := by
  rcases lt_or_ge (ms % 2 ^ 32) (2 ^ 31) with low | high
  · rw [int_of_low low]
    omega
  · rw [int_of_high high]
    omega

theorem exists_earliestDeadline {te : TimeEvent} (mem : te ∈ stored) :
    ∃ D, EarliestDeadline stored D := by
  obtain ⟨x, hx, least⟩ := Finset.exists_min_image stored.toFinset
    (fun x => millis x.deadline) ⟨te, Multiset.mem_toFinset.mpr mem⟩
  refine ⟨millis x.deadline, ⟨x, Multiset.mem_toFinset.mp hx, rfl⟩, ?_⟩
  rintro _ ⟨y, hy, rfl⟩
  exact least y (Multiset.mem_toFinset.mpr hy)

/-- The timer a store calls nearest: one that no stored timer precedes. -/
structure Finds (before : TimeEvent → TimeEvent → Prop) (stored : Multiset TimeEvent)
    (nearest : Option TimeEvent) : Prop where
  nothing : nearest = none → stored = 0
  first : ∀ te, nearest = some te → te ∈ stored ∧ ∀ x ∈ stored, ¬ before x te

/-- The law of the sleep for one store, whose first and earliest deadlines are `E` and `D`. -/
theorem neverOversleeps_iff_waitFits (earliest : EarliestDeadline stored D) (le : D ≤ E) :
    NeverOversleeps (if 0 < E - now then int (E - now) else 0) stored now ↔ WaitFits E D now := by
  obtain ⟨te, mem, -⟩ := earliest.1
  have some : stored ≠ 0 := fun none => by simp [none] at mem
  have narrow := int_nonneg_iff (E - now)
  have low := @int_of_low (E - now)
  constructor
  · rintro ⟨forever, past, ahead⟩
    have awake : ¬ (if 0 < E - now then int (E - now) else 0) < 0 := fun h => some (forever.mp h)
    have past := past D earliest
    have ahead := ahead D earliest
    unfold WaitFits
    split_ifs at awake past ahead with wait
    · omega
    · omega
  · intro fits
    unfold WaitFits at fits
    refine ⟨⟨fun h => ?_, fun none => absurd none some⟩, fun D' earliest' => ?_,
      fun D' earliest' => ?_⟩
    · split_ifs at h <;> omega
    · rw [earliest'.unique earliest]
      split_ifs <;> omega
    · rw [earliest'.unique earliest]
      split_ifs <;> omega

end Timeout

namespace Backend

variable {σ : Type} (b : Backend σ) {s : σ} {flags : Mask}

theorem timeout_none (waits : flags &&& AE_DONT_WAIT = 0)
    (nearest : b.aeSearchNearestTimer s = none) : b.timeout flags s = -1 := by
  simp [timeout, tvp, shortest, waits, nearest, epollTimeout]

theorem waitMillis_eq {te : TimeEvent} {now : Int × Int}
    (fits : FitsLong (millis te.deadline - millis now)) :
    waitMillis te now = millis te.deadline - millis now := by
  have exact' : (te.when_sec - now.1) * 1000 + te.when_ms - now.2 =
      millis te.deadline - millis now := by
    simp only [millis, TimeEvent.deadline]
    omega
  rw [waitMillis, exact', long_of_fits fits]

theorem timeout_nearest (timed : flags &&& AE_TIME_EVENTS ≠ 0) (waits : flags &&& AE_DONT_WAIT = 0)
    {te : TimeEvent} (nearest : b.aeSearchNearestTimer s = some te)
    (fits : FitsLong (millis te.deadline - millis (b.now s))) :
    b.timeout flags s =
      if 0 < millis te.deadline - millis (b.now s) then int (millis te.deadline - millis (b.now s))
      else 0 := by
  have shortest : b.shortest flags s = some te := by
    rw [Backend.shortest, if_pos ⟨timed, waits⟩, nearest]
  simp only [timeout, tvp, shortest, waitMillis_eq fits, epollTimeout_wait fits]

theorem neverOversleeps_iff (timed : flags &&& AE_TIME_EVENTS ≠ 0)
    (waits : flags &&& AE_DONT_WAIT = 0) {before : TimeEvent → TimeEvent → Prop}
    {stored : Multiset TimeEvent} (finds : Finds before stored (b.aeSearchNearestTimer s))
    (tied : ∀ x y, ¬ before x y → ¬ before y x → millis x.deadline = millis y.deadline)
    (fits : ∀ te ∈ stored, FitsLong (millis te.deadline - millis (b.now s))) :
    NeverOversleeps (b.timeout flags s) stored (millis (b.now s)) ↔
      ∀ E D, FirstDeadline before stored E → EarliestDeadline stored D →
        WaitFits E D (millis (b.now s)) := by
  cases nearest : b.aeSearchNearestTimer s with
  | none =>
      have none := finds.nothing nearest
      rw [b.timeout_none waits nearest, none]
      constructor
      · rintro - E D ⟨te, mem, -⟩
        exact absurd mem (Multiset.notMem_zero te)
      · rintro -
        refine ⟨by simp, ?_, ?_⟩
        · rintro D ⟨⟨te, mem, -⟩, -⟩
          exact absurd mem (Multiset.notMem_zero te)
        · rintro D ⟨⟨te, mem, -⟩, -⟩
          exact absurd mem (Multiset.notMem_zero te)
  | some te =>
      obtain ⟨mem, first⟩ := finds.first te nearest
      obtain ⟨D, earliest⟩ := exists_earliestDeadline mem
      have le : D ≤ millis te.deadline := earliest.2 ⟨te, mem, rfl⟩
      rw [b.timeout_nearest timed waits nearest (fits te mem),
        neverOversleeps_iff_waitFits earliest le]
      constructor
      · rintro wait _ D' ⟨x, hx, first', rfl⟩ earliest'
        rw [earliest'.unique earliest, tied x te (first x hx) (first' te mem)]
        exact wait
      · intro all
        exact all _ D ⟨te, mem, first, rfl⟩ earliest

end Backend

theorem Ae.foldl_pickNearest (n : TimeEvent) (tes : List TimeEvent) :
    ∃ te, tes.foldl Ae.pickNearest (some n) = some te ∧ te ∈ n :: tes ∧
      ∀ x ∈ n :: tes, ¬ Ae.Nearer x te := by
  induction tes generalizing n with
  | nil =>
      refine ⟨n, rfl, List.mem_singleton_self n, fun x hx => ?_⟩
      rw [List.mem_singleton.mp hx, Ae.Nearer]
      omega
  | cons y tes ih =>
      by_cases nearer : Ae.Nearer y n
      · obtain ⟨te, found, mem, first⟩ := ih y
        refine ⟨te, ?_, List.mem_cons_of_mem n mem, fun x hx => ?_⟩
        · rw [List.foldl_cons, Ae.pickNearest, if_pos nearer, found]
        · rcases List.mem_cons.mp hx with rfl | later
          · have := first y List.mem_cons_self
            unfold Ae.Nearer at *
            omega
          · exact first x later
      · obtain ⟨te, found, mem, first⟩ := ih n
        refine ⟨te, ?_, ?_, fun x hx => ?_⟩
        · rw [List.foldl_cons, Ae.pickNearest, if_neg nearer, found]
        · rcases List.mem_cons.mp mem with rfl | later
          · exact List.mem_cons_self
          · exact List.mem_cons_of_mem n (List.mem_cons_of_mem y later)
        · have := first n List.mem_cons_self
          rcases List.mem_cons.mp hx with rfl | later
          · exact this
          · rcases List.mem_cons.mp later with rfl | later
            · unfold Ae.Nearer at *
              omega
            · exact first x (List.mem_cons_of_mem n later)

theorem Ae.aeSearchNearestTimer_finds (s : Ae.EventLoop) :
    Finds Ae.Nearer s.timeEvents.contents (Ae.aeSearchNearestTimer s) := by
  rw [Ae.aeSearchNearestTimer]
  cases s.timeEvents.contents with
  | nil => exact ⟨fun _ => rfl, fun te found => by cases found⟩
  | cons n tes =>
      obtain ⟨te, found, mem, first⟩ := Ae.foldl_pickNearest n tes
      rw [List.foldl_cons, Ae.pickNearest, found]
      refine ⟨fun absent => (by cases absent), fun x same => ?_⟩
      obtain rfl := Option.some.inj same
      exact ⟨Multiset.mem_coe.mpr mem, fun y hy => first y (Multiset.mem_coe.mp hy)⟩

theorem Ae.nearer_tied (x y : TimeEvent) (hx : ¬ Ae.Nearer x y) (hy : ¬ Ae.Nearer y x) :
    millis x.deadline = millis y.deadline := by
  simp only [Ae.Nearer, millis, TimeEvent.deadline] at *
  omega

theorem Ae2.earlier_tied (x y : TimeEvent) (hx : ¬ Ae2.Earlier x y) (hy : ¬ Ae2.Earlier y x) :
    millis x.deadline = millis y.deadline := by
  rw [Ae2.earlier_iff] at hx hy
  exact Ae.nearer_tied x y hx hy

theorem Ae2.aeSearchNearestTimer_finds {Q : Type} [PriorityQueue Q TimeEvent Ae2.Earlier]
    (s : Ae2.EventLoop Q) :
    Finds Ae2.Earlier (PriorityQueue.elems s.timeMinHead)
      (Ae2.aeSearchNearestTimer s) :=
  ⟨fun absent => (PriorityQueue.top_eq_none _).mp absent,
    fun _ found => ⟨PriorityQueue.top_mem found, PriorityQueue.top_first found⟩⟩

theorem Ae3.aeSearchNearestTimer_finds {s : Ae3.EventLoop} (ok : Ae3.MapOk s.timeEventMap)
    (fits : ∀ te ∈ Ae3.TimeEventMap.timers s.timeEventMap, FitsLong (millis te.deadline)) :
    Finds (fun x y => millis x.deadline < millis y.deadline)
      (Ae3.TimeEventMap.timers s.timeEventMap) (Ae3.aeSearchNearestTimer s) := by
  have head := Ae3.aeSearchNearestTimer_eq s ok
  refine ⟨fun absent => ?_, fun te nearest => ?_⟩
  · rw [head, List.head?_eq_none_iff] at absent
    rw [absent, Multiset.coe_nil]
  · have mem := List.mem_of_head? (head.symm.trans nearest)
    refine ⟨Multiset.mem_coe.mpr mem, fun x hx => ?_⟩
    have order := Ae3.aeSearchNearestTimer_least ok nearest (Multiset.mem_coe.mp hx)
    rw [Ae3.timeKey, Ae3.timeKey, long_of_fits (fits te mem),
      long_of_fits (fits x (Multiset.mem_coe.mp hx))] at order
    exact not_lt.mpr order

theorem FirstDeadline.eq_earliest {stored : Multiset TimeEvent} {E D : Int}
    (first : FirstDeadline (fun x y => millis x.deadline < millis y.deadline) stored E)
    (earliest : EarliestDeadline stored D) : E = D := by
  obtain ⟨te, mem, least, rfl⟩ := first
  obtain ⟨⟨x, hx, rfl⟩, below⟩ := earliest
  exact le_antisymm (not_lt.mp (least x hx)) (below ⟨te, mem, rfl⟩)

/-- No event loop oversleeps a timer exactly when the wait, cut down to 32 bits, suits the earliest
deadline `D`: nothing is left to wait for, or the low 32 bits are a positive `int`. `ae.c` and
`ae2.cpp` wait for the deadline `E` that their order puts first, which is another than `D` only
where a callback has returned a negative number. -/
theorem timeout_neverOversleeps_iff {flags : Mask} (timed : flags &&& AE_TIME_EVENTS ≠ 0)
    (waits : flags &&& AE_DONT_WAIT = 0) {Q : Type} [PriorityQueue Q TimeEvent Ae2.Earlier] :
    (∀ (env : Env Int) (call : FileCall → Ae.EventLoop → Ae.EventLoop)
        (hook : Ae.EventLoop → Ae.EventLoop) (s : Ae.EventLoop),
      let now := millis (aeGetTime (env.gettimeofday s.tick))
      let stored : Multiset TimeEvent := s.timeEvents.contents
      (∀ te ∈ stored, FitsLong (millis te.deadline - now)) →
      (NeverOversleeps ((Ae.backend env call hook).timeout flags s) stored now ↔
        ∀ E D, FirstDeadline Ae.Nearer stored E → EarliestDeadline stored D → WaitFits E D now)) ∧
    (∀ (env : Env Int) (call : FileCall → Ae2.EventLoop Q → Ae2.EventLoop Q)
        (hook : Ae2.EventLoop Q → Ae2.EventLoop Q) (s : Ae2.EventLoop Q),
      let now := millis (aeGetTime (env.gettimeofday s.tick))
      let stored : Multiset TimeEvent := PriorityQueue.elems s.timeMinHead
      (∀ te ∈ stored, FitsLong (millis te.deadline - now)) →
      (NeverOversleeps ((Ae2.backend env call hook).timeout flags s) stored now ↔
        ∀ E D, FirstDeadline Ae2.Earlier stored E → EarliestDeadline stored D →
          WaitFits E D now)) ∧
    ∀ (env : Env TimeEvent) (call : FileCall → Ae3.EventLoop → Ae3.EventLoop)
        (hook : Ae3.EventLoop → Ae3.EventLoop) (s : Ae3.EventLoop),
      let now := millis (aeGetTime (env.gettimeofday s.tick))
      let stored : Multiset TimeEvent := Ae3.TimeEventMap.timers s.timeEventMap
      Ae3.Run env (fun _ _ => True) s → s.undef = false →
      (∀ te ∈ stored, FitsLong (millis te.deadline) ∧ FitsLong (millis te.deadline - now)) →
      (NeverOversleeps ((Ae3.backend env call hook).timeout flags s) stored now ↔
        ∀ D, EarliestDeadline stored D → WaitFits D D now) := by
  refine ⟨?_, ?_, ?_⟩
  · intro env call hook s now stored fits
    exact (Ae.backend env call hook).neverOversleeps_iff timed waits
      (Ae.aeSearchNearestTimer_finds s) Ae.nearer_tied fits
  · intro env call hook s now stored fits
    exact (Ae2.backend env call hook).neverOversleeps_iff timed waits
      (Ae2.aeSearchNearestTimer_finds s) Ae2.earlier_tied fits
  · intro env call hook s now stored run fine fits
    have finds := Ae3.aeSearchNearestTimer_finds (Ae3.run_sound run fine).map
      fun te mem => (fits te (Multiset.mem_coe.mpr mem)).1
    refine ((Ae3.backend env call hook).neverOversleeps_iff timed waits finds
      (fun x y hx hy => le_antisymm (not_lt.mp hy) (not_lt.mp hx))
      fun te mem => (fits te mem).2).trans ?_
    constructor
    · rintro all D earliest
      obtain ⟨te, mem, same⟩ := earliest.1
      refine all D D ⟨te, mem, fun x hx => ?_, same⟩ earliest
      have least := earliest.2 ⟨x, hx, rfl⟩
      rw [← same] at least
      exact not_lt.mpr least
    · intro all E D first earliest
      rw [first.eq_earliest earliest]
      exact all D earliest

section Runs

/-- One timer in each of the three stores, from a clock at five seconds. -/
def Ae.oneTimer (ms : Int) : Ae.EventLoop :=
  (Ae.aeCreateTimeEvent (stillEnv Int) (Ae.fresh (stillEnv Int)) ms 3 4 none).2

def Ae2.oneTimer (ms : Int) : Ae2.EventLoop (SortedQueue TimeEvent Ae2.Earlier) :=
  (Ae2.aeCreateTimeEvent (stillEnv Int) (Ae2.fresh (stillEnv Int)) ms 3 4 none).2

def Ae3.oneTimer (ms : Int) : Ae3.EventLoop :=
  (Ae3.aeCreateTimeEvent (stillEnv TimeEvent) (Ae3.fresh (stillEnv TimeEvent)) ms 3 4 none).2

theorem Ae.oneTimer_run (ms : Int) : Ae.Run (stillEnv Int) (fun _ _ => True) (Ae.oneTimer ms) :=
  .move (Ae.fresh_run _ _) trivial (.timer _ (.create ms 3 4 none))

theorem Ae2.oneTimer_run (ms : Int) : Ae2.Run (stillEnv Int) (fun _ _ => True) (Ae2.oneTimer ms) :=
  .move (Ae2.fresh_run _ _) trivial (.timer _ (.create ms 3 4 none))

theorem Ae3.oneTimer_run (ms : Int) :
    Ae3.Run (stillEnv TimeEvent) (fun _ _ => True) (Ae3.oneTimer ms) :=
  .move (Ae3.fresh_run _ _) trivial (.timer _ (.create ms 3 4 none))

def onlyTimer (ms : Int) : TimeEvent :=
  (Loop.fresh (stillEnv Int)).newTimeEvent (stillEnv Int) ms 3 4 none

theorem onlyTimer_millis (ms : Int) : millis (onlyTimer ms).deadline = 5000 + ms :=
  millis_aeAddMillisecondsToNow _ ms

theorem earliestDeadline_single {te : TimeEvent} {D : Int} (h : EarliestDeadline {te} D) :
    D = millis te.deadline := by
  obtain ⟨⟨x, mem, same⟩, -⟩ := h
  rw [← same, Multiset.mem_singleton.mp mem]

theorem firstDeadline_single {before : TimeEvent → TimeEvent → Prop} {te : TimeEvent} {E : Int}
    (h : FirstDeadline before {te} E) : E = millis te.deadline := by
  obtain ⟨x, mem, -, same⟩ := h
  rw [← same, Multiset.mem_singleton.mp mem]

theorem fits_single (ms : Int) {P : Int → Prop} (h : P (5000 + ms)) :
    ∀ te ∈ ({onlyTimer ms} : Multiset TimeEvent), P (millis te.deadline) := by
  intro te mem
  rw [Multiset.mem_singleton.mp mem, onlyTimer_millis]
  exact h

/-- A timer one second ahead, with handlers and hook that do nothing. -/
theorem timeout_neverOversleeps_iff_second :
    NeverOversleeps ((Ae.backend (stillEnv Int) (fun _ s => s) id).timeout AE_ALL_EVENTS
        (Ae.oneTimer 1000)) {onlyTimer 1000} 5000 ∧
      NeverOversleeps ((Ae2.backend (stillEnv Int) (fun _ s => s) id).timeout AE_ALL_EVENTS
        (Ae2.oneTimer 1000)) {onlyTimer 1000} 5000 ∧
      NeverOversleeps ((Ae3.backend (stillEnv TimeEvent) (fun _ s => s) id).timeout AE_ALL_EVENTS
        (Ae3.oneTimer 1000)) {onlyTimer 1000} 5000 := by
  obtain ⟨one, two, three⟩ := @timeout_neverOversleeps_iff AE_ALL_EVENTS (by decide) (by decide)
    (SortedQueue TimeEvent Ae2.Earlier) _
  have wait : WaitFits (millis (onlyTimer 1000).deadline) (millis (onlyTimer 1000).deadline) 5000 := by
    rw [onlyTimer_millis]
    unfold WaitFits
    omega
  have fits := fits_single 1000 (P := fun x => FitsLong (x - 5000)) (by decide)
  have both := fits_single 1000 (P := fun x => FitsLong x ∧ FitsLong (x - 5000)) (by decide)
  refine ⟨(one (stillEnv Int) _ _ (Ae.oneTimer 1000) fits).mpr ?_,
    (two (stillEnv Int) _ _ (Ae2.oneTimer 1000) fits).mpr ?_,
    (three (stillEnv TimeEvent) _ _ (Ae3.oneTimer 1000) (Ae3.oneTimer_run 1000) rfl both).mpr ?_⟩
  · intro E D first earliest
    rw [firstDeadline_single first, earliestDeadline_single earliest]
    exact wait
  · intro E D first earliest
    rw [firstDeadline_single first, earliestDeadline_single earliest]
    exact wait
  · intro D earliest
    rw [earliestDeadline_single earliest]
    exact wait

def SleepsRight {σ : Type} (b : Backend σ) (s : σ) (stored : Multiset TimeEvent) : Prop :=
  (∀ te ∈ stored, FitsLong (millis te.deadline) ∧
      FitsLong (millis te.deadline - millis (b.now s))) →
    NeverOversleeps (b.timeout AE_ALL_EVENTS s) stored (millis (b.now s))

/-- A timer `2^31` milliseconds ahead makes each of the event loops sleep forever. -/
theorem timeout_oversleeps_far :
    (¬ ∀ (env : Env Int) (s : Ae.EventLoop), Ae.Run env (fun _ _ => True) s →
      SleepsRight (Ae.backend env (fun _ s => s) id) s s.timeEvents.contents) ∧
    (¬ ∀ (env : Env Int) (s : Ae2.EventLoop (SortedQueue TimeEvent Ae2.Earlier)),
      Ae2.Run env (fun _ _ => True) s →
      SleepsRight (Ae2.backend env (fun _ s => s) id) s (PriorityQueue.elems s.timeMinHead)) ∧
    ¬ ∀ (env : Env TimeEvent) (s : Ae3.EventLoop), Ae3.Run env (fun _ _ => True) s →
      SleepsRight (Ae3.backend env (fun _ s => s) id) s
        (Ae3.TimeEventMap.timers s.timeEventMap) := by
  have kept : ({onlyTimer (2 ^ 31)} : Multiset TimeEvent) ≠ 0 := Multiset.singleton_ne_zero _
  have fits := fits_single (2 ^ 31) (P := fun x => FitsLong x ∧ FitsLong (x - 5000)) (by decide)
  refine ⟨fun claim => ?_, fun claim => ?_, fun claim => ?_⟩
  · exact kept ((claim _ _ (Ae.oneTimer_run (2 ^ 31)) fits).forever.mp (by decide))
  · exact kept ((claim _ _ (Ae2.oneTimer_run (2 ^ 31)) fits).forever.mp (by decide))
  · exact kept ((claim _ _ (Ae3.oneTimer_run (2 ^ 31)) fits).forever.mp (by decide))

end Runs

end AeEventLoop
