import AeEventLoop.Ae
import AeEventLoop.Ae2
import AeEventLoop.Ae3

/-! Deadlines of timers created with any delay a `long long` can hold. `ae.c` and `ae2.cpp` compare
pairs of seconds and milliseconds, which are exact throughout. `ae3.cpp` flattens the pair to one
`long`, which wraps when clock and delay together reach `2^63` milliseconds. -/

namespace AeEventLoop

/-- Readings of a clock within some thirty thousand years of its origin. -/
def InEra (tv : Timeval) : Prop := -2 ^ 40 < tv.tv_sec ∧ tv.tv_sec < 2 ^ 40

/-- `aeAddMillisecondsToNow` in 64-bit arithmetic, every sum a `long`. -/
def aeAddMillisecondsToNowLong (tv : Timeval) (milliseconds : Int) : Int × Int :=
  let cur := aeGetTime tv
  let when_sec := long (cur.1 + milliseconds.tdiv 1000)
  let when_ms := long (cur.2 + milliseconds.tmod 1000)
  if when_ms ≥ 1000 then (long (when_sec + 1), long (when_ms - 1000)) else (when_sec, when_ms)

def exactDeadline (tv : Timeval) (d : Int) : Int := millis (aeGetTime tv) + d

section Arithmetic

variable {tv r : Timeval} {d : Int}

theorem aeAddMillisecondsToNowLong_eq (era : InEra tv) (low : 0 ≤ d) (high : d < 2 ^ 63) :
    aeAddMillisecondsToNowLong tv d = aeAddMillisecondsToNow tv d := by
  obtain ⟨left, right⟩ := era
  obtain ⟨ms, ms'⟩ := aeGetTime_normal tv
  have sec : (aeGetTime tv).1 = tv.tv_sec := rfl
  have quotient := Int.tdiv_eq_ediv_of_nonneg (b := 1000) low
  have remainder := Int.tmod_eq_emod_of_nonneg (b := 1000) low
  have whole : long ((aeGetTime tv).1 + d.tdiv 1000) = (aeGetTime tv).1 + d.tdiv 1000 :=
    long_of_fits ⟨by omega, by omega⟩
  have part : long ((aeGetTime tv).2 + d.tmod 1000) = (aeGetTime tv).2 + d.tmod 1000 :=
    long_of_fits ⟨by omega, by omega⟩
  have carry : long ((aeGetTime tv).1 + d.tdiv 1000 + 1) = (aeGetTime tv).1 + d.tdiv 1000 + 1 :=
    long_of_fits ⟨by omega, by omega⟩
  have rest : long ((aeGetTime tv).2 + d.tmod 1000 - 1000) =
      (aeGetTime tv).2 + d.tmod 1000 - 1000 := long_of_fits ⟨by omega, by omega⟩
  simp only [aeAddMillisecondsToNowLong, aeAddMillisecondsToNow, whole, part, carry, rest]

theorem millis_inEra (era : InEra r) :
    -2 ^ 51 < millis (aeGetTime r) ∧ millis (aeGetTime r) < 2 ^ 51 := by
  obtain ⟨left, right⟩ := era
  obtain ⟨ms, ms'⟩ := aeGetTime_normal r
  have sec : (aeGetTime r).1 = r.tv_sec := rfl
  simp only [millis]
  omega

theorem long_millis_inEra (era : InEra r) :
    long (millis (aeGetTime r)) = millis (aeGetTime r) := by
  obtain ⟨left, right⟩ := millis_inEra era
  exact long_of_fits ⟨by omega, by omega⟩

theorem long_of_overflow {x : Int} (low : 2 ^ 63 ≤ x) (high : x < 2 ^ 64) : long x = x - 2 ^ 64 := by
  have moved := Int.sub_bmod_right x (2 ^ 64)
  rw [Nat.cast_pow, Nat.cast_ofNat] at moved
  rw [long, ← moved]
  exact long_of_fits ⟨by omega, by omega⟩

end Arithmetic

def pairDue (te : TimeEvent) (r : Timeval) : Prop := Due te.deadline (aeGetTime r)

/-- The due test of `ae3.cpp` at a reading: `mit->first <= lNow`. -/
def keyDue (te : TimeEvent) (r : Timeval) : Prop := Ae3.timeKey te ≤ long (millis (aeGetTime r))

def keyBefore (a b : TimeEvent) : Prop := Ae3.timeKey a < Ae3.timeKey b

/-- A store whose due test and order are those of the exact deadlines `A` of `a` and `B` of `b`. -/
structure ExactAt (due : TimeEvent → Timeval → Prop) (before : TimeEvent → TimeEvent → Prop)
    (a b : TimeEvent) (A B : Int) : Prop where
  due : ∀ r, InEra r → (due a r ↔ A ≤ millis (aeGetTime r))
  order : before a b ↔ A < B

section Exact

variable {κ κ' : Type} {env : Env κ} {s : Loop κ} {env' : Env κ'} {s' : Loop κ'} {d d' : Int}
  {a b : TimeEvent} {A B : Int}

theorem pairDue_iff (normal : Normal a.deadline) (exact' : millis a.deadline = A) (r : Timeval) :
    pairDue a r ↔ A ≤ millis (aeGetTime r) := by
  rw [pairDue, due_iff normal (aeGetTime_normal r), exact']

theorem lexicographic_iff (ha : Normal a.deadline) (hb : Normal b.deadline) :
    a.when_sec < b.when_sec ∨ a.when_sec = b.when_sec ∧ a.when_ms < b.when_ms ↔
      millis a.deadline < millis b.deadline := by
  obtain ⟨al, ah⟩ := ha
  obtain ⟨bl, bh⟩ := hb
  simp only [TimeEvent.deadline, millis] at *
  omega

theorem timeKey_cases (exact' : millis a.deadline = A) (low : -2 ^ 63 ≤ A) (high : A < 2 ^ 64) :
    A < 2 ^ 63 ∧ Ae3.timeKey a = A ∨ 2 ^ 63 ≤ A ∧ Ae3.timeKey a = A - 2 ^ 64 := by
  rw [Ae3.timeKey, exact']
  rcases lt_or_ge A (2 ^ 63) with fits | past
  · exact .inl ⟨fits, long_of_fits ⟨low, fits⟩⟩
  · exact .inr ⟨past, long_of_overflow past high⟩

/-- `ae.c` and `ae2.cpp` keep every deadline exactly. `ae3.cpp` does so exactly when neither of the
two deadlines reaches `2^63` milliseconds. -/
theorem deadlines_exact_iff (era : InEra (env.gettimeofday s.tick))
    (era' : InEra (env'.gettimeofday s'.tick)) (hd : 0 ≤ d ∧ d ≤ 2 ^ 63 - 1)
    (hd' : 0 ≤ d' ∧ d' ≤ 2 ^ 63 - 1) {proc data proc' data' : ℕ} {fin fin' : Option ℕ}
    (ha : a = s.newTimeEvent env d proc data fin) (hb : b = s'.newTimeEvent env' d' proc' data' fin')
    (hA : A = exactDeadline (env.gettimeofday s.tick) d)
    (hB : B = exactDeadline (env'.gettimeofday s'.tick) d') :
    a.deadline = aeAddMillisecondsToNowLong (env.gettimeofday s.tick) d ∧
      ExactAt pairDue Ae.Nearer a b A B ∧ ExactAt pairDue Ae2.Earlier a b A B ∧
      (ExactAt keyDue keyBefore a b A B ↔ A < 2 ^ 63 ∧ B < 2 ^ 63) := by
  have exactA : millis a.deadline = A := by
    rw [ha, hA]
    exact millis_aeAddMillisecondsToNow _ d
  have exactB : millis b.deadline = B := by
    rw [hb, hB]
    exact millis_aeAddMillisecondsToNow _ d'
  have normalA : Normal a.deadline := ha ▸ aeAddMillisecondsToNow_normal _ hd.1
  have normalB : Normal b.deadline := hb ▸ aeAddMillisecondsToNow_normal _ hd'.1
  have order := lexicographic_iff normalA normalB
  rw [exactA, exactB] at order
  have due := fun r (_ : InEra r) => pairDue_iff normalA exactA r
  have now := millis_inEra era
  have now' := millis_inEra era'
  simp only [exactDeadline] at hA hB
  have keyA := timeKey_cases exactA (by omega) (by omega)
  have keyB := timeKey_cases exactB (by omega) (by omega)
  refine ⟨?_, ⟨due, order⟩, ⟨due, ?_⟩, ?_⟩
  · rw [ha, aeAddMillisecondsToNowLong_eq era hd.1 (by omega)]
    rfl
  · rw [Ae2.earlier_iff]
    exact order
  constructor
  · rintro ⟨due3, order3⟩
    have atStart := due3 _ era
    rw [keyDue, long_millis_inEra era] at atStart
    rw [keyBefore] at order3
    omega
  · rintro ⟨fitsA, fitsB⟩
    refine ⟨fun r hr => ?_, ?_⟩
    · rw [keyDue, long_millis_inEra hr]
      omega
    · rw [keyBefore]
      omega

/-- A delay of one second and one of "never", from a clock at five seconds. -/
theorem deadlines_exact_iff_never :
    let s : Loop Int := Loop.fresh (stillEnv Int)
    let a := s.newTimeEvent (stillEnv Int) 1000 3 4 none
    let b := s.newTimeEvent (stillEnv Int) (2 ^ 63 - 1) 3 4 none
    ExactAt pairDue Ae.Nearer a b 6000 (5000 + (2 ^ 63 - 1)) ∧
      ¬ ExactAt keyDue keyBefore a b 6000 (5000 + (2 ^ 63 - 1)) := by
  intro s a b
  have era : InEra ((stillEnv Int).gettimeofday s.tick) := ⟨by decide, by decide⟩
  obtain ⟨-, pair, -, key⟩ := deadlines_exact_iff (a := a) (b := b) era era
    ⟨by decide, by decide⟩ ⟨by decide, by decide⟩ rfl rfl (A := 6000)
    (B := 5000 + (2 ^ 63 - 1)) (by decide) (by decide)
  refine ⟨pair, fun exact' => ?_⟩
  have := (key.mp exact').2
  omega

/-- With clock and delay past `2^63` milliseconds, `ae3.cpp` finds the timer due when it is
created. -/
theorem deadlines_exact_fails_never :
    ¬ ∀ (s : Loop TimeEvent) (d : Int), 0 ≤ d ∧ d ≤ 2 ^ 63 - 1 → ∀ r, InEra r →
      (keyDue (s.newTimeEvent (stillEnv TimeEvent) d 3 4 none) r ↔
        exactDeadline ((stillEnv TimeEvent).gettimeofday s.tick) d ≤ millis (aeGetTime r)) := by
  intro claim
  have due := claim (Loop.fresh (stillEnv TimeEvent)) (2 ^ 63 - 1) ⟨by decide, by decide⟩
    (Timeval.ofMillis 5000) ⟨by decide, by decide⟩
  have early : keyDue ((Loop.fresh (stillEnv TimeEvent)).newTimeEvent (stillEnv TimeEvent)
      (2 ^ 63 - 1) 3 4 none) (Timeval.ofMillis 5000) := by
    change long (5000 + (2 ^ 63 - 1)) ≤ long 5000
    decide
  have late : ¬ exactDeadline ((stillEnv TimeEvent).gettimeofday
      (Loop.fresh (stillEnv TimeEvent)).tick) (2 ^ 63 - 1) ≤
        millis (aeGetTime (Timeval.ofMillis 5000)) := by decide
  exact late (due.mp early)

end Exact

end AeEventLoop
