import Mathlib.Data.Int.Basic
import Mathlib.Tactic.Linarith

/-! The clock as `ae.c`, `ae2.cpp` and `ae3.cpp` read it. `gettimeofday` answers seconds and a
number of microseconds below one million; `aeGetTime` keeps milliseconds. Deadlines are pairs of
seconds and milliseconds, and `millis` is the exact number of milliseconds a pair stands for.

Seconds of a wall clock are far from the range of a `long`, and a delay of `2^63` milliseconds
adds only `2^53` seconds to them, so `aeAddMillisecondsToNow` is exact here. The product
`when_sec * 1000 + when_ms` of `ae3.cpp` can leave the range; `long` wraps it. -/

namespace AeEventLoop

structure Timeval where
  tv_sec : Int
  tv_usec : Int
  usec_nonneg : 0 ≤ tv_usec
  usec_lt : tv_usec < 1000000

def Timeval.ofMillis (ms : Int) : Timeval where
  tv_sec := ms / 1000
  tv_usec := ms % 1000 * 1000
  usec_nonneg := by omega
  usec_lt := by omega

def Timeval.micros (tv : Timeval) : Int := tv.tv_sec * 1000000 + tv.tv_usec

def aeGetTime (tv : Timeval) : Int × Int := (tv.tv_sec, tv.tv_usec.tdiv 1000)

def aeAddMillisecondsToNow (tv : Timeval) (milliseconds : Int) : Int × Int :=
  let cur := aeGetTime tv
  let when_sec := cur.1 + milliseconds.tdiv 1000
  let when_ms := cur.2 + milliseconds.tmod 1000
  if when_ms ≥ 1000 then (when_sec + 1, when_ms - 1000) else (when_sec, when_ms)

def millis (t : Int × Int) : Int := t.1 * 1000 + t.2

/-- The due test of `ae.c` and `ae2.cpp`, on a deadline and a reading. -/
def Due (deadline now : Int × Int) : Prop :=
  deadline.1 < now.1 ∨ deadline.1 = now.1 ∧ deadline.2 ≤ now.2

instance (deadline now : Int × Int) : Decidable (Due deadline now) :=
  inferInstanceAs (Decidable (_ ∨ _))

def Normal (t : Int × Int) : Prop := 0 ≤ t.2 ∧ t.2 < 1000

theorem aeGetTime_normal (tv : Timeval) : Normal (aeGetTime tv) := by
  have low := tv.usec_nonneg
  have high := tv.usec_lt
  simp only [Normal, aeGetTime, Int.tdiv_eq_ediv_of_nonneg low]
  omega

theorem millis_aeGetTime (tv : Timeval) : millis (aeGetTime tv) = tv.micros / 1000 := by
  have low := tv.usec_nonneg
  simp only [millis, aeGetTime, Timeval.micros, Int.tdiv_eq_ediv_of_nonneg low]
  omega

theorem millis_aeGetTime_mono {a b : Timeval} (h : a.micros ≤ b.micros) :
    millis (aeGetTime a) ≤ millis (aeGetTime b) := by
  rw [millis_aeGetTime, millis_aeGetTime]
  omega

theorem millis_aeAddMillisecondsToNow (tv : Timeval) (milliseconds : Int) :
    millis (aeAddMillisecondsToNow tv milliseconds) = millis (aeGetTime tv) + milliseconds := by
  have parts := Int.mul_tdiv_add_tmod milliseconds 1000
  simp only [aeAddMillisecondsToNow]
  split_ifs <;> simp only [millis] <;> omega

theorem aeAddMillisecondsToNow_normal (tv : Timeval) {milliseconds : Int} (h : 0 ≤ milliseconds) :
    Normal (aeAddMillisecondsToNow tv milliseconds) := by
  obtain ⟨low, high⟩ := aeGetTime_normal tv
  have rem := Int.tmod_eq_emod_of_nonneg (b := 1000) h
  simp only [aeAddMillisecondsToNow, rem]
  split_ifs <;> simp only [Normal] <;> omega

/-- On normal pairs the lexicographic due test compares the exact times. -/
theorem due_iff {deadline now : Int × Int} (hd : Normal deadline) (hn : Normal now) :
    Due deadline now ↔ millis deadline ≤ millis now := by
  obtain ⟨dl, dh⟩ := hd
  obtain ⟨nl, nh⟩ := hn
  simp only [Due, millis]
  omega

/-- A 64-bit `long` in two's complement. -/
def long (x : Int) : Int := x.bmod (2 ^ 64)

def FitsLong (x : Int) : Prop := -2 ^ 63 ≤ x ∧ x < 2 ^ 63

instance (x : Int) : Decidable (FitsLong x) := inferInstanceAs (Decidable (_ ∧ _))

theorem long_of_fits {x : Int} (h : FitsLong x) : long x = x := by
  obtain ⟨low, high⟩ := h
  exact Int.bmod_eq_of_le (by norm_num; linarith) (by norm_num; linarith)

end AeEventLoop
