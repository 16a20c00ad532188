import AeEventLoop.Clock
import Mathlib.Algebra.Order.Group.Abs
import Mathlib.Algebra.Order.Ring.Int

/-! `CTimeVal` of `common/timeval.h`, the stopwatch of the test programs. `operator -` borrows only
when the difference of the seconds is positive, so its result has a sign in each field unless the
operands are in order; `AbsDiff` puts them in order. Every field and every result is a 64-bit
integer, and each operation wraps. -/

namespace AeEventLoop

structure CTimeVal where
  tv_sec : Int
  tv_usec : Int
deriving DecidableEq

namespace CTimeVal

/-- `CTimeVal()`, at a reading of the clock. -/
def read (tv : Timeval) : CTimeVal := ⟨tv.tv_sec, tv.tv_usec⟩

/-- `operator <`. -/
def lt (a rhs : CTimeVal) : Prop :=
  if a.tv_sec = rhs.tv_sec then a.tv_usec < rhs.tv_usec else a.tv_sec < rhs.tv_sec

instance (a b : CTimeVal) : Decidable (a.lt b) :=
  inferInstanceAs (Decidable (if a.tv_sec = b.tv_sec then _ else _))

/-- `operator -`. -/
def sub (a rhs : CTimeVal) : CTimeVal :=
  let sec := long (a.tv_sec - rhs.tv_sec)
  let usec := long (a.tv_usec - rhs.tv_usec)
  if sec > 0 ∧ usec < 0 then ⟨long (sec - 1), long (usec + 1000000)⟩ else ⟨sec, usec⟩

def AbsDiff (a rhs : CTimeVal) : CTimeVal := if a.lt rhs then rhs.sub a else a.sub rhs

def ToSeconds (a : CTimeVal) : Int := a.tv_sec

def ToMilliSeconds (a : CTimeVal) : Int := long (long (a.tv_sec * 1000) + a.tv_usec.tdiv 1000)

def ToMicroSeconds (a : CTimeVal) : Int := long (long (a.tv_sec * 1000000) + a.tv_usec)

def SECOND : Int := 0
def MILLI : Int := 1
def MICRO : Int := 2

def CostTime (gettimeofday : Timeval) (a : CTimeVal) (type : Int) : Int :=
  let diff := (read gettimeofday).AbsDiff a
  if type = SECOND then diff.ToSeconds
  else if type = MICRO then diff.ToMicroSeconds
  else diff.ToMilliSeconds

def us (a : CTimeVal) : Int := a.tv_sec * 1000000 + a.tv_usec

def Normalized (a : CTimeVal) : Prop := 0 ≤ a.tv_usec ∧ a.tv_usec < 1000000

instance (a : CTimeVal) : Decidable a.Normalized := inferInstanceAs (Decidable (_ ∧ _))

def elapsed (a b : CTimeVal) : Int := |a.us - b.us|

theorem elapsed_comm (a b : CTimeVal) : a.elapsed b = b.elapsed a := abs_sub_comm _ _

theorem elapsed_nonneg (a b : CTimeVal) : 0 ≤ a.elapsed b := abs_nonneg _

theorem elapsed_triangle (a b c : CTimeVal) : a.elapsed c ≤ a.elapsed b + b.elapsed c :=
  abs_sub_le _ _ _

variable {a b : CTimeVal}

theorem read_normalized (tv : Timeval) : (read tv).Normalized := ⟨tv.usec_nonneg, tv.usec_lt⟩

theorem lt_iff (ha : a.Normalized) (hb : b.Normalized) : a.lt b ↔ a.us < b.us := by
  obtain ⟨al, ah⟩ := ha
  obtain ⟨bl, bh⟩ := hb
  simp only [lt, us]
  split_ifs <;> omega

theorem us_inj (ha : a.Normalized) (hb : b.Normalized) : a.us = b.us ↔ a = b := by
  obtain ⟨al, ah⟩ := ha
  obtain ⟨bl, bh⟩ := hb
  rw [CTimeVal.mk.injEq, us, us]
  omega

/-- With the later operand on the left, the borrow leaves both fields without a sign. -/
theorem sub_eq (ha : a.Normalized) (hb : b.Normalized) (le : b.us ≤ a.us)
    (fits : FitsLong (a.us - b.us)) :
    a.sub b = ⟨(a.us - b.us) / 1000000, (a.us - b.us) % 1000000⟩ := by
  obtain ⟨al, ah⟩ := ha
  obtain ⟨bl, bh⟩ := hb
  obtain ⟨low, high⟩ := fits
  simp only [us] at le low high ⊢
  have sec : long (a.tv_sec - b.tv_sec) = a.tv_sec - b.tv_sec :=
    long_of_fits ⟨by omega, by omega⟩
  have usec : long (a.tv_usec - b.tv_usec) = a.tv_usec - b.tv_usec :=
    long_of_fits ⟨by omega, by omega⟩
  simp only [sub, sec, usec]
  split_ifs with borrow
  · obtain ⟨positive, negative⟩ := borrow
    rw [long_of_fits ⟨by omega, by omega⟩, long_of_fits ⟨by omega, by omega⟩, CTimeVal.mk.injEq]
    omega
  · rw [CTimeVal.mk.injEq]
    omega

theorem absDiff_eq (ha : a.Normalized) (hb : b.Normalized) (fits : FitsLong (a.elapsed b)) :
    a.AbsDiff b = ⟨a.elapsed b / 1000000, a.elapsed b % 1000000⟩ := by
  rw [AbsDiff]
  split_ifs with less
  · have le : a.us ≤ b.us := ((lt_iff ha hb).mp less).le
    have eq : a.elapsed b = b.us - a.us := by
      rw [elapsed_comm]
      exact abs_of_nonneg (sub_nonneg.mpr le)
    rw [eq] at fits ⊢
    exact sub_eq hb ha le fits
  · have le : b.us ≤ a.us := not_lt.mp fun h => less ((lt_iff ha hb).mpr h)
    have eq : a.elapsed b = a.us - b.us := abs_of_nonneg (sub_nonneg.mpr le)
    rw [eq] at fits ⊢
    exact sub_eq ha hb le fits

section Conversions

variable {n : Int} (nonneg : 0 ≤ n) (fits : FitsLong n)
include nonneg fits

theorem toMilliSeconds_split : ToMilliSeconds ⟨n / 1000000, n % 1000000⟩ = n / 1000 := by
  obtain ⟨low, high⟩ := fits
  have usec : 0 ≤ n % 1000000 := Int.emod_nonneg n (by decide)
  have sec : long (n / 1000000 * 1000) = n / 1000000 * 1000 :=
    long_of_fits ⟨by omega, by omega⟩
  simp only [ToMilliSeconds, sec, Int.tdiv_eq_ediv_of_nonneg usec]
  rw [long_of_fits ⟨by omega, by omega⟩]
  omega

theorem toMicroSeconds_split : ToMicroSeconds ⟨n / 1000000, n % 1000000⟩ = n := by
  obtain ⟨low, high⟩ := fits
  have sec : long (n / 1000000 * 1000000) = n / 1000000 * 1000000 :=
    long_of_fits ⟨by omega, by omega⟩
  simp only [ToMicroSeconds, sec]
  rw [long_of_fits ⟨by omega, by omega⟩]
  omega

end Conversions

theorem toMicroSeconds_absDiff (ha : a.Normalized) (hb : b.Normalized)
    (fits : FitsLong (a.elapsed b)) : (a.AbsDiff b).ToMicroSeconds = a.elapsed b := by
  rw [absDiff_eq ha hb fits]
  exact toMicroSeconds_split (elapsed_nonneg a b) fits

theorem toMilliSeconds_absDiff (ha : a.Normalized) (hb : b.Normalized)
    (fits : FitsLong (a.elapsed b)) : (a.AbsDiff b).ToMilliSeconds = a.elapsed b / 1000 := by
  rw [absDiff_eq ha hb fits]
  exact toMilliSeconds_split (elapsed_nonneg a b) fits

theorem toSeconds_absDiff (ha : a.Normalized) (hb : b.Normalized)
    (fits : FitsLong (a.elapsed b)) : (a.AbsDiff b).ToSeconds = a.elapsed b / 1000000 := by
  rw [absDiff_eq ha hb fits]
  rfl

theorem absDiff_normalized (ha : a.Normalized) (hb : b.Normalized)
    (fits : FitsLong (a.elapsed b)) :
    0 ≤ (a.AbsDiff b).tv_sec ∧ (a.AbsDiff b).Normalized := by
  rw [absDiff_eq ha hb fits]
  have nonneg := elapsed_nonneg a b
  exact ⟨by dsimp only; omega, by dsimp only [Normalized]; omega⟩

theorem absDiff_comm (ha : a.Normalized) (hb : b.Normalized) (fits : FitsLong (a.elapsed b)) :
    a.AbsDiff b = b.AbsDiff a := by
  rw [absDiff_eq ha hb fits, absDiff_eq hb ha (elapsed_comm a b ▸ fits), elapsed_comm]

theorem absDiff_eq_zero_iff (ha : a.Normalized) (hb : b.Normalized)
    (fits : FitsLong (a.elapsed b)) : a.AbsDiff b = ⟨0, 0⟩ ↔ a = b := by
  have nonneg := elapsed_nonneg a b
  have same : a.elapsed b = 0 ↔ a = b := by
    rw [elapsed, abs_eq_zero, sub_eq_zero]
    exact us_inj ha hb
  rw [absDiff_eq ha hb fits, CTimeVal.mk.injEq, ← same]
  omega

/-- Elapsed time is an exact metric, as long as it fits 64 bits in microseconds. -/
theorem absDiff_is_exact_metric {a b c : CTimeVal} (ha : a.Normalized) (hb : b.Normalized)
    (hc : c.Normalized) (ab : FitsLong |a.us - b.us|) (bc : FitsLong |b.us - c.us|)
    (ac : FitsLong |a.us - c.us|) :
    (a.lt b ↔ a.us < b.us) ∧
      (0 ≤ (a.AbsDiff b).tv_sec ∧ 0 ≤ (a.AbsDiff b).tv_usec ∧ (a.AbsDiff b).tv_usec < 1000000) ∧
      a.AbsDiff b = b.AbsDiff a ∧
      (a.AbsDiff b).ToMicroSeconds = |a.us - b.us| ∧
      (a.AbsDiff b).ToMilliSeconds = |a.us - b.us| / 1000 ∧
      (a.AbsDiff b).ToSeconds = |a.us - b.us| / 1000000 ∧
      (a.AbsDiff b = ⟨0, 0⟩ ↔ a = b) ∧
      (a.AbsDiff c).ToMicroSeconds ≤
        (a.AbsDiff b).ToMicroSeconds + (b.AbsDiff c).ToMicroSeconds ∧
      ∀ now, FitsLong |(read now).us - a.us| →
        a.CostTime now SECOND = |(read now).us - a.us| / 1000000 ∧
        a.CostTime now MILLI = |(read now).us - a.us| / 1000 ∧
        a.CostTime now MICRO = |(read now).us - a.us| := by
  refine ⟨lt_iff ha hb, absDiff_normalized ha hb ab, absDiff_comm ha hb ab,
    toMicroSeconds_absDiff ha hb ab, toMilliSeconds_absDiff ha hb ab, toSeconds_absDiff ha hb ab,
    absDiff_eq_zero_iff ha hb ab, ?_, ?_⟩
  · rw [toMicroSeconds_absDiff ha hb ab, toMicroSeconds_absDiff hb hc bc,
      toMicroSeconds_absDiff ha hc ac]
    exact elapsed_triangle a b c
  · intro now fits
    have normal := read_normalized now
    exact ⟨toSeconds_absDiff normal ha fits, toMilliSeconds_absDiff normal ha fits,
      toMicroSeconds_absDiff normal ha fits⟩

/-- A clock that went back, with a borrow: 1.2 s, of which the milliseconds and seconds keep the
floor. -/
theorem absDiff_is_exact_metric_back :
    CTimeVal.AbsDiff ⟨1, 900001⟩ ⟨3, 100000⟩ = ⟨1, 199999⟩ ∧
      (CTimeVal.AbsDiff ⟨1, 900001⟩ ⟨3, 100000⟩).ToMicroSeconds = 1199999 ∧
      (CTimeVal.AbsDiff ⟨1, 900001⟩ ⟨3, 100000⟩).ToMilliSeconds = 1199 ∧
      CostTime (.ofMillis 700) ⟨1, 900001⟩ SECOND = 1 := by
  obtain ⟨-, -, -, micro, milli, -, -, -, cost⟩ :=
    @absDiff_is_exact_metric ⟨1, 900001⟩ ⟨3, 100000⟩ ⟨2, 0⟩ (by decide) (by decide) (by decide)
      (by decide) (by decide) (by decide)
  exact ⟨by decide, micro, milli, (cost (.ofMillis 700) (by decide)).1⟩

end CTimeVal

end AeEventLoop
