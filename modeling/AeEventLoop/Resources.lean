import Mathlib.Data.Finset.Disjoint
import Mathlib.Data.Finset.Lattice.Fold
import Mathlib.Data.Finset.Union
import Mathlib.Order.Lattice.Nat

/-! Resources that are acquired and released: blocks of memory, descriptors, handles. An account
holds those in use and remembers whether one was ever released that was not in use, or handed out
while it was. `Gained` is what a stretch of code adds to an account, and code is specified by it:
gains compose, and what a stretch acquired it may release again. -/

namespace AeEventLoop.Resources

variable {R : Type*} [DecidableEq R]

structure Account (R : Type*) where
  held : Finset R
  misused : Bool
deriving DecidableEq

def Account.acquire (a : Account R) (r : R) : Account R where
  held := insert r a.held
  misused := a.misused || decide (r ∈ a.held)

def Account.release (a : Account R) (r : R) : Account R where
  held := a.held.erase r
  misused := a.misused || decide (r ∉ a.held)

/-- From `a` to `b` exactly the resources `got` were added, by proper use. -/
structure Gained (a b : Account R) (got : Finset R) : Prop where
  held : b.held = a.held ∪ got
  apart : Disjoint a.held got
  fine : b.misused = a.misused

section Gained

variable {a b c : Account R} {got more : Finset R} {r : R}

theorem Gained.nothing (a : Account R) : Gained a a ∅ where
  held := (Finset.union_empty a.held).symm
  apart := Finset.disjoint_empty_right a.held
  fine := rfl

theorem Gained.trans (first : Gained a b got) (second : Gained b c more) :
    Gained a c (got ∪ more) where
  held := by rw [second.held, first.held, Finset.union_assoc]
  apart := by
    have apart := second.apart
    rw [first.held, Finset.disjoint_union_left] at apart
    exact Finset.disjoint_union_right.mpr ⟨first.apart, apart.1⟩
  fine := second.fine.trans first.fine

theorem Gained.acquire (gained : Gained a b got) (new : r ∉ b.held) :
    Gained a (b.acquire r) (insert r got) := by
  have apart : Disjoint b.held {r} := Finset.disjoint_singleton_right.mpr new
  have first : Gained b (b.acquire r) {r} :=
    ⟨by rw [Account.acquire, Finset.insert_eq, Finset.union_comm], apart,
      by simp [Account.acquire, new]⟩
  have both := gained.trans first
  rwa [Finset.union_comm, ← Finset.insert_eq] at both

theorem Gained.mem (gained : Gained a b got) (own : r ∈ got) : r ∈ b.held := by
  rw [gained.held]
  exact Finset.mem_union_right _ own

theorem Gained.fresh (gained : Gained a b got) (own : r ∈ got) : r ∉ a.held := fun before =>
  Finset.disjoint_left.mp gained.apart before own

theorem Gained.release (gained : Gained a b got) (own : r ∈ got) :
    Gained a (b.release r) (got.erase r) where
  held := by
    rw [Account.release, gained.held, Finset.erase_union_distrib,
      Finset.erase_eq_of_notMem (gained.fresh own)]
  apart := gained.apart.mono_right (Finset.erase_subset r got)
  fine := by
    simp [Account.release, gained.mem own, gained.fine]

theorem Gained.release_singleton (gained : Gained a b {r}) : Gained a (b.release r) ∅ := by
  have released := gained.release (Finset.mem_singleton_self r)
  rwa [Finset.erase_singleton] at released

theorem Gained.eq (gained : Gained a b ∅) : b = a := by
  have held := gained.held
  rw [Finset.union_empty] at held
  cases a
  exact congrArg₂ Account.mk held gained.fine

theorem Gained.release_eq (gained : Gained a b {r}) : b.release r = a :=
  gained.release_singleton.eq

theorem Gained.acquire_nothing (gained : Gained a b ∅) (new : r ∉ b.held) :
    Gained a (b.acquire r) {r} := gained.acquire new

theorem release_absent (absent : r ∉ a.held) : a.release r = ⟨a.held, true⟩ := by
  rw [Account.release, Finset.erase_eq_of_notMem absent]
  simp [absent]

end Gained

/-- What is held is exactly `own`, each once, and all use was proper. Code is specified by what it
takes off `own` and adds to it, whatever else is in it. -/
structure Exactly (a : Account R) (own : Multiset R) : Prop where
  held : a.held.val = own
  fine : a.misused = false

section Exactly

variable {a : Account R} {own : Multiset R} {r : R}

theorem Exactly.acquire (exactly : Exactly a own) (new : r ∉ a.held) :
    Exactly (a.acquire r) (r ::ₘ own) where
  held := by rw [Account.acquire, Finset.insert_val_of_notMem new, exactly.held]
  fine := by simp [Account.acquire, exactly.fine, new]

theorem Exactly.release (exactly : Exactly a (r ::ₘ own)) : Exactly (a.release r) own where
  held := by rw [Account.release, Finset.erase_val, exactly.held, Multiset.erase_cons_head]
  fine := by
    have mem : r ∈ a.held := by
      rw [← Finset.mem_val, exactly.held]
      exact Multiset.mem_cons_self r own
    simp [Account.release, exactly.fine, mem]

end Exactly

theorem above_notMem (s : Finset ℕ) : s.sup id + 1 ∉ s := fun new =>
  Nat.not_succ_le_self _ (Finset.le_sup (f := id) new)

end AeEventLoop.Resources
