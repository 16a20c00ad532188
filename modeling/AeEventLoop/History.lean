import Mathlib.Data.List.Basic

/-! Finite histories. `Occurs tr pre e` says that `e` happened in `tr` when exactly `pre` had
happened before it, which is how "before", "after" and "at that moment" are said of a trace. -/

namespace AeEventLoop

variable {ε : Type*}

theorem split_append {a b a' b' : List ε} {y : ε} (h : a ++ b = a' ++ y :: b') :
    (∃ c, a = a' ++ y :: c ∧ b' = c ++ b) ∨ ∃ c, a' = a ++ c ∧ b = c ++ y :: b' := by
  rcases List.append_eq_append_iff.mp h with ⟨c, ha, hb⟩ | ⟨c, ha, hb⟩
  · exact .inr ⟨c, ha, hb⟩
  · cases c with
    | nil => exact .inr ⟨[], by simpa using ha.symm, by simpa using hb.symm⟩
    | cons z c =>
        rw [List.cons_append, List.cons.injEq] at hb
        exact .inl ⟨c, by rw [ha, hb.1], hb.2⟩

theorem eq_nil_or_singleton {l : List ε} (h : l.length ≤ 1) : l = [] ∨ ∃ x, l = [x] := by
  rcases Nat.le_one_iff_eq_zero_or_eq_one.mp h with none | one
  · exact .inl (List.eq_nil_of_length_eq_zero none)
  · exact .inr (List.length_eq_one_iff.mp one)

def Occurs (tr pre : List ε) (e : ε) : Prop := ∃ post, tr = pre ++ e :: post

@[simp] theorem not_occurs_nil (pre : List ε) (e : ε) : ¬ Occurs [] pre e := by
  rintro ⟨post, h⟩
  simp at h

theorem occurs_append {a b pre : List ε} {e : ε} :
    Occurs (a ++ b) pre e ↔ Occurs a pre e ∨ ∃ c, pre = a ++ c ∧ Occurs b c e := by
  constructor
  · rintro ⟨post, h⟩
    rcases split_append h with ⟨c, ha, -⟩ | ⟨c, hp, hb⟩
    · exact .inl ⟨c, ha⟩
    · exact .inr ⟨c, hp, post, hb⟩
  · rintro (⟨post, rfl⟩ | ⟨c, rfl, post, rfl⟩)
    · exact ⟨post ++ b, by simp⟩
    · exact ⟨post, by simp⟩

theorem occurs_cons {a e : ε} {b pre : List ε} :
    Occurs (a :: b) pre e ↔ pre = [] ∧ e = a ∨ ∃ c, pre = a :: c ∧ Occurs b c e := by
  constructor
  · rintro ⟨post, h⟩
    cases pre with
    | nil =>
        rw [List.nil_append, List.cons.injEq] at h
        exact .inl ⟨rfl, h.1.symm⟩
    | cons x pre =>
        rw [List.cons_append, List.cons.injEq] at h
        exact .inr ⟨pre, by rw [h.1], post, h.2⟩
  · rintro (⟨rfl, rfl⟩ | ⟨c, rfl, post, rfl⟩)
    · exact ⟨b, rfl⟩
    · exact ⟨post, rfl⟩

theorem Occurs.mem {tr pre : List ε} {e : ε} (h : Occurs tr pre e) : e ∈ tr := by
  obtain ⟨post, rfl⟩ := h
  simp

theorem Occurs.append_right {tr pre : List ε} {e : ε} (h : Occurs tr pre e) (more : List ε) :
    Occurs (tr ++ more) pre e := occurs_append.mpr (.inl h)

theorem exists_occurs {tr : List ε} {e : ε} (h : e ∈ tr) : ∃ pre, Occurs tr pre e := by
  obtain ⟨pre, post, rfl⟩ := List.append_of_mem h
  exact ⟨pre, post, rfl⟩

end AeEventLoop
