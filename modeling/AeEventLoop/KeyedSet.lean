import Mathlib.Data.List.Sort
import Mathlib.Order.Defs.LinearOrder

/-! Finite collections kept in strictly increasing order of a key: the ordered sets and maps of
a standard library, with the operations of their iterators. A map is the case where an element
is a pair and the key its first component. Keys are unique, so an iterator is its key: it stays
valid while an element with that key is stored, and advancing it looks for the next larger key
in the collection as it is then. -/

namespace AeEventLoop

structure KeyedSet {α κ : Type*} [LinearOrder κ] (key : α → κ) where
  elems : List α
  sorted : elems.Pairwise fun a b => key a < key b

namespace KeyedSet

variable {α κ : Type*} [LinearOrder κ] {key : α → κ}

instance : Membership α (KeyedSet key) := ⟨fun s a => a ∈ s.elems⟩

theorem mem_def {s : KeyedSet key} {a : α} : a ∈ s ↔ a ∈ s.elems := Iff.rfl

def empty : KeyedSet key := ⟨[], .nil⟩

def find? (s : KeyedSet key) (k : κ) : Option α := s.elems.find? fun a => key a = k

/-- Store `a`, in place of the element with its key if there is one. -/
def put (s : KeyedSet key) (a : α) : KeyedSet key where
  elems := s.elems.filter (fun b => key b < key a) ++ a :: s.elems.filter (fun b => key a < key b)
  sorted := by
    rw [List.pairwise_append, List.pairwise_cons]
    refine ⟨s.sorted.filter _, ⟨?_, s.sorted.filter _⟩, ?_⟩
    · intro b hb
      simpa using List.of_mem_filter hb
    · intro b hb c hc
      have hba : key b < key a := by simpa using List.of_mem_filter hb
      rcases List.mem_cons.mp hc with rfl | hc
      · exact hba
      · exact hba.trans (by simpa using List.of_mem_filter hc)

/-- Store `a` unless its key is taken. -/
def insert (s : KeyedSet key) (a : α) : KeyedSet key :=
  match s.find? (key a) with
  | some _ => s
  | none => s.put a

def erase (s : KeyedSet key) (k : κ) : KeyedSet key where
  elems := s.elems.filter fun a => key a ≠ k
  sorted := s.sorted.filter _

def first? (s : KeyedSet key) : Option α := s.elems.head?

/-- What an iterator at key `k` still has ahead of it. -/
def above (s : KeyedSet key) (k : κ) : List α := s.elems.filter fun a => k < key a

def next? (s : KeyedSet key) (k : κ) : Option α := (s.above k).head?

@[simp] theorem not_mem_empty (a : α) : a ∉ (empty : KeyedSet key) := List.not_mem_nil

@[simp] theorem mem_put {s : KeyedSet key} {a b : α} :
    b ∈ s.put a ↔ b = a ∨ b ∈ s ∧ key b ≠ key a := by
  simp only [mem_def, put, List.mem_append, List.mem_cons, List.mem_filter, decide_eq_true_eq]
  constructor
  · rintro (⟨hb, h⟩ | rfl | ⟨hb, h⟩)
    · exact .inr ⟨hb, h.ne⟩
    · exact .inl rfl
    · exact .inr ⟨hb, h.ne'⟩
  · rintro (rfl | ⟨hb, h⟩)
    · exact .inr (.inl rfl)
    · rcases lt_or_gt_of_ne h with h | h
      · exact .inl ⟨hb, h⟩
      · exact .inr (.inr ⟨hb, h⟩)

@[simp] theorem mem_erase {s : KeyedSet key} {k : κ} {b : α} :
    b ∈ s.erase k ↔ b ∈ s ∧ key b ≠ k := by
  simp [mem_def, erase, List.mem_filter]

theorem keys_nodup (s : KeyedSet key) : (s.elems.map key).Nodup :=
  List.pairwise_map.mpr (s.sorted.imp fun h => h.ne)

theorem key_inj {s : KeyedSet key} {a b : α} (ha : a ∈ s) (hb : b ∈ s) (h : key a = key b) :
    a = b :=
  List.inj_on_of_nodup_map s.keys_nodup ha hb h

theorem ext {s t : KeyedSet key} (h : ∀ a, a ∈ s ↔ a ∈ t) : s = t := by
  have : Std.Irrefl fun a b : α => key a < key b := ⟨fun a => lt_irrefl (key a)⟩
  have : Std.Antisymm fun a b : α => key a < key b :=
    ⟨fun a b hab hba => absurd hab hba.asymm⟩
  have same := s.sorted.eq_of_mem_iff t.sorted h
  cases s
  cases t
  cases same
  rfl

theorem find?_eq_some {s : KeyedSet key} {k : κ} {a : α} :
    s.find? k = some a ↔ a ∈ s ∧ key a = k := by
  constructor
  · intro h
    exact ⟨List.mem_of_find?_eq_some h, by simpa using List.find?_some h⟩
  · rintro ⟨ha, rfl⟩
    cases found : s.find? (key a) with
    | none => simpa using List.find?_eq_none.mp found a ha
    | some b =>
        have hb : key b = key a := by simpa using List.find?_some found
        rw [key_inj (List.mem_of_find?_eq_some found) ha hb]

theorem find?_eq_none {s : KeyedSet key} {k : κ} :
    s.find? k = none ↔ ∀ a ∈ s, key a ≠ k := by
  simp [find?, List.find?_eq_none, mem_def]

@[simp] theorem mem_insert {s : KeyedSet key} {a b : α} :
    b ∈ s.insert a ↔ b ∈ s ∨ b = a ∧ ∀ c ∈ s, key c ≠ key a := by
  unfold insert
  split
  next c found =>
      obtain ⟨hc, same⟩ := find?_eq_some.mp found
      constructor
      · exact .inl
      · rintro (hb | ⟨-, free⟩)
        · exact hb
        · exact absurd same (free c hc)
  next found =>
      have free := find?_eq_none.mp found
      rw [mem_put]
      constructor
      · rintro (rfl | ⟨hb, -⟩)
        · exact .inr ⟨rfl, free⟩
        · exact .inl hb
      · rintro (hb | ⟨rfl, -⟩)
        · exact .inr ⟨hb, free b hb⟩
        · exact .inl rfl

theorem erase_of_absent {s : KeyedSet key} {k : κ} (h : ∀ a ∈ s, key a ≠ k) : s.erase k = s :=
  ext fun a => by rw [mem_erase]; exact ⟨fun ha => ha.1, fun ha => ⟨ha, h a ha⟩⟩

theorem mem_above {s : KeyedSet key} {k : κ} {a : α} : a ∈ s.above k ↔ a ∈ s ∧ k < key a := by
  simp [above, mem_def]

theorem first?_le {s : KeyedSet key} {a x : α} (first : s.first? = some a) (stored : x ∈ s) :
    key a ≤ key x := by
  obtain ⟨rest, elems⟩ := List.head?_eq_some_iff.mp first
  have sorted := s.sorted
  rw [elems, List.pairwise_cons] at sorted
  rw [mem_def, elems] at stored
  rcases List.mem_cons.mp stored with rfl | later
  · exact le_refl _
  · exact (sorted.1 x later).le

theorem not_mem_of_first? {s : KeyedSet key} {x : α} (first : s.first? = none) : x ∉ s := by
  intro stored
  rw [mem_def, List.head?_eq_none_iff.mp first] at stored
  cases stored

theorem next?_le {s : KeyedSet key} {a x : α} {k : κ} (next : s.next? k = some a) (stored : x ∈ s)
    (above : k < key x) : key a ≤ key x :=
  first?_le (s := ⟨s.above k, s.sorted.filter _⟩) next (mem_above.mpr ⟨stored, above⟩)

theorem le_of_next? {s : KeyedSet key} {x : α} {k : κ} (next : s.next? k = none) (stored : x ∈ s) :
    key x ≤ k := by
  by_contra above
  exact not_mem_of_first? (s := ⟨s.above k, s.sorted.filter _⟩) next
    (mem_above.mpr ⟨stored, not_le.mp above⟩)

theorem mem_of_next? {s : KeyedSet key} {a : α} {k : κ} (next : s.next? k = some a) :
    a ∈ s ∧ k < key a :=
  mem_above.mp (List.mem_of_head? next)

theorem above_of_split {s : KeyedSet key} {a : α} {pre post : List α}
    (h : s.elems = pre ++ a :: post) : s.above (key a) = post := by
  have sorted := s.sorted
  rw [h, List.pairwise_append, List.pairwise_cons] at sorted
  obtain ⟨-, ⟨later, -⟩, before⟩ := sorted
  have none : pre.filter (fun b => key a < key b) = [] := by
    refine List.filter_eq_nil_iff.mpr fun b hb => ?_
    simpa using (before b hb a List.mem_cons_self).le
  have all : post.filter (fun b => key a < key b) = post :=
    List.filter_eq_self.mpr fun b hb => by simpa using later b hb
  rw [above, h, List.filter_append, List.filter_cons_of_neg (by simp), none, all, List.nil_append]

theorem elems_split (s : KeyedSet key) (bound : κ) :
    s.elems = s.elems.filter (fun b => key b ≤ bound) ++ s.elems.filter fun b => bound < key b := by
  have sorted := s.sorted
  generalize s.elems = xs at sorted
  induction xs with
  | nil => rfl
  | cons x xs ih =>
      rw [List.pairwise_cons] at sorted
      by_cases hx : key x ≤ bound
      · rw [List.filter_cons_of_pos (by simpa using hx), List.filter_cons_of_neg (by simpa using hx),
          List.cons_append, ← ih sorted.2]
      · have all : ∀ y ∈ xs, bound < key y := fun y hy => (not_le.mp hx).trans (sorted.1 y hy)
        have low : xs.filter (fun b => key b ≤ bound) = [] :=
          List.filter_eq_nil_iff.mpr fun y hy => by simpa using all y hy
        have high : xs.filter (fun b => bound < key b) = xs :=
          List.filter_eq_self.mpr fun y hy => by simpa using all y hy
        rw [List.filter_cons_of_neg (by simpa using hx),
          List.filter_cons_of_pos (by simpa using hx), low, high, List.nil_append]

theorem filter_put_of_above {s : KeyedSet key} {a : α} {bound : κ} (h : bound < key a) :
    (s.put a).elems.filter (fun b => key b ≤ bound) = s.elems.filter fun b => key b ≤ bound := by
  have high : (s.elems.filter fun b => key a < key b).filter (fun b => key b ≤ bound) = [] := by
    rw [List.filter_filter, List.filter_eq_nil_iff]
    intro b _
    by_cases hb : key a < key b
    · simp [h.trans hb]
    · simp [hb]
  have low : (s.elems.filter fun b => key b < key a).filter (fun b => key b ≤ bound) =
      s.elems.filter fun b => key b ≤ bound := by
    rw [List.filter_filter]
    refine List.filter_congr fun b _ => ?_
    by_cases hb : key b ≤ bound
    · simp [hb, hb.trans_lt h]
    · simp [hb]
  change (_ ++ a :: _ : List α).filter _ = _
  rw [List.filter_append, List.filter_cons_of_neg (by simpa using h), high, low, List.append_nil]

end KeyedSet

end AeEventLoop
