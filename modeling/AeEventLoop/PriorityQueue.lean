import Mathlib.Data.Multiset.AddSub
import Mathlib.Order.Defs.Unbundled

/-! Priority queues, known only by what a client may rely on: the top is an element that no
stored element precedes, a push replaces the top only by a strictly preceding element, a pop
removes the top, and a queue that has run empty is as a new one. Which of several equal elements
is on top is left open. -/

namespace AeEventLoop

class PriorityQueue (Q : Type*) (α : outParam Type*) [DecidableEq α]
    (earlier : outParam (α → α → Prop)) where
  empty : Q
  push : Q → α → Q
  pop : Q → Q
  top : Q → Option α
  elems : Q → Multiset α
  elems_empty : elems empty = 0
  eq_empty {q : Q} : elems q = 0 → q = empty
  elems_push (q : Q) (a : α) : elems (push q a) = a ::ₘ elems q
  top_eq_none (q : Q) : top q = none ↔ elems q = 0
  top_mem {q : Q} {a : α} : top q = some a → a ∈ elems q
  top_first {q : Q} {a : α} : top q = some a → ∀ b ∈ elems q, ¬ earlier b a
  top_push {q : Q} {a : α} (b : α) : top q = some a → ¬ earlier b a → top (push q b) = some a
  elems_pop {q : Q} {a : α} : top q = some a → elems (pop q) = (elems q).erase a

attribute [simp] PriorityQueue.elems_empty PriorityQueue.elems_push

namespace PriorityQueue

variable {Q α : Type*} [DecidableEq α] {earlier : α → α → Prop} [PriorityQueue Q α earlier]

theorem top_ne_of_earlier {q : Q} {a b : α} (h : earlier b a) (hb : b ∈ elems q) :
    top q ≠ some a := fun ha => top_first ha b hb h

theorem top_foldl_push {q : Q} {a : α} (h : top q = some a) (bs : List α)
    (later : ∀ b ∈ bs, ¬ earlier b a) : top (bs.foldl push q) = some a := by
  induction bs generalizing q with
  | nil => exact h
  | cons b bs ih =>
      have hb : top (push q b) = some a := top_push b h (later b (by simp))
      exact ih hb (fun c hc => later c (by simp [hc]))

theorem elems_foldl_push (q : Q) (bs : List α) :
    elems (bs.foldl push q) = (bs : Multiset α) + elems q := by
  induction bs generalizing q with
  | nil => simp
  | cons b bs ih =>
      rw [List.foldl_cons, ih, elems_push, ← Multiset.cons_coe, Multiset.cons_add,
        Multiset.add_cons]

end PriorityQueue

/-- A priority queue one can run: a list in order, equal elements in order of arrival. -/
structure SortedQueue (α : Type*) (earlier : α → α → Prop) where
  items : List α
  sorted : items.Pairwise fun a b => ¬ earlier b a

namespace SortedQueue

variable {α : Type*} (earlier : α → α → Prop) [DecidableRel earlier]

def place (a : α) : List α → List α
  | [] => [a]
  | b :: rest => if earlier a b then a :: b :: rest else b :: place a rest

theorem place_perm (a : α) (xs : List α) : (place earlier a xs).Perm (a :: xs) := by
  induction xs with
  | nil => exact .refl _
  | cons b rest ih =>
      rw [place]
      split_ifs with h
      · exact .refl _
      · exact (ih.cons b).trans (.swap a b rest)

theorem place_sorted [IsStrictOrder α earlier] (a : α) (xs : List α)
    (h : xs.Pairwise fun x y => ¬ earlier y x) :
    (place earlier a xs).Pairwise fun x y => ¬ earlier y x := by
  induction xs with
  | nil => simp [place]
  | cons b rest ih =>
      rw [List.pairwise_cons] at h
      rw [place]
      split_ifs with hab
      · refine List.pairwise_cons.mpr ⟨?_, List.pairwise_cons.mpr h⟩
        intro c hc hca
        rcases List.mem_cons.mp hc with rfl | hc
        · exact irrefl_of earlier c (trans_of earlier hca hab)
        · exact h.1 c hc (trans_of earlier hca hab)
      · refine List.pairwise_cons.mpr ⟨?_, ih h.2⟩
        intro c hc
        rcases List.mem_cons.mp ((place_perm earlier a rest).mem_iff.mp hc) with rfl | hc
        · exact hab
        · exact h.1 c hc

theorem place_head (a b : α) (rest : List α) (h : ¬ earlier b a) :
    (place earlier b (a :: rest)).head? = some a := by
  rw [place, if_neg h, List.head?_cons]

instance [DecidableEq α] [IsStrictOrder α earlier] :
    PriorityQueue (SortedQueue α earlier) α earlier where
  empty := ⟨[], .nil⟩
  push q a := ⟨place earlier a q.items, place_sorted earlier a q.items q.sorted⟩
  pop q := ⟨q.items.tail, q.sorted.sublist (List.tail_sublist _)⟩
  top q := q.items.head?
  elems q := q.items
  elems_empty := rfl
  eq_empty {q} h := by
    obtain ⟨items, sorted⟩ := q
    obtain rfl : items = [] := (Multiset.coe_eq_zero items).mp h
    rfl
  elems_push q a := Multiset.coe_eq_coe.mpr (place_perm earlier a q.items)
  top_eq_none q := by rw [List.head?_eq_none_iff, Multiset.coe_eq_zero]
  top_mem h := Multiset.mem_coe.mpr (List.mem_of_head? h)
  top_first {q a} h b hb := by
    obtain ⟨rest, hr⟩ := List.head?_eq_some_iff.mp h
    have sorted := q.sorted
    rw [hr, List.pairwise_cons] at sorted
    rw [Multiset.mem_coe, hr, List.mem_cons] at hb
    rcases hb with rfl | hb
    · exact irrefl_of earlier b
    · exact sorted.1 b hb
  top_push {q a} b h later := by
    obtain ⟨rest, hr⟩ := List.head?_eq_some_iff.mp h
    change (place earlier b q.items).head? = some a
    rw [hr, place_head earlier a b rest later]
  elems_pop {q a} h := by
    obtain ⟨rest, hr⟩ := List.head?_eq_some_iff.mp h
    change (q.items.tail : Multiset α) = (q.items : Multiset α).erase a
    rw [hr, List.tail_cons, Multiset.coe_erase, List.erase_cons_head]

end SortedQueue

end AeEventLoop
