import AeEventLoop.History
import Mathlib.Data.List.Nodup
import Mathlib.Data.Finset.Card
import Mathlib.Logic.Function.Basic

/-! Doubly linked lists in a store of cells. An address that holds no cell is free memory, and
an operation that would touch it answers `none`: that is how a dangling pointer shows. New cells
come from addresses never used before. `Repr` says which list of values the store represents,
together with the address of each. -/

namespace AeEventLoop

structure Cell (α : Type*) where
  val : α
  prev : Option ℕ
  next : Option ℕ

structure LinkedStore (α : Type*) where
  head : Option ℕ
  cells : ℕ → Option (Cell α)
  fresh : ℕ

namespace LinkedStore

variable {α : Type*}

def empty : LinkedStore α := ⟨none, fun _ => none, 0⟩

def modify (l : LinkedStore α) (p : ℕ) (f : Cell α → Cell α) : Option (LinkedStore α) :=
  match l.cells p with
  | none => none
  | some c => some { l with cells := Function.update l.cells p (some (f c)) }

def setVal (l : LinkedStore α) (p : ℕ) (f : α → α) : Option (LinkedStore α) :=
  l.modify p fun c => { c with val := f c.val }

theorem setVal_none {l : LinkedStore α} {p : ℕ} (none : l.cells p = none) (f : α → α) :
    l.setVal p f = Option.none := by
  simp only [setVal, modify, none]

def pushFront (l : LinkedStore α) (v : α) : Option (LinkedStore α) :=
  let grown : LinkedStore α :=
    { l with
      cells := Function.update l.cells l.fresh (some ⟨v, none, l.head⟩)
      fresh := l.fresh + 1 }
  let linked := match l.head with
    | some h => grown.modify h fun c => { c with prev := some l.fresh }
    | none => some grown
  linked.map fun l' => { l' with head := some l.fresh }

/-- The link that leads forward from `prev`: the `next` of that cell, or the head. -/
def setForward (l : LinkedStore α) (prev next : Option ℕ) : Option (LinkedStore α) :=
  match prev with
  | some q => l.modify q fun c => { c with next := next }
  | none => some { l with head := next }

def setBackward (l : LinkedStore α) (next prev : Option ℕ) : Option (LinkedStore α) :=
  match next with
  | some r => l.modify r fun c => { c with prev := prev }
  | none => some l

/-- Make the neighbours of `p` (or the head) bypass it. The cell itself stays allocated. -/
def unlink (l : LinkedStore α) (p : ℕ) : Option (LinkedStore α) :=
  match l.cells p with
  | none => none
  | some c => (l.setForward c.prev c.next).bind fun l' => l'.setBackward c.next c.prev

def free (l : LinkedStore α) (p : ℕ) : LinkedStore α :=
  { l with cells := Function.update l.cells p none }

/-- Follow `next` until a value satisfies `test`. A walk longer than the number of addresses
ever handed out is on a cycle, so `fresh + 1` turns are enough for `search`. -/
def searchFrom (l : LinkedStore α) (test : α → Bool) : ℕ → Option ℕ → Option (Option ℕ)
  | 0, _ => none
  | _ + 1, none => some none
  | fuel + 1, some p =>
      match l.cells p with
      | none => none
      | some c => if test c.val then some (some p) else searchFrom l test fuel c.next

def search (l : LinkedStore α) (test : α → Bool) : Option (Option ℕ) :=
  l.searchFrom test (l.fresh + 1) l.head

def forEachFrom (f : α → α) : ℕ → Option ℕ → LinkedStore α → Option (LinkedStore α)
  | 0, _, _ => none
  | _ + 1, none, l => some l
  | fuel + 1, some p, l =>
      match l.cells p with
      | none => none
      | some c => forEachFrom f fuel c.next
          { l with cells := Function.update l.cells p (some { c with val := f c.val }) }

def forEach (l : LinkedStore α) (f : α → α) : Option (LinkedStore α) :=
  forEachFrom f (l.fresh + 1) l.head l

def contentsFrom (l : LinkedStore α) : ℕ → Option ℕ → List α
  | 0, _ => []
  | _ + 1, none => []
  | fuel + 1, some p =>
      match l.cells p with
      | none => []
      | some c => c.val :: contentsFrom l fuel c.next

def contents (l : LinkedStore α) : List α := l.contentsFrom (l.fresh + 1) l.head

/-- The nodes met by following `next`, with their values; `none` if that leads to free memory or
does not end within the fuel. -/
def walkFrom (l : LinkedStore α) : ℕ → Option ℕ → Option (List (ℕ × α))
  | _, none => some []
  | 0, some _ => none
  | fuel + 1, some p =>
      match l.cells p with
      | none => none
      | some c => (l.walkFrom fuel c.next).map fun rest => (p, c.val) :: rest

def headAddr (xs : List (ℕ × α)) : Option ℕ := (xs.map Prod.fst).head?

def lastAddr (xs : List (ℕ × α)) : Option ℕ := (xs.map Prod.fst).getLast?

@[simp] theorem headAddr_nil : headAddr ([] : List (ℕ × α)) = none := rfl

@[simp] theorem headAddr_cons (x : ℕ × α) (xs : List (ℕ × α)) : headAddr (x :: xs) = some x.1 := rfl

@[simp] theorem lastAddr_nil : lastAddr ([] : List (ℕ × α)) = none := rfl

@[simp] theorem lastAddr_concat (xs : List (ℕ × α)) (x : ℕ × α) :
    lastAddr (xs ++ [x]) = some x.1 := by
  simp [lastAddr]

theorem exists_of_headAddr {xs : List (ℕ × α)} {q : ℕ} (h : headAddr xs = some q) :
    ∃ x ∈ xs, x.1 = q :=
  List.mem_map.mp (List.mem_of_head? h)

theorem exists_of_lastAddr {xs : List (ℕ × α)} {q : ℕ} (h : lastAddr xs = some q) :
    ∃ x ∈ xs, x.1 = q :=
  List.mem_map.mp (List.mem_of_getLast? h)

/-- `l` represents `xs`: the values in list order, each with the address of its cell. -/
structure Repr (l : LinkedStore α) (xs : List (ℕ × α)) : Prop where
  head : l.head = headAddr xs
  cell : ∀ a p v b, xs = a ++ (p, v) :: b → l.cells p = some ⟨v, lastAddr a, headAddr b⟩
  nodup : (xs.map Prod.fst).Nodup
  below : ∀ x ∈ xs, x.1 < l.fresh

theorem repr_empty : Repr (empty : LinkedStore α) [] where
  head := rfl
  cell a p v b h := by simp at h
  nodup := List.nodup_nil
  below x hx := by simp at hx

theorem Repr.addr_ne {l : LinkedStore α} {a b : List (ℕ × α)} {x y : ℕ × α}
    (h : Repr l (a ++ x :: b)) (hy : y ∈ a ++ b) : y.1 ≠ x.1 := by
  have nodup := h.nodup
  rw [List.map_append, List.map_cons, List.nodup_middle, List.nodup_cons, ← List.map_append]
    at nodup
  intro same
  exact nodup.1 (same ▸ List.mem_map_of_mem hy)

theorem Repr.length_le {l : LinkedStore α} {xs : List (ℕ × α)} (h : Repr l xs) :
    xs.length ≤ l.fresh := by
  have sub : (xs.map Prod.fst).toFinset ⊆ Finset.range l.fresh := by
    intro p hp
    obtain ⟨x, hx, rfl⟩ := List.mem_map.mp (List.mem_toFinset.mp hp)
    exact Finset.mem_range.mpr (h.below x hx)
  have card := Finset.card_le_card sub
  rwa [List.toFinset_card_of_nodup h.nodup, List.length_map, Finset.card_range] at card

theorem free_repr {l : LinkedStore α} {xs : List (ℕ × α)} (h : Repr l xs) {p : ℕ}
    (off : ∀ x ∈ xs, x.1 ≠ p) : Repr (l.free p) xs where
  head := h.head
  cell a q v b split := by
    have hq : q ≠ p := off (q, v) (by simp [split])
    exact (Function.update_of_ne hq _ _).trans (h.cell a q v b split)
  nodup := h.nodup
  below := h.below

/-- `p` was handed out and holds no cell. Addresses are not used twice, so it stays so. -/
def Freed (l : LinkedStore α) (p : ℕ) : Prop := l.cells p = none ∧ p < l.fresh

theorem free_freed (l : LinkedStore α) {p : ℕ} (h : p < l.fresh) : Freed (l.free p) p :=
  ⟨Function.update_self _ _ _, h⟩

namespace Freed

variable {l l' : LinkedStore α} {p : ℕ}

theorem modify (h : Freed l p) {q : ℕ} {f : Cell α → Cell α} (run : l.modify q f = some l') :
    Freed l' p := by
  unfold LinkedStore.modify at run
  split at run
  · cases run
  · rename_i c here
    obtain rfl := Option.some.inj run
    have other : p ≠ q := by
      rintro rfl
      rw [h.1] at here
      cases here
    exact ⟨(Function.update_of_ne other _ _).trans h.1, h.2⟩

theorem pushFront (h : Freed l p) {v : α} (run : l.pushFront v = some l') : Freed l' p := by
  unfold LinkedStore.pushFront at run
  obtain ⟨m, linked, rfl⟩ := Option.map_eq_some_iff.mp run
  have grown : Freed { l with
      cells := Function.update l.cells l.fresh (some ⟨v, none, l.head⟩)
      fresh := l.fresh + 1 } p :=
    ⟨(Function.update_of_ne h.2.ne _ _).trans h.1, h.2.trans (Nat.lt_succ_self _)⟩
  cases hd : l.head with
  | none =>
      simp only [hd] at linked grown
      rwa [Option.some.inj linked] at grown
  | some q =>
      simp only [hd] at linked grown
      have stays : Freed m p := grown.modify linked
      exact stays

theorem setForward (h : Freed l p) {prev next : Option ℕ} (run : l.setForward prev next = some l') :
    Freed l' p := by
  cases prev with
  | none =>
      obtain rfl := Option.some.inj run
      exact h
  | some q => exact h.modify run

theorem setBackward (h : Freed l p) {prev next : Option ℕ}
    (run : l.setBackward next prev = some l') : Freed l' p := by
  cases next with
  | none =>
      obtain rfl := Option.some.inj run
      exact h
  | some q => exact h.modify run

theorem unlink (h : Freed l p) {q : ℕ} (run : l.unlink q = some l') : Freed l' p := by
  unfold LinkedStore.unlink at run
  split at run
  · cases run
  · obtain ⟨m, forward, backward⟩ := Option.bind_eq_some_iff.mp run
    exact (h.setForward forward).setBackward backward

theorem free (h : Freed l p) (q : ℕ) : Freed (l.free q) p := by
  by_cases same : p = q
  · exact same ▸ free_freed l h.2
  · exact ⟨(Function.update_of_ne same _ _).trans h.1, h.2⟩

end Freed

def allocated (l : LinkedStore α) : Set ℕ := {p | (l.cells p).isSome}

section Allocated

variable {l l' : LinkedStore α} {p : ℕ}

theorem mem_allocated : p ∈ l.allocated ↔ ∃ c, l.cells p = some c := Option.isSome_iff_exists

theorem update_allocated {c : Cell α} (here : p ∈ l.allocated) (head : Option ℕ) (fresh : ℕ) :
    (⟨head, Function.update l.cells p (some c), fresh⟩ : LinkedStore α).allocated = l.allocated := by
  ext q
  by_cases same : q = p
  · subst same
    exact iff_of_true (by simp [allocated]) here
  · simp [allocated, Function.update_of_ne same]

theorem modify_allocated {f : Cell α → Cell α} (run : l.modify p f = some l') :
    l'.allocated = l.allocated := by
  unfold modify at run
  split at run
  · cases run
  · rename_i c here
    obtain rfl := Option.some.inj run
    exact update_allocated (mem_allocated.mpr ⟨c, here⟩) _ _

theorem pushFront_allocated {v : α} (run : l.pushFront v = some l') :
    l'.allocated = insert l.fresh l.allocated := by
  unfold pushFront at run
  obtain ⟨m, linked, rfl⟩ := Option.map_eq_some_iff.mp run
  have grown : (⟨l.head, Function.update l.cells l.fresh (some ⟨v, none, l.head⟩), l.fresh + 1⟩ :
      LinkedStore α).allocated = insert l.fresh l.allocated := by
    ext q
    by_cases same : q = l.fresh
    · subst same
      simp [allocated]
    · simp [allocated, same]
  change m.allocated = _
  cases hd : l.head with
  | none =>
      simp only [hd] at linked grown
      rwa [Option.some.inj linked] at grown
  | some q =>
      simp only [hd] at linked grown
      rw [modify_allocated linked, grown]

theorem unlink_allocated (run : l.unlink p = some l') : l'.allocated = l.allocated := by
  unfold unlink at run
  split at run
  · cases run
  · rename_i c here
    obtain ⟨m, forward, backward⟩ := Option.bind_eq_some_iff.mp run
    have first : m.allocated = l.allocated := by
      cases prev : c.prev with
      | none =>
          rw [prev] at forward
          obtain rfl := Option.some.inj forward
          rfl
      | some q =>
          rw [prev] at forward
          exact modify_allocated forward
    cases next : c.next with
    | none =>
        rw [next] at backward
        obtain rfl := Option.some.inj backward
        exact first
    | some q =>
        rw [next] at backward
        exact (modify_allocated backward).trans first

theorem free_allocated (l : LinkedStore α) (p : ℕ) : (l.free p).allocated = l.allocated \ {p} := by
  ext q
  by_cases same : q = p
  · subst same
    simp [allocated, free]
  · simp [allocated, free, same]

theorem forEachFrom_allocated {f : α → α} (fuel : ℕ) (at' : Option ℕ)
    (run : forEachFrom f fuel at' l = some l') : l'.allocated = l.allocated := by
  induction fuel generalizing at' l with
  | zero => cases run
  | succ fuel ih =>
      cases at' with
      | none =>
          obtain rfl := Option.some.inj run
          rfl
      | some p =>
          rw [forEachFrom] at run
          split at run
          · cases run
          · rename_i c here
            rw [ih _ run, update_allocated (mem_allocated.mpr ⟨c, here⟩)]

end Allocated

def All (P : α → Prop) (l : LinkedStore α) : Prop := ∀ p c, l.cells p = some c → P c.val

namespace All

variable {P : α → Prop} {l l' : LinkedStore α} {p : ℕ}

theorem empty (P : α → Prop) : All P (LinkedStore.empty : LinkedStore α) := by
  intro p c here
  cases here

theorem update (h : All P l) {c : Cell α} (here : P c.val) (head : Option ℕ) (fresh : ℕ) :
    All P ⟨head, Function.update l.cells p (some c), fresh⟩ := by
  intro q d found
  dsimp only at found
  by_cases same : q = p
  · subst same
    rw [Function.update_self] at found
    rwa [← Option.some.inj found]
  · rw [Function.update_of_ne same] at found
    exact h q d found

theorem modify (h : All P l) {f : Cell α → Cell α} (run : l.modify p f = some l')
    (keeps : ∀ c, P c.val → P (f c).val) : All P l' := by
  unfold LinkedStore.modify at run
  split at run
  · cases run
  · rename_i c here
    obtain rfl := Option.some.inj run
    exact h.update (keeps c (h p c here)) _ _

theorem setVal (h : All P l) {f : α → α} (run : l.setVal p f = some l')
    (keeps : ∀ v, P v → P (f v)) : All P l' :=
  h.modify run fun c => keeps c.val

theorem pushFront (h : All P l) {v : α} (new : P v) (run : l.pushFront v = some l') : All P l' := by
  unfold LinkedStore.pushFront at run
  obtain ⟨m, linked, rfl⟩ := Option.map_eq_some_iff.mp run
  have grown := h.update (p := l.fresh) (c := ⟨v, none, l.head⟩) new l.head (l.fresh + 1)
  cases hd : l.head with
  | none =>
      simp only [hd] at linked grown
      rwa [Option.some.inj linked] at grown
  | some q =>
      simp only [hd] at linked grown
      have stays : All P m := grown.modify linked fun _ => id
      exact stays

theorem setForward (h : All P l) {prev next : Option ℕ} (run : l.setForward prev next = some l') :
    All P l' := by
  cases prev with
  | none =>
      obtain rfl := Option.some.inj run
      exact h
  | some q => exact h.modify run fun _ => id

theorem setBackward (h : All P l) {prev next : Option ℕ}
    (run : l.setBackward next prev = some l') : All P l' := by
  cases next with
  | none =>
      obtain rfl := Option.some.inj run
      exact h
  | some q => exact h.modify run fun _ => id

theorem unlink (h : All P l) (run : l.unlink p = some l') : All P l' := by
  unfold LinkedStore.unlink at run
  split at run
  · cases run
  · obtain ⟨m, forward, backward⟩ := Option.bind_eq_some_iff.mp run
    exact (h.setForward forward).setBackward backward

theorem free (h : All P l) (p : ℕ) : All P (l.free p) := by
  intro q c found
  by_cases same : q = p
  · subst same
    have gone : (l.free q).cells q = none := Function.update_self _ _ _
    rw [gone] at found
    cases found
  · exact h q c ((Function.update_of_ne same _ _).symm.trans found)

theorem forEachFrom {f : α → α} (keeps : ∀ v, P v → P (f v)) (fuel : ℕ) (at' : Option ℕ)
    (h : All P l) (run : LinkedStore.forEachFrom f fuel at' l = some l') : All P l' := by
  induction fuel generalizing at' l with
  | zero => cases run
  | succ fuel ih =>
      cases at' with
      | none =>
          obtain rfl := Option.some.inj run
          exact h
      | some p =>
          rw [LinkedStore.forEachFrom] at run
          split at run
          · cases run
          · rename_i c here
            exact ih _ (h.update (keeps _ (h p c here)) _ _) run

theorem forEach (h : All P l) {f : α → α} (run : l.forEach f = some l')
    (keeps : ∀ v, P v → P (f v)) : All P l' :=
  forEachFrom keeps _ _ h run

theorem of_repr (h : All P l) {xs : List (ℕ × α)} (repr : Repr l xs) {x : ℕ × α} (mem : x ∈ xs) :
    P x.2 := by
  obtain ⟨a, b, split⟩ := List.append_of_mem mem
  exact h x.1 _ (repr.cell a x.1 x.2 b split)

end All

/-- Cells off the list are outside every operation on it. -/
def Frame (l l' : LinkedStore α) (xs : List (ℕ × α)) : Prop :=
  ∀ q < l.fresh, (∀ x ∈ xs, x.1 ≠ q) → l'.cells q = l.cells q

theorem setVal_repr {l : LinkedStore α} {a b : List (ℕ × α)} {p : ℕ} {v : α}
    (h : Repr l (a ++ (p, v) :: b)) (f : α → α) :
    ∃ l', l.setVal p f = some l' ∧ Repr l' (a ++ (p, f v) :: b) ∧ l'.fresh = l.fresh := by
  have here := h.cell a p v b rfl
  let c' : Cell α := ⟨f v, lastAddr a, headAddr b⟩
  refine ⟨{ l with cells := Function.update l.cells p (some c') },
    by simp only [setVal, modify, here, c'], ?_, rfl⟩
  refine ⟨h.head.trans (by simp [headAddr]), ?_, by simpa using h.nodup, ?_⟩
  · intro a' q w b' split
    change Function.update l.cells p _ q = _
    rcases split_append split with ⟨c, rfl, rfl⟩ | ⟨c, rfl, hb⟩
    · have hq : q ≠ p := h.addr_ne (x := (p, v)) (y := (q, w)) (by simp)
      rw [Function.update_of_ne hq, h.cell a' q w (c ++ (p, v) :: b) (by simp)]
      simp [headAddr]
    · cases c with
      | nil =>
          rw [List.nil_append, List.cons.injEq, Prod.mk.injEq] at hb
          obtain ⟨⟨rfl, rfl⟩, rfl⟩ := hb
          rw [Function.update_self, List.append_nil]
      | cons y c =>
          rw [List.cons_append, List.cons.injEq] at hb
          obtain ⟨rfl, rfl⟩ := hb
          have hq : q ≠ p := h.addr_ne (x := (p, v)) (y := (q, w)) (by simp)
          rw [Function.update_of_ne hq, h.cell (a ++ (p, v) :: c) q w b' (by simp)]
          simp [lastAddr]
  · intro x hx
    rcases List.mem_append.mp hx with hx | hx
    · exact h.below x (by simp [hx])
    · rcases List.mem_cons.mp hx with rfl | hx
      · exact h.below (p, v) (by simp)
      · exact h.below x (by simp [hx])

theorem pushFront_repr {l : LinkedStore α} {xs : List (ℕ × α)} (h : Repr l xs) (v : α) :
    ∃ l', l.pushFront v = some l' ∧ Repr l' ((l.fresh, v) :: xs) ∧ l'.fresh = l.fresh + 1 ∧
      Frame l l' xs := by
  let grown : LinkedStore α :=
    { l with
      cells := Function.update l.cells l.fresh (some ⟨v, none, l.head⟩)
      fresh := l.fresh + 1 }
  have old : ∀ x ∈ xs, x.1 ≠ l.fresh := fun x hx => (h.below x hx).ne
  have nodup : (((l.fresh, v) :: xs).map Prod.fst).Nodup := by
    rw [List.map_cons, List.nodup_cons, List.mem_map]
    refine ⟨?_, h.nodup⟩
    rintro ⟨x, hx, same⟩
    exact old x hx same
  have below : ∀ x ∈ (l.fresh, v) :: xs, x.1 < l.fresh + 1 := by
    intro x hx
    rcases List.mem_cons.mp hx with rfl | hx
    · exact Nat.lt_succ_self _
    · exact (h.below x hx).trans (Nat.lt_succ_self _)
  cases xs with
  | nil =>
      have head : l.head = none := h.head
      refine ⟨{ grown with head := some l.fresh }, by simp [pushFront, head, grown],
        ⟨rfl, ?_, nodup, below⟩, rfl, fun q hq _ => Function.update_of_ne hq.ne _ _⟩
      intro a p w b split
      cases a with
      | nil =>
          simp only [List.nil_append, List.cons.injEq, Prod.mk.injEq] at split
          obtain ⟨⟨rfl, rfl⟩, rfl⟩ := split
          simp [grown, head]
      | cons y a => simp at split
  | cons y ys =>
      obtain ⟨p, w⟩ := y
      have head : l.head = some p := h.head
      have hp : p ≠ l.fresh := old (p, w) (by simp)
      have first := h.cell [] p w ys rfl
      have first' : grown.cells p = some ⟨w, none, headAddr ys⟩ :=
        (Function.update_of_ne hp _ _).trans first
      let c' : Cell α := ⟨w, some l.fresh, headAddr ys⟩
      refine ⟨{ grown with
          head := some l.fresh
          cells := Function.update grown.cells p (some c') }, ?_,
        ⟨rfl, ?_, nodup, below⟩, rfl, ?_⟩
      · have linked : grown.modify p (fun c => { c with prev := some l.fresh }) =
            some { grown with cells := Function.update grown.cells p (some c') } := by
          simp only [modify, first', c']
        have pushed : l.pushFront v = (grown.modify p fun c => { c with prev := some l.fresh }).map
            fun l' => { l' with head := some l.fresh } := by
          simp only [pushFront, grown, head]
        rw [pushed, linked]
        rfl
      · intro a q u b split
        change Function.update grown.cells p (some c') q = _
        cases a with
        | nil =>
            simp only [List.nil_append, List.cons.injEq, Prod.mk.injEq] at split
            obtain ⟨⟨rfl, rfl⟩, rfl⟩ := split
            rw [Function.update_of_ne hp.symm]
            simp [grown, head]
        | cons z a =>
            simp only [List.cons_append, List.cons.injEq] at split
            obtain ⟨rfl, split⟩ := split
            cases a with
            | nil =>
                simp only [List.nil_append, List.cons.injEq, Prod.mk.injEq] at split
                obtain ⟨⟨rfl, rfl⟩, rfl⟩ := split
                rw [Function.update_self]
                rfl
            | cons y a =>
                simp only [List.cons_append, List.cons.injEq] at split
                obtain ⟨rfl, rfl⟩ := split
                have hq : q ≠ p :=
                  Repr.addr_ne (a := []) (x := (p, w)) (y := (q, u)) h (by simp)
                have fresh : q ≠ l.fresh := old (q, u) (by simp)
                rw [Function.update_of_ne hq]
                refine (Function.update_of_ne fresh _ _).trans ?_
                rw [h.cell ((p, w) :: a) q u b rfl]
                simp [lastAddr]
      · intro q hq off
        have hqp : q ≠ p := fun same => off (p, w) (by simp) same.symm
        exact (Function.update_of_ne hqp _ _).trans (Function.update_of_ne hq.ne _ _)

theorem setForward_cells {l : LinkedStore α} {a b : List (ℕ × α)} {x : ℕ × α}
    (h : Repr l (a ++ x :: b)) (n : Option ℕ) :
    ∃ l', l.setForward (lastAddr a) n = some l' ∧ l'.fresh = l.fresh ∧
      l'.head = (if a = [] then n else l.head) ∧
      (∀ a' q w, a = a' ++ [(q, w)] → l'.cells q = some ⟨w, lastAddr a', n⟩) ∧
      ∀ q, lastAddr a ≠ some q → l'.cells q = l.cells q := by
  rcases List.eq_nil_or_concat' a with rfl | ⟨a', ⟨q, w⟩, rfl⟩
  · exact ⟨{ l with head := n }, rfl, rfl, rfl, fun a' q w hq => by simp at hq, fun q _ => rfl⟩
  · have here := h.cell a' q w (x :: b) (by simp)
    refine ⟨{ l with cells := Function.update l.cells q (some ⟨w, lastAddr a', n⟩) }, ?_, rfl, ?_,
      ?_, ?_⟩
    · simp only [lastAddr_concat, setForward, modify, here]
    · simp
    · intro a'' q' w' same
      obtain ⟨rfl, last⟩ := List.append_inj' same rfl
      simp only [List.cons.injEq, Prod.mk.injEq, and_true] at last
      obtain ⟨rfl, rfl⟩ := last
      exact Function.update_self _ _ _
    · intro q' hq'
      rw [lastAddr_concat] at hq'
      exact Function.update_of_ne (fun same => hq' (by rw [same])) _ _

theorem setBackward_cells {l : LinkedStore α} {b : List (ℕ × α)} (n : Option ℕ)
    (stored : ∀ r u b', b = (r, u) :: b' → ∃ m, l.cells r = some ⟨u, m, headAddr b'⟩) :
    ∃ l', l.setBackward (headAddr b) n = some l' ∧ l'.fresh = l.fresh ∧ l'.head = l.head ∧
      (∀ r u b', b = (r, u) :: b' → l'.cells r = some ⟨u, n, headAddr b'⟩) ∧
      ∀ q, headAddr b ≠ some q → l'.cells q = l.cells q := by
  cases b with
  | nil => exact ⟨l, rfl, rfl, rfl, fun r u b' hr => by simp at hr, fun q _ => rfl⟩
  | cons y b =>
      obtain ⟨r, u⟩ := y
      obtain ⟨m, here⟩ := stored r u b rfl
      refine ⟨{ l with cells := Function.update l.cells r (some ⟨u, n, headAddr b⟩) }, ?_, rfl, rfl,
        ?_, ?_⟩
      · simp only [headAddr_cons, setBackward, modify, here]
      · intro r' u' b' same
        simp only [List.cons.injEq, Prod.mk.injEq] at same
        obtain ⟨⟨rfl, rfl⟩, rfl⟩ := same
        exact Function.update_self _ _ _
      · intro q hq
        exact Function.update_of_ne (fun same => hq (by rw [same]; rfl)) _ _

theorem unlink_repr {l : LinkedStore α} {a b : List (ℕ × α)} {p : ℕ} {v : α}
    (h : Repr l (a ++ (p, v) :: b)) :
    ∃ l', l.unlink p = some l' ∧ Repr l' (a ++ b) ∧ l'.fresh = l.fresh ∧
      l'.cells p = some ⟨v, lastAddr a, headAddr b⟩ := by
  have here := h.cell a p v b rfl
  have nodup : ((a ++ b).map Prod.fst).Nodup := by
    have := h.nodup
    rw [List.map_append, List.map_cons, List.nodup_middle, List.nodup_cons,
      ← List.map_append] at this
    exact this.2
  have across : ∀ x ∈ a, ∀ y ∈ b, x.1 ≠ y.1 := by
    intro x hx y hy
    rw [List.map_append, List.nodup_append] at nodup
    exact nodup.2.2 _ (List.mem_map_of_mem hx) _ (List.mem_map_of_mem hy)
  have offFirst : ∀ x ∈ a, headAddr b ≠ some x.1 := by
    intro x hx same
    obtain ⟨y, hy, hyx⟩ := exists_of_headAddr same
    exact across x hx y hy hyx.symm
  have offLast : ∀ y ∈ b, lastAddr a ≠ some y.1 := by
    intro y hy same
    obtain ⟨x, hx, hxy⟩ := exists_of_lastAddr same
    exact across x hx y hy hxy
  obtain ⟨l₁, forward, fresh₁, head₁, last₁, other₁⟩ := setForward_cells h (headAddr b)
  obtain ⟨l₂, backward, fresh₂, head₂, first₂, other₂⟩ :=
    setBackward_cells (l := l₁) (b := b) (lastAddr a) (by
      rintro r u b' rfl
      refine ⟨some p, ?_⟩
      rw [other₁ r (offLast (r, u) (by simp)), h.cell (a ++ [(p, v)]) r u b' (by simp),
        lastAddr_concat])
  refine ⟨l₂, by simp only [unlink, here, forward, Option.bind_some, backward],
    ⟨?_, ?_, nodup, ?_⟩, fresh₂.trans fresh₁, ?_⟩
  · rw [head₂, head₁]
    cases a with
    | nil => rfl
    | cons y a => exact h.head
  · intro a' q w b' split
    rcases split_append split with ⟨c, rfl, rfl⟩ | ⟨c, rfl, rfl⟩
    · rw [other₂ q (offFirst (q, w) (by simp))]
      cases c with
      | nil => exact last₁ a' q w rfl
      | cons y c =>
          have inner : lastAddr (a' ++ (q, w) :: y :: c) ≠ some q := by
            intro same
            have tail : lastAddr (y :: c) = some q := by
              simpa [lastAddr, List.getLast?_cons] using same
            obtain ⟨x, hx, hxq⟩ := exists_of_lastAddr tail
            have around : Repr l (a' ++ (q, w) :: (y :: c ++ (p, v) :: b)) := by simpa using h
            have behind : x ∈ a' ++ (y :: c ++ (p, v) :: b) :=
              List.mem_append_right _ (List.mem_append_left _ hx)
            exact around.addr_ne (x := (q, w)) behind hxq
          rw [other₁ q inner, h.cell a' q w (y :: c ++ (p, v) :: b) (by simp)]
          rfl
    · cases c with
      | nil => simpa using first₂ q w b' rfl
      | cons y c =>
          have inner : headAddr (y :: c ++ (q, w) :: b') ≠ some q := by
            intro same
            have around : Repr l ((a ++ (p, v) :: y :: c) ++ (q, w) :: b') := by simpa using h
            exact around.addr_ne (x := (q, w)) (y := y) (by simp) (Option.some.inj same)
          rw [other₂ q inner, other₁ q (offLast (q, w) (by simp)),
            h.cell (a ++ (p, v) :: y :: c) q w b' (by simp)]
          simp [lastAddr]
  · intro x hx
    rw [fresh₂, fresh₁]
    refine h.below x ?_
    rcases List.mem_append.mp hx with hx | hx <;> simp [hx]
  · have first : headAddr b ≠ some p := by
      intro same
      obtain ⟨y, hy, hyp⟩ := exists_of_headAddr same
      exact h.addr_ne (x := (p, v)) (List.mem_append_right a hy) hyp
    have last : lastAddr a ≠ some p := by
      intro same
      obtain ⟨y, hy, hyp⟩ := exists_of_lastAddr same
      exact h.addr_ne (x := (p, v)) (List.mem_append_left b hy) hyp
    rw [other₂ p first, other₁ p last, here]

theorem searchFrom_repr {l : LinkedStore α} {a b : List (ℕ × α)} (h : Repr l (a ++ b))
    (test : α → Bool) {fuel : ℕ} (enough : b.length < fuel) :
    l.searchFrom test fuel (headAddr b) = some ((b.find? fun x => test x.2).map Prod.fst) := by
  induction b generalizing a fuel with
  | nil =>
      obtain ⟨fuel, rfl⟩ := Nat.exists_eq_add_of_lt enough
      simp [searchFrom]
  | cons y b ih =>
      obtain ⟨p, v⟩ := y
      cases fuel with
      | zero => simp at enough
      | succ fuel =>
          have here := h.cell a p v b rfl
          rw [headAddr_cons]
          simp only [searchFrom, here]
          cases hit : test v with
          | true => simp [hit]
          | false =>
              have rest : Repr l ((a ++ [(p, v)]) ++ b) := by simpa using h
              have := ih rest (show b.length < fuel by simpa using enough)
              simpa [hit] using this

theorem search_repr {l : LinkedStore α} {xs : List (ℕ × α)} (h : Repr l xs) (test : α → Bool) :
    l.search test = some ((xs.find? fun x => test x.2).map Prod.fst) := by
  rw [search, h.head]
  exact searchFrom_repr (a := []) h test (Nat.lt_succ_of_le h.length_le)

theorem contentsFrom_repr {l : LinkedStore α} {a b : List (ℕ × α)} (h : Repr l (a ++ b))
    {fuel : ℕ} (enough : b.length < fuel) :
    l.contentsFrom fuel (headAddr b) = b.map Prod.snd := by
  induction b generalizing a fuel with
  | nil =>
      obtain ⟨fuel, rfl⟩ := Nat.exists_eq_add_of_lt enough
      simp [contentsFrom]
  | cons y b ih =>
      obtain ⟨p, v⟩ := y
      cases fuel with
      | zero => simp at enough
      | succ fuel =>
          have here := h.cell a p v b rfl
          have rest : Repr l ((a ++ [(p, v)]) ++ b) := by simpa using h
          rw [headAddr_cons]
          simp only [contentsFrom, here]
          rw [ih rest (show b.length < fuel by simpa using enough), List.map_cons]

theorem contents_repr {l : LinkedStore α} {xs : List (ℕ × α)} (h : Repr l xs) :
    l.contents = xs.map Prod.snd := by
  rw [contents, h.head]
  exact contentsFrom_repr (a := []) h (Nat.lt_succ_of_le h.length_le)

theorem forEachFrom_repr (f : α → α) {l : LinkedStore α} {a b : List (ℕ × α)}
    (h : Repr l (a ++ b)) {fuel : ℕ} (enough : b.length < fuel) :
    ∃ l', forEachFrom f fuel (headAddr b) l = some l' ∧
      Repr l' (a ++ b.map fun x => (x.1, f x.2)) ∧ l'.fresh = l.fresh := by
  induction b generalizing a fuel l with
  | nil =>
      obtain ⟨fuel, rfl⟩ := Nat.exists_eq_add_of_lt enough
      exact ⟨l, by simp [forEachFrom], by simpa using h, rfl⟩
  | cons y b ih =>
      obtain ⟨p, v⟩ := y
      cases fuel with
      | zero => simp at enough
      | succ fuel =>
          have here := h.cell a p v b rfl
          obtain ⟨l₁, changed, h₁, fresh₁⟩ := setVal_repr h f
          let c' : Cell α := ⟨f v, lastAddr a, headAddr b⟩
          have same : l₁ = { l with cells := Function.update l.cells p (some c') } := by
            simp only [setVal, modify, here] at changed
            exact (Option.some.inj changed).symm
          have rest : Repr l₁ ((a ++ [(p, f v)]) ++ b) := by simpa using h₁
          obtain ⟨l₂, walk, h₂, fresh₂⟩ := ih rest (show b.length < fuel by simpa using enough)
          refine ⟨l₂, ?_, by simpa using h₂, fresh₂.trans fresh₁⟩
          rw [headAddr_cons]
          simp only [forEachFrom, here]
          rw [← same, walk]

theorem forEach_repr {l : LinkedStore α} {xs : List (ℕ × α)} (h : Repr l xs) (f : α → α) :
    ∃ l', l.forEach f = some l' ∧ Repr l' (xs.map fun x => (x.1, f x.2)) ∧
      l'.fresh = l.fresh := by
  rw [forEach, h.head]
  exact forEachFrom_repr (a := []) f h (Nat.lt_succ_of_le h.length_le)

theorem walkFrom_repr {l : LinkedStore α} {a b : List (ℕ × α)} (h : Repr l (a ++ b)) :
    l.walkFrom b.length (headAddr b) = some b := by
  induction b generalizing a with
  | nil => rfl
  | cons y b ih =>
      obtain ⟨p, v⟩ := y
      have here := h.cell a p v b rfl
      have rest : Repr l ((a ++ [(p, v)]) ++ b) := by simpa using h
      rw [headAddr_cons, List.length_cons]
      simp only [walkFrom, here]
      rw [ih rest, Option.map_some]

namespace Repr

variable {l : LinkedStore α} {xs : List (ℕ × α)} {x y : ℕ × α} {c d : Cell α}

theorem head_prev (h : Repr l xs) :
    l.head = none ∨ ∃ p c, l.head = some p ∧ l.cells p = some c ∧ c.prev = none := by
  cases xs with
  | nil => exact .inl h.head
  | cons x xs => exact .inr ⟨x.1, _, h.head, h.cell [] x.1 x.2 xs rfl, rfl⟩

theorem prev_mem (h : Repr l xs) (hx : x ∈ xs) (hc : l.cells x.1 = some c) {q : ℕ}
    (prev : c.prev = some q) : q ∈ xs.map Prod.fst := by
  obtain ⟨a, b, rfl⟩ := List.append_of_mem hx
  obtain rfl := Option.some.inj (hc.symm.trans (h.cell a x.1 x.2 b rfl))
  obtain ⟨y, hy, rfl⟩ := exists_of_lastAddr prev
  exact List.mem_map_of_mem (List.mem_append_left _ hy)

theorem next_iff_prev (h : Repr l xs) (hx : x ∈ xs) (hy : y ∈ xs) (hc : l.cells x.1 = some c)
    (hd : l.cells y.1 = some d) : c.next = some y.1 ↔ d.prev = some x.1 := by
  constructor
  · intro next
    obtain ⟨a, b, rfl⟩ := List.append_of_mem hx
    obtain rfl := Option.some.inj (hc.symm.trans (h.cell a x.1 x.2 b rfl))
    cases b with
    | nil => cases next
    | cons z b =>
        have same : z.1 = y.1 := Option.some.inj next
        have behind := h.cell (a ++ [x]) z.1 z.2 b (by simp)
        rw [same, hd] at behind
        rw [Option.some.inj behind]
        exact lastAddr_concat a x
  · intro prev
    obtain ⟨a, b, rfl⟩ := List.append_of_mem hy
    obtain rfl := Option.some.inj (hd.symm.trans (h.cell a y.1 y.2 b rfl))
    rcases List.eq_nil_or_concat a with rfl | ⟨a, z, rfl⟩
    · cases prev
    · rw [List.concat_eq_append] at h prev
      have same : z.1 = x.1 := Option.some.inj ((lastAddr_concat a z).symm.trans prev)
      have before := h.cell a z.1 z.2 (y :: b) (by simp)
      rw [same, hc] at before
      rw [Option.some.inj before]
      exact headAddr_cons y b

end Repr

end LinkedStore

end AeEventLoop
