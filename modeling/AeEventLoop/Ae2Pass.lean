import AeEventLoop.Ae2Steps
import Mathlib.Data.Finset.Card
import Mathlib.Data.Finset.Lattice.Lemmas
import Mathlib.Data.Prod.Lex
import Mathlib.Algebra.Order.Group.Multiset
import Mathlib.Tactic.Abel

/-! A whole pass of `ae2.cpp` under a clock that never goes back, callbacks that create timers
with a delay of at least a millisecond and return `AE_NOMORE` or at least one, and finalizers
that leave the timers alone. Every new deadline then lies behind the snapshot, so the top stays
the top while user code runs, and the pass calls each due timer once. -/

namespace AeEventLoop.Ae2

open PriorityQueue

structure Polite (env : Env Int) : Prop where
  clock : Monotonic env
  creates : ∀ tr te ms proc data fin,
    TimerCall.create ms proc data fin ∈ (env.timeProc tr te).calls → 1 ≤ ms
  returns : ∀ tr te, (env.timeProc tr te).retval = AE_NOMORE ∨ 1 ≤ (env.timeProc tr te).retval
  finalizers : ∀ tr te, env.finalizerProc tr te = []

theorem Polite.onward {env : Env Int} (polite : Polite env) : Onward env where
  clock := polite.clock
  creates tr te ms proc data fin called :=
    le_trans (by decide) (polite.creates tr te ms proc data fin called)
  finals tr te ms proc data fin called := by
    rw [polite.finalizers] at called
    cases called
  returns tr te := (polite.returns tr te).imp_right (le_trans (by decide))

theorem not_earlier_of_due {a b : TimeEvent} {now : Int × Int} (ha : Due a.deadline now)
    (hb : ¬ Due b.deadline now) : ¬ Earlier b a := by
  rw [earlier_iff]
  simp only [Due, TimeEvent.deadline] at ha hb
  omega

theorem not_due_of_not_earlier {a b : TimeEvent} {now : Int × Int} (ha : ¬ Due a.deadline now)
    (h : ¬ Earlier b a) : ¬ Due b.deadline now := by
  rw [earlier_iff] at h
  simp only [Due, TimeEvent.deadline] at ha ⊢
  omega

variable {Q : Type}

def tombstones (s₀ : EventLoop Q) (pre : List (Event Int)) : Finset Int :=
  s₀.setDelTimeId ∪ (deletedIn pre).toFinset

theorem tombstones_append (s₀ : EventLoop Q) (a b : List (Event Int)) :
    tombstones s₀ (a ++ b) = tombstones s₀ a ∪ (deletedIn b).toFinset := by
  ext id
  simp [tombstones]

variable [PriorityQueue Q TimeEvent Earlier]

/-- What holds at the loop head of a pass that started in `s₀` and has written `seg` so far. -/
structure Passing (now : Int × Int) (s₀ s : EventLoop Q) (n : Int) (seg : List (Event Int)) :
    Prop where
  trace : s.trace = s₀.trace ++ seg
  tick : s₀.tick ≤ s.tick
  idsOk : IdsOk s
  dels : s.setDelTimeId = tombstones s₀ seg
  account : (((reachedIn seg).map Prod.fst : List TimeEvent) : Multiset TimeEvent) +
    elems s.timeMinHead = (createdIn seg : Multiset TimeEvent) +
      (rearmedIn seg : Multiset TimeEvent) + elems s₀.timeMinHead
  notDue : ∀ x, x ∈ createdIn seg ∨ x ∈ rearmedIn seg → ¬ Due x.deadline now
  count : n = (calledIn seg).length
  due : ∀ te ∈ calledIn seg, Due te.deadline now
  sub : (calledIn seg).Sublist ((reachedIn seg).map Prod.fst)
  order : (calledIn seg).Pairwise fun a b => ¬ Earlier b a
  bound : ∀ a ∈ calledIn seg, ∀ b ∈ elems s.timeMinHead, Due b.deadline now → ¬ Earlier b a
  reachedLive : ∀ pre te at', Occurs seg pre (.reached te at') → te.id ∉ tombstones s₀ pre →
    te ∈ calledIn seg
  calledLive : ∀ pre te, Occurs seg pre (.called te) → te.id ∉ tombstones s₀ pre
  reachedNow : ∀ te at', .reached te at' ∈ seg → at' = now
  calledReached : ∀ te ∈ calledIn seg, ∃ pre, Occurs seg pre (.reached te now) ∧
    te.id ∉ tombstones s₀ pre

theorem Passing.start {now : Int × Int} {s₀ : EventLoop Q} (ok : IdsOk s₀) :
    Passing now s₀ { s₀ with tick := s₀.tick + 1 } 0 [] where
  trace := by simp
  tick := Nat.le_succ _
  idsOk := ⟨ok.nodup, ok.below⟩
  dels := by simp [tombstones]
  account := by simp
  notDue := by simp
  count := rfl
  due := by simp
  sub := by simp
  order := List.Pairwise.nil
  bound := by simp
  reachedLive := by simp
  calledLive := by simp
  reachedNow := by simp
  calledReached := by simp

/-- The part of the trace one turn adds: the timer is reached first, and is called right then
if it is not tombstoned. -/
def TurnTrace (now : Int × Int) (dels : Finset Int) (te : TimeEvent) (new : List (Event Int)) :
    Prop :=
  ∃ rest, new = .reached te now :: rest ∧ reachedIn rest = [] ∧
    (te.id ∈ dels ∧ calledIn rest = [] ∨
      te.id ∉ dels ∧ Due te.deadline now ∧ ∃ rest', rest = .called te :: rest' ∧ calledIn rest' = [])

section TurnTrace

variable {now : Int × Int} {dels : Finset Int} {te : TimeEvent} {new : List (Event Int)}

theorem TurnTrace.reached_eq (h : TurnTrace now dels te new) : reachedIn new = [(te, now)] := by
  obtain ⟨rest, rfl, quiet, -⟩ := h
  simp [quiet]

theorem TurnTrace.called_eq (h : TurnTrace now dels te new) :
    calledIn new = if te.id ∈ dels then [] else [te] := by
  obtain ⟨rest, rfl, -, ⟨marked, quiet⟩ | ⟨live, -, rest', rfl, quiet⟩⟩ := h
  · simp [marked, quiet]
  · simp [live, quiet]

theorem TurnTrace.mem_called (h : TurnTrace now dels te new) {x : TimeEvent} :
    x ∈ calledIn new ↔ x = te ∧ te.id ∉ dels := by
  rw [h.called_eq]
  split_ifs with marked <;> simp [marked]

theorem TurnTrace.due (h : TurnTrace now dels te new) (live : te.id ∉ dels) :
    Due te.deadline now := by
  obtain ⟨rest, rfl, -, ⟨marked, -⟩ | ⟨-, due, -⟩⟩ := h
  · exact absurd marked live
  · exact due

theorem TurnTrace.occurs_reached (h : TurnTrace now dels te new) {pre : List (Event Int)}
    {x : TimeEvent} {at' : Int × Int} (hx : Occurs new pre (.reached x at')) :
    pre = [] ∧ x = te ∧ at' = now := by
  obtain ⟨rest, rfl, quiet, -⟩ := h
  rcases occurs_cons.mp hx with ⟨rfl, same⟩ | ⟨c, -, later⟩
  · injection same with hte hnow
    exact ⟨rfl, hte, hnow⟩
  · have := mem_reachedIn.mpr later.mem
    rw [quiet] at this
    exact absurd this List.not_mem_nil

theorem TurnTrace.occurs_called (h : TurnTrace now dels te new) {pre : List (Event Int)}
    {x : TimeEvent} (hx : Occurs new pre (.called x)) :
    x = te ∧ te.id ∉ dels ∧ deletedIn pre = [] := by
  obtain ⟨rest, rfl, -, ⟨-, quiet⟩ | ⟨live, -, rest', rfl, quiet⟩⟩ := h
  · rcases occurs_cons.mp hx with ⟨-, same⟩ | ⟨c, -, later⟩
    · cases same
    · have := mem_calledIn.mpr later.mem
      rw [quiet] at this
      exact absurd this List.not_mem_nil
  · rcases occurs_cons.mp hx with ⟨-, same⟩ | ⟨c, rfl, later⟩
    · cases same
    · rcases occurs_cons.mp later with ⟨rfl, same⟩ | ⟨d, -, again⟩
      · injection same with hte
        exact ⟨hte, live, by simp⟩
      · have := mem_calledIn.mpr again.mem
        rw [quiet] at this
        exact absurd this List.not_mem_nil

end TurnTrace

/-- One turn that sets nothing to a due deadline: the top `te` is gone, and what came instead is not
due. Ids from `next` on were issued in the pass. -/
structure Advance (now : Int × Int) (next : Int) (s t : EventLoop Q) (te : TimeEvent)
    (new : List (Event Int)) : Prop where
  shape : TurnTrace now s.setDelTimeId te new
  trace : t.trace = s.trace ++ new
  tick : s.tick ≤ t.tick
  idsOk : IdsOk t
  dels : t.setDelTimeId = s.setDelTimeId ∪ (deletedIn new).toFinset
  top : top s.timeMinHead = some te
  account : te ::ₘ elems t.timeMinHead = (createdIn new : Multiset TimeEvent) +
    (rearmedIn new : Multiset TimeEvent) + elems s.timeMinHead
  notDue : ∀ x, x ∈ createdIn new ∨ x ∈ rearmedIn new → ¬ Due x.deadline now
  newIds : ∀ x ∈ createdIn new, next ≤ x.id
  marked : te.id ∈ s.setDelTimeId → rearmedIn new = []

section Advance

variable {now : Int × Int} {next : Int} {s₀ s t : EventLoop Q} {n : Int} {te : TimeEvent}
  {seg new : List (Event Int)}

theorem Advance.due_mem (adv : Advance now next s t te new) {x : TimeEvent}
    (hx : x ∈ elems t.timeMinHead) (due : Due x.deadline now) : x ∈ elems s.timeMinHead := by
  have grown : x ∈ te ::ₘ elems t.timeMinHead := Multiset.mem_cons_of_mem hx
  rw [adv.account, Multiset.mem_add, Multiset.mem_add] at grown
  rcases grown with fresh | old
  · exact absurd due (adv.notDue x (by simpa using fresh))
  · exact old

theorem Passing.extend (h : Passing now s₀ s n seg) (adv : Advance now next s t te new) :
    Passing now s₀ t (n + (calledIn new).length) (seg ++ new) where
  trace := by rw [adv.trace, h.trace, List.append_assoc]
  tick := h.tick.trans adv.tick
  idsOk := adv.idsOk
  dels := by rw [adv.dels, h.dels, tombstones_append]
  account := by
    have before := h.account
    have turn := adv.account
    rw [← Multiset.singleton_add] at turn
    simp only [reachedIn_append, createdIn_append, rearmedIn_append, List.map_append,
      adv.shape.reached_eq, List.map_cons, List.map_nil, ← Multiset.coe_add,
      Multiset.coe_singleton]
    rw [Multiset.add_assoc, turn]
    calc _ = (createdIn new : Multiset TimeEvent) + (rearmedIn new : Multiset TimeEvent) +
          (((reachedIn seg).map Prod.fst : List TimeEvent) + elems s.timeMinHead) := by abel
      _ = _ := by rw [before]; abel
  notDue x hx := by
    simp only [createdIn_append, rearmedIn_append, List.mem_append] at hx
    rcases hx with (old | new) | (old | new)
    · exact h.notDue x (.inl old)
    · exact adv.notDue x (.inl new)
    · exact h.notDue x (.inr old)
    · exact adv.notDue x (.inr new)
  count := by rw [h.count, calledIn_append, List.length_append, Nat.cast_add]
  due x hx := by
    rw [calledIn_append, List.mem_append, adv.shape.mem_called] at hx
    rcases hx with old | ⟨rfl, live⟩
    · exact h.due x old
    · exact adv.shape.due live
  sub := by
    rw [calledIn_append, reachedIn_append, List.map_append, adv.shape.reached_eq,
      adv.shape.called_eq]
    refine h.sub.append ?_
    split_ifs <;> simp
  order := by
    rw [calledIn_append, List.pairwise_append]
    refine ⟨h.order, ?_, ?_⟩
    · rw [adv.shape.called_eq]
      split_ifs <;> simp
    · intro a ha b hb
      obtain ⟨rfl, live⟩ := adv.shape.mem_called.mp hb
      exact h.bound a ha b (top_mem adv.top) (adv.shape.due live)
  bound a ha b hb due := by
    rw [calledIn_append, List.mem_append, adv.shape.mem_called] at ha
    rcases ha with old | ⟨rfl, -⟩
    · exact h.bound a old b (adv.due_mem hb due) due
    · exact top_first adv.top b (adv.due_mem hb due)
  reachedLive pre x at' hx live := by
    rw [calledIn_append, List.mem_append]
    rcases occurs_append.mp hx with old | ⟨c, rfl, new⟩
    · exact .inl (h.reachedLive pre x at' old live)
    · obtain ⟨rfl, rfl, -⟩ := adv.shape.occurs_reached new
      rw [List.append_nil, ← h.dels] at live
      exact .inr (adv.shape.mem_called.mpr ⟨rfl, live⟩)
  calledLive pre x hx := by
    rcases occurs_append.mp hx with old | ⟨c, rfl, new⟩
    · exact h.calledLive pre x old
    · obtain ⟨rfl, live, quiet⟩ := adv.shape.occurs_called new
      rw [tombstones_append, quiet, ← h.dels]
      simpa using live
  reachedNow x at' hx := by
    rcases List.mem_append.mp hx with old | new
    · exact h.reachedNow x at' old
    · obtain ⟨pre, occurs⟩ := exists_occurs new
      exact (adv.shape.occurs_reached occurs).2.2
  calledReached x hx := by
    rw [calledIn_append, List.mem_append, adv.shape.mem_called] at hx
    rcases hx with old | ⟨rfl, live⟩
    · obtain ⟨pre, reached, live⟩ := h.calledReached x old
      exact ⟨pre, reached.append_right new, live⟩
    · obtain ⟨rest, rfl, -⟩ := adv.shape
      refine ⟨seg, ⟨rest, rfl⟩, ?_⟩
      rwa [← h.dels]

/-- Each turn removes a due timer, or a tombstoned one that was there when the pass began, or lowers
`rest`. -/
def passMeasure (now : Int × Int) (next : Int) (rest : EventLoop Q → ℕ) (s : EventLoop Q) :
    ℕ ×ₗ ℕ ×ₗ ℕ :=
  toLex (((elems s.timeMinHead).filter fun te => Due te.deadline now).card,
    toLex (((elems s.timeMinHead).filter fun te => te.id < next).card, rest s))

theorem Advance.due_filter (adv : Advance now next s t te new) :
    (te ::ₘ elems t.timeMinHead).filter (fun x => Due x.deadline now) =
      (elems s.timeMinHead).filter fun x => Due x.deadline now := by
  rw [adv.account, Multiset.filter_add, Multiset.filter_add, Multiset.filter_eq_nil.mpr,
    Multiset.filter_eq_nil.mpr, Multiset.zero_add, Multiset.zero_add]
  · exact fun x hx => adv.notDue x (.inr (Multiset.mem_coe.mp hx))
  · exact fun x hx => adv.notDue x (.inl (Multiset.mem_coe.mp hx))

theorem Advance.old_filter (adv : Advance now next s t te new) (noRearm : rearmedIn new = []) :
    (te ::ₘ elems t.timeMinHead).filter (fun x => x.id < next) =
      (elems s.timeMinHead).filter fun x => x.id < next := by
  rw [adv.account, noRearm, Multiset.coe_nil, Multiset.add_zero, Multiset.filter_add,
    Multiset.filter_eq_nil.mpr, Multiset.zero_add]
  exact fun x hx => not_lt.mpr (adv.newIds x (Multiset.mem_coe.mp hx))

theorem Advance.lower (adv : Advance now next s t te new) {rest : EventLoop Q → ℕ}
    (fewer : te.id ∈ s.setDelTimeId → next ≤ te.id → rest t < rest s) :
    passMeasure now next rest t < passMeasure now next rest s := by
  have split := adv.due_filter
  rw [passMeasure, passMeasure, Prod.Lex.toLex_lt_toLex, Prod.Lex.toLex_lt_toLex]
  dsimp only
  by_cases due : Due te.deadline now
  · left
    rw [← split, Multiset.filter_cons_of_pos (p := fun x : TimeEvent => Due x.deadline now) _ due,
      Multiset.card_cons]
    exact Nat.lt_succ_self _
  · right
    have marked : te.id ∈ s.setDelTimeId := by
      by_contra live
      exact due (adv.shape.due live)
    have old := adv.old_filter (adv.marked marked)
    rw [← split, Multiset.filter_cons_of_neg (p := fun x : TimeEvent => Due x.deadline now) _ due,
      ← old]
    refine ⟨rfl, ?_⟩
    by_cases found : te.id < next
    · left
      rw [Multiset.filter_cons_of_pos (p := fun x : TimeEvent => x.id < next) _ found,
        Multiset.card_cons]
      exact Nat.lt_succ_self _
    · right
      rw [Multiset.filter_cons_of_neg (p := fun x : TimeEvent => x.id < next) _ found]
      exact ⟨rfl, fewer marked (not_lt.mp found)⟩

end Advance

/-- In the turn that finds the top of `s`, in a pass that started in `s₀`, nothing is set to a
deadline due at the pass's reading, and a finalizer creates nothing earlier than its own timer. -/
structure Defers (env : Env Int) (s₀ s : EventLoop Q) : Prop where
  creates : ∀ te, top s.timeMinHead = some te →
    ∀ d ∈ createdDeadlines env s.tick (turnCalls env (snapshot env s₀) s te),
      ¬ Due d (snapshot env s₀)
  rearms : ∀ te, top s.timeMinHead = some te → te.id ∉ s.setDelTimeId →
    Due te.deadline (snapshot env s₀) →
    (env.timeProc (s.trace ++ [.reached te (snapshot env s₀)]) te).retval ≠ AE_NOMORE →
      ¬ Due (rearmDeadline env (snapshot env s₀) s te) (snapshot env s₀)
  finalizer : ∀ te, top s.timeMinHead = some te → te.id ∈ s.setDelTimeId →
    ∀ d ∈ createdDeadlines env s.tick (turnCalls env (snapshot env s₀) s te),
      ¬ Earlier (te.setWhen d) te

/-- What the finalizers of timers made in the pass call, at the time of each call, is as `P` says. -/
def NewFinalizers (env : Env Int) (s₀ : EventLoop Q)
    (P : EventLoop Q → List (TimerCall Int) → Prop) : Prop :=
  ∀ c, PassVisits env s₀ c → ∀ te, top c.1.timeMinHead = some te → te.id ∈ c.1.setDelTimeId →
    s₀.timeEventNextId ≤ te.id → P c.1 (turnCalls env (snapshot env s₀) c.1 te)

/-- Of the timers made in the pass no finalizer creates a timer, or none deletes one. -/
def FinalizersSettle (env : Env Int) (s₀ : EventLoop Q) : Prop :=
  NewFinalizers env s₀ (fun s calls => createdDeadlines env s.tick calls = []) ∨
    NewFinalizers env s₀ fun _ calls => ∀ id, .delete id ∉ calls

/-- The tombstones that a stored timer has or one yet to be created will have. -/
def outstanding (s : EventLoop Q) : ℕ :=
  (s.setDelTimeId.filter fun id =>
    id ∈ (elems s.timeMinHead).map TimeEvent.id ∨ s.timeEventNextId ≤ id).card

section Defers

variable {env : Env Int} {now : Int × Int} {s₀ s t : EventLoop Q} {te : TimeEvent} {n m : Int}

theorem mem_createdDeadlines {calls : List (TimerCall Int)} {tick : ℕ} {d : Int × Int}
    (h : d ∈ createdDeadlines env tick calls) :
    ∃ ms proc data fin, TimerCall.create ms proc data fin ∈ calls ∧
      ∃ k, tick ≤ k ∧ d = aeAddMillisecondsToNow (env.gettimeofday k) ms := by
  induction calls generalizing tick with
  | nil => cases h
  | cons call calls ih =>
      cases call with
      | create ms proc data fin =>
          rcases List.mem_cons.mp h with rfl | later
          · exact ⟨ms, proc, data, fin, List.mem_cons_self, tick, le_refl _, rfl⟩
          · obtain ⟨ms', proc', data', fin', called, k, hk, eq⟩ := ih later
            exact ⟨ms', proc', data', fin', List.mem_cons_of_mem _ called, k,
              (Nat.le_succ _).trans hk, eq⟩
      | delete id =>
          obtain ⟨ms', proc', data', fin', called, rest⟩ := ih h
          exact ⟨ms', proc', data', fin', List.mem_cons_of_mem _ called, rest⟩

theorem visits_grow {c : EventLoop Q × Int} (met : PassVisits env s₀ c) :
    s₀.tick ≤ c.1.tick ∧ s₀.timeEventNextId ≤ c.1.timeEventNextId := by
  refine WhileLoop.visits_invariant (fun c : EventLoop Q × Int =>
      s₀.tick ≤ c.1.tick ∧ s₀.timeEventNextId ≤ c.1.timeEventNextId)
    (fun _ => True) ?_ (fun _ _ => trivial) ⟨Nat.le_succ _, le_refl _⟩ met
  rintro ⟨a, i⟩ ⟨b, j⟩ ⟨tick, next⟩ - body
  obtain ⟨te, htop, ⟨-, -, rfl⟩ | ⟨-, -, -, rfl⟩⟩ := passStep_cases body
  · obtain ⟨calls, front, user, gone, turn, -⟩ := discard_turn env (snapshot env s₀) htop
    exact ⟨tick.trans turn.tick, next.trans (Int.le.intro _ turn.nextId.symm)⟩
  · obtain ⟨user, back, gone, again, turn, -⟩ := fire_turn env (snapshot env s₀) htop
    exact ⟨tick.trans turn.tick, next.trans (Int.le.intro _ turn.nextId.symm)⟩

theorem Polite.defers (polite : Polite env) (older : s₀.tick ≤ s.tick) : Defers env s₀ s where
  creates te _ d hd := by
    rw [turnCalls] at hd
    split_ifs at hd with marked final due
    · rw [polite.finalizers] at hd
      cases hd
    · cases hd
    · obtain ⟨ms, proc, data, fin, called, k, hk, rfl⟩ := mem_createdDeadlines hd
      exact not_due_of_later polite.clock (older.trans hk)
        (polite.creates _ _ ms proc data fin called)
    · cases hd
  rearms te _ _ _ more := by
    refine not_due_of_later polite.clock (older.trans (Nat.le_add_right _ _)) ?_
    exact (polite.returns _ te).resolve_left more
  finalizer te _ marked d hd := by
    rw [turnCalls, if_pos marked, polite.finalizers, ite_self] at hd
    cases hd

theorem Polite.settles (polite : Polite env) : FinalizersSettle env s₀ := by
  refine .inl fun c _ te _ marked _ => ?_
  rw [turnCalls, if_pos marked, polite.finalizers, ite_self]
  rfl

theorem discard_exact (defers : Defers env s₀ s) (htop : top s.timeMinHead = some te)
    (marked : te.id ∈ s.setDelTimeId) :
    ∃ front user, Turn env (turnCalls env (snapshot env s₀) s te) te s
        (discard env (log s (.reached te (snapshot env s₀))) te) front user [.popped te] te [] ∧
      front = [.reached te (snapshot env s₀), .discarded te] ++
        (if te.finalizerProc.isSome then [.finalized te] else []) := by
  obtain ⟨calls, front, user, gone, turn, hfront, hcalls⟩ :=
    discard_turn env (snapshot env s₀) htop
  have same : calls = turnCalls env (snapshot env s₀) s te := by
    rw [turnCalls, if_pos marked, hcalls]
  subst same
  have exact' : gone = te := by
    refine turn.gone_eq_iff.mpr fun x hx => ?_
    have made : x.deadline ∈
        createdDeadlines env s.tick (turnCalls env (snapshot env s₀) s te) := by
      rw [← turn.deadlines]
      exact List.mem_map_of_mem hx
    have later := defers.finalizer te htop marked x.deadline made
    rw [earlier_iff] at later ⊢
    exact later
  subst exact'
  exact ⟨front, user, turn, hfront⟩

theorem discard_advance (defers : Defers env s₀ s) (ok : IdsOk s)
    (grown : s₀.timeEventNextId ≤ s.timeEventNextId) (htop : top s.timeMinHead = some te)
    (marked : te.id ∈ s.setDelTimeId) :
    ∃ new, Advance (snapshot env s₀) s₀.timeEventNextId s
      (discard env (log s (.reached te (snapshot env s₀))) te) te new := by
  obtain ⟨front, user, turn, hfront⟩ := discard_exact defers htop marked
  have quiet : reachedIn user = [] ∧ calledIn user = [] ∧ rearmedIn user = [] :=
    ⟨reachedIn_of_user turn.isUser, calledIn_of_user turn.isUser, rearmedIn_of_user turn.isUser⟩
  have inFront : createdIn front = [] ∧ deletedIn front = [] ∧ rearmedIn front = [] := by
    rw [hfront]
    split_ifs <;> simp
  have created : createdIn (front ++ user ++ [.popped te]) = createdIn user := by simp [inFront]
  refine ⟨front ++ user ++ [.popped te], ⟨?_, turn.trace, turn.tick, turn.idsOk ok, ?_, htop, ?_,
    ?_, ?_, fun _ => by simp [inFront, quiet]⟩⟩
  · rw [hfront]
    refine ⟨_, rfl, ?_, .inl ⟨marked, ?_⟩⟩
    · split_ifs <;> simp [quiet]
    · split_ifs <;> simp [quiet]
  · rw [turn.dels]
    simp [inFront]
  · rw [turn.account]
    simp [inFront, quiet]
  · intro x hx
    have made : x ∈ createdIn user := by simpa [inFront, quiet] using hx
    refine defers.creates te htop x.deadline ?_
    rw [← turn.deadlines]
    exact List.mem_map_of_mem made
  · rw [created]
    exact fun x hx => grown.trans (turn.newIds x hx).1

theorem fire_advance (defers : Defers env s₀ s) (ok : IdsOk s)
    (grown : s₀.timeEventNextId ≤ s.timeEventNextId) (htop : top s.timeMinHead = some te)
    (live : te.id ∉ s.setDelTimeId) (due : Due te.deadline (snapshot env s₀)) :
    ∃ new, Advance (snapshot env s₀) s₀.timeEventNextId s
      (fire env (log s (.reached te (snapshot env s₀))) te) te new := by
  obtain ⟨user, back, gone, again, turn, hback, hagain, hrearm⟩ :=
    fire_turn env (snapshot env s₀) htop
  have createdLate : ∀ x ∈ createdIn user, ¬ Due x.deadline (snapshot env s₀) := by
    intro x hx
    refine defers.creates te htop x.deadline ?_
    rw [turnCalls, if_neg live, if_pos due, ← turn.deadlines]
    exact List.mem_map_of_mem hx
  have rearmedLate : ∀ x ∈ again, ¬ Due x.deadline (snapshot env s₀) := by
    intro x hx
    rw [hrearm x hx, TimeEvent.setWhen_deadline]
    have more : again ≠ [] := List.ne_nil_of_mem hx
    exact defers.rearms te htop live due fun last => more (hagain.mpr last)
  have exact' : gone = te :=
    turn.gone_eq_iff.mpr fun x hx => not_earlier_of_due due (createdLate x hx)
  subst exact'
  have quiet : reachedIn user = [] ∧ calledIn user = [] ∧ rearmedIn user = [] :=
    ⟨reachedIn_of_user turn.isUser, calledIn_of_user turn.isUser, rearmedIn_of_user turn.isUser⟩
  refine ⟨_, ⟨?_, turn.trace, turn.tick, turn.idsOk ok, ?_, htop, ?_, ?_, ?_,
    fun marked => absurd marked live⟩⟩
  · refine ⟨_, rfl, ?_, .inr ⟨live, due, _, rfl, ?_⟩⟩
    · simp [quiet, hback]
    · simp [quiet, hback]
  · rw [turn.dels, hback]
    simp
  · rw [turn.account, hback]
    simp [quiet]
  · intro x hx
    simp only [hback, createdIn_append, rearmedIn_append, createdIn_cons, rearmedIn_cons,
      createdIn_map_rearmed, rearmedIn_map_rearmed, quiet, Event.created?, Event.rearmed?,
      createdIn_nil, rearmedIn_nil, Option.toList_none, List.nil_append, List.append_nil] at hx
    exact hx.elim (createdLate x) (rearmedLate x)
  · intro x hx
    have made : x ∈ createdIn user := by simpa [hback] using hx
    exact grown.trans (turn.newIds x made).1

theorem passStep_advance (defers : Defers env s₀ s) (ok : IdsOk s)
    (grown : s₀.timeEventNextId ≤ s.timeEventNextId)
    (h : passStep env (snapshot env s₀) (s, n) = some (t, m)) :
    ∃ te new, Advance (snapshot env s₀) s₀.timeEventNextId s t te new ∧
      m = n + (calledIn new).length := by
  obtain ⟨te, htop, ⟨marked, rfl, rfl⟩ | ⟨live, due, rfl, rfl⟩⟩ := passStep_cases h
  · obtain ⟨new, adv⟩ := discard_advance defers ok grown htop marked
    exact ⟨te, new, adv, by simp [adv.shape.called_eq, marked]⟩
  · obtain ⟨new, adv⟩ := fire_advance defers ok grown htop live due
    exact ⟨te, new, adv, by simp [adv.shape.called_eq, live]⟩

theorem defers_visits (ok : IdsOk s₀) (defers : ∀ c, PassVisits env s₀ c → Defers env s₀ c.1)
    {c : EventLoop Q × Int} (met : PassVisits env s₀ c) :
    ∃ seg, Passing (snapshot env s₀) s₀ c.1 c.2 seg := by
  refine WhileLoop.visits_invariant
    (fun c : EventLoop Q × Int => ∃ seg, Passing (snapshot env s₀) s₀ c.1 c.2 seg)
    (fun c => PassVisits env s₀ c) ?_ (fun _ met => met) ⟨[], Passing.start ok⟩ met
  rintro ⟨a, i⟩ ⟨b, j⟩ ⟨seg, passing⟩ met body
  obtain ⟨te, new, adv, rfl⟩ :=
    passStep_advance (defers _ met) passing.idsOk (visits_grow met).2 body
  exact ⟨seg ++ new, passing.extend adv⟩

theorem Turn.card_lt {calls : List (TimerCall Int)} {front user back : List (Event Int)}
    (turn : Turn env calls te s t front user back te [])
    (few : createdDeadlines env s.tick calls = []) :
    (elems t.timeMinHead).card < (elems s.timeMinHead).card := by
  have none : createdIn user = [] := List.map_eq_nil_iff.mp (turn.deadlines.trans few)
  have account := turn.account
  rw [none, Multiset.coe_nil, Multiset.zero_add, Multiset.zero_add] at account
  rw [← account, Multiset.card_cons]
  exact Nat.lt_succ_self _

theorem Turn.outstanding_lt {calls : List (TimerCall Int)} {front user back : List (Event Int)}
    (turn : Turn env calls te s t front user back te []) (ok : IdsOk s)
    (marked : te.id ∈ s.setDelTimeId) (keeps : ∀ id, .delete id ∉ calls) :
    outstanding t < outstanding s := by
  have none : deletedIn user = [] :=
    List.eq_nil_iff_forall_not_mem.mpr fun id hid => keeps id (turn.asked id hid)
  have dels : t.setDelTimeId = s.setDelTimeId := by
    rw [turn.dels, none, List.toFinset_nil, Finset.union_empty]
  have next : s.timeEventNextId ≤ t.timeEventNextId := Int.le.intro _ turn.nextId.symm
  have stored : te ∈ elems s.timeMinHead := top_mem turn.top
  refine Finset.card_lt_card (Finset.ssubset_iff_of_subset ?_ |>.mpr ⟨te.id, ?_, ?_⟩)
  · intro id hid
    rw [Finset.mem_filter, dels] at hid
    refine Finset.mem_filter.mpr ⟨hid.1, ?_⟩
    rcases hid.2 with left | ahead
    · obtain ⟨x, hx, rfl⟩ := Multiset.mem_map.mp left
      rcases turn.stored_id ok hx with again | fresh | ⟨old, -⟩
      · cases again
      · exact .inr fresh
      · exact .inl (Multiset.mem_map_of_mem _ old)
    · exact .inr (next.trans ahead)
  · exact Finset.mem_filter.mpr ⟨marked, .inl (Multiset.mem_map_of_mem _ stored)⟩
  · intro still
    have low := ok.below te stored
    rcases (Finset.mem_filter.mp still).2 with left | ahead
    · obtain ⟨x, hx, same⟩ := Multiset.mem_map.mp left
      rcases turn.stored_id ok hx with again | fresh | ⟨-, other⟩
      · cases again
      · omega
      · exact other same
    · omega

/-- Such a pass ends if `rest` goes down where the finalizer of a timer made in it has run. -/
theorem defers_returns_of (ok : IdsOk s₀)
    (defers : ∀ c, PassVisits env s₀ c → Defers env s₀ c.1) (rest : EventLoop Q → ℕ)
    (fewer : ∀ c, PassVisits env s₀ c → ∀ te, top c.1.timeMinHead = some te →
      te.id ∈ c.1.setDelTimeId → s₀.timeEventNextId ≤ te.id →
        rest (discard env (log c.1 (.reached te (snapshot env s₀))) te) < rest c.1) :
    ∃ fuel c, processTimeEvents env fuel s₀ = some c ∧ PassVisits env s₀ c ∧
      passStep env (snapshot env s₀) c = none := by
  have wf : WellFounded fun a b : EventLoop Q × Int =>
      passMeasure (snapshot env s₀) s₀.timeEventNextId rest a.1 <
        passMeasure (snapshot env s₀) s₀.timeEventNextId rest b.1 :=
    InvImage.wf _ wellFounded_lt
  obtain ⟨fuel, c, h, met, exit⟩ := WhileLoop.run_total (PassVisits env s₀) wf (by
    rintro ⟨a, i⟩ ⟨b, j⟩ met body
    obtain ⟨seg, passing⟩ := defers_visits ok defers met
    obtain ⟨te, new, adv, rfl⟩ :=
      passStep_advance (defers _ met) passing.idsOk (visits_grow met).2 body
    refine ⟨met.tail body, adv.lower fun marked made => ?_⟩
    obtain ⟨te', htop, ⟨-, -, rfl⟩ | ⟨live, -⟩⟩ := passStep_cases body
    · obtain rfl := Option.some.inj (adv.top.symm.trans htop)
      exact fewer _ met te adv.top marked made
    · obtain rfl := Option.some.inj (adv.top.symm.trans htop)
      exact absurd marked live) .refl
  exact ⟨fuel, c, h, met, exit⟩

theorem defers_returns (ok : IdsOk s₀) (defers : ∀ c, PassVisits env s₀ c → Defers env s₀ c.1)
    (settle : FinalizersSettle env s₀) :
    ∃ fuel c, processTimeEvents env fuel s₀ = some c ∧ PassVisits env s₀ c ∧
      passStep env (snapshot env s₀) c = none := by
  rcases settle with few | keeps
  · refine defers_returns_of ok defers (fun s => (elems s.timeMinHead).card) ?_
    intro c met te htop marked made
    obtain ⟨front, user, turn, -⟩ := discard_exact (defers c met) htop marked
    exact turn.card_lt (few c met te htop marked made)
  · refine defers_returns_of ok defers outstanding fun c met te htop marked made => ?_
    obtain ⟨seg, passing⟩ := defers_visits ok defers met
    obtain ⟨front, user, turn, -⟩ := discard_exact (defers c met) htop marked
    exact turn.outstanding_lt passing.idsOk marked (keeps c met te htop marked made)

theorem processTimeEvents_passing (polite : Polite env) (ok : IdsOk s₀) :
    ∃ fuel t n seg, processTimeEvents env fuel s₀ = some (t, n) ∧
      Passing (aeGetTime (env.gettimeofday s₀.tick)) s₀ t n seg ∧
      passStep env (aeGetTime (env.gettimeofday s₀.tick)) (t, n) = none := by
  have defers : ∀ c, PassVisits env s₀ c → Defers env s₀ c.1 :=
    fun c met => polite.defers (visits_grow met).1
  obtain ⟨fuel, ⟨t, n⟩, h, met, exit⟩ := defers_returns ok defers polite.settles
  obtain ⟨seg, passing⟩ := defers_visits ok defers met
  exact ⟨fuel, t, n, seg, h, passing, exit⟩

end Defers

section Runs

variable {env : Env Int} {s t : EventLoop Q}

/-- With no delay below zero, what a callback creates is not before its own timer, which the pop
then removes. -/
theorem Turn.exact_of_onward {s₀ : EventLoop Q} (onward : Onward env) (older : s₀.tick ≤ s.tick)
    {tr front user back : List (Event Int)} {te gone : TimeEvent} {again : List TimeEvent}
    (due : Due te.deadline (snapshot env s₀))
    (turn : Turn env (env.timeProc tr te).calls te s t front user back gone again) : gone = te := by
  refine turn.gone_eq_iff.mpr fun x hx => ?_
  obtain ⟨ms, proc, data, fin, called, k, hk, deadline⟩ := turn.origin x hx
  have later : Due (snapshot env s₀) x.deadline := by
    rw [deadline]
    exact due_of_later onward.clock (older.trans hk) (onward.creates _ _ ms proc data fin called)
  rw [earlier_iff]
  simp only [Due, TimeEvent.deadline] at due later
  omega

theorem passStep_idsOk {n m : Int} {s₀ : EventLoop Q} (onward : Onward env)
    (older : s₀.tick ≤ s.tick) (ok : IdsOk s)
    (h : passStep env (snapshot env s₀) (s, n) = some (t, m)) : IdsOk t := by
  obtain ⟨te, htop, ⟨-, -, rfl⟩ | ⟨-, due, -, rfl⟩⟩ := passStep_cases h
  · obtain ⟨calls, front, user, gone, turn, -⟩ := discard_turn env (snapshot env s₀) htop
    exact turn.idsOk_of ok (by simp)
  · obtain ⟨user, back, gone, again, turn, -⟩ := fire_turn env (snapshot env s₀) htop
    exact turn.idsOk_of ok fun _ _ => turn.exact_of_onward onward older due

theorem run_idsOk (onward : Onward env) (run : Run env (fun _ _ => True) s) : IdsOk s := by
  refine run.invariant IdsOk ?_ ?_
  · rintro s ⟨mem, setsize, h⟩
    exact aeCreateEventLoop_idsOk h
  intro s op t ok _ step
  cases step with
  | timer call => exact runCall_idsOk env ok call
  | file op => exact ⟨ok.nodup, ok.below⟩
  | resize mem setsize => exact aeResizeSetSize_idsOk ok mem setsize
  | pass h =>
      refine WhileLoop.visits_invariant (fun c : EventLoop Q × Int => IdsOk c.1) (PassVisits env s)
        ?_ (fun _ met => met) ?_ (WhileLoop.run_visits h)
      · rintro ⟨a, i⟩ ⟨b, j⟩ inv met body
        exact passStep_idsOk onward (visits_grow met).1 inv body
      · exact ⟨ok.nodup, ok.below⟩

end Runs

/-- A pass from `s` to `t` with snapshot `now` that answered `n` and wrote `seg`: which timers it
called and in which order, what is left, and where every timer went. -/
structure ExactPass (now : Int × Int) (s t : EventLoop Q) (n : Int) (seg : List (Event Int)) :
    Prop where
  trace : t.trace = s.trace ++ seg
  order : (calledIn seg).Pairwise fun a b => ¬ Earlier b a
  once : ((calledIn seg).map TimeEvent.id).Nodup
  calls : ∀ te, te ∈ calledIn seg ↔ te ∈ elems s.timeMinHead ∧ Due te.deadline now ∧
    ∃ pre, Occurs seg pre (.reached te now) ∧ te.id ∉ tombstones s pre
  reaches : ∀ te ∈ elems s.timeMinHead, Due te.deadline now → .reached te now ∈ seg
  live : ∀ pre te, Occurs seg pre (.called te) → te.id ∉ tombstones s pre
  dels : t.setDelTimeId = tombstones s seg
  done : ∀ te ∈ elems t.timeMinHead, te.id ∉ t.setDelTimeId → ¬ Due te.deadline now
  count : n = (calledIn seg).length
  account : (((reachedIn seg).map Prod.fst : List TimeEvent) : Multiset TimeEvent) +
    elems t.timeMinHead = (createdIn seg : Multiset TimeEvent) +
      (rearmedIn seg : Multiset TimeEvent) + elems s.timeMinHead

section Exact

variable {env : Env Int} {now : Int × Int} {s t : EventLoop Q} {n : Int} {seg : List (Event Int)}

theorem Passing.due_count (h : Passing now s t n seg) {te : TimeEvent}
    (due : Due te.deadline now) :
    ((reachedIn seg).map Prod.fst).count te + (elems t.timeMinHead).count te =
      (elems s.timeMinHead).count te := by
  have counted := congrArg (Multiset.count te) h.account
  have notCreated : (createdIn seg).count te = 0 :=
    List.count_eq_zero.mpr fun made => h.notDue te (.inl made) due
  have notRearmed : (rearmedIn seg).count te = 0 :=
    List.count_eq_zero.mpr fun made => h.notDue te (.inr made) due
  simpa [notCreated, notRearmed] using counted

theorem Passing.called_mem (h : Passing now s t n seg) {te : TimeEvent}
    (called : te ∈ calledIn seg) : te ∈ elems s.timeMinHead := by
  have counted := h.due_count (h.due te called)
  have reached : 0 < ((reachedIn seg).map Prod.fst).count te :=
    List.count_pos_iff.mpr (h.sub.subset called)
  exact Multiset.count_pos.mp (by omega)

theorem Passing.called_nodup (ok : IdsOk s) (h : Passing now s t n seg) :
    ((calledIn seg).map TimeEvent.id).Nodup := by
  have storedOnce : (elems s.timeMinHead).Nodup := Multiset.Nodup.of_map _ ok.nodup
  have nodup : (calledIn seg).Nodup := by
    refine List.nodup_iff_count_le_one.mpr fun te => ?_
    by_cases called : te ∈ calledIn seg
    · have counted := h.due_count (h.due te called)
      have := Multiset.nodup_iff_count_le_one.mp storedOnce te
      have := h.sub.count_le te
      omega
    · rw [List.count_eq_zero.mpr called]
      exact Nat.zero_le 1
  refine nodup.map_on fun a ha b hb same => ?_
  exact Multiset.inj_on_of_nodup_map ok.nodup a (h.called_mem ha) b (h.called_mem hb) same

theorem passStep_none_due (h : passStep env now (t, n) = none) :
    ∀ te ∈ elems t.timeMinHead, ¬ Due te.deadline now := by
  intro te hte
  rcases passStep_exit h with none | ⟨first, htop, -, late⟩
  · rw [none] at hte
    exact absurd hte (Multiset.notMem_zero te)
  · exact not_due_of_not_earlier late (top_first htop te hte)

theorem Passing.exact (ok : IdsOk s) (h : Passing now s t n seg)
    (finished : ∀ te ∈ elems t.timeMinHead, ¬ Due te.deadline now) :
    ExactPass now s t n seg where
  trace := h.trace
  order := h.order
  once := h.called_nodup ok
  calls te := by
    constructor
    · intro called
      exact ⟨h.called_mem called, h.due te called, h.calledReached te called⟩
    · rintro ⟨-, -, pre, reached, live⟩
      exact h.reachedLive pre te now reached live
  reaches te hte due := by
    have counted := h.due_count due
    have gone : (elems t.timeMinHead).count te = 0 :=
      Multiset.count_eq_zero.mpr fun left => finished te left due
    have stored := Multiset.count_pos.mpr hte
    have reached : te ∈ (reachedIn seg).map Prod.fst := List.count_pos_iff.mp (by omega)
    obtain ⟨⟨x, at'⟩, hx, rfl⟩ := List.mem_map.mp reached
    have same : at' = now := h.reachedNow x at' (mem_reachedIn.mp hx)
    rw [← same]
    exact mem_reachedIn.mp hx
  live := h.calledLive
  dels := h.dels
  done te hte _ := finished te hte
  count := h.count
  account := h.account

end Exact

def busyEnv : Env Int where
  gettimeofday k := Timeval.ofMillis k
  time k := k / 1000
  timeProc _ te := ⟨[.create 1 3 4 none, .delete te.id], 5⟩
  finalizerProc _ _ := []

end AeEventLoop.Ae2
