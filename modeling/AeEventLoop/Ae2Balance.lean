import AeEventLoop.Ae2Pops
import Mathlib.Algebra.Order.Group.Multiset
import Mathlib.Tactic.Abel

/-! The books of the queue of `ae2.cpp`, whatever callbacks and finalizers do. A turn of the pass may
pop another timer than the one it ran, when user code put an earlier one on top; the sums come out
all the same. What came in is what is stored and what was popped, and there are as many timers as
were created and have not been ended or discarded. -/

namespace AeEventLoop.Ae2

open PriorityQueue

variable {Q : Type} [PriorityQueue Q TimeEvent Earlier]

def endedIn (tr : List (Event Int)) : List (TimeEvent × Int) :=
  (returnedIn tr).filter fun r => r.2 = AE_NOMORE

structure Balanced (s : EventLoop Q) : Prop where
  timers : (createdIn s.trace : Multiset TimeEvent) + (rearmedIn s.trace : Multiset TimeEvent) =
    elems s.timeMinHead + (poppedIn s.trace : Multiset TimeEvent)
  turns : (poppedIn s.trace).length = (calledIn s.trace).length + (discardedIn s.trace).length
  number : (elems s.timeMinHead).card + (endedIn s.trace).length + (discardedIn s.trace).length =
    (createdIn s.trace).length
  nextId : s.timeEventNextId = (createdIn s.trace).length

/-- A step that does not give the table another size; that would throw the timers away. -/
def SizeKept (s : EventLoop Q) (op : Op Int) : Prop :=
  ∀ mem setsize, op = .resize mem setsize → setsize = s.setsize ∨ s.maxfd ≥ setsize

section Turns

variable {env : Env Int} {now : Int × Int} {s t : EventLoop Q} {te gone : TimeEvent}
  {front user back : List (Event Int)} {again : List TimeEvent} {n m : Int}

omit [PriorityQueue Q TimeEvent Earlier] in
theorem TurnShape.books (shape : TurnShape env now s te front back gone again)
    (isUser : ∀ e ∈ user, UserEvent e) :
    poppedIn (front ++ user ++ back) = [gone] ∧ rearmedIn (front ++ user ++ back) = again ∧
      (calledIn (front ++ user ++ back)).length + (discardedIn (front ++ user ++ back)).length = 1 ∧
      (again.length ≤ 1 → (endedIn (front ++ user ++ back)).length +
        (discardedIn (front ++ user ++ back)).length + again.length = 1) := by
  cases shape with
  | discard gone marked =>
      by_cases final : te.finalizerProc.isSome
      · simp [final, endedIn, poppedIn_of_user isUser, rearmedIn_of_user isUser,
          calledIn_of_user isUser, discardedIn_of_user isUser, returnedIn_of_user isUser]
      · simp [final, endedIn, poppedIn_of_user isUser, rearmedIn_of_user isUser,
          calledIn_of_user isUser, discardedIn_of_user isUser, returnedIn_of_user isUser]
  | fire gone again live due last =>
      simp only [endedIn, poppedIn_append, poppedIn_of_user isUser, rearmedIn_append,
        rearmedIn_of_user isUser, calledIn_append, calledIn_of_user isUser, discardedIn_append,
        discardedIn_of_user isUser, returnedIn_append, returnedIn_of_user isUser]
      by_cases ended : (env.timeProc (s.trace ++ [.reached te now]) te).retval = AE_NOMORE
      · obtain rfl := last.mpr ended
        simp [ended]
      · have some : again ≠ [] := mt last.mp ended
        have pos := List.length_pos_iff.mpr some
        simp [ended]
        omega

theorem Balanced.turn (h : Balanced s) {calls : List (TimerCall Int)}
    (turn : Turn env calls te s t front user back gone again)
    (shape : TurnShape env now s te front back gone again) : Balanced t := by
  obtain ⟨popped, rearmed, turns, ended⟩ := shape.books turn.isUser
  have created := shape.created user
  have stored : gone ∈ (createdIn user : Multiset TimeEvent) + elems s.timeMinHead := by
    rw [← elems_foldl_push]
    exact top_mem turn.topGone
  have books : elems t.timeMinHead + {gone} =
      (createdIn user : Multiset TimeEvent) + (again : Multiset TimeEvent) +
        elems s.timeMinHead := by
    rw [turn.elems_eq, Multiset.add_assoc, Multiset.add_comm _ {gone}, Multiset.singleton_add,
      Multiset.cons_erase stored]
    abel
  have sizes := congrArg Multiset.card books
  simp only [Multiset.card_add, Multiset.card_singleton, Multiset.coe_card] at sizes
  have once := ended turn.once
  have before := h.number
  refine ⟨?_, ?_, ?_, ?_⟩
  · rw [turn.trace, createdIn_append, created, rearmedIn_append, rearmed, poppedIn_append, popped,
      ← Multiset.coe_add, ← Multiset.coe_add, ← Multiset.coe_add]
    calc _ = ((createdIn s.trace : Multiset TimeEvent) + rearmedIn s.trace) +
          (createdIn user + again) := by abel
      _ = elems s.timeMinHead + poppedIn s.trace + (createdIn user + again) := by rw [h.timers]
      _ = (createdIn user + again + elems s.timeMinHead) + poppedIn s.trace := by abel
      _ = (elems t.timeMinHead + {gone}) + poppedIn s.trace := by rw [books]
      _ = _ := by
        rw [Multiset.coe_singleton]
        abel
  · have := h.turns
    rw [turn.trace, poppedIn_append, popped, calledIn_append, discardedIn_append]
    simp only [List.length_append, List.length_singleton]
    omega
  · rw [turn.trace, createdIn_append, created, discardedIn_append]
    simp only [endedIn, returnedIn_append, List.filter_append, List.length_append] at once before ⊢
    omega
  · rw [turn.trace, createdIn_append, created, turn.nextId, h.nextId, List.length_append]
    push_cast
    rfl

theorem Balanced.visits (h : Balanced s) {c : EventLoop Q × Int} (met : PassVisits env s c) :
    Balanced c.1 := by
  refine WhileLoop.visits_invariant (fun c : EventLoop Q × Int => Balanced c.1) (fun _ => True)
    ?_ (fun _ _ => trivial) ?_ met
  · rintro ⟨a, i⟩ ⟨b, j⟩ inv - body
    obtain ⟨te, front, user, back, gone, again, turn, shape⟩ := passStep_turn body
    exact inv.turn turn shape
  · exact ⟨h.timers, h.turns, h.number, h.nextId⟩

theorem runCall_balanced (h : Balanced s) (call : TimerCall Int) :
    Balanced (runCall env s call) := by
  cases call with
  | create ms proc data fin =>
      have timers := h.timers
      have number := h.number
      have nextId := h.nextId
      refine ⟨?_, ?_, ?_, ?_⟩
      · simp only [runCall, aeCreateTimeEvent, createdIn_append, rearmedIn_append, poppedIn_append,
          elems_push]
        simp only [createdIn_cons, Event.created?, Option.toList_some, createdIn_nil,
          rearmedIn_cons, Event.rearmed?, Option.toList_none, rearmedIn_nil, poppedIn_cons,
          Event.popped?, poppedIn_nil, List.append_nil]
        rw [← Multiset.coe_add, Multiset.cons_add, ← timers]
        simp only [Multiset.coe_singleton, ← Multiset.singleton_add]
        abel
      · simpa [runCall, aeCreateTimeEvent] using h.turns
      · simp [runCall, aeCreateTimeEvent, endedIn] at number ⊢
        omega
      · simp [runCall, aeCreateTimeEvent]
        omega
  | delete id =>
      refine ⟨?_, ?_, ?_, ?_⟩
      · simpa [runCall, aeDeleteTimeEvent] using h.timers
      · simpa [runCall, aeDeleteTimeEvent] using h.turns
      · simpa [runCall, aeDeleteTimeEvent, endedIn] using h.number
      · simpa [runCall, aeDeleteTimeEvent] using h.nextId

end Turns

section Runs

variable {env : Env Int} {s : EventLoop Q}

theorem run_balanced (run : Run env SizeKept s) : Balanced s := by
  refine run.invariant Balanced ?_ ?_
  · rintro s ⟨mem, setsize, h⟩
    obtain ⟨l, hl, rfl⟩ := Option.map_eq_some_iff.mp h
    obtain ⟨files, -, rfl⟩ := Option.map_eq_some_iff.mp hl
    exact ⟨by simp, by simp, by simp [endedIn], by simp⟩
  · intro s op t h kept step
    cases step with
    | timer call => exact runCall_balanced h call
    | file op => exact ⟨h.timers, h.turns, h.number, h.nextId⟩
    | resize mem setsize =>
        unfold aeResizeSetSize
        split_ifs with same small
        · exact h
        · exact h
        · exact absurd (kept mem setsize rfl) (not_or.mpr ⟨same, small⟩)
    | pass h' =>
        have visited := (WhileLoop.run_invariant (fun _ => True) (fun _ => True)
          (fun _ _ _ _ _ => trivial) (fun _ _ => trivial) trivial h').2.2
        exact h.visits visited

/-- In every run that does not resize the table, and at every turn of a pass still going on, what
was created or armed again is, with multiplicity, what is stored or was popped, each turn popped
once, and the timers stored, ended and discarded are as many as the ids given out. -/
theorem heap_balance (run : Run env SizeKept s) :
    Balanced s ∧ ∀ c, PassVisits env s c → Balanced c.1 :=
  ⟨run_balanced run, fun _ met => (run_balanced run).visits met⟩

end Runs

/-- The finalizer of timer 0 creates timer 1, which the pop takes instead of timer 0: one timer is
stored, under the books of two. -/
theorem heap_balance_nearer :
    ∃ (s : EventLoop (SortedQueue TimeEvent Earlier)) (c : EventLoop _ × Int),
      PassVisits nearerEnv s c ∧ (poppedIn c.1.trace).map TimeEvent.id = [1] ∧
      (c.1.timeMinHead.items).map TimeEvent.id = [0] ∧ Balanced c.1 := by
  let s := runCall nearerEnv (runCall nearerEnv (fresh nearerEnv) (.create 10000 3 4 (some 9)))
    (.delete 0)
  have run : Run nearerEnv SizeKept s :=
    .move (.move (fresh_run _ _) (by simp [SizeKept]) (.timer _ _)) (by simp [SizeKept]) (.timer _ _)
  have turn : (passStep nearerEnv (snapshot nearerEnv s) ({ s with tick := s.tick + 1 }, 0)).map
      (fun c => ((poppedIn c.1.trace).map TimeEvent.id, (c.1.timeMinHead.items).map TimeEvent.id)) =
      some ([1], [0]) := by decide
  obtain ⟨c, body, seen⟩ := Option.map_eq_some_iff.mp turn
  obtain ⟨popped, stored⟩ := Prod.mk.inj seen
  have visited : PassVisits nearerEnv s c := .single body
  exact ⟨s, c, visited, popped, stored, (heap_balance run).2 c visited⟩

end AeEventLoop.Ae2
