import AeEventLoop.Ae2Steps
import Mathlib.Data.Finset.Lattice.Lemmas

/-! Which timer `pop` removes. Between `top` and `pop` user code runs; the queue's top is still
the timer that was run exactly if nothing strictly earlier was created meanwhile. Here user code
and the clock are arbitrary otherwise. Where every turn is calm in that sense, no timer is lost,
no expiry calls a callback twice, and no finalizer runs twice. -/

namespace AeEventLoop.Ae2

open PriorityQueue

variable {Q : Type} [PriorityQueue Q TimeEvent Earlier]

/-- User code creates nothing strictly earlier than the timer it runs for. -/
def Calm (env : Env Int) (now : Int × Int) (s : EventLoop Q) : Prop :=
  ∀ te, top s.timeMinHead = some te →
    ∀ d ∈ createdDeadlines env s.tick (turnCalls env now s te), ¬ Earlier (te.setWhen d) te

def CalmPass (env : Env Int) (s : EventLoop Q) : Prop :=
  ∀ c, PassVisits env s c → Calm env (snapshot env s) c.1

inductive TurnShape (env : Env Int) (now : Int × Int) (s : EventLoop Q) (te : TimeEvent) :
    List (Event Int) → List (Event Int) → TimeEvent → List TimeEvent → Prop
  | discard (gone : TimeEvent) : te.id ∈ s.setDelTimeId →
      TurnShape env now s te ([.reached te now, .discarded te] ++
        if te.finalizerProc.isSome then [.finalized te] else []) [.popped gone] gone []
  | fire (gone : TimeEvent) (again : List TimeEvent) : te.id ∉ s.setDelTimeId →
      Due te.deadline now →
      (again = [] ↔ (env.timeProc (s.trace ++ [.reached te now]) te).retval = AE_NOMORE) →
      TurnShape env now s te [.reached te now, .called te]
        ([.returned te (env.timeProc (s.trace ++ [.reached te now]) te).retval, .popped gone] ++
          again.map Event.rearmed) gone again

section Turns

variable {env : Env Int} {now : Int × Int} {s t : EventLoop Q} {n m : Int}

theorem passStep_turn (h : passStep env now (s, n) = some (t, m)) :
    ∃ te front user back gone again,
      Turn env (turnCalls env now s te) te s t front user back gone again ∧
      TurnShape env now s te front back gone again := by
  obtain ⟨te, htop, ⟨marked, -, rfl⟩ | ⟨live, due, -, rfl⟩⟩ := passStep_cases h
  · obtain ⟨calls, front, user, gone, turn, rfl, rfl⟩ := discard_turn env now htop
    refine ⟨te, _, user, _, gone, [], ?_, .discard gone marked⟩
    rw [turnCalls, if_pos marked]
    exact turn
  · obtain ⟨user, back, gone, again, turn, rfl, last, -⟩ := fire_turn env now htop
    refine ⟨te, _, user, _, gone, again, ?_, .fire gone again live due last⟩
    rw [turnCalls, if_neg live, if_pos due]
    exact turn

/-- `pop` removes the timer that was run if and only if the turn is calm. -/
theorem Turn.exact_iff_calm {te gone : TimeEvent} {front user back : List (Event Int)}
    {again : List TimeEvent}
    (h : Turn env (turnCalls env now s te) te s t front user back gone again) :
    gone = te ↔ Calm env now s := by
  have sameOrder : ∀ x : TimeEvent, Earlier (te.setWhen x.deadline) te ↔ Earlier x te := by
    intro x
    rw [earlier_iff, earlier_iff]
    exact Iff.rfl
  rw [h.gone_eq_iff]
  constructor
  · intro later te' htop d hd
    obtain rfl := Option.some.inj (h.top.symm.trans htop)
    rw [← h.deadlines] at hd
    obtain ⟨x, hx, rfl⟩ := List.mem_map.mp hd
    rw [sameOrder]
    exact later x hx
  · intro calm x hx
    rw [← sameOrder]
    refine calm te h.top x.deadline ?_
    rw [← h.deadlines]
    exact List.mem_map_of_mem hx

theorem calm_turn (calm : Calm env now s) (h : passStep env now (s, n) = some (t, m)) :
    ∃ te front user back again,
      Turn env (turnCalls env now s te) te s t front user back te again ∧
      TurnShape env now s te front back te again := by
  obtain ⟨te, front, user, back, gone, again, turn, shape⟩ := passStep_turn h
  obtain rfl := turn.exact_iff_calm.mpr calm
  exact ⟨gone, front, user, back, again, turn, shape⟩

end Turns

section Serving

variable {env : Env Int} {now : Int × Int} {s t : EventLoop Q} {n m : Int}

omit [PriorityQueue Q TimeEvent Earlier] in
theorem TurnShape.called {te gone : TimeEvent} {front back : List (Event Int)}
    {again : List TimeEvent} (shape : TurnShape env now s te front back gone again)
    {user : List (Event Int)} (isUser : ∀ e ∈ user, UserEvent e) :
    te.id ∈ s.setDelTimeId ∧ calledIn (front ++ user ++ back) = [] ∨
      Due te.deadline now ∧ calledIn (front ++ user ++ back) = [te] := by
  cases shape with
  | discard gone marked =>
      refine .inl ⟨marked, ?_⟩
      by_cases final : te.finalizerProc.isSome
      · simp [final, calledIn_of_user isUser]
      · simp [final, calledIn_of_user isUser]
  | fire gone again live due last =>
      exact .inr ⟨due, by simp [calledIn_of_user isUser]⟩

omit [PriorityQueue Q TimeEvent Earlier] in
theorem TurnShape.deleted {te gone : TimeEvent} {front back : List (Event Int)}
    {again : List TimeEvent} (shape : TurnShape env now s te front back gone again)
    (user : List (Event Int)) : deletedIn (front ++ user ++ back) = deletedIn user := by
  cases shape with
  | discard gone marked =>
      by_cases final : te.finalizerProc.isSome
      · simp [final]
      · simp [final]
  | fire gone again live due last => simp

omit [PriorityQueue Q TimeEvent Earlier] in
theorem TurnShape.created {te gone : TimeEvent} {front back : List (Event Int)}
    {again : List TimeEvent} (shape : TurnShape env now s te front back gone again)
    (user : List (Event Int)) : createdIn (front ++ user ++ back) = createdIn user := by
  cases shape with
  | discard gone marked =>
      by_cases final : te.finalizerProc.isSome
      · simp [final]
      · simp [final]
  | fire gone again live due last => simp

/-- A pass so far: what it has called was due, and what was stored is stored yet, or was called, or
has a tombstone. -/
structure Serving (now : Int × Int) (s t : EventLoop Q) (seg : List (Event Int)) : Prop where
  trace : t.trace = s.trace ++ seg
  nextId : s.timeEventNextId ≤ t.timeEventNextId
  newIds : ∀ x ∈ createdIn seg, s.timeEventNextId ≤ x.id
  called : ∀ x ∈ calledIn seg, Due x.deadline now
  dels : t.setDelTimeId = s.setDelTimeId ∪ (deletedIn seg).toFinset
  kept : ∀ x ∈ elems s.timeMinHead,
    x ∈ elems t.timeMinHead ∨ x ∈ calledIn seg ∨ x.id ∈ t.setDelTimeId

/-- A turn takes no other stored timer away than the one it is for. -/
theorem Turn.gone_stored {calls : List (TimerCall Int)} {te gone : TimeEvent}
    {front user back : List (Event Int)} {again : List TimeEvent}
    (turn : Turn env calls te s t front user back gone again)
    (stored : gone ∈ elems s.timeMinHead) : gone = te := by
  refine turn.gone_eq_iff.mpr fun y created early => ?_
  have below : ¬ Earlier gone te := top_first turn.top gone stored
  have above : ¬ Earlier y gone := by
    refine top_first turn.topGone y ?_
    rw [elems_foldl_push]
    exact Multiset.mem_add.mpr (.inl created)
  rw [earlier_iff] at early below above
  omega

theorem Serving.start (now : Int × Int) (s : EventLoop Q) (tick : ℕ) :
    Serving now s { s with tick := tick } [] :=
  ⟨by simp, le_refl _, by simp, by simp, by simp, fun x hx => .inl hx⟩

theorem Serving.step {w w' : EventLoop Q} {seg : List (Event Int)} (serving : Serving now s w seg)
    (body : passStep env now (w, n) = some (w', m)) :
    ∃ te new, Serving now s w' (seg ++ new) ∧
      ∀ id ∈ deletedIn new, .delete id ∈ turnCalls env now w te := by
  obtain ⟨te, front, user, back, gone, again, turn, shape⟩ := passStep_turn body
  have calls := shape.called turn.isUser
  refine ⟨te, front ++ user ++ back, ⟨?_, ?_, ?_, ?_, ?_, ?_⟩, fun id deleted => ?_⟩
  · rw [turn.trace, serving.trace, List.append_assoc]
  · have := serving.nextId
    have := turn.nextId
    omega
  · intro x hx
    rw [createdIn_append, shape.created user, List.mem_append] at hx
    rcases hx with before | here
    · exact serving.newIds x before
    · exact serving.nextId.trans (turn.newIds x here).1
  · intro x hx
    rw [calledIn_append, List.mem_append] at hx
    rcases hx with before | here
    · exact serving.called x before
    · rcases calls with ⟨-, none⟩ | ⟨due, one⟩
      · rw [none] at here
        cases here
      · rw [one] at here
        rwa [List.mem_singleton.mp here]
  · rw [turn.dels, serving.dels, deletedIn_append, shape.deleted user, List.toFinset_append,
      Finset.union_assoc]
  · intro x hx
    rw [calledIn_append, List.mem_append]
    rcases serving.kept x hx with stored | called | marked
    · by_cases same : x = gone
      · subst same
        have own := turn.gone_stored stored
        subst own
        rcases calls with ⟨marked, -⟩ | ⟨-, one⟩
        · refine .inr (.inr ?_)
          rw [turn.dels]
          exact Finset.mem_union_left _ marked
        · exact .inr (.inl (.inr (by rw [one]; exact List.mem_singleton_self x)))
      · refine .inl ?_
        rw [turn.elems_eq]
        refine Multiset.mem_add.mpr (.inr ?_)
        exact (Multiset.mem_erase_of_ne same).mpr (Multiset.mem_add.mpr (.inr stored))
    · exact .inr (.inl (.inl called))
    · refine .inr (.inr ?_)
      rw [turn.dels]
      exact Finset.mem_union_left _ marked
  · rw [shape.deleted user] at deleted
    exact turn.asked id deleted

theorem Serving.visits {w : EventLoop Q} {c : EventLoop Q × Int} {seg : List (Event Int)}
    (serving : Serving now s w seg) (met : WhileLoop.Visits (passStep env now) (w, n) c) :
    ∃ seg', Serving now s c.1 seg' := by
  refine WhileLoop.visits_invariant (fun c : EventLoop Q × Int => ∃ seg', Serving now s c.1 seg')
    (fun _ => True) ?_ (fun _ _ => trivial) ⟨seg, serving⟩ met
  rintro ⟨a, i⟩ ⟨b, j⟩ ⟨seg', inv⟩ - body
  obtain ⟨te, new, inv', -⟩ := inv.step body
  exact ⟨_, inv'⟩

theorem visits_serving {c : EventLoop Q × Int} (met : PassVisits env s c) :
    ∃ seg, Serving (snapshot env s) s c.1 seg :=
  (Serving.start (snapshot env s) s (s.tick + 1)).visits met

end Serving

@[simp] def ran? : Event Int → Option TimeEvent
  | .called te => some te
  | .discarded te => some te
  | _ => none

def lastRan (tr : List (Event Int)) : Option TimeEvent := (tr.filterMap ran?).getLast?

/-- Every `pop` removed the timer that was run last. -/
def PopsExact (tr : List (Event Int)) : Prop :=
  ∀ pre gone, Occurs tr pre (.popped gone) → lastRan pre = some gone

/-- Between two calls of one timer's callback the timer was armed again. -/
def OncePerExpiry (tr : List (Event Int)) : Prop :=
  ∀ pre mid post te te', tr = (pre ++ .called te :: mid) ++ .called te' :: post →
    te.id = te'.id → ∃ x ∈ rearmedIn mid, x.id = te.id

def PopsFair (tr : List (Event Int)) : Prop :=
  PopsExact tr ∧ OncePerExpiry tr ∧ ((finalizedIn tr).map TimeEvent.id).Nodup

/-- Whatever a stretch of the trace found in the queue or put there is still there, or was
called, or was deleted. -/
def NothingLost (s t : EventLoop Q) (seg : List (Event Int)) : Prop :=
  ∀ te, te ∈ elems s.timeMinHead ∨ te ∈ createdIn seg ∨ te ∈ rearmedIn seg →
    te ∈ elems t.timeMinHead ∨ te ∈ calledIn seg ∨
      te ∈ discardedIn seg ∧ te.id ∈ deletedIn t.trace

theorem lastRan_append_cons (tr a : List (Event Int)) {e : Event Int} {te : TimeEvent}
    (ran : ran? e = some te) (quiet : a.filterMap ran? = []) :
    lastRan (tr ++ e :: a) = some te := by
  rw [lastRan, List.filterMap_append, filterMap_cons_toList, ran, quiet, Option.toList_some,
    List.append_nil, List.getLast?_append, List.getLast?_singleton, Option.some_or]

theorem ran_of_user {tr : List (Event Int)} (user : ∀ e ∈ tr, UserEvent e) :
    tr.filterMap ran? = [] :=
  filterMap_of_user _ (fun e he => by cases e <;> simp_all [UserEvent]) user

theorem PopsExact.append_quiet {tr new : List (Event Int)} (h : PopsExact tr)
    (quiet : poppedIn new = []) : PopsExact (tr ++ new) := by
  intro pre gone occurs
  rcases occurs_append.mp occurs with old | ⟨c, -, fresh⟩
  · exact h pre gone old
  · have := mem_poppedIn.mpr fresh.mem
    rw [quiet] at this
    exact absurd this List.not_mem_nil

theorem PopsExact.append_turn {tr a b : List (Event Int)} {x : TimeEvent} (h : PopsExact tr)
    (before : poppedIn a = []) (after : poppedIn b = []) (last : lastRan (tr ++ a) = some x) :
    PopsExact (tr ++ (a ++ .popped x :: b)) := by
  intro pre gone occurs
  rcases occurs_append.mp occurs with old | ⟨c, rfl, fresh⟩
  · exact h pre gone old
  rcases occurs_append.mp fresh with early | ⟨d, rfl, rest⟩
  · have := mem_poppedIn.mpr early.mem
    rw [before] at this
    exact absurd this List.not_mem_nil
  rcases occurs_cons.mp rest with ⟨rfl, same⟩ | ⟨d', -, late⟩
  · injection same with same
    rw [List.append_nil, last, same]
  · have := mem_poppedIn.mpr late.mem
    rw [after] at this
    exact absurd this List.not_mem_nil

/-- What calm turns keep: the trace so far is as it should be, and a timer whose callback ran
without being armed again, or whose finalizer ran, is not stored any more. -/
structure Sound (s : EventLoop Q) : Prop where
  idsOk : IdsOk s
  marked : ∀ id ∈ s.setDelTimeId, id ∈ deletedIn s.trace
  pops : PopsExact s.trace
  spent : ∀ pre post te, s.trace = pre ++ .called te :: post → te.id < s.timeEventNextId ∧
    ((∃ x ∈ rearmedIn post, x.id = te.id) ∨ ∀ x ∈ elems s.timeMinHead, x.id ≠ te.id)
  once : OncePerExpiry s.trace
  buried : ∀ te ∈ finalizedIn s.trace, te.id < s.timeEventNextId ∧
    ∀ x ∈ elems s.timeMinHead, x.id ≠ te.id
  finalizedOnce : ((finalizedIn s.trace).map TimeEvent.id).Nodup

theorem Sound.fair {s : EventLoop Q} (h : Sound s) : PopsFair s.trace :=
  ⟨h.pops, h.once, h.finalizedOnce⟩

section Sound

variable {env : Env Int} {now : Int × Int} {s t : EventLoop Q} {n m : Int}

/-- Steps that only add timers under unused ids, or drop timers, and call nobody. -/
theorem Sound.quiet (h : Sound s) (user : List (Event Int)) (trace : t.trace = s.trace ++ user)
    (isUser : ∀ e ∈ user, UserEvent e) (ids : IdsOk t)
    (next : s.timeEventNextId ≤ t.timeEventNextId)
    (heap : ∀ x ∈ elems t.timeMinHead, x ∈ elems s.timeMinHead ∨ s.timeEventNextId ≤ x.id)
    (dels : ∀ id ∈ t.setDelTimeId, id ∈ deletedIn t.trace) : Sound t := by
  have away : ∀ id, id < s.timeEventNextId → (∀ x ∈ elems s.timeMinHead, x.id ≠ id) →
      ∀ x ∈ elems t.timeMinHead, x.id ≠ id := by
    intro id old absent x hx
    rcases heap x hx with stored | fresh
    · exact absent x stored
    · omega
  have inOld : ∀ pre post te, t.trace = pre ++ .called te :: post →
      ∃ c, s.trace = pre ++ .called te :: c ∧ post = c ++ user := by
    intro pre post te split
    rcases split_append (trace.symm.trans split) with found | ⟨c, -, fresh⟩
    · exact found
    · have : Event.called te ∈ user := by simp [fresh]
      exact absurd (isUser _ this) (by simp [UserEvent])
  refine ⟨ids, dels, ?_, ?_, ?_, ?_, ?_⟩
  · rw [trace]
    exact h.pops.append_quiet (poppedIn_of_user isUser)
  · intro pre post te split
    obtain ⟨c, old, rfl⟩ := inOld pre post te split
    obtain ⟨low, rearmed | absent⟩ := h.spent pre c te old
    · obtain ⟨x, hx, same⟩ := rearmed
      refine ⟨low.trans_le next, .inl ⟨x, ?_, same⟩⟩
      rw [rearmedIn_append]
      exact List.mem_append_left _ hx
    · exact ⟨low.trans_le next, .inr (away te.id low absent)⟩
  · intro pre mid post te te' split same
    obtain ⟨c, old, -⟩ := inOld _ post te' split
    exact h.once pre mid c te te' old same
  · intro te hte
    rw [trace, finalizedIn_append, finalizedIn_of_user isUser, List.append_nil] at hte
    obtain ⟨low, absent⟩ := h.buried te hte
    exact ⟨low.trans_le next, away te.id low absent⟩
  · rw [trace, finalizedIn_append, finalizedIn_of_user isUser, List.append_nil]
    exact h.finalizedOnce

theorem Turn.absent {calls : List (TimerCall Int)} {te : TimeEvent}
    {front user back : List (Event Int)} {again : List TimeEvent}
    (turn : Turn env calls te s t front user back te again) (ok : IdsOk s) {id : Int}
    (low : id < s.timeEventNextId) (absent : ∀ x ∈ elems s.timeMinHead, x.id ≠ id) :
    ∀ x ∈ elems t.timeMinHead, x.id ≠ id := by
  intro x hx
  rcases turn.stored_id ok hx with rearmed | fresh | ⟨old, -⟩
  · obtain ⟨r, k, -, rfl⟩ := turn.rearmed x rearmed
    exact absent te (top_mem turn.top)
  · omega
  · exact absent x old

theorem Turn.marked {calls : List (TimerCall Int)} {te : TimeEvent}
    {front user back : List (Event Int)} {gone : TimeEvent} {again : List TimeEvent}
    (turn : Turn env calls te s t front user back gone again)
    (before : ∀ id ∈ s.setDelTimeId, id ∈ deletedIn s.trace) :
    ∀ id ∈ t.setDelTimeId, id ∈ deletedIn t.trace := by
  intro id hid
  rw [turn.dels, Finset.mem_union, List.mem_toFinset] at hid
  rw [turn.trace, deletedIn_append, deletedIn_append, deletedIn_append]
  rcases hid with old | fresh
  · exact List.mem_append_left _ (before id old)
  · exact List.mem_append_right _ (List.mem_append_left _ (List.mem_append_right _ fresh))

theorem calledIn_split {new c post : List (Event Int)} {te x : TimeEvent}
    (only : calledIn new = [te]) (split : new = c ++ .called x :: post) :
    x = te ∧ calledIn c = [] ∧ calledIn post = [] := by
  rw [split, calledIn_append, calledIn_cons, Event.called?, Option.toList_some,
    List.singleton_append] at only
  rcases List.append_eq_singleton_iff.mp only with ⟨none, one⟩ | ⟨-, none⟩
  · injection one with same rest
    exact ⟨same, none, rest⟩
  · cases none

theorem Sound.discard (h : Sound s) {calls : List (TimerCall Int)} {te : TimeEvent}
    {user fin : List (Event Int)} (hfin : fin = [] ∨ fin = [.finalized te])
    (turn : Turn env calls te s t ([.reached te now, .discarded te] ++ fin) user
      [.popped te] te []) : Sound t := by
  have next : s.timeEventNextId ≤ t.timeEventNextId := by
    have := turn.nextId
    omega
  have removed : ∀ x ∈ elems t.timeMinHead, x.id ≠ te.id := by
    intro x hx
    rcases turn.stored_id h.idsOk hx with rearmed | fresh | ⟨-, other⟩
    · exact absurd rearmed List.not_mem_nil
    · have := h.idsOk.below te (top_mem turn.top)
      omega
    · exact other
  have uncalled : calledIn ([.reached te now, .discarded te] ++ fin ++ user ++ [.popped te]) = [] := by
    rcases hfin with rfl | rfl <;> simp [calledIn_of_user turn.isUser]
  have inOld : ∀ pre post x, t.trace = pre ++ .called x :: post →
      ∃ c, s.trace = pre ++ .called x :: c ∧ rearmedIn c ⊆ rearmedIn post := by
    intro pre post x split
    rcases split_append (turn.trace.symm.trans split) with ⟨c, old, rfl⟩ | ⟨c, -, fresh⟩
    · refine ⟨c, old, fun y hy => ?_⟩
      rw [rearmedIn_append]
      exact List.mem_append_left _ hy
    · have : x ∈ calledIn ([.reached te now, .discarded te] ++ fin ++ user ++ [.popped te]) := by
        rw [fresh]
        simp
      rw [uncalled] at this
      exact absurd this List.not_mem_nil
  refine ⟨turn.idsOk h.idsOk, turn.marked h.marked, ?_, ?_, ?_, ?_, ?_⟩
  · rw [turn.trace]
    refine h.pops.append_turn ?_ rfl ?_
    · rcases hfin with rfl | rfl <;> simp [poppedIn_of_user turn.isUser]
    · have quiet : (fin ++ user).filterMap ran? = [] := by
        rw [List.filterMap_append, ran_of_user turn.isUser]
        rcases hfin with rfl | rfl <;> rfl
      have := lastRan_append_cons (s.trace ++ [.reached te now]) (fin ++ user)
        (e := .discarded te) rfl quiet
      simpa using this
  · intro pre post x split
    obtain ⟨c, old, sub⟩ := inOld pre post x split
    obtain ⟨low, ⟨y, hy, same⟩ | absent⟩ := h.spent pre c x old
    · exact ⟨low.trans_le next, .inl ⟨y, sub hy, same⟩⟩
    · exact ⟨low.trans_le next, .inr (turn.absent h.idsOk low absent)⟩
  · intro pre mid post x y split same
    obtain ⟨c, old, -⟩ := inOld _ post y split
    exact h.once pre mid c x y old same
  · intro x hx
    rw [turn.trace, finalizedIn_append, List.mem_append] at hx
    rcases hx with old | fresh
    · obtain ⟨low, absent⟩ := h.buried x old
      exact ⟨low.trans_le next, turn.absent h.idsOk low absent⟩
    · have same : x = te := by
        rcases hfin with rfl | rfl <;> simp [finalizedIn_of_user turn.isUser] at fresh
        exact fresh
      rw [same]
      exact ⟨(h.idsOk.below te (top_mem turn.top)).trans_le next, removed⟩
  · rw [turn.trace, finalizedIn_append, List.map_append]
    rcases hfin with rfl | rfl
    · simpa [finalizedIn_of_user turn.isUser] using h.finalizedOnce
    · have unburied : te.id ∉ (finalizedIn s.trace).map TimeEvent.id := by
        intro buried
        obtain ⟨x, hx, same⟩ := List.mem_map.mp buried
        exact (h.buried x hx).2 te (top_mem turn.top) same.symm
      have := List.nodup_append.mpr ⟨h.finalizedOnce, List.nodup_singleton te.id, ?_⟩
      · simpa [finalizedIn_of_user turn.isUser] using this
      · intro id hid id' hid' same
        rw [List.mem_singleton.mp hid'] at same
        exact unburied (same ▸ hid)

theorem Sound.fire (h : Sound s) {calls : List (TimerCall Int)} {te : TimeEvent}
    {user : List (Event Int)} {again : List TimeEvent} {r : Int}
    (turn : Turn env calls te s t [.reached te now, .called te] user
      ([.returned te r, .popped te] ++ again.map Event.rearmed) te again) : Sound t := by
  have next : s.timeEventNextId ≤ t.timeEventNextId := by
    have := turn.nextId
    omega
  have only : calledIn ([.reached te now, .called te] ++ user ++
      ([.returned te r, .popped te] ++ again.map Event.rearmed)) = [te] := by
    simp [calledIn_of_user turn.isUser]
  have inTurn : ∀ c x post, [.reached te now, .called te] ++ user ++
      ([.returned te r, .popped te] ++ again.map Event.rearmed) = c ++ .called x :: post →
        x = te ∧ calledIn c = [] ∧ post = user ++
          ([.returned te r, .popped te] ++ again.map Event.rearmed) := by
    intro c x post split
    obtain ⟨rfl, none, -⟩ := calledIn_split only split
    cases c with
    | nil => simp at split
    | cons e rest =>
        simp only [List.cons_append, List.cons.injEq] at split
        cases rest with
        | nil =>
            simp only [List.nil_append, List.cons.injEq] at split
            exact ⟨rfl, none, split.2.2.symm⟩
        | cons f rest =>
            simp only [List.nil_append, List.cons_append, List.cons.injEq] at split
            rw [← split.2.1] at none
            simp at none
  refine ⟨turn.idsOk h.idsOk, turn.marked h.marked, ?_, ?_, ?_, ?_, ?_⟩
  · have := h.pops.append_turn (a := [.reached te now, .called te] ++ user ++ [.returned te r])
      (b := again.map Event.rearmed) (x := te) ?_ (poppedIn_map_rearmed again) ?_
    · rw [turn.trace]
      simpa using this
    · simp [poppedIn_of_user turn.isUser]
    · have quiet : (user ++ [Event.returned te r]).filterMap ran? = [] := by
        rw [List.filterMap_append, ran_of_user turn.isUser]
        rfl
      have := lastRan_append_cons (s.trace ++ [.reached te now]) (user ++ [.returned te r])
        (e := .called te) rfl quiet
      simpa using this
  · intro pre post x split
    rcases split_append (turn.trace.symm.trans split) with ⟨c, old, rfl⟩ | ⟨c, -, fresh⟩
    · obtain ⟨low, ⟨y, hy, same⟩ | absent⟩ := h.spent pre c x old
      · refine ⟨low.trans_le next, .inl ⟨y, ?_, same⟩⟩
        rw [rearmedIn_append]
        exact List.mem_append_left _ hy
      · exact ⟨low.trans_le next, .inr (turn.absent h.idsOk low absent)⟩
    · obtain ⟨rfl, -, rfl⟩ := inTurn c x post fresh
      refine ⟨(h.idsOk.below x (top_mem turn.top)).trans_le next, ?_⟩
      cases again with
      | nil =>
          refine .inr fun y hy => ?_
          rcases turn.stored_id h.idsOk hy with rearmed | fresh | ⟨-, other⟩
          · exact absurd rearmed List.not_mem_nil
          · have := h.idsOk.below x (top_mem turn.top)
            omega
          · exact other
      | cons y rest =>
          obtain ⟨r', k, -, rfl⟩ := turn.rearmed y List.mem_cons_self
          refine .inl ⟨x.setWhen (aeAddMillisecondsToNow (env.gettimeofday k) r'), ?_, rfl⟩
          simp
  · intro pre mid post x y split same
    rcases split_append (turn.trace.symm.trans split) with ⟨c, old, -⟩ | ⟨c, before, fresh⟩
    · exact h.once pre mid c x y old same
    · obtain ⟨rfl, none, -⟩ := inTurn c y post fresh
      rcases split_append before.symm with ⟨d, old, rfl⟩ | ⟨d, -, inC⟩
      · obtain ⟨-, ⟨z, hz, eq⟩ | absent⟩ := h.spent pre d x old
        · refine ⟨z, ?_, eq⟩
          rw [rearmedIn_append]
          exact List.mem_append_left _ hz
        · exact absurd same.symm (absent y (top_mem turn.top))
      · rw [inC] at none
        simp at none
  · intro x hx
    rw [turn.trace, finalizedIn_append] at hx
    have old : x ∈ finalizedIn s.trace := by
      simpa [finalizedIn_of_user turn.isUser] using hx
    obtain ⟨low, absent⟩ := h.buried x old
    exact ⟨low.trans_le next, turn.absent h.idsOk low absent⟩
  · rw [turn.trace, finalizedIn_append]
    simpa [finalizedIn_of_user turn.isUser] using h.finalizedOnce

theorem Sound.turn (h : Sound s) {calls : List (TimerCall Int)} {te : TimeEvent}
    {front user back : List (Event Int)} {again : List TimeEvent}
    (shape : TurnShape env now s te front back te again)
    (turn : Turn env calls te s t front user back te again) : Sound t := by
  cases shape with
  | discard _ marked =>
      refine h.discard ?_ turn
      split_ifs
      · exact .inr rfl
      · exact .inl rfl
  | fire _ _ live due last => exact h.fire turn

theorem NothingLost.turn {s₀ : EventLoop Q} {seg : List (Event Int)} (sound : Sound s)
    (h : NothingLost s₀ s seg) {calls : List (TimerCall Int)} {te : TimeEvent}
    {front user back : List (Event Int)} {again : List TimeEvent}
    (shape : TurnShape env now s te front back te again)
    (turn : Turn env calls te s t front user back te again) :
    NothingLost s₀ t (seg ++ (front ++ user ++ back)) := by
  have fate : te ∈ calledIn (front ++ user ++ back) ∨
      te ∈ discardedIn (front ++ user ++ back) ∧ te.id ∈ deletedIn t.trace := by
    cases shape with
    | discard _ marked =>
        refine .inr ⟨by simp, ?_⟩
        rw [turn.trace, deletedIn_append]
        exact List.mem_append_left _ (sound.marked te.id marked)
    | fire _ _ live due last => exact .inl (by simp)
  have moved : createdIn (front ++ user ++ back) = createdIn user ∧
      rearmedIn (front ++ user ++ back) = again := by
    cases shape with
    | discard _ marked => split_ifs <;> simp [rearmedIn_of_user turn.isUser]
    | fire _ _ live due last => simp [rearmedIn_of_user turn.isUser]
  have account := turn.account
  intro x hx
  rw [calledIn_append, discardedIn_append, List.mem_append, List.mem_append]
  have stored : x ∈ elems s.timeMinHead ∨ x ∈ createdIn user ∨ x ∈ again →
      x ∈ elems t.timeMinHead ∨ x = te := by
    intro source
    have : x ∈ te ::ₘ elems t.timeMinHead := by
      rw [account, Multiset.mem_add, Multiset.mem_add, Multiset.mem_coe, Multiset.mem_coe]
      rcases source with old | made | armed
      · exact .inr old
      · exact .inl (.inl made)
      · exact .inl (.inr armed)
    exact (Multiset.mem_cons.mp this).symm
  have settle : x ∈ elems t.timeMinHead ∨ x = te → x ∈ elems t.timeMinHead ∨
      (x ∈ calledIn seg ∨ x ∈ calledIn (front ++ user ++ back)) ∨
        (x ∈ discardedIn seg ∨ x ∈ discardedIn (front ++ user ++ back)) ∧
          x.id ∈ deletedIn t.trace := by
    rintro (kept | rfl)
    · exact .inl kept
    · rcases fate with called | ⟨discarded, deleted⟩
      · exact .inr (.inl (.inr called))
      · exact .inr (.inr ⟨.inr discarded, deleted⟩)
  rw [createdIn_append, rearmedIn_append, moved.1, moved.2, List.mem_append, List.mem_append] at hx
  have origin : (x ∈ elems s.timeMinHead ∨ x ∈ createdIn user ∨ x ∈ again) ∨
      x ∈ calledIn seg ∨ x ∈ discardedIn seg ∧ x.id ∈ deletedIn s.trace := by
    rcases hx with old | (old | made) | (old | armed)
    · exact (h x (.inl old)).imp_left .inl
    · exact (h x (.inr (.inl old))).imp_left .inl
    · exact .inl (.inr (.inl made))
    · exact (h x (.inr (.inr old))).imp_left .inl
    · exact .inl (.inr (.inr armed))
  rcases origin with source | called | ⟨discarded, deleted⟩
  · exact settle (stored source)
  · exact .inr (.inl (.inl called))
  · refine .inr (.inr ⟨.inl discarded, ?_⟩)
    rw [turn.trace, deletedIn_append]
    exact List.mem_append_left _ deleted

end Sound

section Runs

variable {env : Env Int} {s : EventLoop Q}

theorem calmPass_sound (sound : Sound s) (calm : CalmPass env s) {c : EventLoop Q × Int}
    (visited : PassVisits env s c) :
    Sound c.1 ∧ ∃ seg, c.1.trace = s.trace ++ seg ∧ NothingLost s c.1 seg := by
  refine WhileLoop.visits_invariant (fun c : EventLoop Q × Int =>
      Sound c.1 ∧ ∃ seg, c.1.trace = s.trace ++ seg ∧ NothingLost s c.1 seg)
    (fun c => Calm env (snapshot env s) c.1) ?_ calm ?_ visited
  · rintro ⟨a, i⟩ ⟨b, j⟩ ⟨sound, seg, trace, kept⟩ calmHere body
    obtain ⟨te, front, user, back, again, turn, shape⟩ := calm_turn calmHere body
    refine ⟨sound.turn shape turn, _, ?_, kept.turn sound shape turn⟩
    rw [turn.trace, trace, List.append_assoc]
  · refine ⟨sound.quiet [] (by simp) (by simp) ⟨sound.idsOk.nodup, sound.idsOk.below⟩
      (le_refl _) (fun x hx => .inl hx) sound.marked, [], by simp, ?_⟩
    intro te hte
    simpa using hte

theorem runCall_sound (env : Env Int) (sound : Sound s) (call : TimerCall Int) :
    Sound (runCall env s call) := by
  cases call with
  | create ms proc data fin =>
      refine sound.quiet [.created (s.newTimeEvent env ms proc data fin)] rfl
        (by simp [UserEvent])
        (sound.idsOk.push (s.newTimeEvent env ms proc data fin) rfl rfl rfl)
        (by simp only [runCall, aeCreateTimeEvent]; omega) ?_ ?_
      · intro x hx
        rcases Multiset.mem_cons.mp (elems_push s.timeMinHead _ ▸ hx) with rfl | old
        · exact .inr (le_refl _)
        · exact .inl old
      · intro id hid
        simpa [runCall, aeCreateTimeEvent] using sound.marked id hid
  | delete id =>
      refine sound.quiet [.deleted id AE_OK] rfl (by simp [UserEvent])
        ⟨sound.idsOk.nodup, sound.idsOk.below⟩ (le_refl _) (fun x hx => .inl hx) ?_
      intro id' hid'
      rcases Finset.mem_insert.mp hid' with rfl | old
      · simp [runCall, aeDeleteTimeEvent]
      · simp [runCall, aeDeleteTimeEvent, sound.marked id' old]

theorem aeResizeSetSize_sound (sound : Sound s) (mem : Memory) (setsize : Int) :
    Sound (aeResizeSetSize mem s setsize).2 := by
  unfold aeResizeSetSize
  split_ifs
  · exact sound
  · exact sound
  · exact sound.quiet [] (by simp) (by simp) ⟨by simp, by simp⟩ (le_refl _) (by simp)
      (by simp)

def CalmStep (env : Env Int) (s : EventLoop Q) (op : Op Int) : Prop := op = .pass → CalmPass env s

theorem run_sound (run : Run env (CalmStep env) s) : Sound s := by
  refine run.invariant Sound ?_ ?_
  · rintro s ⟨mem, setsize, h⟩
    obtain ⟨l, hl, rfl⟩ := Option.map_eq_some_iff.mp h
    obtain ⟨files, -, rfl⟩ := Option.map_eq_some_iff.mp hl
    exact ⟨⟨by simp, by simp⟩, by simp, by simp [PopsExact], by simp, by simp [OncePerExpiry],
      by simp, by simp⟩
  · intro s op t sound calm step
    cases step with
    | timer call => exact runCall_sound env sound call
    | file op =>
        exact sound.quiet [] (by simp) (by simp)
          ⟨sound.idsOk.nodup, sound.idsOk.below⟩ (le_refl _) (fun x hx => .inl hx) sound.marked
    | resize mem setsize => exact aeResizeSetSize_sound sound mem setsize
    | pass h =>
        have visited := (WhileLoop.run_invariant (fun _ => True) (fun _ => True)
          (fun _ _ _ _ _ => trivial) (fun _ _ => trivial) trivial h).2.2
        exact (calmPass_sound sound (calm rfl) visited).1

/-- In a run of calm passes every pop, also in a pass still going on, removes the timer just
run; nothing stored is lost, no expiry calls a callback twice, no finalizer runs twice. -/
theorem run_pops_exact (run : Run env (CalmStep env) s) :
    PopsFair s.trace ∧
      (CalmPass env s → ∀ c, PassVisits env s c →
        PopsFair c.1.trace ∧ ∃ seg, c.1.trace = s.trace ++ seg ∧ NothingLost s c.1 seg) := by
  have sound := run_sound run
  refine ⟨sound.fair, fun calm c visited => ?_⟩
  obtain ⟨later, kept⟩ := calmPass_sound sound calm visited
  exact ⟨later.fair, kept⟩

end Runs

/-- The clock stands still, and every callback creates a timer that is due at once: the pass
never ends, but its turns are calm. -/
def endlessEnv : Env Int where
  gettimeofday _ := Timeval.ofMillis 5000
  time _ := 5
  timeProc _ _ := ⟨[.create 0 1 2 none], AE_NOMORE⟩
  finalizerProc _ _ := []

theorem endlessEnv_calm (s : EventLoop Q) : CalmPass endlessEnv s := by
  intro c _ te _ d hd
  rw [turnCalls] at hd
  split_ifs at hd with marked fin due
  · exact absurd hd List.not_mem_nil
  · exact absurd hd List.not_mem_nil
  · obtain rfl := List.mem_singleton.mp hd
    rw [earlier_iff]
    simp only [Due, TimeEvent.deadline, snapshot, endlessEnv, aeGetTime, Timeval.ofMillis] at due
    simp only [TimeEvent.setWhen, endlessEnv, aeAddMillisecondsToNow, aeGetTime, Timeval.ofMillis]
    norm_num at due ⊢
    omega
  · exact absurd hd List.not_mem_nil

theorem run_pops_exact_endless :
    ∃ (s : EventLoop (SortedQueue TimeEvent Earlier)) (c : EventLoop _ × Int),
      Run endlessEnv (CalmStep endlessEnv) s ∧ PassVisits endlessEnv s c ∧
      (poppedIn c.1.trace).map TimeEvent.id = [0] ∧ PopsFair c.1.trace := by
  let s := runCall endlessEnv (fresh endlessEnv) (.create 0 3 4 none)
  have run : Run endlessEnv (CalmStep endlessEnv) s :=
    .move (fresh_run _ _) (by simp [CalmStep]) (.timer _ _)
  have turn : (passStep endlessEnv (snapshot endlessEnv s) ({ s with tick := s.tick + 1 }, 0)).map
      (fun c => (poppedIn c.1.trace).map TimeEvent.id) = some [0] := by decide
  obtain ⟨c, body, popped⟩ := Option.map_eq_some_iff.mp turn
  have visited : PassVisits endlessEnv s c := .single body
  exact ⟨s, c, run, visited, popped, ((run_pops_exact run).2 (endlessEnv_calm s) c visited).1⟩

def nearerEnv : Env Int where
  gettimeofday _ := Timeval.ofMillis 5000
  time _ := 5
  timeProc _ _ := ⟨[], AE_NOMORE⟩
  finalizerProc tr _ := if finalizedIn tr = [] then [.create 0 1 2 none] else []

/-- Timer 0, not due, is deleted; its finalizer creates timer 1, which the pop removes. Timer 1
never fires, and the finalizer of timer 0 runs a second time. -/
theorem pops_exact_fails_nearer :
    ∃ s : EventLoop (SortedQueue TimeEvent Earlier), Run nearerEnv (fun _ _ => True) s ∧
      ¬ PopsExact s.trace ∧ (createdIn s.trace).map TimeEvent.id = [0, 1] ∧
      calledIn s.trace = [] ∧ (finalizedIn s.trace).map TimeEvent.id = [0, 0] ∧
      deletedIn s.trace = [0] ∧ s.timeMinHead.items = [] := by
  let s := runCall nearerEnv (runCall nearerEnv (fresh nearerEnv) (.create 10000 3 4 (some 9)))
    (.delete 0)
  have run : Run nearerEnv (fun _ _ => True) s :=
    .move (.move (fresh_run _ _) trivial (.timer _ _)) trivial (.timer _ _)
  have window : (processTimeEvents nearerEnv 3 s).map (fun c =>
      ((lastRan (c.1.trace.take 6)).map TimeEvent.id, (c.1.trace.drop 6).head?)) =
      some (some 0, some (.popped ⟨1, 5, 0, 1, none, 2⟩)) := by decide
  have outcome : (processTimeEvents nearerEnv 3 s).map (fun c =>
      ((createdIn c.1.trace).map TimeEvent.id, calledIn c.1.trace,
        (finalizedIn c.1.trace).map TimeEvent.id, deletedIn c.1.trace, c.1.timeMinHead.items)) =
      some ([0, 1], [], [0, 0], [0], []) := by decide
  obtain ⟨⟨t, n⟩, h, seen⟩ := Option.map_eq_some_iff.mp window
  rw [h, Option.map_some, Option.some.injEq] at outcome
  simp only [Prod.mk.injEq] at seen outcome
  obtain ⟨last, first⟩ := seen
  refine ⟨t, .move run trivial (.pass h), fun exact' => ?_, outcome⟩
  obtain ⟨post, hpost⟩ := List.head?_eq_some_iff.mp first
  have occurs : Occurs t.trace (t.trace.take 6) (.popped ⟨1, 5, 0, 1, none, 2⟩) :=
    ⟨post, by rw [← hpost, List.take_append_drop]⟩
  rw [exact' _ _ occurs] at last
  exact absurd last (by decide)

end AeEventLoop.Ae2
