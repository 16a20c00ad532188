import AeEventLoop.Ae2Pops
import Mathlib.Data.Finset.Card

/-! The tombstone set against the queue. `aeDeleteTimeEvent` inserts any id and answers `AE_OK`,
and nothing but a reallocating `aeResizeSetSize` takes an id out again. The set stays within the
stored ids exactly as long as only pending timers are deleted and no marked timer leaves the
queue; `Clean` says this of single turns and calls, in terms of what the step is given. -/

namespace AeEventLoop.Ae2

open PriorityQueue

variable {Q : Type} [PriorityQueue Q TimeEvent Earlier]

def Stored (s : EventLoop Q) (id : Int) : Prop := ∃ te ∈ elems s.timeMinHead, te.id = id

def Pending (s : EventLoop Q) (id : Int) : Prop := Stored s id ∧ id ∉ s.setDelTimeId

/-- `aeDeleteTimeEvent s id` succeeds for pending timers and refuses others without effect. -/
def DeleteExact (s : EventLoop Q) (id : Int) : Prop :=
  ((aeDeleteTimeEvent s id).1 = AE_OK ↔ Pending s id) ∧
    (¬ Pending s id → aeDeleteTimeEvent s id = (AE_ERR, s))

/-- Tombstones are for stored timers, so none can meet a timer created later. -/
structure TombstonesExact (s : EventLoop Q) : Prop where
  stored : ∀ id ∈ s.setDelTimeId, Stored s id
  past : ∀ id ∈ s.setDelTimeId, id < s.timeEventNextId
  card : s.setDelTimeId.card ≤ (elems s.timeMinHead).card

def CleanCalls (env : Env Int) : EventLoop Q → List (TimerCall Int) → Prop
  | _, [] => True
  | s, .create ms proc data fin :: calls =>
      CleanCalls env (runCall env s (.create ms proc data fin)) calls
  | s, .delete id :: calls => Pending s id ∧ CleanCalls env (runCall env s (.delete id)) calls

/-- The top is not marked; if it is due, its callback deletes pending timers only, and not its
own timer if it is about to end it. -/
structure CleanTurn (env : Env Int) (now : Int × Int) (s : EventLoop Q) : Prop where
  calm : Calm env now s
  unmarked : ∀ te, top s.timeMinHead = some te → te.id ∉ s.setDelTimeId
  calls : ∀ te, top s.timeMinHead = some te → Due te.deadline now →
    CleanCalls env { s with trace := s.trace ++ [.reached te now, .called te] }
      (turnCalls env now s te)
  keeps : ∀ te, top s.timeMinHead = some te → Due te.deadline now →
    (env.timeProc (s.trace ++ [.reached te now]) te).retval = AE_NOMORE →
      .delete te.id ∉ turnCalls env now s te

def CleanPass (env : Env Int) (s : EventLoop Q) : Prop :=
  ∀ c, PassVisits env s c → CleanTurn env (snapshot env s) c.1

def CleanStep (env : Env Int) (s : EventLoop Q) : Op Int → Prop
  | .timer (.delete id) => Pending s id
  | .pass => CleanPass env s
  | _ => True

theorem deleteExact_iff (s : EventLoop Q) (id : Int) : DeleteExact s id ↔ Pending s id := by
  constructor
  · intro h
    exact h.1.mp rfl
  · intro pending
    exact ⟨⟨fun _ => pending, fun _ => rfl⟩, fun absent => absurd pending absent⟩

theorem IdsOk.tombstonesExact {s : EventLoop Q} (ok : IdsOk s)
    (stored : ∀ id ∈ s.setDelTimeId, Stored s id) : TombstonesExact s where
  stored := stored
  past id hid := by
    obtain ⟨te, hte, rfl⟩ := stored id hid
    exact ok.below te hte
  card := by
    have sub : s.setDelTimeId ⊆ ((elems s.timeMinHead).map TimeEvent.id).toFinset := by
      intro id hid
      obtain ⟨te, hte, rfl⟩ := stored id hid
      exact Multiset.mem_toFinset.mpr (Multiset.mem_map_of_mem _ hte)
    calc s.setDelTimeId.card ≤ ((elems s.timeMinHead).map TimeEvent.id).toFinset.card :=
          Finset.card_le_card sub
      _ ≤ ((elems s.timeMinHead).map TimeEvent.id).card := Multiset.toFinset_card_le _
      _ = (elems s.timeMinHead).card := Multiset.card_map _ _

section Steps

variable {env : Env Int} {now : Int × Int} {s t : EventLoop Q} {n m : Int}

theorem runCall_stored (call : TimerCall Int) (clean : ∀ id, call = .delete id → Pending s id)
    (h : ∀ id ∈ s.setDelTimeId, Stored s id) :
    ∀ id ∈ (runCall env s call).setDelTimeId, Stored (runCall env s call) id := by
  cases call with
  | create ms proc data fin =>
      intro id hid
      obtain ⟨te, hte, same⟩ := h id hid
      refine ⟨te, ?_, same⟩
      rw [runCall, aeCreateTimeEvent, elems_push]
      exact Multiset.mem_cons_of_mem hte
  | delete id =>
      intro id' hid'
      rcases Finset.mem_insert.mp hid' with rfl | old
      · exact (clean id' rfl).1
      · exact h id' old

theorem runCalls_stored (calls : List (TimerCall Int)) (clean : CleanCalls env s calls)
    (h : ∀ id ∈ s.setDelTimeId, Stored s id) :
    ∀ id ∈ (runCalls env s calls).setDelTimeId, Stored (runCalls env s calls) id := by
  induction calls generalizing s with
  | nil => exact h
  | cons call calls ih =>
      cases call with
      | create ms proc data fin =>
          exact ih clean (runCall_stored (.create ms proc data fin) (by simp) h)
      | delete id =>
          refine ih clean.2 (runCall_stored (.delete id) ?_ h)
          rintro _ ⟨⟩
          exact clean.1

theorem cleanTurn_stored (clean : CleanTurn env now s)
    (h : ∀ id ∈ s.setDelTimeId, Stored s id) (body : passStep env now (s, n) = some (t, m)) :
    ∀ id ∈ t.setDelTimeId, Stored t id := by
  obtain ⟨te, front, user, back, again, turn, shape⟩ := calm_turn clean.calm body
  cases shape with
  | discard _ marked => exact absurd marked (clean.unmarked te turn.top)
  | fire _ _ live due last =>
      have inMid := runCalls_stored (turnCalls env now s te)
        (s := { s with trace := s.trace ++ [.reached te now, .called te] })
        (clean.calls te turn.top due) h
      intro id hid
      rw [turn.dels] at hid
      obtain ⟨x, hx, same⟩ := inMid id (by rw [turn.ran.dels]; exact hid)
      rw [turn.ran.heap, elems_foldl_push, Multiset.mem_add] at hx
      by_cases own : x = te
      · have more : again ≠ [] := by
          intro ended
          refine clean.keeps te turn.top due (last.mp ended) (turn.asked te.id ?_)
          rw [← own, same]
          rcases Finset.mem_union.mp hid with old | fresh
          · rw [← same, own] at old
            exact absurd old live
          · exact List.mem_toFinset.mp fresh
        obtain ⟨y, rest, rfl⟩ := List.exists_cons_of_ne_nil more
        obtain ⟨r, k, -, rfl⟩ := turn.rearmed y List.mem_cons_self
        refine ⟨te.setWhen (aeAddMillisecondsToNow (env.gettimeofday k) r), ?_,
          (congrArg TimeEvent.id own).symm.trans same⟩
        rw [turn.elems_of_exact]
        exact Multiset.mem_add.mpr (.inl (Multiset.mem_coe.mpr List.mem_cons_self))
      · refine ⟨x, ?_, same⟩
        rw [turn.elems_of_exact, Multiset.mem_add, Multiset.mem_add, Multiset.mem_erase_of_ne own]
        exact .inr hx

theorem cleanPass_stored (clean : CleanPass env s) (ok : IdsOk s)
    (h : ∀ id ∈ s.setDelTimeId, Stored s id) {c : EventLoop Q × Int}
    (visited : PassVisits env s c) :
    IdsOk c.1 ∧ ∀ id ∈ c.1.setDelTimeId, Stored c.1 id := by
  refine WhileLoop.visits_invariant
    (fun c : EventLoop Q × Int => IdsOk c.1 ∧ ∀ id ∈ c.1.setDelTimeId, Stored c.1 id)
    (fun c => CleanTurn env (snapshot env s) c.1) ?_ clean ⟨⟨ok.nodup, ok.below⟩, h⟩ visited
  rintro ⟨a, i⟩ ⟨b, j⟩ ⟨ok, stored⟩ here body
  obtain ⟨te, front, user, back, again, turn, shape⟩ := calm_turn here.calm body
  exact ⟨turn.idsOk ok, cleanTurn_stored here stored body⟩

theorem aeResizeSetSize_stored (h : ∀ id ∈ s.setDelTimeId, Stored s id) (mem : Memory)
    (setsize : Int) :
    ∀ id ∈ (aeResizeSetSize mem s setsize).2.setDelTimeId,
      Stored (aeResizeSetSize mem s setsize).2 id := by
  unfold aeResizeSetSize
  split_ifs
  · exact h
  · exact h
  · intro id hid
    exact absurd hid (Finset.notMem_empty id)

theorem run_stored (run : Run env (CleanStep env) s) :
    IdsOk s ∧ ∀ id ∈ s.setDelTimeId, Stored s id := by
  refine run.invariant (fun s => IdsOk s ∧ ∀ id ∈ s.setDelTimeId, Stored s id) ?_ ?_
  · rintro s ⟨mem, setsize, h⟩
    refine ⟨aeCreateEventLoop_idsOk h, ?_⟩
    obtain ⟨l, -, rfl⟩ := Option.map_eq_some_iff.mp h
    intro id hid
    exact absurd hid (Finset.notMem_empty id)
  · rintro s op t ⟨ok, stored⟩ clean step
    cases step with
    | timer call =>
        refine ⟨runCall_idsOk env ok call, runCall_stored call ?_ stored⟩
        rintro id rfl
        exact clean
    | file op => exact ⟨⟨ok.nodup, ok.below⟩, stored⟩
    | resize mem setsize =>
        exact ⟨aeResizeSetSize_idsOk ok mem setsize, aeResizeSetSize_stored stored mem setsize⟩
    | pass h => exact cleanPass_stored clean ok stored (WhileLoop.run_visits h)

/-- In a clean run the tombstones are exact, between operations and at every loop head of a
clean pass, and a delete answers as it should exactly where the next step may be a delete. -/
theorem run_tombstones_exact (run : Run env (CleanStep env) s) :
    TombstonesExact s ∧ (∀ id, DeleteExact s id ↔ CleanStep env s (.timer (.delete id))) ∧
      (CleanPass env s → ∀ c, PassVisits env s c → TombstonesExact c.1) := by
  obtain ⟨ok, stored⟩ := run_stored run
  refine ⟨ok.tombstonesExact stored, deleteExact_iff s, fun clean c visited => ?_⟩
  obtain ⟨later, still⟩ := cleanPass_stored clean ok stored visited
  exact later.tombstonesExact still

end Steps

def idleEnv : Env Int where
  gettimeofday _ := Timeval.ofMillis 5000
  time _ := 5
  timeProc _ _ := ⟨[], AE_NOMORE⟩
  finalizerProc _ _ := []

/-- Two timers are created and the later one deleted; a pass leaves both where they are. -/
theorem run_tombstones_exact_guarded :
    ∃ s : EventLoop (SortedQueue TimeEvent Earlier), Run idleEnv (CleanStep idleEnv) s ∧
      s.setDelTimeId = {1} ∧ TombstonesExact s := by
  let s₁ := runCall idleEnv (runCall idleEnv (fresh idleEnv) (.create 1000 3 4 none))
    (.create 2000 3 4 none)
  have run₁ : Run idleEnv (CleanStep idleEnv) s₁ :=
    .move (i := .timer (.create 2000 3 4 none))
      (.move (i := .timer (.create 1000 3 4 none)) (fresh_run _ _) trivial (.timer _ _))
      trivial (.timer _ _)
  have pending : Pending s₁ 1 := ⟨⟨⟨1, 7, 0, 3, none, 4⟩, by decide, rfl⟩, by decide⟩
  let s₂ := runCall idleEnv s₁ (.delete 1)
  have run₂ : Run idleEnv (CleanStep idleEnv) s₂ := .move (i := .timer (.delete 1)) run₁ pending (.timer _ _)
  have exit : passStep idleEnv (snapshot idleEnv s₂) ({ s₂ with tick := s₂.tick + 1 }, 0) = none :=
    rfl
  have clean : CleanPass idleEnv s₂ := by
    intro c visited
    obtain rfl := WhileLoop.visits_of_exit exit visited
    have first : top s₂.timeMinHead = some ⟨0, 6, 0, 3, none, 4⟩ := rfl
    have late : ¬ Due (6, 0) (snapshot idleEnv s₂) := by decide
    refine ⟨?_, ?_, ?_, ?_⟩
    · intro te htop
      obtain rfl := Option.some.inj (first.symm.trans htop)
      have silent : turnCalls idleEnv (snapshot idleEnv s₂) { s₂ with tick := s₂.tick + 1 }
          ⟨0, 6, 0, 3, none, 4⟩ = [] := by decide
      intro d hd
      rw [silent] at hd
      exact absurd hd List.not_mem_nil
    · intro te htop
      obtain rfl := Option.some.inj (first.symm.trans htop)
      decide
    · intro te htop due
      obtain rfl := Option.some.inj (first.symm.trans htop)
      exact absurd due late
    · intro te htop due
      obtain rfl := Option.some.inj (first.symm.trans htop)
      exact absurd due late
  have ended : processTimeEvents idleEnv 1 s₂ = some ({ s₂ with tick := s₂.tick + 1 }, 0) :=
    WhileLoop.run_exit 0 exit
  have run₃ : Run idleEnv (CleanStep idleEnv) { s₂ with tick := s₂.tick + 1 } :=
    .move run₂ (i := .pass) clean (.pass ended)
  exact ⟨_, run₃, rfl, (run_tombstones_exact run₃).1⟩

/-- Deleting an id no timer has yet is accepted, and the timer that gets the id later is thrown
away unfired although its delete came first; the tombstone stays. -/
theorem tombstones_exact_fails_unused :
    ∃ s : EventLoop (SortedQueue TimeEvent Earlier), Run idleEnv (fun _ _ => True) s ∧
      ¬ Pending s 0 ∧ (aeDeleteTimeEvent s 0).1 = AE_OK ∧
      ∃ t : EventLoop (SortedQueue TimeEvent Earlier), Run idleEnv (fun _ _ => True) t ∧
        deletedIn t.trace = [0] ∧ (createdIn t.trace).map TimeEvent.id = [0] ∧
        calledIn t.trace = [] ∧ t.timeMinHead.items = [] ∧ t.setDelTimeId = {0} ∧ ¬ TombstonesExact t := by
  let s₁ := runCall idleEnv (fresh idleEnv) (.delete 0)
  let s₂ := runCall idleEnv s₁ (.create 0 3 4 none)
  have run₂ : Run idleEnv (fun _ _ => True) s₂ :=
    .move (.move (fresh_run _ _) trivial (.timer _ _)) trivial (.timer _ _)
  have outcome : (processTimeEvents idleEnv 2 s₂).map (fun c =>
      (deletedIn c.1.trace, (createdIn c.1.trace).map TimeEvent.id, calledIn c.1.trace,
        c.1.timeMinHead.items, c.1.setDelTimeId)) = some ([0], [0], [], [], {0}) := by decide
  obtain ⟨⟨t, n⟩, h, facts⟩ := Option.map_eq_some_iff.mp outcome
  simp only [Prod.mk.injEq] at facts
  obtain ⟨deleted, created, called, items, dels⟩ := facts
  refine ⟨fresh idleEnv, fresh_run _ _, ?_, rfl, t, .move run₂ trivial (.pass h), deleted, created,
    called, items, dels, fun exact' => ?_⟩
  · rintro ⟨⟨te, hte, -⟩, -⟩
    exact absurd hte (Multiset.notMem_zero te)
  · have := exact'.card
    rw [dels, show elems t.timeMinHead = (t.timeMinHead.items : Multiset TimeEvent) from rfl,
      items] at this
    exact absurd this (by decide)

end AeEventLoop.Ae2
