import AeEventLoop.Resources
import AeEventLoop.WhileLoop
import Mathlib.Algebra.BigOperators.Group.Multiset.Basic
import Mathlib.Tactic.Abel

/-! Event loops come and go: the blocks and the epoll descriptor of a loop, through
`aeCreateEventLoop`, `aeResizeSetSize` and `aeDeleteEventLoop`. Every allocation and every
`epoll_create` may fail. The three variants differ in the C++ objects that hold their timers: `ae.c`
has none, `ae2.cpp` two, `ae3.cpp` one; these come from `new`, which throws, and neither function
catches anything. What else is in a loop is left to the other modules. -/

namespace AeEventLoop.Lifetime

open Resources

structure Os where
  malloc : ℕ → Finset ℕ → Option ℕ
  malloc_new : ∀ {k used p}, malloc k used = some p → p ∉ used
  realloc : ℕ → Finset ℕ → ℕ → Option ℕ
  realloc_new : ∀ {k used p q}, realloc k used p = some q → q ∉ used.erase p
  epoll_create : ℕ → Finset ℕ → Option ℕ
  epoll_create_new : ∀ {k used fd}, epoll_create k used = some fd → fd ∉ used

structure Mem where
  calls : ℕ
  blocks : Account ℕ
  fds : Account ℕ
deriving DecidableEq

structure ApiState where
  self : ℕ
  events : Option ℕ
  epfd : ℕ
deriving DecidableEq

/-- The pointers of an `aeEventLoop`; `store` has its C++ objects. -/
structure Loop where
  self : ℕ
  events : Option ℕ
  fired : Option ℕ
  store : List ℕ
  apidata : ApiState
  setsize : Int
  maxfd : Int
deriving DecidableEq

/-- What an exception in `aeCreateEventLoop` leaves: no pointer leads to any of it. -/
structure Leak where
  self : ℕ
  events : Option ℕ
  fired : Option ℕ
  made : List ℕ
deriving DecidableEq

namespace Mem

/-- `free` and `delete` of what may be null. -/
def free (m : Mem) (p : Option ℕ) : Mem :=
  p.elim m fun p => { m with blocks := m.blocks.release p }

def close (m : Mem) (fd : ℕ) : Mem := { m with fds := m.fds.release fd }

def freeAll (m : Mem) (ps : List ℕ) : Mem := ps.foldl (fun m p => m.free (some p)) m

end Mem

def aeApiFree (m : Mem) (state : ApiState) : Mem :=
  ((m.close state.epfd).free state.events).free (some state.self)

def aeDeleteEventLoop (m : Mem) (eventLoop : Loop) : Mem :=
  ((((aeApiFree m eventLoop.apidata).freeAll eventLoop.store).free eventLoop.events).free
    eventLoop.fired).free (some eventLoop.self)

namespace Os

variable (os : Os)

def allocate (m : Mem) : Option ℕ × Mem :=
  match os.malloc m.calls m.blocks.held with
  | none => (none, { m with calls := m.calls + 1 })
  | some p => (some p, { m with calls := m.calls + 1, blocks := m.blocks.acquire p })

/-- A block that cannot be resized stays, and one that is resized to nothing is freed. -/
def reallocate (m : Mem) (p : Option ℕ) (size : Int) : Option ℕ × Mem :=
  match p with
  | none => os.allocate m
  | some p =>
      if size = 0 then (none, { m.free (some p) with calls := m.calls + 1 }) else
      match os.realloc m.calls m.blocks.held p with
      | none => (none, { m with calls := m.calls + 1 })
      | some q =>
          (some q, { m with calls := m.calls + 1, blocks := (m.blocks.release p).acquire q })

/-- `new`, a number of times; an exception leaves the objects made before. -/
def news : ℕ → Mem → Except (List ℕ × Mem) (List ℕ × Mem)
  | 0, m => .ok ([], m)
  | k + 1, m =>
      match os.allocate m with
      | (none, m) => .error ([], m)
      | (some p, m) =>
          match news k m with
          | .error (ps, m) => .error (p :: ps, m)
          | .ok (ps, m) => .ok (p :: ps, m)

def aeApiCreate (m : Mem) : Option ApiState × Mem :=
  match os.allocate m with
  | (none, m) => (none, m)
  | (some state, m) =>
      match os.allocate m with
      | (none, m) => (none, m.free (some state))
      | (some events, m) =>
          match os.epoll_create m.calls m.fds.held with
          | none => (none, ({ m with calls := m.calls + 1 }.free (some events)).free (some state))
          | some epfd =>
              (some ⟨state, some events, epfd⟩,
                { m with calls := m.calls + 1, fds := m.fds.acquire epfd })

/-- The end of `aeCreateEventLoop`, from the test for null on. -/
def setUp (m : Mem) (self : ℕ) (events fired : Option ℕ) (store : List ℕ) (setsize : Int) :
    Option Loop × Mem :=
  let err (m : Mem) : Option Loop × Mem :=
    (none, (((m.freeAll store).free events).free fired).free (some self))
  if events.isNone || fired.isNone then err m
  else
    match os.aeApiCreate m with
    | (none, m) => err m
    | (some state, m) => (some ⟨self, events, fired, store, state, setsize, -1⟩, m)

/-- `none` is a null pointer, an error an exception. -/
def createEventLoop (objects : ℕ) (m : Mem) (setsize : Int) :
    Except (Leak × Mem) (Option Loop × Mem) :=
  match os.allocate m with
  | (none, m) => .ok (none, m)
  | (some self, m) =>
      let events := os.allocate m
      let fired := os.allocate events.2
      match os.news objects fired.2 with
      | .error (made, m) => .error (⟨self, events.1, fired.1, made⟩, m)
      | .ok (store, m) => .ok (os.setUp m self events.1 fired.1 store setsize)

def aeCreateEventLoop : Mem → Int → Except (Leak × Mem) (Option Loop × Mem) :=
  os.createEventLoop 0

def aeCreateEventLoop_2 : Mem → Int → Except (Leak × Mem) (Option Loop × Mem) :=
  os.createEventLoop 2

def aeCreateEventLoop_3 : Mem → Int → Except (Leak × Mem) (Option Loop × Mem) :=
  os.createEventLoop 1

end Os

/-- How `aeResizeSetSize` ends. After an exception the loop's first C++ object is gone, and the
pointer to it is what it was. -/
inductive Resized
  | done (ok : Bool) (eventLoop : Loop) (m : Mem)
  | thrown (eventLoop : Loop) (m : Mem)
  | crashed
deriving DecidableEq

namespace Os

variable (os : Os)

/-- The first C++ object is deleted and made again; there may be none. -/
def remake (m : Mem) : List ℕ → Except Mem (List ℕ × Mem)
  | [] => .ok ([], m)
  | p :: rest =>
      match os.allocate (m.free (some p)) with
      | (none, m) => .error m
      | (some q, m) => .ok (q :: rest, m)

/-- The results of `realloc` are not tested. Slots are initialised from `maxfd + 1` on. -/
def aeResizeSetSize (m : Mem) (eventLoop : Loop) (setsize : Int) : Resized :=
  if setsize = eventLoop.setsize then .done true eventLoop m
  else if eventLoop.maxfd ≥ setsize then .done false eventLoop m
  else
    let state := os.reallocate m eventLoop.apidata.events setsize
    let apidata := { eventLoop.apidata with events := state.1 }
    match os.remake state.2 eventLoop.store with
    | .error m => .thrown { eventLoop with apidata := apidata } m
    | .ok (store, m) =>
        let events := os.reallocate m eventLoop.events setsize
        let fired := os.reallocate events.2 eventLoop.fired setsize
        if events.1.isNone ∧ eventLoop.maxfd + 1 < setsize then .crashed
        else
          .done true
            { eventLoop with
              events := events.1
              fired := fired.1
              store := store
              apidata := apidata
              setsize := setsize } fired.2

end Os

def own (p : Option ℕ) : Multiset ℕ := p.elim 0 fun p => {p}

def ApiState.blocks (state : ApiState) : Multiset ℕ := {state.self} + own state.events

def Loop.blocks (eventLoop : Loop) : Multiset ℕ :=
  {eventLoop.self} + own eventLoop.events + own eventLoop.fired + ↑eventLoop.store +
    eventLoop.apidata.blocks

def Leak.blocks (left : Leak) : Multiset ℕ :=
  {left.self} + own left.events + own left.fired + ↑left.made

/-- What a loop owns whose first C++ object is gone. -/
def Loop.remains (eventLoop : Loop) : Multiset ℕ :=
  { eventLoop with store := eventLoop.store.tail }.blocks

def Loop.fds (eventLoop : Loop) : Multiset ℕ := {eventLoop.apidata.epfd}

/-- What is in use is exactly this. -/
structure Holds (m : Mem) (blocks fds : Multiset ℕ) : Prop where
  blocks : Exactly m.blocks blocks
  fds : Exactly m.fds fds

section Holds

variable {m : Mem} {B B' F : Multiset ℕ} {p : Option ℕ}

theorem Holds.cast (holds : Holds m B F) (same : B = B') : Holds m B' F := same ▸ holds

theorem Holds.allocate (holds : Holds m B F) (os : Os) :
    Holds (os.allocate m).2 (own (os.allocate m).1 + B) F := by
  unfold Os.allocate
  split
  · rw [own, Option.elim_none, zero_add]
    exact ⟨holds.blocks, holds.fds⟩
  · rename_i p got
    rw [own, Option.elim_some, Multiset.singleton_add]
    exact ⟨holds.blocks.acquire (os.malloc_new got), holds.fds⟩

theorem Holds.free (holds : Holds m (own p + B) F) : Holds (m.free p) B F := by
  cases p with
  | none => exact holds.cast (zero_add B)
  | some p =>
      have held : Holds m (p ::ₘ B) F := holds.cast rfl
      exact ⟨held.blocks.release, holds.fds⟩

theorem Holds.freeAll {ps : List ℕ} (holds : Holds m (↑ps + B) F) : Holds (m.freeAll ps) B F := by
  induction ps generalizing m with
  | nil => exact holds.cast (zero_add B)
  | cons p ps ih =>
      have first : Holds (m.free (some p)) (↑ps + B) F :=
        Holds.free (p := some p) (holds.cast (by
          rw [own, Option.elim_some, ← Multiset.cons_coe, ← Multiset.singleton_add, add_assoc]))
      exact ih first

theorem Holds.close {fd : ℕ} (holds : Holds m B ({fd} + F)) : Holds (m.close fd) B F :=
  ⟨holds.blocks, Exactly.release holds.fds⟩

def lost (p q : Option ℕ) (size : Int) : Multiset ℕ :=
  if q.isNone ∧ size ≠ 0 then own p else 0

theorem Holds.reallocate (holds : Holds m (own p + B) F) (os : Os) (size : Int) :
    let r := os.reallocate m p size
    Holds r.2 (own r.1 + lost p r.1 size + B) F := by
  cases p with
  | none =>
      have none : lost none (os.reallocate m none size).1 size = 0 := by simp [lost, own]
      dsimp only
      rw [none, add_zero]
      exact (holds.cast (zero_add B)).allocate os
  | some p =>
      unfold Os.reallocate
      by_cases nothing : size = 0
      · have freed : Holds (m.free (some p)) B F := holds.free
        simp only [nothing, if_true]
        exact ⟨(freed.cast (by simp [own, lost])).blocks, freed.fds⟩
      · simp only [nothing, if_false]
        split
        · exact ⟨(holds.cast (by simp [own, lost, nothing])).blocks, holds.fds⟩
        · rename_i q got
          have held : Exactly (m.blocks.release p) B := Exactly.release holds.blocks
          have new := held.acquire (os.realloc_new got)
          exact ⟨(by simpa [own, lost, Multiset.singleton_add] using new), holds.fds⟩

theorem Holds.news (holds : Holds m B F) (os : Os) (k : ℕ) :
    (∀ ps n, os.news k m = .ok (ps, n) → Holds n (↑ps + B) F ∧ ps.length = k) ∧
      ∀ ps n, os.news k m = .error (ps, n) → Holds n (↑ps + B) F ∧ ps.length < k := by
  induction k generalizing m B with
  | zero =>
      refine ⟨fun ps n h => ?_, fun ps n h => by cases h⟩
      obtain ⟨rfl, rfl⟩ := Prod.mk.inj (Except.ok.inj h)
      exact ⟨holds.cast (zero_add B).symm, rfl⟩
  | succ k ih =>
      have first := holds.allocate os
      unfold Os.news
      rcases got : os.allocate m with ⟨_ | p, n⟩
      · rw [got] at first
        refine ⟨fun ps n h => (by cases h), fun ps n h => ?_⟩
        obtain ⟨rfl, rfl⟩ := Prod.mk.inj (Except.error.inj h)
        exact ⟨first, Nat.succ_pos k⟩
      · rw [got] at first
        obtain ⟨ok, error⟩ := ih first
        have shift : ∀ ps : List ℕ, (↑ps + (own (some p) + B) : Multiset ℕ) = ↑(p :: ps) + B := by
          intro ps
          rw [← Multiset.cons_coe, ← Multiset.singleton_add, own, Option.elim_some]
          abel
        dsimp only
        constructor
        · intro ps k' h
          split at h
          · cases h
          · rename_i qs n' more
            obtain ⟨rfl, rfl⟩ := Prod.mk.inj (Except.ok.inj h)
            obtain ⟨held, length⟩ := ok _ _ more
            exact ⟨held.cast (shift _), congrArg (· + 1) length⟩
        · intro ps n' h
          split at h
          · rename_i qs n'' thrown
            obtain ⟨rfl, rfl⟩ := Prod.mk.inj (Except.error.inj h)
            obtain ⟨held, fewer⟩ := error _ _ thrown
            exact ⟨held.cast (shift _), Nat.succ_lt_succ fewer⟩
          · cases h

theorem Holds.aeApiCreate (holds : Holds m B F) (os : Os) :
    Holds (os.aeApiCreate m).2 ((os.aeApiCreate m).1.elim 0 ApiState.blocks + B)
      ((os.aeApiCreate m).1.elim 0 (fun state => {state.epfd}) + F) := by
  have first := holds.allocate os
  unfold Os.aeApiCreate
  rcases got : os.allocate m with ⟨_ | state, n⟩
  · rw [got] at first
    exact ⟨first.blocks, (zero_add F).symm ▸ first.fds⟩
  · rw [got] at first
    have second := first.allocate os
    dsimp only
    rcases got : os.allocate n with ⟨_ | events, k⟩
    · rw [got] at second
      have freed : Holds (k.free (some state)) B F := Holds.free (second.cast (zero_add _))
      exact ⟨(freed.cast (zero_add B).symm).blocks, (zero_add F).symm ▸ freed.fds⟩
    · rw [got] at second
      dsimp only
      split
      · have counted : Holds { k with calls := k.calls + 1 }
            (own (some events) + (own (some state) + B)) F := ⟨second.blocks, second.fds⟩
        have freed := counted.free.free
        exact ⟨(freed.cast (zero_add B).symm).blocks, (zero_add F).symm ▸ freed.fds⟩
      · rename_i epfd got
        have opened := second.fds.acquire (os.epoll_create_new got)
        refine ⟨(second.cast ?_).blocks, by simpa [Multiset.singleton_add] using opened⟩
        simp only [Option.elim_some, ApiState.blocks, own]
        abel

end Holds

section Loops

variable {os : Os} {m n : Mem} {B F : Multiset ℕ}

/-- What is handed out by a function that may return null. -/
def Loop.blocksOf (eventLoop : Option Loop) : Multiset ℕ := eventLoop.elim 0 Loop.blocks

def Loop.fdsOf (eventLoop : Option Loop) : Multiset ℕ := eventLoop.elim 0 Loop.fds

theorem Holds.aeDeleteEventLoop {eventLoop : Loop}
    (holds : Holds m (eventLoop.blocks + B) (eventLoop.fds + F)) :
    Holds (aeDeleteEventLoop m eventLoop) B F := by
  have order : eventLoop.blocks + B = own eventLoop.apidata.events +
      (own (some eventLoop.apidata.self) + (↑eventLoop.store + (own eventLoop.events +
        (own eventLoop.fired + (own (some eventLoop.self) + B))))) := by
    simp only [Loop.blocks, ApiState.blocks, own, Option.elim_some]
    abel
  exact ((holds.cast order).close.free.free.freeAll.free.free).free

theorem Holds.err {self : ℕ} {events fired : Option ℕ} {store : List ℕ}
    (holds : Holds m ({self} + own events + own fired + ↑store + B) F) :
    Holds ((((m.freeAll store).free events).free fired).free (some self)) B F := by
  have order : {self} + own events + own fired + ↑store + B =
      ↑store + (own events + (own fired + (own (some self) + B))) := by
    simp only [own, Option.elim_some]
    abel
  exact (holds.cast order).freeAll.free.free.free

theorem Holds.setUp {self : ℕ} {events fired : Option ℕ} {store : List ℕ} (setsize : Int)
    (holds : Holds m ({self} + own events + own fired + ↑store + B) F) (os : Os) :
    Holds (os.setUp m self events fired store setsize).2
      (Loop.blocksOf (os.setUp m self events fired store setsize).1 + B)
      (Loop.fdsOf (os.setUp m self events fired store setsize).1 + F) := by
  have freed : ∀ {k : Mem}, Holds k ({self} + own events + own fired + ↑store + B) F →
      Holds ((((k.freeAll store).free events).free fired).free (some self)) (0 + B) (0 + F) :=
    fun held => by
      rw [zero_add, zero_add]
      exact held.err
  have created := holds.aeApiCreate os
  unfold Os.setUp
  dsimp only
  split_ifs
  · exact freed holds
  · rcases got : os.aeApiCreate m with ⟨_ | state, k⟩
    · rw [got] at created
      exact freed ⟨(created.cast (zero_add _)).blocks, zero_add F ▸ created.fds⟩
    · rw [got] at created
      refine ⟨(created.cast ?_).blocks, created.fds⟩
      simp only [Option.elim_some, Loop.blocksOf, Loop.blocks]
      abel

/-- A loop with everything it needs, or nothing; after an exception, which only C++ objects can
throw, the blocks and the objects made before are left. -/
theorem Holds.createEventLoop (holds : Holds m B F) (os : Os) (objects : ℕ) (setsize : Int) :
    (∀ r n, os.createEventLoop objects m setsize = .ok (r, n) →
        Holds n (Loop.blocksOf r + B) (Loop.fdsOf r + F)) ∧
      ∀ left n, os.createEventLoop objects m setsize = .error (left, n) →
        Holds n (left.blocks + B) F ∧ left.made.length < objects := by
  have first := holds.allocate os
  unfold Os.createEventLoop
  rcases got : os.allocate m with ⟨_ | self, k⟩
  · rw [got] at first
    refine ⟨fun r n h => ?_, fun left n h => by cases h⟩
    obtain ⟨rfl, rfl⟩ := Prod.mk.inj (Except.ok.inj h)
    exact ⟨first.blocks, (zero_add F).symm ▸ first.fds⟩
  · rw [got] at first
    have third := (first.allocate os).allocate os
    dsimp only
    generalize os.allocate k = events at third
    generalize os.allocate events.2 = fired at third
    have order : ∀ made : List ℕ, (↑made + (own fired.1 + (own events.1 + (own (some self) + B))) :
        Multiset ℕ) = {self} + own events.1 + own fired.1 + ↑made + B := by
      intro made
      simp only [own, Option.elim_some]
      abel
    obtain ⟨ok, error⟩ := third.news os objects
    constructor
    · intro r n h
      split at h
      · cases h
      · rename_i store n' made
        have set := ((ok _ _ made).1.cast (order store)).setUp setsize os
        rw [Except.ok.inj h] at set
        exact set
    · intro left n h
      split at h
      · rename_i made n' thrown
        obtain ⟨rfl, rfl⟩ := Prod.mk.inj (Except.error.inj h)
        obtain ⟨held, fewer⟩ := error _ _ thrown
        exact ⟨held.cast (order made), fewer⟩
      · cases h

/-- The blocks that a resize leaves behind: those that could not be resized. -/
def Loop.lost (before after : Loop) : Multiset ℕ :=
  Lifetime.lost before.events after.events after.setsize +
    Lifetime.lost before.fired after.fired after.setsize +
    Lifetime.lost before.apidata.events after.apidata.events after.setsize

theorem Holds.remake {store : List ℕ} (holds : Holds m (↑store + B) F) :
    (∀ store' n, os.remake m store = .ok (store', n) → Holds n (↑store' + B) F) ∧
      ∀ n, os.remake m store = .error n → Holds n (↑store.tail + B) F := by
  cases store with
  | nil =>
      refine ⟨fun store' n h => ?_, fun n h => by cases h⟩
      obtain ⟨rfl, rfl⟩ := Prod.mk.inj (Except.ok.inj h)
      exact holds
  | cons p rest =>
      have order : ∀ q : ℕ, (↑(q :: rest) + B : Multiset ℕ) = own (some q) + (↑rest + B) := by
        intro q
        rw [own, Option.elim_some, ← Multiset.cons_coe, ← Multiset.singleton_add, add_assoc]
      have made := (holds.cast (order p)).free.allocate os
      unfold Os.remake
      dsimp only
      rcases got : os.allocate (m.free (some p)) with ⟨_ | q, n⟩
      · rw [got] at made
        refine ⟨fun store' n' h => (by cases h), fun n' h => ?_⟩
        obtain rfl := Except.error.inj h
        exact made.cast (zero_add _)
      · rw [got] at made
        refine ⟨fun store' n' h => ?_, fun n' h => by cases h⟩
        obtain ⟨rfl, rfl⟩ := Prod.mk.inj (Except.ok.inj h)
        exact made.cast (order q).symm

theorem Loop.lost_self (eventLoop : Loop) : eventLoop.lost eventLoop = 0 := by
  have nothing : ∀ p size, Lifetime.lost p p size = 0 := fun p size => by
    cases p <;> simp [Lifetime.lost, own]
  simp [Loop.lost, nothing]

section Resize

variable {before after : Loop} {setsize : Int} {ok : Bool}
  (holds : Holds m (before.blocks + B) (before.fds + F))
include holds

theorem Holds.aeApiResize (os : Os) (setsize : Int) :
    let state := os.reallocate m before.apidata.events setsize
    Holds state.2 (↑before.store + (own before.events + (own before.fired + (own state.1 +
      lost before.apidata.events state.1 setsize + ({before.self} + {before.apidata.self} + B)))))
      (before.fds + F) := by
  intro state
  have order : before.blocks + B = own before.apidata.events + (↑before.store + (own before.events +
      (own before.fired + ({before.self} + {before.apidata.self} + B)))) := by
    simp only [Loop.blocks, ApiState.blocks]
    abel
  have resized := (holds.cast order).reallocate os setsize
  exact resized.cast (by abel)

theorem Holds.aeResizeSetSize (h : os.aeResizeSetSize m before setsize = .done ok after n) :
    Holds n (after.blocks + (before.lost after + B)) (after.fds + F) := by
  have first := holds.aeApiResize os setsize
  unfold Os.aeResizeSetSize at h
  dsimp only at h first
  split_ifs at h
  · obtain ⟨-, rfl, rfl⟩ := Resized.done.inj h
    rwa [Loop.lost_self, zero_add]
  · obtain ⟨-, rfl, rfl⟩ := Resized.done.inj h
    rwa [Loop.lost_self, zero_add]
  · generalize os.reallocate m before.apidata.events setsize = state at first h
    split at h
    · cases h
    · rename_i store k remade
      have second := first.remake.1 _ _ remade
      have third := (second.cast (show _ = own before.events + (↑store + (own before.fired +
        (own state.1 + lost before.apidata.events state.1 setsize + ({before.self} +
          {before.apidata.self} + B)))) by abel)).reallocate os setsize
      dsimp only at third
      generalize os.reallocate k before.events setsize = events at third h
      have fourth := (third.cast (show _ = own before.fired + (own events.1 +
        lost before.events events.1 setsize + ↑store + (own state.1 +
          lost before.apidata.events state.1 setsize + ({before.self} + {before.apidata.self} +
            B))) by abel)).reallocate os setsize
      dsimp only at fourth
      generalize os.reallocate events.2 before.fired setsize = fired at fourth h
      split_ifs at h
      obtain ⟨-, rfl, rfl⟩ := Resized.done.inj h
      refine fourth.cast ?_
      simp only [Loop.blocks, ApiState.blocks, Loop.lost]
      abel

/-- After an exception everything is still there but the first object. -/
theorem Holds.aeResizeSetSize_thrown
    (h : os.aeResizeSetSize m before setsize = .thrown after n) :
    Holds n (after.remains +
      (lost before.apidata.events after.apidata.events setsize + B)) (after.fds + F) := by
  have first := holds.aeApiResize os setsize
  unfold Os.aeResizeSetSize at h
  dsimp only at h first
  split_ifs at h
  generalize os.reallocate m before.apidata.events setsize = state at first h
  split at h
  · rename_i k failed
    obtain ⟨rfl, rfl⟩ := Resized.thrown.inj h
    refine (first.remake.2 _ failed).cast ?_
    simp only [Loop.remains, Loop.blocks, ApiState.blocks]
    abel
  · split_ifs at h

end Resize

end Loops

/-- A program that has these loops, those whose first C++ object a failed resize took away, which
can no longer be used, and the blocks that no pointer leads to any more. -/
structure Client where
  mem : Mem
  loops : Multiset Loop
  broken : Multiset Loop
  lost : Multiset ℕ

inductive Act
  | create (setsize : Int)
  | files (maxfd : Int)
  | resize (setsize : Int)
  | delete

/-- The program may catch exceptions. A null pointer that is followed ends it. -/
inductive Step (os : Os) (objects : ℕ) : Client → Act → Client → Prop
  | create {c : Client} {setsize : Int} {eventLoop : Loop} {m : Mem} :
      os.createEventLoop objects c.mem setsize = .ok (some eventLoop, m) →
      Step os objects c (.create setsize) { c with mem := m, loops := eventLoop ::ₘ c.loops }
  | refused {c : Client} {setsize : Int} {m : Mem} :
      os.createEventLoop objects c.mem setsize = .ok (none, m) →
      Step os objects c (.create setsize) { c with mem := m }
  | thrown {c : Client} {setsize : Int} {left : Leak} {m : Mem} :
      os.createEventLoop objects c.mem setsize = .error (left, m) →
      Step os objects c (.create setsize) { c with mem := m, lost := left.blocks + c.lost }
  | files {c : Client} {eventLoop : Loop} (maxfd : Int) : eventLoop ∈ c.loops →
      Step os objects c (.files maxfd)
        { c with loops := { eventLoop with maxfd := maxfd } ::ₘ c.loops.erase eventLoop }
  | resize {c : Client} {before after : Loop} {setsize : Int} {ok : Bool} {m : Mem} :
      before ∈ c.loops → os.aeResizeSetSize c.mem before setsize = .done ok after m →
      Step os objects c (.resize setsize)
        ⟨m, after ::ₘ c.loops.erase before, c.broken, before.lost after + c.lost⟩
  | broken {c : Client} {before after : Loop} {setsize : Int} {m : Mem} :
      before ∈ c.loops → os.aeResizeSetSize c.mem before setsize = .thrown after m →
      Step os objects c (.resize setsize)
        ⟨m, c.loops.erase before, after ::ₘ c.broken,
          Lifetime.lost before.apidata.events after.apidata.events setsize + c.lost⟩
  | delete {c : Client} {eventLoop : Loop} : eventLoop ∈ c.loops →
      Step os objects c .delete
        { c with mem := aeDeleteEventLoop c.mem eventLoop, loops := c.loops.erase eventLoop }

def Run (os : Os) (objects : ℕ) (m : Mem) : Client → Prop :=
  WhileLoop.Reach (· = ⟨m, 0, 0, 0⟩) (Step os objects) fun _ _ => True

section Runs

variable {os : Os} {objects : ℕ} {c d : Client} {others fds : Multiset ℕ}

/-- What belongs to no loop that can be used. -/
def Client.spoilt (c : Client) : Multiset ℕ := (c.broken.map Loop.remains).sum + c.lost

def Client.spoiltFds (c : Client) : Multiset ℕ := (c.broken.map Loop.fds).sum

/-- The blocks and descriptors in use are those of the loops, those left, and those of others. -/
def Accounted (others fds : Multiset ℕ) (c : Client) : Prop :=
  Holds c.mem ((c.loops.map Loop.blocks).sum + c.spoilt + others)
    ((c.loops.map Loop.fds).sum + c.spoiltFds + fds)

theorem sum_erase {eventLoop : Loop} {loops : Multiset Loop} (own : eventLoop ∈ loops)
    (what : Loop → Multiset ℕ) :
    (loops.map what).sum = what eventLoop + ((loops.erase eventLoop).map what).sum := by
  conv_lhs => rw [← Multiset.cons_erase own]
  rw [Multiset.map_cons, Multiset.sum_cons]

theorem Accounted.take (accounted : Accounted others fds c) {eventLoop : Loop}
    (own : eventLoop ∈ c.loops) :
    Holds c.mem
      (eventLoop.blocks + (((c.loops.erase eventLoop).map Loop.blocks).sum + c.spoilt + others))
      (eventLoop.fds + (((c.loops.erase eventLoop).map Loop.fds).sum + c.spoiltFds + fds)) := by
  unfold Accounted at accounted
  rw [sum_erase own, sum_erase own] at accounted
  simpa only [add_assoc] using accounted

theorem Accounted.step (accounted : Accounted others fds c) {act : Act}
    (step : Step os objects c act d) : Accounted others fds d := by
  unfold Accounted
  cases step with
  | create h =>
      have created := (Holds.createEventLoop accounted os objects _).1 _ _ h
      simpa [Loop.blocksOf, Loop.fdsOf, Client.spoilt, Client.spoiltFds, add_assoc] using created
  | refused h =>
      have created := (Holds.createEventLoop accounted os objects _).1 _ _ h
      simpa [Loop.blocksOf, Loop.fdsOf, Client.spoilt, Client.spoiltFds] using created
  | thrown h =>
      have created := ((Holds.createEventLoop accounted os objects _).2 _ _ h).1
      refine ⟨(created.cast ?_).blocks, created.fds⟩
      simp only [Client.spoilt]
      abel
  | files maxfd own =>
      have taken := accounted.take own
      simpa [Loop.blocks, Loop.fds, Client.spoilt, Client.spoiltFds, add_assoc] using taken
  | resize own h =>
      have resized := (accounted.take own).aeResizeSetSize h
      rw [Multiset.map_cons, Multiset.sum_cons, Multiset.map_cons, Multiset.sum_cons]
      refine ⟨(resized.cast ?_).blocks, by
        simpa only [Client.spoiltFds, add_assoc] using resized.fds⟩
      simp only [Client.spoilt]
      abel
  | broken own h =>
      have thrown := (accounted.take own).aeResizeSetSize_thrown h
      have fds : ∀ a b x y : Multiset ℕ, x + (a + b + y) = a + (x + b) + y := by
        intros
        abel
      refine ⟨(thrown.cast ?_).blocks, ?_⟩
      · simp only [Client.spoilt, Multiset.map_cons, Multiset.sum_cons]
        abel
      · simp only [Client.spoiltFds, Multiset.map_cons, Multiset.sum_cons, ← fds]
        exact thrown.fds
  | delete own => exact (accounted.take own).aeDeleteEventLoop

/-- Over any number of loops, whatever fails: what is in use is exactly what the loops that exist
use, what is left of those that a resize broke, and what was lost: blocks that could not be resized
and what a creation that threw had acquired. -/
theorem loops_accounted {m : Mem} (start : Holds m others fds) (run : Run os objects m c) :
    Holds c.mem
      ((c.loops.map Loop.blocks).sum + ((c.broken.map Loop.remains).sum + c.lost) + others)
      ((c.loops.map Loop.fds).sum + (c.broken.map Loop.fds).sum + fds) := by
  refine WhileLoop.Reach.invariant (Accounted others fds) ?_
    (fun c act d accounted _ step => accounted.step step) run
  rintro c rfl
  simpa [Accounted, Client.spoilt, Client.spoiltFds] using start

/-- The fifth call, the ninth and the eighteenth fail. -/
def stingy : Os where
  malloc k used := if k = 4 ∨ k = 8 ∨ k = 17 then none else some (used.sup id + 1)
  malloc_new := by
    intro k used p got
    split_ifs at got
    exact Option.some.inj got ▸ above_notMem used
  realloc _ used _ := some (used.sup id + 1)
  realloc_new := by
    rintro k used p q ⟨⟩
    exact fun mem => above_notMem used (Finset.mem_of_mem_erase mem)
  epoll_create _ used := some (used.sup id + 1)
  epoll_create_new := by
    rintro k used fd ⟨⟩
    exact above_notMem used

/-- One creation returns null, one throws, one succeeds, its loop is broken by a resize that throws,
and one more succeeds. -/
theorem loops_accounted_stingy :
    let left : Leak := ⟨1, some 2, some 3, []⟩
    let spoilt : Loop := ⟨4, some 5, some 6, [7], ⟨8, some 10, 1⟩, 1024, -1⟩
    let last : Loop := ⟨11, some 12, some 13, [14], ⟨15, some 16, 2⟩, 64, -1⟩
    ∃ c, Run stingy 1 ⟨0, ⟨∅, false⟩, ⟨∅, false⟩⟩ c ∧ c.loops = {last} ∧ c.broken = {spoilt} ∧
      Holds c.mem (last.blocks + (spoilt.remains + left.blocks)) (last.fds + spoilt.fds) := by
  intro left spoilt last
  let first : Loop := ⟨4, some 5, some 6, [7], ⟨8, some 9, 1⟩, 1024, -1⟩
  let m₁ : Mem := ⟨5, ⟨∅, false⟩, ⟨∅, false⟩⟩
  let m₂ : Mem := ⟨9, ⟨{3, 2, 1}, false⟩, ⟨∅, false⟩⟩
  let m₃ : Mem := ⟨16, ⟨{9, 8, 7, 6, 5, 4, 3, 2, 1}, false⟩, ⟨{1}, false⟩⟩
  let m₄ : Mem := ⟨18, ⟨{10, 8, 6, 5, 4, 3, 2, 1}, false⟩, ⟨{1}, false⟩⟩
  let m₅ : Mem := ⟨25, ⟨{16, 15, 14, 13, 12, 11, 10, 8, 6, 5, 4, 3, 2, 1}, false⟩, ⟨{2, 1}, false⟩⟩
  have h₁ : stingy.createEventLoop 1 ⟨0, ⟨∅, false⟩, ⟨∅, false⟩⟩ 1024 = .ok (none, m₁) := by
    decide +kernel
  have h₂ : stingy.createEventLoop 1 m₁ 1024 = .error (left, m₂) := by decide +kernel
  have h₃ : stingy.createEventLoop 1 m₂ 1024 = .ok (some first, m₃) := by decide +kernel
  have h₄ : stingy.aeResizeSetSize m₃ first 2048 = .thrown spoilt m₄ := by decide +kernel
  have h₅ : stingy.createEventLoop 1 m₄ 64 = .ok (some last, m₅) := by decide +kernel
  have run₃ : Run stingy 1 ⟨0, ⟨∅, false⟩, ⟨∅, false⟩⟩ ⟨m₃, {first}, 0, left.blocks⟩ :=
    .move (.move (.move (.start rfl) trivial (.refused h₁)) trivial (.thrown h₂)) trivial
      (.create h₃)
  have run : Run stingy 1 ⟨0, ⟨∅, false⟩, ⟨∅, false⟩⟩ ⟨m₅, {last}, {spoilt}, left.blocks⟩ :=
    .move (.move run₃ trivial (.broken (Multiset.mem_singleton_self first) h₄)) trivial
      (.create h₅)
  have holds := @loops_accounted stingy 1 _ 0 0 _ ⟨⟨rfl, rfl⟩, ⟨rfl, rfl⟩⟩ run
  exact ⟨_, run, rfl, rfl, by simpa using holds⟩

end Runs

end AeEventLoop.Lifetime
