import AeEventLoop.EventPointer

/-! Which handlers keep the dispatch loop in bounds. `numevents` and the reports are fixed before
any of them runs, and `aeResizeSetSize` compares the new size with `maxfd` only, so a handler can
delete registrations and shrink the table below reports that wait for their turn, and any resize
takes the array away from under the pointer of the turn it is made in.

The condition is about the reallocations that the handlers make in the run of the shared loop, and
says when the loop with its pointers is in bounds whatever the allocator and stray reads find. A
slot of `fired` that a shrink gave up comes back from a later growth with whatever was left in it. -/

namespace AeEventLoop

namespace SizedCode

def backend (code : SizedCode) (mem : ℕ → Memory) (nearest : Sized → Option TimeEvent)
    (now : Sized → Int × Int) : Backend Sized where
  toHost := code.host mem
  aeSearchNearestTimer := nearest
  now := now
  readClock s := s
  aftersleep s := code.aftersleep.foldl (Sized.apply mem) s
  processTimeEvents _ s := some (s, 0)

variable (code : SizedCode) (nearest : Sized → Option TimeEvent) (now : Sized → Int × Int)
  (flags : Mask) (reports : List (ℕ × Mask)) (t : FileTable)

/-- The state in which the dispatch loop starts, when `epoll_wait` has answered `reports`. -/
def polled (mem : ℕ → Memory) : Sized :=
  (code.backend mem nearest now).polled (fun _ _ => reports) flags (.start t)

def atTurn (mem : ℕ → Memory) (k : ℕ) : Sized :=
  ((code.host mem).dispatch k 0 (code.polled nearest now flags reports t mem, 0)).1

def run (heap : Heap) (k : ℕ) : Traced :=
  code.turns heap k 0 ⟨code.polled nearest now flags reports t heap.grown, []⟩

/-- Every index the loop uses leads into the array in force and is below its size. -/
def InBounds (heap : Heap) : Prop :=
  ∀ a ∈ (code.run nearest now flags reports t heap reports.length).accesses, a.Valid

/-- What the handlers may reallocate up to and in turn `k`, which serves `report`: nothing so small
that slot `k` is lost, last before the turn nothing so small that the descriptor is, and nothing in
the handler that the turn tries first. -/
structure Spared (mem : ℕ → Memory) (k : ℕ) (report : ℕ × Mask) (s : Sized) : Prop where
  slot : ∀ n ∈ s.resized, (k : Int) < n
  descriptor : ∀ n ∈ s.resized.getLast?, (report.1 : Int) < n
  first : code.FirstKeeps mem s (firedEvent report)

end SizedCode

structure FileTable.Alike (t u : FileTable) : Prop where
  maxfd : t.maxfd = u.maxfd
  setsize : t.setsize = u.setsize
  events : t.events = u.events
  interest : t.interest = u.interest

theorem FileTable.alike_iff {t u : FileTable} : t.Alike u ↔ u = { t with fired := u.fired } := by
  constructor
  · rintro ⟨maxfd, setsize, events, interest⟩
    rw [maxfd, setsize, events, interest]
  · intro eq
    rw [eq]
    exact ⟨rfl, rfl, rfl, rfl⟩

theorem SizedOp.apply_alike (op : SizedOp) {m m' : Memory} (same : m.events = m'.events)
    {t u : FileTable} (alike : t.Alike u) :
    ((op.on m).apply t).Alike ((op.on m').apply u) := by
  rw [FileTable.alike_iff.mp alike]
  generalize u.fired = f
  cases op with
  | file op =>
      cases op with
      | create fd mask proc clientData refuse =>
          simp only [on, TableOp.apply, FileOp.apply, FileTable.aeCreateFileEvent,
            FileTable.aeApiAddEvent]
          split_ifs <;> exact ⟨rfl, rfl, rfl, rfl⟩
      | delete fd mask =>
          simp only [on, TableOp.apply, FileOp.apply, FileTable.aeDeleteFileEvent,
            FileTable.aeApiDelEvent]
          split_ifs <;> exact ⟨rfl, rfl, rfl, rfl⟩
  | resize setsize =>
      simp only [on, TableOp.apply, FileTable.aeResizeSetSize]
      split_ifs
      · exact ⟨rfl, rfl, rfl, rfl⟩
      · exact ⟨rfl, rfl, rfl, rfl⟩
      · exact ⟨rfl, rfl, by simp only [FileTable.realloc, same], rfl⟩

theorem SizedOp.apply_slots (op : SizedOp) (m : Memory) (t : FileTable) {i : ℕ}
    (inside : (i : Int) < ((op.on m).apply t).setsize) :
    ((op.on m).apply t).fired i = if (i : Int) < t.setsize then t.fired i else m.fired i := by
  cases op with
  | file op =>
      have same := SizedOp.apply_setsize (.file op) m t
      rw [if_pos (by rwa [same] at inside)]
      exact congrFun (op.apply_fired t) i
  | resize setsize =>
      simp only [on, TableOp.apply, FileTable.aeResizeSetSize] at inside ⊢
      by_cases same : setsize = t.setsize
      · rw [if_pos same] at inside ⊢
        exact (if_pos inside).symm
      · rw [if_neg same] at inside ⊢
        by_cases refused : t.maxfd ≥ setsize
        · rw [if_pos refused] at inside ⊢
          exact (if_pos inside).symm
        · rw [if_neg refused] at inside ⊢
          have below : (i : Int) < setsize := inside
          simp only [FileTable.realloc, below, and_true]

theorem SizedOp.reallocates_alike (op : SizedOp) {t u : FileTable} (alike : t.Alike u) :
    op.reallocates t = op.reallocates u := by
  cases op with
  | file op => rfl
  | resize setsize => simp only [reallocates, alike.setsize, alike.maxfd]

namespace Sized

/-- Slot `i` of `fired` was never given up since the poll, when the table had `size` slots. -/
def Kept (size : Int) (s : Sized) (i : ℕ) : Prop :=
  (i : Int) < size ∧ ∀ n ∈ s.resized, (i : Int) < n

/-- What the slots of `fired` hold: the reports, where the slot was never given up, and otherwise
what a growth found there. -/
structure Slots (mem : ℕ → Memory) (size : Int) (stored : ℕ → FiredEvent) (s : Sized) : Prop where
  sized : s.SizeFrom size
  kept : ∀ i, s.Kept size i → s.table.fired i = stored i
  lost : ∀ i, ¬ s.Kept size i → (i : Int) < s.table.setsize →
    ∃ j, s.table.fired i = (mem j).fired i

variable {mem : ℕ → Memory} {size : Int} {stored : ℕ → FiredEvent} {s : Sized} {i : ℕ}

theorem Kept.inside (kept : s.Kept size i) (sized : s.SizeFrom size) :
    (i : Int) < s.table.setsize := by
  rw [sized]
  cases last : s.resized.getLast? with
  | none => exact kept.1
  | some n => exact kept.2 n (List.mem_of_getLast? last)

theorem kept_apply (op : SizedOp) (inside : (i : Int) < (s.apply mem op).table.setsize) :
    (s.apply mem op).Kept size i ↔ s.Kept size i := by
  have after := op.apply_setsize (mem s.resized.length) s.table
  constructor
  · rintro ⟨low, below⟩
    exact ⟨low, fun n hn => below n (List.mem_append_left _ hn)⟩
  · rintro ⟨low, below⟩
    refine ⟨low, fun n hn => ?_⟩
    rcases List.mem_append.mp hn with old | new
    · exact below n old
    · rw [Option.mem_toList] at new
      rw [Sized.apply, after, new] at inside
      exact inside

theorem Slots.apply (slots : Slots mem size stored s) (op : SizedOp) :
    Slots mem size stored (s.apply mem op) := by
  have slot := @SizedOp.apply_slots op (mem s.resized.length) s.table
  have sized : (s.apply mem op).SizeFrom size := slots.sized.apply op
  refine ⟨sized, ?_, ?_⟩
  · intro i kept
    have inside := kept.inside sized
    have before := (kept_apply op inside).mp kept
    exact (slot inside).trans ((if_pos (before.inside slots.sized)).trans (slots.kept i before))
  · intro i gone inside
    have before : ¬ s.Kept size i := fun kept => gone ((kept_apply op inside).mpr kept)
    by_cases old : (i : Int) < s.table.setsize
    · obtain ⟨j, eq⟩ := slots.lost i before old
      exact ⟨j, (slot inside).trans ((if_pos old).trans eq)⟩
    · exact ⟨s.resized.length, (slot inside).trans (if_neg old)⟩

/-- The same run, but for the fired events. -/
structure Alike (s s' : Sized) : Prop where
  table : s.table.Alike s'.table
  calls : s.calls = s'.calls
  resized : s.resized = s'.resized

variable {mem' : ℕ → Memory} {s' : Sized}

theorem Alike.apply (alike : Alike s s') (same : ∀ j, (mem j).events = (mem' j).events)
    (op : SizedOp) : Alike (s.apply mem op) (s'.apply mem' op) := by
  have tables := op.apply_alike (same s.resized.length) alike.table
  rw [alike.resized] at tables
  refine ⟨?_, alike.calls, ?_⟩
  · simp only [Sized.apply, alike.resized]
    exact tables
  · simp only [Sized.apply, alike.resized, op.reallocates_alike alike.table]

theorem Alike.run (alike : Alike s s') (same : ∀ j, (mem j).events = (mem' j).events)
    (ops : List SizedOp) :
    Alike (ops.foldl (Sized.apply mem) s) (ops.foldl (Sized.apply mem') s') := by
  induction ops generalizing s s' with
  | nil => exact alike
  | cons op ops ih => exact ih (alike.apply same op)

theorem Alike.kept_iff (alike : Alike s s') (i : ℕ) : s.Kept size i ↔ s'.Kept size i := by
  rw [Kept, Kept, alike.resized]

end Sized

namespace SizedCode

open Sized

variable {mem mem' : ℕ → Memory} {size : Int} {s s' : Sized} {stored : ℕ → FiredEvent}

theorem call_slots (code : SizedCode) (c : FileCall) (s : Sized)
    (slots : Slots mem size stored s) : Slots mem size stored ((code.host mem).call c s) := by
  have logged : Slots mem size stored { s with calls := s.calls ++ [c] } :=
    ⟨slots.sized, slots.kept, slots.lost⟩
  exact run_invariant _ (fun _ op h => h.apply op) _ logged

theorem call_alike (code : SizedCode) (same : ∀ j, (mem j).events = (mem' j).events) (c : FileCall)
    (s s' : Sized) (alike : Alike s s') :
    Alike ((code.host mem).call c s) ((code.host mem').call c s') := by
  have logged : Alike { s with calls := s.calls ++ [c] } { s' with calls := s'.calls ++ [c] } :=
    ⟨alike.table, congrArg (· ++ [c]) alike.calls, alike.resized⟩
  have other : (code.host mem').call c s' = (code.handler (s.calls ++ [c])).foldl (Sized.apply mem')
      { s' with calls := s'.calls ++ [c] } := by
    rw [alike.calls]
    rfl
  rw [other]
  exact logged.run same _

variable (code : SizedCode) (nearest : Sized → Option TimeEvent) (now : Sized → Int × Int)
  (flags : Mask) (reports : List (ℕ × Mask)) (t : FileTable)

theorem polled_eq (mem : ℕ → Memory) :
    code.polled nearest now flags reports t mem =
      (if flags &&& AE_CALL_AFTER_SLEEP ≠ 0 then code.aftersleep else []).foldl (Sized.apply mem)
        { Sized.start t with table := t.storeFired reports } := by
  have sleep : (code.backend mem nearest now).sleep flags (.start t) = .start t := by
    rw [Backend.sleep]
    split <;> rfl
  simp only [polled, Backend.polled, sleep]
  split_ifs <;> rfl

theorem atTurn_zero (mem : ℕ → Memory) :
    code.atTurn nearest now flags reports t mem 0 =
      code.polled nearest now flags reports t mem := rfl

theorem atTurn_succ (mem : ℕ → Memory) (k : ℕ) :
    code.atTurn nearest now flags reports t mem (k + 1) =
      (code.host mem).dispatchEvent
        ((code.atTurn nearest now flags reports t mem k).table.fired k)
        (code.atTurn nearest now flags reports t mem k) := by
  refine (Host.dispatch_succ k 0 _).trans ?_
  rw [Nat.zero_add]
  rfl

theorem run_succ (heap : Heap) (k : ℕ) :
    code.run nearest now flags reports t heap (k + 1) =
      code.turn heap k (code.run nearest now flags reports t heap k) := by
  refine (turns_succ k 0 _).trans ?_
  rw [Nat.zero_add]
  rfl

theorem atTurn_slots (mem : ℕ → Memory) (k : ℕ) :
    Slots mem t.setsize (t.storeFired reports).fired
      (code.atTurn nearest now flags reports t mem k) := by
  induction k with
  | zero =>
      have start : Slots mem t.setsize (t.storeFired reports).fired
          { Sized.start t with table := t.storeFired reports } := by
        refine ⟨rfl, fun i _ => rfl, fun i gone inside => absurd ⟨inside, ?_⟩ gone⟩
        simp [Sized.start]
      rw [atTurn_zero, polled_eq]
      exact run_invariant _ (fun _ op h => h.apply op) _ start
  | succ k ih =>
      rw [atTurn_succ]
      exact Host.dispatchEvent_keeps code.call_slots _ ih

/-- As long as no slot was given up, the run does not depend on what growths find in `fired`. -/
theorem atTurn_alike (same : ∀ j, (mem j).events = (mem' j).events) (k : ℕ)
    (kept : ∀ i < k, (code.atTurn nearest now flags reports t mem i).Kept t.setsize i) :
    Alike (code.atTurn nearest now flags reports t mem k)
      (code.atTurn nearest now flags reports t mem' k) := by
  induction k with
  | zero =>
      rw [atTurn_zero, atTurn_zero, polled_eq, polled_eq]
      exact Alike.run ⟨⟨rfl, rfl, rfl, rfl⟩, rfl, rfl⟩ same _
  | succ k ih =>
      have alike := ih fun i hi => kept i (by omega)
      have here := kept k (by omega)
      have left := (code.atTurn_slots nearest now flags reports t mem k).kept k here
      have right := (code.atTurn_slots nearest now flags reports t mem' k).kept k
        ((alike.kept_iff k).mp here)
      rw [atTurn_succ, atTurn_succ, left, right]
      exact Host.dispatchEvent_related (fun _ _ h => h.table.events) (code.call_alike same) alike

theorem stored_eq {k : ℕ} {report : ℕ × Mask} (at_ : reports[k]? = some report) :
    (t.storeFired reports).fired k = firedEvent report := by
  simp [FileTable.storeFired, at_, firedEvent]

theorem turn_accesses (heap : Heap) (j : ℕ) (s : Traced) :
    s.accesses <+: (code.turn heap j s).accesses := by
  rw [turn, serve_accesses, Traced.log_accesses, List.append_assoc]
  exact List.prefix_append _ _

theorem run_accesses (heap : Heap) {j k : ℕ} (le : j ≤ k) :
    (code.run nearest now flags reports t heap j).accesses <+:
      (code.run nearest now flags reports t heap k).accesses := by
  induction k, le using Nat.le_induction with
  | base => exact List.prefix_refl _
  | succ k _ ih =>
      rw [run_succ]
      exact ih.trans (code.turn_accesses heap k _)

section Bounds

variable {k : ℕ} {report : ℕ × Mask} {t}

theorem reported_inside (inv : t.Inv) (registered : ∀ r ∈ reports, (t.interest r.1).isSome)
    (at_ : reports[k]? = some report) : (report.1 : Int) < t.setsize := by
  by_contra outside
  have known := registered report (List.mem_of_getElem? at_)
  rw [inv.interest, if_pos (FileTable.aeGetFileEvents_of_ge (not_lt.mp outside))] at known
  cases known

theorem slot_inside (few : (reports.length : Int) ≤ t.setsize) (at_ : reports[k]? = some report) :
    (k : Int) < t.setsize := by
  have := (List.getElem?_eq_some_iff.mp at_).1
  omega

theorem Spared.found {mem : ℕ → Memory} (few : (reports.length : Int) ≤ t.setsize)
    (inside : (report.1 : Int) < t.setsize) (at_ : reports[k]? = some report)
    (spared : code.Spared mem k report (code.atTurn nearest now flags reports t mem k)) :
    let s := code.atTurn nearest now flags reports t mem k
    (k : Int) < s.table.setsize ∧ ((s.table.fired k).fd : Int) < s.table.setsize ∧
      code.FirstKeeps mem s (s.table.fired k) := by
  intro s
  have slots := code.atTurn_slots nearest now flags reports t mem k
  have kept : s.Kept t.setsize k := ⟨slot_inside reports few at_, spared.slot⟩
  rw [slots.kept k kept, stored_eq reports t at_]
  refine ⟨kept.inside slots.sized, ?_, spared.first⟩
  rw [slots.sized]
  cases last : s.resized.getLast? with
  | none => exact inside
  | some n => exact spared.descriptor n last

variable (inv : t.Inv) (few : (reports.length : Int) ≤ t.setsize)
  (registered : ∀ r ∈ reports, (t.interest r.1).isSome)
include inv few registered

/-- Up to a turn before which all were spared, the loop with its pointers is the shared loop. -/
theorem run_agrees (heap : Heap) (n : ℕ) (le : n ≤ reports.length)
    (spared : ∀ k < n, ∀ report, reports[k]? = some report →
      code.Spared heap.grown k report (code.atTurn nearest now flags reports t heap.grown k)) :
    (code.run nearest now flags reports t heap n).loop =
        code.atTurn nearest now flags reports t heap.grown n ∧
      ∀ a ∈ (code.run nearest now flags reports t heap n).accesses, a.Valid := by
  induction n with
  | zero => exact ⟨rfl, by simp [run, turns]⟩
  | succ k ih =>
      obtain ⟨loop, valid⟩ := ih (by omega) fun k' hk' => spared k' (by omega)
      have at_ : reports[k]? = some reports[k] := List.getElem?_eq_getElem (by omega)
      have here := spared k (by omega) _ at_
      obtain ⟨index, inside, first⟩ := Spared.found code nearest now flags reports few
        (reported_inside reports inv registered at_) at_ here
      have from_ := (code.atTurn_slots nearest now flags reports t heap.grown k).sized
      rw [← loop] at index inside from_ first
      rw [run_succ, atTurn_succ, ← loop]
      exact ⟨turn_loop code heap from_ index inside first,
        (turn_valid_iff code heap from_).mpr ⟨valid, index, inside, first⟩⟩

/-- In bounds, the turn after spared ones has both indices in range and tries first a handler that
reallocates nothing. -/
theorem InBounds.next {heap : Heap} (inBounds : code.InBounds nearest now flags reports t heap)
    (inside : k < reports.length)
    (spared : ∀ i < k, ∀ report, reports[i]? = some report →
      code.Spared heap.grown i report (code.atTurn nearest now flags reports t heap.grown i)) :
    let s := code.atTurn nearest now flags reports t heap.grown k
    (k : Int) < s.table.setsize ∧ ((s.table.fired k).fd : Int) < s.table.setsize ∧
      code.FirstKeeps heap.grown s (s.table.fired k) := by
  intro s
  obtain ⟨loop, -⟩ := code.run_agrees nearest now flags reports inv few registered heap k
    inside.le spared
  have from_ := (code.atTurn_slots nearest now flags reports t heap.grown k).sized
  have turn : ∀ a ∈ (code.run nearest now flags reports t heap (k + 1)).accesses, a.Valid :=
    fun a ha => inBounds a ((code.run_accesses nearest now flags reports t heap inside).subset ha)
  rw [run_succ] at turn
  rw [← loop] at from_
  have valid := ((turn_valid_iff code heap from_).mp turn).2
  rw [loop] at valid
  exact valid

/-- The indices of the dispatch loop stay in bounds, whatever the allocator and stray reads find,
exactly if the reallocations that the hook and the handlers make spare every turn. -/
theorem dispatch_in_bounds_iff :
    (∀ heap, code.InBounds nearest now flags reports t heap) ↔
      ∀ mem k report, reports[k]? = some report →
        code.Spared mem k report (code.atTurn nearest now flags reports t mem k) := by
  constructor
  · intro inBounds mem k
    induction k using Nat.strong_induction_on generalizing mem with
    | _ k ih =>
        intro report at_
        have inside : k < reports.length := (List.getElem?_eq_some_iff.mp at_).1
        have next := fun mem => InBounds.next code nearest now flags reports inv few registered
          (inBounds ⟨mem, fun _ => zeroedMemory⟩) inside fun i hi => ih i hi mem
        have slots := code.atTurn_slots nearest now flags reports t mem k
        have earlier : ∀ i < k,
            (code.atTurn nearest now flags reports t mem i).Kept t.setsize i := by
          intro i hi
          have at_i := List.getElem?_eq_getElem (hi.trans inside)
          exact ⟨slot_inside reports few at_i, (ih i hi mem _ at_i).slot⟩
        have kept : (code.atTurn nearest now flags reports t mem k).Kept t.setsize k := by
          by_contra gone
          -- another allocator finds an index beyond the table in every slot a growth hands out
          let mem' : ℕ → Memory := fun j =>
            { mem j with
              fired := fun _ =>
                ⟨(code.atTurn nearest now flags reports t mem k).table.setsize.toNat, 0⟩ }
          have alike := @atTurn_alike mem mem' code nearest now flags reports t (fun _ => rfl) k
            earlier
          obtain ⟨index, fd, -⟩ := next mem'
          obtain ⟨j, lost⟩ := (code.atTurn_slots nearest now flags reports t mem' k).lost k
            (fun h => gone ((alike.kept_iff k).mpr h)) index
          rw [lost, ← alike.table.setsize] at fd
          simp only [mem'] at fd
          omega
        obtain ⟨-, fd, first⟩ := next mem
        rw [slots.kept k kept, stored_eq reports t at_] at fd first
        refine ⟨kept.2, fun n last => ?_, first⟩
        rw [slots.sized, Option.mem_def.mp last] at fd
        exact fd
  · intro spared heap
    exact (code.run_agrees nearest now flags reports inv few registered heap reports.length le_rfl
      fun k _ report at_ => spared heap.grown k report at_).2

end Bounds

def fourSlots (ops : List TableOp) : FileTable :=
  ops.foldl TableOp.apply ⟨-1, 4, zeroedMemory.events, zeroedMemory.fired, fun _ => none⟩

theorem fourSlots_inv (ops : List TableOp) (valid : ∀ op ∈ ops, op.Valid) :
    (fourSlots ops).Inv := by
  refine TableOp.run_inv ?_ ops valid
  refine FileTable.inv_of_unregistered (by decide) rfl (fun i => ?_) fun _ => rfl
  simp only [FileTable.aeGetFileEvents]
  split_ifs <;> rfl

/-- The hook grows the table, and the handlers shrink it to the slots in use. -/
def tidyCode : SizedCode where
  handler _ := [.resize 3]
  aftersleep := [.resize 16]

def bothKinds : FileTable :=
  fourSlots [.file (.create 1 AE_WRITABLE 7 8 false), .file (.create 2 AE_READABLE 9 10 false)]

def tidyTurn (mem : ℕ → Memory) (k : ℕ) : Sized :=
  tidyCode.atTurn (fun _ => none) (fun _ => (5, 0)) (AE_FILE_EVENTS ||| AE_CALL_AFTER_SLEEP)
    [(1, EPOLLOUT), (2, EPOLLIN)] bothKinds mem k

theorem tidyTurn_one (mem : ℕ → Memory) :
    tidyCode.FirstKeeps mem (tidyTurn mem 0) (firedEvent (1, EPOLLOUT)) ∧ tidyTurn mem 1 =
      (tidyCode.host mem).fire (tidyTurn mem 0) (firedEvent (1, EPOLLOUT)) .writable := by
  have entry : (tidyTurn mem 0).table.events (firedEvent (1, EPOLLOUT)).fd =
      ⟨AE_WRITABLE, 0, 7, 8⟩ := rfl
  have first : ((tidyTurn mem 0).table.events (firedEvent (1, EPOLLOUT)).fd).firstKind =
      .readable := by
    rw [entry]
    decide
  have quiet : ¬ (tidyCode.host mem).Ready (tidyTurn mem 0) (firedEvent (1, EPOLLOUT))
      .readable := by
    rw [Host.Ready, host, entry]
    decide
  have ready : (tidyCode.host mem).Ready (tidyTurn mem 0) (firedEvent (1, EPOLLOUT)) .writable := by
    rw [Host.Ready, host, entry]
    decide
  constructor
  · rw [FirstKeeps, first, Host.fireUnlessDone_quiet quiet]
  · refine (Host.dispatchEvent_eq _ (firedEvent (1, EPOLLOUT)) (tidyTurn mem 0)).trans ?_
    rw [show ((tidyCode.host mem).table (tidyTurn mem 0)) = (tidyTurn mem 0).table from rfl, first,
      Host.fireUnlessDone_quiet quiet]
    exact congrArg Prod.fst (Host.fireUnlessDone_first .writable ready)

/-- The hook grows the table, the first handler shrinks it, and the second asks for that again. -/
theorem tidyTurn_spared (mem : ℕ → Memory) :
    tidyCode.Spared mem 0 (1, EPOLLOUT) (tidyTurn mem 0) ∧
      tidyCode.Spared mem 1 (2, EPOLLIN) (tidyTurn mem 1) := by
  obtain ⟨keeps, one⟩ := tidyTurn_one mem
  have grown : (tidyTurn mem 0).resized = [16] := rfl
  have shrunk : (tidyTurn mem 1).resized = [16, 3] := by
    rw [one]
    rfl
  refine ⟨⟨by rw [grown]; decide, by rw [grown]; decide, keeps⟩,
    ⟨by rw [shrunk]; decide, by rw [shrunk]; decide, ?_⟩⟩
  rw [FirstKeeps, Host.fireUnlessDone, one]
  split_ifs <;> rfl

theorem dispatch_in_bounds_iff_tidy :
    (tidyTurn (fun _ => zeroedMemory) 1).resized = [16, 3] ∧ ∀ heap,
      tidyCode.InBounds (fun _ => none) (fun _ => (5, 0)) (AE_FILE_EVENTS ||| AE_CALL_AFTER_SLEEP)
        [(1, EPOLLOUT), (2, EPOLLIN)] bothKinds heap := by
  refine ⟨by decide, (dispatch_in_bounds_iff tidyCode _ _ _ _ (fourSlots_inv _ (by decide))
    (by decide) (by decide)).mpr fun mem k report at_ => ?_⟩
  match k, at_ with
  | 0, at_ =>
      obtain rfl := Option.some.inj at_
      exact (tidyTurn_spared mem).1
  | 1, at_ =>
      obtain rfl := Option.some.inj at_
      exact (tidyTurn_spared mem).2

/-- A handler that grows the table leaves the test after it with a pointer into the old array. -/
example :
    let code : SizedCode := ⟨fun _ => [.resize 16], []⟩
    let t := fourSlots [.file (.create 1 AE_READABLE 7 8 false)]
    ⟨1, 16, false⟩ ∈ (code.run (fun _ => none) (fun _ => (5, 0)) AE_FILE_EVENTS [(1, EPOLLIN)] t
      ⟨fun _ => zeroedMemory, fun _ => zeroedMemory⟩ 1).accesses := by decide

/-- The handler of descriptor 1 drops descriptor 2 and gives the memory back. -/
def shrinkingCode : SizedCode where
  handler _ := [.file (.delete 2 AE_READABLE), .resize 2]
  aftersleep := []

/-- When both are reported, `events[2]` is read of a table of two slots. -/
theorem dispatch_out_of_bounds :
    ¬ ∀ (code : SizedCode) (heap : Heap) (flags : Mask) (reports : List (ℕ × Mask))
        (t : FileTable), t.Inv → (reports.length : Int) ≤ t.setsize →
      (reports.map Prod.fst).Nodup → (∀ r ∈ reports, (t.interest r.1).isSome) →
      ∀ a ∈ (code.run (fun _ => none) (fun _ => (5, 0)) flags reports t heap
        reports.length).accesses, a.InRange := by
  intro all
  let t := fourSlots [.file (.create 1 AE_READABLE 7 8 false),
    .file (.create 2 AE_READABLE 9 10 false)]
  have inRange := all shrinkingCode ⟨fun _ => zeroedMemory, fun _ => zeroedMemory⟩ AE_FILE_EVENTS
    [(1, EPOLLIN), (2, EPOLLIN)] t (fourSlots_inv _ (by decide)) (by decide) (by decide) (by decide)
    ⟨2, 2, true⟩ (by decide)
  exact absurd inRange (by decide)

end SizedCode

end AeEventLoop
