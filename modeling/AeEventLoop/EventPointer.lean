import AeEventLoop.Dispatch
import AeEventLoop.FileRuns

/-! The dispatch loop under handlers, and a hook, that resize the table, with the pointer it takes
once a turn: `fe = &eventLoop->events[eventLoop->fired[j].fd]`. `aeResizeSetSize` reallocates both
arrays, and a pointer into the old one is then good for nothing, wherever the new one lies. So a
pointer carries the number of reallocations made before it was taken.

Every use of an index is written down with the size in force at that moment and with whether the
index leads into the array in force. A read that is out of range or through an old pointer finds
whatever the memory holds. While there is none, the loop does what `Host.dispatchEvent` does, which
looks the entry up again at every test. -/

namespace AeEventLoop

inductive SizedOp
  | file (op : FileOp)
  | resize (setsize : Int)

namespace SizedOp

def on (mem : Memory) : SizedOp → TableOp
  | file op => .file op
  | resize setsize => .resize mem setsize

def reallocates (t : FileTable) : SizedOp → Option Int
  | file _ => none
  | resize setsize => if setsize = t.setsize ∨ t.maxfd ≥ setsize then none else some setsize

theorem apply_setsize (op : SizedOp) (m : Memory) (t : FileTable) :
    ((op.on m).apply t).setsize = (op.reallocates t).getD t.setsize := by
  cases op with
  | file op =>
      cases op with
      | create fd mask proc clientData refuse =>
          exact FileTable.aeCreateFileEvent_setsize _ _ _ _ _ _
      | delete fd mask => exact FileTable.aeDeleteFileEvent_setsize t fd mask
  | resize setsize =>
      simp only [on, TableOp.apply, FileTable.aeResizeSetSize, reallocates]
      by_cases same : setsize = t.setsize
      · simp [same]
      · by_cases refused : t.maxfd ≥ setsize
        · simp [same, refused]
        · simp [same, refused, FileTable.realloc]

end SizedOp

/-- The table, the calls made so far, and the sizes of the reallocations made since the poll. -/
structure Sized where
  table : FileTable
  calls : List FileCall
  resized : List Int

namespace Sized

def start (t : FileTable) : Sized := ⟨t, [], []⟩

/-- The memory of a growth is what the allocator has at that moment. -/
def apply (mem : ℕ → Memory) (s : Sized) (op : SizedOp) : Sized :=
  { s with
    table := (op.on (mem s.resized.length)).apply s.table
    resized := s.resized ++ (op.reallocates s.table).toList }

variable {mem : ℕ → Memory} {s : Sized} {size : Int}

/-- The size in force is that of the last reallocation, or the size at the poll. -/
def SizeFrom (size : Int) (s : Sized) : Prop := s.table.setsize = s.resized.getLast?.getD size

theorem SizeFrom.apply (from_ : s.SizeFrom size) (op : SizedOp) :
    (s.apply mem op).SizeFrom size := by
  have after := op.apply_setsize (mem s.resized.length) s.table
  rw [SizeFrom, Sized.apply, after]
  cases op.reallocates s.table with
  | none => simpa using show s.table.setsize = s.resized.getLast?.getD size from from_
  | some n => simp

theorem run_invariant (I : Sized → Prop) (keep : ∀ s op, I s → I (s.apply mem op))
    (ops : List SizedOp) (start : I s) : I (ops.foldl (Sized.apply mem) s) := by
  induction ops generalizing s with
  | nil => exact start
  | cons op ops ih => exact ih (keep s op start)

theorem run_resized (ops : List SizedOp) :
    s.resized <+: (ops.foldl (Sized.apply mem) s).resized :=
  run_invariant (fun t => s.resized <+: t.resized)
    (fun _ _ before => before.trans (List.prefix_append _ _)) ops (List.prefix_refl _)

end Sized

structure SizedCode where
  handler : List FileCall → List SizedOp
  aftersleep : List SizedOp

def SizedCode.host (code : SizedCode) (mem : ℕ → Memory) : Host Sized where
  table := Sized.table
  setTable t s := { s with table := t }
  call c s :=
    (code.handler (s.calls ++ [c])).foldl (Sized.apply mem) { s with calls := s.calls ++ [c] }

theorem SizedCode.call_resized (code : SizedCode) (mem : ℕ → Memory) (c : FileCall) (s : Sized) :
    s.resized <+: ((code.host mem).call c s).resized :=
  Sized.run_resized (s := { s with calls := s.calls ++ [c] }) _

theorem SizedCode.call_sizeFrom (code : SizedCode) (mem : ℕ → Memory) {size : Int} (c : FileCall)
    (s : Sized) (from_ : s.SizeFrom size) : ((code.host mem).call c s).SizeFrom size :=
  Sized.run_invariant (s := { s with calls := s.calls ++ [c] }) (Sized.SizeFrom size)
    (fun _ op h => h.apply op) _ from_

/-- One use of an index, with the size in force and whether it leads into the array in force. -/
structure Access where
  index : ℕ
  setsize : Int
  current : Bool
deriving DecidableEq

def Access.InRange (a : Access) : Prop := (a.index : Int) < a.setsize

instance (a : Access) : Decidable a.InRange := inferInstanceAs (Decidable (_ < _))

def Access.Valid (a : Access) : Prop := a.InRange ∧ a.current

/-- What growths find in their new slots, and what a stray read finds after some accesses. -/
structure Heap where
  grown : ℕ → Memory
  stray : List Access → Memory

/-- A pointer into `events`, taken when `resizes` reallocations had been made. -/
structure EventPtr where
  resizes : ℕ
  fd : ℕ

/-- The loop with its accesses so far. -/
structure Traced where
  loop : Sized
  accesses : List Access

namespace Traced

/-- The use of index `i` into an array that was in force after `resizes` reallocations. -/
def access (s : Traced) (resizes i : ℕ) : Access :=
  ⟨i, s.loop.table.setsize, resizes = s.loop.resized.length⟩

def log (s : Traced) (resizes i : ℕ) : Traced :=
  { s with accesses := s.accesses ++ [s.access resizes i] }

@[simp] theorem log_loop (s : Traced) (resizes i : ℕ) : (s.log resizes i).loop = s.loop := rfl

@[simp] theorem log_accesses (s : Traced) (resizes i : ℕ) :
    (s.log resizes i).accesses = s.accesses ++ [s.access resizes i] := rfl

@[simp] theorem log_access (s : Traced) (resizes i resizes' i' : ℕ) :
    (s.log resizes i).access resizes' i' = s.access resizes' i' := rfl

theorem access_valid {s : Traced} {resizes i : ℕ} : (s.access resizes i).Valid ↔
    (i : Int) < s.loop.table.setsize ∧ resizes = s.loop.resized.length := by
  simp [Access.Valid, Access.InRange, access]

/-- `eventLoop->fired[j]`. -/
def fired (heap : Heap) (s : Traced) (j : ℕ) : FiredEvent :=
  if (j : Int) < s.loop.table.setsize then s.loop.table.fired j
  else (heap.stray s.accesses).fired j

/-- `*fe`. -/
def deref (heap : Heap) (s : Traced) (fe : EventPtr) : FileEvent :=
  if fe.resizes = s.loop.resized.length ∧ (fe.fd : Int) < s.loop.table.setsize then
    s.loop.table.events fe.fd
  else (heap.stray s.accesses).events fe.fd

end Traced

def FileEvent.firstKind (fe : FileEvent) : FileKind :=
  if fe.mask &&& AE_BARRIER ≠ 0 then .writable else .readable

def FileKind.other : FileKind → FileKind
  | readable => .writable
  | writable => .readable

namespace SizedCode

variable (code : SizedCode) (heap : Heap)

/-- `if (fe->mask & mask & bit) if (!fired || fe->wfileProc != fe->rfileProc) ...`. -/
def fireThrough (fe : EventPtr) (ev : FiredEvent) (kind : FileKind) (c : Traced × ℕ) :
    Traced × ℕ :=
  let e := c.1.deref heap fe
  let s := c.1.log fe.resizes fe.fd
  if e.mask &&& ev.mask &&& kind.bit ≠ 0 ∧ (c.2 = 0 ∨ e.wfileProc ≠ e.rfileProc) then
    let call : FileCall := ⟨kind, ev.fd, e.proc kind, e.clientData, ev.mask⟩
    ({ s with loop := (code.host heap.grown).call call s.loop }, c.2 + 1)
  else (s, c.2)

def serve (fe : EventPtr) (ev : FiredEvent) (s : Traced) : Traced :=
  let invert := (s.deref heap fe).mask &&& AE_BARRIER ≠ 0
  let s := s.log fe.resizes fe.fd
  let c := if ¬ invert then code.fireThrough heap fe ev .readable (s, 0) else (s, 0)
  let c := code.fireThrough heap fe ev .writable c
  let c := if invert then code.fireThrough heap fe ev .readable c else c
  c.1

/-- The body of the loop over the fired events. -/
def turn (j : ℕ) (s : Traced) : Traced :=
  let ev := s.fired heap j
  let s := s.log s.loop.resized.length j
  code.serve heap ⟨s.loop.resized.length, ev.fd⟩ ev s

/-- `for (j = 0; j < numevents; j++)`. -/
def turns : (numevents j : ℕ) → Traced → Traced
  | 0, _, s => s
  | n + 1, j, s => turns n (j + 1) (code.turn heap j s)

/-- The handler a turn tries first, if it is called, reallocates nothing. -/
def FirstKeeps (mem : ℕ → Memory) (s : Sized) (ev : FiredEvent) : Prop :=
  ((code.host mem).fireUnlessDone ev (s.table.events ev.fd).firstKind (s, 0)).1.resized = s.resized

variable {code heap}

theorem turns_succ (n j : ℕ) (s : Traced) :
    code.turns heap (n + 1) j s = code.turn heap (j + n) (code.turns heap n j s) := by
  induction n generalizing j s with
  | zero => rfl
  | succ n ih =>
      rw [turns, ih, Nat.add_right_comm j 1 n]
      rfl

theorem fireThrough_accesses (fe : EventPtr) (ev : FiredEvent) (kind : FileKind)
    (c : Traced × ℕ) : (code.fireThrough heap fe ev kind c).1.accesses =
      c.1.accesses ++ [c.1.access fe.resizes fe.fd] := by
  simp only [fireThrough]
  split_ifs <;> rfl

/-- Through a pointer into the array in force, a test sees what the table registers. -/
theorem fireThrough_loop (code : SizedCode) (heap : Heap) {fe : EventPtr} {ev : FiredEvent}
    {c : Traced × ℕ} (same : fe.fd = ev.fd) (valid : (c.1.access fe.resizes fe.fd).Valid)
    (kind : FileKind) :
    let c' := code.fireThrough heap fe ev kind c
    (c'.1.loop, c'.2) = (code.host heap.grown).fireUnlessDone ev kind (c.1.loop, c.2) := by
  obtain ⟨inside, current⟩ := Traced.access_valid.mp valid
  have entry : c.1.deref heap fe = c.1.loop.table.events ev.fd := by
    rw [Traced.deref, if_pos ⟨current, inside⟩, same]
  have guard : ((c.1.loop.table.events ev.fd).mask &&& ev.mask &&& kind.bit ≠ 0 ∧
      (c.2 = 0 ∨ (c.1.loop.table.events ev.fd).wfileProc ≠
        (c.1.loop.table.events ev.fd).rfileProc)) ↔
      (code.host heap.grown).Ready c.1.loop ev kind ∧
        (c.2 = 0 ∨ (code.host heap.grown).Distinct c.1.loop ev.fd) := Iff.rfl
  simp only [fireThrough, entry]
  by_cases go : (code.host heap.grown).Ready c.1.loop ev kind ∧
      (c.2 = 0 ∨ (code.host heap.grown).Distinct c.1.loop ev.fd)
  · rw [if_pos (guard.mpr go), Host.fireUnlessDone, if_pos go]
    rfl
  · rw [if_neg fun h => go (guard.mp h), Host.fireUnlessDone, if_neg go]
    rfl

theorem serve_eq (fe : EventPtr) (ev : FiredEvent) (s : Traced) :
    let kind := (s.deref heap fe).firstKind
    code.serve heap fe ev s = (code.fireThrough heap fe ev kind.other
      (code.fireThrough heap fe ev kind (s.log fe.resizes fe.fd, 0))).1 := by
  intro kind
  by_cases invert : (s.deref heap fe).mask &&& AE_BARRIER ≠ 0
  · have first : kind = .writable := if_pos invert
    rw [first]
    simp only [serve, if_neg (not_not.mpr invert), if_pos invert]
    rfl
  · have first : kind = .readable := if_neg invert
    rw [first]
    simp only [serve, if_pos invert, if_neg invert]
    rfl

/-- The accesses of a turn with `fe` in hand: two before a handler runs, one after the first. -/
theorem serve_accesses (fe : EventPtr) (ev : FiredEvent) (s : Traced) :
    let first := code.fireThrough heap fe ev (s.deref heap fe).firstKind
      (s.log fe.resizes fe.fd, 0)
    (code.serve heap fe ev s).accesses =
      s.accesses ++ [s.access fe.resizes fe.fd, s.access fe.resizes fe.fd,
        first.1.access fe.resizes fe.fd] := by
  intro first
  rw [serve_eq, fireThrough_accesses, fireThrough_accesses]
  simp [first]

end SizedCode

theorem Host.dispatchEvent_eq {σ : Type} (h : Host σ) (ev : FiredEvent) (s : σ) :
    let kind := ((h.table s).events ev.fd).firstKind
    h.dispatchEvent ev s =
      (h.fireUnlessDone ev kind.other (h.fireUnlessDone ev kind (s, 0))).1 := by
  intro kind
  by_cases invert : ((h.table s).events ev.fd).mask &&& AE_BARRIER ≠ 0
  · have first : kind = .writable := if_pos invert
    rw [first, dispatchEvent_invert invert]
    rfl
  · have first : kind = .readable := if_neg invert
    rw [first, dispatchEvent_plain invert]
    by_cases ready : h.Ready s ev .readable
    · rw [if_pos ready, fireUnlessDone_first .readable ready]
      rfl
    · rw [if_neg ready, fireUnlessDone_quiet ready]
      rfl

namespace SizedCode

variable (code : SizedCode) (heap : Heap) {size : Int}

theorem first_loop {ev : FiredEvent} {s : Traced}
    (inside : (ev.fd : Int) < s.loop.table.setsize) :
    let fe : EventPtr := ⟨s.loop.resized.length, ev.fd⟩
    let c := code.fireThrough heap fe ev (s.deref heap fe).firstKind (s.log fe.resizes fe.fd, 0)
    (c.1.loop, c.2) = (code.host heap.grown).fireUnlessDone ev
      (s.loop.table.events ev.fd).firstKind (s.loop, 0) := by
  intro fe c
  have entry : s.deref heap fe = s.loop.table.events ev.fd := if_pos ⟨rfl, inside⟩
  have taken : ((s.log fe.resizes fe.fd).access fe.resizes fe.fd).Valid :=
    Traced.access_valid.mpr ⟨inside, rfl⟩
  rw [← entry]
  exact fireThrough_loop code heap rfl taken _

section Serve

variable {ev : FiredEvent} {s : Traced} (from_ : s.loop.SizeFrom size)
include from_

theorem fireUnlessDone_resized (kind : FileKind) (n : ℕ) :
    let t := ((code.host heap.grown).fireUnlessDone ev kind (s.loop, n)).1
    s.loop.resized <+: t.resized ∧ t.SizeFrom size := by
  simp only [Host.fireUnlessDone]
  split_ifs with go
  · exact ⟨code.call_resized heap.grown _ _, code.call_sizeFrom heap.grown _ _ from_⟩
  · exact ⟨List.prefix_refl _, from_⟩

section Inside

variable (inside : (ev.fd : Int) < s.loop.table.setsize)
include inside

/-- The test after the first handler finds `fe` still good exactly if that handler reallocated
nothing. -/
theorem second_valid_iff :
    let fe : EventPtr := ⟨s.loop.resized.length, ev.fd⟩
    let c := code.fireThrough heap fe ev (s.deref heap fe).firstKind (s.log fe.resizes fe.fd, 0)
    (c.1.access fe.resizes fe.fd).Valid ↔ code.FirstKeeps heap.grown s.loop ev := by
  intro fe c
  have loop : c.1.loop = ((code.host heap.grown).fireUnlessDone ev
      (s.loop.table.events ev.fd).firstKind (s.loop, 0)).1 :=
    congrArg Prod.fst (first_loop code heap inside)
  obtain ⟨before, sized⟩ := fireUnlessDone_resized code heap from_
    (s.loop.table.events ev.fd).firstKind 0
  rw [← loop] at before sized
  rw [Traced.access_valid, FirstKeeps, ← loop]
  constructor
  · rintro ⟨-, same⟩
    exact (before.eq_of_length same).symm
  · intro same
    refine ⟨?_, by rw [same]⟩
    rw [sized, same, ← from_]
    exact inside

/-- A turn that tries first a handler that reallocates nothing is the turn of the shared loop. -/
theorem serve_loop (keeps : code.FirstKeeps heap.grown s.loop ev) :
    (code.serve heap ⟨s.loop.resized.length, ev.fd⟩ ev s).loop =
      (code.host heap.grown).dispatchEvent ev s.loop := by
  have entry : s.deref heap ⟨s.loop.resized.length, ev.fd⟩ = s.loop.table.events ev.fd :=
    if_pos ⟨rfl, inside⟩
  have valid := (second_valid_iff code heap from_ inside).mpr keeps
  have second := fireThrough_loop code heap rfl valid (s.loop.table.events ev.fd).firstKind.other
  rw [first_loop code heap inside, entry] at second
  rw [serve_eq, Host.dispatchEvent_eq, entry]
  exact congrArg Prod.fst second

end Inside

theorem serve_valid_iff :
    (∀ a ∈ (code.serve heap ⟨s.loop.resized.length, ev.fd⟩ ev s).accesses, a.Valid) ↔
      (∀ a ∈ s.accesses, a.Valid) ∧ (ev.fd : Int) < s.loop.table.setsize ∧
        code.FirstKeeps heap.grown s.loop ev := by
  rw [serve_accesses]
  by_cases inside : (ev.fd : Int) < s.loop.table.setsize
  · have taken : (s.access s.loop.resized.length ev.fd).Valid :=
      Traced.access_valid.mpr ⟨inside, rfl⟩
    have after := second_valid_iff code heap from_ inside
    simp only [List.forall_mem_append, List.forall_mem_cons, taken, after, inside, true_and,
      List.not_mem_nil, false_imp_iff, implies_true, and_true]
  · have stray : ¬ (s.access s.loop.resized.length ev.fd).Valid :=
      fun valid => inside (Traced.access_valid.mp valid).1
    simp only [List.forall_mem_append, List.forall_mem_cons, stray, inside, false_and, and_false]

end Serve

section Turn

variable {j : ℕ} {s : Traced} (from_ : s.loop.SizeFrom size)
include from_

/-- A turn's accesses are valid exactly if its number and its descriptor are in range and the
handler it tries first reallocates nothing. -/
theorem turn_valid_iff :
    (∀ a ∈ (code.turn heap j s).accesses, a.Valid) ↔
      (∀ a ∈ s.accesses, a.Valid) ∧ (j : Int) < s.loop.table.setsize ∧
        ((s.loop.table.fired j).fd : Int) < s.loop.table.setsize ∧
        code.FirstKeeps heap.grown s.loop (s.loop.table.fired j) := by
  refine (serve_valid_iff code heap (s := s.log s.loop.resized.length j) from_).trans ?_
  by_cases index : (j : Int) < s.loop.table.setsize
  · have used : (s.access s.loop.resized.length j).Valid :=
      Traced.access_valid.mpr ⟨index, rfl⟩
    have read : s.fired heap j = s.loop.table.fired j := if_pos index
    simp only [Traced.log_accesses, Traced.log_loop, List.forall_mem_append,
      List.forall_mem_singleton, used, index, read, true_and, and_true]
  · have stray : ¬ (s.access s.loop.resized.length j).Valid :=
      fun valid => index (Traced.access_valid.mp valid).1
    simp only [Traced.log_accesses, List.forall_mem_append, List.forall_mem_singleton, stray,
      index, false_and, and_false]

theorem turn_loop (index : (j : Int) < s.loop.table.setsize)
    (inside : ((s.loop.table.fired j).fd : Int) < s.loop.table.setsize)
    (keeps : code.FirstKeeps heap.grown s.loop (s.loop.table.fired j)) :
    (code.turn heap j s).loop =
      (code.host heap.grown).dispatchEvent (s.loop.table.fired j) s.loop := by
  have read : s.fired heap j = s.loop.table.fired j := if_pos index
  rw [turn, read]
  exact serve_loop code heap (s := s.log s.loop.resized.length j) from_ inside keeps

end Turn

end SizedCode

end AeEventLoop
