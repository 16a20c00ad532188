import Mathlib.Data.Int.Basic
import Mathlib.Logic.Function.Basic
import Mathlib.Tactic.Linarith

/-! File events: the registration table, the cached `maxfd` and the kernel's interest set.
`ae.c`, `ae2.cpp` and `ae3.cpp` carry this code with the same text, so there is one model of it.

File descriptors are natural numbers (the code indexes `events` with them unchecked from below),
masks are 32-bit words. Memory that `malloc` or `realloc` has just handed out holds anything:
`Memory` supplies it. Allocation itself succeeds, except that a negative size cannot be
allocated. `epoll_ctl` answers why it failed, although the callers only test for `-1`. -/

namespace AeEventLoop

abbrev Mask := BitVec 32

def AE_OK : Int := 0
def AE_ERR : Int := -1

def AE_NONE : Mask := 0#32
def AE_READABLE : Mask := 1#32
def AE_WRITABLE : Mask := 2#32
def AE_BARRIER : Mask := 4#32

def EPOLLIN : Mask := 1#32
def EPOLLOUT : Mask := 4#32

structure FileEvent where
  mask : Mask
  rfileProc : ℕ
  wfileProc : ℕ
  clientData : ℕ
deriving DecidableEq

structure FiredEvent where
  fd : ℕ
  mask : Mask
deriving DecidableEq

structure FileTable where
  maxfd : Int
  setsize : Int
  events : ℕ → FileEvent
  fired : ℕ → FiredEvent
  interest : ℕ → Option Mask

/-- What the allocator left in memory it handed out. -/
structure Memory where
  events : ℕ → FileEvent
  fired : ℕ → FiredEvent

def zeroedMemory : Memory := ⟨fun _ => ⟨AE_NONE, 0, 0, 0⟩, fun _ => ⟨0, AE_NONE⟩⟩

inductive EpollOp
  | add
  | mod
  | del
deriving DecidableEq

inductive CtlResult
  | ok
  | eexist
  | enoent
  | refused
deriving DecidableEq

/-- `refuse` is the kernel failing for a reason of its own (`ENOMEM`, `EPERM`, ...). -/
def epoll_ctl (interest : ℕ → Option Mask) (op : EpollOp) (fd : ℕ) (ee : Mask) (refuse : Bool) :
    CtlResult × (ℕ → Option Mask) :=
  match op, interest fd with
  | .add, some _ => (.eexist, interest)
  | .mod, none => (.enoent, interest)
  | .del, none => (.enoent, interest)
  | .add, none => if refuse then (.refused, interest) else
      (.ok, Function.update interest fd (some ee))
  | .mod, some _ => if refuse then (.refused, interest) else
      (.ok, Function.update interest fd (some ee))
  | .del, some _ => if refuse then (.refused, interest) else
      (.ok, Function.update interest fd none)

/-- The `ee.events` word both `aeApiAddEvent` and `aeApiDelEvent` compute from a mask. -/
def epollEvents (mask : Mask) : Mask :=
  (if mask &&& AE_READABLE ≠ 0 then EPOLLIN else 0) |||
    (if mask &&& AE_WRITABLE ≠ 0 then EPOLLOUT else 0)

namespace FileTable

/-- The file part of `aeCreateEventLoop`. -/
def create (mem : Memory) (setsize : Int) : Option FileTable :=
  if setsize < 0 then none else
    some
      { maxfd := -1
        setsize := setsize
        events := fun i =>
          if (i : Int) < setsize then { mem.events i with mask := AE_NONE } else mem.events i
        fired := mem.fired
        interest := fun _ => none }

def aeApiAddEvent (t : FileTable) (fd : ℕ) (mask : Mask) (refuse : Bool) :
    CtlResult × FileTable :=
  let op := if (t.events fd).mask = AE_NONE then EpollOp.add else EpollOp.mod
  let mask := mask ||| (t.events fd).mask
  let r := epoll_ctl t.interest op fd (epollEvents mask) refuse
  (r.1, { t with interest := r.2 })

/-- The code ignores the result. MOD and DEL of a present descriptor do not fail. -/
def aeApiDelEvent (t : FileTable) (fd : ℕ) (delmask : Mask) : CtlResult × FileTable :=
  let mask := (t.events fd).mask &&& ~~~delmask
  let op := if mask ≠ AE_NONE then EpollOp.mod else EpollOp.del
  let r := epoll_ctl t.interest op fd (epollEvents mask) false
  (r.1, { t with interest := r.2 })

def aeCreateFileEvent (t : FileTable) (fd : ℕ) (mask : Mask) (proc clientData : ℕ)
    (refuse : Bool) : Int × FileTable :=
  if (fd : Int) ≥ t.setsize then (AE_ERR, t) else
    let r := t.aeApiAddEvent fd mask refuse
    if r.1 ≠ .ok then (AE_ERR, r.2) else
      let t := r.2
      let fe := t.events fd
      let fe :=
        { mask := fe.mask ||| mask
          rfileProc := if mask &&& AE_READABLE ≠ 0 then proc else fe.rfileProc
          wfileProc := if mask &&& AE_WRITABLE ≠ 0 then proc else fe.wfileProc
          clientData := clientData }
      (AE_OK,
        { t with
          events := Function.update t.events fd fe
          maxfd := if (fd : Int) > t.maxfd then fd else t.maxfd })

def scanMaxfd (events : ℕ → FileEvent) : ℕ → Int
  | 0 => -1
  | j + 1 => if (events j).mask ≠ AE_NONE then j else scanMaxfd events j

def aeDeleteFileEvent (t : FileTable) (fd : ℕ) (mask : Mask) : FileTable :=
  if (fd : Int) ≥ t.setsize then t else
    if (t.events fd).mask = AE_NONE then t else
      let mask := if mask &&& AE_WRITABLE ≠ 0 then mask ||| AE_BARRIER else mask
      let t := (t.aeApiDelEvent fd mask).2
      let fe := { t.events fd with mask := (t.events fd).mask &&& ~~~mask }
      let t := { t with events := Function.update t.events fd fe }
      if (fd : Int) = t.maxfd ∧ fe.mask = AE_NONE then
        { t with maxfd := scanMaxfd t.events fd }
      else t

def aeGetFileEvents (t : FileTable) (fd : ℕ) : Mask :=
  if (fd : Int) ≥ t.setsize then 0 else (t.events fd).mask

/-- The part of `aeResizeSetSize` after its two early returns: both arrays are reallocated and
the slots above `maxfd` are cleared. -/
def realloc (mem : Memory) (t : FileTable) (setsize : Int) : FileTable :=
  { t with
    events := fun i =>
      let kept := if (i : Int) < t.setsize ∧ (i : Int) < setsize then t.events i else mem.events i
      if t.maxfd < i ∧ (i : Int) < setsize then { kept with mask := AE_NONE } else kept
    fired := fun i =>
      if (i : Int) < t.setsize ∧ (i : Int) < setsize then t.fired i else mem.fired i
    setsize := setsize }

/-- `aeResizeSetSize` of `ae.c`, which touches nothing but the file table. -/
def aeResizeSetSize (mem : Memory) (t : FileTable) (setsize : Int) : Int × FileTable :=
  if setsize = t.setsize then (AE_OK, t)
  else if t.maxfd ≥ setsize then (AE_ERR, t)
  else (AE_OK, t.realloc mem setsize)

/-- The three copies of one fact: the masks, the cached maximum and the kernel's set agree. -/
structure Inv (t : FileTable) : Prop where
  maxfd_ge : -1 ≤ t.maxfd
  maxfd_lt : t.maxfd < t.setsize
  above : ∀ i : ℕ, t.maxfd < i → t.aeGetFileEvents i = AE_NONE
  top : ∀ i : ℕ, t.maxfd = i → t.aeGetFileEvents i ≠ AE_NONE
  interest : ∀ i, t.interest i =
    if t.aeGetFileEvents i = AE_NONE then none else some (epollEvents (t.aeGetFileEvents i))

theorem aeGetFileEvents_of_lt {t : FileTable} {fd : ℕ} (h : (fd : Int) < t.setsize) :
    t.aeGetFileEvents fd = (t.events fd).mask := if_neg (by omega)

theorem aeGetFileEvents_of_ge {t : FileTable} {fd : ℕ} (h : t.setsize ≤ fd) :
    t.aeGetFileEvents fd = AE_NONE := if_pos h

theorem or_ne_none {a b : Mask} (h : a ≠ AE_NONE) : a ||| b ≠ AE_NONE := by
  intro zero
  exact h (BitVec.or_eq_zero_iff.mp zero).1

theorem inv_of_unregistered {t : FileTable} (size : 0 ≤ t.setsize) (none : t.maxfd = -1)
    (masks : ∀ i, t.aeGetFileEvents i = AE_NONE) (kernel : ∀ i, t.interest i = .none) : t.Inv where
  maxfd_ge := none.ge
  maxfd_lt := by omega
  above i _ := masks i
  top i hi := by omega
  interest i := by rw [masks, kernel, if_pos rfl]

theorem create_inv {mem : Memory} {setsize : Int} {t : FileTable}
    (h : create mem setsize = some t) : t.Inv := by
  unfold create at h
  split_ifs at h with neg
  obtain rfl := Option.some.inj h
  refine inv_of_unregistered (by simpa using neg) rfl (fun i => ?_) (fun _ => rfl)
  simp only [aeGetFileEvents]
  split_ifs with big
  · rfl
  · rfl
  · omega

/-- With the invariant, the choice between ADD and MOD suits the kernel's set. -/
theorem aeApiAddEvent_of_inv {t : FileTable} (h : t.Inv) {fd : ℕ} (hfd : (fd : Int) < t.setsize)
    (mask : Mask) (refuse : Bool) :
    t.aeApiAddEvent fd mask refuse =
      if refuse then (.refused, t) else
        (.ok,
          { t with
            interest := Function.update t.interest fd
              (some (epollEvents (mask ||| (t.events fd).mask))) }) := by
  have known := h.interest fd
  rw [aeGetFileEvents_of_lt hfd] at known
  by_cases none : (t.events fd).mask = AE_NONE
  · rw [if_pos none] at known
    cases refuse <;> simp [aeApiAddEvent, epoll_ctl, none, known]
  · rw [if_neg none] at known
    cases refuse <;> simp [aeApiAddEvent, epoll_ctl, none, known]

theorem aeApiDelEvent_of_inv {t : FileTable} (h : t.Inv) {fd : ℕ} (hfd : (fd : Int) < t.setsize)
    (set : (t.events fd).mask ≠ AE_NONE) (delmask : Mask) :
    t.aeApiDelEvent fd delmask =
      (.ok,
        { t with
          interest := Function.update t.interest fd
            (if (t.events fd).mask &&& ~~~delmask = AE_NONE then none
              else some (epollEvents ((t.events fd).mask &&& ~~~delmask))) }) := by
  have known := h.interest fd
  rw [aeGetFileEvents_of_lt hfd, if_neg set] at known
  by_cases left : (t.events fd).mask &&& ~~~delmask = AE_NONE
  · simp [aeApiDelEvent, epoll_ctl, left, known]
  · simp [aeApiDelEvent, epoll_ctl, left, known]

def register (t : FileTable) (fd : ℕ) (mask : Mask) (proc clientData : ℕ) : FileTable :=
  let fe := t.events fd
  let fe' : FileEvent :=
    { mask := fe.mask ||| mask
      rfileProc := if mask &&& AE_READABLE ≠ 0 then proc else fe.rfileProc
      wfileProc := if mask &&& AE_WRITABLE ≠ 0 then proc else fe.wfileProc
      clientData := clientData }
  { t with
    events := Function.update t.events fd fe'
    interest := Function.update t.interest fd (some (epollEvents fe'.mask))
    maxfd := if (fd : Int) > t.maxfd then fd else t.maxfd }

theorem aeCreateFileEvent_of_inv {t : FileTable} (h : t.Inv) (fd : ℕ) (mask : Mask)
    (proc clientData : ℕ) (refuse : Bool) :
    t.aeCreateFileEvent fd mask proc clientData refuse =
      if (fd : Int) ≥ t.setsize ∨ refuse then (AE_ERR, t)
      else (AE_OK, t.register fd mask proc clientData) := by
  by_cases big : (fd : Int) ≥ t.setsize
  · simp [aeCreateFileEvent, big]
  · simp only [aeCreateFileEvent, big, false_or, aeApiAddEvent_of_inv h (lt_of_not_ge big)]
    cases refuse with
    | true => simp
    | false => simp [register, BitVec.or_comm]

theorem aeGetFileEvents_register {t : FileTable} {fd : ℕ} (hfd : (fd : Int) < t.setsize)
    (mask : Mask) (proc clientData i : ℕ) :
    (t.register fd mask proc clientData).aeGetFileEvents i =
      if i = fd then t.aeGetFileEvents fd ||| mask else t.aeGetFileEvents i := by
  by_cases same : i = fd
  · subst same
    rw [if_pos rfl, aeGetFileEvents_of_lt hfd]
    exact (if_neg (by simpa [register] using hfd)).trans (by simp [register])
  · simp [aeGetFileEvents, register, same]

theorem register_inv {t : FileTable} (h : t.Inv) {fd : ℕ} (hfd : (fd : Int) < t.setsize)
    {mask : Mask} (set : mask ≠ AE_NONE) (proc clientData : ℕ) :
    (t.register fd mask proc clientData).Inv := by
  have masks := aeGetFileEvents_register hfd mask proc clientData
  have low := h.maxfd_ge
  have high := h.maxfd_lt
  have live : t.aeGetFileEvents fd ||| mask ≠ AE_NONE := by
    rw [BitVec.or_comm]
    exact or_ne_none set
  have max : (t.register fd mask proc clientData).maxfd =
      if (fd : Int) > t.maxfd then (fd : Int) else t.maxfd := rfl
  refine ⟨?_, ?_, ?_, ?_, ?_⟩
  · rw [max]
    split_ifs <;> omega
  · rw [max]
    change _ < t.setsize
    split_ifs <;> omega
  · intro i hi
    rw [max] at hi
    have ne : i ≠ fd := by
      rintro rfl
      split_ifs at hi <;> omega
    rw [masks, if_neg ne]
    exact h.above i (by split_ifs at hi <;> omega)
  · intro i hi
    rw [max] at hi
    rw [masks]
    split_ifs with same
    · exact live
    · exact h.top i (by split_ifs at hi <;> omega)
  · intro i
    rw [masks]
    by_cases same : i = fd
    · subst same
      rw [if_pos rfl, if_neg live, aeGetFileEvents_of_lt hfd]
      exact Function.update_self _ _ _
    · rw [if_neg same, ← h.interest i]
      exact Function.update_of_ne same _ _

theorem scanMaxfd_spec (events : ℕ → FileEvent) (n : ℕ) :
    -1 ≤ scanMaxfd events n ∧ scanMaxfd events n < n ∧
      (∀ i : ℕ, scanMaxfd events n < i → i < n → (events i).mask = AE_NONE) ∧
      ∀ i : ℕ, scanMaxfd events n = i → (events i).mask ≠ AE_NONE := by
  induction n with
  | zero =>
      refine ⟨le_refl _, by simp [scanMaxfd], fun i _ hi => absurd hi (Nat.not_lt_zero i), ?_⟩
      intro i hi
      simp only [scanMaxfd] at hi
      omega
  | succ n ih =>
      obtain ⟨low, high, above, top⟩ := ih
      rw [scanMaxfd]
      split_ifs with live
      · refine ⟨by omega, by push_cast; omega, ?_, ?_⟩
        · intro i hi hin
          omega
        · intro i hi
          obtain rfl : n = i := by exact_mod_cast hi
          exact live
      · refine ⟨low, by push_cast; omega, ?_, top⟩
        intro i hi hin
        rcases Nat.lt_succ_iff_lt_or_eq.mp hin with hin | rfl
        · exact above i hi hin
        · exact not_not.mp live

/-- The mask a delete really takes away: `AE_BARRIER` goes with `AE_WRITABLE`. -/
def delmask (mask : Mask) : Mask :=
  if mask &&& AE_WRITABLE ≠ 0 then mask ||| AE_BARRIER else mask

def unregister (t : FileTable) (fd : ℕ) (mask : Mask) : FileTable :=
  let left := (t.events fd).mask &&& ~~~delmask mask
  let events := Function.update t.events fd { t.events fd with mask := left }
  { t with
    events := events
    interest := Function.update t.interest fd
      (if left = AE_NONE then none else some (epollEvents left))
    maxfd := if (fd : Int) = t.maxfd ∧ left = AE_NONE then scanMaxfd events fd else t.maxfd }

theorem aeDeleteFileEvent_of_inv {t : FileTable} (h : t.Inv) (fd : ℕ) (mask : Mask) :
    t.aeDeleteFileEvent fd mask =
      if t.aeGetFileEvents fd = AE_NONE then t else t.unregister fd mask := by
  by_cases big : (fd : Int) ≥ t.setsize
  · rw [aeDeleteFileEvent, if_pos big, if_pos (aeGetFileEvents_of_ge big)]
  · have hfd := lt_of_not_ge big
    rw [aeGetFileEvents_of_lt hfd]
    by_cases set : (t.events fd).mask = AE_NONE
    · rw [aeDeleteFileEvent, if_neg big, if_pos set, if_pos set]
    · rw [if_neg set]
      simp only [aeDeleteFileEvent, if_neg big, if_neg set, aeApiDelEvent_of_inv h hfd set,
        unregister, delmask]
      split_ifs <;> rfl

theorem aeDeleteFileEvent_events {t : FileTable} (h : t.Inv) {fd : ℕ}
    (hfd : (fd : Int) < t.setsize) (mask : Mask) :
    (t.aeDeleteFileEvent fd mask).events = Function.update t.events fd
      { t.events fd with mask := (t.events fd).mask &&& ~~~delmask mask } := by
  rw [aeDeleteFileEvent_of_inv h, aeGetFileEvents_of_lt hfd]
  split_ifs with unset
  · have same : { t.events fd with mask := (t.events fd).mask &&& ~~~delmask mask } =
        t.events fd := by
      rw [unset]
      simp only [AE_NONE, BitVec.zero_and]
      rw [← show (t.events fd).mask = 0#32 from unset]
    rw [same, Function.update_eq_self]
  · rfl

theorem aeDeleteFileEvent_setsize (t : FileTable) (fd : ℕ) (mask : Mask) :
    (t.aeDeleteFileEvent fd mask).setsize = t.setsize := by
  simp only [aeDeleteFileEvent]
  split_ifs <;> rfl

theorem aeCreateFileEvent_setsize (t : FileTable) (fd : ℕ) (mask : Mask) (proc clientData : ℕ)
    (refuse : Bool) : (t.aeCreateFileEvent fd mask proc clientData refuse).2.setsize = t.setsize := by
  simp only [aeCreateFileEvent, aeApiAddEvent]
  split_ifs <;> rfl

theorem aeCreateFileEvent_below {t : FileTable} (h : t.Inv) {fd : ℕ}
    (hfd : (fd : Int) < t.setsize) (mask : Mask) (proc clientData : ℕ) :
    (t.aeCreateFileEvent fd mask proc clientData false).2 = t.register fd mask proc clientData := by
  rw [aeCreateFileEvent_of_inv h, if_neg (by simpa using hfd)]

theorem aeGetFileEvents_unregister {t : FileTable} {fd : ℕ} (hfd : (fd : Int) < t.setsize)
    (mask : Mask) (i : ℕ) :
    (t.unregister fd mask).aeGetFileEvents i =
      if i = fd then t.aeGetFileEvents fd &&& ~~~delmask mask else t.aeGetFileEvents i := by
  by_cases same : i = fd
  · subst same
    rw [if_pos rfl, aeGetFileEvents_of_lt hfd]
    exact (if_neg (by simpa [unregister] using hfd)).trans (by simp [unregister])
  · simp [aeGetFileEvents, unregister, same]

theorem unregister_inv {t : FileTable} (h : t.Inv) {fd : ℕ} (hfd : (fd : Int) < t.setsize)
    (set : t.aeGetFileEvents fd ≠ AE_NONE) (mask : Mask) : (t.unregister fd mask).Inv := by
  have masks := aeGetFileEvents_unregister hfd mask
  have low := h.maxfd_ge
  have high := h.maxfd_lt
  have under : (fd : Int) ≤ t.maxfd := by
    by_contra past
    exact set (h.above fd (by omega))
  have kernel : ∀ i, (t.unregister fd mask).interest i =
      if (t.unregister fd mask).aeGetFileEvents i = AE_NONE then none
      else some (epollEvents ((t.unregister fd mask).aeGetFileEvents i)) := by
    intro i
    rw [masks]
    by_cases same : i = fd
    · subst same
      rw [if_pos rfl, aeGetFileEvents_of_lt hfd]
      exact Function.update_self _ _ _
    · rw [if_neg same, ← h.interest i]
      exact Function.update_of_ne same _ _
  by_cases last : (fd : Int) = t.maxfd ∧ (t.events fd).mask &&& ~~~delmask mask = AE_NONE
  · have max : (t.unregister fd mask).maxfd = scanMaxfd (t.unregister fd mask).events fd :=
      if_pos last
    obtain ⟨slow, shigh, sabove, stop⟩ := scanMaxfd_spec (t.unregister fd mask).events fd
    refine ⟨max ▸ slow, ?_, ?_, ?_, kernel⟩
    · rw [max]
      exact shigh.trans hfd
    · intro i hi
      rw [max] at hi
      rcases lt_trichotomy i fd with less | same | more
      · have size : (i : Int) < (t.unregister fd mask).setsize :=
          lt_trans (by exact_mod_cast less) hfd
        rw [aeGetFileEvents_of_lt size]
        exact sabove i hi less
      · rw [masks, if_pos same, aeGetFileEvents_of_lt hfd]
        exact last.2
      · rw [masks, if_neg more.ne']
        exact h.above i (by omega)
    · intro i hi
      rw [max] at hi
      have size : (i : Int) < (t.unregister fd mask).setsize :=
        lt_trans (hi ▸ shigh) hfd
      rw [aeGetFileEvents_of_lt size]
      exact stop i hi
  · have max : (t.unregister fd mask).maxfd = t.maxfd := if_neg last
    refine ⟨max ▸ low, max ▸ high, ?_, ?_, kernel⟩
    · intro i hi
      rw [max] at hi
      rw [masks, if_neg (by omega)]
      exact h.above i hi
    · intro i hi
      rw [max] at hi
      rw [masks]
      split_ifs with same
      · subst same
        rw [aeGetFileEvents_of_lt hfd]
        exact fun gone => last ⟨hi.symm, gone⟩
      · exact h.top i hi

theorem aeGetFileEvents_realloc {t : FileTable} (h : t.Inv) (mem : Memory) {setsize : Int}
    (room : t.maxfd < setsize) (i : ℕ) :
    (t.realloc mem setsize).aeGetFileEvents i = t.aeGetFileEvents i := by
  have high := h.maxfd_lt
  by_cases past : t.maxfd < i
  · rw [h.above i past]
    by_cases big : setsize ≤ i
    · exact aeGetFileEvents_of_ge big
    · rw [aeGetFileEvents_of_lt (lt_of_not_ge big)]
      simp [realloc, past, lt_of_not_ge big]
  · have before : (i : Int) < t.setsize := by omega
    have after : (i : Int) < (t.realloc mem setsize).setsize := by
      change (i : Int) < setsize
      omega
    rw [aeGetFileEvents_of_lt before, aeGetFileEvents_of_lt after]
    simp only [realloc]
    rw [if_neg (by omega), if_pos (by omega)]

theorem realloc_inv {t : FileTable} (h : t.Inv) (mem : Memory) {setsize : Int}
    (room : t.maxfd < setsize) : (t.realloc mem setsize).Inv where
  maxfd_ge := h.maxfd_ge
  maxfd_lt := room
  above i hi := (aeGetFileEvents_realloc h mem room i).trans (h.above i hi)
  top i hi := by
    rw [aeGetFileEvents_realloc h mem room]
    exact h.top i hi
  interest i := by
    rw [aeGetFileEvents_realloc h mem room]
    exact h.interest i

end FileTable

inductive FileOp
  | create (fd : ℕ) (mask : Mask) (proc clientData : ℕ) (refuse : Bool)
  | delete (fd : ℕ) (mask : Mask)

namespace FileOp

def Valid : FileOp → Prop
  | create _ mask _ _ _ => mask ≠ AE_NONE
  | delete _ _ => True

instance : DecidablePred Valid
  | create _ mask _ _ _ => inferInstanceAs (Decidable (mask ≠ AE_NONE))
  | delete _ _ => inferInstanceAs (Decidable True)

def apply (t : FileTable) : FileOp → FileTable
  | create fd mask proc clientData refuse =>
      (t.aeCreateFileEvent fd mask proc clientData refuse).2
  | delete fd mask => t.aeDeleteFileEvent fd mask

theorem apply_inv {t : FileTable} (h : t.Inv) {op : FileOp} (valid : op.Valid) :
    (op.apply t).Inv := by
  cases op with
  | create fd mask proc clientData refuse =>
      simp only [apply, FileTable.aeCreateFileEvent_of_inv h]
      split_ifs with bad
      · exact h
      · exact FileTable.register_inv h (not_le.mp (not_or.mp bad).1) valid proc clientData
  | delete fd mask =>
      simp only [apply, FileTable.aeDeleteFileEvent_of_inv h]
      split_ifs with unset
      · exact h
      · refine FileTable.unregister_inv h ?_ unset mask
        by_contra big
        exact unset (FileTable.aeGetFileEvents_of_ge (not_lt.mp big))

end FileOp

theorem FileTable.aeDeleteFileEvent_inv {t : FileTable} (h : t.Inv) (fd : ℕ) (mask : Mask) :
    (t.aeDeleteFileEvent fd mask).Inv :=
  FileOp.apply_inv h (show (FileOp.delete fd mask).Valid from trivial)

theorem FileTable.aeResizeSetSize_inv {t : FileTable} (h : t.Inv) (mem : Memory) (setsize : Int) :
    (t.aeResizeSetSize mem setsize).2.Inv := by
  unfold FileTable.aeResizeSetSize
  split_ifs with same small
  · exact h
  · exact h
  · exact FileTable.realloc_inv h mem (not_le.mp small)

end AeEventLoop
