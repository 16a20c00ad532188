import AeEventLoop.History
import AeEventLoop.ProcessEvents
import Mathlib.Data.List.Nodup

/-! The dispatch loop of `aeProcessEvents`. File handlers rewrite masks, handlers and client data of
any descriptor in the middle of the loop; they do not resize the table or poll again, so the fired
events stay what `aeApiPoll` stored. One descriptor's turn is described once, by the three things
it can do, and everything about the loop follows from that. -/

namespace AeEventLoop

theorem FileOp.apply_fired (t : FileTable) (op : FileOp) : (op.apply t).fired = t.fired := by
  cases op with
  | create fd mask proc clientData refuse =>
      simp only [apply, FileTable.aeCreateFileEvent]
      split_ifs <;> rfl
  | delete fd mask =>
      simp only [apply, FileTable.aeDeleteFileEvent]
      split_ifs <;> rfl

theorem foldl_apply_fired (ops : List FileOp) (t : FileTable) :
    (ops.foldl FileOp.apply t).fired = t.fired := by
  induction ops generalizing t with
  | nil => rfl
  | cons op ops ih => exact (ih (op.apply t)).trans (op.apply_fired t)

namespace Host

variable {σ : Type} {h : Host σ} {ev : FiredEvent} {s : σ}

inductive Turn (h : Host σ) (ev : FiredEvent) (s : σ) : σ → Prop
  | none : (∀ kind, ¬ h.Ready s ev kind) → Turn h ev s s
  | one (kind : FileKind) : h.Ready s ev kind → Turn h ev s (h.fire s ev kind)
  | two (kind kind' : FileKind) : h.Ready s ev kind → h.Ready (h.fire s ev kind) ev kind' →
      kind ≠ kind' → h.Distinct (h.fire s ev kind) ev.fd →
      Turn h ev s (h.fire (h.fire s ev kind) ev kind')

theorem Ready.bits {kind : FileKind} (ready : h.Ready s ev kind) :
    ((h.table s).events ev.fd).mask &&& kind.bit ≠ 0 ∧ ev.mask &&& kind.bit ≠ 0 := by
  refine ⟨fun none => ready ?_, fun none => ready ?_⟩
  · rw [BitVec.and_assoc, BitVec.and_comm ev.mask, ← BitVec.and_assoc, none]
    simp
  · rw [BitVec.and_assoc, none]
    simp

theorem fireUnlessDone_first (kind : FileKind) (ready : h.Ready s ev kind) :
    h.fireUnlessDone ev kind (s, 0) = (h.fire s ev kind, 1) :=
  if_pos ⟨ready, .inl rfl⟩

theorem fireUnlessDone_quiet {kind : FileKind} {n : ℕ} (quiet : ¬ h.Ready s ev kind) :
    h.fireUnlessDone ev kind (s, n) = (s, n) :=
  if_neg fun both => quiet both.1

/-- After a first call, the other kind is called only with a handler of its own. -/
theorem Turn.second {kind kind' : FileKind} (ready : h.Ready s ev kind) (other : kind ≠ kind') :
    Turn h ev s (h.fireUnlessDone ev kind' (h.fire s ev kind, 1)).1 := by
  by_cases both : h.Ready (h.fire s ev kind) ev kind' ∧ h.Distinct (h.fire s ev kind) ev.fd
  · rw [fireUnlessDone, if_pos ⟨both.1, .inr both.2⟩]
    exact .two kind kind' ready both.1 other both.2
  · have not : ¬ (h.Ready (h.fire s ev kind) ev kind' ∧
        ((1 : ℕ) = 0 ∨ h.Distinct (h.fire s ev kind) ev.fd)) := by
      rintro ⟨again, impossible | distinct⟩
      · cases impossible
      · exact both ⟨again, distinct⟩
    rw [fireUnlessDone, if_neg not]
    exact .one kind ready

theorem Turn.quiet (r : ¬ h.Ready s ev .readable) (w : ¬ h.Ready s ev .writable) :
    Turn h ev s s := by
  refine .none fun kind => ?_
  cases kind with
  | readable => exact r
  | writable => exact w

theorem dispatchEvent_invert (invert : ((h.table s).events ev.fd).mask &&& AE_BARRIER ≠ 0) :
    h.dispatchEvent ev s =
      (h.fireUnlessDone ev .readable (h.fireUnlessDone ev .writable (s, 0))).1 := by
  have first : ¬ (¬ ((h.table s).events ev.fd).mask &&& AE_BARRIER ≠ 0 ∧
      h.Ready s ev .readable) := fun both => both.1 invert
  simp only [dispatchEvent, if_neg first, if_pos invert]

theorem dispatchEvent_plain (plain : ¬ ((h.table s).events ev.fd).mask &&& AE_BARRIER ≠ 0) :
    h.dispatchEvent ev s = (h.fireUnlessDone ev .writable
      (if h.Ready s ev .readable then (h.fire s ev .readable, 1) else (s, 0))).1 := by
  simp only [dispatchEvent, plain, not_false_eq_true, true_and, if_false]

theorem dispatchEvent_turn (h : Host σ) (ev : FiredEvent) (s : σ) :
    Turn h ev s (h.dispatchEvent ev s) := by
  by_cases invert : ((h.table s).events ev.fd).mask &&& AE_BARRIER ≠ 0
  · rw [dispatchEvent_invert invert]
    by_cases w : h.Ready s ev .writable
    · rw [fireUnlessDone_first .writable w]
      exact .second w (by decide)
    · rw [fireUnlessDone_quiet w]
      by_cases r : h.Ready s ev .readable
      · rw [fireUnlessDone_first .readable r]
        exact .one .readable r
      · rw [fireUnlessDone_quiet r]
        exact .quiet r w
  · rw [dispatchEvent_plain invert]
    by_cases r : h.Ready s ev .readable
    · rw [if_pos r]
      exact .second r (by decide)
    · rw [if_neg r]
      by_cases w : h.Ready s ev .writable
      · rw [fireUnlessDone_first .writable w]
        exact .one .writable w
      · rw [fireUnlessDone_quiet w]
        exact .quiet r w

theorem dispatchEvent_keeps {I : σ → Prop} (keep : ∀ c s, I s → I (h.call c s)) (ev : FiredEvent)
    (start : I s) : I (h.dispatchEvent ev s) := by
  have turn := dispatchEvent_turn h ev s
  generalize h.dispatchEvent ev s = t at turn
  cases turn with
  | none _ => exact start
  | one kind _ => exact keep _ _ start
  | two kind kind' _ _ _ _ => exact keep _ _ (keep _ _ start)

theorem dispatch_succ (n j : ℕ) (c : σ × Int) :
    (h.dispatch (n + 1) j c).1 =
      h.dispatchEvent ((h.table (h.dispatch n j c).1).fired (j + n)) (h.dispatch n j c).1 := by
  induction n generalizing j c with
  | zero => rfl
  | succ n ih =>
      rw [dispatch, ih, Nat.add_right_comm j 1 n]
      rfl

section Related

variable {h' : Host σ} {R : σ → σ → Prop} {s' : σ}
  (events : ∀ s s', R s s' → (h.table s).events = (h'.table s').events)
  (calls : ∀ c s s', R s s' → R (h.call c s) (h'.call c s'))
include events calls

theorem fire_related (kind : FileKind) (related : R s s') :
    R (h.fire s ev kind) (h'.fire s' ev kind) := by
  rw [fire, fire, events s s' related]
  exact calls _ _ _ related

theorem fireUnlessDone_related (kind : FileKind) {n : ℕ} (related : R s s') :
    R (h.fireUnlessDone ev kind (s, n)).1 (h'.fireUnlessDone ev kind (s', n)).1 ∧
      (h.fireUnlessDone ev kind (s, n)).2 = (h'.fireUnlessDone ev kind (s', n)).2 := by
  have guard : h'.Ready s' ev kind ∧ (n = 0 ∨ h'.Distinct s' ev.fd) ↔
      h.Ready s ev kind ∧ (n = 0 ∨ h.Distinct s ev.fd) := by
    rw [Ready, Ready, Distinct, Distinct, events s s' related]
  by_cases go : h.Ready s ev kind ∧ (n = 0 ∨ h.Distinct s ev.fd)
  · rw [fireUnlessDone, fireUnlessDone, if_pos go, if_pos (guard.mpr go)]
    exact ⟨fire_related events calls kind related, rfl⟩
  · rw [fireUnlessDone, fireUnlessDone, if_neg go, if_neg fun other => go (guard.mp other)]
    exact ⟨related, rfl⟩

/-- Two loops whose tables register the same go through a turn in step. -/
theorem dispatchEvent_related (related : R s s') :
    R (h.dispatchEvent ev s) (h'.dispatchEvent ev s') := by
  have same := events s s' related
  by_cases invert : ((h.table s).events ev.fd).mask &&& AE_BARRIER ≠ 0
  · rw [dispatchEvent_invert invert, dispatchEvent_invert (same ▸ invert)]
    obtain ⟨first, count⟩ :=
      @fireUnlessDone_related _ h ev s h' R s' events calls .writable 0 related
    rw [← Prod.mk.eta (p := h.fireUnlessDone ev .writable (s, 0)),
      ← Prod.mk.eta (p := h'.fireUnlessDone ev .writable (s', 0)), ← count]
    exact (fireUnlessDone_related events calls .readable first).1
  · rw [dispatchEvent_plain invert, dispatchEvent_plain (same ▸ invert)]
    have guard : h'.Ready s' ev .readable ↔ h.Ready s ev .readable := by rw [Ready, Ready, same]
    by_cases ready : h.Ready s ev .readable
    · rw [if_pos ready, if_pos (guard.mpr ready)]
      exact (fireUnlessDone_related events calls .writable
        (fire_related events calls .readable related)).1
    · rw [if_neg ready, if_neg fun other => ready (guard.mp other)]
      exact (fireUnlessDone_related events calls .writable related).1

end Related

/-- Handlers that leave the fired events alone. -/
def KeepsFired (h : Host σ) : Prop :=
  ∀ c s, (h.table (h.call c s)).fired = (h.table s).fired

theorem dispatchEvent_fired (keeps : h.KeepsFired) (ev : FiredEvent) (s : σ) :
    (h.table (h.dispatchEvent ev s)).fired = (h.table s).fired := by
  refine @dispatchEvent_keeps _ h s (fun t => (h.table t).fired = (h.table s).fired) ?_ ev rfl
  intro c t same
  exact (keeps c t).trans same

def turns (h : Host σ) (evs : List FiredEvent) (s : σ) : σ :=
  evs.foldl (fun s ev => h.dispatchEvent ev s) s

theorem turns_invariant (I : σ → Prop) (known : FiredEvent → Prop)
    (keep : ∀ ev s kind, known ev → I s → h.Ready s ev kind → I (h.fire s ev kind))
    {evs : List FiredEvent} (all : ∀ ev ∈ evs, known ev) (start : I s) : I (h.turns evs s) := by
  induction evs generalizing s with
  | nil => exact start
  | cons ev evs ih =>
      refine @ih (h.dispatchEvent ev s) (fun e he => all e (List.mem_cons_of_mem _ he)) ?_
      have here := all ev List.mem_cons_self
      have turn := dispatchEvent_turn h ev s
      generalize h.dispatchEvent ev s = t at turn
      cases turn with
      | none _ => exact start
      | one kind ready => exact keep ev s kind here start ready
      | two kind kind' ready ready' _ _ =>
          exact keep ev _ kind' here (keep ev s kind here start ready) ready'

theorem dispatch_eq_turns (keeps : h.KeepsFired) (n j : ℕ) (s : σ) (processed : Int) :
    h.dispatch n j (s, processed) =
      (h.turns ((List.range n).map fun i => (h.table s).fired (j + i)) s, processed + n) := by
  induction n generalizing j s processed with
  | zero => simp [dispatch, turns]
  | succ n ih =>
      have later : ((List.range n).map fun i => (h.table s).fired (j + 1 + i)) =
          (List.range n).map ((fun i => (h.table s).fired (j + i)) ∘ Nat.succ) := by
        refine List.map_congr_left fun i _ => ?_
        simp only [Function.comp_apply]
        congr 1
        omega
      rw [dispatch, ih, dispatchEvent_fired keeps, List.range_succ_eq_map, List.map_cons,
        List.map_map, ← later, Nat.add_zero]
      refine Prod.ext rfl ?_
      push_cast
      omega

end Host

/-- A file table with the handler calls made so far, each with the table it was made on. -/
structure Served where
  table : FileTable
  calls : List (FileTable × FileCall)

/-- What the handlers and the hook do: file calls chosen in view of all that has happened. -/
structure FileCode where
  handler : Served → FileCall → List FileOp
  aftersleep : Served → List FileOp

namespace FileCode

def host (code : FileCode) : Host Served where
  table := Served.table
  setTable t s := { s with table := t }
  call c s :=
    { table := (code.handler s c).foldl FileOp.apply s.table
      calls := s.calls ++ [(s.table, c)] }

def backend (code : FileCode) (nearest : Served → Option TimeEvent) (now : Served → Int × Int) :
    Backend Served where
  toHost := code.host
  aeSearchNearestTimer := nearest
  now := now
  readClock s := s
  aftersleep s := { s with table := (code.aftersleep s).foldl FileOp.apply s.table }
  processTimeEvents _ s := some (s, 0)

theorem host_keepsFired (code : FileCode) : code.host.KeepsFired :=
  fun _ s => foldl_apply_fired _ s.table

end FileCode

/-- The handler and client data of the call are those registered on the table it was made on, where
the descriptor's mask and the reported mask both have the bit. -/
def FileCall.Valid (c : FileCall) (t : FileTable) (ev : FiredEvent) : Prop :=
  c.fd = ev.fd ∧ c.mask = ev.mask ∧ c.proc = (t.events ev.fd).proc c.kind ∧
    c.clientData = (t.events ev.fd).clientData ∧ (t.events ev.fd).mask &&& c.kind.bit ≠ 0 ∧
    ev.mask &&& c.kind.bit ≠ 0

/-- `fe->wfileProc != fe->rfileProc`. -/
def FileTable.TwoProcs (t : FileTable) (fd : ℕ) : Prop :=
  (t.events fd).wfileProc ≠ (t.events fd).rfileProc

structure TurnCalls (ev : FiredEvent) (calls : List (FileTable × FileCall)) : Prop where
  valid : ∀ p ∈ calls, p.2.Valid p.1 ev
  once : (calls.map fun p => p.2.kind).Nodup
  second : ∀ pre p, Occurs calls pre p → pre ≠ [] → p.1.TwoProcs p.2.fd

section Turns

variable {code : FileCode} {ev : FiredEvent} {s : Served}

theorem fire_valid {kind : FileKind} (ready : code.host.Ready s ev kind) : FileCall.Valid
    ⟨kind, ev.fd, (s.table.events ev.fd).proc kind, (s.table.events ev.fd).clientData, ev.mask⟩
    s.table ev := by
  obtain ⟨registered, reported⟩ := Host.Ready.bits ready
  exact ⟨rfl, rfl, rfl, rfl, registered, reported⟩

theorem dispatchEvent_calls (code : FileCode) (ev : FiredEvent) (s : Served) :
    ∃ calls, (code.host.dispatchEvent ev s).calls = s.calls ++ calls ∧ TurnCalls ev calls ∧
      ((∃ kind, code.host.Ready s ev kind) → calls ≠ []) := by
  have turn := code.host.dispatchEvent_turn ev s
  generalize code.host.dispatchEvent ev s = t at turn
  cases turn with
  | none quiet =>
      refine ⟨[], by simp, ⟨by simp, by simp, by simp⟩, ?_⟩
      rintro ⟨kind, ready⟩
      exact absurd ready (quiet kind)
  | one kind ready =>
      refine ⟨[_], rfl, ⟨?_, by simp, ?_⟩, by simp⟩
      · intro p hp
        rw [List.mem_singleton.mp hp]
        exact fire_valid ready
      · intro pre p occurs some
        rcases occurs_cons.mp occurs with ⟨none, -⟩ | ⟨c, -, more⟩
        · exact absurd none some
        · exact absurd more (not_occurs_nil _ _)
  | two kind kind' ready ready' other distinct =>
      refine ⟨[_, _], List.append_assoc _ _ _, ⟨?_, ?_, ?_⟩, by simp⟩
      · intro p hp
        rcases List.mem_cons.mp hp with rfl | later
        · exact fire_valid ready
        · rw [List.mem_singleton.mp later]
          exact fire_valid ready'
      · simpa using other
      · intro pre p occurs some
        rcases occurs_cons.mp occurs with ⟨none, -⟩ | ⟨c, -, more⟩
        · exact absurd none some
        · rcases occurs_cons.mp more with ⟨-, rfl⟩ | ⟨d, -, none⟩
          · exact distinct
          · exact absurd none (not_occurs_nil _ _)

/-- The calls of the turns of `evs`, and that a descriptor with something to do got one. -/
inductive Delivered (code : FileCode) :
    Served → List FiredEvent → List (FileTable × FileCall) → Prop
  | nil (s : Served) : Delivered code s [] []
  | cons {s : Served} {ev : FiredEvent} {evs : List FiredEvent}
      {calls rest : List (FileTable × FileCall)} : TurnCalls ev calls →
      ((∃ kind, code.host.Ready s ev kind) → calls ≠ []) →
      Delivered code (code.host.dispatchEvent ev s) evs rest →
      Delivered code s (ev :: evs) (calls ++ rest)

theorem turns_delivered (code : FileCode) (evs : List FiredEvent) (s : Served) :
    ∃ calls, (code.host.turns evs s).calls = s.calls ++ calls ∧ Delivered code s evs calls := by
  induction evs generalizing s with
  | nil => exact ⟨[], by simp [Host.turns], .nil s⟩
  | cons ev evs ih =>
      obtain ⟨calls, eq, turn, some⟩ := dispatchEvent_calls code ev s
      obtain ⟨rest, eq', later⟩ := ih (code.host.dispatchEvent ev s)
      refine ⟨calls ++ rest, ?_, .cons turn some later⟩
      rw [← List.append_assoc, ← eq]
      exact eq'

theorem Delivered.valid {evs : List FiredEvent} {calls : List (FileTable × FileCall)}
    (delivered : Delivered code s evs calls) : ∀ p ∈ calls, ∃ ev ∈ evs, p.2.Valid p.1 ev := by
  induction delivered with
  | nil s => simp
  | cons turn _ _ ih =>
      intro p hp
      rcases List.mem_append.mp hp with now | later
      · exact ⟨_, by simp, turn.valid p now⟩
      · obtain ⟨ev, hev, valid⟩ := ih p later
        exact ⟨ev, by simp [hev], valid⟩

theorem Delivered.once {evs : List FiredEvent} {calls : List (FileTable × FileCall)}
    (delivered : Delivered code s evs calls) (distinct : (evs.map FiredEvent.fd).Nodup) :
    (calls.map fun p => (p.2.fd, p.2.kind)).Nodup := by
  induction delivered with
  | nil s => simp
  | cons turn _ rest ih =>
      rename_i s ev evs calls later _
      rw [List.map_cons, List.nodup_cons] at distinct
      rw [List.map_append, List.nodup_append]
      refine ⟨?_, ih distinct.2, ?_⟩
      · have kinds : calls.map (fun p => p.2.kind) =
            (calls.map fun p => (p.2.fd, p.2.kind)).map Prod.snd := by simp
        exact List.Nodup.of_map Prod.snd (kinds ▸ turn.once)
      · intro a ha b hb same
        obtain ⟨p, hp, rfl⟩ := List.mem_map.mp ha
        obtain ⟨q, hq, rfl⟩ := List.mem_map.mp hb
        obtain ⟨ev', hev', valid⟩ := rest.valid q hq
        have fds : ev.fd = ev'.fd := by
          rw [← (turn.valid p hp).1, ← valid.1]
          exact congrArg Prod.fst same
        exact distinct.1 (fds ▸ List.mem_map_of_mem hev')

theorem Delivered.second {evs : List FiredEvent} {calls : List (FileTable × FileCall)}
    (delivered : Delivered code s evs calls) (distinct : (evs.map FiredEvent.fd).Nodup)
    {pre : List (FileTable × FileCall)} {p : FileTable × FileCall} (occurs : Occurs calls pre p)
    (earlier : ∃ q ∈ pre, q.2.fd = p.2.fd) : p.1.TwoProcs p.2.fd := by
  induction delivered generalizing pre with
  | nil s => exact absurd occurs (not_occurs_nil _ _)
  | cons turn _ rest ih =>
      rename_i s ev evs calls later _
      rw [List.map_cons, List.nodup_cons] at distinct
      rcases occurs_append.mp occurs with now | ⟨c, rfl, behind⟩
      · refine turn.second pre p now ?_
        rintro rfl
        simp at earlier
      · obtain ⟨q, hq, same⟩ := earlier
        rcases List.mem_append.mp hq with before | between
        · obtain ⟨ev', hev', valid⟩ := rest.valid p behind.mem
          have fds : ev.fd = ev'.fd := by
            rw [← (turn.valid q before).1, ← valid.1, same]
          exact absurd (fds ▸ List.mem_map_of_mem hev') distinct.1
        · exact ih distinct.2 behind ⟨q, between, same⟩

theorem Delivered.served {before : List FiredEvent} {evs : List FiredEvent}
    {calls : List (FileTable × FileCall)}
    (delivered : Delivered code s (before ++ ev :: evs) calls)
    (ready : ∃ kind, code.host.Ready (code.host.turns before s) ev kind) :
    ∃ p ∈ calls, p.2.fd = ev.fd := by
  induction before generalizing s calls with
  | nil =>
      cases delivered with
      | cons turn some rest =>
          obtain ⟨p, hp⟩ := List.exists_mem_of_ne_nil _ (some ready)
          exact ⟨p, List.mem_append_left _ hp, (turn.valid p hp).1⟩
  | cons first before ih =>
      cases delivered with
      | cons turn some rest =>
          obtain ⟨p, hp, fd⟩ := ih rest ready
          exact ⟨p, List.mem_append_right _ hp, fd⟩

end Turns

/-- The state in which the dispatch loop starts: what was reported is stored, the hook has run. -/
def Backend.polled {σ : Type} (b : Backend σ) (poll : σ → Int → List (ℕ × Mask)) (flags : Mask)
    (s : σ) : σ :=
  let reports := poll (b.sleep flags s) (b.timeout flags s)
  let s := b.sleep flags s
  let s := b.setTable ((b.table s).storeFired reports) s
  if flags &&& AE_CALL_AFTER_SLEEP ≠ 0 then b.aftersleep s else s

/-- `aeProcessEvents` gets to `aeApiPoll`. -/
def Backend.Polls {σ : Type} (b : Backend σ) (flags : Mask) (s : σ) : Prop :=
  (b.table s).maxfd ≠ -1 ∨ flags &&& AE_TIME_EVENTS ≠ 0 ∧ flags &&& AE_DONT_WAIT = 0

theorem Backend.processFileEvents_eq {σ : Type} {b : Backend σ} {flags : Mask} {s : σ}
    (polls : b.Polls flags s) (poll : σ → Int → List (ℕ × Mask)) :
    b.processFileEvents poll flags s =
      b.dispatch (poll (b.sleep flags s) (b.timeout flags s)).length 0
        (b.polled poll flags s, 0) := if_pos polls

def firedEvent (report : ℕ × Mask) : FiredEvent := ⟨report.1, firedMask report.2⟩

theorem storeFired_range (t : FileTable) (reports : List (ℕ × Mask)) :
    ((List.range reports.length).map fun i => (t.storeFired reports).fired (0 + i)) =
      reports.map firedEvent := by
  refine List.ext_getElem (by simp) fun i hi hi' => ?_
  have inside : i < reports.length := by simpa using hi
  simp [FileTable.storeFired, firedEvent, inside]

theorem take_range (t : FileTable) {reports : List (ℕ × Mask)} {j : ℕ} (h : j ≤ reports.length) :
    ((List.range j).map fun i => (t.storeFired reports).fired (0 + i)) =
      (reports.map firedEvent).take j := by
  rw [← storeFired_range t, ← List.map_take, List.take_range, min_eq_left h]

section Dispatch

variable (code : FileCode) (nearest : Served → Option TimeEvent) (now : Served → Int × Int)
  (poll : Served → Int → List (ℕ × Mask)) (flags : Mask) (s : Served)

theorem FileCode.sleep_eq : (code.backend nearest now).sleep flags s = s := by
  rw [Backend.sleep]
  split <;> rfl

theorem FileCode.polled_fired :
    ((code.backend nearest now).polled poll flags s).table.fired =
      (s.table.storeFired (poll s ((code.backend nearest now).timeout flags s))).fired := by
  simp only [Backend.polled, FileCode.sleep_eq]
  split_ifs
  · exact foldl_apply_fired _ _
  · rfl

theorem FileCode.polled_calls :
    ((code.backend nearest now).polled poll flags s).calls = s.calls := by
  simp only [Backend.polled, FileCode.sleep_eq]
  split_ifs <;> rfl

theorem FileCode.processFileEvents_turns (polls : (code.backend nearest now).Polls flags s) :
    let b := code.backend nearest now
    let reports := poll s (b.timeout flags s)
    b.processFileEvents poll flags s =
      (b.turns (reports.map firedEvent) (b.polled poll flags s), (reports.length : Int)) := by
  intro b reports
  have keeps : b.KeepsFired := code.host_keepsFired
  have sleep : b.sleep flags s = s := FileCode.sleep_eq code nearest now flags s
  have fired : (b.table (b.polled poll flags s)).fired = (s.table.storeFired reports).fired :=
    FileCode.polled_fired code nearest now poll flags s
  rw [Backend.processFileEvents_eq polls, sleep, Host.dispatch_eq_turns keeps, fired, storeFired_range,
    zero_add]

theorem FileCode.dispatch_take {j : ℕ}
    (inside : j ≤ (poll s ((code.backend nearest now).timeout flags s)).length) :
    let b := code.backend nearest now
    let reports := poll s (b.timeout flags s)
    (b.dispatch j 0 (b.polled poll flags s, 0)).1 =
      b.turns ((reports.map firedEvent).take j) (b.polled poll flags s) := by
  intro b reports
  have keeps : b.KeepsFired := code.host_keepsFired
  have fired : (b.table (b.polled poll flags s)).fired = (s.table.storeFired reports).fired :=
    FileCode.polled_fired code nearest now poll flags s
  rw [Host.dispatch_eq_turns keeps, fired, take_range _ inside]

/-- The dispatch loop delivers only valid events and loses none, whatever handlers and hook do to
the table, for every poll that reports no descriptor twice. -/
theorem dispatch_exact (polls : (code.backend nearest now).Polls flags s)
    (distinct : ((poll s ((code.backend nearest now).timeout flags s)).map Prod.fst).Nodup) :
    let b := code.backend nearest now
    let reports := poll s (b.timeout flags s)
    ∃ calls, (b.processFileEvents poll flags s).1.calls = s.calls ++ calls ∧
      (∀ p ∈ calls, ∃ report ∈ reports, p.2.Valid p.1 (firedEvent report)) ∧
      (calls.map fun p => (p.2.fd, p.2.kind)).Nodup ∧
      (∀ pre p, Occurs calls pre p → (∃ q ∈ pre, q.2.fd = p.2.fd) → p.1.TwoProcs p.2.fd) ∧
      (∀ j report, reports[j]? = some report →
        (∃ kind, b.Ready (b.dispatch j 0 (b.polled poll flags s, 0)).1 (firedEvent report) kind) →
        ∃ p ∈ calls, p.2.fd = report.1) ∧
      (b.processFileEvents poll flags s).2 = reports.length := by
  intro b reports
  have whole := FileCode.processFileEvents_turns code nearest now poll flags s polls
  obtain ⟨calls, eq, delivered⟩ := turns_delivered code (reports.map firedEvent)
    (b.polled poll flags s)
  have fds : ((reports.map firedEvent).map FiredEvent.fd).Nodup := by
    simpa [Function.comp_def, firedEvent] using distinct
  rw [FileCode.polled_calls] at eq
  rw [whole]
  refine ⟨calls, eq, ?_, delivered.once fds, fun pre p => delivered.second fds, ?_, rfl⟩
  · intro p hp
    obtain ⟨ev, hev, valid⟩ := delivered.valid p hp
    obtain ⟨report, hr, rfl⟩ := List.mem_map.mp hev
    exact ⟨report, hr, valid⟩
  · intro j report at_ ready
    obtain ⟨inside, rfl⟩ := List.getElem?_eq_some_iff.mp at_
    rw [FileCode.dispatch_take code nearest now poll flags s inside.le] at ready
    have split : reports.map firedEvent = (reports.map firedEvent).take j ++
        firedEvent reports[j] :: (reports.map firedEvent).drop (j + 1) := by
      have here : j < (reports.map firedEvent).length := by simpa using inside
      have cut := List.drop_eq_getElem_cons here
      rw [List.getElem_map] at cut
      rw [← cut, List.take_append_drop]
    rw [split] at delivered
    exact delivered.served ready

/-- The handler of descriptor 1 takes the registration of descriptor 2 away. -/
def greedyCode : FileCode where
  handler _ c := if c.fd = 1 then [.delete 2 AE_READABLE] else []
  aftersleep _ := []

def twoFiles : Served where
  table := [FileOp.create 1 (AE_READABLE ||| AE_WRITABLE) 7 8 false,
    FileOp.create 2 AE_READABLE 9 10 false].foldl FileOp.apply
      (Loop.fresh (stillEnv Int)).toFileTable
  calls := []

/-- Both are reported ready: the handler of descriptor 1 is called once, that of descriptor 2 not
at all, and both reports are counted. -/
theorem dispatch_exact_greedy :
    ∃ calls : List (FileTable × FileCall),
      ((greedyCode.backend (fun _ => none) fun _ => (5, 0)).processFileEvents
        (fun _ _ => [(1, EPOLLIN ||| EPOLLOUT), (2, EPOLLIN)]) AE_FILE_EVENTS twoFiles).1.calls =
          calls ∧
      (calls.map fun p => (p.2.fd, p.2.kind)).Nodup ∧ calls.length = 1 ∧
      ((greedyCode.backend (fun _ => none) fun _ => (5, 0)).processFileEvents
        (fun _ _ => [(1, EPOLLIN ||| EPOLLOUT), (2, EPOLLIN)]) AE_FILE_EVENTS twoFiles).2 = 2 := by
  have polls : (greedyCode.backend (fun _ => none) fun _ => (5, 0)).Polls AE_FILE_EVENTS twoFiles :=
    .inl (by decide)
  obtain ⟨calls, eq, -, once, -, -, count⟩ := dispatch_exact greedyCode (fun _ => none)
    (fun _ => (5, 0)) (fun _ _ => [(1, EPOLLIN ||| EPOLLOUT), (2, EPOLLIN)]) AE_FILE_EVENTS
    twoFiles polls (by decide)
  have none : twoFiles.calls = [] := rfl
  rw [none, List.nil_append] at eq
  refine ⟨calls, eq, once, ?_, count⟩
  rw [← eq]
  decide

end Dispatch

end AeEventLoop
