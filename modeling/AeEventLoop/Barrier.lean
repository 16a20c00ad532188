import AeEventLoop.Dispatch

/-! `AE_BARRIER` in the dispatch loop. The flag is read once, before the first handler of a
descriptor runs, and the masks are read again after it. So the order it asks for is kept for every
descriptor that has it when its turn comes, and is lost for one whose own readable handler sets it.
-/

namespace AeEventLoop

def FileTable.Barrier (t : FileTable) (fd : ℕ) : Prop := (t.events fd).mask &&& AE_BARRIER ≠ 0

instance (t : FileTable) (fd : ℕ) : Decidable (t.Barrier fd) := inferInstanceAs (Decidable (_ ≠ _))

/-- No writable handler is called while its descriptor has `AE_BARRIER` and after the readable
handler of that descriptor. -/
def BarrierHonoured (calls : List (FileTable × FileCall)) : Prop :=
  ∀ pre p, Occurs calls pre p → p.2.kind = .writable → p.1.Barrier p.2.fd →
    ∀ q ∈ pre, q.2.fd = p.2.fd → q.2.kind ≠ .readable

theorem honoured_of_first {calls : List (FileTable × FileCall)}
    (first : ∀ pre p, Occurs calls pre p → p.2.kind = .writable → pre = []) :
    BarrierHonoured calls := by
  intro pre p occurs writable _ q hq
  rw [first pre p occurs writable] at hq
  cases hq

theorem honoured_nil : BarrierHonoured [] :=
  honoured_of_first fun pre p occurs => absurd occurs (not_occurs_nil pre p)

theorem honoured_singleton (p : FileTable × FileCall) : BarrierHonoured [p] := by
  refine honoured_of_first fun pre q occurs _ => ?_
  rcases occurs_cons.mp occurs with ⟨none, -⟩ | ⟨c, -, more⟩
  · exact none
  · exact absurd more (not_occurs_nil c q)

theorem honoured_pair {p q : FileTable × FileCall} (fd : p.2.fd = q.2.fd) :
    BarrierHonoured [p, q] ↔
      (p.2.kind = .readable → q.2.kind = .writable → ¬ q.1.Barrier q.2.fd) := by
  constructor
  · intro honoured readable writable barrier
    exact honoured [p] q ⟨[], rfl⟩ writable barrier p (by simp) fd readable
  · intro order pre r occurs writable barrier x hx same readable
    rcases occurs_cons.mp occurs with ⟨rfl, -⟩ | ⟨c, rfl, more⟩
    · cases hx
    · rcases occurs_cons.mp more with ⟨rfl, rfl⟩ | ⟨d, -, none⟩
      · rw [List.mem_singleton.mp hx] at readable
        exact order readable writable barrier
      · exact absurd none (not_occurs_nil d r)

theorem honoured_append {a b : List (FileTable × FileCall)}
    (apart : ∀ p ∈ a, ∀ q ∈ b, p.2.fd ≠ q.2.fd) :
    BarrierHonoured (a ++ b) ↔ BarrierHonoured a ∧ BarrierHonoured b := by
  constructor
  · intro honoured
    refine ⟨fun pre p occurs => honoured pre p (occurs.append_right b), ?_⟩
    intro pre p occurs writable barrier q hq
    exact honoured (a ++ pre) p (occurs_append.mpr (.inr ⟨pre, rfl, occurs⟩)) writable barrier q
      (List.mem_append_right a hq)
  · rintro ⟨left, right⟩ pre p occurs writable barrier q hq same
    rcases occurs_append.mp occurs with here | ⟨c, rfl, there⟩
    · exact left pre p here writable barrier q hq same
    · rcases List.mem_append.mp hq with before | between
      · exact absurd same (apart q before p there.mem)
      · exact right c p there writable barrier q between same

namespace FileCode

variable (code : FileCode) (s : Served) (ev : FiredEvent)

/-- The readable handler, called first, leaves its descriptor with `AE_BARRIER` set, and with a
writable handler that is another one and is reported, too. -/
structure RaisesBarrier : Prop where
  down : ¬ s.table.Barrier ev.fd
  readable : code.host.Ready s ev .readable
  up : (code.host.fire s ev .readable).table.Barrier ev.fd
  writable : code.host.Ready (code.host.fire s ev .readable) ev .writable
  distinct : code.host.Distinct (code.host.fire s ev .readable) ev.fd

def madeCall (kind : FileKind) : FileTable × FileCall :=
  (s.table, ⟨kind, ev.fd, (s.table.events ev.fd).proc kind, (s.table.events ev.fd).clientData,
    ev.mask⟩)

theorem fire_second (kind kind' : FileKind) :
    (code.host.fireUnlessDone ev kind' (code.host.fire s ev kind, 1)).1.calls =
      s.calls ++ if code.host.Ready (code.host.fire s ev kind) ev kind' ∧
          code.host.Distinct (code.host.fire s ev kind) ev.fd
        then [madeCall s ev kind, madeCall (code.host.fire s ev kind) ev kind']
        else [madeCall s ev kind] := by
  by_cases both : code.host.Ready (code.host.fire s ev kind) ev kind' ∧
      code.host.Distinct (code.host.fire s ev kind) ev.fd
  · rw [Host.fireUnlessDone, if_pos ⟨both.1, .inr both.2⟩, if_pos both]
    exact List.append_assoc _ _ _
  · have not : ¬ (code.host.Ready (code.host.fire s ev kind) ev kind' ∧
        ((1 : ℕ) = 0 ∨ code.host.Distinct (code.host.fire s ev kind) ev.fd)) := by
      rintro ⟨ready, impossible | distinct⟩
      · cases impossible
      · exact both ⟨ready, distinct⟩
    rw [Host.fireUnlessDone, if_neg not, if_neg both]
    rfl

theorem fire_first (kind : FileKind) :
    (code.host.fireUnlessDone ev kind (s, 0)).1.calls =
      s.calls ++ if code.host.Ready s ev kind then [madeCall s ev kind] else [] := by
  by_cases ready : code.host.Ready s ev kind
  · rw [Host.fireUnlessDone_first kind ready, if_pos ready]
    rfl
  · rw [Host.fireUnlessDone_quiet ready, if_neg ready, List.append_nil]

def turnCalls : List (FileTable × FileCall) :=
  let first := if s.table.Barrier ev.fd then FileKind.writable else .readable
  let second := if s.table.Barrier ev.fd then FileKind.readable else .writable
  if code.host.Ready s ev first then
    if code.host.Ready (code.host.fire s ev first) ev second ∧
        code.host.Distinct (code.host.fire s ev first) ev.fd
      then [madeCall s ev first, madeCall (code.host.fire s ev first) ev second]
      else [madeCall s ev first]
  else if code.host.Ready s ev second then [madeCall s ev second] else []

theorem dispatchEvent_turnCalls :
    (code.host.dispatchEvent ev s).calls = s.calls ++ code.turnCalls s ev := by
  by_cases invert : s.table.Barrier ev.fd
  · rw [@Host.dispatchEvent_invert _ code.host ev s invert]
    simp only [turnCalls, if_pos invert]
    by_cases w : code.host.Ready s ev .writable
    · rw [Host.fireUnlessDone_first .writable w, if_pos w, fire_second]
    · rw [Host.fireUnlessDone_quiet w, if_neg w, fire_first]
  · rw [@Host.dispatchEvent_plain _ code.host ev s invert]
    simp only [turnCalls, if_neg invert]
    by_cases r : code.host.Ready s ev .readable
    · rw [if_pos r, if_pos r, fire_second]
    · rw [if_neg r, if_neg r, fire_first]

theorem turnCalls_fd : ∀ p ∈ code.turnCalls s ev, p.2.fd = ev.fd := by
  simp only [turnCalls]
  generalize (if s.table.Barrier ev.fd then FileKind.writable else .readable) = first
  generalize (if s.table.Barrier ev.fd then FileKind.readable else .writable) = second
  split_ifs <;> simp [madeCall]

/-- One descriptor's turn keeps the order unless its readable handler raises the barrier. -/
theorem turnCalls_honoured : BarrierHonoured (code.turnCalls s ev) ↔ ¬ code.RaisesBarrier s ev := by
  by_cases invert : s.table.Barrier ev.fd
  · refine iff_of_true ?_ fun raises => raises.down invert
    simp only [turnCalls, if_pos invert]
    split_ifs
    · refine (honoured_pair (by rfl)).mpr ?_
      intro readable
      cases readable
    · exact honoured_singleton _
    · exact honoured_singleton _
    · exact honoured_nil
  · simp only [turnCalls, if_neg invert]
    by_cases r : code.host.Ready s ev .readable
    · rw [if_pos r]
      by_cases both : code.host.Ready (code.host.fire s ev .readable) ev .writable ∧
          code.host.Distinct (code.host.fire s ev .readable) ev.fd
      · rw [if_pos both, honoured_pair (by rfl)]
        constructor
        · intro order raises
          exact order rfl rfl raises.up
        · intro keeps _ _ up
          exact keeps ⟨invert, r, up, both.1, both.2⟩
      · rw [if_neg both]
        exact iff_of_true (honoured_singleton _)
          fun raises => both ⟨raises.writable, raises.distinct⟩
    · rw [if_neg r]
      refine iff_of_true ?_ fun raises => r raises.readable
      split_ifs
      · exact honoured_singleton _
      · exact honoured_nil

theorem turns_honoured (evs : List FiredEvent) (different : (evs.map FiredEvent.fd).Nodup) :
    ∃ calls, (code.host.turns evs s).calls = s.calls ++ calls ∧
      (∀ p ∈ calls, p.2.fd ∈ evs.map FiredEvent.fd) ∧
      (BarrierHonoured calls ↔ ∀ j ev, evs[j]? = some ev →
        ¬ code.RaisesBarrier (code.host.turns (evs.take j) s) ev) := by
  induction evs generalizing s with
  | nil => exact ⟨[], by simp [Host.turns], by simp, iff_of_true honoured_nil (by simp)⟩
  | cons ev evs ih =>
      rw [List.map_cons, List.nodup_cons] at different
      obtain ⟨calls, eq, fds, honoured⟩ := ih (code.host.dispatchEvent ev s) different.2
      rw [dispatchEvent_turnCalls, List.append_assoc] at eq
      have mine := code.turnCalls_fd s ev
      refine ⟨code.turnCalls s ev ++ calls, eq, ?_, ?_⟩
      · intro p hp
        rw [List.map_cons]
        rcases List.mem_append.mp hp with now | later
        · exact List.mem_cons.mpr (.inl (mine p now))
        · exact List.mem_cons_of_mem _ (fds p later)
      · have apart : ∀ p ∈ code.turnCalls s ev, ∀ q ∈ calls, p.2.fd ≠ q.2.fd := by
          intro p hp q hq same
          exact different.1 (mine p hp ▸ same ▸ fds q hq)
        rw [honoured_append apart, turnCalls_honoured, honoured]
        constructor
        · rintro ⟨now, later⟩ j e at_
          cases j with
          | zero =>
              rw [← Option.some.inj at_]
              exact now
          | succ j => exact later j e at_
        · intro all
          exact ⟨all 0 ev rfl, fun j e at_ => all (j + 1) e at_⟩

end FileCode

section Dispatch

variable (code : FileCode) (nearest : Served → Option TimeEvent) (now : Served → Int × Int)
  (poll : Served → Int → List (ℕ × Mask)) (flags : Mask) (s : Served)

/-- The dispatch loop honours `AE_BARRIER` exactly in the iterations in which no readable handler
sets it for its own descriptor, under a writable handler of its own that has been reported. -/
theorem barrier_honoured_iff (polls : (code.backend nearest now).Polls flags s)
    (distinct : ((poll s ((code.backend nearest now).timeout flags s)).map Prod.fst).Nodup) :
    let b := code.backend nearest now
    let reports := poll s (b.timeout flags s)
    ∃ calls, (b.processFileEvents poll flags s).1.calls = s.calls ++ calls ∧
      (BarrierHonoured calls ↔ ∀ j report, reports[j]? = some report →
        ¬ code.RaisesBarrier (b.dispatch j 0 (b.polled poll flags s, 0)).1 (firedEvent report)) := by
  intro b reports
  have fds : ((reports.map firedEvent).map FiredEvent.fd).Nodup := by
    simpa [Function.comp_def, firedEvent] using distinct
  obtain ⟨calls, eq, -, honoured⟩ := code.turns_honoured (b.polled poll flags s)
    (reports.map firedEvent) fds
  rw [FileCode.polled_calls] at eq
  refine ⟨calls, ?_, honoured.trans ?_⟩
  · rw [FileCode.processFileEvents_turns code nearest now poll flags s polls]
    exact eq
  · have states : ∀ j report, reports[j]? = some report →
        (b.dispatch j 0 (b.polled poll flags s, 0)).1 =
          code.host.turns ((reports.map firedEvent).take j) (b.polled poll flags s) := by
      intro j report at_
      have inside : j < reports.length := (List.getElem?_eq_some_iff.mp at_).1
      exact FileCode.dispatch_take code nearest now poll flags s inside.le
    constructor
    · intro keeps j report at_
      rw [states j report at_]
      exact keeps j (firedEvent report) (by rw [List.getElem?_map, at_]; rfl)
    · intro keeps j ev at_
      rw [List.getElem?_map, Option.map_eq_some_iff] at at_
      obtain ⟨report, here, rfl⟩ := at_
      rw [← states j report here]
      exact keeps j report here

/-- A readable handler that asks for a reply after the next sync: it registers the writable
handler of its descriptor with `AE_BARRIER`. -/
def syncingCode : FileCode where
  handler _ c := if c.kind = .readable then [.create c.fd (AE_WRITABLE ||| AE_BARRIER) 9 8 false]
    else []
  aftersleep _ := []

def oneClient (extra : Mask) : Served where
  table := [FileOp.create 1 AE_READABLE 7 8 false,
    FileOp.create 1 (AE_WRITABLE ||| extra) 9 8 false].foldl FileOp.apply
      (Loop.fresh (stillEnv Int)).toFileTable
  calls := []

/-- With the barrier set beforehand, and both kinds reported, the reply goes out before the next
request is read. -/
theorem barrier_honoured_iff_synced :
    ∃ calls : List (FileTable × FileCall),
      calls.map (fun p => (p.2.kind, p.2.fd)) = [(.writable, 1), (.readable, 1)] ∧
      BarrierHonoured calls ∧
      ((syncingCode.backend (fun _ => none) fun _ => (5, 0)).processFileEvents
        (fun _ _ => [(1, EPOLLIN ||| EPOLLOUT)]) AE_FILE_EVENTS (oneClient AE_BARRIER)).1.calls =
          calls := by
  obtain ⟨calls, eq, honoured⟩ := barrier_honoured_iff syncingCode (fun _ => none)
    (fun _ => (5, 0)) (fun _ _ => [(1, EPOLLIN ||| EPOLLOUT)]) AE_FILE_EVENTS (oneClient AE_BARRIER)
    (.inl (by decide)) (by decide)
  have none : (oneClient AE_BARRIER).calls = [] := rfl
  rw [none, List.nil_append] at eq
  refine ⟨calls, ?_, honoured.mpr ?_, eq⟩
  · rw [← eq]
    decide
  · intro j report at_ raises
    cases j with
    | zero =>
        obtain rfl := Option.some.inj at_
        exact raises.down (by decide)
    | succ j => simp at at_

/-- Reported readable and writable, it gets the reply right after the request. -/
theorem barrier_broken_by_readable :
    ¬ ∀ (code : FileCode) (poll : Served → Int → List (ℕ × Mask)) (flags : Mask) (s : Served),
      let b := code.backend (fun _ => none) fun _ => (5, 0)
      b.Polls flags s → ((poll s (b.timeout flags s)).map Prod.fst).Nodup →
      ∃ calls, (b.processFileEvents poll flags s).1.calls = s.calls ++ calls ∧
        BarrierHonoured calls := by
  intro all
  obtain ⟨calls, eq, honoured⟩ := all syncingCode (fun _ _ => [(1, EPOLLIN ||| EPOLLOUT)])
    AE_FILE_EVENTS (oneClient 0) (.inl (by decide)) (by decide)
  have none : (oneClient 0).calls = [] := rfl
  rw [none, List.nil_append] at eq
  rw [← eq] at honoured
  exact honoured [_] _ ⟨[], rfl⟩ rfl (by decide) _ (List.mem_singleton.mpr rfl) rfl rfl

end Dispatch

end AeEventLoop
