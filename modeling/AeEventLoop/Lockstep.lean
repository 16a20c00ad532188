import AeEventLoop.Steady

/-! The three event loops side by side: the same timers created and deleted between passes, the
same passes, the same callbacks, each step at one reading of a clock that never goes back. What
they store, whom they call and what they return is the same throughout. -/

namespace AeEventLoop

open PriorityQueue

structure Trio (Q : Type) where
  ae : Ae.EventLoop
  ae2 : Ae2.EventLoop Q
  ae3 : Ae3.EventLoop

section Lockstep

variable {Q : Type} [PriorityQueue Q TimeEvent Ae2.Earlier]

def Trio.create (w : Trio Q) (r : Int → ℕ → Int) (clock : Timeval) (ms : Int) (proc data : ℕ)
    (fin : Option ℕ) : Trio Q where
  ae := (Ae.aeCreateTimeEvent (steadyEnv Int clock r) w.ae ms proc data fin).2
  ae2 := (Ae2.aeCreateTimeEvent (steadyEnv Int clock r) w.ae2 ms proc data fin).2
  ae3 := (Ae3.aeCreateTimeEvent (steadyEnv TimeEvent clock r) w.ae3 ms proc data fin).2

/-- `aeDeleteTimeEvent` in all three: by id, in `ae3.cpp` by the record stored for it. -/
def Trio.delete (w : Trio Q) (te : TimeEvent) : Trio Q where
  ae := (Ae.aeDeleteTimeEvent w.ae te.id).2
  ae2 := (Ae2.aeDeleteTimeEvent w.ae2 te.id).2
  ae3 := (Ae3.aeDeleteTimeEvent w.ae3 te).2

/-- The runs; `clock` is the reading at the last step. -/
inductive Together (r : Int → ℕ → Int) : Timeval → Trio Q → Prop
  | start {clock : Timeval} {mem : Memory} {setsize : Int} {a : Ae.EventLoop}
      {b : Ae2.EventLoop Q} {c : Ae3.EventLoop} :
      Ae.aeCreateEventLoop (steadyEnv Int clock r) mem setsize = some a →
      Ae2.aeCreateEventLoop (steadyEnv Int clock r) mem setsize = some b →
      Ae3.aeCreateEventLoop (steadyEnv TimeEvent clock r) mem setsize = some c →
      Together r clock ⟨a, b, c⟩
  | create {clock clock' : Timeval} {w : Trio Q} (ms : Int) (proc data : ℕ) (fin : Option ℕ) :
      Together r clock w → clock.micros ≤ clock'.micros → 0 ≤ ms →
      FitsLong (millis (aeAddMillisecondsToNow clock' ms)) →
      Together r clock' (w.create r clock' ms proc data fin)
  | delete {clock : Timeval} {w : Trio Q} (te : TimeEvent) :
      Together r clock w → te ∈ w.ae3.timeEventMap.timers → Together r clock (w.delete te)
  | pass {clock clock' : Timeval} {w w' : Trio Q} {i j k : ℕ} {l m n : Int} :
      Together r clock w → clock.micros ≤ clock'.micros →
      Ae3.PassFits (steadyEnv TimeEvent clock' r) w.ae3 →
      Ae.processTimeEvents (steadyEnv Int clock' r) i w.ae = some (w'.ae, l) →
      Ae2.processTimeEvents (steadyEnv Int clock' r) j w.ae2 = some (w'.ae2, m) →
      Ae3.processTimeEvents (steadyEnv TimeEvent clock' r) k w.ae3 = some (w'.ae3, n) →
      Together r clock' w'

/-- The three stores hold the same timers, with the same deadlines. -/
structure Agree (w : Trio Q) : Prop where
  ae2 : ∀ te, te ∈ w.ae.timeEvents.contents ↔ Ae2.Live w.ae2 te
  ae3 : ∀ te, te ∈ w.ae.timeEvents.contents ↔ te ∈ w.ae3.timeEventMap.timers

structure InStep (clock : Timeval) (w : Trio Q) (xs : List (ℕ × TimeEvent)) : Prop where
  ok : Ae.Ok w.ae xs
  idsOk : Ae2.IdsOk w.ae2
  rep : Ae3.Rep w.ae3
  ae2 : ∀ te, te ∈ xs.map Prod.snd ↔ Ae2.Live w.ae2 te
  ae3 : ∀ te, te ∈ xs.map Prod.snd ↔ te ∈ w.ae3.timeEventMap.timers
  normal : ∀ te ∈ xs.map Prod.snd, Normal te.deadline
  marked : ∀ id ∈ w.ae2.setDelTimeId, id < w.ae2.timeEventNextId
  next2 : w.ae2.timeEventNextId = w.ae.timeEventNextId
  next3 : w.ae3.timeEventNextId = w.ae.timeEventNextId
  fired2 : ∀ id, fired w.ae2.trace id = fired w.ae.trace id
  fired3 : ∀ id, fired w.ae3.trace id = fired w.ae.trace id
  forward : w.ae.lastTime ≤ clock.tv_sec

theorem InStep.agree {clock : Timeval} {w : Trio Q} {xs : List (ℕ × TimeEvent)}
    (h : InStep clock w xs) : Agree w := by
  have contents := LinkedStore.contents_repr h.ok.repr
  refine ⟨fun te => ?_, fun te => ?_⟩
  · rw [contents]
    exact h.ae2 te
  · rw [contents]
    exact h.ae3 te

theorem tv_sec_mono {a b : Timeval} (h : a.micros ≤ b.micros) : a.tv_sec ≤ b.tv_sec := by
  have := a.usec_nonneg
  have := b.usec_lt
  simp only [Timeval.micros] at h
  omega

theorem fired_eq_of_append {κ κ' : Type} {a new : List (Event κ)} {b new' : List (Event κ')}
    {id : Int} (old : fired b id = fired a id) (same : fired new' id = fired new id) :
    fired (b ++ new') id = fired (a ++ new) id := by
  rw [fired_append, fired_append, old, same]

section Steps

variable {r : Int → ℕ → Int} {clock clock' : Timeval} {w : Trio Q} {xs : List (ℕ × TimeEvent)}

theorem newTimeEvent_steady {κ κ' : Type} (clock : Timeval) (r : Int → ℕ → Int) {s : Loop κ}
    {s' : Loop κ'} (next : s'.timeEventNextId = s.timeEventNextId) (ms : Int) (proc data : ℕ)
    (fin : Option ℕ) :
    s'.newTimeEvent (steadyEnv κ' clock r) ms proc data fin =
      s.newTimeEvent (steadyEnv κ clock r) ms proc data fin := by
  simp only [Loop.newTimeEvent, next, steadyEnv]

theorem InStep.create (h : InStep clock w xs) (later : clock.micros ≤ clock'.micros) {ms : Int}
    (hms : 0 ≤ ms) (proc data : ℕ) (fin : Option ℕ)
    (fits : FitsLong (millis (aeAddMillisecondsToNow clock' ms))) :
    InStep clock' (w.create r clock' ms proc data fin)
      ((w.ae.timeEvents.fresh,
        w.ae.newTimeEvent (steadyEnv Int clock' r) ms proc data fin) :: xs) := by
  obtain ⟨ok, -, next, -, trace, -⟩ := h.ok.create (steadyEnv Int clock' r) ms proc data fin
  have made : (w.create r clock' ms proc data fin).ae.trace = _ := trace
  have same2 := newTimeEvent_steady clock' r h.next2 ms proc data fin
  have same3 := newTimeEvent_steady clock' r h.next3 ms proc data fin
  let te := w.ae.newTimeEvent (steadyEnv Int clock' r) ms proc data fin
  have id2 : te.id = w.ae2.timeEventNextId := h.next2.symm
  have id3 : te.id = w.ae3.timeEventNextId := h.next3.symm
  have heap : (w.create r clock' ms proc data fin).ae2.timeMinHead =
      push w.ae2.timeMinHead te := congrArg (push w.ae2.timeMinHead) same2
  have map : (w.create r clock' ms proc data fin).ae3.timeEventMap =
      w.ae3.timeEventMap.insertTimer te :=
    congrArg w.ae3.timeEventMap.insertTimer same3
  have free : ∀ x ∈ w.ae3.timeEventMap.timers, x.id ≠ te.id := by
    intro x hx same
    have := h.rep.below x hx
    omega
  have unmarked : te.id ∉ w.ae2.setDelTimeId := by
    intro marked
    have := h.marked te.id marked
    omega
  refine ⟨ok, h.idsOk.push te id2 heap rfl, h.rep.create proc data fin fits, fun x => ?_,
    fun x => ?_, fun x hx => ?_, fun id hid => ?_, ?_, ?_, fun id => ?_, fun id => ?_, ?_⟩
  · have live : Ae2.Live (w.create r clock' ms proc data fin).ae2 x ↔
        (x = te ∨ x ∈ elems w.ae2.timeMinHead) ∧ x.id ∉ w.ae2.setDelTimeId := by
      rw [Ae2.Live, heap, elems_push, Multiset.mem_cons]
      rfl
    rw [live, List.map_cons, List.mem_cons, h.ae2 x]
    constructor
    · rintro (rfl | ⟨stored, free⟩)
      · exact ⟨.inl rfl, unmarked⟩
      · exact ⟨.inr stored, free⟩
    · rintro ⟨rfl | stored, free⟩
      · exact .inl rfl
      · exact .inr ⟨stored, free⟩
  · rw [map, Ae3.mem_insertTimer free, List.map_cons, List.mem_cons, h.ae3 x, or_comm]
  · rcases List.mem_cons.mp hx with rfl | old
    · exact aeAddMillisecondsToNow_normal clock' hms
    · exact h.normal x old
  · exact (h.marked id hid).trans (Int.lt_succ _)
  · exact (congrArg (· + 1) h.next2).trans next.symm
  · exact (congrArg (· + 1) h.next3).trans next.symm
  · rw [made]
    exact fired_eq_of_append (h.fired2 id) rfl
  · rw [made]
    exact fired_eq_of_append (h.fired3 id) rfl
  · refine le_of_eq_of_le ?_ (h.forward.trans (tv_sec_mono later))
    exact Ae.aeCreateTimeEvent_lastTime _ _ _ _ _ _

theorem mem_of_unlinked {a b : List (ℕ × TimeEvent)} {p : ℕ} {x : TimeEvent}
    (ids : ((a ++ (p, x) :: b).map fun y => y.2.id).Nodup) (te : TimeEvent) :
    te ∈ (a ++ b).map Prod.snd ↔ te ∈ (a ++ (p, x) :: b).map Prod.snd ∧ te.id ≠ x.id := by
  rw [List.map_append, List.map_cons, List.nodup_middle, List.nodup_cons, ← List.map_append] at ids
  have other : ∀ y ∈ a ++ b, y.2.id ≠ x.id := fun y hy same =>
    ids.1 (List.mem_map.mpr ⟨y, hy, same⟩)
  constructor
  · intro h
    obtain ⟨y, hy, rfl⟩ := List.mem_map.mp h
    refine ⟨List.mem_map_of_mem ?_, other y hy⟩
    rcases List.mem_append.mp hy with before | behind
    · exact List.mem_append_left _ before
    · exact List.mem_append_right _ (List.mem_cons_of_mem _ behind)
  · rintro ⟨h, different⟩
    obtain ⟨y, hy, rfl⟩ := List.mem_map.mp h
    refine List.mem_map_of_mem ?_
    rcases List.mem_append.mp hy with before | here
    · exact List.mem_append_left _ before
    · rcases List.mem_cons.mp here with rfl | behind
      · exact absurd rfl different
      · exact List.mem_append_right _ behind

theorem InStep.delete (h : InStep clock w xs) {te : TimeEvent}
    (stored : te ∈ w.ae3.timeEventMap.timers) :
    ∃ ys, InStep clock (w.delete te) ys := by
  have listed := (h.ae3 te).mpr stored
  obtain ⟨⟨p, x⟩, hx, rfl⟩ := List.mem_map.mp listed
  obtain ⟨a, b, rfl⟩ := List.append_of_mem hx
  obtain ⟨l, eq, repr, -⟩ := h.ok.delete_found
  have after : (w.delete x).ae =
      Ae.log { w.ae with timeEvents := l } (.deleted x.id AE_OK) := congrArg Prod.snd eq
  have sub : (a ++ b).Sublist (a ++ (p, x) :: b) :=
    List.Sublist.append_left (List.sublist_cons_self _ _) a
  have left := mem_of_unlinked h.ok.ids
  refine ⟨a ++ b, ?_, ⟨h.idsOk.nodup, h.idsOk.below⟩, h.rep.delete x, fun te => ?_, fun te => ?_,
    fun te hte => h.normal te ((left te).mp hte).1, fun id hid => ?_, ?_, ?_, fun id => ?_,
    fun id => ?_, ?_⟩
  · exact after ▸ h.ok.sublist sub h.ok.undef repr rfl
  · rw [left, h.ae2]
    constructor
    · rintro ⟨⟨stored, unmarked⟩, other⟩
      refine ⟨stored, fun marked => ?_⟩
      rcases Finset.mem_insert.mp marked with same | old
      · exact other same
      · exact unmarked old
    · rintro ⟨stored, unmarked⟩
      have apart : te.id ≠ x.id ∧ te.id ∉ w.ae2.setDelTimeId :=
        not_or.mp fun marked => unmarked (Finset.mem_insert.mpr marked)
      exact ⟨⟨stored, apart.2⟩, apart.1⟩
  · rw [left, h.ae3]
    refine Iff.trans ?_ h.rep.map.mem_eraseTimer.symm
    refine and_congr_right fun old => not_congr ⟨fun same => ?_, fun same => same.1⟩
    obtain rfl := h.rep.map.ids te old x stored same
    exact ⟨rfl, rfl⟩
  · rcases Finset.mem_insert.mp hid with rfl | old
    · exact h.next2 ▸ (h.ok.range (p, x) hx).2
    · exact h.marked id old
  · rw [after]
    exact h.next2
  · rw [after]
    exact h.next3
  · rw [after]
    exact fired_eq_of_append (h.fired2 id) rfl
  · rw [after]
    exact fired_eq_of_append (h.fired3 id) rfl
  · rw [after]
    exact h.forward

/-- What a steady pass does is a matter of the timers it finds and of how often each has run. -/
theorem SteadyPass.unique {count count' : Int → ℕ} {before before' after after' : TimeEvent → Prop}
    {called called' : List TimeEvent} {n n' : Int}
    (h : SteadyPass clock r count before after called n)
    (h' : SteadyPass clock r count' before' after' called' n')
    (same : ∀ te, before te ↔ before' te) (counts : ∀ id, count' id = count id) :
    called.Perm called' ∧ n = n' ∧ ∀ x, after x ↔ after' x := by
  have mem : ∀ te, te ∈ called ↔ te ∈ called' := fun te => by
    rw [h.calls, h'.calls, same]
  have perm : called.Perm called' :=
    (List.perm_ext_iff_of_nodup h.once.of_map h'.once.of_map).mpr mem
  refine ⟨perm, ?_, fun x => ?_⟩
  · rw [h.returns, h'.returns, perm.length_eq]
  · rw [h.left, h'.left, same]
    simp only [mem, counts]

theorem rearmedAt_normal (answers : Answers r) {id : Int} {k : ℕ} {te x : TimeEvent}
    (h : rearmedAt clock (r id k) te = some x) : Normal x.deadline := by
  rw [rearmedAt] at h
  split_ifs at h with last
  obtain rfl := Option.some.inj h
  have positive := (answers id k).resolve_left last
  exact aeAddMillisecondsToNow_normal clock (by omega)

/-- Passes over the three stores that called the same timers, each once, and returned the same
count. -/
structure SamePass (w w' : Trio Q) (l m n : Int) : Prop where
  calls : ∃ (a b : List (Event Int)) (c : List (Event TimeEvent)),
    (w'.ae.trace = w.ae.trace ++ a ∧ w'.ae2.trace = w.ae2.trace ++ b ∧
      w'.ae3.trace = w.ae3.trace ++ c) ∧
    (∀ te, (te ∈ calledIn a ↔ te ∈ calledIn b) ∧ (te ∈ calledIn a ↔ te ∈ calledIn c)) ∧
    ((calledIn a).map TimeEvent.id).Nodup ∧ ((calledIn b).map TimeEvent.id).Nodup ∧
    ((calledIn c).map TimeEvent.id).Nodup
  count : l = m ∧ l = n

theorem InStep.pass (answers : Answers r) (h : InStep clock w xs)
    (later : clock.micros ≤ clock'.micros)
    (fits : Ae3.PassFits (steadyEnv TimeEvent clock' r) w.ae3) :
    ∃ i j k l m n ys, ∃ w' : Trio Q,
      Ae.processTimeEvents (steadyEnv Int clock' r) i w.ae = some (w'.ae, l) ∧
      Ae2.processTimeEvents (steadyEnv Int clock' r) j w.ae2 = some (w'.ae2, m) ∧
      Ae3.processTimeEvents (steadyEnv TimeEvent clock' r) k w.ae3 = some (w'.ae3, n) ∧
      SamePass w w' l m n ∧ InStep clock' w' ys := by
  have normal : ∀ te ∈ w.ae3.timeEventMap.timers, Normal te.deadline := fun te hte =>
    h.normal te ((h.ae3 te).mpr hte)
  obtain ⟨i, a, ys, l, sa, pa, ok, last, next, ta, passA⟩ :=
    Ae.steady_pass r h.ok (h.forward.trans (tv_sec_mono later))
  obtain ⟨j, b, m, sb, pb, idsOk, dels, next2, tb, passB⟩ :=
    Ae2.steady_pass clock' answers h.idsOk
  obtain ⟨k, c, n, sc, pc, rep, next3, tc, passC⟩ := Ae3.steady_pass answers h.rep fits normal
  obtain ⟨permB, countB, afterB⟩ := passA.unique passB h.ae2 h.fired2
  obtain ⟨permC, countC, afterC⟩ := passA.unique passC h.ae3 h.fired3
  refine ⟨i, j, k, l, m, n, ys, ⟨a, b, c⟩, pa, pb, pc, ⟨?_, countB, countC⟩, ok, idsOk, rep,
    afterB, afterC, fun x hx => ?_, fun id hid => ?_, ?_, ?_, fun id => ?_, fun id => ?_, ?_⟩
  · exact ⟨sa, sb, sc, ⟨ta, tb, tc⟩, fun te => ⟨permB.mem_iff, permC.mem_iff⟩, passA.once,
      passB.once, passC.once⟩
  · rcases (passA.left x).mp hx with ⟨old, -⟩ | ⟨te, -, armed⟩
    · exact h.normal x old
    · exact rearmedAt_normal answers armed
  · rw [next2]
    exact h.marked id (dels ▸ hid)
  · rw [next2, next, h.next2]
  · rw [next3, next, h.next3]
  · rw [ta, tb]
    exact fired_eq_of_append (h.fired2 id) (permB.countP_eq _).symm
  · rw [ta, tc]
    exact fired_eq_of_append (h.fired3 id) (permC.countP_eq _).symm
  · exact last.le

end Steps

theorem InStep.start {r : Int → ℕ → Int} {clock : Timeval} {mem : Memory} {setsize : Int}
    {a : Ae.EventLoop} {b : Ae2.EventLoop Q} {c : Ae3.EventLoop}
    (ha : Ae.aeCreateEventLoop (steadyEnv Int clock r) mem setsize = some a)
    (hb : Ae2.aeCreateEventLoop (steadyEnv Int clock r) mem setsize = some b)
    (hc : Ae3.aeCreateEventLoop (steadyEnv TimeEvent clock r) mem setsize = some c) :
    InStep clock ⟨a, b, c⟩ [] := by
  have idsOk := Ae2.aeCreateEventLoop_idsOk hb
  have rep := Ae3.aeCreateEventLoop_rep hc
  obtain ⟨la, made, rfl⟩ := Option.map_eq_some_iff.mp ha
  obtain ⟨lb, made2, rfl⟩ := Option.map_eq_some_iff.mp hb
  obtain ⟨lc, made3, rfl⟩ := Option.map_eq_some_iff.mp hc
  obtain ⟨files, -, rfl⟩ := Option.map_eq_some_iff.mp made
  obtain ⟨files2, -, rfl⟩ := Option.map_eq_some_iff.mp made2
  obtain ⟨files3, -, rfl⟩ := Option.map_eq_some_iff.mp made3
  refine ⟨⟨rfl, LinkedStore.repr_empty, by simp, by simp, le_refl _⟩, idsOk, rep, fun te => ?_,
    fun te => ?_, by simp, by simp, rfl, rfl, fun _ => rfl, fun _ => rfl, le_refl _⟩
  · simp [Ae2.Live]
  · simp [Ae3.not_mem_timers_empty te]

theorem Together.inStep {r : Int → ℕ → Int} (answers : Answers r) {clock : Timeval} {w : Trio Q}
    (run : Together r clock w) : ∃ xs, InStep clock w xs := by
  induction run with
  | start ha hb hc => exact ⟨[], .start ha hb hc⟩
  | create ms proc data fin _ later hms fits ih =>
      obtain ⟨xs, h⟩ := ih
      exact ⟨_, h.create later hms proc data fin fits⟩
  | delete te _ stored ih =>
      obtain ⟨xs, h⟩ := ih
      exact h.delete stored
  | pass _ later fits pa pb pc ih =>
      obtain ⟨xs, h⟩ := ih
      obtain ⟨i, j, k, l, m, n, ys, w', qa, qb, qc, -, after⟩ := h.pass answers later fits
      obtain ⟨a, b, c⟩ := w'
      obtain rfl := congrArg Prod.fst (Ae.processTimeEvents_unique pa qa)
      obtain rfl := congrArg Prod.fst (WhileLoop.run_unique pb qb)
      obtain rfl := congrArg Prod.fst (Ae3.processTimeEvents_unique pc qc)
      exact ⟨ys, after⟩

/-- In every run the three stores hold the same timers after every step, and the next pass ends in
all three with the same calls, each made once, and the same count. -/
theorem together_lockstep {r : Int → ℕ → Int} (answers : Answers r) {clock : Timeval} {w : Trio Q}
    (run : Together r clock w) :
    Agree w ∧ ∀ clock' : Timeval, clock.micros ≤ clock'.micros →
      Ae3.PassFits (steadyEnv TimeEvent clock' r) w.ae3 →
      ∃ i j k l m n, ∃ w' : Trio Q,
        Ae.processTimeEvents (steadyEnv Int clock' r) i w.ae = some (w'.ae, l) ∧
        Ae2.processTimeEvents (steadyEnv Int clock' r) j w.ae2 = some (w'.ae2, m) ∧
        Ae3.processTimeEvents (steadyEnv TimeEvent clock' r) k w.ae3 = some (w'.ae3, n) ∧
        SamePass w w' l m n ∧ Together r clock' w' := by
  obtain ⟨xs, h⟩ := run.inStep answers
  refine ⟨h.agree, fun clock' later fits => ?_⟩
  obtain ⟨i, j, k, l, m, n, ys, w', pa, pb, pc, same, -⟩ := h.pass answers later fits
  exact ⟨i, j, k, l, m, n, w', pa, pb, pc, same, .pass run later fits pa pb pc⟩

end Lockstep

/-- Two timers are created and the nearer one is deleted; a second later the other is due. -/
theorem together_lockstep_two :
    ∃ w : Trio (SortedQueue TimeEvent Ae2.Earlier),
      Together (fun _ _ => 5) (Timeval.ofMillis 5000) w ∧
      w.ae3.timeEventMap.timers.map TimeEvent.id = [0] ∧ Agree w ∧ ∃ i j k l m n w',
        Ae.processTimeEvents (steadyEnv Int (Timeval.ofMillis 6000) fun _ _ => 5) i w.ae =
          some (Trio.ae w', l) ∧
        Ae2.processTimeEvents (steadyEnv Int (Timeval.ofMillis 6000) fun _ _ => 5) j w.ae2 =
          some (w'.ae2, m) ∧
        Ae3.processTimeEvents (steadyEnv TimeEvent (Timeval.ofMillis 6000) fun _ _ => 5) k w.ae3 =
          some (w'.ae3, n) ∧
        SamePass w w' l m n := by
  let r : Int → ℕ → Int := fun _ _ => 5
  let clock := Timeval.ofMillis 5000
  let w₀ : Trio (SortedQueue TimeEvent Ae2.Earlier) :=
    ⟨Ae.fresh (steadyEnv Int clock r), Ae2.fresh (steadyEnv Int clock r),
      Ae3.fresh (steadyEnv TimeEvent clock r)⟩
  have ae : Ae.aeCreateEventLoop (steadyEnv Int clock r) zeroedMemory 4 = some w₀.ae := by
    rw [Ae.aeCreateEventLoop, Loop.create_eq_fresh]
    rfl
  have ae2 : Ae2.aeCreateEventLoop (steadyEnv Int clock r) zeroedMemory 4 = some w₀.ae2 := by
    rw [Ae2.aeCreateEventLoop, Loop.create_eq_fresh]
    rfl
  have ae3 : Ae3.aeCreateEventLoop (steadyEnv TimeEvent clock r) zeroedMemory 4 = some w₀.ae3 := by
    rw [Ae3.aeCreateEventLoop, Loop.create_eq_fresh]
    rfl
  have run₀ : Together r clock w₀ := .start ae ae2 ae3
  let w₁ := w₀.create r clock 1000 3 4 none
  have run₁ : Together r clock w₁ := .create 1000 3 4 none run₀ le_rfl (by decide)
    (by change FitsLong 6000; decide)
  let w₂ := w₁.create r clock 0 3 4 none
  have run₂ : Together r clock w₂ := .create 0 3 4 none run₁ le_rfl (by decide)
    (by change FitsLong 5000; decide)
  let w₃ := w₂.delete ⟨1, 5, 0, 3, none, 4⟩
  have run₃ : Together r clock w₃ := .delete ⟨1, 5, 0, 3, none, 4⟩ run₂ (by decide)
  let env := steadyEnv TimeEvent (Timeval.ofMillis 6000) r
  have tested : WhileLoop.checkAll (Ae3.passStep env (Ae3.lNow env w₃.ae3)) (fun c =>
      (createdIn c.loop.trace ++ rearmedIn c.loop.trace).all
        fun te => decide (FitsLong (millis te.deadline))) 6 (Ae3.passStart w₃.ae3) = true := by
    decide
  have fits : Ae3.PassFits env w₃.ae3 := by
    refine ⟨by decide, fun c visited te hte => ?_⟩
    have all := WhileLoop.visits_of_checkAll tested visited
    exact of_decide_eq_true (List.all_eq_true.mp all te (List.mem_append.mpr hte))
  obtain ⟨agree, pass⟩ := together_lockstep (fun _ _ => .inr (by decide)) run₃
  obtain ⟨i, j, k, l, m, n, w', pa, pb, pc, same, -⟩ := pass _ (by decide) fits
  exact ⟨w₃, run₃, by decide, agree, i, j, k, l, m, n, w', pa, pb, pc, same⟩

end AeEventLoop
