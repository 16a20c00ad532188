import AeEventLoop.AeSafe

/-! The nodes of `ae.c` as a plain list, in every state in which anyone can look at them: between
operations, at the loop head of a pass, and between two calls of a callback or a finalizer. At a
loop head there may be one node that carries the deletion mark for an id; it is a node like the
others until its turn unlinks it. -/

namespace AeEventLoop.Ae

open LinkedStore

def unlinked (c : Pass) (p : ℕ) (te : TimeEvent) : EventLoop :=
  log (store c.loop (c.loop.timeEvents.unlink p)) (.unlinked te)

/-- The states of all runs, with those in the middle of a pass. -/
inductive Seen (env : Env Int) : EventLoop → Prop
  | between {s : EventLoop} : Run env (fun _ _ => True) s → Seen env s
  | head {s : EventLoop} {c : Pass} : Run env (fun _ _ => True) s → PassVisits env s c →
      Seen env c.loop
  | callback {s : EventLoop} {c : Pass} {p : ℕ} {cell : Cell TimeEvent} (k : ℕ) :
      Run env (fun _ _ => True) s → PassVisits env s c → c.te = some p →
      c.loop.timeEvents.cells p = some cell → cell.val.id ≠ AE_DELETED_EVENT_ID →
      cell.val.id ≤ s.timeEventNextId - 1 → Due cell.val.deadline (reading env c) →
      Seen env (runCalls env (log (reachTimer env c cell.val).loop (.called cell.val))
        ((script env c cell.val).calls.take k))
  | finalizer {s : EventLoop} {c : Pass} {p : ℕ} {cell : Cell TimeEvent} (k : ℕ) :
      Run env (fun _ _ => True) s → PassVisits env s c → c.te = some p →
      c.loop.timeEvents.cells p = some cell → cell.val.id = AE_DELETED_EVENT_ID →
      Seen env (runCalls env (log (unlinked c p cell.val) (.finalized cell.val))
        ((env.finalizerProc (unlinked c p cell.val).trace cell.val).take k))

/-- The nodes linked from `timeEventHead` are `xs`, in terms of the pointers. -/
structure Linked (s : EventLoop) (xs : List (ℕ × TimeEvent)) : Prop where
  defined : s.undef = false
  head : s.timeEvents.head = none ∨ ∃ p c, s.timeEvents.head = some p ∧
    s.timeEvents.cells p = some c ∧ c.prev = none
  finite : ∃ n, s.timeEvents.walkFrom n s.timeEvents.head = some xs
  back : ∀ x ∈ xs, ∀ c q, s.timeEvents.cells x.1 = some c → c.prev = some q →
    q ∈ xs.map Prod.fst
  inverse : ∀ x ∈ xs, ∀ y ∈ xs, ∀ c d, s.timeEvents.cells x.1 = some c →
    s.timeEvents.cells y.1 = some d → (c.next = some y.1 ↔ d.prev = some x.1)
  ids : (xs.map fun x => x.2.id).Nodup
  low : ∀ x ∈ xs, x.2.id < s.timeEventNextId

/-- As `Ok`, but a node may carry the deletion mark. -/
structure Listed (s : EventLoop) (xs : List (ℕ × TimeEvent)) : Prop where
  defined : s.undef = false
  repr : Repr s.timeEvents xs
  ids : (xs.map fun x => x.2.id).Nodup
  low : ∀ x ∈ xs, x.2.id < s.timeEventNextId

section List

variable {s : EventLoop} {xs a b : List (ℕ × TimeEvent)}

theorem Ok.listed (ok : Ok s xs) : Listed s xs :=
  ⟨ok.undef, ok.repr, ok.ids, fun x hx => (ok.range x hx).2⟩

theorem Listed.linked (listed : Listed s xs) : Linked s xs where
  defined := listed.defined
  head := listed.repr.head_prev
  finite := ⟨xs.length, by
    rw [listed.repr.head]
    exact walkFrom_repr (a := []) listed.repr⟩
  back x hx c q hc := listed.repr.prev_mem hx hc
  inverse x hx y hy c d hc hd := listed.repr.next_iff_prev hx hy hc hd
  ids := listed.ids
  low := listed.low

theorem Listed.create (listed : Listed s xs) (env : Env Int) (ms : Int) (proc data : ℕ)
    (fin : Option ℕ) :
    Listed (aeCreateTimeEvent env s ms proc data fin).2
      ((s.timeEvents.fresh, s.newTimeEvent env ms proc data fin) :: xs) := by
  obtain ⟨l, eq, repr, -⟩ := aeCreateTimeEvent_eq listed.repr env ms proc data fin
  rw [eq]
  refine ⟨listed.defined, repr, fresh_ids listed.ids listed.low env ms proc data fin, ?_⟩
  intro x hx
  change x.2.id < s.timeEventNextId + 1
  rcases List.mem_cons.mp hx with rfl | old
  · exact Int.lt_succ _
  · have := listed.low x old
    omega

theorem Listed.delete {x : ℕ × TimeEvent} (listed : Listed s (a ++ x :: b)) :
    (aeDeleteTimeEvent s x.2.id).1 = AE_OK ∧
      Listed (aeDeleteTimeEvent s x.2.id).2 (a ++ b) := by
  obtain ⟨l, eq, repr, -⟩ := delete_found listed.repr listed.ids
  have sub : (a ++ b).Sublist (a ++ x :: b) :=
    List.Sublist.append_left (List.sublist_cons_self _ _) a
  rw [eq]
  exact ⟨rfl, listed.defined, repr, listed.ids.sublist (sub.map _),
    fun y hy => listed.low y (sub.subset hy)⟩

theorem Listed.refines (listed : Listed s xs) (env : Env Int) :
    Linked s xs ∧
      (∀ ms proc data fin, (aeCreateTimeEvent env s ms proc data fin).1 = s.timeEventNextId ∧
        ∃ p, Linked (aeCreateTimeEvent env s ms proc data fin).2
          ((p, s.newTimeEvent env ms proc data fin) :: xs)) ∧
      ∀ id, ((aeDeleteTimeEvent s id).1 = AE_OK ↔ ∃ x ∈ xs, x.2.id = id) ∧
        (∀ a x b, xs = a ++ x :: b → x.2.id = id → Linked (aeDeleteTimeEvent s id).2 (a ++ b)) ∧
        ((∀ x ∈ xs, x.2.id ≠ id) →
          aeDeleteTimeEvent s id = (AE_ERR, log s (.deleted id AE_ERR))) := by
  refine ⟨listed.linked, fun ms proc data fin => ⟨rfl, _, (listed.create env _ _ _ _).linked⟩,
    fun id => ⟨⟨?_, ?_⟩, ?_, delete_absent listed.repr⟩⟩
  · intro found
    by_contra none
    rw [delete_absent listed.repr fun x hx same => none ⟨x, hx, same⟩] at found
    cases found
  · rintro ⟨x, hx, rfl⟩
    obtain ⟨a, b, rfl⟩ := List.append_of_mem hx
    exact listed.delete.1
  · rintro a x b rfl rfl
    exact listed.delete.2.linked

end List

section Seen

variable {env : Env Int} {s : EventLoop} {c : Pass} {xs todo : List (ℕ × TimeEvent)} {phase : ℕ}

/-- The mark is no id that was ever given out. -/
theorem marked_listed {front : List (ℕ × TimeEvent)} {p : ℕ} {te : TimeEvent}
    {l : LinkedStore TimeEvent} (ok : Ok s (front ++ (p, te) :: todo))
    (marked : s.timeEvents.setVal p markDeleted = some l) :
    Listed { s with timeEvents := l } (front ++ (p, markDeleted te) :: todo) := by
  obtain ⟨l', marked', repr, -⟩ := setVal_repr ok.repr markDeleted
  obtain rfl := Option.some.inj (marked.symm.trans marked')
  have ids := ok.ids
  rw [List.map_append, List.map_cons, List.nodup_middle, List.nodup_cons, ← List.map_append] at ids
  have sub : (front ++ todo).Sublist (front ++ (p, te) :: todo) :=
    List.Sublist.append_left (List.sublist_cons_self _ _) front
  refine ⟨ok.undef, repr, ?_, ?_⟩
  · rw [List.map_append, List.map_cons, List.nodup_middle, List.nodup_cons, ← List.map_append]
    refine ⟨fun taken => ?_, ids.2⟩
    obtain ⟨x, hx, same⟩ := List.mem_map.mp taken
    exact ok.unmarked (sub.subset hx) same
  · intro x hx
    rcases List.mem_append.mp hx with before | here
    · exact (ok.range x (List.mem_append_left _ before)).2
    · rcases List.mem_cons.mp here with rfl | behind
      · have next := ok.next
        change (-1 : Int) < s.timeEventNextId
        omega
      · exact (ok.range x (List.mem_append_right _ (List.mem_cons_of_mem _ behind))).2

theorem Stands.listed (stands : Stands c todo phase) : ∃ xs, Listed c.loop xs := by
  cases stands with
  | here ok _ => exact ⟨_, ok.listed⟩
  | marked ok marked eq _ =>
      rw [eq]
      exact ⟨_, marked_listed ok marked⟩

theorem Gentle.visits_stands (gentle : Gentle env) (ok : Ok s xs) (visits : PassVisits env s c) :
    ∃ todo phase, Stands c todo phase := by
  obtain ⟨ys, found, ok', start⟩ := OnList.start env ok
  obtain ⟨ids, low⟩ := pending_nodup ok' found ok
  have walk : ∃ todo phase seg, OnList env s ys c todo phase seg := by
    refine WhileLoop.visits_invariant (fun c => ∃ todo phase seg, OnList env s ys c todo phase seg)
      (fun _ => True) ?_ (fun _ _ => trivial) ⟨ys, 0, [], start⟩ visits
    rintro a b ⟨todo, phase, seg, walk⟩ - body
    obtain ⟨todo', phase', seg', walk', -⟩ := walk.step ids low (gentle.spares _ a) body
    exact ⟨todo', phase', seg', walk'⟩
  obtain ⟨todo, phase, seg, walk⟩ := walk
  exact ⟨todo, phase, walk.stands⟩

theorem Stands.unlinked_ok (stands : Stands c todo phase) {p : ℕ} {cell : Cell TimeEvent}
    (cursor : c.te = some p) (here : c.loop.timeEvents.cells p = some cell)
    (isMarked : cell.val.id = AE_DELETED_EVENT_ID) : ∃ xs, Ok (unlinked c p cell.val) xs := by
  cases stands with
  | here ok at_ =>
      rcases (Stands.here ok at_).cell cursor here with ⟨-, front, rest, rfl, ok⟩ | ⟨other, -⟩
      · exact absurd isMarked (ok.unmarked (x := (p, cell.val)) (by simp))
      · cases other
  | marked ok marked eq at_ =>
      rename_i s front q te l
      rw [cursor] at at_
      obtain rfl := Option.some.inj at_
      obtain ⟨l', unlinked', repr, -⟩ := unlink_repr (marked_listed ok marked).repr
      have sub : (front ++ todo).Sublist (front ++ (p, te) :: todo) :=
        List.Sublist.append_left (List.sublist_cons_self _ _) front
      refine ⟨front ++ todo, ?_⟩
      rw [unlinked, eq]
      change l.unlink p = some l' at unlinked'
      simp only [unlinked', store]
      exact ok.sublist sub ok.undef repr rfl

theorem Ok.calls_listed (ok : Ok s xs) (env : Env Int) (e : Event Int)
    (calls : List (TimerCall Int)) : ∃ ys, Listed (runCalls env (log s e) calls) ys := by
  have logged : Ok (log s e) xs := ok.same rfl rfl rfl
  obtain ⟨new, seg, ran⟩ := runCalls_ran env calls logged
  exact ⟨_, ran.ok.listed⟩

theorem seen_listed (gentle : Gentle env) (seen : Seen env s) : ∃ xs, Listed s xs := by
  cases seen with
  | between run =>
      obtain ⟨xs, ok⟩ := run_ok gentle run
      exact ⟨xs, ok.listed⟩
  | head run visits =>
      obtain ⟨xs, ok⟩ := run_ok gentle run
      obtain ⟨todo, phase, stands⟩ := gentle.visits_stands ok visits
      exact stands.listed
  | callback k run visits cursor here unmarked low due =>
      obtain ⟨xs, ok⟩ := run_ok gentle run
      obtain ⟨todo, phase, stands⟩ := gentle.visits_stands ok visits
      rcases stands.cell cursor here with ⟨-, front, rest, rfl, ok'⟩ | ⟨-, isMarked, -⟩
      · exact (reachTimer_ok ok' env _).calls_listed env _ _
      · exact absurd isMarked unmarked
  | finalizer k run visits cursor here marked =>
      obtain ⟨xs, ok⟩ := run_ok gentle run
      obtain ⟨todo, phase, stands⟩ := gentle.visits_stands ok visits
      obtain ⟨ys, ok'⟩ := stands.unlinked_ok cursor here marked
      exact ok'.calls_listed env _ _

/-- The timer list is a plain list in every state: creating is `cons`, deleting takes away the one
node with that id or does nothing. -/
theorem timer_list_refines (gentle : Gentle env) (seen : Seen env s) :
    ∃ xs, Linked s xs ∧
      (∀ ms proc data fin, (aeCreateTimeEvent env s ms proc data fin).1 = s.timeEventNextId ∧
        ∃ p, Linked (aeCreateTimeEvent env s ms proc data fin).2
          ((p, s.newTimeEvent env ms proc data fin) :: xs)) ∧
      ∀ id, ((aeDeleteTimeEvent s id).1 = AE_OK ↔ ∃ x ∈ xs, x.2.id = id) ∧
        (∀ a x b, xs = a ++ x :: b → x.2.id = id → Linked (aeDeleteTimeEvent s id).2 (a ++ b)) ∧
        ((∀ x ∈ xs, x.2.id ≠ id) →
          aeDeleteTimeEvent s id = (AE_ERR, log s (.deleted id AE_ERR))) := by
  obtain ⟨xs, listed⟩ := seen_listed gentle seen
  exact ⟨xs, listed.refines env⟩

/-- Three timers, in the callback of the last one, which has created a fourth and deleted one. -/
theorem timer_list_refines_editing :
    ∃ s xs, s.timeEventNextId = 4 ∧ s.timeEvents.contents.map TimeEvent.id = [3, 2, 0] ∧
      Linked s xs := by
  have seen := @Seen.callback editingEnv edited (passStart editingEnv edited) 2 _ 2 edited_run .refl
    rfl rfl (by decide) (by decide) (by decide)
  obtain ⟨xs, linked, -⟩ := timer_list_refines editingEnv_gentle seen
  exact ⟨_, xs, by decide, by decide, linked⟩

end Seen

end AeEventLoop.Ae
