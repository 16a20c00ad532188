import AeEventLoop.Ae

/-! What each piece of `ae.c` does to the list its nodes represent, said once. `Ok s xs` is the
refinement relation: the linked nodes of `s` are the list `xs` of timers, each with the address of
its node. -/

namespace AeEventLoop.Ae

open LinkedStore

structure Ok (s : EventLoop) (xs : List (ℕ × TimeEvent)) : Prop where
  undef : s.undef = false
  repr : Repr s.timeEvents xs
  ids : (xs.map fun x => x.2.id).Nodup
  range : ∀ x ∈ xs, 0 ≤ x.2.id ∧ x.2.id < s.timeEventNextId
  next : 0 ≤ s.timeEventNextId

section Ops

variable {s : EventLoop} {xs a b : List (ℕ × TimeEvent)}

/-- `Ok` reads the list, the next id and the flag, and nothing else of the loop. -/
theorem Ok.same (ok : Ok s xs) {t : EventLoop} (undef : t.undef = s.undef)
    (timeEvents : t.timeEvents = s.timeEvents) (next : t.timeEventNextId = s.timeEventNextId) :
    Ok t xs :=
  ⟨undef.trans ok.undef, timeEvents ▸ ok.repr, ok.ids, next ▸ ok.range, next ▸ ok.next⟩

theorem start_ok {env : Env Int} {mem : Memory} {setsize : Int}
    (h : aeCreateEventLoop env mem setsize = some s) : Ok s [] := by
  obtain ⟨l, hl, rfl⟩ := Option.map_eq_some_iff.mp h
  obtain ⟨files, -, rfl⟩ := Option.map_eq_some_iff.mp hl
  exact ⟨rfl, repr_empty, by simp, by simp, le_refl _⟩

theorem aeResizeSetSize_timers (mem : Memory) (s : EventLoop) (setsize : Int) :
    (aeResizeSetSize mem s setsize).2.undef = s.undef ∧
      (aeResizeSetSize mem s setsize).2.timeEvents = s.timeEvents ∧
      (aeResizeSetSize mem s setsize).2.timeEventNextId = s.timeEventNextId := by
  unfold aeResizeSetSize
  split_ifs <;> exact ⟨rfl, rfl, rfl⟩

theorem aeCreateTimeEvent_files (env : Env Int) (s : EventLoop) (ms : Int) (proc data : ℕ)
    (fin : Option ℕ) :
    (aeCreateTimeEvent env s ms proc data fin).2.toFileTable = s.toFileTable := by
  simp only [aeCreateTimeEvent, log, store]
  split <;> rfl

theorem aeDeleteTimeEvent_files (s : EventLoop) (id : Int) :
    (aeDeleteTimeEvent s id).2.toFileTable = s.toFileTable := by
  unfold aeDeleteTimeEvent
  split
  · rfl
  · rfl
  · simp only [log, store]
    split <;> rfl

theorem aeCreateTimeEvent_eq (repr : Repr s.timeEvents xs) (env : Env Int) (ms : Int)
    (proc data : ℕ) (fin : Option ℕ) :
    ∃ l, (aeCreateTimeEvent env s ms proc data fin).2 =
        { s with
          timeEventNextId := s.timeEventNextId + 1
          tick := s.tick + 1
          timeEvents := l
          trace := s.trace ++ [.created (s.newTimeEvent env ms proc data fin)] } ∧
      Repr l ((s.timeEvents.fresh, s.newTimeEvent env ms proc data fin) :: xs) ∧
      l.fresh = s.timeEvents.fresh + 1 := by
  obtain ⟨l, pushed, repr', fresh, -⟩ := pushFront_repr repr (s.newTimeEvent env ms proc data fin)
  refine ⟨l, ?_, repr', fresh⟩
  simp only [aeCreateTimeEvent, store, pushed, log]

theorem fresh_ids (ids : (xs.map fun x => x.2.id).Nodup)
    (low : ∀ x ∈ xs, x.2.id < s.timeEventNextId) (env : Env Int) (ms : Int) (proc data : ℕ)
    (fin : Option ℕ) :
    (((s.timeEvents.fresh, s.newTimeEvent env ms proc data fin) :: xs).map
      fun x => x.2.id).Nodup := by
  rw [List.map_cons, List.nodup_cons]
  refine ⟨fun taken => ?_, ids⟩
  obtain ⟨x, hx, same⟩ := List.mem_map.mp taken
  have below := low x hx
  simp only [Loop.newTimeEvent] at same
  omega

theorem Ok.create (ok : Ok s xs) (env : Env Int) (ms : Int) (proc data : ℕ) (fin : Option ℕ) :
    Ok (aeCreateTimeEvent env s ms proc data fin).2
        ((s.timeEvents.fresh, s.newTimeEvent env ms proc data fin) :: xs) ∧
      (aeCreateTimeEvent env s ms proc data fin).2.timeEvents.fresh = s.timeEvents.fresh + 1 ∧
      (aeCreateTimeEvent env s ms proc data fin).2.timeEventNextId = s.timeEventNextId + 1 ∧
      (aeCreateTimeEvent env s ms proc data fin).2.tick = s.tick + 1 ∧
      (aeCreateTimeEvent env s ms proc data fin).2.trace =
        s.trace ++ [.created (s.newTimeEvent env ms proc data fin)] ∧
      (aeCreateTimeEvent env s ms proc data fin).2.toFileTable = s.toFileTable := by
  obtain ⟨l, eq, repr, fresh⟩ := aeCreateTimeEvent_eq ok.repr env ms proc data fin
  have next := ok.next
  rw [eq]
  refine ⟨⟨ok.undef, repr, fresh_ids ok.ids (fun x hx => (ok.range x hx).2) env ms proc data fin,
    ?_, ?_⟩, fresh, rfl, rfl, rfl, rfl⟩
  · intro x hx
    dsimp only
    rcases List.mem_cons.mp hx with rfl | old
    · simp only [Loop.newTimeEvent]
      omega
    · have := ok.range x old
      omega
  · change 0 ≤ s.timeEventNextId + 1
    omega

theorem Ok.sublist {ys : List (ℕ × TimeEvent)} (ok : Ok s xs) (sub : ys.Sublist xs) {t : EventLoop}
    (undef : t.undef = false) (repr : Repr t.timeEvents ys)
    (next : t.timeEventNextId = s.timeEventNextId) : Ok t ys :=
  ⟨undef, repr, ok.ids.sublist (sub.map _), fun x hx => next ▸ ok.range x (sub.subset hx),
    next ▸ ok.next⟩

theorem Ok.replace {p : ℕ} {te te' : TimeEvent} (ok : Ok s (a ++ (p, te) :: b))
    (same : te'.id = te.id) {t : EventLoop} (undef : t.undef = false)
    (repr : Repr t.timeEvents (a ++ (p, te') :: b))
    (next : t.timeEventNextId = s.timeEventNextId) : Ok t (a ++ (p, te') :: b) := by
  refine ⟨undef, repr, ?_, fun x hx => ?_, next ▸ ok.next⟩
  · simpa [same] using ok.ids
  · rw [next]
    rcases List.mem_append.mp hx with before | here
    · exact ok.range x (List.mem_append_left _ before)
    · rcases List.mem_cons.mp here with rfl | behind
      · have := ok.range (p, te) (by simp)
        rwa [← same] at this
      · exact ok.range x (List.mem_append_right _ (List.mem_cons_of_mem _ behind))

theorem delete_absent (repr : Repr s.timeEvents xs) {id : Int} (absent : ∀ x ∈ xs, x.2.id ≠ id) :
    aeDeleteTimeEvent s id = (AE_ERR, log s (.deleted id AE_ERR)) := by
  have found := search_repr repr fun te => decide (te.id = id)
  have none : xs.find? (fun x => decide (x.2.id = id)) = none :=
    List.find?_eq_none.mpr fun x hx => by simpa using absent x hx
  rw [none, Option.map_none] at found
  simp only [aeDeleteTimeEvent, found]

theorem delete_found {p : ℕ} {te : TimeEvent} (repr : Repr s.timeEvents (a ++ (p, te) :: b))
    (ids : ((a ++ (p, te) :: b).map fun x => x.2.id).Nodup) :
    ∃ l, aeDeleteTimeEvent s te.id =
        (AE_OK, log { s with timeEvents := l } (.deleted te.id AE_OK)) ∧
      Repr l (a ++ b) ∧ l.fresh = s.timeEvents.fresh ∧ Freed l p := by
  have found := search_repr repr fun x => decide (x.id = te.id)
  rw [List.map_append, List.map_cons, List.nodup_middle, List.nodup_cons, ← List.map_append] at ids
  have before : ∀ x ∈ a, ¬ x.2.id = te.id := fun x hx same =>
    ids.1 (List.mem_map.mpr ⟨x, List.mem_append_left _ hx, same⟩)
  have first : (a ++ (p, te) :: b).find? (fun x => decide (x.2.id = te.id)) = some (p, te) := by
    rw [List.find?_append, List.find?_eq_none.mpr (by simpa using before)]
    simp
  rw [first, Option.map_some] at found
  obtain ⟨l₁, marked, repr₁, fresh₁⟩ := setVal_repr repr markDeleted
  obtain ⟨l₂, unlinked, repr₂, fresh₂, -⟩ := unlink_repr repr₁
  have off : ∀ x ∈ a ++ b, x.1 ≠ p := fun x hx => repr.addr_ne (x := (p, te)) hx
  have below : p < l₂.fresh := by
    rw [fresh₂, fresh₁]
    exact repr.below (p, te) (by simp)
  refine ⟨l₂.free p, ?_, free_repr repr₂ off, fresh₂.trans fresh₁, free_freed l₂ below⟩
  simp only [aeDeleteTimeEvent, found, marked, Option.bind_some, unlinked, Option.map_some, store]

theorem Ok.delete_absent (ok : Ok s xs) {id : Int} (absent : ∀ x ∈ xs, x.2.id ≠ id) :
    aeDeleteTimeEvent s id = (AE_ERR, log s (.deleted id AE_ERR)) :=
  Ae.delete_absent ok.repr absent

theorem Ok.delete_found {p : ℕ} {te : TimeEvent} (ok : Ok s (a ++ (p, te) :: b)) :
    ∃ l, aeDeleteTimeEvent s te.id =
        (AE_OK, log { s with timeEvents := l } (.deleted te.id AE_OK)) ∧
      Repr l (a ++ b) ∧ l.fresh = s.timeEvents.fresh ∧ Freed l p :=
  Ae.delete_found ok.repr ok.ids

theorem Ok.create_contents (ok : Ok s xs) (env : Env Int) (ms : Int) (proc data : ℕ)
    (fin : Option ℕ) :
    (aeCreateTimeEvent env s ms proc data fin).2.timeEvents.contents =
      s.newTimeEvent env ms proc data fin :: s.timeEvents.contents := by
  rw [contents_repr (ok.create env ms proc data fin).1.repr, contents_repr ok.repr]
  rfl

theorem Ok.delete_contents (ok : Ok s xs) (id : Int) :
    (∃ ys, Ok (aeDeleteTimeEvent s id).2 ys) ∧
      (∀ te ∈ (aeDeleteTimeEvent s id).2.timeEvents.contents,
        te ∈ s.timeEvents.contents ∧ te.id ≠ id) ∧
      (aeDeleteTimeEvent s id).2.toFileTable = s.toFileTable := by
  rw [contents_repr ok.repr]
  by_cases stored : ∃ x ∈ xs, x.2.id = id
  · obtain ⟨⟨p, te⟩, hx, rfl⟩ := stored
    obtain ⟨a, b, rfl⟩ := List.append_of_mem hx
    obtain ⟨l, eq, repr, -, -⟩ := ok.delete_found
    have ids := ok.ids
    rw [List.map_append, List.map_cons, List.nodup_middle, List.nodup_cons, ← List.map_append] at ids
    have sub : (a ++ b).Sublist (a ++ (p, te) :: b) :=
      List.Sublist.append_left (List.sublist_cons_self _ _) a
    rw [eq]
    refine ⟨⟨a ++ b, ok.sublist sub ok.undef repr rfl⟩, fun x hx' => ?_, rfl⟩
    change x ∈ l.contents at hx'
    rw [contents_repr repr] at hx'
    obtain ⟨y, hy, rfl⟩ := List.mem_map.mp hx'
    exact ⟨List.mem_map_of_mem (sub.subset hy),
      fun same => ids.1 (List.mem_map.mpr ⟨y, hy, same⟩)⟩
  · have absent : ∀ x ∈ xs, x.2.id ≠ id := fun x hx same => stored ⟨x, hx, same⟩
    rw [ok.delete_absent absent]
    refine ⟨⟨xs, ok.same rfl rfl rfl⟩, fun x hx => ?_, rfl⟩
    change x ∈ s.timeEvents.contents at hx
    rw [contents_repr ok.repr] at hx
    obtain ⟨y, hy, rfl⟩ := List.mem_map.mp hx
    exact ⟨List.mem_map_of_mem hy, absent y hy⟩

theorem Ok.delete_keeps (ok : Ok s xs) {id : Int} {te : TimeEvent}
    (stored : te ∈ s.timeEvents.contents) (other : te.id ≠ id) :
    te ∈ (aeDeleteTimeEvent s id).2.timeEvents.contents := by
  rw [contents_repr ok.repr] at stored
  by_cases found : ∃ x ∈ xs, x.2.id = id
  · obtain ⟨⟨p, x⟩, hx, rfl⟩ := found
    obtain ⟨a, b, rfl⟩ := List.append_of_mem hx
    obtain ⟨l, eq, repr, -, -⟩ := ok.delete_found
    rw [eq]
    change te ∈ l.contents
    rw [contents_repr repr]
    simp only [List.map_append, List.map_cons, List.mem_append, List.mem_cons] at stored ⊢
    rcases stored with before | rfl | after
    · exact .inl before
    · exact absurd rfl other
    · exact .inr after
  · rw [ok.delete_absent fun x hx same => found ⟨x, hx, same⟩]
    change te ∈ s.timeEvents.contents
    rwa [contents_repr ok.repr]

theorem aeDeleteTimeEvent_counts (s : EventLoop) (id : Int) :
    (aeDeleteTimeEvent s id).2.timeEventNextId = s.timeEventNextId ∧
      (aeDeleteTimeEvent s id).2.tick = s.tick := by
  unfold aeDeleteTimeEvent
  split
  · exact ⟨rfl, rfl⟩
  · exact ⟨rfl, rfl⟩
  · simp only [log, store]
    split <;> exact ⟨rfl, rfl⟩

end Ops

/-- `t` is `s` after the timer calls `calls`, which wrote `seg` into the trace and put `new` in
front of what they left of the list. -/
structure Ran (calls : List (TimerCall Int)) (s t : EventLoop)
    (xs new : List (ℕ × TimeEvent)) (seg : List (Event Int)) : Prop where
  trace : t.trace = s.trace ++ seg
  user : ∀ e ∈ seg, UserEvent e
  ok : Ok t (new ++ xs.filter fun x => x.2.id ∉ deletedIn seg)
  made : new.map Prod.snd = ((createdIn seg).filter fun te => te.id ∉ deletedIn seg).reverse
  addrs : ∀ x ∈ new, s.timeEvents.fresh ≤ x.1
  fresh : s.timeEvents.fresh ≤ t.timeEvents.fresh
  nextId : t.timeEventNextId = s.timeEventNextId + (createdIn seg).length
  newIds : ∀ te ∈ createdIn seg, s.timeEventNextId ≤ te.id
  asked : ∀ id, id ∈ deletedIn seg → TimerCall.delete id ∈ calls
  gone : ∀ id, id ∈ deletedIn seg → id < t.timeEventNextId
  tick : t.tick = s.tick + (createdIn seg).length
  lastTime : t.lastTime = s.lastTime
  files : t.toFileTable = s.toFileTable

section Ran

variable {env : Env Int} {calls : List (TimerCall Int)} {s t : EventLoop}
  {xs new : List (ℕ × TimeEvent)} {seg : List (Event Int)}

theorem aeCreateTimeEvent_lastTime (env : Env Int) (s : EventLoop) (ms : Int) (proc data : ℕ)
    (fin : Option ℕ) : (aeCreateTimeEvent env s ms proc data fin).2.lastTime = s.lastTime := by
  simp only [aeCreateTimeEvent, log, store]
  split <;> rfl

theorem Ran.cons_create (ok : Ok s xs) (ms : Int) (proc data : ℕ) (fin : Option ℕ)
    (h : Ran calls (aeCreateTimeEvent env s ms proc data fin).2 t
      ((s.timeEvents.fresh, s.newTimeEvent env ms proc data fin) :: xs) new seg) :
    ∃ new', Ran (.create ms proc data fin :: calls) s t xs new'
      (.created (s.newTimeEvent env ms proc data fin) :: seg) := by
  obtain ⟨-, fresh, next, tick, trace, files⟩ := ok.create env ms proc data fin
  have deleted : deletedIn (.created (s.newTimeEvent env ms proc data fin) :: seg) =
      deletedIn seg := rfl
  have created : createdIn (.created (s.newTimeEvent env ms proc data fin) :: seg) =
      s.newTimeEvent env ms proc data fin :: createdIn seg := rfl
  refine ⟨new ++ [(s.timeEvents.fresh, s.newTimeEvent env ms proc data fin)].filter
    (fun x => x.2.id ∉ deletedIn seg), ?_, ?_, ?_, ?_, ?_, ?_, ?_, ?_, ?_, h.gone, ?_, ?_, ?_⟩
  · rw [h.trace, trace, List.append_assoc, List.singleton_append]
  · intro e he
    rcases List.mem_cons.mp he with rfl | later
    · trivial
    · exact h.user e later
  · have := h.ok
    rwa [← List.singleton_append, List.filter_append, ← List.append_assoc] at this
  · rw [created, deleted, List.map_append, h.made, ← List.singleton_append (l := createdIn seg),
      List.filter_append, List.reverse_append]
    congr 1
    by_cases kept : (s.newTimeEvent env ms proc data fin).id ∈ deletedIn seg
    · simp [kept]
    · simp [kept]
  · intro x hx
    rcases List.mem_append.mp hx with later | here
    · have := h.addrs x later
      omega
    · rw [List.mem_singleton.mp (List.mem_of_mem_filter here)]
  · have := h.fresh
    omega
  · rw [h.nextId, next, created, List.length_cons]
    push_cast
    omega
  · rw [created]
    intro te hte
    rcases List.mem_cons.mp hte with rfl | later
    · exact le_refl _
    · have := h.newIds te later
      omega
  · intro id hid
    exact List.mem_cons_of_mem _ (h.asked id hid)
  · rw [h.tick, tick, created, List.length_cons]
    omega
  · rw [h.lastTime, aeCreateTimeEvent_lastTime]
  · rw [h.files, files]

theorem Ran.cons_refused {id : Int}
    (h : Ran calls (log s (.deleted id AE_ERR)) t xs new seg) :
    Ran (.delete id :: calls) s t xs new (.deleted id AE_ERR :: seg) where
  trace := h.trace.trans (by simp [log])
  user e he := by
    rcases List.mem_cons.mp he with rfl | later
    · trivial
    · exact h.user e later
  ok := h.ok
  made := h.made
  addrs := h.addrs
  fresh := h.fresh
  nextId := h.nextId
  newIds := h.newIds
  asked id' hid := List.mem_cons_of_mem _ (h.asked id' hid)
  gone := h.gone
  tick := h.tick
  lastTime := h.lastTime
  files := h.files

theorem Ran.cons_delete {a b : List (ℕ × TimeEvent)} {p : ℕ} {te : TimeEvent}
    {l : LinkedStore TimeEvent} (ok : Ok s (a ++ (p, te) :: b))
    (fresh : l.fresh = s.timeEvents.fresh)
    (h : Ran calls (log { s with timeEvents := l } (.deleted te.id AE_OK)) t (a ++ b) new seg) :
    Ran (.delete te.id :: calls) s t (a ++ (p, te) :: b) new (.deleted te.id AE_OK :: seg) := by
  have deleted : deletedIn (.deleted te.id AE_OK :: seg) = te.id :: deletedIn seg := rfl
  have created : createdIn (.deleted te.id AE_OK :: seg) = createdIn seg := rfl
  have ids := ok.ids
  rw [List.map_append, List.map_cons, List.nodup_middle, List.nodup_cons, ← List.map_append] at ids
  have others : ∀ x ∈ a ++ b, x.2.id ≠ te.id := fun x hx same =>
    ids.1 (List.mem_map.mpr ⟨x, hx, same⟩)
  have below : te.id < s.timeEventNextId := (ok.range (p, te) (by simp)).2
  have kept : (a ++ (p, te) :: b).filter (fun x => x.2.id ∉ te.id :: deletedIn seg) =
      (a ++ b).filter fun x => x.2.id ∉ deletedIn seg := by
    rw [List.filter_append, List.filter_cons_of_neg (by simp), ← List.filter_append]
    refine List.filter_congr fun x hx => ?_
    simp [others x hx]
  have made : (createdIn seg).filter (fun x => x.id ∉ te.id :: deletedIn seg) =
      (createdIn seg).filter fun x => x.id ∉ deletedIn seg := by
    refine List.filter_congr fun x hx => ?_
    have low : s.timeEventNextId ≤ x.id := h.newIds x hx
    have other : x.id ≠ te.id := by omega
    simp [other]
  refine ⟨h.trace.trans (by simp [log]), ?_, ?_, ?_, ?_, ?_, h.nextId, h.newIds, ?_, ?_,
    h.tick, h.lastTime, h.files⟩
  · intro e he
    rcases List.mem_cons.mp he with rfl | later
    · trivial
    · exact h.user e later
  · rw [deleted, kept]
    exact h.ok
  · rw [created, deleted, made]
    exact h.made
  · intro x hx
    rw [← fresh]
    exact h.addrs x hx
  · rw [← fresh]
    exact h.fresh
  · rw [deleted]
    intro id hid
    rcases List.mem_cons.mp hid with rfl | later
    · exact List.mem_cons_self
    · exact List.mem_cons_of_mem _ (h.asked id later)
  · rw [deleted]
    intro id hid
    rcases List.mem_cons.mp hid with rfl | later
    · have grows : t.timeEventNextId = s.timeEventNextId + (createdIn seg).length := h.nextId
      omega
    · exact h.gone id later

end Ran

theorem runCalls_ran (env : Env Int) (calls : List (TimerCall Int)) {s : EventLoop}
    {xs : List (ℕ × TimeEvent)} (ok : Ok s xs) :
    ∃ new seg, Ran calls s (runCalls env s calls) xs new seg := by
  induction calls generalizing s xs with
  | nil =>
      refine ⟨[], [], ⟨by simp [runCalls], by simp, ?_, rfl, by simp, le_refl _, by simp [runCalls],
        by simp, by simp, by simp, by simp [runCalls], rfl, rfl⟩⟩
      simpa [runCalls] using ok
  | cons call calls ih =>
      cases call with
      | create ms proc data fin =>
          obtain ⟨new, seg, h⟩ := ih (ok.create env ms proc data fin).1
          obtain ⟨new', h'⟩ := h.cons_create ok ms proc data fin
          exact ⟨new', _, h'⟩
      | delete id =>
          by_cases stored : ∃ x ∈ xs, x.2.id = id
          · obtain ⟨⟨p, te⟩, hx, rfl⟩ := stored
            obtain ⟨a, b, rfl⟩ := List.append_of_mem hx
            obtain ⟨l, eq, repr, fresh, -⟩ := ok.delete_found
            have after : Ok (log { s with timeEvents := l } (.deleted te.id AE_OK)) (a ++ b) :=
              ok.sublist (List.Sublist.append_left (List.sublist_cons_self _ _) a) ok.undef repr rfl
            obtain ⟨new, seg, h⟩ := ih after
            have step : runCall env s (.delete te.id) =
                log { s with timeEvents := l } (.deleted te.id AE_OK) := congrArg Prod.snd eq
            refine ⟨new, .deleted te.id AE_OK :: seg, ?_⟩
            change Ran _ s (runCalls env (runCall env s (.delete te.id)) calls) _ new _
            rw [step]
            exact h.cons_delete ok fresh
          · have absent : ∀ x ∈ xs, x.2.id ≠ id := fun x hx same => stored ⟨x, hx, same⟩
            have after : Ok (log s (.deleted id AE_ERR)) xs :=
              ok.same rfl rfl rfl
            obtain ⟨new, seg, h⟩ := ih after
            have step : runCall env s (.delete id) = log s (.deleted id AE_ERR) :=
              congrArg Prod.snd (ok.delete_absent absent)
            refine ⟨new, .deleted id AE_ERR :: seg, ?_⟩
            change Ran _ s (runCalls env (runCall env s (.delete id)) calls) xs new _
            rw [step]
            exact h.cons_refused

end AeEventLoop.Ae
