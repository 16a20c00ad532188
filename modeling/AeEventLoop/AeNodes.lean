import AeEventLoop.AeSafe

/-! Where every timer of `ae.c` is, and every node. The ids given out so far are shared between the
list, the successful deletions and the callbacks that returned `AE_NOMORE`, and no id is in two of
them; the nodes that are allocated are the nodes of the list. Between two turns of a walk one node
may be marked, and while a finalizer runs one node is off the list and not freed yet. User code is
arbitrary, up to undefined behaviour. -/

namespace AeEventLoop.Ae

open LinkedStore

def liveIds (xs : List (ℕ × TimeEvent)) : List Int :=
  (xs.map fun x => x.2.id).filter fun id => id ≠ AE_DELETED_EVENT_ID

def Unmarked (xs : List (ℕ × TimeEvent)) : Prop := ∀ x ∈ xs, x.2.id ≠ AE_DELETED_EVENT_ID

def idsBelow (next : Int) : List Int := (List.range next.toNat).map Nat.cast

section Ids

variable {a b xs : List (ℕ × TimeEvent)} {p : ℕ} {te : TimeEvent}

theorem liveIds_append (a b : List (ℕ × TimeEvent)) :
    liveIds (a ++ b) = liveIds a ++ liveIds b := by
  simp [liveIds]

theorem liveIds_cons (unmarked : te.id ≠ AE_DELETED_EVENT_ID) :
    liveIds ((p, te) :: xs) = te.id :: liveIds xs := by
  simp [liveIds, unmarked]

theorem liveIds_cons_marked (marked : te.id = AE_DELETED_EVENT_ID) :
    liveIds ((p, te) :: xs) = liveIds xs := by
  simp [liveIds, marked]

theorem liveIds_perm (unmarked : te.id ≠ AE_DELETED_EVENT_ID) :
    (liveIds (a ++ (p, te) :: b)).Perm (te.id :: liveIds (a ++ b)) := by
  rw [liveIds_append, liveIds_append, liveIds_cons unmarked]
  exact List.perm_middle

theorem liveIds_of_unmarked (unmarked : Unmarked xs) : liveIds xs = xs.map fun x => x.2.id := by
  refine List.filter_eq_self.mpr fun id hid => ?_
  obtain ⟨x, hx, rfl⟩ := List.mem_map.mp hid
  exact decide_eq_true (unmarked x hx)

theorem liveIds_map {f : TimeEvent → TimeEvent} (same : ∀ te, (f te).id = te.id) :
    liveIds (xs.map fun x => (x.1, f x.2)) = liveIds xs := by
  simp [liveIds, Function.comp_def, same]

theorem idsBelow_succ {next : Int} (nonneg : 0 ≤ next) :
    idsBelow (next + 1) = idsBelow next ++ [next] := by
  obtain ⟨n, rfl⟩ := Int.eq_ofNat_of_zero_le nonneg
  have up : ((n : Int) + 1).toNat = n + 1 := by omega
  rw [idsBelow, idsBelow, up, List.range_succ, List.map_append, Int.toNat_natCast]
  rfl

end Ids

/-- The nodes of `s` are the list `xs`, and `held` besides; every id is in one place. -/
structure Nodes (held : Set ℕ) (s : EventLoop) (xs : List (ℕ × TimeEvent)) : Prop where
  undef : s.undef = false
  repr : Repr s.timeEvents xs
  allocated : s.timeEvents.allocated = {p | p ∈ xs.map Prod.fst} ∪ held
  apart : ∀ p ∈ held, p < s.timeEvents.fresh ∧ p ∉ xs.map Prod.fst
  next : 0 ≤ s.timeEventNextId
  account : (liveIds xs ++ (deletedIn s.trace ++ endedIn s.trace)).Perm (idsBelow s.timeEventNextId)

section Calls

variable {env : Env Int} {held : Set ℕ} {s t : EventLoop} {xs : List (ℕ × TimeEvent)}

theorem Nodes.same (nodes : Nodes held s xs) (undef : t.undef = s.undef)
    (timeEvents : t.timeEvents = s.timeEvents) (next : t.timeEventNextId = s.timeEventNextId)
    (deleted : deletedIn t.trace = deletedIn s.trace) (ended : endedIn t.trace = endedIn s.trace) :
    Nodes held t xs where
  undef := undef.trans nodes.undef
  repr := timeEvents ▸ nodes.repr
  allocated := timeEvents ▸ nodes.allocated
  apart := timeEvents ▸ nodes.apart
  next := next ▸ nodes.next
  account := by
    rw [deleted, ended, next]
    exact nodes.account

theorem Nodes.log (nodes : Nodes held s xs) {e : Event Int} (deleted : deletedIn [e] = [])
    (ended : endedIn [e] = []) : Nodes held (log s e) xs :=
  nodes.same rfl rfl rfl (by simp only [Ae.log, deletedIn_append, deleted, List.append_nil])
    (by simp only [Ae.log, endedIn_append, ended, List.append_nil])

theorem Nodes.create (nodes : Nodes held s xs) (env : Env Int) (ms : Int) (proc data : ℕ)
    (fin : Option ℕ) :
    Nodes held (aeCreateTimeEvent env s ms proc data fin).2
        ((s.timeEvents.fresh, s.newTimeEvent env ms proc data fin) :: xs) ∧
      (aeCreateTimeEvent env s ms proc data fin).2.timeEvents.fresh = s.timeEvents.fresh + 1 := by
  obtain ⟨l, pushed, repr, fresh, -⟩ := pushFront_repr nodes.repr
    (s.newTimeEvent env ms proc data fin)
  have eq : (aeCreateTimeEvent env s ms proc data fin).2 =
      { s with
        timeEventNextId := s.timeEventNextId + 1
        tick := s.tick + 1
        timeEvents := l
        trace := s.trace ++ [.created (s.newTimeEvent env ms proc data fin)] } := by
    simp only [aeCreateTimeEvent, store, pushed, Ae.log]
  have nonneg := nodes.next
  have unmarked : (s.newTimeEvent env ms proc data fin).id ≠ AE_DELETED_EVENT_ID := by
    simp only [Loop.newTimeEvent, AE_DELETED_EVENT_ID]
    omega
  rw [eq]
  refine ⟨⟨nodes.undef, repr, ?_, fun p hp => ?_, ?_, ?_⟩, fresh⟩
  · change l.allocated = _
    rw [pushFront_allocated pushed, nodes.allocated]
    ext p
    simp [or_assoc]
  · obtain ⟨below, off⟩ := nodes.apart p hp
    refine ⟨below.trans_le (by change _ ≤ l.fresh; omega), ?_⟩
    rw [List.map_cons, List.mem_cons, not_or]
    exact ⟨below.ne, off⟩
  · change 0 ≤ s.timeEventNextId + 1
    omega
  · change (liveIds _ ++ (deletedIn (s.trace ++ _) ++ endedIn (s.trace ++ _))).Perm
      (idsBelow (s.timeEventNextId + 1))
    rw [liveIds_cons unmarked, idsBelow_succ nonneg, deletedIn_append, endedIn_append]
    refine List.Perm.trans ?_ (List.perm_append_singleton _ _).symm
    have none : deletedIn [Event.created (s.newTimeEvent env ms proc data fin)] = ([] : List Int) ∧
        endedIn [.created (s.newTimeEvent env ms proc data fin)] = [] := ⟨rfl, rfl⟩
    rw [none.1, none.2, List.append_nil, List.append_nil]
    exact List.Perm.cons s.timeEventNextId nodes.account

theorem Nodes.delete (nodes : Nodes held s xs) (unmarked : Unmarked xs) (id : Int) :
    ∃ ys, ys.Sublist xs ∧ Nodes held (aeDeleteTimeEvent s id).2 ys ∧
      (aeDeleteTimeEvent s id).2.timeEvents.fresh = s.timeEvents.fresh := by
  by_cases stored : ∃ x ∈ xs, x.2.id = id
  · obtain ⟨⟨p, te⟩, hx, rfl⟩ := stored
    have found := search_repr nodes.repr fun x => decide (x.id = te.id)
    obtain ⟨⟨q, x⟩, first⟩ := Option.isSome_iff_exists.mp (List.find?_isSome.mpr
      ⟨(p, te), hx, decide_eq_true rfl⟩ :
      (xs.find? fun y => decide (y.2.id = te.id)).isSome)
    have same : x.id = te.id := by simpa using List.find?_some first
    rw [first, Option.map_some] at found
    obtain ⟨a, b, rfl⟩ := List.append_of_mem (List.mem_of_find?_eq_some first)
    obtain ⟨l₁, marked, repr₁, fresh₁⟩ := setVal_repr nodes.repr markDeleted
    obtain ⟨l₂, unlinked, repr₂, fresh₂, -⟩ := unlink_repr repr₁
    have off : ∀ y ∈ a ++ b, y.1 ≠ q := fun y hy => nodes.repr.addr_ne (x := (q, x)) hy
    have eq : (aeDeleteTimeEvent s te.id).2 =
        Ae.log { s with timeEvents := l₂.free q } (.deleted te.id AE_OK) := by
      simp only [aeDeleteTimeEvent, found, marked, Option.bind_some, unlinked, Option.map_some,
        store]
    have node : q ∉ held := fun hq => (nodes.apart q hq).2 (by simp)
    rw [eq]
    refine ⟨a ++ b, List.Sublist.append_left (List.sublist_cons_self _ _) a, ⟨nodes.undef,
      free_repr repr₂ off, ?_, fun p hp => ?_, nodes.next, ?_⟩, fresh₂.trans fresh₁⟩
    · change (l₂.free q).allocated = _
      rw [free_allocated, unlink_allocated unlinked, modify_allocated marked, nodes.allocated]
      ext r
      by_cases here : r = q
      · subst here
        have gone : r ∉ (a ++ b).map Prod.fst := fun listed => by
          obtain ⟨y, hy, is⟩ := List.mem_map.mp listed
          exact off y hy is
        simp only [List.map_append, List.mem_append] at gone
        simp only [List.map_append, List.map_cons, Set.mem_sdiff, Set.mem_union, Set.mem_ofPred_eq,
          List.mem_append, List.mem_cons, Set.mem_singleton_iff]
        tauto
      · simp only [List.map_append, List.map_cons, Set.mem_sdiff, Set.mem_union, Set.mem_ofPred_eq,
          List.mem_append, List.mem_cons, Set.mem_singleton_iff]
        tauto
    · obtain ⟨below, off'⟩ := nodes.apart p hp
      refine ⟨?_, fun listed => off' ?_⟩
      · change p < l₂.fresh
        omega
      · simp only [List.map_append, List.map_cons, List.mem_append, List.mem_cons] at listed ⊢
        exact listed.imp_right .inr
    · have live : x.id ≠ AE_DELETED_EVENT_ID := unmarked (q, x) (by simp)
      change (liveIds (a ++ b) ++ (deletedIn (s.trace ++ [Event.deleted te.id AE_OK]) ++
        endedIn (s.trace ++ [Event.deleted te.id AE_OK]))).Perm (idsBelow s.timeEventNextId)
      have perm := ((liveIds_perm live).symm.append_right _).trans nodes.account
      refine List.Perm.trans ?_ perm
      have moved : deletedIn (s.trace ++ [Event.deleted te.id AE_OK]) =
            deletedIn s.trace ++ [x.id] ∧
          endedIn (s.trace ++ [Event.deleted te.id AE_OK]) = endedIn s.trace := by
        simp [endedIn, same]
      rw [moved.1, moved.2, List.perm_iff_count]
      intro i
      simp only [List.count_append, List.count_cons, List.count_nil]
      omega
  · have absent : ∀ x ∈ xs, x.2.id ≠ id := fun x hx same => stored ⟨x, hx, same⟩
    rw [delete_absent nodes.repr absent]
    exact ⟨xs, List.Sublist.refl _, nodes.log (by simp [AE_ERR, AE_OK]) rfl, rfl⟩

/-- `t` is `s` after timer calls of user code, which left `ys` of `xs` and of what they created. -/
structure AfterCalls (held : Set ℕ) (s t : EventLoop) (xs ys : List (ℕ × TimeEvent)) : Prop where
  nodes : Nodes held t ys
  unmarked : Unmarked ys
  old : ∀ y ∈ ys, y ∈ xs ∨ s.timeEvents.fresh ≤ y.1
  fresh : s.timeEvents.fresh ≤ t.timeEvents.fresh

theorem Nodes.runCall (nodes : Nodes held s xs) (unmarked : Unmarked xs) (env : Env Int)
    (call : TimerCall Int) : ∃ ys, AfterCalls held s (runCall env s call) xs ys := by
  cases call with
  | create ms proc data fin =>
      obtain ⟨created, fresh⟩ := nodes.create env ms proc data fin
      refine ⟨_, created, fun y hy => ?_, fun y hy => ?_, by rw [Ae.runCall, fresh]; omega⟩
      · rcases List.mem_cons.mp hy with rfl | old
        · have nonneg := nodes.next
          simp only [Loop.newTimeEvent, AE_DELETED_EVENT_ID]
          omega
        · exact unmarked y old
      · rcases List.mem_cons.mp hy with rfl | old
        · exact .inr (le_refl _)
        · exact .inl old
  | delete id =>
      obtain ⟨ys, sub, deleted, fresh⟩ := nodes.delete unmarked id
      exact ⟨ys, deleted, fun y hy => unmarked y (sub.subset hy), fun y hy => .inl (sub.subset hy),
        fresh.ge⟩

theorem Nodes.runCalls (nodes : Nodes held s xs) (unmarked : Unmarked xs) (env : Env Int)
    (calls : List (TimerCall Int)) : ∃ ys, AfterCalls held s (runCalls env s calls) xs ys := by
  induction calls generalizing s xs with
  | nil => exact ⟨xs, nodes, unmarked, fun y hy => .inl hy, le_refl _⟩
  | cons call calls ih =>
      obtain ⟨ys, first⟩ := nodes.runCall unmarked env call
      obtain ⟨zs, rest⟩ := ih first.nodes first.unmarked
      refine ⟨zs, rest.nodes, rest.unmarked, fun z hz => ?_, first.fresh.trans rest.fresh⟩
      rcases rest.old z hz with kept | new
      · exact first.old z kept
      · exact .inr (first.fresh.trans new)

end Calls

section Turn

variable {env : Env Int} {c c' : Pass} {xs : List (ℕ × TimeEvent)} {p : ℕ} {te : TimeEvent}

theorem Nodes.split {s : EventLoop} (nodes : Nodes ∅ s xs) {cell : Cell TimeEvent}
    (here : s.timeEvents.cells p = some cell) :
    ∃ a b, xs = a ++ (p, cell.val) :: b ∧ cell.next = headAddr b := by
  have allocated : p ∈ s.timeEvents.allocated := mem_allocated.mpr ⟨cell, here⟩
  rw [nodes.allocated, Set.union_empty] at allocated
  obtain ⟨⟨q, v⟩, hx, rfl⟩ := List.mem_map.mp allocated
  obtain ⟨a, b, rfl⟩ := List.append_of_mem hx
  have stored := nodes.repr.cell a q v b rfl
  obtain rfl := Option.some.inj (here.symm.trans stored)
  exact ⟨a, b, rfl, rfl⟩

/-- What holds at the head of the walk: at most the node under the cursor is marked. -/
def OnNodes (c : Pass) : Prop :=
  c.loop.undef = false → ∃ xs, Nodes ∅ c.loop xs ∧
    ∀ x ∈ xs, x.2.id = AE_DELETED_EVENT_ID → c.te = some x.1

theorem OnNodes.of_unmarked (nodes : Nodes ∅ c.loop xs) (unmarked : Unmarked xs) : OnNodes c :=
  fun _ => ⟨xs, nodes, fun x hx marked => absurd marked (unmarked x hx)⟩

theorem OnNodes.advance (nodes : Nodes ∅ c.loop xs) (unmarked : Unmarked xs) (p : ℕ) :
    OnNodes (advance c p) := by
  unfold Ae.advance
  split
  · intro fine
    cases fine
  · exact .of_unmarked (c := { c with te := _ }) nodes unmarked

theorem sweep_onNodes {a b : List (ℕ × TimeEvent)} {cell : Cell TimeEvent}
    (nodes : Nodes ∅ c.loop (a ++ (p, cell.val) :: b)) (rest : Unmarked (a ++ b))
    (marked : cell.val.id = AE_DELETED_EVENT_ID) : OnNodes (sweep env c p cell) := by
  obtain ⟨l, unlinked, repr, fresh, -⟩ := unlink_repr nodes.repr
  have off : p ∉ (a ++ b).map Prod.fst := fun listed => by
    obtain ⟨y, hy, is⟩ := List.mem_map.mp listed
    exact nodes.repr.addr_ne (x := (p, cell.val)) hy is
  let s := log (store c.loop (c.loop.timeEvents.unlink p)) (.unlinked cell.val)
  have first : Nodes {p} s (a ++ b) := by
    have eq : s = log { c.loop with timeEvents := l } (.unlinked cell.val) := by
      simp only [s, store, unlinked]
    rw [eq]
    refine Nodes.log (s := { c.loop with timeEvents := l })
      ⟨nodes.undef, repr, ?_, fun q hq => ?_, nodes.next, ?_⟩ rfl rfl
    · change l.allocated = _
      rw [unlink_allocated unlinked, nodes.allocated]
      ext q
      simp only [List.map_append, List.map_cons, Set.mem_union, Set.mem_ofPred_eq, List.mem_append,
        List.mem_cons, Set.mem_singleton_iff, Set.mem_empty_iff_false]
      tauto
    · rw [Set.mem_singleton_iff.mp hq]
      refine ⟨?_, off⟩
      change p < l.fresh
      rw [fresh]
      exact nodes.repr.below (p, cell.val) (by simp)
    · have same : liveIds (a ++ (p, cell.val) :: b) = liveIds (a ++ b) := by
        rw [liveIds_append, liveIds_cons_marked marked, liveIds_append]
      have account := nodes.account
      rw [same] at account
      exact account
  obtain ⟨ys, after⟩ : ∃ ys, AfterCalls {p} s (runFinalizer env s cell.val) (a ++ b) ys := by
    unfold runFinalizer
    split
    · exact ⟨a ++ b, first, rest, fun y hy => .inl hy, le_refl _⟩
    · obtain ⟨ys, after⟩ := (first.log rfl rfl : Nodes {p} (log s (.finalized cell.val)) _).runCalls
        rest env (env.finalizerProc s.trace cell.val)
      exact ⟨ys, after.nodes, after.unmarked, after.old, after.fresh⟩
  have final : Nodes ∅ (sweep env c p cell).loop ys := by
    obtain ⟨below, gone⟩ := after.nodes.apart p rfl
    refine ⟨after.nodes.undef, free_repr after.nodes.repr fun y hy is =>
      gone (List.mem_map.mpr ⟨y, hy, is⟩), ?_, fun q hq => absurd hq (Set.notMem_empty q),
      after.nodes.next, after.nodes.account⟩
    change ((runFinalizer env s cell.val).timeEvents.free p).allocated = _
    rw [free_allocated, after.nodes.allocated]
    ext q
    by_cases here : q = p
    · subst here
      simp only [Set.mem_sdiff, Set.mem_union, Set.mem_ofPred_eq, Set.mem_singleton_iff,
        Set.mem_empty_iff_false]
      tauto
    · simp only [Set.mem_sdiff, Set.mem_union, Set.mem_ofPred_eq, Set.mem_singleton_iff,
        Set.mem_empty_iff_false]
      tauto
  exact .of_unmarked final after.unmarked

/-- Whatever a callback did, its node keeps its value as long as it is allocated. -/
theorem AfterCalls.node {s t : EventLoop} {ys : List (ℕ × TimeEvent)}
    (after : AfterCalls ∅ s t xs ys) (repr : Repr s.timeEvents xs) (listed : (p, te) ∈ xs)
    {cell : Cell TimeEvent} (here : t.timeEvents.cells p = some cell) : ∃ a b, ys = a ++ (p, te) :: b := by
  obtain ⟨a, b, rfl, -⟩ := after.nodes.split here
  have below := repr.below (p, te) listed
  rcases after.old (p, cell.val) (by simp) with old | new
  · have same := List.inj_on_of_nodup_map repr.nodup old listed rfl
    exact ⟨a, b, by rw [same]⟩
  · exact absurd new (not_le.mpr below)

theorem rearm_onNodes (nodes : Nodes ∅ c.loop xs) (unmarked : Unmarked xs) (p : ℕ) (te : TimeEvent)
    (retval : Int) : OnNodes (rearm env c p te retval) := by
  unfold rearm
  dsimp only
  generalize aeAddMillisecondsToNow (env.gettimeofday c.loop.tick) retval = t
  cases here : c.loop.timeEvents.cells p with
  | none =>
      rw [setVal_none here]
      intro fine
      unfold advance at fine
      split at fine
      · cases fine
      · cases fine
  | some cell =>
      obtain ⟨a, b, rfl, -⟩ := nodes.split here
      obtain ⟨l, changed, repr, fresh⟩ := setVal_repr nodes.repr fun te => te.setWhen t
      rw [changed]
      have moved : Nodes ∅ { c.loop with tick := c.loop.tick + 1, timeEvents := l }
          (a ++ (p, cell.val.setWhen t) :: b) := by
        refine ⟨nodes.undef, repr, ?_, by simp, nodes.next, ?_⟩
        · change l.allocated = _
          rw [modify_allocated changed, nodes.allocated]
          simp
        · have same : liveIds (a ++ (p, cell.val.setWhen t) :: b) =
              liveIds (a ++ (p, cell.val) :: b) := by
            simp [liveIds]
          rw [same]
          exact nodes.account
      refine .advance (c := { c with loop := _ }) (moved.log (e := .rearmed (te.setWhen t)) rfl rfl)
        (fun x hx => ?_) p
      rcases List.mem_append.mp hx with before | behind
      · exact unmarked x (by simp [before])
      · rcases List.mem_cons.mp behind with rfl | later
        · exact unmarked (p, cell.val) (by simp)
        · exact unmarked x (by simp [later])

theorem fire_onNodes (nodes : Nodes ∅ c.loop xs) (unmarked : Unmarked xs) (cursor : c.te = some p)
    (listed : (p, te) ∈ xs) : OnNodes (fire env c p te) := by
  have live := unmarked (p, te) listed
  let retval := (env.timeProc c.loop.trace te).retval
  let t := runCalls env (log c.loop (.called te)) (env.timeProc c.loop.trace te).calls
  have called : Nodes ∅ (log c.loop (.called te)) xs := nodes.log rfl rfl
  obtain ⟨ys, after⟩ : ∃ ys, AfterCalls ∅ (log c.loop (.called te)) t xs ys :=
    called.runCalls unmarked env (env.timeProc c.loop.trace te).calls
  have ran : runTimeProc env c.loop te = log t (.returned te retval) := rfl
  intro fine
  by_cases last : retval = AE_NOMORE
  · have eq : fire env c p te = { c with
        loop := store (log t (.returned te retval)) (t.timeEvents.setVal p markDeleted)
        processed := c.processed + 1 } := by
      simp only [fire, ran]
      exact if_neg (not_not.mpr last)
    rw [eq] at fine ⊢
    cases here : t.timeEvents.cells p with
    | none =>
        rw [setVal_none here] at fine
        cases fine
    | some cell =>
        obtain ⟨a, b, rfl⟩ := after.node called.repr listed here
        obtain ⟨l, marked, repr, fresh⟩ := setVal_repr after.nodes.repr markDeleted
        rw [marked]
        refine ⟨a ++ (p, markDeleted te) :: b, ⟨after.nodes.undef, repr, ?_, by simp,
          after.nodes.next, ?_⟩, fun x hx mark => ?_⟩
        · change l.allocated = _
          rw [modify_allocated marked, after.nodes.allocated]
          simp
        · change (liveIds (a ++ (p, markDeleted te) :: b) ++
            (deletedIn (t.trace ++ [Event.returned te retval]) ++
              endedIn (t.trace ++ [Event.returned te retval]))).Perm (idsBelow t.timeEventNextId)
          have moved : deletedIn (t.trace ++ [Event.returned te retval]) = deletedIn t.trace ∧
              endedIn (t.trace ++ [Event.returned te retval]) = endedIn t.trace ++ [te.id] := by
            simp [endedIn, last]
          have gone : liveIds (a ++ (p, markDeleted te) :: b) = liveIds (a ++ b) := by
            rw [liveIds_append, liveIds_cons_marked rfl, liveIds_append]
          have perm := ((liveIds_perm live).symm.append_right _).trans after.nodes.account
          refine List.Perm.trans ?_ perm
          rw [moved.1, moved.2, gone, List.perm_iff_count]
          intro i
          simp only [List.count_append, List.count_cons, List.count_nil]
          omega
        · rcases List.mem_append.mp hx with before | behind
          · exact absurd mark (after.unmarked x (by simp [before]))
          · rcases List.mem_cons.mp behind with rfl | later
            · exact cursor
            · exact absurd mark (after.unmarked x (by simp [later]))
  · have eq : fire env c p te = rearm env { c with
        loop := log t (.returned te retval), processed := c.processed + 1 } p te retval := by
      simp only [fire, ran]
      exact if_pos last
    rw [eq] at fine ⊢
    have returned : Nodes ∅ (log t (.returned te retval)) ys :=
      after.nodes.log rfl (by simp [endedIn, last])
    exact rearm_onNodes (c := { c with loop := _, processed := _ }) returned after.unmarked p te
      retval fine

theorem OnNodes.step (nodes : OnNodes c) {maxId : Int} (h : passStep env maxId c = some c') :
    OnNodes c' := by
  unfold passStep at h
  split at h
  · cases h
  · rename_i fine
    obtain ⟨xs, nodes, cursor⟩ := nodes (by simpa using fine)
    split at h
    · cases h
    next p here =>
      split at h
      · obtain rfl := Option.some.inj h
        intro fine'
        cases fine'
      next cell found =>
        obtain ⟨a, b, rfl, -⟩ := nodes.split found
        have listed : (p, cell.val) ∈ a ++ (p, cell.val) :: b := by simp
        have behind {x : ℕ × TimeEvent} (hx : x ∈ a ++ b) : x ∈ a ++ (p, cell.val) :: b :=
          List.Sublist.subset (List.Sublist.append_left (List.sublist_cons_self _ _) a) hx
        have reached : Nodes ∅ (Ae.log { c.loop with tick := c.loop.tick + 1 }
            (.reached cell.val (aeGetTime (env.gettimeofday c.loop.tick))))
            (a ++ (p, cell.val) :: b) :=
          nodes.same rfl rfl rfl (by simp [Ae.log]) (by simp [Ae.log, endedIn])
        dsimp only at h
        split_ifs at h with marked new due
        · obtain rfl := Option.some.inj h
          refine sweep_onNodes nodes (fun x hx mark => ?_) marked
          exact nodes.repr.addr_ne (x := (p, cell.val)) hx
            (Option.some.inj ((cursor x (behind hx) mark).symm.trans here))
        all_goals
          have unmarked : Unmarked (a ++ (p, cell.val) :: b) := fun x hx mark => by
            have same := Option.some.inj ((cursor x hx mark).symm.trans here)
            have is := List.inj_on_of_nodup_map nodes.repr.nodup hx listed same
            exact marked (by rw [is] at mark; exact mark)
        · obtain rfl := Option.some.inj h
          exact .advance nodes unmarked p
        · obtain rfl := Option.some.inj h
          exact fire_onNodes (c := { c with loop := _ }) reached unmarked here listed
        · obtain rfl := Option.some.inj h
          exact .advance (c := { c with loop := _ }) reached unmarked p

end Turn

section Runs

variable {env : Env Int} {s t : EventLoop} {xs : List (ℕ × TimeEvent)}

theorem start_nodes {mem : Memory} {setsize : Int}
    (h : aeCreateEventLoop env mem setsize = some s) : Nodes ∅ s [] := by
  obtain ⟨l, hl, rfl⟩ := Option.map_eq_some_iff.mp h
  obtain ⟨files, -, rfl⟩ := Option.map_eq_some_iff.mp hl
  refine ⟨rfl, repr_empty, ?_, by simp, le_refl _, List.Perm.refl _⟩
  ext p
  simp [LinkedStore.allocated, LinkedStore.empty]

theorem skew_nodes (env : Env Int) (nodes : Nodes ∅ s xs) (unmarked : Unmarked xs) :
    ∃ ys, Nodes ∅ (skew env s) ys ∧ Unmarked ys := by
  by_cases back : env.time s.tick < s.lastTime
  · obtain ⟨l, walked, repr, -⟩ := forEach_repr nodes.repr fun te => { te with when_sec := 0 }
    have eq : skew env s =
        { s with timeEvents := l, lastTime := env.time s.tick, tick := s.tick + 1 } := by
      simp only [skew, back, if_true, store, walked]
    rw [eq]
    refine ⟨_, ⟨nodes.undef, repr, ?_, by simp, nodes.next, ?_⟩, fun y hy => ?_⟩
    · change l.allocated = _
      rw [forEachFrom_allocated _ _ walked, nodes.allocated]
      simp
    · rw [liveIds_map (f := fun te => { te with when_sec := 0 }) fun _ => rfl]
      exact nodes.account
    · obtain ⟨x, hx, rfl⟩ := List.mem_map.mp hy
      exact unmarked x hx
  · have eq : skew env s = { s with lastTime := env.time s.tick, tick := s.tick + 1 } := by
      simp only [skew, back, if_false]
    rw [eq]
    exact ⟨xs, nodes.same rfl rfl rfl rfl rfl, unmarked⟩

theorem pass_nodes {fuel : ℕ} {n : Int} (nodes : Nodes ∅ s xs) (unmarked : Unmarked xs)
    (run : processTimeEvents env fuel s = some (t, n)) (fine : t.undef = false) :
    ∃ ys, Nodes ∅ t ys ∧ Unmarked ys := by
  obtain ⟨ys, skewed, plain⟩ := skew_nodes env nodes unmarked
  have start : OnNodes (passStart env s) := .of_unmarked skewed plain
  obtain ⟨c, walked, eq⟩ := Option.map_eq_some_iff.mp run
  obtain ⟨rfl, rfl⟩ := Prod.mk.inj eq
  obtain ⟨final, exit, -⟩ := WhileLoop.run_invariant OnNodes (fun _ => True)
    (fun _ _ inv _ body => inv.step body) (fun _ _ => trivial) start walked
  obtain ⟨zs, after, cursor⟩ := final fine
  refine ⟨zs, after, fun z hz mark => ?_⟩
  -- a marked node is under the cursor, and the walk is not left there
  rw [passStep, if_neg (by simp [fine]), cursor z hz mark] at exit
  dsimp only at exit
  split at exit
  · cases exit
  · split_ifs at exit

theorem run_nodes (run : Run env (fun _ _ => True) s) (fine : s.undef = false) :
    ∃ xs, Nodes ∅ s xs ∧ Unmarked xs := by
  revert fine
  refine WhileLoop.Reach.invariant
    (fun s => s.undef = false → ∃ xs, Nodes ∅ s xs ∧ Unmarked xs) ?_ ?_ run
  · rintro s ⟨mem, setsize, h⟩ -
    exact ⟨[], start_nodes h, by simp [Unmarked]⟩
  · intro s op t ih _ step fine
    cases step with
    | timer call =>
        obtain ⟨xs, nodes, unmarked⟩ := ih (runCall_defined fine)
        obtain ⟨ys, after⟩ := nodes.runCall unmarked env call
        exact ⟨ys, after.nodes, after.unmarked⟩
    | file op =>
        obtain ⟨xs, nodes, unmarked⟩ := ih fine
        exact ⟨xs, nodes.same rfl rfl rfl rfl rfl, unmarked⟩
    | resize mem setsize =>
        obtain ⟨undef, timers, next⟩ := aeResizeSetSize_timers mem s setsize
        obtain ⟨xs, nodes, unmarked⟩ := ih (undef.symm.trans fine)
        have trace : (aeResizeSetSize mem s setsize).2.trace = s.trace := by
          unfold aeResizeSetSize
          split_ifs <;> rfl
        exact ⟨xs, nodes.same undef timers next (by rw [trace]) (by rw [trace]), unmarked⟩
    | pass h =>
        obtain ⟨xs, nodes, unmarked⟩ := ih (pass_defined h fine)
        exact pass_nodes nodes unmarked h fine

end Runs

/-- Three timers and a pass in which one is deleted by a callback that ends. -/
theorem edited_pass : ∃ s, Run editingEnv (fun _ _ => True) s ∧ s.undef = false ∧
    deletedIn s.trace = [1] ∧ endedIn s.trace = [2] ∧ s.timeEventNextId = 5 := by
  have outcome : (processTimeEvents editingEnv 8 edited).map (fun r => (r.1.undef,
      deletedIn r.1.trace, endedIn r.1.trace, r.1.timeEventNextId)) =
      some (false, [1], [2], 5) := by decide
  obtain ⟨⟨t, n⟩, h, eq⟩ := Option.map_eq_some_iff.mp outcome
  simp only [Prod.mk.injEq] at eq
  exact ⟨t, .move edited_run trivial (.pass h), eq⟩

/-- Between two operations every allocated node is on the list, so none is lost, and every node of
the list is allocated. -/
theorem allocated_iff_listed {env : Env Int} {s : EventLoop} (run : Run env (fun _ _ => True) s)
    (fine : s.undef = false) :
    ∃ xs, Repr s.timeEvents xs ∧
      ∀ p, (s.timeEvents.cells p).isSome ↔ p ∈ xs.map Prod.fst := by
  obtain ⟨xs, nodes, -⟩ := run_nodes run fine
  refine ⟨xs, nodes.repr, fun p => ?_⟩
  have allocated := Set.ext_iff.mp nodes.allocated p
  simpa [LinkedStore.allocated] using allocated

theorem allocated_iff_listed_edited : ∃ s, Run editingEnv (fun _ _ => True) s ∧ s.undef = false ∧
    deletedIn s.trace = [1] ∧ ∃ xs, Repr s.timeEvents xs ∧
      ∀ p, (s.timeEvents.cells p).isSome ↔ p ∈ xs.map Prod.fst := by
  obtain ⟨s, run, fine, deleted, -⟩ := edited_pass
  exact ⟨s, run, fine, deleted, allocated_iff_listed run fine⟩

/-- Every id that was given out is in one place: pending, deleted, or ended. -/
theorem ids_conserved {env : Env Int} {s : EventLoop} (run : Run env (fun _ _ => True) s)
    (fine : s.undef = false) :
    (s.timeEvents.contents.map TimeEvent.id ++ (deletedIn s.trace ++ endedIn s.trace)).Perm
      (idsBelow s.timeEventNextId) := by
  obtain ⟨xs, nodes, unmarked⟩ := run_nodes run fine
  rw [contents_repr nodes.repr, List.map_map]
  have account := nodes.account
  rw [liveIds_of_unmarked unmarked] at account
  exact account

theorem ids_conserved_edited : ∃ s, Run editingEnv (fun _ _ => True) s ∧ s.undef = false ∧
    (s.timeEvents.contents.map TimeEvent.id ++ ([1] ++ [2])).Perm (idsBelow 5) := by
  obtain ⟨s, run, fine, deleted, ended, next⟩ := edited_pass
  refine ⟨s, run, fine, ?_⟩
  rw [← deleted, ← ended, ← next]
  exact ids_conserved run fine

end AeEventLoop.Ae
