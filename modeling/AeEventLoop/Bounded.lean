import AeEventLoop.AeSafe
import AeEventLoop.Ae2Pass
import AeEventLoop.Ae2Pops
import AeEventLoop.Ae3Survive

/-! How many callbacks one pass calls. `ae.c` remembers the highest id issued before the pass and
leaves newer timers alone. `ae2.cpp` and `ae3.cpp` have that test commented out: what keeps a new
timer from being called in the pass that creates it is only that its deadline lies behind the one
reading the pass compares with, which a delay of zero does not ensure. -/

namespace AeEventLoop

/-- The callbacks called belong to timers pending when the pass began, no two to the same one. -/
structure Bounded {κ : Type} (pending : Multiset TimeEvent) (seg : List (Event κ)) : Prop where
  once : ((calledIn seg).map TimeEvent.id).Nodup
  found : ∀ te ∈ calledIn seg, te.id ∈ pending.map TimeEvent.id
  created : ∀ te ∈ calledIn seg, ∀ x ∈ createdIn seg, x.id ≠ te.id
  count : (calledIn seg).length ≤ pending.card

theorem Bounded.of_found {κ : Type} {pending : Multiset TimeEvent} {seg : List (Event κ)} {next : Int}
    (once : ((calledIn seg).map TimeEvent.id).Nodup)
    (found : ∀ te ∈ calledIn seg, te.id ∈ pending.map TimeEvent.id)
    (old : ∀ te ∈ pending, te.id < next) (new : ∀ x ∈ createdIn seg, next ≤ x.id) :
    Bounded pending seg where
  once := once
  found := found
  created te called x made same := by
    obtain ⟨y, hy, eq⟩ := Multiset.mem_map.mp (found te called)
    have := old y hy
    have := new x made
    omega
  count := by
    have sub : (((calledIn seg).map TimeEvent.id : List Int) : Multiset Int) ≤
        pending.map TimeEvent.id := by
      refine (Multiset.le_iff_subset (Multiset.coe_nodup.mpr once)).mpr fun id hid => ?_
      obtain ⟨te, called, rfl⟩ := List.mem_map.mp (Multiset.mem_coe.mp hid)
      exact found te called
    simpa using Multiset.card_le_card sub

namespace Ae

variable {env : Env Int} {s : EventLoop}

/-- The pass touches no freed memory, is bounded at each of its turns, and returns. -/
structure BoundedPass (env : Env Int) (s : EventLoop) : Prop where
  defined : ∀ c, PassVisits env s c → c.loop.undef = false
  calls : ∀ c, PassVisits env s c → ∃ seg, c.loop.trace = s.trace ++ seg ∧
    Bounded s.timeEvents.contents seg
  returns : ∃ fuel r, processTimeEvents env fuel s = some r

/-- In `ae.c` nothing but freed memory can keep a pass from being bounded. -/
theorem boundedPass_iff {xs : List (ℕ × TimeEvent)} (ok : Ok s xs) :
    BoundedPass env s ↔
      ∀ c, PassVisits env s c → SparesSelf env (s.timeEventNextId - 1) c ∧ SparesNext env c := by
  refine ⟨fun bounded => (walk_allocated_iff env ok).mp bounded.defined, fun safe => ?_⟩
  obtain ⟨fuel, t, n, -, -, -, run, -⟩ := safe_pass env ok safe
  refine ⟨(walk_allocated_iff env ok).mpr safe, fun c met => ?_, fuel, (t, n), run⟩
  obtain ⟨ys, found, ok', start⟩ := OnList.start env ok
  obtain ⟨ids, low⟩ := pending_nodup ok' found ok
  obtain ⟨todo, phase, seg, walk⟩ := WhileLoop.visits_invariant
    (fun c => ∃ todo phase seg, OnList env s ys c todo phase seg)
    (fun c => SparesSelf env (s.timeEventNextId - 1) c ∧ SparesNext env c)
    (fun a b on spares body => by
      obtain ⟨todo, phase, seg, walk⟩ := on
      obtain ⟨todo', phase', seg', walk', -⟩ := walk.step ids low spares body
      exact ⟨todo', phase', seg', walk'⟩)
    safe ⟨ys, 0, [], start⟩ met
  have stored : s.timeEvents.contents = xs.map Prod.snd := LinkedStore.contents_repr ok.repr
  refine ⟨seg, walk.trace, .of_found walk.tally.once ?_ ?_ walk.tally.newIds⟩
  · intro te called
    have node := walk.tally.called te called
    rw [found] at node
    have listed : te.id ∈ (pending env s xs).map TimeEvent.id := List.mem_map_of_mem node
    rw [pending_ids] at listed
    rw [stored, Multiset.map_coe, Multiset.mem_coe, List.map_map]
    exact listed
  · intro te hte
    rw [stored, Multiset.mem_coe] at hte
    obtain ⟨x, hx, rfl⟩ := List.mem_map.mp hte
    exact (ok.range x hx).2

end Ae

namespace Ae2

open PriorityQueue

variable {Q : Type} [PriorityQueue Q TimeEvent Earlier] {env : Env Int} {s t : EventLoop Q}

def pending (s : EventLoop Q) : Multiset TimeEvent :=
  (elems s.timeMinHead).filter fun te => te.id ∉ s.setDelTimeId

/-- The pass is bounded at each of its turns, and returns. -/
structure BoundedPass (env : Env Int) (s : EventLoop Q) : Prop where
  calls : ∀ c, PassVisits env s c → ∃ seg, c.1.trace = s.trace ++ seg ∧ Bounded (pending s) seg
  returns : ∃ fuel r, processTimeEvents env fuel s = some r

theorem pending_below (ok : IdsOk s) : ∀ te ∈ pending s, te.id < s.timeEventNextId :=
  fun te hte => ok.below te (Multiset.mem_filter.mp hte).1

theorem boundedPass_of_defers (ok : IdsOk s)
    (defers : ∀ c, PassVisits env s c → Defers env s c.1) (settle : FinalizersSettle env s) :
    BoundedPass env s := by
  obtain ⟨fuel, c, run, -, -⟩ := defers_returns ok defers settle
  refine ⟨fun c met => ?_, fuel, c, run⟩
  obtain ⟨seg, passing⟩ := defers_visits ok defers met
  obtain ⟨seg', serving⟩ := visits_serving met
  obtain rfl : seg = seg' := List.append_cancel_left (passing.trace.symm.trans serving.trace)
  refine ⟨seg, passing.trace,
    .of_found (passing.called_nodup ok) ?_ (pending_below ok) serving.newIds⟩
  intro te called
  obtain ⟨pre, occurs⟩ := exists_occurs (mem_calledIn.mp called)
  have live : te.id ∉ s.setDelTimeId := fun marked =>
    passing.calledLive pre te occurs (Finset.mem_union_left _ marked)
  exact Multiset.mem_map_of_mem _ (Multiset.mem_filter.mpr ⟨passing.called_mem called, live⟩)

/-- User code that deletes no timer, and finalizers that do nothing. -/
structure KeepsAll (env : Env Int) : Prop where
  callbacks : ∀ tr te id, .delete id ∉ (env.timeProc tr te).calls
  finalizers : ∀ tr te, env.finalizerProc tr te = []

section KeepsAll

variable {now : Int × Int} {te x : TimeEvent} {n m : Int}

omit [PriorityQueue Q TimeEvent Earlier] in
theorem KeepsAll.turnCalls_delete (keeps : KeepsAll env) (id : Int) :
    .delete id ∉ turnCalls env now s te := by
  rw [turnCalls]
  split_ifs
  · rw [keeps.finalizers]
    exact List.not_mem_nil
  · exact List.not_mem_nil
  · exact keeps.callbacks _ _ id
  · exact List.not_mem_nil

omit [PriorityQueue Q TimeEvent Earlier] in
theorem KeepsAll.turnCalls_marked (keeps : KeepsAll env) (marked : te.id ∈ s.setDelTimeId) :
    turnCalls env now s te = [] := by
  rw [turnCalls, if_pos marked, keeps.finalizers, ite_self]

theorem KeepsAll.settles (keeps : KeepsAll env) : FinalizersSettle env s := by
  refine .inl fun c _ te _ marked _ => ?_
  rw [keeps.turnCalls_marked marked]
  rfl

/-- Where nothing is deleted, what is stored stays until it is called or its old tombstone is
honoured. -/
theorem KeepsAll.serves (keeps : KeepsAll env) {w : EventLoop Q} {c : EventLoop Q × Int}
    {tick : ℕ} (met : WhileLoop.Visits (passStep env now) ({ w with tick := tick }, n) c) :
    ∃ seg, Serving now w c.1 seg ∧ c.1.setDelTimeId = w.setDelTimeId := by
  refine WhileLoop.visits_invariant (fun c : EventLoop Q × Int => ∃ seg, Serving now w c.1 seg ∧
    c.1.setDelTimeId = w.setDelTimeId) (fun _ => True) ?_ (fun _ _ => trivial)
    ⟨[], Serving.start now w tick, rfl⟩ met
  rintro ⟨a, i⟩ ⟨b, j⟩ ⟨seg, serving, same⟩ - body
  obtain ⟨te, new, serving', asked⟩ := serving.step body
  have none : deletedIn new = [] := List.eq_nil_iff_forall_not_mem.mpr fun id hid =>
    keeps.turnCalls_delete id (asked id hid)
  refine ⟨_, serving', ?_⟩
  rw [serving'.dels, deletedIn_append, none, List.append_nil, ← serving.dels]
  exact same

theorem KeepsAll.called_later (keeps : KeepsAll env) (bounded : BoundedPass env s)
    {c : EventLoop Q × Int} (met : PassVisits env s c)
    (body : passStep env (snapshot env s) c = some (t, m)) (stored : x ∈ elems t.timeMinHead)
    (due : Due x.deadline (snapshot env s)) (live : x.id ∉ s.setDelTimeId) :
    ∃ old seg, t.trace = s.trace ++ old ∧ Bounded (pending s) (old ++ seg) ∧ x ∈ calledIn seg := by
  obtain ⟨fuel, last, run⟩ := bounded.returns
  have ends : PassVisits env s last := WhileLoop.run_visits run
  have exit := WhileLoop.run_left run
  have later := WhileLoop.visits_exit (met.tail body) ends exit
  obtain ⟨seg, serving, same⟩ := @serves _ _ _ _ _ keeps t last t.tick later
  obtain ⟨old, before, unmarked⟩ := keeps.serves (met.tail body)
  obtain ⟨whole, trace, bound⟩ := bounded.calls last ends
  have split : whole = old ++ seg := by
    rw [serving.trace, before.trace, List.append_assoc] at trace
    exact (List.append_cancel_left trace).symm
  refine ⟨old, seg, before.trace, split ▸ bound, ?_⟩
  rcases serving.kept x stored with left | called | marked
  · exact absurd due (passStep_none_due exit x left)
  · exact called
  · rw [same, unmarked] at marked
    exact absurd marked live

/-- Where nothing is deleted, a bounded pass sets nothing to a deadline it has reached. -/
theorem defers_of_bounded (onward : Onward env) (ok : IdsOk s) (keeps : KeepsAll env)
    (issued : ∀ id ∈ s.setDelTimeId, id < s.timeEventNextId) (bounded : BoundedPass env s)
    {c : EventLoop Q × Int} (met : PassVisits env s c) : Defers env s c.1 := by
  obtain ⟨tick, next⟩ := visits_grow met
  obtain ⟨segC, servingC, unmarked⟩ := keeps.serves met
  have fires : ∀ te, top c.1.timeMinHead = some te → te.id ∉ c.1.setDelTimeId →
      Due te.deadline (snapshot env s) → passStep env (snapshot env s) c =
        some (fire env (log c.1 (.reached te (snapshot env s))) te, c.2 + 1) := by
    intro te htop live due
    simp only [passStep, htop, if_neg live, if_pos due]
  refine ⟨fun te htop d hd early => ?_, fun te htop live due more early => ?_,
    fun te htop marked d hd => ?_⟩
  · by_cases marked : te.id ∈ c.1.setDelTimeId
    · rw [keeps.turnCalls_marked marked] at hd
      cases hd
    by_cases due : Due te.deadline (snapshot env s)
    · obtain ⟨user, back, gone, again, turn, -⟩ := fire_turn env (snapshot env s) htop
      obtain rfl := turn.exact_of_onward onward tick due
      rw [turnCalls, if_neg marked, if_pos due, ← turn.deadlines] at hd
      obtain ⟨x, made, rfl⟩ := List.mem_map.mp hd
      have stored : x ∈ elems (fire env (log c.1 (.reached gone (snapshot env s))) gone).timeMinHead := by
        rw [turn.elems_of_exact]
        exact Multiset.mem_add.mpr (.inr (Multiset.mem_add.mpr (.inl made)))
      have new := next.trans (turn.newIds x made).1
      have live : x.id ∉ s.setDelTimeId := fun marked => absurd (issued x.id marked) (not_lt.mpr new)
      obtain ⟨old, seg, -, bound, called⟩ :=
        keeps.called_later bounded met (fires gone htop marked due) stored early live
      obtain ⟨y, hy, same⟩ := Multiset.mem_map.mp (bound.found x (by simp [called]))
      have := pending_below ok y hy
      omega
    · rw [turnCalls, if_neg marked, if_neg due] at hd
      cases hd
  · obtain ⟨user, back, gone, again, turn, -, last, rearmed⟩ := fire_turn env (snapshot env s) htop
    obtain ⟨x, hx⟩ := List.exists_mem_of_ne_nil again fun none => more (last.mp none)
    have is := rearmed x hx
    have stored : x ∈ elems (fire env (log c.1 (.reached te (snapshot env s))) te).timeMinHead := by
      rw [turn.elems_eq]
      exact Multiset.mem_add.mpr (.inl hx)
    have sameId : x.id = te.id := by rw [is, TimeEvent.setWhen_id]
    have early' : Due x.deadline (snapshot env s) := by rwa [is, TimeEvent.setWhen_deadline]
    have live' : x.id ∉ s.setDelTimeId := by rwa [sameId, ← unmarked]
    obtain ⟨old, seg, trace, bound, called⟩ :=
      keeps.called_later bounded met (fires te htop live due) stored early' live'
    rw [turn.trace, servingC.trace, List.append_assoc] at trace
    have split := List.append_cancel_left trace
    have once := bound.once
    rw [calledIn_append, List.map_append] at once
    refine List.disjoint_of_nodup_append once ?_ (List.mem_map_of_mem called)
    rw [sameId, ← split]
    exact List.mem_map_of_mem (by simp)
  · rw [keeps.turnCalls_marked marked] at hd
    cases hd

end KeepsAll

end Ae2

namespace Ae3

open TimeEventMap

variable {env : Env TimeEvent} {s : EventLoop} {c c' : Pass} {seg : List (Event TimeEvent)}

/-- The pass keeps its iterators valid, is bounded at each of its turns, and returns. -/
structure BoundedPass (env : Env TimeEvent) (s : EventLoop) : Prop where
  defined : ∀ c, PassVisits env s c → c.loop.undef = false
  calls : ∀ c, PassVisits env s c → ∃ seg, c.loop.trace = s.trace ++ seg ∧
    Bounded (timers s.timeEventMap) seg
  returns : ∃ fuel r, processTimeEvents env fuel s = some r

theorem clear_called (sound : Sound s) (spares : ∀ c, PassVisits env s c → SparesRunning env c)
    (clear : ∀ c, PassVisits env s c → LandsClear env s c) (met : PassVisits env s c) :
    ∃ seg, Walking env s c seg ∧ ∀ x ∈ calledIn seg, x ∈ timers s.timeEventMap := by
  obtain ⟨seg, walk, called, -⟩ := WhileLoop.visits_invariant
    (fun c => ∃ seg, Walking env s c seg ∧ (∀ x ∈ calledIn seg, x ∈ timers s.timeEventMap) ∧
      remaining env s c ⊆ timers s.timeEventMap)
    (fun c => SparesRunning env c ∧ LandsClear env s c) (by
      rintro a b ⟨seg, walk, called, left⟩ ⟨spared, lands⟩ body
      cases walk.turn body with
      | enter cursor low =>
          exact ⟨seg, walk.enter cursor low, called, fun x hx => left (enter_remaining cursor _ hx)⟩
      | fire cursor here =>
          obtain ⟨user, again, fired⟩ := walk.fire_spared cursor here spared
          have fewer := walk.fired_remaining cursor here fired lands
          refine ⟨_, walk.fired cursor here fired, fun x hx => ?_,
            fun x hx => left (fewer (List.mem_cons_of_mem _ hx))⟩
          rw [calledIn_append, List.mem_append] at hx
          rcases hx with before | now
          · exact called x before
          · simp only [List.cons_append, calledIn_cons, calledIn_append, Event.called?,
              calledIn_of_user fired.ran.user, calledIn_map_rearmed, Option.toList_some,
              Option.toList_none, List.append_nil, List.mem_singleton] at now
            rw [now]
            exact left (fewer List.mem_cons_self)
      | leave cursor =>
          exact ⟨seg, walk.leave cursor, called, fun x hx => left (leave_remaining cursor hx)⟩)
    (fun c met => ⟨spares c met, clear c met⟩)
    ⟨[], .start sound, by simp, fun x hx => (mem_remaining.mp hx).1⟩ met
  exact ⟨seg, walk, called⟩

theorem boundedPass_of_clear (sound : Sound s)
    (clear : ∀ c, PassVisits env s c → SparesRunning env c ∧ LandsClear env s c) :
    BoundedPass env s := by
  have spares : ∀ c, PassVisits env s c → SparesRunning env c := fun c met => (clear c met).1
  have lands : ∀ c, PassVisits env s c → LandsClear env s c := fun c met => (clear c met).2
  obtain ⟨fuel, t, n, run, -⟩ := clear_pass_returns sound spares lands
  refine ⟨(iterators_valid_iff sound).mpr spares, fun c met => ?_, fuel, (t, n), run⟩
  obtain ⟨seg, walk, called⟩ := clear_called sound spares lands met
  refine ⟨seg, walk.trace, .of_found walk.once (fun te hte => ?_) sound.below
    fun x hx => (walk.newIds x hx).1⟩
  exact Multiset.mem_map_of_mem _ (called te hte)

theorem Hoarding.ahead_step (creates : CreatesOnly env) (walk : Hoarding env s c seg)
    (body : passStep env (lNow env s) c = some c') {x : TimeEvent} (created : x ∈ createdIn seg)
    (reach : x ∈ calledIn seg ∨ c.cursor.Ahead x) :
    ∃ new, Hoarding env s c' (seg ++ new) ∧
      (x ∈ calledIn (seg ++ new) ∨ c'.cursor.Ahead x) := by
  obtain ⟨new, walk', -, -⟩ := walk.step creates body
  refine ⟨new, walk', ?_⟩
  rw [calledIn_append]
  rcases reach with called | ahead
  · exact .inl (List.mem_append_left _ called)
  cases walk.turn body with
  | enter cursor low =>
      rw [cursor] at ahead
      exact .inr (ahead_first walk.map (walk.stored created) ahead)
  | fire cursor here =>
      obtain ⟨user, again, fired⟩ := walk.fire_spared cursor here (creates.spares c)
      have kept := walk'.stored (x := x) (by simp [created])
      rcases walk.ahead_fired cursor here fired (walk.stored created) kept ahead with rfl | still
      · have same := walk'.trace
        rw [fired.trace, walk.trace, List.append_assoc] at same
        rw [← List.append_cancel_left (List.append_cancel_left same)]
        exact .inl (by simp)
      · exact .inr still
  | leave cursor =>
      rw [cursor] at ahead
      exact .inr (ahead_after walk.map (walk.stored created) ahead)

theorem Hoarding.lands_ahead (creates : CreatesOnly env) (walk : Hoarding env s c seg)
    (harm : ¬ LandsClear env s c) :
    ∃ c' seg' x, passStep env (lNow env s) c = some c' ∧ Hoarding env s c' seg' ∧
      x ∈ createdIn seg' ∧ c'.cursor.Ahead x ∧ timeKey x ≤ lNow env s := by
  simp only [LandsClear, not_forall, not_or, not_lt] at harm
  obtain ⟨k, id, te, cursor, found, key, made, low, high⟩ := harm
  obtain ⟨here, rfl⟩ := KeyedSet.find?_eq_some.mp found
  have body : passStep env (lNow env s) c = some (fire env c k te) := by
    simp only [passStep, walk.undef, cursor, found, Bool.false_eq_true, if_false]
  obtain ⟨user, again, fired⟩ := walk.fire_spared cursor here (creates.spares c)
  obtain ⟨x, hx, rfl⟩ := (mem_createdKeys fired.ran key).mp made
  obtain ⟨new, walk', -, -⟩ := walk.step creates body
  have same := walk'.trace
  rw [fired.trace, walk.trace, List.append_assoc] at same
  have wrote := List.append_cancel_left (List.append_cancel_left same)
  have created : x ∈ createdIn (seg ++ new) := by
    rw [← wrote]
    simp [hx]
  refine ⟨_, _, x, body, walk', created, ?_, high⟩
  have fresh : c.loop.timeEventNextId ≤ x.id := (fired.ran.newIds x hx).1
  have old := walk.below te (walk.map.mem_bucket_iff.mp here).1
  rw [fired.cursor]
  refine ahead_next walk'.map (walk'.stored created) ?_
  rcases lt_or_eq_of_le low with more | same
  · exact .inl more
  · exact .inr ⟨same.symm, by omega⟩

/-- Where nothing is deleted, a bounded pass has nothing new put in its way. -/
theorem clear_of_bounded (creates : CreatesOnly env) (sound : Sound s)
    (bounded : BoundedPass env s) (met : PassVisits env s c) : LandsClear env s c := by
  by_contra harm
  obtain ⟨segC, walkC⟩ := visits_hoarding creates sound met
  obtain ⟨d, segD, x, body, walkD, created, ahead, low⟩ := walkC.lands_ahead creates harm
  obtain ⟨fuel, r, run⟩ := bounded.returns
  obtain ⟨last, walked, -⟩ := Option.map_eq_some_iff.mp run
  have ends : PassVisits env s last := WhileLoop.run_visits walked
  have exit := WhileLoop.run_left walked
  obtain ⟨seg, walk, made, reach⟩ := WhileLoop.visits_invariant
    (fun c => ∃ seg, Hoarding env s c seg ∧ x ∈ createdIn seg ∧
      (x ∈ calledIn seg ∨ c.cursor.Ahead x)) (fun _ => True) (by
      rintro a b ⟨seg, walk, made, reach⟩ - body
      obtain ⟨new, walk', reach'⟩ := walk.ahead_step creates body made reach
      exact ⟨_, walk', by simp [made], reach'⟩)
    (fun _ _ => trivial) ⟨segD, walkD, created, .inr ahead⟩
    (WhileLoop.visits_exit (met.tail body) ends exit)
  obtain ⟨seg', trace, bound⟩ := bounded.calls last ends
  obtain rfl : seg = seg' := List.append_cancel_left (walk.trace.symm.trans trace)
  rcases reach with called | still
  · exact bound.created x called x made rfl
  · obtain ⟨mit, cursor, past⟩ := walk.exit exit
    rw [cursor] at still
    cases mit with
    | none => exact still
    | some k =>
        have reach : k ≤ timeKey x := still
        have := past k rfl
        omega

end Ae3

/-- When a pass calls no timer twice and none that it created, and so returns. In `ae.c` that is
whenever it touches no freed memory; in `ae2.cpp` if it sets nothing to a deadline it has reached and
its finalizers do not go on creating timers and deleting them, and in `ae3.cpp` if it puts nothing in
its own way. Without deletes these are the only cases. -/
theorem pass_bounded_iff {Q : Type} [PriorityQueue Q TimeEvent Ae2.Earlier] :
    (∀ (env : Env Int) (s : Ae.EventLoop), Ae.Run env (fun _ _ => True) s → s.undef = false →
      (Ae.BoundedPass env s ↔ ∀ c, Ae.PassVisits env s c →
        Ae.SparesSelf env (s.timeEventNextId - 1) c ∧ Ae.SparesNext env c)) ∧
    (∀ (env : Env Int) (s : Ae2.EventLoop Q), Onward env → Ae2.Run env (fun _ _ => True) s →
      ((∀ c, Ae2.PassVisits env s c → Ae2.Defers env s c.1) → Ae2.FinalizersSettle env s →
        Ae2.BoundedPass env s) ∧
      (Ae2.KeepsAll env → (∀ id ∈ s.setDelTimeId, id < s.timeEventNextId) →
        (Ae2.BoundedPass env s ↔ ∀ c, Ae2.PassVisits env s c → Ae2.Defers env s c.1))) ∧
    ∀ (env : Env TimeEvent) (s : Ae3.EventLoop), Ae3.Run env (fun _ _ => True) s →
      s.undef = false →
      ((∀ c, Ae3.PassVisits env s c → Ae3.SparesRunning env c ∧ Ae3.LandsClear env s c) →
        Ae3.BoundedPass env s) ∧
      (Ae3.CreatesOnly env →
        (Ae3.BoundedPass env s ↔ ∀ c, Ae3.PassVisits env s c → Ae3.LandsClear env s c)) := by
  refine ⟨?_, ?_, ?_⟩
  · intro env s run fine
    obtain ⟨xs, ok⟩ := Ae.run_ok_of_defined run fine
    exact Ae.boundedPass_iff ok
  · intro env s onward run
    have ok := Ae2.run_idsOk onward run
    refine ⟨Ae2.boundedPass_of_defers ok, fun keeps issued => ⟨fun bounded c met => ?_, ?_⟩⟩
    · exact Ae2.defers_of_bounded onward ok keeps issued bounded met
    · exact fun defers => Ae2.boundedPass_of_defers ok defers keeps.settles
  · intro env s run fine
    have sound := Ae3.run_sound run fine
    refine ⟨Ae3.boundedPass_of_clear sound, fun creates => ⟨fun bounded c met => ?_, fun clear => ?_⟩⟩
    · exact Ae3.clear_of_bounded creates sound bounded met
    · exact Ae3.boundedPass_of_clear sound fun c met => ⟨creates.spares c, clear c met⟩

section Runs

/-- A clock that stands still, and callbacks that create a timer with the delay given and want to be
called again five milliseconds later. -/
def breedingEnv (κ : Type) (ms : Int) : Env κ :=
  { stillEnv κ with timeProc := fun _ _ => ⟨[.create ms 3 4 none], 5⟩ }

theorem breedingEnv_creates {κ : Type} {ms : Int} {call : TimerCall κ} {tr : List (Event κ)}
    {te : TimeEvent} (called : call ∈ ((breedingEnv κ ms).timeProc tr te).calls) :
    call = .create ms 3 4 none :=
  List.mem_singleton.mp called

theorem breedingEnv_onward (κ : Type) {ms : Int} (low : 0 ≤ ms) : Onward (breedingEnv κ ms) where
  clock _ _ _ := le_refl _
  creates tr te ms' proc data fin called := by
    cases breedingEnv_creates called
    exact low
  finals tr te ms' proc data fin called := absurd called List.not_mem_nil
  returns _ _ := .inr (by decide : (0 : Int) ≤ 5)

theorem breedingEnv_gentle (ms : Int) : Ae.Gentle (breedingEnv Int ms) where
  callbacks tr te called := by cases breedingEnv_creates called
  finalizers _ _ _ := List.not_mem_nil

theorem breedingEnv_polite : Ae2.Polite (breedingEnv Int 1) where
  clock _ _ _ := le_refl _
  creates tr te ms' proc data fin called := by
    cases breedingEnv_creates called
    exact le_refl _
  returns _ _ := .inr (by decide : (1 : Int) ≤ 5)
  finalizers _ _ := rfl

theorem breedingEnv_keepsAll (ms : Int) : Ae2.KeepsAll (breedingEnv Int ms) where
  callbacks tr te id called := by cases breedingEnv_creates called
  finalizers _ _ := rfl

theorem breedingEnv_createsOnly (ms : Int) : Ae3.CreatesOnly (breedingEnv TimeEvent ms) :=
  fun _ _ _ called => by cases breedingEnv_creates called

theorem breedingEnv_clear (s : Ae3.EventLoop) (c : Ae3.Pass) :
    Ae3.LandsClear (breedingEnv TimeEvent 1) s c := by
  intro k id te _ _ key made
  obtain rfl : key = 5001 := List.mem_singleton.mp made
  exact .inr (by decide : (5000 : Int) < 5001)

def Ae.breeding (ms : Int) : Ae.EventLoop :=
  (Ae.aeCreateTimeEvent (breedingEnv Int ms) (Ae.fresh (breedingEnv Int ms)) 0 3 4 none).2

def Ae2.breeding (ms : Int) : Ae2.EventLoop (SortedQueue TimeEvent Ae2.Earlier) :=
  (Ae2.aeCreateTimeEvent (breedingEnv Int ms) (Ae2.fresh (breedingEnv Int ms)) 0 3 4 none).2

def Ae3.breeding (ms : Int) : Ae3.EventLoop :=
  (Ae3.aeCreateTimeEvent (breedingEnv TimeEvent ms) (Ae3.fresh (breedingEnv TimeEvent ms)) 0 3 4
    none).2

theorem Ae.breeding_run (ms : Int) :
    Ae.Run (breedingEnv Int ms) (fun _ _ => True) (Ae.breeding ms) :=
  .move (Ae.fresh_run _ _) trivial (.timer _ (.create 0 3 4 none))

theorem Ae2.breeding_run (ms : Int) :
    Ae2.Run (breedingEnv Int ms) (fun _ _ => True) (Ae2.breeding ms) :=
  .move (Ae2.fresh_run _ _) trivial (.timer _ (.create 0 3 4 none))

theorem Ae3.breeding_run (ms : Int) :
    Ae3.Run (breedingEnv TimeEvent ms) (fun _ _ => True) (Ae3.breeding ms) :=
  .move (Ae3.fresh_run _ _) trivial (.timer _ (.create 0 3 4 none))

/-- With a delay of a millisecond all three passes are bounded, with a delay of zero only that of
`ae.c` is. -/
theorem pass_bounded_iff_breeding :
    Ae.BoundedPass (breedingEnv Int 0) (Ae.breeding 0) ∧
    Ae2.BoundedPass (breedingEnv Int 1) (Ae2.breeding 1) ∧
    (∀ c, Ae2.PassVisits (breedingEnv Int 1) (Ae2.breeding 1) c →
      Ae2.Defers (breedingEnv Int 1) (Ae2.breeding 1) c.1) ∧
    Ae3.BoundedPass (breedingEnv TimeEvent 1) (Ae3.breeding 1) ∧
    ∀ c, Ae3.PassVisits (breedingEnv TimeEvent 1) (Ae3.breeding 1) c →
      Ae3.LandsClear (breedingEnv TimeEvent 1) (Ae3.breeding 1) c := by
  obtain ⟨one, two, three⟩ := @pass_bounded_iff (SortedQueue TimeEvent Ae2.Earlier) _
  have first := (one (breedingEnv Int 0) (Ae.breeding 0) (Ae.breeding_run 0) rfl).mpr
    fun c _ => (breedingEnv_gentle 0).spares _ c
  obtain ⟨enough, exactly⟩ := two (breedingEnv Int 1) (Ae2.breeding 1)
    (breedingEnv_onward Int (by decide)) (Ae2.breeding_run 1)
  have second := enough (fun c met => breedingEnv_polite.defers (Ae2.visits_grow met).1)
    breedingEnv_polite.settles
  have tombless : ∀ id ∈ (Ae2.breeding 1).setDelTimeId, id < (Ae2.breeding 1).timeEventNextId :=
    fun id marked => absurd marked (Finset.notMem_empty id)
  obtain ⟨enough', exactly'⟩ := three (breedingEnv TimeEvent 1) (Ae3.breeding 1)
    (Ae3.breeding_run 1) rfl
  have third := enough' fun c _ =>
    ⟨(breedingEnv_createsOnly 1).spares c, breedingEnv_clear (Ae3.breeding 1) c⟩
  exact ⟨first, second, (exactly (breedingEnv_keepsAll 1) tombless).mp second, third,
    (exactly' (breedingEnv_createsOnly 1)).mp third⟩

/-- A timer created with a delay of zero is called in the pass that creates it. -/
theorem pass_bounded_fails_breeding :
    (¬ ∀ (env : Env Int) (s : Ae2.EventLoop (SortedQueue TimeEvent Ae2.Earlier)), Onward env →
      Ae2.Run env (fun _ _ => True) s → Ae2.BoundedPass env s) ∧
    ¬ ∀ (env : Env TimeEvent) (s : Ae3.EventLoop), Onward env →
      Ae3.Run env (fun _ _ => True) s → s.undef = false → Ae3.BoundedPass env s := by
  refine ⟨fun claim => ?_, fun claim => ?_⟩
  · have bounded := claim _ _ (breedingEnv_onward Int (le_refl 0)) (Ae2.breeding_run 0)
    let turn : Ae2.EventLoop (SortedQueue TimeEvent Ae2.Earlier) × Int → _ :=
      Ae2.passStep (breedingEnv Int 0) (Ae2.snapshot (breedingEnv Int 0) (Ae2.breeding 0))
    have twice : ((turn ({ Ae2.breeding 0 with tick := 3 }, 0)).bind turn).map (fun c =>
        (calledIn (c.1.trace.drop 1)).length) = some 2 := by decide
    obtain ⟨c, steps, calls⟩ := Option.map_eq_some_iff.mp twice
    obtain ⟨b, first, second⟩ := Option.bind_eq_some_iff.mp steps
    obtain ⟨seg, trace, bound⟩ := bounded.calls c (.tail (.single first) second)
    have tail : seg = c.1.trace.drop 1 := by
      rw [trace]
      rfl
    have count := bound.count
    rw [tail, calls] at count
    exact absurd count (by decide)
  · have bounded := claim _ _ (breedingEnv_onward TimeEvent (le_refl 0)) (Ae3.breeding_run 0) rfl
    let turn := Ae3.passStep (breedingEnv TimeEvent 0)
      (Ae3.lNow (breedingEnv TimeEvent 0) (Ae3.breeding 0))
    have thrice : (((turn (Ae3.passStart (Ae3.breeding 0))).bind turn).bind turn).map (fun c =>
        (calledIn (c.loop.trace.drop 1)).length) = some 2 := by decide
    obtain ⟨d, steps, calls⟩ := Option.map_eq_some_iff.mp thrice
    obtain ⟨c, steps', third⟩ := Option.bind_eq_some_iff.mp steps
    obtain ⟨b, first, second⟩ := Option.bind_eq_some_iff.mp steps'
    obtain ⟨seg, trace, bound⟩ := bounded.calls d (.tail (.tail (.single first) second) third)
    have tail : seg = d.loop.trace.drop 1 := by
      rw [trace]
      rfl
    have count := bound.count
    rw [tail, calls] at count
    exact absurd count (by decide)

end Runs

end AeEventLoop
