import AeEventLoop.AeTurn

/-! A whole pass of `ae.c`. The walk splits the timers it found into those it is past and those it
has yet to come to, whatever callbacks do to the list on both sides of the cursor; at its end the
list is what was created and not deleted, newest first, and then what is left of the old timers. -/

namespace AeEventLoop.Ae

open LinkedStore

def endedIn (tr : List (Event Int)) : List Int :=
  ((returnedIn tr).filter fun r => r.2 = AE_NOMORE).map fun r => r.1.id

@[simp] theorem endedIn_append (a b : List (Event Int)) :
    endedIn (a ++ b) = endedIn a ++ endedIn b := by
  simp [endedIn]

theorem endedIn_of_last {tr : List (Event Int)}
    (last : ∀ te retval, .returned te retval ∈ tr → retval = AE_NOMORE)
    (returned : (returnedIn tr).map Prod.fst = calledIn tr) :
    endedIn tr = (calledIn tr).map TimeEvent.id := by
  have all : ∀ r ∈ returnedIn tr, r.2 = AE_NOMORE := by
    intro r hr
    obtain ⟨e, he, is⟩ := List.mem_filterMap.mp hr
    cases e with
    | returned te retval =>
        obtain rfl := Option.some.inj is
        exact last te retval he
    | _ => cases is
  rw [endedIn, List.filter_eq_self.mpr (by simpa using all), ← returned, List.map_map]
  rfl

/-- What a pass that wrote `tr` leaves of an old timer. -/
def survivor (tr : List (Event Int)) (te : TimeEvent) : Option TimeEvent :=
  if te.id ∈ deletedIn tr ∨ te.id ∈ endedIn tr then none
  else some (((rearmedIn tr).find? fun x => x.id = te.id).getD te)

def dueFinalizers (tr : List (Event Int)) : List TimeEvent :=
  ((returnedIn tr).filter fun r => r.2 = AE_NOMORE ∧ r.1.finalizerProc.isSome).map
    fun r => markDeleted r.1

@[simp] theorem dueFinalizers_append (a b : List (Event Int)) :
    dueFinalizers (a ++ b) = dueFinalizers a ++ dueFinalizers b := by
  simp [dueFinalizers]

/-- `te` is deleted in `tr` before the walk reaches it. -/
def deletedFirst (te : TimeEvent) : List (Event Int) → Bool
  | [] => false
  | .deleted id ret :: tr => (id = te.id ∧ ret = AE_OK) || deletedFirst te tr
  | .reached x _ :: tr => x ≠ te && deletedFirst te tr
  | _ :: tr => deletedFirst te tr

theorem deletedFirst_append (te : TimeEvent) (a b : List (Event Int)) :
    deletedFirst te (a ++ b) = true ↔
      deletedFirst te a = true ∨
        te ∉ (reachedIn a).map Prod.fst ∧ deletedFirst te b = true := by
  induction a with
  | nil => simp [deletedFirst]
  | cons e a ih =>
      cases e with
      | deleted id ret => simp [deletedFirst, ih, or_assoc]
      | reached x now =>
          by_cases same : x = te
          · simp [deletedFirst, same]
          · have other : ¬ te = x := fun h => same h.symm
            simp [deletedFirst, ih, same, other]
      | _ => simpa [deletedFirst] using ih

theorem deletedFirst_of_deleted {te : TimeEvent} {tr : List (Event Int)}
    (deleted : te.id ∈ deletedIn tr) (unreached : te ∉ (reachedIn tr).map Prod.fst) :
    deletedFirst te tr = true := by
  obtain ⟨a, b, rfl⟩ := List.append_of_mem (mem_deletedIn.mp deleted)
  have before : te ∉ (reachedIn a).map Prod.fst := fun h => unreached (by simp_all)
  rw [deletedFirst_append]
  exact .inr ⟨before, by simp [deletedFirst]⟩

theorem deletedFirst_of_kept {te : TimeEvent} {tr : List (Event Int)}
    (kept : te.id ∉ deletedIn tr) : deletedFirst te tr = false := by
  induction tr with
  | nil => rfl
  | cons e tr ih =>
      rw [deletedIn_cons, List.mem_append, not_or] at kept
      cases e with
      | deleted id ret =>
          have other : ¬ (id = te.id ∧ ret = AE_OK) := by
            rintro ⟨rfl, rfl⟩
            simp at kept
          simp [deletedFirst, ih kept.2, other]
      | reached x now => simp [deletedFirst, ih kept.2]
      | _ => exact ih kept.2

/-- Every finalizer runs right after its timer was unlinked. -/
def UnlinkedFirst (tr : List (Event Int)) : Prop :=
  ∀ pre x, Occurs tr pre (.finalized x) → ∃ pre', pre = pre' ++ [.unlinked x]

/-- Every timer is tested against the reading taken when it is reached; `tick` readings were made
before `tr`. -/
def Readings (env : Env Int) (tick : ℕ) (tr : List (Event Int)) : Prop :=
  ∀ pre te now, Occurs tr pre (.reached te now) →
    now = aeGetTime (env.gettimeofday (tick + readsIn pre))

/-- Every timer is re-armed right after its callback returned, at that moment's clock plus the
value returned. -/
def Armed (env : Env Int) (tick : ℕ) (tr : List (Event Int)) : Prop :=
  ∀ pre x, Occurs tr pre (.rearmed x) → ∃ pre' te r, pre = pre' ++ [.returned te r] ∧
    r ≠ AE_NOMORE ∧ x = te.setWhen
      (aeAddMillisecondsToNow (env.gettimeofday (tick + readsIn pre)) r)

/-- A re-armed timer lies at the clock of that moment plus the value its callback returned, in
milliseconds and as a pair the due test can read, and is otherwise the record it was. -/
def RearmedAt (env : Env Int) (tick : ℕ) (tr : List (Event Int)) : Prop :=
  ∀ pre x, Occurs tr pre (.rearmed x) → ∃ pre' te r, pre = pre' ++ [.returned te r] ∧
    r ≠ AE_NOMORE ∧ x = te.setWhen x.deadline ∧
    millis x.deadline = (env.gettimeofday (tick + readsIn pre)).micros / 1000 + r ∧
    (0 ≤ r → Normal x.deadline)

theorem Armed.rearmedAt {env : Env Int} {tick : ℕ} {tr : List (Event Int)}
    (armed : Armed env tick tr) : RearmedAt env tick tr := by
  intro pre x occurs
  obtain ⟨pre', te, r, split, more, rfl⟩ := armed pre x occurs
  refine ⟨pre', te, r, split, more, rfl, ?_, fun later => ?_⟩
  · rw [TimeEvent.setWhen_deadline, millis_aeAddMillisecondsToNow, millis_aeGetTime]
  · exact aeAddMillisecondsToNow_normal _ later

/-- What the events of a stretch of the walk amount to when `tick` readings of the clock were made
before it and `processed` grew by `n` in it. -/
structure Account (env : Env Int) (tick : ℕ) (tr : List (Event Int)) (n : Int) : Prop where
  calls : calledIn tr = ((reachedIn tr).filter fun r => Due r.1.deadline r.2).map Prod.fst
  returned : (returnedIn tr).map Prod.fst = calledIn tr
  count : n = (calledIn tr).length
  rearmed : (rearmedIn tr).map TimeEvent.id =
    ((returnedIn tr).filter fun r => r.2 ≠ AE_NOMORE).map fun r => r.1.id
  finalized : finalizedIn tr = dueFinalizers tr
  undiscarded : discardedIn tr = []
  unlinkedFirst : UnlinkedFirst tr
  readings : Readings env tick tr
  armed : Armed env tick tr

section Account

variable {env : Env Int} {tick : ℕ} {a b tr : List (Event Int)} {m n : Int}

theorem Account.nil : Account env tick [] 0 where
  calls := rfl
  returned := rfl
  count := rfl
  rearmed := rfl
  finalized := rfl
  undiscarded := rfl
  unlinkedFirst pre _ h := absurd h (not_occurs_nil pre _)
  readings pre _ _ h := absurd h (not_occurs_nil pre _)
  armed pre _ h := absurd h (not_occurs_nil pre _)

theorem Account.append (ha : Account env tick a m) (hb : Account env (tick + readsIn a) b n) :
    Account env tick (a ++ b) (m + n) where
  calls := by simp [ha.calls, hb.calls]
  returned := by simp [ha.returned, hb.returned]
  count := by simp [ha.count, hb.count]
  rearmed := by
    rw [rearmedIn_append, returnedIn_append, List.map_append, List.filter_append, List.map_append,
      ha.rearmed, hb.rearmed]
  finalized := by simp [ha.finalized, hb.finalized]
  undiscarded := by simp [ha.undiscarded, hb.undiscarded]
  unlinkedFirst pre x h := by
    rcases occurs_append.mp h with early | ⟨d, rfl, late⟩
    · exact ha.unlinkedFirst pre x early
    · obtain ⟨pre', rfl⟩ := hb.unlinkedFirst d x late
      exact ⟨a ++ pre', by simp⟩
  readings pre te now h := by
    rcases occurs_append.mp h with early | ⟨d, rfl, late⟩
    · exact ha.readings pre te now early
    · rw [hb.readings d te now late, readsIn_append, Nat.add_assoc]
  armed pre x h := by
    rcases occurs_append.mp h with early | ⟨d, rfl, late⟩
    · exact ha.armed pre x early
    · obtain ⟨pre', te, r, rfl, more, eq⟩ := hb.armed d x late
      refine ⟨a ++ pre', te, r, by simp, more, ?_⟩
      rw [eq, readsIn_append a, Nat.add_assoc]

/-- Where no timer is reached twice, the reading made at it decides whether it is called. -/
theorem Account.mem_called (h : Account env tick tr n)
    (single : ((reachedIn tr).map fun r => r.1.id).Nodup) {te : TimeEvent} {now : Int × Int}
    (reached : (te, now) ∈ reachedIn tr) : te ∈ calledIn tr ↔ Due te.deadline now := by
  rw [h.calls]
  constructor
  · intro called
    obtain ⟨r, hr, same⟩ := List.mem_map.mp called
    obtain ⟨there, due⟩ := List.mem_filter.mp hr
    have eq := List.inj_on_of_nodup_map single there reached (congrArg TimeEvent.id same)
    simpa [eq] using due
  · intro due
    exact List.mem_map.mpr ⟨(te, now), List.mem_filter.mpr ⟨reached, by simpa using due⟩, rfl⟩

theorem Account.returned_reached (h : Account env tick tr n) {r : TimeEvent × Int}
    (hr : r ∈ returnedIn tr) : r.1 ∈ (reachedIn tr).map Prod.fst := by
  have called : r.1 ∈ calledIn tr := h.returned ▸ List.mem_map_of_mem hr
  rw [h.calls] at called
  exact (List.filter_sublist.map _).subset called

theorem Account.ended_reached (h : Account env tick tr n) {id : Int} (ended : id ∈ endedIn tr) :
    ∃ te ∈ (reachedIn tr).map Prod.fst, te.id = id := by
  obtain ⟨r, hr, same⟩ := List.mem_map.mp ended
  exact ⟨r.1, h.returned_reached (List.mem_of_mem_filter hr), same⟩

theorem Account.rearmed_reached (h : Account env tick tr n) {x : TimeEvent}
    (rearmed : x ∈ rearmedIn tr) : ∃ te ∈ (reachedIn tr).map Prod.fst, te.id = x.id := by
  have again : x.id ∈ (rearmedIn tr).map TimeEvent.id := List.mem_map_of_mem rearmed
  rw [h.rearmed] at again
  obtain ⟨r, hr, same⟩ := List.mem_map.mp again
  exact ⟨r.1, h.returned_reached (List.mem_of_mem_filter hr), same⟩

end Account

section Shape

variable {env : Env Int} {c : Pass} {te : TimeEvent} {seg user fin tail : List (Event Int)}
  {kept : Option TimeEvent} {n : Int}

theorem unlinkedFirst_of_none (none : finalizedIn seg = []) : UnlinkedFirst seg := by
  intro pre x occurs
  have := mem_finalizedIn.mpr occurs.mem
  simp [none] at this

theorem armed_of_none (none : rearmedIn seg = []) : Armed env c.loop.tick seg := by
  intro pre x occurs
  have := mem_rearmedIn.mpr occurs.mem
  simp [none] at this

theorem readings_of_first (quiet : reachedIn tail = []) :
    Readings env c.loop.tick (.reached te (reading env c) :: tail) := by
  intro pre x now occurs
  rcases occurs_cons.mp occurs with ⟨rfl, same⟩ | ⟨d, -, later⟩
  · injection same
  · have := mem_reachedIn.mpr later.mem
    simp [quiet] at this

theorem again_armed (isUser : ∀ e ∈ user, UserEvent e)
    (more : (script env c te).retval ≠ AE_NOMORE) :
    Armed env c.loop.tick (.reached te (reading env c) :: .called te :: (user ++
      [.returned te (script env c te).retval, .rearmed (rearmedTimer env c te user)])) := by
  intro pre x occurs
  have assoc : (Event.reached te (reading env c) :: .called te :: (user ++
      [.returned te (script env c te).retval, .rearmed (rearmedTimer env c te user)])) =
      (.reached te (reading env c) :: .called te :: user ++
        [.returned te (script env c te).retval]) ++ [.rearmed (rearmedTimer env c te user)] := by
    simp
  rw [assoc] at occurs
  rcases occurs_append.mp occurs with early | ⟨d, rfl, last⟩
  · have := mem_rearmedIn.mpr early.mem
    simp [rearmedIn_of_user isUser] at this
  · rcases occurs_cons.mp last with ⟨rfl, same⟩ | ⟨_, -, none⟩
    · injection same with same
      refine ⟨_, te, (script env c te).retval, List.append_nil _, more, ?_⟩
      have reads : readsIn (.reached te (reading env c) :: .called te :: user ++
          [.returned te (script env c te).retval] ++ []) = 1 + (createdIn user).length := by
        simp [readsIn, reachedIn_of_user isUser, rearmedIn_of_user isUser, Nat.add_comm]
      rw [reads, ← Nat.add_assoc]
      exact same
    · exact absurd none (not_occurs_nil _ _)

theorem ended_unlinkedFirst (isUser : ∀ e ∈ user, UserEvent e) (finalized : Finalized te fin) :
    UnlinkedFirst (.reached te (reading env c) :: .called te :: (user ++
      .returned te (script env c te).retval :: .unlinked (markDeleted te) :: fin)) := by
  have before : finalizedIn user = [] := finalizedIn_of_user isUser
  cases finalized with
  | none _ => exact unlinkedFirst_of_none (by simp [before])
  | some user' _ isUser' _ =>
      intro pre x occurs
      have assoc : (Event.reached te (reading env c) :: .called te :: (user ++
          .returned te (script env c te).retval :: .unlinked (markDeleted te) ::
            .finalized (markDeleted te) :: user')) =
          (.reached te (reading env c) :: .called te :: (user ++
            [.returned te (script env c te).retval]) ++ [.unlinked (markDeleted te)]) ++
            .finalized (markDeleted te) :: user' := by
        simp
      rw [assoc] at occurs
      rcases occurs_append.mp occurs with early | ⟨d, rfl, here⟩
      · have := mem_finalizedIn.mpr early.mem
        simp [before] at this
      · rcases occurs_cons.mp here with ⟨rfl, same⟩ | ⟨d', -, late⟩
        · injection same with same
          exact ⟨_, by rw [List.append_nil, same]⟩
        · have := mem_finalizedIn.mpr late.mem
          simp [finalizedIn_of_user isUser'] at this

theorem Finalized.account (h : Finalized te fin) :
    calledIn fin = [] ∧ returnedIn fin = [] ∧ discardedIn fin = [] ∧
      finalizedIn fin = if te.finalizerProc.isSome then [markDeleted te] else [] := by
  cases h with
  | none without => simp [without]
  | some user present isUser _ =>
      simp [present, calledIn_of_user isUser, returnedIn_of_user isUser,
        discardedIn_of_user isUser, finalizedIn_of_user isUser]

theorem Shape.account (h : Shape env c te seg kept n) : Account env c.loop.tick seg n := by
  cases h with
  | late late =>
      exact ⟨by simp [late], by simp, by simp, by simp, by simp [dueFinalizers], by simp,
        unlinkedFirst_of_none (by simp), readings_of_first rfl, armed_of_none (by simp)⟩
  | again user due isUser own more =>
      have called := calledIn_of_user isUser
      have returned := returnedIn_of_user isUser
      have rearmed := rearmedIn_of_user isUser
      have finalized := finalizedIn_of_user isUser
      have reached := reachedIn_of_user isUser
      exact ⟨by simp [due, called, reached], by simp [called, returned], by simp [called],
        by simp [rearmed, returned, more, rearmedTimer],
        by simp [dueFinalizers, returned, finalized, more], by simp [discardedIn_of_user isUser],
        unlinkedFirst_of_none (by simp [finalized]), readings_of_first (by simp [reached]),
        again_armed isUser more⟩
  | ended user fin due isUser own last finalizer =>
      have called := calledIn_of_user isUser
      have returned := returnedIn_of_user isUser
      have rearmed := rearmedIn_of_user isUser
      have finalized := finalizedIn_of_user isUser
      have reached := reachedIn_of_user isUser
      obtain ⟨reached', rearmed'⟩ := finalizer.quiet
      obtain ⟨called', returned', discarded', finalized'⟩ := finalizer.account
      refine ⟨by simp [due, called, reached, called', reached'],
        by simp [called, returned, called', returned'], by simp [called, called'],
        by simp [rearmed, rearmed', returned, returned', last], ?_,
        by simp [discardedIn_of_user isUser, discarded'],
        ended_unlinkedFirst isUser finalizer, readings_of_first (by simp [reached, reached']),
        armed_of_none (by simp [rearmed, rearmed'])⟩
      by_cases present : te.finalizerProc.isSome
      · simp [dueFinalizers, returned, returned', finalized, finalized', last, present]
      · simp [dueFinalizers, returned, returned', finalized, finalized', present]

theorem Shape.effect (h : Shape env c te seg kept n) :
    reachedIn seg = [(te, reading env c)] ∧ te.id ∉ deletedIn seg ∧ kept = survivor seg te := by
  cases h with
  | late late => simp [survivor, endedIn]
  | again user due isUser own more =>
      simp [survivor, endedIn, own, more, reachedIn_of_user isUser, returnedIn_of_user isUser,
        rearmedIn_of_user isUser, rearmedTimer]
  | ended user fin due isUser own last finalizer =>
      have deleted : deletedIn fin = [] := by
        cases finalizer with
        | none _ => rfl
        | some user' _ _ none => simpa using none
      simp [survivor, endedIn, own, last, deleted, reachedIn_of_user isUser,
        returnedIn_of_user isUser, finalizer.quiet]

end Shape

section Survivor

variable {a b : List (Event Int)} {te x : TimeEvent}

theorem survivor_id (h : survivor a te = some x) : x.id = te.id := by
  rw [survivor] at h
  split_ifs at h
  obtain rfl := Option.some.inj h
  cases found : (rearmedIn a).find? fun x => x.id = te.id with
  | none => rfl
  | some y => simpa using List.find?_some found

theorem survivor_of_deleted (deleted : te.id ∈ deletedIn a) : survivor a te = none :=
  if_pos (.inl deleted)

theorem find?_rearmed_none (apart : ∀ y ∈ rearmedIn a, y.id ≠ te.id) :
    (rearmedIn a).find? (fun y => y.id = te.id) = none :=
  List.find?_eq_none.mpr fun y hy => by simpa using apart y hy

theorem survivor_append_left (ended : te.id ∉ endedIn b)
    (apart : ∀ y ∈ rearmedIn b, y.id ≠ te.id) :
    survivor (a ++ b) te = (survivor a te).filter fun y => y.id ∉ deletedIn b := by
  by_cases gone : te.id ∈ deletedIn a ∨ te.id ∈ endedIn a
  · have all : te.id ∈ deletedIn (a ++ b) ∨ te.id ∈ endedIn (a ++ b) := by
      rcases gone with h | h <;> simp [h]
    rw [survivor, survivor, if_pos gone, if_pos all, Option.filter_none]
  · have here : survivor a te = some (((rearmedIn a).find? fun x => x.id = te.id).getD te) :=
      if_neg gone
    have same := survivor_id here
    rw [not_or] at gone
    by_cases deleted : te.id ∈ deletedIn b
    · rw [here, survivor_of_deleted (by simp [deleted]),
        Option.filter_some_neg (by simp [same, deleted])]
    · rw [here, Option.filter_some_pos (by simpa [same] using deleted), survivor,
        if_neg (by simp [gone, ended, deleted]), rearmedIn_append, List.find?_append,
        find?_rearmed_none apart, Option.or_none]

theorem survivor_append_right (kept : te.id ∉ deletedIn a) (ended : te.id ∉ endedIn a)
    (apart : ∀ y ∈ rearmedIn a, y.id ≠ te.id) : survivor (a ++ b) te = survivor b te := by
  simp only [survivor, deletedIn_append, endedIn_append, List.mem_append, kept, ended, false_or,
    rearmedIn_append, List.find?_append, find?_rearmed_none apart, Option.none_or]

end Survivor

/-- A pass over the timers `old` that started in `s` has come to the loop head `c`, is past `V`
and has yet to come to `R`. The list is `front` up to the cursor and `todo` from there on, and `seg`
is what has happened. -/
structure Walk (env : Env Int) (s : EventLoop) (c : Pass) (V R : List TimeEvent)
    (front todo : List (ℕ × TimeEvent)) (seg : List (Event Int)) : Prop where
  visited : PassVisits env s c
  ok : Ok c.loop (front ++ todo)
  cursor : c.te = headAddr todo
  trace : c.loop.trace = s.trace ++ seg
  tick : c.loop.tick = s.tick + 1 + readsIn seg
  next : c.loop.timeEventNextId = s.timeEventNextId + (createdIn seg).length
  newIds : ∀ x ∈ createdIn seg, s.timeEventNextId ≤ x.id
  gone : ∀ id ∈ deletedIn seg, id < c.loop.timeEventNextId
  lastTime : c.loop.lastTime = env.time s.tick
  files : c.loop.toFileTable = s.toFileTable
  behind : todo.map Prod.snd = R.filter fun te => te.id ∉ deletedIn seg
  before : front.map Prod.snd =
    ((createdIn seg).filter fun te => te.id ∉ deletedIn seg).reverse ++ V.filterMap (survivor seg)
  reached : (reachedIn seg).map Prod.fst = V.filter fun te => !deletedFirst te seg
  account : Account env (s.tick + 1) seg c.processed

section Walk

variable {env : Env Int} {s : EventLoop} {c c' : Pass} {V D R : List TimeEvent}
  {p : ℕ} {te : TimeEvent} {front rest made : List (ℕ × TimeEvent)} {seg new : List (Event Int)}
  {kept : Option TimeEvent} {todo : List (ℕ × TimeEvent)}

theorem Walk.mem_of_reached (walk : Walk env s c V R front todo seg) {x : TimeEvent}
    (reached : x ∈ (reachedIn seg).map Prod.fst) : x ∈ V := by
  rw [walk.reached] at reached
  exact List.mem_of_mem_filter reached

theorem Walk.untouched (walk : Walk env s c V R front todo seg) {x : TimeEvent}
    (apart : ∀ y ∈ V, y.id ≠ x.id) :
    x ∉ (reachedIn seg).map Prod.fst ∧ x.id ∉ endedIn seg ∧ ∀ y ∈ rearmedIn seg, y.id ≠ x.id := by
  refine ⟨fun reached => apart x (walk.mem_of_reached reached) rfl, fun ended => ?_,
    fun y hy same => ?_⟩
  · obtain ⟨y, reached, same⟩ := walk.account.ended_reached ended
    exact apart y (walk.mem_of_reached reached) same
  · obtain ⟨z, reached, same'⟩ := walk.account.rearmed_reached hy
    exact apart z (walk.mem_of_reached reached) (same'.trans same)

theorem Shape.untouched {n : Int} (h : Shape env c te new kept n) {x : TimeEvent}
    (apart : te.id ≠ x.id) : x.id ∉ endedIn new ∧ ∀ y ∈ rearmedIn new, y.id ≠ x.id := by
  have only : ∀ y ∈ (reachedIn new).map Prod.fst, y.id ≠ x.id := by
    rw [h.effect.1]
    simpa using apart
  refine ⟨fun ended => ?_, fun y hy same => ?_⟩
  · obtain ⟨y, reached, same⟩ := h.account.ended_reached ended
    exact only y reached same
  · obtain ⟨z, reached, same'⟩ := h.account.rearmed_reached hy
    exact only z reached (same'.trans same)

theorem walk_ids_apart (ids : ((V ++ D ++ te :: R).map TimeEvent.id).Nodup) {x y : TimeEvent}
    (hx : x ∈ V) (hy : y ∈ D ++ [te]) : x.id ≠ y.id := by
  have split : V ++ D ++ te :: R = V ++ ((D ++ [te]) ++ R) := by
    simp
  rw [split, List.map_append, List.map_append] at ids
  exact fun same => List.disjoint_of_nodup_append ids (List.mem_map_of_mem hx)
    (List.mem_append_left _ (List.mem_map.mpr ⟨y, hy, same.symm⟩))

section Step

variable (walk : Walk env s c V (D ++ te :: R) front ((p, te) :: rest) seg)
  (ids : ((V ++ D ++ te :: R).map TimeEvent.id).Nodup)
  (skipped : ∀ x ∈ D, x.id ∈ deletedIn seg) (present : te.id ∉ deletedIn seg)
  (turn : Turn env (s.timeEventNextId - 1) p te c c' front rest made new kept)
include walk ids skipped present turn

theorem Walk.reached_turn : (reachedIn (seg ++ new)).map Prod.fst =
    (V ++ D ++ [te]).filter fun te => !deletedFirst te (seg ++ new) := by
  obtain ⟨n, shape, -⟩ := turn.shape
  obtain ⟨reached, own, -⟩ := shape.effect
  have past : V.filter (fun x => !deletedFirst x (seg ++ new)) =
      V.filter fun x => !deletedFirst x seg := by
    refine List.filter_congr fun x hx => ?_
    have same : deletedFirst x (seg ++ new) = true ↔ deletedFirst x seg = true := by
      rw [deletedFirst_append, walk.reached, List.mem_filter]
      simp only [hx, true_and, Bool.not_eq_true', Bool.not_eq_false]
      exact or_iff_left_of_imp And.left
    rw [Bool.eq_iff_iff.mpr same]
  have dropped : D.filter (fun x => !deletedFirst x (seg ++ new)) = [] := by
    refine List.filter_eq_nil_iff.mpr fun x hx => ?_
    have apart : ∀ y ∈ V, y.id ≠ x.id := fun y hy =>
      walk_ids_apart ids hy (by simp [hx])
    have first := deletedFirst_of_deleted (skipped x hx) (walk.untouched apart).1
    simp [(deletedFirst_append x seg new).mpr (.inl first)]
  have here : deletedFirst te (seg ++ new) = false :=
    deletedFirst_of_kept (by simp [present, own])
  rw [reachedIn_append, List.map_append, walk.reached, reached, List.filter_append,
    List.filter_append, past, dropped]
  simp [here]

theorem Walk.before_turn :
    ((made ++ front.filter fun x => x.2.id ∉ deletedIn new) ++
      kept.toList.map (Prod.mk p)).map Prod.snd =
    ((createdIn (seg ++ new)).filter fun te => te.id ∉ deletedIn (seg ++ new)).reverse ++
      (V ++ D ++ [te]).filterMap (survivor (seg ++ new)) := by
  obtain ⟨n, shape, -⟩ := turn.shape
  obtain ⟨-, own, left⟩ := shape.effect
  have past : V.filterMap (survivor (seg ++ new)) =
      (V.filterMap (survivor seg)).filter fun x => x.id ∉ deletedIn new := by
    rw [List.filter_filterMap]
    refine List.filterMap_congr fun x hx => ?_
    have apart : te.id ≠ x.id := (walk_ids_apart ids hx (by simp)).symm
    obtain ⟨ended, rearmed⟩ := shape.untouched apart
    exact survivor_append_left ended rearmed
  have dropped : D.filterMap (survivor (seg ++ new)) = [] :=
    List.filterMap_eq_nil_iff.mpr fun x hx => survivor_of_deleted (by simp [skipped x hx])
  have here : survivor (seg ++ new) te = kept := by
    obtain ⟨-, ended, rearmed⟩ := walk.untouched (x := te) fun y hy =>
      walk_ids_apart ids hy (by simp)
    rw [survivor_append_right present ended rearmed, left]
  have early : (createdIn seg).filter (fun x => x.id ∉ deletedIn (seg ++ new)) =
      ((createdIn seg).filter fun x => x.id ∉ deletedIn seg).filter
        fun x => x.id ∉ deletedIn new := by
    rw [List.filter_filter]
    refine List.filter_congr fun x _ => ?_
    simp [Bool.and_comm]
  have late : (createdIn new).filter (fun x => x.id ∉ deletedIn (seg ++ new)) =
      (createdIn new).filter fun x => x.id ∉ deletedIn new := by
    refine List.filter_congr fun x hx => ?_
    have fresh : x.id ∉ deletedIn seg := fun h => by
      have := walk.gone x.id h
      have := turn.newIds x hx
      omega
    simp [fresh]
  have kept_eq : (kept.toList.map (Prod.mk p)).map Prod.snd = kept.toList := by
    simp
  have front_eq : (front.filter fun x => x.2.id ∉ deletedIn new).map Prod.snd =
      (front.map Prod.snd).filter fun x => x.id ∉ deletedIn new := by
    rw [List.filter_map]
    rfl
  rw [List.map_append, List.map_append, turn.made, front_eq, walk.before, kept_eq,
    createdIn_append, List.filter_append, List.filter_append, early, late, List.reverse_append,
    List.filter_reverse, List.filterMap_append, List.filterMap_append, past, dropped,
    List.filterMap_cons, here]
  cases kept <;> simp

end Step

theorem Walk.turn (gentle : Gentle env) (walk : Walk env s c V R front ((p, te) :: rest) seg)
    (ids : ((V ++ R).map TimeEvent.id).Nodup) (low : ∀ x ∈ R, x.id < s.timeEventNextId) :
    ∃ c' V' R' front' todo' seg', Walk env s c' V' R' front' todo' seg' ∧ V' ++ R' = V ++ R ∧
      todo'.length ≤ rest.length := by
  have behind := walk.behind
  rw [List.map_cons] at behind
  obtain ⟨D, R', rfl, skipped, present, rest_eq⟩ := List.filter_eq_cons_iff.mp behind.symm
  replace skipped : ∀ x ∈ D, x.id ∈ deletedIn seg := by simpa using skipped
  replace present : te.id ∉ deletedIn seg := by simpa using present
  have old : te.id ≤ s.timeEventNextId - 1 := by
    have := low te (by simp)
    omega
  obtain ⟨c', made, new, kept, turn⟩ := visit gentle walk.ok walk.cursor old
  obtain ⟨n, shape, processed⟩ := turn.shape
  rw [← List.append_assoc] at ids
  refine ⟨c', V ++ D ++ [te], R', (made ++ front.filter fun x => x.2.id ∉ deletedIn new) ++
    kept.toList.map (Prod.mk p), rest.filter fun x => x.2.id ∉ deletedIn new, seg ++ new,
    ⟨walk.visited.trans turn.visits, ?_, turn.cursor, ?_, ?_, ?_, ?_, ?_, ?_, ?_, ?_, ?_, ?_, ?_⟩,
    by simp, List.length_filter_le _ _⟩
  · simpa only [List.append_assoc] using turn.ok
  · rw [turn.trace, walk.trace, List.append_assoc]
  · rw [turn.tick, walk.tick, readsIn_append, Nat.add_assoc]
  · rw [turn.nextId, walk.next, createdIn_append, List.length_append, Nat.cast_add, Int.add_assoc]
  · intro x hx
    rw [createdIn_append, List.mem_append] at hx
    have next := walk.next
    rcases hx with early | late
    · exact walk.newIds x early
    · have := turn.newIds x late
      omega
  · intro id hid
    rw [deletedIn_append, List.mem_append] at hid
    have next := turn.nextId
    rcases hid with early | late
    · have := walk.gone id early
      omega
    · exact turn.gone id late
  · exact turn.lastTime.trans walk.lastTime
  · exact turn.files.trans walk.files
  · have left : (rest.filter fun x => x.2.id ∉ deletedIn new).map Prod.snd =
        (rest.map Prod.snd).filter fun x => x.id ∉ deletedIn new := by
      rw [List.filter_map]
      rfl
    rw [left, ← rest_eq, List.filter_filter]
    refine List.filter_congr fun x _ => ?_
    simp [Bool.and_comm]
  · exact walk.before_turn ids skipped present turn
  · exact walk.reached_turn ids skipped present turn
  · rw [processed]
    exact walk.account.append (walk.tick ▸ shape.account)

theorem Walk.complete (gentle : Gentle env) (walk : Walk env s c V R front todo seg)
    (ids : ((V ++ R).map TimeEvent.id).Nodup) (low : ∀ x ∈ V ++ R, x.id < s.timeEventNextId) :
    ∃ c' V' R' front' seg', Walk env s c' V' R' front' [] seg' ∧ V' ++ R' = V ++ R := by
  induction size : todo.length using Nat.strong_induction_on generalizing c V R front todo seg with
  | _ size' ih =>
      cases todo with
      | nil => exact ⟨c, V, R, front, seg, walk, rfl⟩
      | cons x rest =>
          obtain ⟨p, te⟩ := x
          obtain ⟨c', V', R', front', todo', seg', walk', same, shorter⟩ :=
            walk.turn gentle ids fun x hx => low x (List.mem_append_right _ hx)
          rw [List.length_cons] at size
          rw [← same] at ids low ⊢
          exact ih todo'.length (by omega) walk' ids low rfl

end Walk

/-- The timers a pass that starts in `s` finds in the list `xs`, after the skew check. -/
def pending (env : Env Int) (s : EventLoop) (xs : List (ℕ × TimeEvent)) : List TimeEvent :=
  if env.time s.tick < s.lastTime then xs.map fun x => { x.2 with when_sec := 0 }
  else xs.map Prod.snd

section Start

variable {env : Env Int} {s : EventLoop} {xs : List (ℕ × TimeEvent)}

theorem pending_ids (env : Env Int) (s : EventLoop) (xs : List (ℕ × TimeEvent)) :
    (pending env s xs).map TimeEvent.id = xs.map fun x => x.2.id := by
  rw [pending]
  split_ifs <;> simp

theorem pending_low (env : Env Int) (ok : Ok s xs) {te : TimeEvent}
    (found : te ∈ pending env s xs) : te.id < s.timeEventNextId := by
  have listed : te.id ∈ (pending env s xs).map TimeEvent.id := List.mem_map_of_mem found
  rw [pending_ids] at listed
  obtain ⟨x, hx, same⟩ := List.mem_map.mp listed
  exact same ▸ (ok.range x hx).2

theorem skew_ok (env : Env Int) (ok : Ok s xs) :
    ∃ ys, Ok (skew env s) ys ∧ ys.map Prod.snd = pending env s xs ∧
      (skew env s).trace = s.trace ∧ (skew env s).timeEventNextId = s.timeEventNextId ∧
      (skew env s).toFileTable = s.toFileTable := by
  by_cases back : env.time s.tick < s.lastTime
  · obtain ⟨l, walked, repr, -⟩ := forEach_repr ok.repr fun te => { te with when_sec := 0 }
    have eq : skew env s =
        { s with timeEvents := l, lastTime := env.time s.tick, tick := s.tick + 1 } := by
      simp only [skew, back, if_true, store, walked]
    rw [eq]
    refine ⟨_, ⟨ok.undef, repr, ?_, ?_, ok.next⟩, ?_, rfl, rfl, rfl⟩
    · simpa [Function.comp_def] using ok.ids
    · intro x hx
      obtain ⟨y, hy, rfl⟩ := List.mem_map.mp hx
      exact ok.range y hy
    · simp [pending, back]
  · have eq : skew env s = { s with lastTime := env.time s.tick, tick := s.tick + 1 } := by
      simp only [skew, back, if_false]
    rw [eq]
    exact ⟨xs, ok.same rfl rfl rfl, by simp [pending, back], rfl, rfl, rfl⟩

theorem Walk.start (env : Env Int) (ok : Ok s xs) :
    ∃ ys, Walk env s (passStart env s) [] (pending env s xs) [] ys [] := by
  obtain ⟨ys, ok', found, trace, next, files⟩ := skew_ok env ok
  exact ⟨ys, .refl, ok', ok'.repr.head, by simpa [passStart] using trace, rfl,
    by simpa [passStart] using next, by simp, by simp, rfl, files, by simpa using found, rfl, rfl,
    .nil⟩

end Start

/-- A pass from `s` to `t`, which found the timers `old`, wrote `seg`, left the timers `after` and
returned `n`, did what it is for. -/
structure ExactPass (env : Env Int) (s t : EventLoop) (old after : List TimeEvent) (n : Int)
    (seg : List (Event Int)) : Prop where
  trace : t.trace = s.trace ++ seg
  visits : (reachedIn seg).map Prod.fst = old.filter fun te => !deletedFirst te seg
  account : Account env (s.tick + 1) seg n
  due : ∀ pre te now, Occurs seg pre (.reached te now) → Normal te.deadline →
    (te ∈ calledIn seg ↔
      millis te.deadline ≤ (env.gettimeofday (s.tick + 1 + readsIn pre)).micros / 1000)
  rearmedAt : RearmedAt env (s.tick + 1) seg
  once : ((calledIn seg).map TimeEvent.id).Nodup
  fresh : ∀ te ∈ createdIn seg, te.id ∉ (calledIn seg).map TimeEvent.id
  skewed : env.time s.tick < s.lastTime → (∀ k, s.tick < k → 0 < (env.gettimeofday k).tv_sec) →
    calledIn seg = old.filter fun te => !deletedFirst te seg
  after : after = ((createdIn seg).filter fun te => te.id ∉ deletedIn seg).reverse ++
    old.filterMap (survivor seg)
  lastTime : t.lastTime = env.time s.tick
  files : t.toFileTable = s.toFileTable

section Exact

variable {env : Env Int} {s : EventLoop} {xs : List (ℕ × TimeEvent)}

theorem Walk.exact {c : Pass} {V R : List TimeEvent} {front : List (ℕ × TimeEvent)}
    {seg : List (Event Int)} (ok : Ok s xs) (walk : Walk env s c V R front [] seg)
    (all : V ++ R = pending env s xs) :
    ExactPass env s c.loop (pending env s xs) (front.map Prod.snd) c.processed seg := by
  have ids : ((V ++ R).map TimeEvent.id).Nodup := by
    rw [all, pending_ids]
    exact ok.ids
  have deleted : ∀ x ∈ R, x.id ∈ deletedIn seg := by
    have none := List.filter_eq_nil_iff.mp walk.behind.symm
    simpa using none
  have unreached : R.filter (fun te => !deletedFirst te seg) = [] := by
    refine List.filter_eq_nil_iff.mpr fun x hx => ?_
    have apart : ∀ y ∈ V, y.id ≠ x.id := fun y hy same => by
      rw [List.map_append] at ids
      exact List.disjoint_of_nodup_append ids (List.mem_map_of_mem hy)
        (List.mem_map.mpr ⟨x, hx, same.symm⟩)
    simp [deletedFirst_of_deleted (deleted x hx) (walk.untouched apart).1]
  have visits : (reachedIn seg).map Prod.fst =
      (pending env s xs).filter fun te => !deletedFirst te seg := by
    rw [← all, List.filter_append, unreached, List.append_nil]
    exact walk.reached
  have called : (calledIn seg).Sublist (pending env s xs) := by
    rw [walk.account.calls]
    refine (List.filter_sublist.map _).trans ?_
    rw [visits]
    exact List.filter_sublist
  refine ⟨walk.trace, visits, walk.account, ?_, walk.account.armed.rearmedAt, ?_, ?_, ?_, ?_,
    walk.lastTime, walk.files⟩
  · intro pre te now occurs normal
    have single : (((reachedIn seg).map Prod.fst).map TimeEvent.id).Nodup := by
      rw [all] at ids
      rw [visits]
      exact ids.sublist (List.filter_sublist.map _)
    rw [List.map_map] at single
    rw [walk.account.mem_called single (mem_reachedIn.mpr occurs.mem),
      walk.account.readings pre te now occurs, due_iff normal (aeGetTime_normal _),
      millis_aeGetTime]
  · rw [all] at ids
    exact ids.sublist (called.map _)
  · intro te hte taken
    obtain ⟨x, hx, same⟩ := List.mem_map.mp taken
    have old := pending_low env ok (called.subset hx)
    have new := walk.newIds te hte
    omega
  · intro back clock
    have due : ∀ r ∈ reachedIn seg, Due r.1.deadline r.2 := by
      rintro ⟨te, now⟩ hr
      obtain ⟨pre, occurs⟩ := exists_occurs (mem_reachedIn.mp hr)
      have now_eq := walk.account.readings pre te now occurs
      have listed : te ∈ pending env s xs := by
        have reached : te ∈ (reachedIn seg).map Prod.fst := List.mem_map_of_mem hr
        rw [visits] at reached
        exact List.mem_of_mem_filter reached
      rw [pending, if_pos back] at listed
      obtain ⟨x, -, rfl⟩ := List.mem_map.mp listed
      rw [now_eq]
      exact .inl (clock _ (by omega))
    rw [walk.account.calls, ← visits, List.filter_eq_self.mpr (by simpa using due)]
  · rw [walk.before, ← all, List.filterMap_append,
      List.filterMap_eq_nil_iff.mpr fun x hx => survivor_of_deleted (deleted x hx),
      List.append_nil]

theorem pass_exact (gentle : Gentle env) (ok : Ok s xs) :
    ∃ fuel t ys n seg, processTimeEvents env fuel s = some (t, n) ∧ Ok t ys ∧
      ExactPass env s t (pending env s xs) (ys.map Prod.snd) n seg := by
  obtain ⟨ys, start⟩ := Walk.start env ok
  have ids : (([] ++ pending env s xs).map TimeEvent.id).Nodup := by
    rw [List.nil_append, pending_ids]
    exact ok.ids
  obtain ⟨c, V, R, front, seg, walk, all⟩ :=
    start.complete gentle ids fun x hx => pending_low env ok hx
  have exit : passStep env (s.timeEventNextId - 1) c = none := by
    rw [passStep, if_neg (by simp [walk.ok.undef]), walk.cursor]
    rfl
  obtain ⟨fuel, run⟩ := WhileLoop.run_of_visits walk.visited exit
  refine ⟨fuel, c.loop, front, c.processed, seg, ?_, by simpa using walk.ok, walk.exact ok all⟩
  rw [processTimeEvents, run, Option.map_some]

theorem run_ok (gentle : Gentle env) (run : Run env (fun _ _ => True) s) : ∃ xs, Ok s xs := by
  refine WhileLoop.Reach.invariant (fun s => ∃ xs, Ok s xs) ?_ ?_ run
  · rintro s ⟨mem, setsize, h⟩
    exact ⟨[], start_ok h⟩
  · rintro s op t ⟨xs, ok⟩ - step
    cases step with
    | timer call =>
        obtain ⟨new, seg, ran⟩ := runCalls_ran env [call] ok
        exact ⟨_, ran.ok⟩
    | file op => exact ⟨xs, ok.same rfl rfl rfl⟩
    | resize mem setsize =>
        obtain ⟨undef, timers, next⟩ := aeResizeSetSize_timers mem s setsize
        exact ⟨xs, ok.same undef timers next⟩
    | pass h =>
        obtain ⟨fuel, u, ys, n, seg, hu, after, -⟩ := pass_exact gentle ok
        rw [(Prod.mk.inj (processTimeEvents_unique h hu)).1]
        exact ⟨ys, after⟩

end Exact

/-- A clock that goes back, and a timer whose callback creates one, deletes another and ends, with
a finalizer that creates one more. -/
def editingEnv : Env Int where
  gettimeofday k := Timeval.ofMillis (90000 - k)
  time k := 90 - k
  timeProc _ te := if te.id = 2 then ⟨[.create 0 3 4 none, .delete 1], AE_NOMORE⟩ else ⟨[], 5⟩
  finalizerProc _ _ := [.create 7 3 4 none]

theorem editingEnv_gentle : Gentle editingEnv where
  callbacks tr te h := by
    simp only [editingEnv] at h
    split_ifs at h with second
    · simp [second] at h
    · simp at h
  finalizers tr te id h := by
    simp [editingEnv] at h

def edited : EventLoop :=
  runCalls editingEnv (fresh editingEnv)
    [.create 1000 3 4 none, .create 2000 3 4 none, .create 3000 3 4 (some 5)]

theorem edited_run : Run editingEnv (fun _ _ => True) edited :=
  .move (.move (.move (fresh_run _ _) trivial (.timer _ (.create 1000 3 4 none))) trivial
    (.timer _ (.create 2000 3 4 none))) trivial (.timer _ (.create 3000 3 4 (some 5)))

end AeEventLoop.Ae
