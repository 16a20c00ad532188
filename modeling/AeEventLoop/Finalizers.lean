import AeEventLoop.AePass
import AeEventLoop.Ae2Pops
import AeEventLoop.Ae3Delete

/-! Who gets its finalizer run. A timer is dropped for good when its callback returns `AE_NOMORE`
or when a pass finds it marked deleted. `ae.c` runs the finalizer of each such timer once;
`ae2.cpp` runs it for marked timers only, and `ae3.cpp` never does. -/

namespace AeEventLoop

section Contract

variable {κ : Type}

@[simp] def Event.dropped? : Event κ → Option TimeEvent
  | .returned te retval => if retval = AE_NOMORE then some te else none
  | .discarded te => some te
  | _ => none

def droppedIn (tr : List (Event κ)) : List TimeEvent := tr.filterMap Event.dropped?

@[simp] theorem droppedIn_nil : droppedIn ([] : List (Event κ)) = [] := rfl

@[simp] theorem droppedIn_cons (e : Event κ) (tr : List (Event κ)) :
    droppedIn (e :: tr) = e.dropped?.toList ++ droppedIn tr := filterMap_cons_toList _ _ _

@[simp] theorem droppedIn_append (a b : List (Event κ)) :
    droppedIn (a ++ b) = droppedIn a ++ droppedIn b := List.filterMap_append

theorem droppedIn_of_user {tr : List (Event κ)} (user : ∀ e ∈ tr, UserEvent e) :
    droppedIn tr = [] :=
  filterMap_of_user _ (fun e he => by cases e <;> simp_all [UserEvent]) user

theorem droppedIn_of_undiscarded {tr : List (Event κ)} (none : discardedIn tr = []) :
    droppedIn tr = ((returnedIn tr).filter fun r => r.2 = AE_NOMORE).map Prod.fst := by
  induction tr with
  | nil => rfl
  | cons e tr ih =>
      rw [discardedIn_cons, List.append_eq_nil_iff] at none
      rw [droppedIn_cons, returnedIn_cons, List.filter_append, List.map_append, ih none.2]
      congr 1
      cases e with
      | returned te r => by_cases last : r = AE_NOMORE <;> simp [last]
      | discarded te => simp at none
      | _ => simp

def owedIn (tr : List (Event κ)) : List TimeEvent :=
  (droppedIn tr).filter fun te => te.finalizerProc.isSome

@[simp] theorem owedIn_append (a b : List (Event κ)) :
    owedIn (a ++ b) = owedIn a ++ owedIn b := by
  simp [owedIn]

/-- Every dropped timer's finalizer ran exactly once, nobody else's did, and nobody whose
finalizer ran is among the timers `stored` afterwards. `seen` is the record as the finalizer's
caller has it. -/
structure FinalizersExact (seen : TimeEvent → TimeEvent) (tr : List (Event κ))
    (stored : TimeEvent → Prop) : Prop where
  calls : finalizedIn tr = (owedIn tr).map seen
  data : ∀ te, (seen te).clientData = te.clientData ∧ (seen te).finalizerProc = te.finalizerProc
  once : ((owedIn tr).map TimeEvent.id).Nodup
  gone : ∀ te ∈ owedIn tr, ∀ x, stored x → x.id ≠ te.id

end Contract

namespace Ae

theorem ExactPass.finalizers {env : Env Int} {s t : EventLoop} {old after : List TimeEvent}
    {n : Int} {seg : List (Event Int)}
    (h : ExactPass env s t old after n seg) :
    FinalizersExact markDeleted seg fun x => x ∈ after := by
  have dropped := droppedIn_of_undiscarded h.account.undiscarded
  have owed : (owedIn seg).Sublist (calledIn seg) := by
    refine List.filter_sublist.trans ?_
    rw [dropped, ← h.account.returned]
    exact List.filter_sublist.map _
  refine ⟨?_, fun te => ⟨rfl, rfl⟩, h.once.sublist (owed.map _), ?_⟩
  · rw [h.account.finalized, dueFinalizers, owedIn, dropped, List.filter_map, List.filter_filter,
      List.map_map]
    congr 1
    refine List.filter_congr fun r _ => ?_
    simp [Bool.and_comm]
  · intro te hte x hx same
    have ended : te.id ∈ endedIn seg := by
      have mem := List.mem_of_mem_filter hte
      rw [dropped] at mem
      obtain ⟨r, hr, rfl⟩ := List.mem_map.mp mem
      exact List.mem_map.mpr ⟨r, hr, rfl⟩
    rw [h.after, List.mem_append, List.mem_reverse] at hx
    rcases hx with new | old
    · refine h.fresh x (List.mem_of_mem_filter new) ?_
      rw [same]
      exact List.mem_map_of_mem (owed.subset hte)
    · obtain ⟨y, -, left⟩ := List.mem_filterMap.mp old
      have id : y.id = te.id := (survivor_id left).symm.trans same
      rw [survivor, if_pos (.inr (id ▸ ended))] at left
      cases left

end Ae

namespace Ae2

open PriorityQueue

variable {Q : Type} [PriorityQueue Q TimeEvent Earlier]

/-- The turn pops the timer it runs, and a timer it ends has no finalizer. -/
structure OwesNothing (env : Env Int) (now : Int × Int) (s : EventLoop Q) : Prop where
  calm : Calm env now s
  ends : ∀ te, top s.timeMinHead = some te → te.id ∉ s.setDelTimeId → Due te.deadline now →
    (env.timeProc (s.trace ++ [.reached te now]) te).retval = AE_NOMORE → te.finalizerProc = none

def OwesNothingStep (env : Env Int) (s : EventLoop Q) (op : Op Int) : Prop :=
  op = .pass → ∀ c, PassVisits env s c → OwesNothing env (snapshot env s) c.1

section Finalizers

variable {env : Env Int} {now : Int × Int} {s t : EventLoop Q} {n m : Int}

theorem turn_finalizers (here : OwesNothing env now s)
    (body : passStep env now (s, n) = some (t, m)) :
    ∃ seg, t.trace = s.trace ++ seg ∧ finalizedIn seg = owedIn seg := by
  obtain ⟨te, front, user, back, again, turn, shape⟩ := calm_turn here.calm body
  refine ⟨_, turn.trace, ?_⟩
  have finalized := finalizedIn_of_user turn.isUser
  have dropped := droppedIn_of_user turn.isUser
  cases shape with
  | discard _ marked =>
      by_cases present : te.finalizerProc.isSome
      · simp [owedIn, present, finalized, dropped]
      · simp [owedIn, present, finalized, dropped]
  | fire _ _ live due last =>
      have blind : droppedIn (again.map (Event.rearmed (κ := Int))) = [] :=
        filterMap_map_rearmed _ (fun _ => rfl) again
      by_cases ended : (env.timeProc (s.trace ++ [.reached te now]) te).retval = AE_NOMORE
      · have without := here.ends te turn.top live due ended
        simp [owedIn, ended, without, finalized, dropped, blind]
      · simp [owedIn, ended, finalized, dropped, blind]

theorem pass_finalizers (sound : Sound s)
    (owes : ∀ c, PassVisits env s c → OwesNothing env (snapshot env s) c.1)
    {c : EventLoop Q × Int} (visited : PassVisits env s c) :
    ∃ seg, c.1.trace = s.trace ++ seg ∧
      FinalizersExact id seg fun x => x ∈ elems c.1.timeMinHead := by
  have calls : ∃ seg, c.1.trace = s.trace ++ seg ∧ finalizedIn seg = owedIn seg := by
    refine WhileLoop.visits_invariant
      (fun c : EventLoop Q × Int => ∃ seg, c.1.trace = s.trace ++ seg ∧ finalizedIn seg = owedIn seg)
      (fun c => OwesNothing env (snapshot env s) c.1) ?_ owes ⟨[], by simp, rfl⟩ visited
    rintro ⟨a, i⟩ ⟨b, j⟩ ⟨seg, trace, exact'⟩ here body
    obtain ⟨new, trace', exact''⟩ := turn_finalizers here body
    refine ⟨seg ++ new, ?_, ?_⟩
    · rw [trace', trace, List.append_assoc]
    · rw [finalizedIn_append, owedIn_append, exact', exact'']
  obtain ⟨seg, trace, exact'⟩ := calls
  have after : Sound c.1 := (calmPass_sound sound (fun c hc => (owes c hc).calm) visited).1
  have inTrace : ∀ te ∈ owedIn seg, te ∈ finalizedIn c.1.trace := by
    intro te hte
    rw [trace, finalizedIn_append, exact']
    exact List.mem_append_right _ hte
  refine ⟨seg, trace, by simpa using exact', fun te => ⟨rfl, rfl⟩, ?_, ?_⟩
  · have once := after.finalizedOnce
    rw [trace, finalizedIn_append, List.map_append, exact'] at once
    exact (List.nodup_append.mp once).2.1
  · exact fun te hte => (after.buried te (inTrace te hte)).2

theorem OwesNothingStep.calm {op : Op Int} (h : OwesNothingStep env s op) : CalmStep env s op :=
  fun isPass c visited => (h isPass c visited).calm

end Finalizers

end Ae2

namespace Ae3

open TimeEventMap

def SparesOwn (env : Env TimeEvent) : Prop :=
  ∀ tr te x, .delete x ∈ (env.timeProc tr te).calls → x.id ≠ te.id

def OwesNothing (env : Env TimeEvent) (c : Pass) : Prop :=
  ∀ k id te, c.cursor = .inner k (some id) → (bucket c.loop.timeEventMap k).find? id = some te →
    (env.timeProc c.loop.trace te).retval = AE_NOMORE → te.finalizerProc = none

def OwesNothingStep (env : Env TimeEvent) (s : EventLoop) (op : Op TimeEvent) : Prop :=
  op = .pass → ∀ c, PassVisits env s c → OwesNothing env c

section Finalizers

variable {env : Env TimeEvent} {s : EventLoop} {c c' : Pass}

structure Sits (c : Pass) : Prop where
  undef : c.loop.undef = false
  sit : ∀ k id, c.cursor = .inner k (some id) → ∃ x ∈ bucket c.loop.timeEventMap k, x.id = id

theorem runCalls_spares {k : Int} {te : TimeEvent} (calls : List (TimerCall TimeEvent))
    (spares : ∀ x, .delete x ∈ calls → x.id ≠ te.id) (h : te ∈ bucket s.timeEventMap k) :
    te ∈ bucket (runCalls env s calls).timeEventMap k := by
  induction calls generalizing s with
  | nil => exact h
  | cons call calls ih =>
      have rest : ∀ x, .delete x ∈ calls → x.id ≠ te.id :=
        fun x hx => spares x (List.mem_cons_of_mem _ hx)
      cases call with
      | create ms proc data fin => exact ih rest (bucket_insertTimer h)
      | delete x =>
          exact ih rest (bucket_eraseTimer h (spares x List.mem_cons_self).symm)

theorem Sits.step {bound : Int} (spares : SparesOwn env) (h : Sits c) (owes : OwesNothing env c)
    (body : passStep env bound c = some c') :
    Sits c' ∧ ∃ seg, c'.loop.trace = c.loop.trace ++ seg ∧ finalizedIn seg = [] ∧
      owedIn seg = [] := by
  unfold passStep at body
  rw [if_neg (by simp [h.undef])] at body
  split at body
  next => cases body
  next k cursor =>
      split_ifs at body
      obtain rfl := Option.some.inj body
      refine ⟨⟨h.undef, fun k' id same => ?_⟩, [], by simp, rfl, rfl⟩
      injection same with hk hid
      rw [← hk]
      obtain ⟨x, hx, rfl⟩ := Option.map_eq_some_iff.mp hid
      exact ⟨x, List.mem_of_head? hx, rfl⟩
  next k id cursor =>
      obtain ⟨te, hte, rfl⟩ := h.sit k id cursor
      have found : (bucket c.loop.timeEventMap k).find? te.id = some te :=
        KeyedSet.find?_eq_some.mpr ⟨hte, rfl⟩
      rw [found] at body
      obtain rfl := Option.some.inj body
      have kept : te ∈ bucket (runCalls env (log c.loop (.called te))
          (script env c te).calls).timeEventMap k :=
        runCalls_spares _ (fun x hx => spares _ te x hx) hte
      rcases fire_cases env c k te with ⟨user, ran, -, -, gone⟩ | ⟨user, again, fired⟩
      · rw [ran.map] at kept
        exact absurd rfl (gone te kept)
      · refine ⟨⟨fired.undef.trans h.undef, fun k' id same => ?_⟩, _, fired.trace, ?_, ?_⟩
        · rw [fired.cursor] at same
          injection same with hk hid
          rw [← hk]
          obtain ⟨x, hx, rfl⟩ := Option.map_eq_some_iff.mp hid
          exact ⟨x, (KeyedSet.mem_above.mp (List.mem_of_head? hx)).1, rfl⟩
        · simp [finalizedIn_of_user fired.ran.user]
        · have blind : droppedIn (again.map (Event.rearmed (κ := TimeEvent))) = [] :=
            filterMap_map_rearmed _ (fun _ => rfl) again
          have dropped := droppedIn_of_user fired.ran.user
          by_cases ended : (script env c te).retval = AE_NOMORE
          · have without := owes k te.id te cursor found ended
            simp [owedIn, ended, without, dropped, blind]
          · simp [owedIn, ended, dropped, blind]
  next k cursor =>
      obtain rfl := Option.some.inj body
      refine ⟨⟨h.undef, fun k' id same => ?_⟩, [], by simp, rfl, rfl⟩
      cases same

theorem pass_finalizers (spares : SparesOwn env) (undef : s.undef = false)
    (owes : ∀ c, PassVisits env s c → OwesNothing env c) (visited : PassVisits env s c) :
    c.loop.undef = false ∧ ∃ seg, c.loop.trace = s.trace ++ seg ∧
      FinalizersExact id seg fun x => x ∈ timers c.loop.timeEventMap := by
  have walk : Sits c ∧ ∃ seg, c.loop.trace = s.trace ++ seg ∧ finalizedIn seg = [] ∧
      owedIn seg = [] := by
    refine WhileLoop.visits_invariant (fun c : Pass => Sits c ∧ ∃ seg,
        c.loop.trace = s.trace ++ seg ∧ finalizedIn seg = [] ∧ owedIn seg = [])
      (OwesNothing env) ?_ owes ?_ visited
    · rintro a b ⟨sits, seg, trace, none, none'⟩ here body
      obtain ⟨sits', new, trace', silent, silent'⟩ := sits.step spares here body
      refine ⟨sits', seg ++ new, ?_, ?_, ?_⟩
      · rw [trace', trace, List.append_assoc]
      · rw [finalizedIn_append, none, silent, List.append_nil]
      · rw [owedIn_append, none', silent', List.append_nil]
    · exact ⟨⟨undef, fun k id same => by cases same⟩, [], by simp [passStart], rfl, rfl⟩
  obtain ⟨sits, seg, trace, none, none'⟩ := walk
  exact ⟨sits.undef, seg, trace, by simp [none, none'], fun te => ⟨rfl, rfl⟩, by simp [none'],
    by simp [none']⟩

theorem run_defined (spares : SparesOwn env) (run : Run env (OwesNothingStep env) s) :
    s.undef = false := by
  refine WhileLoop.Reach.invariant (fun s => s.undef = false) ?_ ?_ run
  · rintro s ⟨mem, setsize, h⟩
    obtain ⟨l, hl, rfl⟩ := Option.map_eq_some_iff.mp h
    rfl
  · intro s op t undef owes step
    cases step with
    | timer call => cases call <;> exact undef
    | file op => exact undef
    | resize mem setsize =>
        unfold aeResizeSetSize
        split_ifs <;> exact undef
    | pass h =>
        obtain ⟨c, hc, eq⟩ := Option.map_eq_some_iff.mp h
        obtain ⟨walked, -⟩ := pass_finalizers spares undef (owes rfl) (WhileLoop.run_visits hc)
        rw [finish, if_neg (by simp [walked])] at eq
        obtain ⟨rfl, -⟩ := Prod.mk.inj eq
        exact walked

end Finalizers

end Ae3

/-- The finalizer contract over runs: `ae.c` keeps it in every pass, `ae2.cpp` in every pass whose
turns pop the timer they run and end only timers without a finalizer, `ae3.cpp` in every pass that
ends only timers without a finalizer. Passes of the last two may be still going on. -/
theorem run_finalizers_exact {Q : Type} [PriorityQueue Q TimeEvent Ae2.Earlier] :
    (∀ env (s : Ae.EventLoop), Ae.Gentle env → Ae.Run env (fun _ _ => True) s →
      ∃ fuel t ys n seg, Ae.processTimeEvents env fuel s = some (t, n) ∧ Ae.Ok t ys ∧
        t.trace = s.trace ++ seg ∧
        FinalizersExact Ae.markDeleted seg fun x => x ∈ ys.map Prod.snd) ∧
    (∀ env (s : Ae2.EventLoop Q), Ae2.Run env (Ae2.OwesNothingStep env) s →
      Ae2.OwesNothingStep env s .pass → ∀ c, Ae2.PassVisits env s c →
        ∃ seg, c.1.trace = s.trace ++ seg ∧
          FinalizersExact id seg fun x => x ∈ PriorityQueue.elems c.1.timeMinHead) ∧
    ∀ env (s : Ae3.EventLoop), Ae3.SparesOwn env → Ae3.Run env (Ae3.OwesNothingStep env) s →
      Ae3.OwesNothingStep env s .pass → ∀ c, Ae3.PassVisits env s c →
        c.loop.undef = false ∧ ∃ seg, c.loop.trace = s.trace ++ seg ∧
          FinalizersExact id seg fun x => x ∈ c.loop.timeEventMap.timers := by
  refine ⟨fun env s gentle run => ?_, fun env s run owes c visited => ?_,
    fun env s spares run owes c visited => ?_⟩
  · obtain ⟨xs, ok⟩ := Ae.run_ok gentle run
    obtain ⟨fuel, t, ys, n, seg, h, after, exact'⟩ := Ae.pass_exact gentle ok
    exact ⟨fuel, t, ys, n, seg, h, after, exact'.trace, exact'.finalizers⟩
  · have sound := Ae2.run_sound (run.mono fun s op owes => owes.calm)
    exact Ae2.pass_finalizers sound (owes rfl) visited
  · exact Ae3.pass_finalizers spares (Ae3.run_defined spares run) (owes rfl) visited

theorem stillEnv_calm (now : Int × Int) (s : Ae2.EventLoop (SortedQueue TimeEvent Ae2.Earlier)) :
    Ae2.Calm (stillEnv Int) now s := by
  intro te _ d hd
  have none : Ae2.turnCalls (stillEnv Int) now s te = [] := by
    unfold Ae2.turnCalls
    split_ifs <;> rfl
  rw [none] at hd
  exact absurd hd List.not_mem_nil

/-- A timer with a finalizer that ends in `ae.c`, one that is deleted in `ae2.cpp`, and two timers
without one that end in `ae3.cpp`. -/
theorem run_finalizers_exact_still :
    (∃ s fuel t ys n seg, Ae.Run (stillEnv Int) (fun _ _ => True) s ∧
      Ae.processTimeEvents (stillEnv Int) fuel s = some (t, n) ∧ Ae.Ok t ys ∧
      t.trace = s.trace ++ seg ∧ FinalizersExact Ae.markDeleted seg fun x => x ∈ ys.map Prod.snd) ∧
    (∃ (s : Ae2.EventLoop (SortedQueue TimeEvent Ae2.Earlier)) (c : _ × Int) (seg : _),
      Ae2.Run (stillEnv Int) (Ae2.OwesNothingStep (stillEnv Int)) s ∧
      Ae2.PassVisits (stillEnv Int) s c ∧ c.1.trace = s.trace ++ seg ∧
      (finalizedIn c.1.trace).map TimeEvent.clientData = [4] ∧
      FinalizersExact id seg fun x => x ∈ PriorityQueue.elems c.1.timeMinHead) ∧
    ∃ s c seg, Ae3.Run (stillEnv TimeEvent) (Ae3.OwesNothingStep (stillEnv TimeEvent)) s ∧
      Ae3.PassVisits (stillEnv TimeEvent) s c ∧ c.loop.trace = s.trace ++ seg ∧
      (calledIn c.loop.trace).map TimeEvent.id = [0, 1] ∧
      FinalizersExact id seg fun x => x ∈ c.loop.timeEventMap.timers := by
  obtain ⟨ae, ae2, ae3⟩ := run_finalizers_exact (Q := SortedQueue TimeEvent Ae2.Earlier)
  refine ⟨?_, ?_, ?_⟩
  · have run : Ae.Run (stillEnv Int) (fun _ _ => True)
        (Ae.runCall (stillEnv Int) (Ae.fresh (stillEnv Int)) (.create 0 3 4 (some 5))) :=
      .move (Ae.fresh_run _ _) trivial (.timer _ _)
    obtain ⟨fuel, t, ys, n, seg, h⟩ := ae _ _ ⟨by simp [stillEnv], by simp [stillEnv]⟩ run
    exact ⟨_, fuel, t, ys, n, seg, run, h⟩
  · let s₁ := Ae2.runCall (stillEnv Int) (Ae2.fresh (stillEnv Int)) (.create 9 3 4 (some 5))
    let s₂ := Ae2.runCall (stillEnv Int) s₁ (.delete 0)
    have run₁ : Ae2.Run (stillEnv Int) (Ae2.OwesNothingStep (stillEnv Int)) s₁ :=
      .move (i := .timer (.create 9 3 4 (some 5))) (Ae2.fresh_run _ _) (by rintro ⟨⟩) (.timer _ _)
    have run₂ : Ae2.Run (stillEnv Int) (Ae2.OwesNothingStep (stillEnv Int)) s₂ :=
      .move (i := .timer (.delete 0)) run₁ (by rintro ⟨⟩) (.timer _ _)
    have tested : WhileLoop.checkAll (Ae2.passStep (stillEnv Int) (Ae2.snapshot (stillEnv Int) s₂))
        (fun c => (PriorityQueue.top c.1.timeMinHead).all fun te => te.id ∈ c.1.setDelTimeId) 3
        ({ s₂ with tick := s₂.tick + 1 }, 0) = true := by decide
    have owes : Ae2.OwesNothingStep (stillEnv Int) s₂ .pass := by
      refine fun _ c visited => ⟨stillEnv_calm _ _, fun te htop live _ _ => ?_⟩
      have marked := WhileLoop.visits_of_checkAll tested visited
      rw [htop] at marked
      exact absurd (by simpa using marked) live
    have outcome : (Ae2.processTimeEvents (stillEnv Int) 3 s₂).map (fun c =>
        (finalizedIn c.1.trace).map TimeEvent.clientData) = some [4] := by decide
    obtain ⟨c, h, called⟩ := Option.map_eq_some_iff.mp outcome
    have visited : Ae2.PassVisits (stillEnv Int) s₂ c := WhileLoop.run_visits h
    obtain ⟨seg, trace, exact'⟩ := ae2 _ s₂ run₂ owes c visited
    exact ⟨s₂, c, seg, run₂, visited, trace, called, exact'⟩
  · let s₁ := Ae3.runCall (stillEnv TimeEvent) (Ae3.fresh (stillEnv TimeEvent)) (.create 0 3 4 none)
    let s₂ := Ae3.runCall (stillEnv TimeEvent) s₁ (.create 0 3 4 none)
    have run₂ : Ae3.Run (stillEnv TimeEvent) (Ae3.OwesNothingStep (stillEnv TimeEvent)) s₂ :=
      .move (i := .timer (.create 0 3 4 none)) (.move (i := .timer (.create 0 3 4 none))
        (Ae3.fresh_run _ _) (by rintro ⟨⟩) (.timer _ _)) (by rintro ⟨⟩) (.timer _ _)
    have tested : WhileLoop.checkAll (Ae3.passStep (stillEnv TimeEvent)
        (Ae3.lNow (stillEnv TimeEvent) s₂)) (fun c => c.loop.timeEventMap.elems.all fun p =>
          p.2.elems.all fun te => te.finalizerProc.isNone) 7 (Ae3.passStart s₂) = true := by decide
    have owes : Ae3.OwesNothingStep (stillEnv TimeEvent) s₂ .pass := by
      intro _ c visited k id te _ found _
      have none := WhileLoop.visits_of_checkAll tested visited
      simp only [List.all_eq_true] at none
      obtain ⟨p, hp, -, hte⟩ := Ae3.mem_bucket.mp (KeyedSet.find?_eq_some.mp found).1
      exact Option.isNone_iff_eq_none.mp (none p hp te hte)
    have outcome : (WhileLoop.run (Ae3.passStep (stillEnv TimeEvent)
        (Ae3.lNow (stillEnv TimeEvent) s₂)) 7 (Ae3.passStart s₂)).map (fun c =>
          (calledIn c.loop.trace).map TimeEvent.id) = some [0, 1] := by decide
    obtain ⟨c, h, called⟩ := Option.map_eq_some_iff.mp outcome
    have visited : Ae3.PassVisits (stillEnv TimeEvent) s₂ c := WhileLoop.run_visits h
    obtain ⟨-, seg, trace, exact'⟩ := ae3 _ s₂ (by simp [Ae3.SparesOwn, stillEnv]) run₂ owes c visited
    exact ⟨s₂, c, seg, run₂, visited, trace, called, exact'⟩

/-- A timer with a finalizer that ends: neither `ae2.cpp` nor `ae3.cpp` runs it. -/
theorem finalizers_exact_fails_ended :
    (∃ (s t : Ae2.EventLoop (SortedQueue TimeEvent Ae2.Earlier)) (fuel : ℕ) (n : Int),
      Ae2.Run (stillEnv Int) (fun _ _ => True) s ∧
      Ae2.processTimeEvents (stillEnv Int) fuel s = some (t, n) ∧
      ∀ seg, t.trace = s.trace ++ seg →
        ¬ FinalizersExact id seg fun x => x ∈ PriorityQueue.elems t.timeMinHead) ∧
    ∃ (s t : Ae3.EventLoop) (fuel : ℕ) (n : Int),
      Ae3.Run (stillEnv TimeEvent) (fun _ _ => True) s ∧
      Ae3.processTimeEvents (stillEnv TimeEvent) fuel s = some (t, n) ∧
      ∀ seg, t.trace = s.trace ++ seg →
        ¬ FinalizersExact id seg fun x => x ∈ t.timeEventMap.timers := by
  constructor
  · let s₁ := Ae2.runCall (stillEnv Int) (Ae2.fresh (stillEnv Int)) (.create 0 3 4 (some 5))
    have outcome : (Ae2.processTimeEvents (stillEnv Int) 3 s₁).map (fun c =>
        (finalizedIn c.1.trace, (owedIn c.1.trace).length)) = some ([], 1) := by decide
    obtain ⟨⟨t, n⟩, h, facts⟩ := Option.map_eq_some_iff.mp outcome
    simp only [Prod.mk.injEq] at facts
    refine ⟨s₁, t, 3, n, .move (Ae2.fresh_run _ _) trivial (.timer _ _), h, fun seg trace exact' => ?_⟩
    have before : owedIn s₁.trace = [] ∧ finalizedIn s₁.trace = [] := by decide
    rw [trace, finalizedIn_append, owedIn_append, before.1, before.2, List.nil_append,
      List.nil_append] at facts
    have calls := congrArg List.length exact'.calls
    rw [facts.1, List.length_map, facts.2] at calls
    cases calls
  · let s₁ := Ae3.runCall (stillEnv TimeEvent) (Ae3.fresh (stillEnv TimeEvent))
      (.create 0 3 4 (some 5))
    have outcome : (Ae3.processTimeEvents (stillEnv TimeEvent) 5 s₁).map (fun c =>
        (finalizedIn c.1.trace, (owedIn c.1.trace).length)) = some ([], 1) := by decide
    obtain ⟨⟨t, n⟩, h, facts⟩ := Option.map_eq_some_iff.mp outcome
    simp only [Prod.mk.injEq] at facts
    refine ⟨s₁, t, 5, n, .move (Ae3.fresh_run _ _) trivial (.timer _ _), h, fun seg trace exact' => ?_⟩
    have before : owedIn s₁.trace = [] ∧ finalizedIn s₁.trace = [] := by decide
    rw [trace, finalizedIn_append, owedIn_append, before.1, before.2, List.nil_append,
      List.nil_append] at facts
    have calls := congrArg List.length exact'.calls
    rw [facts.1, List.length_map, facts.2] at calls
    cases calls

end AeEventLoop
