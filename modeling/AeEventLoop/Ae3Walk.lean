import AeEventLoop.Ae3Steps

/-! The walk of `ae3.cpp` under arbitrary callbacks, return values and clock. While it goes on the
map changes by user code alone: nothing is taken out but by deletes, and what is created is either
ahead of the cursor or behind it. The invariant says where each timer is relative to the cursor;
it lasts as long as no callback deletes the very element its iterators are at. -/

namespace AeEventLoop.Ae3

open TimeEventMap

/-- A delete in `tr` named the stored record `x`: its id, and a deadline with its key. -/
def Erased (tr : List (Event TimeEvent)) (x : TimeEvent) : Prop :=
  ∃ d ∈ deletedIn tr, d.id = x.id ∧ timeKey d = timeKey x

section Effect

variable {m : TimeEventMap} {seg : List (Event TimeEvent)}

theorem erased_cons {e : Event TimeEvent} {x : TimeEvent} :
    Erased (e :: seg) x ↔
      (∃ d, e.deleted? = some d ∧ d.id = x.id ∧ timeKey d = timeKey x) ∨ Erased seg x := by
  simp only [Erased, deletedIn_cons, List.mem_append, Option.mem_toList]
  constructor
  · rintro ⟨d, here | later, same⟩
    · exact .inl ⟨d, here, same⟩
    · exact .inr ⟨d, later, same⟩
  · rintro (⟨d, here, same⟩ | ⟨d, later, same⟩)
    · exact ⟨d, .inl here, same⟩
    · exact ⟨d, .inr later, same⟩

theorem erased_append {a b : List (Event TimeEvent)} {x : TimeEvent} :
    Erased (a ++ b) x ↔ Erased a x ∨ Erased b x := by
  simp only [Erased, deletedIn_append, List.mem_append]
  constructor
  · rintro ⟨d, early | late, same⟩
    · exact .inl ⟨d, early, same⟩
    · exact .inr ⟨d, late, same⟩
  · rintro (⟨d, early, same⟩ | ⟨d, late, same⟩)
    · exact ⟨d, .inl early, same⟩
    · exact ⟨d, .inr late, same⟩

structure Edited (m m' : TimeEventMap) (seg : List (Event TimeEvent)) : Prop where
  map : MapOk m'
  source : ∀ x ∈ timers m', x ∈ timers m ∨ x ∈ createdIn seg
  kept : ∀ x, x ∈ timers m ∨ x ∈ createdIn seg → ¬ Erased seg x → x ∈ timers m'
  gone : ∀ x ∈ timers m, Erased seg x → x ∉ timers m'

theorem Edited.cons_created {te : TimeEvent} (free : ∀ x ∈ timers m, x.id ≠ te.id)
    {m' : TimeEventMap} (h : Edited (insertTimer m te) m' seg) :
    Edited m m' (.created te :: seg) := by
  refine ⟨h.map, fun x hx => ?_, fun x hx alive => ?_, fun x hx dead => ?_⟩
  · rcases h.source x hx with old | new
    · rcases (mem_insertTimer free).mp old with old | rfl
      · exact .inl old
      · exact .inr (by simp)
    · exact .inr (by simp [new])
  · have alive' : ¬ Erased seg x := fun dead => alive (erased_cons.mpr (.inr dead))
    rcases hx with old | new
    · exact h.kept x (.inl ((mem_insertTimer free).mpr (.inl old))) alive'
    · simp only [createdIn_cons, Event.created?, Option.toList_some, List.singleton_append,
        List.mem_cons] at new
      rcases new with rfl | later
      · exact h.kept x (.inl ((mem_insertTimer free).mpr (.inr rfl))) alive'
      · exact h.kept x (.inr later) alive'
  · rcases erased_cons.mp dead with ⟨d, none, -⟩ | later
    · cases none
    · exact h.gone x ((mem_insertTimer free).mpr (.inl hx)) later

theorem Edited.cons_deleted (ok : MapOk m) {d : TimeEvent}
    (free : ∀ te ∈ createdIn seg, ∀ x ∈ timers m, x.id ≠ te.id) {m' : TimeEventMap}
    (h : Edited (eraseTimer m d) m' seg) : Edited m m' (.deleted d AE_OK :: seg) := by
  refine ⟨h.map, fun x hx => ?_, fun x hx alive => ?_, fun x hx dead => ?_⟩
  · rcases h.source x hx with old | new
    · exact .inl (ok.mem_eraseTimer.mp old).1
    · exact .inr (by simpa using new)
  · have other : ¬ (x.id = d.id ∧ timeKey x = timeKey d) := fun same =>
      alive (erased_cons.mpr (.inl ⟨d, rfl, same.1.symm, same.2.symm⟩))
    have alive' : ¬ Erased seg x := fun dead => alive (erased_cons.mpr (.inr dead))
    rcases hx with old | new
    · exact h.kept x (.inl (ok.mem_eraseTimer.mpr ⟨old, other⟩)) alive'
    · exact h.kept x (.inr (by simpa using new)) alive'
  · by_cases hit : x.id = d.id ∧ timeKey x = timeKey d
    · intro still
      rcases h.source x still with old | new
      · exact (ok.mem_eraseTimer.mp old).2 hit
      · exact free x new x hx rfl
    · rcases erased_cons.mp dead with ⟨d', same, key⟩ | later
      · obtain rfl : d = d' := by simpa using same
        exact absurd ⟨key.1.symm, key.2.symm⟩ hit
      · exact h.gone x (ok.mem_eraseTimer.mpr ⟨hx, hit⟩) later

theorem MapOk.edited (ok : MapOk m) (user : ∀ e ∈ seg, UserEvent e)
    (asked : ∀ d ret, .deleted d ret ∈ seg → ret = AE_OK)
    (free : ∀ te ∈ createdIn seg, ∀ x ∈ timers m, x.id ≠ te.id)
    (nodup : ((createdIn seg).map TimeEvent.id).Nodup) : Edited m (seg.foldl effect m) seg := by
  induction seg generalizing m with
  | nil =>
      refine ⟨ok, fun x hx => .inl hx, fun x hx _ => by simpa using hx, fun x _ dead => ?_⟩
      obtain ⟨d, hd, -⟩ := dead
      cases hd
  | cons e seg ih =>
      have user' : ∀ e ∈ seg, UserEvent e := fun e he => user e (List.mem_cons_of_mem _ he)
      have asked' : ∀ d ret, .deleted d ret ∈ seg → ret = AE_OK := fun d ret h =>
        asked d ret (List.mem_cons_of_mem _ h)
      cases e with
      | created te =>
          simp only [createdIn_cons, Event.created?, Option.toList_some, List.singleton_append,
            List.map_cons, List.nodup_cons, List.mem_cons] at free nodup
          have here := free te (.inl rfl)
          refine (ih (ok.insertTimer here) user' asked' ?_ nodup.2).cons_created here
          intro te' hte' x hx same
          rcases (mem_insertTimer here).mp hx with old | rfl
          · exact free te' (.inr hte') x old same
          · exact nodup.1 (List.mem_map.mpr ⟨te', hte', same.symm⟩)
      | deleted d ret =>
          obtain rfl := asked d ret List.mem_cons_self
          have free' : ∀ te ∈ createdIn seg, ∀ x ∈ timers m, x.id ≠ te.id := free
          refine (ih (ok.eraseTimer d) user' asked' ?_ nodup).cons_deleted ok free'
          exact fun te hte x hx => free' te hte x (ok.mem_eraseTimer.mp hx).1
      | _ => exact absurd (user _ List.mem_cons_self) (by simp [UserEvent])

end Effect

namespace Cursor

def Ahead : Cursor → TimeEvent → Prop
  | .outer none, _ => False
  | .outer (some k), x => k ≤ timeKey x
  | .inner k (some id), x => k < timeKey x ∨ timeKey x = k ∧ id ≤ x.id
  | .inner k none, x => k < timeKey x

instance (cursor : Cursor) (x : TimeEvent) : Decidable (cursor.Ahead x) :=
  match cursor with
  | .outer none => inferInstanceAs (Decidable False)
  | .outer (some k) => inferInstanceAs (Decidable (k ≤ timeKey x))
  | .inner k (some id) => inferInstanceAs (Decidable (k < timeKey x ∨ timeKey x = k ∧ id ≤ x.id))
  | .inner k none => inferInstanceAs (Decidable (k < timeKey x))

def Past : Cursor → Int → Prop
  | .outer none, _ => True
  | .outer (some k), key => key < k
  | .inner k _, key => key < k

def Inside : Cursor → Int → Prop
  | .inner k _, key => key = k
  | .outer _, _ => False

theorem Past.not_ahead {cursor : Cursor} {x : TimeEvent} (past : cursor.Past (timeKey x)) :
    ¬ cursor.Ahead x := by
  cases cursor with
  | outer mit =>
      cases mit with
      | none => exact id
      | some k => exact not_le.mpr past
  | inner k sit =>
      have less : timeKey x < k := past
      cases sit with
      | none => exact less.asymm
      | some id =>
          rintro (more | ⟨same, -⟩)
          · omega
          · omega

end Cursor

/-- What holds all through the walk of a pass that started in `s` and wrote `seg`. -/
structure Walking (env : Env TimeEvent) (s : EventLoop) (c : Pass)
    (seg : List (Event TimeEvent)) : Prop where
  undef : c.loop.undef = false
  trace : c.loop.trace = s.trace ++ seg
  tick : s.tick ≤ c.loop.tick
  startIds : ∀ x ∈ timers s.timeEventMap, x.id < s.timeEventNextId
  nextId : s.timeEventNextId ≤ c.loop.timeEventNextId
  map : MapOk c.loop.timeEventMap
  below : ∀ x ∈ timers c.loop.timeEventMap, x.id < c.loop.timeEventNextId
  newIds : ∀ x ∈ createdIn seg, s.timeEventNextId ≤ x.id ∧ x.id < c.loop.timeEventNextId
  source : ∀ x ∈ timers c.loop.timeEventMap, x ∈ timers s.timeEventMap ∨ x ∈ createdIn seg
  kept : ∀ x, x ∈ timers s.timeEventMap ∨ x ∈ createdIn seg → ¬ Erased seg x →
    x ∈ timers c.loop.timeEventMap
  calledSource : ∀ x ∈ calledIn seg, x ∈ timers s.timeEventMap ∨ x ∈ createdIn seg
  calledLow : ∀ x ∈ calledIn seg, timeKey x ≤ lNow env s ∧ x.id < c.loop.timeEventNextId
  same : ∀ x ∈ calledIn seg, ∀ y ∈ timers c.loop.timeEventMap, x.id = y.id → x = y
  once : ((calledIn seg).map TimeEvent.id).Nodup
  behind : ∀ x ∈ calledIn seg, ¬ c.cursor.Ahead x
  calledKeys : ∀ x ∈ calledIn seg, timeKey x ∈ c.vecDelTimeMs ∨ c.cursor.Inside (timeKey x)
  dels : ∀ k ∈ c.vecDelTimeMs, c.cursor.Past k
  inside : ∀ k sit, c.cursor = .inner k sit → k ≤ lNow env s
  mit : ∀ k, c.cursor = .outer (some k) → ∃ p ∈ c.loop.timeEventMap, p.1 = k
  sit : ∀ k id, c.cursor = .inner k (some id) → ∃ x ∈ bucket c.loop.timeEventMap k, x.id = id
  old : ∀ x ∈ timers s.timeEventMap, x ∈ timers c.loop.timeEventMap →
    x ∈ calledIn seg ∨ c.cursor.Ahead x
  current : ∀ k sit, c.cursor = .inner k sit → ∀ x ∈ bucket c.loop.timeEventMap k,
    x ∈ calledIn seg ∨ c.cursor.Ahead x
  adds : c.vecAddTimeEvent = rearmedIn seg
  addIds : ((rearmedIn seg).map TimeEvent.id).Sublist ((calledIn seg).map TimeEvent.id)

/-- The callback about to be called does not delete the record it is called with. -/
def SparesRunning (env : Env TimeEvent) (c : Pass) : Prop :=
  ∀ k id te, c.cursor = .inner k (some id) → (bucket c.loop.timeEventMap k).find? id = some te →
    ∀ d, .delete d ∈ (script env c te).calls → ¬ (d.id = te.id ∧ timeKey d = k)

section Start

variable {env : Env TimeEvent} {s : EventLoop}

/-- Nothing undefined has happened, the map is as it should be, and ids are below the next one. -/
structure Sound (s : EventLoop) : Prop where
  undef : s.undef = false
  map : MapOk s.timeEventMap
  below : ∀ x ∈ timers s.timeEventMap, x.id < s.timeEventNextId

theorem Walking.start (sound : Sound s) : Walking env s (passStart s) [] := by
  refine ⟨sound.undef, by simp [passStart], Nat.le_succ _, sound.below, le_refl _, sound.map,
    sound.below, by simp, fun x hx => .inl hx, fun x hx _ => by simpa [passStart] using hx, by simp, by simp,
    by simp, by simp, by simp, by simp, by simp [passStart], ?_, ?_, ?_, ?_, ?_, rfl, by simp⟩
  · intro k sit cursor
    cases cursor
  · intro k cursor
    injection cursor with first
    obtain ⟨p, hp, rfl⟩ := Option.map_eq_some_iff.mp first
    exact ⟨p, List.mem_of_head? hp, rfl⟩
  · intro k id cursor
    cases cursor
  · intro x hx _
    right
    change (Cursor.outer (s.timeEventMap.first?.map Prod.fst)).Ahead x
    obtain ⟨p, hp, hxp⟩ := mem_timers.mp hx
    cases first : s.timeEventMap.first? with
    | none => exact absurd hp (KeyedSet.not_mem_of_first? first)
    | some q =>
        rw [Option.map_some]
        change q.1 ≤ timeKey x
        rw [sound.map.keyed p hp x hxp]
        exact KeyedSet.first?_le first hp
  · intro k sit cursor
    cases cursor

end Start

section Steps

variable {env : Env TimeEvent} {s : EventLoop} {c c' : Pass} {seg : List (Event TimeEvent)}

theorem ahead_first {m : TimeEventMap} (ok : MapOk m) {k : Int} {x : TimeEvent}
    (stored : x ∈ timers m) (reach : k ≤ timeKey x) :
    (Cursor.inner k ((bucket m k).first?.map TimeEvent.id)).Ahead x := by
  cases first : (bucket m k).first? with
  | none =>
      have other : timeKey x ≠ k := fun same =>
        KeyedSet.not_mem_of_first? first (ok.mem_bucket_iff.mpr ⟨stored, same⟩)
      change k < timeKey x
      omega
  | some y =>
      change k < timeKey x ∨ timeKey x = k ∧ y.id ≤ x.id
      rcases lt_or_eq_of_le reach with more | same
      · exact .inl more
      · exact .inr ⟨same.symm, KeyedSet.first?_le first (ok.mem_bucket_iff.mpr ⟨stored, same.symm⟩)⟩

theorem ahead_after {m : TimeEventMap} (ok : MapOk m) {k : Int} {x : TimeEvent}
    (stored : x ∈ timers m) (more : k < timeKey x) :
    (Cursor.outer ((m.next? k).map Prod.fst)).Ahead x := by
  obtain ⟨p, hp, hxp⟩ := mem_timers.mp stored
  have key := ok.keyed p hp x hxp
  cases next : m.next? k with
  | none =>
      have less := KeyedSet.le_of_next? next hp
      omega
  | some q =>
      change q.1 ≤ timeKey x
      rw [key]
      exact KeyedSet.next?_le next hp (key ▸ more)

theorem Walking.enter (walk : Walking env s c seg) {k : Int} (cursor : c.cursor = .outer (some k))
    (low : k ≤ lNow env s) :
    Walking env s { c with
      cursor := .inner k ((bucket c.loop.timeEventMap k).first?.map TimeEvent.id) } seg := by
  have notAhead : ∀ x : TimeEvent, ¬ c.cursor.Ahead x →
      ¬ (Cursor.inner k ((bucket c.loop.timeEventMap k).first?.map TimeEvent.id)).Ahead x := by
    intro x not
    rw [cursor] at not
    have less : timeKey x < k := not_le.mp not
    exact Cursor.Past.not_ahead less
  refine ⟨walk.undef, walk.trace, walk.tick, walk.startIds, walk.nextId, walk.map, walk.below, walk.newIds,
    walk.source, walk.kept, walk.calledSource, walk.calledLow, walk.same, walk.once,
    fun x hx => notAhead x (walk.behind x hx), ?_, ?_, ?_, ?_, ?_, ?_, ?_, walk.adds, walk.addIds⟩
  · intro x hx
    rcases walk.calledKeys x hx with done | inside
    · exact .inl done
    · rw [cursor] at inside
      exact inside.elim
  · intro key hkey
    have past := walk.dels key hkey
    rw [cursor] at past
    exact past
  · intro k' sit same
    injection same with hk
    rwa [← hk]
  · intro k' same
    cases same
  · intro k' id same
    injection same with hk hid
    obtain ⟨y, hy, rfl⟩ := Option.map_eq_some_iff.mp hid
    exact ⟨y, hk ▸ List.mem_of_head? hy, rfl⟩
  · intro x hx stored
    rcases walk.old x hx stored with called | reach
    · exact .inl called
    · rw [cursor] at reach
      exact .inr (ahead_first walk.map stored reach)
  · intro k' sit same x hx
    injection same with hk
    rw [← hk] at hx
    obtain ⟨stored, key⟩ := walk.map.mem_bucket_iff.mp hx
    exact .inr (ahead_first walk.map stored key.ge)

theorem Walking.leave (walk : Walking env s c seg) {k : Int} (cursor : c.cursor = .inner k none) :
    Walking env s { c with
      processed := c.processed + (bucket c.loop.timeEventMap k).elems.length
      vecDelTimeMs := c.vecDelTimeMs ++ [k]
      cursor := .outer ((c.loop.timeEventMap.next? k).map Prod.fst) } seg := by
  have past : ∀ key, key ≤ k →
      (Cursor.outer ((c.loop.timeEventMap.next? k).map Prod.fst)).Past key := by
    intro key less
    cases next : c.loop.timeEventMap.next? k with
    | none => trivial
    | some q => exact less.trans_lt (KeyedSet.mem_of_next? next).2
  refine ⟨walk.undef, walk.trace, walk.tick, walk.startIds, walk.nextId, walk.map, walk.below, walk.newIds,
    walk.source, walk.kept, walk.calledSource, walk.calledLow, walk.same, walk.once, ?_, ?_, ?_, ?_,
    ?_, ?_, ?_, ?_, walk.adds, walk.addIds⟩
  · intro x hx
    have not := walk.behind x hx
    rw [cursor] at not
    exact (past (timeKey x) (not_lt.mp not)).not_ahead
  · intro x hx
    left
    rcases walk.calledKeys x hx with done | inside
    · exact List.mem_append_left _ done
    · rw [cursor] at inside
      rw [show timeKey x = k from inside]
      simp
  · intro key hkey
    rcases List.mem_append.mp hkey with done | here
    · have before := walk.dels key done
      rw [cursor] at before
      exact past key (le_of_lt before)
    · rw [List.mem_singleton.mp here]
      exact past k (le_refl k)
  · intro k' sit same
    cases same
  · intro k' same
    injection same with next
    obtain ⟨p, hp, rfl⟩ := Option.map_eq_some_iff.mp next
    exact ⟨p, (KeyedSet.mem_of_next? hp).1, rfl⟩
  · intro k' id same
    cases same
  · intro x hx stored
    rcases walk.old x hx stored with called | reach
    · exact .inl called
    · rw [cursor] at reach
      exact .inr (ahead_after walk.map stored reach)
  · intro k' sit same
    cases same

theorem Walking.edited (walk : Walking env s c seg) {te : TimeEvent}
    {user : List (Event TimeEvent)}
    (ran : Ran env (script env c te).calls (log c.loop (.called te))
      (runCalls env (log c.loop (.called te)) (script env c te).calls) user) :
    Edited c.loop.timeEventMap (user.foldl effect c.loop.timeEventMap) user := by
  refine walk.map.edited ran.user (fun d ret h => (ran.asked d ret h).1) ?_ ran.idsNodup
  intro x hx y hy same
  have new : c.loop.timeEventNextId ≤ x.id := (ran.newIds x hx).1
  have old := walk.below y hy
  omega

section Fire

variable {k : Int} {te : TimeEvent} {user : List (Event TimeEvent)} {again : List TimeEvent}

/-- What `++sit` reaches, in the bucket as it is after the callback. -/
theorem ahead_next {m : TimeEventMap} (ok : MapOk m) {x : TimeEvent} (stored : x ∈ timers m)
    (more : k < timeKey x ∨ timeKey x = k ∧ te.id < x.id) :
    (Cursor.inner k (((bucket m k).next? te.id).map TimeEvent.id)).Ahead x := by
  cases next : (bucket m k).next? te.id with
  | none =>
      rcases more with more | ⟨same, less⟩
      · exact more
      · have := KeyedSet.le_of_next? next (ok.mem_bucket_iff.mpr ⟨stored, same⟩)
        omega
  | some y =>
      rcases more with more | ⟨same, less⟩
      · exact .inl more
      · exact .inr ⟨same, KeyedSet.next?_le next (ok.mem_bucket_iff.mpr ⟨stored, same⟩) less⟩

theorem of_ahead_next {m : TimeEventMap} {x : TimeEvent}
    (ahead : (Cursor.inner k (((bucket m k).next? te.id).map TimeEvent.id)).Ahead x) :
    k < timeKey x ∨ timeKey x = k ∧ te.id < x.id := by
  cases next : (bucket m k).next? te.id with
  | none =>
      rw [next] at ahead
      exact .inl ahead
  | some y =>
      rw [next] at ahead
      rcases ahead with more | ⟨same, le⟩
      · exact .inl more
      · exact .inr ⟨same, (KeyedSet.mem_of_next? next).2.trans_le le⟩

theorem Walking.fired_edited (walk : Walking env s c seg)
    (fired : Fired env k te c c' user again) :
    Edited c.loop.timeEventMap c'.loop.timeEventMap user := by
  have edited := walk.edited fired.ran
  rwa [← fired.map] at edited

theorem Walking.ahead_fired (walk : Walking env s c seg) (cursor : c.cursor = .inner k (some te.id))
    (here : te ∈ bucket c.loop.timeEventMap k) (fired : Fired env k te c c' user again)
    {x : TimeEvent} (old : x ∈ timers c.loop.timeEventMap) (kept : x ∈ timers c'.loop.timeEventMap)
    (reach : c.cursor.Ahead x) : x = te ∨ c'.cursor.Ahead x := by
  have edited := walk.fired_edited fired
  rw [cursor] at reach
  rw [fired.cursor]
  rcases reach with more | ⟨same, le⟩
  · exact .inr (ahead_next edited.map kept (.inl more))
  · by_cases own : x.id = te.id
    · exact .inl (walk.map.ids x old te (walk.map.mem_bucket_iff.mp here).1 own)
    · exact .inr (ahead_next edited.map kept (.inr ⟨same, by omega⟩))

section Events

variable {r : Int}

theorem calledIn_turn (quiet : ∀ e ∈ user, UserEvent e) :
    calledIn (.called te :: user ++ .returned te r :: again.map Event.rearmed) = [te] := by
  simp [calledIn_of_user quiet]

theorem createdIn_turn :
    createdIn (.called te :: user ++ .returned te r :: again.map Event.rearmed) =
      createdIn user := by
  simp

theorem rearmedIn_turn (quiet : ∀ e ∈ user, UserEvent e) :
    rearmedIn (.called te :: user ++ .returned te r :: again.map Event.rearmed) = again := by
  simp [rearmedIn_of_user quiet]

theorem erased_turn (x : TimeEvent) :
    Erased (.called te :: user ++ .returned te r :: again.map Event.rearmed) x ↔
      Erased user x := by
  simp [Erased]

end Events

theorem Fired.newIds (fired : Fired env k te c c' user again) {x : TimeEvent}
    (hx : x ∈ createdIn user) :
    c.loop.timeEventNextId ≤ x.id ∧ x.id < c'.loop.timeEventNextId := by
  have ids := fired.ran.newIds x hx
  rw [fired.ran.nextId] at ids
  rw [fired.nextId]
  exact ids

theorem Walking.called_low (walk : Walking env s c seg)
    (here : te ∈ bucket c.loop.timeEventMap k) {x : TimeEvent} (hx : x ∈ calledIn seg ++ [te]) :
    x.id < c.loop.timeEventNextId := by
  rcases List.mem_append.mp hx with early | now
  · exact (walk.calledLow x early).2
  · rw [List.mem_singleton.mp now]
    exact walk.below te (walk.map.mem_bucket_iff.mp here).1

theorem Walking.called_once (walk : Walking env s c seg)
    (cursor : c.cursor = .inner k (some te.id)) (here : te ∈ bucket c.loop.timeEventMap k) :
    ((calledIn seg ++ [te]).map TimeEvent.id).Nodup := by
  obtain ⟨stored, key⟩ := walk.map.mem_bucket_iff.mp here
  have ahead : c.cursor.Ahead te := by
    rw [cursor]
    exact .inr ⟨key, le_refl _⟩
  rw [List.map_append, List.map_singleton]
  refine List.nodup_append.mpr ⟨walk.once, by simp, ?_⟩
  intro i hi j hj same
  obtain ⟨x, hx, rfl⟩ := List.mem_map.mp hi
  rw [List.mem_singleton.mp hj] at same
  have twice := walk.same x hx te stored same
  exact walk.behind x hx (twice ▸ ahead)

section Called

variable (walk : Walking env s c seg) (fired : Fired env k te c c' user again)

include walk fired

theorem Walking.fired_old {x : TimeEvent} (hx : x ∈ timers c'.loop.timeEventMap)
    (low : x.id < c.loop.timeEventNextId) : x ∈ timers c.loop.timeEventMap := by
  rcases (walk.fired_edited fired).source x hx with old | new
  · exact old
  · have := (fired.newIds new).1
    omega

theorem Walking.fired_source {x : TimeEvent} (hx : x ∈ timers c'.loop.timeEventMap) :
    x ∈ timers s.timeEventMap ∨ x ∈ createdIn seg ++ createdIn user := by
  rcases (walk.fired_edited fired).source x hx with old | new
  · rcases walk.source x old with start | early
    · exact .inl start
    · exact .inr (List.mem_append_left _ early)
  · exact .inr (List.mem_append_right _ new)

theorem Walking.fired_kept {x : TimeEvent}
    (hx : x ∈ timers s.timeEventMap ∨ x ∈ createdIn seg ++ createdIn user)
    (early : ¬ Erased seg x) (late : ¬ Erased user x) : x ∈ timers c'.loop.timeEventMap := by
  have edited := walk.fired_edited fired
  rcases hx with start | created
  · exact edited.kept x (.inl (walk.kept x (.inl start) early)) late
  · rcases List.mem_append.mp created with before | now
    · exact edited.kept x (.inl (walk.kept x (.inr before) early)) late
    · exact edited.kept x (.inr now) late

variable (cursor : c.cursor = .inner k (some te.id)) (here : te ∈ bucket c.loop.timeEventMap k)

include here

theorem Walking.fired_same {x y : TimeEvent} (hx : x ∈ calledIn seg ++ [te])
    (hy : y ∈ timers c'.loop.timeEventMap) (same : x.id = y.id) : x = y := by
  have old := walk.fired_old fired hy (same ▸ walk.called_low here hx)
  rcases List.mem_append.mp hx with early | now
  · exact walk.same x early y old same
  · rw [List.mem_singleton.mp now] at same ⊢
    exact walk.map.ids te (walk.map.mem_bucket_iff.mp here).1 y old same

include cursor

theorem Walking.fired_behind {x : TimeEvent} (hx : x ∈ calledIn seg ++ [te]) :
    ¬ c'.cursor.Ahead x := by
  rw [fired.cursor]
  intro ahead
  have more := of_ahead_next ahead
  rcases List.mem_append.mp hx with early | now
  · refine walk.behind x early ?_
    rw [cursor]
    rcases more with more | ⟨same, less⟩
    · exact .inl more
    · exact .inr ⟨same, less.le⟩
  · rw [List.mem_singleton.mp now] at more
    have key := (walk.map.mem_bucket_iff.mp here).2
    omega

theorem Walking.fired_moved {x : TimeEvent} (hx : x ∈ timers c'.loop.timeEventMap)
    (old : x ∈ timers c.loop.timeEventMap) (before : x ∈ calledIn seg ∨ c.cursor.Ahead x) :
    x ∈ calledIn seg ++ [te] ∨ c'.cursor.Ahead x := by
  rcases before with called | reach
  · exact .inl (List.mem_append_left _ called)
  · rcases walk.ahead_fired cursor here fired old hx reach with rfl | still
    · exact .inl (by simp)
    · exact .inr still

/-- What is in the bucket of the walk now was called or is ahead, created by the callback or not. -/
theorem Walking.fired_current {x : TimeEvent} (hx : x ∈ bucket c'.loop.timeEventMap k) :
    x ∈ calledIn seg ++ [te] ∨ c'.cursor.Ahead x := by
  have edited := walk.fired_edited fired
  obtain ⟨hx, keyX⟩ := edited.map.mem_bucket_iff.mp hx
  rcases edited.source x hx with old | new
  · have inside := walk.map.mem_bucket_iff.mpr ⟨old, keyX⟩
    exact walk.fired_moved fired cursor here hx old (walk.current k _ cursor x inside)
  · have low := walk.below te (walk.map.mem_bucket_iff.mp here).1
    have high := (fired.newIds new).1
    rw [fired.cursor]
    exact .inr (ahead_next edited.map hx (.inr ⟨keyX, by omega⟩))

end Called

theorem Walking.fired (walk : Walking env s c seg) (cursor : c.cursor = .inner k (some te.id))
    (here : te ∈ bucket c.loop.timeEventMap k) (fired : Fired env k te c c' user again) :
    Walking env s c' (seg ++ (.called te :: user ++
      .returned te (script env c te).retval :: again.map Event.rearmed)) := by
  have quiet := fired.ran.user
  obtain ⟨stored, key⟩ := walk.map.mem_bucket_iff.mp here
  have edited := walk.fired_edited fired
  have grown := fired.nextId
  have nextId : c.loop.timeEventNextId ≤ c'.loop.timeEventNextId := by omega
  refine ⟨fired.undef.trans walk.undef, ?_, walk.tick.trans fired.tick, walk.startIds,
    walk.nextId.trans nextId, edited.map, ?_, ?_, ?_, ?_, ?_, ?_, ?_, ?_, ?_, ?_, ?_, ?_, ?_, ?_, ?_,
    ?_, ?_, ?_⟩
  · rw [fired.trace, walk.trace, List.append_assoc]
  · intro x hx
    rcases edited.source x hx with old | new
    · exact (walk.below x old).trans_le nextId
    · exact (fired.newIds new).2
  · rw [createdIn_append, createdIn_turn]
    intro x hx
    have := walk.nextId
    rcases List.mem_append.mp hx with early | late
    · have := walk.newIds x early
      omega
    · have := fired.newIds late
      omega
  · rw [createdIn_append, createdIn_turn]
    intro x hx
    exact walk.fired_source fired hx
  · rw [createdIn_append, createdIn_turn]
    intro x hx alive
    rw [erased_append, erased_turn, not_or] at alive
    exact walk.fired_kept fired hx alive.1 alive.2
  · rw [calledIn_append, calledIn_turn quiet, createdIn_append]
    intro x hx
    have from' : x ∈ timers s.timeEventMap ∨ x ∈ createdIn seg := by
      rcases List.mem_append.mp hx with early | now
      · exact walk.calledSource x early
      · rw [List.mem_singleton.mp now]
        exact walk.source te stored
    exact from'.imp_right (List.mem_append_left _)
  · rw [calledIn_append, calledIn_turn quiet]
    intro x hx
    refine ⟨?_, (walk.called_low here hx).trans_le nextId⟩
    rcases List.mem_append.mp hx with early | now
    · exact (walk.calledLow x early).1
    · rw [List.mem_singleton.mp now, key]
      exact walk.inside k _ cursor
  · rw [calledIn_append, calledIn_turn quiet]
    intro x hx y hy same
    exact walk.fired_same fired here hx hy same
  · rw [calledIn_append, calledIn_turn quiet]
    exact walk.called_once cursor here
  · rw [calledIn_append, calledIn_turn quiet]
    intro x hx
    exact walk.fired_behind fired cursor here hx
  · rw [calledIn_append, calledIn_turn quiet, fired.dels, fired.cursor]
    intro x hx
    rcases List.mem_append.mp hx with early | now
    · rcases walk.calledKeys x early with done | inside
      · exact .inl done
      · rw [cursor] at inside
        exact .inr inside
    · rw [List.mem_singleton.mp now]
      exact .inr key
  · rw [fired.dels, fired.cursor]
    intro key' hkey
    have past := walk.dels key' hkey
    rw [cursor] at past
    exact past
  · rw [fired.cursor]
    intro k' sit same
    injection same with hk
    exact hk ▸ walk.inside k _ cursor
  · rw [fired.cursor]
    intro k' same
    cases same
  · rw [fired.cursor]
    intro k' id same
    injection same with hk hid
    obtain ⟨y, hy, rfl⟩ := Option.map_eq_some_iff.mp hid
    exact ⟨y, hk ▸ (KeyedSet.mem_of_next? hy).1, rfl⟩
  · rw [calledIn_append, calledIn_turn quiet]
    intro x start hx
    have old := walk.fired_old fired hx ((walk.startIds x start).trans_le walk.nextId)
    exact walk.fired_moved fired cursor here hx old (walk.old x start old)
  · rw [calledIn_append, calledIn_turn quiet]
    intro k' sit same x hx
    have is := same
    rw [fired.cursor] at is
    injection is with hk
    rw [← hk] at hx
    exact walk.fired_current fired cursor here hx
  · rw [rearmedIn_append, rearmedIn_turn quiet, fired.adds, walk.adds]
  · rw [rearmedIn_append, rearmedIn_turn quiet, calledIn_append, calledIn_turn quiet,
      List.map_append, List.map_append]
    refine walk.addIds.append ?_
    rcases eq_nil_or_singleton fired.once with rfl | ⟨x, rfl⟩
    · simp
    · obtain ⟨r, -, rfl⟩ := fired.armed x List.mem_cons_self
      exact List.Sublist.refl _

end Fire

inductive Turn (env : Env TimeEvent) (s : EventLoop) (c : Pass) : Pass → Prop
  | enter {k : Int} : c.cursor = .outer (some k) → k ≤ lNow env s →
      Turn env s c { c with
        cursor := .inner k ((bucket c.loop.timeEventMap k).first?.map TimeEvent.id) }
  | fire {k : Int} {te : TimeEvent} : c.cursor = .inner k (some te.id) →
      te ∈ bucket c.loop.timeEventMap k → Turn env s c (fire env c k te)
  | leave {k : Int} : c.cursor = .inner k none →
      Turn env s c { c with
        processed := c.processed + (bucket c.loop.timeEventMap k).elems.length
        vecDelTimeMs := c.vecDelTimeMs ++ [k]
        cursor := .outer ((c.loop.timeEventMap.next? k).map Prod.fst) }

theorem Walking.turn (walk : Walking env s c seg)
    (body : passStep env (lNow env s) c = some c') : Turn env s c c' := by
  unfold passStep at body
  rw [if_neg (by simp [walk.undef])] at body
  split at body
  next => cases body
  next k cursor =>
      split_ifs at body with low
      obtain rfl := Option.some.inj body
      exact .enter cursor low
  next k id cursor =>
      obtain ⟨te, here, rfl⟩ := walk.sit k id cursor
      rw [KeyedSet.find?_eq_some.mpr ⟨here, rfl⟩] at body
      obtain rfl := Option.some.inj body
      exact .fire cursor here
  next k cursor =>
      obtain rfl := Option.some.inj body
      exact .leave cursor

theorem Walking.exit (walk : Walking env s c seg) (exit : passStep env (lNow env s) c = none) :
    ∃ mit, c.cursor = .outer mit ∧ ∀ k, mit = some k → lNow env s < k := by
  unfold passStep at exit
  rw [if_neg (by simp [walk.undef])] at exit
  split at exit
  next cursor => exact ⟨none, cursor, by simp⟩
  next k cursor =>
      split_ifs at exit with low
      refine ⟨some k, cursor, fun k' same => ?_⟩
      obtain rfl := Option.some.inj same
      exact not_le.mp low
  next k id cursor =>
      split at exit
      · cases exit
      · cases exit
  next k cursor => cases exit

theorem Walking.fire_spared (walk : Walking env s c seg) {k : Int} {te : TimeEvent}
    (cursor : c.cursor = .inner k (some te.id)) (here : te ∈ bucket c.loop.timeEventMap k)
    (spares : SparesRunning env c) : ∃ user again, Fired env k te c (fire env c k te) user again := by
  rcases fire_cases env c k te with ⟨user, ran, -, -, gone⟩ | fired
  · obtain ⟨stored, key⟩ := walk.map.mem_bucket_iff.mp here
    have edited := walk.edited ran
    have alive : ¬ Erased user te := by
      rintro ⟨d, hd, sameId, sameKey⟩
      have asked := (ran.asked d AE_OK (mem_deletedIn.mp hd)).2
      exact spares k te.id te cursor (KeyedSet.find?_eq_some.mpr ⟨here, rfl⟩) d asked
        ⟨sameId, sameKey.trans key⟩
    refine absurd rfl (gone te ?_)
    exact edited.map.mem_bucket_iff.mpr ⟨edited.kept te (.inl stored) alive, key⟩
  · exact fired

/-- A callback that deletes its own record pulls the element from under the iterators. -/
theorem Walking.fire_undef (walk : Walking env s c seg) {k : Int} {te : TimeEvent}
    (cursor : c.cursor = .inner k (some te.id)) (here : te ∈ bucket c.loop.timeEventMap k)
    (harm : ¬ SparesRunning env c) : (fire env c k te).loop.undef = true := by
  obtain ⟨stored, key⟩ := walk.map.mem_bucket_iff.mp here
  simp only [SparesRunning, not_forall, not_not] at harm
  obtain ⟨k', id, te', cursor', found, d, asked, sameId, sameKey⟩ := harm
  rw [cursor] at cursor'
  injection cursor' with hk hid
  obtain rfl := hk
  obtain rfl := Option.some.inj hid
  rw [KeyedSet.find?_eq_some.mpr ⟨here, rfl⟩] at found
  obtain rfl := Option.some.inj found
  rcases fire_cases env c k te with ⟨-, -, undef, -⟩ | ⟨user, again, fired⟩
  · exact undef
  · have edited := walk.edited fired.ran
    have dead : Erased user te := ⟨d, fired.ran.deleted d asked, sameId, sameKey.trans key.symm⟩
    obtain ⟨x, hx, same⟩ := fired.survived
    rw [fired.map] at hx
    have hx' := (edited.map.mem_bucket_iff.mp hx).1
    have old : x ∈ timers c.loop.timeEventMap := by
      rcases edited.source x hx' with old | new
      · exact old
      · have high : c.loop.timeEventNextId ≤ x.id := (fired.ran.newIds x new).1
        have low := walk.below te stored
        omega
    rw [walk.map.ids x old te stored same] at hx'
    exact absurd hx' (edited.gone te stored dead)

theorem Walking.step (walk : Walking env s c seg) (spares : SparesRunning env c)
    (body : passStep env (lNow env s) c = some c') : ∃ new, Walking env s c' (seg ++ new) := by
  cases walk.turn body with
  | enter cursor low => exact ⟨[], by simpa using walk.enter cursor low⟩
  | fire cursor here =>
      obtain ⟨user, again, fired⟩ := walk.fire_spared cursor here spares
      exact ⟨_, walk.fired cursor here fired⟩
  | leave cursor => exact ⟨[], by simpa using walk.leave cursor⟩

end Steps

section Visits

variable {env : Env TimeEvent} {s t : EventLoop} {c : Pass} {seg : List (Event TimeEvent)}

theorem Walking.of_visits (sound : Sound s)
    (spares : ∀ c, PassVisits env s c → SparesRunning env c) (visited : PassVisits env s c) :
    ∃ seg, Walking env s c seg := by
  refine WhileLoop.visits_invariant (fun c => ∃ seg, Walking env s c seg) (SparesRunning env) ?_
    spares ⟨[], .start sound⟩ visited
  rintro a b ⟨seg, walk⟩ spared body
  obtain ⟨new, walk'⟩ := walk.step spared body
  exact ⟨_, walk'⟩

/-- The iterators stay valid all through the walk, if and only if no callback deletes the record
it is called with. -/
theorem iterators_valid_iff (sound : Sound s) :
    (∀ c, PassVisits env s c → c.loop.undef = false) ↔
      ∀ c, PassVisits env s c → SparesRunning env c := by
  have safe : (∀ c, PassVisits env s c → ¬ c.loop.undef = true) ↔
      ∀ c, PassVisits env s c → SparesRunning env c := WhileLoop.visits_safe_iff
    (fun c => ∃ seg, Walking env s c seg) (SparesRunning env) (fun c => c.loop.undef = true)
    (fun a b on spared body => by
      obtain ⟨seg, walk⟩ := on
      obtain ⟨new, walk'⟩ := walk.step spared body
      exact ⟨_, walk'⟩)
    (fun a on => by
      obtain ⟨seg, walk⟩ := on
      simp [walk.undef])
    (fun a on harm => by
      obtain ⟨seg, walk⟩ := on
      have touched := harm
      simp only [SparesRunning, not_forall] at touched
      obtain ⟨k, id, te, cursor, found, -⟩ := touched
      obtain ⟨here, rfl⟩ := KeyedSet.find?_eq_some.mp found
      have body : passStep env (lNow env s) a = some (fire env a k te) := by
        simp only [passStep, walk.undef, cursor, found, Bool.false_eq_true, if_false]
      exact ⟨_, .single body, walk.fire_undef cursor here harm⟩)
    ⟨[], .start sound⟩
  simpa only [Bool.not_eq_true] using safe

theorem spares_of_defined (sound : Sound s) {fuel : ℕ}
    (run : WhileLoop.run (passStep env (lNow env s)) fuel (passStart s) = some c)
    (fine : c.loop.undef = false) : ∀ d, PassVisits env s d → SparesRunning env d := by
  refine (iterators_valid_iff sound).mp fun d met => ?_
  by_contra broken
  have exit : passStep env (lNow env s) d = none := by
    rw [passStep, if_pos (by simpa using broken)]
  obtain ⟨fuel', run'⟩ := WhileLoop.run_of_visits met exit
  rw [WhileLoop.run_unique run run'] at fine
  exact broken fine

/-- What the two loops over the vectors make of the map. -/
theorem Walking.finish_map (walk : Walking env s c seg) {mit : Option Int}
    (cursor : c.cursor = .outer mit) :
    MapOk (finish c).1.timeEventMap ∧ ∀ x, x ∈ timers (finish c).1.timeEventMap ↔
      x ∈ timers c.loop.timeEventMap ∧ timeKey x ∉ c.vecDelTimeMs ∨ x ∈ rearmedIn seg := by
  obtain ⟨erasedOk, erased⟩ := walk.map.foldl_erase c.vecDelTimeMs
  have free : ∀ x ∈ rearmedIn seg,
      ∀ y ∈ timers (c.vecDelTimeMs.foldl KeyedSet.erase c.loop.timeEventMap), y.id ≠ x.id := by
    intro x hx y hy same
    obtain ⟨te, called, id⟩ := List.mem_map.mp (walk.addIds.subset (List.mem_map_of_mem hx))
    obtain ⟨stored, unwalked⟩ := (erased y).mp hy
    have is := walk.same te called y stored (id.trans same.symm)
    rcases walk.calledKeys te called with done | inside
    · exact unwalked (is ▸ done)
    · rw [cursor] at inside
      exact inside
  obtain ⟨mapOk, mem⟩ := erasedOk.foldl_insertTimer (rearmedIn seg) free
    (walk.once.sublist walk.addIds)
  have final : (finish c).1.timeEventMap = (rearmedIn seg).foldl insertTimer
      (c.vecDelTimeMs.foldl KeyedSet.erase c.loop.timeEventMap) := by
    simp [finish, walk.undef, walk.adds]
  rw [final]
  refine ⟨mapOk, fun x => ?_⟩
  rw [mem x, erased x]

theorem Walking.finish_sound (walk : Walking env s c seg) {mit : Option Int}
    (cursor : c.cursor = .outer mit) : Sound (finish c).1 := by
  obtain ⟨mapOk, mem⟩ := walk.finish_map cursor
  have next : (finish c).1.timeEventNextId = c.loop.timeEventNextId := by
    simp [finish, walk.undef]
  refine ⟨by simp [finish, walk.undef], mapOk, fun x hx => ?_⟩
  rw [next]
  rcases (mem x).mp hx with ⟨stored, -⟩ | armed
  · exact walk.below x stored
  · obtain ⟨te, called, id⟩ := List.mem_map.mp (walk.addIds.subset (List.mem_map_of_mem armed))
    rw [← id]
    exact (walk.calledLow te called).2

theorem pass_walk {fuel : ℕ} {n : Int} (sound : Sound s)
    (run : processTimeEvents env fuel s = some (t, n)) (fine : t.undef = false) :
    ∃ c seg mit, t = (finish c).1 ∧ Walking env s c seg ∧ PassVisits env s c ∧
      c.cursor = .outer mit ∧ (∀ k, mit = some k → lNow env s < k) ∧
      ∀ d, PassVisits env s d → SparesRunning env d := by
  obtain ⟨c, walked, eq⟩ := Option.map_eq_some_iff.mp run
  have eqT : t = (finish c).1 := by rw [eq]
  have fineC : c.loop.undef = false := by
    by_contra broken
    rw [eqT, finish, if_pos (by simpa using broken)] at fine
    exact broken fine
  have spares := spares_of_defined sound walked fineC
  have visited := WhileLoop.run_visits walked
  obtain ⟨seg, walk⟩ := Walking.of_visits sound spares visited
  obtain ⟨mit, cursor, past⟩ := walk.exit (WhileLoop.run_left walked)
  exact ⟨c, seg, mit, eqT, walk, visited, cursor, past, spares⟩

theorem pass_defined {fuel : ℕ} {n : Int} (run : processTimeEvents env fuel s = some (t, n))
    (fine : t.undef = false) : s.undef = false := by
  by_contra broken
  have exit : passStep env (lNow env s) (passStart s) = none := by
    rw [passStep, if_pos (by simpa [passStart] using broken)]
  obtain ⟨c, walked, eq⟩ := Option.map_eq_some_iff.mp run
  have same := WhileLoop.run_unique walked (WhileLoop.run_exit 0 exit)
  have eqT : t = (finish c).1 := by rw [eq]
  rw [eqT, same, finish, if_pos (by simpa [passStart] using broken)] at fine
  exact broken fine

theorem Sound.timer (sound : Sound s) (env : Env TimeEvent) (call : TimerCall TimeEvent) :
    Sound (runCall env s call) := by
  cases call with
  | create ms proc data fin =>
      have free : ∀ x ∈ timers s.timeEventMap,
          x.id ≠ (s.newTimeEvent env ms proc data fin).id := by
        intro x hx same
        have := sound.below x hx
        simp only [Loop.newTimeEvent] at same
        omega
      refine ⟨sound.undef, sound.map.insertTimer free, fun x hx => ?_⟩
      change x.id < s.timeEventNextId + 1
      rcases (mem_insertTimer free).mp hx with old | rfl
      · have := sound.below x old
        omega
      · simp only [Loop.newTimeEvent]
        omega
  | delete te =>
      exact ⟨sound.undef, sound.map.eraseTimer te,
        fun x hx => sound.below x (sound.map.mem_eraseTimer.mp hx).1⟩

/-- Whatever user code does, the map is in order until an iterator dangles. -/
theorem run_sound (run : Run env (fun _ _ => True) s) (fine : s.undef = false) : Sound s := by
  revert fine
  refine WhileLoop.Reach.invariant (fun s => s.undef = false → Sound s) ?_ ?_ run
  · rintro s ⟨mem, setsize, h⟩ -
    obtain ⟨l, -, rfl⟩ := Option.map_eq_some_iff.mp h
    exact ⟨rfl, mapOk_empty, fun x hx => absurd hx (not_mem_timers_empty x)⟩
  · intro s op t ih _ step fine
    cases step with
    | timer call =>
        cases call with
        | create ms proc data fin => exact (ih fine).timer env _
        | delete te => exact (ih fine).timer env _
    | file op =>
        have sound := ih fine
        exact ⟨sound.undef, sound.map, sound.below⟩
    | resize mem setsize =>
        rw [aeResizeSetSize] at fine ⊢
        split_ifs at fine ⊢
        · exact ih fine
        · exact ih fine
        · exact ⟨fine, mapOk_empty, fun x hx => absurd hx (not_mem_timers_empty x)⟩
    | pass h =>
        obtain ⟨c, seg, mit, rfl, walk, -, cursor, -⟩ := pass_walk (ih (pass_defined h fine)) h fine
        exact walk.finish_sound cursor

end Visits

end AeEventLoop.Ae3
