import AeEventLoop.Ae3Steps

/-! A whole pass of `ae3.cpp` under a clock that never goes back and callbacks that create timers
with a delay of at least a millisecond, delete nothing, and return `AE_NOMORE` or at least one.
Whatever they create lands behind `lNow`, so the buckets the walk is about are those it found,
and the walk calls their timers in order. Deadlines are taken not to overflow: not any deadline
the run could compute, but those it does compute. -/

namespace AeEventLoop.Ae3

open TimeEventMap

structure Orderly (env : Env TimeEvent) : Prop where
  clock : Monotonic env
  calls : ∀ tr te, ∀ call ∈ (env.timeProc tr te).calls,
    ∃ ms proc data fin, call = .create ms proc data fin ∧ 1 ≤ ms
  returns : ∀ tr te, (env.timeProc tr te).retval = AE_NOMORE ∨ 1 ≤ (env.timeProc tr te).retval

/-- No deadline set so far was out of range of a `long` when it became a key. -/
def NoOverflow (tr : List (Event TimeEvent)) : Prop :=
  ∀ te, te ∈ createdIn tr ∨ te ∈ rearmedIn tr → FitsLong (millis te.deadline)

structure PassFits (env : Env TimeEvent) (s : EventLoop) : Prop where
  now : FitsLong (millis (aeGetTime (env.gettimeofday s.tick)))
  keys : ∀ c, PassVisits env s c → NoOverflow c.loop.trace

def low (m : TimeEventMap) (bound : Int) : List (Int × Bucket) := m.elems.filter fun p => p.1 ≤ bound

theorem low_insertTimer {m : TimeEventMap} {te : TimeEvent} {bound : Int} (h : bound < timeKey te) :
    low (insertTimer m te) bound = low m bound :=
  KeyedSet.filter_put_of_above (a := (timeKey te, (bucket m (timeKey te)).insert te)) h

theorem low_foldl_insertTimer {m : TimeEventMap} {tes : List TimeEvent} {bound : Int}
    (h : ∀ te ∈ tes, bound < timeKey te) : low (tes.foldl insertTimer m) bound = low m bound := by
  induction tes generalizing m with
  | nil => rfl
  | cons te tes ih =>
      rw [List.foldl_cons, ih fun x hx => h x (List.mem_cons_of_mem _ hx),
        low_insertTimer (h te List.mem_cons_self)]

theorem mem_low {m : TimeEventMap} {bound : Int} {p : Int × Bucket} :
    p ∈ low m bound ↔ p ∈ m ∧ p.1 ≤ bound := by
  simp [low, KeyedSet.mem_def]

theorem MapOk.filter_timers {m : TimeEventMap} (ok : MapOk m) (bound : Int) :
    (timers m).filter (fun te => timeKey te ≤ bound) =
      (low m bound).flatMap fun p => p.2.elems := by
  have keyed : ∀ p ∈ m.elems, ∀ te ∈ p.2, timeKey te = p.1 := ok.keyed
  unfold timers low
  generalize m.elems = ps at keyed
  induction ps with
  | nil => rfl
  | cons p ps ih =>
      have rest := ih fun q hq => keyed q (List.mem_cons_of_mem _ hq)
      have here : ∀ te ∈ p.2.elems, timeKey te = p.1 := keyed p List.mem_cons_self
      rw [List.flatMap_cons, List.filter_append, rest]
      by_cases hp : p.1 ≤ bound
      · rw [List.filter_cons_of_pos (by simpa using hp), List.flatMap_cons]
        congr 1
        exact List.filter_eq_self.mpr fun te hte => by simpa [here te hte] using hp
      · rw [List.filter_cons_of_neg (by simpa using hp)]
        have none : p.2.elems.filter (fun te => decide (timeKey te ≤ bound)) = [] :=
          List.filter_eq_nil_iff.mpr fun te hte => by simpa [here te hte] using hp
        rw [none, List.nil_append]

/-- What holds at every moment of the walk of a pass that started in `s` and wrote `seg`. -/
structure Walk (env : Env TimeEvent) (s : EventLoop) (c : Pass) (seg : List (Event TimeEvent)) :
    Prop where
  visited : PassVisits env s c
  undef : c.loop.undef = false
  trace : c.loop.trace = s.trace ++ seg
  tick : s.tick ≤ c.loop.tick
  low : low c.loop.timeEventMap (lNow env s) = low s.timeEventMap (lNow env s)
  map : MapOk c.loop.timeEventMap
  contents : ∀ x, x ∈ timers c.loop.timeEventMap ↔ x ∈ timers s.timeEventMap ∨ x ∈ createdIn seg
  below : ∀ x ∈ timers c.loop.timeEventMap, x.id < c.loop.timeEventNextId
  late : ∀ x, x ∈ createdIn seg ∨ x ∈ rearmedIn seg →
    lNow env s < timeKey x ∧ FitsLong (millis x.deadline)
  adds : c.vecAddTimeEvent = rearmedIn seg
  returned : (returnedIn seg).map Prod.fst = calledIn seg
  rearmedIds : (rearmedIn seg).map TimeEvent.id =
    ((returnedIn seg).filter fun r => r.2 ≠ AE_NOMORE).map fun r => r.1.id
  armed : ∀ x ∈ rearmedIn seg, ∃ te r k, (te, r) ∈ returnedIn seg ∧ s.tick ≤ k ∧
    x = te.setWhen (aeAddMillisecondsToNow (env.gettimeofday k) r)

/-- `mit` is at the first of the low buckets `todo`, or past all low buckets. -/
def Facing (bound : Int) (todo : List (Int × Bucket)) (mit : Option Int) : Prop :=
  match todo with
  | [] => ∀ k, mit = some k → bound < k
  | p :: _ => mit = some p.1

theorem facing_head (bound : Int) (todo ps : List (Int × Bucket)) :
    Facing bound todo ((todo ++ ps.filter fun p => bound < p.1).head?.map Prod.fst) := by
  cases todo with
  | cons p todo => rfl
  | nil =>
      intro k hk
      obtain ⟨p, hp, rfl⟩ := Option.map_eq_some_iff.mp hk
      simpa using List.of_mem_filter (List.mem_of_head? hp)

/-- The walk stands before the buckets `todo` and has done with `done`. -/
structure AtBucket (env : Env TimeEvent) (s : EventLoop) (done todo : List (Int × Bucket))
    (c : Pass) (seg : List (Event TimeEvent)) : Prop extends Walk env s c seg where
  split : Ae3.low s.timeEventMap (lNow env s) = done ++ todo
  called : calledIn seg = done.flatMap fun p => p.2.elems
  dels : c.vecDelTimeMs = done.map Prod.fst
  count : c.processed = (calledIn seg).length
  cursor : ∃ mit, c.cursor = .outer mit ∧ Facing (lNow env s) todo mit

/-- The walk is inside bucket `p`, done with `pre` and before `post`. -/
structure AtTimer (env : Env TimeEvent) (s : EventLoop) (done todo : List (Int × Bucket))
    (p : Int × Bucket) (pre post : List TimeEvent) (c : Pass) (seg : List (Event TimeEvent)) :
    Prop extends Walk env s c seg where
  split : Ae3.low s.timeEventMap (lNow env s) = done ++ p :: todo
  inBucket : p.2.elems = pre ++ post
  called : calledIn seg = (done.flatMap fun p => p.2.elems) ++ pre
  dels : c.vecDelTimeMs = done.map Prod.fst
  count : c.processed = (done.flatMap fun p => p.2.elems).length
  cursor : c.cursor = .inner p.1 (post.head?.map TimeEvent.id)

section Walk

variable {env : Env TimeEvent} {s : EventLoop} {c c' : Pass} {seg : List (Event TimeEvent)}

theorem timeKey_of_fits {te : TimeEvent} (h : FitsLong (millis te.deadline)) :
    timeKey te = millis te.deadline := long_of_fits h

theorem PassFits.lNow_eq (fits : PassFits env s) :
    lNow env s = millis (aeGetTime (env.gettimeofday s.tick)) := long_of_fits fits.now

/-- A low bucket is in the map as the pass found it, all through the walk. -/
theorem Walk.bucket_eq (h : Walk env s c seg) {p : Int × Bucket}
    (hp : p ∈ Ae3.low s.timeEventMap (lNow env s)) : bucket c.loop.timeEventMap p.1 = p.2 := by
  rw [← h.low] at hp
  exact bucket_of_mem (mem_low.mp hp).1

theorem Walk.late_key (orderly : Orderly env) (fits : PassFits env s) (h : Walk env s c seg)
    {x : TimeEvent} {k : ℕ} {ms : Int} (hk : c.loop.tick ≤ k) (hms : 1 ≤ ms)
    (fit : FitsLong (millis x.deadline))
    (eq : x.deadline = aeAddMillisecondsToNow (env.gettimeofday k) ms) :
    lNow env s < timeKey x := by
  rw [timeKey_of_fits fit, fits.lNow_eq, eq]
  exact millis_lt_of_later orderly.clock (h.tick.trans hk) hms

section User

variable {te : TimeEvent} {user : List (Event TimeEvent)}
  (ran : Ran env (script env c te).calls (log c.loop (.called te))
    (runCalls env (log c.loop (.called te)) (script env c te).calls) user)
include ran

theorem Walk.created_late (orderly : Orderly env) (fits : PassFits env s) (h : Walk env s c seg)
    (fit : ∀ x ∈ createdIn user, FitsLong (millis x.deadline)) :
    ∀ x ∈ createdIn user, lNow env s < timeKey x := by
  intro x hx
  obtain ⟨ms, proc, data, fin, called, k, hk, eq⟩ := ran.origin x hx
  obtain ⟨ms', proc', data', fin', same, delay⟩ := orderly.calls _ _ _ called
  injection same with same
  exact h.late_key orderly fits hk (same ▸ delay) (fit x hx) eq

theorem Ran.map_of_orderly (orderly : Orderly env) :
    user.foldl effect c.loop.timeEventMap =
      (createdIn user).foldl insertTimer c.loop.timeEventMap := by
  refine foldl_effect_of_creates ran.user (fun x ret hx => ?_) _
  obtain ⟨ms, proc, data, fin, same, -⟩ := orderly.calls _ _ _ (ran.asked x ret hx).2
  cases same

end User

theorem Walk.fired (orderly : Orderly env) (fits : PassFits env s) (h : Walk env s c seg)
    (body : passStep env (lNow env s) c = some c') {mit : Int} {te : TimeEvent}
    {user : List (Event TimeEvent)} {again : List TimeEvent}
    (fired : Fired env mit te c c' user again) :
    Walk env s c' (seg ++ (.called te :: user ++
      .returned te (script env c te).retval :: again.map Event.rearmed)) := by
  have visited : PassVisits env s c' := .tail h.visited body
  have keys := fits.keys c' visited
  rw [fired.trace] at keys
  have createdLate : ∀ x ∈ createdIn user,
      lNow env s < timeKey x ∧ FitsLong (millis x.deadline) := by
    have fit : ∀ x ∈ createdIn user, FitsLong (millis x.deadline) :=
      fun x hx => keys x (.inl (by simp [hx]))
    exact fun x hx => ⟨h.created_late fired.ran orderly fits fit x hx, fit x hx⟩
  have rearmedLate : ∀ x ∈ again, lNow env s < timeKey x ∧ FitsLong (millis x.deadline) := by
    intro x hx
    have fit := keys x (.inr (by simp [hx]))
    obtain ⟨k, hk, rfl⟩ := fired.armed x hx
    have more : again ≠ [] := List.ne_nil_of_mem hx
    have delay := (orderly.returns _ te).resolve_left fun stop => more (fired.last.mpr stop)
    exact ⟨h.late_key orderly fits hk delay fit rfl, fit⟩
  have map : c'.loop.timeEventMap = (createdIn user).foldl insertTimer c.loop.timeEventMap := by
    rw [fired.map, fired.ran.map_of_orderly orderly]
  obtain ⟨mapOk, mapMem⟩ := h.map.foldl_insertTimer (createdIn user) (by
    intro x hx y hy same
    have low := (fired.ran.newIds x hx).1
    have := h.below y hy
    simp only [log] at low
    omega) fired.ran.idsNodup
  have quiet := fired.ran.user
  refine ⟨visited, fired.undef.trans h.undef, ?_, h.tick.trans fired.tick, ?_, ?_, ?_, ?_, ?_, ?_,
    ?_, ?_, ?_⟩
  · rw [fired.trace, h.trace, List.append_assoc]
  · rw [map, low_foldl_insertTimer fun x hx => (createdLate x hx).1, h.low]
  · rw [map]
    exact mapOk
  · intro x
    rw [map, mapMem x, h.contents x]
    simp [or_assoc]
  · intro x hx
    rw [map, mapMem x] at hx
    rw [fired.nextId]
    rcases hx with old | new
    · have := h.below x old
      omega
    · have := (fired.ran.newIds x new).2
      rw [fired.ran.nextId] at this
      exact this
  · intro x hx
    simp only [createdIn_append, rearmedIn_append, createdIn_cons, rearmedIn_cons, Event.created?,
      Event.rearmed?, Option.toList_none, List.nil_append, createdIn_map_rearmed, List.append_nil,
      rearmedIn_of_user quiet, rearmedIn_map_rearmed, List.cons_append, List.mem_append] at hx
    rcases hx with (old | new) | (old | new)
    · exact h.late x (.inl old)
    · exact createdLate x new
    · exact h.late x (.inr old)
    · exact rearmedLate x new
  · rw [fired.adds, h.adds]
    simp [rearmedIn_of_user quiet]
  · simp [h.returned, returnedIn_of_user quiet, calledIn_of_user quiet]
  · have ids : again.map TimeEvent.id =
        if (script env c te).retval ≠ AE_NOMORE then [te.id] else [] := by
      rcases eq_nil_or_singleton fired.once with rfl | ⟨x, rfl⟩
      · simp [fired.last.mp rfl]
      · obtain ⟨k, -, rfl⟩ := fired.armed x List.mem_cons_self
        rw [if_pos fun stop => absurd (fired.last.mpr stop) (List.cons_ne_nil _ _)]
        rfl
    simp only [rearmedIn_append, returnedIn_append, rearmedIn_cons, returnedIn_cons,
      List.cons_append, Event.rearmed?, Event.returned?, Option.toList_none, Option.toList_some,
      List.nil_append, rearmedIn_of_user quiet, returnedIn_of_user quiet, rearmedIn_map_rearmed,
      returnedIn_map_rearmed, List.append_nil, List.map_append, List.filter_append, h.rearmedIds,
      ids]
    split_ifs with stop <;> simp [stop]
  · intro x hx
    simp only [rearmedIn_append, rearmedIn_cons, List.cons_append, Event.rearmed?,
      Option.toList_none, List.nil_append, rearmedIn_of_user quiet, rearmedIn_map_rearmed,
      List.mem_append] at hx
    rcases hx with old | new
    · obtain ⟨te', r, k, answer, hk, eq⟩ := h.armed x old
      exact ⟨te', r, k, by simp [answer], hk, eq⟩
    · obtain ⟨k, hk, eq⟩ := fired.armed x new
      exact ⟨te, _, k, by simp, h.tick.trans hk, eq⟩

variable {done todo : List (Int × Bucket)} {p : Int × Bucket}

theorem AtBucket.enter (h : AtBucket env s done (p :: todo) c seg) :
    ∃ c', passStep env (lNow env s) c = some c' ∧ AtTimer env s done todo p [] p.2.elems c' seg := by
  obtain ⟨mit, cursor, rfl⟩ := h.cursor
  have hp : p ∈ Ae3.low s.timeEventMap (lNow env s) := by rw [h.split]; simp
  have body : passStep env (lNow env s) c = some { c with
      cursor := .inner p.1 (p.2.elems.head?.map TimeEvent.id) } := by
    simp only [passStep, h.undef, cursor, (mem_low.mp hp).2, h.bucket_eq hp, KeyedSet.first?]
    rfl
  refine ⟨_, body, ⟨.tail h.visited body, h.undef, h.trace, h.tick, h.low, h.map, h.contents,
    h.below, h.late, h.adds, h.returned, h.rearmedIds, h.armed⟩, h.split, rfl, ?_, h.dels, ?_, rfl⟩
  · rw [h.called, List.append_nil]
  · rw [← h.called]
    exact h.count

theorem AtTimer.turn (orderly : Orderly env) (fits : PassFits env s) {te : TimeEvent}
    {pre post : List TimeEvent} (h : AtTimer env s done todo p pre (te :: post) c seg) :
    ∃ c' seg', passStep env (lNow env s) c = some c' ∧
      AtTimer env s done todo p (pre ++ [te]) post c' seg' := by
  have hp : p ∈ Ae3.low s.timeEventMap (lNow env s) := by rw [h.split]; simp
  have hte : te ∈ p.2 := by rw [KeyedSet.mem_def, h.inBucket]; simp
  have body : passStep env (lNow env s) c = some (fire env c p.1 te) := by
    simp only [passStep, h.undef, h.cursor, List.head?_cons, Option.map_some, h.bucket_eq hp,
      KeyedSet.find?_eq_some.mpr ⟨hte, rfl⟩]
    rfl
  rcases fire_cases env c p.1 te with ⟨user, ran, -, trace, gone⟩ | ⟨user, again, fired⟩
  · -- Callbacks that only create cannot take the element away.
    have keys := fits.keys _ (.tail h.visited body)
    rw [trace] at keys
    have fit : ∀ x ∈ createdIn user, FitsLong (millis x.deadline) :=
      fun x hx => keys x (.inl (by simp [hx]))
    have late := h.created_late ran orderly fits fit
    have still : p ∈ Ae3.low (user.foldl effect c.loop.timeEventMap) (lNow env s) := by
      rw [ran.map_of_orderly orderly, low_foldl_insertTimer late, h.low]
      exact hp
    refine absurd rfl (gone te ?_)
    rw [bucket_of_mem (mem_low.mp still).1]
    exact hte
  · have walk := h.toWalk.fired orderly fits body fired
    refine ⟨_, _, body, walk, h.split, ?_, ?_, fired.dels.trans h.dels, fired.processed.trans h.count,
      ?_⟩
    · rw [h.inBucket, List.append_assoc, List.singleton_append]
    · simp [h.called, calledIn_of_user fired.ran.user]
    · rw [fired.cursor, walk.bucket_eq hp, KeyedSet.next?, KeyedSet.above_of_split h.inBucket]

theorem AtTimer.leave {pre : List TimeEvent} (h : AtTimer env s done todo p pre [] c seg) :
    ∃ c', passStep env (lNow env s) c = some c' ∧ AtBucket env s (done ++ [p]) todo c' seg := by
  have hp : p ∈ Ae3.low s.timeEventMap (lNow env s) := by rw [h.split]; simp
  have body : passStep env (lNow env s) c = some { c with
      processed := c.processed + p.2.elems.length
      vecDelTimeMs := c.vecDelTimeMs ++ [p.1]
      cursor := .outer ((c.loop.timeEventMap.next? p.1).map Prod.fst) } := by
    simp only [passStep, h.undef, h.cursor, List.head?_nil, Option.map_none, h.bucket_eq hp]
    rfl
  have called : calledIn seg = (done ++ [p]).flatMap fun p => p.2.elems := by
    have all : p.2.elems = pre := by rw [h.inBucket, List.append_nil]
    rw [h.called, List.flatMap_append, List.flatMap_singleton, all]
  refine ⟨_, body, ⟨.tail h.visited body, h.undef, h.trace, h.tick, h.low, h.map, h.contents,
    h.below, h.late, h.adds, h.returned, h.rearmedIds, h.armed⟩, ?_, called, ?_, ?_, _, rfl, ?_⟩
  · rw [h.split, List.append_assoc, List.singleton_append]
  · simp [h.dels]
  · rw [called, List.flatMap_append, List.length_append, List.flatMap_singleton, Nat.cast_add,
      ← h.count]
  · -- Behind `p` come the low buckets not walked yet, then those after `lNow`.
    have elems : c.loop.timeEventMap.elems = done ++ p :: (todo ++
        c.loop.timeEventMap.elems.filter fun q => lNow env s < q.1) := by
      have split := c.loop.timeEventMap.elems_split (lNow env s)
      have low : c.loop.timeEventMap.elems.filter (fun q => q.1 ≤ lNow env s) = done ++ p :: todo :=
        h.low.trans h.split
      rw [low] at split
      rw [← List.cons_append, ← List.append_assoc]
      exact split
    rw [KeyedSet.next?, KeyedSet.above_of_split elems]
    exact facing_head _ todo _

theorem AtBucket.exit (h : AtBucket env s done [] c seg) : passStep env (lNow env s) c = none := by
  obtain ⟨mit, cursor, beyond⟩ := h.cursor
  cases mit with
  | none => simp [passStep, h.undef, cursor]
  | some k =>
      have : ¬ k ≤ lNow env s := not_le.mpr (beyond k rfl)
      simp [passStep, h.undef, cursor, this]

theorem AtTimer.walk (orderly : Orderly env) (fits : PassFits env s) {pre post : List TimeEvent}
    (h : AtTimer env s done todo p pre post c seg) :
    ∃ c' seg', AtTimer env s done todo p (pre ++ post) [] c' seg' := by
  induction post generalizing pre c seg with
  | nil => exact ⟨c, seg, by rwa [List.append_nil]⟩
  | cons te post ih =>
      obtain ⟨c', seg', -, next⟩ := h.turn orderly fits
      obtain ⟨c'', seg'', last⟩ := ih next
      exact ⟨c'', seg'', by rwa [List.append_assoc, List.singleton_append] at last⟩

/-- The walk comes to the end of the low buckets, whatever callbacks create on the way. -/
theorem AtBucket.walk (orderly : Orderly env) (fits : PassFits env s)
    (h : AtBucket env s done todo c seg) :
    ∃ c' seg', AtBucket env s (done ++ todo) [] c' seg' := by
  induction todo generalizing done c seg with
  | nil => exact ⟨c, seg, by rwa [List.append_nil]⟩
  | cons p todo ih =>
      obtain ⟨c₁, -, inside⟩ := h.enter
      obtain ⟨c₂, seg₂, end'⟩ := inside.walk orderly fits
      obtain ⟨c₃, -, out⟩ := end'.leave
      obtain ⟨c', seg', last⟩ := ih out
      exact ⟨c', seg', by rwa [List.append_assoc, List.singleton_append] at last⟩

end Walk

structure Rep (s : EventLoop) : Prop where
  undef : s.undef = false
  map : MapOk s.timeEventMap
  below : ∀ x ∈ timers s.timeEventMap, x.id < s.timeEventNextId
  fits : ∀ x ∈ timers s.timeEventMap, FitsLong (millis x.deadline)

/-- A pass from `s` to `t` that answered `n` and wrote `seg`: the timers it called, in order, and
where every timer is afterwards. -/
structure ExactPass (env : Env TimeEvent) (s t : EventLoop) (n : Int)
    (seg : List (Event TimeEvent)) : Prop where
  trace : t.trace = s.trace ++ seg
  calls : calledIn seg = (timers s.timeEventMap).filter fun te => timeKey te ≤ lNow env s
  once : ((calledIn seg).map TimeEvent.id).Nodup
  order : (calledIn seg).Pairwise fun a b => millis a.deadline < millis b.deadline ∨
    millis a.deadline = millis b.deadline ∧ a.id < b.id
  count : n = (calledIn seg).length
  returned : (returnedIn seg).map Prod.fst = calledIn seg
  rearmedIds : (rearmedIn seg).map TimeEvent.id =
    ((returnedIn seg).filter fun r => r.2 ≠ AE_NOMORE).map fun r => r.1.id
  armed : ∀ x ∈ rearmedIn seg, ∃ te r k, (te, r) ∈ returnedIn seg ∧ s.tick ≤ k ∧
    x = te.setWhen (aeAddMillisecondsToNow (env.gettimeofday k) r)
  contents : ∀ x, x ∈ timers t.timeEventMap ↔
    x ∈ timers s.timeEventMap ∧ lNow env s < timeKey x ∨ x ∈ createdIn seg ∨ x ∈ rearmedIn seg
  kept : ∀ x ∈ timers s.timeEventMap, lNow env s < timeKey x →
    x ∈ bucket s.timeEventMap (millis x.deadline) ∧ x ∈ bucket t.timeEventMap (millis x.deadline)
  stored : ∀ x ∈ rearmedIn seg, x ∈ bucket t.timeEventMap (millis x.deadline)

section Exact

variable {env : Env TimeEvent} {s : EventLoop} {c : Pass} {seg : List (Event TimeEvent)}

theorem Rep.mem_bucket_deadline (rep : Rep s) {x : TimeEvent} (hx : x ∈ timers s.timeEventMap) :
    x ∈ bucket s.timeEventMap (millis x.deadline) :=
  rep.map.mem_bucket_iff.mpr ⟨hx, timeKey_of_fits (rep.fits x hx)⟩

theorem Rep.start (rep : Rep s) :
    AtBucket env s [] (low s.timeEventMap (lNow env s)) (passStart s) [] := by
  refine ⟨⟨.refl, rep.undef, by simp [passStart], Nat.le_succ _, rfl, rep.map, by simp [passStart],
    rep.below, by simp, rfl, rfl, rfl, by simp⟩, rfl, rfl, rfl, rfl, _, rfl, ?_⟩
  have split : s.timeEventMap.elems = low s.timeEventMap (lNow env s) ++
      s.timeEventMap.elems.filter fun p => lNow env s < p.1 :=
    s.timeEventMap.elems_split (lNow env s)
  rw [KeyedSet.first?, split]
  exact facing_head _ _ _

theorem AtBucket.mem_erased (h : AtBucket env s (low s.timeEventMap (lNow env s)) [] c seg)
    (x : TimeEvent) :
    x ∈ timers (c.vecDelTimeMs.foldl KeyedSet.erase c.loop.timeEventMap) ↔
      x ∈ timers c.loop.timeEventMap ∧ lNow env s < timeKey x := by
  rw [(h.map.foldl_erase c.vecDelTimeMs).2 x, h.dels]
  refine and_congr_right fun hx => ?_
  obtain ⟨p, hp, hxp⟩ := mem_timers.mp hx
  have key := h.map.keyed p hp x hxp
  rw [← h.low]
  constructor
  · intro walked
    by_contra early
    rw [not_lt, key] at early
    exact walked (List.mem_map.mpr ⟨p, mem_low.mpr ⟨hp, early⟩, key.symm⟩)
  · intro late walked
    obtain ⟨q, hq, same⟩ := List.mem_map.mp walked
    have := (mem_low.mp hq).2
    omega

section Finish

variable (rep : Rep s) (h : AtBucket env s (low s.timeEventMap (lNow env s)) [] c seg)

include rep h

theorem AtBucket.calls :
    calledIn seg = (timers s.timeEventMap).filter fun te => timeKey te ≤ lNow env s := by
  rw [rep.map.filter_timers, h.called]

theorem AtBucket.once : ((calledIn seg).map TimeEvent.id).Nodup := by
  rw [h.calls rep]
  exact rep.map.ids_nodup.sublist (List.filter_sublist.map _)

theorem AtBucket.rearmed_source {x : TimeEvent} (hx : x ∈ rearmedIn seg) :
    ∃ te ∈ timers c.loop.timeEventMap, timeKey te ≤ lNow env s ∧ x.id = te.id := by
  obtain ⟨te, r, k, answer, -, rfl⟩ := h.armed x hx
  have called : te ∈ calledIn seg := by
    rw [← h.returned]
    exact List.mem_map_of_mem answer
  rw [h.calls rep, List.mem_filter] at called
  exact ⟨te, (h.contents te).mpr (.inl called.1), by simpa using called.2, rfl⟩

theorem AtBucket.rearmed_nodup : ((rearmedIn seg).map TimeEvent.id).Nodup := by
  have ids : (returnedIn seg).map (fun r => r.1.id) = (calledIn seg).map TimeEvent.id := by
    rw [← h.returned, List.map_map]
    rfl
  rw [h.rearmedIds]
  refine List.Nodup.sublist (List.filter_sublist.map _) ?_
  rw [ids]
  exact h.once rep

theorem AtBucket.finish_map : MapOk (finish c).1.timeEventMap ∧
    ∀ x, x ∈ timers (finish c).1.timeEventMap ↔
      x ∈ timers s.timeEventMap ∧ lNow env s < timeKey x ∨
        x ∈ createdIn seg ∨ x ∈ rearmedIn seg := by
  have free : ∀ x ∈ rearmedIn seg,
      ∀ y ∈ timers (c.vecDelTimeMs.foldl KeyedSet.erase c.loop.timeEventMap), y.id ≠ x.id := by
    intro x hx y hy same
    obtain ⟨te, hte, early, eq⟩ := h.rearmed_source rep hx
    obtain ⟨stored, late⟩ := (h.mem_erased y).mp hy
    have := h.map.ids y stored te hte (same.trans eq)
    rw [this] at late
    omega
  obtain ⟨mapOk, mem⟩ := (h.map.foldl_erase c.vecDelTimeMs).1.foldl_insertTimer (rearmedIn seg) free
    (h.rearmed_nodup rep)
  have final : (finish c).1.timeEventMap = (rearmedIn seg).foldl insertTimer
      (c.vecDelTimeMs.foldl KeyedSet.erase c.loop.timeEventMap) := by
    simp [finish, h.undef, h.adds]
  rw [final]
  refine ⟨mapOk, fun x => ?_⟩
  rw [mem x, h.mem_erased x, h.contents x]
  constructor
  · rintro (⟨old | new, late⟩ | armed)
    · exact .inl ⟨old, late⟩
    · exact .inr (.inl new)
    · exact .inr (.inr armed)
  · rintro (⟨old, late⟩ | new | armed)
    · exact .inl ⟨.inl old, late⟩
    · exact .inl ⟨.inr new, (h.late x (.inl new)).1⟩
    · exact .inr armed

theorem AtBucket.finish_rep : Rep (finish c).1 := by
  obtain ⟨mapOk, contents⟩ := h.finish_map rep
  refine ⟨?_, mapOk, fun x hx => ?_, fun x hx => ?_⟩
  · simp [finish, h.undef]
  · have next : (finish c).1.timeEventNextId = c.loop.timeEventNextId := by simp [finish, h.undef]
    rw [next]
    rcases (contents x).mp hx with ⟨old, -⟩ | new | armed
    · exact h.below x ((h.contents x).mpr (.inl old))
    · exact h.below x ((h.contents x).mpr (.inr new))
    · obtain ⟨te, hte, -, same⟩ := h.rearmed_source rep armed
      rw [same]
      exact h.below te hte
  · rcases (contents x).mp hx with ⟨old, -⟩ | fresh
    · exact rep.fits x old
    · exact (h.late x fresh).2

theorem AtBucket.finish_exact : ExactPass env s (finish c).1 (finish c).2 seg := by
  obtain ⟨-, contents⟩ := h.finish_map rep
  have after := h.finish_rep rep
  refine ⟨?_, h.calls rep, h.once rep, ?_, ?_, h.returned, h.rearmedIds, h.armed, contents, ?_, ?_⟩
  · simp [finish, h.undef, h.trace]
  · rw [h.calls rep]
    refine (rep.map.timers_sorted.filter _).imp_of_mem fun {a b} ha hb less => ?_
    rwa [timeKey_of_fits (rep.fits a (List.mem_of_mem_filter ha)),
      timeKey_of_fits (rep.fits b (List.mem_of_mem_filter hb))] at less
  · simp [finish, h.undef, h.count]
  · intro x hx late
    exact ⟨rep.mem_bucket_deadline hx,
      after.mem_bucket_deadline ((contents x).mpr (.inl ⟨hx, late⟩))⟩
  · intro x hx
    exact after.mem_bucket_deadline ((contents x).mpr (.inr (.inr hx)))

end Finish

theorem processTimeEvents_exact (orderly : Orderly env) (fits : PassFits env s) (rep : Rep s) :
    ∃ fuel t n seg, processTimeEvents env fuel s = some (t, n) ∧ Rep t ∧
      ExactPass env s t n seg := by
  obtain ⟨c, seg, last⟩ := rep.start.walk orderly fits
  rw [List.nil_append] at last
  obtain ⟨fuel, run⟩ := WhileLoop.run_of_visits last.visited last.exit
  refine ⟨fuel, _, _, seg, ?_, last.finish_rep rep, last.finish_exact rep⟩
  rw [processTimeEvents, run]
  rfl

end Exact

def FitsStep (env : Env TimeEvent) (s : EventLoop) : Op TimeEvent → Prop
  | .timer (.create ms _ _ _) =>
      FitsLong (millis (aeAddMillisecondsToNow (env.gettimeofday s.tick) ms))
  | .pass => PassFits env s
  | _ => True

section Runs

variable {env : Env TimeEvent} {s : EventLoop}

theorem Rep.create (rep : Rep s) {ms : Int} (proc data : ℕ) (fin : Option ℕ)
    (fit : FitsLong (millis (aeAddMillisecondsToNow (env.gettimeofday s.tick) ms))) :
    Rep (aeCreateTimeEvent env s ms proc data fin).2 := by
  have free : ∀ x ∈ timers s.timeEventMap, x.id ≠ (s.newTimeEvent env ms proc data fin).id := by
    intro x hx same
    have := rep.below x hx
    simp only [Loop.newTimeEvent] at same
    omega
  refine ⟨rep.undef, rep.map.insertTimer free, ?_, ?_⟩
  · intro x hx
    simp only [aeCreateTimeEvent]
    rcases (mem_insertTimer free).mp hx with old | rfl
    · have := rep.below x old
      omega
    · simp only [Loop.newTimeEvent]
      omega
  · intro x hx
    rcases (mem_insertTimer free).mp hx with old | rfl
    · exact rep.fits x old
    · exact fit

theorem Rep.delete (rep : Rep s) (te : TimeEvent) : Rep (aeDeleteTimeEvent s te).2 :=
  ⟨rep.undef, rep.map.eraseTimer te, fun x hx => rep.below x (rep.map.mem_eraseTimer.mp hx).1,
    fun x hx => rep.fits x (rep.map.mem_eraseTimer.mp hx).1⟩

theorem Rep.resize (rep : Rep s) (mem : Memory) (setsize : Int) :
    Rep (aeResizeSetSize mem s setsize).2 := by
  unfold aeResizeSetSize
  split_ifs
  · exact rep
  · exact rep
  · exact ⟨rep.undef, mapOk_empty, fun x hx => absurd hx (not_mem_timers_empty x),
      fun x hx => absurd hx (not_mem_timers_empty x)⟩

theorem aeCreateEventLoop_rep {mem : Memory} {setsize : Int}
    (h : aeCreateEventLoop env mem setsize = some s) : Rep s := by
  obtain ⟨l, -, rfl⟩ := Option.map_eq_some_iff.mp h
  exact ⟨rfl, mapOk_empty, fun x hx => absurd hx (not_mem_timers_empty x),
    fun x hx => absurd hx (not_mem_timers_empty x)⟩

theorem run_rep (orderly : Orderly env) (run : Run env (FitsStep env) s) : Rep s := by
  refine run.invariant Rep ?_ ?_
  · rintro s ⟨mem, setsize, h⟩
    exact aeCreateEventLoop_rep h
  intro s op t rep ok step
  cases step with
  | timer call =>
      cases call with
      | create ms proc data fin => exact rep.create proc data fin ok
      | delete te => exact rep.delete te
  | file op => exact ⟨rep.undef, rep.map, rep.below, rep.fits⟩
  | resize mem setsize => exact rep.resize mem setsize
  | pass h =>
      obtain ⟨fuel, u, n, seg, hu, after, -⟩ := processTimeEvents_exact orderly ok rep
      rw [(Prod.mk.inj (processTimeEvents_unique h hu)).1]
      exact after

/-- The representation invariant in the words of the source. -/
structure Represented (m : TimeEventMap) : Prop where
  nonempty : ∀ p ∈ m, p.2.elems ≠ []
  keyed : ∀ p ∈ m, ∀ te ∈ p.2, te.when_sec * 1000 + te.when_ms = p.1
  ids : ((timers m).map TimeEvent.id).Nodup

theorem Rep.represented (rep : Rep s) : Represented s.timeEventMap where
  nonempty := rep.map.nonempty
  keyed p hp te hte := by
    have key := rep.map.keyed p hp te hte
    rw [timeKey_of_fits (rep.fits te (mem_timers.mpr ⟨p, hp, hte⟩))] at key
    exact key
  ids := rep.map.ids_nodup

theorem Rep.nearest (rep : Rep s) :
    (aeSearchNearestTimer s = none ↔ timers s.timeEventMap = []) ∧
      ∀ te, aeSearchNearestTimer s = some te → te ∈ timers s.timeEventMap ∧
        ∀ x ∈ timers s.timeEventMap, millis te.deadline ≤ millis x.deadline := by
  rw [aeSearchNearestTimer_eq s rep.map]
  refine ⟨List.head?_eq_none_iff, fun te first => ?_⟩
  obtain ⟨rest, elems⟩ := List.head?_eq_some_iff.mp first
  have stored : te ∈ timers s.timeEventMap := List.mem_of_head? first
  refine ⟨stored, fun x hx => ?_⟩
  have sorted := rep.map.timers_sorted
  rw [elems, List.pairwise_cons] at sorted
  rw [← timeKey_of_fits (rep.fits te stored), ← timeKey_of_fits (rep.fits x hx)]
  rw [elems] at hx
  rcases List.mem_cons.mp hx with rfl | later
  · exact le_refl _
  · rcases sorted.1 x later with less | ⟨same, -⟩
    · exact less.le
    · exact same.le

/-- In every run the map is as it should be between operations, deleting an absent record does
nothing to it, the nearest timer is found, and a pass ends and is exact. -/
theorem run_map_exact (orderly : Orderly env) (run : Run env (FitsStep env) s) :
    Represented s.timeEventMap ∧
      (∀ te, (∀ x ∈ timers s.timeEventMap, ¬ (x.id = te.id ∧ timeKey x = timeKey te)) →
        (aeDeleteTimeEvent s te).2.timeEventMap = s.timeEventMap) ∧
      ((aeSearchNearestTimer s = none ↔ timers s.timeEventMap = []) ∧
        ∀ te, aeSearchNearestTimer s = some te → te ∈ timers s.timeEventMap ∧
          ∀ x ∈ timers s.timeEventMap, millis te.deadline ≤ millis x.deadline) ∧
      (PassFits env s → ∃ fuel t n seg, processTimeEvents env fuel s = some (t, n) ∧
        Represented t.timeEventMap ∧ ExactPass env s t n seg) := by
  have rep := run_rep orderly run
  refine ⟨rep.represented, fun te absent => rep.map.eraseTimer_absent absent, rep.nearest, ?_⟩
  intro fits
  obtain ⟨fuel, t, n, seg, h, after, exact'⟩ := processTimeEvents_exact orderly fits rep
  exact ⟨fuel, t, n, seg, h, after.represented, exact'⟩

end Runs

def busyEnv : Env TimeEvent where
  gettimeofday _ := Timeval.ofMillis 5000
  time _ := 5
  timeProc _ _ := ⟨[.create 1 3 4 none], 5⟩
  finalizerProc _ _ := []

theorem busyEnv_orderly : Orderly busyEnv where
  clock _ _ _ := le_refl _
  calls tr te call h := by
    rw [busyEnv, List.mem_singleton] at h
    exact ⟨1, 3, 4, none, h, le_refl _⟩
  returns tr te := .inr (by simp [busyEnv])

theorem run_map_exact_busy :
    ∃ s, Run busyEnv (FitsStep busyEnv) s ∧ (timers s.timeEventMap).map TimeEvent.id = [1, 0] ∧
      Represented s.timeEventMap ∧ ∃ fuel t n seg,
        processTimeEvents busyEnv fuel s = some (t, n) ∧ ExactPass busyEnv s t n seg := by
  let s₁ := runCall busyEnv (fresh busyEnv) (.create 1000 3 4 none)
  let s₂ := runCall busyEnv s₁ (.create 0 3 4 none)
  have run₁ : Run busyEnv (FitsStep busyEnv) s₁ := .move (i := .timer (.create 1000 3 4 none))
    (fresh_run _ _) (by change FitsLong 6000; decide) (.timer _ _)
  have run₂ : Run busyEnv (FitsStep busyEnv) s₂ := .move (i := .timer (.create 0 3 4 none))
    run₁ (by change FitsLong 5000; decide) (.timer _ _)
  have tested : WhileLoop.checkAll (passStep busyEnv (lNow busyEnv s₂)) (fun c =>
      (createdIn c.loop.trace ++ rearmedIn c.loop.trace).all
        fun te => decide (FitsLong (millis te.deadline))) 6 (passStart s₂) = true := by decide
  have fits : PassFits busyEnv s₂ := by
    refine ⟨by decide, fun c visited te hte => ?_⟩
    have all := WhileLoop.visits_of_checkAll tested visited
    exact of_decide_eq_true (List.all_eq_true.mp all te (List.mem_append.mpr hte))
  obtain ⟨rep, -, -, pass⟩ := run_map_exact busyEnv_orderly run₂
  obtain ⟨fuel, t, n, seg, h, -, exact'⟩ := pass fits
  exact ⟨s₂, run₂, by decide, rep, fuel, t, n, seg, h, exact'⟩

end AeEventLoop.Ae3
