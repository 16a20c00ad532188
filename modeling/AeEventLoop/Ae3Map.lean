import AeEventLoop.Ae3

/-! The representation invariant of `timeEventMap` and what the map's operations do to the set of
stored timers. -/

namespace AeEventLoop.Ae3

open TimeEventMap

section Contents

variable {m : TimeEventMap}

theorem mem_timers {te : TimeEvent} : te ∈ timers m ↔ ∃ p ∈ m, te ∈ p.2 := List.mem_flatMap

theorem mem_bucket {k : Int} {te : TimeEvent} :
    te ∈ bucket m k ↔ ∃ p ∈ m, p.1 = k ∧ te ∈ p.2 := by
  unfold bucket
  split
  next p found =>
      obtain ⟨hp, rfl⟩ := KeyedSet.find?_eq_some.mp found
      constructor
      · exact fun h => ⟨p, hp, rfl, h⟩
      · rintro ⟨q, hq, same, h⟩
        rwa [← KeyedSet.key_inj hq hp same]
  next found =>
      constructor
      · exact fun h => absurd h (KeyedSet.not_mem_empty te)
      · rintro ⟨p, hp, same, -⟩
        exact absurd same (KeyedSet.find?_eq_none.mp found p hp)

theorem bucket_of_mem {p : Int × Bucket} (hp : p ∈ m) : bucket m p.1 = p.2 := by
  unfold bucket
  rw [KeyedSet.find?_eq_some.mpr ⟨hp, rfl⟩]

theorem bucket_sub_timers {k : Int} {te : TimeEvent} (h : te ∈ bucket m k) : te ∈ timers m := by
  obtain ⟨p, hp, -, hte⟩ := mem_bucket.mp h
  exact mem_timers.mpr ⟨p, hp, hte⟩

@[simp] theorem not_mem_timers_empty (te : TimeEvent) : te ∉ timers .empty := List.not_mem_nil

theorem mem_timers_erase {k : Int} {te : TimeEvent} :
    te ∈ timers (KeyedSet.erase m k) ↔ ∃ p ∈ m, p.1 ≠ k ∧ te ∈ p.2 := by
  simp only [mem_timers, KeyedSet.mem_erase]
  constructor
  · rintro ⟨p, ⟨hp, other⟩, h⟩
    exact ⟨p, hp, other, h⟩
  · rintro ⟨p, hp, other, h⟩
    exact ⟨p, ⟨hp, other⟩, h⟩

end Contents

def Stocked (m : TimeEventMap) : Prop := ∀ p ∈ m, p.2.elems ≠ []

section Stocked

variable {m : TimeEventMap}

theorem Stocked.eq_empty (stocked : Stocked m) (none : timers m = []) : m = .empty := by
  refine KeyedSet.ext fun p => ⟨fun hp => ?_, fun hp => absurd hp (KeyedSet.not_mem_empty p)⟩
  have nothing := List.flatMap_eq_nil_iff.mp none p hp
  exact absurd nothing (stocked p hp)

theorem insert_ne_nil (b : Bucket) (te : TimeEvent) : (b.insert te).elems ≠ [] := by
  by_cases free : ∀ x ∈ b, x.id ≠ te.id
  · exact List.ne_nil_of_mem (KeyedSet.mem_insert.mpr (.inr ⟨rfl, free⟩))
  · push Not at free
    obtain ⟨x, hx, -⟩ := free
    exact List.ne_nil_of_mem (KeyedSet.mem_insert.mpr (.inl hx))

theorem Stocked.insertTimer (stocked : Stocked m) (te : TimeEvent) :
    Stocked (insertTimer m te) := by
  intro p hp
  rw [TimeEventMap.insertTimer, KeyedSet.mem_put] at hp
  rcases hp with rfl | ⟨hp, -⟩
  · exact insert_ne_nil _ te
  · exact stocked p hp

theorem Stocked.eraseTimer (stocked : Stocked m) (te : TimeEvent) : Stocked (eraseTimer m te) := by
  intro p hp
  unfold TimeEventMap.eraseTimer at hp
  dsimp only at hp
  split_ifs at hp with gone
  · rw [KeyedSet.mem_erase, KeyedSet.mem_put] at hp
    rcases hp with ⟨rfl | ⟨hp, -⟩, other⟩
    · exact absurd rfl other
    · exact stocked p hp
  · rcases KeyedSet.mem_put.mp hp with rfl | ⟨hp, -⟩
    · intro empty
      exact gone (le_of_eq (congrArg List.length empty))
    · exact stocked p hp

theorem Stocked.erase (stocked : Stocked m) (k : Int) : Stocked (KeyedSet.erase m k) :=
  fun p hp => stocked p (KeyedSet.mem_erase.mp hp).1

theorem Stocked.foldl_erase (stocked : Stocked m) (ks : List Int) :
    Stocked (ks.foldl KeyedSet.erase m) := by
  induction ks generalizing m with
  | nil => exact stocked
  | cons k ks ih => exact ih (stocked.erase k)

theorem Stocked.foldl_insertTimer (stocked : Stocked m) (tes : List TimeEvent) :
    Stocked (tes.foldl TimeEventMap.insertTimer m) := by
  induction tes generalizing m with
  | nil => exact stocked
  | cons te tes ih => exact ih (stocked.insertTimer te)

end Stocked

/-- No bucket is empty, a bucket holds timers of its key only, and an id is stored once. -/
structure MapOk (m : TimeEventMap) : Prop where
  nonempty : Stocked m
  keyed : ∀ p ∈ m, ∀ te ∈ p.2, timeKey te = p.1
  ids : ∀ a ∈ timers m, ∀ b ∈ timers m, a.id = b.id → a = b

theorem mapOk_empty : MapOk .empty :=
  ⟨fun p hp => absurd hp (KeyedSet.not_mem_empty p), fun p hp => absurd hp (KeyedSet.not_mem_empty p),
    fun a ha => absurd ha (not_mem_timers_empty a)⟩

section MapOk

variable {m : TimeEventMap} {te : TimeEvent}

theorem MapOk.mem_bucket_iff (ok : MapOk m) {k : Int} :
    te ∈ bucket m k ↔ te ∈ timers m ∧ timeKey te = k := by
  rw [mem_bucket, mem_timers]
  constructor
  · rintro ⟨p, hp, rfl, h⟩
    exact ⟨⟨p, hp, h⟩, ok.keyed p hp te h⟩
  · rintro ⟨⟨p, hp, h⟩, rfl⟩
    exact ⟨p, hp, (ok.keyed p hp te h).symm, h⟩

theorem MapOk.timers_nodup (ok : MapOk m) : (timers m).Nodup := by
  refine List.nodup_flatMap.mpr ⟨fun p _ => ?_, ?_⟩
  · exact p.2.sorted.imp fun h same => (h.ne (congrArg TimeEvent.id same)).elim
  · refine m.sorted.imp_of_mem fun {p q} hp hq less => ?_
    refine List.disjoint_left.mpr fun te h h' => ?_
    exact less.ne ((ok.keyed p hp te h).symm.trans (ok.keyed q hq te h'))

theorem MapOk.ids_nodup (ok : MapOk m) : ((timers m).map TimeEvent.id).Nodup :=
  ok.timers_nodup.map_on fun a ha b hb same => ok.ids a ha b hb same

theorem MapOk.timers_sorted (ok : MapOk m) : (timers m).Pairwise fun a b =>
    timeKey a < timeKey b ∨ timeKey a = timeKey b ∧ a.id < b.id := by
  refine List.pairwise_flatMap.mpr ⟨fun p hp => ?_, ?_⟩
  · refine p.2.sorted.imp_of_mem fun {a b} ha hb less => .inr ⟨?_, less⟩
    rw [ok.keyed p hp a ha, ok.keyed p hp b hb]
  · refine m.sorted.imp_of_mem fun {p q} hp hq less a ha b hb => .inl ?_
    rwa [ok.keyed p hp a ha, ok.keyed q hq b hb]

theorem mem_timers_put {k : Int} {b : Bucket} {x : TimeEvent} :
    x ∈ timers (KeyedSet.put m (k, b)) ↔ x ∈ b ∨ ∃ p ∈ m, p.1 ≠ k ∧ x ∈ p.2 := by
  simp only [mem_timers, KeyedSet.mem_put]
  constructor
  · rintro ⟨p, rfl | ⟨hp, other⟩, h⟩
    · exact .inl h
    · exact .inr ⟨p, hp, other, h⟩
  · rintro (h | ⟨p, hp, other, h⟩)
    · exact ⟨(k, b), .inl rfl, h⟩
    · exact ⟨p, .inr ⟨hp, other⟩, h⟩

theorem mem_timers_split (m : TimeEventMap) (k : Int) {x : TimeEvent} :
    x ∈ timers m ↔ x ∈ bucket m k ∨ ∃ p ∈ m, p.1 ≠ k ∧ x ∈ p.2 := by
  rw [mem_timers, mem_bucket]
  constructor
  · rintro ⟨p, hp, h⟩
    by_cases same : p.1 = k
    · exact .inl ⟨p, hp, same, h⟩
    · exact .inr ⟨p, hp, same, h⟩
  · rintro (⟨p, hp, -, h⟩ | ⟨p, hp, -, h⟩) <;> exact ⟨p, hp, h⟩

theorem mem_insertTimer (free : ∀ x ∈ timers m, x.id ≠ te.id) {x : TimeEvent} :
    x ∈ timers (insertTimer m te) ↔ x ∈ timers m ∨ x = te := by
  have freeHere : ∀ y ∈ bucket m (timeKey te), y.id ≠ te.id :=
    fun y hy => free y (bucket_sub_timers hy)
  rw [insertTimer, mem_timers_put, KeyedSet.mem_insert, mem_timers_split m (timeKey te)]
  constructor
  · rintro ((old | ⟨rfl, -⟩) | other)
    · exact .inl (.inl old)
    · exact .inr rfl
    · exact .inl (.inr other)
  · rintro ((old | other) | rfl)
    · exact .inl (.inl old)
    · exact .inr other
    · exact .inl (.inr ⟨rfl, freeHere⟩)

theorem MapOk.insertTimer (ok : MapOk m) (free : ∀ x ∈ timers m, x.id ≠ te.id) :
    MapOk (insertTimer m te) := by
  refine ⟨ok.nonempty.insertTimer te, ?_, ?_⟩
  · intro p hp x hx
    rw [TimeEventMap.insertTimer, KeyedSet.mem_put] at hp
    rcases hp with rfl | ⟨hp, -⟩
    · rcases KeyedSet.mem_insert.mp hx with old | ⟨rfl, -⟩
      · exact (ok.mem_bucket_iff.mp old).2
      · rfl
    · exact ok.keyed p hp x hx
  · intro a ha b hb same
    rw [mem_insertTimer free] at ha hb
    rcases ha with ha | rfl <;> rcases hb with hb | rfl
    · exact ok.ids a ha b hb same
    · exact absurd same (free a ha)
    · exact absurd same.symm (free b hb)
    · rfl

theorem mem_eraseTimer {x : TimeEvent} :
    x ∈ timers (eraseTimer m te) ↔
      x ∈ bucket m (timeKey te) ∧ x.id ≠ te.id ∨ ∃ p ∈ m, p.1 ≠ timeKey te ∧ x ∈ p.2 := by
  unfold eraseTimer
  dsimp only
  split_ifs with gone
  · have empty : ∀ y, y ∉ (bucket m (timeKey te)).erase te.id := by
      intro y hy
      have := List.length_pos_of_mem hy
      omega
    simp only [mem_timers, KeyedSet.mem_erase, KeyedSet.mem_put]
    constructor
    · rintro ⟨p, ⟨rfl | ⟨hp, -⟩, other⟩, h⟩
      · exact absurd rfl other
      · exact .inr ⟨p, hp, other, h⟩
    · rintro (left | ⟨p, hp, other, h⟩)
      · exact absurd (KeyedSet.mem_erase.mpr left) (empty x)
      · exact ⟨p, ⟨.inr ⟨hp, other⟩, other⟩, h⟩
  · rw [mem_timers_put, KeyedSet.mem_erase]

theorem MapOk.mem_eraseTimer (ok : MapOk m) {x : TimeEvent} :
    x ∈ timers (eraseTimer m te) ↔
      x ∈ timers m ∧ ¬ (x.id = te.id ∧ timeKey x = timeKey te) := by
  rw [Ae3.mem_eraseTimer, ok.mem_bucket_iff]
  constructor
  · rintro (⟨⟨stored, -⟩, other⟩ | ⟨p, hp, other, h⟩)
    · exact ⟨stored, fun same => other same.1⟩
    · exact ⟨mem_timers.mpr ⟨p, hp, h⟩, fun same => other ((ok.keyed p hp x h).symm.trans same.2)⟩
  · rintro ⟨stored, different⟩
    by_cases here : timeKey x = timeKey te
    · exact .inl ⟨⟨stored, here⟩, fun same => different ⟨same, here⟩⟩
    · obtain ⟨p, hp, h⟩ := mem_timers.mp stored
      exact .inr ⟨p, hp, fun same => here ((ok.keyed p hp x h).trans same), h⟩

theorem MapOk.eraseTimer (ok : MapOk m) (te : TimeEvent) : MapOk (eraseTimer m te) := by
  refine ⟨ok.nonempty.eraseTimer te, ?_, ?_⟩
  · intro p hp x hx
    have old : p ∈ m ∨ p = (timeKey te, (bucket m (timeKey te)).erase te.id) := by
      unfold TimeEventMap.eraseTimer at hp
      dsimp only at hp
      split_ifs at hp
      · rcases KeyedSet.mem_put.mp (KeyedSet.mem_erase.mp hp).1 with same | ⟨hp, -⟩
        · exact .inr same
        · exact .inl hp
      · rcases KeyedSet.mem_put.mp hp with same | ⟨hp, -⟩
        · exact .inr same
        · exact .inl hp
    rcases old with hp | rfl
    · exact ok.keyed p hp x hx
    · exact (ok.mem_bucket_iff.mp (KeyedSet.mem_erase.mp hx).1).2
  · intro a ha b hb same
    exact ok.ids a (ok.mem_eraseTimer.mp ha).1 b (ok.mem_eraseTimer.mp hb).1 same

/-- Deleting a record that is not stored creates a bucket at most to take it away again. -/
theorem MapOk.eraseTimer_absent (ok : MapOk m)
    (absent : ∀ x ∈ timers m, ¬ (x.id = te.id ∧ timeKey x = timeKey te)) :
    TimeEventMap.eraseTimer m te = m := by
  have untouched : (bucket m (timeKey te)).erase te.id = bucket m (timeKey te) := by
    refine KeyedSet.erase_of_absent fun x hx same => ?_
    obtain ⟨stored, key⟩ := ok.mem_bucket_iff.mp hx
    exact absent x stored ⟨same, key⟩
  unfold TimeEventMap.eraseTimer
  rw [untouched]
  cases found : m.find? (timeKey te) with
  | none =>
      have free := KeyedSet.find?_eq_none.mp found
      have empty : bucket m (timeKey te) = .empty := by rw [bucket, found]
      rw [if_pos (by rw [empty]; exact le_refl 0)]
      refine KeyedSet.ext fun p => ?_
      rw [KeyedSet.mem_erase, KeyedSet.mem_put]
      constructor
      · rintro ⟨rfl | ⟨hp, -⟩, other⟩
        · exact absurd rfl other
        · exact hp
      · exact fun hp => ⟨.inr ⟨hp, free p hp⟩, free p hp⟩
  | some p =>
      obtain ⟨hp, same⟩ := KeyedSet.find?_eq_some.mp found
      have here : bucket m (timeKey te) = p.2 := by rw [← same]; exact bucket_of_mem hp
      have full : ¬ p.2.elems.length ≤ 0 := by
        have := List.length_pos_of_ne_nil (ok.nonempty p hp)
        omega
      rw [here, if_neg full]
      refine KeyedSet.ext fun q => ?_
      rw [KeyedSet.mem_put]
      constructor
      · rintro (rfl | ⟨hq, -⟩)
        · rwa [← same]
        · exact hq
      · intro hq
        by_cases key : q.1 = timeKey te
        · refine .inl ?_
          rw [KeyedSet.key_inj hq hp (key.trans same.symm), ← same]
        · exact .inr ⟨hq, key⟩

theorem MapOk.erase (ok : MapOk m) (k : Int) : MapOk (KeyedSet.erase m k) := by
  have sub : ∀ x ∈ timers (KeyedSet.erase m k), x ∈ timers m := by
    intro x hx
    obtain ⟨p, hp, -, h⟩ := mem_timers_erase.mp hx
    exact mem_timers.mpr ⟨p, hp, h⟩
  exact ⟨ok.nonempty.erase k,
    fun p hp => ok.keyed p (KeyedSet.mem_erase.mp hp).1,
    fun a ha b hb => ok.ids a (sub a ha) b (sub b hb)⟩

theorem MapOk.mem_erase (ok : MapOk m) {k : Int} {x : TimeEvent} :
    x ∈ timers (KeyedSet.erase m k) ↔ x ∈ timers m ∧ timeKey x ≠ k := by
  rw [mem_timers_erase]
  constructor
  · rintro ⟨p, hp, other, h⟩
    exact ⟨mem_timers.mpr ⟨p, hp, h⟩, fun same => other ((ok.keyed p hp x h).symm.trans same)⟩
  · rintro ⟨stored, other⟩
    obtain ⟨p, hp, h⟩ := mem_timers.mp stored
    exact ⟨p, hp, fun same => other ((ok.keyed p hp x h).trans same), h⟩

theorem MapOk.foldl_erase (ok : MapOk m) (ks : List Int) :
    MapOk (ks.foldl KeyedSet.erase m) ∧
      ∀ x, x ∈ timers (ks.foldl KeyedSet.erase m) ↔ x ∈ timers m ∧ timeKey x ∉ ks := by
  induction ks generalizing m with
  | nil => exact ⟨ok, fun x => by simp⟩
  | cons k ks ih =>
      obtain ⟨later, mem⟩ := ih (ok.erase k)
      refine ⟨later, fun x => ?_⟩
      rw [List.foldl_cons, mem x, ok.mem_erase, List.mem_cons]
      constructor
      · rintro ⟨⟨stored, other⟩, rest⟩
        exact ⟨stored, fun h => h.elim other rest⟩
      · rintro ⟨stored, none⟩
        exact ⟨⟨stored, fun h => none (.inl h)⟩, fun h => none (.inr h)⟩

theorem MapOk.foldl_insertTimer (ok : MapOk m) (tes : List TimeEvent)
    (free : ∀ te ∈ tes, ∀ x ∈ timers m, x.id ≠ te.id) (nodup : (tes.map TimeEvent.id).Nodup) :
    MapOk (tes.foldl TimeEventMap.insertTimer m) ∧
      ∀ x, x ∈ timers (tes.foldl TimeEventMap.insertTimer m) ↔ x ∈ timers m ∨ x ∈ tes := by
  induction tes generalizing m with
  | nil => exact ⟨ok, fun x => by simp⟩
  | cons te tes ih =>
      rw [List.map_cons, List.nodup_cons] at nodup
      have here := free te List.mem_cons_self
      have rest : ∀ y ∈ tes, ∀ x ∈ timers (TimeEventMap.insertTimer m te), x.id ≠ y.id := by
        intro y hy x hx same
        rcases (mem_insertTimer here).mp hx with old | rfl
        · exact free y (List.mem_cons_of_mem _ hy) x old same
        · exact nodup.1 (List.mem_map.mpr ⟨y, hy, same.symm⟩)
      obtain ⟨later, mem⟩ := ih (ok.insertTimer here) rest nodup.2
      refine ⟨later, fun x => ?_⟩
      rw [List.foldl_cons, mem x, mem_insertTimer here, List.mem_cons, or_assoc]

end MapOk

section Map

variable {m : TimeEventMap} {te x : TimeEvent} {k : Int}

theorem mem_bucket_put {k' : Int} {b : Bucket} :
    x ∈ bucket (KeyedSet.put m (k', b)) k ↔ k = k' ∧ x ∈ b ∨ k ≠ k' ∧ x ∈ bucket m k := by
  simp only [mem_bucket, KeyedSet.mem_put]
  constructor
  · rintro ⟨p, rfl | ⟨hp, other⟩, rfl, h⟩
    · exact .inl ⟨rfl, h⟩
    · exact .inr ⟨other, p, hp, rfl, h⟩
  · rintro (⟨rfl, h⟩ | ⟨other, p, hp, rfl, h⟩)
    · exact ⟨(k, b), .inl rfl, rfl, h⟩
    · exact ⟨p, .inr ⟨hp, other⟩, rfl, h⟩

theorem of_mem_insertTimer (h : x ∈ timers (insertTimer m te)) : x ∈ timers m ∨ x = te := by
  rw [insertTimer, mem_timers_put, KeyedSet.mem_insert] at h
  rcases h with (old | ⟨rfl, -⟩) | ⟨p, hp, -, h⟩
  · exact .inl (bucket_sub_timers old)
  · exact .inr rfl
  · exact .inl (mem_timers.mpr ⟨p, hp, h⟩)

theorem of_mem_foldl_insertTimer {tes : List TimeEvent}
    (h : x ∈ timers (tes.foldl insertTimer m)) : x ∈ timers m ∨ x ∈ tes := by
  induction tes generalizing m with
  | nil => exact .inl h
  | cons te tes ih =>
      rcases ih h with before | later
      · rcases of_mem_insertTimer before with old | rfl
        · exact .inl old
        · exact .inr List.mem_cons_self
      · exact .inr (List.mem_cons_of_mem _ later)

theorem of_mem_foldl_erase {ks : List Int} (h : x ∈ timers (ks.foldl KeyedSet.erase m)) :
    x ∈ timers m := by
  induction ks generalizing m with
  | nil => exact h
  | cons k ks ih =>
      obtain ⟨p, hp, -, hx⟩ := mem_timers_erase.mp (ih h)
      exact mem_timers.mpr ⟨p, hp, hx⟩

theorem of_mem_eraseTimer (h : x ∈ timers (eraseTimer m te)) : x ∈ timers m := by
  rcases mem_eraseTimer.mp h with ⟨old, -⟩ | ⟨p, hp, -, h⟩
  · exact bucket_sub_timers old
  · exact mem_timers.mpr ⟨p, hp, h⟩

theorem bucket_insertTimer (h : x ∈ bucket m k) : x ∈ bucket (insertTimer m te) k := by
  rw [insertTimer, mem_bucket_put]
  by_cases same : k = timeKey te
  · refine .inl ⟨same, KeyedSet.mem_insert.mpr (.inl ?_)⟩
    rwa [← same]
  · exact .inr ⟨same, h⟩

theorem bucket_eraseTimer (h : x ∈ bucket m k) (other : x.id ≠ te.id) :
    x ∈ bucket (eraseTimer m te) k := by
  unfold eraseTimer
  dsimp only
  by_cases same : k = timeKey te
  · have left : x ∈ (bucket m (timeKey te)).erase te.id :=
      KeyedSet.mem_erase.mpr ⟨same ▸ h, other⟩
    have full : ¬ ((bucket m (timeKey te)).erase te.id).elems.length ≤ 0 := by
      have := List.length_pos_of_mem left
      omega
    rw [if_neg full, mem_bucket_put]
    exact .inl ⟨same, left⟩
  · split_ifs
    · obtain ⟨p, hp, rfl, hx⟩ := mem_bucket.mp h
      exact mem_bucket.mpr ⟨p, KeyedSet.mem_erase.mpr
        ⟨KeyedSet.mem_put.mpr (.inr ⟨hp, same⟩), same⟩, rfl, hx⟩
    · exact mem_bucket_put.mpr (.inr ⟨same, h⟩)

end Map

/-- The nearest timer is the first of the first bucket, and that is a timer of least key. -/
theorem aeSearchNearestTimer_eq (s : EventLoop) (ok : MapOk s.timeEventMap) :
    aeSearchNearestTimer s = (timers s.timeEventMap).head? := by
  unfold aeSearchNearestTimer KeyedSet.first? timers
  cases h : s.timeEventMap.elems with
  | nil => rfl
  | cons p rest =>
      have hp : p ∈ s.timeEventMap := by rw [KeyedSet.mem_def, h]; exact List.mem_cons_self
      obtain ⟨te, tes, elems⟩ := List.exists_cons_of_ne_nil (ok.nonempty p hp)
      rw [List.flatMap_cons, elems]
      simp [elems]

theorem aeSearchNearestTimer_least {s : EventLoop} (ok : MapOk s.timeEventMap) {te x : TimeEvent}
    (nearest : aeSearchNearestTimer s = some te) (stored : x ∈ timers s.timeEventMap) :
    timeKey te ≤ timeKey x := by
  rw [aeSearchNearestTimer_eq s ok] at nearest
  obtain ⟨rest, split⟩ := List.head?_eq_some_iff.mp nearest
  have sorted := ok.timers_sorted
  rw [split] at sorted stored
  rcases List.mem_cons.mp stored with rfl | later
  · exact le_refl _
  · rcases (List.pairwise_cons.mp sorted).1 x later with less | ⟨same, -⟩
    · exact less.le
    · exact same.le

end AeEventLoop.Ae3
