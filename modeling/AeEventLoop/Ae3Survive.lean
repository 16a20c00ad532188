import AeEventLoop.Ae3Walk

/-! What the walk of `ae3.cpp` does to the timers it found and to those created on the way.
Every due timer it found is called once unless deleted. A timer created on the way is called if
its key is ahead, and kept if its key is not one of a bucket already walked: those are erased
with whatever has landed in them since. -/

namespace AeEventLoop.Ae3

open TimeEventMap

def createdKeys (env : Env TimeEvent) (c : Pass) (te : TimeEvent) : List Int :=
  (createdDeadlines env c.loop.tick (script env c te).calls).map fun d => long (millis d)

/-- The callback about to be called creates no timer that the walk will still come to. -/
def LandsClear (env : Env TimeEvent) (s : EventLoop) (c : Pass) : Prop :=
  ∀ k id te, c.cursor = .inner k (some id) → (bucket c.loop.timeEventMap k).find? id = some te →
    ∀ key ∈ createdKeys env c te, key < k ∨ lNow env s < key

/-- The callback about to be called creates no timer in a bucket the walk is through with. -/
def LandsUnwalked (env : Env TimeEvent) (c : Pass) : Prop :=
  ∀ k id te, c.cursor = .inner k (some id) → (bucket c.loop.timeEventMap k).find? id = some te →
    ∀ key ∈ createdKeys env c te, key ∉ c.vecDelTimeMs

theorem mem_createdKeys {env : Env TimeEvent} {c : Pass} {te : TimeEvent}
    {user : List (Event TimeEvent)}
    (ran : Ran env (script env c te).calls (log c.loop (.called te))
      (runCalls env (log c.loop (.called te)) (script env c te).calls) user) (key : Int) :
    key ∈ createdKeys env c te ↔ ∃ x ∈ createdIn user, timeKey x = key := by
  have deadlines : (createdIn user).map TimeEvent.deadline =
      createdDeadlines env c.loop.tick (script env c te).calls := ran.deadlines
  rw [createdKeys, ← deadlines, List.map_map, List.mem_map]
  rfl

/-- The stored timers that the walk will come to as things stand. -/
def remaining (env : Env TimeEvent) (s : EventLoop) (c : Pass) : List TimeEvent :=
  (timers c.loop.timeEventMap).filter fun x => c.cursor.Ahead x ∧ timeKey x ≤ lNow env s

def Cursor.phase : Cursor → ℕ
  | .inner _ (some _) => 0
  | .outer _ => 1
  | .inner _ none => 2

@[simp] theorem Cursor.phase_inner_some (k id : Int) : (Cursor.inner k (some id)).phase = 0 := rfl

@[simp] theorem Cursor.phase_outer (mit : Option Int) : (Cursor.outer mit).phase = 1 := rfl

@[simp] theorem Cursor.phase_inner_none (k : Int) : (Cursor.inner k none).phase = 2 := rfl

def rank (env : Env TimeEvent) (s : EventLoop) (c : Pass) : ℕ :=
  3 * (remaining env s c).length + c.cursor.phase

section Rank

variable {env : Env TimeEvent} {s : EventLoop} {c c' : Pass} {seg : List (Event TimeEvent)}

theorem mem_remaining {x : TimeEvent} :
    x ∈ remaining env s c ↔
      x ∈ timers c.loop.timeEventMap ∧ c.cursor.Ahead x ∧ timeKey x ≤ lNow env s := by
  simp [remaining]

theorem Walking.remaining_nodup (walk : Walking env s c seg) : (remaining env s c).Nodup :=
  walk.map.timers_nodup.filter _

theorem enter_remaining {k : Int} (cursor : c.cursor = .outer (some k)) (sit : Option Int) :
    remaining env s { c with cursor := .inner k sit } ⊆ remaining env s c := by
  intro x hx
  obtain ⟨stored, ahead, due⟩ := mem_remaining.mp hx
  refine mem_remaining.mpr ⟨stored, ?_, due⟩
  rw [cursor]
  cases sit with
  | none => exact le_of_lt ahead
  | some id =>
      rcases ahead with more | ⟨same, -⟩
      · exact more.le
      · exact same.ge

theorem Walking.enter_rank (walk : Walking env s c seg) {k : Int}
    (cursor : c.cursor = .outer (some k)) (low : k ≤ lNow env s) :
    rank env s { c with
      cursor := .inner k ((bucket c.loop.timeEventMap k).first?.map TimeEvent.id) } <
        rank env s c := by
  have walk' := walk.enter cursor low
  obtain ⟨p, hp, rfl⟩ := walk.mit k cursor
  obtain ⟨te, tes, elems⟩ := List.exists_cons_of_ne_nil (walk.map.nonempty p hp)
  have first : (bucket c.loop.timeEventMap p.1).first? = some te := by
    rw [bucket_of_mem hp, KeyedSet.first?, elems, List.head?_cons]
  rw [first, Option.map_some] at walk' ⊢
  have fewer := List.Nodup.length_le_of_subset walk'.remaining_nodup
    (enter_remaining cursor (some te.id))
  have phase : c.cursor.phase = 1 := by rw [cursor, Cursor.phase_outer]
  simp only [rank, phase, Cursor.phase_inner_some]
  omega

theorem leave_remaining {k : Int} (cursor : c.cursor = .inner k none) :
    remaining env s { c with
      processed := c.processed + (bucket c.loop.timeEventMap k).elems.length
      vecDelTimeMs := c.vecDelTimeMs ++ [k]
      cursor := .outer ((c.loop.timeEventMap.next? k).map Prod.fst) } ⊆ remaining env s c := by
  intro x hx
  obtain ⟨stored, ahead, due⟩ := mem_remaining.mp hx
  refine mem_remaining.mpr ⟨stored, ?_, due⟩
  rw [cursor]
  dsimp only at ahead
  cases next : c.loop.timeEventMap.next? k with
  | none =>
      rw [next] at ahead
      exact ahead.elim
  | some p =>
      rw [next] at ahead
      exact (KeyedSet.mem_of_next? next).2.trans_le ahead

theorem Walking.leave_rank (walk : Walking env s c seg) {k : Int}
    (cursor : c.cursor = .inner k none) :
    rank env s { c with
      processed := c.processed + (bucket c.loop.timeEventMap k).elems.length
      vecDelTimeMs := c.vecDelTimeMs ++ [k]
      cursor := .outer ((c.loop.timeEventMap.next? k).map Prod.fst) } < rank env s c := by
  have fewer := List.Nodup.length_le_of_subset (walk.leave cursor).remaining_nodup
    (leave_remaining cursor)
  have phase : c.cursor.phase = 2 := by rw [cursor, Cursor.phase_inner_none]
  simp only [rank, phase, Cursor.phase_outer]
  omega

theorem Walking.fired_remaining (walk : Walking env s c seg) {k : Int} {te : TimeEvent}
    {user : List (Event TimeEvent)} {again : List TimeEvent}
    (cursor : c.cursor = .inner k (some te.id)) (here : te ∈ bucket c.loop.timeEventMap k)
    (fired : Fired env k te c c' user again) (clear : LandsClear env s c) :
    te :: remaining env s c' ⊆ remaining env s c := by
  obtain ⟨stored, key⟩ := walk.map.mem_bucket_iff.mp here
  have edited := walk.fired_edited fired
  intro x hx
  rcases List.mem_cons.mp hx with rfl | later
  · refine mem_remaining.mpr ⟨stored, ?_, ?_⟩
    · rw [cursor]
      exact .inr ⟨key, le_refl _⟩
    · rw [key]
      exact walk.inside k _ cursor
  · obtain ⟨hx, ahead, due⟩ := mem_remaining.mp later
    rw [fired.cursor] at ahead
    have more := of_ahead_next ahead
    rcases edited.source x hx with old | new
    · refine mem_remaining.mpr ⟨old, ?_, due⟩
      rw [cursor]
      rcases more with more | ⟨same, less⟩
      · exact .inl more
      · exact .inr ⟨same, less.le⟩
    · have out := clear k te.id te cursor (KeyedSet.find?_eq_some.mpr ⟨here, rfl⟩) (timeKey x)
        ((mem_createdKeys fired.ran _).mpr ⟨x, new, rfl⟩)
      omega

theorem Walking.fired_rank (walk : Walking env s c seg) {k : Int} {te : TimeEvent}
    {user : List (Event TimeEvent)} {again : List TimeEvent}
    (cursor : c.cursor = .inner k (some te.id)) (here : te ∈ bucket c.loop.timeEventMap k)
    (fired : Fired env k te c c' user again) (clear : LandsClear env s c) :
    rank env s c' < rank env s c := by
  have walk' := walk.fired cursor here fired
  have apart : te ∉ remaining env s c' := by
    intro again'
    obtain ⟨-, ahead, -⟩ := mem_remaining.mp again'
    exact walk'.behind te (by simp) ahead
  have fewer := List.Nodup.length_le_of_subset
    (List.nodup_cons.mpr ⟨apart, walk'.remaining_nodup⟩)
    (walk.fired_remaining cursor here fired clear)
  rw [List.length_cons] at fewer
  have phase : c.cursor.phase = 0 := by rw [cursor, Cursor.phase_inner_some]
  have phase' : c'.cursor.phase ≤ 2 := by
    rw [fired.cursor]
    cases (bucket c'.loop.timeEventMap k).next? te.id with
    | none => exact le_refl 2
    | some y => exact Nat.zero_le 2
  simp only [rank, phase]
  omega

theorem Walking.step_rank (walk : Walking env s c seg) (spares : SparesRunning env c)
    (clear : LandsClear env s c) (body : passStep env (lNow env s) c = some c') :
    rank env s c' < rank env s c := by
  cases walk.turn body with
  | enter cursor low => exact walk.enter_rank cursor low
  | fire cursor here =>
      obtain ⟨user, again, fired⟩ := walk.fire_spared cursor here spares
      exact walk.fired_rank cursor here fired clear
  | leave cursor => exact walk.leave_rank cursor

theorem clear_pass_returns (sound : Sound s)
    (spares : ∀ c, PassVisits env s c → SparesRunning env c)
    (clear : ∀ c, PassVisits env s c → LandsClear env s c) :
    ∃ fuel t n, processTimeEvents env fuel s = some (t, n) ∧ t.undef = false := by
  obtain ⟨fuel, m, c, run, ⟨visited, -⟩, -⟩ := WhileLoop.run_ranked
    (fun m c => PassVisits env s c ∧ m = rank env s c) (by
      rintro m a b ⟨met, rfl⟩ body
      obtain ⟨seg, walk⟩ := Walking.of_visits sound spares met
      exact ⟨_, walk.step_rank (spares a met) (clear a met) body, met.tail body, rfl⟩)
    ⟨.refl, rfl⟩
  obtain ⟨seg, walk⟩ := Walking.of_visits sound spares visited
  refine ⟨fuel, (finish c).1, (finish c).2, ?_, by simp [finish, walk.undef]⟩
  rw [processTimeEvents, run]
  rfl

end Rank

section Survive

variable {env : Env TimeEvent} {s t : EventLoop} {c c' : Pass} {seg : List (Event TimeEvent)}

theorem Walking.all_called (walk : Walking env s c seg) {mit : Option Int}
    (cursor : c.cursor = .outer mit) (past : ∀ k, mit = some k → lNow env s < k) {te : TimeEvent}
    (found : te ∈ timers s.timeEventMap) (due : timeKey te ≤ lNow env s)
    (alive : ¬ Erased seg te) : te ∈ calledIn seg := by
  rcases walk.old te found (walk.kept te (.inl found) alive) with called | ahead
  · exact called
  · rw [cursor] at ahead
    cases mit with
    | none => exact ahead.elim
    | some k =>
        have reach : k ≤ timeKey te := ahead
        have := past k rfl
        omega

theorem Walking.finish_trace (walk : Walking env s c seg) : (finish c).1.trace = s.trace ++ seg := by
  simp [finish, walk.undef, walk.trace]

/-- Callbacks may create and delete any timers. The iterators stay valid, and a pass that returns
has called every due timer it found and nobody deleted, and none twice, exactly when no callback
deletes the record it is called with. Such a pass returns unless it keeps meeting new timers. -/
theorem traversal_survives_iff (env : Env TimeEvent) (sound : Sound s) :
    (((∀ c, PassVisits env s c → c.loop.undef = false) ∧
        ∀ fuel t n, processTimeEvents env fuel s = some (t, n) → ∃ seg, t.trace = s.trace ++ seg ∧
          ((calledIn seg).map TimeEvent.id).Nodup ∧
          ∀ te ∈ timers s.timeEventMap, timeKey te ≤ lNow env s → ¬ Erased seg te →
            te ∈ calledIn seg) ↔
      ∀ c, PassVisits env s c → SparesRunning env c) ∧
    ((∀ c, PassVisits env s c → SparesRunning env c) →
      (∀ c, PassVisits env s c → LandsClear env s c) →
      ∃ fuel t n, processTimeEvents env fuel s = some (t, n)) := by
  have valid : (∀ c, PassVisits env s c → c.loop.undef = false) ↔
      ∀ c, PassVisits env s c → SparesRunning env c := iterators_valid_iff sound
  refine ⟨⟨fun both => valid.mp both.1, fun spares => ⟨valid.mpr spares, ?_⟩⟩, ?_⟩
  · intro fuel t n run
    obtain ⟨c, walked, eq⟩ := Option.map_eq_some_iff.mp run
    have eqT : t = (finish c).1 := by rw [eq]
    subst eqT
    obtain ⟨seg, walk⟩ := Walking.of_visits sound spares (WhileLoop.run_visits walked)
    obtain ⟨mit, cursor, past⟩ := walk.exit (WhileLoop.run_left walked)
    exact ⟨seg, walk.finish_trace, walk.once, fun te found due alive =>
      walk.all_called cursor past found due alive⟩
  · intro spares clear
    obtain ⟨fuel, t, n, run, -⟩ := clear_pass_returns sound spares clear
    exact ⟨fuel, t, n, run⟩

def pruningEnv : Env TimeEvent :=
  { stillEnv TimeEvent with
    timeProc := fun _ te =>
      if te.id = 0 then ⟨[.delete ⟨1, 5, 0, 3, none, 4⟩], AE_NOMORE⟩ else ⟨[], AE_NOMORE⟩ }

theorem pruningEnv_spares (c : Pass) : SparesRunning pruningEnv c := by
  intro k id te _ _ d asked hit
  simp only [script, pruningEnv] at asked
  split_ifs at asked with first
  · rw [List.mem_singleton] at asked
    injection asked with same
    rw [same, first] at hit
    exact absurd hit.1 (by decide)
  · cases asked

theorem pruningEnv_clear (s : EventLoop) (c : Pass) : LandsClear pruningEnv s c := by
  intro k id te _ _ key hkey
  simp only [createdKeys, script, pruningEnv] at hkey
  split_ifs at hkey
  · cases hkey
  · cases hkey

theorem traversal_survives_iff_pruning :
    ∃ s, Sound s ∧ (timers s.timeEventMap).map TimeEvent.id = [0, 1, 2] ∧
      (∀ c, PassVisits pruningEnv s c → c.loop.undef = false) ∧
      ∃ fuel t n, processTimeEvents pruningEnv fuel s = some (t, n) := by
  let s₁ := runCall pruningEnv (fresh pruningEnv) (.create 0 3 4 none)
  let s₂ := runCall pruningEnv s₁ (.create 0 3 4 none)
  let s₃ := runCall pruningEnv s₂ (.create 0 3 4 none)
  have run₁ : Run pruningEnv (fun _ _ => True) s₁ := .move (fresh_run _ _) trivial (.timer _ _)
  have run₂ : Run pruningEnv (fun _ _ => True) s₂ := .move run₁ trivial (.timer _ _)
  have run₃ : Run pruningEnv (fun _ _ => True) s₃ := .move run₂ trivial (.timer _ _)
  have sound := run_sound run₃ rfl
  obtain ⟨survives, returns⟩ := traversal_survives_iff pruningEnv sound
  have spares : ∀ c, PassVisits pruningEnv s₃ c → SparesRunning pruningEnv c :=
    fun c _ => pruningEnv_spares c
  exact ⟨s₃, sound, by decide, (survives.mpr spares).1,
    returns spares fun c _ => pruningEnv_clear s₃ c⟩

/-- A callback that deletes the record it is called with, as `evTimeProc_3` does. -/
def quittingEnv : Env TimeEvent :=
  { stillEnv TimeEvent with timeProc := fun _ te => ⟨[.delete te], AE_NOMORE⟩ }

theorem traversal_survives_fails_quitting :
    ¬ ∀ (env : Env TimeEvent) (s : EventLoop), Sound s →
      ∀ c, PassVisits env s c → c.loop.undef = false := by
  intro claim
  let s := runCall quittingEnv (fresh quittingEnv) (.create 0 3 4 none)
  have run : Run quittingEnv (fun _ _ => True) s := .move (fresh_run _ _) trivial (.timer _ _)
  have outcome : (WhileLoop.run (passStep quittingEnv (lNow quittingEnv s)) 4 (passStart s)).map
      (fun c => c.loop.undef) = some true := by decide
  obtain ⟨c, walked, broken⟩ := Option.map_eq_some_iff.mp outcome
  have fine := claim quittingEnv s (run_sound run rfl) c (WhileLoop.run_visits walked)
  rw [fine] at broken
  cases broken

end Survive

def CreatesOnly (env : Env TimeEvent) : Prop :=
  ∀ tr te d, .delete d ∉ (env.timeProc tr te).calls

section Kept

variable {env : Env TimeEvent} {s t : EventLoop} {c c' : Pass} {seg : List (Event TimeEvent)}

theorem CreatesOnly.spares (creates : CreatesOnly env) (c : Pass) : SparesRunning env c :=
  fun _ _ _ _ _ d asked _ => creates _ _ d asked

/-- Without deletes whatever was found or created is stored all through the walk. -/
structure Hoarding (env : Env TimeEvent) (s : EventLoop) (c : Pass)
    (seg : List (Event TimeEvent)) : Prop extends Walking env s c seg where
  undeleted : deletedIn seg = []

theorem Hoarding.stored (walk : Hoarding env s c seg) {x : TimeEvent} (created : x ∈ createdIn seg) :
    x ∈ timers c.loop.timeEventMap := by
  refine walk.kept x (.inr created) ?_
  rintro ⟨d, hd, -⟩
  rw [walk.undeleted] at hd
  cases hd

theorem Hoarding.step (creates : CreatesOnly env) (walk : Hoarding env s c seg)
    (body : passStep env (lNow env s) c = some c') :
    ∃ new, Hoarding env s c' (seg ++ new) ∧
      (c'.vecDelTimeMs = c.vecDelTimeMs ∨
        ∃ k, c.cursor = .inner k none ∧ new = [] ∧ c'.vecDelTimeMs = c.vecDelTimeMs ++ [k]) ∧
      (new = [] ∨ ∃ k te user, c.cursor = .inner k (some te.id) ∧
        te ∈ bucket c.loop.timeEventMap k ∧ calledIn new = [te] ∧ createdIn new = createdIn user ∧
        Ran env (script env c te).calls (log c.loop (.called te))
          (runCalls env (log c.loop (.called te)) (script env c te).calls) user) := by
  cases walk.turn body with
  | enter cursor low =>
      refine ⟨[], ⟨by simpa using walk.enter cursor low, by simpa using walk.undeleted⟩, .inl rfl,
        .inl rfl⟩
  | fire cursor here =>
      rename_i k te
      obtain ⟨user, again, fired⟩ := walk.fire_spared cursor here (creates.spares c)
      have none : deletedIn user = [] := List.eq_nil_iff_forall_not_mem.mpr fun d hd =>
        creates _ _ d (fired.ran.asked d AE_OK (mem_deletedIn.mp hd)).2
      refine ⟨_, ⟨walk.fired cursor here fired, by simp [walk.undeleted, none]⟩, .inl fired.dels,
        .inr ⟨k, te, user, cursor, here, ?_, ?_, fired.ran⟩⟩
      · simp [calledIn_of_user fired.ran.user]
      · simp
  | leave cursor =>
      rename_i k
      exact ⟨[], ⟨by simpa using walk.leave cursor, by simpa using walk.undeleted⟩,
        .inr ⟨k, cursor, rfl, rfl⟩, .inl rfl⟩

theorem Hoarding.start (sound : Sound s) : Hoarding env s (passStart s) [] :=
  ⟨.start sound, rfl⟩

/-- A created timer whose bucket has been walked was called, if none landed in a walked bucket. -/
theorem unwalked_called (creates : CreatesOnly env) (sound : Sound s)
    (unwalked : ∀ c, PassVisits env s c → LandsUnwalked env c) (visited : PassVisits env s c) :
    ∃ seg, Hoarding env s c seg ∧
      ∀ x ∈ createdIn seg, timeKey x ∈ c.vecDelTimeMs → x ∈ calledIn seg := by
  refine WhileLoop.visits_invariant (fun c => ∃ seg, Hoarding env s c seg ∧
    ∀ x ∈ createdIn seg, timeKey x ∈ c.vecDelTimeMs → x ∈ calledIn seg) (LandsUnwalked env) ?_
    unwalked ⟨[], .start sound, by simp⟩ visited
  rintro a b ⟨seg, walk, called⟩ lands body
  obtain ⟨new, walk', dels, wrote⟩ := walk.step creates body
  refine ⟨_, walk', fun x hx walked => ?_⟩
  rw [calledIn_append]
  rw [createdIn_append] at hx
  rcases wrote with rfl | ⟨k, te, user, cursor, here, -, created, ran⟩
  · simp only [createdIn_nil, List.append_nil] at hx
    rw [calledIn_nil, List.append_nil]
    rcases dels with same | ⟨k, cursor, -, more⟩
    · exact called x hx (same ▸ walked)
    · rw [more] at walked
      rcases List.mem_append.mp walked with before | now
      · exact called x hx before
      · have key := List.mem_singleton.mp now
        rcases walk.current k none cursor x
          (walk.map.mem_bucket_iff.mpr ⟨walk.stored hx, key⟩) with done | ahead
        · exact done
        · rw [cursor] at ahead
          have : k < timeKey x := ahead
          omega
  · have same : b.vecDelTimeMs = a.vecDelTimeMs := by
      rcases dels with same | ⟨k', other, -, -⟩
      · exact same
      · rw [cursor] at other
        cases other
    rw [same] at walked
    rcases List.mem_append.mp hx with early | late
    · exact List.mem_append_left _ (called x early walked)
    · rw [created] at late
      exact absurd walked (lands k te.id te cursor (KeyedSet.find?_eq_some.mpr ⟨here, rfl⟩) _
        ((mem_createdKeys ran _).mpr ⟨x, late, rfl⟩))

theorem landed_uncalled (creates : CreatesOnly env) {x : TimeEvent}
    (walk : Hoarding env s c seg) (created : x ∈ createdIn seg)
    (walked : timeKey x ∈ c.vecDelTimeMs) (uncalled : x ∉ calledIn seg)
    (visited : WhileLoop.Visits (passStep env (lNow env s)) c c') :
    ∃ seg, Hoarding env s c' seg ∧ x ∈ createdIn seg ∧ timeKey x ∈ c'.vecDelTimeMs ∧
      x ∉ calledIn seg := by
  refine WhileLoop.visits_invariant (fun c' => ∃ seg, Hoarding env s c' seg ∧ x ∈ createdIn seg ∧
    timeKey x ∈ c'.vecDelTimeMs ∧ x ∉ calledIn seg) (fun _ => True) ?_ (fun _ _ => trivial)
    ⟨seg, walk, created, walked, uncalled⟩ visited
  rintro a b ⟨seg, walk, created, walked, uncalled⟩ - body
  obtain ⟨new, walk', dels, wrote⟩ := walk.step creates body
  refine ⟨_, walk', by simp [created], ?_, ?_⟩
  · rcases dels with same | ⟨k, -, -, more⟩
    · rwa [same]
    · rw [more]
      exact List.mem_append_left _ walked
  · rw [calledIn_append, List.mem_append, not_or]
    refine ⟨uncalled, ?_⟩
    rcases wrote with rfl | ⟨k, te, user, cursor, here, called, -, -⟩
    · simp
    · rw [called, List.mem_singleton]
      rintro rfl
      have past := walk.dels (timeKey x) walked
      rw [cursor] at past
      have key := (walk.map.mem_bucket_iff.mp here).2
      have less : timeKey x < k := past
      omega

theorem visits_hoarding (creates : CreatesOnly env) (sound : Sound s)
    (visited : PassVisits env s c) : ∃ seg, Hoarding env s c seg := by
  refine WhileLoop.visits_invariant (fun c => ∃ seg, Hoarding env s c seg) (fun _ => True) ?_
    (fun _ _ => trivial) ⟨[], .start sound⟩ visited
  rintro a b ⟨seg, walk⟩ - body
  obtain ⟨new, walk', -⟩ := walk.step creates body
  exact ⟨_, walk'⟩

theorem Hoarding.lands (creates : CreatesOnly env) (walk : Hoarding env s c seg)
    (harm : ¬ LandsUnwalked env c) :
    ∃ c' seg' x, passStep env (lNow env s) c = some c' ∧ Hoarding env s c' seg' ∧
      x ∈ createdIn seg' ∧ timeKey x ∈ c'.vecDelTimeMs ∧ x ∉ calledIn seg' := by
  simp only [LandsUnwalked, not_forall, not_not] at harm
  obtain ⟨k, id, te, cursor, found, key, made, walked⟩ := harm
  obtain ⟨here, rfl⟩ := KeyedSet.find?_eq_some.mp found
  have body : passStep env (lNow env s) c = some (fire env c k te) := by
    simp only [passStep, walk.undef, cursor, found, Bool.false_eq_true, if_false]
  obtain ⟨new, walk', dels, wrote⟩ := walk.step creates body
  rcases wrote with rfl | ⟨k', te', user, cursor', here', called, created, ran⟩
  · obtain ⟨user, again, fired⟩ := walk.fire_spared cursor here (creates.spares c)
    have longer := fired.trace
    rw [walk'.trace, walk.trace, List.append_nil] at longer
    have := congrArg List.length longer
    simp at this
  · rw [cursor] at cursor'
    injection cursor' with hk hid
    obtain rfl := hk
    have same := KeyedSet.key_inj here here' (Option.some.inj hid)
    obtain rfl := same
    obtain ⟨x, hx, rfl⟩ := (mem_createdKeys ran key).mp made
    have fresh : c.loop.timeEventNextId ≤ x.id := (ran.newIds x hx).1
    refine ⟨_, _, x, body, walk', ?_, ?_, ?_⟩
    · rw [createdIn_append, created]
      exact List.mem_append_right _ hx
    · rcases dels with same | ⟨k', other, -⟩
      · rwa [same]
      · rw [cursor] at other
        cases other
    · rw [calledIn_append, called, List.mem_append, List.mem_singleton, not_or]
      refine ⟨fun early => ?_, fun same => ?_⟩
      · have := (walk.calledLow x early).2
        omega
      · have := walk.below te (walk.map.mem_bucket_iff.mp here).1
        rw [same] at fresh
        omega

/-- No timer created in the pass is lost, exactly when none is created in a bucket already walked:
clock, delays and return values are arbitrary, and callbacks delete nothing. -/
theorem created_kept_iff (creates : CreatesOnly env) (sound : Sound s) {fuel : ℕ} {n : Int}
    (run : processTimeEvents env fuel s = some (t, n)) :
    t.undef = false ∧ ∃ seg, t.trace = s.trace ++ seg ∧
      ((∀ x ∈ createdIn seg, x ∈ calledIn seg ∨ x ∈ bucket t.timeEventMap (timeKey x)) ↔
        ∀ c, PassVisits env s c → LandsUnwalked env c) := by
  obtain ⟨c, walked, eq⟩ := Option.map_eq_some_iff.mp run
  have eqT : t = (finish c).1 := by rw [eq]
  subst eqT
  have visited := WhileLoop.run_visits walked
  have exit := WhileLoop.run_left walked
  obtain ⟨seg, walk⟩ := visits_hoarding creates sound visited
  obtain ⟨mit, cursor, -⟩ := walk.exit exit
  obtain ⟨mapOk, mem⟩ := walk.finish_map cursor
  refine ⟨(walk.finish_sound cursor).undef, seg, walk.finish_trace, ?_, ?_⟩
  · intro kept d met
    by_contra harm
    obtain ⟨segD, walkD⟩ := visits_hoarding creates sound met
    obtain ⟨d', seg', x, body, walk', created, landed, uncalled⟩ := walkD.lands creates harm
    have later := WhileLoop.visits_exit (met.tail body) visited exit
    obtain ⟨seg'', walk'', created, landed, uncalled⟩ :=
      landed_uncalled creates walk' created landed uncalled later
    obtain rfl : seg = seg'' := List.append_cancel_left (walk.trace.symm.trans walk''.trace)
    rcases kept x created with called | stored
    · exact uncalled called
    · rcases (mem x).mp (bucket_sub_timers stored) with ⟨-, unwalked⟩ | armed
      · exact unwalked landed
      · obtain ⟨te, called, id⟩ :=
          List.mem_map.mp (walk.addIds.subset (List.mem_map_of_mem armed))
        rw [walk.same te called x (walk.stored created) id] at called
        exact uncalled called
  · intro unwalked x created
    obtain ⟨seg', walk', called⟩ := unwalked_called creates sound unwalked visited
    obtain rfl : seg = seg' := List.append_cancel_left (walk.trace.symm.trans walk'.trace)
    by_cases done : timeKey x ∈ c.vecDelTimeMs
    · exact .inl (called x created done)
    · exact .inr (mapOk.mem_bucket_iff.mpr ⟨(mem x).mpr (.inl ⟨walk.stored created, done⟩), rfl⟩)

def bearingEnv (ms : Int) : Env TimeEvent :=
  { stillEnv TimeEvent with
    timeProc := fun _ te => if te.id = 0 then ⟨[.create ms 3 4 none], 5⟩ else ⟨[], AE_NOMORE⟩ }

theorem bearingEnv_creates (ms : Int) : CreatesOnly (bearingEnv ms) := by
  intro tr te d asked
  simp only [bearingEnv] at asked
  split_ifs at asked
  · simp at asked
  · simp at asked

def twoTimers (env : Env TimeEvent) : EventLoop :=
  runCall env (runCall env (fresh env) (.create 0 3 4 none)) (.create (-1000) 3 4 none)

theorem twoTimers_sound (env : Env TimeEvent) : Sound (twoTimers env) := by
  have run : Run env (fun _ _ => True) (runCall env (fresh env) (.create 0 3 4 none)) :=
    .move (fresh_run _ _) trivial (.timer _ _)
  have run' : Run env (fun _ _ => True) (twoTimers env) := .move run trivial (.timer _ _)
  exact run_sound run' rfl

/-- A timer created with no delay goes into the bucket being walked, and is called there. -/
theorem created_kept_iff_bearing :
    ∃ fuel t n, processTimeEvents (bearingEnv 0) fuel (twoTimers (bearingEnv 0)) = some (t, n) ∧
      ∃ seg, t.trace = (twoTimers (bearingEnv 0)).trace ++ seg ∧
        (createdIn seg).map TimeEvent.id = [2] ∧
        ∀ c, PassVisits (bearingEnv 0) (twoTimers (bearingEnv 0)) c →
          LandsUnwalked (bearingEnv 0) c := by
  have outcome : (processTimeEvents (bearingEnv 0) 9 (twoTimers (bearingEnv 0))).map (fun r =>
      (createdIn (r.1.trace.drop 2), calledIn (r.1.trace.drop 2))) =
      some ([⟨2, 5, 0, 3, none, 4⟩],
        [⟨1, 4, 0, 3, none, 4⟩, ⟨0, 5, 0, 3, none, 4⟩, ⟨2, 5, 0, 3, none, 4⟩]) := by decide
  obtain ⟨⟨t, n⟩, run, facts⟩ := Option.map_eq_some_iff.mp outcome
  simp only [Prod.mk.injEq] at facts
  obtain ⟨-, seg, trace, kept⟩ :=
    created_kept_iff (bearingEnv_creates 0) (twoTimers_sound (bearingEnv 0)) run
  have rest : t.trace.drop 2 = seg := by
    rw [trace]
    rfl
  rw [rest] at facts
  refine ⟨9, t, n, run, seg, trace, by simp [facts.1], kept.mp fun x hx => .inl ?_⟩
  rw [facts.1, List.mem_singleton] at hx
  rw [hx, facts.2]
  decide

/-- A timer created under the key of the bucket walked before is erased with that bucket. -/
theorem created_kept_fails_bearing :
    ¬ ∀ (env : Env TimeEvent) (s t : EventLoop) (fuel : ℕ) (n : Int)
      (seg : List (Event TimeEvent)), CreatesOnly env → Sound s →
      processTimeEvents env fuel s = some (t, n) → t.trace = s.trace ++ seg →
      ∀ x ∈ createdIn seg, x ∈ calledIn seg ∨ x ∈ bucket t.timeEventMap (timeKey x) := by
  intro claim
  let s := twoTimers (bearingEnv (-1000))
  have outcome : (processTimeEvents (bearingEnv (-1000)) 9 s).map (fun r =>
      (decide (r.1.trace = s.trace ++ r.1.trace.drop 2), createdIn (r.1.trace.drop 2),
        calledIn (r.1.trace.drop 2), (timers r.1.timeEventMap).map TimeEvent.id)) =
      some (true, [⟨2, 4, 0, 3, none, 4⟩],
        [⟨1, 4, 0, 3, none, 4⟩, ⟨0, 5, 0, 3, none, 4⟩], [0]) := by decide
  obtain ⟨⟨t, n⟩, run, facts⟩ := Option.map_eq_some_iff.mp outcome
  simp only [Prod.mk.injEq, decide_eq_true_eq] at facts
  obtain ⟨trace, created, called, ids⟩ := facts
  have fate := claim (bearingEnv (-1000)) s t 9 n _ (bearingEnv_creates _) (twoTimers_sound _) run
    trace ⟨2, 4, 0, 3, none, 4⟩ (by simp [created])
  rcases fate with run | stored
  · rw [called] at run
    exact absurd run (by decide)
  · have listed := List.mem_map_of_mem (f := TimeEvent.id) (bucket_sub_timers stored)
    rw [ids] at listed
    exact absurd listed (by decide)

end Kept

end AeEventLoop.Ae3
