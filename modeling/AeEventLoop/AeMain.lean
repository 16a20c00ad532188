import AeEventLoop.WhileLoop
import AeEventLoop.Dispatch

/-! `aeMain`, whose text the three files share: a flag that ends the loop, a hook before each sleep,
and iterations of `aeProcessEvents` in between. `MainBackend` names what it uses of an event loop
beyond that. -/

namespace AeEventLoop

structure MainBackend (σ : Type) extends Backend σ where
  stop : σ → Bool
  setStop : Bool → σ → σ
  beforesleep : Option (σ → σ)

namespace MainBackend

variable {σ : Type} (b : MainBackend σ)

def aeStop (s : σ) : σ := b.setStop true s

/-- `if (eventLoop->beforesleep != NULL) eventLoop->beforesleep(eventLoop)`. -/
def hooked (s : σ) : σ := b.beforesleep.elim s fun proc => proc s

/-- The body of the loop. After the `break` nothing is done before the flag is tested again. -/
def turn (poll : σ → Int → List (ℕ × Mask)) (fuel : ℕ) (s : σ) : Option σ :=
  let s := b.hooked s
  if b.stop s then some s
  else (b.aeProcessEvents poll fuel (AE_ALL_EVENTS ||| AE_CALL_AFTER_SLEEP) s).map Prod.fst

def aeMain (poll : σ → Int → List (ℕ × Mask)) (fuel : ℕ) (s : σ) : Option σ :=
  WhileLoop.runNested b.stop (b.turn poll) fuel (b.setStop false s)

def Iterates (poll : σ → Int → List (ℕ × Mask)) : σ → σ → Prop :=
  Relation.ReflTransGen fun s t => b.stop s = false ∧ ∃ fuel, b.turn poll fuel s = some t

theorem Iterates.invariant {b : MainBackend σ} {poll : σ → Int → List (ℕ × Mask)} (I : σ → Prop)
    (keep : ∀ fuel s t, I s → b.stop s = false → b.turn poll fuel s = some t → I t) {s t : σ}
    (start : I s) (h : b.Iterates poll s t) : I t := by
  induction h with
  | refl => exact start
  | tail _ body ih =>
      obtain ⟨runs, fuel, turn⟩ := body
      exact keep fuel _ _ ih runs turn

theorem turn_mono {b : MainBackend σ}
    (mono : ∀ m n s r, m ≤ n → b.processTimeEvents m s = some r → b.processTimeEvents n s = some r)
    (poll : σ → Int → List (ℕ × Mask)) (m n : ℕ) (s t : σ) (more : m ≤ n)
    (h : b.turn poll m s = some t) : b.turn poll n s = some t := by
  unfold turn at h ⊢
  dsimp only at h ⊢
  split_ifs at h ⊢ with stopped
  · exact h
  · obtain ⟨r, turned, rfl⟩ := Option.map_eq_some_iff.mp h
    rw [Backend.aeProcessEvents, if_neg (by decide), if_pos (by decide)] at turned ⊢
    obtain ⟨q, pass, rfl⟩ := Option.map_eq_some_iff.mp turned
    rw [mono m n _ q more pass]
    rfl

/-- A loop that drains: its hook stops it when a state is `empty`; otherwise an iteration keeps the
invariant and lets the clock be read once more, and from reading `k` on it leaves an empty state. -/
structure Drains (poll : σ → Int → List (ℕ × Mask)) (I empty : σ → Prop) (tick : σ → ℕ)
    (k : ℕ) : Prop where
  stops : ∀ s, I s → empty s → b.stop (b.hooked s) = true ∧ I (b.hooked s) ∧ empty (b.hooked s)
  waits : ∀ s, I s → ¬ empty s → b.hooked s = s
  iterates : ∀ s, I s → ¬ empty s → b.stop s = false → ∃ fuel t n,
    b.aeProcessEvents poll fuel (AE_ALL_EVENTS ||| AE_CALL_AFTER_SLEEP) s = some (t, n) ∧ I t ∧
      b.stop t = false ∧ tick s < tick t ∧ (k ≤ tick s → empty t)

theorem Drains.returns {b : MainBackend σ} {poll : σ → Int → List (ℕ × Mask)} {I empty : σ → Prop}
    {tick : σ → ℕ} {k : ℕ} (drains : b.Drains poll I empty tick k)
    (mono : ∀ m n s r, m ≤ n → b.processTimeEvents m s = some r → b.processTimeEvents n s = some r)
    {s : σ} (inv : I (b.setStop false s)) (runs : b.stop (b.setStop false s) = false) :
    ∃ fuel t, b.aeMain poll fuel s = some t ∧ I t ∧ empty t := by
  -- the readings left before `k`, and one more iteration to see that nothing is pending
  let J : ℕ → σ → Prop := fun i s => I s ∧ ((b.stop s = true ∧ empty s) ∨
    b.stop s = false ∧ (empty s ∧ 0 < i ∨ k - tick s + 1 < i))
  obtain ⟨fuel, t, i, run, left, inv', final⟩ := WhileLoop.runNested_total J (turn_mono mono poll)
    (fun i s before runs => by
      obtain ⟨inv, ⟨stopped, -⟩ | ⟨-, measure⟩⟩ := before
      · exact absurd (stopped.symm.trans runs) (by decide)
      · by_cases done : empty s
        · obtain ⟨stop, inv', still⟩ := drains.stops s inv done
          refine ⟨0, b.hooked s, 0, ?_, by omega, inv', .inl ⟨stop, still⟩⟩
          rw [turn]
          exact if_pos stop
        · obtain ⟨fuel, t, n, ran, inv', runs', later, last⟩ := drains.iterates s inv done runs
          have bound : k - tick s + 1 < i := measure.resolve_left fun other => done other.1
          refine ⟨fuel, t, k - tick s + 1, ?_, bound, inv', .inr ⟨runs', ?_⟩⟩
          · rw [turn, drains.waits s inv done]
            rw [if_neg (by simp [runs]), ran]
            rfl
          · by_cases early : tick s < k
            · exact .inr (by omega)
            · exact .inl ⟨last (not_lt.mp early), by omega⟩)
    (⟨inv, .inr ⟨runs, .inr (Nat.lt_succ_self _)⟩⟩ :
      J (k - tick (b.setStop false s) + 2) (b.setStop false s))
  refine ⟨fuel, t, run, inv', ?_⟩
  rcases final with ⟨-, empty⟩ | ⟨runs', -⟩
  · exact empty
  · exact absurd (runs'.symm.trans left) (by decide)

end MainBackend

/-- When the kernel reports nothing the block that polls only sleeps and calls the hook. -/
theorem Backend.processFileEvents_silent {σ : Type} {b : Backend σ} {flags : Mask} {s : σ}
    (polls : b.Polls flags s) (hook : flags &&& AE_CALL_AFTER_SLEEP ≠ 0)
    {poll : σ → Int → List (ℕ × Mask)}
    (silent : poll (b.sleep flags s) (b.timeout flags s) = []) :
    b.processFileEvents poll flags s =
      (b.aftersleep (b.setTable (b.table (b.sleep flags s)) (b.sleep flags s)), 0) := by
  rw [Backend.processFileEvents_eq polls, silent]
  change (b.polled poll flags s, (0 : Int)) = _
  rw [Backend.polled, silent, if_pos hook]
  rfl

theorem Backend.aeProcessEvents_silent {σ : Type} {b : Backend σ} {s t : σ}
    {poll : σ → Int → List (ℕ × Mask)} (fuel : ℕ)
    (asleep : b.sleep (AE_ALL_EVENTS ||| AE_CALL_AFTER_SLEEP) s = t)
    (silent : poll t (b.timeout (AE_ALL_EVENTS ||| AE_CALL_AFTER_SLEEP) s) = []) :
    b.aeProcessEvents poll fuel (AE_ALL_EVENTS ||| AE_CALL_AFTER_SLEEP) s =
      (b.processTimeEvents fuel (b.aftersleep (b.setTable (b.table t) t))).map
        fun r => (r.1, 0 + r.2) := by
  subst asleep
  rw [Backend.aeProcessEvents, if_neg (by decide),
    Backend.processFileEvents_silent (.inr (by decide)) (by decide) silent, if_pos (by decide)]

namespace Host

variable {σ τ : Type} {h : Host σ} {g : Host τ} {f : σ → τ}

section Map

variable (table : ∀ s, g.table (f s) = h.table s) (call : ∀ c s, g.call c (f s) = f (h.call c s))
include table call

theorem fire_map (ev : FiredEvent) (kind : FileKind) (s : σ) :
    g.fire (f s) ev kind = f (h.fire s ev kind) := by
  simp only [fire, table, call]

omit call in
theorem ready_map (ev : FiredEvent) (kind : FileKind) (s : σ) :
    g.Ready (f s) ev kind ↔ h.Ready s ev kind := by
  rw [Ready, Ready, table]

theorem fireUnlessDone_map (ev : FiredEvent) (kind : FileKind) (c : σ × ℕ) :
    g.fireUnlessDone ev kind (f c.1, c.2) =
      (f (h.fireUnlessDone ev kind c).1, (h.fireUnlessDone ev kind c).2) := by
  have guard : g.Ready (f c.1) ev kind ∧ (c.2 = 0 ∨ g.Distinct (f c.1) ev.fd) ↔
      h.Ready c.1 ev kind ∧ (c.2 = 0 ∨ h.Distinct c.1 ev.fd) := by
    rw [Ready, Ready, Distinct, Distinct, table]
  by_cases go : h.Ready c.1 ev kind ∧ (c.2 = 0 ∨ h.Distinct c.1 ev.fd)
  · rw [fireUnlessDone, fireUnlessDone, if_pos go, if_pos (guard.mpr go), fire_map table call]
  · rw [fireUnlessDone, fireUnlessDone, if_neg go, if_neg fun other => go (guard.mp other)]

theorem dispatchEvent_map (ev : FiredEvent) (s : σ) :
    g.dispatchEvent ev (f s) = f (h.dispatchEvent ev s) := by
  by_cases invert : ((h.table s).events ev.fd).mask &&& AE_BARRIER ≠ 0
  · rw [dispatchEvent_invert invert, dispatchEvent_invert (by rwa [table])]
    have first := fireUnlessDone_map table call ev .writable (s, 0)
    dsimp only at first
    rw [first, fireUnlessDone_map table call]
  · rw [dispatchEvent_plain invert, dispatchEvent_plain (by rwa [table])]
    have ready := ready_map table ev .readable s
    by_cases go : h.Ready s ev .readable
    · rw [if_pos go, if_pos (ready.mpr go), fire_map table call]
      exact congrArg Prod.fst (fireUnlessDone_map table call ev .writable (h.fire s ev .readable, 1))
    · rw [if_neg go, if_neg fun other => go (ready.mp other)]
      exact congrArg Prod.fst (fireUnlessDone_map table call ev .writable (s, 0))

theorem dispatch_map (n j : ℕ) (s : σ) (processed : Int) :
    g.dispatch n j (f s, processed) =
      (f (h.dispatch n j (s, processed)).1, (h.dispatch n j (s, processed)).2) := by
  induction n generalizing j s processed with
  | zero => rfl
  | succ n ih =>
      simp only [dispatch, table]
      rw [dispatchEvent_map table call, ih]

end Map

end Host

namespace Backend

variable {σ τ : Type} {b : Backend σ} {g : Backend τ} {f : σ → τ}

/-- `g` does to the image of a state under `f` what `b` does to the state, up to the timers. -/
structure Lifts (b : Backend σ) (g : Backend τ) (f : σ → τ) : Prop where
  table : ∀ s, g.table (f s) = b.table s
  setTable : ∀ t s, g.setTable t (f s) = f (b.setTable t s)
  call : ∀ c s, g.call c (f s) = f (b.call c s)
  nearest : ∀ s, g.aeSearchNearestTimer (f s) = b.aeSearchNearestTimer s
  now : ∀ s, g.now (f s) = b.now s
  readClock : ∀ s, g.readClock (f s) = f (b.readClock s)
  aftersleep : ∀ s, g.aftersleep (f s) = f (b.aftersleep s)

theorem Lifts.timeout (lifts : Lifts b g f) (flags : Mask) (s : σ) :
    g.timeout flags (f s) = b.timeout flags s := by
  simp only [Backend.timeout, tvp, shortest, lifts.nearest, lifts.now]

theorem Lifts.sleep (lifts : Lifts b g f) (flags : Mask) (s : σ) :
    g.sleep flags (f s) = f (b.sleep flags s) := by
  simp only [Backend.sleep, shortest, lifts.nearest]
  split
  · exact lifts.readClock s
  · rfl

theorem Lifts.processFileEvents (lifts : Lifts b g f) (poll : τ → Int → List (ℕ × Mask))
    (flags : Mask) (s : σ) :
    g.processFileEvents poll flags (f s) =
      (f (b.processFileEvents (fun s => poll (f s)) flags s).1,
        (b.processFileEvents (fun s => poll (f s)) flags s).2) := by
  simp only [Backend.processFileEvents, lifts.table, lifts.sleep, lifts.timeout, lifts.setTable,
    lifts.aftersleep]
  split_ifs
  · exact Host.dispatch_map lifts.table lifts.call _ _ _ _
  · exact Host.dispatch_map lifts.table lifts.call _ _ _ _
  · rfl

end Backend

end AeEventLoop
