import AeEventLoop.TcpRuns

/-! The timers of the TCP client. Its timer callback calls nothing on the timers and always returns
`AE_NOMORE`, so a pass takes the timers it calls out of the list and leaves the others as they are.
What the callback does to its connection depends on the id: under any id but zero it unregisters the
descriptor, which nobody closes then. -/

namespace AeEventLoop

namespace Ae

/-- Callbacks and finalizers call nothing, and every timer ends with its first call. -/
structure OneShot (env : Env Int) : Prop where
  callbacks : ∀ tr te, env.timeProc tr te = ⟨[], AE_NOMORE⟩
  finalizers : ∀ tr te, env.finalizerProc tr te = []

def Ending : Event Int → Prop
  | .created _ => False
  | .deleted _ _ => False
  | .rearmed _ => False
  | .returned _ retval => retval = AE_NOMORE
  | _ => True

section Pass

variable {env : Env Int} {maxId : Int} {c c' : Pass} {s t : EventLoop} {seg : List (Event Int)}

theorem OneShot.gentle (oneShot : OneShot env) : Gentle env where
  callbacks tr te := by simp [oneShot.callbacks]
  finalizers tr te id := by simp [oneShot.finalizers]

theorem OneShot.sweep_ending (oneShot : OneShot env) (p : ℕ) (cell : Cell TimeEvent) :
    ∃ new, (sweep env c p cell).loop.trace = c.loop.trace ++ new ∧ ∀ e ∈ new, Ending e := by
  have trace := (store_trace c.loop (c.loop.timeEvents.unlink p)).1
  simp only [sweep, runFinalizer]
  cases cell.val.finalizerProc with
  | none => exact ⟨[.unlinked cell.val], by simp [log, trace], by simp [Ending]⟩
  | some f =>
      exact ⟨[.unlinked cell.val, .finalized cell.val],
        by simp [log, trace, runCalls, oneShot.finalizers], by simp [Ending]⟩

theorem OneShot.fire_ending (oneShot : OneShot env) (p : ℕ) (te : TimeEvent) :
    (fire env c p te).loop.trace = c.loop.trace ++ [.called te, .returned te AE_NOMORE] := by
  simp only [fire, oneShot.callbacks, ne_eq, not_true_eq_false, if_false]
  rw [(store_trace _ _).1]
  simp [runTimeProc, runCalls, log, oneShot.callbacks]

theorem OneShot.passStep_ending (oneShot : OneShot env) (h : passStep env maxId c = some c') :
    ∃ new, c'.loop.trace = c.loop.trace ++ new ∧ ∀ e ∈ new, Ending e := by
  unfold passStep at h
  split at h
  · cases h
  split at h
  · cases h
  split at h
  · obtain rfl := Option.some.inj h
    exact ⟨[], by simp, by simp⟩
  next p _ _ cell _ =>
      dsimp only at h
      split_ifs at h with marked new due
      · obtain rfl := Option.some.inj h
        exact oneShot.sweep_ending p cell
      · obtain rfl := Option.some.inj h
        exact ⟨[], by simpa using (advance_trace c p).1, by simp⟩
      · obtain rfl := Option.some.inj h
        refine ⟨[.reached cell.val (reading env c), .called cell.val,
          .returned cell.val AE_NOMORE], ?_, by simp [Ending]⟩
        rw [oneShot.fire_ending]
        simp [log, reading]
      · obtain rfl := Option.some.inj h
        refine ⟨[.reached cell.val (reading env c)], ?_, by simp [Ending]⟩
        exact (advance_trace (reachTimer env c cell.val) p).1

theorem OneShot.pass_ending (oneShot : OneShot env) {xs : List (ℕ × TimeEvent)} (ok : Ok s xs)
    {fuel : ℕ} {n : Int} (h : processTimeEvents env fuel s = some (t, n)) :
    ∃ new, t.trace = s.trace ++ new ∧ ∀ e ∈ new, Ending e := by
  obtain ⟨c, run, same⟩ := Option.map_eq_some_iff.mp h
  obtain ⟨rfl, -⟩ := Prod.mk.inj same
  refine (WhileLoop.run_invariant
    (fun c => ∃ new, c.loop.trace = s.trace ++ new ∧ ∀ e ∈ new, Ending e) (fun _ => True)
    ?_ (fun _ _ => trivial) ?_ run).1
  · intro c c' ⟨before, trace, quiet⟩ _ body
    obtain ⟨new, trace', quiet'⟩ := oneShot.passStep_ending body
    refine ⟨before ++ new, by rw [trace', trace, List.append_assoc], fun e he => ?_⟩
    exact (List.mem_append.mp he).elim (quiet e) (quiet' e)
  · obtain ⟨-, -, -, trace, -, -⟩ := skew_ok env ok
    exact ⟨[], by simpa [passStart] using trace, by simp⟩

theorem createdIn_of_ending (quiet : ∀ e ∈ seg, Ending e) : createdIn seg = [] :=
  List.eq_nil_iff_forall_not_mem.mpr fun _ h => quiet _ (mem_createdIn.mp h)

theorem deletedIn_of_ending (quiet : ∀ e ∈ seg, Ending e) : deletedIn seg = [] :=
  List.eq_nil_iff_forall_not_mem.mpr fun _ h => quiet _ (mem_deletedIn.mp h)

theorem rearmedIn_of_ending (quiet : ∀ e ∈ seg, Ending e) : rearmedIn seg = [] :=
  List.eq_nil_iff_forall_not_mem.mpr fun _ h => quiet _ (mem_rearmedIn.mp h)

/-- The timers `called` ended between `s` and `t`, and the others are left. -/
structure Ended (s t : EventLoop) (called : List TimeEvent) : Prop where
  ok : ∃ ys, Ok t ys
  once : (called.map TimeEvent.id).Nodup
  found : ∀ te ∈ called, ∃ x ∈ s.timeEvents.contents, x.id = te.id ∧ x.clientData = te.clientData
  left : ∀ te ∈ t.timeEvents.contents, te.id ∉ called.map TimeEvent.id ∧
    ∃ x ∈ s.timeEvents.contents, x.id = te.id ∧ x.clientData = te.clientData
  files : t.toFileTable = s.toFileTable

theorem mem_pending {xs : List (ℕ × TimeEvent)} {te : TimeEvent} (h : te ∈ pending env s xs) :
    ∃ x ∈ xs.map Prod.snd, x.id = te.id ∧ x.clientData = te.clientData := by
  rw [pending] at h
  split_ifs at h with back
  · obtain ⟨x, hx, rfl⟩ := List.mem_map.mp h
    exact ⟨x.2, List.mem_map_of_mem hx, rfl, rfl⟩
  · exact ⟨te, h, rfl, rfl⟩

theorem OneShot.pass (oneShot : OneShot env) {xs : List (ℕ × TimeEvent)} (ok : Ok s xs) {fuel : ℕ}
    {n : Int} (h : processTimeEvents env fuel s = some (t, n)) :
    Ended s t (calledIn (t.trace.drop s.trace.length)) := by
  obtain ⟨fuel', u, ys, n', seg, h', after, exact'⟩ := pass_exact oneShot.gentle ok
  obtain ⟨rfl, rfl⟩ := Prod.mk.inj (processTimeEvents_unique h' h)
  obtain ⟨new, trace, quiet⟩ := oneShot.pass_ending ok h
  obtain rfl := List.append_cancel_left (exact'.trace.symm.trans trace)
  have contents := LinkedStore.contents_repr after.repr
  have called : ∀ te ∈ calledIn seg, te ∈ pending env s xs := by
    intro te hte
    rw [exact'.account.calls] at hte
    obtain ⟨r, hr, rfl⟩ := List.mem_map.mp hte
    have reached : r.1 ∈ (reachedIn seg).map Prod.fst :=
      List.mem_map_of_mem (List.mem_of_mem_filter hr)
    rw [exact'.visits] at reached
    exact List.mem_of_mem_filter reached
  rw [exact'.trace, List.drop_left]
  refine ⟨⟨ys, after⟩, exact'.once, fun te hte => ?_, fun te hte => ?_, exact'.files⟩
  · rw [LinkedStore.contents_repr ok.repr]
    exact mem_pending (called te hte)
  · rw [contents, exact'.after, createdIn_of_ending quiet] at hte
    obtain ⟨x, hx, kept⟩ := List.mem_filterMap.mp hte
    rw [survivor, deletedIn_of_ending quiet, rearmedIn_of_ending quiet,
      endedIn_of_last (fun te r mem => quiet _ mem) exact'.account.returned] at kept
    split_ifs at kept with gone
    obtain rfl := Option.some.inj kept
    rw [LinkedStore.contents_repr ok.repr]
    exact ⟨fun ended => gone (.inr ended), mem_pending hx⟩

end Pass

end Ae

namespace TcpClient

variable {a b : App} {p : ℕ} {te : TimeEvent}

theorem evTimerCb_frame (a : App) (te : TimeEvent) :
    (evTimerCb a te).heap = a.heap ∧ (evTimerCb a te).timers = a.timers ∧
      (evTimerCb a te).history = a.history ++ [.expired te.clientData te.id] := by
  simp only [evTimerCb]
  split_ifs
  · exact ⟨rfl, rfl, rfl⟩
  · exact ⟨rfl, rfl, rfl⟩
  · split <;> exact ⟨rfl, rfl, rfl⟩

/-- The reply of `p` is waited for and its timer has just left the list; or `p` is `NULL`. -/
def Awaited (a : App) (p : ℕ) : Prop :=
  p = 0 ∨ (∃ c, a.heap p = some c ∧ c.m_iTcpState = .wrote) ∧ ¬ a.Closed p ∧ ¬ a.TimedOut p ∧
    ¬ a.TimerPending p

theorem Awaited.evTimerCb (awaited : Awaited a p) (other : te.clientData = 0 ∨ te.clientData ≠ p) :
    Awaited (evTimerCb a te) p := by
  obtain ⟨heap, timers, history⟩ := evTimerCb_frame a te
  by_cases null : p = 0
  · exact .inl null
  · obtain ⟨conn, unclosed, inTime, idle⟩ := awaited.resolve_left null
    have apart : te.clientData ≠ p := other.elim (fun zero => zero ▸ Ne.symm null) id
    have others : ∀ e ∈ [TcpEvent.expired te.clientData te.id], e.pointer ≠ p := by simpa using apart
    refine .inr ⟨heap.symm ▸ conn, ?_, ?_, ?_⟩
    · rwa [App.closed_of_others history others]
    · rwa [App.timedOut_of_others history others]
    · rwa [App.TimerPending, timers]

theorem Inv.waiting (inv : Inv a) {c : CSockInfo} (conn : a.heap p = some c)
    (wrote : c.m_iTcpState = .wrote) (unclosed : ¬ a.Closed p) (inTime : ¬ a.TimedOut p) :
    Standing a p c .waiting := by
  obtain ⟨stage, standing⟩ := inv.conns p c conn
  cases stage with
  | waiting => exact standing
  | leaked => exact absurd (standing.timedOut.mpr rfl) inTime
  | done => exact absurd (standing.closed.mpr rfl) unclosed
  | outside => exact absurd (wrote.symm.trans (standing.state _ rfl)) (by decide)
  | fresh => exact absurd (wrote.symm.trans (standing.state _ rfl)) (by decide)
  | connecting => exact absurd (wrote.symm.trans (standing.state _ rfl)) (by decide)

theorem Inv.expired_null (inv : Inv a) (id : Int) : Inv (a.log (.expired 0 id)) := by
  obtain ⟨xs, ok⟩ := inv.ok
  refine inv.congr rfl rfl (fun _ h => h) rfl ?_ inv.files ⟨xs, ok⟩ rfl rfl ?_
  · intro e he
    exact ⟨id, List.mem_singleton.mp he⟩
  · intro te hte
    exact .inr ⟨te, hte, rfl, rfl⟩

/-- The timer of a connection whose id is zero has been called: nothing happens to the connection,
which waits on without a timer. -/
theorem Inv.expired_zero (inv : Inv a) {c : CSockInfo} (conn : a.heap p = some c)
    (standing : Standing a p c .waiting) (idle : ¬ a.TimerPending p) :
    Inv (a.log (.expired p 0)) := by
  have unclosed := standing.unclosed (by decide)
  obtain ⟨xs, ok⟩ := inv.ok
  have edit : Edit p c c a (a.log (.expired p 0)) [.expired p 0] :=
    ⟨heap_self conn, rfl, rfl, inv.files, ⟨xs, ok⟩, rfl, fun _ _ => rfl, rfl, by simp,
      fun te hte => .inl hte, fun fd hfd _ => hfd⟩
  refine @Inv.advance a _ p c c .waiting .waiting _ inv conn standing rfl edit (by decide)
    (by simp) (by simp) ?_ standing.entry (by simp [Stage.entry]) standing.state
    (fun _ => inv.sockets p c conn unclosed) (by simp) fun pre fd post => closed_nowhere (by simp)
  intro te hte mine
  exact absurd ⟨te, hte, mine⟩ idle

/-- The timer of a connection has been called under another id: the descriptor is unregistered and
stays open. -/
theorem Inv.expired_late (inv : Inv a) {c : CSockInfo} (conn : a.heap p = some c)
    (standing : Standing a p c .waiting) (idle : ¬ a.TimerPending p) {id : Int} (late : id ≠ 0) :
    Inv (aeDeleteFileEvent (a.log (.expired p id)) c.m_iFd (AE_READABLE ||| AE_WRITABLE)) := by
  have unclosed := standing.unclosed (by decide)
  obtain ⟨files, setsize, others, cleared⟩ := inv.cleared standing rfl
  obtain ⟨xs, ok⟩ := inv.ok
  let b := aeDeleteFileEvent (a.log (.expired p id)) c.m_iFd (AE_READABLE ||| AE_WRITABLE)
  have edit : Edit p c c a b [.expired p id] :=
    ⟨heap_self conn, rfl, rfl, files, ⟨xs, ok.same rfl rfl rfl⟩, setsize, others, rfl, by simp,
      fun te hte => .inl hte, fun fd hfd _ => hfd⟩
  refine @Inv.advance a b p c c .waiting .leaked _ inv conn standing rfl edit (by decide)
    (by simp) (by simp [late]) ?_ (by simp [Stage.entry]) (fun _ => cleared) standing.state
    (fun _ => inv.sockets p c conn unclosed) (by simp) fun pre fd post => closed_nowhere (by simp)
  intro te hte mine
  exact absurd ⟨te, hte, mine⟩ idle

theorem Inv.evTimerCb (inv : Inv a) (awaited : Awaited a te.clientData) :
    Inv (evTimerCb a te) := by
  rcases awaited with null | ⟨⟨c, conn, wrote⟩, unclosed, inTime, idle⟩
  · have eq : TcpClient.evTimerCb a te = a.log (.expired 0 te.id) := by
      simp [TcpClient.evTimerCb, null]
    rw [eq]
    exact inv.expired_null te.id
  · have standing := inv.waiting conn wrote unclosed inTime
    have mine := (inv.low _ c conn).1
    by_cases zero : te.id = 0
    · have eq : TcpClient.evTimerCb a te = a.log (.expired te.clientData 0) := by
        simp [TcpClient.evTimerCb, zero]
      rw [eq]
      exact inv.expired_zero conn standing idle
    · have eq : TcpClient.evTimerCb a te = aeDeleteFileEvent (a.log (.expired te.clientData te.id))
          c.m_iFd (AE_READABLE ||| AE_WRITABLE) := by
        have here : (a.log (.expired te.clientData te.id)).heap te.clientData = some c := conn
        simp only [TcpClient.evTimerCb, if_neg zero, if_neg (by omega : ¬ te.clientData = 0), here]
      rw [eq]
      exact inv.expired_late conn standing idle zero

theorem Inv.foldl_evTimerCb {called : List TimeEvent} (inv : Inv a)
    (awaited : ∀ te ∈ called, Awaited a te.clientData)
    (apart : called.Pairwise fun x y => x.clientData = 0 ∨ x.clientData ≠ y.clientData) :
    Inv (called.foldl TcpClient.evTimerCb a) := by
  induction called generalizing a with
  | nil => exact inv
  | cons te called ih =>
      obtain ⟨first, rest⟩ := List.pairwise_cons.mp apart
      refine ih (inv.evTimerCb (awaited te List.mem_cons_self)) (fun x hx => ?_) rest
      exact (awaited x (List.mem_cons_of_mem _ hx)).evTimerCb (first x hx)

theorem env_oneShot (gettimeofday : ℕ → Timeval) (time : ℕ → Int) :
    Ae.OneShot (env gettimeofday time) := ⟨fun _ _ => rfl, fun _ _ => rfl⟩

theorem Inv.timer (inv : Inv a) {x : TimeEvent} (hx : x ∈ a.timers) (data : x.clientData ≠ 0) :
    ∃ c, a.heap x.clientData = some c ∧ Standing a x.clientData c .waiting ∧
      x.id = c.m_lTimerId := by
  obtain ⟨c, conn⟩ := (inv.pointers x hx).resolve_left data
  obtain ⟨stage, standing⟩ := inv.conns _ c conn
  obtain ⟨rfl, id⟩ := standing.timers x hx rfl
  exact ⟨c, conn, standing, id⟩

theorem Inv.processTimeEvents (inv : Inv a) {env : Env Int} (oneShot : Ae.OneShot env) {fuel : ℕ}
    {n : Int} (h : processTimeEvents env fuel a = some (b, n)) : Inv b := by
  obtain ⟨⟨t, n'⟩, run, same⟩ := Option.map_eq_some_iff.mp h
  obtain ⟨rfl, -⟩ := Prod.mk.inj same
  obtain ⟨xs, ok⟩ := inv.ok
  have ended := oneShot.pass ok run
  generalize calledIn (t.trace.drop a.loop.trace.length) = called at ended
  have passed : Inv { a with loop := t } :=
    inv.withLoop (ended.files ▸ inv.files) ended.ok (by rw [ended.files]) (by rw [ended.files])
      fun te hte => .inr (ended.left te hte).2
  refine passed.foldl_evTimerCb (fun te hte => ?_) ?_
  · obtain ⟨x, hx, id, data⟩ := ended.found te hte
    by_cases null : te.clientData = 0
    · exact .inl null
    · obtain ⟨c, conn, standing, own⟩ := inv.timer hx (data ▸ null)
      rw [data] at conn standing
      refine .inr ⟨⟨c, conn, standing.state _ rfl⟩,
        fun gone => absurd (standing.closed.mp gone) (by decide),
        fun late => absurd (standing.timedOut.mp late) (by decide), ?_⟩
      rintro ⟨y, hy, mine⟩
      obtain ⟨gone, z, hz, same, data'⟩ := ended.left y hy
      have other := (standing.timers z hz (data'.trans mine)).2
      refine gone (List.mem_map.mpr ⟨te, hte, ?_⟩)
      rw [← id, own, ← other, same]
  · refine (List.pairwise_map.mp ended.once).imp_of_mem fun {x y} hx hy distinct => ?_
    by_cases null : x.clientData = 0
    · exact .inl null
    · refine .inr fun shared => distinct ?_
      obtain ⟨x', hx', id, data⟩ := ended.found x hx
      obtain ⟨y', hy', id', data'⟩ := ended.found y hy
      obtain ⟨c, conn, standing, own⟩ := inv.timer hx' (data ▸ null)
      have other := (standing.timers y' hy' (data'.trans (shared.symm.trans data.symm))).2
      rw [← id, ← id', own, other]

end TcpClient

end AeEventLoop
