import AeEventLoop.AeMain
import AeEventLoop.TcpSettles

/-! The TCP client under `aeMain`. `main` creates a timer before anything else, so its id is zero,
and `evTimerCb` stops the loop when it is called for that id; `beforeSleepProc` stops it when no
descriptor is registered. Whatever the kernel reports and however connections fare, the timer stays
in the list until it is called, so the loop ends once the clock is past its deadline. -/

namespace AeEventLoop

namespace Ae

variable {env : Env Int} {s t : EventLoop} {xs : List (ℕ × TimeEvent)}

theorem pass_counts (gentle : Gentle env) (ok : Ok s xs) {fuel : ℕ} {n : Int}
    (h : processTimeEvents env fuel s = some (t, n)) :
    s.tick < t.tick ∧ s.timeEventNextId ≤ t.timeEventNextId := by
  obtain ⟨ys, start⟩ := Walk.start env ok
  have ids : (([] ++ pending env s xs).map TimeEvent.id).Nodup := by
    rw [List.nil_append, pending_ids]
    exact ok.ids
  obtain ⟨c, V, R, front, seg, walk, -⟩ :=
    start.complete gentle ids fun x hx => pending_low env ok hx
  have exit : passStep env (s.timeEventNextId - 1) c = none := by
    rw [passStep, if_neg (by simp [walk.ok.undef]), walk.cursor]
    rfl
  obtain ⟨fuel', run⟩ := WhileLoop.run_of_visits walk.visited exit
  have same : processTimeEvents env fuel' s = some (c.loop, c.processed) := by
    rw [processTimeEvents, run, Option.map_some]
  obtain ⟨rfl, -⟩ := Prod.mk.inj (processTimeEvents_unique h same)
  have tick := walk.tick
  have next := walk.next
  omega

/-- In a pass of callbacks that end their timers, a timer that is not called stays in the list, and
one that is due at every reading is called. A clock set back changes its deadline first. -/
theorem OneShot.pass_fate (oneShot : OneShot env) (ok : Ok s xs) {fuel : ℕ} {n : Int}
    (h : processTimeEvents env fuel s = some (t, n)) {te : TimeEvent}
    (stored : te ∈ s.timeEvents.contents) :
    ∃ x, (x = te ∨ x = { te with when_sec := 0 }) ∧
      (x ∈ calledIn (t.trace.drop s.trace.length) ∨ x ∈ t.timeEvents.contents) ∧
      ((∀ k, s.tick < k → Due x.deadline (aeGetTime (env.gettimeofday k))) →
        x ∈ calledIn (t.trace.drop s.trace.length)) := by
  obtain ⟨fuel', u, ys, n', seg, h', after, exact'⟩ := pass_exact oneShot.gentle ok
  obtain ⟨rfl, rfl⟩ := Prod.mk.inj (processTimeEvents_unique h' h)
  obtain ⟨new, trace, quiet⟩ := oneShot.pass_ending ok h
  obtain rfl := List.append_cancel_left (exact'.trace.symm.trans trace)
  rw [LinkedStore.contents_repr ok.repr] at stored
  obtain ⟨y, hy, rfl⟩ := List.mem_map.mp stored
  obtain ⟨x, is, found⟩ : ∃ x, (x = y.2 ∨ x = { y.2 with when_sec := 0 }) ∧
      x ∈ pending env s xs := by
    rw [pending]
    split_ifs
    · exact ⟨_, .inr rfl, List.mem_map_of_mem hy⟩
    · exact ⟨_, .inl rfl, List.mem_map_of_mem hy⟩
  have undeleted : x.id ∉ deletedIn seg := by
    rw [deletedIn_of_ending quiet]
    exact List.not_mem_nil
  have reached : x ∈ (reachedIn seg).map Prod.fst := by
    rw [exact'.visits]
    exact List.mem_filter.mpr ⟨found, by simp [deletedFirst_of_kept undeleted]⟩
  rw [exact'.trace, List.drop_left, LinkedStore.contents_repr after.repr, exact'.after]
  refine ⟨x, is, ?_, fun due => ?_⟩
  · by_cases ended : x.id ∈ endedIn seg
    · left
      rw [endedIn_of_last (fun te r mem => quiet _ mem) exact'.account.returned] at ended
      obtain ⟨z, hz, same⟩ := List.mem_map.mp ended
      have inside : z ∈ pending env s xs := by
        have := hz
        rw [exact'.account.calls] at this
        obtain ⟨r, hr, rfl⟩ := List.mem_map.mp this
        have met : r.1 ∈ (reachedIn seg).map Prod.fst :=
          List.mem_map_of_mem (List.mem_of_mem_filter hr)
        rw [exact'.visits] at met
        exact List.mem_of_mem_filter met
      have ids : ((pending env s xs).map TimeEvent.id).Nodup := by
        rw [pending_ids]
        exact ok.ids
      rwa [← List.inj_on_of_nodup_map ids inside found same]
    · right
      refine List.mem_append_right _ (List.mem_filterMap.mpr ⟨x, found, ?_⟩)
      rw [survivor, if_neg (by simp [undeleted, ended]), rearmedIn_of_ending quiet]
      rfl
  · obtain ⟨⟨z, now⟩, hr, rfl⟩ := List.mem_map.mp reached
    obtain ⟨pre, occurs⟩ := exists_occurs (mem_reachedIn.mp hr)
    have now_eq := exact'.account.readings pre z now occurs
    rw [exact'.account.calls]
    refine List.mem_map.mpr ⟨(z, now), List.mem_filter.mpr ⟨hr, ?_⟩, rfl⟩
    rw [decide_eq_true_iff, now_eq]
    exact due _ (by omega)

theorem OneShot.pass_left (oneShot : OneShot env) (ok : Ok s xs) {fuel : ℕ} {n : Int}
    (h : processTimeEvents env fuel s = some (t, n)) :
    ∀ te ∈ t.timeEvents.contents, ∃ x ∈ s.timeEvents.contents,
      te = x ∨ te = { x with when_sec := 0 } := by
  intro te left
  obtain ⟨fuel', u, ys, n', seg, h', after, exact'⟩ := pass_exact oneShot.gentle ok
  obtain ⟨rfl, rfl⟩ := Prod.mk.inj (processTimeEvents_unique h' h)
  obtain ⟨new, trace, quiet⟩ := oneShot.pass_ending ok h
  obtain rfl := List.append_cancel_left (exact'.trace.symm.trans trace)
  rw [LinkedStore.contents_repr after.repr, exact'.after, createdIn_of_ending quiet] at left
  obtain ⟨x, found, kept⟩ := List.mem_filterMap.mp left
  rw [survivor, rearmedIn_of_ending quiet] at kept
  split_ifs at kept
  obtain rfl := Option.some.inj kept
  rw [LinkedStore.contents_repr ok.repr]
  rw [pending] at found
  split_ifs at found
  · obtain ⟨y, hy, rfl⟩ := List.mem_map.mp found
    exact ⟨y.2, List.mem_map_of_mem hy, .inr rfl⟩
  · exact ⟨x, found, .inl rfl⟩

end Ae

namespace TcpClient

structure Program where
  app : App
  stop : Bool

namespace Program

def aeStop (s : Program) : Program := { s with stop := true }

def beforeSleepProc (s : Program) : Program :=
  if s.app.loop.maxfd < 0 then s.aeStop else s

def evTimerCb (s : Program) (te : TimeEvent) : Program :=
  let s := { s with app := TcpClient.evTimerCb s.app te }
  if te.id = 0 then s.aeStop else s

def processTimeEvents (env : Env Int) (fuel : ℕ) (s : Program) : Option (Program × Int) :=
  (Ae.processTimeEvents env fuel s.app.loop).map fun r =>
    ((calledIn (r.1.trace.drop s.app.loop.trace.length)).foldl evTimerCb
      { s with app := { s.app with loop := r.1 } }, r.2)

end Program

def program (env : Env Int) (connect : App → ConnectResult) : MainBackend Program where
  table s := s.app.loop.toFileTable
  setTable t s := { s with app := s.app.withFiles t }
  call c s := { s with app := call env connect c s.app }
  aeSearchNearestTimer s := Ae.aeSearchNearestTimer s.app.loop
  now s := (backend env connect).now s.app
  readClock s := { s with app := (backend env connect).readClock s.app }
  aftersleep s := s
  processTimeEvents := Program.processTimeEvents env
  stop := Program.stop
  setStop stop s := { s with stop := stop }
  beforesleep := some Program.beforeSleepProc

/-- What `main` does before `aeMain`: the timer first, then any number of connections. -/
inductive Prepared (env : Env Int) (milliseconds : Int) : App → Prop
  | timer {mem : Memory} {setsize : Int} {loop : Ae.EventLoop} :
      Ae.aeCreateEventLoop env mem setsize = some loop →
      Prepared env milliseconds
        (start (Ae.aeCreateTimeEvent env loop milliseconds EV_TIMER_CB 0 none).2)
  | connection {a : App} (memory : CSockInfo) (socket : Option ℕ) (setNonBlock : Bool) :
      Prepared env milliseconds a → memory.m_iTcpState = .init →
      (∀ fd, socket = some fd → fd ∉ a.sockets) →
      Prepared env milliseconds (addTcpCondi a memory socket setNonBlock).2

/-- The timer has this deadline or, after a clock set back, the second zero. -/
def SetTo (t : Int × Int) (te : TimeEvent) : Prop :=
  te.when_ms = t.2 ∧ (te.when_sec = t.1 ∨ te.when_sec = 0)

theorem SetTo.zeroed {t : Int × Int} {te : TimeEvent} (set : SetTo t te) :
    SetTo t { te with when_sec := 0 } := ⟨set.1, .inr rfl⟩

/-- The deadline of the timer by which `main` bounds the run. -/
def limit (env : Env Int) (milliseconds : Int) : Int × Int :=
  aeAddMillisecondsToNow (env.gettimeofday 1) milliseconds

/-- That timer is in the list and no connection has one of its id. -/
structure Guard (env : Env Int) (ms : Int) (a : App) : Prop where
  next : 0 < a.loop.timeEventNextId
  ids : ∀ p c, a.heap p = some c → c.m_iTcpState = .wrote → c.m_lTimerId ≠ 0
  timer : ∃ te ∈ a.timers, te.id = 0 ∧ te.clientData = 0 ∧ SetTo (limit env ms) te
  delays : ∀ te ∈ a.timers, ∃ k d, (d = ms ∨ d = 1100) ∧
    SetTo (aeAddMillisecondsToNow (env.gettimeofday k) d) te

section Guard

variable {a b : App} {ms : Int} {env : Env Int} {c : FileCall}
  {xs : List (ℕ × TimeEvent)}

theorem Guard.congr (guard : Guard env ms a) (heap : b.heap = a.heap)
    (timers : b.timers = a.timers) (next : b.loop.timeEventNextId = a.loop.timeEventNextId) :
    Guard env ms b :=
  ⟨next ▸ guard.next, heap ▸ guard.ids, timers ▸ guard.timer, timers ▸ guard.delays⟩

theorem Guard.setTcpState (guard : Guard env ms a) (p : ℕ) {state : TcpState}
    (other : state ≠ .wrote) : Guard env ms (setTcpState a p state) := by
  refine ⟨guard.next, fun q d conn wrote => ?_, guard.timer, guard.delays⟩
  by_cases same : q = p
  · subst same
    simp only [TcpClient.setTcpState, Function.update_self, Option.map_eq_some_iff] at conn
    obtain ⟨d', -, rfl⟩ := conn
    exact absurd wrote other
  · simp only [TcpClient.setTcpState, Function.update_of_ne same] at conn
    exact guard.ids q d conn wrote

theorem Guard.evTcpReadCb (guard : Guard env ms a) (ok : Ae.Ok a.loop xs) :
    Guard env ms (evTcpReadCb c a) ∧ a.loop.tick ≤ (evTcpReadCb c a).loop.tick := by
  unfold TcpClient.evTcpReadCb
  split
  · exact ⟨guard, le_refl _⟩
  next pCondTcp conn =>
    split_ifs with bad
    · exact ⟨guard.congr rfl rfl rfl, le_refl _⟩
    · have wrote : pCondTcp.m_iTcpState = .wrote := by
        by_contra other
        exact bad (.inr other)
      have other := guard.ids _ _ conn wrote
      have moved : Guard env ms (TcpClient.setTcpState a c.clientData .read) :=
        guard.setTcpState c.clientData (by decide)
      let loop := (aeDeleteFileEvent (TcpClient.setTcpState a c.clientData .read) c.fd
        (AE_READABLE ||| AE_WRITABLE)).loop
      have okLoop : Ae.Ok loop xs := ok.same rfl rfl rfl
      obtain ⟨next, tick⟩ := Ae.aeDeleteTimeEvent_counts loop pCondTcp.m_lTimerId
      refine ⟨⟨?_, moved.ids, ?_, fun te left => ?_⟩, tick.ge⟩
      · change 0 < (Ae.aeDeleteTimeEvent loop pCondTcp.m_lTimerId).2.timeEventNextId
        rw [next]
        exact guard.next
      · obtain ⟨te, stored, zero, rest⟩ := guard.timer
        exact ⟨te, okLoop.delete_keeps stored (by rw [zero]; exact other.symm), zero, rest⟩
      · exact guard.delays te ((okLoop.delete_contents pCondTcp.m_lTimerId).2.1 te left).1

theorem Guard.evTcpWriteCb (guard : Guard env ms a) (ok : Ae.Ok a.loop xs) :
    Guard env ms (evTcpWriteCb env c a) ∧ a.loop.tick ≤ (evTcpWriteCb env c a).loop.tick := by
  unfold TcpClient.evTcpWriteCb
  split
  · exact ⟨guard, le_refl _⟩
  next pCondTcp conn =>
    split_ifs with bad
    · exact ⟨guard.congr rfl rfl rfl, le_refl _⟩
    · let loop := (aeCreateFileEvent (aeDeleteFileEvent (TcpClient.setTcpState a c.clientData .wrote)
        c.fd AE_WRITABLE) c.fd AE_READABLE EV_TCP_READ_CB c.clientData).loop
      have okLoop : Ae.Ok loop xs := ok.same rfl rfl rfl
      have positive : 0 < loop.timeEventNextId := guard.next
      obtain ⟨-, -, next, tick, -⟩ := okLoop.create env 1100 EV_TIMER_CB c.clientData none
      have contents := okLoop.create_contents env 1100 EV_TIMER_CB c.clientData none
      refine ⟨⟨?_, fun q d here wrote => ?_, ?_, fun te here => ?_⟩, ?_⟩
      · change 0 < (Ae.aeCreateTimeEvent env loop 1100 EV_TIMER_CB c.clientData
          none).2.timeEventNextId
        omega
      · by_cases same : q = c.clientData
        · subst same
          simp only [Function.update_self, Option.map_eq_some_iff] at here
          obtain ⟨d', -, rfl⟩ := here
          exact positive.ne'
        · simp only [Function.update_of_ne same] at here
          have old : a.heap q = some d := by
            have := here
            simp only [aeCreateFileEvent, aeDeleteFileEvent, App.withFiles, TcpClient.setTcpState,
              Function.update_of_ne same] at this
            exact this
          exact guard.ids q d old wrote
      · obtain ⟨te, stored, rest⟩ := guard.timer
        refine ⟨te, ?_, rest⟩
        change te ∈ (Ae.aeCreateTimeEvent env loop 1100 EV_TIMER_CB c.clientData
          none).2.timeEvents.contents
        rw [contents]
        exact List.mem_cons_of_mem _ stored
      · change te ∈ (Ae.aeCreateTimeEvent env loop 1100 EV_TIMER_CB c.clientData
          none).2.timeEvents.contents at here
        rw [contents] at here
        rcases List.mem_cons.mp here with rfl | old
        · exact ⟨_, 1100, .inr rfl, rfl, .inl rfl⟩
        · exact guard.delays te old
      · change a.loop.tick ≤ (Ae.aeCreateTimeEvent env loop 1100 EV_TIMER_CB c.clientData none).2.tick
        have same : loop.tick = a.loop.tick := rfl
        omega

theorem Guard.evTcpConnectCb (guard : Guard env ms a) (connect : App → ConnectResult) :
    Guard env ms (evTcpConnectCb connect c a) ∧
      a.loop.tick ≤ (evTcpConnectCb connect c a).loop.tick := by
  unfold TcpClient.evTcpConnectCb
  split
  · exact ⟨guard, le_refl _⟩
  · split_ifs
    · exact ⟨guard.congr rfl rfl rfl, le_refl _⟩
    · exact ⟨guard.congr rfl rfl rfl, le_refl _⟩
    · have moved : Guard env ms (TcpClient.setTcpState a c.clientData .connect) :=
        guard.setTcpState c.clientData (by decide)
      exact ⟨moved.congr rfl rfl rfl, le_refl _⟩

theorem Guard.call (guard : Guard env ms a) (ok : Ae.Ok a.loop xs)
    (connect : App → ConnectResult) :
    Guard env ms (call env connect c a) ∧ a.loop.tick ≤ (call env connect c a).loop.tick := by
  have logged : Guard env ms (a.log (.ran c.clientData c.proc)) := guard.congr rfl rfl rfl
  unfold TcpClient.call
  split_ifs
  · exact logged.evTcpConnectCb connect
  · exact logged.evTcpWriteCb ok
  · exact logged.evTcpReadCb ok
  · exact ⟨logged, le_refl _⟩

end Guard

/-- The connections are those with the descriptors `fds`. Each has a descriptor of its own, which is
open until the connection closes it. -/
structure Owned (fds : ℕ → Option ℕ) (a : App) : Prop where
  fds : ∀ q, (a.heap q).map CSockInfo.m_iFd = fds q
  single : ∀ p q c d, a.heap p = some c → a.heap q = some d → c.m_iFd = d.m_iFd → p = q
  held : ∀ p c, a.heap p = some c → (c.m_iFd ∈ a.sockets ↔ ¬ a.Closed p)

/-- From `a` to `b` no descriptor was opened, and only `fd` may have been closed, for `p`. -/
structure Handled (p fd : ℕ) (a b : App) : Prop where
  fds : ∀ q, (b.heap q).map CSockInfo.m_iFd = (a.heap q).map CSockInfo.m_iFd
  effect : (b.sockets = a.sockets ∧ ∀ q, b.Closed q ↔ a.Closed q) ∨
    (b.sockets = a.sockets.erase fd ∧ ∀ q, b.Closed q ↔ a.Closed q ∨ q = p)

section Owned

variable {a b : App} {p fd : ℕ} {fds : ℕ → Option ℕ} {env : Env Int} {c : FileCall}

theorem Handled.found (handled : Handled p fd a b) {q : ℕ} {d : CSockInfo}
    (conn : b.heap q = some d) : ∃ e, a.heap q = some e ∧ e.m_iFd = d.m_iFd := by
  have same := handled.fds q
  rw [conn, Option.map_some] at same
  exact Option.map_eq_some_iff.mp same.symm

theorem Owned.handled (owned : Owned fds a) {c : CSockInfo} (conn : a.heap p = some c)
    (own : c.m_iFd = fd) (handled : Handled p fd a b) : Owned fds b := by
  refine ⟨fun q => (handled.fds q).trans (owned.fds q), fun q r d e hq hr same => ?_,
    fun q d hq => ?_⟩
  · obtain ⟨d', hd, fdD⟩ := handled.found hq
    obtain ⟨e', he, fdE⟩ := handled.found hr
    exact owned.single q r d' e' hd he (fdD.trans (same.trans fdE.symm))
  · obtain ⟨d', hd, fdD⟩ := handled.found hq
    have before := owned.held q d' hd
    rw [fdD] at before
    rcases handled.effect with ⟨sockets, closed⟩ | ⟨sockets, closed⟩
    · rw [sockets, closed, before]
    · rw [sockets, closed, Finset.mem_erase, before, not_or, and_comm]
      refine and_congr_right fun _ => not_congr ?_
      constructor
      · intro same
        exact owned.single q p d' c hd conn (fdD.trans (same.trans own.symm))
      · rintro rfl
        obtain rfl := Option.some.inj (hd.symm.trans conn)
        exact fdD.symm.trans own

theorem Handled.quiet {new : List TcpEvent}
    (fds : ∀ q, (b.heap q).map CSockInfo.m_iFd = (a.heap q).map CSockInfo.m_iFd)
    (sockets : b.sockets = a.sockets) (history : b.history = a.history ++ new)
    (none : ∀ q i, .closed q i ∉ new) : Handled p fd a b := by
  refine ⟨fds, .inl ⟨sockets, fun q => ?_⟩⟩
  rw [App.closed_append history]
  exact or_iff_left fun ⟨i, closed⟩ => none q i closed

theorem Handled.closes {quiet : List TcpEvent}
    (fds : ∀ q, (b.heap q).map CSockInfo.m_iFd = (a.heap q).map CSockInfo.m_iFd)
    (sockets : b.sockets = a.sockets.erase fd)
    (history : b.history = a.history ++ (quiet ++ [.closed p fd]))
    (none : ∀ q i, .closed q i ∉ quiet) : Handled p fd a b := by
  refine ⟨fds, .inr ⟨sockets, fun q => ?_⟩⟩
  rw [App.closed_append history]
  refine or_congr_right ⟨fun ⟨i, closed⟩ => ?_, ?_⟩
  · rcases List.mem_append.mp closed with early | here
    · exact absurd early (none q i)
    · exact (TcpEvent.closed.inj (List.mem_singleton.mp here)).1
  · rintro rfl
    exact ⟨fd, by simp⟩

theorem setTcpState_fds (a : App) (p : ℕ) (state : TcpState) (q : ℕ) :
    ((setTcpState a p state).heap q).map CSockInfo.m_iFd = (a.heap q).map CSockInfo.m_iFd := by
  by_cases same : q = p
  · subst same
    simp [setTcpState, Function.comp_def]
  · simp [setTcpState, Function.update_of_ne same]

theorem abort_handled (a : App) (p fd : ℕ) : Handled p fd a (abort a p fd) := by
  refine @Handled.closes _ _ _ _ [] (fun _ => rfl) rfl ?_ (by simp)
  rfl

theorem evTcpReadCb_handled (c : FileCall) (a : App) :
    Handled c.clientData c.fd a (evTcpReadCb c a) := by
  unfold evTcpReadCb
  split
  · exact .quiet (fun _ => rfl) rfl (List.append_nil _).symm (by simp)
  · split_ifs
    · exact abort_handled a _ _
    · refine @Handled.closes _ _ _ _ [.moved c.clientData .read]
        (fun q => setTcpState_fds a c.clientData .read q) rfl ?_ (by simp)
      simp [close, aeDeleteFileEvent, App.withFiles, setTcpState]

theorem evTcpWriteCb_handled (env : Env Int) (c : FileCall) (a : App) :
    Handled c.clientData c.fd a (evTcpWriteCb env c a) := by
  unfold evTcpWriteCb
  split
  · exact .quiet (fun _ => rfl) rfl (List.append_nil _).symm (by simp)
  · split_ifs
    · exact abort_handled a _ _
    · refine @Handled.quiet _ _ _ _ [.moved c.clientData .wrote] (fun q => ?_) rfl ?_ (by simp)
      · by_cases same : q = c.clientData
        · subst same
          simp [aeCreateFileEvent, aeDeleteFileEvent, App.withFiles, setTcpState, Function.comp_def]
        · simp [aeCreateFileEvent, aeDeleteFileEvent, App.withFiles, setTcpState,
            Function.update_of_ne same]
      · simp [aeCreateFileEvent, aeDeleteFileEvent, App.withFiles, setTcpState]

theorem evTcpConnectCb_handled (connect : App → ConnectResult) (c : FileCall) (a : App) :
    Handled c.clientData c.fd a (evTcpConnectCb connect c a) := by
  unfold evTcpConnectCb
  split
  · exact .quiet (fun _ => rfl) rfl (List.append_nil _).symm (by simp)
  · split_ifs
    · exact abort_handled a _ _
    · exact abort_handled a _ _
    · refine @Handled.quiet _ _ _ _ [.moved c.clientData .connect]
        (fun q => setTcpState_fds a c.clientData .connect q) rfl ?_ (by simp)
      simp [aeCreateFileEvent, App.withFiles, setTcpState]

theorem call_handled (env : Env Int) (connect : App → ConnectResult) (c : FileCall) (a : App) :
    Handled c.clientData c.fd (a.log (.ran c.clientData c.proc)) (call env connect c a) := by
  unfold call
  split_ifs
  · exact evTcpConnectCb_handled connect c _
  · exact evTcpWriteCb_handled env c _
  · exact evTcpReadCb_handled c _
  · exact .quiet (fun _ => rfl) rfl (List.append_nil _).symm (by simp)

theorem Owned.congr (owned : Owned fds a) {new : List TcpEvent} (heap : b.heap = a.heap)
    (sockets : b.sockets = a.sockets) (history : b.history = a.history ++ new)
    (none : ∀ q i, .closed q i ∉ new) : Owned fds b := by
  have closed : ∀ q, b.Closed q ↔ a.Closed q := by
    intro q
    rw [App.closed_append history]
    exact or_iff_left fun ⟨i, closed⟩ => none q i closed
  refine ⟨heap ▸ owned.fds, heap ▸ owned.single, fun q d conn => ?_⟩
  rw [sockets, closed]
  exact owned.held q d (heap ▸ conn)

end Owned

section Iteration

variable {a : App} {ms : Int} {fds : ℕ → Option ℕ} {env : Env Int}
  {connect : App → ConnectResult} {poll : App → Int → List (ℕ × Mask)} {flags : Mask}

def Faithful (poll : App → Int → List (ℕ × Mask)) : Prop :=
  ∀ a timeout, ∀ r ∈ poll a timeout, a.loop.interest r.1 ≠ none

theorem Faithful.reported (faithful : Faithful poll) (inv : Inv a) (env : Env Int)
    (connect : App → ConnectResult) (flags : Mask) :
    ∀ r ∈ poll ((backend env connect).sleep flags a) ((backend env connect).timeout flags a),
      a.loop.interest r.1 ≠ none := by
  intro r hr
  have inside := faithful _ _ r hr
  rwa [(inv.sleep env connect flags).2] at inside

theorem sleep_frame (env : Env Int) (connect : App → ConnectResult) (flags : Mask) (a : App) :
    ((backend env connect).sleep flags a).heap = a.heap ∧
      ((backend env connect).sleep flags a).timers = a.timers ∧
      ((backend env connect).sleep flags a).loop.timeEventNextId = a.loop.timeEventNextId ∧
      a.loop.tick ≤ ((backend env connect).sleep flags a).loop.tick := by
  unfold Backend.sleep
  split
  · exact ⟨rfl, rfl, rfl, Nat.le_succ _⟩
  · exact ⟨rfl, rfl, rfl, le_refl _⟩

theorem sleep_quiet (env : Env Int) (connect : App → ConnectResult) (flags : Mask) (a : App) :
    ((backend env connect).sleep flags a).sockets = a.sockets ∧
      ((backend env connect).sleep flags a).history = a.history := by
  unfold Backend.sleep
  split <;> exact ⟨rfl, rfl⟩

/-- What holds while `aeMain` runs and has not been stopped. -/
structure Underway (env : Env Int) (ms : Int) (fds : ℕ → Option ℕ) (a : App) : Prop where
  inv : Inv a
  guard : Guard env ms a
  owned : Owned fds a
  started : 0 < a.loop.tick

theorem Owned.fire (owned : Owned fds a) (inv : Inv a) {ev : FiredEvent} {kind : FileKind}
    (lt : (ev.fd : Int) < a.loop.setsize) (ready : (backend env connect).Ready a ev kind) :
    Owned fds ((backend env connect).fire a ev kind) := by
  obtain ⟨registered, -⟩ := Host.Ready.bits ready
  have set : a.loop.aeGetFileEvents ev.fd ≠ AE_NONE := by
    rw [FileTable.aeGetFileEvents_of_lt lt]
    intro none
    change (a.loop.events ev.fd).mask &&& kind.bit ≠ 0 at registered
    rw [none] at registered
    exact registered (by simp [AE_NONE])
  obtain ⟨c, conn, own, -⟩ := inv.owner ev.fd set
  let call : FileCall :=
    ⟨kind, ev.fd, (a.loop.events ev.fd).proc kind, (a.loop.events ev.fd).clientData, ev.mask⟩
  have logged : Owned fds (a.log (.ran call.clientData call.proc)) :=
    owned.congr rfl rfl rfl (by simp)
  exact logged.handled conn own (call_handled env connect call a)

theorem Underway.processFileEvents (underway : Underway env ms fds a) (faithful : Faithful poll) :
    Underway env ms fds ((backend env connect).processFileEvents poll flags a).1 ∧
      a.loop.tick ≤ ((backend env connect).processFileEvents poll flags a).1.loop.tick := by
  let e := backend env connect
  have inv := underway.inv
  by_cases polls : e.Polls flags a
  · obtain ⟨asleep, table⟩ := inv.sleep env connect flags
    obtain ⟨heap, timers, next, tick⟩ := sleep_frame env connect flags a
    obtain ⟨sockets, history⟩ := sleep_quiet env connect flags a
    let reports := poll (e.sleep flags a) (e.timeout flags a)
    have polled : e.polled poll flags a =
        (e.sleep flags a).withFiles ((e.sleep flags a).loop.toFileTable.storeFired reports) := by
      simp only [Backend.polled]
      split_ifs <;> rfl
    have fired : (e.table (e.polled poll flags a)).fired =
        ((e.sleep flags a).loop.toFileTable.storeFired reports).fired := by
      rw [polled]
      rfl
    have size : (e.polled poll flags a).loop.setsize = a.loop.setsize := by
      rw [polled]
      change (e.sleep flags a).loop.toFileTable.setsize = _
      rw [table]
    have first : Underway env ms fds (e.polled poll flags a) := by
      rw [polled]
      refine ⟨asleep.storeFired reports, underway.guard.congr heap timers next, ?_,
        underway.started.trans_le tick⟩
      exact underway.owned.congr heap sockets (history.trans (List.append_nil _).symm) (by simp)
    rw [Backend.processFileEvents_eq polls, Host.dispatch_eq_turns (backend_keepsFired env connect),
      fired, storeFired_range]
    refine (Host.turns_invariant (fun b => b.loop.setsize = a.loop.setsize ∧
      Underway env ms fds b ∧ a.loop.tick ≤ b.loop.tick) (fun ev => (ev.fd : Int) < a.loop.setsize)
      ?_ ?_ ⟨size, first, ?_⟩).2
    · intro ev b kind known kept ready
      obtain ⟨size, before, later⟩ := kept
      obtain ⟨after, same⟩ := before.inv.fire (size ▸ known) ready
      obtain ⟨xs, ok⟩ := before.inv.ok
      obtain ⟨still, tick'⟩ := @Guard.call b ms env _ xs before.guard ok connect
      exact ⟨same.trans size, ⟨after, still, before.owned.fire before.inv (size ▸ known) ready,
        before.started.trans_le tick'⟩, later.trans tick'⟩
    · intro ev hev
      obtain ⟨r, hr, rfl⟩ := List.mem_map.mp hev
      by_contra big
      change ¬ (r.1 : Int) < a.loop.setsize at big
      refine faithful.reported inv env connect flags r hr ?_
      rw [inv.files.interest, if_pos (FileTable.aeGetFileEvents_of_ge (not_lt.mp big))]
    · rw [polled]
      exact tick
  · have eq : e.processFileEvents poll flags a = (a, 0) := if_neg polls
    rw [eq]
    exact ⟨underway, le_refl _⟩

theorem foldl_evTimerCb_frame (called : List TimeEvent) (a : App) :
    (called.foldl evTimerCb a).heap = a.heap ∧ (called.foldl evTimerCb a).timers = a.timers ∧
      (called.foldl evTimerCb a).loop.timeEventNextId = a.loop.timeEventNextId ∧
      (called.foldl evTimerCb a).loop.tick = a.loop.tick ∧
      (called.foldl evTimerCb a).sockets = a.sockets ∧
      (called.foldl evTimerCb a).history =
        a.history ++ called.map fun te => .expired te.clientData te.id := by
  induction called generalizing a with
  | nil => simp
  | cons te called ih =>
      obtain ⟨heap, timers, history⟩ := evTimerCb_frame a te
      have counts : (evTimerCb a te).loop.timeEventNextId = a.loop.timeEventNextId ∧
          (evTimerCb a te).loop.tick = a.loop.tick ∧ (evTimerCb a te).sockets = a.sockets := by
        simp only [evTimerCb]
        split_ifs
        · exact ⟨rfl, rfl, rfl⟩
        · exact ⟨rfl, rfl, rfl⟩
        · split <;> exact ⟨rfl, rfl, rfl⟩
      obtain ⟨heap', timers', next', tick', sockets', history'⟩ := ih (evTimerCb a te)
      rw [List.foldl_cons]
      refine ⟨heap'.trans heap, timers'.trans timers, next'.trans counts.1, tick'.trans counts.2.1,
        sockets'.trans counts.2.2, ?_⟩
      rw [history', history, List.append_assoc]
      rfl

theorem foldl_evTimerCb_eq (called : List TimeEvent) (a : App) (stop : Bool) :
    called.foldl Program.evTimerCb ⟨a, stop⟩ =
      ⟨called.foldl evTimerCb a, stop || called.any fun te => te.id = 0⟩ := by
  induction called generalizing a stop with
  | nil => simp
  | cons te called ih =>
      have first : Program.evTimerCb ⟨a, stop⟩ te = ⟨evTimerCb a te, stop || te.id = 0⟩ := by
        by_cases zero : te.id = 0
        · simp [Program.evTimerCb, Program.aeStop, zero]
        · simp [Program.evTimerCb, zero]
      rw [List.foldl_cons, first, ih, List.foldl_cons, List.any_cons, Bool.or_assoc]

theorem program_lifts (env : Env Int) (connect : App → ConnectResult) (stop : Bool) :
    Backend.Lifts (backend env connect) (program env connect).toBackend fun a => ⟨a, stop⟩ :=
  ⟨fun _ => rfl, fun _ _ => rfl, fun _ _ => rfl, fun _ => rfl, fun _ => rfl, fun _ => rfl,
    fun _ => rfl⟩

def mainFlags : Mask := AE_ALL_EVENTS ||| AE_CALL_AFTER_SLEEP

theorem program_aeProcessEvents (env : Env Int) (connect : App → ConnectResult)
    (poll : App → Int → List (ℕ × Mask)) (fuel : ℕ) (a : App) :
    (program env connect).aeProcessEvents (fun s => poll s.app) fuel mainFlags ⟨a, false⟩ =
      let b := (backend env connect).processFileEvents poll mainFlags a
      (Ae.processTimeEvents env fuel b.1.loop).map fun r =>
        let called := calledIn (r.1.trace.drop b.1.loop.trace.length)
        (⟨called.foldl evTimerCb { b.1 with loop := r.1 }, called.any fun te => te.id = 0⟩,
          b.2 + r.2) := by
  have files := (program_lifts env connect false).processFileEvents (fun s => poll s.app)
    mainFlags a
  dsimp only at files
  rw [Backend.aeProcessEvents, if_neg (by decide), if_pos (by decide), files]
  simp only [program, Program.processTimeEvents, Option.map_map]
  refine congrArg (fun f => Option.map f _) (funext fun r => ?_)
  simp only [Function.comp_apply, foldl_evTimerCb_eq, Bool.false_or]

/-- What an iteration comes to: either the loop goes on as before, or the timer has been called. -/
structure Turned (env : Env Int) (ms : Int) (fds : ℕ → Option ℕ) (a : App)
    (t : Program) : Prop where
  inv : Inv t.app
  owned : Owned fds t.app
  tick : a.loop.tick < t.app.loop.tick
  guard : t.stop = false → Guard env ms t.app
  called : t.stop = true → .expired 0 0 ∈ t.app.history
  due : (∀ k, a.loop.tick < k → 0 < (env.gettimeofday k).tv_sec ∧
    Due (limit env ms) (aeGetTime (env.gettimeofday k))) → t.stop = true

theorem Turned.underway {t : Program} (turned : Turned env ms fds a t) (runs : t.stop = false) :
    Underway env ms fds t.app :=
  ⟨turned.inv, turned.guard runs, turned.owned, (Nat.zero_le _).trans_lt turned.tick⟩

theorem Underway.turned (underway : Underway env ms fds a) (oneShot : Ae.OneShot env)
    (faithful : Faithful poll) {fuel : ℕ} {t : Program} {n : Int}
    (h : (program env connect).aeProcessEvents (fun s => poll s.app) fuel mainFlags ⟨a, false⟩ =
      some (t, n)) : Turned env ms fds a t := by
  obtain ⟨before, tick⟩ := @Underway.processFileEvents a ms fds env connect poll
    mainFlags underway faithful
  rw [program_aeProcessEvents] at h
  dsimp only at h
  generalize (backend env connect).processFileEvents poll mainFlags a = b at before tick h
  obtain ⟨⟨loop, m⟩, pass, same⟩ := Option.map_eq_some_iff.mp h
  obtain ⟨rfl, -⟩ := Prod.mk.inj same
  dsimp only
  obtain ⟨xs, ok⟩ := before.inv.ok
  obtain ⟨later, next⟩ := Ae.pass_counts oneShot.gentle ok pass
  obtain ⟨te, stored, zero, null, set⟩ := before.guard.timer
  obtain ⟨x, is, fate, due⟩ := oneShot.pass_fate ok pass stored
  have guard : x.id = 0 ∧ x.clientData = 0 ∧ SetTo (limit env ms) x := by
    rcases is with rfl | rfl
    · exact ⟨zero, null, set⟩
    · exact ⟨zero, null, set.zeroed⟩
  have left := oneShot.pass_left ok pass
  have inv : Inv ((calledIn (loop.trace.drop b.1.loop.trace.length)).foldl evTimerCb
      { b.1 with loop := loop }) := by
    refine @Inv.processTimeEvents b.1 _ before.inv env oneShot fuel m ?_
    rw [TcpClient.processTimeEvents, pass]
    rfl
  have ended := oneShot.pass ok pass
  generalize calledIn (loop.trace.drop b.1.loop.trace.length) = called at fate due inv ended
  have frame := foldl_evTimerCb_frame called { b.1 with loop := loop }
  generalize called.foldl evTimerCb { b.1 with loop := loop } = u at frame inv
  obtain ⟨heap, timers, nextId, ticks, sockets, history⟩ := frame
  dsimp only at heap nextId ticks sockets history
  have stops : x ∈ called → (called.any fun te => te.id = 0) = true := fun hx =>
    List.any_eq_true.mpr ⟨x, hx, by simp [guard.1]⟩
  refine ⟨inv, ?_, ?_, fun runs => ?_, fun stopped => ?_, fun clock => stops (due ?_)⟩
  · refine before.owned.congr heap sockets history ?_
    simp
  · dsimp only
    omega
  · refine ⟨?_, heap ▸ before.guard.ids, ?_, fun y hy => ?_⟩
    · dsimp only
      have := before.guard.next
      omega
    · rw [timers]
      have uncalled : x ∉ called := fun hx => by
        rw [stops hx] at runs
        cases runs
      exact ⟨x, fate.resolve_left uncalled, guard⟩
    · rw [timers] at hy
      obtain ⟨z, hz, same | same⟩ := left y hy
      · exact same ▸ before.guard.delays z hz
      · obtain ⟨k, d, asked, set'⟩ := before.guard.delays z hz
        exact ⟨k, d, asked, same ▸ set'.zeroed⟩
  · obtain ⟨y, hy, zero'⟩ := List.any_eq_true.mp stopped
    obtain ⟨z, hz, same, data⟩ := ended.found y hy
    have ids : (b.1.loop.timeEvents.contents.map TimeEvent.id).Nodup := by
      rw [LinkedStore.contents_repr ok.repr, List.map_map]
      exact ok.ids
    have one : z = te := by
      refine List.inj_on_of_nodup_map ids hz stored ?_
      rw [same, zero]
      exact of_decide_eq_true zero'
    rw [history]
    refine List.mem_append_right _ (List.mem_map.mpr ⟨y, hy, ?_⟩)
    rw [← data, ← same, one, zero, null]
  · intro k hk
    obtain ⟨positive, past⟩ := clock k (by omega)
    obtain ⟨-, -, ms', sec' | sec'⟩ := guard
    · have same : x.deadline = limit env ms := Prod.ext sec' ms'
      rwa [same]
    · exact .inl (sec'.trans_lt positive)

end Iteration

end TcpClient

end AeEventLoop
