import AeEventLoop.Poll
import AeEventLoop.TcpMain

/-! `aeMain` of the TCP client returns. An iteration either stops the loop or leaves the timer of
`main` in the list and the clock read once more, so the iterations end with the readings that come
before its deadline. Until then no sleep is longer than the delay of that timer. -/

namespace AeEventLoop.TcpClient

section Main

variable {a : App} {ms : Int} {fds : ℕ → Option ℕ} {env : Env Int}
  {connect : App → ConnectResult} {poll : App → Int → List (ℕ × Mask)}

theorem Prepared.timer_underway {ms : Int} {mem : Memory} {setsize : Int} {loop : Ae.EventLoop}
    (oneShot : Ae.OneShot env) (created : Ae.aeCreateEventLoop env mem setsize = some loop) :
    Underway env ms (fun _ => none)
      (start (Ae.aeCreateTimeEvent env loop ms EV_TIMER_CB 0 none).2) := by
  have inv : Inv (start (Ae.aeCreateTimeEvent env loop ms EV_TIMER_CB 0 none).2) :=
    (Step.aeCreateTimeEvent (start loop) ms).inv oneShot (start_inv created)
  have ok := Ae.start_ok created
  obtain ⟨-, -, next, tick, -⟩ := ok.create env ms EV_TIMER_CB 0 none
  have contents := ok.create_contents env ms EV_TIMER_CB 0 none
  have first : loop.timeEventNextId = 0 ∧ loop.tick = 1 := by
    obtain ⟨l, hl, rfl⟩ := Option.map_eq_some_iff.mp created
    obtain ⟨files, -, rfl⟩ := Option.map_eq_some_iff.mp hl
    exact ⟨rfl, rfl⟩
  refine ⟨inv, ⟨?_, by simp [start], ?_, fun te here => ?_⟩,
    ⟨fun _ => rfl, by simp [start], by simp [start]⟩, ?_⟩
  · change 0 < (Ae.aeCreateTimeEvent env loop ms EV_TIMER_CB 0 none).2.timeEventNextId
    rw [next, first.1]
    decide
  · refine ⟨loop.newTimeEvent env ms EV_TIMER_CB 0 none, ?_, first.1, rfl, ?_⟩
    · change _ ∈ (Ae.aeCreateTimeEvent env loop ms EV_TIMER_CB 0 none).2.timeEvents.contents
      rw [contents]
      exact List.mem_cons_self
    · simp [SetTo, limit, Loop.newTimeEvent, first.2]
  · change te ∈ (Ae.aeCreateTimeEvent env loop ms EV_TIMER_CB 0 none).2.timeEvents.contents at here
    rw [contents, LinkedStore.contents_repr ok.repr] at here
    obtain rfl := List.mem_singleton.mp here
    exact ⟨_, ms, .inl rfl, rfl, .inl rfl⟩
  · change 0 < (Ae.aeCreateTimeEvent env loop ms EV_TIMER_CB 0 none).2.tick
    rw [tick]
    exact Nat.succ_pos _

theorem Underway.addTcpCondi (underway : Underway env ms fds a) (quiet : a.history = [])
    (memory : CSockInfo) {socket : Option ℕ} (setNonBlock : Bool)
    (init : memory.m_iTcpState = .init) (free : ∀ fd, socket = some fd → fd ∉ a.sockets) :
    (∃ fds', Underway env ms fds' (addTcpCondi a memory socket setNonBlock).2) ∧
      (addTcpCondi a memory socket setNonBlock).2.history = [] := by
  have inv := underway.inv.addTcpCondi memory setNonBlock init free
  have unclosed : ∀ p, ¬ a.Closed p := by simp [App.Closed, quiet]
  cases socket with
  | none => exact ⟨⟨fds, underway⟩, quiet⟩
  | some fd =>
      cases setNonBlock with
      | false =>
          refine ⟨⟨fds, inv, underway.guard.congr rfl rfl rfl, ⟨underway.owned.fds,
            underway.owned.single, fun p c conn => ?_⟩, underway.started⟩, quiet⟩
          refine iff_of_true (Finset.mem_insert_of_mem ?_) (unclosed p)
          exact (underway.owned.held p c conn).mpr (unclosed p)
      | true =>
          let c : CSockInfo := { memory with m_iFd := fd }
          have conns : ∀ p d, (a.grown c).heap p = some d → p = a.fresh ∧ d = c ∨
              a.heap p = some d ∧ d.m_iFd ≠ fd := by
            intro p d conn
            by_cases new : p = a.fresh
            · subst new
              exact .inl ⟨rfl, Option.some.inj (conn.symm.trans (a.grown_here c))⟩
            · rw [App.grown_there c new] at conn
              refine .inr ⟨conn, fun same => free fd rfl ?_⟩
              rw [← same]
              exact (underway.owned.held p d conn).mpr (unclosed p)
          refine ⟨⟨fun q => ((a.grown c).heap q).map CSockInfo.m_iFd, inv,
            ⟨underway.guard.next, fun p d conn wrote => ?_, underway.guard.timer,
              underway.guard.delays⟩, ⟨fun _ => rfl, fun p q d e hp hq same => ?_,
            fun p d conn => ?_⟩, underway.started⟩, quiet⟩
          · rcases conns p d conn with ⟨-, rfl⟩ | ⟨old, -⟩
            · exact absurd (init.symm.trans wrote) (by decide)
            · exact underway.guard.ids p d old wrote
          · rcases conns p d hp with ⟨rfl, rfl⟩ | ⟨oldP, apartP⟩
            · rcases conns q e hq with ⟨rfl, -⟩ | ⟨-, apart⟩
              · rfl
              · exact absurd same.symm apart
            · rcases conns q e hq with ⟨-, rfl⟩ | ⟨oldQ, -⟩
              · exact absurd same apartP
              · exact underway.owned.single p q d e oldP oldQ same
          · refine iff_of_true ?_ (unclosed p)
            rcases conns p d conn with ⟨-, rfl⟩ | ⟨old, -⟩
            · exact Finset.mem_insert_self _ _
            · exact Finset.mem_insert_of_mem ((underway.owned.held p d old).mpr (unclosed p))

theorem Prepared.underway (oneShot : Ae.OneShot env) {ms : Int} (prepared : Prepared env ms a) :
    (∃ fds, Underway env ms fds a) ∧ a.history = [] := by
  induction prepared with
  | timer created => exact ⟨⟨_, timer_underway oneShot created⟩, rfl⟩
  | connection memory socket setNonBlock _ init free ih =>
      obtain ⟨⟨fds, underway⟩, quiet⟩ := ih
      exact underway.addTcpCondi quiet memory setNonBlock init free

theorem Underway.ends (underway : Underway env ms fds a) (oneShot : Ae.OneShot env)
    (faithful : Faithful poll) : ∃ fuel t n,
      (program env connect).aeProcessEvents (fun s => poll s.app) fuel mainFlags ⟨a, false⟩ =
        some (t, n) := by
  obtain ⟨before, -⟩ := @Underway.processFileEvents a ms fds env connect poll
    mainFlags underway faithful
  obtain ⟨xs, ok⟩ := before.inv.ok
  obtain ⟨fuel, loop, ys, n, seg, pass, -⟩ := Ae.pass_exact oneShot.gentle ok
  have ends : ((program env connect).aeProcessEvents (fun s => poll s.app) fuel mainFlags
      ⟨a, false⟩).isSome := by
    rw [program_aeProcessEvents]
    dsimp only
    rw [pass, Option.map_some]
    rfl
  obtain ⟨⟨t, m⟩, h⟩ := Option.isSome_iff_exists.mp ends
  exact ⟨fuel, t, m, h⟩

structure Over (fds : ℕ → Option ℕ) (s : Program) : Prop where
  stop : s.stop = true
  inv : Inv s.app
  owned : Owned fds s.app
  reason : s.app.loop.maxfd < 0 ∨ .expired 0 0 ∈ s.app.history

/-- The loop has at most `n` iterations to go if the clock stays past the deadline from reading `k`
on. -/
def Remaining (env : Env Int) (ms : Int) (fds : ℕ → Option ℕ) (k n : ℕ) (s : Program) : Prop :=
  Over fds s ∨ s.stop = false ∧ Underway env ms fds s.app ∧ k - s.app.loop.tick < n

theorem Remaining.turn {k n : ℕ} {s : Program} (remaining : Remaining env ms fds k n s)
    (runs : s.stop = false) (oneShot : Ae.OneShot env) (faithful : Faithful poll)
    (clock : ∀ j, k ≤ j → 0 < (env.gettimeofday j).tv_sec ∧
      Due (limit env ms) (aeGetTime (env.gettimeofday j))) :
    ∃ fuel t m, (program env connect).turn (fun s => poll s.app) fuel s = some t ∧ m < n ∧
      Remaining env ms fds k m t := by
  obtain ⟨a, stop⟩ := s
  obtain rfl : stop = false := runs
  rcases remaining with done | ⟨-, underway, fewer⟩
  · cases done.stop
  dsimp only at underway fewer
  by_cases idle : a.loop.maxfd < 0
  · have hooked : (program env connect).hooked ⟨a, false⟩ = ⟨a, true⟩ := if_pos idle
    refine ⟨0, ⟨a, true⟩, 0, ?_, by omega, .inl ⟨rfl, underway.inv, underway.owned, .inl idle⟩⟩
    rw [MainBackend.turn, hooked]
    rfl
  · have hooked : (program env connect).hooked ⟨a, false⟩ = ⟨a, false⟩ := if_neg idle
    obtain ⟨fuel, t, i, turn⟩ := @Underway.ends a ms fds env connect poll underway oneShot
      faithful
    have turned := underway.turned oneShot faithful turn
    refine ⟨fuel, t, k - a.loop.tick, ?_, fewer, ?_⟩
    · rw [MainBackend.turn, hooked]
      change Option.map Prod.fst ((program env connect).aeProcessEvents _ fuel mainFlags _) = some t
      rw [turn]
      rfl
    · cases stop : t.stop with
      | true => exact .inl ⟨stop, turned.inv, turned.owned, .inr (turned.called stop)⟩
      | false =>
          have later := turned.tick
          refine .inr ⟨stop, turned.underway stop, ?_⟩
          have early : a.loop.tick < k := by
            by_contra late
            rw [turned.due fun j hj => clock j (by omega)] at stop
            cases stop
          omega

theorem program_turn_mono (env : Env Int) (connect : App → ConnectResult)
    (poll : Program → Int → List (ℕ × Mask)) : ∀ m n s t, m ≤ n →
      (program env connect).turn poll m s = some t → (program env connect).turn poll n s = some t := by
  intro m n s t
  refine MainBackend.turn_mono (fun m n s r more pass => ?_) poll m n s t
  obtain ⟨q, run, rfl⟩ := Option.map_eq_some_iff.mp pass
  obtain ⟨c, walk, rfl⟩ := Option.map_eq_some_iff.mp run
  simp only [program, Program.processTimeEvents, Ae.processTimeEvents,
    WhileLoop.run_mono more walk, Option.map_some]

/-- Whatever iteration is met, it starts from where the last one left off, or the flag is set. -/
theorem Underway.turn_keeps (oneShot : Ae.OneShot env) (faithful : Faithful poll) (fuel : ℕ)
    (s t : Program) (underway : s.stop = false → Underway env ms fds s.app) (runs : s.stop = false)
    (turn : (program env connect).turn (fun s => poll s.app) fuel s = some t) :
    t.stop = false → Underway env ms fds t.app := by
  obtain ⟨a, stop⟩ := s
  obtain rfl : stop = false := runs
  intro runs'
  by_cases idle : a.loop.maxfd < 0
  · have hooked : (program env connect).hooked ⟨a, false⟩ = ⟨a, true⟩ := if_pos idle
    rw [MainBackend.turn, hooked] at turn
    obtain rfl := Option.some.inj turn
    cases runs'
  · have hooked : (program env connect).hooked ⟨a, false⟩ = ⟨a, false⟩ := if_neg idle
    rw [MainBackend.turn, hooked] at turn
    obtain ⟨⟨u, n⟩, h, rfl⟩ := Option.map_eq_some_iff.mp turn
    exact ((underway rfl).turned oneShot faithful h).underway runs'

theorem SetTo.bounds {tv : Timeval} {d : Int} {te : TimeEvent} (low : 0 ≤ d)
    (set : SetTo (aeAddMillisecondsToNow tv d) te) (era : 0 < tv.tv_sec) :
    Normal te.deadline ∧ 0 ≤ te.when_sec ∧ millis te.deadline ≤ millis (aeGetTime tv) + d := by
  obtain ⟨ms, sec⟩ := set
  obtain ⟨ms_low, ms_high⟩ := aeAddMillisecondsToNow_normal tv low
  have exact' := millis_aeAddMillisecondsToNow tv d
  obtain ⟨now_low, now_high⟩ := aeGetTime_normal tv
  have now_sec : (aeGetTime tv).1 = tv.tv_sec := rfl
  simp only [Normal, TimeEvent.deadline, millis] at *
  omega

theorem Guard.wait (guard : Guard env ms a) (clock : Monotonic env) (started : 0 < a.loop.tick)
    (era : ∀ k, 0 < (env.gettimeofday k).tv_sec ∧ (env.gettimeofday k).tv_sec < 2 ^ 40)
    (low : 0 ≤ ms) (high : ms < 2 ^ 31) :
    0 ≤ (backend env connect).timeout mainFlags a ∧
      (backend env connect).timeout mainFlags a ≤ ms := by
  obtain ⟨te, stored, -, -, set⟩ := guard.timer
  have finds := Ae.aeSearchNearestTimer_finds a.loop
  cases nearest : Ae.aeSearchNearestTimer a.loop with
  | none =>
      have empty := finds.nothing nearest
      have here : te ∈ (a.loop.timeEvents.contents : Multiset TimeEvent) := stored
      rw [empty] at here
      exact absurd here (Multiset.notMem_zero te)
  | some x =>
      obtain ⟨mem, first⟩ := finds.first x nearest
      obtain ⟨k, d, asked, setX⟩ := guard.delays x mem
      have nonneg : 0 ≤ d := by
        rcases asked with rfl | rfl
        · exact low
        · decide
      obtain ⟨normal, secX, -⟩ := setX.bounds nonneg (era k).1
      obtain ⟨normalT, -, most⟩ := SetTo.bounds low set (era 1).1
      have order : ¬ Ae.Nearer te x := first te stored
      have before : millis x.deadline ≤ millis te.deadline := by
        simp only [Ae.Nearer, Normal, TimeEvent.deadline, millis] at *
        omega
      have now_le := millis_aeGetTime_mono (clock 1 a.loop.tick started)
      have now_lt := (era a.loop.tick).2
      have now_sec : (aeGetTime (env.gettimeofday a.loop.tick)).1 =
        (env.gettimeofday a.loop.tick).tv_sec := rfl
      obtain ⟨-, now_ms⟩ := aeGetTime_normal (env.gettimeofday a.loop.tick)
      have atLeast : 0 ≤ millis x.deadline := by
        simp only [Normal, TimeEvent.deadline, millis] at *
        omega
      have nowMost : millis (aeGetTime (env.gettimeofday a.loop.tick)) < 2 ^ 51 := by
        simp only [millis]
        omega
      have wait : millis x.deadline - millis (aeGetTime (env.gettimeofday a.loop.tick)) ≤ ms := by
        omega
      have fits : FitsLong (millis x.deadline -
          millis (aeGetTime (env.gettimeofday a.loop.tick))) := ⟨by omega, by omega⟩
      rw [@Backend.timeout_nearest _ (backend env connect) a mainFlags (by decide) (by decide) x
        nearest fits]
      change 0 ≤ (if 0 < millis x.deadline - millis (aeGetTime (env.gettimeofday a.loop.tick)) then
        int (millis x.deadline - millis (aeGetTime (env.gettimeofday a.loop.tick))) else 0) ∧
        (if 0 < millis x.deadline - millis (aeGetTime (env.gettimeofday a.loop.tick)) then
        int (millis x.deadline - millis (aeGetTime (env.gettimeofday a.loop.tick))) else 0) ≤ ms
      generalize millis x.deadline - millis (aeGetTime (env.gettimeofday a.loop.tick)) = w at wait
      split_ifs with positive
      · have mod : w % 2 ^ 32 = w := Int.emod_eq_of_lt (by omega) (by omega)
        rw [int_of_low (by rw [mod]; omega), mod]
        omega
      · omega

/-- Between iterations, a connection of a table without descriptors is outside it, closed or timed
out. -/
theorem Inv.settled (inv : Inv a) (idle : a.loop.maxfd < 0) {p : ℕ} {c : CSockInfo}
    (conn : a.heap p = some c) : ¬ a.Closed p ↔ a.loop.setsize ≤ c.m_iFd ∨ a.TimedOut p := by
  have none : a.loop.aeGetFileEvents c.m_iFd = AE_NONE := inv.files.above _ (by omega)
  obtain ⟨stage, standing⟩ := inv.conns p c conn
  rw [← not_lt, standing.size, standing.timedOut, standing.closed]
  cases stage with
  | fresh => exact absurd none (standing.registered rfl)
  | connecting => exact absurd none (standing.registered rfl)
  | waiting => exact absurd none (standing.registered rfl)
  | outside => simp
  | leaked => simp
  | done => simp

end Main

def oneClient (env : Env Int) (milliseconds : Int) : App :=
  (addTcpCondi (start (Ae.aeCreateTimeEvent env (Ae.fresh env) milliseconds EV_TIMER_CB 0 none).2)
    ⟨.init, 0, 0⟩ (some 3) true).2

theorem Prepared.oneClient (env : Env Int) (milliseconds : Int) :
    Prepared env milliseconds (oneClient env milliseconds) := by
  refine .connection ⟨.init, 0, 0⟩ (some 3) true (@Prepared.timer env milliseconds zeroedMemory 4
    (Ae.fresh env) ?_) rfl (by simp [start])
  rw [Ae.aeCreateEventLoop, Loop.create_eq_fresh]
  rfl

def alwaysWritable (a : App) (_ : Int) : List (ℕ × Mask) :=
  match a.loop.interest 3 with
  | some _ => [(3, EPOLLOUT)]
  | none => []

theorem alwaysWritable_faithful : Faithful alwaysWritable := by
  intro a timeout r hr
  unfold alwaysWritable at hr
  split at hr
  · rename_i asked
    obtain rfl := List.mem_singleton.mp hr
    rw [asked]
    exact Option.some_ne_none _
  · cases hr

/-- However the kernel answers, once the clock stays past the deadline of the timer that `main`
creates first, `aeMain` returns. Then nothing is registered or that timer has been called; what a
connection has not closed is open, and unless that timer was called this is so only of connections
that did not fit into the table or timed out. -/
theorem aeMain_returns {gettimeofday : ℕ → Timeval} {time : ℕ → Int} {milliseconds : Int} {a : App}
    (prepared : Prepared (env gettimeofday time) milliseconds a) (connect : App → ConnectResult)
    {poll : App → Int → List (ℕ × Mask)} (faithful : Faithful poll) (stop : Bool)
    (clock : ∃ k, ∀ j, k ≤ j → 0 < (gettimeofday j).tv_sec ∧
      Due (aeAddMillisecondsToNow (gettimeofday 1) milliseconds) (aeGetTime (gettimeofday j))) :
    ∃ fuel t, (program (env gettimeofday time) connect).aeMain (fun s => poll s.app) fuel
        ⟨a, stop⟩ = some t ∧
      (t.app.loop.maxfd < 0 ∨ .expired 0 0 ∈ t.app.history) ∧
      ∀ p c, a.heap p = some c → (c.m_iFd ∈ t.app.sockets ↔ ¬ t.app.Closed p) ∧
        (.expired 0 0 ∉ t.app.history →
          (¬ t.app.Closed p ↔ t.app.loop.setsize ≤ c.m_iFd ∨ t.app.TimedOut p)) := by
  let e := env gettimeofday time
  have oneShot : Ae.OneShot e := env_oneShot gettimeofday time
  obtain ⟨⟨fds, underway⟩, -⟩ := prepared.underway oneShot
  obtain ⟨k, later⟩ := clock
  obtain ⟨fuel, t, m, run, left, remaining⟩ := WhileLoop.runNested_total
    (Remaining e milliseconds fds k)
    (program_turn_mono e connect fun s => poll s.app)
    (fun n s remaining runs => remaining.turn runs oneShot faithful later)
    (s := ⟨a, false⟩) (.inr ⟨rfl, underway, Nat.lt_succ_self _⟩)
  rcases remaining with done | ⟨runs, -⟩
  · refine ⟨fuel, t, run, done.reason, fun p c conn => ?_⟩
    obtain ⟨d, conn', same⟩ : ∃ d, t.app.heap p = some d ∧ d.m_iFd = c.m_iFd := by
      have before := underway.owned.fds p
      rw [conn, Option.map_some, ← done.owned.fds p] at before
      exact Option.map_eq_some_iff.mp before.symm
    rw [← same]
    refine ⟨done.owned.held p d conn', fun uncalled => ?_⟩
    exact done.inv.settled (done.reason.resolve_right uncalled) conn'
  · change t.stop = true at left
    rw [left] at runs
    cases runs

/-- Two seconds pass between any two readings of the clock. -/
theorem aeMain_returns_late : ∃ fuel t,
    (program (env (fun k => Timeval.ofMillis (2000 * k)) fun k => 2 * k) fun _ => .ok).aeMain
        (fun s => alwaysWritable s.app) fuel
        ⟨oneClient (env (fun k => Timeval.ofMillis (2000 * k)) fun k => 2 * k) 600, true⟩ = some t ∧
      (t.app.loop.maxfd < 0 ∨ .expired 0 0 ∈ t.app.history) ∧
      (3 ∈ t.app.sockets ↔ ¬ t.app.Closed 1) := by
  let e := env (fun k => Timeval.ofMillis (2000 * k)) fun k => 2 * k
  have clock : ∃ k, ∀ j : ℕ, k ≤ j → 0 < (Timeval.ofMillis (2000 * j)).tv_sec ∧
      Due (aeAddMillisecondsToNow (Timeval.ofMillis (2000 * (1 : ℕ))) 600)
        (aeGetTime (Timeval.ofMillis (2000 * j))) := by
    refine ⟨2, fun j hj => ?_⟩
    have sec : (Timeval.ofMillis (2000 * j)).tv_sec = 2 * j := by
      simp only [Timeval.ofMillis]
      omega
    refine ⟨by omega, .inl ?_⟩
    change (aeAddMillisecondsToNow (Timeval.ofMillis (2000 * (1 : ℕ))) 600).1 <
      (Timeval.ofMillis (2000 * j)).tv_sec
    rw [sec]
    have first : (aeAddMillisecondsToNow (Timeval.ofMillis (2000 * (1 : ℕ))) 600).1 = 2 := by decide
    omega
  obtain ⟨fuel, t, returns, reason, conns⟩ := aeMain_returns (Prepared.oneClient e 600)
    (fun _ => .ok) alwaysWritable_faithful true clock
  exact ⟨fuel, t, returns, reason, (conns 1 ⟨.init, 3, 0⟩ (by decide)).1⟩

/-- Whenever `aeMain` gets to `epoll_wait`, the set is not empty and the wait is bounded by the delay
of the timer that `main` creates first. -/
theorem aeMain_waits {gettimeofday : ℕ → Timeval} {time : ℕ → Int} {milliseconds : Int} {a : App}
    (prepared : Prepared (env gettimeofday time) milliseconds a) {connect : App → ConnectResult}
    {poll : App → Int → List (ℕ × Mask)} (faithful : Faithful poll)
    (clock : Monotonic (env gettimeofday time))
    (era : ∀ k, 0 < (gettimeofday k).tv_sec ∧ (gettimeofday k).tv_sec < 2 ^ 40)
    (low : 0 ≤ milliseconds) (high : milliseconds < 2 ^ 31) {s : Program}
    (met : (program (env gettimeofday time) connect).Iterates (fun s => poll s.app) ⟨a, false⟩ s)
    (runs : s.stop = false)
    (sleeps : ((program (env gettimeofday time) connect).hooked s).stop = false) :
    let m := program (env gettimeofday time) connect
    (∃ fd, (m.table (m.hooked s)).interest fd ≠ none) ∧
      0 ≤ m.timeout mainFlags (m.hooked s) ∧ m.timeout mainFlags (m.hooked s) ≤ milliseconds := by
  let e := env gettimeofday time
  have oneShot : Ae.OneShot e := env_oneShot gettimeofday time
  obtain ⟨⟨fds, underway⟩, -⟩ := prepared.underway oneShot
  have here : Underway e milliseconds fds s.app :=
    met.invariant (fun s => s.stop = false → Underway e milliseconds fds s.app)
      (Underway.turn_keeps oneShot faithful) (fun _ => underway) runs
  obtain ⟨b, stop⟩ := s
  obtain rfl : stop = false := runs
  have busy : ¬ b.loop.maxfd < 0 := by
    intro idle
    have hooked : (program e connect).hooked ⟨b, false⟩ = ⟨b, true⟩ := if_pos idle
    rw [hooked] at sleeps
    cases sleeps
  have hooked : (program e connect).hooked ⟨b, false⟩ = ⟨b, false⟩ := if_neg busy
  intro m
  rw [hooked]
  refine ⟨?_, ?_⟩
  · have files := here.inv.files
    obtain ⟨fd, top⟩ := Int.eq_ofNat_of_zero_le (not_lt.mp busy)
    refine ⟨fd, ?_⟩
    change b.loop.interest fd ≠ none
    rw [files.interest, if_neg (files.top fd top)]
    exact Option.some_ne_none _
  · exact @Guard.wait b milliseconds e connect here.guard clock here.started era low high

/-- Twenty milliseconds pass between readings of the clock, sixteen times. -/
def strolling (k : ℕ) : Timeval := .ofMillis (5000 + 20 * min k 16)

theorem strolling_monotonic (time : ℕ → Int) : Monotonic (env strolling time) := by
  intro i j le
  change (strolling i).micros ≤ (strolling j).micros
  simp only [strolling, Timeval.ofMillis, Timeval.micros]
  omega

/-- In the third iteration 180 ms have gone by since the timer was created. -/
theorem aeMain_waits_third :
    let e := env strolling fun _ => 5
    let m := program e fun _ => .ok
    ∃ s t, m.turn (fun s => alwaysWritable s.app) 9 ⟨oneClient e 600, false⟩ = some s ∧
      m.turn (fun s => alwaysWritable s.app) 9 s = some t ∧
      m.timeout mainFlags (m.hooked t) = 420 ∧
      (∃ fd, (m.table (m.hooked t)).interest fd ≠ none) ∧
      0 ≤ m.timeout mainFlags (m.hooked t) ∧ m.timeout mainFlags (m.hooked t) ≤ 600 := by
  intro e m
  have era : ∀ k, 0 < (strolling k).tv_sec ∧ (strolling k).tv_sec < 2 ^ 40 := by
    intro k
    simp only [strolling, Timeval.ofMillis]
    omega
  have all : ((m.turn (fun s => alwaysWritable s.app) 9 ⟨oneClient e 600, false⟩).bind fun s =>
      (m.turn (fun s => alwaysWritable s.app) 9 s).map fun t =>
        (s.stop, t.stop, (m.hooked t).stop, m.timeout mainFlags (m.hooked t))) =
      some (false, false, false, 420) := by decide
  obtain ⟨s, first, rest⟩ := Option.bind_eq_some_iff.mp all
  obtain ⟨t, second, facts⟩ := Option.map_eq_some_iff.mp rest
  simp only [Prod.mk.injEq] at facts
  obtain ⟨runs, runs', sleeps, timeout⟩ := facts
  have met : m.Iterates (fun s => alwaysWritable s.app) ⟨oneClient e 600, false⟩ t :=
    .tail (.single ⟨rfl, 9, first⟩) ⟨runs, 9, second⟩
  exact ⟨s, t, first, second, timeout, aeMain_waits (Prepared.oneClient e 600)
    alwaysWritable_faithful (strolling_monotonic _) era (by decide) (by decide) met runs' sleeps⟩

end AeEventLoop.TcpClient
