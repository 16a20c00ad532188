import AeEventLoop.TcpTimeouts

/-! Every state a run of the TCP client reaches between iterations. The states of a connection are
assigned in order, its descriptor is closed at most once and nothing is done for it afterwards. That
a descriptor which is not registered has been closed holds exactly of the connections that fit into
the table and whose timer was not called, under an id other than zero, before the reply came. -/

namespace AeEventLoop.TcpClient

section Fired

theorem aeCreateFileEvent_fired (a : App) (fd : ℕ) (mask : Mask) (proc clientData : ℕ) :
    (aeCreateFileEvent a fd mask proc clientData).loop.fired = a.loop.fired :=
  FileOp.apply_fired a.loop.toFileTable (.create fd mask proc clientData false)

theorem aeDeleteFileEvent_fired (a : App) (fd : ℕ) (mask : Mask) :
    (aeDeleteFileEvent a fd mask).loop.fired = a.loop.fired :=
  FileOp.apply_fired a.loop.toFileTable (.delete fd mask)

theorem abort_fired (a : App) (p fd : ℕ) : (abort a p fd).loop.fired = a.loop.fired :=
  aeDeleteFileEvent_fired a fd (AE_READABLE ||| AE_WRITABLE)

theorem evTcpReadCb_fired (c : FileCall) (a : App) :
    (evTcpReadCb c a).loop.fired = a.loop.fired := by
  unfold evTcpReadCb
  split
  · rfl
  · split_ifs
    · exact abort_fired a _ _
    · change (Ae.aeDeleteTimeEvent _ _).2.fired = _
      rw [Ae.aeDeleteTimeEvent_files]
      exact aeDeleteFileEvent_fired _ _ _

theorem evTcpWriteCb_fired (env : Env Int) (c : FileCall) (a : App) :
    (evTcpWriteCb env c a).loop.fired = a.loop.fired := by
  unfold evTcpWriteCb
  split
  · rfl
  · split_ifs
    · exact abort_fired a _ _
    · change (Ae.aeCreateTimeEvent env _ 1100 EV_TIMER_CB c.clientData none).2.fired = _
      rw [Ae.aeCreateTimeEvent_files]
      exact (aeCreateFileEvent_fired _ _ _ _ _).trans (aeDeleteFileEvent_fired _ _ _)

theorem evTcpConnectCb_fired (connect : App → ConnectResult) (c : FileCall) (a : App) :
    (evTcpConnectCb connect c a).loop.fired = a.loop.fired := by
  unfold evTcpConnectCb
  split
  · rfl
  · split_ifs
    · exact abort_fired a _ _
    · exact abort_fired a _ _
    · exact aeCreateFileEvent_fired _ _ _ _ _

theorem backend_keepsFired (env : Env Int) (connect : App → ConnectResult) :
    (backend env connect).KeepsFired := by
  intro c a
  change (call env connect c a).loop.fired = a.loop.fired
  unfold call
  split_ifs
  · exact evTcpConnectCb_fired connect c _
  · exact evTcpWriteCb_fired env c _
  · exact evTcpReadCb_fired c _
  · rfl

end Fired

section Iteration

variable {a b : App} {env : Env Int} {connect : App → ConnectResult}
  {poll : App → Int → List (ℕ × Mask)} {flags : Mask}

theorem Inv.sleep (inv : Inv a) (env : Env Int) (connect : App → ConnectResult) (flags : Mask) :
    Inv ((backend env connect).sleep flags a) ∧
      ((backend env connect).sleep flags a).loop.toFileTable = a.loop.toFileTable := by
  obtain ⟨xs, ok⟩ := inv.ok
  unfold Backend.sleep
  split
  · refine ⟨?_, rfl⟩
    exact inv.withLoop inv.files ⟨xs, ok.same rfl rfl rfl⟩ rfl rfl
      fun te hte => .inr ⟨te, hte, rfl, rfl⟩
  · exact ⟨inv, rfl⟩

theorem Inv.storeFired (inv : Inv a) (reports : List (ℕ × Mask)) :
    Inv (a.withFiles (a.loop.toFileTable.storeFired reports)) := by
  obtain ⟨xs, ok⟩ := inv.ok
  have files := inv.files
  refine inv.withLoop ?_ ⟨xs, ok.same rfl rfl rfl⟩ rfl rfl
    fun te hte => .inr ⟨te, hte, rfl, rfl⟩
  exact ⟨files.maxfd_ge, files.maxfd_lt, files.above, files.top, files.interest⟩

theorem Inv.processFileEvents (inv : Inv a)
    (reported : ∀ r ∈ poll ((backend env connect).sleep flags a)
      ((backend env connect).timeout flags a), a.loop.interest r.1 ≠ none) :
    Inv ((backend env connect).processFileEvents poll flags a).1 := by
  let e := backend env connect
  by_cases polls : e.Polls flags a
  · obtain ⟨asleep, table⟩ := inv.sleep env connect flags
    let reports := poll (e.sleep flags a) (e.timeout flags a)
    have polled : e.polled poll flags a =
        (e.sleep flags a).withFiles ((e.sleep flags a).loop.toFileTable.storeFired reports) := by
      simp only [Backend.polled]
      split_ifs <;> rfl
    have size : (e.polled poll flags a).loop.setsize = a.loop.setsize := by
      rw [polled]
      change (e.sleep flags a).loop.toFileTable.setsize = _
      rw [table]
    have fired : (e.table (e.polled poll flags a)).fired =
        ((e.sleep flags a).loop.toFileTable.storeFired reports).fired := by
      rw [polled]
      rfl
    rw [Backend.processFileEvents_eq polls, Host.dispatch_eq_turns (backend_keepsFired env connect),
      fired, storeFired_range]
    refine (Host.turns_invariant (fun b => Inv b ∧ b.loop.setsize = a.loop.setsize)
      (fun ev => (ev.fd : Int) < a.loop.setsize) ?_ ?_ ⟨?_, size⟩).1
    · intro ev b kind known kept ready
      obtain ⟨before, size'⟩ := kept
      obtain ⟨after, same⟩ := before.fire (size' ▸ known) ready
      exact ⟨after, same.trans size'⟩
    · intro ev hev
      obtain ⟨r, hr, rfl⟩ := List.mem_map.mp hev
      by_contra big
      change ¬ (r.1 : Int) < a.loop.setsize at big
      refine reported r hr ?_
      rw [inv.files.interest, if_pos (FileTable.aeGetFileEvents_of_ge (not_lt.mp big))]
    · rw [polled]
      exact asleep.storeFired reports
  · have eq : e.processFileEvents poll flags a = (a, 0) := if_neg polls
    rw [eq]
    exact inv

theorem Inv.aeProcessEvents (inv : Inv a) (oneShot : Ae.OneShot env)
    (reported : ∀ r ∈ poll ((backend env connect).sleep flags a)
      ((backend env connect).timeout flags a), a.loop.interest r.1 ≠ none) {fuel : ℕ} {n : Int}
    (h : (backend env connect).aeProcessEvents poll fuel flags a = some (b, n)) : Inv b := by
  unfold Backend.aeProcessEvents at h
  split_ifs at h with nothing timed
  · obtain ⟨rfl, -⟩ := Prod.mk.inj (Option.some.inj h)
    exact inv
  · obtain ⟨r, pass, same⟩ := Option.map_eq_some_iff.mp h
    obtain ⟨rfl, -⟩ := Prod.mk.inj same
    exact (inv.processFileEvents reported).processTimeEvents oneShot pass
  · obtain rfl := congrArg Prod.fst (Option.some.inj h)
    exact inv.processFileEvents reported

end Iteration

section Add

variable {a : App} {fd : ℕ} {memory : CSockInfo}

theorem Inv.fresh_unknown (inv : Inv a) : a.heap a.fresh = none ∧ ¬ a.Closed a.fresh ∧
    ¬ a.TimedOut a.fresh ∧ movesIn a.fresh a.history = [] ∧
      ∀ te ∈ a.timers, te.clientData ≠ a.fresh := by
  have unknown : ∀ e ∈ a.history, e.pointer ≠ a.fresh := fun e he => (inv.known e he).ne
  have absent : ∀ c, a.heap a.fresh ≠ some c := fun c conn => (inv.low _ c conn).2.ne rfl
  refine ⟨Option.eq_none_iff_forall_ne_some.mpr absent, ?_, ?_, movesIn_of_others unknown, ?_⟩
  · rintro ⟨fd, gone⟩
    exact unknown _ gone rfl
  · rintro ⟨id, -, late⟩
    exact unknown _ late rfl
  · intro te hte mine
    rcases inv.pointers te hte with null | ⟨c, conn⟩
    · have := inv.positive
      omega
    · rw [mine] at conn
      exact absent c conn

theorem Inv.unowned (inv : Inv a) (free : fd ∉ a.sockets) :
    (∀ q d, a.heap q = some d → ¬ a.Closed q → d.m_iFd ≠ fd) ∧
      a.loop.aeGetFileEvents fd = AE_NONE := by
  have apart : ∀ q d, a.heap q = some d → ¬ a.Closed q → d.m_iFd ≠ fd := by
    rintro q d hq unclosed rfl
    exact free (inv.sockets q d hq unclosed)
  refine ⟨apart, ?_⟩
  by_contra set
  obtain ⟨c, conn, own, unclosed⟩ := inv.owner fd set
  exact apart _ c conn unclosed own

def Stage.first (a : App) (fd : ℕ) : Stage := if (fd : Int) < a.loop.setsize then .fresh else .outside

def App.grown (a : App) (c : CSockInfo) : App :=
  { a with
    loop := { a.loop with
      toFileTable := (a.loop.toFileTable.aeCreateFileEvent c.m_iFd (AE_READABLE ||| AE_WRITABLE)
        EV_TCP_CONNECT_CB a.fresh false).2 }
    heap := Function.update a.heap a.fresh (some c)
    fresh := a.fresh + 1
    sockets := insert c.m_iFd a.sockets }

theorem Inv.registered (inv : Inv a) {c : CSockInfo} (free : c.m_iFd ∉ a.sockets) :
    (a.grown c).loop.toFileTable.Inv ∧ (a.grown c).loop.setsize = a.loop.setsize ∧
      (∀ i, i ≠ c.m_iFd → (a.grown c).loop.events i = a.loop.events i) ∧
      ∀ fe, (Stage.first a c.m_iFd).entry a.fresh = some fe →
        (a.grown c).loop.events c.m_iFd = fe := by
  have set : AE_READABLE ||| AE_WRITABLE ≠ AE_NONE := by decide
  refine ⟨@FileOp.apply_inv _ inv.files
    (.create c.m_iFd (AE_READABLE ||| AE_WRITABLE) EV_TCP_CONNECT_CB a.fresh false) set,
    FileTable.aeCreateFileEvent_setsize _ _ _ _ _ _, ?_⟩
  by_cases lt : (c.m_iFd : Int) < a.loop.setsize
  · have table : (a.grown c).loop.toFileTable =
        a.loop.toFileTable.register c.m_iFd (AE_READABLE ||| AE_WRITABLE) EV_TCP_CONNECT_CB
          a.fresh := FileTable.aeCreateFileEvent_below inv.files lt _ _ _
    have none : (a.loop.events c.m_iFd).mask = AE_NONE := by
      rw [← FileTable.aeGetFileEvents_of_lt lt]
      exact (inv.unowned free).2
    rw [table]
    refine ⟨fun i other => Function.update_of_ne other _ _, fun fe here => ?_⟩
    rw [Stage.first, if_pos lt] at here
    rw [← Option.some.inj here]
    refine (Function.update_self _ _ _).trans ?_
    rw [none, FileEvent.mk.injEq]
    exact ⟨by decide, rfl, rfl, rfl⟩
  · have table : (a.grown c).loop.toFileTable = a.loop.toFileTable := by
      change (a.loop.toFileTable.aeCreateFileEvent _ _ _ _ _).2 = _
      rw [FileTable.aeCreateFileEvent_of_inv inv.files, if_pos (.inl (not_lt.mp lt))]
    rw [table, Stage.first, if_neg lt]
    exact ⟨fun _ _ => rfl, by simp [Stage.entry]⟩

theorem Standing.first (inv : Inv a) {c : CSockInfo} (free : c.m_iFd ∉ a.sockets)
    (init : c.m_iTcpState = .init) :
    Standing (a.grown c) a.fresh c (Stage.first a c.m_iFd) := by
  obtain ⟨-, unclosed, inTime, -, idle⟩ := inv.fresh_unknown
  obtain ⟨-, size, -, entry⟩ := inv.registered free
  have early : Stage.first a c.m_iFd = .fresh ∨ Stage.first a c.m_iFd = .outside := by
    rw [Stage.first]
    split_ifs
    · exact .inl rfl
    · exact .inr rfl
  refine ⟨?_, ?_, fun te hte mine => absurd mine (idle te hte), ?_, entry, ?_, ?_⟩
  · refine iff_of_false unclosed ?_
    rcases early with is | is <;> rw [is] <;> decide
  · refine iff_of_false inTime ?_
    rcases early with is | is <;> rw [is] <;> decide
  · rw [size, Stage.first]
    split_ifs with lt
    · exact iff_of_true lt (by decide)
    · exact iff_of_false lt (by decide)
  · intro leaked
    rcases early with is | is <;> rw [is] at leaked <;> cases leaked
  · intro state here
    rcases early with is | is <;> rw [is] at here <;> rw [← Option.some.inj here, init]

theorem App.grown_here (a : App) (c : CSockInfo) : (a.grown c).heap a.fresh = some c :=
  Function.update_self _ _ _

theorem App.grown_there {q : ℕ} (c : CSockInfo) (other : q ≠ a.fresh) :
    (a.grown c).heap q = a.heap q := Function.update_of_ne other _ _

theorem Inv.grown_old (inv : Inv a) (c : CSockInfo) {q : ℕ} {d : CSockInfo}
    (hq : a.heap q = some d) : (a.grown c).heap q = some d := by
  refine (App.grown_there c ?_).trans hq
  rintro rfl
  rw [inv.fresh_unknown.1] at hq
  cases hq

section Grown

variable {c : CSockInfo} (inv : Inv a) (free : c.m_iFd ∉ a.sockets)

include inv free

theorem Inv.grown_owner {i : ℕ} (set : (a.grown c).loop.aeGetFileEvents i ≠ AE_NONE) : ∃ d,
    (a.grown c).heap ((a.grown c).loop.events i).clientData = some d ∧ d.m_iFd = i ∧
      ¬ (a.grown c).Closed ((a.grown c).loop.events i).clientData := by
  obtain ⟨-, size, others, entry⟩ := inv.registered free
  by_cases same : i = c.m_iFd
  · subst same
    have lt : (c.m_iFd : Int) < a.loop.setsize := by
      by_contra big
      exact set (FileTable.aeGetFileEvents_of_ge (size.trans_le (not_lt.mp big)))
    have is : Stage.first a c.m_iFd = .fresh := if_pos lt
    rw [entry _ (by rw [is]; rfl)]
    exact ⟨c, a.grown_here c, rfl, inv.fresh_unknown.2.1⟩
  · have kept := others i same
    have set' : a.loop.aeGetFileEvents i ≠ AE_NONE := by
      rwa [FileTable.aeGetFileEvents, size, kept] at set
    obtain ⟨d, hd, own, open'⟩ := inv.owner i set'
    rw [kept]
    exact ⟨d, inv.grown_old c hd, own, open'⟩

theorem Inv.grown_alone {q r : ℕ} {d e : CSockInfo} (hq : (a.grown c).heap q = some d)
    (hr : (a.grown c).heap r = some e) (openQ : ¬ a.Closed q) (openR : ¬ a.Closed r)
    (same : d.m_iFd = e.m_iFd) : q = r := by
  have apart := (inv.unowned free).1
  by_cases newQ : q = a.fresh
  · by_cases newR : r = a.fresh
    · rw [newQ, newR]
    · subst newQ
      obtain rfl := Option.some.inj ((a.grown_here c).symm.trans hq)
      rw [App.grown_there c newR] at hr
      exact absurd same.symm (apart r e hr openR)
  · rw [App.grown_there c newQ] at hq
    by_cases newR : r = a.fresh
    · subst newR
      obtain rfl := Option.some.inj ((a.grown_here c).symm.trans hr)
      exact absurd same (apart q d hq openQ)
    · rw [App.grown_there c newR] at hr
      exact inv.alone q r d e hq hr openQ openR same

end Grown

theorem Inv.grown (inv : Inv a) {c : CSockInfo} (free : c.m_iFd ∉ a.sockets)
    (init : c.m_iTcpState = .init) : Inv (a.grown c) := by
  obtain ⟨-, -, -, unmoved, -⟩ := inv.fresh_unknown
  obtain ⟨files, size, others, -⟩ := inv.registered free
  obtain ⟨xs, ok⟩ := inv.ok
  have first := Standing.first inv free init
  refine ⟨files, ⟨xs, ok.same rfl rfl rfl⟩, Nat.succ_pos _, ?_, ?_, fun i => inv.grown_owner free,
    fun q r d e => inv.grown_alone free, ?_, ?_, fun e he => Nat.lt_succ_of_lt (inv.known e he), ?_,
    ?_⟩
  · intro q d hq
    by_cases new : q = a.fresh
    · rw [new]
      exact ⟨inv.positive, Nat.lt_succ_self _⟩
    · obtain ⟨pos, lt⟩ := inv.low q d (App.grown_there c new ▸ hq)
      exact ⟨pos, Nat.lt_succ_of_lt lt⟩
  · intro q d hq
    by_cases new : q = a.fresh
    · subst new
      obtain rfl := Option.some.inj ((a.grown_here c).symm.trans hq)
      exact ⟨_, first⟩
    · rw [App.grown_there c new] at hq
      obtain ⟨stage, standing⟩ := inv.conns q d hq
      refine ⟨stage, standing.carry .rfl .rfl (fun te hte mine => ⟨te, hte, rfl, mine⟩) size
        fun live => others _ ((inv.unowned free).1 q d hq (standing.unclosed live))⟩
  · intro q d hq open'
    by_cases new : q = a.fresh
    · subst new
      obtain rfl := Option.some.inj ((a.grown_here c).symm.trans hq)
      exact Finset.mem_insert_self _ _
    · rw [App.grown_there c new] at hq
      exact Finset.mem_insert_of_mem (inv.sockets q d hq open')
  · intro te hte
    rcases inv.pointers te hte with null | ⟨d, hd⟩
    · exact .inl null
    · exact .inr ⟨d, inv.grown_old c hd⟩
  · intro q d hq
    by_cases new : q = a.fresh
    · subst new
      obtain rfl := Option.some.inj ((a.grown_here c).symm.trans hq)
      rw [init]
      exact unmoved
    · rw [App.grown_there c new] at hq
      exact inv.moves q d hq
  · intro pre q fd post split
    obtain ⟨⟨d, hd, own⟩, rest⟩ := inv.last pre q fd post split
    exact ⟨⟨d, inv.grown_old c hd, own⟩, rest⟩

theorem Inv.addTcpCondi (inv : Inv a) (memory : CSockInfo) {socket : Option ℕ} (setNonBlock : Bool)
    (init : memory.m_iTcpState = .init) (free : ∀ fd, socket = some fd → fd ∉ a.sockets) :
    Inv (addTcpCondi a memory socket setNonBlock).2 := by
  obtain ⟨xs, ok⟩ := inv.ok
  cases socket with
  | none => exact inv
  | some fd =>
      cases setNonBlock with
      | false =>
          refine inv.congr rfl rfl (fun i hi => Finset.mem_insert_of_mem hi)
            (List.append_nil _).symm (by simp) inv.files ⟨xs, ok⟩ rfl rfl fun te hte => ?_
          exact .inr ⟨te, hte, rfl, rfl⟩
      | true => exact @Inv.grown a inv { memory with m_iFd := fd } (free fd rfl) init

end Add

section Runs

variable {a : App} {p : ℕ} {c : CSockInfo} {env : Env Int}

theorem start_inv {mem : Memory} {setsize : Int} {loop : Ae.EventLoop}
    (h : Ae.aeCreateEventLoop env mem setsize = some loop) : Inv (start loop) := by
  have ok := Ae.start_ok h
  have empty : (start loop).timers = [] := LinkedStore.contents_repr ok.repr
  obtain ⟨l, hl, rfl⟩ := Option.map_eq_some_iff.mp h
  obtain ⟨files, created, rfl⟩ := Option.map_eq_some_iff.mp hl
  have table := FileTable.create_inv created
  have none : files.maxfd = -1 := by
    unfold FileTable.create at created
    split_ifs at created
    obtain rfl := Option.some.inj created
    rfl
  refine ⟨table, ⟨[], ok⟩, Nat.one_pos, by simp [start], by simp [start], ?_, by simp [start],
    by simp [start], by simp [empty], by simp [start], by simp [start], by simp [start]⟩
  intro fd set
  refine absurd (table.above fd ?_) set
  omega

theorem Step.inv (oneShot : Ae.OneShot env) {b : App} {op : Op} (inv : Inv a)
    (step : Step env a op b) : Inv b := by
  cases step with
  | addTcpCondi memory socket setNonBlock init free =>
      exact inv.addTcpCondi memory setNonBlock init free
  | aeCreateTimeEvent milliseconds =>
      obtain ⟨xs, ok⟩ := inv.ok
      obtain ⟨okB, -, -, -, -, table⟩ := ok.create env milliseconds EV_TIMER_CB 0 none
      have contents := ok.create_contents env milliseconds EV_TIMER_CB 0 none
      refine inv.withLoop (table ▸ inv.files) ⟨_, okB⟩ (by rw [table]) (by rw [table]) ?_
      intro te hte
      rw [contents] at hte
      rcases List.mem_cons.mp hte with rfl | old
      · exact .inl rfl
      · exact .inr ⟨te, old, rfl, rfl⟩
  | aeProcessEvents connect poll flags reported h => exact inv.aeProcessEvents oneShot reported h

theorem Run.inv (oneShot : Ae.OneShot env) (run : Run env a) : Inv a := by
  refine WhileLoop.Reach.invariant Inv ?_ ?_ run
  · rintro a ⟨mem, setsize, loop, created, rfl⟩
    exact start_inv created
  · intro a op b inv _ step
    exact step.inv oneShot inv

theorem Stage.entry_mask {stage : Stage} {fe : FileEvent} (here : stage.entry p = some fe) :
    fe.mask ≠ AE_NONE := by
  cases stage <;> cases here <;> dsimp only <;> decide

theorem Standing.registered {stage : Stage} (standing : Standing a p c stage)
    (active : (stage.entry p).isSome) : a.loop.aeGetFileEvents c.m_iFd ≠ AE_NONE := by
  obtain ⟨fe, here⟩ := Option.isSome_iff_exists.mp active
  have lt := standing.size.mpr (Stage.live active).2.2
  rw [FileTable.aeGetFileEvents_of_lt lt, standing.entry fe here]
  exact Stage.entry_mask here

/-- Between iterations a connection whose descriptor is not registered has been closed and has no
timer, exactly if it fits into the table and has not timed out. -/
theorem Inv.released_iff (inv : Inv a) (conn : a.heap p = some c) :
    (a.loop.aeGetFileEvents c.m_iFd = AE_NONE → a.Closed p ∧ ¬ a.TimerPending p) ↔
      (c.m_iFd : Int) < a.loop.setsize ∧ ¬ a.TimedOut p := by
  obtain ⟨stage, standing⟩ := inv.conns p c conn
  rw [standing.size, standing.timedOut, standing.closed]
  cases stage with
  | outside =>
      have big : ¬ (c.m_iFd : Int) < a.loop.setsize := fun lt => standing.size.mp lt rfl
      simp [FileTable.aeGetFileEvents_of_ge (not_lt.mp big)]
  | fresh => simp [standing.registered rfl]
  | connecting => simp [standing.registered rfl]
  | waiting => simp [standing.registered rfl]
  | leaked =>
      have lt := standing.size.mpr (by decide)
      simp [FileTable.aeGetFileEvents_of_lt lt, standing.unregistered rfl]
  | done =>
      have idle : ¬ a.TimerPending p := by
        rintro ⟨te, hte, mine⟩
        exact absurd (standing.timers te hte mine).1 (by decide)
      simp [idle]

end Runs

/-- Whatever is reported and whenever timers expire, the states of a connection are assigned in
order, and once its descriptor has been closed nothing is done for it. That the descriptor has been
closed and the timer is gone when nothing is registered holds exactly if the descriptor is below
`setsize` and the timer was not called under an id other than zero. -/
theorem connection_settles_iff {gettimeofday : ℕ → Timeval} {time : ℕ → Int} {a : App} {p : ℕ}
    {c : CSockInfo} (run : Run (env gettimeofday time) a) (conn : a.heap p = some c) :
    movesIn p a.history = c.m_iTcpState.path ∧
      (∀ pre fd post, a.history = pre ++ .closed p fd :: post →
        fd = c.m_iFd ∧ ∀ e ∈ post, e.pointer ≠ p) ∧
      ((a.loop.aeGetFileEvents c.m_iFd = AE_NONE → a.Closed p ∧ ¬ a.TimerPending p) ↔
        (c.m_iFd : Int) < a.loop.setsize ∧ ¬ a.TimedOut p) := by
  have inv := run.inv (env_oneShot gettimeofday time)
  refine ⟨inv.moves p c conn, fun pre fd post split => ?_, inv.released_iff conn⟩
  obtain ⟨⟨d, hd, own⟩, rest⟩ := inv.last pre p fd post split
  obtain rfl := Option.some.inj (conn.symm.trans hd)
  exact ⟨own.symm, rest⟩

def oneConnection (env : Env Int) : App :=
  let loop := (Ae.aeCreateTimeEvent env (Ae.fresh env) 1000000 EV_TIMER_CB 0 none).2
  (addTcpCondi (start loop) ⟨.init, 0, 0⟩ (some 3) true).2

theorem Run.oneConnection (env : Env Int) : Run env (oneConnection env) := by
  have first : Run env (start (Ae.fresh env)) := by
    refine .start ⟨zeroedMemory, 4, Ae.fresh env, ?_, rfl⟩
    rw [Ae.aeCreateEventLoop, Loop.create_eq_fresh]
    rfl
  have second := WhileLoop.Reach.move first trivial (.aeCreateTimeEvent _ 1000000)
  refine .move second trivial (.addTcpCondi _ ⟨.init, 0, 0⟩ (some 3) true rfl ?_)
  simp [start]

def iterate (env : Env Int) (events : Mask) (a : App) : App :=
  ((backend env fun _ => .ok).aeProcessEvents (fun _ _ => [(3, events)]) 8 AE_ALL_EVENTS a).elim a
    Prod.fst

theorem Run.iterate {env : Env Int} {a : App} (run : Run env a) (events : Mask)
    (registered : a.loop.interest 3 ≠ none)
    (ends : ((backend env fun _ => .ok).aeProcessEvents (fun _ _ => [(3, events)]) 8 AE_ALL_EVENTS
      a).isSome) : Run env (iterate env events a) := by
  obtain ⟨⟨b, n⟩, h⟩ := Option.isSome_iff_exists.mp ends
  have eq : TcpClient.iterate env events a = b := by
    rw [TcpClient.iterate, h]
    rfl
  rw [eq]
  exact .move run trivial (.aeProcessEvents (fun _ => .ok) _ _ (by simpa using registered) h)

/-- The clock stands still, the reply comes and the connection is released. -/
theorem connection_settles_iff_answered : ∃ a c,
    Run (env (fun _ => Timeval.ofMillis 5000) fun _ => 5) a ∧ a.heap 1 = some c ∧
      c.m_iTcpState = .read ∧ a.loop.aeGetFileEvents c.m_iFd = AE_NONE ∧ a.Closed 1 ∧
      ¬ a.TimerPending 1 := by
  let e := env (fun _ => Timeval.ofMillis 5000) fun _ => 5
  have connected := (Run.oneConnection e).iterate EPOLLOUT (by decide) (by decide)
  have written := connected.iterate EPOLLOUT (by decide) (by decide)
  have answered := written.iterate EPOLLIN (by decide) (by decide)
  generalize final : iterate e EPOLLIN (iterate e EPOLLOUT (iterate e EPOLLOUT (oneConnection e))) =
    a at answered
  have conn : a.heap 1 = some ⟨.read, 3, 1⟩ := by
    rw [← final]
    decide
  have history : a.history = [.ran 1 EV_TCP_CONNECT_CB, .moved 1 .connect, .ran 1 EV_TCP_WRITE_CB,
      .moved 1 .wrote, .ran 1 EV_TCP_READ_CB, .moved 1 .read, .closed 1 3] := by
    rw [← final]
    decide
  have size : a.loop.setsize = 4 := by
    rw [← final]
    decide
  have mask : a.loop.aeGetFileEvents 3 = AE_NONE := by
    rw [← final]
    decide
  have inTime : ¬ a.TimedOut 1 := by simp [App.TimedOut, history]
  obtain ⟨-, -, released⟩ := connection_settles_iff answered conn
  have settled := released.mpr ⟨by simp [size], inTime⟩ mask
  exact ⟨a, _, answered, conn, rfl, mask, settled⟩

/-- Two seconds pass between any two readings of the clock: the timer of the connection, whose id is
one, expires before the reply comes. -/
theorem connection_leaks : ∃ a c,
    Run (env (fun k => Timeval.ofMillis (2000 * k)) fun k => 2 * k) a ∧ a.heap 1 = some c ∧
      (c.m_iFd : Int) < a.loop.setsize ∧ c.m_iFd ∈ a.sockets ∧
      ¬ (a.loop.aeGetFileEvents c.m_iFd = AE_NONE → a.Closed 1 ∧ ¬ a.TimerPending 1) := by
  let e := env (fun k => Timeval.ofMillis (2000 * k)) fun k => 2 * k
  have connected := (Run.oneConnection e).iterate EPOLLOUT (by decide) (by decide)
  have written := connected.iterate EPOLLOUT (by decide) (by decide)
  generalize final : iterate e EPOLLOUT (iterate e EPOLLOUT (oneConnection e)) = a at written
  have conn : a.heap 1 = some ⟨.wrote, 3, 1⟩ := by
    rw [← final]
    decide
  have history : a.history = [.ran 1 EV_TCP_CONNECT_CB, .moved 1 .connect, .ran 1 EV_TCP_WRITE_CB,
      .moved 1 .wrote, .expired 1 1] := by
    rw [← final]
    decide
  have size : a.loop.setsize = 4 := by
    rw [← final]
    decide
  have mask : a.loop.aeGetFileEvents 3 = AE_NONE := by
    rw [← final]
    decide
  have held : 3 ∈ a.sockets := by
    rw [← final]
    decide
  refine ⟨a, _, written, conn, by simp [size], held, fun released => ?_⟩
  have closed := (released mask).1
  simp [App.Closed, history] at closed

end AeEventLoop.TcpClient
