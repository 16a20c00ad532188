import AeEventLoop.AePass
import AeEventLoop.Dispatch
import AeEventLoop.TcpClient

/-! Whole runs of the TCP client. A connection is always in one of six stages, which say what is
registered for its descriptor, whether its timer may be pending and whether the descriptor has been
closed. Handlers and the timer callback take one connection to its next stage and leave the others
where they are. In one of the stages the descriptor is open and nobody is left to close it: it is
entered when the timer expires. -/

namespace AeEventLoop.TcpClient

/-- The states assigned before this one, and this one. -/
def TcpState.path : TcpState → List TcpState
  | init => []
  | connect => [connect]
  | wrote => [connect, wrote]
  | read => [connect, wrote, read]

@[simp] def TcpEvent.moved? (p : ℕ) : TcpEvent → Option TcpState
  | moved q state => if q = p then some state else none
  | _ => none

def movesIn (p : ℕ) (history : List TcpEvent) : List TcpState := history.filterMap (TcpEvent.moved? p)

@[simp] theorem movesIn_nil (p : ℕ) : movesIn p [] = [] := rfl

@[simp] theorem movesIn_cons (p : ℕ) (e : TcpEvent) (history : List TcpEvent) :
    movesIn p (e :: history) = (e.moved? p).toList ++ movesIn p history :=
  filterMap_cons_toList _ _ _

@[simp] theorem movesIn_append (p : ℕ) (a b : List TcpEvent) :
    movesIn p (a ++ b) = movesIn p a ++ movesIn p b := List.filterMap_append

theorem movesIn_of_others {p : ℕ} {new : List TcpEvent} (others : ∀ e ∈ new, e.pointer ≠ p) :
    movesIn p new = [] := by
  refine List.filterMap_eq_nil_iff.mpr fun e he => ?_
  have other := others e he
  cases e with
  | moved q state => exact if_neg other
  | _ => rfl

namespace App

def timers (a : App) : List TimeEvent := a.loop.timeEvents.contents

def Closed (a : App) (p : ℕ) : Prop := ∃ fd, .closed p fd ∈ a.history

/-- `evTimerCb` was called for the connection, and not to stop the loop. -/
def TimedOut (a : App) (p : ℕ) : Prop := ∃ id, id ≠ 0 ∧ .expired p id ∈ a.history

def TimerPending (a : App) (p : ℕ) : Prop := ∃ te ∈ a.timers, te.clientData = p

variable {a b : App} {p : ℕ} {new : List TcpEvent}

theorem closed_append (history : b.history = a.history ++ new) :
    b.Closed p ↔ a.Closed p ∨ ∃ fd, .closed p fd ∈ new := by
  simp only [Closed, history, List.mem_append, exists_or]

theorem timedOut_append (history : b.history = a.history ++ new) :
    b.TimedOut p ↔ a.TimedOut p ∨ ∃ id, id ≠ 0 ∧ .expired p id ∈ new := by
  simp only [TimedOut, history, List.mem_append, and_or_left, exists_or]

theorem closed_of_others (history : b.history = a.history ++ new)
    (others : ∀ e ∈ new, e.pointer ≠ p) : b.Closed p ↔ a.Closed p := by
  rw [closed_append history]
  exact or_iff_left fun ⟨_, fresh⟩ => others _ fresh rfl

theorem timedOut_of_others (history : b.history = a.history ++ new)
    (others : ∀ e ∈ new, e.pointer ≠ p) : b.TimedOut p ↔ a.TimedOut p := by
  rw [timedOut_append history]
  exact or_iff_left fun ⟨_, _, fresh⟩ => others _ fresh rfl

end App

inductive Stage
  | outside
  | fresh
  | connecting
  | waiting
  | leaked
  | done
deriving DecidableEq

namespace Stage

def entry (p : ℕ) : Stage → Option FileEvent
  | fresh => some ⟨AE_READABLE ||| AE_WRITABLE, EV_TCP_CONNECT_CB, EV_TCP_CONNECT_CB, p⟩
  | connecting => some ⟨AE_READABLE ||| AE_WRITABLE, EV_TCP_CONNECT_CB, EV_TCP_WRITE_CB, p⟩
  | waiting => some ⟨AE_READABLE, EV_TCP_READ_CB, EV_TCP_WRITE_CB, p⟩
  | _ => none

def state : Stage → Option TcpState
  | outside => some .init
  | fresh => some .init
  | connecting => some .connect
  | waiting => some .wrote
  | leaked => some .wrote
  | done => none

end Stage

structure Standing (a : App) (p : ℕ) (c : CSockInfo) (stage : Stage) : Prop where
  closed : a.Closed p ↔ stage = .done
  timedOut : a.TimedOut p ↔ stage = .leaked
  timers : ∀ te ∈ a.timers, te.clientData = p → stage = .waiting ∧ te.id = c.m_lTimerId
  size : (c.m_iFd : Int) < a.loop.setsize ↔ stage ≠ .outside
  entry : ∀ fe, stage.entry p = some fe → a.loop.events c.m_iFd = fe
  unregistered : stage = .leaked → (a.loop.events c.m_iFd).mask = AE_NONE
  state : ∀ state, stage.state = some state → c.m_iTcpState = state

/-- What holds between the calls of handlers. -/
structure Inv (a : App) : Prop where
  files : a.loop.toFileTable.Inv
  ok : ∃ xs, Ae.Ok a.loop xs
  positive : 0 < a.fresh
  low : ∀ p c, a.heap p = some c → 0 < p ∧ p < a.fresh
  conns : ∀ p c, a.heap p = some c → ∃ stage, Standing a p c stage
  owner : ∀ fd, a.loop.aeGetFileEvents fd ≠ AE_NONE → ∃ c,
    a.heap (a.loop.events fd).clientData = some c ∧ c.m_iFd = fd ∧
      ¬ a.Closed (a.loop.events fd).clientData
  alone : ∀ p q c d, a.heap p = some c → a.heap q = some d → ¬ a.Closed p → ¬ a.Closed q →
    c.m_iFd = d.m_iFd → p = q
  sockets : ∀ p c, a.heap p = some c → ¬ a.Closed p → c.m_iFd ∈ a.sockets
  pointers : ∀ te ∈ a.timers, te.clientData = 0 ∨ ∃ c, a.heap te.clientData = some c
  known : ∀ e ∈ a.history, e.pointer < a.fresh
  moves : ∀ p c, a.heap p = some c → movesIn p a.history = c.m_iTcpState.path
  last : ∀ pre p fd post, a.history = pre ++ .closed p fd :: post →
    (∃ c, a.heap p = some c ∧ c.m_iFd = fd) ∧ ∀ e ∈ post, e.pointer ≠ p

section Frame

variable {a b : App} {p q : ℕ} {c c' d : CSockInfo} {stage : Stage} {new : List TcpEvent}

theorem Standing.carry (standing : Standing a q d stage) (closed : b.Closed q ↔ a.Closed q)
    (timedOut : b.TimedOut q ↔ a.TimedOut q)
    (timers : ∀ te ∈ b.timers, te.clientData = q →
      ∃ x ∈ a.timers, x.id = te.id ∧ x.clientData = q)
    (setsize : b.loop.setsize = a.loop.setsize)
    (events : stage ≠ .done → b.loop.events d.m_iFd = a.loop.events d.m_iFd) :
    Standing b q d stage where
  closed := closed.trans standing.closed
  timedOut := timedOut.trans standing.timedOut
  timers te hte mine := by
    obtain ⟨x, hx, same, data⟩ := timers te hte mine
    rw [← same]
    exact standing.timers x hx data
  size := setsize ▸ standing.size
  entry fe here := by
    refine (events ?_).trans (standing.entry fe here)
    rintro rfl
    cases here
  unregistered here := by
    rw [events (by rw [here]; decide)]
    exact standing.unregistered here
  state := standing.state

/-- A change that concerns no connection: to the clock, the fired events, the deadlines of timers,
to timers that come without client data or go, and to descriptors that are opened. -/
theorem Inv.congr (inv : Inv a) (heap : b.heap = a.heap) (fresh : b.fresh = a.fresh)
    (sockets : ∀ fd ∈ a.sockets, fd ∈ b.sockets) (history : b.history = a.history ++ new)
    (strange : ∀ e ∈ new, ∃ id, e = .expired 0 id) (files : b.loop.toFileTable.Inv)
    (ok : ∃ xs, Ae.Ok b.loop xs) (setsize : b.loop.setsize = a.loop.setsize)
    (events : b.loop.events = a.loop.events)
    (timers : ∀ te ∈ b.timers, te.clientData = 0 ∨
      ∃ x ∈ a.timers, x.id = te.id ∧ x.clientData = te.clientData) : Inv b := by
  have others : ∀ p c, a.heap p = some c → ∀ e ∈ new, e.pointer ≠ p := by
    intro p c conn e he same
    have := (inv.low p c conn).1
    obtain ⟨id, rfl⟩ := strange e he
    simp only [TcpEvent.pointer] at same
    omega
  have closed : ∀ p c, a.heap p = some c → (b.Closed p ↔ a.Closed p) := fun p c conn =>
    App.closed_of_others history (others p c conn)
  have masks : ∀ fd, b.loop.aeGetFileEvents fd = a.loop.aeGetFileEvents fd := by
    intro fd
    rw [FileTable.aeGetFileEvents, FileTable.aeGetFileEvents, setsize, events]
  refine ⟨files, ok, fresh ▸ inv.positive, ?_, ?_, ?_, ?_, ?_, ?_, ?_, ?_, ?_⟩
  · rw [heap, fresh]
    exact inv.low
  · intro p c conn
    rw [heap] at conn
    obtain ⟨stage, standing⟩ := inv.conns p c conn
    refine ⟨stage, standing.carry (closed p c conn)
      (App.timedOut_of_others history (others p c conn)) ?_ setsize
      fun _ => congrFun events c.m_iFd⟩
    intro te hte mine
    rcases timers te hte with none | ⟨x, hx, same, data⟩
    · have := (inv.low p c conn).1
      omega
    · exact ⟨x, hx, same, data.trans mine⟩
  · intro fd set
    rw [masks] at set
    obtain ⟨c, conn, own, unclosed⟩ := inv.owner fd set
    rw [heap, events, closed _ c conn]
    exact ⟨c, conn, own, unclosed⟩
  · intro p q c d hp hq
    rw [heap] at hp hq
    rw [closed p c hp, closed q d hq]
    exact inv.alone p q c d hp hq
  · intro p c conn
    rw [heap] at conn
    rw [closed p c conn]
    exact fun unclosed => sockets _ (inv.sockets p c conn unclosed)
  · intro te hte
    rw [heap]
    rcases timers te hte with none | ⟨x, hx, -, data⟩
    · exact .inl none
    · rw [← data]
      exact inv.pointers x hx
  · intro e he
    rw [fresh]
    rw [history] at he
    rcases List.mem_append.mp he with old | fresh
    · exact inv.known e old
    · obtain ⟨id, rfl⟩ := strange e fresh
      exact inv.positive
  · intro p c conn
    rw [heap] at conn
    rw [history, movesIn_append, movesIn_of_others (others p c conn), List.append_nil]
    exact inv.moves p c conn
  · intro pre p fd post split
    rw [history] at split
    rw [heap]
    rcases split_append split with ⟨mid, old, rfl⟩ | ⟨mid, -, fresh⟩
    · obtain ⟨⟨c, conn, own⟩, rest⟩ := inv.last pre p fd mid old
      refine ⟨⟨c, conn, own⟩, fun e he => ?_⟩
      rcases List.mem_append.mp he with before | after
      · exact rest e before
      · exact others p c conn e after
    · obtain ⟨id, other⟩ := strange (.closed p fd) (by simp [fresh])
      cases other

theorem Inv.withLoop (inv : Inv a) {loop : Ae.EventLoop} (files : loop.toFileTable.Inv)
    (ok : ∃ xs, Ae.Ok loop xs) (setsize : loop.setsize = a.loop.setsize)
    (events : loop.events = a.loop.events)
    (timers : ∀ te ∈ loop.timeEvents.contents, te.clientData = 0 ∨
      ∃ x ∈ a.timers, x.id = te.id ∧ x.clientData = te.clientData) : Inv { a with loop := loop } :=
  inv.congr rfl rfl (fun _ h => h) (List.append_nil _).symm (by simp) files ok setsize events timers

structure Edit (p : ℕ) (c c' : CSockInfo) (a b : App) (new : List TcpEvent) : Prop where
  heap : b.heap = Function.update a.heap p (some c')
  fd : c'.m_iFd = c.m_iFd
  fresh : b.fresh = a.fresh
  files : b.loop.toFileTable.Inv
  ok : ∃ xs, Ae.Ok b.loop xs
  setsize : b.loop.setsize = a.loop.setsize
  others : ∀ i, i ≠ c.m_iFd → b.loop.events i = a.loop.events i
  history : b.history = a.history ++ new
  mine : ∀ e ∈ new, e.pointer = p
  timers : ∀ te ∈ b.timers, te ∈ a.timers ∨ te.clientData = p
  sockets : ∀ fd ∈ a.sockets, fd ≠ c.m_iFd → fd ∈ b.sockets

section Edit

theorem Edit.here (edit : Edit p c c' a b new) : b.heap p = some c' := by
  rw [edit.heap, Function.update_self]

theorem Edit.there (edit : Edit p c c' a b new) (other : q ≠ p) : b.heap q = a.heap q := by
  rw [edit.heap, Function.update_of_ne other]

theorem Edit.strange (edit : Edit p c c' a b new) (other : q ≠ p) : ∀ e ∈ new, e.pointer ≠ q :=
  fun e he same => other (same.symm.trans (edit.mine e he))

theorem Edit.closed (edit : Edit p c c' a b new) (other : q ≠ p) : b.Closed q ↔ a.Closed q :=
  App.closed_of_others edit.history (edit.strange other)

theorem Inv.apart (inv : Inv a) (conn : a.heap p = some c) (unclosed : ¬ a.Closed p)
    (other : q ≠ p) (hq : a.heap q = some d) (open' : ¬ a.Closed q) : d.m_iFd ≠ c.m_iFd :=
  fun same => other (inv.alone q p d c hq conn open' unclosed same)

variable (inv : Inv a) (conn : a.heap p = some c) (unclosed : ¬ a.Closed p)
  (edit : Edit p c c' a b new)

include inv conn unclosed edit

theorem Inv.edit_others (other : q ≠ p) (hq : a.heap q = some d) :
    ∃ stage, Standing b q d stage := by
  obtain ⟨stage, before⟩ := inv.conns q d hq
  refine ⟨stage, before.carry (edit.closed other)
    (App.timedOut_of_others edit.history (edit.strange other)) ?_ edit.setsize fun live => ?_⟩
  · intro te hte mine
    rcases edit.timers te hte with old | own
    · exact ⟨te, old, rfl, mine⟩
    · exact absurd (mine.symm.trans own) other
  · refine edit.others d.m_iFd (inv.apart conn unclosed other hq fun gone => live ?_)
    exact before.closed.mp gone

omit unclosed in
theorem Inv.edit_owner {fd : ℕ} (other : fd ≠ c.m_iFd)
    (set : b.loop.aeGetFileEvents fd ≠ AE_NONE) : ∃ d,
      b.heap (b.loop.events fd).clientData = some d ∧ d.m_iFd = fd ∧
        ¬ b.Closed (b.loop.events fd).clientData := by
  have entry := edit.others fd other
  rw [FileTable.aeGetFileEvents, edit.setsize, entry] at set
  obtain ⟨d, hd, own, open'⟩ := inv.owner fd set
  have apart : (a.loop.events fd).clientData ≠ p := by
    intro is
    rw [is, conn] at hd
    exact other (by rw [← own, Option.some.inj hd])
  rw [entry, edit.there apart, edit.closed apart]
  exact ⟨d, hd, own, open'⟩

theorem Inv.edit_alone {e : CSockInfo} {r : ℕ} (hq : b.heap q = some d) (hr : b.heap r = some e)
    (openQ : ¬ b.Closed q) (openR : ¬ b.Closed r) (same : d.m_iFd = e.m_iFd) : q = r := by
  by_cases q' : q = p
  · subst q'
    by_cases r' : r = q
    · exact r'.symm
    · obtain rfl := Option.some.inj (edit.here.symm.trans hq)
      rw [edit.there r'] at hr
      rw [edit.closed r'] at openR
      exact absurd (same.symm.trans edit.fd) (inv.apart conn unclosed r' hr openR)
  · rw [edit.there q'] at hq
    rw [edit.closed q'] at openQ
    by_cases r' : r = p
    · subst r'
      obtain rfl := Option.some.inj (edit.here.symm.trans hr)
      exact absurd (same.trans edit.fd) (inv.apart conn unclosed q' hq openQ)
    · rw [edit.there r'] at hr
      rw [edit.closed r'] at openR
      exact inv.alone q r d e hq hr openQ openR same

omit conn in
theorem Inv.edit_last
    (last : ∀ pre fd post, new = pre ++ .closed p fd :: post → fd = c.m_iFd ∧ post = [])
    {pre post : List TcpEvent} {fd : ℕ} (split : b.history = pre ++ .closed q fd :: post) :
    (∃ d, b.heap q = some d ∧ d.m_iFd = fd) ∧ ∀ e ∈ post, e.pointer ≠ q := by
  rw [edit.history] at split
  rcases split_append split with ⟨mid, old, rfl⟩ | ⟨mid, -, fresh⟩
  · obtain ⟨⟨d, hq, own⟩, rest⟩ := inv.last pre q fd mid old
    have other : q ≠ p := by
      rintro rfl
      exact unclosed ⟨fd, by simp [old]⟩
    refine ⟨⟨d, (edit.there other).trans hq, own⟩, fun e he => ?_⟩
    rcases List.mem_append.mp he with before | after
    · exact rest e before
    · exact edit.strange other e after
  · have is : q = p := edit.mine (.closed q fd) (by simp [fresh])
    subst is
    obtain ⟨rfl, rfl⟩ := last mid fd post fresh
    exact ⟨⟨c', edit.here, edit.fd⟩, by simp⟩

end Edit

theorem Inv.edit (inv : Inv a) (conn : a.heap p = some c) (unclosed : ¬ a.Closed p)
    (edit : Edit p c c' a b new) (standing : Standing b p c' stage)
    (own : b.loop.aeGetFileEvents c.m_iFd ≠ AE_NONE →
      (b.loop.events c.m_iFd).clientData = p ∧ stage ≠ .done)
    (open' : stage ≠ .done → c.m_iFd ∈ b.sockets)
    (moves : c.m_iTcpState.path ++ movesIn p new = c'.m_iTcpState.path)
    (last : ∀ pre fd post, new = pre ++ .closed p fd :: post → fd = c.m_iFd ∧ post = []) : Inv b := by
  refine ⟨edit.files, edit.ok, edit.fresh ▸ inv.positive, ?_, ?_, ?_, ?_, ?_, ?_, ?_, ?_, ?_⟩
  · intro q d hq
    rw [edit.fresh]
    by_cases same : q = p
    · rw [same]
      exact inv.low p c conn
    · exact inv.low q d (edit.there same ▸ hq)
  · intro q d hq
    by_cases same : q = p
    · subst same
      obtain rfl := Option.some.inj (edit.here.symm.trans hq)
      exact ⟨stage, standing⟩
    · exact inv.edit_others conn unclosed edit same (edit.there same ▸ hq)
  · intro fd set
    by_cases same : fd = c.m_iFd
    · subst same
      obtain ⟨data, live⟩ := own set
      rw [data]
      exact ⟨c', edit.here, edit.fd, fun gone => live (standing.closed.mp gone)⟩
    · exact inv.edit_owner conn edit same set
  · intro q r d e hq hr openQ openR same
    exact inv.edit_alone conn unclosed edit hq hr openQ openR same
  · intro q d hq open''
    by_cases same : q = p
    · subst same
      obtain rfl := Option.some.inj (edit.here.symm.trans hq)
      rw [edit.fd]
      exact open' fun isDone => open'' (standing.closed.mpr isDone)
    · rw [edit.there same] at hq
      rw [edit.closed same] at open''
      exact edit.sockets _ (inv.sockets q d hq open'') (inv.apart conn unclosed same hq open'')
  · intro te hte
    by_cases mine : te.clientData = p
    · exact .inr ⟨c', mine ▸ edit.here⟩
    · rw [edit.there mine]
      exact inv.pointers te ((edit.timers te hte).resolve_right mine)
  · intro e he
    rw [edit.fresh]
    rw [edit.history] at he
    rcases List.mem_append.mp he with old | fresh
    · exact inv.known e old
    · rw [edit.mine e fresh]
      exact (inv.low p c conn).2
  · intro q d hq
    rw [edit.history, movesIn_append]
    by_cases same : q = p
    · subst same
      obtain rfl := Option.some.inj (edit.here.symm.trans hq)
      rw [inv.moves q c conn, moves]
    · rw [edit.there same] at hq
      rw [movesIn_of_others (edit.strange same), List.append_nil]
      exact inv.moves q d hq
  · intro pre q fd post split
    exact inv.edit_last unclosed edit last split

end Frame

section Handlers

variable {a b : App} {p fd : ℕ} {c c' : CSockInfo} {stage next : Stage} {new : List TcpEvent}

theorem Stage.entry_clientData {fe : FileEvent} (here : stage.entry p = some fe) :
    fe.clientData = p ∧ stage ≠ .done := by
  cases stage <;> cases here <;> exact ⟨rfl, by decide⟩

theorem Stage.live (active : (stage.entry p).isSome) :
    stage ≠ .done ∧ stage ≠ .leaked ∧ stage ≠ .outside := by
  cases stage <;> simp [Stage.entry] at active ⊢

theorem Standing.unclosed (standing : Standing a p c stage) (live : stage ≠ .done) : ¬ a.Closed p :=
  fun gone => live (standing.closed.mp gone)

theorem Inv.advance (inv : Inv a) (conn : a.heap p = some c) (standing : Standing a p c stage)
    (active : (stage.entry p).isSome) (edit : Edit p c c' a b new) (inside : next ≠ .outside)
    (closes : (∃ fd, .closed p fd ∈ new) ↔ next = .done)
    (expires : (∃ id, id ≠ 0 ∧ .expired p id ∈ new) ↔ next = .leaked)
    (timers : ∀ te ∈ b.timers, te.clientData = p → next = .waiting ∧ te.id = c'.m_lTimerId)
    (entry : ∀ fe, next.entry p = some fe → b.loop.events c.m_iFd = fe)
    (gone : next.entry p = none → (b.loop.events c.m_iFd).mask = AE_NONE)
    (state : ∀ state, next.state = some state → c'.m_iTcpState = state)
    (open' : next ≠ .done → c.m_iFd ∈ b.sockets)
    (moves : c.m_iTcpState.path ++ movesIn p new = c'.m_iTcpState.path)
    (last : ∀ pre fd post, new = pre ++ .closed p fd :: post → fd = c.m_iFd ∧ post = []) : Inv b := by
  have live := Stage.live active
  have lt := standing.size.mpr live.2.2
  have unclosed := standing.unclosed live.1
  have inTime : ¬ a.TimedOut p := fun late => live.2.1 (standing.timedOut.mp late)
  have after : Standing b p c' next := by
    refine ⟨?_, ?_, timers, ?_, ?_, ?_, state⟩
    · rw [App.closed_append edit.history, or_iff_right unclosed, closes]
    · rw [App.timedOut_append edit.history, or_iff_right inTime, expires]
    · rw [edit.fd, edit.setsize]
      exact ⟨fun _ => inside, fun _ => lt⟩
    · rw [edit.fd]
      exact entry
    · rintro rfl
      rw [edit.fd]
      exact gone rfl
  refine inv.edit conn unclosed edit after (fun set => ?_) open' moves last
  rw [FileTable.aeGetFileEvents_of_lt (edit.setsize.symm ▸ lt)] at set
  cases here : next.entry p with
  | none => exact absurd (gone here) set
  | some fe =>
      rw [entry fe here]
      exact Stage.entry_clientData here

theorem heap_self (conn : a.heap p = some c) : a.heap = Function.update a.heap p (some c) := by
  rw [← conn, Function.update_eq_self]

theorem Inv.cleared (inv : Inv a) (standing : Standing a p c stage)
    (active : (stage.entry p).isSome) :
    let t := a.loop.toFileTable.aeDeleteFileEvent c.m_iFd (AE_READABLE ||| AE_WRITABLE)
    t.Inv ∧ t.setsize = a.loop.setsize ∧ (∀ i, i ≠ c.m_iFd → t.events i = a.loop.events i) ∧
      (t.events c.m_iFd).mask = AE_NONE := by
  obtain ⟨fe, here⟩ := Option.isSome_iff_exists.mp active
  have lt := standing.size.mpr (Stage.live active).2.2
  have events := FileTable.aeDeleteFileEvent_events inv.files lt (AE_READABLE ||| AE_WRITABLE)
  refine ⟨FileTable.aeDeleteFileEvent_inv inv.files _ _, a.loop.aeDeleteFileEvent_setsize _ _, ?_, ?_⟩
  · intro i other
    rw [events, Function.update_of_ne other]
  · rw [events, Function.update_self]
    dsimp only
    rw [standing.entry fe here]
    cases stage <;> cases here <;> dsimp only <;> decide

theorem closed_nowhere {pre post : List TcpEvent} {fd' : ℕ}
    (none : ∀ fd, TcpEvent.closed p fd ∉ new) (split : new = pre ++ .closed p fd' :: post) :
    fd' = fd ∧ post = [] :=
  absurd (by simp [split]) (none fd')

theorem closed_last {quiet pre post : List TcpEvent} {fd' : ℕ}
    (none : ∀ fd, TcpEvent.closed p fd ∉ quiet)
    (split : quiet ++ [.closed p fd] = pre ++ .closed p fd' :: post) : fd' = fd ∧ post = [] := by
  rcases split_append split with ⟨mid, inside, -⟩ | ⟨mid, -, here⟩
  · exact absurd (by simp [inside]) (none fd')
  · cases mid with
    | nil => simpa [eq_comm] using here
    | cons e mid => simp at here

theorem Inv.abort (inv : Inv a) (conn : a.heap p = some c) (standing : Standing a p c stage)
    (early : stage = .fresh ∨ stage = .connecting) (proc : ℕ) :
    Inv (abort (a.log (.ran p proc)) p c.m_iFd) ∧
      (abort (a.log (.ran p proc)) p c.m_iFd).loop.setsize = a.loop.setsize := by
  have active : (stage.entry p).isSome ∧ stage ≠ .waiting := by
    rcases early with rfl | rfl
    · exact ⟨rfl, by decide⟩
    · exact ⟨rfl, by decide⟩
  obtain ⟨files, setsize, others, cleared⟩ := inv.cleared standing active.1
  obtain ⟨xs, ok⟩ := inv.ok
  let b := TcpClient.abort (a.log (.ran p proc)) p c.m_iFd
  have edit : Edit p c c a b ([.ran p proc] ++ [.closed p c.m_iFd]) := by
    refine ⟨heap_self conn, rfl, rfl, files, ⟨xs, ok.same rfl rfl rfl⟩, setsize, others, ?_,
      by simp, fun te hte => .inl hte, ?_⟩
    · simp [b, TcpClient.abort, close, App.log, TcpClient.aeDeleteFileEvent, App.withFiles]
    · intro fd hfd other
      exact Finset.mem_erase.mpr ⟨other, hfd⟩
  refine ⟨@Inv.advance a b p c c stage .done _ inv conn standing active.1 edit (by decide)
    (by simp) (by simp) ?_ (by simp [Stage.entry]) (fun _ => cleared) (by simp [Stage.state])
    (fun other => absurd rfl other) (by simp) fun pre fd post => closed_last (by simp), setsize⟩
  intro te hte mine
  exact absurd (standing.timers te hte mine).1 active.2

theorem Inv.connected (inv : Inv a) (conn : a.heap p = some c) (standing : Standing a p c .fresh)
    (proc : ℕ) :
    let b := aeCreateFileEvent (setTcpState (a.log (.ran p proc)) p .connect) c.m_iFd AE_WRITABLE
      EV_TCP_WRITE_CB p
    Inv b ∧ b.loop.setsize = a.loop.setsize := by
  intro b
  have lt := standing.size.mpr (by decide)
  have entry := standing.entry _ rfl
  have unclosed := standing.unclosed (by decide)
  have table : b.loop.toFileTable =
      a.loop.toFileTable.register c.m_iFd AE_WRITABLE EV_TCP_WRITE_CB p :=
    FileTable.aeCreateFileEvent_below inv.files lt _ _ _
  have events : b.loop.events = Function.update a.loop.events c.m_iFd
      ⟨AE_READABLE ||| AE_WRITABLE, EV_TCP_CONNECT_CB, EV_TCP_WRITE_CB, p⟩ := by
    rw [table]
    refine congrArg (Function.update a.loop.events c.m_iFd) ?_
    rw [entry, FileEvent.mk.injEq]
    dsimp only
    exact ⟨by decide, by decide, by decide, rfl⟩
  have setsize : b.loop.setsize = a.loop.setsize := by
    rw [table]
    rfl
  obtain ⟨xs, ok⟩ := inv.ok
  have edit : Edit p c { c with m_iTcpState := .connect } a b [.ran p proc, .moved p .connect] := by
    refine ⟨?_, rfl, rfl, ?_, ⟨xs, ok.same rfl rfl rfl⟩,
      setsize, ?_, ?_, by simp, fun te hte => .inl hte, fun fd hfd _ => hfd⟩
    · simp [b, aeCreateFileEvent, App.withFiles, setTcpState, App.log, conn]
    · rw [table]
      exact FileTable.register_inv inv.files lt (by decide) _ _
    · intro i other
      exact (congrFun events i).trans (Function.update_of_ne other _ _)
    · simp [b, aeCreateFileEvent, App.withFiles, setTcpState, App.log]
  refine ⟨@Inv.advance a b p c _ .fresh .connecting _ inv conn standing rfl edit (by decide)
    (by simp) (by simp) ?_ ?_ (by simp [Stage.entry]) ?_ (fun _ => inv.sockets p c conn unclosed) ?_
    fun pre fd post => closed_nowhere (by simp), setsize⟩
  · intro te hte mine
    exact absurd (standing.timers te hte mine).1 (by decide)
  · intro fe here
    rw [← Option.some.inj here, events]
    exact Function.update_self _ _ _
  · intro state here
    exact Option.some.inj here
  · rw [standing.state _ rfl]
    simp [TcpState.path]

/-- `evTcpWriteCb` gives up its event and leaves the descriptor to `evTcpReadCb`. -/
theorem Inv.handedOver (inv : Inv a) (standing : Standing a p c .connecting) :
    let u := ((a.loop.toFileTable.aeDeleteFileEvent c.m_iFd AE_WRITABLE).aeCreateFileEvent c.m_iFd
      AE_READABLE EV_TCP_READ_CB p false).2
    u.Inv ∧ u.setsize = a.loop.setsize ∧ (∀ i, i ≠ c.m_iFd → u.events i = a.loop.events i) ∧
      u.events c.m_iFd = ⟨AE_READABLE, EV_TCP_READ_CB, EV_TCP_WRITE_CB, p⟩ := by
  intro u
  have lt := standing.size.mpr (by decide)
  let t := a.loop.toFileTable.aeDeleteFileEvent c.m_iFd AE_WRITABLE
  have tInv : t.Inv := FileTable.aeDeleteFileEvent_inv inv.files _ _
  have tSize : t.setsize = a.loop.setsize := FileTable.aeDeleteFileEvent_setsize _ _ _
  have tEvents := FileTable.aeDeleteFileEvent_events inv.files lt AE_WRITABLE
  have tEntry : t.events c.m_iFd = ⟨AE_READABLE, EV_TCP_CONNECT_CB, EV_TCP_WRITE_CB, p⟩ := by
    rw [tEvents, Function.update_self, standing.entry _ rfl, FileEvent.mk.injEq]
    dsimp only
    exact ⟨by decide, rfl, rfl, rfl⟩
  have table : u = t.register c.m_iFd AE_READABLE EV_TCP_READ_CB p :=
    FileTable.aeCreateFileEvent_below tInv (tSize.symm ▸ lt) _ _ _
  rw [table]
  refine ⟨FileTable.register_inv tInv (tSize.symm ▸ lt) (by decide) _ _, tSize, ?_, ?_⟩
  · intro i other
    refine (Function.update_of_ne other _ _).trans ?_
    rw [tEvents, Function.update_of_ne other]
  · refine (Function.update_self _ _ _).trans ?_
    rw [tEntry, FileEvent.mk.injEq]
    dsimp only
    exact ⟨by decide, by decide, by decide, rfl⟩

theorem Inv.wrote (inv : Inv a) (conn : a.heap p = some c)
    (standing : Standing a p c .connecting) (env : Env Int) {call : FileCall}
    (data : call.clientData = p) (fd : call.fd = c.m_iFd) (mask : call.mask &&& AE_WRITABLE ≠ 0)
    (proc : ℕ) :
    Inv (evTcpWriteCb env call (a.log (.ran p proc))) ∧
      (evTcpWriteCb env call (a.log (.ran p proc))).loop.setsize = a.loop.setsize := by
  have unclosed := standing.unclosed (by decide)
  obtain ⟨files, size, others, entry⟩ := inv.handedOver standing
  obtain ⟨xs, ok⟩ := inv.ok
  let loop : Ae.EventLoop := { a.loop with
    toFileTable := ((a.loop.toFileTable.aeDeleteFileEvent c.m_iFd AE_WRITABLE).aeCreateFileEvent
      c.m_iFd AE_READABLE EV_TCP_READ_CB p false).2 }
  have okLoop : Ae.Ok loop xs := ok.same rfl rfl rfl
  obtain ⟨okB, -, -, -, -, table⟩ := okLoop.create env 1100 EV_TIMER_CB p none
  have contents := okLoop.create_contents env 1100 EV_TIMER_CB p none
  let c' : CSockInfo := ⟨.wrote, c.m_iFd, loop.timeEventNextId⟩
  let b : App :=
    { loop := (Ae.aeCreateTimeEvent env loop 1100 EV_TIMER_CB p none).2
      heap := Function.update a.heap p (some c')
      fresh := a.fresh
      sockets := a.sockets
      history := a.history ++ [.ran p proc, .moved p .wrote] }
  have eq : evTcpWriteCb env call (a.log (.ran p proc)) = b := by
    have state : c.m_iTcpState = .connect := standing.state _ rfl
    have go : ¬ (call.mask &&& AE_WRITABLE = 0 ∨ c.m_iTcpState ≠ .connect) := by
      rintro (none | other)
      · exact mask none
      · exact other state
    simp only [evTcpWriteCb, App.log, data, fd, conn, if_neg go, setTcpState,
      TcpClient.aeDeleteFileEvent, aeCreateFileEvent, App.withFiles, Option.map_some,
      Function.update_self, Function.update_idem, List.append_assoc, List.cons_append,
      List.nil_append]
    rfl
  have setsize : b.loop.setsize = a.loop.setsize := by
    rw [table]
    exact size
  have timers : ∀ te ∈ b.timers, te ∈ a.timers ∨
      te = loop.newTimeEvent env 1100 EV_TIMER_CB p none := by
    intro te hte
    rw [App.timers, contents] at hte
    exact (List.mem_cons.mp hte).symm
  have edit : Edit p c c' a b [.ran p proc, .moved p .wrote] := by
    refine ⟨rfl, rfl, rfl, ?_, ⟨_, okB⟩, setsize, ?_, rfl, by simp, ?_, fun fd hfd _ => hfd⟩
    · rw [table]
      exact files
    · rw [table]
      exact others
    · intro te hte
      rcases timers te hte with old | rfl
      · exact .inl old
      · exact .inr rfl
  rw [eq]
  refine ⟨@Inv.advance a b p c c' .connecting .waiting _ inv conn standing rfl edit (by decide)
    (by simp) (by simp) ?_ ?_ (by simp [Stage.entry]) ?_ (fun _ => inv.sockets p c conn unclosed) ?_
    fun pre fd post => closed_nowhere (by simp), setsize⟩
  · intro te hte mine
    rcases timers te hte with old | rfl
    · exact absurd (standing.timers te old mine).1 (by decide)
    · exact ⟨rfl, rfl⟩
  · intro fe here
    rw [← Option.some.inj here, table]
    exact entry
  · intro state here
    exact Option.some.inj here
  · rw [standing.state _ rfl]
    simp [TcpState.path, c']

theorem Inv.answered (inv : Inv a) (conn : a.heap p = some c) (standing : Standing a p c .waiting)
    {call : FileCall} (data : call.clientData = p) (fd : call.fd = c.m_iFd)
    (mask : call.mask &&& AE_READABLE ≠ 0) (proc : ℕ) :
    Inv (evTcpReadCb call (a.log (.ran p proc))) ∧
      (evTcpReadCb call (a.log (.ran p proc))).loop.setsize = a.loop.setsize := by
  obtain ⟨files, tSize, others, cleared⟩ := inv.cleared standing rfl
  let t := a.loop.toFileTable.aeDeleteFileEvent c.m_iFd (AE_READABLE ||| AE_WRITABLE)
  obtain ⟨xs, ok⟩ := inv.ok
  let loop : Ae.EventLoop := { a.loop with toFileTable := t }
  have okLoop : Ae.Ok loop xs := ok.same rfl rfl rfl
  obtain ⟨okB, contents, table⟩ := okLoop.delete_contents c.m_lTimerId
  let c' : CSockInfo := { c with m_iTcpState := .read }
  let b : App :=
    { loop := (Ae.aeDeleteTimeEvent loop c.m_lTimerId).2
      heap := Function.update a.heap p (some c')
      fresh := a.fresh
      sockets := a.sockets.erase c.m_iFd
      history := a.history ++ ([.ran p proc, .moved p .read] ++ [.closed p c.m_iFd]) }
  have eq : evTcpReadCb call (a.log (.ran p proc)) = b := by
    have state : c.m_iTcpState = .wrote := standing.state _ rfl
    have go : ¬ (call.mask &&& AE_READABLE = 0 ∨ c.m_iTcpState ≠ .wrote) := by
      rintro (none | other)
      · exact mask none
      · exact other state
    simp only [evTcpReadCb, App.log, data, fd, conn, if_neg go, setTcpState,
      TcpClient.aeDeleteFileEvent, App.withFiles, Option.map_some, close, List.append_assoc,
      List.cons_append, List.nil_append]
    rfl
  have setsize : b.loop.setsize = a.loop.setsize := by
    rw [table]
    exact tSize
  have edit : Edit p c c' a b ([.ran p proc, .moved p .read] ++ [.closed p c.m_iFd]) := by
    refine ⟨rfl, rfl, rfl, ?_, okB, setsize, ?_, rfl, by simp, ?_, ?_⟩
    · rw [table]
      exact files
    · rw [table]
      exact others
    · intro te hte
      exact .inl (contents te hte).1
    · intro fd hfd other
      exact Finset.mem_erase.mpr ⟨other, hfd⟩
  rw [eq]
  refine ⟨@Inv.advance a b p c c' .waiting .done _ inv conn standing rfl edit (by decide)
    (by simp) (by simp) ?_ (by simp [Stage.entry]) ?_ (by simp [Stage.state])
    (fun other => absurd rfl other) ?_ fun pre fd post => closed_last (by simp), setsize⟩
  · intro te hte mine
    obtain ⟨old, other⟩ := contents te hte
    exact absurd (standing.timers te old mine).2 other
  · intro _
    rw [table]
    exact cleared
  · rw [standing.state _ rfl]
    simp [TcpState.path, c']

theorem Inv.tried (inv : Inv a) (conn : a.heap p = some c) (standing : Standing a p c stage)
    (early : stage = .fresh ∨ stage = .connecting) (connect : App → ConnectResult) {call : FileCall}
    (data : call.clientData = p) (fd : call.fd = c.m_iFd) (proc : ℕ) :
    Inv (evTcpConnectCb connect call (a.log (.ran p proc))) ∧
      (evTcpConnectCb connect call (a.log (.ran p proc))).loop.setsize = a.loop.setsize := by
  have here : (a.log (.ran p proc)).heap p = some c := conn
  simp only [evTcpConnectCb, data, fd, here]
  split_ifs with bad failed
  · exact inv.abort conn standing early proc
  · exact inv.abort conn standing early proc
  · rcases early with rfl | rfl
    · exact inv.connected conn standing proc
    · have state : c.m_iTcpState = .connect := standing.state _ rfl
      exact absurd (.inr (by rw [state]; decide)) bad

theorem Inv.fire (inv : Inv a) {env : Env Int} {connect : App → ConnectResult} {ev : FiredEvent}
    {kind : FileKind} (lt : (ev.fd : Int) < a.loop.setsize)
    (ready : (backend env connect).Ready a ev kind) :
    Inv ((backend env connect).fire a ev kind) ∧
      ((backend env connect).fire a ev kind).loop.setsize = a.loop.setsize := by
  obtain ⟨registered, reported⟩ := Host.Ready.bits ready
  have set : a.loop.aeGetFileEvents ev.fd ≠ AE_NONE := by
    rw [FileTable.aeGetFileEvents_of_lt lt]
    intro none
    change (a.loop.events ev.fd).mask &&& kind.bit ≠ 0 at registered
    rw [none] at registered
    exact registered (by simp [AE_NONE])
  obtain ⟨c, conn, own, unclosed⟩ := inv.owner ev.fd set
  change (a.loop.events ev.fd).mask &&& kind.bit ≠ 0 at registered
  have fire : (backend env connect).fire a ev kind = call env connect
      ⟨kind, ev.fd, (a.loop.events ev.fd).proc kind, (a.loop.events ev.fd).clientData, ev.mask⟩ a :=
    rfl
  rw [fire]
  generalize data : (a.loop.events ev.fd).clientData = p at conn unclosed
  obtain ⟨stage, standing⟩ := inv.conns p c conn
  have entry := standing.entry
  rw [own] at entry
  cases stage with
  | outside => exact absurd rfl (standing.size.mp (own ▸ lt))
  | fresh =>
      have proc : (a.loop.events ev.fd).proc kind = EV_TCP_CONNECT_CB := by
        rw [entry _ rfl]
        cases kind <;> rfl
      rw [proc]
      exact inv.tried conn standing (.inl rfl) connect rfl own.symm EV_TCP_CONNECT_CB
  | connecting =>
      cases kind with
      | readable =>
          have proc : (a.loop.events ev.fd).proc .readable = EV_TCP_CONNECT_CB := by
            rw [entry _ rfl]
            rfl
          rw [proc]
          exact inv.tried conn standing (.inr rfl) connect rfl own.symm EV_TCP_CONNECT_CB
      | writable =>
          have proc : (a.loop.events ev.fd).proc .writable = EV_TCP_WRITE_CB := by
            rw [entry _ rfl]
            rfl
          rw [proc]
          exact inv.wrote conn standing env rfl own.symm reported EV_TCP_WRITE_CB
  | waiting =>
      cases kind with
      | readable =>
          have proc : (a.loop.events ev.fd).proc .readable = EV_TCP_READ_CB := by
            rw [entry _ rfl]
            rfl
          rw [proc]
          exact inv.answered conn standing rfl own.symm reported EV_TCP_READ_CB
      | writable =>
          rw [entry _ rfl] at registered
          exact absurd (by decide : AE_READABLE &&& AE_WRITABLE = 0#32) registered
  | leaked =>
      have none := standing.unregistered rfl
      rw [own] at none
      rw [none] at registered
      exact absurd (by simp [AE_NONE]) registered
  | done => exact absurd (standing.closed.mpr rfl) unclosed

end Handlers

end AeEventLoop.TcpClient
