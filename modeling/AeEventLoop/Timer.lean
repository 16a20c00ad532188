import AeEventLoop.Clock
import AeEventLoop.FileTable
import AeEventLoop.History

/-! What the three event loops share: time events, the calls user code can make on them, the
world a loop runs in, and the record of what happened.

User code is arbitrary. A callback sees the whole history and its own record and answers with
the timer calls it makes, in order, and its return value; the finalizer likewise. Any program is
of this form: what it does next is a function of what has happened so far. Procedures and client
data are pointers, here numbers; a `NULL` finalizer is `none`.

The `k`-th reading of the clock is `gettimeofday k` (or `time k` for `time(NULL)`), and `tick`
counts the readings made. `trace` is the history: it is written by the model at the points where
the code calls user code or changes a timer store, and read by user code and by specifications. -/

namespace AeEventLoop

def AE_NOMORE : Int := -1
def AE_DELETED_EVENT_ID : Int := -1

structure TimeEvent where
  id : Int
  when_sec : Int
  when_ms : Int
  timeProc : ℕ
  finalizerProc : Option ℕ
  clientData : ℕ
deriving DecidableEq

namespace TimeEvent

def deadline (te : TimeEvent) : Int × Int := (te.when_sec, te.when_ms)

def setWhen (te : TimeEvent) (t : Int × Int) : TimeEvent :=
  { te with when_sec := t.1, when_ms := t.2 }

@[simp] theorem setWhen_id (te : TimeEvent) (t : Int × Int) : (te.setWhen t).id = te.id := rfl

@[simp] theorem setWhen_deadline (te : TimeEvent) (t : Int × Int) :
    (te.setWhen t).deadline = t := rfl

@[simp] theorem setWhen_finalizerProc (te : TimeEvent) (t : Int × Int) :
    (te.setWhen t).finalizerProc = te.finalizerProc := rfl

end TimeEvent

/-- A call of user code on the timers; `κ` is what names the timer to delete. -/
inductive TimerCall (κ : Type)
  | create (milliseconds : Int) (proc clientData : ℕ) (finalizerProc : Option ℕ)
  | delete (timer : κ)

structure Script (κ : Type) where
  calls : List (TimerCall κ)
  retval : Int

inductive Event (κ : Type)
  | created (te : TimeEvent)
  | deleted (timer : κ) (ret : Int)
  | reached (te : TimeEvent) (now : Int × Int)
  | called (te : TimeEvent)
  | returned (te : TimeEvent) (retval : Int)
  | rearmed (te : TimeEvent)
  | discarded (te : TimeEvent)
  | unlinked (te : TimeEvent)
  | popped (te : TimeEvent)
  | finalized (te : TimeEvent)
deriving DecidableEq

namespace Event

variable {κ : Type}

@[simp] def created? : Event κ → Option TimeEvent
  | created te => some te
  | _ => none

@[simp] def deleted? : Event κ → Option κ
  | deleted timer ret => if ret = AE_OK then some timer else none
  | _ => none

@[simp] def reached? : Event κ → Option (TimeEvent × (Int × Int))
  | reached te now => some (te, now)
  | _ => none

@[simp] def called? : Event κ → Option TimeEvent
  | called te => some te
  | _ => none

@[simp] def returned? : Event κ → Option (TimeEvent × Int)
  | returned te retval => some (te, retval)
  | _ => none

@[simp] def rearmed? : Event κ → Option TimeEvent
  | rearmed te => some te
  | _ => none

@[simp] def discarded? : Event κ → Option TimeEvent
  | discarded te => some te
  | _ => none

@[simp] def popped? : Event κ → Option TimeEvent
  | popped te => some te
  | _ => none

@[simp] def finalized? : Event κ → Option TimeEvent
  | finalized te => some te
  | _ => none

end Event

section Trace

variable {κ : Type}

theorem filterMap_cons_toList {β γ : Type} (f : β → Option γ) (b : β) (bs : List β) :
    (b :: bs).filterMap f = (f b).toList ++ bs.filterMap f := by
  rw [List.filterMap_cons]
  cases f b <;> rfl

def createdIn (tr : List (Event κ)) : List TimeEvent := tr.filterMap Event.created?
def deletedIn (tr : List (Event κ)) : List κ := tr.filterMap Event.deleted?
def reachedIn (tr : List (Event κ)) : List (TimeEvent × (Int × Int)) := tr.filterMap Event.reached?
def calledIn (tr : List (Event κ)) : List TimeEvent := tr.filterMap Event.called?
def returnedIn (tr : List (Event κ)) : List (TimeEvent × Int) := tr.filterMap Event.returned?
def rearmedIn (tr : List (Event κ)) : List TimeEvent := tr.filterMap Event.rearmed?
def discardedIn (tr : List (Event κ)) : List TimeEvent := tr.filterMap Event.discarded?
def poppedIn (tr : List (Event κ)) : List TimeEvent := tr.filterMap Event.popped?
def finalizedIn (tr : List (Event κ)) : List TimeEvent := tr.filterMap Event.finalized?

@[simp] theorem createdIn_nil : createdIn ([] : List (Event κ)) = [] := rfl

@[simp] theorem createdIn_cons (e : Event κ) (tr : List (Event κ)) :
    createdIn (e :: tr) = e.created?.toList ++ createdIn tr := filterMap_cons_toList _ _ _

@[simp] theorem createdIn_append (a b : List (Event κ)) :
    createdIn (a ++ b) = createdIn a ++ createdIn b := List.filterMap_append

@[simp] theorem deletedIn_nil : deletedIn ([] : List (Event κ)) = [] := rfl

@[simp] theorem deletedIn_cons (e : Event κ) (tr : List (Event κ)) :
    deletedIn (e :: tr) = e.deleted?.toList ++ deletedIn tr := filterMap_cons_toList _ _ _

@[simp] theorem deletedIn_append (a b : List (Event κ)) :
    deletedIn (a ++ b) = deletedIn a ++ deletedIn b := List.filterMap_append

@[simp] theorem reachedIn_nil : reachedIn ([] : List (Event κ)) = [] := rfl

@[simp] theorem reachedIn_cons (e : Event κ) (tr : List (Event κ)) :
    reachedIn (e :: tr) = e.reached?.toList ++ reachedIn tr := filterMap_cons_toList _ _ _

@[simp] theorem reachedIn_append (a b : List (Event κ)) :
    reachedIn (a ++ b) = reachedIn a ++ reachedIn b := List.filterMap_append

@[simp] theorem calledIn_nil : calledIn ([] : List (Event κ)) = [] := rfl

@[simp] theorem calledIn_cons (e : Event κ) (tr : List (Event κ)) :
    calledIn (e :: tr) = e.called?.toList ++ calledIn tr := filterMap_cons_toList _ _ _

@[simp] theorem calledIn_append (a b : List (Event κ)) :
    calledIn (a ++ b) = calledIn a ++ calledIn b := List.filterMap_append

@[simp] theorem returnedIn_nil : returnedIn ([] : List (Event κ)) = [] := rfl

@[simp] theorem returnedIn_cons (e : Event κ) (tr : List (Event κ)) :
    returnedIn (e :: tr) = e.returned?.toList ++ returnedIn tr := filterMap_cons_toList _ _ _

@[simp] theorem returnedIn_append (a b : List (Event κ)) :
    returnedIn (a ++ b) = returnedIn a ++ returnedIn b := List.filterMap_append

@[simp] theorem rearmedIn_nil : rearmedIn ([] : List (Event κ)) = [] := rfl

@[simp] theorem rearmedIn_cons (e : Event κ) (tr : List (Event κ)) :
    rearmedIn (e :: tr) = e.rearmed?.toList ++ rearmedIn tr := filterMap_cons_toList _ _ _

@[simp] theorem rearmedIn_append (a b : List (Event κ)) :
    rearmedIn (a ++ b) = rearmedIn a ++ rearmedIn b := List.filterMap_append

@[simp] theorem discardedIn_nil : discardedIn ([] : List (Event κ)) = [] := rfl

@[simp] theorem discardedIn_cons (e : Event κ) (tr : List (Event κ)) :
    discardedIn (e :: tr) = e.discarded?.toList ++ discardedIn tr := filterMap_cons_toList _ _ _

@[simp] theorem discardedIn_append (a b : List (Event κ)) :
    discardedIn (a ++ b) = discardedIn a ++ discardedIn b := List.filterMap_append

@[simp] theorem poppedIn_nil : poppedIn ([] : List (Event κ)) = [] := rfl

@[simp] theorem poppedIn_cons (e : Event κ) (tr : List (Event κ)) :
    poppedIn (e :: tr) = e.popped?.toList ++ poppedIn tr := filterMap_cons_toList _ _ _

@[simp] theorem poppedIn_append (a b : List (Event κ)) :
    poppedIn (a ++ b) = poppedIn a ++ poppedIn b := List.filterMap_append

@[simp] theorem finalizedIn_nil : finalizedIn ([] : List (Event κ)) = [] := rfl

@[simp] theorem finalizedIn_cons (e : Event κ) (tr : List (Event κ)) :
    finalizedIn (e :: tr) = e.finalized?.toList ++ finalizedIn tr := filterMap_cons_toList _ _ _

@[simp] theorem finalizedIn_append (a b : List (Event κ)) :
    finalizedIn (a ++ b) = finalizedIn a ++ finalizedIn b := List.filterMap_append

theorem mem_filterMap_of_inverse {α : Type} {f : Event κ → Option α} {g : α → Event κ}
    (inverse : ∀ e x, f e = some x ↔ e = g x) {tr : List (Event κ)} {x : α} :
    x ∈ tr.filterMap f ↔ g x ∈ tr := by
  rw [List.mem_filterMap]
  constructor
  · rintro ⟨e, he, h⟩
    rwa [(inverse e x).mp h] at he
  · intro h
    exact ⟨g x, h, (inverse (g x) x).mpr rfl⟩

theorem mem_createdIn {tr : List (Event κ)} {te : TimeEvent} :
    te ∈ createdIn tr ↔ .created te ∈ tr :=
  mem_filterMap_of_inverse fun e x => by cases e <;> simp

theorem mem_deletedIn {tr : List (Event κ)} {timer : κ} :
    timer ∈ deletedIn tr ↔ .deleted timer AE_OK ∈ tr :=
  mem_filterMap_of_inverse (g := fun timer => .deleted timer AE_OK) fun e x => by
    cases e with
    | deleted k ret => simp [and_comm]
    | _ => simp

theorem mem_reachedIn {tr : List (Event κ)} {te : TimeEvent} {now : Int × Int} :
    (te, now) ∈ reachedIn tr ↔ .reached te now ∈ tr :=
  mem_filterMap_of_inverse (g := fun p : TimeEvent × Int × Int => .reached p.1 p.2) fun e x => by
    cases e <;> simp [Prod.ext_iff]

theorem mem_calledIn {tr : List (Event κ)} {te : TimeEvent} :
    te ∈ calledIn tr ↔ .called te ∈ tr :=
  mem_filterMap_of_inverse fun e x => by cases e <;> simp

theorem mem_rearmedIn {tr : List (Event κ)} {te : TimeEvent} :
    te ∈ rearmedIn tr ↔ .rearmed te ∈ tr :=
  mem_filterMap_of_inverse fun e x => by cases e <;> simp

theorem mem_poppedIn {tr : List (Event κ)} {te : TimeEvent} :
    te ∈ poppedIn tr ↔ .popped te ∈ tr :=
  mem_filterMap_of_inverse fun e x => by cases e <;> simp

theorem mem_finalizedIn {tr : List (Event κ)} {te : TimeEvent} :
    te ∈ finalizedIn tr ↔ .finalized te ∈ tr :=
  mem_filterMap_of_inverse fun e x => by cases e <;> simp

/-- The events a timer call of user code leaves behind. -/
def UserEvent : Event κ → Prop
  | .created _ => True
  | .deleted _ _ => True
  | _ => False

theorem filterMap_of_user {β : Type} (f : Event κ → Option β) (blind : ∀ e, UserEvent e → f e = none)
    {tr : List (Event κ)} (user : ∀ e ∈ tr, UserEvent e) : tr.filterMap f = [] :=
  List.filterMap_eq_nil_iff.mpr fun e he => blind e (user e he)

section User

variable {tr : List (Event κ)} (user : ∀ e ∈ tr, UserEvent e)
include user

theorem reachedIn_of_user : reachedIn tr = [] :=
  filterMap_of_user _ (fun e he => by cases e <;> simp_all [UserEvent]) user

theorem calledIn_of_user : calledIn tr = [] :=
  filterMap_of_user _ (fun e he => by cases e <;> simp_all [UserEvent]) user

theorem returnedIn_of_user : returnedIn tr = [] :=
  filterMap_of_user _ (fun e he => by cases e <;> simp_all [UserEvent]) user

theorem rearmedIn_of_user : rearmedIn tr = [] :=
  filterMap_of_user _ (fun e he => by cases e <;> simp_all [UserEvent]) user

theorem discardedIn_of_user : discardedIn tr = [] :=
  filterMap_of_user _ (fun e he => by cases e <;> simp_all [UserEvent]) user

theorem poppedIn_of_user : poppedIn tr = [] :=
  filterMap_of_user _ (fun e he => by cases e <;> simp_all [UserEvent]) user

theorem finalizedIn_of_user : finalizedIn tr = [] :=
  filterMap_of_user _ (fun e he => by cases e <;> simp_all [UserEvent]) user

end User

theorem filterMap_map_rearmed {β : Type} (f : Event κ → Option β)
    (blind : ∀ te, f (.rearmed te) = none) (tes : List TimeEvent) :
    (tes.map Event.rearmed).filterMap f = [] := by
  refine List.filterMap_eq_nil_iff.mpr fun e he => ?_
  obtain ⟨te, -, rfl⟩ := List.mem_map.mp he
  exact blind te

section Rearmed

variable (tes : List TimeEvent)

@[simp] theorem createdIn_map_rearmed : createdIn (tes.map (Event.rearmed (κ := κ))) = [] :=
  filterMap_map_rearmed _ (fun _ => rfl) tes

@[simp] theorem deletedIn_map_rearmed : deletedIn (tes.map (Event.rearmed (κ := κ))) = [] :=
  filterMap_map_rearmed _ (fun _ => rfl) tes

@[simp] theorem reachedIn_map_rearmed : reachedIn (tes.map (Event.rearmed (κ := κ))) = [] :=
  filterMap_map_rearmed _ (fun _ => rfl) tes

@[simp] theorem calledIn_map_rearmed : calledIn (tes.map (Event.rearmed (κ := κ))) = [] :=
  filterMap_map_rearmed _ (fun _ => rfl) tes

@[simp] theorem returnedIn_map_rearmed : returnedIn (tes.map (Event.rearmed (κ := κ))) = [] :=
  filterMap_map_rearmed _ (fun _ => rfl) tes

@[simp] theorem discardedIn_map_rearmed : discardedIn (tes.map (Event.rearmed (κ := κ))) = [] :=
  filterMap_map_rearmed _ (fun _ => rfl) tes

@[simp] theorem poppedIn_map_rearmed : poppedIn (tes.map (Event.rearmed (κ := κ))) = [] :=
  filterMap_map_rearmed _ (fun _ => rfl) tes

@[simp] theorem finalizedIn_map_rearmed : finalizedIn (tes.map (Event.rearmed (κ := κ))) = [] :=
  filterMap_map_rearmed _ (fun _ => rfl) tes

@[simp] theorem rearmedIn_map_rearmed : rearmedIn (tes.map (Event.rearmed (κ := κ))) = tes := by
  induction tes with
  | nil => rfl
  | cons te tes ih => simp [ih]

end Rearmed

end Trace

structure Env (κ : Type) where
  gettimeofday : ℕ → Timeval
  time : ℕ → Int
  timeProc : List (Event κ) → TimeEvent → Script κ
  finalizerProc : List (Event κ) → TimeEvent → List (TimerCall κ)

/-- A clock that stands still and callbacks that end their timer, for concrete runs. -/
def stillEnv (κ : Type) : Env κ where
  gettimeofday _ := Timeval.ofMillis 5000
  time _ := 5
  timeProc _ _ := ⟨[], AE_NOMORE⟩
  finalizerProc _ _ := []

/-- The fields the three `aeEventLoop` structures have in common, with the ghost state. -/
structure Loop (κ : Type) extends FileTable where
  lastTime : Int
  timeEventNextId : Int
  tick : ℕ
  trace : List (Event κ)

namespace Loop

variable {κ : Type}

def create (env : Env κ) (mem : Memory) (setsize : Int) : Option (Loop κ) :=
  (FileTable.create mem setsize).map fun files =>
    { files with lastTime := env.time 0, timeEventNextId := 0, tick := 1, trace := [] }

def fresh (env : Env κ) : Loop κ where
  maxfd := -1
  setsize := 4
  events i := if (i : Int) < 4 then { zeroedMemory.events i with mask := AE_NONE }
    else zeroedMemory.events i
  fired := zeroedMemory.fired
  interest _ := none
  lastTime := env.time 0
  timeEventNextId := 0
  tick := 1
  trace := []

theorem create_eq_fresh (env : Env κ) : create env zeroedMemory 4 = some (fresh env) := rfl

/-- The record `aeCreateTimeEvent` fills in; it reads the clock once. -/
def newTimeEvent (env : Env κ) (s : Loop κ) (milliseconds : Int) (proc clientData : ℕ)
    (finalizerProc : Option ℕ) : TimeEvent :=
  let t := aeAddMillisecondsToNow (env.gettimeofday s.tick) milliseconds
  { id := s.timeEventNextId
    when_sec := t.1
    when_ms := t.2
    timeProc := proc
    finalizerProc := finalizerProc
    clientData := clientData }

end Loop

def Monotonic {κ : Type} (env : Env κ) : Prop :=
  ∀ i j, i ≤ j → (env.gettimeofday i).micros ≤ (env.gettimeofday j).micros

/-- The clock never goes back, and user code asks for no delay below zero. -/
structure Onward {κ : Type} (env : Env κ) : Prop where
  clock : Monotonic env
  creates : ∀ tr te ms proc data fin,
    TimerCall.create ms proc data fin ∈ (env.timeProc tr te).calls → 0 ≤ ms
  finals : ∀ tr te ms proc data fin,
    TimerCall.create ms proc data fin ∈ env.finalizerProc tr te → 0 ≤ ms
  returns : ∀ tr te, (env.timeProc tr te).retval = AE_NOMORE ∨ 0 ≤ (env.timeProc tr te).retval

theorem due_of_later {κ : Type} {env : Env κ} (clock : Monotonic env) {i j : ℕ} (hij : i ≤ j)
    {ms : Int} (hms : 0 ≤ ms) :
    Due (aeGetTime (env.gettimeofday i)) (aeAddMillisecondsToNow (env.gettimeofday j) ms) := by
  have order := millis_aeGetTime_mono (clock i j hij)
  rw [due_iff (aeGetTime_normal _) (aeAddMillisecondsToNow_normal _ hms),
    millis_aeAddMillisecondsToNow]
  omega

/-- A timer set under a clock that never goes back lies behind every earlier reading. -/
theorem millis_lt_of_later {κ : Type} {env : Env κ} (clock : Monotonic env) {i j : ℕ} (hij : i ≤ j)
    {ms : Int} (hms : 1 ≤ ms) :
    millis (aeGetTime (env.gettimeofday i)) <
      millis (aeAddMillisecondsToNow (env.gettimeofday j) ms) := by
  have order := millis_aeGetTime_mono (clock i j hij)
  rw [millis_aeAddMillisecondsToNow]
  omega

theorem not_due_of_later {κ : Type} {env : Env κ} (clock : Monotonic env) {i j : ℕ} (hij : i ≤ j)
    {ms : Int} (hms : 1 ≤ ms) :
    ¬ Due (aeAddMillisecondsToNow (env.gettimeofday j) ms) (aeGetTime (env.gettimeofday i)) := by
  rw [due_iff (aeAddMillisecondsToNow_normal _ (by omega)) (aeGetTime_normal _), not_le]
  exact millis_lt_of_later clock hij hms

/-- The deadlines of the timers that calls create when the clock has been read `tick` times. -/
def createdDeadlines {κ : Type} (env : Env κ) : ℕ → List (TimerCall κ) → List (Int × Int)
  | _, [] => []
  | tick, .create milliseconds _ _ _ :: calls =>
      aeAddMillisecondsToNow (env.gettimeofday tick) milliseconds ::
        createdDeadlines env (tick + 1) calls
  | tick, .delete _ :: calls => createdDeadlines env tick calls

/-- `t` is `s` after the timer calls `calls`, which wrote `seg` into the trace: what can be said of that
in all the loops alike. -/
structure Loop.Ran {κ : Type} (env : Env κ) (calls : List (TimerCall κ)) (s t : Loop κ)
    (seg : List (Event κ)) : Prop where
  trace : t.trace = s.trace ++ seg
  user : ∀ e ∈ seg, UserEvent e
  nextId : t.timeEventNextId = s.timeEventNextId + (createdIn seg).length
  newIds : ∀ te ∈ createdIn seg, s.timeEventNextId ≤ te.id ∧ te.id < t.timeEventNextId
  idsNodup : ((createdIn seg).map TimeEvent.id).Nodup
  origin : ∀ te ∈ createdIn seg, ∃ ms proc data fin, TimerCall.create ms proc data fin ∈ calls ∧
    ∃ k, s.tick ≤ k ∧ te.deadline = aeAddMillisecondsToNow (env.gettimeofday k) ms
  deadlines : (createdIn seg).map TimeEvent.deadline = createdDeadlines env s.tick calls
  tick : s.tick ≤ t.tick
  files : t.toFileTable = s.toFileTable

section Ran

variable {κ : Type} {env : Env κ} {calls : List (TimerCall κ)} {s t : Loop κ}
  {seg : List (Event κ)}

theorem Loop.Ran.nil (env : Env κ) (s : Loop κ) : Loop.Ran env [] s s [] where
  trace := by simp
  user := by simp
  nextId := by simp
  newIds := by simp
  idsNodup := by simp
  origin := by simp
  deadlines := rfl
  tick := le_refl _
  files := rfl

theorem Loop.Ran.cons_create (ms : Int) (proc data : ℕ) (fin : Option ℕ)
    (h : Loop.Ran env calls
      { s with
        timeEventNextId := s.timeEventNextId + 1
        tick := s.tick + 1
        trace := s.trace ++ [.created (s.newTimeEvent env ms proc data fin)] } t seg) :
    Loop.Ran env (.create ms proc data fin :: calls) s t
      (.created (s.newTimeEvent env ms proc data fin) :: seg) where
  trace := h.trace.trans (by simp)
  user := by simpa [UserEvent] using h.user
  nextId := by
    have := h.nextId
    simp only [createdIn_cons, Event.created?, Option.toList_some, List.singleton_append,
      List.length_cons] at this ⊢
    omega
  newIds := by
    have rest := h.newIds
    have next := h.nextId
    simp only [createdIn_cons, Event.created?, Option.toList_some, List.singleton_append,
      List.mem_cons] at rest next ⊢
    rintro te (rfl | hte)
    · exact ⟨le_refl _, by simp only [Loop.newTimeEvent]; omega⟩
    · exact ⟨by have := (rest te hte).1; omega, (rest te hte).2⟩
  idsNodup := by
    simp only [createdIn_cons, Event.created?, Option.toList_some, List.singleton_append,
      List.map_cons, List.nodup_cons, List.mem_map]
    refine ⟨?_, h.idsNodup⟩
    rintro ⟨te, hte, same⟩
    have := (h.newIds te hte).1
    simp only [same, Loop.newTimeEvent] at this
    omega
  origin := by
    simp only [createdIn_cons, Event.created?, Option.toList_some, List.singleton_append,
      List.mem_cons]
    rintro te (rfl | hte)
    · exact ⟨ms, proc, data, fin, .inl rfl, s.tick, le_refl _, rfl⟩
    · obtain ⟨ms', proc', data', fin', called, k, hk, eq⟩ := h.origin te hte
      exact ⟨ms', proc', data', fin', .inr called, k, (Nat.le_succ _).trans hk, eq⟩
  deadlines := by
    simp only [createdIn_cons, Event.created?, Option.toList_some, List.singleton_append,
      List.map_cons, h.deadlines]
    rfl
  tick := (Nat.le_succ _).trans h.tick
  files := h.files

theorem Loop.Ran.cons_delete (timer : κ) (ret : Int)
    (h : Loop.Ran env calls { s with trace := s.trace ++ [.deleted timer ret] } t seg) :
    Loop.Ran env (.delete timer :: calls) s t (.deleted timer ret :: seg) where
  trace := h.trace.trans (by simp)
  user := by simpa [UserEvent] using h.user
  nextId := h.nextId
  newIds := h.newIds
  idsNodup := h.idsNodup
  origin te hte := by
    obtain ⟨ms, proc, data, fin, called, rest⟩ := h.origin te hte
    exact ⟨ms, proc, data, fin, List.mem_cons_of_mem _ called, rest⟩
  deadlines := h.deadlines
  tick := h.tick
  files := h.files

end Ran

/-- One call from outside a pass: on a timer, on a file event, a resize, or a pass. -/
inductive Op (κ : Type)
  | timer (call : TimerCall κ)
  | file (op : FileOp)
  | resize (mem : Memory) (setsize : Int)
  | pass

/-- What the operations of a loop do, given what each kind of them does to its state. -/
inductive LoopStep {σ κ : Type} (runCall : σ → TimerCall κ → σ) (apply : FileOp → σ → σ)
    (aeResizeSetSize : Memory → σ → Int → Int × σ)
    (processTimeEvents : ℕ → σ → Option (σ × Int)) : σ → Op κ → σ → Prop
  | timer (s : σ) (call : TimerCall κ) :
      LoopStep runCall apply aeResizeSetSize processTimeEvents s (.timer call) (runCall s call)
  | file (s : σ) (op : FileOp) :
      LoopStep runCall apply aeResizeSetSize processTimeEvents s (.file op) (apply op s)
  | resize (s : σ) (mem : Memory) (setsize : Int) :
      LoopStep runCall apply aeResizeSetSize processTimeEvents s (.resize mem setsize)
        (aeResizeSetSize mem s setsize).2
  | pass {s t : σ} {fuel : ℕ} {processed : Int} : processTimeEvents fuel s = some (t, processed) →
      LoopStep runCall apply aeResizeSetSize processTimeEvents s .pass t

end AeEventLoop
