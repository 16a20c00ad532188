import AeEventLoop.Ae
import AeEventLoop.Ae2
import AeEventLoop.Ae3Map

/-! What `aeResizeSetSize` leaves alone, in all three event loops. The file part is one text; what
the three do to their timers is not: `ae.c` leaves them, `ae2.cpp` and `ae3.cpp` put an empty
container in place of the one they delete. That timers live on undisturbed is said of the timers
stored and of everything that timer calls and passes do afterwards. -/

namespace AeEventLoop

namespace FileTable

/-- What resizing relies on: `maxfd` lies inside the table and nothing is registered above it. -/
structure Capped (t : FileTable) : Prop where
  ge : -1 ≤ t.maxfd
  lt : t.maxfd < t.setsize
  above : ∀ i : ℕ, t.maxfd < i → t.aeGetFileEvents i = AE_NONE

/-- `t'` is `t` with room for `setsize` descriptors and otherwise unchanged. -/
structure Resized (t t' : FileTable) (setsize : Int) : Prop where
  size : t'.setsize = setsize
  maxfd : t'.maxfd = t.maxfd
  interest : t'.interest = t.interest
  registered : ∀ fd, t.aeGetFileEvents fd ≠ AE_NONE →
    (fd : Int) < setsize ∧ t'.events fd = t.events fd
  above : ∀ i : ℕ, t.maxfd < i → (i : Int) < setsize → (t'.events i).mask = AE_NONE

section Capped

variable {t : FileTable}

theorem Inv.capped (h : t.Inv) : t.Capped := ⟨h.maxfd_ge, h.maxfd_lt, h.above⟩

theorem aeGetFileEvents_update {t' : FileTable} {fd i : ℕ} {fe : FileEvent}
    (size : t'.setsize = t.setsize) (events : t'.events = Function.update t.events fd fe)
    (other : i ≠ fd) : t'.aeGetFileEvents i = t.aeGetFileEvents i := by
  simp only [aeGetFileEvents, size, events, Function.update_of_ne other]

theorem Capped.create (h : t.Capped) (fd : ℕ) (mask : Mask) (proc data : ℕ) (refuse : Bool) :
    (t.aeCreateFileEvent fd mask proc data refuse).2.Capped := by
  have low := h.ge
  have high := h.lt
  by_cases big : (fd : Int) ≥ t.setsize
  · rw [aeCreateFileEvent, if_pos big]
    exact h
  · by_cases failed : (t.aeApiAddEvent fd mask refuse).1 ≠ .ok
    · rw [aeCreateFileEvent, if_neg big]
      dsimp only
      rw [if_pos failed]
      exact ⟨low, high, h.above⟩
    · rw [aeCreateFileEvent, if_neg big]
      dsimp only
      rw [if_neg failed]
      refine ⟨?_, ?_, fun i hi => ?_⟩
      · change -1 ≤ if (fd : Int) > t.maxfd then (fd : Int) else t.maxfd
        split_ifs <;> omega
      · change (if (fd : Int) > t.maxfd then (fd : Int) else t.maxfd) < t.setsize
        split_ifs <;> omega
      · change (if (fd : Int) > t.maxfd then (fd : Int) else t.maxfd) < i at hi
        have past : t.maxfd < i ∧ i ≠ fd := by
          split_ifs at hi <;> omega
        exact Eq.trans (b := t.aeGetFileEvents i) (aeGetFileEvents_update rfl rfl past.2)
          (h.above i past.1)

theorem Capped.delete (h : t.Capped) (fd : ℕ) (mask : Mask) :
    (t.aeDeleteFileEvent fd mask).Capped := by
  by_cases none : (fd : Int) ≥ t.setsize ∨ (t.events fd).mask = AE_NONE
  · have same : t.aeDeleteFileEvent fd mask = t := by
      rw [aeDeleteFileEvent]
      rcases none with big | unused
      · rw [if_pos big]
      · simp only [unused, if_true, ite_self]
    rw [same]
    exact h
  · rw [not_or] at none
    have live : t.aeGetFileEvents fd ≠ AE_NONE := by
      rw [aeGetFileEvents_of_lt (not_le.mp none.1)]
      exact none.2
    have inside : ¬ t.maxfd < fd := fun past => live (h.above fd past)
    rw [aeDeleteFileEvent, if_neg none.1, if_neg none.2]
    dsimp only
    generalize (if mask &&& AE_WRITABLE ≠ 0 then mask ||| AE_BARRIER else mask) = gone
    split_ifs with last
    · obtain ⟨low, below, free, -⟩ := scanMaxfd_spec (Function.update t.events fd
        { t.events fd with mask := (t.events fd).mask &&& ~~~gone }) fd
      have high := h.lt
      have top : (fd : Int) = t.maxfd := last.1
      refine ⟨low, ?_, fun i hi => ?_⟩
      · change scanMaxfd _ fd < t.setsize
        exact below.trans (not_le.mp none.1)
      · rcases lt_trichotomy i fd with lower | rfl | higher
        · rw [aeGetFileEvents_of_lt (by change (i : Int) < t.setsize; omega)]
          exact free i hi lower
        · rw [aeGetFileEvents_of_lt (by change (i : Int) < t.setsize; omega)]
          change (Function.update t.events i _ i).mask = _
          rw [Function.update_self]
          exact last.2
        · have past : t.maxfd < i := by omega
          exact Eq.trans (b := t.aeGetFileEvents i) (aeGetFileEvents_update rfl rfl higher.ne')
            (h.above i past)
    · refine ⟨h.ge, h.lt, fun i hi => ?_⟩
      change t.maxfd < i at hi
      have other : i ≠ fd := by omega
      exact Eq.trans (b := t.aeGetFileEvents i) (aeGetFileEvents_update rfl rfl other)
        (h.above i hi)

theorem Capped.resized (h : t.Capped) (mem : Memory) {setsize : Int} (room : t.maxfd < setsize) :
    Resized t (t.realloc mem setsize) setsize where
  size := rfl
  maxfd := rfl
  interest := rfl
  registered fd live := by
    have inside : ¬ t.maxfd < fd := fun past => live (h.above fd past)
    have high := h.lt
    refine ⟨by omega, ?_⟩
    simp only [realloc]
    rw [if_neg (by omega), if_pos (by omega)]
  above i past below := by
    simp only [realloc]
    rw [if_pos ⟨past, below⟩]

theorem Capped.same (h : t.Capped) : Resized t t t.setsize where
  size := rfl
  maxfd := rfl
  interest := rfl
  registered fd live := by
    have inside : ¬ t.maxfd < fd := fun past => live (h.above fd past)
    have high := h.lt
    exact ⟨by omega, rfl⟩
  above i past below := by
    rw [← aeGetFileEvents_of_lt below]
    exact h.above i past

theorem Resized.capped {t' : FileTable} {setsize : Int} (h : t.Capped)
    (room : t.maxfd < setsize) (resized : Resized t t' setsize) : t'.Capped where
  ge := resized.maxfd ▸ h.ge
  lt := by
    rw [resized.maxfd, resized.size]
    exact room
  above i past := by
    rw [resized.maxfd] at past
    by_cases below : (i : Int) < t'.setsize
    · rw [aeGetFileEvents_of_lt below]
      exact resized.above i past (resized.size ▸ below)
    · exact aeGetFileEvents_of_ge (not_lt.mp below)

end Capped

end FileTable

def Op.OnTimers {κ : Type} : Op κ → Prop
  | .timer _ => True
  | .pass => True
  | _ => False

/-- A resize of `s` to `setsize` with the outcome `answer` changed the capacity and nothing else.
`files`, `timers` and `trace` read a loop whose steps are `move`. -/
structure OnlyCapacity {σ τ κ : Type} (files : σ → FileTable) (timers : σ → τ)
    (trace : σ → List (Event κ)) (move : σ → Op κ → σ → Prop) (s : σ) (setsize : Int)
    (answer : Int × σ) : Prop where
  answers : answer.1 = AE_ERR ∨ answer.1 = AE_OK
  refused : answer.1 = AE_ERR → answer.2 = s
  accepted : answer.1 = AE_OK → FileTable.Resized (files s) (files answer.2) setsize
  stored : timers answer.2 = timers s
  future : ∀ ops t, (∀ op ∈ ops, op.OnTimers) → WhileLoop.Path move s ops t →
    ∃ t', WhileLoop.Path move answer.2 ops t' ∧ trace t' = trace t ∧ timers t' = timers t

theorem ok_ne_err : AE_OK ≠ AE_ERR := by decide

theorem FileTable.Capped.resize {t : FileTable} (h : t.Capped) (mem : Memory) (setsize : Int) :
    (t.aeResizeSetSize mem setsize).2.Capped := by
  unfold FileTable.aeResizeSetSize
  split_ifs with same small
  · exact h
  · exact h
  · exact (h.resized mem (not_le.mp small)).capped h (not_le.mp small)

theorem FileTable.Capped.apply {t : FileTable} (h : t.Capped) (op : FileOp) :
    (op.apply t).Capped := by
  cases op with
  | create fd mask proc data refuse => exact h.create fd mask proc data refuse
  | delete fd mask => exact h.delete fd mask

inductive FileStep (t : FileTable) : FileTable → Prop
  | same : FileStep t t
  | file (op : FileOp) : FileStep t (op.apply t)
  | resize (mem : Memory) (setsize : Int) : FileStep t (t.aeResizeSetSize mem setsize).2

theorem FileStep.capped {t t' : FileTable} (h : FileStep t t') (capped : t.Capped) :
    t'.Capped := by
  cases h with
  | same => exact capped
  | file op => exact capped.apply op
  | resize mem setsize => exact capped.resize mem setsize

theorem Loop.create_files {κ : Type} {env : Env κ} {mem : Memory} {setsize : Int} {l : Loop κ}
    (h : Loop.create env mem setsize = some l) :
    FileTable.create mem setsize = some l.toFileTable := by
  obtain ⟨files, made, rfl⟩ := Option.map_eq_some_iff.mp h
  exact made

/-- The operations on the timers of a loop do not look at its files, and those on its files do what
`FileTable` says. -/
structure Framed {σ κ τ : Type} (files : σ → FileTable) (withFiles : FileTable → σ → σ)
    (timers : σ → τ) (trace : σ → List (Event κ)) (aeCreateEventLoop : Memory → Int → Option σ)
    (runCall : σ → TimerCall κ → σ) (aeResizeSetSize : Memory → σ → Int → Int × σ)
    (processTimeEvents : ℕ → σ → Option (σ × Int)) : Prop where
  own : ∀ s, withFiles (files s) s = s
  created : ∀ mem setsize s, aeCreateEventLoop mem setsize = some s →
    FileTable.create mem setsize = some (files s)
  call : ∀ f s call, runCall (withFiles f s) call = withFiles f (runCall s call)
  resized : ∀ mem s setsize, files (aeResizeSetSize mem s setsize).2 =
    ((files s).aeResizeSetSize mem setsize).2
  pass : ∀ f fuel s, processTimeEvents fuel (withFiles f s) =
    (processTimeEvents fuel s).map fun c => (withFiles f c.1, c.2)
  files : ∀ f s, files (withFiles f s) = f
  timers : ∀ f s, timers (withFiles f s) = timers s
  trace : ∀ f s, trace (withFiles f s) = trace s

namespace Framed

variable {σ κ τ : Type} {files : σ → FileTable} {withFiles : FileTable → σ → σ} {timers : σ → τ}
  {trace : σ → List (Event κ)} {aeCreateEventLoop : Memory → Int → Option σ}
  {runCall : σ → TimerCall κ → σ} {aeResizeSetSize : Memory → σ → Int → Int × σ}
  {processTimeEvents : ℕ → σ → Option (σ × Int)} {s t : σ} {setsize : Int} {answer : Int × σ}
  (framed : Framed files withFiles timers trace aeCreateEventLoop runCall aeResizeSetSize
    processTimeEvents)
include framed

theorem call_files (call : TimerCall κ) : files (runCall s call) = files s := by
  have same := framed.call (files s) s call
  rw [framed.own] at same
  rw [same, framed.files]

theorem pass_files {fuel : ℕ} {n : Int} (h : processTimeEvents fuel s = some (t, n)) :
    files t = files s := by
  have same := framed.pass (files s) fuel s
  rw [framed.own, h, Option.map_some] at same
  have here : t = withFiles (files s) t := congrArg Prod.fst (Option.some.inj same)
  rw [here, framed.files]

theorem step {apply : FileOp → σ → σ} (f : FileTable) {op : Op κ} (onTimers : op.OnTimers)
    (h : LoopStep runCall apply aeResizeSetSize processTimeEvents s op t) :
    LoopStep runCall apply aeResizeSetSize processTimeEvents (withFiles f s) op (withFiles f t) := by
  cases h with
  | timer call => exact framed.call f s call ▸ .timer _ call
  | file op => exact onTimers.elim
  | resize mem setsize => exact onTimers.elim
  | pass h => exact .pass ((framed.pass f _ s).trans (by rw [h]; rfl))

theorem fileStep {op : Op κ} (h : LoopStep runCall (fun op s => withFiles (op.apply (files s)) s)
    aeResizeSetSize processTimeEvents s op t) : FileStep (files s) (files t) := by
  cases h with
  | timer call => exact (framed.call_files call).symm ▸ .same
  | file op => exact (framed.files _ s).symm ▸ .file op
  | resize mem setsize => exact (framed.resized mem s setsize).symm ▸ .resize mem setsize
  | pass h => exact (framed.pass_files h).symm ▸ .same

theorem run_capped (run : WhileLoop.Reach
    (fun s => ∃ mem setsize, aeCreateEventLoop mem setsize = some s)
    (LoopStep runCall (fun op s => withFiles (op.apply (files s)) s) aeResizeSetSize
      processTimeEvents) (fun _ _ => True) s) : (files s).Capped := by
  refine run.invariant (fun s => (files s).Capped) ?_ ?_
  · rintro s ⟨mem, setsize, h⟩
    exact (FileTable.create_inv (framed.created mem setsize s h)).capped
  · exact fun s op t capped _ taken => (framed.fileStep taken).capped capped

/-- A resize that does to the files what `ae.c` does, and nothing to the rest, is as it should be. -/
theorem onlyCapacity {apply : FileOp → σ → σ} (capped : (files s).Capped) (mem : Memory)
    (eq : answer = (((files s).aeResizeSetSize mem setsize).1,
      withFiles ((files s).aeResizeSetSize mem setsize).2 s)) :
    OnlyCapacity files timers trace (LoopStep runCall apply aeResizeSetSize processTimeEvents) s
      setsize answer := by
  subst eq
  refine ⟨?_, ?_, ?_, framed.timers _ s, ?_⟩
  · unfold FileTable.aeResizeSetSize
    split_ifs
    · exact .inr rfl
    · exact .inl rfl
    · exact .inr rfl
  · unfold FileTable.aeResizeSetSize
    split_ifs
    · exact fun bad => absurd bad ok_ne_err
    · exact fun _ => framed.own s
    · exact fun bad => absurd bad ok_ne_err
  · rw [framed.files]
    unfold FileTable.aeResizeSetSize
    split_ifs with same small
    · exact fun _ => same ▸ capped.same
    · exact fun bad => absurd bad ok_ne_err.symm
    · exact fun _ => capped.resized mem (not_le.mp small)
  · intro ops t onTimers path
    obtain ⟨t', path', f, rfl⟩ := path.simulate (fun a b => ∃ f, b = withFiles f a)
      (fun a b op t related ok taken => by
        obtain ⟨f, rfl⟩ := related
        exact ⟨withFiles f t, framed.step f ok taken, f, rfl⟩)
      ⟨_, rfl⟩ onTimers
    exact ⟨_, path', framed.trace f t, framed.timers f t⟩

end Framed

namespace Ae2

open PriorityQueue

section Frame

variable {Q : Type} [PriorityQueue Q TimeEvent Earlier] {env : Env Int} {s t : EventLoop Q}

def withFiles (f : FileTable) (s : EventLoop Q) : EventLoop Q := { s with toFileTable := f }

theorem runCalls_withFiles (env : Env Int) (f : FileTable) (s : EventLoop Q)
    (calls : List (TimerCall Int)) :
    runCalls env (withFiles f s) calls = withFiles f (runCalls env s calls) :=
  List.foldl_hom (withFiles f) fun s call => by cases call <;> rfl

theorem runFinalizer_withFiles (env : Env Int) (f : FileTable) (s : EventLoop Q) (te : TimeEvent) :
    runFinalizer env (withFiles f s) te = withFiles f (runFinalizer env s te) := by
  unfold runFinalizer
  cases te.finalizerProc with
  | none => rfl
  | some _ => exact runCalls_withFiles env f (log s (.finalized te)) _

theorem popHead_withFiles (f : FileTable) (s : EventLoop Q) :
    popHead (withFiles f s) = withFiles f (popHead s) := by
  have heap : (withFiles f s).timeMinHead = s.timeMinHead := rfl
  simp only [popHead, heap]
  cases top s.timeMinHead <;> rfl

theorem runTimeProc_withFiles (env : Env Int) (f : FileTable) (s : EventLoop Q) (te : TimeEvent) :
    runTimeProc env (withFiles f s) te = withFiles f (runTimeProc env s te) :=
  congrArg (fun s => log s _) (runCalls_withFiles env f (log s (.called te)) _)

theorem fire_withFiles (env : Env Int) (f : FileTable) (s : EventLoop Q) (te : TimeEvent) :
    fire env (withFiles f s) te = withFiles f (fire env s te) := by
  have trace : (withFiles f s).trace = s.trace := rfl
  simp only [fire, trace, runTimeProc_withFiles, popHead_withFiles]
  split_ifs <;> rfl

theorem discard_withFiles (env : Env Int) (f : FileTable) (s : EventLoop Q) (te : TimeEvent) :
    discard env (withFiles f s) te = withFiles f (discard env s te) := by
  unfold discard
  rw [← popHead_withFiles, ← runFinalizer_withFiles]
  rfl

theorem passStep_withFiles (env : Env Int) (now : Int × Int) (f : FileTable)
    (c : EventLoop Q × Int) :
    passStep env now (withFiles f c.1, c.2) =
      (passStep env now c).map fun c => (withFiles f c.1, c.2) := by
  have heap : (withFiles f c.1).timeMinHead = c.1.timeMinHead := rfl
  simp only [passStep, heap]
  cases top c.1.timeMinHead with
  | none => rfl
  | some te =>
      dsimp only
      change (if te.id ∈ c.1.setDelTimeId then _ else _) = _
      split_ifs
      · exact congrArg (fun s => some (s, c.2)) (discard_withFiles env f (log c.1 _) te)
      · exact congrArg (fun s => some (s, c.2 + 1)) (fire_withFiles env f (log c.1 _) te)
      · rfl

theorem processTimeEvents_withFiles (env : Env Int) (f : FileTable) (fuel : ℕ) (s : EventLoop Q) :
    processTimeEvents env fuel (withFiles f s) =
      (processTimeEvents env fuel s).map fun c => (withFiles f c.1, c.2) :=
  WhileLoop.run_map _ (passStep_withFiles env _ f) fuel ({ s with tick := s.tick + 1 }, 0)

/-- What a timer is in `ae2.cpp`: an element of the queue, and perhaps a tombstone. -/
def timers (s : EventLoop Q) : Multiset TimeEvent × Finset Int :=
  (elems s.timeMinHead, s.setDelTimeId)

theorem framed (env : Env Int) : Framed (fun s : EventLoop Q => s.toFileTable) withFiles
    timers (fun s => s.trace) (aeCreateEventLoop env) (runCall env) aeResizeSetSize
    (processTimeEvents env) where
  own _ := rfl
  files _ _ := rfl
  timers _ _ := rfl
  trace _ _ := rfl
  created mem setsize s h := by
    obtain ⟨l, hl, rfl⟩ := Option.map_eq_some_iff.mp h
    exact Loop.create_files hl
  call f s call := runCalls_withFiles env f s [call]
  resized mem s setsize := by
    unfold aeResizeSetSize FileTable.aeResizeSetSize
    split_ifs <;> rfl
  pass := processTimeEvents_withFiles env

def ResizeFramed (env : Env Int) (mem : Memory) (s : EventLoop Q) (setsize : Int) : Prop :=
  OnlyCapacity (fun s : EventLoop Q => s.toFileTable) timers (fun s => s.trace) (Step env) s
    setsize (aeResizeSetSize mem s setsize)

theorem resizeFramed_iff (capped : s.toFileTable.Capped) (env : Env Int) (mem : Memory)
    (setsize : Int) :
    ResizeFramed env mem s setsize ↔
      setsize = s.setsize ∨ setsize ≤ s.maxfd ∨ elems s.timeMinHead = 0 ∧ s.setDelTimeId = ∅ := by
  constructor
  · intro only
    by_contra dropped
    rw [not_or, not_or] at dropped
    have stored := only.stored
    rw [aeResizeSetSize, if_neg dropped.1, if_neg dropped.2.1] at stored
    have queue : elems (empty : Q) = elems s.timeMinHead := congrArg Prod.fst stored
    have marks : ∅ = s.setDelTimeId := congrArg Prod.snd stored
    exact dropped.2.2 ⟨queue.symm.trans elems_empty, marks.symm⟩
  · intro kept
    refine (framed env).onlyCapacity capped mem ?_
    unfold aeResizeSetSize FileTable.aeResizeSetSize
    split_ifs with same small
    · rfl
    · rfl
    · obtain ⟨queue, marks⟩ := (kept.resolve_left same).resolve_left small
      rw [← eq_empty queue, ← marks]
      rfl

end Frame

end Ae2

namespace Ae3

open TimeEventMap

section Frame

variable {env : Env TimeEvent} {s t : EventLoop}

def withFiles (f : FileTable) (s : EventLoop) : EventLoop := { s with toFileTable := f }

def Pass.withFiles (f : FileTable) (c : Pass) : Pass := { c with loop := Ae3.withFiles f c.loop }

theorem runCalls_withFiles (env : Env TimeEvent) (f : FileTable) (s : EventLoop)
    (calls : List (TimerCall TimeEvent)) :
    runCalls env (withFiles f s) calls = withFiles f (runCalls env s calls) :=
  List.foldl_hom (withFiles f) fun s call => by cases call <;> rfl

theorem runTimeProc_withFiles (env : Env TimeEvent) (f : FileTable) (s : EventLoop)
    (te : TimeEvent) : runTimeProc env (withFiles f s) te = withFiles f (runTimeProc env s te) :=
  congrArg (fun s => log s _) (runCalls_withFiles env f (log s (.called te)) _)

theorem fire_withFiles (env : Env TimeEvent) (f : FileTable) (c : Pass) (mit : Int)
    (te : TimeEvent) : fire env (c.withFiles f) mit te = (fire env c mit te).withFiles f := by
  have trace : (withFiles f c.loop).trace = c.loop.trace := rfl
  have map : ∀ s, (withFiles f s).timeEventMap = s.timeEventMap := fun _ => rfl
  simp only [fire, Pass.withFiles, trace, runTimeProc_withFiles, map]
  cases (bucket (runTimeProc env c.loop te).timeEventMap mit).find? te.id with
  | none => rfl
  | some _ =>
      dsimp only
      split_ifs <;> rfl

theorem passStep_withFiles (env : Env TimeEvent) (lNow : Int) (f : FileTable) (c : Pass) :
    passStep env lNow (c.withFiles f) = (passStep env lNow c).map (Pass.withFiles f) := by
  have undef : (c.withFiles f).loop.undef = c.loop.undef := rfl
  have cursor : (c.withFiles f).cursor = c.cursor := rfl
  have map : (c.withFiles f).loop.timeEventMap = c.loop.timeEventMap := rfl
  simp only [passStep, undef, cursor, map]
  cases c.loop.undef with
  | true => rfl
  | false =>
      cases c.cursor with
      | outer mit =>
          cases mit with
          | none => rfl
          | some k =>
              simp only [Bool.false_eq_true, if_false]
              split_ifs <;> rfl
      | inner k sit =>
          cases sit with
          | none => rfl
          | some id =>
              simp only [Bool.false_eq_true, if_false]
              cases (bucket c.loop.timeEventMap k).find? id with
              | none => rfl
              | some te => exact congrArg some (fire_withFiles env f c k te)

theorem finish_withFiles (f : FileTable) (c : Pass) :
    finish (c.withFiles f) = (withFiles f (finish c).1, (finish c).2) := by
  have undef : (c.withFiles f).loop.undef = c.loop.undef := rfl
  simp only [finish, undef]
  split_ifs <;> rfl

theorem processTimeEvents_withFiles (env : Env TimeEvent) (f : FileTable) (fuel : ℕ)
    (s : EventLoop) :
    processTimeEvents env fuel (withFiles f s) =
      (processTimeEvents env fuel s).map fun c => (withFiles f c.1, c.2) := by
  have walk := WhileLoop.run_map _ (passStep_withFiles env (lNow env s) f) fuel (passStart s)
  have start : passStart (withFiles f s) = (passStart s).withFiles f := rfl
  have now : lNow env (withFiles f s) = lNow env s := rfl
  rw [processTimeEvents, start, now, walk, processTimeEvents, Option.map_map, Option.map_map]
  exact congrArg (fun g => Option.map g _) (funext (finish_withFiles f))

theorem framed (env : Env TimeEvent) : Framed (fun s : EventLoop => s.toFileTable) withFiles
    (fun s => timers s.timeEventMap) (fun s => s.trace) (aeCreateEventLoop env) (runCall env) aeResizeSetSize
    (processTimeEvents env) where
  own _ := rfl
  files _ _ := rfl
  timers _ _ := rfl
  trace _ _ := rfl
  created mem setsize s h := by
    obtain ⟨l, hl, rfl⟩ := Option.map_eq_some_iff.mp h
    exact Loop.create_files hl
  call f s call := runCalls_withFiles env f s [call]
  resized mem s setsize := by
    unfold aeResizeSetSize FileTable.aeResizeSetSize
    split_ifs <;> rfl
  pass := processTimeEvents_withFiles env

theorem runCalls_stocked (env : Env TimeEvent) (calls : List (TimerCall TimeEvent))
    {s : EventLoop} (stocked : Stocked s.timeEventMap) :
    Stocked (runCalls env s calls).timeEventMap := by
  induction calls generalizing s with
  | nil => exact stocked
  | cons call calls ih =>
      refine ih (s := runCall env s call) ?_
      cases call with
      | create ms proc data fin => exact stocked.insertTimer _
      | delete te => exact stocked.eraseTimer te

theorem runTimeProc_stocked (env : Env TimeEvent) (te : TimeEvent) {s : EventLoop}
    (stocked : Stocked s.timeEventMap) : Stocked (runTimeProc env s te).timeEventMap :=
  runCalls_stocked env _ (s := log s (.called te)) stocked

/-- The walk itself leaves the map alone; the callbacks it runs may not. -/
theorem passStep_map {lNow : Int} {c c' : Pass} (h : passStep env lNow c = some c') :
    c'.loop.timeEventMap = c.loop.timeEventMap ∨
      ∃ te, c'.loop.timeEventMap = (runTimeProc env c.loop te).timeEventMap := by
  unfold passStep at h
  split at h
  · cases h
  · split at h
    · cases h
    · split_ifs at h
      exact .inl (Option.some.inj h ▸ rfl)
    · split at h
      · exact .inl (Option.some.inj h ▸ rfl)
      · next te _ =>
          refine .inr ⟨te, ?_⟩
          rw [← Option.some.inj h, fire]
          dsimp only
          split
          · rfl
          · split_ifs <;> rfl
    · exact .inl (Option.some.inj h ▸ rfl)

theorem passStep_stocked {lNow : Int} {c c' : Pass} (stocked : Stocked c.loop.timeEventMap)
    (h : passStep env lNow c = some c') : Stocked c'.loop.timeEventMap := by
  rcases passStep_map h with same | ⟨te, same⟩
  · rw [same]
    exact stocked
  · rw [same]
    exact runTimeProc_stocked env te stocked

theorem run_stocked (run : Run env (fun _ _ => True) s) : Stocked s.timeEventMap := by
  refine WhileLoop.Reach.invariant (fun s => Stocked s.timeEventMap) ?_ ?_ run
  · rintro s ⟨mem, setsize, h⟩
    obtain ⟨l, hl, rfl⟩ := Option.map_eq_some_iff.mp h
    exact mapOk_empty.nonempty
  · intro s op t stocked _ step
    cases step with
    | timer call => exact runCalls_stocked env [call] stocked
    | file op => exact stocked
    | resize mem setsize =>
        unfold aeResizeSetSize
        split_ifs
        · exact stocked
        · exact stocked
        · exact mapOk_empty.nonempty
    | pass h =>
        obtain ⟨c, walked, finished⟩ := Option.map_eq_some_iff.mp h
        have walk : Stocked c.loop.timeEventMap := (WhileLoop.run_invariant
          (fun c => Stocked c.loop.timeEventMap) (fun _ => True)
          (fun a b stocked _ body => passStep_stocked stocked body) (fun _ _ => trivial)
          (show Stocked (passStart s).loop.timeEventMap from stocked) walked).1
        have after : t = (finish c).1 := congrArg Prod.fst finished.symm
        rw [after, finish]
        split_ifs
        · exact walk
        · exact (walk.foldl_erase _).foldl_insertTimer _

def ResizeFramed (env : Env TimeEvent) (mem : Memory) (s : EventLoop) (setsize : Int) : Prop :=
  OnlyCapacity (fun s : EventLoop => s.toFileTable) (fun s => timers s.timeEventMap)
    (fun s => s.trace) (Step env) s setsize (aeResizeSetSize mem s setsize)

theorem resizeFramed_iff (capped : s.toFileTable.Capped) (stocked : Stocked s.timeEventMap)
    (env : Env TimeEvent) (mem : Memory) (setsize : Int) :
    ResizeFramed env mem s setsize ↔
      setsize = s.setsize ∨ setsize ≤ s.maxfd ∨ timers s.timeEventMap = [] := by
  constructor
  · intro only
    by_contra dropped
    rw [not_or, not_or] at dropped
    have stored := only.stored
    rw [aeResizeSetSize, if_neg dropped.1, if_neg dropped.2.1] at stored
    exact dropped.2.2 stored.symm
  · intro kept
    refine (framed env).onlyCapacity capped mem ?_
    unfold aeResizeSetSize FileTable.aeResizeSetSize
    split_ifs with same small
    · rfl
    · rfl
    · have none := (kept.resolve_left same).resolve_left small
      rw [← stocked.eq_empty none]
      rfl

end Frame

end Ae3

namespace Ae

section Frame

variable {env : Env Int} {s t : EventLoop}

def withFiles (f : FileTable) (s : EventLoop) : EventLoop := { s with toFileTable := f }

def Pass.withFiles (f : FileTable) (c : Pass) : Pass := { c with loop := Ae.withFiles f c.loop }

theorem store_withFiles (f : FileTable) (s : EventLoop) (l : Option (LinkedStore TimeEvent)) :
    store (withFiles f s) l = withFiles f (store s l) := by
  cases l <;> rfl

theorem runCall_withFiles (env : Env Int) (f : FileTable) (s : EventLoop) (call : TimerCall Int) :
    runCall env (withFiles f s) call = withFiles f (runCall env s call) := by
  cases call with
  | create ms proc data fin =>
      exact congrArg (fun s => log s _) (store_withFiles f
        { s with timeEventNextId := s.timeEventNextId + 1, tick := s.tick + 1 } _)
  | delete id =>
      have list : (withFiles f s).timeEvents = s.timeEvents := rfl
      simp only [runCall, aeDeleteTimeEvent, list]
      cases s.timeEvents.search fun te => te.id = id with
      | none => rfl
      | some found =>
          cases found with
          | none => rfl
          | some p => exact congrArg (fun s => log s _) (store_withFiles f s _)

theorem runCalls_withFiles (env : Env Int) (f : FileTable) (s : EventLoop)
    (calls : List (TimerCall Int)) :
    runCalls env (withFiles f s) calls = withFiles f (runCalls env s calls) :=
  List.foldl_hom (withFiles f) (runCall_withFiles env f)

theorem runFinalizer_withFiles (env : Env Int) (f : FileTable) (s : EventLoop) (te : TimeEvent) :
    runFinalizer env (withFiles f s) te = withFiles f (runFinalizer env s te) := by
  unfold runFinalizer
  cases te.finalizerProc with
  | none => rfl
  | some _ => exact runCalls_withFiles env f (log s (.finalized te)) _

theorem runTimeProc_withFiles (env : Env Int) (f : FileTable) (s : EventLoop) (te : TimeEvent) :
    runTimeProc env (withFiles f s) te = withFiles f (runTimeProc env s te) :=
  congrArg (fun s => log s _) (runCalls_withFiles env f (log s (.called te)) _)

theorem advance_withFiles (f : FileTable) (c : Pass) (p : ℕ) :
    advance (c.withFiles f) p = (advance c p).withFiles f := by
  have list : (c.withFiles f).loop.timeEvents = c.loop.timeEvents := rfl
  simp only [advance, list]
  cases c.loop.timeEvents.cells p <;> rfl

theorem sweep_withFiles (env : Env Int) (f : FileTable) (c : Pass) (p : ℕ)
    (cell : Cell TimeEvent) : sweep env (c.withFiles f) p cell = (sweep env c p cell).withFiles f := by
  have list : (c.withFiles f).loop.timeEvents = c.loop.timeEvents := rfl
  have logged : ∀ s e, log (withFiles f s) e = withFiles f (log s e) := fun _ _ => rfl
  simp only [sweep, list]
  rw [show (c.withFiles f).loop = withFiles f c.loop from rfl, store_withFiles, logged,
    runFinalizer_withFiles]
  rfl

theorem rearm_withFiles (env : Env Int) (f : FileTable) (c : Pass) (p : ℕ) (te : TimeEvent)
    (retval : Int) :
    rearm env (c.withFiles f) p te retval = (rearm env c p te retval).withFiles f := by
  simp only [rearm]
  rw [← advance_withFiles]
  congr 1
  exact congrArg (fun s => ({ c with loop := log s _ } : Pass))
    (store_withFiles f { c.loop with tick := c.loop.tick + 1 } _)

theorem fire_withFiles (env : Env Int) (f : FileTable) (c : Pass) (p : ℕ) (te : TimeEvent) :
    fire env (c.withFiles f) p te = (fire env c p te).withFiles f := by
  have trace : (withFiles f c.loop).trace = c.loop.trace := rfl
  have list : ∀ s, (withFiles f s).timeEvents = s.timeEvents := fun _ => rfl
  simp only [fire, Pass.withFiles, trace, runTimeProc_withFiles, list]
  split_ifs
  · exact rearm_withFiles env f { c with
      loop := runTimeProc env c.loop te, processed := c.processed + 1 } p te _
  · rw [store_withFiles]

theorem passStep_withFiles (env : Env Int) (maxId : Int) (f : FileTable) (c : Pass) :
    passStep env maxId (c.withFiles f) = (passStep env maxId c).map (Pass.withFiles f) := by
  obtain ⟨s, te, processed⟩ := c
  have flag : (Pass.withFiles f ⟨s, te, processed⟩).loop.undef = s.undef := rfl
  have cursor : (Pass.withFiles f ⟨s, te, processed⟩).te = te := rfl
  have list : (Pass.withFiles f ⟨s, te, processed⟩).loop.timeEvents = s.timeEvents := rfl
  rw [passStep, passStep, flag, cursor, list]
  by_cases undef : s.undef = true
  · rw [if_pos undef, if_pos undef]
    rfl
  · rw [if_neg undef, if_neg undef]
    cases te with
    | none => rfl
    | some p =>
        dsimp only
        cases s.timeEvents.cells p with
        | none => rfl
        | some cell =>
            let now := aeGetTime (env.gettimeofday s.tick)
            let reached : Pass :=
              { loop := log { s with tick := s.tick + 1 } (.reached cell.val now)
                te := some p
                processed := processed }
            change (if cell.val.id = AE_DELETED_EVENT_ID then _ else if cell.val.id > maxId then _
              else if Due cell.val.deadline now then
                some (fire env (reached.withFiles f) p cell.val)
              else some (advance (reached.withFiles f) p)) = _
            split_ifs with marked new due
            · dsimp only
              rw [if_pos marked, sweep_withFiles]
              rfl
            · dsimp only
              rw [if_neg marked, if_pos new, advance_withFiles]
              rfl
            · dsimp only
              rw [if_neg marked, if_neg new, if_pos due, fire_withFiles]
              rfl
            · dsimp only
              rw [if_neg marked, if_neg new, if_neg due, advance_withFiles]
              rfl

theorem skew_withFiles (env : Env Int) (f : FileTable) (s : EventLoop) :
    skew env (withFiles f s) = withFiles f (skew env s) := by
  have tick : (withFiles f s).tick = s.tick := rfl
  have last : (withFiles f s).lastTime = s.lastTime := rfl
  have list : (withFiles f s).timeEvents = s.timeEvents := rfl
  simp only [skew, tick, last, list, store_withFiles]
  split_ifs <;> rfl

theorem processTimeEvents_withFiles (env : Env Int) (f : FileTable) (fuel : ℕ) (s : EventLoop) :
    processTimeEvents env fuel (withFiles f s) =
      (processTimeEvents env fuel s).map fun c => (withFiles f c.1, c.2) := by
  have walk := WhileLoop.run_map _ (passStep_withFiles env (s.timeEventNextId - 1) f) fuel
    (passStart env s)
  have start : passStart env (withFiles f s) = (passStart env s).withFiles f := by
    simp only [passStart, skew_withFiles]
    rfl
  rw [processTimeEvents, start, show (withFiles f s).timeEventNextId = s.timeEventNextId from rfl,
    walk, processTimeEvents, Option.map_map, Option.map_map]
  rfl

theorem framed (env : Env Int) : Framed (fun s : EventLoop => s.toFileTable) withFiles
    (fun s => s.timeEvents) (fun s => s.trace) (aeCreateEventLoop env) (runCall env) aeResizeSetSize
    (processTimeEvents env) where
  own _ := rfl
  files _ _ := rfl
  timers _ _ := rfl
  trace _ _ := rfl
  created mem setsize s h := by
    obtain ⟨l, hl, rfl⟩ := Option.map_eq_some_iff.mp h
    exact Loop.create_files hl
  call f s call := runCall_withFiles env f s call
  resized mem s setsize := by
    unfold aeResizeSetSize FileTable.aeResizeSetSize
    split_ifs <;> rfl
  pass := processTimeEvents_withFiles env

def ResizeFramed (env : Env Int) (mem : Memory) (s : EventLoop) (setsize : Int) : Prop :=
  OnlyCapacity (fun s : EventLoop => s.toFileTable) (fun s => s.timeEvents) (fun s => s.trace)
    (Step env) s setsize (aeResizeSetSize mem s setsize)

theorem resizeFramed (capped : s.toFileTable.Capped) (env : Env Int) (mem : Memory)
    (setsize : Int) : ResizeFramed env mem s setsize := by
  refine (framed env).onlyCapacity capped mem ?_
  unfold aeResizeSetSize FileTable.aeResizeSetSize
  split_ifs <;> rfl

end Frame

end Ae

/-- In every reachable state a resize of `ae.c` changes the capacity only; one of `ae2.cpp` or
`ae3.cpp` does exactly when it is refused, is for the size there is, or finds no timers. -/
theorem resize_framed_iff {Q : Type} [PriorityQueue Q TimeEvent Ae2.Earlier] :
    (∀ env (s : Ae.EventLoop), Ae.Run env (fun _ _ => True) s → ∀ mem setsize,
      Ae.ResizeFramed env mem s setsize) ∧
    (∀ env (s : Ae2.EventLoop Q), Ae2.Run env (fun _ _ => True) s → ∀ mem setsize,
      (Ae2.ResizeFramed env mem s setsize ↔ setsize = s.setsize ∨ setsize ≤ s.maxfd ∨
        PriorityQueue.elems s.timeMinHead = 0 ∧ s.setDelTimeId = ∅)) ∧
    ∀ env (s : Ae3.EventLoop), Ae3.Run env (fun _ _ => True) s → ∀ mem setsize,
      (Ae3.ResizeFramed env mem s setsize ↔ setsize = s.setsize ∨ setsize ≤ s.maxfd ∨
        s.timeEventMap.timers = []) :=
  ⟨fun env _ run mem setsize => Ae.resizeFramed ((Ae.framed env).run_capped run) env mem setsize,
    fun env _ run mem setsize => Ae2.resizeFramed_iff ((Ae2.framed env).run_capped run) env mem setsize,
    fun env _ run mem setsize =>
      Ae3.resizeFramed_iff ((Ae3.framed env).run_capped run) (Ae3.run_stocked run) env mem
        setsize⟩

/-- With a timer pending `ae.c` can be resized, the other two not. -/
theorem resize_framed_iff_pending :
    Ae.ResizeFramed (stillEnv Int) zeroedMemory
        (Ae.runCall (stillEnv Int) (Ae.fresh (stillEnv Int)) (.create 9 3 4 none)) 8 ∧
      ¬ Ae2.ResizeFramed (stillEnv Int) zeroedMemory
        (Ae2.runCall (stillEnv Int) (Ae2.fresh (stillEnv Int)) (.create 9 3 4 none)) 8 ∧
      ¬ Ae3.ResizeFramed (stillEnv TimeEvent) zeroedMemory
        (Ae3.runCall (stillEnv TimeEvent) (Ae3.fresh (stillEnv TimeEvent)) (.create 9 3 4 none)) 8 := by
  obtain ⟨ae, ae2, ae3⟩ := resize_framed_iff (Q := SortedQueue TimeEvent Ae2.Earlier)
  refine ⟨ae _ _ (.move (Ae.fresh_run _ _) trivial (.timer _ _)) _ _, ?_, ?_⟩
  · rw [ae2 _ _ (.move (Ae2.fresh_run _ _) trivial (.timer _ _))]
    decide
  · rw [ae3 _ _ (.move (Ae3.fresh_run _ _) trivial (.timer _ _))]
    decide

/-- A reachable state with one timer, which a resize from 4 to 8 drops. -/
theorem resize_framed_fails_pending :
    ¬ ((∀ env (s : Ae2.EventLoop (SortedQueue TimeEvent Ae2.Earlier)),
        Ae2.Run env (fun _ _ => True) s → ∀ mem setsize, Ae2.ResizeFramed env mem s setsize)) ∧
      ¬ (∀ env (s : Ae3.EventLoop), Ae3.Run env (fun _ _ => True) s → ∀ mem setsize,
        Ae3.ResizeFramed env mem s setsize) := by
  constructor
  · intro claimed
    have run : Ae2.Run (stillEnv Int) (fun _ _ => True)
        (Ae2.runCall (stillEnv Int) (Ae2.fresh (stillEnv Int)) (.create 9 3 4 none)) :=
      .move (Ae2.fresh_run _ _) trivial (.timer _ _)
    have kept := (claimed _ _ run zeroedMemory 8).stored
    have card := congrArg (fun x => Multiset.card x.1) kept
    revert card
    decide
  · intro claimed
    have run : Ae3.Run (stillEnv TimeEvent) (fun _ _ => True)
        (Ae3.runCall (stillEnv TimeEvent) (Ae3.fresh (stillEnv TimeEvent)) (.create 9 3 4 none)) :=
      .move (Ae3.fresh_run _ _) trivial (.timer _ _)
    have kept := (claimed _ _ run zeroedMemory 8).stored
    have length := congrArg List.length kept
    revert length
    decide

end AeEventLoop
