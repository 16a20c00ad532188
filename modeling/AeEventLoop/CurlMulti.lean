import AeEventLoop.FileRuns
import AeEventLoop.ProcessEvents
import Mathlib.Data.Finset.Basic

/-! `multiSocketCallback` of `socket_action_ae.cpp`, by which libcurl says what it wants to know about
its sockets. `aeCreateFileEvent` merges masks, so a request replaces the one before it only because
everything is deleted first.

The `CSockInfo` of a socket is never written to: an object is an address. `socketp` is libcurl's
side of the protocol: what `curl_multi_assign` has set for a socket, forgotten with the socket. -/

namespace AeEventLoop.CurlMulti

def CURL_POLL_IN : Mask := 1#32
def CURL_POLL_OUT : Mask := 2#32
def CURL_POLL_INOUT : Mask := 3#32
def CURL_POLL_REMOVE : Mask := 4#32

def EV_SOCK_CALLBACK : ℕ := 5

structure Multi where
  table : FileTable
  sockInfos : Finset ℕ
  fresh : ℕ
  socketp : ℕ → Option ℕ

def iMask (what : Mask) : Mask :=
  (if what &&& CURL_POLL_IN ≠ 0 then AE_READABLE else 0) |||
    (if what &&& CURL_POLL_OUT ≠ 0 then AE_WRITABLE else 0)

def multiSocketCallback (m : Multi) (s : ℕ) (what : Mask) (userp : ℕ) (socketp : Option ℕ) :
    Multi :=
  if what &&& CURL_POLL_REMOVE ≠ 0 then
    { m with
      table := m.table.aeDeleteFileEvent s (AE_READABLE ||| AE_WRITABLE)
      sockInfos := socketp.elim m.sockInfos m.sockInfos.erase }
  else
    let m :=
      match socketp with
      | none =>
          { m with
            sockInfos := insert m.fresh m.sockInfos
            fresh := m.fresh + 1
            socketp := Function.update m.socketp s (some m.fresh) }
      | some _ =>
          { m with
            table := m.table.aeDeleteFileEvent s (iMask what ||| AE_READABLE ||| AE_WRITABLE) }
    { m with table := (m.table.aeCreateFileEvent s (iMask what) EV_SOCK_CALLBACK userp false).2 }

inductive CurlPoll
  | input
  | output
  | both
  | remove
deriving DecidableEq

namespace CurlPoll

def what : CurlPoll → Mask
  | input => CURL_POLL_IN
  | output => CURL_POLL_OUT
  | both => CURL_POLL_INOUT
  | remove => CURL_POLL_REMOVE

/-- The mask that a socket with this last request should have. -/
def wanted : Option CurlPoll → Mask
  | some input => AE_READABLE
  | some output => AE_WRITABLE
  | some both => AE_READABLE ||| AE_WRITABLE
  | _ => AE_NONE

def Live (last : Option CurlPoll) : Prop := ∃ poll, last = some poll ∧ poll ≠ .remove

end CurlPoll

open CurlPoll

/-- A call made by libcurl: it passes what was assigned to the socket, and forgets the socket after
`CURL_POLL_REMOVE`. -/
def request (userp : ℕ) (m : Multi) (r : ℕ × CurlPoll) : Multi :=
  let m' := multiSocketCallback m r.1 r.2.what userp (m.socketp r.1)
  if r.2 = .remove then { m' with socketp := Function.update m'.socketp r.1 none } else m'

def start (t : FileTable) : Multi := ⟨t, ∅, 0, fun _ => none⟩

def lastRequest (requests : List (ℕ × CurlPoll)) : ℕ → Option CurlPoll :=
  requests.foldl (fun last r => Function.update last r.1 (some r.2)) fun _ => none

/-- Registrations, kernel and objects are as the last requests say. -/
structure Mirrors (m : Multi) (last : ℕ → Option CurlPoll) : Prop where
  masks : ∀ s, m.table.aeGetFileEvents s = wanted (last s)
  handlers : ∀ s kind, wanted (last s) &&& kind.bit ≠ 0 →
    (m.table.events s).proc kind = EV_SOCK_CALLBACK
  interest : ∀ s, m.table.interest s =
    if wanted (last s) = AE_NONE then none else some (epollEvents (wanted (last s)))
  owns : ∀ s, Live (last s) → ∃ p ∈ m.sockInfos, m.socketp s = some p ∧
    ∀ s', m.socketp s' = some p → s' = s
  owned : ∀ p ∈ m.sockInfos, ∃ s, Live (last s) ∧ m.socketp s = some p

/-- The registrations and the kernel's set are as the last requests say. -/
structure Registered (t : FileTable) (last : ℕ → Option CurlPoll) : Prop where
  files : t.Inv
  masks : ∀ s, t.aeGetFileEvents s = wanted (last s)
  handlers : ∀ s kind, wanted (last s) &&& kind.bit ≠ 0 →
    (t.events s).proc kind = EV_SOCK_CALLBACK

/-- The objects belong to the live sockets, one to each. -/
structure Objects (sockInfos : Finset ℕ) (fresh : ℕ) (socketp : ℕ → Option ℕ)
    (last : ℕ → Option CurlPoll) : Prop where
  low : ∀ p ∈ sockInfos, p < fresh
  live : ∀ s, (socketp s).isSome ↔ Live (last s)
  stored : ∀ s p, socketp s = some p → p ∈ sockInfos
  apart : ∀ s s' p, socketp s = some p → socketp s' = some p → s' = s
  owned : ∀ p ∈ sockInfos, ∃ s, socketp s = some p

section Wanted

theorem wanted_of_not_live {last : Option CurlPoll} (dead : ¬ Live last) :
    wanted last = AE_NONE := by
  cases last with
  | none => rfl
  | some poll =>
      cases poll with
      | remove => rfl
      | _ => exact absurd ⟨_, rfl, by decide⟩ dead

theorem wanted_eq_iMask {poll : CurlPoll} (kept : poll ≠ .remove) :
    wanted (some poll) = iMask poll.what := by
  cases poll with
  | remove => exact absurd rfl kept
  | _ => decide

theorem wanted_ne_none {poll : CurlPoll} (kept : poll ≠ .remove) :
    wanted (some poll) ≠ AE_NONE := by
  cases poll with
  | remove => exact absurd rfl kept
  | _ => decide

theorem wanted_cleared (last : Option CurlPoll) (poll : CurlPoll) :
    wanted last &&& ~~~FileTable.delmask (AE_READABLE ||| AE_WRITABLE) = AE_NONE ∧
      wanted last &&&
        ~~~FileTable.delmask (iMask poll.what ||| AE_READABLE ||| AE_WRITABLE) = AE_NONE := by
  cases last with
  | none => cases poll <;> decide
  | some before => cases before <;> cases poll <;> decide

end Wanted

section Table

variable {t u : FileTable} {last : ℕ → Option CurlPoll} {s : ℕ}

theorem Registered.change (registered : Registered t last) (files : u.Inv)
    (setsize : u.setsize = t.setsize) (others : ∀ i, i ≠ s → u.events i = t.events i)
    (lt : (s : Int) < t.setsize) {poll : CurlPoll}
    (mask : (u.events s).mask = wanted (some poll))
    (handlers : ∀ kind, wanted (some poll) &&& kind.bit ≠ 0 →
      (u.events s).proc kind = EV_SOCK_CALLBACK) :
    Registered u (Function.update last s (some poll)) := by
  refine ⟨files, fun i => ?_, fun i kind set => ?_⟩
  · by_cases same : i = s
    · rw [same, Function.update_self, FileTable.aeGetFileEvents_of_lt (setsize.symm ▸ lt)]
      exact mask
    · rw [Function.update_of_ne same, ← registered.masks i, FileTable.aeGetFileEvents,
        FileTable.aeGetFileEvents, setsize, others i same]
  · by_cases same : i = s
    · rw [same, Function.update_self] at set
      rw [same]
      exact handlers kind set
    · rw [Function.update_of_ne same] at set
      rw [others i same]
      exact registered.handlers i kind set

theorem Registered.removed (registered : Registered t last) (lt : (s : Int) < t.setsize) :
    Registered (t.aeDeleteFileEvent s (AE_READABLE ||| AE_WRITABLE))
      (Function.update last s (some .remove)) := by
  have events := FileTable.aeDeleteFileEvent_events registered.files lt (AE_READABLE ||| AE_WRITABLE)
  refine registered.change (FileTable.aeDeleteFileEvent_inv registered.files _ _)
    (FileTable.aeDeleteFileEvent_setsize _ _ _) (fun i other => ?_) lt ?_ fun kind set => ?_
  · rw [events, Function.update_of_ne other]
  · rw [events, Function.update_self]
    dsimp only
    rw [← FileTable.aeGetFileEvents_of_lt lt, registered.masks]
    exact (wanted_cleared (last s) .remove).1
  · exact absurd (by simp [wanted, AE_NONE]) set

theorem Registered.created (registered : Registered t last) (files : u.Inv)
    (setsize : u.setsize = t.setsize) (others : ∀ i, i ≠ s → u.events i = t.events i)
    (lt : (s : Int) < t.setsize) (empty : (u.events s).mask = AE_NONE) {poll : CurlPoll}
    (kept : poll ≠ .remove) (userp : ℕ) :
    Registered (u.aeCreateFileEvent s (iMask poll.what) EV_SOCK_CALLBACK userp false).2
      (Function.update last s (some poll)) := by
  have lt' : (s : Int) < u.setsize := setsize.symm ▸ lt
  rw [FileTable.aeCreateFileEvent_below files lt']
  have set : iMask poll.what ≠ AE_NONE := wanted_eq_iMask kept ▸ wanted_ne_none kept
  refine registered.change (FileTable.register_inv files lt' set _ _) setsize (fun i other => ?_) lt
    ?_ fun kind reported => ?_
  · exact (Function.update_of_ne other _ _).trans (others i other)
  · simp only [FileTable.register, Function.update_self]
    rw [empty, wanted_eq_iMask kept]
    exact BitVec.zero_or
  · rw [wanted_eq_iMask kept] at reported
    simp only [FileTable.register, Function.update_self]
    cases kind with
    | readable => exact if_pos reported
    | writable => exact if_pos reported

theorem Registered.requested (registered : Registered t last) (lt : (s : Int) < t.setsize)
    {poll : CurlPoll} (kept : poll ≠ .remove) (userp : ℕ) {first : Bool}
    (dead : first = true → ¬ Live (last s)) :
    let u := if first then t else
      t.aeDeleteFileEvent s (iMask poll.what ||| AE_READABLE ||| AE_WRITABLE)
    Registered (u.aeCreateFileEvent s (iMask poll.what) EV_SOCK_CALLBACK userp false).2
      (Function.update last s (some poll)) := by
  cases first with
  | true =>
      refine registered.created registered.files rfl (fun _ _ => rfl) lt ?_ kept userp
      rw [← FileTable.aeGetFileEvents_of_lt lt, registered.masks]
      exact wanted_of_not_live (dead rfl)
  | false =>
      have events := FileTable.aeDeleteFileEvent_events registered.files lt
        (iMask poll.what ||| AE_READABLE ||| AE_WRITABLE)
      refine registered.created (FileTable.aeDeleteFileEvent_inv registered.files _ _)
        (FileTable.aeDeleteFileEvent_setsize _ _ _) (fun i other => ?_) lt ?_ kept userp
      · rw [events, Function.update_of_ne other]
      · rw [events, Function.update_self]
        dsimp only
        rw [← FileTable.aeGetFileEvents_of_lt lt, registered.masks]
        exact (wanted_cleared (last s) poll).2

end Table

section Objects

variable {sockInfos : Finset ℕ} {fresh : ℕ} {socketp : ℕ → Option ℕ} {last : ℕ → Option CurlPoll}
  {s : ℕ}

theorem live_some {poll : CurlPoll} : Live (some poll) ↔ poll ≠ .remove := by
  constructor
  · rintro ⟨other, same, kept⟩
    rwa [Option.some.inj same]
  · intro kept
    exact ⟨poll, rfl, kept⟩

theorem Objects.again (objects : Objects sockInfos fresh socketp last) {poll : CurlPoll}
    (kept : poll ≠ .remove) {p : ℕ} (assigned : socketp s = some p) :
    Objects sockInfos fresh socketp (Function.update last s (some poll)) := by
  refine ⟨objects.low, fun i => ?_, objects.stored, objects.apart, objects.owned⟩
  by_cases same : i = s
  · rw [same, Function.update_self, live_some]
    exact iff_of_true (by simp [assigned]) kept
  · rw [Function.update_of_ne same]
    exact objects.live i

theorem Objects.allocated (objects : Objects sockInfos fresh socketp last) {poll : CurlPoll}
    (kept : poll ≠ .remove) (unassigned : socketp s = none) :
    Objects (insert fresh sockInfos) (fresh + 1) (Function.update socketp s (some fresh))
      (Function.update last s (some poll)) := by
  have new : ∀ i, socketp i ≠ some fresh := fun i same =>
    absurd (objects.low _ (objects.stored i _ same)) (lt_irrefl _)
  refine ⟨fun p hp => ?_, fun i => ?_, fun i p => ?_, fun i i' p => ?_, fun p hp => ?_⟩
  · rcases Finset.mem_insert.mp hp with rfl | old
    · exact Nat.lt_succ_self _
    · exact (objects.low p old).trans (Nat.lt_succ_self _)
  · by_cases same : i = s
    · rw [same, Function.update_self, Function.update_self, live_some]
      exact iff_of_true rfl kept
    · rw [Function.update_of_ne same, Function.update_of_ne same]
      exact objects.live i
  · intro here
    by_cases same : i = s
    · rw [same, Function.update_self] at here
      rw [← Option.some.inj here]
      exact Finset.mem_insert_self _ _
    · rw [Function.update_of_ne same] at here
      exact Finset.mem_insert_of_mem (objects.stored i p here)
  · intro here there
    by_cases same : i = s
    · by_cases same' : i' = s
      · rw [same, same']
      · rw [same, Function.update_self] at here
        rw [Function.update_of_ne same', ← here] at there
        exact absurd there (new i')
    · rw [Function.update_of_ne same] at here
      by_cases same' : i' = s
      · rw [same', Function.update_self, ← here] at there
        exact absurd there.symm (new i)
      · rw [Function.update_of_ne same'] at there
        exact objects.apart i i' p here there
  · rcases Finset.mem_insert.mp hp with rfl | old
    · exact ⟨s, Function.update_self _ _ _⟩
    · obtain ⟨i, assigned⟩ := objects.owned p old
      have other : i ≠ s := by
        rintro rfl
        rw [unassigned] at assigned
        cases assigned
      exact ⟨i, (Function.update_of_ne other _ _).trans assigned⟩

theorem Objects.removed (objects : Objects sockInfos fresh socketp last) (s : ℕ) :
    Objects ((socketp s).elim sockInfos sockInfos.erase) fresh (Function.update socketp s none)
      (Function.update last s (some .remove)) := by
  have kept : ∀ p, p ∈ (socketp s).elim sockInfos sockInfos.erase ↔
      p ∈ sockInfos ∧ socketp s ≠ some p := by
    intro p
    cases mine : socketp s with
    | none => simp
    | some q =>
        simp only [Option.elim_some, Finset.mem_erase, ne_eq, Option.some.injEq]
        rw [and_comm, eq_comm]
  refine ⟨fun p hp => objects.low p ((kept p).mp hp).1, fun i => ?_, fun i p => ?_,
    fun i i' p => ?_, fun p hp => ?_⟩
  · by_cases same : i = s
    · rw [same, Function.update_self, Function.update_self, live_some]
      simp
    · rw [Function.update_of_ne same, Function.update_of_ne same]
      exact objects.live i
  · intro here
    by_cases same : i = s
    · rw [same, Function.update_self] at here
      cases here
    · rw [Function.update_of_ne same] at here
      exact (kept p).mpr ⟨objects.stored i p here,
        fun mine => same (objects.apart s i p mine here)⟩
  · intro here there
    by_cases same : i = s
    · rw [same, Function.update_self] at here
      cases here
    · by_cases same' : i' = s
      · rw [same', Function.update_self] at there
        cases there
      · rw [Function.update_of_ne same] at here
        rw [Function.update_of_ne same'] at there
        exact objects.apart i i' p here there
  · obtain ⟨old, other⟩ := (kept p).mp hp
    obtain ⟨i, assigned⟩ := objects.owned p old
    have ne : i ≠ s := by
      rintro rfl
      exact other assigned
    exact ⟨i, (Function.update_of_ne ne _ _).trans assigned⟩

end Objects

section Requests

variable {m : Multi} {last : ℕ → Option CurlPoll}

structure Inv (m : Multi) (last : ℕ → Option CurlPoll) : Prop where
  registered : Registered m.table last
  objects : Objects m.sockInfos m.fresh m.socketp last

theorem Inv.mirrors (inv : Inv m last) : Mirrors m last where
  masks := inv.registered.masks
  handlers := inv.registered.handlers
  interest s := by
    rw [inv.registered.files.interest, inv.registered.masks]
  owns s live := by
    obtain ⟨p, assigned⟩ := Option.isSome_iff_exists.mp ((inv.objects.live s).mpr live)
    exact ⟨p, inv.objects.stored s p assigned, assigned,
      fun s' => inv.objects.apart s s' p assigned⟩
  owned p hp := by
    obtain ⟨s, assigned⟩ := inv.objects.owned p hp
    exact ⟨s, (inv.objects.live s).mp (by simp [assigned]), assigned⟩

theorem callback_remove (m : Multi) (s userp : ℕ) (socketp : Option ℕ) :
    multiSocketCallback m s CURL_POLL_REMOVE userp socketp =
      { m with
        table := m.table.aeDeleteFileEvent s (AE_READABLE ||| AE_WRITABLE)
        sockInfos := socketp.elim m.sockInfos m.sockInfos.erase } := if_pos (by decide)

theorem Inv.called (inv : Inv m last) (userp : ℕ) {s : ℕ} (lt : (s : Int) < m.table.setsize)
    (poll : CurlPoll) :
    Inv (request userp m (s, poll)) (Function.update last s (some poll)) ∧
      (request userp m (s, poll)).table.setsize = m.table.setsize := by
  by_cases removed : poll = .remove
  · have eq : request userp m (s, .remove) =
        { m with
          table := m.table.aeDeleteFileEvent s (AE_READABLE ||| AE_WRITABLE)
          sockInfos := (m.socketp s).elim m.sockInfos m.sockInfos.erase
          socketp := Function.update m.socketp s none } := by
      have call := callback_remove m s userp (m.socketp s)
      simp only [request, if_true, what, call]
    rw [removed, eq]
    exact ⟨⟨inv.registered.removed lt, inv.objects.removed s⟩,
      FileTable.aeDeleteFileEvent_setsize _ _ _⟩
  · have quiet : ¬ poll.what &&& CURL_POLL_REMOVE ≠ 0 := by
      cases poll with
      | remove => exact absurd rfl removed
      | _ => decide
    simp only [request, multiSocketCallback, if_neg removed, if_neg quiet]
    cases assigned : m.socketp s with
    | none =>
        have dead : ¬ Live (last s) := by
          rw [← inv.objects.live s, assigned]
          simp
        refine ⟨⟨@Registered.requested _ _ _ inv.registered lt _ removed userp true fun _ => dead,
          inv.objects.allocated removed assigned⟩, ?_⟩
        exact FileTable.aeCreateFileEvent_setsize _ _ _ _ _ _
    | some p =>
        refine ⟨⟨@Registered.requested _ _ _ inv.registered lt _ removed userp false (by simp),
          inv.objects.again removed assigned⟩, ?_⟩
        exact (FileTable.aeCreateFileEvent_setsize _ _ _ _ _ _).trans
          (FileTable.aeDeleteFileEvent_setsize _ _ _)

theorem Inv.run (inv : Inv m last) (userp : ℕ) (requests : List (ℕ × CurlPoll))
    (below : ∀ r ∈ requests, (r.1 : Int) < m.table.setsize) :
    Inv (requests.foldl (request userp) m)
      (requests.foldl (fun last r => Function.update last r.1 (some r.2)) last) := by
  induction requests generalizing m last with
  | nil => exact inv
  | cons r requests ih =>
      obtain ⟨next, setsize⟩ := inv.called userp (below r List.mem_cons_self) r.2
      refine ih next fun r' hr' => ?_
      rw [setsize]
      exact below r' (List.mem_cons_of_mem r hr')

/-- After every sequence of calls, for any number of sockets and in any order, registrations, kernel
and objects mirror what libcurl asked for last. -/
theorem requests_mirrored {mem : Memory} {setsize : Int} {t : FileTable}
    (made : FileTable.create mem setsize = some t) (userp : ℕ) (requests : List (ℕ × CurlPoll))
    (below : ∀ r ∈ requests, (r.1 : Int) < setsize) :
    Mirrors (requests.foldl (request userp) (start t)) (lastRequest requests) := by
  have files := FileTable.create_inv made
  obtain ⟨size, kernel⟩ : t.setsize = setsize ∧ ∀ s, t.interest s = none := by
    unfold FileTable.create at made
    split_ifs at made
    obtain rfl := Option.some.inj made
    exact ⟨rfl, fun _ => rfl⟩
  have first : Inv (start t) fun _ => none := by
    refine ⟨⟨files, fun s => ?_, fun s kind set => absurd (by simp [wanted, AE_NONE]) set⟩,
      ⟨by simp [start], fun s => ?_, by simp [start], by simp [start], by simp [start]⟩⟩
    · have known := files.interest s
      rw [kernel s] at known
      by_contra live
      change t.aeGetFileEvents s ≠ AE_NONE at live
      rw [if_neg live] at known
      cases known
    · exact iff_of_false (by simp [start]) (by simp [Live])
  exact (first.run userp requests fun r hr => size.symm ▸ below r hr).mirrors

/-- Narrowing a request, removing a socket and asking about it again. -/
theorem requests_mirrored_narrowed :
    ∃ t, FileTable.create zeroedMemory 8 = some t ∧
      Mirrors ([(3, CurlPoll.both), (5, .output), (3, .input), (5, .remove), (5, .input)].foldl
        (request 7) (start t)) (lastRequest
          [(3, CurlPoll.both), (5, .output), (3, .input), (5, .remove), (5, .input)]) ∧
      ([(3, CurlPoll.both), (5, .output), (3, .input), (5, .remove), (5, .input)].foldl
        (request 7) (start t)).table.aeGetFileEvents 3 = AE_READABLE :=
  ⟨_, rfl, @requests_mirrored zeroedMemory 8 _ rfl 7 _ (by decide), by decide⟩

end Requests

end AeEventLoop.CurlMulti
