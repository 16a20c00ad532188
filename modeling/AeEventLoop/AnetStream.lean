import AeEventLoop.WhileLoop
import Mathlib.Data.List.Forall2
import Mathlib.Tactic.SplitIfs

/-! `anetWrite` at one end of a stream and `anetRead` at the other, one system call at a time and in
any order, with as many calls as the two sides like. Between the two there are bytes under way. A
call may be cut short by an error or, when reading, by the end of the stream, but no byte is lost,
doubled or moved. -/

namespace AeEventLoop.AnetStream

open WhileLoop

/-- The locals of either function. `mem` is the memory that `buf` points into, which at the call was
`before`. -/
structure Locals where
  before : List UInt8
  mem : List UInt8
  buf : ℕ
  count : Int
  totlen : Int

structure Call where
  before : List UInt8
  after : List UInt8
  count : Int
  result : Int
  deriving DecidableEq

def Locals.returns (l : Locals) (result : Int) : Call := ⟨l.before, l.mem, l.count, result⟩

structure Stream where
  pipe : List UInt8
  hungUp : Bool
  writer : Option Locals
  reader : Option Locals
  writes : List Call
  reads : List Call

def opened : Stream := ⟨[], false, none, none, [], []⟩

/-- How the loops treat the answer of a system call, the same in both functions: either they return,
or they move on. -/
def Locals.turn (l : Locals) (n : Int) : Locals ⊕ Int :=
  if n = 0 then .inr l.totlen
  else if n = -1 then .inr (-1)
  else .inl { l with totlen := l.totlen + n, buf := l.buf + n.toNat }

/-- `while(totlen != count)`, with the return behind it. -/
def Locals.head (l : Locals) : Locals ⊕ Int :=
  if l.totlen ≠ l.count then .inl l else .inr l.totlen

def Stream.writing (s : Stream) (l : Locals) : Locals ⊕ Int → Stream
  | .inl l => { s with writer := some l }
  | .inr result => { s with writer := none, writes := s.writes ++ [l.returns result] }

def Stream.reading (s : Stream) (l : Locals) : Locals ⊕ Int → Stream
  | .inl l => { s with reader := some l }
  | .inr result => { s with reader := none, reads := s.reads ++ [l.returns result] }

/-- What can happen next. `write` and `read` are the system calls of a call that is under way, with
their answer; `none` is -1. -/
inductive Move where
  | anetWrite (mem : List UInt8) (count : Int)
  | write (nwritten : Option ℕ)
  | hangUp
  | anetRead (mem : List UInt8) (count : Int)
  | read (nread : Option ℕ)

/-- `none` is what cannot happen: a call during a call, a write that takes more than it was given, a
read of more than there is, the end of a stream that goes on. -/
def Stream.step (s : Stream) : Move → Option Stream
  | .anetWrite mem count =>
      let l : Locals := ⟨mem, mem, 0, count, 0⟩
      if s.writer.isNone ∧ s.hungUp = false then some (s.writing l l.head) else none
  | .write nwritten => s.writer.bind fun l =>
      match nwritten with
      | none => some (s.writing l (l.turn (-1)))
      | some n =>
          if n ≤ l.count - l.totlen then
            let s := { s with pipe := s.pipe ++ (l.mem.drop l.buf).take n }
            some (s.writing l ((l.turn n).elim Locals.head .inr))
          else none
  | .hangUp => if s.writer.isNone then some { s with hungUp := true } else none
  | .anetRead mem count =>
      let l : Locals := ⟨mem, mem, 0, count, 0⟩
      if s.reader.isNone then some (s.reading l l.head) else none
  | .read nread => s.reader.bind fun l =>
      match nread with
      | none => some (s.reading l (l.turn (-1)))
      | some 0 => if s.pipe = [] ∧ s.hungUp then some (s.reading l (l.turn 0)) else none
      | some (n + 1) =>
          if n + 1 ≤ l.count - l.totlen ∧ n + 1 ≤ s.pipe.length then
            let l := { l with
              mem := l.mem.take l.buf ++ s.pipe.take (n + 1) ++ l.mem.drop (l.buf + (n + 1)) }
            let s := { s with pipe := s.pipe.drop (n + 1) }
            some (s.reading l ((l.turn (n + 1)).elim Locals.head .inr))
          else none

def Move.Fits : Move → Prop
  | .anetWrite mem count => 0 ≤ count ∧ count ≤ mem.length
  | .anetRead mem count => 0 ≤ count ∧ count ≤ mem.length
  | _ => True

def Reachable : Stream → Prop :=
  Reach (· = opened) (fun s i t => s.step i = some t) fun _ i => i.Fits

/-- The call moved `bytes`: these are the first in its buffer, the rest of the buffer is as it was,
and unless it failed their number was returned. -/
structure Call.Moved (c : Call) (bytes : List UInt8) : Prop where
  result : c.result = -1 ∨ c.result = bytes.length
  fits : bytes.length ≤ c.count
  after : c.after = bytes ++ c.before.drop bytes.length

/-- A call under way has moved `bytes` so far. -/
structure Locals.Moving (l : Locals) (bytes : List UInt8) : Prop where
  buf : l.buf = bytes.length
  totlen : l.totlen = bytes.length
  fits : l.totlen ≤ l.count
  mem : l.mem = bytes ++ l.before.drop bytes.length
  enough : l.count ≤ l.before.length

structure Ledger where
  sent : List (List UInt8)
  sending : List UInt8
  got : List (List UInt8)
  getting : List UInt8

structure InOrder (s : Stream) (b : Ledger) : Prop where
  writes : List.Forall₂ Call.Moved s.writes b.sent
  reads : List.Forall₂ Call.Moved s.reads b.got
  writer : s.writer.elim (b.sending = []) fun l => l.Moving b.sending
  reader : s.reader.elim (b.getting = []) fun l => l.Moving b.getting
  bytes : b.sent.flatten ++ b.sending = b.got.flatten ++ b.getting ++ s.pipe
  const : ∀ c ∈ s.writes, c.after = c.before
  constNow : ∀ l, s.writer = some l → l.mem = l.before
  last : s.hungUp = true → s.writer = none
  short : ∀ c ∈ s.reads, c.result ≠ -1 → c.result ≠ c.count → s.hungUp = true ∧ s.pipe = []

section Loop

variable {l : Locals} {bytes : List UInt8} {r : Int}

theorem Locals.Moving.start {mem : List UInt8} {count : Int} (sign : 0 ≤ count)
    (enough : count ≤ mem.length) : Locals.Moving ⟨mem, mem, 0, count, 0⟩ [] :=
  ⟨rfl, rfl, sign, rfl, enough⟩

theorem Locals.Moving.returns (moving : l.Moving bytes) (known : r = -1 ∨ r = l.totlen) :
    (l.returns r).Moved bytes where
  result := by
    rw [← moving.totlen]
    exact known
  fits := by
    rw [← moving.totlen]
    exact moving.fits
  after := moving.mem

theorem Locals.Moving.advance (moving : l.Moving bytes) (more mem : List UInt8)
    (room : more.length ≤ l.count - l.totlen)
    (stored : mem = l.mem.take l.buf ++ more ++ l.mem.drop (l.buf + more.length)) :
    Locals.Moving ⟨l.before, mem, l.buf + more.length, l.count, l.totlen + more.length⟩
      (bytes ++ more) where
  buf := by rw [moving.buf, List.length_append]
  totlen := by rw [moving.totlen, List.length_append, Int.natCast_add]
  fits := by
    change l.totlen + more.length ≤ l.count
    omega
  mem := by
    have front : l.mem.take l.buf = bytes := by
      rw [moving.mem, moving.buf, List.take_left]
    have back : l.mem.drop (l.buf + more.length) =
        l.before.drop (bytes ++ more).length := by
      rw [moving.mem, moving.buf, List.drop_append, List.drop_of_length_le (Nat.le_add_right _ _),
        List.nil_append, Nat.add_sub_cancel_left, List.drop_drop, List.length_append]
    rw [stored, front, back]
  enough := moving.enough

theorem take_append_self (mem : List UInt8) {buf n : ℕ} (room : buf + n ≤ mem.length) :
    mem.take buf ++ (mem.drop buf).take n ++
      mem.drop (buf + ((mem.drop buf).take n).length) = mem := by
  have length : ((mem.drop buf).take n).length = n := by
    rw [List.length_take, List.length_drop]
    omega
  rw [length, List.append_assoc, ← List.drop_drop, List.take_append_drop, List.take_append_drop]

theorem head_cases (l : Locals) :
    l.head = .inl l ∨ l.head = .inr l.totlen ∧ l.totlen = l.count := by
  unfold Locals.head
  split_ifs with more
  · exact .inl rfl
  · exact .inr ⟨rfl, not_not.mp more⟩

theorem turn_failed (l : Locals) : l.turn (-1) = .inr (-1) := rfl

theorem turn_nothing (l : Locals) : l.turn 0 = .inr l.totlen := rfl

theorem turn_moved (l : Locals) (n : ℕ) : l.turn (n + 1) =
    .inl { l with totlen := l.totlen + (n + 1 : ℕ), buf := l.buf + (n + 1) } := by
  have some : (n + 1 : Int) ≠ 0 := by omega
  have fine : (n + 1 : Int) ≠ -1 := by omega
  have cast : (n + 1 : Int).toNat = n + 1 := by omega
  rw [Locals.turn, if_neg some, if_neg fine, cast, Int.natCast_succ]

end Loop

section Stream

variable {s t : Stream} {b : Ledger} {l : Locals} {r : Locals ⊕ Int} {bytes pipe : List UInt8}

theorem InOrder.writing (order : InOrder s b) (isOpen : s.hungUp = false)
    (moving : l.Moving bytes) (const : l.mem = l.before)
    (sent : b.sent.flatten ++ bytes = b.got.flatten ++ b.getting ++ pipe)
    (known : r = .inl l ∨ ∃ v, r = .inr v ∧ (v = -1 ∨ v = l.totlen)) :
    ∃ b', InOrder ({ s with pipe := pipe }.writing l r) b' := by
  have short : ∀ c ∈ s.reads, c.result ≠ -1 → c.result ≠ c.count →
      s.hungUp = true ∧ pipe = [] := by
    intro c mem fine cut
    have ended := (order.short c mem fine cut).1
    rw [isOpen] at ended
    exact absurd ended (by decide)
  have notLast : ∀ w : Option Locals, s.hungUp = true → w = none := by
    rw [isOpen]
    exact fun _ ended => absurd ended (by decide)
  rcases known with rfl | ⟨v, rfl, value⟩
  · exact ⟨{ b with sending := bytes },
      { order with
        writer := moving
        bytes := sent
        constNow := fun w here => Option.some.inj here ▸ const
        last := notLast _
        short := short }⟩
  · refine ⟨{ b with sent := b.sent ++ [bytes], sending := [] }, ?_⟩
    exact
      { writes := List.rel_append order.writes (.cons (moving.returns value) .nil)
        reads := order.reads
        writer := rfl
        reader := order.reader
        bytes := by simpa [Stream.writing] using sent
        const := by
          intro c mem
          rcases List.mem_append.mp mem with before | now
          · exact order.const c before
          · rw [List.mem_singleton.mp now]
            exact const
        constNow := fun w here => nomatch here
        last := notLast _
        short := short }

theorem InOrder.reading (order : InOrder s b) (moving : l.Moving bytes)
    (got : b.sent.flatten ++ b.sending = b.got.flatten ++ bytes ++ pipe)
    (drained : s.pipe = [] → pipe = [])
    (known : r = .inl l ∨
      ∃ v, r = .inr v ∧ (v = -1 ∨ v = l.totlen ∧ (v = l.count ∨ s.hungUp = true ∧ pipe = []))) :
    ∃ b', InOrder ({ s with pipe := pipe }.reading l r) b' := by
  have short : ∀ c ∈ s.reads, c.result ≠ -1 → c.result ≠ c.count →
      s.hungUp = true ∧ pipe = [] := fun c mem fine cut =>
    (order.short c mem fine cut).imp_right drained
  rcases known with rfl | ⟨v, rfl, value⟩
  · exact ⟨{ b with getting := bytes },
      { order with
        reader := moving
        bytes := got
        short := short }⟩
  · refine ⟨{ b with got := b.got ++ [bytes], getting := [] }, ?_⟩
    have returned := moving.returns (value.imp_right And.left)
    exact
      { writes := order.writes
        reads := List.rel_append order.reads (.cons returned .nil)
        writer := order.writer
        reader := rfl
        bytes := by simpa [Stream.reading] using got
        const := order.const
        constNow := order.constNow
        last := order.last
        short := by
          intro c mem fine cut
          rcases List.mem_append.mp mem with before | now
          · exact short c before fine cut
          · obtain rfl := List.mem_singleton.mp now
            rcases value with failed | ⟨-, full | ended⟩
            · exact absurd failed fine
            · exact absurd full cut
            · exact ended }

theorem InOrder.anetWrite (order : InOrder s b) {mem : List UInt8} {count : Int}
    (fits : (Move.anetWrite mem count).Fits) (taken : s.step (.anetWrite mem count) = some t) :
    ∃ b', InOrder t b' := by
  simp only [Stream.step] at taken
  split_ifs at taken with free
  obtain ⟨idle, isOpen⟩ := free
  obtain rfl := Option.some.inj taken
  have nothing : b.sending = [] := by
    have writer := order.writer
    rwa [Option.isNone_iff_eq_none.mp idle] at writer
  have sent : b.sent.flatten ++ [] = b.got.flatten ++ b.getting ++ s.pipe := by
    rw [← nothing]
    exact order.bytes
  refine order.writing isOpen (.start fits.1 fits.2) rfl sent ?_
  rcases head_cases ⟨mem, mem, 0, count, 0⟩ with on | ⟨done, -⟩
  · exact .inl on
  · exact .inr ⟨_, done, .inr rfl⟩

theorem InOrder.anetRead (order : InOrder s b) {mem : List UInt8} {count : Int}
    (fits : (Move.anetRead mem count).Fits) (taken : s.step (.anetRead mem count) = some t) :
    ∃ b', InOrder t b' := by
  simp only [Stream.step] at taken
  split_ifs at taken with free
  obtain rfl := Option.some.inj taken
  have nothing : b.getting = [] := by
    have reader := order.reader
    rwa [Option.isNone_iff_eq_none.mp free] at reader
  have got : b.sent.flatten ++ b.sending = b.got.flatten ++ [] ++ s.pipe := by
    rw [← nothing]
    exact order.bytes
  refine order.reading (.start fits.1 fits.2) got id ?_
  rcases head_cases ⟨mem, mem, 0, count, 0⟩ with on | ⟨done, full⟩
  · exact .inl on
  · exact .inr ⟨_, done, .inr ⟨rfl, .inl full⟩⟩

theorem InOrder.write (order : InOrder s b) {nwritten : Option ℕ}
    (taken : s.step (.write nwritten) = some t) : ∃ b', InOrder t b' := by
  obtain ⟨l, here, taken⟩ := Option.bind_eq_some_iff.mp taken
  have moving : l.Moving b.sending := by
    have writer := order.writer
    rwa [here] at writer
  have isOpen : s.hungUp = false := by
    by_contra ended
    rw [order.last (Bool.eq_true_of_not_eq_false ended)] at here
    cases here
  have const := order.constNow l here
  cases nwritten with
  | none =>
      obtain rfl := Option.some.inj taken
      exact order.writing isOpen moving const order.bytes (.inr ⟨-1, turn_failed l, .inl rfl⟩)
  | some n =>
      dsimp only at taken
      split_ifs at taken with fits
      obtain rfl := Option.some.inj taken
      have room : l.buf + n ≤ l.mem.length := by
        have enough := moving.enough
        rw [const, moving.buf]
        rw [moving.totlen] at fits
        omega
      have length : ((l.mem.drop l.buf).take n).length = n := by
        rw [List.length_take, List.length_drop]
        omega
      have sent : b.sent.flatten ++ (b.sending ++ (l.mem.drop l.buf).take n) =
          b.got.flatten ++ b.getting ++ (s.pipe ++ (l.mem.drop l.buf).take n) := by
        rw [← List.append_assoc, order.bytes, List.append_assoc]
      cases n with
      | zero =>
          rw [List.take_zero, List.append_nil] at sent
          exact order.writing isOpen moving const sent (.inr ⟨l.totlen, rfl, .inr rfl⟩)
      | succ n =>
          have after := moving.advance ((l.mem.drop l.buf).take (n + 1)) l.mem
            (by rw [length]; exact fits) (take_append_self l.mem room).symm
          rw [length] at after
          have kept := order.writing isOpen after const sent (r := Locals.head _) <| by
            rcases head_cases ⟨l.before, l.mem, l.buf + (n + 1), l.count, l.totlen + (n + 1 : ℕ)⟩
              with on | ⟨done, -⟩
            · exact .inl on
            · exact .inr ⟨_, done, .inr rfl⟩
          rw [Int.natCast_succ, turn_moved]
          exact kept

theorem InOrder.read (order : InOrder s b) {nread : Option ℕ}
    (taken : s.step (.read nread) = some t) : ∃ b', InOrder t b' := by
  obtain ⟨l, here, taken⟩ := Option.bind_eq_some_iff.mp taken
  have moving : l.Moving b.getting := by
    have reader := order.reader
    rwa [here] at reader
  match nread with
  | none =>
      obtain rfl := Option.some.inj taken
      exact order.reading moving order.bytes id (.inr ⟨-1, turn_failed l, .inl rfl⟩)
  | some 0 =>
      dsimp only at taken
      split_ifs at taken with ended
      obtain rfl := Option.some.inj taken
      exact order.reading moving order.bytes id
        (.inr ⟨l.totlen, turn_nothing l, .inr ⟨rfl, .inr ended.symm⟩⟩)
  | some (n + 1) =>
      dsimp only at taken
      split_ifs at taken with fits
      obtain ⟨room, there⟩ := fits
      obtain rfl := Option.some.inj taken
      have length : (s.pipe.take (n + 1)).length = n + 1 := by
        rw [List.length_take]
        omega
      have after := moving.advance (s.pipe.take (n + 1))
        (l.mem.take l.buf ++ s.pipe.take (n + 1) ++ l.mem.drop (l.buf + (n + 1)))
        (by rw [length]; exact room) (by rw [length])
      rw [length] at after
      have got : b.sent.flatten ++ b.sending =
          b.got.flatten ++ (b.getting ++ s.pipe.take (n + 1)) ++ s.pipe.drop (n + 1) := by
        rw [order.bytes, List.append_assoc, List.append_assoc, List.append_assoc,
          List.take_append_drop]
      have drained : s.pipe = [] → s.pipe.drop (n + 1) = [] := by
        intro empty
        rw [empty, List.drop_nil]
      have kept := order.reading after got drained (r := Locals.head _) <| by
        rcases head_cases ⟨l.before, _, l.buf + (n + 1), l.count, l.totlen + (n + 1 : ℕ)⟩
          with on | ⟨done, full⟩
        · exact .inl on
        · exact .inr ⟨_, done, .inr ⟨rfl, .inl full⟩⟩
      rw [turn_moved]
      exact kept

theorem InOrder.step (order : InOrder s b) {i : Move} (fits : i.Fits)
    (taken : s.step i = some t) : ∃ b', InOrder t b' := by
  cases i with
  | anetWrite mem count => exact order.anetWrite fits taken
  | write nwritten => exact order.write taken
  | hangUp =>
      simp only [Stream.step] at taken
      split_ifs at taken with idle
      obtain rfl := Option.some.inj taken
      exact ⟨b, { order with
        last := fun _ => Option.isNone_iff_eq_none.mp idle
        short := fun c mem fine cut => ⟨rfl, (order.short c mem fine cut).2⟩ }⟩
  | anetRead mem count => exact order.anetRead fits taken
  | read nread => exact order.read taken

end Stream

theorem inOrder_of_reachable {s : Stream} (h : Reachable s) : ∃ b, InOrder s b := by
  refine h.invariant (fun s => ∃ b, InOrder s b) ?_ ?_
  · rintro s rfl
    exact ⟨⟨[], [], [], []⟩,
      { writes := .nil
        reads := .nil
        writer := rfl
        reader := rfl
        bytes := rfl
        const := fun _ none => nomatch none
        constNow := fun _ none => nomatch none
        last := fun _ => rfl
        short := fun _ none => nomatch none }⟩
  · rintro s i t ⟨b, order⟩ fits taken
    exact order.step fits taken

theorem Reachable.run {s t : Stream} {moves : List Move} (h : Reachable s)
    (fits : ∀ i ∈ moves, i.Fits) (taken : moves.foldlM Stream.step s = some t) :
    Reachable t := by
  induction moves generalizing s with
  | nil =>
      obtain rfl := Option.some.inj taken
      exact h
  | cons i moves ih =>
      rw [List.foldlM_cons] at taken
      obtain ⟨u, first, rest⟩ := Option.bind_eq_some_iff.mp taken
      exact ih (.move h (fits i (by simp)) first) (fun i mem => fits i (by simp [mem])) rest

/-- However the two sides take turns and whatever the system calls answer, the bytes that the calls
of `anetWrite` took are those that the calls of `anetRead` delivered, in order, and behind these
those under way. A call that does not fail answers how many it moved, and nothing else changes in
the reader's memory. If `anetRead` answers less than `count`, all that was ever taken has been
delivered. -/
theorem bytes_in_order {s : Stream} (h : Reachable s) : ∃ b : Ledger,
    List.Forall₂ Call.Moved s.writes b.sent ∧ (∀ c ∈ s.writes, c.after = c.before) ∧
      s.writer.elim (b.sending = []) (·.Moving b.sending) ∧
      List.Forall₂ Call.Moved s.reads b.got ∧
      s.reader.elim (b.getting = []) (·.Moving b.getting) ∧
      b.sent.flatten ++ b.sending = b.got.flatten ++ b.getting ++ s.pipe ∧
      ∀ c ∈ s.reads, c.result ≠ -1 → c.result ≠ c.count →
        s.writer = none ∧ b.sent.flatten = b.got.flatten ++ b.getting := by
  obtain ⟨b, order⟩ := inOrder_of_reachable h
  refine ⟨b, order.writes, order.const, order.writer, order.reads, order.reader, order.bytes, ?_⟩
  intro c mem fine cut
  obtain ⟨ended, empty⟩ := order.short c mem fine cut
  have idle := order.last ended
  have nothing : b.sending = [] := by
    have writer := order.writer
    rwa [idle] at writer
  have bytes := order.bytes
  rw [nothing, empty, List.append_nil, List.append_nil] at bytes
  exact ⟨idle, bytes⟩

def five : List Move :=
  [.anetWrite [1, 2, 3, 4, 5] 5, .anetRead [0, 0, 0, 0, 0, 0] 6, .write (some 3), .read (some 2),
    .write (some 2), .hangUp, .read (some 3), .read (some 0)]

theorem bytes_in_order_five : ∃ s, five.foldlM Stream.step opened = some s ∧
    s.reads = [⟨[0, 0, 0, 0, 0, 0], [1, 2, 3, 4, 5, 0], 6, 5⟩] ∧
    ∃ b : Ledger, b.sent.flatten = b.got.flatten ++ b.getting := by
  have fits : ∀ i ∈ five, i.Fits := by simp [five, Move.Fits]
  have reached : Reachable _ :=
    Reachable.run (.start rfl) fits (t := (five.foldlM Stream.step opened).get rfl) rfl
  obtain ⟨b, -, -, -, -, -, -, cut⟩ := bytes_in_order reached
  exact ⟨_, rfl, rfl, b, (cut _ List.mem_cons_self (by decide) (by decide)).2⟩

section Messages

variable {s : Stream}

theorem Call.Moved.whole {c : Call} {bytes : List UInt8} (moved : c.Moved bytes)
    (full : c.result = c.count) : bytes = c.after.take c.count.toNat := by
  have length : c.count.toNat = bytes.length := by
    have result := moved.result
    have fits := moved.fits
    omega
  rw [length, moved.after, List.take_left]

theorem moved_whole {calls : List Call} {moved : List (List UInt8)}
    (all : List.Forall₂ Call.Moved calls moved) (full : ∀ c ∈ calls, c.result = c.count) :
    moved = calls.map fun c => c.after.take c.count.toNat := by
  induction all with
  | nil => rfl
  | cons first _ ih =>
      rw [List.map_cons, ← first.whole (full _ (by simp)), ← ih fun c mem => full c (by simp [mem])]

theorem moved_lengths {calls : List Call} {moved : List (List UInt8)}
    (all : List.Forall₂ Call.Moved calls moved) (full : ∀ c ∈ calls, c.result = c.count) :
    moved.map (fun m => (m.length : Int)) = calls.map Call.count := by
  induction all with
  | nil => rfl
  | cons first _ ih =>
      have result := first.result
      have fits := first.fits
      have here := full _ List.mem_cons_self
      rw [List.map_cons, List.map_cons, ih fun c mem => full c (by simp [mem])]
      congr 1
      omega

/-- Where two texts agree and their pieces have equal lengths, the pieces are equal. -/
theorem pieces_prefix {got sent : List (List UInt8)} {behind ahead : List UInt8}
    (lengths : got.map (fun m => (m.length : Int)) <+: sent.map fun m => (m.length : Int))
    (same : sent.flatten ++ ahead = got.flatten ++ behind) : got <+: sent := by
  induction got generalizing sent with
  | nil => exact List.nil_prefix
  | cons m got ih =>
      cases sent with
      | nil => exact absurd (List.prefix_nil.mp lengths) (by simp)
      | cons m' sent =>
          rw [List.map_cons, List.map_cons, List.cons_prefix_cons] at lengths
          rw [List.flatten_cons, List.flatten_cons, List.append_assoc, List.append_assoc] at same
          obtain ⟨rfl, rest⟩ := List.append_inj same (by omega)
          exact List.cons_prefix_cons.mpr ⟨rfl, ih lengths.2 rest⟩

/-- If no call was cut short and the reader asks for the sizes that the writer used, the messages
arrive as they were sent: one call delivers what one call took, however the system splits them. -/
theorem messages_arrive (h : Reachable s) (sent : ∀ c ∈ s.writes, c.result = c.count)
    (got : ∀ c ∈ s.reads, c.result = c.count)
    (sizes : s.reads.map Call.count <+: s.writes.map Call.count) :
    s.reads.map (fun c => c.after.take c.count.toNat) <+:
      s.writes.map fun c => c.before.take c.count.toNat := by
  obtain ⟨b, order⟩ := inOrder_of_reachable h
  have unchanged : s.writes.map (fun c => c.before.take c.count.toNat) =
      s.writes.map fun c => c.after.take c.count.toNat :=
    List.map_congr_left fun c mem => by rw [order.const c mem]
  rw [unchanged, ← moved_whole order.writes sent, ← moved_whole order.reads got]
  have bytes := order.bytes
  rw [List.append_assoc] at bytes
  refine pieces_prefix ?_ bytes
  rw [moved_lengths order.reads got, moved_lengths order.writes sent]
  exact sizes

def both : List Move :=
  [.anetWrite [7, 8] 2, .write (some 2), .anetWrite [9, 9, 9] 3, .write (some 1), .anetRead [0, 0] 2,
    .read (some 1), .read (some 1), .anetRead [0, 0, 0, 0] 3, .read (some 1), .write (some 2),
    .read (some 2)]

theorem messages_arrive_both : ∃ s, both.foldlM Stream.step opened = some s ∧
    s.reads.map (fun c => c.after.take c.count.toNat) <+:
      s.writes.map fun c => c.before.take c.count.toNat := by
  have fits : ∀ i ∈ both, i.Fits := by simp [both, Move.Fits]
  have reached : Reachable _ :=
    Reachable.run (.start rfl) fits (t := (both.foldlM Stream.step opened).get rfl) rfl
  exact ⟨_, rfl, messages_arrive reached (by decide) (by decide) (by decide)⟩

end Messages

end AeEventLoop.AnetStream
