import AeEventLoop.Resources
import AeEventLoop.WhileLoop
import Mathlib.Algebra.BigOperators.Group.Finset.Basic

/-! `zmalloc.c`: an allocator over that of the C library which counts the memory in use. Where the
library does not tell the size of a block (`HAVE_MALLOC_SIZE` is not defined) a header of eight bytes
keeps it, in front of what the caller gets; the header is as exposed to overwriting as the rest of the
block. The allocator of the library is a parameter. A failure ends the program
(`zmalloc_default_oom`). -/

namespace AeEventLoop.Zmalloc

open Resources

abbrev Byte := UInt8

/-- `size_t` is taken modulo this. -/
def SIZE : ℕ := 2 ^ 64

def encode : ℕ → ℕ → List Byte
  | 0, _ => []
  | k + 1, n => UInt8.ofNat n :: encode k (n / 256)

def decode (b : List Byte) : ℕ := b.foldr (fun x n => x.toNat + 256 * n) 0

/-- The C library's allocator, by the number of calls made before. A block is its content: what was
in it when it was handed out, and as many bytes as `malloc_usable_size` says. -/
structure Libc where
  have_malloc_size : Bool
  malloc : ℕ → Finset ℕ → ℕ → Option (ℕ × List Byte)
  malloc_new : ∀ {k used n p b}, malloc k used n = some (p, b) → p ∉ used ∧ n ≤ b.length
  realloc : ℕ → Finset ℕ → ℕ → List Byte → ℕ → Option (ℕ × List Byte)
  realloc_new : ∀ {k used p a n q b}, realloc k used p a n = some (q, b) →
    q ∉ used.erase p ∧ n ≤ b.length ∧ ∀ i, i < n → i < a.length → b[i]? = a[i]?

structure Heap where
  calls : ℕ
  blocks : Account ℕ
  bytes : ℕ → List Byte
  used_memory : ℕ
  fault : Bool

namespace Heap

variable (m : Heap)

/-- `update_zmalloc_stat_alloc`; the rounded size it computes is not used. -/
def stat_alloc (n : ℕ) : Heap := { m with used_memory := (m.used_memory + n) % SIZE }

def stat_free (n : ℕ) : Heap :=
  { m with used_memory := (m.used_memory + (SIZE - n % SIZE)) % SIZE }

def write (p i : ℕ) (bs : List Byte) : Heap :=
  { m with
    bytes := Function.update m.bytes p
      ((m.bytes p).take i ++ bs ++ (m.bytes p).drop (i + bs.length))
    fault := m.fault || decide (p ∉ m.blocks.held) || decide ((m.bytes p).length < i + bs.length) }

/-- `*((size_t*)p)`. -/
def size_at (p : ℕ) : ℕ := decode ((m.bytes p).take 8)

end Heap

namespace Libc

variable (lib : Libc)

def PREFIX_SIZE : ℕ := if lib.have_malloc_size then 0 else 8

def counted (m : Heap) (realptr : ℕ) : ℕ :=
  if lib.have_malloc_size then (m.bytes realptr).length
  else (m.size_at realptr + lib.PREFIX_SIZE) % SIZE

/-- The last lines of the functions that allocate. -/
def handOut (m : Heap) (ptr size : ℕ) : ℕ × Heap :=
  if lib.have_malloc_size then (ptr, m.stat_alloc (m.bytes ptr).length)
  else
    (ptr + lib.PREFIX_SIZE,
      (m.write ptr 0 (encode 8 size)).stat_alloc ((size + lib.PREFIX_SIZE) % SIZE))

/-- `zmalloc` and `zcalloc` differ in what is in the block. -/
def allocate (fill : List Byte → List Byte) (m : Heap) (size : ℕ) : Option (ℕ × Heap) :=
  match lib.malloc m.calls m.blocks.held ((size + lib.PREFIX_SIZE) % SIZE) with
  | none => none
  | some (ptr, b) =>
      some (lib.handOut
        { m with
          calls := m.calls + 1
          blocks := m.blocks.acquire ptr
          bytes := Function.update m.bytes ptr (fill b) } ptr size)

def zmalloc (m : Heap) (size : ℕ) : Option (ℕ × Heap) := lib.allocate id m size

def zcalloc (m : Heap) (size : ℕ) : Option (ℕ × Heap) :=
  lib.allocate (fun b => List.replicate b.length 0) m size

def zrealloc (m : Heap) (ptr : Option ℕ) (size : ℕ) : Option (ℕ × Heap) :=
  match ptr with
  | none => lib.zmalloc m size
  | some p =>
      let realptr := p - lib.PREFIX_SIZE
      let oldsize := lib.counted m realptr
      match lib.realloc m.calls m.blocks.held realptr (m.bytes realptr)
          ((size + lib.PREFIX_SIZE) % SIZE) with
      | none => none
      | some (newptr, b) =>
          some (lib.handOut
            ({ m with
              calls := m.calls + 1
              blocks := (m.blocks.release realptr).acquire newptr
              bytes := Function.update m.bytes newptr b }.stat_free oldsize) newptr size)

def zfree (m : Heap) (ptr : Option ℕ) : Heap :=
  match ptr with
  | none => m
  | some p =>
      let realptr := p - lib.PREFIX_SIZE
      let m := m.stat_free (lib.counted m realptr)
      { m with blocks := m.blocks.release realptr }

/-- The characters of the string come without the one that ends it. -/
def zstrdup (m : Heap) (s : List Byte) : Option (ℕ × Heap) :=
  (lib.zmalloc m (s.length + 1)).map fun r =>
    (r.1, r.2.write (r.1 - lib.PREFIX_SIZE) lib.PREFIX_SIZE (s ++ [0]))

def zmalloc_size (m : Heap) (p : ℕ) : ℕ :=
  if lib.have_malloc_size then (m.bytes p).length
  else
    let size := m.size_at (p - lib.PREFIX_SIZE)
    ((if size % 8 ≠ 0 then size + (8 - size % 8) else size) + lib.PREFIX_SIZE) % SIZE

def zmalloc_usable (m : Heap) (p : ℕ) : ℕ :=
  if lib.have_malloc_size then lib.zmalloc_size m p
  else (lib.zmalloc_size m p + (SIZE - lib.PREFIX_SIZE)) % SIZE

end Libc

/-- A program on these functions: the buffers it has, their sizes as it asked for them, and those of
their bytes it can know. -/
structure Client where
  heap : Heap
  owned : Finset ℕ
  size : ℕ → ℕ
  known : ℕ → ℕ → Option Byte

inductive Act
  | zmalloc (size : ℕ)
  | zcalloc (size : ℕ)
  | zrealloc (ptr : Option ℕ) (size : ℕ)
  | zfree (ptr : Option ℕ)
  | zstrdup (s : List Byte)
  | write (p i : ℕ) (byte : Byte)

def Client.gets (c : Client) (m : Heap) (p size : ℕ) (known : ℕ → Option Byte) : Client where
  heap := m
  owned := insert p c.owned
  size := Function.update c.size p size
  known := Function.update c.known p known

def Client.drops (c : Client) (p : ℕ) : Client := { c with owned := c.owned.erase p }

/-- The program passes null or a buffer it has, and stays inside its buffers. -/
inductive Step (lib : Libc) : Client → Act → Client → Prop
  | zmalloc {c : Client} {size p : ℕ} {m : Heap} : lib.zmalloc c.heap size = some (p, m) →
      Step lib c (.zmalloc size) (c.gets m p size fun _ => none)
  | zcalloc {c : Client} {size p : ℕ} {m : Heap} : lib.zcalloc c.heap size = some (p, m) →
      Step lib c (.zcalloc size) (c.gets m p size fun _ => some 0)
  | zreallocNull {c : Client} {size p : ℕ} {m : Heap} :
      lib.zrealloc c.heap none size = some (p, m) →
      Step lib c (.zrealloc none size) (c.gets m p size fun _ => none)
  | zrealloc {c : Client} {p size q : ℕ} {m : Heap} : p ∈ c.owned →
      lib.zrealloc c.heap (some p) size = some (q, m) →
      Step lib c (.zrealloc (some p) size)
        ((c.drops p).gets m q size fun i => if i < c.size p then c.known p i else none)
  | zfreeNull (c : Client) : Step lib c (.zfree none) { c with heap := lib.zfree c.heap none }
  | zfree {c : Client} {p : ℕ} : p ∈ c.owned →
      Step lib c (.zfree (some p)) { c.drops p with heap := lib.zfree c.heap (some p) }
  | zstrdup {c : Client} {s : List Byte} {p : ℕ} {m : Heap} : lib.zstrdup c.heap s = some (p, m) →
      Step lib c (.zstrdup s) (c.gets m p (s.length + 1) fun i => (s ++ [0])[i]?)
  | write {c : Client} {p i : ℕ} (byte : Byte) : p ∈ c.owned → i < c.size p →
      Step lib c (.write p i byte)
        { c with
          heap := c.heap.write (p - lib.PREFIX_SIZE) (lib.PREFIX_SIZE + i) [byte]
          known := Function.update c.known p (Function.update (c.known p) i (some byte)) }

def Act.fits : Act → Prop
  | .zmalloc size | .zcalloc size | .zrealloc _ size => size + 8 < SIZE
  | .zstrdup s => s.length + 1 + 8 < SIZE
  | _ => True

def start : Client where
  heap := ⟨0, ⟨∅, false⟩, fun _ => [], 0, false⟩
  owned := ∅
  size _ := 0
  known _ _ := none

def Run (lib : Libc) : Client → Prop :=
  WhileLoop.Reach (· = start) (Step lib) fun _ act => act.fits

def Libc.charge (lib : Libc) (c : Client) (p : ℕ) : ℕ :=
  if lib.have_malloc_size then lib.zmalloc_size c.heap p else c.size p + lib.PREFIX_SIZE

/-- The buffers of the program are the blocks in use, and everything about them is in the blocks. -/
structure Inv (lib : Libc) (c : Client) : Prop where
  blocks : c.heap.blocks = ⟨c.owned.image (· - lib.PREFIX_SIZE), false⟩
  above : ∀ p ∈ c.owned, lib.PREFIX_SIZE ≤ p
  room : ∀ p ∈ c.owned,
    lib.PREFIX_SIZE + c.size p ≤ (c.heap.bytes (p - lib.PREFIX_SIZE)).length
  header : lib.have_malloc_size = false → ∀ p ∈ c.owned,
    c.heap.size_at (p - lib.PREFIX_SIZE) = c.size p ∧ c.size p + 8 < SIZE
  known : ∀ p ∈ c.owned, ∀ i < c.size p, ∀ b, c.known p i = some b →
    (c.heap.bytes (p - lib.PREFIX_SIZE))[lib.PREFIX_SIZE + i]? = some b
  used : c.heap.used_memory = (∑ p ∈ c.owned, lib.charge c p) % SIZE
  fine : c.heap.fault = false

section Encoding

theorem length_encode (k n : ℕ) : (encode k n).length = k := by
  induction k generalizing n with
  | zero => rfl
  | succ k ih => rw [encode, List.length_cons, ih]

theorem decode_encode (k n : ℕ) : decode (encode k n) = n % 256 ^ k := by
  induction k generalizing n with
  | zero => exact (Nat.mod_one n).symm
  | succ k ih =>
      have later : decode (encode k (n / 256)) = n / 256 % 256 ^ k := ih _
      rw [encode, decode, List.foldr_cons, ← decode, later, pow_succ', Nat.mod_mul]
      simp

end Encoding

section Blocks

variable {lib : Libc} {c : Client} {m : Heap} {p q ptr size : ℕ} {b : List Byte}

theorem PREFIX_SIZE_of_true (h : lib.have_malloc_size = true) : lib.PREFIX_SIZE = 0 := if_pos h

theorem PREFIX_SIZE_of_false (h : lib.have_malloc_size = false) : lib.PREFIX_SIZE = 8 :=
  if_neg (by simp [h])

theorem stat_free_stat (a b : ℕ) : ((a + b) % SIZE + (SIZE - b % SIZE)) % SIZE = a % SIZE := by
  unfold SIZE
  omega

theorem stat_alloc_stat (a b : ℕ) : (a % SIZE + b) % SIZE = (a + b) % SIZE := Nat.mod_add_mod a _ b

theorem Inv.real_inj (inv : Inv lib c) (hp : p ∈ c.owned) (hq : q ∈ c.owned)
    (same : p - lib.PREFIX_SIZE = q - lib.PREFIX_SIZE) : p = q := by
  have := inv.above p hp
  have := inv.above q hq
  omega

theorem Inv.real_held (inv : Inv lib c) (own : p ∈ c.owned) :
    p - lib.PREFIX_SIZE ∈ c.heap.blocks.held := by
  rw [inv.blocks]
  exact Finset.mem_image_of_mem _ own

theorem Inv.counted_eq (inv : Inv lib c) (own : p ∈ c.owned) :
    lib.counted c.heap (p - lib.PREFIX_SIZE) = lib.charge c p := by
  unfold Libc.counted Libc.charge Libc.zmalloc_size
  cases config : lib.have_malloc_size with
  | true => simp [PREFIX_SIZE_of_true config]
  | false =>
      obtain ⟨header, small⟩ := inv.header config p own
      rw [PREFIX_SIZE_of_false config] at header ⊢
      simp [header, Nat.mod_eq_of_lt small]

def Libc.headed (lib : Libc) (size : ℕ) (b : List Byte) : List Byte :=
  if lib.have_malloc_size then b else encode 8 size ++ b.drop 8

theorem length_headed (room : lib.PREFIX_SIZE + size ≤ b.length) :
    (lib.headed size b).length = b.length := by
  unfold Libc.headed
  cases config : lib.have_malloc_size with
  | true => simp
  | false =>
      rw [PREFIX_SIZE_of_false config] at room
      simp only [Bool.false_eq_true, if_false, List.length_append, length_encode, List.length_drop]
      omega

theorem getElem?_headed (i : ℕ) :
    (lib.headed size b)[lib.PREFIX_SIZE + i]? = b[lib.PREFIX_SIZE + i]? := by
  unfold Libc.headed
  cases config : lib.have_malloc_size with
  | true => simp
  | false =>
      rw [PREFIX_SIZE_of_false config]
      simp only [Bool.false_eq_true, if_false]
      rw [List.getElem?_append_right (by rw [length_encode]; omega), length_encode,
        List.getElem?_drop]
      congr 1
      omega

theorem decode_headed (config : lib.have_malloc_size = false) (small : size + 8 < SIZE) :
    decode ((lib.headed size b).take 8) = size := by
  have whole : (encode 8 size ++ b.drop 8).take 8 = encode 8 size :=
    List.take_left' (length_encode 8 size)
  simp only [Libc.headed, config, Bool.false_eq_true, if_false]
  rw [whole, decode_encode]
  exact Nat.mod_eq_of_lt (by unfold SIZE at small; omega)

theorem handOut_eq (held : ptr ∈ m.blocks.held)
    (room : lib.PREFIX_SIZE + size ≤ (m.bytes ptr).length) (small : size + 8 < SIZE) :
    lib.handOut m ptr size = (ptr + lib.PREFIX_SIZE,
      { m with
        bytes := Function.update m.bytes ptr (lib.headed size (m.bytes ptr))
        used_memory := (m.used_memory + if lib.have_malloc_size then (m.bytes ptr).length else
          size + lib.PREFIX_SIZE) % SIZE }) := by
  unfold Libc.handOut Libc.headed
  cases config : lib.have_malloc_size with
  | true =>
      simp [PREFIX_SIZE_of_true config, Heap.stat_alloc]
  | false =>
      rw [PREFIX_SIZE_of_false config] at room ⊢
      have enough : ¬ (m.bytes ptr).length < 8 := by omega
      simp [Heap.stat_alloc, Heap.write, length_encode, held, enough, Nat.mod_eq_of_lt small]

end Blocks

section Ledger

variable {lib : Libc} {c : Client} {m : Heap} {p ptr size : ℕ} {b : List Byte}
  {k : ℕ → Option Byte}

theorem Inv.drop (inv : Inv lib c) (own : p ∈ c.owned) (calls : ℕ) :
    Inv lib { c.drops p with
      heap :=
        { c.heap.stat_free (lib.counted c.heap (p - lib.PREFIX_SIZE)) with
          calls := calls
          blocks := c.heap.blocks.release (p - lib.PREFIX_SIZE) } } := by
  have sub : ∀ {q}, q ∈ c.owned.erase p → q ∈ c.owned := Finset.mem_of_mem_erase
  refine ⟨?_, fun q h => inv.above q (sub h), fun q h => inv.room q (sub h),
    fun config q h => inv.header config q (sub h), fun q h => inv.known q (sub h), ?_, inv.fine⟩
  · have held := inv.real_held own
    rw [inv.blocks] at held ⊢
    simp only [Account.release, held, not_true_eq_false, decide_false, Bool.or_false, Client.drops,
      Account.mk.injEq, and_true]
    ext i
    simp only [Finset.mem_erase, Finset.mem_image]
    constructor
    · rintro ⟨other, q, hq, rfl⟩
      exact ⟨q, ⟨fun same => other (same ▸ rfl), hq⟩, rfl⟩
    · rintro ⟨q, ⟨other, hq⟩, rfl⟩
      exact ⟨fun same => other (inv.real_inj hq own same), q, hq, rfl⟩
  · have whole := Finset.sum_erase_add c.owned (lib.charge c) own
    simp only [Heap.stat_free, Client.drops]
    rw [inv.counted_eq own, inv.used, ← whole]
    exact stat_free_stat _ _

theorem Inv.add (inv : Inv lib c) (new : ptr ∉ c.heap.blocks.held)
    (blocks : m.blocks = c.heap.blocks.acquire ptr)
    (bytes : m.bytes = Function.update c.heap.bytes ptr b)
    (room : lib.PREFIX_SIZE + size ≤ b.length)
    (header : lib.have_malloc_size = false → decode (b.take 8) = size) (small : size + 8 < SIZE)
    (known : ∀ i < size, ∀ x, k i = some x → b[lib.PREFIX_SIZE + i]? = some x)
    (used : m.used_memory = (c.heap.used_memory + if lib.have_malloc_size then b.length else
      size + lib.PREFIX_SIZE) % SIZE)
    (fine : m.fault = c.heap.fault) : Inv lib (c.gets m (ptr + lib.PREFIX_SIZE) size k) := by
  have real : ptr + lib.PREFIX_SIZE - lib.PREFIX_SIZE = ptr := Nat.add_sub_cancel ptr _
  have apart : ∀ {q}, q ∈ c.owned → q - lib.PREFIX_SIZE ≠ ptr := fun own same =>
    new (same ▸ inv.real_held own)
  have other : ∀ {q}, q ∈ c.owned → q ≠ ptr + lib.PREFIX_SIZE := fun own same =>
    apart own (same ▸ real)
  have fresh : ptr + lib.PREFIX_SIZE ∉ c.owned := fun own => other own rfl
  have old : ∀ {q}, q ∈ c.owned → m.bytes (q - lib.PREFIX_SIZE) =
      c.heap.bytes (q - lib.PREFIX_SIZE) := fun own => by
    rw [bytes, Function.update_of_ne (apart own)]
  have mine : m.bytes ptr = b := by rw [bytes, Function.update_self]
  constructor
  · rw [inv.blocks] at new
    simp [Client.gets, blocks, inv.blocks, Account.acquire, new, Finset.image_insert]
  · intro q own
    rcases Finset.mem_insert.mp own with rfl | own
    · exact Nat.le_add_left _ ptr
    · exact inv.above q own
  · intro q own
    rcases Finset.mem_insert.mp own with rfl | own
    · simpa [Client.gets, mine] using room
    · simpa [Client.gets, old own, Function.update_of_ne (other own)] using inv.room q own
  · intro config q own
    rcases Finset.mem_insert.mp own with rfl | own
    · simpa [Client.gets, Heap.size_at, mine] using ⟨header config, small⟩
    · simpa [Client.gets, Heap.size_at, old own, Function.update_of_ne (other own)] using
        inv.header config q own
  · intro q own i below x h
    rcases Finset.mem_insert.mp own with rfl | own
    · simp only [Client.gets, Function.update_self] at below h ⊢
      rw [real, mine]
      exact known i below x h
    · simp only [Client.gets, Function.update_of_ne (other own)] at below h ⊢
      rw [old own]
      exact inv.known q own i below x h
  · have count : ∀ q ∈ c.owned,
        lib.charge (c.gets m (ptr + lib.PREFIX_SIZE) size k) q = lib.charge c q := by
      intro q own
      unfold Libc.charge Libc.zmalloc_size
      cases config : lib.have_malloc_size with
      | true =>
          have same := old own
          rw [PREFIX_SIZE_of_true config, Nat.sub_zero] at same
          simp [Client.gets, same]
      | false => simp [Client.gets, Function.update_of_ne (other own)]
    have charge : lib.charge (c.gets m (ptr + lib.PREFIX_SIZE) size k) (ptr + lib.PREFIX_SIZE) =
        if lib.have_malloc_size then b.length else size + lib.PREFIX_SIZE := by
      unfold Libc.charge Libc.zmalloc_size
      cases config : lib.have_malloc_size with
      | true => simp [Client.gets, PREFIX_SIZE_of_true config, mine]
      | false => simp [Client.gets]
    change m.used_memory = (∑ q ∈ insert (ptr + lib.PREFIX_SIZE) c.owned,
      lib.charge (c.gets m (ptr + lib.PREFIX_SIZE) size k) q) % SIZE
    rw [Finset.sum_insert fresh, charge, Finset.sum_congr rfl count, used, inv.used, stat_alloc_stat,
      Nat.add_comm]
  · exact fine.trans inv.fine

theorem getElem?_splice {o : ℕ} {b bs : List Byte} (inside : o + bs.length ≤ b.length) (n : ℕ) :
    (b.take o ++ bs ++ b.drop (o + bs.length))[n]? =
      if n < o then b[n]? else if n < o + bs.length then bs[n - o]? else b[n]? := by
  have taken : (b.take o).length = o := by
    rw [List.length_take]
    omega
  have front : (b.take o ++ bs).length = o + bs.length := by rw [List.length_append, taken]
  split_ifs with before within
  · rw [List.getElem?_append_left (by omega), List.getElem?_append_left (by omega),
      List.getElem?_take_of_lt before]
  · rw [List.getElem?_append_left (by omega), List.getElem?_append_right (by omega), taken]
  · rw [List.getElem?_append_right (by omega), front, List.getElem?_drop]
    congr 1
    omega

theorem Inv.write (inv : Inv lib c) (own : p ∈ c.owned) {i : ℕ} {bs : List Byte}
    (inside : i + bs.length ≤ c.size p) (known : ∀ j < c.size p, ∀ x, k j = some x →
      (if j < i then c.known p j else if j < i + bs.length then bs[j - i]? else c.known p j) = some x) :
    Inv lib { c with
      heap := c.heap.write (p - lib.PREFIX_SIZE) (lib.PREFIX_SIZE + i) bs
      known := Function.update c.known p k } := by
  have room := inv.room p own
  have within : lib.PREFIX_SIZE + i + bs.length ≤
      (c.heap.bytes (p - lib.PREFIX_SIZE)).length := by omega
  have spliced := getElem?_splice within
  set old := c.heap.bytes (p - lib.PREFIX_SIZE) with content
  set new := old.take (lib.PREFIX_SIZE + i) ++ bs ++ old.drop (lib.PREFIX_SIZE + i + bs.length)
    with written
  have length : new.length = old.length := by
    simp only [written, List.length_append, List.length_take, List.length_drop]
    omega
  have bytes : (c.heap.write (p - lib.PREFIX_SIZE) (lib.PREFIX_SIZE + i) bs).bytes =
      Function.update c.heap.bytes (p - lib.PREFIX_SIZE) new := rfl
  have apart : ∀ {q}, q ∈ c.owned → q ≠ p → q - lib.PREFIX_SIZE ≠ p - lib.PREFIX_SIZE :=
    fun own' other same => other (inv.real_inj own' own same)
  refine ⟨inv.blocks, inv.above, fun q own' => ?_, fun config q own' => ?_,
    fun q own' j below x h => ?_, ?_, ?_⟩
  · rw [bytes]
    by_cases same : q = p
    · rw [same, Function.update_self, length]
      exact room
    · rw [Function.update_of_ne (apart own' same)]
      exact inv.room q own'
  · dsimp only [Heap.size_at]
    rw [bytes]
    by_cases same : q = p
    · have kept : new.take 8 = old.take 8 := by
        rw [PREFIX_SIZE_of_false config] at written room
        rw [written, List.append_assoc, List.take_append_of_le_length, List.take_take]
        · congr 1
          omega
        · rw [List.length_take]
          omega
      rw [same, Function.update_self, kept]
      exact inv.header config p own
    · rw [Function.update_of_ne (apart own' same)]
      exact inv.header config q own'
  · dsimp only at below h ⊢
    rw [bytes]
    by_cases same : q = p
    · rw [same] at below h ⊢
      rw [Function.update_self] at h ⊢
      have fact := known j below x h
      rw [spliced]
      rcases Nat.lt_or_ge j i with before | behind
      · rw [if_pos before] at fact
        rw [if_pos (by omega)]
        exact inv.known p own j below x fact
      · rw [if_neg (by omega)] at fact
        rw [if_neg (by omega)]
        rcases Nat.lt_or_ge j (i + bs.length) with among | beyond
        · rw [if_pos among] at fact
          rwa [if_pos (by omega), show lib.PREFIX_SIZE + j - (lib.PREFIX_SIZE + i) = j - i by omega]
        · rw [if_neg (by omega)] at fact
          rw [if_neg (by omega)]
          exact inv.known p own j below x fact
    · rw [Function.update_of_ne same] at h
      rw [Function.update_of_ne (apart own' same)]
      exact inv.known q own' j below x h
  · have count : ∀ q ∈ c.owned, lib.charge { c with
        heap := c.heap.write (p - lib.PREFIX_SIZE) (lib.PREFIX_SIZE + i) bs
        known := Function.update c.known p k } q = lib.charge c q := by
      intro q own'
      unfold Libc.charge Libc.zmalloc_size
      cases config : lib.have_malloc_size with
      | true =>
          simp only [↓reduceIte]
          rw [bytes]
          by_cases same : q = p
          · rw [PREFIX_SIZE_of_true config, Nat.sub_zero] at content ⊢
            rw [same, Function.update_self, length, content]
          · rw [PREFIX_SIZE_of_true config, Nat.sub_zero, Function.update_of_ne same]
      | false => rfl
    exact inv.used.trans (congrArg (· % SIZE) (Finset.sum_congr rfl count).symm)
  · have held := inv.real_held own
    simpa [Heap.write, inv.fine, held, content] using within

end Ledger

section Steps

variable {lib : Libc} {c d : Client} {m : Heap} {p q size : ℕ} {k : ℕ → Option Byte}

theorem fits_mod (small : size + 8 < SIZE) : (size + lib.PREFIX_SIZE) % SIZE = size + lib.PREFIX_SIZE := by
  refine Nat.mod_eq_of_lt (lt_of_le_of_lt ?_ small)
  unfold Libc.PREFIX_SIZE
  split_ifs <;> omega

theorem Inv.allocate (inv : Inv lib c) (small : size + 8 < SIZE) {fill : List Byte → List Byte}
    (h : lib.allocate fill c.heap size = some (p, m)) (whole : ∀ b, (fill b).length = b.length)
    (known : ∀ b i x, lib.PREFIX_SIZE + i < b.length → k i = some x →
      (fill b)[lib.PREFIX_SIZE + i]? = some x) : Inv lib (c.gets m p size k) := by
  unfold Libc.allocate at h
  rw [fits_mod small] at h
  split at h
  · cases h
  · rename_i ptr b got
    obtain ⟨new, long⟩ := lib.malloc_new got
    have room : lib.PREFIX_SIZE + size ≤ (fill b).length := by
      rw [whole]
      omega
    rw [handOut_eq (Finset.mem_insert_self ptr _)
      (by simpa only [Function.update_self] using room) small] at h
    obtain ⟨rfl, rfl⟩ := Prod.mk.inj (Option.some.inj h)
    simp only [Function.update_self, Function.update_idem]
    refine inv.add new rfl rfl ((length_headed room).symm ▸ room)
      (fun config => decode_headed config small) small (fun i below x hx => ?_)
      ((length_headed room).symm ▸ rfl) rfl
    rw [getElem?_headed]
    exact known b i x (by rw [whole] at room; omega) hx

theorem Inv.zrealloc (inv : Inv lib c) (own : p ∈ c.owned) (small : size + 8 < SIZE)
    (h : lib.zrealloc c.heap (some p) size = some (q, m)) :
    Inv lib ((c.drops p).gets m q size fun i => if i < c.size p then c.known p i else none) := by
  unfold Libc.zrealloc at h
  dsimp only at h
  rw [fits_mod small] at h
  split at h
  · cases h
  · rename_i ptr b got
    obtain ⟨new, long, kept⟩ := lib.realloc_new got
    have room : lib.PREFIX_SIZE + size ≤ b.length := by omega
    rw [handOut_eq (Finset.mem_insert_self ptr _)
      (by simpa only [Heap.stat_free, Function.update_self] using room) small] at h
    obtain ⟨rfl, rfl⟩ := Prod.mk.inj (Option.some.inj h)
    simp only [Heap.stat_free, Function.update_self, Function.update_idem]
    change Inv lib (Client.gets { c.drops p with
      heap :=
        { c.heap.stat_free (lib.counted c.heap (p - lib.PREFIX_SIZE)) with
          calls := c.heap.calls + 1
          blocks := c.heap.blocks.release (p - lib.PREFIX_SIZE) } } _ _ _ _)
    refine (inv.drop own (c.heap.calls + 1)).add ?_ rfl rfl
      ((length_headed room).symm ▸ room) (fun config => decode_headed config small) small
      (fun i below x hx => ?_) ((length_headed room).symm ▸ rfl) rfl
    · exact new
    · rw [getElem?_headed]
      split_ifs at hx with old
      have := inv.room p own
      rw [kept _ (by omega) (by omega)]
      exact inv.known p own i old x hx

theorem Inv.step (inv : Inv lib c) {act : Act} (fits : act.fits) (step : Step lib c act d) :
    Inv lib d := by
  cases step with
  | zmalloc h => exact inv.allocate fits h (fun _ => rfl) fun _ _ _ _ hx => by cases hx
  | zcalloc h =>
      refine inv.allocate fits h (fun b => List.length_replicate) fun b i x inside hx => ?_
      rw [List.getElem?_replicate, if_pos inside]
      exact hx
  | zreallocNull h => exact inv.allocate fits h (fun _ => rfl) fun _ _ _ _ hx => by cases hx
  | zrealloc own h => exact inv.zrealloc own fits h
  | zfreeNull => exact inv
  | zfree own => exact inv.drop own c.heap.calls
  | @zstrdup s p m h =>
      obtain ⟨⟨q, n⟩, got, same⟩ := Option.map_eq_some_iff.mp h
      obtain ⟨rfl, rfl⟩ := Prod.mk.inj same
      have first := inv.allocate (k := fun _ => none) fits got (fun _ => rfl)
        fun _ _ _ _ hx => by cases hx
      have own : q ∈ (c.gets n q (s.length + 1) fun _ => none).owned := Finset.mem_insert_self q _
      have size : (c.gets n q (s.length + 1) fun _ => none).size q = s.length + 1 :=
        Function.update_self q _ _
      have copied := @Inv.write lib _ q (fun i => (s ++ [0])[i]?) first own 0 (s ++ [0])
        (by simp [size]) fun j below x hx => by
          rw [size] at below
          simpa [below] using hx
      simpa [Client.gets] using copied
  | @write p i byte own below =>
      refine inv.write own (Nat.succ_le_of_lt below) fun j small x hx => ?_
      by_cases same : j = i
      · rw [same, Function.update_self] at hx
        simpa [same] using hx
      · rw [Function.update_of_ne same] at hx
        have other : ¬ (i ≤ j ∧ j < i + 1) := by omega
        rcases Nat.lt_or_ge j i with before | behind
        · rwa [if_pos before]
        · rw [if_neg (by omega), if_neg (by simp; omega)]
          exact hx

theorem Run.inv (run : Run lib c) : Inv lib c := by
  refine WhileLoop.Reach.invariant (Inv lib) ?_ (fun c act d inv fits step => inv.step fits step) run
  rintro c rfl
  exact ⟨rfl, by simp [start], by simp [start], by simp [start], by simp [start], rfl, rfl⟩

/-- `zmalloc_used_memory` is the sum of what the buffers in use count for. -/
theorem used_memory_exact (run : Run lib c) :
    c.heap.used_memory = (∑ p ∈ c.owned, lib.charge c p) % SIZE ∧
      c.heap.blocks = ⟨c.owned.image (· - lib.PREFIX_SIZE), false⟩ :=
  ⟨run.inv.used, run.inv.blocks⟩

/-- A library that does not tell the size of a block, and moves whatever is resized. -/
def plainLibc : Libc where
  have_malloc_size := false
  malloc _ used n := some (used.sup id + 1, List.replicate n 170)
  malloc_new := by
    rintro k used n p b ⟨⟩
    exact ⟨above_notMem used, by simp⟩
  realloc _ used _ a n := some (used.sup id + 1, a.take n ++ List.replicate (n - a.length) 170)
  realloc_new := by
    rintro k used p a n q b ⟨⟩
    refine ⟨fun h => above_notMem used (Finset.mem_of_mem_erase h), ?_, fun i small inside => ?_⟩
    · rw [List.length_append, List.length_take, List.length_replicate]
      omega
    · rw [List.getElem?_append_left (by rw [List.length_take]; omega),
        List.getElem?_take_of_lt small]

/-- A string is copied and the copy is resized. -/
theorem moved_run : ∃ c, Run plainLibc c ∧ c.owned = {10} ∧ c.size 10 = 20 ∧
    c.known 10 1 = some 105 := by
  obtain ⟨r, h⟩ : ∃ r, plainLibc.zstrdup start.heap [104, 105] = some r := ⟨_, rfl⟩
  obtain ⟨q, g⟩ : ∃ q, plainLibc.zrealloc r.2 (some r.1) 20 = some q := by
    obtain rfl := Option.some.inj h
    exact ⟨_, rfl⟩
  have copied : Run plainLibc _ := .move (i := .zstrdup [104, 105]) (.start rfl)
    (show 2 + 1 + 8 < SIZE by decide) (.zstrdup h)
  have moved : Run plainLibc _ := .move (i := .zrealloc (some r.1) 20) copied
    (show 20 + 8 < SIZE by decide) (.zrealloc (Finset.mem_insert_self _ _) g)
  obtain rfl := Option.some.inj h
  obtain rfl := Option.some.inj g
  exact ⟨_, moved, by decide, by decide, by decide⟩

theorem used_memory_exact_moved : ∃ c, Run plainLibc c ∧ c.owned = {10} ∧
    c.heap.used_memory = 28 ∧ c.heap.blocks.misused = false := by
  obtain ⟨c, run, owned, size, -⟩ := moved_run
  obtain ⟨used, blocks⟩ := used_memory_exact run
  have charge : plainLibc.charge c 10 = 28 := by
    change c.size 10 + 8 = 28
    rw [size]
  rw [owned, Finset.sum_singleton, charge] at used
  exact ⟨c, run, owned, used, congrArg Account.misused blocks⟩

/-- Buffers keep what is written to them, through every call for another buffer and when they are
moved, are never shorter than asked for, and no header is lost. -/
theorem buffers_kept (run : Run lib c) (own : p ∈ c.owned) :
    c.heap.fault = false ∧
      (∀ i < c.size p, ∀ b, c.known p i = some b →
        (c.heap.bytes (p - lib.PREFIX_SIZE))[lib.PREFIX_SIZE + i]? = some b) ∧
      c.size p ≤ lib.zmalloc_usable c.heap p ∧
      (lib.have_malloc_size = false → lib.zmalloc_usable c.heap p < c.size p + 8) := by
  have inv := run.inv
  refine ⟨inv.fine, inv.known p own, ?_⟩
  have room := inv.room p own
  unfold Libc.zmalloc_usable Libc.zmalloc_size
  cases config : lib.have_malloc_size with
  | true =>
      rw [PREFIX_SIZE_of_true config, Nat.sub_zero] at room
      simpa using room
  | false =>
      obtain ⟨header, small⟩ := inv.header config p own
      rw [PREFIX_SIZE_of_false config] at header ⊢
      simp only [Bool.false_eq_true, if_false, header]
      unfold SIZE at small ⊢
      split_ifs <;> omega

theorem buffers_kept_moved : ∃ c, Run plainLibc c ∧ c.owned = {10} ∧
    (c.heap.bytes (10 - 8))[8 + 1]? = some 105 := by
  obtain ⟨c, run, owned, size, here⟩ := moved_run
  obtain ⟨-, known, -⟩ := buffers_kept run (owned ▸ Finset.mem_singleton_self 10)
  exact ⟨c, run, owned, known 1 (by omega) 105 here⟩

end Steps

end AeEventLoop.Zmalloc
