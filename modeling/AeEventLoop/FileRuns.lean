import AeEventLoop.FileTable

/-! Runs of file-table calls from `aeCreateEventLoop` on, of any length and in any order, with a
kernel that may refuse any ADD or MOD. After every such run the mask array, `maxfd` and the
kernel's interest set tell the same story. -/

namespace AeEventLoop

inductive TableOp
  | file (op : FileOp)
  | resize (mem : Memory) (setsize : Int)

namespace TableOp

def Valid : TableOp → Prop
  | file op => op.Valid
  | resize _ _ => True

instance : DecidablePred Valid
  | file op => inferInstanceAs (Decidable op.Valid)
  | resize _ _ => inferInstanceAs (Decidable True)

def apply (t : FileTable) : TableOp → FileTable
  | file op => op.apply t
  | resize mem setsize => (t.aeResizeSetSize mem setsize).2

theorem apply_inv {t : FileTable} (h : t.Inv) {op : TableOp} (valid : op.Valid) :
    (op.apply t).Inv := by
  cases op with
  | file op => exact FileOp.apply_inv h valid
  | resize mem setsize => exact FileTable.aeResizeSetSize_inv h mem setsize

theorem run_inv {t : FileTable} (h : t.Inv) (ops : List TableOp) (valid : ∀ op ∈ ops, op.Valid) :
    (ops.foldl apply t).Inv := by
  induction ops generalizing t with
  | nil => exact h
  | cons op ops ih =>
      exact ih (apply_inv h (valid op List.mem_cons_self))
        (fun o ho => valid o (List.mem_cons_of_mem op ho))

end TableOp

theorem epollEvents_in (mask : Mask) :
    epollEvents mask &&& EPOLLIN ≠ 0 ↔ mask &&& AE_READABLE ≠ 0 := by
  unfold epollEvents
  split_ifs with r w w
  · exact iff_of_true (by decide) r
  · exact iff_of_true (by decide) r
  · exact iff_of_false (by decide) r
  · exact iff_of_false (by decide) r

theorem epollEvents_out (mask : Mask) :
    epollEvents mask &&& EPOLLOUT ≠ 0 ↔ mask &&& AE_WRITABLE ≠ 0 := by
  unfold epollEvents
  split_ifs with r w w
  · exact iff_of_true (by decide) w
  · exact iff_of_false (by decide) w
  · exact iff_of_true (by decide) w
  · exact iff_of_false (by decide) w

theorem and_flag_eq_zero (mask : Mask) {i : ℕ} (hi : i < 32) :
    mask &&& BitVec.twoPow 32 i = 0 ↔ mask.getLsbD i = false := by
  rw [BitVec.and_twoPow]
  cases bit : mask.getLsbD i with
  | false => simp
  | true =>
      simp only [if_true, Bool.true_eq_false, iff_false]
      intro zero
      have := congrArg (fun m : Mask => m.getLsbD i) zero
      simp [hi] at this

theorem delmask_clears (old mask : Mask) (h : mask &&& AE_WRITABLE ≠ 0) :
    (old &&& ~~~FileTable.delmask mask) &&& AE_WRITABLE = 0 ∧
      (old &&& ~~~FileTable.delmask mask) &&& AE_BARRIER = 0 := by
  have two : AE_WRITABLE = BitVec.twoPow 32 1 := by decide
  have four : AE_BARRIER = BitVec.twoPow 32 2 := by decide
  have bit : mask.getLsbD 1 = true := by
    rw [two, Ne, and_flag_eq_zero mask (by decide)] at h
    simpa using h
  rw [FileTable.delmask, if_pos h, two, four, and_flag_eq_zero _ (by decide),
    and_flag_eq_zero _ (by decide)]
  simp [bit]

/-- The agreement of the three copies, in the words of the callers. -/
structure FileTable.Agrees (t : FileTable) : Prop where
  largest : t.maxfd = -1 ∧ (∀ fd, t.aeGetFileEvents fd = AE_NONE) ∨
    ∃ fd : ℕ, t.maxfd = fd ∧ t.aeGetFileEvents fd ≠ AE_NONE ∧
      ∀ fd', t.aeGetFileEvents fd' ≠ AE_NONE → fd' ≤ fd
  within : t.maxfd < t.setsize
  domain : ∀ fd, (t.interest fd).isSome ↔ t.aeGetFileEvents fd ≠ AE_NONE
  readable : ∀ fd ee, t.interest fd = some ee →
    (ee &&& EPOLLIN ≠ 0 ↔ t.aeGetFileEvents fd &&& AE_READABLE ≠ 0)
  writable : ∀ fd ee, t.interest fd = some ee →
    (ee &&& EPOLLOUT ≠ 0 ↔ t.aeGetFileEvents fd &&& AE_WRITABLE ≠ 0)
  addSuits : ∀ (fd : ℕ) mask refuse, (fd : Int) < t.setsize →
    (t.aeApiAddEvent fd mask refuse).1 = if refuse then .refused else .ok
  delSuits : ∀ fd mask, t.aeGetFileEvents fd ≠ AE_NONE → (t.aeApiDelEvent fd mask).1 = .ok

theorem FileTable.Inv.agrees {t : FileTable} (h : t.Inv) : t.Agrees where
  largest := by
    rcases lt_or_ge t.maxfd 0 with neg | pos
    · have none : t.maxfd = -1 := le_antisymm (by omega) h.maxfd_ge
      exact .inl ⟨none, fun fd => h.above fd (by omega)⟩
    · obtain ⟨fd, hfd⟩ := Int.eq_ofNat_of_zero_le pos
      refine .inr ⟨fd, hfd, h.top fd hfd, fun fd' live => ?_⟩
      by_contra past
      exact live (h.above fd' (by omega))
  within := h.maxfd_lt
  domain fd := by
    rw [h.interest]
    split_ifs with none <;> simp [none]
  readable fd ee known := by
    rw [h.interest] at known
    split_ifs at known with none
    rw [← Option.some.inj known]
    exact epollEvents_in _
  writable fd ee known := by
    rw [h.interest] at known
    split_ifs at known with none
    rw [← Option.some.inj known]
    exact epollEvents_out _
  addSuits fd mask refuse hfd := by
    rw [aeApiAddEvent_of_inv h hfd]
    split_ifs <;> rfl
  delSuits fd mask live := by
    have hfd : (fd : Int) < t.setsize := by
      by_contra big
      exact live (aeGetFileEvents_of_ge (not_lt.mp big))
    rw [aeGetFileEvents_of_lt hfd] at live
    rw [aeApiDelEvent_of_inv h hfd live]

theorem FileTable.aeDeleteFileEvent_clears {t : FileTable} (h : t.Inv) (fd : ℕ) {mask : Mask}
    (hm : mask &&& AE_WRITABLE ≠ 0) :
    (t.aeDeleteFileEvent fd mask).aeGetFileEvents fd &&& AE_WRITABLE = 0 ∧
      (t.aeDeleteFileEvent fd mask).aeGetFileEvents fd &&& AE_BARRIER = 0 := by
  rw [aeDeleteFileEvent_of_inv h]
  split_ifs with none
  · rw [none]
    exact ⟨by decide, by decide⟩
  · have hfd : (fd : Int) < t.setsize := by
      by_contra big
      exact none (aeGetFileEvents_of_ge (not_lt.mp big))
    rw [aeGetFileEvents_unregister hfd, if_pos rfl]
    exact delmask_clears _ _ hm

/-- After every run of calls from `aeCreateEventLoop` on, masks, `maxfd` and interest set agree,
no call made next hits `EEXIST` or `ENOENT`, and a delete that takes `AE_WRITABLE` away takes
`AE_BARRIER` with it. -/
theorem fileTable_run_agrees (mem : Memory) (setsize : Int) (t₀ : FileTable)
    (made : FileTable.create mem setsize = some t₀) (ops : List TableOp)
    (valid : ∀ op ∈ ops, op.Valid) :
    (ops.foldl TableOp.apply t₀).Agrees ∧
      ∀ fd mask, mask &&& AE_WRITABLE ≠ 0 →
        ((ops.foldl TableOp.apply t₀).aeDeleteFileEvent fd mask).aeGetFileEvents fd
            &&& AE_WRITABLE = 0 ∧
          ((ops.foldl TableOp.apply t₀).aeDeleteFileEvent fd mask).aeGetFileEvents fd
            &&& AE_BARRIER = 0 := by
  have inv := TableOp.run_inv (FileTable.create_inv made) ops valid
  exact ⟨inv.agrees, fun fd mask hm => FileTable.aeDeleteFileEvent_clears inv fd hm⟩

theorem fileTable_run_agrees_mixed :
    ∃ t₀, FileTable.create zeroedMemory 4 = some t₀ ∧
      ([TableOp.file (.create 2 (AE_READABLE ||| AE_WRITABLE ||| AE_BARRIER) 7 9 false),
        .file (.create 0 AE_READABLE 8 9 true), .resize zeroedMemory 3,
        .file (.delete 2 AE_READABLE), .resize zeroedMemory 64].foldl TableOp.apply t₀).Agrees :=
  ⟨_, rfl, (fileTable_run_agrees zeroedMemory 4 _ rfl _ (by decide)).1⟩

end AeEventLoop
