import TurboRiscv.Refinement

/-!
# The Cached Loop

What `build_exec` and the loop of `exec_cached_int` in `riscv/interpreter/main.rs` promise the
executor: the shape of every block `build_exec` appends to the index, and the progress each
iteration of `exec_cached_int`'s loop makes.

## Main results

- `buildExec_wellFormed`: a block `build_exec` appends is well formed (`WellFormedBlock`): its
  records follow one another from its start, each as long as its encoding says and inside the
  start's page, only the last may end translation, `end` is the last record's address, and the
  block stops only where the builder must stop;
- `cachedLoop_progress`: an iteration of `exec_cached_int`'s loop that does not panic returns to
  `run`, or single-steps one instruction at the end of a page and returns, or enters a non-empty
  block whose first record runs next; back in `run`, `cache_enabled` is set again. An iteration
  can panic (`cachedLoop_can_panic`): `build_exec` ignores the trap of a failed fetch and
  `check_block(..).unwrap()` then finds no block.
-/

namespace TurboRiscv

variable {P : Platform} {E : Env P}

/-! ## §1 The shape of a built block -/

/-- The block `b` appended for the physical address `p` of memory `m`, record by record: record
    `k` is decoded from `instrAddr p b.instrs k` with the bytes left in the page there, is two
    bytes long if the halfword there is compressed and four otherwise, ends inside `p`'s page, and
    does not end translation unless it is the last; `end` is the last record's address (`p` for
    an empty block); the block ends at an instruction that ends translation, where fewer than two
    bytes are left, or before an uncompressed instruction with fewer than four left; and it is not
    empty when four bytes are left in the page. -/
structure WellFormedBlock (E : Env P) (m : P.Mem) (p : U64) (b : RiscvBlock P) : Prop where
  begin_eq : b.begin = p
  record : ∀ k (hk : k < b.instrs.length), ∃ lo d,
    E.read16 m (instrAddr p b.instrs k) = .ok lo ∧
    DecodesAt E m (instrAddr p b.instrs k) (4096 - pageOff p - sumInc (b.instrs.take k))
      (decide (lo &&& 3 ≠ 3)) d ∧
    b.instrs[k] = { d.instr with incBy := if lo &&& 3 ≠ 3 then 2 else 4 } ∧
    (k + 1 < b.instrs.length → d.stopsTranslating = false)
  in_page : ∀ k (hk : k < b.instrs.length),
    (instrAddr p b.instrs k).toNat + b.instrs[k].incBy.toNat ≤ 4096 * (pageNum p + 1)
  end_eq : b.end = if b.instrs.isEmpty then p else instrAddr p b.instrs (b.instrs.length - 1)
  stops : (b.instrs ≠ [] ∧ ∃ c d, DecodesAt E m (instrAddr p b.instrs (b.instrs.length - 1))
      (4096 - pageOff p - sumInc (b.instrs.take (b.instrs.length - 1))) c d ∧
      d.stopsTranslating = true) ∨
    4096 - pageOff p - sumInc b.instrs < 2 ∨
    ∃ lo, E.read16 m (instrAddr p b.instrs b.instrs.length) = .ok lo ∧ lo &&& 3 = 3 ∧
      4096 - pageOff p - sumInc b.instrs < 4
  nonempty : 4 ≤ 4096 - pageOff p → b.instrs ≠ []

theorem incOf_decide (lo : BitVec 16) :
    incOf (decide (lo &&& 3 ≠ 3)) = if lo &&& 3 ≠ 3 then 2 else 4 := by
  by_cases h : lo &&& 3 ≠ 3 <;> simp [h, incOf]

/-- A block decoded from `p` is well formed. -/
theorem BlockBuilt.wellFormed {m : P.Mem} {p : U64} {b : RiscvBlock P} (h : BlockBuilt E m p b) :
    WellFormedBlock E m p b := by
  have hp := p.isLt
  refine ⟨h.begin_eq, fun k hk => ?_, fun k hk => ?_, ?_, h.decodes.stops, fun h4 he => ?_⟩
  · obtain ⟨c, d, hat, hz, hst⟩ := h.decodes.getElem hk
    obtain ⟨lo, hlo, rfl⟩ := hat.compressed
    exact ⟨lo, d, hlo, hat, by rw [hz, incOf_decide], hst⟩
  · obtain ⟨c, d, hat, hz, -⟩ := h.decodes.getElem hk
    have hle := hat.le
    have h2 : 2 ≤ (incOf c).toNat := by cases c <;> decide
    rw [hz]
    simp only [instrAddr, BitVec.toNat_add, BitVec.toNat_ofNat, pageNum, pageOff] at hle ⊢
    omega
  · rw [h.end_eq, instrAddr, ← List.dropLast_eq_take]
  · have := (he ▸ h.decodes).lt_four_of_nil
    omega

/-- **A built block is well formed.** For every hart, every physical start `p` and every
    platform (memory contents and decoders): when `build_exec(p)` returns `Ok`, it has appended
    under `p >> RISCV_PAGE_SHIFT` one block, decoded from the memory as it was, and that block is
    well formed. -/
theorem buildExec_wellFormed {s s' : RiscvInt P} {p : U64}
    (h : s.buildExec E p = some (s', .ok ())) :
    ∃ b, s'.instr = Function.update s.instr (p >>> riscvPageShift)
        (s.instr (p >>> riscvPageShift) ++ [b]) ∧ WellFormedBlock E s.memsource p b := by
  obtain ⟨-, -, ⟨⟨t, ht⟩, -⟩ | ⟨-, b, hb, hi⟩⟩ := RiscvInt.buildExec_spec E h
  · cases ht
  · exact ⟨b, hi, hb.wellFormed⟩

/-- A hart with the cache on over `addi x1, x0, 1; ecall` at `0x1000`. -/
def liEcallHart : RiscvInt toy :=
  (boot false .x64 (toyMem 0x1000 [0x00100093, 0x00000073]) () 0 0x1000 true).hart

theorem buildExec_wellFormed_liEcall :
    ∃ s', liEcallHart.buildExec (toyEnv identityWalk) 0x1000 = some (s', .ok ()) ∧
      ∃ b, s'.instr = Function.update liEcallHart.instr (0x1000 >>> riscvPageShift)
          (liEcallHart.instr (0x1000 >>> riscvPageShift) ++ [b]) ∧
        WellFormedBlock (toyEnv identityWalk) liEcallHart.memsource 0x1000 b := by
  obtain ⟨s', h⟩ := RiscvInt.buildExec_ok (s := liEcallHart) (toyEnv_decodesAll _) rfl
    (toyMem_fetchable _ _ _) (a := 0x1000) (by decide)
  exact ⟨s', h, buildExec_wellFormed h⟩

/-! ## §2 An iteration of `exec_cached_int` -/

section Iteration

variable {sig : Signal} {c c' c1 : Config P} {ev : Option (Event P)}

/-- Back in `run` from `exec_cached_int`, `cache_enabled` is set before the next iteration. -/
theorem step_ret_cacheEnabled {s : RiscvInt P} {r : Except Trap Unit}
    (h : step E sig ⟨s, .ret true r⟩ = some (c', ev)) :
    c'.frame = .run ∧ c'.hart.cacheEnabled = true := by
  simp only [step, Option.map_eq_some', Prod.mk.injEq] at h
  obtain ⟨s', h, rfl, -⟩ := h
  exact ⟨rfl, by simpa using (RiscvInt.drain_frame h).cacheEnabled⟩

/-- The page-end fallback: with `stop_exec` set and the cache off, a step of
    `exec_one_by_one` that does not panic runs at most one instruction, advancing `pc` past it
    to `get_pc_of_next_instr`, and returns. -/
theorem step_fallback_returns {s : RiscvInt P}
    (h : step E sig ⟨{ s with stopExec := true, cacheEnabled := false }, .oneByOne true⟩ =
      some (c', ev)) :
    (∃ r, c'.frame = .ret true r) ∧
      ∀ e ∈ ev, e.pre.pc = s.pc ∧ e.pre.getPcOfNextInstr = some e.post.pc := by
  simp only [step] at h
  rcases RiscvInt.execOneByOneStep_eq_some h with ⟨t, -, rfl, rfl⟩ |
    ⟨w, d, s2, s3, -, -, hs2, h3, rfl, rfl⟩
  · exact ⟨⟨_, rfl⟩, fun e he => by cases he⟩
  rw [RiscvInt.decode_some_of_not_cacheEnabled rfl] at hs2
  cases hs2
  obtain ⟨hlt, rfl⟩ := RiscvInt.finishInstr_eq_some.mp h3
  refine ⟨⟨.ok (), by simp [RiscvInt.execHandler_stopExec_of]⟩, fun e he => ?_⟩
  simp only [Bool.false_eq_true, if_false, Option.mem_def, Option.some.injEq] at he
  subst he
  rw [RiscvInt.execHandler_pc, ite_compressed_eq_incOf] at hlt
  refine ⟨rfl, ?_⟩
  rw [RiscvInt.getPcOfNextInstr_eq]
  simp only [RiscvInt.execHandler_pc, ite_compressed_eq_incOf]
  exact checkedAdd_of_lt hlt

/-- A block with records left runs its next record, advancing `pc` past it, and panics exactly
    where `pc += inc_by` overflows. -/
theorem step_block_executes (s : RiscvInt P) (curpc : U64) (blk : RiscvBlock P)
    (z : RiscvInstr P) (rest : List (RiscvInstr P)) (sig : Signal) :
    (step E sig ⟨s, .block curpc blk (z :: rest)⟩ = none ↔
      2 ^ 64 ≤ s.pc.toNat + z.incBy.toNat) ∧
    ∀ c' ev, step E sig ⟨s, .block curpc blk (z :: rest)⟩ = some (c', ev) →
      ∃ e, ev = some e ∧ e.pre.pc = s.pc ∧ e.post.pc = s.pc + z.incBy := by
  refine ⟨by simp [step, RiscvInt.execBlockStep], ?_⟩
  simp only [step, RiscvInt.execBlockStep, Option.map_eq_some', Prod.mk.injEq]
  rintro c' ev ⟨s2, h2, -, rfl⟩
  obtain ⟨-, rfl⟩ := RiscvInt.finishInstr_eq_some.mp h2
  exact ⟨_, rfl, rfl, by simp⟩

/-- The block an iteration enters at a reachable configuration is not empty: it was built from
    the translation of `pc`, at least four bytes before the end of its page. -/
theorem Reachable.block_ne_nil (hr : Reachable E c) {curpc : U64} {blk : RiscvBlock P}
    (hf : c.frame = .block curpc blk blk.instrs) (hoff : pageOff curpc ≤ 4092) :
    ∃ z rest, blk.instrs = z :: rest ∧ (z.incBy = 2 ∨ z.incBy = 4) := by
  have hF : FrameInv E c := hr.inv.frame
  rw [FrameInv, hf] at hF
  obtain ⟨⟨m, hb⟩, ⟨a, hv⟩, -⟩ := hF
  have hpo := E.virt2phys_pageOff hv
  cases hi : blk.instrs with
  | nil =>
    have := (hi ▸ hb.decodes).lt_four_of_nil
    omega
  | cons z rest => exact ⟨z, rest, rfl, hb.decodes.incBy_mem z (by simp [hi])⟩

/-- **The cached loop never spins.** At every reachable configuration at the top of
    `exec_cached_int`'s loop, an iteration that does not panic invokes no handler at its first
    step, and either returns to `run` (a failed translation); or, fewer than four bytes before the
    end of `pc`'s page, sets `stop_exec`, turns the cache off and steps `exec_one_by_one`, which
    runs at most one instruction, advancing `pc` past it, and returns; or enters a non-empty block
    at `pc`, whose first record runs next and advances `pc` past it, panicking exactly where
    `pc += inc_by` overflows. Back in `run` from `exec_cached_int`, `cache_enabled` is set again
    before the next iteration. -/
theorem cachedLoop_progress (hr : Reachable E c) (hc : c.frame = .cached)
    (h : step E sig c = some (c1, ev)) :
    ev = none ∧
    ((∃ r, c1.frame = .ret true r) ∨
      (4092 < pageOff c.hart.pc ∧ c1.hart.stopExec = true ∧ c1.hart.cacheEnabled = false ∧
        c1.frame = .oneByOne true ∧
        ∀ sig' c2 ev', step E sig' c1 = some (c2, ev') → (∃ r, c2.frame = .ret true r) ∧
          ∀ e ∈ ev', e.pre.pc = c.hart.pc ∧ e.pre.getPcOfNextInstr = some e.post.pc) ∨
      (∃ blk z rest, c1.frame = .block c.hart.pc blk (z :: rest) ∧ (z.incBy = 2 ∨ z.incBy = 4) ∧
        ∀ sig', (step E sig' c1 = none ↔ 2 ^ 64 ≤ c.hart.pc.toNat + z.incBy.toNat) ∧
          ∀ c2 ev', step E sig' c1 = some (c2, ev') →
            ∃ e, ev' = some e ∧ e.pre.pc = c.hart.pc ∧ e.post.pc = c.hart.pc + z.incBy)) ∧
    ∀ (d d' : Config P) (r : Except Trap Unit) (sig' : Signal) (ev' : Option (Event P)),
      d.frame = .ret true r → step E sig' d = some (d', ev') →
        d'.frame = .run ∧ d'.hart.cacheEnabled = true := by
  have hr1 := hr.step sig h
  obtain ⟨s, fr⟩ := c
  cases hc
  simp only [step, Option.map_eq_some', Prod.mk.injEq] at h
  obtain ⟨c1, h, rfl, rfl⟩ := h
  refine ⟨rfl, ?_, fun ⟨d, fr⟩ d' r sig' ev' hd hs => ?_⟩
  · rcases RiscvInt.execCachedIntStep_eq_some h with ⟨hoff, rfl⟩ | ⟨-, -, rfl⟩ |
      ⟨hoff, physpc, s1, blk, -, -, hs1, rfl⟩
    · exact .inr (.inl ⟨hoff, rfl, rfl, rfl, fun _ _ _ hs => step_fallback_returns hs⟩)
    · exact .inl ⟨_, rfl⟩
    · obtain ⟨z, rest, hblk, hz⟩ := hr1.block_ne_nil rfl hoff
      have hpc : s1.pc = s.pc := by
        rcases hs1 with rfl | ⟨-, r, hb⟩
        · rfl
        · rw [(RiscvInt.buildExec_spec E hb).2.1]
      refine .inr (.inr ⟨blk, z, rest, by simp only [hblk], hz, fun sig' => ?_⟩)
      rw [hblk]
      simpa only [hpc] using step_block_executes { s1 with stopExec := false } s.pc blk z rest sig'
  · cases hd
    exact step_ret_cacheEnabled hs

/-- An iteration can panic: from `islandBoot true`, `build_exec` meets an unmapped halfword
    after the first instruction, and `check_block(..).unwrap()` finds no block. -/
theorem cachedLoop_can_panic :
    ¬ ∀ (c : Config toy) (sig : Signal), Reachable (toyEnv identityWalk) c →
      c.frame = .cached → ∃ c1 ev, step (toyEnv identityWalk) sig c = some (c1, ev) := by
  intro h
  obtain ⟨c1, ev, hs⟩ := h ⟨(islandBoot true).hart, .cached⟩ none
    (.step none (.boot false .x64 islandMem () 0 0x1000 true) (by rfl)) rfl
  simp [step, island_cached_panics] at hs

end Iteration

end TurboRiscv
