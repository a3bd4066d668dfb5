import TurboRiscv.Concrete

/-!
# What Every Run Guarantees

Properties of every reachable configuration of the executor, in either mode and on either
execution path, for every schedule of signals.

## Main results

- `blockIndex_inv`: the representation invariant of the block index, and what it buys
  `check_block`;
- `handler_entry`: the hart at the entry of every handler: `regs[0]` is zero, `pc` is the virtual
  address of the instruction, which is the record the block in hand was built with or the word
  `exec_one_by_one` fetched, and `is_compressed` tells its length;
- `pc_arith`: an instruction that completes advances `pc` by its length with no wrap-around, at
  both widths, and `build_exec`'s `end` never wraps; `pc_arith_overflows` is where that is not
  the architecture's arithmetic: at XLEN 32 `pc` reaches `2^32`, and at the top of the address
  space `pc += 4`, `handle_trap`'s vector sum and `iaddr += inc_by` panic.
-/

namespace TurboRiscv

variable {P : Platform} {E : Env P} {sig : Signal} {c c' : Config P} {ev : Event P}

/-! ## §1 The block index -/

/-- The representation invariant of the index `instr` and what it buys `check_block`. -/
structure BlockIndexOk (E : Env P) (s : RiscvInt P) : Prop where
  key : ∀ k, ∀ b ∈ s.instr k, b.begin >>> riscvPageShift = k
  begin_le_end : ∀ k, ∀ b ∈ s.instr k, b.begin ≤ b.end
  same_page : ∀ k, ∀ b ∈ s.instr k,
    b.begin &&& ~~~riscvPageOffset = b.end &&& ~~~riscvPageOffset
  begin_nodup : ∀ k, ((s.instr k).map RiscvBlock.begin).Nodup
  checkBlock_no_panic : ∀ p, s.checkBlock p ≠ none
  checkBlock_finds : ∀ p b,
    s.checkBlock p = some (some b) ↔ b ∈ s.instr (p >>> riscvPageShift) ∧ b.begin = p
  checkBlock_after_build : ∀ p s', s.buildExec E p = some (s', .ok ()) →
    ∃ b, s'.checkBlock p = some (some b) ∧ b.begin = p

/-- **The block index invariant.** In every reachable configuration each block stored under
    key `k` begins in page `k`, does not end before it begins nor outside its page, and no two
    blocks of a page share a `begin`; so `check_block` never reaches its bug-check, finds exactly
    the block beginning at its argument, and finds one right after `build_exec` returned `Ok`. -/
theorem blockIndex_inv (hr : Reachable E c) : BlockIndexOk E c.hart := by
  have hI := hr.inv.index
  refine ⟨fun k b hb => (hI.blockOk k b hb).key, fun k b hb => ?_, fun k b hb => ?_, hI.nodup,
    fun _ => RiscvInt.checkBlock_ne_none hI, fun _ _ => RiscvInt.checkBlock_eq_some_some_iff hI,
    fun _ _ h => RiscvInt.checkBlock_buildExec hI h⟩
  · obtain ⟨-, m, hb⟩ := hI.blockOk k b hb
    exact hb.begin_le_end
  · obtain ⟨-, m, hb⟩ := hI.blockOk k b hb
    exact hb.page_eq

/-- A system-mode hart with the cache on, entered at `addi x1, x0, 1; ecall` at `0x1000`. -/
def liEcallBoot : Config toy :=
  boot false .x64 (toyMem 0x1000 [0x00100093, 0x00000073]) () 0 0x1000 true

/-- From `liEcallBoot`, the first iteration of `exec_cached_int` builds the block at `0x1000`
    and enters it. -/
theorem liEcallBoot_enters_block : ∃ c blk, Reachable (toyEnv identityWalk) c ∧
    c.frame = .block 0x1000 blk blk.instrs ∧ blk ∈ c.hart.instr 1 ∧ blk.begin = 0x1000 := by
  have hr1 : Reachable (toyEnv identityWalk) ⟨liEcallBoot.hart, .cached⟩ :=
    .step none (.boot ..) rfl
  obtain ⟨c1, h1⟩ := Option.isSome_iff_exists.mp
    (RiscvInt.execCachedIntStep_isSome hr1.inv.index fun _ phys hv => by
      rw [identityWalk_virt2phys] at hv
      cases hv
      exact RiscvInt.buildExec_ok (toyEnv_decodesAll _) rfl (toyMem_fetchable _ _ _) (by decide))
  have hr2 : Reachable (toyEnv identityWalk) c1 :=
    .step none hr1 (show step _ none _ = some (c1, none) by simp only [step, h1, Option.map_some'])
  rcases RiscvInt.execCachedIntStep_eq_some h1 with ⟨hoff, -⟩ | ⟨-, hv, -⟩ |
    ⟨-, physpc, s1, blk, hv, hb, -, rfl⟩
  · exact absurd hoff (by decide)
  · rw [identityWalk_virt2phys] at hv; cases hv
  rw [identityWalk_virt2phys] at hv
  cases hv
  obtain ⟨hmem, hbeg⟩ := (RiscvInt.checkBlock_eq_some_some_iff hr2.inv.index).mp hb
  exact ⟨_, blk, hr2, rfl, hmem, hbeg⟩

theorem blockIndex_inv_liEcall : ∃ c, Reachable (toyEnv identityWalk) c ∧ c.hart.instr 1 ≠ [] ∧
    BlockIndexOk (toyEnv identityWalk) c.hart := by
  obtain ⟨c, blk, hr, -, hmem, -⟩ := liEcallBoot_enters_block
  exact ⟨c, hr, List.ne_nil_of_mem hmem, blockIndex_inv hr⟩

/-! ## §2 The entry of a handler -/

/-- The handler `ev` a step from `c` invokes is that of the instruction at the virtual address
    `pc` of the hart it is called on, and that instruction is 16-bit iff `cc`. -/
inductive InstrAt (E : Env P) (c : Config P) (ev : Event P) (cc : Bool) : Prop
  /-- From a block: the record after `done` in the block `c` runs, which `build_exec` decoded
      from memory `m` at the start of the block plus the length of `done`; under the
      translation `a` at block entry, the block's virtual start `curpc` is its physical start,
      and `pc` is `curpc` plus the length of `done`, the virtual address of that record. -/
  | cached {curpc : U64} {blk : RiscvBlock P} {done rest : List (RiscvInstr P)} {a : Arch P}
      {m : P.Mem} {d : Decoded P} :
      c.frame = .block curpc blk ({ d.instr with incBy := incOf cc } :: rest) →
      blk.instrs = done ++ { d.instr with incBy := incOf cc } :: rest →
      BlockBuilt E m blk.begin blk → E.virt2phys a curpc = some blk.begin →
      ev.pre.pc = curpc + BitVec.ofNat 64 (sumInc done) →
      E.virt2phys a ev.pre.pc = some (blk.begin + BitVec.ofNat 64 (sumInc done)) →
      DecodesAt E m (blk.begin + BitVec.ofNat 64 (sumInc done))
        (4096 - pageOff blk.begin - sumInc done) cc d →
      ev.func = d.instr.func → ev.args = d.instr.args → InstrAt E c ev cc
  /-- Uncached: the word `exec_one_by_one` fetched at `pc` with `read32`. -/
  | uncached {fc : Bool} {w : BitVec 32} {d : Decoded P} :
      c.frame = .oneByOne fc → E.read32 ev.pre.memsource ev.pre.pc = .ok w →
      cc = decide (w &&& 3 ≠ 3) → E.fetchEntry w = some d →
      ev.func = d.instr.func → ev.args = d.instr.args → InstrAt E c ev cc

/-- The next record of a block in a reachable configuration: the record after `done`, decoded
    from the physical address that the translation at block entry gives the hart's `pc`. -/
theorem block_record (hr : Reachable E c) {curpc : U64} {blk : RiscvBlock P}
    {z : RiscvInstr P} {rest : List (RiscvInstr P)} (hfr : c.frame = .block curpc blk (z :: rest)) :
    ∃ done a m cc d, blk.instrs = done ++ z :: rest ∧ BlockBuilt E m blk.begin blk ∧
      E.virt2phys a curpc = some blk.begin ∧
      c.hart.pc = curpc + BitVec.ofNat 64 (sumInc done) ∧
      E.virt2phys a c.hart.pc = some (blk.begin + BitVec.ofNat 64 (sumInc done)) ∧
      DecodesAt E m (blk.begin + BitVec.ofNat 64 (sumInc done))
        (4096 - pageOff blk.begin - sumInc done) cc d ∧
      z = { d.instr with incBy := incOf cc } := by
  have hF : FrameInv E c := hr.inv.frame
  rw [FrameInv, hfr] at hF
  obtain ⟨⟨m, hb⟩, ⟨a, hv⟩, done, hdone, hpc⟩ := hF
  have hdec := hb.decodes
  rw [hdone] at hdec
  obtain ⟨cc, d, hat, rfl⟩ := hdec.get
  have hlt : pageOff curpc + sumInc done < 4096 := by
    have := hat.two_le
    rw [← E.virt2phys_pageOff hv]
    omega
  exact ⟨done, a, m, cc, d, hdone, hb, hv, hpc, hpc ▸ E.virt2phys_add hv hlt, hat, rfl⟩

/-- The handler a step invokes is that of the instruction at the virtual `pc`, and
    `is_compressed` tells its length. -/
theorem event_instrAt (hr : Reachable E c) (h : step E sig c = some (c', some ev)) :
    ∃ cc, InstrAt E c ev cc ∧ ev.pre.isCompressed = cc := by
  rcases step_event h with ⟨curpc, blk, z, rest, hfr, hf, ha, hpre, -, -⟩ |
    ⟨fc, w, d, hfr, -, hw, hd, hf, ha, hpre, -, -⟩
  · obtain ⟨done, a, m, cc, d, hdone, hb, hv, hpc, hvpc, hat, rfl⟩ := block_record hr hfr
    refine ⟨cc, .cached hfr hdone hb hv (by rw [hpre]; exact hpc) (by rw [hpre]; exact hvpc) hat
      hf ha, ?_⟩
    rw [hpre]
    cases cc <;> rfl
  · exact ⟨_, .uncached hfr (by rw [hpre]; exact hw) rfl hd hf ha, by rw [hpre]⟩

/-- The hart after a handler: its effect applied, then `pc` advanced by the instruction's
    length; a handler that stops the block returns to `run`. -/
theorem event_post (hr : Reachable E c) (h : step E sig c = some (c', some ev)) :
    ∃ z fc, ev.func = z.func ∧ ev.args = z.args ∧
      (ev.pre.execHandler z).finishInstr (incOf ev.pre.isCompressed) = some ev.post ∧
      (ev.post.stopExec = true → c' = ⟨ev.post, .ret fc (.ok ())⟩) := by
  rcases step_event h with ⟨curpc, blk, z, rest, hfr, hf, ha, hpre, hpost, hc'⟩ |
    ⟨fc, w, d, -, -, -, -, hf, ha, hpre, hpost, hc'⟩
  · obtain ⟨-, -, -, cc, d, -, -, -, -, -, -, rfl⟩ := block_record hr hfr
    refine ⟨_, true, hf, ha, ?_, fun hs => by rw [hc', if_pos hs]⟩
    rw [← hpost, hpre]
    cases cc <;> rfl
  · refine ⟨d.instr, fc, hf, ha, ?_, fun hs => by rw [hc', if_pos hs]⟩
    rw [← hpost, hpre, ite_compressed_eq_incOf]

/-- A handler no `decoder16` entry uses runs only for 32-bit instructions. -/
theorem InstrAt.eq_false_of_decoder16 {f : Handler P}
    (hd16 : ∀ lo d, E.decoder16 lo = some d → d.instr.func ≠ f) {cc : Bool}
    (hat : InstrAt E c ev cc) (hf : ev.func = f) : cc = false := by
  cases cc
  · rfl
  rcases hat with ⟨-, -, -, -, -, -, ⟨lo, -, hc⟩, hf', -⟩ | ⟨-, -, hc, hd, hf', -⟩
  · exact absurd (hf'.symm.trans hf) (hd16 lo _ (if_pos rfl ▸ hc).2.2)
  · rw [Env.fetchEntry, if_pos (of_decide_eq_true hc.symm)] at hd
    exact absurd (hf'.symm.trans hf) (hd16 _ _ hd)

/-- **`pc` arithmetic is 64-bit and checked.** In every reachable configuration, at both widths:
    an instruction that completes sets `pc` to `get_pc_of_next_instr`, its address plus its
    length as a 64-bit sum that does not overflow and is never reduced modulo `2^XLEN`; and the
    `end` of every block, `iaddr - inc_by`, is the address of its last record, with no
    wrap-around. -/
theorem pc_arith (hr : Reachable E c) :
    (∀ sig c' ev, step E sig c = some (c', some ev) →
      ev.pre.getPcOfNextInstr = some ev.post.pc ∧
      ev.post.pc.toNat = ev.pre.pc.toNat + if ev.pre.isCompressed then 2 else 4) ∧
    (∀ k, ∀ b ∈ c.hart.instr k, b.end.toNat = b.begin.toNat + sumInc b.instrs.dropLast) := by
  refine ⟨fun sig c' ev h => ?_, fun k b hb => ?_⟩
  · obtain ⟨z, -, -, -, hpost, -⟩ := event_post hr h
    obtain ⟨hlt, hp⟩ := RiscvInt.finishInstr_eq_some.mp hpost
    rw [RiscvInt.execHandler_pc] at hlt
    have hpc : ev.post.pc = ev.pre.pc + incOf ev.pre.isCompressed := by
      rw [hp, RiscvInt.execHandler_pc]
    refine ⟨by rw [RiscvInt.getPcOfNextInstr_eq, checkedAdd_of_lt hlt, hpc], ?_⟩
    rw [hpc, toNat_add_of_lt hlt, toNat_incOf]
  · obtain ⟨-, m, hbuilt⟩ := hr.inv.index.blockOk k b hb
    exact hbuilt.toNat_end.1

/-- An XLEN-32 hart about to run the instruction at `0xFFFFFFFC`, the last below `2^32`. -/
def xlen32Top : Config toy := boot false .x32 (toyMem 0 []) () 0 0xFFFFFFFC false

/-- A system-mode hart about to run the instruction at `2^64 - 4`, the last of the address
    space, with the cache on or off. -/
def topBoot (cacheEnabled : Bool) : Config toy :=
  boot false .x64 (toyMem 0 []) () 0 0xFFFFFFFFFFFFFFFC cacheEnabled

/-- That hart with `mtvec` vectored at base `2^64 - 4`. -/
def vectorTop : RiscvInt toy :=
  { (topBoot false).hart with
    csr := Function.update (topBoot false).hart.csr csrMtvecAddress 0xFFFFFFFFFFFFFFFD }

/-- Where `pc` arithmetic is not the architecture's: at XLEN 32 the instruction at `0xFFFFFFFC`
    is followed by `pc = 2^32`, not by `0`; at the top of the address space `pc += 4` in
    `exec_one_by_one` panics instead of wrapping, a vectored `mtvec` at base `2^64 - 4` makes
    `handle_trap`'s sum `(mtvec & !1) + 4 * 7` panic on a machine timer interrupt, and with the
    cache on `build_exec`'s `iaddr += inc_by` panics past the block's one instruction. -/
theorem pc_arith_overflows :
    (exec (toyEnv identityWalk) [none, none] xlen32Top).map (fun r => r.1.hart.pc) =
      some 0x100000000 ∧
    exec (toyEnv identityWalk) [none, none] (topBoot false) = none ∧
    vectorTop.handleTrap ⟨.machineTimerInterrupt, 0⟩ 0 = none ∧
    exec (toyEnv identityWalk) [none, none] (topBoot true) = none := by
  have hb : (topBoot true).hart.buildExec (toyEnv identityWalk) (topBoot true).hart.pc = none := by
    unfold RiscvInt.buildExec
    dsimp only
    rw [if_pos (show (topBoot true).hart.cacheEnabled = true from rfl),
      RiscvInt.buildLoop_eq_none_of_overflow (toyEnv identityWalk) (c := false)
        (d := ⟨⟨4, (0x00130013 : BitVec 32), nop⟩, false⟩) rfl ?_ ?_]
    · exact ⟨0x13, rfl, by decide, by decide, 0x13, rfl, rfl⟩
    · decide
  have hc : (topBoot true).hart.execCachedIntStep (toyEnv identityWalk) = none :=
    RiscvInt.execCachedIntStep_eq_none_of_miss (by decide) (identityWalk_virt2phys _ _) rfl
      fun s1 r h => by rw [hb] at h; cases h
  refine ⟨by decide, Option.isNone_iff_eq_none.mp (by decide),
    Option.isNone_iff_eq_none.mp (by decide), ?_⟩
  rw [exec, show step (toyEnv identityWalk) none (topBoot true) =
    some (⟨(topBoot true).hart, .cached⟩, none) from rfl]
  simp only [exec, step, hc, Option.map_none']

end TurboRiscv
