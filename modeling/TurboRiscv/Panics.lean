import TurboRiscv.Faults
import TurboRiscv.CachedLoop

/-!
# Every Panic of the Executor

`run` of `riscv/interpreter/main.rs` never returns: the emulator stops only when the Rust code
panics. This module names every configuration whose next step panics and proves that, from every
reachable configuration, these are all of them.

## The panics

- `exec_one_by_one` fetches a word the decoders reject (`illegal_instr` begins with `panic!()`),
  or steps `pc` past `2^64 - 1` after the instruction;
- `exec_block_inner` steps `pc` past `2^64 - 1` with `pc += inc_by`;
- `build_exec`, after a miss of `check_block`, meets past a decoded prefix a word the decoders
  reject (which panics), a halfword it cannot read, or an instruction that ends past
  `2^64 - 1`, where `iaddr += inc_by` panics (`BuildFails`); the `Err` of a failed read is
  dropped by `exec_cached_int`, and `check_block(..).unwrap()` panics;
- `run`, at the end of an iteration (`DrainPanics`): in user mode a trap other than an
  environment call (`Protection error`), a syscall `riscv_translate_syscall` or the runtime cannot
  handle; in system mode a trap whose entry `pc` passes `2^64 - 1` in `handle_trap`; a pending
  signal with no `SINFO.use_idx` (the `unwrap` of the signal poll); and `wfi`
  (`unimplemented!()`), which in system mode a delivered trap clears first.

The bug-check of `check_block` and the `unwrap` after a successful `build_exec` never fire, by
the block index invariant; and the cache is on whenever `exec_cached_int` runs
(`Reachable.cacheEnabled_of_cached`), so `build_exec` never refuses for its cache check.

## Main results

- `RiscvInt.buildExec_fails_iff`: `build_exec` panics or returns a trap exactly at `BuildFails`;
- `step_eq_none_iff_panics`: from every reachable configuration the next step panics exactly
  when `Panics` holds.
-/

namespace TurboRiscv

variable {P : Platform} {E : Env P} {c : Config P}

/-- At the top of `exec_cached_int`'s loop and inside a block, the cache is on. -/
theorem Reachable.cacheEnabled_of_cached (hr : Reachable E c)
    (hf : c.frame = .cached ∨ ∃ curpc blk rest, c.frame = .block curpc blk rest) :
    c.hart.cacheEnabled = true := by
  induction hr with
  | boot => rcases hf with h | ⟨_, _, _, h⟩ <;> cases h
  | @step c c' ev sig _ hs ih =>
    obtain ⟨s, fr⟩ := c
    cases fr with
    | run =>
      simp only [TurboRiscv.step, Option.some.injEq, Prod.mk.injEq] at hs
      obtain ⟨rfl, -⟩ := hs
      cases hce : s.cacheEnabled
      · rcases hf with h | ⟨_, _, _, h⟩ <;> simp [hce] at h
      · rfl
    | cached =>
      simp only [TurboRiscv.step, Option.map_eq_some', Prod.mk.injEq] at hs
      obtain ⟨c1, h1, rfl, -⟩ := hs
      rcases RiscvInt.execCachedIntStep_eq_some h1 with ⟨-, rfl⟩ | ⟨-, -, rfl⟩ |
        ⟨-, physpc, s1, blk, -, -, rfl | ⟨-, r, hb⟩, rfl⟩
      · rcases hf with h | ⟨_, _, _, h⟩ <;> cases h
      · rcases hf with h | ⟨_, _, _, h⟩ <;> cases h
      · exact ih (.inl rfl)
      · have hb' := RiscvInt.buildExec_spec E hb
        show s1.cacheEnabled = true
        rw [hb'.2.1]
        exact hb'.1
    | block curpc blk rest =>
      cases rest with
      | nil =>
        simp only [TurboRiscv.step, RiscvInt.execBlockStep, Option.some.injEq, Prod.mk.injEq] at hs
        obtain ⟨rfl, -⟩ := hs
        exact ih (.inr ⟨_, _, _, rfl⟩)
      | cons z rest =>
        simp only [TurboRiscv.step, RiscvInt.execBlockStep, Option.map_eq_some',
          Prod.mk.injEq] at hs
        obtain ⟨s2, h2, rfl, -⟩ := hs
        obtain ⟨-, rfl⟩ := RiscvInt.finishInstr_eq_some.mp h2
        simpa using ih (.inr ⟨_, _, _, rfl⟩)
    | oneByOne fc =>
      simp only [TurboRiscv.step] at hs
      rcases RiscvInt.execOneByOneStep_eq_some hs with ⟨t, -, rfl, -⟩ |
        ⟨w, d, s2, s3, -, -, -, -, rfl, -⟩
      · rcases hf with h | ⟨_, _, _, h⟩ <;> cases h
      · rcases hf with h | ⟨_, _, _, h⟩ <;> split at h <;> cases h
    | ret fc r =>
      simp only [TurboRiscv.step, Option.map_eq_some', Prod.mk.injEq] at hs
      obtain ⟨s1, -, rfl, -⟩ := hs
      rcases hf with h | ⟨_, _, _, h⟩ <;> cases h

/-- The instruction at `a`, with `k ≥ 2` bytes left in its page, cannot be read by `build_exec`:
    the read of its first halfword fails, or it is uncompressed, four bytes are left and the read
    of its second halfword fails. -/
def FaultAt (E : Env P) (m : P.Mem) (a : U64) (k : Nat) : Prop :=
  2 ≤ k ∧ ((∃ t, E.read16 m a = .error t) ∨
    ∃ lo t, E.read16 m a = .ok lo ∧ lo &&& 3 = 3 ∧ 4 ≤ k ∧ E.read16 m (a + 2) = .error t)

/-- The instruction at `a`, with `k` bytes left in its page, decodes and ends past
    `2^64 - 1`: `iaddr += inc_by` overflows after it. -/
def OverflowAt (E : Env P) (m : P.Mem) (a : U64) (k : Nat) : Prop :=
  ∃ c d, DecodesAt E m a k c d ∧ 2 ^ 64 ≤ a.toNat + (incOf c).toNat

/-- How `build_exec`'s loop fails at `a` with `k` bytes left: a word the decoders reject, a
    halfword it cannot read, or an instruction that ends past `2^64 - 1`. -/
def FailsAt (E : Env P) (m : P.Mem) (a : U64) (k : Nat) : Prop :=
  RejectedAt E m a k ∨ FaultAt E m a k ∨ OverflowAt E m a k

/-- `build_exec` from the physical address `p` does not complete: its loop decodes the records
    `l`, none of which ends the block, and then fails. -/
def BuildFails (E : Env P) (m : P.Mem) (p : U64) : Prop :=
  ∃ l, DecodesPrefix E m p (4096 - pageOff p) l ∧
    FailsAt E m (p + BitVec.ofNat 64 (sumInc l)) (4096 - pageOff p - sumInc l)

/-- The end of an iteration of `run`, with the signal `sig` pending, panics: in user mode at a
    trap other than an environment call (`Protection error`) or at a syscall that cannot be
    translated or dispatched; in system mode where `handle_trap`'s entry `pc` overflows; at a
    pending signal with no `SINFO.use_idx`; or with `wfi` set (`unimplemented!()`), which in
    system mode a trap clears first. -/
def DrainPanics (E : Env P) (sig : Signal) (s : RiscvInt P) : Prop :=
  match s.trap with
  | some trp =>
    if s.usermode then
      trp.ttype ≠ .environmentCallFromMMode ∨ s.handleSyscall E = none ∨ sig = some none ∨
        s.wfi = true
    else s.handleTrap trp s.trapPc = none
  | none => sig = some none ∨ s.wfi = true

namespace RiscvInt

theorem decode_eq_none {s : RiscvInt P} {o : Option (Decoded P)} (h : s.decode o = none) :
    o = none := by
  cases o with
  | none => rfl
  | some d => exact absurd h (decode_some_ne_none s d)

/-- A pass of the loop panics only at a word the decoders reject. -/
theorem rejectedAt_of_buildPass {s : RiscvInt P} {a : U64} {mc : Int} (hmc : 2 ≤ mc)
    (h : buildPass E s a mc = none) : RejectedAt E s.memsource a mc.toNat := by
  unfold buildPass at h
  split at h
  · cases h
  rename_i lo hlo
  refine ⟨lo, hlo, ?_⟩
  by_cases h3 : lo &&& 3 ≠ 3
  · rw [if_pos h3] at h ⊢
    exact ⟨by omega, decode_eq_none (Option.map_eq_none'.mp h)⟩
  · rw [if_neg h3] at h ⊢
    split_ifs at h with h4
    split at h
    · cases h
    · exact ⟨by omega, _, ‹_›, decode_eq_none (Option.map_eq_none'.mp h)⟩

/-- A pass of the loop returns a trap only at a halfword it cannot read. -/
theorem faultAt_of_buildPass {s s' : RiscvInt P} {a : U64} {mc : Int} {t : Trap} (hmc : 2 ≤ mc)
    (h : buildPass E s a mc = some (.fault t, s')) : FaultAt E s.memsource a mc.toNat := by
  unfold buildPass at h
  split at h
  · exact ⟨by omega, .inl ⟨_, ‹_›⟩⟩
  rename_i lo hlo
  split_ifs at h with h3 h4
  · obtain ⟨_, -, he⟩ := Option.map_eq_some'.mp h
    cases he
  · cases h
  · split at h
    · exact ⟨by omega, .inr ⟨lo, _, hlo, not_not.mp h3, by omega, ‹_›⟩⟩
    · obtain ⟨_, -, he⟩ := Option.map_eq_some'.mp h
      cases he

theorem buildPass_of_faultAt {s : RiscvInt P} {a : U64} {mc : Int}
    (h : FaultAt E s.memsource a mc.toNat) : ∃ t, buildPass E s a mc = some (.fault t, s) := by
  obtain ⟨-, ⟨t, ht⟩ | ⟨lo, t, hlo, h3, h4, ht⟩⟩ := h
  · exact ⟨t, by rw [buildPass, ht]⟩
  · refine ⟨t, ?_⟩
    rw [buildPass, hlo]
    dsimp only
    rw [if_neg (not_not.mpr h3), if_neg (by omega), ht]

/-- One more record of a decoded prefix: the address moves past it. -/
theorem add_ofNat_sumInc_cons (a : U64) (d : Decoded P) (c : Bool) (l : List (RiscvInstr P)) :
    a + BitVec.ofNat 64 (sumInc (({ d.instr with incBy := incOf c } : RiscvInstr P) :: l)) =
      a + incOf c + BitVec.ofNat 64 (sumInc l) := by
  rw [sumInc_cons, BitVec.ofNat_add, BitVec.ofNat_toNat, BitVec.setWidth_eq, BitVec.add_assoc]

/-- `build_exec`'s loop panics or returns a trap once it fails past a decoded prefix. -/
theorem buildLoop_fails_of {l : List (RiscvInstr P)} :
    ∀ {s : RiscvInt P} {a : U64} {mc : Int} {incBy : U64}, s.cacheEnabled = true →
      s.stopTranslating = false → DecodesPrefix E s.memsource a mc.toNat l →
      FailsAt E s.memsource (a + BitVec.ofNat 64 (sumInc l)) (mc.toNat - sumInc l) →
      buildLoop E s a mc incBy = none ∨ ∃ s' t, buildLoop E s a mc incBy = some (s', .error t) := by
  induction l with
  | nil =>
    intro s a mc incBy hc _ _ hr
    simp only [sumInc_nil, BitVec.ofNat_eq_ofNat, BitVec.add_zero, Nat.sub_zero] at hr
    rcases hr with hr | hr | ⟨c, d, hat, hover⟩
    · have h2 : 2 ≤ mc.toNat := by obtain ⟨lo, -, h⟩ := hr; split_ifs at h <;> omega
      exact .inl (by rw [buildLoop, if_pos (by omega), buildPass_of_rejectedAt hr])
    · obtain ⟨t, ht⟩ := buildPass_of_faultAt hr
      exact .inr ⟨s, t, by rw [buildLoop, if_pos (by have := hr.1; omega), ht]⟩
    · exact .inl (buildLoop_eq_none_of_overflow E hc hat hover)
  | cons z rest ih =>
    intro s a mc incBy hc hst hp hr
    cases hp with
    | @cons _ _ c d _ hat hd hrest =>
      have hk := toNat_sub_incOf mc c
      rw [add_ofNat_sumInc_cons, sumInc_cons, Nat.sub_add_eq] at hr
      obtain ⟨s', hm', hc', hst', h⟩ := buildLoop_of_decodesAt E incBy hc hat
      rw [h]
      cases hadd : checkedAdd a (incOf c) with
      | none => exact .inl rfl
      | some a' =>
        obtain ⟨-, rfl⟩ := checkedAdd_eq_some_iff.mp hadd
        rw [Option.some_bind, if_neg (by rw [hst, hd]; decide)]
        exact ih (hc'.trans hc) (by rw [hst', hst, hd]; rfl) (by rw [hm', hk]; exact hrest)
          (by rw [hm', hk]; exact hr)

/-- Conversely, `build_exec`'s loop panics or returns a trap only there. -/
theorem decodesPrefix_of_buildLoop {s : RiscvInt P} {a incBy : U64} {mc : Int}
    (hc : s.cacheEnabled = true) (hst : s.stopTranslating = false)
    (h : buildLoop E s a mc incBy = none ∨ ∃ s' t, buildLoop E s a mc incBy = some (s', .error t)) :
    ∃ l, DecodesPrefix E s.memsource a mc.toNat l ∧
      FailsAt E s.memsource (a + BitVec.ofNat 64 (sumInc l)) (mc.toNat - sumInc l) := by
  induction s, a, mc, incBy using buildLoop.induct E with
  | case1 s a mc incBy hmc hp =>
    exact ⟨[], .nil, by simpa using .inl (rejectedAt_of_buildPass (by omega) hp)⟩
  | case2 s a mc incBy hmc t s1 hp =>
    exact ⟨[], .nil, by simpa using .inr (.inl (faultAt_of_buildPass (by omega) hp))⟩
  | case3 s a mc incBy hmc s1 hp =>
    rw [buildLoop, if_pos hmc, hp] at h
    simp at h
  | case4 s a mc incBy hmc c s1 hp =>
    rename_i inc hlast
    obtain ⟨d, -, rfl⟩ := buildPass_decoded E hc (by omega) hp
    simp only [setLastIncBy_insertInsnCurrent] at hlast
    cases hlast
  | case5 s a mc incBy hmc c s1 hp =>
    rename_i inc blk hlast hadd
    obtain ⟨d, hat, -⟩ := buildPass_decoded E hc (by omega) hp
    simp only [inc, dite_eq_ite, checkedAdd_eq_none_iff] at hadd
    exact ⟨[], .nil, by simpa using .inr (.inr ⟨c, d, hat, hadd⟩)⟩
  | case6 s a mc incBy hmc c s1 hp =>
    rename_i inc blk hlast s2 a1 hadd hstop
    simp only [inc, dite_eq_ite] at hlast hadd
    rw [buildLoop, if_pos hmc, hp] at h
    simp only [hlast, hadd] at h
    rw [if_pos (show s1.stopTranslating = true from hstop)] at h
    simp at h
  | case7 s a mc incBy hmc c s1 hp =>
    rename_i inc blk hlast s2 a1 hadd hstop ih
    simp only [inc, dite_eq_ite] at hlast hadd
    rw [buildLoop, if_pos hmc, hp] at h
    simp only [hlast, hadd] at h
    rw [if_neg (show ¬s1.stopTranslating = true from hstop)] at h
    obtain ⟨d, hd, rfl⟩ := buildPass_decoded E hc (by omega) hp
    simp only [setLastIncBy_insertInsnCurrent, Option.some.injEq] at hlast
    subst hlast
    obtain ⟨-, rfl⟩ := checkedAdd_eq_some_iff.mp hadd
    have hstop' : d.stopsTranslating = false := by simpa [s2, hst] using hstop
    obtain ⟨l, hl, hr⟩ := ih (by simp [s2, insertInsnCurrent, hc]) (by simp [s2, hst, hstop']) h
    simp only [dite_eq_ite, toNat_sub_incOf] at hl hr
    refine ⟨{ d.instr with incBy := incOf c } :: l, .cons hd hstop' hl, ?_⟩
    rwa [add_ofNat_sumInc_cons, sumInc_cons, Nat.sub_add_eq]
  | case8 s a mc incBy hmc =>
    rw [buildLoop, if_neg hmc] at h
    simp at h

/-- With the cache on, `build_exec(p)` panics or returns a trap exactly when it meets, past a
    decoded prefix, a word the decoders reject or cannot read. -/
theorem buildExec_fails_iff {s : RiscvInt P} {p : U64} (hc : s.cacheEnabled = true) :
    (s.buildExec E p = none ∨ ∃ s' t, s.buildExec E p = some (s', .error t)) ↔
      BuildFails E s.memsource p := by
  let s0 : RiscvInt P :=
    { s with stopTranslating := false, currentBlock := { s.currentBlock with begin := p, instrs := [] } }
  have hloop : (s.buildExec E p = none ∨ ∃ s' t, s.buildExec E p = some (s', .error t)) ↔
      (buildLoop E s0 p (4096 - pageOff p : Nat) 0 = none ∨
        ∃ s' t, buildLoop E s0 p (4096 - pageOff p : Nat) 0 = some (s', .error t)) := by
    unfold buildExec
    dsimp only
    rw [if_pos hc, toNat_riscvPageSize_sub]
    rcases buildLoop E s0 p (4096 - pageOff p : Nat) 0 with _ | ⟨s', _ | ⟨iaddr, incBy⟩⟩ <;> simp
  rw [hloop]
  constructor
  · intro h
    simpa using decodesPrefix_of_buildLoop (s := s0) hc rfl h
  · rintro ⟨l, hp, hr⟩
    exact buildLoop_fails_of (s := s0) hc rfl (by simpa using hp) (by simpa using hr)

/-- An iteration of `exec_cached_int`'s loop, with the cache on and a well-formed index, panics
    exactly at a miss whose `build_exec` fails. -/
theorem execCachedIntStep_eq_none_iff {s : RiscvInt P} (hI : IndexInv E s.instr)
    (hc : s.cacheEnabled = true) :
    s.execCachedIntStep E = none ↔ pageOff s.pc ≤ 4092 ∧ ∃ physpc,
      E.virt2phys s.arch s.pc = some physpc ∧ s.checkBlock physpc = some none ∧
      BuildFails E s.memsource physpc := by
  constructor
  · intro h
    unfold execCachedIntStep getPcOfCurrentInstr at h
    simp only [toNat_riscvPageSize_sub] at h
    split_ifs at h with hmc
    refine ⟨by omega, ?_⟩
    split at h
    · cases h
    rename_i physpc hv
    refine ⟨physpc, hv, ?_⟩
    split at h
    · exact absurd ‹_› (checkBlock_ne_none hI)
    · cases h
    rename_i hmiss
    refine ⟨hmiss, (buildExec_fails_iff hc).mp ?_⟩
    split at h
    · exact .inl ‹_›
    rename_i s1 r hb
    rcases r with t | ⟨⟩
    · exact .inr ⟨s1, t, hb⟩
    · obtain ⟨b, hb', -⟩ := checkBlock_buildExec hI hb
      rw [hb'] at h
      cases h
  · rintro ⟨hoff, physpc, hv, hmiss, hf⟩
    rcases (buildExec_fails_iff hc).mpr hf with h | ⟨s', t, h⟩
    · exact execCachedIntStep_eq_none_of_miss hoff hv hmiss fun s1 r hb => by
        rw [h] at hb
        cases hb
    · exact (execCachedIntStep_of_buildExec_error hoff hv hmiss h).2

/-- An iteration of `exec_one_by_one` panics exactly at a fetched word the decoders reject, or
    where `pc += 2` or `4` after it overflows. -/
theorem execOneByOneStep_eq_none_iff {s : RiscvInt P} {fc : Bool} :
    s.execOneByOneStep E fc = none ↔ ∃ w, E.read32 s.memsource s.pc = .ok w ∧
      (E.fetchEntry w = none ∨
        2 ^ 64 ≤ s.pc.toNat + (if w &&& 3 ≠ 3 then (2 : U64) else 4).toNat) := by
  unfold execOneByOneStep
  split
  · rename_i t ht
    simp [ht]
  rename_i w hw
  simp only [hw, Except.ok.injEq, exists_eq_left']
  cases hd : E.fetchEntry w with
  | none => simp
  | some d =>
    obtain ⟨s2, hs2⟩ := Option.ne_none_iff_exists'.mp
      (decode_some_ne_none { s with isCompressed := decide (w &&& 3 ≠ 3) } d)
    dsimp only
    rw [hs2]
    simp only [Option.map_eq_none', finishInstr_eq_none_iff, decode_pc hs2, reduceCtorEq, false_or]

theorem commitWantPc_eq_none_iff {s : RiscvInt P} : commitWantPc s = none ↔ s.wfi = true := by
  unfold commitWantPc
  cases s.wantPc <;> simp

/-- The signal poll and the commit of `want_pc` panic exactly when `SIGNAL_AVAIL` is set with no
    `SINFO.use_idx`, or at `wfi`. -/
theorem deliverSignal_bind_eq_none_iff {s : RiscvInt P} {sig : Signal} :
    (s.deliverSignal E sig).bind commitWantPc = none ↔ sig = some none ∨ s.wfi = true := by
  rcases sig with _ | _ | n <;> simp [deliverSignal, commitWantPc_eq_none_iff]

theorem drain_eq_none_iff {s : RiscvInt P} {sig : Signal} :
    s.drain E sig = none ↔ DrainPanics E sig s := by
  unfold drain DrainPanics
  rcases s.trap with _ | trp
  · exact deliverSignal_bind_eq_none_iff
  · cases hu : s.usermode
    · simp
    · by_cases he : trp.ttype = .environmentCallFromMMode
      · cases hs : s.handleSyscall E with
        | none => simp [he]
        | some s1 =>
          obtain ⟨ume, mem, regs, -, rfl⟩ := handleSyscall_eq_some hs
          simp only [he, hs, if_true, Option.some_bind]
          rw [deliverSignal_bind_eq_none_iff]
          simp
      · simp [he]

end RiscvInt

/-- The configurations whose next step panics, with the signal `sig` pending: at the top of
    `exec_one_by_one` a word the decoders reject or an instruction whose end passes `2^64 - 1`;
    in a block a record whose end passes `2^64 - 1`; a miss of `check_block` whose `build_exec`
    fails (`BuildFails`), at least four bytes before the end of the page; or what `DrainPanics`
    names at the end of an iteration of `run`. -/
def Panics (E : Env P) (sig : Signal) (c : Config P) : Prop :=
  match c.frame with
  | .run => False
  | .cached => pageOff c.hart.pc ≤ 4092 ∧ ∃ physpc, E.virt2phys c.hart.arch c.hart.pc = some physpc ∧
      c.hart.checkBlock physpc = some none ∧ BuildFails E c.hart.memsource physpc
  | .block _ _ [] => False
  | .block _ _ (z :: _) => 2 ^ 64 ≤ c.hart.pc.toNat + z.incBy.toNat
  | .oneByOne _ => ∃ w, E.read32 c.hart.memsource c.hart.pc = .ok w ∧
      (E.fetchEntry w = none ∨
        2 ^ 64 ≤ c.hart.pc.toNat + (if w &&& 3 ≠ 3 then (2 : U64) else 4).toNat)
  | .ret fc r => DrainPanics E sig (c.hart.storeResult fc r)

/-- **Every panic of the executor.** From every reachable configuration, whatever the signal,
    the next step panics exactly when `Panics` holds: the only ways the emulator halts are a word
    the decoders reject, met by `exec_one_by_one` or, ahead of the instructions it would run, by
    `build_exec`; a read `build_exec` cannot make, whose `Err` the `unwrap` after it turns into a
    panic; a `pc`, `iaddr` or trap entry that passes `2^64 - 1`; in user mode a trap other than an
    environment call or a syscall that cannot be translated or dispatched; a signal with no
    `SINFO.use_idx`; and `wfi`. The bug-check of `check_block` and the `unwrap` after a
    successful `build_exec` never fire. -/
theorem step_eq_none_iff_panics (hr : Reachable E c) (sig : Signal) :
    step E sig c = none ↔ Panics E sig c := by
  obtain ⟨s, fr⟩ := c
  cases fr with
  | run => simp [step, Panics]
  | cached =>
    simp only [step, Panics, Option.map_eq_none']
    exact RiscvInt.execCachedIntStep_eq_none_iff hr.inv.index (hr.cacheEnabled_of_cached (.inl rfl))
  | block curpc blk rest => cases rest <;> simp [step, Panics, RiscvInt.execBlockStep]
  | oneByOne fc => exact RiscvInt.execOneByOneStep_eq_none_iff
  | ret fc r =>
    simp only [step, Panics, Option.map_eq_none']
    exact RiscvInt.drain_eq_none_iff

/-- A system-mode hart with the cache off, about to fetch the word `0` at `0x1000`. -/
def zeroFetch : Config toy :=
  ⟨(boot false .x64 (toyMem 0x1000 [0]) () 0 0x1000 false).hart, .oneByOne false⟩

theorem step_eq_none_iff_panics_zeroFetch :
    Reachable strictEnv zeroFetch ∧
      (step strictEnv none zeroFetch = none ↔ Panics strictEnv none zeroFetch) ∧
      Panics strictEnv none zeroFetch := by
  have hr : Reachable strictEnv zeroFetch :=
    .step none (.boot false .x64 (toyMem 0x1000 [0]) () 0 0x1000 false) (by rfl)
  exact ⟨hr, step_eq_none_iff_panics hr none, ⟨0, rfl, .inl rfl⟩⟩

end TurboRiscv
