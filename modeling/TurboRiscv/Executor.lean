import TurboRiscv.Trap
import TurboRiscv.BlockCache

/-!
# The Executor

`run`, `exec_cached_int`, `exec_block_inner`, `exec_one_by_one` and `handle_syscall` of
`riscv/interpreter/main.rs` as a small-step machine.

## The machine

A configuration is the hart together with the point of the Rust call stack below `run` that
control is at (`Frame`): the top of `run`'s loop, the top of `exec_cached_int`'s loop, a
position inside `exec_block_inner`, the top of `exec_one_by_one`'s loop, or the return to
`run` with the result of the `exec_*` call. `step` runs from one such point to the next; it is
`none` where the code panics (`unwrap` on `None`, `panic!`, `unimplemented!`).

## Events

A step that invokes an instruction handler emits an `Event`: the handler and its args, the hart
as the handler sees it, and the hart once the instruction has completed (`pc` advanced and
`regs[0]` cleared).

## Signals

`SIGNAL_AVAIL` and `SINFO` are thread-locals the host sets. Each step takes what the signal poll
would read at that step as an input (`Signal`: the flag, and `SINFO.use_idx` when it is set),
and `Reachable` ranges over every schedule of signals.

## Overflow

`self.pc += inc_by` and `self.pc += 2` or `4` are checked additions (`checkedAdd`): the step
that would carry `pc` past `2^64 - 1` panics.
-/

namespace TurboRiscv

variable {P : Platform}

/-! ## §1 Configurations -/

/-- Where control is in the Rust call stack below `run`. -/
inductive Frame (P : Platform)
  /-- At the top of `run`'s loop. -/
  | run
  /-- At the top of `exec_cached_int`'s loop. -/
  | cached
  /-- In `exec_block_inner(blk)`, for the block found at the virtual `curpc`, before the
      records `rest`. -/
  | block (curpc : U64) (blk : RiscvBlock P) (rest : List (RiscvInstr P))
  /-- At the top of `exec_one_by_one`'s loop; `fromCached` when `exec_cached_int`'s page-end
      fallback called it. -/
  | oneByOne (fromCached : Bool)
  /-- Back in `run` with the result `r` of `exec_cached_int` (`fromCached`) or of
      `exec_one_by_one`. -/
  | ret (fromCached : Bool) (r : Except Trap Unit)

/-- A configuration of the executor. -/
structure Config (P : Platform) where
  hart : RiscvInt P
  frame : Frame P

/-- An invocation of an instruction handler. -/
structure Event (P : Platform) where
  func : Handler P
  args : P.Args
  /-- The hart the handler is called on. -/
  pre : RiscvInt P
  /-- The hart once the instruction has completed. -/
  post : RiscvInt P

/-! ## §2 The loops -/

/-- What `run`'s signal poll reads: `none` when `SIGNAL_AVAIL` is clear, `some idx` when it is
    set, `idx` being `SINFO.use_idx`. -/
abbrev Signal := Option (Option Nat)

/-- The decoder table `exec_one_by_one` consults for the fetched word `w`: `decoder16` on its
    low half when its low two bits are not `0b11`, `decoder` otherwise. -/
def Env.fetchEntry (E : Env P) (w : BitVec 32) : Option (Decoded P) :=
  if w &&& 3 ≠ 3 then E.decoder16 (w.setWidth 16) else E.decoder w

namespace RiscvInt

variable (E : Env P)

/-- The end of an instruction in both loops: `self.pc += inc_by; self.regs[0] = 0;`; `none`
    where the addition overflows. -/
def finishInstr (s : RiscvInt P) (incBy : U64) : Option (RiscvInt P) :=
  (checkedAdd s.pc incBy).map fun pc => { s with pc := pc, regs := Function.update s.regs 0 0 }

/-- `handle_syscall`; `none` when `riscv_translate_syscall(..).unwrap()` or the runtime
    panics. -/
def handleSyscall (s : RiscvInt P) : Option (RiscvInt P) :=
  let syscallnum := s.regs 17
  match E.riscvTranslateSyscall (syscallnum.setWidth 16) with
  | none => none
  | some systype =>
    let sysin : SyscallIn P :=
      ⟨systype, [s.regs 10, s.regs 11, s.regs 12, s.regs 13, s.regs 14, s.regs 15, 0]⟩
    match E.dispatch s.userStruct s.memsource sysin with
    | none => none
    | some (ume, mem, out) =>
      let regs := Function.update s.regs 10 out.ret1
      let regs := match out.ret2 with
        | some xx => Function.update regs 11 xx
        | none => regs
      some { s with userStruct := ume, memsource := mem, regs := regs }

/-- The signal poll of `run`: with `SIGNAL_AVAIL` set, `SINFO.use_idx.unwrap()` gives `signum`
    (`none` where it panics), and `setup_rt_frame` builds the frame and enters the handler. -/
def deliverSignal (sig : Signal) (s : RiscvInt P) : Option (RiscvInt P) :=
  match sig with
  | none => some s
  | some none => none
  | some (some signum) =>
    let f := E.setupRtFrame s.arch signum
    some { s with regs := f.regs, memsource := f.memsource, pc := f.pc }

/-- The end of `run`'s loop: commit `want_pc`, `unimplemented!()` on `wfi`, clear
    `stop_exec`. -/
def commitWantPc (s : RiscvInt P) : Option (RiscvInt P) :=
  let s := match s.wantPc with
    | some f => { s with pc := f, wantPc := none }
    | none => s
  if s.wfi then none else some { s with stopExec := false }

/-- The first lines of `run` after an `exec_*` call returned `r`: an `Err` becomes the pending
    trap, and `exec_cached_int` is followed by `self.cache_enabled = true`. -/
def storeResult (fromCached : Bool) (r : Except Trap Unit) (s : RiscvInt P) : RiscvInt P :=
  let s := match r with
    | .ok _ => s
    | .error z => { s with trap := some z }
  if fromCached then { s with cacheEnabled := true } else s

/-- The rest of `run`'s loop: drain the pending trap (to `handle_syscall` for a user-mode
    environment call, to `handle_trap` in system mode), poll for a signal and commit
    `want_pc`. -/
def drain (sig : Signal) (s : RiscvInt P) : Option (RiscvInt P) :=
  match s.trap with
  | some trp =>
    if s.usermode then
      if trp.ttype = .environmentCallFromMMode then
        (s.handleSyscall E).bind fun s =>
          ({ s with stopExec := false, trap := none }.deliverSignal E sig).bind commitWantPc
      else none
    else
      (s.handleTrap trp s.trapPc).map fun s =>
        { s with trapPc := 0, trap := none, wantPc := none, wfi := false, stopExec := false }
  | none => (s.deliverSignal E sig).bind commitWantPc

/-- One iteration of `exec_cached_int`'s loop up to the call of `exec_block_inner`, whose first
    statement, `self.stop_exec = false`, it includes. `none` when `check_block` or the `unwrap`
    after `build_exec` panics. -/
def execCachedIntStep (s : RiscvInt P) : Option (Config P) :=
  let curpc := s.getPcOfCurrentInstr
  let maxCount : Int := (riscvPageSize - (curpc &&& riscvPageOffset)).toNat
  if maxCount < 4 then some ⟨{ s with stopExec := true, cacheEnabled := false }, .oneByOne true⟩
  else
    match E.virt2phys s.arch curpc with
    | none => some ⟨{ s with stopExec := true }, .ret true (.error (memTrapExecute curpc))⟩
    | some physpc =>
      match s.checkBlock physpc with
      | none => none
      | some (some blk) => some ⟨{ s with stopExec := false }, .block curpc blk blk.instrs⟩
      | some none =>
        match s.buildExec E physpc with
        | none => none
        | some (s, _) =>
          match s.checkBlock physpc with
          | some (some blk) => some ⟨{ s with stopExec := false }, .block curpc blk blk.instrs⟩
          | _ => none

/-- One iteration of `exec_block_inner`'s loop, or, past the last record, the check of
    `stop_exec` in `exec_cached_int` after the call; `none` where `pc += inc_by` overflows. -/
def execBlockStep (s : RiscvInt P) (curpc : U64) (blk : RiscvBlock P) :
    List (RiscvInstr P) → Option (Config P × Option (Event P))
  | [] => some (⟨s, if s.stopExec then .ret true (.ok ()) else .cached⟩, none)
  | z :: rest =>
    let s1 := { s with isCompressed := z.incBy == 2 }
    ((s1.execHandler z).finishInstr z.incBy).map fun s2 =>
      (⟨s2, if s2.stopExec then .ret true (.ok ()) else .block curpc blk rest⟩,
        some ⟨z.func, z.args, s1, s2⟩)

/-- One iteration of `exec_one_by_one`'s loop. The decoder runs the handler at once when the
    cache is off; `none` when it rejects the word (`illegal_instr` panics) or `pc += 2` or `4`
    overflows. -/
def execOneByOneStep (fromCached : Bool) (s : RiscvInt P) :
    Option (Config P × Option (Event P)) :=
  match E.read32 s.memsource s.pc with
  | .error t => some (⟨s, .ret fromCached (.error t)⟩, none)
  | .ok instr =>
    let s1 := { s with isCompressed := instr &&& 3 ≠ 3 }
    match s1.decode (E.fetchEntry instr) with
    | none => none
    | some s2 =>
      (s2.finishInstr (if instr &&& 3 ≠ 3 then 2 else 4)).map fun s3 =>
        (⟨s3, if s3.stopExec then .ret fromCached (.ok ()) else .oneByOne fromCached⟩,
          if s1.cacheEnabled then none
          else (E.fetchEntry instr).map fun d => ⟨d.instr.func, d.instr.args, s1, s3⟩)

end RiscvInt

/-- One step of the executor, `sig` being the signal the host has pending. -/
def step (E : Env P) (sig : Signal) : Config P → Option (Config P × Option (Event P))
  | ⟨s, .run⟩ => some (⟨s, if s.cacheEnabled then .cached else .oneByOne false⟩, none)
  | ⟨s, .cached⟩ => (s.execCachedIntStep E).map fun c => (c, none)
  | ⟨s, .block curpc blk rest⟩ => s.execBlockStep curpc blk rest
  | ⟨s, .oneByOne fc⟩ => s.execOneByOneStep E fc
  | ⟨s, .ret fc r⟩ => ((s.storeResult fc r).drain E sig).map fun s => (⟨s, .run⟩, none)

/-- Modelled from the spec: the set-up before `run` (absent): a hart built by
    `init_usermode` or `init_systemmode` over the loaded image `mem`, given its stack pointer by
    `set_stack_reg`, its entry `pc`, and a value of the public `cache_enabled`. -/
def boot (usermode : Bool) (xlen : Xlen) (mem : P.Mem) (ume : P.Ume) (sp pc : U64)
    (cacheEnabled : Bool) : Config P :=
  let s := if usermode then RiscvInt.initUsermode xlen mem ume
    else RiscvInt.initSystemmode xlen mem ume
  ⟨{ s.setStackReg sp with pc := pc, cacheEnabled := cacheEnabled }, .run⟩

/-- The configurations some run reaches, under any schedule of signals. -/
inductive Reachable (E : Env P) : Config P → Prop
  | boot (usermode : Bool) (xlen : Xlen) (mem : P.Mem) (ume : P.Ume) (sp pc : U64)
      (cacheEnabled : Bool) : Reachable E (boot usermode xlen mem ume sp pc cacheEnabled)
  | step {c c' : Config P} {ev : Option (Event P)} (sig : Signal) :
      Reachable E c → step E sig c = some (c', ev) → Reachable E c'

/-- The executor along the schedule `sigs` of pending signals, one step each: the
    configuration reached and the handler invocations on the way; `none` when it panics
    first. -/
def exec (E : Env P) : List Signal → Config P → Option (Config P × List (Event P))
  | [], c => some (c, [])
  | sig :: sigs, c =>
    match step E sig c with
    | none => none
    | some (c', ev) => (exec E sigs c').map fun r => (r.1, ev.toList ++ r.2)

theorem Reachable.exec {E : Env P} {c c' : Config P} {sigs : List Signal}
    {evs : List (Event P)} (hr : Reachable E c) (h : exec E sigs c = some (c', evs)) :
    Reachable E c' := by
  induction sigs generalizing c evs with
  | nil => cases h; exact hr
  | cons sig sigs ih =>
    simp only [TurboRiscv.exec] at h
    split at h
    · cases h
    · obtain ⟨⟨c2, evs2⟩, h2, he⟩ := Option.map_eq_some'.mp h
      cases he
      exact ih (.step sig hr ‹_›) h2

/-! ## §3 What each step does -/

/-- The length `exec_one_by_one` steps over is that of the fetched word's encoding. -/
theorem ite_compressed_eq_incOf (w : BitVec 32) :
    (if w &&& 3 ≠ 3 then (2 : U64) else 4) = incOf (decide (w &&& 3 ≠ 3)) := by
  by_cases h : w &&& 3 ≠ 3
  · rw [if_pos h, decide_eq_true h]; rfl
  · rw [if_neg h, decide_eq_false h]; rfl

namespace RiscvInt

variable {E : Env P} {s s' : RiscvInt P}

theorem getPcOfNextInstr_eq (s : RiscvInt P) :
    s.getPcOfNextInstr = checkedAdd s.pc (incOf s.isCompressed) := by
  unfold getPcOfNextInstr incOf
  cases s.isCompressed <;> rfl

/-- The end of an instruction that does not panic: `pc` advanced, with no wrap-around, and
    `regs[0]` cleared. -/
theorem finishInstr_eq_some {i : U64} :
    s.finishInstr i = some s' ↔ s.pc.toNat + i.toNat < 2 ^ 64 ∧
      s' = { s with pc := s.pc + i, regs := Function.update s.regs 0 0 } := by
  unfold finishInstr
  rw [Option.map_eq_some']
  constructor
  · rintro ⟨pc, hpc, rfl⟩
    obtain ⟨h, rfl⟩ := checkedAdd_eq_some_iff.mp hpc
    exact ⟨h, rfl⟩
  · rintro ⟨h, rfl⟩
    exact ⟨_, checkedAdd_of_lt h, rfl⟩

@[simp] theorem finishInstr_eq_none_iff {i : U64} :
    s.finishInstr i = none ↔ 2 ^ 64 ≤ s.pc.toNat + i.toNat := by
  simp [finishInstr]

theorem finishInstr_of_lt {i : U64} (h : s.pc.toNat + i.toNat < 2 ^ 64) :
    s.finishInstr i = some { s with pc := s.pc + i, regs := Function.update s.regs 0 0 } :=
  finishInstr_eq_some.mpr ⟨h, rfl⟩

theorem Quiet.finishInstr (h : s.Quiet) {i : U64} (hf : s.finishInstr i = some s') : s'.Quiet := by
  obtain ⟨-, rfl⟩ := finishInstr_eq_some.mp hf
  exact ⟨h.trap, h.wantPc, h.wfi⟩

/-- `handle_syscall` writes `a0` and `a1`, the runtime and the memory. -/
theorem handleSyscall_eq_some (h : s.handleSyscall E = some s') :
    ∃ (ume : P.Ume) (mem : P.Mem) (regs : Fin 32 → U64), (∀ i, i ≠ 10 → i ≠ 11 → regs i = s.regs i) ∧
      s' = { s with userStruct := ume, memsource := mem, regs := regs } := by
  unfold handleSyscall at h
  dsimp only at h
  split at h
  · cases h
  split at h
  · cases h
  rename_i ume mem out _
  cases h
  refine ⟨ume, mem, _, fun i h10 h11 => ?_, rfl⟩
  cases out.ret2 <;> simp [Function.update_apply, h10, h11]

/-- `commit_want_pc`: `pc` takes the pending `want_pc`, if any. -/
theorem commitWantPc_eq_some (h : commitWantPc s = some s') :
    s.wfi = false ∧ s' = { s with pc := s.wantPc.getD s.pc, wantPc := none, stopExec := false } := by
  unfold commitWantPc at h
  cases hw : s.wantPc <;> simp only [hw] at h <;> split at h <;> cases h <;>
    simp_all

/-- With no `wfi` pending, `commit_want_pc` does not panic. -/
theorem commitWantPc_of_wfi (hw : s.wfi = false) :
    commitWantPc s = some { s with pc := s.wantPc.getD s.pc, wantPc := none, stopExec := false } := by
  unfold commitWantPc
  cases hp : s.wantPc <;> simp [hw, hp]

/-- With nothing pending, `commit_want_pc` only clears `stop_exec`. -/
theorem commitWantPc_of_quiet (h : s.Quiet) : commitWantPc s = some { s with stopExec := false } := by
  obtain ⟨_, _, _, wantPc, _, _, _, _, _, _, _, _, _, _, _, _, _, _, wfi, _⟩ := s
  obtain ⟨-, rfl, rfl⟩ := h
  rfl

section DeliverSignal

variable {sig : Signal}

@[simp] theorem deliverSignal_none : s.deliverSignal E none = some s := rfl

/-- The signal poll panics exactly when `SIGNAL_AVAIL` is set and `SINFO.use_idx` is empty. -/
@[simp] theorem deliverSignal_eq_none_iff : s.deliverSignal E sig = none ↔ sig = some none := by
  rcases sig with _ | _ | n <;> simp [deliverSignal]

/-- The signal poll writes only the registers, the memory and `pc`. -/
theorem deliverSignal_eq_some (h : s.deliverSignal E sig = some s') :
    ∃ regs mem pc, s' = { s with regs := regs, memsource := mem, pc := pc } := by
  rcases sig with _ | _ | n <;> simp only [deliverSignal, Option.some.injEq, reduceCtorEq] at h
  · exact ⟨s.regs, s.memsource, s.pc, h.symm⟩
  · exact ⟨_, _, _, h.symm⟩

end DeliverSignal

/-- What `run` does to a pending trap, and without one. -/
theorem drain_eq_some {sig : Signal} (h : s.drain E sig = some s') :
    (∃ trp s1, s.trap = some trp ∧ s.usermode = false ∧ s.handleTrap trp s.trapPc = some s1 ∧
      s' = { s1 with trapPc := 0, trap := none, wantPc := none, wfi := false, stopExec := false }) ∨
    (∃ trp s1 s2, s.trap = some trp ∧ s.usermode = true ∧
      trp.ttype = .environmentCallFromMMode ∧ s.handleSyscall E = some s1 ∧
      { s1 with stopExec := false, trap := none }.deliverSignal E sig = some s2 ∧
      commitWantPc s2 = some s') ∨
    (∃ s2, s.trap = none ∧ s.deliverSignal E sig = some s2 ∧ commitWantPc s2 = some s') := by
  unfold drain at h
  split at h
  · rename_i trp htrp
    split_ifs at h with hu he
    · obtain ⟨s1, h1, h2⟩ := Option.bind_eq_some.mp h
      obtain ⟨s2, h2, h3⟩ := Option.bind_eq_some.mp h2
      exact .inr (.inl ⟨trp, s1, s2, htrp, hu, he, h1, h2, h3⟩)
    · obtain ⟨s1, h1, rfl⟩ := Option.map_eq_some'.mp h
      exact .inl ⟨trp, s1, htrp, by simpa using hu, h1, rfl⟩
  · obtain ⟨s2, h2, h3⟩ := Option.bind_eq_some.mp h
    exact .inr (.inr ⟨s2, ‹_›, h2, h3⟩)

/-- With nothing pending, `run`'s drain only clears `stop_exec`. -/
theorem drain_of_quiet (h : s.Quiet) : s.drain E none = some { s with stopExec := false } := by
  unfold drain
  split
  · simp_all [h.trap]
  · exact commitWantPc_of_quiet h

/-- One iteration of `exec_cached_int`: the page-end fallback, a translation fault, or entry
    into the block found or just built at the translated `pc`. -/
theorem execCachedIntStep_eq_some {c' : Config P} (h : s.execCachedIntStep E = some c') :
    (4092 < pageOff s.pc ∧
      c' = ⟨{ s with stopExec := true, cacheEnabled := false }, .oneByOne true⟩) ∨
    (pageOff s.pc ≤ 4092 ∧ E.virt2phys s.arch s.pc = none ∧
      c' = ⟨{ s with stopExec := true }, .ret true (.error (memTrapExecute s.pc))⟩) ∨
    (pageOff s.pc ≤ 4092 ∧ ∃ physpc s1 blk, E.virt2phys s.arch s.pc = some physpc ∧
      s1.checkBlock physpc = some (some blk) ∧
      (s1 = s ∨ s.checkBlock physpc = some none ∧ ∃ r, s.buildExec E physpc = some (s1, r)) ∧
      c' = ⟨{ s1 with stopExec := false }, .block s.pc blk blk.instrs⟩) := by
  unfold execCachedIntStep getPcOfCurrentInstr at h
  simp only [toNat_riscvPageSize_sub] at h
  split_ifs at h with hmc
  · cases h
    exact .inl ⟨by omega, rfl⟩
  have hoff : pageOff s.pc ≤ 4092 := by omega
  split at h
  · cases h
    exact .inr (.inl ⟨hoff, ‹_›, rfl⟩)
  rename_i physpc hv
  split at h
  · cases h
  · cases h
    exact .inr (.inr ⟨hoff, physpc, s, _, hv, ‹_›, .inl rfl, rfl⟩)
  · rename_i hmiss
    split at h
    · cases h
    rename_i s1 r hb
    split at h
    · cases h
      exact .inr (.inr ⟨hoff, physpc, s1, _, hv, ‹_›, .inr ⟨hmiss, r, hb⟩, rfl⟩)
    · cases h

/-- At a miss of `check_block`, the `unwrap` after `build_exec` panics when `build_exec` does or
    when `check_block` still misses after it. -/
theorem execCachedIntStep_eq_none_of_miss {s : RiscvInt P} {physpc : U64}
    (hoff : pageOff s.pc ≤ 4092) (hv : E.virt2phys s.arch s.pc = some physpc)
    (hmiss : s.checkBlock physpc = some none)
    (hb : ∀ s1 r, s.buildExec E physpc = some (s1, r) → s1.checkBlock physpc = some none) :
    s.execCachedIntStep E = none := by
  cases h : s.execCachedIntStep E with
  | none => rfl
  | some c' =>
    rcases execCachedIntStep_eq_some h with
      ⟨h1, -⟩ | ⟨-, h2, -⟩ | ⟨-, _, s1, _, hv', hblk, hs1, -⟩
    · omega
    · rw [hv] at h2; cases h2
    · rw [hv] at hv'
      cases hv'
      rcases hs1 with rfl | ⟨-, r, hbe⟩
      · rw [hmiss] at hblk; cases hblk
      · rw [hb _ _ hbe] at hblk; cases hblk

/-- `exec_cached_int` does not panic where `build_exec` returns `Ok` at the translation of a
    `pc` four bytes or more before the end of its page. -/
theorem execCachedIntStep_isSome (hI : IndexInv E s.instr)
    (hb : pageOff s.pc ≤ 4092 → ∀ phys, E.virt2phys s.arch s.pc = some phys →
      ∃ s1, s.buildExec E phys = some (s1, .ok ())) :
    (s.execCachedIntStep E).isSome := by
  unfold execCachedIntStep getPcOfCurrentInstr
  simp only [toNat_riscvPageSize_sub]
  split_ifs with hmc
  · rfl
  cases hv : E.virt2phys s.arch s.pc with
  | none => rfl
  | some phys =>
    dsimp only
    cases hcb : s.checkBlock phys with
    | none => exact absurd hcb (checkBlock_ne_none hI)
    | some ob =>
      cases ob with
      | some blk => rfl
      | none =>
        obtain ⟨s1, hb⟩ := hb (by omega) phys hv
        obtain ⟨blk, hblk, -⟩ := checkBlock_buildExec hI hb
        dsimp only
        rw [hb]
        dsimp only
        rw [hblk]
        rfl

/-- One iteration of `exec_one_by_one`: a fetch fault, or the instruction fetched at `pc`. -/
theorem execOneByOneStep_eq_some {fc : Bool} {c' : Config P} {ev : Option (Event P)}
    (h : s.execOneByOneStep E fc = some (c', ev)) :
    (∃ t, E.read32 s.memsource s.pc = .error t ∧ c' = ⟨s, .ret fc (.error t)⟩ ∧ ev = none) ∨
    ∃ w d s2 s3, E.read32 s.memsource s.pc = .ok w ∧ E.fetchEntry w = some d ∧
      { s with isCompressed := decide (w &&& 3 ≠ 3) }.decode (some d) = some s2 ∧
      s2.finishInstr (if w &&& 3 ≠ 3 then 2 else 4) = some s3 ∧
      c' = ⟨s3, if s3.stopExec then .ret fc (.ok ()) else .oneByOne fc⟩ ∧
      ev = if s.cacheEnabled then none
        else some ⟨d.instr.func, d.instr.args, { s with isCompressed := decide (w &&& 3 ≠ 3) },
          s3⟩ := by
  unfold execOneByOneStep at h
  split at h
  · cases h
    exact .inl ⟨_, ‹_›, rfl, rfl⟩
  rename_i w hw
  dsimp only at h
  split at h
  · cases h
  rename_i s2 hs2
  obtain ⟨s3, h3, he⟩ := Option.map_eq_some'.mp h
  cases hd : E.fetchEntry w with
  | none => simp [hd] at hs2
  | some d =>
    rw [hd] at hs2 he
    cases he
    exact .inr ⟨w, d, s2, s3, hw, hd, hs2, h3, rfl, by cases s.cacheEnabled <;> rfl⟩

/-- `exec_one_by_one` with the cache off, once it fetched `w` at `pc`. -/
theorem execOneByOneStep_of_fetch (fc : Bool) {w : BitVec 32} {d : Decoded P}
    (hw : E.read32 s.memsource s.pc = .ok w) (hd : E.fetchEntry w = some d)
    (hc : s.cacheEnabled = false) :
    s.execOneByOneStep E fc =
      let s1 := { s with isCompressed := decide (w &&& 3 ≠ 3) }
      ((s1.execHandler d.instr).finishInstr (incOf (decide (w &&& 3 ≠ 3)))).map fun s3 =>
        (⟨s3, if s3.stopExec then .ret fc (.ok ()) else .oneByOne fc⟩,
          some ⟨d.instr.func, d.instr.args, s1, s3⟩) := by
  unfold execOneByOneStep
  rw [hw]
  dsimp only
  rw [hd, decode_some_of_not_cacheEnabled (s := { s with isCompressed := decide (w &&& 3 ≠ 3) }) hc,
    ite_compressed_eq_incOf]
  simp [hc]

/-- On the uncached path a rejected word panics when `exec_one_by_one` fetches it. -/
theorem execOneByOneStep_of_rejected {w : BitVec 32} (fc : Bool)
    (hw : E.read32 s.memsource s.pc = .ok w) (hd : E.fetchEntry w = none) :
    s.execOneByOneStep E fc = none := by
  unfold execOneByOneStep
  rw [hw]
  dsimp only
  rw [hd]
  rfl

/-- `exec_one_by_one` when the fetch at `pc` fails. -/
theorem execOneByOneStep_of_fault (fc : Bool) {t : Trap}
    (hw : E.read32 s.memsource s.pc = .error t) :
    s.execOneByOneStep E fc = some (⟨s, .ret fc (.error t)⟩, none) := by
  unfold execOneByOneStep
  rw [hw]

section StoreResult

variable (s : RiscvInt P) (fc : Bool) (r : Except Trap Unit)

/-! Storing the result of an `exec_*` call writes only the trap slot and `cache_enabled`. -/

@[simp] theorem storeResult_regs : (s.storeResult fc r).regs = s.regs := by
  cases r <;> cases fc <;> rfl

@[simp] theorem storeResult_instr : (s.storeResult fc r).instr = s.instr := by
  cases r <;> cases fc <;> rfl

@[simp] theorem storeResult_usermode : (s.storeResult fc r).usermode = s.usermode := by
  cases r <;> cases fc <;> rfl

@[simp] theorem storeResult_xlen : (s.storeResult fc r).xlen = s.xlen := by
  cases r <;> cases fc <;> rfl

@[simp] theorem storeResult_prvmode : (s.storeResult fc r).prvmode = s.prvmode := by
  cases r <;> cases fc <;> rfl

@[simp] theorem storeResult_trapPc : (s.storeResult fc r).trapPc = s.trapPc := by
  cases r <;> cases fc <;> rfl

@[simp] theorem storeResult_csr : (s.storeResult fc r).csr = s.csr := by
  cases r <;> cases fc <;> rfl

@[simp] theorem storeResult_isReservation :
    (s.storeResult fc r).isReservation = s.isReservation := by
  cases r <;> cases fc <;> rfl

@[simp] theorem storeResult_resVal : (s.storeResult fc r).resVal = s.resVal := by
  cases r <;> cases fc <;> rfl

@[simp] theorem storeResult_resLen : (s.storeResult fc r).resLen = s.resLen := by
  cases r <;> cases fc <;> rfl

@[simp] theorem storeResult_pc : (s.storeResult fc r).pc = s.pc := by
  cases r <;> cases fc <;> rfl

@[simp] theorem storeResult_wantPc : (s.storeResult fc r).wantPc = s.wantPc := by
  cases r <;> cases fc <;> rfl

@[simp] theorem storeResult_wfi : (s.storeResult fc r).wfi = s.wfi := by
  cases r <;> cases fc <;> rfl

@[simp] theorem storeResult_memsource : (s.storeResult fc r).memsource = s.memsource := by
  cases r <;> cases fc <;> rfl

@[simp] theorem storeResult_cacheEnabled :
    (s.storeResult fc r).cacheEnabled = (fc || s.cacheEnabled) := by
  cases r <;> cases fc <;> rfl

/-- The trap `run` drains: an `Err`, or the one a handler left pending. -/
theorem storeResult_trap :
    (s.storeResult fc r).trap = match r with
      | .ok _ => s.trap
      | .error z => some z := by
  cases r <;> cases fc <;> rfl

end StoreResult

/-- The decoder either runs the handler (cache off) or appends the record (cache on). -/
theorem decode_eq_some {d : Decoded P} (h : s.decode (some d) = some s') :
    s' = s.execHandler d.instr ∨
      s' = { s.insertInsnCurrent d.instr with
        stopTranslating := s.stopTranslating || d.stopsTranslating } := by
  cases hc : s.cacheEnabled
  · rw [decode_some_of_not_cacheEnabled hc] at h
    exact .inl (Option.some.inj h).symm
  · rw [decode_some_of_cacheEnabled hc] at h
    exact .inr (Option.some.inj h).symm

/-- The decoder, running a handler or appending a record, leaves a quiet hart quiet unless it
    stops execution. -/
theorem Quiet.decode {d : Decoded P} (hq : s.Quiet) (h : s.decode (some d) = some s') :
    s'.Quiet ∨ s'.stopExec = true := by
  rcases decode_eq_some h with rfl | rfl
  · exact hq.execHandler d.instr
  · exact .inl ⟨hq.trap, hq.wantPc, hq.wfi⟩

/-- What `run`'s drain leaves alone, and what it always does. -/
structure DrainFrame (s s' : RiscvInt P) : Prop where
  instr : s'.instr = s.instr
  usermode : s'.usermode = s.usermode
  xlen : s'.xlen = s.xlen
  prvmode : s.usermode = true → s'.prvmode = s.prvmode
  quiet : s'.Quiet
  stopExec : s'.stopExec = false
  cacheEnabled : s'.cacheEnabled = s.cacheEnabled
  reservation : s'.isReservation = s.isReservation ∧ s'.resVal = s.resVal ∧
    s'.resLen = s.resLen

theorem drain_frame {sig : Signal} (h : s.drain E sig = some s') : DrainFrame s s' := by
  rcases drain_eq_some h with ⟨trp, s1, -, hu, h1, rfl⟩ | ⟨trp, s1, s2, -, -, -, h1, h2, h3⟩ |
    ⟨s2, ht, h2, h3⟩
  · obtain ⟨pc, csr, pm, rfl⟩ := handleTrap_frame h1
    exact ⟨rfl, rfl, rfl, by simp [hu], ⟨rfl, rfl, rfl⟩, rfl, rfl, rfl, rfl, rfl⟩
  · obtain ⟨ume, mem, regs, -, rfl⟩ := handleSyscall_eq_some h1
    obtain ⟨regs', mem', pc', rfl⟩ := deliverSignal_eq_some h2
    obtain ⟨hw, rfl⟩ := commitWantPc_eq_some h3
    exact ⟨rfl, rfl, rfl, fun _ => rfl, ⟨rfl, rfl, hw⟩, rfl, rfl, rfl, rfl, rfl⟩
  · obtain ⟨regs', mem', pc', rfl⟩ := deliverSignal_eq_some h2
    obtain ⟨hw, rfl⟩ := commitWantPc_eq_some h3
    exact ⟨rfl, rfl, rfl, fun _ => rfl, ⟨ht, rfl, hw⟩, rfl, rfl, rfl, rfl, rfl⟩

end RiscvInt

/-- **What a step does to the hart.** It is unchanged, or changed by one of the code's
    paths: the page-end fallback, a translation fault, block entry (after a build or not), one
    instruction (whose decoder runs the handler, which the step reports, or, with the cache on,
    appends a record), or the end of `run`'s loop. -/
theorem step_hart {E : Env P} {sig : Signal} {c c' : Config P} {ev : Option (Event P)}
    (h : step E sig c = some (c', ev)) :
    c'.hart = c.hart ∨
    c'.hart = { c.hart with stopExec := true, cacheEnabled := false } ∨
    c'.hart = { c.hart with stopExec := true } ∨
    c'.hart = { c.hart with stopExec := false } ∨
    (∃ physpc r s1, c.hart.checkBlock physpc = some none ∧
      c.hart.buildExec E physpc = some (s1, r) ∧ c'.hart = { s1 with stopExec := false }) ∨
    (∃ b z i, ev = some ⟨z.func, z.args, { c.hart with isCompressed := b }, c'.hart⟩ ∧
      ({ c.hart with isCompressed := b }.execHandler z).finishInstr i = some c'.hart) ∨
    (∃ b z i st, { { c.hart with isCompressed := b }.insertInsnCurrent z with
      stopTranslating := st }.finishInstr i = some c'.hart) ∨
    (∃ fc r, (c.hart.storeResult fc r).drain E sig = some c'.hart) := by
  obtain ⟨s, fr⟩ := c
  cases fr with
  | run =>
    simp only [step, Option.some.injEq, Prod.mk.injEq] at h
    exact .inl (congrArg Config.hart h.1).symm
  | cached =>
    simp only [step, Option.map_eq_some', Prod.mk.injEq] at h
    obtain ⟨c1, h, rfl, -⟩ := h
    rcases RiscvInt.execCachedIntStep_eq_some h with ⟨-, rfl⟩ | ⟨-, -, rfl⟩ |
      ⟨-, physpc, s1, blk, -, -, rfl | ⟨hmiss, r, hb⟩, rfl⟩
    · exact .inr (.inl rfl)
    · exact .inr (.inr (.inl rfl))
    · exact .inr (.inr (.inr (.inl rfl)))
    · exact .inr (.inr (.inr (.inr (.inl ⟨physpc, r, s1, hmiss, hb, rfl⟩))))
  | block curpc blk rest =>
    cases rest with
    | nil =>
      simp only [step, RiscvInt.execBlockStep, Option.some.injEq, Prod.mk.injEq] at h
      exact .inl (congrArg Config.hart h.1).symm
    | cons z rest =>
      simp only [step, RiscvInt.execBlockStep, Option.map_eq_some', Prod.mk.injEq] at h
      obtain ⟨s2, h2, rfl, rfl⟩ := h
      exact .inr (.inr (.inr (.inr (.inr (.inl ⟨_, z, z.incBy, rfl, h2⟩)))))
  | oneByOne fc =>
    simp only [step] at h
    rcases RiscvInt.execOneByOneStep_eq_some h with ⟨t, -, rfl, -⟩ |
      ⟨w, d, s2, s3, -, hd, hs2, h3, rfl, rfl⟩
    · exact .inl rfl
    cases hc : s.cacheEnabled
    · rw [RiscvInt.decode_some_of_not_cacheEnabled
        (s := { s with isCompressed := decide (w &&& 3 ≠ 3) }) hc] at hs2
      cases hs2
      exact .inr (.inr (.inr (.inr (.inr (.inl ⟨_, d.instr, _, by simp [hc], h3⟩)))))
    · rw [RiscvInt.decode_some_of_cacheEnabled
        (s := { s with isCompressed := decide (w &&& 3 ≠ 3) }) hc] at hs2
      cases hs2
      exact .inr (.inr (.inr (.inr (.inr (.inr (.inl ⟨_, d.instr, _, _, h3⟩))))))
  | ret fc r =>
    simp only [step, Option.map_eq_some', Prod.mk.injEq] at h
    obtain ⟨s', h, rfl, -⟩ := h
    exact .inr (.inr (.inr (.inr (.inr (.inr (.inr ⟨fc, r, h⟩))))))

/-- No step changes the mode flag or the width. -/
theorem step_mode {E : Env P} {sig : Signal} {c c' : Config P} {ev : Option (Event P)}
    (h : step E sig c = some (c', ev)) :
    c'.hart.usermode = c.hart.usermode ∧ c'.hart.xlen = c.hart.xlen := by
  rcases step_hart h with h | h | h | h | ⟨physpc, r, s1, -, hb, h⟩ | ⟨b, z, i, -, h⟩ |
    ⟨b, z, i, st, h⟩ | ⟨fc, r, h⟩
  iterate 4 rw [h]; exact ⟨rfl, rfl⟩
  · rw [h, (RiscvInt.buildExec_spec E hb).2.1]; exact ⟨rfl, rfl⟩
  · rw [(RiscvInt.finishInstr_eq_some.mp h).2]; simp
  · rw [(RiscvInt.finishInstr_eq_some.mp h).2]; exact ⟨rfl, rfl⟩
  · have hd := RiscvInt.drain_frame h
    exact ⟨by simpa using hd.usermode, by simpa using hd.xlen⟩

/-- In user mode the privilege changes only through a handler: a step whose handler, if any,
    keeps the privilege keeps it. -/
theorem step_prvmode {E : Env P} {sig : Signal} {c c' : Config P} {ev : Option (Event P)}
    (hu : c.hart.usermode = true) (h : step E sig c = some (c', ev))
    (hev : ∀ e ∈ ev, e.post.prvmode = e.pre.prvmode) : c'.hart.prvmode = c.hart.prvmode := by
  rcases step_hart h with h | h | h | h | ⟨physpc, r, s1, -, hb, h⟩ | ⟨b, z, i, rfl, -⟩ |
    ⟨b, z, i, st, h⟩ | ⟨fc, r, h⟩
  iterate 4 rw [h]
  · rw [h, (RiscvInt.buildExec_spec E hb).2.1]
  · exact hev _ rfl
  · rw [(RiscvInt.finishInstr_eq_some.mp h).2]; rfl
  · simpa using (RiscvInt.drain_frame h).prvmode (by simpa using hu)

/-- What every step keeps, given that the handler it invokes, if any, satisfies `K`, every run
    whose handlers satisfy `K` keeps. -/
theorem exec_invariant {E : Env P} (Q : Config P → Prop) (K : Event P → Prop)
    (hstep : ∀ {sig c c' ev}, Q c → step E sig c = some (c', ev) → (∀ e ∈ ev, K e) → Q c')
    {sigs : List Signal} {c c' : Config P} {evs : List (Event P)} (hc : Q c)
    (h : exec E sigs c = some (c', evs)) (hev : ∀ e ∈ evs, K e) : Q c' := by
  induction sigs generalizing c evs with
  | nil => cases h; exact hc
  | cons sig sigs ih =>
    simp only [exec] at h
    split at h
    · cases h
    rename_i c1 ev hs
    obtain ⟨⟨c2, evs2⟩, h2, he⟩ := Option.map_eq_some'.mp h
    cases he
    exact ih (hstep hc hs fun e he => hev e (List.mem_append_left _ (Option.mem_toList.mpr he)))
      h2 fun e he => hev e (List.mem_append_right _ he)

/-- In user mode a run whose handlers keep the privilege keeps it. -/
theorem exec_prvmode {E : Env P} {sigs : List Signal} {c c' : Config P} {evs : List (Event P)}
    (hu : c.hart.usermode = true) (h : exec E sigs c = some (c', evs))
    (hev : ∀ e ∈ evs, e.post.prvmode = e.pre.prvmode) :
    c'.hart.usermode = true ∧ c'.hart.prvmode = c.hart.prvmode :=
  exec_invariant (fun c' => c'.hart.usermode = true ∧ c'.hart.prvmode = c.hart.prvmode)
    (fun e => e.post.prvmode = e.pre.prvmode)
    (fun ⟨hu, hp⟩ hs hev => ⟨(step_mode hs).1.trans hu, (step_prvmode hu hs hev).trans hp⟩)
    ⟨hu, rfl⟩ h hev

/-- Only `build_exec`, after a miss of `check_block`, changes the block index. -/
theorem step_instr {E : Env P} {sig : Signal} {c c' : Config P} {ev : Option (Event P)}
    (h : step E sig c = some (c', ev)) :
    c'.hart.instr = c.hart.instr ∨ ∃ physpc r s1, c.hart.checkBlock physpc = some none ∧
      c.hart.buildExec E physpc = some (s1, r) ∧ c'.hart.instr = s1.instr := by
  rcases step_hart h with h | h | h | h | ⟨physpc, r, s1, hm, hb, h⟩ | ⟨b, z, i, -, h⟩ |
    ⟨b, z, i, st, h⟩ | ⟨fc, r, h⟩
  iterate 4 exact .inl (by rw [h])
  · exact .inr ⟨physpc, r, s1, hm, hb, by rw [h]⟩
  · exact .inl (by rw [(RiscvInt.finishInstr_eq_some.mp h).2]; simp)
  · exact .inl (by rw [(RiscvInt.finishInstr_eq_some.mp h).2]; rfl)
  · exact .inl (by simpa using (RiscvInt.drain_frame h).instr)

/-- **The steps that invoke a handler**: a record of a block, or the instruction
    `exec_one_by_one` fetched at `pc` with the cache off. -/
theorem step_event {E : Env P} {sig : Signal} {c c' : Config P} {ev : Event P}
    (h : step E sig c = some (c', some ev)) :
    (∃ curpc blk z rest, c.frame = .block curpc blk (z :: rest) ∧
      ev.func = z.func ∧ ev.args = z.args ∧
      ev.pre = { c.hart with isCompressed := z.incBy == 2 } ∧
      (ev.pre.execHandler z).finishInstr z.incBy = some ev.post ∧
      c' = ⟨ev.post, if ev.post.stopExec then .ret true (.ok ()) else .block curpc blk rest⟩) ∨
    (∃ fc w d, c.frame = .oneByOne fc ∧ c.hart.cacheEnabled = false ∧
      E.read32 c.hart.memsource c.hart.pc = .ok w ∧ E.fetchEntry w = some d ∧
      ev.func = d.instr.func ∧ ev.args = d.instr.args ∧
      ev.pre = { c.hart with isCompressed := decide (w &&& 3 ≠ 3) } ∧
      (ev.pre.execHandler d.instr).finishInstr (if w &&& 3 ≠ 3 then 2 else 4) = some ev.post ∧
      c' = ⟨ev.post, if ev.post.stopExec then .ret fc (.ok ()) else .oneByOne fc⟩) := by
  obtain ⟨s, fr⟩ := c
  cases fr with
  | run => simp [step] at h
  | cached => simp [step] at h
  | block curpc blk rest =>
    cases rest with
    | nil => simp [step, RiscvInt.execBlockStep] at h
    | cons z rest =>
      simp only [step, RiscvInt.execBlockStep, Option.map_eq_some', Prod.mk.injEq] at h
      obtain ⟨s2, h2, rfl, h⟩ := h
      cases h
      exact .inl ⟨curpc, blk, z, rest, rfl, rfl, rfl, rfl, h2, rfl⟩
  | oneByOne fc =>
    simp only [step] at h
    rcases RiscvInt.execOneByOneStep_eq_some h with ⟨t, -, -, hev⟩ |
      ⟨w, d, s2, s3, hw, hd, hs2, h3, rfl, hev⟩
    · cases hev
    cases hc : s.cacheEnabled
    · rw [if_neg (by simp [hc])] at hev
      cases hev
      rw [RiscvInt.decode_some_of_not_cacheEnabled
        (s := { s with isCompressed := decide (w &&& 3 ≠ 3) }) hc] at hs2
      cases hs2
      exact .inr ⟨fc, w, d, rfl, rfl, hw, hd, rfl, rfl, rfl, h3, rfl⟩
    · simp [hc] at hev
  | ret fc r => simp [step] at h

/-- A handler is invoked on the current hart, with `is_compressed` set for its instruction. -/
theorem step_event_pre {E : Env P} {sig : Signal} {c c' : Config P} {ev : Event P}
    (h : step E sig c = some (c', some ev)) :
    ev.pre = { c.hart with isCompressed := ev.pre.isCompressed } := by
  rcases step_event h with ⟨_, _, _, _, -, -, -, hpre, -⟩ |
    ⟨_, _, _, -, -, -, -, -, -, hpre, -⟩ <;> rw [hpre]

/-! ## §4 Invariants of every run -/

section Invariants

variable {E : Env P} {sig : Signal} {c c' : Config P} {ev : Option (Event P)}

/-- Between instructions the hart is quiet: only once control is back in `run` from an `Ok`
    can a trap, a control transfer or `wfi` be pending. -/
def QuietInv (c : Config P) : Prop :=
  match c.frame with
  | .ret _ (.ok _) => True
  | _ => c.hart.Quiet

/-- Leaving an instruction: back to `run` on `stop_exec`, on to `fr` otherwise. -/
theorem quietInv_next {s : RiscvInt P} {b : Bool} {fr : Frame P}
    (hfr : s.Quiet → QuietInv ⟨s, fr⟩) (h : s.Quiet ∨ s.stopExec = true) :
    QuietInv ⟨s, if s.stopExec then .ret b (.ok ()) else fr⟩ := by
  cases hs : s.stopExec
  · simpa [hs] using hfr (h.resolve_right (by simp [hs]))
  · trivial

theorem quietInv_step (hI : QuietInv c) (h : step E sig c = some (c', ev)) : QuietInv c' := by
  obtain ⟨s, fr⟩ := c
  cases fr with
  | run =>
    simp only [step, Option.some.injEq, Prod.mk.injEq] at h
    obtain ⟨rfl, -⟩ := h
    cases s.cacheEnabled <;> exact hI
  | cached =>
    have hq : s.Quiet := hI
    simp only [step, Option.map_eq_some', Prod.mk.injEq] at h
    obtain ⟨c1, h, rfl, -⟩ := h
    rcases RiscvInt.execCachedIntStep_eq_some h with ⟨-, rfl⟩ | ⟨-, -, rfl⟩ |
      ⟨-, physpc, s1, blk, -, -, rfl | ⟨-, r, hb⟩, rfl⟩
    iterate 3 exact ⟨hq.trap, hq.wantPc, hq.wfi⟩
    rw [(RiscvInt.buildExec_spec E hb).2.1]
    exact ⟨hq.trap, hq.wantPc, hq.wfi⟩
  | block curpc blk rest =>
    have hq : s.Quiet := hI
    cases rest with
    | nil =>
      simp only [step, RiscvInt.execBlockStep, Option.some.injEq, Prod.mk.injEq] at h
      obtain ⟨rfl, -⟩ := h
      cases s.stopExec
      exacts [hq, trivial]
    | cons z rest =>
      simp only [step, RiscvInt.execBlockStep, Option.map_eq_some', Prod.mk.injEq] at h
      obtain ⟨s2, h2, rfl, -⟩ := h
      obtain ⟨-, rfl⟩ := RiscvInt.finishInstr_eq_some.mp h2
      refine quietInv_next id ?_
      exact (RiscvInt.Quiet.execHandler (s := { s with isCompressed := z.incBy == 2 })
        ⟨hq.trap, hq.wantPc, hq.wfi⟩ z).imp (fun hq => ⟨hq.trap, hq.wantPc, hq.wfi⟩) id
  | oneByOne fc =>
    have hq : s.Quiet := hI
    simp only [step] at h
    rcases RiscvInt.execOneByOneStep_eq_some h with ⟨t, -, rfl, -⟩ |
      ⟨w, d, s2, s3, -, -, hs2, h3, rfl, -⟩
    · exact hq
    · obtain ⟨-, rfl⟩ := RiscvInt.finishInstr_eq_some.mp h3
      exact quietInv_next id
        ((RiscvInt.Quiet.decode (s := { s with isCompressed := decide (w &&& 3 ≠ 3) })
          ⟨hq.trap, hq.wantPc, hq.wfi⟩ hs2).imp (fun hq => ⟨hq.trap, hq.wantPc, hq.wfi⟩) id)
  | ret fc r =>
    simp only [step, Option.map_eq_some', Prod.mk.injEq] at h
    obtain ⟨s', h, rfl, -⟩ := h
    exact (RiscvInt.drain_frame h).quiet

theorem indexInv_step (hI : IndexInv E c.hart.instr) (h : step E sig c = some (c', ev)) :
    IndexInv E c'.hart.instr := by
  rcases step_instr h with h | ⟨physpc, r, s1, hm, hb, h⟩
  · rwa [h]
  · rw [h]
    exact RiscvInt.buildExec_indexInv hI hm hb

/-- The local state of the frames below `run`: `exec_one_by_one` runs with the cache off, and
    inside `exec_block_inner` the block was built from the physical address that the translation
    at block entry gives its virtual start `curpc`, and `pc` is `curpc` advanced over the records
    executed so far. -/
def FrameInv (E : Env P) (c : Config P) : Prop :=
  match c.frame with
  | .oneByOne _ => c.hart.cacheEnabled = false
  | .block curpc blk rest =>
    (∃ m, BlockBuilt E m blk.begin blk) ∧ (∃ a, E.virt2phys a curpc = some blk.begin) ∧
      ∃ done, blk.instrs = done ++ rest ∧ c.hart.pc = curpc + BitVec.ofNat 64 (sumInc done)
  | _ => True

theorem frameInv_next {s : RiscvInt P} {b : Bool} {fr : Frame P} (hfr : FrameInv E ⟨s, fr⟩) :
    FrameInv E ⟨s, if s.stopExec then .ret b (.ok ()) else fr⟩ := by
  cases s.stopExec
  · exact hfr
  · trivial

theorem sumInc_append_singleton (l : List (RiscvInstr P)) (z : RiscvInstr P) :
    BitVec.ofNat 64 (sumInc (l ++ [z])) = BitVec.ofNat 64 (sumInc l) + z.incBy := by
  rw [BitVec.toNat_eq, BitVec.toNat_add]
  simp [sumInc_append]

theorem frameInv_step (hI : IndexInv E c.hart.instr) (hF : FrameInv E c)
    (h : step E sig c = some (c', ev)) : FrameInv E c' := by
  obtain ⟨s, fr⟩ := c
  cases fr with
  | run =>
    simp only [step, Option.some.injEq, Prod.mk.injEq] at h
    obtain ⟨rfl, -⟩ := h
    cases hc : s.cacheEnabled
    · simp [FrameInv, hc]
    · trivial
  | cached =>
    simp only [step, Option.map_eq_some', Prod.mk.injEq] at h
    obtain ⟨c1, h, rfl, -⟩ := h
    rcases RiscvInt.execCachedIntStep_eq_some h with ⟨-, rfl⟩ | ⟨-, -, rfl⟩ |
      ⟨-, physpc, s1, blk, hv, hblk, hs1, rfl⟩
    · rfl
    · trivial
    · have hI1 : IndexInv E s1.instr ∧ s1.pc = s.pc := by
        rcases hs1 with rfl | ⟨hm, r, hb⟩
        · exact ⟨hI, rfl⟩
        · refine ⟨RiscvInt.buildExec_indexInv hI hm hb, ?_⟩
          rw [(RiscvInt.buildExec_spec E hb).2.1]
      obtain ⟨hmem, rfl⟩ := (RiscvInt.checkBlock_eq_some_some_iff hI1.1).mp hblk
      obtain ⟨-, hbuilt⟩ := hI1.1.blockOk _ blk hmem
      exact ⟨hbuilt, ⟨_, hv⟩, [], rfl, by simp [hI1.2]⟩
  | block curpc blk rest =>
    cases rest with
    | nil =>
      simp only [step, RiscvInt.execBlockStep, Option.some.injEq, Prod.mk.injEq] at h
      obtain ⟨rfl, -⟩ := h
      cases s.stopExec <;> trivial
    | cons z rest =>
      simp only [step, RiscvInt.execBlockStep, Option.map_eq_some', Prod.mk.injEq] at h
      obtain ⟨s2, h2, rfl, -⟩ := h
      obtain ⟨-, rfl⟩ := RiscvInt.finishInstr_eq_some.mp h2
      obtain ⟨hb, hv, done, hdone, hpc⟩ := hF
      refine frameInv_next ⟨hb, hv, done ++ [z], by simp [hdone], ?_⟩
      have hpc : s.pc = _ := hpc
      simp [hpc, sumInc_append_singleton, BitVec.add_assoc]
  | oneByOne fc =>
    simp only [step] at h
    rcases RiscvInt.execOneByOneStep_eq_some h with ⟨t, -, rfl, -⟩ |
      ⟨w, d, s2, s3, -, -, hs2, h3, rfl, -⟩
    · trivial
    · rw [RiscvInt.decode_some_of_not_cacheEnabled
        (s := { s with isCompressed := decide (w &&& 3 ≠ 3) }) hF] at hs2
      cases hs2
      obtain ⟨-, rfl⟩ := RiscvInt.finishInstr_eq_some.mp h3
      exact frameInv_next (show _ = false by simpa using hF)
  | ret fc r =>
    simp only [step, Option.map_eq_some', Prod.mk.injEq] at h
    obtain ⟨s', h, rfl, -⟩ := h
    trivial

/-- The invariants of every reachable configuration. -/
structure Inv (E : Env P) (c : Config P) : Prop where
  index : IndexInv E c.hart.instr
  frame : FrameInv E c
  quiet : QuietInv c

theorem inv_boot (usermode : Bool) (xlen : Xlen) (mem : P.Mem) (ume : P.Ume) (sp pc : U64)
    (cacheEnabled : Bool) : Inv E (boot usermode xlen mem ume sp pc cacheEnabled) := by
  cases usermode <;> exact ⟨indexInv_empty, trivial, ⟨rfl, rfl, rfl⟩⟩

theorem Inv.step (hI : Inv E c) (h : step E sig c = some (c', ev)) : Inv E c' :=
  ⟨indexInv_step hI.index h, frameInv_step hI.index hI.frame h, quietInv_step hI.quiet h⟩

theorem Reachable.inv (h : Reachable E c) : Inv E c := by
  induction h with
  | boot => exact inv_boot ..
  | step _ _ hs ih => exact ih.step hs

end Invariants

end TurboRiscv
