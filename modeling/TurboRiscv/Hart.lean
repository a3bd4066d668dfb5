import TurboRiscv.Common

/-!
# The Hart State

The data model of `riscv/interpreter/main.rs`: `RiscvInstr`, `RiscvBlock` and `RiscvInt`,
its two constructors, the small methods the loops call (`set_trap`,
`get_pc_of_next_instr`, `insert_insn_current`, `change_priv`, ...), and the register-width
helpers `sign_ext`, `most_negative` and `cull_reg` (§4).

## External collaborators

The sources do not include guest memory, the page walker, the decoder tables, the
instruction handlers, the syscall dispatcher or the signal-frame builder. Following the
spec (§1, §4.1, §4.2, §6) they are parameters:

- `Platform` names the types the core never looks inside (`RiscVMem`, `UserModeRuntime`,
  `RiscvArgs`, the syscall enumeration);
- `Env` holds the functions on them the core calls.

## Handlers

A handler (`fn(&mut RiscvInt, &RiscvArgs)`) reads the guest-visible part of the hart, `Arch`,
and returns an `Effect`: new registers, CSRs and memory, the privilege it leaves through the
public `change_priv` (the `xRET` instructions), a control transfer through `want_pc`, a `wfi`
request, a request to stop the block, and possibly a trap raised through `set_trap` (spec §4.4,
§7, §9). A handler writes neither `pc` nor the interpreter's own fields, so
`exec_block_inner`'s unconditional `pc += inc_by` stays valid.
-/

namespace TurboRiscv

/-- The types of the external collaborators of the interpreter core. -/
structure Platform where
  /-- `RiscVMem`: guest memory together with the page tables the walker reads. -/
  Mem : Type
  /-- `UserModeRuntime`: brk, mmap arena, auxv and signal table of user mode. -/
  Ume : Type
  /-- `RiscvArgs`: the opcode-specific payload of a decoded instruction. -/
  Args : Type
  /-- The host-neutral syscall enumeration of `linux_usermode`. -/
  Syscall : Type

variable {P : Platform}

/-! ## §1 Handlers -/

/-- The guest-visible part of the hart: what an instruction handler reads. -/
structure Arch (P : Platform) where
  regs : Fin 32 → U64
  fregs : Fin 32 → U64
  pc : U64
  wantPc : Option U64
  xlen : Xlen
  csr : Fin 4096 → U64
  memsource : P.Mem
  prvmode : Priv
  isCompressed : Bool
  wfi : Bool
  usermode : Bool
  isReservation : Bool
  resVal : U64
  resLen : BitVec 8

/-- Modelled from the spec: what an instruction handler (absent) does to the hart. -/
structure Effect (P : Platform) where
  regs : Fin 32 → U64
  fregs : Fin 32 → U64
  csr : Fin 4096 → U64
  memsource : P.Mem
  isReservation : Bool
  resVal : U64
  resLen : BitVec 8
  /-- The privilege the handler leaves, through `change_priv`. -/
  prvmode : Priv
  /-- A control transfer: `want_pc = Some(t)` together with `stop_exec`. -/
  wantPc : Option U64
  /-- `wfi = true` together with `stop_exec`. -/
  wfi : Bool
  /-- Leave the block after this instruction (fences, CSR writes). -/
  stopExec : Bool
  /-- A trap raised through `set_trap`. -/
  trap : Option Trap

/-- Modelled from the spec: an instruction handler, a function of the hart and its args. -/
def Handler (P : Platform) := P.Args → Arch P → Effect P

/-- The effect of a handler that changes nothing. -/
def Effect.unchanged (a : Arch P) : Effect P :=
  ⟨a.regs, a.fregs, a.csr, a.memsource, a.isReservation, a.resVal, a.resLen, a.prvmode, none,
    false, false, none⟩

/-- Modelled from the spec: the `ecall` handler (absent). It raises, through `set_trap`, the
    environment call of the current privilege, with `tval` zero. -/
def ecall : Handler P := fun _ a =>
  { Effect.unchanged a with trap := some ⟨envCallFrom a.prvmode, 0⟩ }

/-- `RiscvInstr`: a decoded instruction. -/
structure RiscvInstr (P : Platform) where
  /-- 2 for a compressed instruction, 4 otherwise. -/
  incBy : U64
  args : P.Args
  func : Handler P

/-- `RiscvBlock`: decoded instructions from `begin`; `end` is the last one's address. -/
structure RiscvBlock (P : Platform) where
  begin : U64
  «end» : U64
  instrs : List (RiscvInstr P)

/-- `RiscvBlock::default()`. -/
def RiscvBlock.default : RiscvBlock P := ⟨0, 0, []⟩

/-! ## §2 The hart -/

/-- `RiscvInt`: one hart. The `HashMap` `instr` is the function giving each page number its
    list of blocks, `[]` for a page with no entry. -/
structure RiscvInt (P : Platform) where
  regs : Fin 32 → U64
  fregs : Fin 32 → U64
  pc : U64
  wantPc : Option U64
  xlen : Xlen
  csr : Fin 4096 → U64
  trapPc : U64
  memsource : P.Mem
  instr : U64 → List (RiscvBlock P)
  trap : Option Trap
  currentBlock : RiscvBlock P
  userStruct : P.Ume
  isCompressed : Bool
  changedPc : Bool
  prvmode : Priv
  stopTranslating : Bool
  stopExec : Bool
  cacheEnabled : Bool
  wfi : Bool
  usermode : Bool
  isReservation : Bool
  resVal : U64
  resLen : BitVec 8

/-- `RiscvInt::init_systemmode`; `memsource` is `RiscVMem::new_system(xlen, vm_mem)` and
    `ume` is `UserModeRuntime::default()`. -/
def RiscvInt.initSystemmode (xlen : Xlen) (memsource : P.Mem) (ume : P.Ume) : RiscvInt P where
  regs := fun _ => 0
  fregs := fun _ => 0
  pc := 0
  trapPc := 0
  wantPc := none
  xlen := xlen
  csr := fun _ => 0
  memsource := memsource
  instr := fun _ => []
  trap := none
  currentBlock := .default
  changedPc := false
  prvmode := .machine
  stopTranslating := false
  stopExec := false
  cacheEnabled := false
  wfi := false
  userStruct := ume
  usermode := false
  isReservation := false
  resVal := 0
  isCompressed := false
  resLen := 0

/-- `RiscvInt::init_usermode`; `memsource` is `RiscVMem::new_usermode(xlen)`. -/
def RiscvInt.initUsermode (xlen : Xlen) (memsource : P.Mem) (ume : P.Ume) : RiscvInt P :=
  { RiscvInt.initSystemmode xlen memsource ume with usermode := true }

namespace RiscvInt

/-- The guest-visible part of the hart, as a handler sees it. -/
def arch (s : RiscvInt P) : Arch P :=
  ⟨s.regs, s.fregs, s.pc, s.wantPc, s.xlen, s.csr, s.memsource, s.prvmode, s.isCompressed,
    s.wfi, s.usermode, s.isReservation, s.resVal, s.resLen⟩

/-- `set_stack_reg`. -/
def setStackReg (s : RiscvInt P) (val : U64) : RiscvInt P :=
  { s with regs := Function.update s.regs 2 val }

/-- `change_priv`. -/
def changePriv (s : RiscvInt P) (privs : Priv) : RiscvInt P :=
  { s with prvmode := privs }

/-- `get_pc_of_current_instr`. -/
def getPcOfCurrentInstr (s : RiscvInt P) : U64 := s.pc

/-- `get_pc_of_next_instr`; `none` where `pc + 2` or `pc + 4` overflows. -/
def getPcOfNextInstr (s : RiscvInt P) : Option U64 :=
  if s.isCompressed then checkedAdd s.pc 2 else checkedAdd s.pc 4

/-- `insert_insn_current`. -/
def insertInsnCurrent (s : RiscvInt P) (instr : RiscvInstr P) : RiscvInt P :=
  { s with currentBlock := { s.currentBlock with instrs := s.currentBlock.instrs ++ [instr] } }

/-- `set_trap`. -/
def setTrap (s : RiscvInt P) (trp : Trap) : RiscvInt P :=
  { s with trap := some trp, trapPc := s.getPcOfCurrentInstr, stopExec := true }

/-- `(z.func)(self, &z.args)`: run a handler and apply its effect. -/
def execHandler (s : RiscvInt P) (z : RiscvInstr P) : RiscvInt P :=
  let e := z.func z.args s.arch
  let s' : RiscvInt P :=
    { s with regs := e.regs, fregs := e.fregs, csr := e.csr, memsource := e.memsource,
             isReservation := e.isReservation, resVal := e.resVal, resLen := e.resLen,
             prvmode := e.prvmode, wantPc := e.wantPc.or s.wantPc, wfi := s.wfi || e.wfi,
             stopExec := s.stopExec || e.stopExec || e.wantPc.isSome || e.wfi }
  match e.trap with
  | some trp => s'.setTrap trp
  | none => s'

/-- The hart between two instructions: no trap, control transfer or `wfi` is pending. -/
structure Quiet (s : RiscvInt P) : Prop where
  trap : s.trap = none
  wantPc : s.wantPc = none
  wfi : s.wfi = false

section Handler

variable (s : RiscvInt P) (z : RiscvInstr P)

/-! A handler leaves the loop's own fields alone: `pc`, the flags of the interpreter and the
block index; the privilege is the one it leaves. -/

@[simp] theorem execHandler_pc : (s.execHandler z).pc = s.pc := by
  unfold execHandler; dsimp only; split <;> rfl

@[simp] theorem execHandler_prvmode :
    (s.execHandler z).prvmode = (z.func z.args s.arch).prvmode := by
  unfold execHandler; dsimp only; split <;> rfl

@[simp] theorem execHandler_memsource :
    (s.execHandler z).memsource = (z.func z.args s.arch).memsource := by
  unfold execHandler; dsimp only; split <;> rfl

@[simp] theorem execHandler_usermode : (s.execHandler z).usermode = s.usermode := by
  unfold execHandler; dsimp only; split <;> rfl

@[simp] theorem execHandler_cacheEnabled : (s.execHandler z).cacheEnabled = s.cacheEnabled := by
  unfold execHandler; dsimp only; split <;> rfl

@[simp] theorem execHandler_instr : (s.execHandler z).instr = s.instr := by
  unfold execHandler; dsimp only; split <;> rfl

@[simp] theorem execHandler_isCompressed : (s.execHandler z).isCompressed = s.isCompressed := by
  unfold execHandler; dsimp only; split <;> rfl

@[simp] theorem execHandler_xlen : (s.execHandler z).xlen = s.xlen := by
  unfold execHandler; dsimp only; split <;> rfl

/-- A handler that raises no trap leaves the trap slot alone; one that raises `t` leaves `t`
    pending, records the current `pc` and stops the block. -/
theorem execHandler_trap :
    ((z.func z.args s.arch).trap = none ∧ (s.execHandler z).trap = s.trap ∧
      (s.execHandler z).trapPc = s.trapPc) ∨
    ∃ t, (z.func z.args s.arch).trap = some t ∧ (s.execHandler z).trap = some t ∧
      (s.execHandler z).trapPc = s.pc ∧ (s.execHandler z).stopExec = true := by
  unfold execHandler
  dsimp only
  split
  · rename_i t ht
    exact .inr ⟨t, ht, rfl, rfl, rfl⟩
  · exact .inl ⟨‹_›, rfl, rfl⟩

/-- The `ecall` handler raises the environment call of the current privilege and stops the
    block. -/
theorem execHandler_ecall (hz : z.func = ecall) :
    s.execHandler z =
      { s with trap := some ⟨envCallFrom s.prvmode, 0⟩, trapPc := s.pc, stopExec := true } := by
  unfold execHandler
  simp [hz, ecall, Effect.unchanged, setTrap, arch, getPcOfCurrentInstr]

/-- A handler leaves a quiet hart quiet, or stops the block: `set_trap`, a control transfer
    and `wfi` all set `stop_exec`. -/
theorem Quiet.execHandler {s : RiscvInt P} (h : s.Quiet) (z : RiscvInstr P) :
    (s.execHandler z).Quiet ∨ (s.execHandler z).stopExec = true := by
  unfold RiscvInt.execHandler
  dsimp only
  split
  · exact .inr rfl
  · rename_i ht
    cases hw : (z.func z.args s.arch).wantPc <;> cases hf : (z.func z.args s.arch).wfi
    · exact .inl ⟨h.trap, by simp [hw, h.wantPc], by simp [hf, h.wfi]⟩
    all_goals exact .inr (by simp [hw, hf])

/-- Once `stop_exec` is set, a handler leaves it set. -/
theorem execHandler_stopExec_of {s : RiscvInt P} (h : s.stopExec = true) (z : RiscvInstr P) :
    (s.execHandler z).stopExec = true := by
  unfold execHandler; dsimp only; split <;> simp [h, setTrap]

end Handler

end RiscvInt

/-! ## §3 The collaborators' functions -/

/-- Modelled from the spec: a decoder table entry (`decoder`, `decoder16`, absent): the record
    it builds and whether it sets `stop_translating` (branches, jumps, fences, CSR writes,
    environment calls). -/
structure Decoded (P : Platform) where
  instr : RiscvInstr P
  stopsTranslating : Bool

/-- `SyscallIn`: the translated number and the six arguments (and a zero). -/
structure SyscallIn (P : Platform) where
  syscall : P.Syscall
  args : List U64

/-- `SyscallOut`: the primary result and an optional secondary one. -/
structure SyscallOut where
  ret1 : U64
  ret2 : Option U64

/-- What the signal-frame builder writes: registers, the frame on the guest stack, and the
    handler's entry pc. -/
structure RtFrame (P : Platform) where
  regs : Fin 32 → U64
  memsource : P.Mem
  pc : U64

/-- The functions of the external collaborators the core calls. -/
structure Env (P : Platform) where
  /-- `read16(addr, true, _)`: a physical halfword read. -/
  read16 : P.Mem → U64 → Except Trap (BitVec 16)
  /-- `read32(addr, true, true)`: a word read with the physical flag set. -/
  read32 : P.Mem → U64 → Except Trap (BitVec 32)
  /-- The page walk of an instruction fetch: virtual to physical page number. -/
  walk : Arch P → U64 → Option U64
  /-- The table of `decoder16::decode`. -/
  decoder16 : BitVec 16 → Option (Decoded P)
  /-- The table of `decoder::decode`. -/
  decoder : BitVec 32 → Option (Decoded P)
  /-- `riscv_translate_syscall`. -/
  riscvTranslateSyscall : BitVec 16 → Option P.Syscall
  /-- `dispatch`: the user-mode runtime serves a syscall; `none` when it ends the process
      or reaches a `todo!()`. -/
  dispatch : P.Ume → P.Mem → SyscallIn P → Option (P.Ume × P.Mem × SyscallOut)
  /-- `setup_rt_frame`: build the frame of a signal and enter its handler. -/
  setupRtFrame : Arch P → Nat → RtFrame P

namespace Env

variable (E : Env P)

/-- Modelled from the spec: `memsource.virt2phys(addr, gen_mem_cirum(Execute))` (absent).
    The walk is page-granular, so the page offset is kept. -/
def virt2phys (a : Arch P) (addr : U64) : Option U64 :=
  (E.walk a (addr >>> riscvPageShift)).map
    fun (ppn : U64) => (ppn <<< riscvPageShift) ||| (addr &&& riscvPageOffset)

/-- The translation of a fetch is page-granular: it moves with the address within a page. -/
theorem virt2phys_add {ar : Arch P} {a p : U64} {j : Nat}
    (h : E.virt2phys ar a = some p) (hj : pageOff a + j < 4096) :
    E.virt2phys ar (a + BitVec.ofNat 64 j) = some (p + BitVec.ofNat 64 j) := by
  unfold virt2phys at h ⊢
  rw [ushiftRight_add a j hj]
  obtain ⟨n, hn, rfl⟩ := Option.map_eq_some'.mp h
  rw [hn, Option.map_some', pageAddr_add n a j hj]

/-- The translation keeps the page offset. -/
theorem virt2phys_pageOff {ar : Arch P} {a p : U64} (h : E.virt2phys ar a = some p) :
    pageOff p = pageOff a := by
  unfold virt2phys at h
  obtain ⟨n, -, rfl⟩ := Option.map_eq_some'.mp h
  rw [← BitVec.add_eq_or_of_and_eq_zero _ _ (shiftLeft_and_and_riscvPageOffset n a)]
  have h1 := toNat_and_riscvPageOffset a
  have h2 : pageOff a < 4096 := Nat.mod_lt _ (by decide)
  simp only [pageOff, BitVec.toNat_add, BitVec.toNat_shiftLeft, riscvPageShift] at h1 h2 ⊢
  rw [h1]
  omega

end Env

/-- Modelled from the spec: `mem_trap(MemAccessType::Execute, addr)` (absent), the fetch fault
    with `tval` the faulting address. -/
def memTrapExecute (addr : U64) : Trap := ⟨.instructionPageFault, addr⟩

namespace RiscvInt

/-- Modelled from the spec: `decoder::decode(self, w)` / `decoder16::decode(self, w)` given the
    table entry of `w`. With the cache on, the record is appended to the current block (and
    `stop_translating` set for a block-ending instruction); with it off, the handler runs at
    once. `none` when the word is rejected (the call returns `false`). -/
def decode (s : RiscvInt P) : Option (Decoded P) → Option (RiscvInt P)
  | none => none
  | some d =>
    if s.cacheEnabled then
      some { s.insertInsnCurrent d.instr with
        stopTranslating := s.stopTranslating || d.stopsTranslating }
    else some (s.execHandler d.instr)

@[simp] theorem decode_none (s : RiscvInt P) : s.decode none = none := rfl

theorem decode_some_of_cacheEnabled {s : RiscvInt P} (h : s.cacheEnabled = true)
    (d : Decoded P) :
    s.decode (some d) = some { s.insertInsnCurrent d.instr with
      stopTranslating := s.stopTranslating || d.stopsTranslating } := by
  simp [decode, h]

theorem decode_some_of_not_cacheEnabled {s : RiscvInt P} (h : s.cacheEnabled = false)
    (d : Decoded P) : s.decode (some d) = some (s.execHandler d.instr) := by
  simp [decode, h]

/-- The decoder panics only on a word no table entry accepts. -/
theorem decode_some_ne_none (s : RiscvInt P) (d : Decoded P) : s.decode (some d) ≠ none := by
  simp only [decode]; split <;> simp

/-- Decoding leaves `pc` alone. -/
theorem decode_pc {s s' : RiscvInt P} {o : Option (Decoded P)} (h : s.decode o = some s') :
    s'.pc = s.pc := by
  rcases o with _ | d
  · cases h
  · cases hc : s.cacheEnabled
    · rw [decode_some_of_not_cacheEnabled hc, Option.some.injEq] at h
      rw [← h, execHandler_pc]
    · rw [decode_some_of_cacheEnabled hc, Option.some.injEq] at h
      rw [← h]
      rfl

end RiscvInt

/-! ## §4 Register width

A register always holds 64 bits; at XLEN 32 a handler reads it through `sign_ext` and
`cull_reg`. Their one property: `cull_reg` keeps the value modulo `2^XLEN`, and `sign_ext`
returns the value of the signed XLEN range that agrees with it modulo `2^XLEN`
(`signExt_cullReg_spec`). -/

namespace RiscvInt

/-- `sign_ext`: at XLEN 32, `value as i32 as i64 as u64`. -/
def signExt (s : RiscvInt P) (value : U64) : U64 :=
  match s.xlen with
  | .x32 => (value.setWidth 32).signExtend 64
  | .x64 => value

/-- `most_negative`: `i32::MIN as i64` or `i64::MIN`. -/
def mostNegative (s : RiscvInt P) : Int :=
  match s.xlen with
  | .x32 => -2 ^ 31
  | .x64 => -2 ^ 63

/-- `cull_reg`. -/
def cullReg (s : RiscvInt P) (val : U64) : U64 :=
  if s.xlen = .x32 then val &&& 0xffffffff else val &&& 0xffffffffffffffff

@[simp] theorem toNat_xlen2bits_x32 : (xlen2bits .x32).toNat = 32 := rfl

@[simp] theorem toNat_xlen2bits_x64 : (xlen2bits .x64).toNat = 64 := rfl

theorem toNat_cullReg (s : RiscvInt P) (val : U64) :
    (s.cullReg val).toNat = val.toNat % 2 ^ (xlen2bits s.xlen).toNat := by
  rcases hx : s.xlen with _ | _ <;> simp only [cullReg, hx, BitVec.toNat_and]
  · exact Nat.and_pow_two_sub_one_eq_mod _ 32
  · exact Nat.and_pow_two_sub_one_eq_mod _ 64

/-- `value as i32 as i64` is the `i32` the low word encodes. -/
theorem toInt_signExtend_setWidth (v : U64) :
    ((v.setWidth 32).signExtend 64).toInt = (v.setWidth 32).toInt := by
  have h := (v.setWidth 32).toInt_eq_toNat_cond
  have hv := (v.setWidth 32).isLt
  rw [BitVec.signExtend, BitVec.toInt_ofInt, Int.bmod]
  split <;> split at h <;> omega

theorem toInt_signExt (s : RiscvInt P) (v : U64) :
    s.mostNegative ≤ (s.signExt v).toInt ∧ (s.signExt v).toInt < -s.mostNegative ∧
    (s.signExt v).toInt % 2 ^ (xlen2bits s.xlen).toNat = v.toNat % 2 ^ (xlen2bits s.xlen).toNat := by
  rcases hx : s.xlen with _ | _ <;>
    simp only [signExt, mostNegative, hx, toNat_xlen2bits_x32, toNat_xlen2bits_x64]
  · have h := (v.setWidth 32).toInt_eq_toNat_cond
    have hv := (v.setWidth 32).isLt
    rw [BitVec.toNat_setWidth] at h hv
    rw [toInt_signExtend_setWidth]
    refine ⟨?_, ?_, ?_⟩ <;> split at h <;> omega
  · have h := v.toInt_eq_toNat_cond
    have hv := v.isLt
    refine ⟨?_, ?_, ?_⟩ <;> split at h <;> omega

theorem cullReg_signExt (s : RiscvInt P) (v : U64) : s.cullReg (s.signExt v) = s.cullReg v := by
  apply BitVec.eq_of_toNat_eq
  have h := (s.signExt v).toInt_eq_toNat_cond
  have hc := (s.toInt_signExt v).2.2
  rw [toNat_cullReg, toNat_cullReg]
  rcases hx : s.xlen with _ | _ <;> rw [hx] at hc <;>
    simp only [toNat_xlen2bits_x32, toNat_xlen2bits_x64] at hc ⊢ <;> split at h <;> omega

/-- Two values of the signed range that agree modulo `2^XLEN` are equal, so `sign_ext` reads
    only the bits `cull_reg` keeps. -/
theorem signExt_cullReg (s : RiscvInt P) (v : U64) : s.signExt (s.cullReg v) = s.signExt v := by
  apply BitVec.eq_of_toInt_eq
  have h1 := s.toInt_signExt v
  have h2 := s.toInt_signExt (s.cullReg v)
  have hc := s.toNat_cullReg v
  rcases hx : s.xlen with _ | _ <;> rw [hx] at h1 h2 hc <;>
    simp only [mostNegative, hx, toNat_xlen2bits_x32, toNat_xlen2bits_x64] at h1 h2 hc <;> omega

/-- **`sign_ext` and `cull_reg` read a register at the hart's width.** At both widths and for
    every value: `cull_reg` keeps it modulo `2^XLEN`; `sign_ext` returns, as an `i64`, the value
    of `[most_negative, -most_negative)` that agrees with it modulo `2^XLEN`; so each ignores
    what the other discards, and both are idempotent. -/
theorem signExt_cullReg_spec (s : RiscvInt P) (v : U64) :
    (s.cullReg v).toNat = v.toNat % 2 ^ (xlen2bits s.xlen).toNat ∧
    s.mostNegative ≤ (s.signExt v).toInt ∧ (s.signExt v).toInt < -s.mostNegative ∧
    (s.signExt v).toInt % 2 ^ (xlen2bits s.xlen).toNat = v.toNat % 2 ^ (xlen2bits s.xlen).toNat ∧
    s.cullReg (s.signExt v) = s.cullReg v ∧ s.signExt (s.cullReg v) = s.signExt v ∧
    s.cullReg (s.cullReg v) = s.cullReg v ∧ s.signExt (s.signExt v) = s.signExt v := by
  have hcc : s.cullReg (s.cullReg v) = s.cullReg v := by
    apply BitVec.eq_of_toNat_eq
    rw [toNat_cullReg, toNat_cullReg, Nat.mod_mod]
  have hss : s.signExt (s.signExt v) = s.signExt v := calc
    s.signExt (s.signExt v) = s.signExt (s.cullReg (s.signExt v)) := (signExt_cullReg s _).symm
    _ = s.signExt (s.cullReg v) := by rw [cullReg_signExt]
    _ = s.signExt v := signExt_cullReg s v
  obtain ⟨hlo, hhi, hmod⟩ := s.toInt_signExt v
  exact ⟨s.toNat_cullReg v, hlo, hhi, hmod, cullReg_signExt s v, signExt_cullReg s v, hcc, hss⟩

end RiscvInt

end TurboRiscv
