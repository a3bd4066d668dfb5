import Mathlib.Data.BitVec

/-!
# Common RISC-V Definitions

The vocabulary the interpreter core (`riscv/interpreter/main.rs`) takes from `riscv::common`,
`riscv::mem` and `riscv::interpreter::consts`: integer widths, privilege levels, trap causes,
CSR numbers and the page geometry. Those modules are not part of the sources we model, so each
definition here is taken from the spec and the RISC-V privileged architecture it cites.

## Machine words

Rust's `u64` is `BitVec 64`; `x >>> n`, `x &&& y` and `~~~x` are Rust's `>>`, `&` and `!`.
`+` on `u64` panics on overflow in the default (debug) build, which is the build modelled here:
`checkedAdd` (§4) is such an addition, `none` where it panics. A release build, which turns the
check off, would wrap instead. Where the code adds or multiplies in a way that cannot overflow,
the model writes the plain `BitVec` operation, with a comment saying why it does not.

## Pages

Blocks are keyed by physical page. `pageNum a` and `pageOff a` are the page number and the
offset of an address as natural numbers, and §3 relates them to the bit operations the code
uses (`addr >> RISCV_PAGE_SHIFT`, `addr & RISCV_PAGE_OFFSET`, `addr & !RISCV_PAGE_OFFSET`).
-/

namespace TurboRiscv

/-- Rust's `u64`. -/
abbrev U64 := BitVec 64

/-! ## §1 Widths, privileges and traps -/

/-- `Xlen`: the architectural integer width, fixed when the hart is built. -/
inductive Xlen
  | x32
  | x64
  deriving DecidableEq, Repr

/-- Modelled from the spec: `xlen2bits` (absent), the width in bits. -/
def xlen2bits : Xlen → U64
  | .x32 => 32
  | .x64 => 64

/-- Modelled from the spec: `xlen2misa` (absent), the `mxl` encoding of a width. -/
def xlen2misa : Xlen → U64
  | .x32 => 1
  | .x64 => 2

/-- `Priv`: the privilege level of the hart. -/
inductive Priv
  | user
  | supervisor
  | machine
  deriving DecidableEq, Repr

/-- Modelled from the spec: `get_privilege_encoding` (absent): 0 for user, 1 for supervisor,
    3 for machine, the encoding `SPP`/`MPP` hold. -/
def getPrivilegeEncoding : Priv → U64
  | .user => 0
  | .supervisor => 1
  | .machine => 3

/-- `Exception`: the synchronous exceptions and the interrupts a trap can carry. -/
inductive Exception
  | instructionAddressMisaligned
  | instructionAccessFault
  | illegalInstruction
  | breakpoint
  | loadAddressMisaligned
  | loadAccessFault
  | storeAddressMisaligned
  | storeAccessFault
  | environmentCallFromUMode
  | environmentCallFromSMode
  | environmentCallFromMMode
  | instructionPageFault
  | loadPageFault
  | storePageFault
  | userSoftwareInterrupt
  | supervisorSoftwareInterrupt
  | machineSoftwareInterrupt
  | userTimerInterrupt
  | supervisorTimerInterrupt
  | machineTimerInterrupt
  | userExternalInterrupt
  | supervisorExternalInterrupt
  | machineExternalInterrupt
  deriving DecidableEq, Repr

/-- `Trap`: a cause and the value that goes to `xtval`. -/
structure Trap where
  ttype : Exception
  val : U64
  deriving DecidableEq, Repr

/-- The RISC-V cause code of an exception or interrupt, without the interrupt bit. -/
def Exception.code : Exception → U64
  | .instructionAddressMisaligned => 0
  | .instructionAccessFault => 1
  | .illegalInstruction => 2
  | .breakpoint => 3
  | .loadAddressMisaligned => 4
  | .loadAccessFault => 5
  | .storeAddressMisaligned => 6
  | .storeAccessFault => 7
  | .environmentCallFromUMode => 8
  | .environmentCallFromSMode => 9
  | .environmentCallFromMMode => 11
  | .instructionPageFault => 12
  | .loadPageFault => 13
  | .storePageFault => 15
  | .userSoftwareInterrupt => 0
  | .supervisorSoftwareInterrupt => 1
  | .machineSoftwareInterrupt => 3
  | .userTimerInterrupt => 4
  | .supervisorTimerInterrupt => 5
  | .machineTimerInterrupt => 7
  | .userExternalInterrupt => 8
  | .supervisorExternalInterrupt => 9
  | .machineExternalInterrupt => 11

/-- Whether an `Exception` is an interrupt. -/
def Exception.isInterrupt : Exception → Bool
  | .userSoftwareInterrupt | .supervisorSoftwareInterrupt | .machineSoftwareInterrupt
  | .userTimerInterrupt | .supervisorTimerInterrupt | .machineTimerInterrupt
  | .userExternalInterrupt | .supervisorExternalInterrupt | .machineExternalInterrupt => true
  | _ => false

/-- Modelled from the spec: `get_trap_cause` (absent), the encoded cause with the interrupt
    bit at bit `XLEN - 1`. -/
def getTrapCause (trp : Trap) (xlen : Xlen) : U64 :=
  if trp.ttype.isInterrupt then ((1 : U64) <<< (xlen2bits xlen - 1)) ||| trp.ttype.code
  else trp.ttype.code

/-- The cause of the environment call taken at a privilege. -/
def envCallFrom : Priv → Exception
  | .user => .environmentCallFromUMode
  | .supervisor => .environmentCallFromSMode
  | .machine => .environmentCallFromMMode

/-! ## §2 CSR numbers

Modelled from the spec: `riscv::interpreter::consts` (absent). The hart keeps `sstatus` in its
own slot of the CSR file, apart from `mstatus`. -/

/-- `CSR_SSTATUS_ADDRESS`. -/
def csrSstatusAddress : Fin 4096 := 0x100
/-- `CSR_STVEC_ADDRESS`. -/
def csrStvecAddress : Fin 4096 := 0x105
/-- `CSR_SEPC_ADDRESS`. -/
def csrSepcAddress : Fin 4096 := 0x141
/-- `CSR_SCAUSE_ADDRESS`. -/
def csrScauseAddress : Fin 4096 := 0x142
/-- `CSR_STVAL_ADDRESS`. -/
def csrStvalAddress : Fin 4096 := 0x143
/-- `CSR_MSTATUS_ADDRESS`. -/
def csrMstatusAddress : Fin 4096 := 0x300
/-- `CSR_MEDELEG_ADDRESS`. -/
def csrMedelegAddress : Fin 4096 := 0x302
/-- `CSR_MIDELEG_ADDRESS`. -/
def csrMidelegAddress : Fin 4096 := 0x303
/-- `CSR_MTVEC_ADDRESS`. -/
def csrMtvecAddress : Fin 4096 := 0x305
/-- `CSR_MEPC_ADDRESS`. -/
def csrMepcAddress : Fin 4096 := 0x341
/-- `CSR_MCAUSE_ADDRESS`. -/
def csrMcauseAddress : Fin 4096 := 0x342
/-- `CSR_MTVAL_ADDRESS`. -/
def csrMtvalAddress : Fin 4096 := 0x343

/-! ## §3 Page geometry

Modelled from the spec: `riscv::mem` (absent). RISC-V base pages are 4 KiB. -/

/-- `RISCV_PAGE_SHIFT`. -/
def riscvPageShift : Nat := 12
/-- `RISCV_PAGE_SIZE`. -/
def riscvPageSize : U64 := 4096
/-- `RISCV_PAGE_OFFSET`. -/
def riscvPageOffset : U64 := 4095

/-- The page number of an address. -/
def pageNum (a : U64) : Nat := a.toNat / 4096

/-- The offset of an address within its page. -/
def pageOff (a : U64) : Nat := a.toNat % 4096

theorem toNat_and_riscvPageOffset (a : U64) : (a &&& riscvPageOffset).toNat = pageOff a := by
  rw [BitVec.toNat_and, pageOff, riscvPageOffset]
  exact Nat.and_pow_two_sub_one_eq_mod a.toNat 12

theorem and_not_riscvPageOffset (a : U64) :
    a &&& ~~~riscvPageOffset = (a >>> riscvPageShift) <<< riscvPageShift := by
  ext i
  have hmask : riscvPageOffset.getLsbD i = decide ((i : Nat) < 12) := by
    rw [BitVec.getLsbD, show riscvPageOffset.toNat = 2 ^ 12 - 1 from rfl]
    exact Nat.testBit_two_pow_sub_one 12 i
  simp only [riscvPageShift, BitVec.getLsbD_and, BitVec.getLsbD_not,
    BitVec.getLsbD_shiftLeft, BitVec.getLsbD_ushiftRight, hmask]
  by_cases h : (i : Nat) < 12
  · simp [h]
  · simp [h, Nat.add_sub_cancel' (Nat.le_of_not_lt h)]

theorem toNat_ushiftRight_riscvPageShift (a : U64) : (a >>> riscvPageShift).toNat = pageNum a := by
  rw [BitVec.toNat_ushiftRight, Nat.shiftRight_eq_div_pow]; rfl

/-- Two addresses have equal `addr & !RISCV_PAGE_OFFSET` iff they lie in one page. -/
theorem and_not_riscvPageOffset_eq_iff (a b : U64) :
    a &&& ~~~riscvPageOffset = b &&& ~~~riscvPageOffset ↔ pageNum a = pageNum b := by
  have ha := a.isLt
  have hb := b.isLt
  rw [and_not_riscvPageOffset, and_not_riscvPageOffset, BitVec.toNat_eq, BitVec.toNat_shiftLeft,
    BitVec.toNat_shiftLeft, toNat_ushiftRight_riscvPageShift, toNat_ushiftRight_riscvPageShift,
    Nat.shiftLeft_eq, Nat.shiftLeft_eq]
  simp only [pageNum, riscvPageShift]
  omega

/-- Two addresses have equal `addr >> RISCV_PAGE_SHIFT` iff they lie in one page. -/
theorem ushiftRight_riscvPageShift_eq_iff (a b : U64) :
    a >>> riscvPageShift = b >>> riscvPageShift ↔ pageNum a = pageNum b := by
  rw [BitVec.toNat_eq, toNat_ushiftRight_riscvPageShift, toNat_ushiftRight_riscvPageShift]

theorem shiftLeft_and_and_riscvPageOffset (n a : U64) :
    (n <<< riscvPageShift) &&& (a &&& riscvPageOffset) = 0 := by
  ext i
  have hmask : riscvPageOffset.getLsbD i = decide ((i : Nat) < 12) := by
    rw [BitVec.getLsbD, show riscvPageOffset.toNat = 2 ^ 12 - 1 from rfl]
    exact Nat.testBit_two_pow_sub_one 12 i
  simp only [riscvPageShift, BitVec.getLsbD_and, BitVec.getLsbD_shiftLeft, hmask,
    BitVec.getLsbD_zero]
  by_cases h : (i : Nat) < 12 <;> simp [h]

/-- An address is its page base together with its offset. -/
theorem pageBase_or_pageOffset (a : U64) :
    ((a >>> riscvPageShift) <<< riscvPageShift) ||| (a &&& riscvPageOffset) = a := by
  rw [← and_not_riscvPageOffset]
  ext i
  simp only [BitVec.getLsbD_or, BitVec.getLsbD_and, BitVec.getLsbD_not]
  cases a.getLsbD i <;> simp

/-- Within one page, `(ppn << RISCV_PAGE_SHIFT) | (addr & RISCV_PAGE_OFFSET)` moves with `addr`. -/
theorem pageAddr_add (n a : U64) (j : Nat) (hj : pageOff a + j < 4096) :
    (n <<< riscvPageShift) ||| ((a + BitVec.ofNat 64 j) &&& riscvPageOffset) =
      ((n <<< riscvPageShift) ||| (a &&& riscvPageOffset)) + BitVec.ofNat 64 j := by
  rw [← BitVec.add_eq_or_of_and_eq_zero _ _ (shiftLeft_and_and_riscvPageOffset n _),
    ← BitVec.add_eq_or_of_and_eq_zero _ _ (shiftLeft_and_and_riscvPageOffset n _), BitVec.add_assoc]
  congr 1
  have ha := a.isLt
  have hp : a.toNat % 4096 = pageOff a := rfl
  rw [BitVec.toNat_eq, toNat_and_riscvPageOffset, BitVec.toNat_add, toNat_and_riscvPageOffset]
  simp only [pageOff, BitVec.toNat_add, BitVec.toNat_ofNat] at hj ⊢
  omega

theorem ushiftRight_add (a : U64) (j : Nat) (hj : pageOff a + j < 4096) :
    (a + BitVec.ofNat 64 j) >>> riscvPageShift = a >>> riscvPageShift := by
  have ha := a.isLt
  rw [ushiftRight_riscvPageShift_eq_iff]
  simp only [pageNum, pageOff, BitVec.toNat_add, BitVec.toNat_ofNat] at hj ⊢
  omega

/-! ## §4 Checked addition -/

/-- `u64::checked_add`, and `+` on `u64` in the debug build: `none` where the sum passes
    `2^64 - 1`, where `+` panics. -/
def checkedAdd (a b : U64) : Option U64 :=
  if a.toNat + b.toNat < 2 ^ 64 then some (a + b) else none

theorem toNat_add_of_lt {a b : U64} (h : a.toNat + b.toNat < 2 ^ 64) :
    (a + b).toNat = a.toNat + b.toNat := by
  rw [BitVec.toNat_add, Nat.mod_eq_of_lt h]

theorem checkedAdd_of_lt {a b : U64} (h : a.toNat + b.toNat < 2 ^ 64) :
    checkedAdd a b = some (a + b) :=
  if_pos h

@[simp] theorem checkedAdd_eq_none_iff {a b : U64} :
    checkedAdd a b = none ↔ 2 ^ 64 ≤ a.toNat + b.toNat := by
  unfold checkedAdd
  split_ifs with h <;> simp [h] <;> omega

theorem checkedAdd_eq_some_iff {a b c : U64} :
    checkedAdd a b = some c ↔ a.toNat + b.toNat < 2 ^ 64 ∧ c = a + b := by
  unfold checkedAdd
  split_ifs with h
  · rw [Option.some.injEq]
    exact ⟨fun e => ⟨h, e.symm⟩, fun ⟨_, e⟩ => e.symm⟩
  · exact ⟨fun e => (by cases e), fun ⟨h', _⟩ => absurd h' h⟩

/-- A checked sum that does not panic is the sum in unbounded arithmetic. -/
theorem toNat_of_checkedAdd {a b c : U64} (h : checkedAdd a b = some c) :
    c.toNat = a.toNat + b.toNat := by
  obtain ⟨hlt, rfl⟩ := checkedAdd_eq_some_iff.mp h
  exact toNat_add_of_lt hlt

end TurboRiscv
