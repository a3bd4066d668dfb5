import TurboRiscv.Hart

/-!
# The Trap Engine

`handle_trap` and `mstatus_fixup` of `riscv/interpreter/main.rs`, and trap entry as the spec
(§4.5) and the RISC-V privileged architecture describe it.

## Layers

- **§1** the two functions, translated from the source;
- **§2** the spec's description of trap entry: the delegation decision `Delegated` and the
  state after entry `TrapEntry`, with the target mode's CSRs and status bits as parameters;
- **§3** bit-level lemmas about the masks and shifts the code uses;
- **§4** `handleTrap_spec`: `handle_trap` is exactly RISC-V trap entry, for every trap,
  width, privilege and CSR file;
- **§5** the cause register: `handle_trap` stores the trap's code, which is the encoded cause
  exactly for exceptions (`handleTrap_cause`, `trapCode_eq_getTrapCause_iff`);
- **§6** `mstatus` well-formedness: what `mstatus_fixup` establishes, bit by bit
  (`getLsbD_mstatusFixup`), and that trap entry keeps it (`mstatusFixup_wf`).
-/

namespace TurboRiscv

variable {P : Platform}

/-! ## §1 The code -/

namespace RiscvInt

/-- `handle_trap`: deliver `trp`, raised at `trappedPc`, to supervisor or machine mode; `none`
    where `(xtvec & !1) + vector` overflows. `4 * reason` cannot: `vector` is taken for an
    interrupt only, whose code is below 16. -/
def handleTrap (s : RiscvInt P) (trp : Trap) (trappedPc : U64) : Option (RiscvInt P) :=
  let reason := getTrapCause trp s.xlen
  let bit : U64 := (1 : U64) <<< (xlen2bits s.xlen - 1)
  let intr := bit &&& reason ≠ 0
  -- `get_privilege_encoding(self.prvmode) <= Priv::Supervisor as u64`
  let low := getPrivilegeEncoding s.prvmode ≤ 1
  let hsdeleg : U64 :=
    if low then (if intr then s.csr csrMidelegAddress else s.csr csrMedelegAddress) else 0
  let reason := if intr then reason &&& ~~~bit else reason
  if low ∧ reason < xlen2bits s.xlen ∧ (hsdeleg >>> reason) &&& 1 ≠ 0 then
    let stvec := s.csr csrStvecAddress
    let vector : U64 := if stvec &&& 1 ≠ 0 ∧ intr then 4 * reason else 0
    let status := s.csr csrSstatusAddress
    let sie := (status >>> 1) &&& 1
    let status := (status &&& ~~~(0x122 : U64)) ||| (sie <<< 5) |||
      ((getPrivilegeEncoding s.prvmode &&& 1) <<< 8)
    let csr := Function.update s.csr csrScauseAddress reason
    let csr := Function.update csr csrSepcAddress trappedPc
    let csr := Function.update csr csrStvalAddress trp.val
    let csr := Function.update csr csrSstatusAddress status
    (checkedAdd (stvec &&& ~~~(1 : U64)) vector).map fun pc =>
      ({ s with pc := pc, csr := csr } : RiscvInt P).changePriv .supervisor
  else
    let mtvec := s.csr csrMtvecAddress
    let vector : U64 := if mtvec &&& 1 ≠ 0 ∧ intr then 4 * reason else 0
    let status := s.csr csrMstatusAddress
    let mie := (status >>> 3) &&& 1
    let status := (status &&& ~~~(0x1888 : U64)) ||| (mie <<< 7) |||
      (getPrivilegeEncoding s.prvmode <<< 11)
    let csr := Function.update s.csr csrMcauseAddress reason
    let csr := Function.update csr csrMepcAddress trappedPc
    let csr := Function.update csr csrMtvalAddress trp.val
    let csr := Function.update csr csrMstatusAddress status
    (checkedAdd (mtvec &&& ~~~(1 : U64)) vector).map fun pc =>
      ({ s with pc := pc, csr := csr } : RiscvInt P).changePriv .machine

/-- `mstatus_fixup`: clear the forbidden bits and force `sxl`/`uxl` to the hart's width. -/
def mstatusFixup (s : RiscvInt P) (m : U64) : U64 :=
  let mstatus := m &&& ~~~((1 : U64) <<< 6)
  let mstatus :=
    if s.xlen = .x64 then (mstatus &&& ~~~((1 : U64) <<< 36)) &&& ~~~((1 : U64) <<< 37)
    else mstatus
  if s.xlen = .x64 then
    let x := xlen2misa s.xlen
    let mstatus := mstatus &&& ~~~((0b11 : U64) <<< 32)
    let mstatus := mstatus ||| ((x &&& 0b11) <<< 32)
    let mstatus := mstatus &&& ~~~((0b11 : U64) <<< 34)
    mstatus ||| ((x &&& 0b11) <<< 34)
  else mstatus

end RiscvInt

/-! ## §2 Trap entry as the spec describes it -/

/-- The width in bits, as a number. -/
def xlenBits (xlen : Xlen) : Nat := (xlen2bits xlen).toNat

/-- Whether a trap is an interrupt: bit `XLEN - 1` of its encoded cause. -/
def trapIntr (trp : Trap) (xlen : Xlen) : Bool :=
  (getTrapCause trp xlen).getLsbD (xlenBits xlen - 1)

/-- The cause code of a trap: the encoded cause with bit `XLEN - 1` cleared. -/
def trapCode (trp : Trap) (xlen : Xlen) : U64 :=
  getTrapCause trp xlen &&& ~~~(BitVec.twoPow 64 (xlenBits xlen - 1))

/-- Spec §4.5 step 2: trap entry goes to supervisor mode iff the hart runs below machine
    mode, the code is in range, and its bit of `mideleg` (interrupts) or `medeleg`
    (exceptions) is set. -/
def Delegated (s : RiscvInt P) (trp : Trap) : Prop :=
  getPrivilegeEncoding s.prvmode ≤ 1 ∧ (trapCode trp s.xlen).toNat < xlenBits s.xlen ∧
    (if trapIntr trp s.xlen then s.csr csrMidelegAddress
      else s.csr csrMedelegAddress).getLsbD (trapCode trp s.xlen).toNat = true

instance (s : RiscvInt P) (trp : Trap) : Decidable (Delegated s trp) := by
  unfold Delegated; infer_instance

/-- Spec §4.5 steps 3 and 4: `s'` is `s` after entering the handler of privilege `target`
    through the CSRs `tvec`, `cause`, `epc`, `tval` and `status`. In `status` the enable bit `ie` is
    cleared, its old value saved at `pie`, and the old privilege written to the `ppWidth`-bit
    field at `pp`; every other bit, register and CSR keeps its value. -/
structure TrapEntry (s s' : RiscvInt P) (trp : Trap) (trappedPc : U64) (target : Priv)
    (tvec cause epc tval status : Fin 4096) (ie pie pp ppWidth : Nat) : Prop where
  pc_eq : s'.pc = (s.csr tvec &&& ~~~(1 : U64)) +
    (if (s.csr tvec).getLsbD 0 ∧ trapIntr trp s.xlen then 4 * trapCode trp s.xlen else 0)
  epc_eq : s'.csr epc = trappedPc
  tval_eq : s'.csr tval = trp.val
  ie_cleared : (s'.csr status).getLsbD ie = false
  pie_saved : (s'.csr status).getLsbD pie = (s.csr status).getLsbD ie
  pp_saved : ∀ j < ppWidth,
    (s'.csr status).getLsbD (pp + j) = (getPrivilegeEncoding s.prvmode).getLsbD j
  status_frame : ∀ i, i ≠ ie → i ≠ pie → ¬(pp ≤ i ∧ i < pp + ppWidth) →
    (s'.csr status).getLsbD i = (s.csr status).getLsbD i
  prvmode_eq : s'.prvmode = target
  csr_frame : ∀ j, j ≠ cause → j ≠ epc → j ≠ tval → j ≠ status → s'.csr j = s.csr j
  rest : s' = { s with pc := s'.pc, csr := s'.csr, prvmode := s'.prvmode }

/-- The `pc` of trap entry through `tvec` in unbounded arithmetic: the base, plus four times the
    code for an interrupt when `tvec` is vectored. -/
def trapTarget (s : RiscvInt P) (trp : Trap) (tvec : Fin 4096) : Nat :=
  (s.csr tvec &&& ~~~(1 : U64)).toNat +
    (if (s.csr tvec).getLsbD 0 ∧ trapIntr trp s.xlen then 4 * trapCode trp s.xlen else 0).toNat

/-! ## §3 Masks and shifts -/

/-- `1 << (xlen2bits(xlen) - 1)` is the power of two at bit `XLEN - 1`. -/
theorem one_shiftLeft_xlen2bits (x : Xlen) :
    (1 : U64) <<< (xlen2bits x - 1) = BitVec.twoPow 64 (xlenBits x - 1) := by
  cases x <;> rfl

theorem xlenBits_sub_one_lt (x : Xlen) : xlenBits x - 1 < 64 := by cases x <;> decide

/-- Masking with a power of two tests one bit. -/
theorem twoPow_and_ne_zero_iff (c : U64) {n : Nat} (hn : n < 64) :
    BitVec.twoPow 64 n &&& c ≠ 0 ↔ c.getLsbD n = true := by
  have h0 : BitVec.twoPow 64 n ≠ 0 := by
    rw [Ne, BitVec.toNat_eq, BitVec.toNat_twoPow,
      Nat.mod_eq_of_lt (Nat.pow_lt_pow_right (by decide) hn)]
    simp
  rw [BitVec.and_comm, BitVec.and_twoPow]
  split <;> simp_all

/-- `x & 1 != 0` tests bit 0. -/
theorem and_one_ne_zero_iff (z : U64) : z &&& 1 ≠ 0 ↔ z.getLsbD 0 = true := by
  rw [BitVec.and_comm]
  exact twoPow_and_ne_zero_iff z (n := 0) (by decide)

/-- Clearing a bit that is already clear changes nothing. -/
theorem and_not_twoPow_of_getLsbD (c : U64) {n : Nat} (h : c.getLsbD n = false) :
    c &&& ~~~BitVec.twoPow 64 n = c := by
  ext i
  simp only [BitVec.getLsbD_and, BitVec.getLsbD_not, BitVec.getLsbD_twoPow]
  by_cases hi : n = (i : Nat)
  · subst hi; simp [h]
  · simp [hi]

/-- The interrupt test of `handle_trap` reads bit `XLEN - 1` of the cause. -/
theorem handleTrap_intr_iff (trp : Trap) (x : Xlen) :
    (1 : U64) <<< (xlen2bits x - 1) &&& getTrapCause trp x ≠ 0 ↔ trapIntr trp x = true := by
  rw [one_shiftLeft_xlen2bits, twoPow_and_ne_zero_iff _ (xlenBits_sub_one_lt x)]; rfl

/-- The `reason` that `handle_trap` compares and stores is the trap's code. -/
theorem handleTrap_reason (trp : Trap) (x : Xlen) :
    (if (1 : U64) <<< (xlen2bits x - 1) &&& getTrapCause trp x ≠ 0 then
      getTrapCause trp x &&& ~~~((1 : U64) <<< (xlen2bits x - 1)) else getTrapCause trp x) =
      trapCode trp x := by
  rw [trapCode, one_shiftLeft_xlen2bits]
  split
  · rfl
  · rw [and_not_twoPow_of_getLsbD]
    rwa [← one_shiftLeft_xlen2bits, handleTrap_intr_iff, Bool.not_eq_true] at *

/-- `(x >> y) & 1 != 0` tests bit `y`. -/
theorem ushiftRight_and_one_ne_zero_iff (x y : U64) :
    (x >>> y) &&& 1 ≠ 0 ↔ x.getLsbD y.toNat = true := by
  rw [and_one_ne_zero_iff]
  show (x >>> y.toNat).getLsbD 0 = true ↔ _
  rw [BitVec.getLsbD_ushiftRight, Nat.add_zero]

/-- Bit `i` of a status word after trap entry: the enable bit `ie` is cleared, its old value
    is at `pie`, the `w`-bit value `pv` is at `pp`, and `mask` covers exactly these bits. -/
theorem getLsbD_trapStatus (st pv mask : U64) (ie pie pp w : Nat)
    (hmask : ∀ i : Fin 64, mask.getLsbD i =
      (decide ((i : Nat) = ie) || decide ((i : Nat) = pie) ||
        decide (pp ≤ (i : Nat) ∧ (i : Nat) < pp + w)))
    (hie : ie < pie) (hpie : pie < pp) (hw : pp + w ≤ 64) (hpv : pv.toNat < 2 ^ w) (i : Nat) :
    ((st &&& ~~~mask) ||| (((st >>> ie) &&& 1) <<< pie) ||| (pv <<< pp)).getLsbD i =
      if i = ie then false else if i = pie then st.getLsbD ie
      else if pp ≤ i ∧ i < pp + w then pv.getLsbD (i - pp) else st.getLsbD i := by
  by_cases hi : i < 64
  · have hm := hmask ⟨i, hi⟩
    simp only at hm
    simp only [BitVec.getLsbD_or, BitVec.getLsbD_and, BitVec.getLsbD_not,
      BitVec.getLsbD_shiftLeft, BitVec.getLsbD_ushiftRight, BitVec.getLsbD_one, hm, hi,
      decide_True, Bool.true_and]
    have hpv' : ∀ j, w ≤ j → pv.getLsbD j = false := fun j hj =>
      Nat.testBit_lt_two_pow (lt_of_lt_of_le hpv (Nat.pow_le_pow_right (by omega) hj))
    split_ifs <;> rcases Nat.lt_or_ge i pie with h1 | h1 <;>
      rcases Nat.lt_or_ge i pp with h2 | h2 <;>
      simp (disch := omega) [decide_eq_true, decide_eq_false, hpv', *]
  · have hge : ∀ x : U64, x.getLsbD i = false := fun x => BitVec.getLsbD_ge x i (by omega)
    rw [hge]
    split_ifs <;> first | omega | exact (hge _).symm

/-- The `sstatus` mask `0x122` covers SIE, SPIE and SPP. -/
theorem getLsbD_sstatusMask : ∀ i : Fin 64, (0x122 : U64).getLsbD i =
    (decide ((i : Nat) = 1) || decide ((i : Nat) = 5) ||
      decide (8 ≤ (i : Nat) ∧ (i : Nat) < 8 + 1)) := by
  decide

/-- The `mstatus` mask `0x1888` covers MIE, MPIE and MPP. -/
theorem getLsbD_mstatusMask : ∀ i : Fin 64, (0x1888 : U64).getLsbD i =
    (decide ((i : Nat) = 3) || decide ((i : Nat) = 7) ||
      decide (11 ≤ (i : Nat) ∧ (i : Nat) < 11 + 2)) := by
  decide

/-- Privilege encodings fit in the two bits of MPP. -/
theorem getPrivilegeEncoding_lt (p : Priv) : (getPrivilegeEncoding p).toNat < 2 ^ 2 := by
  cases p <;> decide

/-- A trap that is not delegated panics exactly where its entry `pc` through `mtvec`
    overflows. -/
theorem handleTrap_eq_none_of_not_delegated {s : RiscvInt P} {trp : Trap} (h : ¬Delegated s trp)
    (trappedPc : U64) :
    s.handleTrap trp trappedPc = none ↔ 2 ^ 64 ≤ trapTarget s trp csrMtvecAddress := by
  unfold RiscvInt.handleTrap
  simp only [handleTrap_reason]
  simp only [handleTrap_intr_iff, ushiftRight_and_one_ne_zero_iff, BitVec.lt_def,
    and_one_ne_zero_iff]
  rw [if_neg fun hc => h ⟨hc.1, hc.2.1, by simpa only [if_pos hc.1] using hc.2.2⟩,
    Option.map_eq_none', checkedAdd_eq_none_iff]
  rfl

/-- A delegated trap enters supervisor mode. -/
theorem handleTrap_delegated {s s' : RiscvInt P} {trp : Trap} (h : Delegated s trp)
    {trappedPc : U64} (hs : s.handleTrap trp trappedPc = some s') :
    TrapEntry s s' trp trappedPc .supervisor csrStvecAddress
      csrScauseAddress csrSepcAddress csrStvalAddress csrSstatusAddress 1 5 8 1 := by
  obtain ⟨hlow, hcode, hdeleg⟩ := h
  unfold RiscvInt.handleTrap at hs
  simp only [handleTrap_reason] at hs
  simp only [handleTrap_intr_iff, ushiftRight_and_one_ne_zero_iff, if_pos hlow, BitVec.lt_def,
    and_one_ne_zero_iff] at hs
  rw [if_pos ⟨hlow, hcode, hdeleg⟩] at hs
  obtain ⟨pc, hpc, rfl⟩ := Option.map_eq_some'.mp hs
  obtain ⟨-, rfl⟩ := checkedAdd_eq_some_iff.mp hpc
  have hp1 : (getPrivilegeEncoding s.prvmode &&& 1).toNat < 2 ^ 1 := by
    rw [BitVec.toNat_and]; exact lt_of_le_of_lt Nat.and_le_right (by decide)
  have hst := getLsbD_trapStatus (s.csr csrSstatusAddress) (getPrivilegeEncoding s.prvmode &&& 1) _
    1 5 8 1 getLsbD_sstatusMask (by decide) (by decide) (by decide) hp1
  constructor
  case pc_eq => rfl
  case epc_eq =>
    simp [RiscvInt.changePriv, Function.update_apply, csrSepcAddress, csrStvalAddress,
      csrSstatusAddress]
  case tval_eq =>
    simp [RiscvInt.changePriv, Function.update_apply, csrStvalAddress, csrSstatusAddress]
  case ie_cleared => simp [RiscvInt.changePriv, hst]
  case pie_saved => simp [RiscvInt.changePriv, hst]
  case pp_saved =>
    intro j hj
    obtain rfl : j = 0 := by omega
    simp [RiscvInt.changePriv, hst]
  case status_frame =>
    intro i h1 h5 h8
    simp only [RiscvInt.changePriv, Function.update_same]
    rw [hst, if_neg h1, if_neg h5, if_neg h8]
  case prvmode_eq => rfl
  case csr_frame =>
    intro j h1 h2 h3 h4
    simp [RiscvInt.changePriv, Function.update_apply, h1, h2, h3, h4]
  case rest => rfl

/-- A trap that is not delegated enters machine mode. -/
theorem handleTrap_not_delegated {s s' : RiscvInt P} {trp : Trap} (h : ¬Delegated s trp)
    {trappedPc : U64} (hs : s.handleTrap trp trappedPc = some s') :
    TrapEntry s s' trp trappedPc .machine csrMtvecAddress
      csrMcauseAddress csrMepcAddress csrMtvalAddress csrMstatusAddress 3 7 11 2 := by
  unfold RiscvInt.handleTrap at hs
  simp only [handleTrap_reason] at hs
  simp only [handleTrap_intr_iff, ushiftRight_and_one_ne_zero_iff, BitVec.lt_def,
    and_one_ne_zero_iff] at hs
  rw [if_neg fun hc => h ⟨hc.1, hc.2.1, by simpa only [if_pos hc.1] using hc.2.2⟩] at hs
  obtain ⟨pc, hpc, rfl⟩ := Option.map_eq_some'.mp hs
  obtain ⟨-, rfl⟩ := checkedAdd_eq_some_iff.mp hpc
  have hst := getLsbD_trapStatus (s.csr csrMstatusAddress) (getPrivilegeEncoding s.prvmode) _
    3 7 11 2 getLsbD_mstatusMask (by decide) (by decide) (by decide)
    (getPrivilegeEncoding_lt s.prvmode)
  constructor
  case pc_eq => rfl
  case epc_eq =>
    simp [RiscvInt.changePriv, Function.update_apply, csrMepcAddress, csrMtvalAddress,
      csrMstatusAddress]
  case tval_eq =>
    simp [RiscvInt.changePriv, Function.update_apply, csrMtvalAddress, csrMstatusAddress]
  case ie_cleared => simp [RiscvInt.changePriv, hst]
  case pie_saved => simp [RiscvInt.changePriv, hst]
  case pp_saved =>
    intro j hj
    simp only [RiscvInt.changePriv, Function.update_same]
    rw [hst, if_neg (by omega), if_neg (by omega), if_pos (by omega), Nat.add_sub_cancel_left]
  case status_frame =>
    intro i h3 h7 h11
    simp only [RiscvInt.changePriv, Function.update_same]
    rw [hst, if_neg h3, if_neg h7, if_neg h11]
  case prvmode_eq => rfl
  case csr_frame =>
    intro j h1 h2 h3 h4
    simp [RiscvInt.changePriv, Function.update_apply, h1, h2, h3, h4]
  case rest => rfl

/-- A trap taken in machine mode is never delegated. -/
theorem not_delegated_of_machine {s : RiscvInt P} (trp : Trap) (h : s.prvmode = .machine) :
    ¬Delegated s trp := fun hd => by
  have := hd.1
  rw [h] at this
  exact absurd this (by decide)

/-- `handle_trap` writes only `pc`, the CSR file and the privilege. -/
theorem handleTrap_frame {s s' : RiscvInt P} {trp : Trap} {trappedPc : U64}
    (hs : s.handleTrap trp trappedPc = some s') :
    ∃ pc csr prvmode, s' = { s with pc := pc, csr := csr, prvmode := prvmode } := by
  by_cases h : Delegated s trp
  · exact ⟨_, _, _, (handleTrap_delegated h hs).rest⟩
  · exact ⟨_, _, _, (handleTrap_not_delegated h hs).rest⟩

/-! ## §4 `handle_trap` is RISC-V trap entry -/

/-- The cause `handle_trap` writes is the trap's code: in `scause` when the trap is delegated,
    in `mcause` otherwise. -/
theorem handleTrap_cause {s s' : RiscvInt P} {trp : Trap} {tp : U64}
    (hs : s.handleTrap trp tp = some s') :
    (Delegated s trp → s'.csr csrScauseAddress = trapCode trp s.xlen) ∧
    (¬Delegated s trp → s'.csr csrMcauseAddress = trapCode trp s.xlen) := by
  unfold RiscvInt.handleTrap at hs
  simp only [handleTrap_reason] at hs
  simp only [handleTrap_intr_iff, ushiftRight_and_one_ne_zero_iff, BitVec.lt_def,
    and_one_ne_zero_iff] at hs
  constructor
  · rintro ⟨hlow, hcode, hdeleg⟩
    rw [if_pos ⟨hlow, hcode, by rwa [if_pos hlow]⟩] at hs
    obtain ⟨pc, -, rfl⟩ := Option.map_eq_some'.mp hs
    simp [RiscvInt.changePriv, Function.update_apply, csrScauseAddress, csrSepcAddress,
      csrStvalAddress, csrSstatusAddress]
  · intro h
    rw [if_neg fun hc => h ⟨hc.1, hc.2.1, by simpa only [if_pos hc.1] using hc.2.2⟩] at hs
    obtain ⟨pc, -, rfl⟩ := Option.map_eq_some'.mp hs
    simp [RiscvInt.changePriv, Function.update_apply, csrMcauseAddress, csrMepcAddress,
      csrMtvalAddress, csrMstatusAddress]

/-- The code is the encoded cause exactly for exceptions; an interrupt's code lacks bit
    `XLEN - 1`. -/
theorem trapCode_eq_getTrapCause_iff (trp : Trap) (x : Xlen) :
    trapCode trp x = getTrapCause trp x ↔ trp.ttype.isInterrupt = false := by
  have hn := xlenBits_sub_one_lt x
  constructor
  · intro h
    by_contra hi
    have hbit : (trapCode trp x).getLsbD (xlenBits x - 1) = false := by simp [trapCode, hn]
    rw [h, getTrapCause, if_pos (by simpa using hi), BitVec.getLsbD_or, one_shiftLeft_xlen2bits,
      BitVec.getLsbD_twoPow] at hbit
    simp [hn] at hbit
  · intro hi
    rw [trapCode, getTrapCause, if_neg (by simp [hi])]
    apply and_not_twoPow_of_getLsbD
    have hcode : trp.ttype.code.toNat < 16 := by cases trp.ttype <;> decide
    have hx : 16 ≤ 2 ^ (xlenBits x - 1) := by cases x <;> decide
    exact Nat.testBit_lt_two_pow (lt_of_lt_of_le hcode hx)

/-- A machine timer interrupt taken from the reset state at XLEN 64 leaves `mcause = 7`, where
    the encoded cause is `0x8000000000000007`: the handler reads the code of a store access
    fault. -/
theorem mcause_loses_interrupt_bit (mem : P.Mem) (ume : P.Ume) (tp : U64) :
    ∃ s', (RiscvInt.initSystemmode .x64 mem ume).handleTrap ⟨.machineTimerInterrupt, 0⟩ tp =
        some s' ∧ s'.csr csrMcauseAddress = 7 ∧
      getTrapCause ⟨.machineTimerInterrupt, 0⟩ .x64 = 0x8000000000000007 := by
  have hnd := not_delegated_of_machine (s := RiscvInt.initSystemmode .x64 mem ume)
    ⟨.machineTimerInterrupt, 0⟩ rfl
  obtain ⟨s', hs⟩ := Option.ne_none_iff_exists'.mp fun hn =>
    absurd ((handleTrap_eq_none_of_not_delegated hnd tp).mp hn)
      (by simp [trapTarget, RiscvInt.initSystemmode])
  refine ⟨s', hs, ?_, by decide⟩
  rw [(handleTrap_cause hs).2 hnd]
  exact (by decide : trapCode ⟨.machineTimerInterrupt, 0⟩ .x64 = 7)

/-! ## §6 `mstatus` well-formedness -/

/-- Spec §4.5: a written `mstatus` has bit 6 clear and, at XLEN 64, bits 36 and 37 clear and
    the `sxl` (bits 32-33) and `uxl` (bits 34-35) fields equal to the `mxl` encoding of XLEN 64. -/
def MstatusWF (x : Xlen) (m : U64) : Prop :=
  m.getLsbD 6 = false ∧
    (x = .x64 → m.getLsbD 36 = false ∧ m.getLsbD 37 = false ∧
      (m >>> 32) &&& 3 = xlen2misa .x64 &&& 3 ∧ (m >>> 34) &&& 3 = xlen2misa .x64 &&& 3)

instance (x : Xlen) (m : U64) : Decidable (MstatusWF x m) := instDecidableAnd

/-- A two-bit field test `(m >> n) & 3 == v & 3` reads bits `n` and `n + 1`. -/
theorem ushiftRight_and_three_eq_iff (m v : U64) (n : Nat) :
    (m >>> n) &&& 3 = v &&& 3 ↔
      m.getLsbD n = v.getLsbD 0 ∧ m.getLsbD (n + 1) = v.getLsbD 1 := by
  have h3 : ∀ j : Fin 64, (3 : U64).getLsbD j = decide ((j : Nat) < 2) := by decide
  constructor
  · intro h
    have h0 := congrArg (BitVec.getLsbD · 0) h
    have h1 := congrArg (BitVec.getLsbD · 1) h
    simp only [BitVec.getLsbD_and, BitVec.getLsbD_ushiftRight, h3 0, h3 1] at h0 h1
    simpa using And.intro h0 h1
  · rintro ⟨h0, h1⟩
    ext j
    simp only [BitVec.getLsbD_and, BitVec.getLsbD_ushiftRight, h3]
    rcases j with ⟨_ | _ | j, hj⟩
    · simp [h0]
    · simp [h1]
    · simp [show ¬j + 1 + 1 < 2 by omega]

/-- `MstatusWF` as seven bits: bit 6 clear and, at XLEN 64, bits 32-37 equal to `0b001010`. -/
theorem mstatusWF_iff_bits (x : Xlen) (m : U64) :
    MstatusWF x m ↔ m.getLsbD 6 = false ∧
      (x = .x64 → m.getLsbD 36 = false ∧ m.getLsbD 37 = false ∧
        (m.getLsbD 32 = false ∧ m.getLsbD 33 = true) ∧
        (m.getLsbD 34 = false ∧ m.getLsbD 35 = true)) := by
  simp only [MstatusWF, ushiftRight_and_three_eq_iff,
    show (xlen2misa .x64).getLsbD 0 = false from rfl,
    show (xlen2misa .x64).getLsbD 1 = true from rfl]

/-- `MstatusWF` depends on bits 6 and 32-37 only. -/
theorem MstatusWF.of_getLsbD_eq {x : Xlen} {m m' : U64}
    (h : ∀ i, i = 6 ∨ 32 ≤ i ∧ i < 38 → m'.getLsbD i = m.getLsbD i) (hm : MstatusWF x m) :
    MstatusWF x m' := by
  simpa (disch := omega) only [mstatusWF_iff_bits, h] using hm

/-- Bit `i` of `mstatus_fixup(m)`: bit 6 is cleared and, at XLEN 64, bits 32-37 are set to
    `0b001010`; every other bit is `m`'s. -/
theorem getLsbD_mstatusFixup (s : RiscvInt P) (m : U64) (i : Nat) :
    (s.mstatusFixup m).getLsbD i =
      if i = 6 ∨ (s.xlen = .x64 ∧ 32 ≤ i ∧ i < 38) then
        decide (s.xlen = .x64 ∧ (i = 33 ∨ i = 35))
      else m.getLsbD i := by
  by_cases hi : i < 64
  · obtain ⟨i, rfl⟩ : ∃ j : Fin 64, (j : Nat) = i := ⟨⟨i, hi⟩, rfl⟩
    unfold RiscvInt.mstatusFixup
    cases s.xlen <;>
      simp only [BitVec.getLsbD_and, BitVec.getLsbD_or, BitVec.getLsbD_not, if_true, if_false,
        reduceCtorEq] <;>
      generalize m.getLsbD i = b <;> revert i b <;> decide
  · rw [if_neg (by rintro (h | ⟨-, -, h⟩) <;> omega), BitVec.getLsbD_ge _ _ (by omega),
      BitVec.getLsbD_ge _ _ (by omega)]

/-- **`mstatus` well-formedness.** For both widths and every status word `m`: `mstatus_fixup(m)`
    is well formed, leaves a well-formed word as it is, and changes no bit but 6 and 32-37;
    and trap entry, delegated or not, keeps a well-formed `mstatus` well formed. -/
theorem mstatusFixup_wf (s : RiscvInt P) (m : U64) :
    MstatusWF s.xlen (s.mstatusFixup m) ∧
    (MstatusWF s.xlen m → s.mstatusFixup m = m) ∧
    (∀ i, i ≠ 6 → ¬(32 ≤ i ∧ i < 38) → (s.mstatusFixup m).getLsbD i = m.getLsbD i) ∧
    (∀ trp tp s', s.handleTrap trp tp = some s' → MstatusWF s.xlen (s.csr csrMstatusAddress) →
      MstatusWF s.xlen (s'.csr csrMstatusAddress)) := by
  refine ⟨?wf, ?fixed, ?frame, ?trap⟩
  case wf =>
    exact (mstatusWF_iff_bits _ _).2
      ⟨by simp [getLsbD_mstatusFixup], fun hx => by simp [getLsbD_mstatusFixup, hx]⟩
  case fixed =>
    intro hwf
    obtain ⟨h6, h64⟩ := (mstatusWF_iff_bits _ _).1 hwf
    ext i
    rw [getLsbD_mstatusFixup]
    generalize (i : Nat) = j
    split_ifs with hj
    · rcases hj with rfl | ⟨hx, h1, h2⟩
      · simp [h6]
      · obtain ⟨h36, h37, ⟨h32, h33⟩, h34, h35⟩ := h64 hx
        obtain rfl | rfl | rfl | rfl | rfl | rfl :
            j = 32 ∨ j = 33 ∨ j = 34 ∨ j = 35 ∨ j = 36 ∨ j = 37 := by omega
        all_goals simp [hx, *]
    · rfl
  case frame =>
    intro i h6 h32
    rw [getLsbD_mstatusFixup, if_neg fun h => h.elim h6 fun h' => h32 h'.2]
  case trap =>
    intro trp tp s' hs hwf
    by_cases h : Delegated s trp
    · rwa [(handleTrap_delegated h hs).csr_frame _ (by decide) (by decide) (by decide) (by decide)]
    · exact hwf.of_getLsbD_eq fun i hi =>
        (handleTrap_not_delegated h hs).status_frame i (by omega) (by omega) (by omega)

example : ¬MstatusWF .x64 0 ∧ MstatusWF .x64 0xA00000000 ∧ MstatusWF .x32 0 := by decide

end TurboRiscv
