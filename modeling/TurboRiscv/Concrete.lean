import TurboRiscv.Executor

/-!
# A Concrete Platform

An instance of the collaborators of §1 of `Hart`, small enough to run: memory is a map from
addresses to halfwords (`none` where nothing is mapped), the page walk is a parameter, and the
decoder knows a handful of instructions (`addi x1, x0, 1`, a jump, `lr.w`, `ecall`, `mret`,
`ebreak`, `csrrwi` with `x0` as destination; every other word is a no-op). The frame builder
saves the interrupted `pc` and enters the handler at `0x8000`.

The concrete runs of the executor, which instantiate the general theorems and show where the
code departs from its description, use this platform.
-/

namespace TurboRiscv

/-- Memory of the concrete platform. -/
structure ToyMem where
  /-- The halfword at each address; `none` where nothing is mapped. -/
  half : U64 → Option (BitVec 16)
  /-- The interrupted `pc` saved in the last signal frame. -/
  savedPc : U64

/-- The concrete platform: the args of an instruction are its word. -/
def toy : Platform := ⟨ToyMem, Unit, BitVec 32, BitVec 16⟩

/-- `addi x1, x0, 1`. -/
def liOne : Handler toy := fun _ a =>
  { Effect.unchanged a with regs := Function.update a.regs 1 1 }

/-- `jal x0, 8`: a taken jump, through `want_pc`. -/
def jumpBy8 : Handler toy := fun _ a => { Effect.unchanged a with wantPc := some (a.pc + 8) }

/-- `lr.w x0, (x0)`: takes a reservation. -/
def loadReserved : Handler toy := fun _ a =>
  { Effect.unchanged a with isReservation := true }

/-- The privilege a two-bit `MPP` value encodes, `getPrivilegeEncoding` read backwards. -/
def mppPriv (v : U64) : Priv :=
  if v = 0 then .user else if v = 1 then .supervisor else .machine

/-- `mret`: `change_priv` to the privilege `mstatus.MPP` holds, and jump to `mepc`. -/
def mret : Handler toy := fun _ a =>
  { Effect.unchanged a with
    prvmode := mppPriv ((a.csr csrMstatusAddress >>> 11) &&& 3)
    wantPc := some (a.csr csrMepcAddress) }

/-- `ebreak`: raises a breakpoint through `set_trap`, with `tval` the instruction's `pc`. -/
def ebreak : Handler toy := fun _ a => { Effect.unchanged a with trap := some ⟨.breakpoint, a.pc⟩ }

/-- `csrrwi x0, csr, uimm`: writes the five-bit immediate to the CSR the word names, and leaves
    the block, as CSR writes do. -/
def csrrwi : Handler toy := fun (w : BitVec 32) a =>
  { Effect.unchanged a with
    csr := Function.update a.csr ⟨(w >>> 20).toNat % 4096, Nat.mod_lt _ (by decide)⟩
      (((w >>> 15) &&& 31).setWidth 64)
    stopExec := true }

/-- Every other instruction does nothing. -/
def nop : Handler toy := fun _ a => Effect.unchanged a

/-- The 32-bit decoder table. -/
def toyDecoder (w : BitVec 32) : Option (Decoded toy) :=
  if w = 0x00000073 then some ⟨⟨4, w, ecall⟩, true⟩
  else if w = 0x0080006f then some ⟨⟨4, w, jumpBy8⟩, true⟩
  else if w = 0x1000202f then some ⟨⟨4, w, loadReserved⟩, false⟩
  else if w = 0x30200073 then some ⟨⟨4, w, mret⟩, true⟩
  else if w = 0x00100073 then some ⟨⟨4, w, ebreak⟩, true⟩
  else if w &&& 0x7FFF = 0x5073 then some ⟨⟨4, w, csrrwi⟩, true⟩
  else if w = 0x00100093 then some ⟨⟨4, w, liOne⟩, false⟩
  else some ⟨⟨4, w, nop⟩, false⟩

/-- The concrete collaborators, given the page walk. -/
def toyEnv (walk : Arch toy → U64 → Option U64) : Env toy where
  read16 m a := match m.half a with
    | some w => .ok w
    | none => .error ⟨.instructionAccessFault, a⟩
  read32 m a := match m.half a, m.half (a + 2) with
    | some lo, some hi => .ok ((hi.setWidth 32 <<< 16) ||| lo.setWidth 32)
    | _, _ => .error ⟨.instructionAccessFault, a⟩
  walk := walk
  decoder16 lo := some ⟨⟨2, lo.setWidth 32, nop⟩, false⟩
  decoder := toyDecoder
  riscvTranslateSyscall := some
  dispatch ume mem _ := some (ume, mem, ⟨0, none⟩)
  setupRtFrame a _ := ⟨a.regs, { a.memsource with savedPc := a.pc }, 0x8000⟩

/-- The identity page walk: fetches are not translated. -/
def identityWalk : Arch toy → U64 → Option U64 := fun _ vpn => some vpn

/-- A memory holding the little-endian words `ws` from `base`, and `0x13` (`nop`) elsewhere. -/
def toyMem (base : U64) (ws : List (BitVec 32)) : ToyMem where
  half a :=
    let i := (a - base).toNat / 4
    if base ≤ a ∧ i < ws.length then
      let w := ws.getD i 0
      some (if (a - base).toNat % 4 < 2 then w.setWidth 16 else (w >>> 16).setWidth 16)
    else some 0x13
  savedPc := 0

/-- With the identity walk a fetch is not translated. -/
theorem identityWalk_virt2phys (a : Arch toy) (v : U64) :
    (toyEnv identityWalk).virt2phys a v = some v := by
  rw [Env.virt2phys, show (toyEnv identityWalk).walk a (v >>> riscvPageShift) =
    some (v >>> riscvPageShift) from rfl, Option.map_some', pageBase_or_pageOffset]

/-- Every halfword of a `toyMem` can be fetched. -/
theorem toyMem_fetchable (walk : Arch toy → U64 → Option U64) (base : U64)
    (ws : List (BitVec 32)) : Fetchable (toyEnv walk) (toyMem base ws) := by
  intro a
  simp only [toyEnv, toyMem]
  split_ifs <;> exact ⟨_, rfl⟩

/-- Both decoder tables of the concrete platform accept every encoding. -/
theorem toyEnv_decodesAll (walk : Arch toy → U64 → Option U64) : (toyEnv walk).DecodesAll := by
  refine ⟨fun _ => rfl, fun w => ?_⟩
  simp only [toyEnv, toyDecoder]
  split_ifs <;> rfl

/-- `decoder16` has no environment call: its only handler is `nop`. -/
theorem toyEnv_decoder16_ne_ecall (walk : Arch toy → U64 → Option U64) :
    ∀ lo d, (toyEnv walk).decoder16 lo = some d → d.instr.func ≠ ecall := by
  intro lo d hd h
  cases hd
  have := congrArg (fun f : Handler toy =>
    (f (0 : BitVec 32) (RiscvInt.initUsermode (P := toy) .x64 (toyMem 0 []) ()).arch).trap) h
  simp [nop, ecall, Effect.unchanged] at this

end TurboRiscv
