import TurboRiscv.TrapDelivery

/-!
# Fetch and Decode Faults

The error paths of the two loops of `riscv/interpreter/main.rs`: what `exec_one_by_one` fetches,
what `exec_cached_int` does when `build_exec` fails a read, and what both do with a word the
decoders reject.

## Main results

- `oneByOne_fetch_untranslated`: `exec_one_by_one` fetches with `read32(self.pc, true, true)`:
  the virtual `pc` read as a physical address, four bytes whatever the instruction's length. Under
  a page table that maps `pc` elsewhere it runs the word at `pc` itself, and a compressed
  instruction in the last two bytes of a page before an unmapped one faults; under every page
  table an iteration is the same (`execOneByOneStep_walk`);
- `buildFault_panics`: `exec_cached_int` ignores the `Err` of `build_exec`, and
  `check_block(..).unwrap()` panics; the index is left as it was
  (`execCachedIntStep_of_buildExec_error`);
- `illegalWord_panics`: a rejected word makes `illegal_instr` panic, when `exec_one_by_one`
  reaches it and, on the cached path, when `build_exec` meets it, before the instructions of the
  block ahead of it run (`execCachedIntStep_of_rejected`).
-/

namespace TurboRiscv

variable {P : Platform} {E : Env P}

/-! ## §1 The uncached fetch -/

/-- `exec_one_by_one` never consults the page walk: it fetches with `read32(self.pc, true, true)`,
    so an iteration is the same under every page table. -/
theorem execOneByOneStep_walk (s : RiscvInt P) (fc : Bool) (walk : Arch P → U64 → Option U64) :
    s.execOneByOneStep { E with walk := walk } fc = s.execOneByOneStep E fc := rfl

/-- The page walk of a platform where virtual page `n` is physical page `n + 1`. -/
def shiftWalk : Arch toy → U64 → Option U64 := fun _ vpn => some (vpn + 1)

/-- A system-mode hart with the cache off, entered at the virtual `0x1000`, over a memory that
    holds `addi x1, x0, 1` at the physical `0x2000`. -/
def shiftedBoot : Config toy := boot false .x64 (toyMem 0x2000 [0x00100093]) () 0 0x1000 false

/-- Guest memory with `c.nop` in the last two bytes of its page and nothing after it. -/
def pageEndMem : ToyMem := ⟨fun a => if a = 0xFFE then some 0x0001 else none, 0⟩

/-- Under `shiftWalk` the `pc` `0x1000` translates to `0x2000`, which holds `addi x1, x0, 1`,
    yet `exec_one_by_one` runs the word at the physical `0x1000` and `x1` stays `0`. And at the
    identity walk, the compressed `c.nop` at `0xFFE` reads, yet the fetch there faults with
    `tval = 0xFFE`: `read32` wants the two bytes after it, on the unmapped page. -/
theorem oneByOne_fetch_untranslated :
    (toyEnv shiftWalk).virt2phys shiftedBoot.hart.arch 0x1000 = some 0x2000 ∧
    (toyEnv shiftWalk).read32 shiftedBoot.hart.memsource 0x2000 = .ok 0x00100093 ∧
    (exec (toyEnv shiftWalk) [none, none] shiftedBoot).map
      (fun r => (r.2.map fun e => e.pre.pc, r.1.hart.regs 1)) = some ([0x1000], 0) ∧
    (toyEnv identityWalk).read16 pageEndMem 0xFFE = .ok 0x0001 ∧
    (exec (toyEnv identityWalk) [none, none] (boot false .x64 pageEndMem () 0 0xFFE false)).map
      (fun r => (r.2.length, pendingTrap r.1)) =
      some (0, some ⟨.instructionAccessFault, 0xFFE⟩) :=
  ⟨by decide, rfl, by decide, rfl, by decide⟩

/-! ## §2 A failed build -/

namespace RiscvInt

/-- A failed read of the first halfword ends `build_exec`'s loop with its trap. -/
theorem buildLoop_of_read16_error {s : RiscvInt P} {a : U64} {mc : Int} {t : Trap}
    (incBy : U64) (h : E.read16 s.memsource a = .error t) (hmc : 2 ≤ mc) :
    buildLoop E s a mc incBy = some (s, .error t) := by
  rw [buildLoop, if_pos hmc, buildPass, h]

/-- A failed read of the first halfword makes `build_exec` return its trap. -/
theorem buildExec_of_read16_error {s : RiscvInt P} {p : U64} {t : Trap}
    (hc : s.cacheEnabled = true) (h : E.read16 s.memsource p = .error t) (hp : pageOff p ≤ 4094) :
    s.buildExec E p = some ({ s with
      stopTranslating := false, currentBlock := { s.currentBlock with begin := p, instrs := [] } },
      .error t) := by
  unfold buildExec
  dsimp only
  rw [if_pos hc, toNat_riscvPageSize_sub, buildLoop_of_read16_error (s := { s with
    stopTranslating := false, currentBlock := { s.currentBlock with begin := p, instrs := [] } })
    0 h (by omega)]

/-- An `Err` of `build_exec` leaves the index as it was, and `exec_cached_int`, which ignores it,
    then panics in `check_block(..).unwrap()`: `check_block` still finds no block. -/
theorem execCachedIntStep_of_buildExec_error {s s' : RiscvInt P} {physpc : U64} {t : Trap}
    (hoff : pageOff s.pc ≤ 4092) (hv : E.virt2phys s.arch s.pc = some physpc)
    (hmiss : s.checkBlock physpc = some none) (hb : s.buildExec E physpc = some (s', .error t)) :
    s'.instr = s.instr ∧ s.execCachedIntStep E = none := by
  have hi : s'.instr = s.instr := by
    obtain ⟨-, -, ⟨-, hi⟩ | ⟨h, -⟩⟩ := buildExec_spec E hb
    · exact hi
    · cases h
  refine ⟨hi, execCachedIntStep_eq_none_of_miss hoff hv hmiss fun s1 r h => ?_⟩
  rw [hb] at h
  cases h
  rw [checkBlock_congr hi, hmiss]

end RiscvInt

/-- A system-mode hart with the cache on, entered at the unmapped `0x1000`. -/
def faultCachedBoot : Config toy := boot false .x64 unmapped () 0 0x1000 true

/-- From `faultCachedBoot` the translation of `0x1000` succeeds, `build_exec(0x1000)` returns the
    fetch fault of its first read and leaves the index as it was, and `exec_cached_int` panics
    instead of returning that trap. -/
theorem buildFault_panics :
    Reachable (toyEnv identityWalk) ⟨faultCachedBoot.hart, .cached⟩ ∧
    (toyEnv identityWalk).virt2phys faultCachedBoot.hart.arch 0x1000 = some 0x1000 ∧
    (∃ s', faultCachedBoot.hart.buildExec (toyEnv identityWalk) 0x1000 =
        some (s', .error ⟨.instructionAccessFault, 0x1000⟩) ∧
      s'.instr = faultCachedBoot.hart.instr) ∧
    step (toyEnv identityWalk) none ⟨faultCachedBoot.hart, .cached⟩ = none := by
  obtain ⟨s', hb⟩ : ∃ s', faultCachedBoot.hart.buildExec (toyEnv identityWalk) 0x1000 =
      some (s', .error ⟨.instructionAccessFault, 0x1000⟩) :=
    ⟨_, RiscvInt.buildExec_of_read16_error rfl rfl (by decide)⟩
  have h := RiscvInt.execCachedIntStep_of_buildExec_error (E := toyEnv identityWalk)
    (s := faultCachedBoot.hart) (by decide) rfl rfl hb
  exact ⟨.step none (.boot false .x64 unmapped () 0 0x1000 true) (by rfl), rfl, ⟨s', hb, h.1⟩,
    by simp [step, h.2]⟩

/-! ## §3 Rejected words -/

/-- The instruction at `a`, with `k` bytes left in its page, is one the decoders reject:
    `decoder16` a compressed halfword, or `decoder` an uncompressed word with four bytes left. -/
def RejectedAt (E : Env P) (m : P.Mem) (a : U64) (k : Nat) : Prop :=
  ∃ lo, E.read16 m a = .ok lo ∧
    if lo &&& 3 ≠ 3 then 2 ≤ k ∧ E.decoder16 lo = none
    else 4 ≤ k ∧ ∃ hi, E.read16 m (a + 2) = .ok hi ∧
      E.decoder ((hi.zeroExtend 32 <<< 16) ||| lo.zeroExtend 32) = none

/-- `l` are records `build_exec`'s loop appends from `a`, with `k` bytes left, and then goes on:
    successive decodes, none of which ends translation. -/
inductive DecodesPrefix (E : Env P) (m : P.Mem) : U64 → Nat → List (RiscvInstr P) → Prop
  | nil {a : U64} {k : Nat} : DecodesPrefix E m a k []
  | cons {a : U64} {k : Nat} {c : Bool} {d : Decoded P} {rest : List (RiscvInstr P)} :
      DecodesAt E m a k c d → d.stopsTranslating = false →
      DecodesPrefix E m (a + incOf c) (k - (incOf c).toNat) rest →
      DecodesPrefix E m a k ({ d.instr with incBy := incOf c } :: rest)

namespace RiscvInt

/-- A pass of the loop at a rejected word panics in `illegal_instr`. -/
theorem buildPass_of_rejectedAt {s : RiscvInt P} {a : U64} {mc : Int}
    (h : RejectedAt E s.memsource a mc.toNat) : buildPass E s a mc = none := by
  obtain ⟨lo, hlo, h⟩ := h
  unfold buildPass
  rw [hlo]
  dsimp only
  split_ifs at h ⊢ with h3 h4
  · rw [h.2]; rfl
  · omega
  · obtain ⟨-, hi, hhi, hd⟩ := h
    rw [hhi]
    dsimp only
    rw [hd]
    rfl

/-- `build_exec`'s loop panics once it reaches a rejected word. -/
theorem buildLoop_of_rejected {l : List (RiscvInstr P)} :
    ∀ {s : RiscvInt P} {a : U64} {mc : Int} {incBy : U64}, s.cacheEnabled = true →
      s.stopTranslating = false → DecodesPrefix E s.memsource a mc.toNat l →
      RejectedAt E s.memsource (a + BitVec.ofNat 64 (sumInc l)) (mc.toNat - sumInc l) →
      buildLoop E s a mc incBy = none := by
  induction l with
  | nil =>
    intro s a mc incBy _ _ _ hr
    have h2 : 2 ≤ mc.toNat := by obtain ⟨lo, -, h⟩ := hr; split_ifs at h <;> omega
    rw [buildLoop, if_pos (by omega), buildPass_of_rejectedAt (by simpa using hr)]
  | cons z rest ih =>
    intro s a mc incBy hc hst hp hr
    cases hp with
    | @cons _ _ c d _ hat hd hrest =>
      have hk := toNat_sub_incOf mc c
      have ha : a + BitVec.ofNat 64 (sumInc (({ d.instr with incBy := incOf c } : RiscvInstr P) ::
          rest)) = a + incOf c + BitVec.ofNat 64 (sumInc rest) := by
        rw [sumInc_cons, BitVec.ofNat_add, BitVec.ofNat_toNat, BitVec.setWidth_eq, BitVec.add_assoc]
      rw [ha, sumInc_cons, Nat.sub_add_eq] at hr
      obtain ⟨s', hm', hc', hst', h⟩ := buildLoop_of_decodesAt E incBy hc hat
      rw [h]
      cases hadd : checkedAdd a (incOf c) with
      | none => rfl
      | some a' =>
        obtain ⟨-, rfl⟩ := checkedAdd_eq_some_iff.mp hadd
        rw [Option.some_bind, if_neg (by rw [hst, hd]; decide)]
        exact ih (hc'.trans hc) (by rw [hst', hst, hd]; rfl) (by rw [hm', hk]; exact hrest)
          (by rw [hm', hk]; exact hr)

/-- `build_exec` panics when its loop reaches a rejected word. -/
theorem buildExec_of_rejected {s : RiscvInt P} {p : U64} {l : List (RiscvInstr P)}
    (hc : s.cacheEnabled = true) (hp : DecodesPrefix E s.memsource p (4096 - pageOff p) l)
    (hr : RejectedAt E s.memsource (p + BitVec.ofNat 64 (sumInc l)) (4096 - pageOff p - sumInc l)) :
    s.buildExec E p = none := by
  unfold buildExec
  dsimp only
  rw [if_pos hc, toNat_riscvPageSize_sub, buildLoop_of_rejected (s := { s with
    stopTranslating := false, currentBlock := { s.currentBlock with begin := p, instrs := [] } })
    hc rfl (by simpa using hp) (by simpa using hr)]

/-- On the cached path a rejected word panics when `build_exec` meets it, before any record of its
    block runs: at a miss of `check_block` whose build reaches a rejected word, `exec_cached_int`
    panics. -/
theorem execCachedIntStep_of_rejected {s : RiscvInt P} {physpc : U64} {l : List (RiscvInstr P)}
    (hc : s.cacheEnabled = true) (hoff : pageOff s.pc ≤ 4092)
    (hv : E.virt2phys s.arch s.pc = some physpc) (hmiss : s.checkBlock physpc = some none)
    (hp : DecodesPrefix E s.memsource physpc (4096 - pageOff physpc) l)
    (hr : RejectedAt E s.memsource (physpc + BitVec.ofNat 64 (sumInc l))
      (4096 - pageOff physpc - sumInc l)) :
    s.execCachedIntStep E = none :=
  execCachedIntStep_eq_none_of_miss hoff hv hmiss fun _ _ h => by
    rw [buildExec_of_rejected hc hp hr] at h
    cases h

end RiscvInt

/-- The concrete platform with a `decoder16` that rejects the all-zero halfword, the illegal
    instruction of the RISC-V encoding. -/
def strictEnv : Env toy :=
  { toyEnv identityWalk with
    decoder16 := fun lo => if lo = 0 then none else (toyEnv identityWalk).decoder16 lo }

/-- A system-mode hart entered at `addi x1, x0, 1` at `0x1000`, followed by the word `0`. -/
def illegalBoot (cacheEnabled : Bool) : Config toy :=
  boot false .x64 (toyMem 0x1000 [0x00100093, 0x00000000]) () 0 0x1000 cacheEnabled

/-- With the cache off, the `addi` at `0x1000` runs and the word `0` after it panics instead of
    raising `IllegalInstruction`; with the cache on, `build_exec` meets the word `0` while decoding
    the block and panics before the `addi` runs. -/
theorem illegalWord_panics :
    (exec strictEnv [none, none] (illegalBoot false)).map
      (fun r => (r.2.map fun e => e.pre.pc, r.1.hart.regs 1)) = some ([0x1000], 1) ∧
    (exec strictEnv [none, none, none] (illegalBoot false)).isNone ∧
    Reachable strictEnv ⟨(illegalBoot true).hart, .cached⟩ ∧
    step strictEnv none ⟨(illegalBoot true).hart, .cached⟩ = none := by
  have hat : DecodesAt strictEnv (illegalBoot true).hart.memsource 0x1000 4096 false
      ⟨⟨4, (0x00100093 : BitVec 32), liOne⟩, false⟩ := by
    refine ⟨0x0093, rfl, ?_⟩
    simp only [Bool.false_eq_true, if_false]
    exact ⟨by decide, by decide, 0x0010, rfl, rfl⟩
  have hr : RejectedAt strictEnv (illegalBoot true).hart.memsource (0x1000 + 4) (4096 - 4) := by
    refine ⟨0, rfl, ?_⟩
    rw [if_pos (by decide)]
    exact ⟨by decide, rfl⟩
  have h := RiscvInt.execCachedIntStep_of_rejected (E := strictEnv) (s := (illegalBoot true).hart)
    rfl (by decide) rfl rfl (.cons hat rfl .nil) hr
  exact ⟨by decide, by decide, .step none (.boot ..) (by rfl), by simp [step, h]⟩

end TurboRiscv
