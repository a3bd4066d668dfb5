import TurboRiscv.Runs

/-!
# Cached and Uncached Execution

`run` goes through `exec_cached_int` when `cache_enabled` is set: it translates `pc` once per
block, finds the block with `check_block` or decodes it with `build_exec`, and runs its records
with `exec_block_inner`, falling back to `exec_one_by_one` for an instruction too close to the
end of its page. With `cache_enabled` clear, `run` goes through `exec_one_by_one`, which fetches
and decodes every instruction as it runs it. This file compares the two.

## Key Result

`cache_transparent`: on a platform that satisfies `CacheSafe` for the text pages `text`, from
every boot state whose uncached run is safe (`SafeRun`), the cached run and the uncached run
invoke the same handlers with the same args at the same `pc` and `is_compressed`, and after every
instruction have the same registers, CSRs, privilege, `pc`, `want_pc`, pending trap and memory
(`SameTrace`): every sequence of invocations on text pages that one run reaches, the other
reaches. `cache_transparent_toyMem` is the concrete platform.

The conditions are what the block cache assumes, stated on the run itself. The builder decodes a
block up to its end before running it, so a store into a page that holds instructions, a fetch
that fails, a word that does not decode, or the overflow of `iaddr += inc_by` at the end of the
last page changes what the cached run does before the uncached run meets it:
`cache_decodes_ahead` is a memory where the uncached run executes an instruction and the cached
run panics. `SafeRun` asks of the uncached run that no step of it writes a text page, that no
fetch of it fails, and that its page decodes on from every `pc` it fetches on a text page. And
`exec_one_by_one` fetches with `read32(.., true)`, from the physical address `pc` itself, where
`exec_cached_int` fetches from the translation of `pc`: `CacheSafe.walk` takes the identity page
walk. `SafeRun.of_storeSafe` derives `SafeRun` from conditions on the whole platform
(`StoreSafe`), which a platform whose instructions do not store meets.

The proof is a simulation `Sim` between a cached configuration and an uncached one (the harts
agree up to `erase`, the uncached run from there is safe, the index holds blocks that decode from
the current memory, and the frames correspond, `SimFrame`). From related configurations both runs step alike, or each panics or
runs a handler off the text pages (`Lockstep`), or the cached run takes a step of its own
(`Silent`) that lowers `simRank`: entering a block, leaving an exhausted one, and the way back
to `run` after the page-end fallback.
-/

namespace TurboRiscv

variable {P : Platform}

/-! ## What only the block cache reads -/

namespace RiscvInt

/-- The hart without what only the block cache reads: the index, the block being built, the
    flags of the two loops, and `is_compressed`, which the builder overwrites. -/
def erase (s : RiscvInt P) : RiscvInt P :=
  { s with
    instr := fun _ => [], currentBlock := .default, isCompressed := false,
    stopTranslating := false, stopExec := false, cacheEnabled := false }

variable {s t : RiscvInt P}

theorem eq_of_erase (h : s.erase = t.erase) :
    s = { t with
      instr := s.instr, currentBlock := s.currentBlock, isCompressed := s.isCompressed,
      stopTranslating := s.stopTranslating, stopExec := s.stopExec,
      cacheEnabled := s.cacheEnabled } := by
  cases s; cases t
  simp only [erase, mk.injEq] at h ⊢
  tauto

theorem Quiet.of_erase (h : s.erase = t.erase) (ht : t.Quiet) : s.Quiet :=
  ⟨(congrArg RiscvInt.trap h :).trans ht.trap, (congrArg RiscvInt.wantPc h :).trans ht.wantPc,
    (congrArg RiscvInt.wfi h :).trans ht.wfi⟩

/-! A handler, the end of an instruction, `run`'s result store and its drain respect `erase`. -/

theorem erase_execHandler (h : s.erase = t.erase) (hc : s.isCompressed = t.isCompressed)
    (z : RiscvInstr P) : (s.execHandler z).erase = (t.execHandler z).erase := by
  rw [eq_of_erase h, hc]
  unfold execHandler arch
  dsimp only
  split <;> rfl

theorem erase_execHandler_stopExec (h : s.erase = t.erase) (hc : s.isCompressed = t.isCompressed)
    (hs : s.stopExec = t.stopExec) (z : RiscvInstr P) :
    (s.execHandler z).stopExec = (t.execHandler z).stopExec := by
  rw [eq_of_erase h, hc, hs]
  unfold execHandler arch
  dsimp only
  split <;> rfl

theorem erase_finishInstr (h : s.erase = t.erase) (i : U64) :
    (s.finishInstr i).map erase = (t.finishInstr i).map erase := by
  rw [eq_of_erase h]
  unfold finishInstr
  simp only [Option.map_map]
  rfl

/-- The two harts after one instruction decoded as `d`, of length `incOf c`: both panic, or both
    complete and agree. -/
theorem erase_afterInstr (h : s.erase = t.erase) (c : Bool) (d : Decoded P) :
    (({ s with isCompressed := c }.execHandler d.instr).finishInstr (incOf c)).map erase =
      (({ t with isCompressed := c }.execHandler d.instr).finishInstr (incOf c)).map erase :=
  erase_finishInstr (erase_execHandler (s := { s with isCompressed := c })
    (t := { t with isCompressed := c }) h rfl d.instr) _

theorem erase_storeResult (h : s.erase = t.erase) (fc fc' : Bool) (r : Except Trap Unit) :
    (s.storeResult fc r).erase = (t.storeResult fc' r).erase := by
  rw [eq_of_erase h]
  cases r <;> cases fc <;> cases fc' <;> rfl

theorem erase_commitWantPc (h : s.erase = t.erase) :
    (commitWantPc s).map erase = (commitWantPc t).map erase := by
  rw [eq_of_erase h]
  obtain ⟨_, _, _, wantPc, _, _, _, _, _, _, _, _, _, _, _, _, _, _, wfi, _⟩ := t
  unfold commitWantPc
  cases wantPc <;> cases wfi <;> rfl

/-! `handle_trap` and `handle_syscall` neither read nor write what only the block cache reads. -/

theorem handleTrap_with (t : RiscvInt P) (trp : Trap) (tp : U64) (a : U64 → List (RiscvBlock P))
    (b : RiscvBlock P) (c d e f : Bool) :
    handleTrap { t with
      instr := a, currentBlock := b, isCompressed := c, stopTranslating := d, stopExec := e,
      cacheEnabled := f } trp tp =
    (handleTrap t trp tp).map fun r => { r with
      instr := a, currentBlock := b, isCompressed := c, stopTranslating := d, stopExec := e,
      cacheEnabled := f } := by
  unfold handleTrap
  dsimp only
  split_ifs <;> simp only [Option.map_map] <;> rfl

theorem handleSyscall_with (E : Env P) (t : RiscvInt P) (a : U64 → List (RiscvBlock P))
    (b : RiscvBlock P) (c d e f : Bool) :
    handleSyscall E { t with
      instr := a, currentBlock := b, isCompressed := c, stopTranslating := d, stopExec := e,
      cacheEnabled := f } =
    (handleSyscall E t).map fun r => { r with
      instr := a, currentBlock := b, isCompressed := c, stopTranslating := d, stopExec := e,
      cacheEnabled := f } := by
  unfold handleSyscall
  dsimp only
  cases E.riscvTranslateSyscall ((t.regs 17).setWidth 16) with
  | none => rfl
  | some sys =>
    dsimp only
    cases E.dispatch t.userStruct t.memsource
      ⟨sys, [t.regs 10, t.regs 11, t.regs 12, t.regs 13, t.regs 14, t.regs 15, 0]⟩ with
    | none => rfl
    | some r =>
      obtain ⟨ume, mem, out⟩ := r
      cases out.ret2 <;> rfl

theorem erase_handleTrap (h : s.erase = t.erase) (trp : Trap) (tp : U64) :
    (s.handleTrap trp tp).map erase = (t.handleTrap trp tp).map erase := by
  rw [eq_of_erase h, handleTrap_with, Option.map_map]
  rfl

theorem erase_handleSyscall (E : Env P) (h : s.erase = t.erase) :
    (s.handleSyscall E).map erase = (t.handleSyscall E).map erase := by
  rw [eq_of_erase h, handleSyscall_with, Option.map_map]
  rfl

/-- A continuation that respects `erase` keeps two results that agree in agreement. -/
theorem map_erase_bind {o o' : Option (RiscvInt P)} (h : o.map erase = o'.map erase)
    {g : RiscvInt P → Option (RiscvInt P)}
    (hg : ∀ x y, x.erase = y.erase → (g x).map erase = (g y).map erase) :
    (o.bind g).map erase = (o'.bind g).map erase := by
  rcases o with _ | x <;> rcases o' with _ | y <;>
    simp only [Option.map_none', Option.map_some', reduceCtorEq, Option.some.injEq] at h
  · rfl
  · exact hg x y h

theorem map_erase_map {o o' : Option (RiscvInt P)} (h : o.map erase = o'.map erase)
    {f : RiscvInt P → RiscvInt P} (hf : ∀ x y, x.erase = y.erase → (f x).erase = (f y).erase) :
    (o.map f).map erase = (o'.map f).map erase := by
  rcases o with _ | x <;> rcases o' with _ | y <;>
    simp only [Option.map_none', Option.map_some', reduceCtorEq, Option.some.injEq] at h ⊢
  exact hf x y h

/-- With no signal pending, `run`'s drain respects `erase`. -/
theorem erase_drain (E : Env P) (h : s.erase = t.erase) :
    (s.drain E none).map erase = (t.drain E none).map erase := by
  have htrap : s.trap = t.trap := (congrArg RiscvInt.trap h :)
  have hu : s.usermode = t.usermode := (congrArg RiscvInt.usermode h :)
  have htp : s.trapPc = t.trapPc := (congrArg RiscvInt.trapPc h :)
  unfold drain
  rw [htrap, hu, htp]
  rcases t.trap with _ | trp
  · simp only [deliverSignal_none, Option.some_bind]
    exact erase_commitWantPc h
  · dsimp only
    split_ifs
    · simp only [deliverSignal_none, Option.some_bind]
      exact map_erase_bind (erase_handleSyscall E h) fun x y hxy =>
        erase_commitWantPc (by rw [eq_of_erase hxy]; rfl)
    · rfl
    · refine map_erase_map (erase_handleTrap h trp t.trapPc) fun x y hxy => ?_
      rw [eq_of_erase hxy]
      rfl

end RiscvInt

/-! ## Fetching -/

/-- Stepping over `b` bytes that stay inside the page. -/
theorem pageNum_add {a b : U64} (h : pageOff a + b.toNat < 4096) :
    pageNum (a + b) = pageNum a ∧ pageOff (a + b) = pageOff a + b.toNat := by
  have ha := a.isLt
  simp only [pageNum, pageOff, BitVec.toNat_add] at h ⊢
  omega

theorem ofNat_three_getLsbD (n i : Nat) : (BitVec.ofNat n 3).getLsbD (i + 1 + 1) = false := by
  simp only [BitVec.getLsbD, BitVec.toNat_ofNat]
  apply Nat.testBit_lt_two_pow
  calc 3 % 2 ^ n ≤ 3 := Nat.mod_le _ _
    _ < 2 ^ (i + 1 + 1) := by
      have : 2 ^ 2 ≤ 2 ^ (i + 1 + 1) := Nat.pow_le_pow_right (by decide) (by omega)
      omega

/-- The low two bits of a fetched word are those of its low halfword. -/
theorem halfwords_and_three (hi lo : BitVec 16) :
    ((hi.zeroExtend 32 <<< 16) ||| lo.zeroExtend 32) &&& 3 = (lo &&& 3).zeroExtend 32 := by
  ext i
  rcases i with ⟨_ | _ | i, hi⟩
  · simp
  · simp
  · simp [BitVec.getLsbD_and, ofNat_three_getLsbD]

theorem halfwords_setWidth (hi lo : BitVec 16) :
    ((hi.zeroExtend 32 <<< 16) ||| lo.zeroExtend 32).setWidth 16 = lo := by
  ext i
  simp [BitVec.getLsbD_setWidth, BitVec.getLsbD_or, BitVec.getLsbD_shiftLeft]

theorem zeroExtend_eq_three_iff (x : BitVec 16) : x.zeroExtend 32 = 3 ↔ x = 3 := by
  constructor
  · intro h
    have := congrArg BitVec.toNat h
    rw [BitVec.toNat_setWidth, Nat.mod_eq_of_lt (by omega)] at this
    exact BitVec.eq_of_toNat_eq (by simpa using this)
  · rintro rfl; rfl

/-! ## What the platform must guarantee -/

variable {E : Env P} {text : Nat → Prop}

/-- A change of memory from `m` to `m'` leaves every halfword of the pages `text` as it is. -/
def KeepsText (E : Env P) (text : Nat → Prop) (m m' : P.Mem) : Prop :=
  ∀ x, text (pageNum x) → E.read16 m' x = E.read16 m x

/-- A table entry of one of the two decoders. -/
def Env.InTables (E : Env P) (d : Decoded P) : Prop :=
  (∃ lo, E.decoder16 lo = some d) ∨ ∃ w, E.decoder w = some d

/-- What the platform must guarantee for the block cache to be invisible, `text` being the pages
    that hold the program:
    1. a fetch is not translated: `exec_one_by_one` fetches from `pc` itself where
       `exec_cached_int` fetches from its translation;
    2. `read32` succeeds exactly where it can read the two halfwords `read16` reads, and returns
       them;
    3. the last page of the address space holds no text: there `build_exec`'s
       `iaddr += inc_by` overflows at the end of the page, ahead of the instructions it would
       run.
    What the run itself must do is `SafeRun`. -/
structure CacheSafe (E : Env P) (text : Nat → Prop) : Prop where
  walk : ∀ a vpn, E.walk a vpn = some vpn
  read32 : ∀ m a w, E.read32 m a = .ok w ↔ ∃ lo hi, E.read16 m a = .ok lo ∧
    E.read16 m (a + 2) = .ok hi ∧ w = (hi.zeroExtend 32 <<< 16) ||| lo.zeroExtend 32
  top : ¬text (2 ^ 52 - 1)

theorem DecodesAt.inTables {m : P.Mem} {a : U64} {k : Nat} {c : Bool} {d : Decoded P}
    (h : DecodesAt E m a k c d) : E.InTables d := by
  obtain ⟨lo, -, h⟩ := h
  cases c
  · obtain ⟨-, -, hi, -, hd⟩ := h
    exact .inr ⟨_, hd⟩
  · exact .inl ⟨lo, h.2.2⟩

theorem Env.inTables_of_fetchEntry {w : BitVec 32} {d : Decoded P} (h : E.fetchEntry w = some d) :
    E.InTables d := by
  unfold Env.fetchEntry at h
  split at h
  exacts [.inl ⟨_, h⟩, .inr ⟨_, h⟩]

section CacheSafe

variable (hE : CacheSafe E text)
include hE

theorem CacheSafe.virt2phys (ar : Arch P) (a : U64) : E.virt2phys ar a = some a := by
  rw [Env.virt2phys, hE.walk, Option.map_some', pageBase_or_pageOffset]

theorem CacheSafe.read32_ok {m : P.Mem} (hf : Fetchable E m) (a : U64) :
    ∃ w, E.read32 m a = .ok w :=
  have ⟨lo, hlo⟩ := hf a
  have ⟨hi, hhi⟩ := hf (a + 2)
  ⟨_, (hE.read32 m a _).mpr ⟨lo, hi, hlo, hhi, rfl⟩⟩

/-- Where the builder decoded an instruction, `exec_one_by_one` fetches the same word and finds
    the same table entry. -/
theorem CacheSafe.fetch {m : P.Mem} {a : U64} {k : Nat} {c : Bool} {d : Decoded P}
    (hw : ∃ w, E.read32 m a = .ok w) (hat : DecodesAt E m a k c d) :
    ∃ w, E.read32 m a = .ok w ∧ E.fetchEntry w = some d ∧ decide (w &&& 3 ≠ 3) = c := by
  obtain ⟨lo, hlo, hc⟩ := hat
  cases c
  · simp only [Bool.false_eq_true, if_false] at hc
    obtain ⟨h3, -, hi, hhi, hd⟩ := hc
    have h3' : ((hi.zeroExtend 32 <<< 16) ||| lo.zeroExtend 32) &&& 3 = 3 := by
      rw [halfwords_and_three, h3]; rfl
    exact ⟨_, (hE.read32 m a _).mpr ⟨lo, hi, hlo, hhi, rfl⟩,
      by rw [Env.fetchEntry, if_neg (fun h => h h3'), hd], decide_eq_false (fun h => h h3')⟩
  · simp only [if_true] at hc
    obtain ⟨h3, -, hd⟩ := hc
    obtain ⟨w, hw⟩ := hw
    obtain ⟨lo', hi, hlo', -, rfl⟩ := (hE.read32 m a w).mp hw
    cases hlo.symm.trans hlo'
    have h3' : ((hi.zeroExtend 32 <<< 16) ||| lo.zeroExtend 32) &&& 3 ≠ 3 := by
      rw [halfwords_and_three, Ne, zeroExtend_eq_three_iff]; exact h3
    exact ⟨_, hw, by rw [Env.fetchEntry, if_pos h3', halfwords_setWidth, hd], decide_eq_true h3'⟩

end CacheSafe

/-! ## Blocks against the current memory -/

section Blocks

variable {m m' : P.Mem} {a : U64} {k : Nat}

theorem Decodes.eq_nil_of_lt_two {l : List (RiscvInstr P)} (h : Decodes E m a k l) (hk : k < 2) :
    l = [] := by
  cases h with
  | done => rfl
  | last hat => have := hat.two_le; omega
  | cons hat => have := hat.two_le; omega

/-- A decode reads only the page it starts in. -/
theorem DecodesAt.congr_page {c : Bool} {d : Decoded P} (h : DecodesAt E m a k c d)
    (hk : pageOff a + k ≤ 4096) (hm : ∀ x, pageNum x = pageNum a → E.read16 m' x = E.read16 m x) :
    DecodesAt E m' a k c d := by
  obtain ⟨lo, hlo, hc⟩ := h
  refine ⟨lo, (hm a rfl).trans hlo, ?_⟩
  cases c
  · simp only [Bool.false_eq_true, if_false] at hc ⊢
    obtain ⟨h3, h4, hi, hhi, hd⟩ := hc
    have h2 : (2 : U64).toNat = 2 := rfl
    exact ⟨h3, h4, hi, (hm _ (pageNum_add (by omega)).1).trans hhi, hd⟩
  · exact hc

theorem Decodes.congr_page {l : List (RiscvInstr P)} (h : Decodes E m a k l)
    (hk : pageOff a + k ≤ 4096) (hm : ∀ x, pageNum x = pageNum a → E.read16 m' x = E.read16 m x) :
    Decodes E m' a k l := by
  induction h with
  | done h => exact .done (by rwa [hm _ rfl])
  | last hat hs => exact .last (hat.congr_page hk hm) hs
  | @cons a k c d rest hat hs hrest ih =>
    refine .cons (hat.congr_page hk hm) hs ?_
    have hle := hat.le
    by_cases hlt : pageOff a + (incOf c).toNat < 4096
    · obtain ⟨hn, ho⟩ := pageNum_add hlt
      exact ih (by omega) fun x hx => hm x (hx.trans hn)
    · rw [hrest.eq_nil_of_lt_two (by omega)]
      exact .done (.inl (by omega))

theorem BlockBuilt.congr_page {b : RiscvBlock P} (h : BlockBuilt E m a b)
    (hm : ∀ x, pageNum x = pageNum a → E.read16 m' x = E.read16 m x) : BlockBuilt E m' a b :=
  ⟨h.begin_eq, h.decodes.congr_page (by have : pageOff a < 4096 := Nat.mod_lt _ (by decide); omega) hm,
    h.end_eq⟩

/-- The first record of a decode and what follows it. -/
theorem Decodes.cons_inv {z : RiscvInstr P} {rest : List (RiscvInstr P)}
    (h : Decodes E m a k (z :: rest)) :
    ∃ c d, DecodesAt E m a k c d ∧ z = { d.instr with incBy := incOf c } ∧
      (rest = [] ∨ Decodes E m (a + incOf c) (k - (incOf c).toNat) rest) := by
  cases h with
  | last hat _ => exact ⟨_, _, hat, rfl, .inl rfl⟩
  | cons hat _ hrest => exact ⟨_, _, hat, rfl, .inr hrest⟩

/-- After the first record of a decode that fits in its page, the rest decodes from the next
    instruction, in the same page. -/
theorem Decodes.rest_inPage {c : Bool} {d : Decoded P} {rest : List (RiscvInstr P)}
    (hat : DecodesAt E m a k c d) (hk : pageOff a + k ≤ 4096)
    (hrest : rest = [] ∨ Decodes E m (a + incOf c) (k - (incOf c).toNat) rest) :
    rest = [] ∨ pageNum (a + incOf c) = pageNum a ∧
      pageOff (a + incOf c) + (k - (incOf c).toNat) ≤ 4096 ∧
      Decodes E m (a + incOf c) (k - (incOf c).toNat) rest := by
  rcases hrest with rfl | hrest
  · exact .inl rfl
  by_cases h2 : k - (incOf c).toNat < 2
  · exact .inl (hrest.eq_nil_of_lt_two h2)
  have hle := hat.le
  obtain ⟨hn, ho⟩ := pageNum_add (a := a) (b := incOf c) (by omega)
  exact .inr ⟨hn, by omega, hrest⟩

end Blocks

/-- Every block of the index that begins on a text page decodes from the hart's current
    memory. -/
def Coherent (E : Env P) (text : Nat → Prop) (s : RiscvInt P) : Prop :=
  ∀ k, ∀ b ∈ s.instr k, text (pageNum b.begin) → BlockBuilt E s.memsource b.begin b

theorem Coherent.congr {s s' : RiscvInt P} (h : Coherent E text s) (hi : s'.instr = s.instr)
    (hm : KeepsText E text s.memsource s'.memsource) : Coherent E text s' := fun k b hb ht =>
  (h k b (hi ▸ hb) ht).congr_page fun x hx => hm x (hx ▸ ht)

theorem Coherent.buildExec {s s' : RiscvInt P} {a : U64} {r : Except Trap Unit}
    (h : Coherent E text s) (hb : s.buildExec E a = some (s', r)) : Coherent E text s' := by
  obtain ⟨-, hs', ⟨-, hi⟩ | ⟨-, b, hbb, hi⟩⟩ := RiscvInt.buildExec_spec E hb <;> rw [hs']
  · exact h.congr hi fun _ _ => rfl
  · intro k c hc ht
    simp only [hi, Function.update_apply] at hc
    split at hc
    · rcases List.mem_append.mp hc with hc | hc
      · exact h _ c hc ht
      · rw [List.mem_singleton.mp hc, hbb.begin_eq]; exact hbb
    · exact h k c hc ht

/-- The hart `exec_cached_int` enters a block with, the block found (`s1 = s`) or just built:
    only the index and the builder's fields differ from `s`, and the index stays coherent. -/
theorem Coherent.enter {s s1 : RiscvInt P} {a : U64} (h : Coherent E text s)
    (hI : IndexInv E s.instr) (hc : s.cacheEnabled = true)
    (hs1 : s1 = s ∨ s.checkBlock a = some none ∧ ∃ r, s.buildExec E a = some (s1, r)) :
    s1.erase = s.erase ∧ s1.memsource = s.memsource ∧ Coherent E text s1 ∧
      IndexInv E s1.instr ∧ s1.cacheEnabled = true := by
  rcases hs1 with rfl | ⟨hmiss, r, hbe⟩
  · exact ⟨rfl, rfl, h, hI, hc⟩
  · obtain ⟨-, hs1', -⟩ := RiscvInt.buildExec_spec E hbe
    exact ⟨by rw [hs1']; rfl, by rw [hs1'], h.buildExec hbe,
      RiscvInt.buildExec_indexInv hI hmiss hbe, by rw [hs1']; exact hc⟩

/-- The block `check_block` finds at `a`, four bytes or more before the end of its page, is not
    empty, and on a text page decodes from `a` in the current memory. -/
theorem Coherent.checkBlock {s : RiscvInt P} {a : U64} {blk : RiscvBlock P}
    (h : Coherent E text s) (hI : IndexInv E s.instr) (hb : s.checkBlock a = some (some blk))
    (hoff : pageOff a ≤ 4092) :
    blk.instrs ≠ [] ∧
      (¬text (pageNum a) ∨ ∃ k, pageOff a + k ≤ 4096 ∧ Decodes E s.memsource a k blk.instrs) := by
  obtain ⟨hmem, rfl⟩ := (RiscvInt.checkBlock_eq_some_some_iff hI).mp hb
  obtain ⟨-, m0, hb0⟩ := hI.blockOk _ blk hmem
  refine ⟨fun he => by have := (he ▸ hb0.decodes).lt_four_of_nil; omega, ?_⟩
  by_cases ht : text (pageNum blk.begin)
  · have : pageOff blk.begin < 4096 := Nat.mod_lt _ (by decide)
    exact .inr ⟨_, by omega, (h _ blk hmem ht).decodes⟩
  · exact .inl ht

/-! ## One instruction on either path -/

namespace RiscvInt

/-- A record of a block, as the builder made it from a table entry. -/
theorem execBlockStep_decoded (s : RiscvInt P) (curpc : U64) (blk : RiscvBlock P) (d : Decoded P)
    (c : Bool) (rest : List (RiscvInstr P)) :
    s.execBlockStep curpc blk ({ d.instr with incBy := incOf c } :: rest) =
      (({ s with isCompressed := c }.execHandler d.instr).finishInstr (incOf c)).map fun s3 =>
        (⟨s3, if s3.stopExec then .ret true (.ok ()) else .block curpc blk rest⟩,
          some ⟨d.instr.func, d.instr.args, { s with isCompressed := c }, s3⟩) := by
  have : (incOf c == 2) = c := by cases c <;> rfl
  simp only [execBlockStep, this]
  rfl

end RiscvInt

/-- `exec_one_by_one` at an instruction the builder decoded. -/
theorem CacheSafe.oneByOne_of_decodesAt (hE : CacheSafe E text) {t : RiscvInt P} {k : Nat}
    {c : Bool} {d : Decoded P} (hw : ∃ w, E.read32 t.memsource t.pc = .ok w)
    (hat : DecodesAt E t.memsource t.pc k c d) (hc : t.cacheEnabled = false) (fc : Bool) :
    t.execOneByOneStep E fc =
      (({ t with isCompressed := c }.execHandler d.instr).finishInstr (incOf c)).map fun t3 =>
        (⟨t3, if t3.stopExec then .ret fc (.ok ()) else .oneByOne fc⟩,
          some ⟨d.instr.func, d.instr.args, { t with isCompressed := c }, t3⟩) := by
  obtain ⟨w, hw, hd, hdec⟩ := hE.fetch hw hat
  rw [RiscvInt.execOneByOneStep_of_fetch fc hw hd hc, hdec]

/-! ## Runs and what they are compared on -/

/-- `c` runs to `c'` with no signal pending, invoking the handlers `l` on the way. -/
inductive Steps (E : Env P) : Config P → List (Event P) → Config P → Prop
  | refl (c : Config P) : Steps E c [] c
  | step {c c' c'' : Config P} {ev : Option (Event P)} {l : List (Event P)} :
      step E none c = some (c', ev) → Steps E c' l c'' → Steps E c (ev.toList ++ l) c''

theorem Steps.trans {c c' c'' : Config P} {l l' : List (Event P)} (h₁ : Steps E c l c')
    (h₂ : Steps E c' l' c'') : Steps E c (l ++ l') c'' := by
  induction h₁ with
  | refl => exact h₂
  | step h _ ih => rw [List.append_assoc]; exact .step h (ih h₂)

/-- What the two runs are compared on at an instruction: the handler and its args, `pc` and
    `is_compressed` at entry, and once the instruction completed the registers, the CSRs, the
    privilege, `pc`, `want_pc`, the pending trap and the guest memory. -/
def Event.obs (e : Event P) : Handler P × P.Args × U64 × Bool × (Fin 32 → U64) ×
    (Fin 4096 → U64) × Priv × U64 × Option U64 × Option Trap × P.Mem :=
  (e.func, e.args, e.pre.pc, e.pre.isCompressed, e.post.regs, e.post.csr, e.post.prvmode,
    e.post.pc, e.post.wantPc, e.post.trap, e.post.memsource)

theorem Event.obs_eq {e e' : Event P} (hf : e.func = e'.func) (ha : e.args = e'.args)
    (hpre : e.pre.erase = e'.pre.erase) (hc : e.pre.isCompressed = e'.pre.isCompressed)
    (hpost : e.post.erase = e'.post.erase) : e.obs = e'.obs := by
  simp only [Event.obs, hf, ha, hc, Prod.mk.injEq, true_and]
  exact ⟨(congrArg RiscvInt.pc hpre :), (congrArg RiscvInt.regs hpost :),
    (congrArg RiscvInt.csr hpost :), (congrArg RiscvInt.prvmode hpost :),
    (congrArg RiscvInt.pc hpost :), (congrArg RiscvInt.wantPc hpost :),
    (congrArg RiscvInt.trap hpost :), (congrArg RiscvInt.memsource hpost :)⟩

theorem toList_map_obs {ev ev' : Option (Event P)} (h : ev.map Event.obs = ev'.map Event.obs) :
    ev.toList.map Event.obs = ev'.toList.map Event.obs := by
  cases ev <;> cases ev' <;> simp_all

/-- The invocations of one instruction on two agreeing harts are observed alike. -/
theorem Event.obs_afterInstr {s t s3 t3 : RiscvInt P} (h : s.erase = t.erase)
    (h3 : s3.erase = t3.erase) (c : Bool) (d : Decoded P) :
    (⟨d.instr.func, d.instr.args, { s with isCompressed := c }, s3⟩ : Event P).obs =
    (⟨d.instr.func, d.instr.args, { t with isCompressed := c }, t3⟩ : Event P).obs :=
  Event.obs_eq rfl rfl h rfl h3

/-- Every handler of `l` is invoked on a text page. -/
def InText (text : Nat → Prop) (l : List (Event P)) : Prop := ∀ e ∈ l, text (pageNum e.pre.pc)

/-- The runs from `c` and from `d`, with no signal pending, invoke handlers alike: every sequence
    of invocations on the pages `text` that one of them reaches, the other reaches with the
    same observations. -/
def SameTrace (E : Env P) (text : Nat → Prop) (c d : Config P) : Prop :=
  (∀ l c', Steps E c l c' → InText text l →
    ∃ l' d', Steps E d l' d' ∧ l'.map Event.obs = l.map Event.obs) ∧
  (∀ l d', Steps E d l d' → InText text l →
    ∃ l' c', Steps E c l' c' ∧ l'.map Event.obs = l.map Event.obs)

/-- What the uncached run from `d` must do for the block cache to stay invisible on the pages
    `text`, stated on that run itself:
    1. no step writes a halfword of a text page, which would leave a block decoded before the
       store out of date;
    2. no fetch fails: `exec_one_by_one` delivers a failed fetch as a trap, where the failed read
       of `build_exec` makes `exec_cached_int` panic, and `read32` reads four bytes where the
       builder reads the two of a 16-bit instruction;
    3. where it fetches on a text page, four bytes or more before the end of the page, the rest
       of the page decodes, as `build_exec` decodes it ahead of the instructions it runs. -/
structure SafeRun (E : Env P) (text : Nat → Prop) (d : Config P) : Prop where
  keepsText : ∀ l d₁ d₂ ev, Steps E d l d₁ → step E none d₁ = some (d₂, ev) →
    KeepsText E text d₁.hart.memsource d₂.hart.memsource
  fetch : ∀ l d₁, Steps E d l d₁ → d₁.frame = .oneByOne false →
    ∃ w, E.read32 d₁.hart.memsource d₁.hart.pc = .ok w
  decodes : ∀ l d₁, Steps E d l d₁ → d₁.frame = .oneByOne false → text (pageNum d₁.hart.pc) →
    pageOff d₁.hart.pc ≤ 4092 →
    ∃ is, Decodes E d₁.hart.memsource d₁.hart.pc (4096 - pageOff d₁.hart.pc) is

section SafeRun

variable {d d' : Config P} (h : SafeRun E text d)
include h

/-- The run on from the next configuration is safe. -/
theorem SafeRun.next {ev : Option (Event P)} (hd : step E none d = some (d', ev)) :
    SafeRun E text d' :=
  ⟨fun _ _ _ _ hs => h.keepsText _ _ _ _ (.step hd hs), fun _ _ hs => h.fetch _ _ (.step hd hs),
    fun _ _ hs => h.decodes _ _ (.step hd hs)⟩

theorem SafeRun.keepsText_of_step {ev : Option (Event P)} (hd : step E none d = some (d', ev)) :
    KeepsText E text d.hart.memsource d'.hart.memsource :=
  h.keepsText [] d d' ev (.refl d) hd

theorem SafeRun.fetch_ok (hf : d.frame = .oneByOne false) :
    ∃ w, E.read32 d.hart.memsource d.hart.pc = .ok w :=
  h.fetch [] d (.refl d) hf

theorem SafeRun.decodes_of_text (hf : d.frame = .oneByOne false) (ht : text (pageNum d.hart.pc))
    (hoff : pageOff d.hart.pc ≤ 4092) :
    ∃ is, Decodes E d.hart.memsource d.hart.pc (4096 - pageOff d.hart.pc) is :=
  h.decodes [] d (.refl d) hf ht hoff

end SafeRun

/-! ## The simulation -/

/-- Where the cached run (`cache_enabled` set) stands against the uncached one. -/
inductive SimFrame (E : Env P) (text : Nat → Prop) : Config P → Config P → Prop
  /-- Both at the top of `run`. -/
  | run {s t : RiscvInt P} : s.cacheEnabled = true → t.stopExec = false → t.Quiet →
      SimFrame E text ⟨s, .run⟩ ⟨t, .run⟩
  /-- The cached run at the top of `exec_cached_int`'s loop, the other in `exec_one_by_one`. -/
  | cached {s t : RiscvInt P} : s.cacheEnabled = true → t.stopExec = false → t.Quiet →
      SimFrame E text ⟨s, .cached⟩ ⟨t, .oneByOne false⟩
  /-- In a block, past its last record, off the text pages, or before records that decode from
      `pc` on. -/
  | block {s t : RiscvInt P} {curpc : U64} {blk : RiscvBlock P} {rest : List (RiscvInstr P)} :
      s.cacheEnabled = true → s.stopExec = false → t.stopExec = false → t.Quiet →
      (rest = [] ∨ ¬text (pageNum s.pc) ∨
        ∃ k, pageOff s.pc + k ≤ 4096 ∧ Decodes E s.memsource s.pc k rest) →
      SimFrame E text ⟨s, .block curpc blk rest⟩ ⟨t, .oneByOne false⟩
  /-- In the page-end fallback, which runs one instruction. -/
  | fallback {s t : RiscvInt P} : s.cacheEnabled = false → s.stopExec = true → t.Quiet →
      SimFrame E text ⟨s, .oneByOne true⟩ ⟨t, .oneByOne false⟩
  /-- Both back in `run` with the same result. -/
  | ret {s t : RiscvInt P} {r : Except Trap Unit} :
      SimFrame E text ⟨s, .ret true r⟩ ⟨t, .ret false r⟩
  /-- The cached run back in `run` after the fallback's instruction, the other still going. -/
  | retFallback {s t : RiscvInt P} : t.stopExec = false → t.Quiet →
      SimFrame E text ⟨s, .ret true (.ok ())⟩ ⟨t, .oneByOne false⟩
  /-- The cached run at the top of `run` again after the fallback. -/
  | runFallback {s t : RiscvInt P} : s.cacheEnabled = true → t.stopExec = false → t.Quiet →
      SimFrame E text ⟨s, .run⟩ ⟨t, .oneByOne false⟩

/-- The cached run `c` against the uncached run `d`: the harts agree but for what only the block
    cache reads, the uncached run from `d` is safe, the index holds blocks that decode from the
    current memory, and the frames correspond. -/
structure Sim (E : Env P) (text : Nat → Prop) (c d : Config P) : Prop where
  agree : c.hart.erase = d.hart.erase
  safe : SafeRun E text d
  coherent : Coherent E text c.hart
  index : IndexInv E c.hart.instr
  cacheOff : d.hart.cacheEnabled = false
  frame : SimFrame E text c d

/-- The step from `c`, with no signal pending, panics or invokes a handler off the text
    pages. -/
def OffText (E : Env P) (text : Nat → Prop) (c : Config P) : Prop :=
  ∀ c' ev, step E none c = some (c', ev) → ∃ e, ev = some e ∧ ¬text (pageNum e.pre.pc)

/-- Both runs step, invoking matching handlers, to configurations again in `Sim`; or each of them
    panics or invokes a handler off the text pages. -/
def Lockstep (E : Env P) (text : Nat → Prop) (c d : Config P) : Prop :=
  (∃ c' d' ev ev', step E none c = some (c', ev) ∧ step E none d = some (d', ev') ∧
    ev.map Event.obs = ev'.map Event.obs ∧ Sim E text c' d') ∨
  OffText E text c ∧ OffText E text d

/-- How many steps the cached run can take alone before its next step in lockstep. -/
def simRank : Frame P → Nat
  | .ret _ _ => 3
  | .run => 2
  | .cached => 1
  | .block _ _ [] => 2
  | _ => 0

/-- The cached run takes a step that invokes no handler, staying in `Sim` with `d`, nearer its
    next step in lockstep. -/
def Silent (E : Env P) (text : Nat → Prop) (c d : Config P) : Prop :=
  ∃ c', step E none c = some (c', none) ∧ Sim E text c' d ∧ simRank c'.frame < simRank c.frame

section Sim

variable {s t : RiscvInt P}

/-- One instruction decoded as `d`, of length `incOf c`, on two agreeing harts: both panic, or
    both complete to agreeing harts. -/
theorem afterInstr_cases (h : s.erase = t.erase) (c : Bool) (d : Decoded P) :
    (({ s with isCompressed := c }.execHandler d.instr).finishInstr (incOf c) = none ∧
      ({ t with isCompressed := c }.execHandler d.instr).finishInstr (incOf c) = none) ∨
    ∃ s3 t3, ({ s with isCompressed := c }.execHandler d.instr).finishInstr (incOf c) = some s3 ∧
      ({ t with isCompressed := c }.execHandler d.instr).finishInstr (incOf c) = some t3 ∧
      s3.erase = t3.erase := by
  have he := RiscvInt.erase_afterInstr h c d
  cases hs3 : ({ s with isCompressed := c }.execHandler d.instr).finishInstr (incOf c) <;>
    cases ht3 : ({ t with isCompressed := c }.execHandler d.instr).finishInstr (incOf c) <;>
    rw [hs3, ht3] at he <;>
    simp only [Option.map_none', Option.map_some', reduceCtorEq, Option.some.injEq] at he
  · exact .inl ⟨rfl, rfl⟩
  · exact .inr ⟨_, _, rfl, rfl, he⟩

theorem OffText.of_panic {c : Config P} (h : step E none c = none) : OffText E text c :=
  fun _ _ h' => by rw [h] at h'; cases h'

/-- Off the text pages, the next record of a block runs there or panics. -/
theorem offText_block {curpc : U64} {blk : RiscvBlock P} {z : RiscvInstr P}
    {rest : List (RiscvInstr P)} (hout : ¬text (pageNum s.pc)) :
    OffText E text ⟨s, .block curpc blk (z :: rest)⟩ := by
  intro c' ev h
  simp only [step, RiscvInt.execBlockStep, Option.map_eq_some', Prod.mk.injEq] at h
  obtain ⟨s2, -, -, rfl⟩ := h
  exact ⟨_, rfl, hout⟩

/-- Off the text pages, where the fetch succeeds, `exec_one_by_one` runs an instruction there or
    panics. -/
theorem offText_oneByOne (hw : ∃ w, E.read32 t.memsource t.pc = .ok w)
    (hc : t.cacheEnabled = false) (hout : ¬text (pageNum t.pc)) (fc : Bool) :
    OffText E text ⟨t, .oneByOne fc⟩ := by
  intro c' ev h
  obtain ⟨w, hw⟩ := hw
  change t.execOneByOneStep E fc = _ at h
  cases hd : E.fetchEntry w with
  | none => rw [RiscvInt.execOneByOneStep_of_rejected fc hw hd] at h; cases h
  | some d =>
    rw [RiscvInt.execOneByOneStep_of_fetch fc hw hd hc, Option.map_eq_some'] at h
    obtain ⟨s3, -, h⟩ := h
    cases h
    exact ⟨_, rfl, hout⟩

/-- The step of the uncached run keeps the text pages, and so does the cached run's matching
    step, which ends on agreeing memory. -/
theorem Sim.keepsText {fr fr' g' : Frame P} (hs : Sim E text ⟨s, fr⟩ ⟨t, fr'⟩)
    {s' t' : RiscvInt P} {ev : Option (Event P)} (h' : s'.erase = t'.erase)
    (hstep : step E none ⟨t, fr'⟩ = some (⟨t', g'⟩, ev)) :
    KeepsText E text s.memsource s'.memsource := by
  have hm : s.memsource = t.memsource := (congrArg RiscvInt.memsource hs.agree :)
  have hm' : s'.memsource = t'.memsource := (congrArg RiscvInt.memsource h' :)
  rw [hm, hm']
  exact hs.safe.keepsText_of_step hstep

/-- One instruction, run on two agreeing harts as the uncached run steps, keeps what `Sim` asks
    of them. -/
theorem Sim.instr {fr fr' g g' : Frame P} (hs : Sim E text ⟨s, fr⟩ ⟨t, fr'⟩) {c : Bool}
    {d : Decoded P} {s3 t3 : RiscvInt P} {ev : Option (Event P)}
    (hs3 : ({ s with isCompressed := c }.execHandler d.instr).finishInstr (incOf c) = some s3)
    (ht3 : ({ t with isCompressed := c }.execHandler d.instr).finishInstr (incOf c) = some t3)
    (hstep : step E none ⟨t, fr'⟩ = some (⟨t3, g'⟩, ev))
    (hfr : SimFrame E text ⟨s3, g⟩ ⟨t3, g'⟩) : Sim E text ⟨s3, g⟩ ⟨t3, g'⟩ := by
  have h3 : s3.erase = t3.erase := by
    have he := RiscvInt.erase_afterInstr hs.agree c d
    rw [hs3, ht3] at he
    exact Option.some.inj he
  have hkt := hs.keepsText h3 hstep
  obtain ⟨-, rfl⟩ := RiscvInt.finishInstr_eq_some.mp hs3
  obtain ⟨-, rfl⟩ := RiscvInt.finishInstr_eq_some.mp ht3
  have hi : ({ s with isCompressed := c }.execHandler d.instr).instr = s.instr :=
    RiscvInt.execHandler_instr _ _
  exact ⟨h3, hs.safe.next hstep, hs.coherent.congr hi hkt,
    (hi.symm ▸ hs.index : IndexInv E ({ s with isCompressed := c }.execHandler d.instr).instr),
    (RiscvInt.execHandler_cacheEnabled _ _).trans hs.cacheOff, hfr⟩

/-- Both runs at the same instruction, decoded as `d` of length `incOf c`, on agreeing harts:
    both panic where `pc` passes `2^64 - 1`, or both invoke its handler alike and stay in `Sim`
    where the frames they go on in correspond. -/
theorem Sim.lockstep_instr {fr fr' : Frame P} (hs : Sim E text ⟨s, fr⟩ ⟨t, fr'⟩) {c : Bool}
    {d : Decoded P} {g g' : RiscvInt P → Frame P}
    (hcs : step E none ⟨s, fr⟩ =
      (({ s with isCompressed := c }.execHandler d.instr).finishInstr (incOf c)).map fun s3 =>
        (⟨s3, g s3⟩, some ⟨d.instr.func, d.instr.args, { s with isCompressed := c }, s3⟩))
    (hct : step E none ⟨t, fr'⟩ =
      (({ t with isCompressed := c }.execHandler d.instr).finishInstr (incOf c)).map fun t3 =>
        (⟨t3, g' t3⟩, some ⟨d.instr.func, d.instr.args, { t with isCompressed := c }, t3⟩))
    (hfr : ∀ s3 t3,
      ({ s with isCompressed := c }.execHandler d.instr).finishInstr (incOf c) = some s3 →
      ({ t with isCompressed := c }.execHandler d.instr).finishInstr (incOf c) = some t3 →
      KeepsText E text s.memsource s3.memsource → SimFrame E text ⟨s3, g s3⟩ ⟨t3, g' t3⟩) :
    Lockstep E text ⟨s, fr⟩ ⟨t, fr'⟩ := by
  have hag : s.erase = t.erase := hs.agree
  rcases afterInstr_cases hag c d with ⟨hs3, ht3⟩ | ⟨s3, t3, hs3, ht3, h3⟩
  · rw [hs3, Option.map_none'] at hcs
    rw [ht3, Option.map_none'] at hct
    exact .inr ⟨.of_panic hcs, .of_panic hct⟩
  rw [hs3, Option.map_some'] at hcs
  rw [ht3, Option.map_some'] at hct
  exact .inl ⟨_, _, _, _, hcs, hct, congrArg some (Event.obs_afterInstr hag h3 c d),
    hs.instr hs3 ht3 hct (hfr s3 t3 hs3 ht3 (hs.keepsText h3 hct))⟩

theorem Sim.next_run (hs : Sim E text ⟨s, .run⟩ ⟨t, .run⟩) (hc : s.cacheEnabled = true)
    (hst : t.stopExec = false) (hq : t.Quiet) : Lockstep E text ⟨s, .run⟩ ⟨t, .run⟩ :=
  have hoff : t.cacheEnabled = false := hs.cacheOff
  have htd : step E none ⟨t, .run⟩ = some (⟨t, .oneByOne false⟩, none) := by simp [step, hoff]
  .inl ⟨⟨s, .cached⟩, ⟨t, .oneByOne false⟩, none, none, by simp [step, hc], htd, rfl,
    ⟨hs.agree, hs.safe.next htd, hs.coherent, hs.index, hs.cacheOff, .cached hc hst hq⟩⟩

theorem Sim.next_runFallback (hs : Sim E text ⟨s, .run⟩ ⟨t, .oneByOne false⟩)
    (hc : s.cacheEnabled = true) (hst : t.stopExec = false) (hq : t.Quiet) :
    Silent E text ⟨s, .run⟩ ⟨t, .oneByOne false⟩ :=
  ⟨⟨s, .cached⟩, by simp [step, hc], ⟨hs.agree, hs.safe, hs.coherent, hs.index,
    hs.cacheOff, .cached hc hst hq⟩, by simp [simRank]⟩

theorem Sim.next_blockNil {curpc : U64} {blk : RiscvBlock P}
    (hs : Sim E text ⟨s, .block curpc blk []⟩ ⟨t, .oneByOne false⟩) (hc : s.cacheEnabled = true)
    (hss : s.stopExec = false) (hst : t.stopExec = false) (hq : t.Quiet) :
    Silent E text ⟨s, .block curpc blk []⟩ ⟨t, .oneByOne false⟩ :=
  ⟨⟨s, .cached⟩, by simp [step, RiscvInt.execBlockStep, hss], ⟨hs.agree, hs.safe,
    hs.coherent, hs.index, hs.cacheOff, .cached hc hst hq⟩, by simp [simRank]⟩

theorem Sim.next_retFallback (hs : Sim E text ⟨s, .ret true (.ok ())⟩ ⟨t, .oneByOne false⟩)
    (hst : t.stopExec = false) (hq : t.Quiet) :
    Silent E text ⟨s, .ret true (.ok ())⟩ ⟨t, .oneByOne false⟩ := by
  have hqs : s.Quiet := RiscvInt.Quiet.of_erase hs.agree hq
  refine ⟨⟨{ s with cacheEnabled := true, stopExec := false }, .run⟩, ?_,
    ⟨hs.agree, hs.safe, hs.coherent, hs.index, hs.cacheOff, .runFallback rfl hst hq⟩,
    by simp [simRank]⟩
  simp only [step]
  rw [show s.storeResult true (.ok ()) = { s with cacheEnabled := true } from rfl,
    RiscvInt.drain_of_quiet (s := { s with cacheEnabled := true }) ⟨hqs.trap, hqs.wantPc, hqs.wfi⟩]
  rfl

theorem Sim.next_ret {r : Except Trap Unit}
    (hs : Sim E text ⟨s, .ret true r⟩ ⟨t, .ret false r⟩) :
    Lockstep E text ⟨s, .ret true r⟩ ⟨t, .ret false r⟩ := by
  have hd := RiscvInt.erase_drain E (RiscvInt.erase_storeResult hs.agree true false r)
  cases hs' : (s.storeResult true r).drain E none with
  | none =>
    rw [hs', Option.map_none', eq_comm, Option.map_eq_none'] at hd
    exact .inr ⟨.of_panic (by simp [step, hs']), .of_panic (by simp [step, hd])⟩
  | some s' =>
    rw [hs', Option.map_some', eq_comm, Option.map_eq_some'] at hd
    obtain ⟨t', ht', he⟩ := hd
    have fs := RiscvInt.drain_frame hs'
    have ft := RiscvInt.drain_frame ht'
    have htd : step E none ⟨t, .ret false r⟩ = some (⟨t', .run⟩, none) := by simp [step, ht']
    have hi : s'.instr = s.instr := by rw [fs.instr, RiscvInt.storeResult_instr]
    have hoff : t.cacheEnabled = false := hs.cacheOff
    refine .inl ⟨⟨s', .run⟩, ⟨t', .run⟩, none, none, by simp [step, hs'], htd, rfl, he.symm,
      hs.safe.next htd, hs.coherent.congr hi (hs.keepsText he.symm htd), hi ▸ hs.index, by rw [ft.cacheEnabled, RiscvInt.storeResult_cacheEnabled, hoff]; rfl,
      .run ?_ ft.stopExec ft.quiet⟩
    rw [fs.cacheEnabled, RiscvInt.storeResult_cacheEnabled]; rfl

/-- At the top of `exec_cached_int`'s loop the cached run enters a block or falls back without
    invoking a handler; where it panics, in `build_exec` on the last page of the address space,
    `pc` is off the text pages. -/
theorem Sim.next_cached (hE : CacheSafe E text) (hs : Sim E text ⟨s, .cached⟩ ⟨t, .oneByOne false⟩)
    (hc : s.cacheEnabled = true) (hst : t.stopExec = false) (hq : t.Quiet) :
    Silent E text ⟨s, .cached⟩ ⟨t, .oneByOne false⟩ ∨
      Lockstep E text ⟨s, .cached⟩ ⟨t, .oneByOne false⟩ := by
  have hm : s.memsource = t.memsource := (congrArg RiscvInt.memsource hs.agree :)
  have hpc : s.pc = t.pc := (congrArg RiscvInt.pc hs.agree :)
  cases hc' : s.execCachedIntStep E with
  | none =>
    refine .inr (.inr ⟨.of_panic (by simp [step, hc']),
      offText_oneByOne (hs.safe.fetch_ok rfl) hs.cacheOff (fun ht => ?_) false⟩)
    have htop : pageNum s.pc < 2 ^ 52 - 1 := by
      have hlt : pageNum s.pc < 2 ^ 52 := by
        have := s.pc.isLt
        simp only [pageNum]
        omega
      exact lt_of_le_of_ne (Nat.le_pred_of_lt hlt) fun h => hE.top (h ▸ hpc ▸ ht)
    have := RiscvInt.execCachedIntStep_isSome hs.index fun hoff phys hv => by
      rw [hE.virt2phys] at hv
      cases hv
      obtain ⟨is, hdec⟩ := hs.safe.decodes_of_text rfl ht (by rw [← hpc]; exact hoff)
      exact RiscvInt.buildExec_ok_of_decodes hc (by rw [hm, hpc]; exact hdec) htop
    rw [hc'] at this
    cases this
  | some c' =>
    refine .inl ⟨c', by simp [step, hc'], ?_⟩
    rcases RiscvInt.execCachedIntStep_eq_some hc' with
      ⟨-, rfl⟩ | ⟨-, hv, -⟩ | ⟨hoff, physpc, s1, blk, hv, hb, hs1, rfl⟩
    · exact ⟨⟨hs.agree, hs.safe, hs.coherent, hs.index, hs.cacheOff, .fallback rfl rfl hq⟩,
        by simp [simRank]⟩
    · rw [hE.virt2phys] at hv; cases hv
    rw [hE.virt2phys] at hv
    cases hv
    obtain ⟨h1, -, hco, hI, hc1⟩ := hs.coherent.enter hs.index hc hs1
    obtain ⟨hne, hdec⟩ := hco.checkBlock hI hb hoff
    have hpc1 : s1.pc = s.pc := (congrArg RiscvInt.pc h1 :)
    obtain ⟨z, rest, he⟩ := List.exists_cons_of_ne_nil hne
    refine ⟨⟨h1.trans hs.agree, hs.safe, hco, hI, hs.cacheOff,
      .block hc1 rfl hst hq (.inr (by dsimp only; rw [hpc1]; exact hdec))⟩, ?_⟩
    simp [simRank, he]

/-- A block's record off the text pages: each run invokes a handler there or panics. -/
theorem Sim.next_blockOut {curpc : U64} {blk : RiscvBlock P}
    {z : RiscvInstr P} {rest : List (RiscvInstr P)}
    (hs : Sim E text ⟨s, .block curpc blk (z :: rest)⟩ ⟨t, .oneByOne false⟩)
    (hout : ¬text (pageNum s.pc)) :
    Lockstep E text ⟨s, .block curpc blk (z :: rest)⟩ ⟨t, .oneByOne false⟩ := by
  have hpc : s.pc = t.pc := (congrArg RiscvInt.pc hs.agree :)
  exact .inr ⟨offText_block hout,
    offText_oneByOne (hs.safe.fetch_ok rfl) hs.cacheOff (hpc ▸ hout) false⟩

theorem Sim.next_blockIn (hE : CacheSafe E text) {curpc : U64} {blk : RiscvBlock P}
    {z : RiscvInstr P} {rest : List (RiscvInstr P)} {k : Nat}
    (hs : Sim E text ⟨s, .block curpc blk (z :: rest)⟩ ⟨t, .oneByOne false⟩)
    (hc : s.cacheEnabled = true) (hss : s.stopExec = false) (hst : t.stopExec = false)
    (hq : t.Quiet) (ht : text (pageNum s.pc)) (hk : pageOff s.pc + k ≤ 4096)
    (hdec : Decodes E s.memsource s.pc k (z :: rest)) :
    Lockstep E text ⟨s, .block curpc blk (z :: rest)⟩ ⟨t, .oneByOne false⟩ := by
  obtain ⟨c, d, hat, rfl, hrest⟩ := hdec.cons_inv
  have hm : s.memsource = t.memsource := (congrArg RiscvInt.memsource hs.agree :)
  have hpc : s.pc = t.pc := (congrArg RiscvInt.pc hs.agree :)
  have hatt : DecodesAt E t.memsource t.pc k c d := hm ▸ hpc ▸ hat
  refine hs.lockstep_instr (RiscvInt.execBlockStep_decoded s curpc blk d c rest)
    (hE.oneByOne_of_decodesAt (hs.safe.fetch_ok rfl) hatt hs.cacheOff false)
    fun s3 t3 hs3 ht3 hkt => ?_
  obtain ⟨-, hs3'⟩ := RiscvInt.finishInstr_eq_some.mp hs3
  obtain ⟨-, ht3'⟩ := RiscvInt.finishInstr_eq_some.mp ht3
  have hse : s3.stopExec = t3.stopExec := by
    rw [hs3', ht3']
    exact RiscvInt.erase_execHandler_stopExec (s := { s with isCompressed := c })
      (t := { t with isCompressed := c }) hs.agree rfl (hss.trans hst.symm) d.instr
  rw [hse]
  split_ifs with hstop
  · exact .ret
  have hq3 : t3.Quiet := by
    have := (RiscvInt.Quiet.execHandler (s := { t with isCompressed := c })
      ⟨hq.trap, hq.wantPc, hq.wfi⟩ d.instr).resolve_right (by rwa [ht3'] at hstop)
    rw [ht3']
    exact ⟨this.trap, this.wantPc, this.wfi⟩
  have hc3 : s3.cacheEnabled = true := by rw [hs3']; simpa using hc
  have hpc3 : s3.pc = s.pc + incOf c := by rw [hs3']; simp
  have hm3 : s3.memsource = ({ s with isCompressed := c }.execHandler d.instr).memsource := by
    rw [hs3']
  refine .block hc3 (hse.trans (by simpa using hstop)) (by simpa using hstop) hq3 ?_
  rw [hpc3, hm3]
  rcases Decodes.rest_inPage hat hk hrest with h | ⟨hn, hk', hd⟩
  · exact .inl h
  refine .inr (.inr ⟨_, hk', hd.congr_page hk' fun x hx => ?_⟩)
  rw [← hm3]
  exact hkt x (by rw [hx, hn]; exact ht)

theorem Sim.next_blockCons (hE : CacheSafe E text) {curpc : U64} {blk : RiscvBlock P}
    {z : RiscvInstr P} {rest : List (RiscvInstr P)}
    (hs : Sim E text ⟨s, .block curpc blk (z :: rest)⟩ ⟨t, .oneByOne false⟩)
    (hc : s.cacheEnabled = true) (hss : s.stopExec = false) (hst : t.stopExec = false)
    (hq : t.Quiet)
    (hd : ¬text (pageNum s.pc) ∨
      ∃ k, pageOff s.pc + k ≤ 4096 ∧ Decodes E s.memsource s.pc k (z :: rest)) :
    Lockstep E text ⟨s, .block curpc blk (z :: rest)⟩ ⟨t, .oneByOne false⟩ := by
  by_cases ht : text (pageNum s.pc)
  · obtain ⟨k, hk, hd⟩ := hd.resolve_left (not_not.mpr ht)
    exact hs.next_blockIn hE hc hss hst hq ht hk hd
  · exact hs.next_blockOut ht

theorem Sim.next_fallback (hs : Sim E text ⟨s, .oneByOne true⟩ ⟨t, .oneByOne false⟩)
    (hc : s.cacheEnabled = false) (hss : s.stopExec = true) (hq : t.Quiet) :
    Lockstep E text ⟨s, .oneByOne true⟩ ⟨t, .oneByOne false⟩ := by
  have hm : s.memsource = t.memsource := (congrArg RiscvInt.memsource hs.agree :)
  have hpc : s.pc = t.pc := (congrArg RiscvInt.pc hs.agree :)
  cases hw : E.read32 s.memsource s.pc with
  | error tr =>
    have hw' : E.read32 t.memsource t.pc = .error tr := hm ▸ hpc ▸ hw
    exact .inl ⟨_, _, none, none, RiscvInt.execOneByOneStep_of_fault true hw,
      RiscvInt.execOneByOneStep_of_fault false hw', rfl,
      ⟨hs.agree, hs.safe.next (RiscvInt.execOneByOneStep_of_fault false hw'), hs.coherent,
        hs.index, hs.cacheOff, .ret⟩⟩
  | ok w =>
    have hw' : E.read32 t.memsource t.pc = .ok w := hm ▸ hpc ▸ hw
    rcases Option.eq_none_or_eq_some (E.fetchEntry w) with hd | ⟨d, hd⟩
    · exact .inr ⟨.of_panic (RiscvInt.execOneByOneStep_of_rejected true hw hd),
        .of_panic (RiscvInt.execOneByOneStep_of_rejected false hw' hd)⟩
    have hcs := RiscvInt.execOneByOneStep_of_fetch true hw hd hc
    have hct := RiscvInt.execOneByOneStep_of_fetch false hw' hd hs.cacheOff
    generalize decide (w &&& 3 ≠ 3) = c at hcs hct
    dsimp only at hcs hct
    refine hs.lockstep_instr hcs hct fun s3 t3 hs3 ht3 _ => ?_
    obtain ⟨-, hs3'⟩ := RiscvInt.finishInstr_eq_some.mp hs3
    obtain ⟨-, ht3'⟩ := RiscvInt.finishInstr_eq_some.mp ht3
    have hstop3 : s3.stopExec = true := by
      rw [hs3']
      exact RiscvInt.execHandler_stopExec_of (s := { s with isCompressed := c }) hss d.instr
    rw [if_pos hstop3]
    split_ifs with hstop
    · exact .ret
    · have := (RiscvInt.Quiet.execHandler (s := { t with isCompressed := c })
        ⟨hq.trap, hq.wantPc, hq.wfi⟩ d.instr).resolve_right (by rwa [ht3'] at hstop)
      refine .retFallback (by simpa using hstop) ?_
      rw [ht3']
      exact ⟨this.trap, this.wantPc, this.wfi⟩

/-- From related configurations, both runs take a step alike, or the cached one takes a step
    alone. -/
theorem Sim.next (hE : CacheSafe E text) {c d : Config P} (hs : Sim E text c d) :
    Lockstep E text c d ∨ Silent E text c d := by
  have hfr := hs.frame
  cases hfr with
  | run hc hst hq => exact .inl (hs.next_run hc hst hq)
  | cached hc hst hq => exact (hs.next_cached hE hc hst hq).symm
  | block hc hss hst hq hd =>
    rename_i rest
    cases rest with
    | nil => exact .inr (hs.next_blockNil hc hss hst hq)
    | cons z rest =>
      exact .inl (hs.next_blockCons hE hc hss hst hq (hd.resolve_left (List.cons_ne_nil z rest)))
  | fallback hc hss hq => exact .inl (hs.next_fallback hc hss hq)
  | ret => exact .inl hs.next_ret
  | retFallback hst hq => exact .inr (hs.next_retFallback hst hq)
  | runFallback hc hst hq => exact .inr (hs.next_runFallback hc hst hq)

/-- Every run of the cached side on the text pages is matched by a run of the uncached side. -/
theorem Sim.forward (hE : CacheSafe E text) {c d c' : Config P} {l : List (Event P)}
    (hs : Sim E text c d) (h : Steps E c l c') (hl : InText text l) :
    ∃ l' d', Steps E d l' d' ∧ l'.map Event.obs = l.map Event.obs := by
  induction h generalizing d with
  | refl => exact ⟨[], d, .refl d, rfl⟩
  | step h1 _ ih =>
    have hl' : InText text _ := fun e he => hl e (List.mem_append_right _ he)
    rcases hs.next hE with (⟨c₁, d₁, ev, ev', hc, hd, hobs, hs₁⟩ | ⟨hoc, -⟩) | ⟨c₁, hc, hs₁, -⟩
    · rw [hc] at h1; cases h1
      obtain ⟨l', d', hst, hl⟩ := ih hs₁ hl'
      exact ⟨ev'.toList ++ l', d', .step hd hst, by simp [hl, toList_map_obs hobs]⟩
    · obtain ⟨e, rfl, hout⟩ := hoc _ _ h1
      exact absurd (hl e (by simp)) hout
    · rw [hc] at h1; cases h1
      exact ih hs₁ hl'

/-- The cached side catches up with one step of the uncached side on the text pages. -/
theorem Sim.catchUp (hE : CacheSafe E text) {c d d₁ : Config P} {ev' : Option (Event P)}
    (hs : Sim E text c d) (hd : step E none d = some (d₁, ev')) (hin : InText text ev'.toList) :
    ∃ l c₁, Steps E c l c₁ ∧ l.map Event.obs = ev'.toList.map Event.obs ∧ Sim E text c₁ d₁ := by
  generalize h : simRank c.frame = n
  induction n using Nat.strong_induction_on generalizing c with
  | _ n ih =>
    rcases hs.next hE with (⟨c₁, d₂, ev, ev'', hc, hd', hobs, hs₁⟩ | ⟨-, hod⟩) |
        ⟨c₁, hc, hs₁, hlt⟩
    · rw [hd] at hd'; cases hd'
      exact ⟨ev.toList, c₁, by simpa using Steps.step hc (.refl c₁), toList_map_obs hobs, hs₁⟩
    · obtain ⟨e', rfl, hout⟩ := hod _ _ hd
      exact absurd (hin e' (by simp)) hout
    · obtain ⟨l, c₂, hst, hl, hs₂⟩ := ih _ (h ▸ hlt) hs₁ rfl
      exact ⟨l, c₂, .step hc hst, hl, hs₂⟩

/-- Every run of the uncached side on the text pages is matched by a run of the cached side. -/
theorem Sim.backward (hE : CacheSafe E text) {c d d' : Config P} {l : List (Event P)}
    (hs : Sim E text c d) (h : Steps E d l d') (hl : InText text l) :
    ∃ l' c', Steps E c l' c' ∧ l'.map Event.obs = l.map Event.obs := by
  induction h generalizing c with
  | refl => exact ⟨[], c, .refl c, rfl⟩
  | step hd _ ih =>
    obtain ⟨l₁, c₁, hst₁, hl₁, hs₁⟩ :=
      hs.catchUp hE hd fun e he => hl e (List.mem_append_left _ he)
    obtain ⟨l₂, c₂, hst₂, hl₂⟩ := ih hs₁ fun e he => hl e (List.mem_append_right _ he)
    exact ⟨l₁ ++ l₂, c₂, hst₁.trans hst₂, by simp [hl₁, hl₂]⟩

theorem Sim.sameTrace (hE : CacheSafe E text) {c d : Config P} (hs : Sim E text c d) :
    SameTrace E text c d :=
  ⟨fun _ _ h hl => hs.forward hE h hl, fun _ _ h hl => hs.backward hE h hl⟩

/-- The boots with the cache on and off are related. -/
theorem Sim.boot {mem : P.Mem} (usermode : Bool) (xlen : Xlen) (ume : P.Ume) (sp pc : U64)
    (hrun : SafeRun E text (boot usermode xlen mem ume sp pc false)) :
    Sim E text (boot usermode xlen mem ume sp pc true) (boot usermode xlen mem ume sp pc false) := by
  have hq := (inv_boot (E := E) usermode xlen mem ume sp pc false).quiet
  cases usermode <;>
    exact ⟨rfl, hrun, fun _ _ hb => absurd hb (List.not_mem_nil _), indexInv_empty, rfl,
      .run rfl rfl hq⟩

end Sim

/-- **Cache transparency.** On a platform that keeps the cache invisible for the text pages
    `text`, from every boot state whose uncached run is safe, `run` with `cache_enabled` set and
    with it clear invoke handlers alike on those pages. -/
theorem cache_transparent (hE : CacheSafe E text) (usermode : Bool) (xlen : Xlen) (mem : P.Mem)
    (ume : P.Ume) (sp pc : U64) (hrun : SafeRun E text (boot usermode xlen mem ume sp pc false)) :
    SameTrace E text (boot usermode xlen mem ume sp pc true)
      (boot usermode xlen mem ume sp pc false) :=
  (Sim.boot usermode xlen ume sp pc hrun).sameTrace hE

/-! ## Platform-wide conditions -/

/-- What an instruction or the syscall runtime may do to memory: keep the text pages, and keep
    every halfword fetchable. -/
structure StoresOk (E : Env P) (text : Nat → Prop) (m m' : P.Mem) : Prop where
  keepsText : KeepsText E text m m'
  fetchable : Fetchable E m → Fetchable E m'

theorem StoresOk.refl (m : P.Mem) : StoresOk E text m m := ⟨fun _ _ => rfl, id⟩

/-- In every state, neither a handler of the tables nor the syscall runtime writes a text page or
    makes a halfword unfetchable. With a store that takes its address from a register this holds
    only for no text at all; `SafeRun` asks it of the stores of one run. -/
structure StoreSafe (E : Env P) (text : Nat → Prop) : Prop where
  code : ∀ d, E.InTables d → ∀ a : Arch P,
    StoresOk E text a.memsource (d.instr.func d.instr.args a).memsource
  dispatch : ∀ ume m sin r, E.dispatch ume m sin = some r → StoresOk E text m r.2.1

/-- Every handler a reachable configuration invokes is an entry of the decoder tables. -/
theorem Reachable.event_inTables {sig : Signal} {c c' : Config P} {e : Event P}
    (hr : Reachable E c) (h : TurboRiscv.step E sig c = some (c', some e)) :
    ∃ d, E.InTables d ∧ e.func = d.instr.func ∧ e.args = d.instr.args := by
  obtain ⟨cc, hi, -⟩ := event_instrAt hr h
  cases hi with
  | cached _ _ _ _ _ _ hat hf ha => exact ⟨_, hat.inTables, hf, ha⟩
  | uncached _ _ _ hd hf ha => exact ⟨_, Env.inTables_of_fetchEntry hd, hf, ha⟩

section StoreSafe

variable (hS : StoreSafe E text)
include hS

theorem StoreSafe.handleSyscall {s s' : RiscvInt P} (h : s.handleSyscall E = some s') :
    StoresOk E text s.memsource s'.memsource := by
  unfold RiscvInt.handleSyscall at h
  dsimp only at h
  split at h
  · cases h
  split at h
  · cases h
  cases h
  exact hS.dispatch _ _ _ _ ‹_›

/-- The drain writes memory only through the syscall runtime. -/
theorem StoreSafe.drain {s s' : RiscvInt P} (h : s.drain E none = some s') :
    StoresOk E text s.memsource s'.memsource := by
  rcases RiscvInt.drain_eq_some h with ⟨trp, s1, -, -, h1, rfl⟩ |
    ⟨trp, s1, s2, -, -, -, h1, h2, h3⟩ | ⟨s2, -, h2, h3⟩
  · obtain ⟨_, _, _, rfl⟩ := handleTrap_frame h1
    exact .refl _
  · obtain ⟨-, rfl⟩ := RiscvInt.commitWantPc_eq_some h3
    rw [RiscvInt.deliverSignal_none, Option.some.injEq] at h2
    subst h2
    have := hS.handleSyscall h1
    exact this
  · obtain ⟨-, rfl⟩ := RiscvInt.commitWantPc_eq_some h3
    rw [RiscvInt.deliverSignal_none, Option.some.injEq] at h2
    subst h2
    exact .refl _

/-- A step of a reachable configuration with no signal pending writes memory only through a
    handler of the tables or the syscall runtime. -/
theorem StoreSafe.storesOk_step {c c' : Config P} {ev : Option (Event P)} (hr : Reachable E c)
    (h : step E none c = some (c', ev)) : StoresOk E text c.hart.memsource c'.hart.memsource := by
  rcases step_hart h with h' | h' | h' | h' | ⟨physpc, r, s1, -, hb, h'⟩ | ⟨b, z, i, he, h'⟩ |
    ⟨b, z, i, st, h'⟩ | ⟨fc, r, h'⟩
  iterate 4 rw [h']; exact .refl _
  · rw [h', (RiscvInt.buildExec_spec E hb).2.1]; exact .refl _
  · obtain ⟨d, hd, hf, ha⟩ := hr.event_inTables (he ▸ h)
    dsimp only at hf ha
    rw [(RiscvInt.finishInstr_eq_some.mp h').2]
    show StoresOk E text _ ({ c.hart with isCompressed := b }.execHandler z).memsource
    rw [RiscvInt.execHandler_memsource, hf, ha]
    exact hS.code d hd { c.hart with isCompressed := b }.arch
  · rw [(RiscvInt.finishInstr_eq_some.mp h').2]; exact .refl _
  · simpa only [RiscvInt.storeResult_memsource] using hS.drain h'

theorem StoreSafe.steps {c c' : Config P} {l : List (Event P)} (h : Steps E c l c')
    (hr : Reachable E c) (hf : Fetchable E c.hart.memsource) :
    Reachable E c' ∧ Fetchable E c'.hart.memsource := by
  induction h with
  | refl => exact ⟨hr, hf⟩
  | step h1 _ ih => exact ih (.step none hr h1) ((hS.storesOk_step hr h1).fetchable hf)

/-- The platform-wide conditions make every run safe: from a reachable configuration whose
    memory can be fetched everywhere, with total decoders, the uncached run is safe. -/
theorem SafeRun.of_storeSafe (hE : CacheSafe E text) (hd : E.DecodesAll) {d : Config P}
    (hr : Reachable E d) (hf : Fetchable E d.hart.memsource) : SafeRun E text d where
  keepsText _ _ _ _ hs h := (hS.storesOk_step (hS.steps hs hr hf).1 h).keepsText
  fetch _ _ hs _ := hE.read32_ok (hS.steps hs hr hf).2 _
  decodes _ _ hs _ _ _ := Decodes.exists_of_fetchable hd (hS.steps hs hr hf).2 _ _

end StoreSafe

/-! ## On the concrete platform -/

/-- With fetches untranslated, the concrete platform keeps the cache invisible below the last
    page. -/
theorem toyEnv_cacheSafe : CacheSafe (toyEnv identityWalk) fun k => k < 2 ^ 52 - 1 where
  walk _ _ := rfl
  read32 m a w := by
    simp only [toyEnv]
    cases m.half a <;> cases m.half (a + 2) <;> simp [eq_comm]
  top := by decide

/-- The concrete platform's handlers and syscall runtime never write memory. -/
theorem toyEnv_storeSafe (walk : Arch toy → U64 → Option U64) (text : Nat → Prop) :
    StoreSafe (toyEnv walk) text where
  code := by
    rintro d (⟨lo, hd⟩ | ⟨w, hd⟩) a
    · cases hd; exact .refl _
    · simp only [toyEnv, toyDecoder] at hd
      split_ifs at hd <;> cases hd <;> exact .refl _
  dispatch := by rintro ume m sin r ⟨⟩; exact .refl _

/-- On the concrete platform with fetches untranslated, from every boot over an image of words,
    the cached and the uncached run invoke handlers alike below the last page of the address
    space. -/
theorem cache_transparent_toyMem (usermode : Bool) (xlen : Xlen) (base : U64)
    (ws : List (BitVec 32)) (sp pc : U64) :
    SameTrace (toyEnv identityWalk) (fun k => k < 2 ^ 52 - 1)
      (boot usermode xlen (toyMem base ws) () sp pc true)
      (boot usermode xlen (toyMem base ws) () sp pc false) :=
  cache_transparent toyEnv_cacheSafe usermode xlen _ () sp pc <|
    SafeRun.of_storeSafe (toyEnv_storeSafe _ _) toyEnv_cacheSafe (toyEnv_decodesAll _) (.boot ..)
      (by cases usermode <;> exact toyMem_fetchable _ _ _)

/-- A memory holding `addi x1, x0, 1` at `0x1000` and nothing after it. -/
def islandMem : ToyMem where
  half a := if a = 0x1000 then some 0x0093 else if a = 0x1002 then some 0x0010 else none
  savedPc := 0

/-- A system-mode hart entered at `0x1000` of `islandMem`. -/
def islandBoot (cacheEnabled : Bool) : Config toy :=
  boot false .x64 islandMem () 0 0x1000 cacheEnabled

/-- No block of `islandMem` can be built from `0x1000`: the instruction there does not end the
    block, and the next fetch fails. -/
theorem island_not_decodes {l : List (RiscvInstr toy)}
    (h : Decodes (toyEnv identityWalk) islandMem 0x1000 4096 l) : False := by
  have unmapped : ∀ lo, (toyEnv identityWalk).read16 islandMem (0x1000 + incOf false) ≠ .ok lo := by
    intro lo h; cases h
  have first : ∀ {c d}, DecodesAt (toyEnv identityWalk) islandMem 0x1000 4096 c d →
      c = false ∧ d.stopsTranslating = false := by
    rintro c d ⟨lo, hlo, hc⟩
    cases hlo
    cases c
    · obtain ⟨-, -, hi, hhi, hd⟩ := hc
      cases hhi
      cases hd
      exact ⟨rfl, rfl⟩
    · exact absurd (by decide) hc.1
  cases h with
  | done h => rcases h with h | ⟨-, -, -, h⟩ <;> omega
  | last hat hs => exact absurd hs (by simp [(first hat).2])
  | cons hat _ hrest =>
    obtain ⟨rfl, -⟩ := first hat
    cases hrest with
    | done h =>
      rcases h with h | ⟨lo, hlo, -⟩
      · simp [incOf] at h
      · exact unmapped lo hlo
    | last hat' _ => obtain ⟨lo, hlo, -⟩ := hat'; exact unmapped lo hlo
    | cons hat' _ _ => obtain ⟨lo, hlo, -⟩ := hat'; exact unmapped lo hlo

/-- From `islandBoot true`, `exec_cached_int` panics: `build_exec` cannot finish the block, and
    `check_block(..).unwrap()` finds none. -/
theorem island_cached_panics :
    (islandBoot true).hart.execCachedIntStep (toyEnv identityWalk) = none := by
  cases h : (islandBoot true).hart.execCachedIntStep (toyEnv identityWalk) with
  | none => rfl
  | some c' =>
    have hI := (inv_boot (E := toyEnv identityWalk) false .x64 islandMem () 0 0x1000 true).index
    rcases RiscvInt.execCachedIntStep_eq_some h with ⟨hoff, -⟩ | ⟨-, hv, -⟩ |
      ⟨-, physpc, s1, blk, hv, hb, hs1, -⟩
    · exact absurd hoff (by decide)
    · rw [identityWalk_virt2phys] at hv; cases hv
    rw [identityWalk_virt2phys] at hv
    cases hv
    rcases hs1 with rfl | ⟨-, r, hbe⟩
    · exact absurd ((RiscvInt.checkBlock_eq_some_some_iff hI).mp hb).1 (List.not_mem_nil _)
    obtain ⟨-, -, ⟨-, hi⟩ | ⟨-, b, hbb, -⟩⟩ := RiscvInt.buildExec_spec _ hbe
    · exact absurd ((RiscvInt.checkBlock_eq_some_some_iff (hi ▸ hI)).mp hb).1
        (by rw [hi]; exact List.not_mem_nil _)
    · exact (island_not_decodes hbb.decodes).elim

/-- Every run of `islandBoot true` invokes no handler. -/
theorem island_cached_steps {l : List (Event toy)} {c' : Config toy}
    (h : Steps (toyEnv identityWalk) (islandBoot true) l c') : l = [] := by
  cases h with
  | refl => rfl
  | step h1 h2 =>
    cases h1
    cases h2 with
    | refl => rfl
    | step h3 _ =>
      change step _ none ⟨(islandBoot true).hart, .cached⟩ = _ at h3
      simp only [step, island_cached_panics, Option.map_none'] at h3
      cases h3

theorem cache_decodes_ahead :
    ¬SameTrace (toyEnv identityWalk) (fun _ => True) (islandBoot true) (islandBoot false) := by
  rintro ⟨-, hb⟩
  obtain ⟨l, c', hs, hl⟩ := hb _ _ (Steps.step rfl (Steps.step rfl (.refl _))) fun _ _ => trivial
  rw [island_cached_steps hs] at hl
  cases hl

end TurboRiscv
