import TurboRiscv.Hart

/-!
# The Block Cache

`check_block` and `build_exec` of `riscv/interpreter/main.rs`: the index from physical page
numbers to the blocks that begin in the page, and the translation loop that decodes a block.

## Layers

- **§1** the code: one pass of `build_exec`'s loop (`buildPass`), the loop (`buildLoop`),
  `build_exec` and `check_block`;
- **§2** `Decodes`: what a block's instructions are, the successive decodes of the physical
  memory from its start within one page;
- **§3** the loop's spec: the records it appends satisfy `Decodes`, and the returned
  `iaddr - inc_by` is the last record's address, in the page of the start;
- **§4** `IndexInv`, the representation invariant of the index, and its preservation by
  `build_exec` when `check_block` found no block;
- **§5** when the builder succeeds: wherever the rest of the page decodes, outside the last page
  of the address space (`buildExec_ok_of_decodes`).
-/

namespace TurboRiscv

variable {P : Platform}

/-! ## §1 The code -/

/-- How one pass of `build_exec`'s loop ends. -/
inductive BuildPass
  /-- A `read16` failed and `?` returned its trap. -/
  | fault (t : Trap)
  /-- `if max_count < 4 { break; }` before an uncompressed instruction. -/
  | stop
  /-- The decoder appended one record, compressed or not. -/
  | decoded (compressed : Bool)

/-- `self.current_block.instrs.last_mut().unwrap().inc_by = inc_by`; `none` when the
    `unwrap` panics. -/
def RiscvBlock.setLastIncBy (b : RiscvBlock P) (incBy : U64) : Option (RiscvBlock P) :=
  match b.instrs.getLast? with
  | none => none
  | some z => some { b with instrs := b.instrs.dropLast ++ [{ z with incBy := incBy }] }

namespace RiscvInt

variable (E : Env P)

/-- The decode part of one pass of `build_exec`'s loop at `iaddr` with `max_count` bytes left;
    `none` when `illegal_instr` panics. `iaddr + 2` cannot overflow: with `max_count >= 4` four
    bytes of the page are left from `iaddr`. -/
def buildPass (s : RiscvInt P) (iaddr : U64) (maxCount : Int) :
    Option (BuildPass × RiscvInt P) :=
  match E.read16 s.memsource iaddr with
  | .error t => some (.fault t, s)
  | .ok instrLower =>
    if instrLower &&& 3 ≠ 3 then
      ({ s with isCompressed := true }.decode (E.decoder16 instrLower)).map
        fun s => (.decoded true, s)
    else if maxCount < 4 then some (.stop, s)
    else
      match E.read16 s.memsource (iaddr + 2) with
      | .error t => some (.fault t, s)
      | .ok instrHigh =>
        let realinstr := (instrHigh.zeroExtend 32 <<< 16) ||| instrLower.zeroExtend 32
        ({ s with isCompressed := false }.decode (E.decoder realinstr)).map
          fun s => (.decoded false, s)

/-- The `while max_count >= 2` loop of `build_exec`. It returns the hart and either the trap
    of a failed read or the final `iaddr` and `inc_by`; `none` when it panics, in the decoder or
    where `iaddr += inc_by` overflows. -/
def buildLoop (s : RiscvInt P) (iaddr : U64) (maxCount : Int) (incBy : U64) :
    Option (RiscvInt P × Except Trap (U64 × U64)) :=
  if maxCount ≥ 2 then
    match buildPass E s iaddr maxCount with
    | none => none
    | some (.fault t, s) => some (s, .error t)
    | some (.stop, s) => some (s, .ok (iaddr, incBy))
    | some (.decoded c, s) =>
      let incBy : U64 := if c then 2 else 4
      match s.currentBlock.setLastIncBy incBy with
      | none => none
      | some blk =>
        let s := { s with currentBlock := blk }
        match checkedAdd iaddr incBy with
        | none => none
        | some iaddr =>
          if s.stopTranslating then some (s, .ok (iaddr, incBy))
          else buildLoop s iaddr (maxCount - if c then 2 else 4) incBy
  else some (s, .ok (iaddr, incBy))
termination_by maxCount.toNat
decreasing_by split <;> omega

/-- `build_exec`: decode the block that starts at the physical address `addr` and append it to
    the index under `addr >> RISCV_PAGE_SHIFT`. `none` when it panics. -/
def buildExec (s : RiscvInt P) (addr : U64) : Option (RiscvInt P × Except Trap Unit) :=
  let s := { s with stopTranslating := false,
                    currentBlock := { s.currentBlock with begin := addr, instrs := [] } }
  if s.cacheEnabled then
    let maxCount : Int := (riscvPageSize - (addr &&& riscvPageOffset)).toNat
    match buildLoop E s addr maxCount 0 with
    | none => none
    | some (s, .error t) => some (s, .error t)
    | some (s, .ok (iaddr, incBy)) =>
      let s := { s with currentBlock := { s.currentBlock with «end» := iaddr - incBy } }
      let hashaddr := addr >>> riscvPageShift
      let blocks := s.instr hashaddr ++ [s.currentBlock]
      some ({ s with instr := Function.update s.instr hashaddr blocks }, .ok ())
  else none

/-- `check_block`: the first block of `addr`'s page that begins at `addr`; `none` when the
    bug-check on a block crossing a page panics. -/
def checkBlock (s : RiscvInt P) (addr : U64) : Option (Option (RiscvBlock P)) :=
  match (s.instr (addr >>> riscvPageShift)).find? (fun i => i.begin == addr) with
  | none => some none
  | some i =>
    if (i.begin &&& ~~~riscvPageOffset) ^^^ (i.end &&& ~~~riscvPageOffset) ≠ 0 then none
    else some (some i)

end RiscvInt

/-! ## §2 What a block decodes -/

/-- The length of an instruction, compressed (`c`) or not: its `inc_by`. -/
def incOf (c : Bool) : U64 := if c then 2 else 4

/-- The bytes a list of records covers: the sum of their `inc_by`. -/
def sumInc : List (RiscvInstr P) → Nat
  | [] => 0
  | z :: l => z.incBy.toNat + sumInc l

/-- The instruction at physical address `a`, with `k` bytes left in its page, decodes to the
    table entry `d`; `c` tells whether it is compressed. -/
def DecodesAt (E : Env P) (m : P.Mem) (a : U64) (k : Nat) (c : Bool) (d : Decoded P) : Prop :=
  ∃ lo, E.read16 m a = .ok lo ∧
    if c then lo &&& 3 ≠ 3 ∧ 2 ≤ k ∧ E.decoder16 lo = some d
    else lo &&& 3 = 3 ∧ 4 ≤ k ∧ ∃ hi, E.read16 m (a + 2) = .ok hi ∧
      E.decoder ((hi.zeroExtend 32 <<< 16) ||| lo.zeroExtend 32) = some d

/-- `instrs` are what `build_exec`'s loop appends from the physical address `a` of memory `m`
    with `k` bytes left in the page: the successive decodes, each its table entry with its length
    as `inc_by`, up to the first that ends translation or to where the page has no room for the
    next instruction. -/
inductive Decodes (E : Env P) (m : P.Mem) : U64 → Nat → List (RiscvInstr P) → Prop
  /-- Fewer than two bytes are left, or the next instruction is uncompressed and fewer than
      four are. -/
  | done {a : U64} {k : Nat} :
      (k < 2 ∨ ∃ lo, E.read16 m a = .ok lo ∧ lo &&& 3 = 3 ∧ k < 4) → Decodes E m a k []
  /-- The instruction at `a` ends translation. -/
  | last {a : U64} {k : Nat} {c : Bool} {d : Decoded P} :
      DecodesAt E m a k c d → d.stopsTranslating = true →
      Decodes E m a k [{ d.instr with incBy := incOf c }]
  /-- The instruction at `a` is followed by the rest of the block. -/
  | cons {a : U64} {k : Nat} {c : Bool} {d : Decoded P} {rest : List (RiscvInstr P)} :
      DecodesAt E m a k c d → d.stopsTranslating = false →
      Decodes E m (a + incOf c) (k - (incOf c).toNat) rest →
      Decodes E m a k ({ d.instr with incBy := incOf c } :: rest)

@[simp] theorem sumInc_nil : sumInc ([] : List (RiscvInstr P)) = 0 := rfl

@[simp] theorem sumInc_cons (z : RiscvInstr P) (l : List (RiscvInstr P)) :
    sumInc (z :: l) = z.incBy.toNat + sumInc l := rfl

theorem sumInc_append (l l' : List (RiscvInstr P)) :
    sumInc (l ++ l') = sumInc l + sumInc l' := by
  induction l with
  | nil => simp
  | cons z l ih => simp [ih, Nat.add_assoc]

@[simp] theorem toNat_incOf (c : Bool) : (incOf c).toNat = if c then 2 else 4 := by
  cases c <;> rfl

/-- The bytes left after a record: they shrink by its length, down to zero. -/
theorem toNat_sub_incOf (mc : Int) (c : Bool) :
    (mc - if c then 2 else 4).toNat = mc.toNat - (incOf c).toNat := by
  cases c <;> simp <;> omega

theorem DecodesAt.le {E : Env P} {m : P.Mem} {a : U64} {k : Nat} {c : Bool} {d : Decoded P}
    (h : DecodesAt E m a k c d) : (incOf c).toNat ≤ k := by
  obtain ⟨lo, -, h⟩ := h
  cases c <;> simp_all

theorem DecodesAt.two_le {E : Env P} {m : P.Mem} {a : U64} {k : Nat} {c : Bool}
    {d : Decoded P} (h : DecodesAt E m a k c d) : 2 ≤ k := by
  have := h.le
  cases c <;> simp at this <;> omega

/-- An instruction is compressed iff the low two bits of its first halfword are not `0b11`. -/
theorem DecodesAt.compressed {E : Env P} {m : P.Mem} {a : U64} {k : Nat} {c : Bool}
    {d : Decoded P} (h : DecodesAt E m a k c d) :
    ∃ lo, E.read16 m a = .ok lo ∧ c = decide (lo &&& 3 ≠ 3) := by
  obtain ⟨lo, hlo, h⟩ := h
  refine ⟨lo, hlo, ?_⟩
  cases c
  · simpa using h.1
  · simpa using h.1

/-- Every record of a decoded run is two or four bytes long. -/
theorem Decodes.incBy_mem {E : Env P} {m : P.Mem} {a : U64} {k : Nat} {l : List (RiscvInstr P)}
    (h : Decodes E m a k l) : ∀ z ∈ l, z.incBy = 2 ∨ z.incBy = 4 := by
  induction h with
  | done => simp
  | @last a k c d => cases c <;> simp [incOf]
  | @cons a k c d rest _ _ _ ih =>
    intro z hz
    rcases List.mem_cons.mp hz with rfl | hz
    · cases c <;> simp [incOf]
    · exact ih z hz

/-- The last record of a non-empty decoded run starts before the end of the page. -/
theorem Decodes.sumInc_dropLast_lt {E : Env P} {m : P.Mem} {a : U64} {k : Nat}
    {l : List (RiscvInstr P)} (h : Decodes E m a k l) (hne : l ≠ []) :
    sumInc l.dropLast < k := by
  induction h with
  | done => exact absurd rfl hne
  | last hd => simp only [List.dropLast_single, sumInc_nil]; have := hd.two_le; omega
  | @cons a k c d rest hd _ hrest ih =>
    have hle := hd.le
    cases rest with
    | nil => simp only [List.dropLast_single, sumInc_nil]; have := hd.two_le; omega
    | cons z rest' =>
      have := ih (List.cons_ne_nil _ _)
      rw [List.dropLast_cons₂, sumInc_cons]
      simp only [toNat_incOf] at hle this ⊢
      omega

/-- The record after `done` in a decoded run is the decode at its address. -/
theorem Decodes.get {E : Env P} {m : P.Mem} {a : U64} {k : Nat} {done rest : List (RiscvInstr P)}
    {z : RiscvInstr P} (h : Decodes E m a k (done ++ z :: rest)) :
    ∃ c d, DecodesAt E m (a + BitVec.ofNat 64 (sumInc done)) (k - sumInc done) c d ∧
      z = { d.instr with incBy := incOf c } := by
  generalize hl : done ++ z :: rest = l at h
  induction h generalizing done with
  | done => simp at hl
  | @last a k c d hd _ =>
    cases done with
    | nil => cases hl; exact ⟨c, d, by simpa using hd, rfl⟩
    | cons y done => simp at hl
  | @cons a k c d rest' hd _ hrest ih =>
    cases done with
    | nil => cases hl; exact ⟨c, d, by simpa using hd, rfl⟩
    | cons y done =>
      obtain ⟨rfl, hl'⟩ := List.cons.inj hl
      obtain ⟨c', d', h', rfl⟩ := ih hl'
      refine ⟨c', d', ?_, rfl⟩
      rw [sumInc_cons, BitVec.ofNat_add, BitVec.ofNat_toNat, BitVec.setWidth_eq,
        ← BitVec.add_assoc, Nat.sub_add_eq]
      exact h'

/-- A decode with four bytes left in the page is never empty. -/
theorem Decodes.lt_four_of_nil {E : Env P} {m : P.Mem} {a : U64} {k : Nat}
    (h : Decodes E m a k []) : k < 4 := by
  cases h with
  | done h => rcases h with h | ⟨-, -, -, h⟩ <;> omega

/-- The address of record `k` of a block that begins at `p`: `p` advanced over the records
    before it. -/
def instrAddr (p : U64) (l : List (RiscvInstr P)) (k : Nat) : U64 :=
  p + BitVec.ofNat 64 (sumInc (l.take k))

@[simp] theorem instrAddr_zero (p : U64) (l : List (RiscvInstr P)) : instrAddr p l 0 = p := by
  simp [instrAddr]

theorem instrAddr_cons (p : U64) (z : RiscvInstr P) (l : List (RiscvInstr P)) (k : Nat) :
    instrAddr p (z :: l) (k + 1) = instrAddr (p + z.incBy) l k := by
  rw [instrAddr, instrAddr, List.take_succ_cons, sumInc_cons, BitVec.ofNat_add,
    BitVec.ofNat_toNat, BitVec.setWidth_eq, BitVec.add_assoc]

section Records

variable {E : Env P} {m : P.Mem} {a : U64} {k : Nat} {l : List (RiscvInstr P)}

/-- Record `j` of a decoded run is the decode at its address with the bytes left there, and only
    the last record may end translation. -/
theorem Decodes.getElem (h : Decodes E m a k l) {j : Nat} (hj : j < l.length) :
    ∃ c d, DecodesAt E m (instrAddr a l j) (k - sumInc (l.take j)) c d ∧
      l[j] = { d.instr with incBy := incOf c } ∧
      (j + 1 < l.length → d.stopsTranslating = false) := by
  induction h generalizing j with
  | done => simp at hj
  | @last a k c d hd _ =>
    obtain rfl : j = 0 := by simpa using hj
    exact ⟨c, d, by simpa using hd, rfl, by simp⟩
  | @cons a k c d rest hd hs _ ih =>
    cases j with
    | zero => exact ⟨c, d, by simpa using hd, rfl, fun _ => hs⟩
    | succ j =>
      obtain ⟨c', d', h', hz, hst⟩ := ih (by simpa using hj)
      refine ⟨c', d', ?_, by simpa using hz, fun hl => hst (by simpa using hl)⟩
      rwa [instrAddr_cons, List.take_succ_cons, sumInc_cons, Nat.sub_add_eq]

/-- Why a decoded run ends: its last record ends translation, or fewer than two bytes are left
    after it, or the next instruction is uncompressed and fewer than four are. -/
theorem Decodes.stops (h : Decodes E m a k l) :
    (l ≠ [] ∧ ∃ c d, DecodesAt E m (instrAddr a l (l.length - 1))
      (k - sumInc (l.take (l.length - 1))) c d ∧ d.stopsTranslating = true) ∨
    k - sumInc l < 2 ∨
    ∃ lo, E.read16 m (instrAddr a l l.length) = .ok lo ∧ lo &&& 3 = 3 ∧ k - sumInc l < 4 := by
  induction h with
  | done h => right; simpa using h
  | @last a k c d hd hs => exact .inl ⟨by simp, c, d, by simpa using hd, hs⟩
  | @cons a k c d rest hd _ hrest ih =>
    have hlen : (({ d.instr with incBy := incOf c } : RiscvInstr P) :: rest).length - 1 =
        rest.length - 1 + 1 ∨ rest = [] := by
      cases rest <;> simp
    rcases ih with ⟨hne, c', d', h', hs'⟩ | h2 | ⟨lo, hlo, h3, h4⟩
    · refine .inl ⟨by simp, c', d', ?_, hs'⟩
      rw [hlen.resolve_right hne, instrAddr_cons, List.take_succ_cons, sumInc_cons,
        Nat.sub_add_eq]
      exact h'
    · exact .inr (.inl (by simp only [sumInc_cons]; omega))
    · refine .inr (.inr ⟨lo, ?_, h3, by simp only [sumInc_cons]; omega⟩)
      rwa [List.length_cons, instrAddr_cons]

end Records

/-- `b` is the block `build_exec` builds from the physical address `a` of memory `m`. -/
structure BlockBuilt (E : Env P) (m : P.Mem) (a : U64) (b : RiscvBlock P) : Prop where
  begin_eq : b.begin = a
  decodes : Decodes E m a (4096 - pageOff a) b.instrs
  end_eq : b.end = if b.instrs.isEmpty then a else a + BitVec.ofNat 64 (sumInc b.instrs.dropLast)

theorem toNat_riscvPageSize_sub (a : U64) :
    (riscvPageSize - (a &&& riscvPageOffset)).toNat = 4096 - pageOff a := by
  have h := toNat_and_riscvPageOffset a
  have : pageOff a < 4096 := Nat.mod_lt _ (by decide)
  rw [BitVec.toNat_sub, h, show riscvPageSize.toNat = 4096 from rfl]
  omega

/-! ## §3 The loop's spec -/

namespace RiscvInt

variable (E : Env P)

theorem buildPass_eq_some {s s' : RiscvInt P} {a : U64} {mc : Int} {r : BuildPass}
    (hc : s.cacheEnabled = true) (hmc : 2 ≤ mc) (h : buildPass E s a mc = some (r, s')) :
    (∃ t, r = .fault t ∧ s' = s) ∨
    (r = .stop ∧ s' = s ∧ ∃ lo, E.read16 s.memsource a = .ok lo ∧ lo &&& 3 = 3 ∧ mc < 4) ∨
    (∃ c d, r = .decoded c ∧ DecodesAt E s.memsource a mc.toNat c d ∧
      s' = { s.insertInsnCurrent d.instr with
        isCompressed := c, stopTranslating := s.stopTranslating || d.stopsTranslating }) := by
  unfold buildPass at h
  split at h
  · simp only [Option.some.injEq, Prod.mk.injEq] at h
    exact .inl ⟨_, h.1.symm, h.2.symm⟩
  · rename_i lo hlo
    split at h
    · cases hd : E.decoder16 lo with
      | none => simp [hd] at h
      | some d =>
        simp only [hd, decode] at h
        rw [if_pos hc] at h
        simp only [Option.map_some', Option.some.injEq, Prod.mk.injEq] at h
        obtain ⟨rfl, rfl⟩ := h
        exact .inr (.inr ⟨true, d, rfl, ⟨lo, hlo, by simp only [if_true]; exact ⟨‹_›, by omega, hd⟩⟩, rfl⟩)
    · split at h
      · simp only [Option.some.injEq, Prod.mk.injEq] at h
        exact .inr (.inl ⟨h.1.symm, h.2.symm, lo, hlo, by simpa using ‹¬lo &&& 3 ≠ 3›, ‹_›⟩)
      · split at h
        · simp only [Option.some.injEq, Prod.mk.injEq] at h
          exact .inl ⟨_, h.1.symm, h.2.symm⟩
        · rename_i hi hhi
          cases hd : E.decoder ((hi.zeroExtend 32 <<< 16) ||| lo.zeroExtend 32) with
          | none => simp [hd] at h
          | some d =>
            simp only [hd, decode] at h
            rw [if_pos hc] at h
            simp only [Option.map_some', Option.some.injEq, Prod.mk.injEq] at h
            obtain ⟨rfl, rfl⟩ := h
            refine .inr (.inr ⟨false, d, rfl, ⟨lo, hlo, ?_⟩, rfl⟩)
            simp only [Bool.false_eq_true, if_false]
            exact ⟨by simpa using ‹¬lo &&& 3 ≠ 3›, by omega, hi, hhi, hd⟩

/-! The three outcomes of a pass, one lemma each. -/

theorem buildPass_fault {s s' : RiscvInt P} {a : U64} {mc : Int} {t : Trap}
    (hc : s.cacheEnabled = true) (hmc : 2 ≤ mc) (h : buildPass E s a mc = some (.fault t, s')) :
    s' = s := by
  rcases buildPass_eq_some E hc hmc h with ⟨_, -, h1⟩ | ⟨h1, -⟩ | ⟨_, _, h1, -⟩
  · exact h1
  all_goals cases h1

theorem buildPass_stop {s s' : RiscvInt P} {a : U64} {mc : Int}
    (hc : s.cacheEnabled = true) (hmc : 2 ≤ mc) (h : buildPass E s a mc = some (.stop, s')) :
    s' = s ∧ ∃ lo, E.read16 s.memsource a = .ok lo ∧ lo &&& 3 = 3 ∧ mc < 4 := by
  rcases buildPass_eq_some E hc hmc h with ⟨_, h1, -⟩ | ⟨-, h1⟩ | ⟨_, _, h1, -⟩
  · cases h1
  · exact h1
  · cases h1

theorem buildPass_decoded {s s' : RiscvInt P} {a : U64} {mc : Int} {c : Bool}
    (hc : s.cacheEnabled = true) (hmc : 2 ≤ mc)
    (h : buildPass E s a mc = some (.decoded c, s')) :
    ∃ d, DecodesAt E s.memsource a mc.toNat c d ∧
      s' = { s.insertInsnCurrent d.instr with
        isCompressed := c, stopTranslating := s.stopTranslating || d.stopsTranslating } := by
  rcases buildPass_eq_some E hc hmc h with ⟨_, h1, -⟩ | ⟨h1, -⟩ | ⟨_, d, h1, h2⟩
  · cases h1
  · cases h1
  · cases h1; exact ⟨d, h2⟩

/-- Conversely, where an instruction decodes, a pass of the loop appends its record. -/
theorem buildPass_of_decodesAt {s : RiscvInt P} {a : U64} {mc : Int} {c : Bool} {d : Decoded P}
    (hc : s.cacheEnabled = true) (hat : DecodesAt E s.memsource a mc.toNat c d) :
    buildPass E s a mc = some (.decoded c, { s.insertInsnCurrent d.instr with
      isCompressed := c, stopTranslating := s.stopTranslating || d.stopsTranslating }) := by
  obtain ⟨lo, hlo, h⟩ := hat
  unfold buildPass
  rw [hlo]
  dsimp only
  cases c
  · simp only [Bool.false_eq_true, if_false] at h
    obtain ⟨h3, h4, hi, hhi, hd⟩ := h
    rw [if_neg (not_not.mpr h3), if_neg (by omega), hhi]
    dsimp only
    rw [hd, decode_some_of_cacheEnabled (s := { s with isCompressed := false }) hc]
    rfl
  · simp only [if_true] at h
    obtain ⟨h3, -, hd⟩ := h
    rw [if_pos h3, hd, decode_some_of_cacheEnabled (s := { s with isCompressed := true }) hc]
    rfl

theorem setLastIncBy_insertInsnCurrent (s : RiscvInt P) (z : RiscvInstr P) (i : U64) :
    (s.insertInsnCurrent z).currentBlock.setLastIncBy i =
      some { s.currentBlock with instrs := s.currentBlock.instrs ++ [{ z with incBy := i }] } := by
  simp [RiscvBlock.setLastIncBy, insertInsnCurrent]

/-- One pass of the loop at an instruction that decodes: its record is appended,
    `iaddr += inc_by` panics where it overflows, and the loop stops after the record or goes on
    from the next instruction. -/
theorem buildLoop_of_decodesAt (incBy : U64) {s : RiscvInt P} {iaddr : U64} {mc : Int} {c : Bool}
    {d : Decoded P} (hc : s.cacheEnabled = true) (hat : DecodesAt E s.memsource iaddr mc.toNat c d) :
    ∃ s', s'.memsource = s.memsource ∧ s'.cacheEnabled = s.cacheEnabled ∧
      s'.stopTranslating = (s.stopTranslating || d.stopsTranslating) ∧
      buildLoop E s iaddr mc incBy = (checkedAdd iaddr (incOf c)).bind fun iaddr' =>
        if s.stopTranslating || d.stopsTranslating then some (s', .ok (iaddr', incOf c))
        else buildLoop E s' iaddr' (mc - if c then 2 else 4) (incOf c) := by
  rw [buildLoop, if_pos (by have := hat.two_le; omega), buildPass_of_decodesAt E hc hat]
  dsimp only
  rw [setLastIncBy_insertInsnCurrent]
  dsimp only
  refine ⟨{ s.insertInsnCurrent d.instr with
      isCompressed := c, stopTranslating := s.stopTranslating || d.stopsTranslating,
      currentBlock := { s.currentBlock with
        instrs := s.currentBlock.instrs ++ [{ d.instr with incBy := incOf c }] } },
    rfl, rfl, rfl, ?_⟩
  simp only [incOf]
  cases checkedAdd iaddr (if c = true then 2 else 4) <;> rfl

/-- Where the instruction at `iaddr` decodes and ends past `2^64 - 1`, `iaddr += inc_by`
    panics, whether or not the instruction ends translation. -/
theorem buildLoop_eq_none_of_overflow {s : RiscvInt P} {iaddr incBy : U64} {mc : Int} {c : Bool}
    {d : Decoded P} (hc : s.cacheEnabled = true) (hat : DecodesAt E s.memsource iaddr mc.toNat c d)
    (hover : 2 ^ 64 ≤ iaddr.toNat + (incOf c).toNat) : buildLoop E s iaddr mc incBy = none := by
  obtain ⟨s', -, -, -, h⟩ := buildLoop_of_decodesAt E incBy hc hat
  rw [h, checkedAdd_eq_none_iff.mpr hover, Option.none_bind]

theorem buildLoop_spec {s s' : RiscvInt P} {iaddr incBy : U64} {maxCount : Int}
    {r : Except Trap (U64 × U64)} (hc : s.cacheEnabled = true) (hst : s.stopTranslating = false)
    (h : buildLoop E s iaddr maxCount incBy = some (s', r)) :
    ∃ new ic st, s' = { s with
        currentBlock := { s.currentBlock with instrs := s.currentBlock.instrs ++ new },
        isCompressed := ic, stopTranslating := st } ∧
      ∀ iaddr' incBy', r = .ok (iaddr', incBy') →
        Decodes E s.memsource iaddr maxCount.toNat new ∧
        iaddr' - incBy' =
          if new.isEmpty then iaddr - incBy else iaddr + BitVec.ofNat 64 (sumInc new.dropLast) := by
  induction s, iaddr, maxCount, incBy using buildLoop.induct E generalizing s' r with
  | case1 s iaddr mc incBy hmc hp => rw [buildLoop, if_pos hmc, hp] at h; cases h
  | case2 s iaddr mc incBy hmc t s1 hp =>
    rw [buildLoop, if_pos hmc, hp] at h
    cases h
    obtain rfl := buildPass_fault E hc (by omega) hp
    exact ⟨[], s1.isCompressed, s1.stopTranslating, by simp only [List.append_nil], by simp⟩
  | case3 s iaddr mc incBy hmc s1 hp =>
    rw [buildLoop, if_pos hmc, hp] at h
    cases h
    obtain ⟨rfl, lo, hlo, h3, hlt⟩ := buildPass_stop E hc (by omega) hp
    refine ⟨[], s1.isCompressed, s1.stopTranslating, by simp only [List.append_nil], ?_⟩
    rintro _ _ ⟨⟩
    exact ⟨.done (.inr ⟨lo, hlo, h3, by omega⟩), rfl⟩
  | case4 s iaddr mc incBy hmc c s1 hp =>
    rename_i inc hlast
    obtain ⟨d, -, rfl⟩ := buildPass_decoded E hc (by omega) hp
    simp only [setLastIncBy_insertInsnCurrent] at hlast
    cases hlast
  | case5 s iaddr mc incBy hmc c s1 hp =>
    rename_i inc blk hlast hadd
    rw [buildLoop, if_pos hmc, hp] at h
    simp only [inc, dite_eq_ite] at hlast hadd
    simp only [hlast, hadd] at h
    cases h
  | case6 s iaddr mc incBy hmc c s1 hp =>
    rename_i inc blk hlast s2 iaddr1 hadd hstop
    simp only [inc, dite_eq_ite] at hadd
    rw [buildLoop, if_pos hmc, hp] at h
    obtain ⟨d, hd, rfl⟩ := buildPass_decoded E hc (by omega) hp
    obtain ⟨-, rfl⟩ := checkedAdd_eq_some_iff.mp hadd
    simp only [s2, hlast, hst, Bool.false_or] at hstop
    simp only [setLastIncBy_insertInsnCurrent, hst, Bool.false_or, hstop, if_true, hadd,
      Option.some.injEq, Prod.mk.injEq] at h
    obtain ⟨rfl, rfl⟩ := h
    refine ⟨[{ d.instr with incBy := incOf c }], c, true, rfl, ?_⟩
    rintro _ _ ⟨⟩
    exact ⟨.last hd hstop, by simp⟩
  | case7 s iaddr mc incBy hmc c s1 hp =>
    rename_i inc blk hlast s2 iaddr1 hadd hstop ih
    simp only [inc, dite_eq_ite] at hadd
    rw [buildLoop, if_pos hmc, hp] at h
    obtain ⟨d, hd, rfl⟩ := buildPass_decoded E hc (by omega) hp
    obtain ⟨-, rfl⟩ := checkedAdd_eq_some_iff.mp hadd
    simp only [setLastIncBy_insertInsnCurrent, Option.some.injEq] at hlast
    subst hlast
    have hstop' : d.stopsTranslating = false := by simpa [s2, hst] using hstop
    simp only [setLastIncBy_insertInsnCurrent, hadd] at h
    rw [if_neg hstop] at h
    obtain ⟨new, ic, st, rfl, hnew⟩ := ih hc (by simp [s2, hst, hstop']) h
    refine ⟨{ d.instr with incBy := incOf c } :: new, ic, st, ?_, fun iaddr' incBy' hr => ?_⟩
    · simp only [s2, insertInsnCurrent, List.append_assoc, List.singleton_append]
      rfl
    obtain ⟨hdec, hend⟩ := hnew iaddr' incBy' hr
    have hk : (mc - if h : c = true then 2 else 4).toNat = mc.toNat - (incOf c).toNat := by
      have := hd.le; cases c <;> simp at this ⊢ <;> omega
    refine ⟨.cons hd hstop' (hk ▸ hdec), ?_⟩
    rw [hend]
    cases new with
    | nil => simp [inc, dite_eq_ite]
    | cons w ws =>
      simp only [List.isEmpty_cons, Bool.false_eq_true, if_false, List.dropLast_cons₂, sumInc_cons]
      rw [BitVec.toNat_eq]
      simp [BitVec.toNat_add, incOf, inc, Nat.add_assoc]
  | case8 s iaddr mc incBy hmc =>
    rw [buildLoop, if_neg hmc] at h
    cases h
    exact ⟨[], s.isCompressed, s.stopTranslating, by simp only [List.append_nil],
      fun _ _ hr => by cases hr; exact ⟨.done (.inl (by omega)), rfl⟩⟩


theorem buildExec_spec {s s' : RiscvInt P} {addr : U64} {r : Except Trap Unit}
    (h : buildExec E s addr = some (s', r)) :
    s.cacheEnabled = true ∧
    s' = { s with instr := s'.instr, currentBlock := s'.currentBlock,
                  isCompressed := s'.isCompressed, stopTranslating := s'.stopTranslating } ∧
    ((∃ t, r = .error t) ∧ s'.instr = s.instr ∨
      r = .ok () ∧ ∃ b, BlockBuilt E s.memsource addr b ∧
        s'.instr = Function.update s.instr (addr >>> riscvPageShift)
          (s.instr (addr >>> riscvPageShift) ++ [b])) := by
  unfold buildExec at h
  simp only at h
  split_ifs at h with hc
  split at h
  · cases h
  · rename_i s1 t hl
    cases h
    obtain ⟨new, ic, st, rfl, -⟩ := buildLoop_spec E (by exact hc) (by rfl) hl
    exact ⟨hc, rfl, .inl ⟨⟨t, rfl⟩, rfl⟩⟩
  · rename_i s1 iaddr incBy hl
    cases h
    obtain ⟨new, ic, st, rfl, hnew⟩ := buildLoop_spec E (by exact hc) (by rfl) hl
    obtain ⟨hdec, hend⟩ := hnew iaddr incBy rfl
    refine ⟨hc, rfl, .inr ⟨rfl, _, ⟨rfl, ?_, ?_⟩, rfl⟩⟩
    · rw [Int.toNat_ofNat, toNat_riscvPageSize_sub] at hdec
      exact (List.nil_append new).symm ▸ hdec
    · simpa only [List.nil_append, sub_zero] using hend
end RiscvInt

/-! ## §4 The index invariant -/

section Index

variable {E : Env P} {m : P.Mem} {a : U64} {b : RiscvBlock P}

/-- The last record of a block built from `a` starts in `a`'s page, at or after `a`. -/
theorem BlockBuilt.toNat_end (h : BlockBuilt E m a b) :
    b.end.toNat = a.toNat + sumInc b.instrs.dropLast ∧
      pageOff a + sumInc b.instrs.dropLast < 4096 := by
  have hoff : pageOff a < 4096 := Nat.mod_lt _ (by decide)
  have ha : a.toNat % 4096 = pageOff a := rfl
  have hlt := a.isLt
  rw [h.end_eq]
  cases hi : b.instrs.isEmpty with
  | true =>
    rw [List.isEmpty_iff.mp hi]
    exact ⟨by simp, by simpa using hoff⟩
  | false =>
    have hS := h.decodes.sumInc_dropLast_lt (by simpa using hi)
    simp only [Bool.false_eq_true, if_false, BitVec.toNat_add, BitVec.toNat_ofNat]
    constructor <;> omega

/-- A block built from `a` ends in `a`'s page. -/
theorem BlockBuilt.pageNum_end (h : BlockBuilt E m a b) : pageNum b.end = pageNum a := by
  obtain ⟨h1, h2⟩ := h.toNat_end
  simp only [pageNum, pageOff] at h1 h2 ⊢
  omega

/-- A built block passes `check_block`'s bug-check. -/
theorem BlockBuilt.page_eq (h : BlockBuilt E m a b) :
    b.begin &&& ~~~riscvPageOffset = b.end &&& ~~~riscvPageOffset := by
  rw [and_not_riscvPageOffset_eq_iff, h.pageNum_end, h.begin_eq]

theorem BlockBuilt.begin_le_end (h : BlockBuilt E m a b) : b.begin ≤ b.end := by
  rw [BitVec.le_def, h.begin_eq, h.toNat_end.1]
  omega

/-- A block stored under key `k` of the index: what `build_exec` guarantees of it. -/
structure BlockOk (E : Env P) (k : U64) (b : RiscvBlock P) : Prop where
  key : b.begin >>> riscvPageShift = k
  built : ∃ m, BlockBuilt E m b.begin b

/-- The representation invariant of the index `instr`: every block is stored under its page
    and was built from its `begin`, and no two blocks of one page share a `begin`. -/
structure IndexInv (E : Env P) (idx : U64 → List (RiscvBlock P)) : Prop where
  blockOk : ∀ k, ∀ b ∈ idx k, BlockOk E k b
  nodup : ∀ k, ((idx k).map RiscvBlock.begin).Nodup

theorem indexInv_empty : IndexInv E (fun _ => ([] : List (RiscvBlock P))) :=
  ⟨by simp, by simp⟩

/-- Appending a block built from `a` under `a`'s page keeps the invariant when the page has no
    block beginning at `a`. -/
theorem IndexInv.insert {idx : U64 → List (RiscvBlock P)} (hI : IndexInv E idx)
    (hb : BlockBuilt E m a b) (hnew : ∀ b' ∈ idx (a >>> riscvPageShift), b'.begin ≠ a) :
    IndexInv E (Function.update idx (a >>> riscvPageShift)
      (idx (a >>> riscvPageShift) ++ [b])) := by
  constructor
  · intro k b' hb'
    by_cases hk : k = a >>> riscvPageShift
    · subst hk
      rw [Function.update_same, List.mem_append, List.mem_singleton] at hb'
      rcases hb' with hb' | rfl
      · exact hI.blockOk _ b' hb'
      · exact ⟨by rw [hb.begin_eq], m, hb.begin_eq ▸ hb⟩
    · rw [Function.update_noteq hk] at hb'
      exact hI.blockOk k b' hb'
  · intro k
    by_cases hk : k = a >>> riscvPageShift
    · subst hk
      rw [Function.update_same, List.map_append, List.nodup_append]
      refine ⟨hI.nodup _, List.nodup_singleton _, ?_⟩
      simp only [List.map_cons, List.map_nil, List.disjoint_singleton, List.mem_map, hb.begin_eq,
        not_exists, not_and]
      exact hnew
    · rw [Function.update_noteq hk]
      exact hI.nodup k

end Index

namespace RiscvInt

variable {E : Env P} {s s' : RiscvInt P} {a : U64} {b : RiscvBlock P}

theorem checkBlock_eq_some_none_iff :
    checkBlock s a = some none ↔ ∀ b ∈ s.instr (a >>> riscvPageShift), b.begin ≠ a := by
  unfold checkBlock
  split
  · rename_i hf
    simpa using hf
  · rename_i i hf
    have := List.find?_some hf
    simp only [beq_iff_eq] at this
    split <;> simp only [reduceCtorEq, Option.some.injEq, false_iff, not_forall, not_not]
    all_goals exact ⟨i, List.mem_of_find?_eq_some hf, this⟩

/-- `check_block` reads only the index. -/
theorem checkBlock_congr (h : s'.instr = s.instr) (a : U64) : s'.checkBlock a = s.checkBlock a := by
  simp only [checkBlock, h]

/-- `check_block` returns the first block of the page that begins at `a` once it passes the
    bug-check. -/
theorem checkBlock_of_find {b : RiscvBlock P}
    (hf : (s.instr (a >>> riscvPageShift)).find? (fun i => i.begin == a) = some b)
    (hpage : b.begin &&& ~~~riscvPageOffset = b.end &&& ~~~riscvPageOffset) :
    checkBlock s a = some (some b) := by
  simp [checkBlock, hf, hpage]

theorem checkBlock_ne_none (hI : IndexInv E s.instr) : checkBlock s a ≠ none := by
  cases hf : (s.instr (a >>> riscvPageShift)).find? (fun i => i.begin == a) with
  | none => simp [checkBlock, hf]
  | some i =>
    obtain ⟨-, m, hb⟩ := hI.blockOk _ i (List.mem_of_find?_eq_some hf)
    simp [checkBlock_of_find hf hb.page_eq]

theorem checkBlock_eq_some_some_iff (hI : IndexInv E s.instr) :
    checkBlock s a = some (some b) ↔ b ∈ s.instr (a >>> riscvPageShift) ∧ b.begin = a := by
  constructor
  · intro h
    unfold checkBlock at h
    split at h
    · cases h
    · rename_i i hf
      split at h
      · cases h
      · cases h
        exact ⟨List.mem_of_find?_eq_some hf, by simpa using List.find?_some hf⟩
  · rintro ⟨hb, rfl⟩
    obtain ⟨i, hf⟩ : ∃ i, (s.instr (b.begin >>> riscvPageShift)).find?
        (fun i => i.begin == b.begin) = some i :=
      Option.isSome_iff_exists.mp (List.find?_isSome.mpr ⟨b, hb, by simp⟩)
    have hi := List.mem_of_find?_eq_some hf
    have hib : i = b := List.inj_on_of_nodup_map (hI.nodup _) hi hb
      (by simpa using List.find?_some hf)
    subst hib
    obtain ⟨-, m, hbuilt⟩ := hI.blockOk _ i hi
    exact checkBlock_of_find hf hbuilt.page_eq

/-- `build_exec` after a miss of `check_block` keeps the invariant. -/
theorem buildExec_indexInv {r : Except Trap Unit} (hI : IndexInv E s.instr)
    (hmiss : checkBlock s a = some none) (h : buildExec E s a = some (s', r)) :
    IndexInv E s'.instr := by
  obtain ⟨-, -, ⟨-, hi⟩ | ⟨-, b, hb, hi⟩⟩ := buildExec_spec E h
  · rwa [hi]
  · rw [hi]
    exact hI.insert hb (checkBlock_eq_some_none_iff.mp hmiss)

/-- Once `build_exec a` has returned `Ok`, `check_block a` finds a block beginning at `a`. -/
theorem checkBlock_buildExec (hI : IndexInv E s.instr) (h : buildExec E s a = some (s', .ok ())) :
    ∃ b, checkBlock s' a = some (some b) ∧ b.begin = a := by
  obtain ⟨-, -, ⟨⟨t, ht⟩, -⟩ | ⟨-, b, hb, hi⟩⟩ := buildExec_spec E h
  · cases ht
  obtain ⟨i, hf⟩ : ∃ i, (s'.instr (a >>> riscvPageShift)).find? (fun i => i.begin == a) = some i :=
    Option.isSome_iff_exists.mp
      (List.find?_isSome.mpr ⟨b, by simp [hi], by simp [hb.begin_eq]⟩)
  have hmem := List.mem_of_find?_eq_some hf
  refine ⟨i, checkBlock_of_find hf ?_, by simpa using List.find?_some hf⟩
  rw [hi, Function.update_same, List.mem_append, List.mem_singleton] at hmem
  rcases hmem with hmem | rfl
  · obtain ⟨-, m, hbi⟩ := hI.blockOk _ i hmem
    exact hbi.page_eq
  · exact hb.page_eq

/-! ## §5 When the builder succeeds -/

end RiscvInt

/-- Every halfword of `m` can be fetched. -/
def Fetchable (E : Env P) (m : P.Mem) : Prop := ∀ a, ∃ w, E.read16 m a = .ok w

/-- Both decoder tables accept every encoding: `illegal_instr` is never called. -/
def Env.DecodesAll (E : Env P) : Prop :=
  (∀ lo, (E.decoder16 lo).isSome) ∧ ∀ w, (E.decoder w).isSome

/-- On fetchable memory with total decoders the memory decodes from every address, whatever the
    bytes left. -/
theorem Decodes.exists_of_fetchable {E : Env P} {m : P.Mem} (hd : E.DecodesAll)
    (hf : Fetchable E m) (a : U64) (k : Nat) : ∃ l, Decodes E m a k l := by
  induction k using Nat.strong_induction_on generalizing a with
  | _ k ih =>
    have hnext : ∀ {c d}, DecodesAt E m a k c d → ∃ l, Decodes E m a k l := fun {c d} hat => by
      cases hs : d.stopsTranslating
      · have hle := hat.two_le
        obtain ⟨l, hl⟩ := ih (k - (incOf c).toNat) (by cases c <;> simp <;> omega) (a + incOf c)
        exact ⟨_, .cons hat hs hl⟩
      · exact ⟨_, .last hat hs⟩
    by_cases hk : k < 2
    · exact ⟨[], .done (.inl hk)⟩
    obtain ⟨lo, hlo⟩ := hf a
    by_cases h3 : lo &&& 3 = 3
    · by_cases hk4 : k < 4
      · exact ⟨[], .done (.inr ⟨lo, hlo, h3, hk4⟩)⟩
      obtain ⟨hi, hhi⟩ := hf (a + 2)
      obtain ⟨d, hd32⟩ := Option.isSome_iff_exists.mp
        (hd.2 ((hi.zeroExtend 32 <<< 16) ||| lo.zeroExtend 32))
      exact hnext (c := false) ⟨lo, hlo, by
        simp only [Bool.false_eq_true, if_false]; exact ⟨h3, by omega, hi, hhi, hd32⟩⟩
    · obtain ⟨d, hd16⟩ := Option.isSome_iff_exists.mp (hd.1 lo)
      exact hnext (c := true) ⟨lo, hlo, by simp only [if_true]; exact ⟨h3, by omega, hd16⟩⟩

namespace RiscvInt

section Progress

variable {E : Env P}

/-- Where the memory decodes from `iaddr` with `k` bytes left, the loop returns `Ok`, as long as
    `iaddr + k` does not pass `2^64 - 1`. -/
theorem buildLoop_ok {m : P.Mem} {iaddr : U64} {k : Nat} {l : List (RiscvInstr P)}
    (hdec : Decodes E m iaddr k l) {s : RiscvInt P} (hm : s.memsource = m)
    (hc : s.cacheEnabled = true) (hst : s.stopTranslating = false)
    (hroom : iaddr.toNat + k < 2 ^ 64) (incBy : U64) :
    ∃ s' r, buildLoop E s iaddr k incBy = some (s', .ok r) := by
  induction hdec generalizing s incBy with
  | @done a k h =>
    rw [buildLoop]
    by_cases hk : (k : Int) ≥ 2
    · obtain ⟨lo, hlo, h3, hk4⟩ := h.resolve_left (by omega)
      rw [if_pos hk, buildPass, hm, hlo]
      dsimp only
      rw [if_neg (not_not.mpr h3), if_pos (by omega)]
      exact ⟨_, _, rfl⟩
    · rw [if_neg hk]
      exact ⟨_, _, rfl⟩
  | @last a k c d hat hs =>
    obtain ⟨s', -, -, -, h⟩ := buildLoop_of_decodesAt E incBy hc
      (show DecodesAt E s.memsource a (k : Int).toNat c d by simpa [hm] using hat)
    rw [h, checkedAdd_of_lt (by have := hat.le; omega), Option.some_bind,
      if_pos (by rw [hst, hs]; rfl)]
    exact ⟨_, _, rfl⟩
  | @cons a k c d rest hat hs hrest ih =>
    have hle := hat.le
    have hadd : a.toNat + (incOf c).toNat < 2 ^ 64 := by omega
    obtain ⟨s', hm', hc', hst', h⟩ := buildLoop_of_decodesAt E incBy hc
      (show DecodesAt E s.memsource a (k : Int).toNat c d by simpa [hm] using hat)
    rw [h, checkedAdd_of_lt hadd, Option.some_bind, if_neg (by rw [hst, hs]; decide),
      show (k : Int) - (if c = true then 2 else 4) = ((k - (incOf c).toNat : Nat) : Int) by
        cases c <;> simp at hle ⊢ <;> omega]
    exact ih (hm'.trans hm) (hc'.trans hc) (by rw [hst', hst, hs]; rfl)
      (by rw [toNat_add_of_lt hadd]; omega) _

/-- With the cache on, `build_exec` returns `Ok` at a start outside the last page of the address
    space from which the rest of its page decodes. -/
theorem buildExec_ok_of_decodes {s : RiscvInt P} (hc : s.cacheEnabled = true) {a : U64}
    {l : List (RiscvInstr P)} (hdec : Decodes E s.memsource a (4096 - pageOff a) l)
    (hpage : pageNum a < 2 ^ 52 - 1) : ∃ s', buildExec E s a = some (s', .ok ()) := by
  have hroom : a.toNat + (4096 - pageOff a) < 2 ^ 64 := by
    have := Nat.div_add_mod a.toNat 4096
    simp only [pageNum, pageOff] at hpage ⊢
    omega
  obtain ⟨s', ⟨iaddr, inc⟩, h⟩ := buildLoop_ok hdec
    (s := { s with stopTranslating := false,
                   currentBlock := { s.currentBlock with begin := a, instrs := [] } })
    rfl hc rfl hroom 0
  unfold buildExec
  dsimp only
  rw [if_pos hc, toNat_riscvPageSize_sub, h]
  exact ⟨_, rfl⟩

/-- With the cache on, `build_exec` over fetchable memory with total decoders returns `Ok` for a
    start outside the last page of the address space. -/
theorem buildExec_ok (hd : E.DecodesAll) {s : RiscvInt P} (hc : s.cacheEnabled = true)
    (hf : Fetchable E s.memsource) {a : U64} (hpage : pageNum a < 2 ^ 52 - 1) :
    ∃ s', buildExec E s a = some (s', .ok ()) :=
  have ⟨_, hdec⟩ := Decodes.exists_of_fetchable hd hf a (4096 - pageOff a)
  buildExec_ok_of_decodes hc hdec hpage

end Progress

end RiscvInt

end TurboRiscv
