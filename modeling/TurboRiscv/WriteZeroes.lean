import TurboRiscv.Common

/-!
# Zero-Filling a File Range

`file_write_zeroes_at` of `system/base/src/sys/unix/write_zeroes.rs`: write `length` zero bytes
to a file from `offset`, by `fallocate(ZeroRange)` when the file system supports it and
otherwise by a loop of `write_at` calls from a buffer of `min(length, 0x10000)` zero bytes.

## The file

The file is its `write_at`: the `n`-th call, given a position and a slice of the buffer, returns
how many bytes it wrote or an I/O error. A function of the call's index, position and slice
covers every sequence of results a file may give. Whether `fallocate` succeeded is an input.

## Fuel

The loop need not terminate, so it runs on fuel: `none` means it has not returned within `fuel`
iterations. A run also returns the `write_at` calls it made, as the file saw them.

## Main results

- `writeLoop_spec`: what a run of the loop that returns `Ok` did, from any point of it;
- `Tiles.covers_iff`, `Tiles.pairwise_disjoint`: ranges that tile an interval cover it exactly
  and do not overlap;
- `writeLoop_terminates`: with no `Ok(0)` answer to a non-empty slice, the loop returns;
- `writeLoop_of_zero_writes`: a file that answers `Ok(0)` keeps it running forever;
- `fileWriteZeroesAt_correct`: when `fallocate` fails and the file makes progress, the function
  returns, and on `Ok` its calls wrote zeros over exactly `[offset, offset + length)`.
-/

namespace TurboRiscv

variable {ε : Type}

/-! ## §1 The code -/

/-- A `write_at` call as the file sees it: the position, the slice of the buffer, the result. -/
structure WriteCall (ε : Type) where
  pos : U64
  data : List UInt8
  result : Except ε Nat

/-- The `while nwritten < length` loop of `file_write_zeroes_at` over the buffer `buf`, from the
    `n`-th `write_at` call with `nwritten` bytes written, for at most `fuel` iterations: the
    result and the calls made. `buf_size` is `buf.len()`. -/
def writeLoop (writeAt : Nat → U64 → List UInt8 → Except ε Nat) (offset : U64) (length : Nat)
    (buf : List UInt8) : (fuel n nwritten : Nat) → Option (Except ε Nat × List (WriteCall ε))
  | 0, _, _ => none
  | fuel + 1, n, nwritten =>
    if nwritten < length then
      let remaining := length - nwritten
      let writeSize := min remaining buf.length
      let pos := offset + BitVec.ofNat 64 nwritten
      let data := buf.take writeSize
      match writeAt n pos data with
      | .error e => some (.error e, [⟨pos, data, .error e⟩])
      | .ok k => (writeLoop writeAt offset length buf fuel (n + 1) (nwritten + k)).map
          fun r => (r.1, ⟨pos, data, .ok k⟩ :: r.2)
    else some (.ok length, [])

/-- `file_write_zeroes_at`; `fallocateOk` is whether `fallocate(ZeroRange)` succeeded. -/
def fileWriteZeroesAt (fallocateOk : Bool) (writeAt : Nat → U64 → List UInt8 → Except ε Nat)
    (offset : U64) (length fuel : Nat) : Option (Except ε Nat × List (WriteCall ε)) :=
  if fallocateOk then some (.ok length, [])
  else
    let bufSize := min length 0x10000
    writeLoop writeAt offset length (List.replicate bufSize 0) fuel 0 0

/-! ## §2 Tilings -/

/-- Byte `x` is one that the call wrote: it returned `Ok(k)` and `x ∈ [pos, pos + k)`. -/
def WriteCall.Covers (c : WriteCall ε) (x : Nat) : Prop :=
  ∃ k, c.result = .ok k ∧ c.pos.toNat ≤ x ∧ x < c.pos.toNat + k

/-- The calls all succeeded and wrote, one after the other, ranges that tile `[lo, hi)`: each
    starts where the previous one stopped, and the last stops at `hi`. -/
inductive Tiles : Nat → Nat → List (WriteCall ε) → Prop
  | nil (lo : Nat) : Tiles lo lo []
  | cons {lo hi k : Nat} {c : WriteCall ε} {rest : List (WriteCall ε)} :
      c.pos.toNat = lo → c.result = .ok k → Tiles (lo + k) hi rest → Tiles lo hi (c :: rest)

section Tiles

variable {lo hi : Nat} {calls : List (WriteCall ε)}

theorem Tiles.le (h : Tiles lo hi calls) : lo ≤ hi := by
  induction h with
  | nil => exact le_rfl
  | cons _ _ _ ih => omega

/-- A call of a tiling writes inside the tiled interval. -/
theorem Tiles.bounds_of_covers (h : Tiles lo hi calls) {c : WriteCall ε} (hc : c ∈ calls)
    {x : Nat} (hx : c.Covers x) : lo ≤ x ∧ x < hi := by
  induction h with
  | nil => cases hc
  | cons hpos hres hrest ih =>
    rcases List.mem_cons.1 hc with rfl | hc
    · obtain ⟨k', hk', h1, h2⟩ := hx
      cases hres.symm.trans hk'
      have := hrest.le
      omega
    · have := ih hc
      omega

/-- Ranges that tile `[lo, hi)` cover it exactly. -/
theorem Tiles.covers_iff (h : Tiles lo hi calls) (x : Nat) :
    (lo ≤ x ∧ x < hi) ↔ ∃ c ∈ calls, c.Covers x := by
  refine ⟨fun hx => ?_, fun ⟨c, hc, hcx⟩ => h.bounds_of_covers hc hcx⟩
  induction h with
  | nil => omega
  | @cons lo hi k c rest hpos hres hrest ih =>
    by_cases hk : x < lo + k
    · exact ⟨c, List.mem_cons_self _ _, k, hres, by omega, by omega⟩
    · obtain ⟨d, hd, hdx⟩ := ih (by omega)
      exact ⟨d, List.mem_cons_of_mem _ hd, hdx⟩

/-- No byte is written by two calls of a tiling. -/
theorem Tiles.pairwise_disjoint (h : Tiles lo hi calls) :
    calls.Pairwise fun c d => ∀ x, c.Covers x → ¬d.Covers x := by
  induction h with
  | nil => exact List.Pairwise.nil
  | cons hpos hres hrest ih =>
    refine List.Pairwise.cons (fun d hd x hcx hdx => ?_) ih
    obtain ⟨k', hk', -, h2⟩ := hcx
    cases hres.symm.trans hk'
    have := (hrest.bounds_of_covers hd hdx).1
    omega

end Tiles

/-! ## §3 The loop -/

section Loop

variable {writeAt : Nat → U64 → List UInt8 → Except ε Nat} {offset : U64} {length : Nat}
  {buf : List UInt8}

/-- Below the end of the range, `offset + nwritten as u64` does not wrap. -/
theorem toNat_writePos {nwritten : Nat} (h : offset.toNat + nwritten < 2 ^ 64) :
    (offset + BitVec.ofNat 64 nwritten).toNat = offset.toNat + nwritten := by
  rw [BitVec.toNat_add, BitVec.toNat_ofNat, Nat.mod_eq_of_lt (by omega : nwritten < 2 ^ 64),
    Nat.mod_eq_of_lt h]

/-- **What a finished run did.** For a file whose `write_at` writes at most the slice it is
    given, a buffer of zeros and `offset + length ≤ 2^64`: a run from `nwritten ≤ length` that
    returns `Ok(m)` has `m = length`, its calls tile `[offset + nwritten, offset + length)`, and
    each call was given zeros, no more than the buffer and no more than the remaining length. -/
theorem writeLoop_spec (hw : ∀ n pos data k, writeAt n pos data = .ok k → k ≤ data.length)
    (hz : ∀ b ∈ buf, b = 0) (hlen : offset.toNat + length ≤ 2 ^ 64) :
    ∀ {fuel n nwritten m} {calls : List (WriteCall ε)}, nwritten ≤ length →
      writeLoop writeAt offset length buf fuel n nwritten = some (.ok m, calls) →
      m = length ∧ Tiles (offset.toNat + nwritten) (offset.toNat + length) calls ∧
      ∀ c ∈ calls, (∀ b ∈ c.data, b = 0) ∧ c.data.length ≤ buf.length ∧
        c.pos.toNat + c.data.length ≤ offset.toNat + length := by
  intro fuel
  induction fuel with
  | zero => intro _ _ _ _ _ h; cases h
  | succ fuel ih =>
    intro n nwritten m calls hle h
    by_cases hlt : nwritten < length
    · rw [writeLoop, if_pos hlt] at h
      dsimp only at h
      split at h
      · cases h
      · rename_i k hk
        obtain ⟨⟨r, calls'⟩, hrec, heq⟩ := Option.map_eq_some'.1 h
        simp only [Prod.mk.injEq] at heq
        obtain ⟨rfl, rfl⟩ := heq
        have hk' := hw _ _ _ _ hk
        simp only [List.length_take] at hk'
        obtain ⟨rfl, ht, hc⟩ := ih (by omega) hrec
        have hpos := toNat_writePos (by omega : offset.toNat + nwritten < 2 ^ 64)
        refine ⟨rfl, .cons hpos rfl (by rwa [Nat.add_assoc]), ?_⟩
        rintro c (_ | ⟨_, hc'⟩)
        · refine ⟨fun b hb => hz b (List.mem_of_mem_take hb), ?_, ?_⟩ <;>
            simp only [List.length_take, hpos] <;> omega
        · exact hc c hc'
    · rw [writeLoop, if_neg hlt] at h
      cases h
      obtain rfl : nwritten = length := by omega
      exact ⟨rfl, .nil _, by simp⟩

/-- **The loop returns when the file makes progress.** If no `write_at` call answers `Ok(0)` to a
    non-empty slice, a run from `nwritten` with more than `length - nwritten` iterations of fuel
    returns. -/
theorem writeLoop_terminates (hw0 : ∀ n pos data, data ≠ [] → writeAt n pos data ≠ .ok 0)
    (hb : 0 < length → buf ≠ []) :
    ∀ {fuel n nwritten}, length - nwritten < fuel →
      ∃ r, writeLoop writeAt offset length buf fuel n nwritten = some r := by
  intro fuel
  induction fuel with
  | zero => intro _ _ h; omega
  | succ fuel ih =>
    intro n nwritten hfuel
    by_cases hlt : nwritten < length
    · rw [writeLoop, if_pos hlt]
      dsimp only
      have hne : buf.take (min (length - nwritten) buf.length) ≠ [] := by
        have hbuf := hb (by omega)
        have := List.length_pos.2 hbuf
        simp only [ne_eq, List.take_eq_nil_iff, not_or]
        exact ⟨by omega, hbuf⟩
      split
      · exact ⟨_, rfl⟩
      · rename_i k hk
        have hk0 : k ≠ 0 := by rintro rfl; exact hw0 _ _ _ hne hk
        obtain ⟨r, hr⟩ := @ih (n + 1) (nwritten + k) (by omega)
        exact ⟨_, by rw [hr]; rfl⟩
    · exact ⟨_, by rw [writeLoop, if_neg hlt]⟩

/-- **A file that answers `Ok(0)` stalls the loop.** If every `write_at` call returns `Ok(0)`,
    a run from `nwritten < length` never returns, whatever the fuel. -/
theorem writeLoop_of_zero_writes (h0 : ∀ n pos data, writeAt n pos data = .ok 0)
    {nwritten : Nat} (hlt : nwritten < length) :
    ∀ fuel n, writeLoop writeAt offset length buf fuel n nwritten = none := by
  intro fuel
  induction fuel with
  | zero => intro _; rfl
  | succ fuel ih =>
    intro n
    rw [writeLoop, if_pos hlt]
    simp only [h0, Nat.add_zero, ih, Option.map_none']

end Loop

/-! ## §4 `file_write_zeroes_at` -/

/-- **The fallback path when the file makes progress.** For every offset and length with
    `offset + length ≤ 2^64` and every file whose `write_at` writes at most the slice it is
    given, when `fallocate` fails: if no call answers `Ok(0)` to a non-empty slice, the function
    returns within `length + 1` iterations; and whenever it returns `Ok(m)`, `m = length` and its
    calls wrote zeros to ranges that follow one another, do not overlap and cover exactly
    `[offset, offset + length)`, none asked for more than `0x10000` bytes or the remaining
    length. -/
theorem fileWriteZeroesAt_correct (writeAt : Nat → U64 → List UInt8 → Except ε Nat)
    (offset : U64) (length : Nat) (hlen : offset.toNat + length ≤ 2 ^ 64)
    (hw : ∀ n pos data k, writeAt n pos data = .ok k → k ≤ data.length) :
    ((∀ n pos data, data ≠ [] → writeAt n pos data ≠ .ok 0) →
      ∃ r, fileWriteZeroesAt false writeAt offset length (length + 1) = some r) ∧
    ∀ fuel m calls, fileWriteZeroesAt false writeAt offset length fuel = some (.ok m, calls) →
      m = length ∧ Tiles offset.toNat (offset.toNat + length) calls ∧
      (∀ x, (offset.toNat ≤ x ∧ x < offset.toNat + length) ↔ ∃ c ∈ calls, c.Covers x) ∧
      calls.Pairwise (fun c d => ∀ x, c.Covers x → ¬d.Covers x) ∧
      ∀ c ∈ calls, (∀ b ∈ c.data, b = 0) ∧ c.data.length ≤ 0x10000 ∧
        c.pos.toNat + c.data.length ≤ offset.toNat + length := by
  refine ⟨fun hw0 => writeLoop_terminates hw0 (fun h => ?_) (by omega),
    fun fuel m calls h => ?_⟩
  · simp only [ne_eq, List.replicate_eq_nil_iff]
    omega
  · obtain ⟨rfl, ht, hc⟩ := writeLoop_spec hw (fun b hb => List.eq_of_mem_replicate hb) hlen
      (Nat.zero_le _) h
    rw [Nat.add_zero] at ht
    refine ⟨rfl, ht, ht.covers_iff, ht.pairwise_disjoint, fun c hc' => ?_⟩
    obtain ⟨h1, h2, h3⟩ := hc c hc'
    simp only [List.length_replicate] at h2
    exact ⟨h1, by omega, h3⟩

/-- A file that writes every slice in full. -/
def fullWrites : Nat → U64 → List UInt8 → Except Unit Nat := fun _ _ data => .ok data.length

theorem fileWriteZeroesAt_correct_fullWrites :
    (0 : U64).toNat + 0x20000 ≤ 2 ^ 64 ∧
    (∀ n pos data k, fullWrites n pos data = .ok k → k ≤ data.length) ∧
    ((∀ n pos data, data ≠ [] → fullWrites n pos data ≠ .ok 0) →
      ∃ r, fileWriteZeroesAt false fullWrites 0 0x20000 (0x20000 + 1) = some r) ∧
    ∀ fuel m calls, fileWriteZeroesAt false fullWrites 0 0x20000 fuel = some (.ok m, calls) →
      m = 0x20000 ∧ Tiles (0 : U64).toNat ((0 : U64).toNat + 0x20000) calls ∧
      (∀ x, ((0 : U64).toNat ≤ x ∧ x < (0 : U64).toNat + 0x20000) ↔ ∃ c ∈ calls, c.Covers x) ∧
      calls.Pairwise (fun c d => ∀ x, c.Covers x → ¬d.Covers x) ∧
      ∀ c ∈ calls, (∀ b ∈ c.data, b = 0) ∧ c.data.length ≤ 0x10000 ∧
        c.pos.toNat + c.data.length ≤ (0 : U64).toNat + 0x20000 :=
  have hw : ∀ n pos data k, fullWrites n pos data = .ok k → k ≤ data.length :=
    fun _ _ _ _ h => by cases h; exact le_rfl
  ⟨by decide, hw, fileWriteZeroesAt_correct fullWrites 0 0x20000 (by decide) hw⟩

/-- With `fallocate` failing and a file that answers `Ok(0)`, `file_write_zeroes_at(offset, 1)`
    never returns, for every offset. -/
theorem writeZeroes_spins_on_zero_write (offset : U64) (fuel : Nat) :
    fileWriteZeroesAt false (fun _ _ _ => (.ok 0 : Except ε Nat)) offset 1 fuel = none :=
  writeLoop_of_zero_writes (fun _ _ _ => rfl) (by decide) fuel 0

end TurboRiscv
