import TurboRiscv.Common

/-!
# Bounds Checks of a Memory Mapping

`validate_includes_range`, `<dyn MappedRegion>::msync` and `MemoryMapping::range_end` of
`system/base/src/sys/windows/mmap.rs`: the checks that keep a byte range
`[offset, offset + count)` inside a mapping of `size` bytes before the system is asked to touch
it.

## The system

`usize` is 64 bits wide (`U64`); `checked_add` is `checkedAdd`, `None` when the sum passes
`2^64 - 1`.
`FlushViewOfFile` is a function of the address and the length it is given, `0` on failure, and
`last` is the code `Error::last()` reads after it. `msync` returns its result together with the
flush it asked for, if any.

## Main results

- `rangeChecks_exact`: both checks accept exactly the ranges that end inside the mapping in
  unbounded arithmetic, so no range that wraps past `2^64` is accepted, and `range_end` returns
  that end;
- `msync_spec`: `msync` asks for a flush exactly when the range is inside the region, the flush
  covers only bytes of the region, and the result is `Ok` exactly when the flush succeeded.
-/

namespace TurboRiscv

namespace Mmap

/-! ## §1 The code -/

/-- The variants of `mmap::Error` these functions return; `SystemCallFailed` carries the code
    of `super::Error::last()`. -/
inductive Error
  | invalidAddress
  | systemCallFailed (errno : Nat)
  deriving DecidableEq, Repr

/-- `validate_includes_range`. -/
def validateIncludesRange (mmapSize offset rangeSize : U64) : Except Error Unit :=
  match checkedAdd offset rangeSize with
  | none => .error .invalidAddress
  | some endOffset => if endOffset ≤ mmapSize then .ok () else .error .invalidAddress

/-- A `MappedRegion`: where it starts, `as_ptr()`, and its length, `size()`. -/
structure MappedRegion where
  asPtr : U64
  size : U64

/-- `<dyn MappedRegion>::msync`: the result, and the `FlushViewOfFile` call made, if any. -/
def MappedRegion.msync (r : MappedRegion) (flushViewOfFile : U64 → U64 → Nat) (last : Nat)
    (offset size : U64) : Except Error Unit × Option (U64 × U64) :=
  match validateIncludesRange r.size offset size with
  | .error e => (.error e, none)
  | .ok () =>
    let addr := r.asPtr + offset
    let ret : Int := if flushViewOfFile addr size = 0 then -1 else 0
    (if ret ≠ -1 then .ok () else .error (.systemCallFailed last), some (addr, size))

/-- `MemoryMapping`: a mapping of `size` bytes at `addr`. -/
structure MemoryMapping where
  addr : U64
  size : U64

/-- `impl MappedRegion for MemoryMapping`. -/
def MemoryMapping.toMappedRegion (m : MemoryMapping) : MappedRegion := ⟨m.addr, m.size⟩

/-- `MemoryMapping::range_end`: check that `offset + count` is valid and return the sum. -/
def MemoryMapping.rangeEnd (m : MemoryMapping) (offset count : U64) : Except Error U64 :=
  match checkedAdd offset count with
  | none => .error .invalidAddress
  | some memEnd =>
    if memEnd > m.toMappedRegion.size then .error .invalidAddress else .ok memEnd

/-! ## §2 The checks in unbounded arithmetic -/

theorem validateIncludesRange_eq (mmapSize offset rangeSize : U64) :
    validateIncludesRange mmapSize offset rangeSize =
      if offset.toNat + rangeSize.toNat ≤ mmapSize.toNat then .ok () else .error .invalidAddress := by
  have hs := mmapSize.isLt
  unfold validateIncludesRange checkedAdd
  by_cases h : offset.toNat + rangeSize.toNat < 2 ^ 64
  · simp only [if_pos h, BitVec.le_def, toNat_add_of_lt h]
  · rw [if_neg h, if_neg (by omega)]

theorem rangeEnd_eq (m : MemoryMapping) (offset count : U64) :
    m.rangeEnd offset count =
      if offset.toNat + count.toNat ≤ m.size.toNat then .ok (offset + count)
      else .error .invalidAddress := by
  have hs := m.size.isLt
  unfold MemoryMapping.rangeEnd checkedAdd MemoryMapping.toMappedRegion
  by_cases h : offset.toNat + count.toNat < 2 ^ 64
  · simp only [if_pos h, GT.gt, BitVec.lt_def, toNat_add_of_lt h]
    split_ifs <;> first | rfl | omega
  · rw [if_neg h, if_neg (by omega)]

/-- **The range checks are exact.** For every mapping, offset and count, with no assumption on
    their size: `validate_includes_range` and `range_end` accept exactly the ranges
    `[offset, offset + count)` that end inside the mapping in unbounded arithmetic, and reject
    every other with `InvalidAddress`, so a range whose end wraps past `2^64` is never accepted;
    and `range_end` returns that end, which does not wrap. -/
theorem rangeChecks_exact (m : MemoryMapping) (offset count : U64) :
    validateIncludesRange m.size offset count =
      (if offset.toNat + count.toNat ≤ m.size.toNat then .ok () else .error .invalidAddress) ∧
    m.rangeEnd offset count =
      (if offset.toNat + count.toNat ≤ m.size.toNat then .ok (offset + count)
        else .error .invalidAddress) ∧
    (offset.toNat + count.toNat ≤ m.size.toNat →
      (offset + count).toNat = offset.toNat + count.toNat) :=
  ⟨validateIncludesRange_eq _ _ _, rangeEnd_eq _ _ _,
    fun h => toNat_add_of_lt (Nat.lt_of_le_of_lt h m.size.isLt)⟩

/-! ## §3 `msync` -/

theorem msync_eq (r : MappedRegion) (flushViewOfFile : U64 → U64 → Nat) (last : Nat)
    (offset size : U64) :
    r.msync flushViewOfFile last offset size =
      if offset.toNat + size.toNat ≤ r.size.toNat then
        (if flushViewOfFile (r.asPtr + offset) size = 0 then .error (.systemCallFailed last)
          else .ok (), some (r.asPtr + offset, size))
      else (.error .invalidAddress, none) := by
  unfold MappedRegion.msync
  rw [validateIncludesRange_eq]
  split_ifs <;> simp_all

/-- **`msync` flushes only inside its region.** For every region, system and range: `msync`
    calls `FlushViewOfFile` exactly when `[offset, offset + size)` lies inside the region, on
    `size` bytes from `as_ptr() + offset`, and returns `Ok` exactly when that call succeeded and
    `SystemCallFailed(last)` when it failed; and when the region does not wrap past `2^64`, the
    bytes flushed are bytes of the region. -/
theorem msync_spec (r : MappedRegion) (flushViewOfFile : U64 → U64 → Nat) (last : Nat)
    (offset size : U64) :
    r.msync flushViewOfFile last offset size =
      (if offset.toNat + size.toNat ≤ r.size.toNat then
        (if flushViewOfFile (r.asPtr + offset) size = 0 then .error (.systemCallFailed last)
          else .ok (), some (r.asPtr + offset, size))
      else (.error .invalidAddress, none)) ∧
    ∀ a k, (r.msync flushViewOfFile last offset size).2 = some (a, k) →
      r.asPtr.toNat + r.size.toNat < 2 ^ 64 →
      r.asPtr.toNat ≤ a.toNat ∧ a.toNat + k.toNat ≤ r.asPtr.toNat + r.size.toNat := by
  refine ⟨msync_eq .., fun a k hc hr => ?_⟩
  by_cases hin : offset.toNat + size.toNat ≤ r.size.toNat
  · rw [msync_eq, if_pos hin] at hc
    obtain ⟨rfl, rfl⟩ := Prod.mk.inj (Option.some.inj hc)
    rw [toNat_add_of_lt (by omega)]
    omega
  · rw [msync_eq, if_neg hin] at hc
    cases hc

end Mmap

end TurboRiscv
