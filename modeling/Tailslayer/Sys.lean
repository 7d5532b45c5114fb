import Tailslayer.Layout

/-!
# System calls

Source: `src/sys.rs`, its Linux branches.

`Host` is what the operating system answers.  The functions below are the
crate's own code around those answers.
-/

namespace Tailslayer

structure Host where
  /-- `sched_setaffinity(0, _, set)`, the set as words of 64 bits -/
  schedSetaffinity : List Nat → Except IoError Unit
  /-- the `call`-th `mmap`, of `bytes` in hugepages of `2 ^ hugeShift` bytes: the address -/
  mmap : (call bytes hugeShift : Nat) → Except IoError Nat
  /-- `File::open("/proc/self/pagemap")` -/
  openPagemap : Except IoError Unit
  /-- `read_at` of 8 bytes at an offset: how many were read, and their `u64` -/
  readPagemap : (offset : Nat) → Except IoError (Nat × Nat)

/-- A host that grants every call, maps at multiples of `2 ^ 40` and has identical physical
addresses: the concrete runs below take it. -/
def grantingHost : Host where
  schedSetaffinity := fun _ => .ok ()
  mmap := fun call bytes _ =>
    if bytes = 0 then .error (.osError 22) else .ok ((call + 1) <<< 40)
  openPagemap := .ok ()
  readPagemap := fun offset => .ok (8, 1 <<< 63 ||| offset / 8)

/-! ## Threads -/

/-- A `JoinHandle<()>`: three words. -/
def joinHandleBytes : Nat := 24

/-! ## CPU pinning -/

/-- `CPU_SET` with its bounds-checked index.  `none` is its panic, which aborts the
whole process: `CPU_SET` is an `extern "C"` function, and nothing unwinds out of one. -/
def cpuSet (core : Nat) (bits : List Nat) : Option (List Nat) :=
  match bits[core / 64]? with
  | none => none
  | some word => some (bits.set (core / 64) (word ||| 1 <<< (core % 64)))

theorem cpuSet_eq_none_iff (core : Nat) :
    cpuSet core (List.replicate 16 0) = none ↔ 1024 ≤ core := by
  unfold cpuSet
  by_cases h : core / 64 < 16
  · have hlt : core / 64 < (List.replicate 16 0).length := h
    rw [List.getElem?_eq_getElem hlt]
    simp only [reduceCtorEq, false_iff]
    omega
  · have hge : (List.replicate 16 0).length ≤ core / 64 := Nat.le_of_not_lt h
    rw [List.getElem?_eq_none hge]
    simp only [true_iff]
    omega

/-- `none` is the abort inside the call. -/
def pinToCpu (host : Host) (core : Nat) : Option (Result Unit) :=
  match cpuSet core (List.replicate 16 0) with
  | none => none
  | some cpuset =>
    match host.schedSetaffinity cpuset with
    | .ok () => some (.ok ())
    | .error e => some (.error (.io e))

/-! ## Hugetlb mappings -/

/-- `trailing_zeros`, of at most `width` bits. -/
def trailingZeros : (width n : Nat) → Nat
  | 0, _ => 0
  | width + 1, n => if n % 2 = 0 then trailingZeros width (n / 2) + 1 else 0

/-- The address of a fresh mapping of `bytes`, the first one: a buffer has no other. -/
def mapHugetlb (host : Host) (bytes hugepageSize : Nat) : Result Nat :=
  match host.mmap 0 bytes (trailingZeros 64 hugepageSize) with
  | .error e => .error (.io e)
  | .ok ptr =>
    if ptr = 0 then .error (.unsupported "hugetlb mapping" "mmap returned a null pointer")
    else .ok ptr

/-! ## Physical addresses -/

def virtToPhys (host : Host) (addr : Nat) : Result Nat :=
  match host.openPagemap with
  | .error e => .error (.io e)
  | .ok () =>
    match host.readPagemap (addr / 4096 * 8) with
    | .error e => .error (.io e)
    | .ok (bytesRead, entry) =>
      if bytesRead ≠ 8 then
        .error (.io (.unexpectedEof "short read from /proc/self/pagemap"))
      else if entry &&& 1 <<< 63 = 0 then
        .error (.validationFailed "page is not present")
      else
        let pfn := entry &&& ((1 <<< 55) - 1)
        if pfn = 0 then
          .error (.validationFailed
            "PFN unavailable from /proc/self/pagemap; run with elevated privileges")
        else .ok (usize.mul pfn 4096 ||| (addr &&& 0xfff))

/-- The shift amount of a `u64` is taken modulo 64. -/
def computeChannel (phys channelBit : Nat) : Nat := phys >>> (channelBit % 64) &&& 1

end Tailslayer
