import LinuxAdvance.Cxx.Text

/-!
# What the kernel answers

The answers of `recv`, `send` and `accept`, and the error numbers the programs
look at.  A call of `recv` passes a buffer of 1023 bytes.  `send` copies as many
bytes as there is room for, of those it is given, and at most `MAX_RW_COUNT` of
them in one call.
-/

namespace LinuxAdvance.System

open LinuxAdvance.Cxx

abbrev Fd := Nat

def eintr : Nat := 4

def eagain : Nat := 11

def ewouldblock : Nat := eagain

def maxRwCount : Nat := 0x7ffff000

structure Chunk where
  bytes : Bytes
  nonempty : bytes ≠ []
  fits : bytes.length ≤ 1023
  deriving DecidableEq, Repr

inductive RecvResult where
  | data (chunk : Chunk)
  | eof
  | fail (errno : Nat)
  deriving DecidableEq, Repr

inductive SendResult where
  | sent (room : Nat)
  | fail (errno : Nat)
  deriving DecidableEq, Repr

/-- The number of a new descriptor: one that is not in use, whichever are. -/
structure NewFd where
  choose : Finset Fd → Fd
  notMem : ∀ opened, choose opened ∉ opened

def NewFd.above : NewFd where
  choose := fun opened => opened.sup id + 1
  notMem := fun opened h => by
    have hle : opened.sup id + 1 ≤ opened.sup id := Finset.le_sup (f := id) h
    exact Nat.not_succ_le_self _ hle

def NewFd.lowest : NewFd where
  choose := fun opened => Nat.find (Infinite.exists_notMem_finset opened)
  notMem := fun opened => Nat.find_spec (Infinite.exists_notMem_finset opened)

/-- It is below a bound exactly when not all the numbers there are in use. -/
theorem NewFd.lowest_lt_iff {opened : Finset Fd} {bound : Nat} :
    lowest.choose opened < bound ↔ (opened.filter (· < bound)).card < bound := by
  have hsubset : opened.filter (· < bound) ⊆ Finset.range bound := by
    intro fd hfd
    simpa using (Finset.mem_filter.mp hfd).2
  have hle := Finset.card_le_card hsubset
  rw [Finset.card_range] at hle
  constructor
  · intro hlt
    refine lt_of_le_of_ne hle fun hcard => ?_
    have hall : opened.filter (· < bound) = Finset.range bound :=
      Finset.eq_of_subset_of_card_le hsubset (by simp [hcard])
    have hmem : lowest.choose opened ∈ opened.filter (· < bound) := by
      rw [hall]
      simpa using hlt
    exact lowest.notMem opened (Finset.mem_filter.mp hmem).1
  · intro hcard
    obtain ⟨fd, hfd, hfree⟩ : ∃ fd ∈ Finset.range bound, fd ∉ opened.filter (· < bound) := by
      by_contra hnone
      push Not at hnone
      have hge := Finset.card_le_card (s := Finset.range bound) hnone
      rw [Finset.card_range] at hge
      omega
    have hbound : fd < bound := by simpa using hfd
    have hnot : fd ∉ opened := fun hopen => hfree (Finset.mem_filter.mpr ⟨hopen, hbound⟩)
    exact lt_of_le_of_lt (Nat.find_min' _ hnot) hbound

inductive AcceptResult where
  | conn (fd : Fd)
  | fail (errno : Nat)
  deriving DecidableEq, Repr

def RecvResult.bytes : RecvResult → Bytes
  | .data chunk => chunk.bytes
  | _ => []

def sendCount (room len : Nat) : Nat := min room (min len maxRwCount)

theorem sendCount_lt (room len : Nat) : sendCount room len < 2 ^ 31 := by
  have : maxRwCount < 2 ^ 31 := by decide
  unfold sendCount
  omega

end LinuxAdvance.System
