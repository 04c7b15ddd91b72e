import AdFilter.Duration
import AdFilter.Verdict

/-!
# Statistics

What an engine does is told as events; the statistics count them in 64-bit words. Times are added
up in such a word too, so a sum that does not fit wraps around.
-/

namespace AdFilter

/-- Something that happens while a request is decided. -/
inductive Event where
  | cacheHit (blocked : Bool)
  | cacheMiss
  /-- a verdict, and the nanoseconds that it took -/
  | verdict (v : Verdict) (elapsed : Nat)
  deriving DecidableEq, Repr

structure Stats where
  cacheHits : UInt64 := 0
  cacheMisses : UInt64 := 0
  /-- verdicts that blocked a request -/
  filtered : UInt64 := 0
  /-- verdicts of exceptions -/
  exceptions : UInt64 := 0
  verdicts : UInt64 := 0
  /-- the time that all verdicts took -/
  totalNanos : UInt64 := 0
  deriving DecidableEq, Repr, Inhabited

namespace Stats

/-- A time in nanoseconds as a word. Longer times count as the longest that fits. -/
def capNanos (elapsed : Nat) : UInt64 :=
  UInt64.ofNat (min elapsed 0xFFFFFFFFFFFFFFFF)

def record (s : Stats) : Event → Stats
  | .cacheHit _ => { s with cacheHits := s.cacheHits + 1 }
  | .cacheMiss => { s with cacheMisses := s.cacheMisses + 1 }
  | .verdict v elapsed => { s with
      filtered := s.filtered + if v.isBlocked then 1 else 0
      exceptions := s.exceptions + if v matches .excepted _ then 1 else 0
      verdicts := s.verdicts + 1
      totalNanos := s.totalNanos + capNanos elapsed }

def recordAll (s : Stats) (events : List Event) : Stats :=
  events.foldl record s

structure Snapshot where
  cacheHits : UInt64
  cacheMisses : UInt64
  filtered : UInt64
  exceptions : UInt64
  averageNanos : UInt64
  deriving DecidableEq, Repr

def quotient? (a b : UInt64) : Option UInt64 :=
  if b = 0 then none else some (a / b)

/-- The snapshot, if it can be taken without a division by zero. The average is rounded down, and zero
as long as there is no verdict. -/
def snapshot? (s : Stats) : Option Snapshot := do
  let averageNanos ← if s.verdicts = 0 then some 0 else quotient? s.totalNanos s.verdicts
  return {
    cacheHits := s.cacheHits
    cacheMisses := s.cacheMisses
    filtered := s.filtered
    exceptions := s.exceptions
    averageNanos }

/-- No snapshot divides by zero. -/
theorem isSome_snapshot? (s : Stats) : s.snapshot?.isSome = true := by
  by_cases h : s.verdicts = 0 <;> simp [snapshot?, quotient?, h]

def snapshot (s : Stats) : Snapshot :=
  s.snapshot?.get s.isSome_snapshot?

theorem snapshot_eq (s : Stats) : s.snapshot = {
    cacheHits := s.cacheHits
    cacheMisses := s.cacheMisses
    filtered := s.filtered
    exceptions := s.exceptions
    averageNanos := if s.verdicts = 0 then 0 else s.totalNanos / s.verdicts } := by
  by_cases h : s.verdicts = 0 <;> simp [snapshot, snapshot?, quotient?, h]

namespace Snapshot

def describe (s : Snapshot) (average : String) : String :=
  "cache hits: " ++ toString s.cacheHits ++ ", cache misses: " ++ toString s.cacheMisses ++
    ", filtered: " ++ toString s.filtered ++ ", exceptioned: " ++ toString s.exceptions ++
    ", avg matching time: " ++ average

instance : ToString Snapshot where
  toString s := s.describe (Duration.render s.averageNanos.toNat)

end Snapshot

end Stats

end AdFilter
