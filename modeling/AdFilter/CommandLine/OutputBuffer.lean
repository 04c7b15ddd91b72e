/-!
# Output buffers

What is written to a file goes through a buffer, which passes on what it holds when the next piece
does not fit. Whoever reads the file before the end finds what was passed on by then. Nothing gets
lost on the way (`passed_add_held`), and never more than the capacity is held (`held_add_le`).
-/

namespace AdFilter.CommandLine

/-- The bytes that a buffer has passed on and those that it holds, counted. -/
structure OutputBuffer where
  passed : Nat := 0
  held : Nat := 0
  deriving DecidableEq, Repr, Inhabited

namespace OutputBuffer

def capacity : Nat := 8192

def flush (b : OutputBuffer) : OutputBuffer where
  passed := b.passed + b.held

def makeRoom (b : OutputBuffer) (size : Nat) : OutputBuffer :=
  if capacity < b.held + size then b.flush else b

/-- The buffer after a piece of some size. A piece that would fill the whole buffer is passed on at
once. -/
def add (b : OutputBuffer) (size : Nat) : OutputBuffer :=
  let b := b.makeRoom size
  if capacity ≤ size then { b with passed := b.passed + size }
  else { b with held := b.held + size }

def ofSizes (sizes : List Nat) : OutputBuffer :=
  sizes.foldl add {}

theorem passed_makeRoom_add_held (b : OutputBuffer) (size : Nat) :
    (b.makeRoom size).passed + (b.makeRoom size).held = b.passed + b.held := by
  unfold makeRoom
  split <;> simp [flush]

theorem passed_add_held (b : OutputBuffer) (size : Nat) :
    (b.add size).passed + (b.add size).held = b.passed + b.held + size := by
  have h := b.passed_makeRoom_add_held size
  unfold add
  split <;> simp only <;> omega

theorem held_add_le {b : OutputBuffer} (h : b.held ≤ capacity) (size : Nat) :
    (b.add size).held ≤ capacity := by
  unfold add makeRoom flush
  split <;> split <;> simp only <;> omega

end OutputBuffer

end AdFilter.CommandLine
