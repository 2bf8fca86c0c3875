import Mathlib.Data.Nat.Notation
import Mathlib.Data.Int.Notation

/-!
# Compile-time constants

The constants of `render_config.h`, and the bound `PATH_MAX` of `limits.h`.
-/

/-- The largest zoom level. -/
def maxZoom : ℕ := 20

/-- A metatile is a square of `metatile` by `metatile` tiles. -/
def metatile : ℕ := 8

/-- The largest number of requests that wait in each of the four request queues. -/
def reqLimit : ℕ := 256

/-- The largest number of requests that wait in the dirty queue. -/
def dirtyLimit : ℕ := 8000

/-- The file descriptor of a request nobody waits for. -/
def fdInvalid : ℤ := -1

/-- The size of a buffer for a path. -/
def pathMax : ℕ := 4096
