/-!
# The kernel

What the driver takes from the kernel it is built for: the tick counter with its comparison, and
the constants and conversions that differ between kernels.
-/

namespace AmlW2

/-- The kernel's tick counter, an `unsigned long`. -/
abbrev Jiffies := BitVec 64

/-- `time_after`: the signed difference tells whether `a` is later than `b`. -/
def timeAfter (a b : Jiffies) : Bool := (b - a).msb

/-- What differs between the kernels the driver is built for. -/
structure Kernel where
  /-- `IEEE80211_MAX_AMPDU_BUF`, the largest buffer of a block-ack agreement. -/
  maxAmpduBuf : Nat
  maxAmpduBuf_pos : 0 < maxAmpduBuf
  maxAmpduBuf_le : maxAmpduBuf ≤ 1024
  /-- `usecs_to_jiffies`. -/
  usecsToJiffies : Nat → Jiffies

end AmlW2
