import Mathlib.Algebra.Order.Ring.Nat
import Mathlib.Order.Basic

namespace EvoClaw

abbrev Jid := String

abbrev TaskId := String

abbrev Folder := String

-- config.py rejects values below the minimum of 1, so a zero limit cannot be built.
structure Config where
  MAX_CONCURRENT_CONTAINERS : Nat
  limit_pos : 1 ≤ MAX_CONCURRENT_CONTAINERS

end EvoClaw
