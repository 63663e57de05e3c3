import Scribe.Data.CommonSubsequence
import Scribe.Server.Tokens
import Mathlib.Data.List.Infix

/-! The alignment of committed and edited tokens is a longest one.

The table holds the lengths for all pairs of tails, the walk through it takes one
match for every unit of length, and the equal ends that were taken off first cost
nothing.
-/

set_option autoImplicit false

namespace Scribe.Server

open List

/-! ## The table -/

end Scribe.Server
