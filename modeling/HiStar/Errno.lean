import Mathlib.Tactic

namespace HiStar

/-- The error codes of the kernel. A failed assertion or a call of `panic`
stops the machine, and `loops` stands for a loop that has not ended within the
number of rounds a computation is followed. -/
inductive Errno
  | unspec
  | inval
  | noMem
  | restart
  | notFound
  | label
  | busy
  | noSpace
  | again
  | io
  | fixedQuota
  | varQuota
  | resource
  | badType
  | readOnly
  | range
  | panic
  | loops
  deriving DecidableEq, Repr

end HiStar
