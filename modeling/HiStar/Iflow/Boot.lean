import HiStar.Iflow.CutCipher
import HiStar.Iflow.View

namespace HiStar.Iflow

open Lib
open Handle (ident)

section KernelOf

variable {table : List (Nat × Kobject)} {cur counter : Nat}

end KernelOf

end HiStar.Iflow
