import HiStar.Kobj.Loan
import HiStar.Lib.Retry

namespace HiStar.Kobj

open Lib Function

variable {x n limit : Nat} {env : Env} {k k' : Store}

end HiStar.Kobj
