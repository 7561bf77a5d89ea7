import Mathlib.Tactic

namespace HiStar.Lib

variable {σ ε α : Type} [DecidableEq ε] {again out : ε} {f g : σ → Except ε α × σ}

def retry (again out : ε) (f : σ → Except ε α × σ) : Nat → σ → Except ε α × σ
  | 0, s => (.error out, s)
  | n + 1, s =>
    match f s with
    | (.ok a, t) => (.ok a, t)
    | (.error e, t) => if e = again then retry again out f n t else (.error e, t)

variable {n : Nat} {s t : σ}

end HiStar.Lib
