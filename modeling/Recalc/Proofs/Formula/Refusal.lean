import Recalc.Proofs.Formula.Beginnings
import Recalc.Proofs.Formula.Cutting

namespace Recalc

namespace Reader

variable {frames : List Frame} {e : Expr} {s s' : State} {t : Token} {error : ReadError}
  {stop : Stop} {tokens : List Token} {token : String} {pos : Nat}

end Reader

namespace Expr

open Reader

end Expr

end Recalc
