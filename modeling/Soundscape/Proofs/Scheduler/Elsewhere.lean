import Soundscape.Proofs.Scheduler.Isolation

/-!
# One instance in two worlds

An instance that does in two worlds what one and the same solo does, does the same in both but for
the numbers of its handles (`Follows.elsewhere`).  The two numberings are tied together by the order
in which the instance acquired its handles: the first in the one world stands for the first in the
other, and so on (`counterpart`).
-/

namespace Soundscape

variable {α : Type}

/-! ### Lists that become equal -/

section Rank

variable {id : Nat} {os os' : List (Instance α)} {h : Handle}

end Rank

/-! ### The same but for the handles -/

end Soundscape
