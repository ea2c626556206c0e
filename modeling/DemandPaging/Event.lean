import DemandPaging.Space.Basic

/-!
The events that the paging system reports, with the texts of their messages.
-/

namespace DemandPaging

/-- The weight of a message. -/
inductive Level where
  | info
  | warn
  | debug
  deriving DecidableEq

namespace Level

/-- The word that marks messages of this weight. -/
def text : Level → String
  | info => "INFO"
  | warn => "WARN"
  | debug => "DEBUG"

end Level

/-- Something that the paging system reports. -/
inductive Event where
  | frameCount (frames : Nat)
  | usable (base : PhysAddr) (frames : Nat)
  | swapCount (slots : Nat)
  /-- The accessed bit of a victim candidate stays set. -/
  | keptAccessed (va : VirtAddr) (e : MappingError)
  | evictUnmapped (va : VirtAddr) (e : MappingError)
  | persistFailed (va : VirtAddr) (e : Errno)
  /-- A page that could not be persisted is in its frame still, but not mapped. -/
  | restoreFailed (space : SpaceId) (va : VirtAddr) (e : Errno)
  | evicted (pa : PhysAddr) (va : VirtAddr) (dirty : Bool)
  | swappedOut (pa : PhysAddr) (slot : SwapSlot)
  | swappedIn (slot : SwapSlot) (pa : PhysAddr)
  | wroteBack (count offset : Nat)
  | claimLostMapping (va : VirtAddr) (e : MappingError)
  | loadFailed (va : VirtAddr) (e : Errno)
  | faultInvalid (va : VirtAddr)
  | faultUnmapped (va : VirtAddr) (stackPointer : Nat)
  | faultReadOnly (va : VirtAddr)
  | stackGrown (va : VirtAddr)
  | pageUnmapped (va : VirtAddr) (e : MappingError)
  | writeBackFailed (va : VirtAddr) (e : Errno)
  | regionFailed (e : Errno)
  | pagesLost (failed count : Nat)
  | released (count : Nat)
  | mapped (start : VirtAddr) (limit pages offset : Nat)
  | unmapped (start : VirtAddr) (limit : Nat)
  | segment (start : VirtAddr) (limit readBytes : Nat)
  | mappingUndoFailed (va : VirtAddr) (e : Errno)
  | segmentUndoFailed (va : VirtAddr) (e : Errno)
  | duplicated (pages regions : Nat)

namespace Event

/-- A size in bytes, in the largest unit of which there are more than sixteen. -/
def sizeText (n : Nat) : String :=
  if n > 16 * 1024 * 1024 * 1024 then toString (n / 1024 / 1024 / 1024) ++ " GiB"
  else if n > 16 * 1024 * 1024 then toString (n / 1024 / 1024) ++ " MiB"
  else if n > 16 * 1024 then toString (n / 1024) ++ " KiB"
  else toString n ++ " B"

/-- A range of virtual addresses. -/
def rangeText (start : VirtAddr) (limit : Nat) : String :=
  start.text ++ "~" ++ (VirtAddr.mk limit).text

/-- The weight of the message. -/
def level : Event → Level
  | frameCount _ | usable _ _ | swapCount _ => .info
  | evicted _ _ _ | swappedOut _ _ | swappedIn _ _ | wroteBack _ _ | stackGrown _ | released _ | mapped _ _ _ _
  | unmapped _ _ | segment _ _ _ | duplicated _ _ => .debug
  | _ => .warn

/-- The message. -/
def message : Event → String
  | frameCount frames => "Vm: init " ++ toString frames ++ " frames."
  | usable base frames =>
    "    Usable: " ++ Hex.padded base.toNat ++ "~" ++ Hex.padded (base.toNat + frames * pageSize) ++ " (" ++
      sizeText (frames * pageSize) ++ ")"
  | swapCount slots => "Swap: " ++ toString slots ++ " slots."
  | keptAccessed va e => "Frame: cannot clear accessed bit of " ++ va.text ++ " (" ++ e.name ++ ")"
  | evictUnmapped va e => "Evict: " ++ va.text ++ " was not mapped (" ++ e.name ++ ")"
  | persistFailed va e => "Evict: failed to persist " ++ va.text ++ " (" ++ e.name ++ ")"
  | restoreFailed _ va e => "Evict: failed to restore " ++ va.text ++ " (" ++ e.name ++ ")"
  | evicted pa va dirty => "Evict: " ++ pa.text ++ " from " ++ va.text ++ (if dirty then " (dirty)" else "")
  | swappedOut pa slot => "Swap: " ++ pa.text ++ " -> " ++ slot.text
  | swappedIn slot pa => "Swap: " ++ slot.text ++ " -> " ++ pa.text
  | wroteBack count offset =>
    "File: wrote back " ++ toString count ++ " bytes at offset " ++ Hex.marked offset
  | claimLostMapping va e => "Claim: " ++ va.text ++ " lost its mapping (" ++ e.name ++ ")"
  | loadFailed va e => "Claim: failed to load " ++ va.text ++ " (" ++ e.name ++ ")"
  | faultInvalid va => "Fault: invalid address " ++ va.text
  | faultUnmapped va stackPointer =>
    "Fault: unmapped address " ++ va.text ++ " (rsp: " ++ Hex.marked stackPointer ++ ")"
  | faultReadOnly va => "Fault: write to read-only page " ++ va.text
  | stackGrown va => "Fault: grow stack to " ++ va.text
  | pageUnmapped va e => "Page: " ++ va.text ++ " was not mapped (" ++ e.name ++ ")"
  | writeBackFailed va e => "Page: failed to write back " ++ va.text ++ " (" ++ e.name ++ ")"
  | regionFailed e => "Teardown: failed to unmap a region (" ++ e.name ++ ")"
  | pagesLost failed count =>
    "Teardown: " ++ toString failed ++ " of " ++ toString count ++ " pages lost their contents"
  | released count => "Teardown: released " ++ toString count ++ " pages"
  | mapped start limit pages offset =>
    "Mmap: " ++ rangeText start limit ++ " (" ++ toString pages ++ " pages) at offset " ++ Hex.marked offset
  | unmapped start limit => "Munmap: " ++ rangeText start limit
  | segment start limit readBytes =>
    "Loader: segment " ++ rangeText start limit ++ " (" ++ toString readBytes ++ " bytes from file)"
  | mappingUndoFailed va e => "Mmap: rollback of " ++ va.text ++ " failed (" ++ e.name ++ ")"
  | segmentUndoFailed va e => "Loader: rollback of " ++ va.text ++ " failed (" ++ e.name ++ ")"
  | duplicated pages regions =>
    "Fork: duplicated " ++ toString pages ++ " pages and " ++ toString regions ++ " regions"

/-- The message behind the word for its weight. -/
def text (e : Event) : String := e.level.text ++ " " ++ e.message

end Event

end DemandPaging
