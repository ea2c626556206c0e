import DemandPaging.Proofs.FramePool
import DemandPaging.Proofs.Session

/-!
The frame pool seen by those who hold pages of it. Whatever is asked of the pool and of its pages, one request after the
other, every page held has a frame of its own, and the bytes of a frame change only where that frame is asked for.
-/

namespace DemandPaging

/-- A request to a frame pool, or to one of the pages that were handed out and not dropped since; those are numbered in
the order in which they were handed out. -/
inductive FrameRequest where
  | alloc
  | drop (k : Nat)
  /-- Replaces the bytes of the `k`-th page by what `f` makes of them. -/
  | withPage (k : Nat) (f : PageContent → PageContent)
  /-- Replaces the bytes of the frame that contains `pa` by what `f` makes of them. -/
  | withFrame (pa : PhysAddr) (f : PageContent → PageContent)
  | freeFrames

/-- The reply to such a request. -/
inductive FrameReply where
  | done
  | page (pa : PhysAddr)
  | noPage
  | bytes (content : PageContent)
  | outside
  | count (n : Nat)
  | notHeld
  /-- A page was found to lie outside its pool. -/
  | escaped
  | panic (p : Panic)
  deriving DecidableEq

/-- A pool and the pages that were handed out from it and not dropped since. -/
structure FrameHolder where
  pool : FramePool
  pages : List PhysAddr

namespace FrameHolder

/-- Runs `f` on the bytes of the frame that contains `pa`; the reply is `missing` where there is no such frame. -/
def withFrame (u : FrameHolder) (pa : PhysAddr) (f : PageContent → PageContent) (missing : FrameReply) :
    FrameReply × FrameHolder :=
  match u.pool.content? pa with
  | some content => (.bytes content, { u with pool := u.pool.setContent pa (f content) })
  | none => (missing, u)

/-- Drops the `k`-th page, whose address is `pa`. -/
def drop (u : FrameHolder) (k : Nat) (pa : PhysAddr) : FrameReply × FrameHolder :=
  match u.pool.release pa with
  | .ok pool => (.done, ⟨pool, u.pages.eraseIdx k⟩)
  | .error p => (.panic p, u)

/-- How the pool and the pages reply, and what becomes of them. -/
def answer (u : FrameHolder) : FrameRequest → FrameReply × FrameHolder
  | .alloc =>
    match u.pool.alloc with
    | .ok (some (pa, pool)) => (.page pa, ⟨pool, u.pages ++ [pa]⟩)
    | .ok none => (.noPage, u)
    | .error p => (.panic p, u)
  | .drop k =>
    match u.pages[k]? with
    | some pa => u.drop k pa
    | none => (.notHeld, u)
  | .withPage k f =>
    match u.pages[k]? with
    | some pa => u.withFrame pa f .escaped
    | none => (.notHeld, u)
  | .withFrame pa f => u.withFrame pa f .outside
  | .freeFrames => (.count u.pool.freeFrames, u)

end FrameHolder

/-- The frames of a pool as its holders know them: the numbers of those in use, in the order in which they were handed
out, and the bytes of each frame. -/
structure FrameStores where
  held : List Nat
  content : Nat → PageContent

namespace FrameStores

/-- The address of the `i`-th frame from `base` on. -/
def address (base : PhysAddr) (i : Nat) : PhysAddr := ⟨base.toNat + i * pageSize⟩

/-- How `count` frames from `base` on change with the requests, and what they reply. -/
inductive Next (base : PhysAddr) (count : Nat) : FrameStores → FrameRequest → FrameReply → FrameStores → Prop
  | alloc {v : FrameStores} {i : Nat} (hi : i < count) (hfree : i ∉ v.held) (hlow : ∀ j < i, j ∈ v.held) :
    Next base count v .alloc (.page (address base i))
      ⟨v.held ++ [i], Function.update v.content i (Content.zero pageSize)⟩
  | noPage {v : FrameStores} (h : v.held.length = count) : Next base count v .alloc .noPage v
  | drop {v : FrameStores} {k i : Nat} (h : v.held[k]? = some i) :
    Next base count v (.drop k) .done { v with held := v.held.eraseIdx k }
  | withPage {v : FrameStores} {k i : Nat} (h : v.held[k]? = some i) (f : PageContent → PageContent) :
    Next base count v (.withPage k f) (.bytes (v.content i))
      { v with content := Function.update v.content i (f (v.content i)) }
  | withFrame {v : FrameStores} {pa : PhysAddr} {i : Nat} (hi : i < count) (hlow : address base i ≤ pa)
    (hhigh : pa < address base (i + 1)) (f : PageContent → PageContent) :
    Next base count v (.withFrame pa f) (.bytes (v.content i))
      { v with content := Function.update v.content i (f (v.content i)) }
  | outside {v : FrameStores} {pa : PhysAddr} (h : pa < base ∨ address base count ≤ pa) (f : PageContent → PageContent) :
    Next base count v (.withFrame pa f) .outside v
  | dropNone {v : FrameStores} {k : Nat} (h : v.held.length ≤ k) : Next base count v (.drop k) .notHeld v
  | withNone {v : FrameStores} {k : Nat} (h : v.held.length ≤ k) (f : PageContent → PageContent) :
    Next base count v (.withPage k f) .notHeld v
  | freeFrames {v : FrameStores} : Next base count v .freeFrames (.count (count - v.held.length)) v

end FrameStores

theorem PhysAddr.le_iff {a b : PhysAddr} : a ≤ b ↔ a.toNat ≤ b.toNat := .rfl

theorem PhysAddr.lt_iff {a b : PhysAddr} : a < b ↔ a.toNat < b.toNat := .rfl

namespace FramePool

variable {p : FramePool} {pa : PhysAddr} {i : Nat}

/-- The number of a frame is found from exactly the addresses inside it. -/
theorem indexOf?_eq_some_iff :
    p.indexOf? pa = some i ↔ i < p.frameCount ∧ p.frameAddr i ≤ pa ∧ pa < p.frameAddr (i + 1) := by
  have hpage : pageSize = 4096 := rfl
  simp only [indexOf?, frameAddr, PhysAddr.le_iff, PhysAddr.lt_iff, hpage]
  constructor
  · intro h
    split at h
    next hin =>
      obtain rfl := Option.some.inj h
      omega
    next => cases h
  · rintro ⟨hi, hlow, hhigh⟩
    obtain rfl : (pa.toNat - p.base.toNat) / 4096 = i := by omega
    rw [if_pos ⟨by omega, hi⟩]

/-- No number is found from exactly the addresses outside the pool. -/
theorem indexOf?_eq_none_iff : p.indexOf? pa = none ↔ pa < p.base ∨ p.frameAddr p.frameCount ≤ pa := by
  have hpage : pageSize = 4096 := rfl
  simp only [indexOf?, frameAddr, PhysAddr.le_iff, PhysAddr.lt_iff, hpage]
  split
  next hin =>
    simp only [reduceCtorEq, false_iff]
    omega
  next hout =>
    simp only [true_iff]
    omega

end FramePool

namespace FrameHolder

variable {base : PhysAddr} {count : Nat} {u : FrameHolder} {v : FrameStores} {pa : PhysAddr} {i : Nat}

/-- The pool holds the frames that `v` tells of, and the pages are those in use. -/
structure Keeps (base : PhysAddr) (count : Nat) (u : FrameHolder) (v : FrameStores) : Prop where
  wellFormed : u.pool.WellFormed
  start : u.pool.base = base
  frameCount : u.pool.frameCount = count
  pages : u.pages = v.held.map (FrameStores.address base)
  nodup : v.held.Nodup
  members : u.pool.members = v.held.toFinset
  contents : ∀ i < count, u.pool.contents[i]? = some (v.content i)

theorem keeps_new (base : PhysAddr) (count : Nat) :
    Keeps base.pageDown count ⟨.new base count, []⟩ ⟨[], fun _ => Content.zero pageSize⟩ where
  wellFormed := FramePool.wellFormed_new base count
  start := rfl
  frameCount := FramePool.frameCount_new base count
  pages := rfl
  nodup := .nil
  members := by
    rw [FramePool.members, FramePool.frameCount_new]
    exact Arena.used_new count
  contents i hi := by simp [FramePool.new, hi]

namespace Keeps

theorem frameAddr (h : Keeps base count u v) (i : Nat) : u.pool.frameAddr i = FrameStores.address base i := by
  rw [FramePool.frameAddr, h.start, FrameStores.address]

theorem lt_count (h : Keeps base count u v) (hi : i ∈ v.held) : i < count := by
  rw [← h.frameCount]
  exact FramePool.lt_frameCount (h.members ▸ List.mem_toFinset.2 hi)

theorem card_members (h : Keeps base count u v) : u.pool.members.card = v.held.length := by
  rw [h.members, List.toFinset_card_of_nodup h.nodup]

theorem freeFrames_add (h : Keeps base count u v) : u.pool.freeFrames + v.held.length = count := by
  rw [← h.card_members, ← h.frameCount]
  exact h.wellFormed.arena.balance

theorem page?_eq (h : Keeps base count u v) (k : Nat) : u.pages[k]? = v.held[k]?.map (FrameStores.address base) := by
  rw [h.pages, List.getElem?_map]

theorem indexOf?_address (h : Keeps base count u v) (hi : i < count) :
    u.pool.indexOf? (FrameStores.address base i) = some i := by
  rw [← h.frameAddr]
  exact FramePool.indexOf?_frameAddr_add (h.frameCount.symm ▸ hi) FramePool.pageSize_pos

theorem getElem?_set (h : Keeps base count u v) (hi : i < count) (content : PageContent) {j : Nat} (hj : j < count) :
    (u.pool.contents.setIfInBounds i content)[j]? = some (Function.update v.content i content j) := by
  have hsize : i < u.pool.contents.size := hi.trans_eq h.frameCount.symm
  rw [Array.getElem?_setIfInBounds, h.contents j hj]
  by_cases hij : i = j
  · subst hij
    rw [if_pos rfl, if_pos hsize, Function.update_self]
  · rw [if_neg hij, Function.update_of_ne (Ne.symm hij)]

/-- What is done to the bytes of one frame leaves those of all others alone. -/
theorem withFrame (h : Keeps base count u v) (hindex : u.pool.indexOf? pa = some i) (f : PageContent → PageContent)
    (missing : FrameReply) :
    (u.withFrame pa f missing).1 = .bytes (v.content i) ∧
      Keeps base count (u.withFrame pa f missing).2
        { v with content := Function.update v.content i (f (v.content i)) } := by
  have hi : i < count := h.frameCount ▸ (FramePool.indexOf?_eq_some_iff.1 hindex).1
  have hcontent : u.pool.content? pa = some (v.content i) := by
    rw [FramePool.content?, hindex, Option.bind_some, h.contents i hi]
  have hset : u.pool.setContent pa (f (v.content i)) =
      { u.pool with contents := u.pool.contents.setIfInBounds i (f (v.content i)) } := by
    rw [FramePool.setContent, hindex]
  simp only [FrameHolder.withFrame, hcontent, true_and]
  refine ⟨h.wellFormed.setContent pa _, by rw [FramePool.base_setContent, h.start],
    by rw [FramePool.frameCount_setContent, h.frameCount], h.pages, h.nodup, ?_, fun j hj => ?_⟩
  · rw [FramePool.members, FramePool.arena_setContent, FramePool.frameCount_setContent]
    exact h.members
  · rw [hset]
    exact h.getElem?_set hi _ hj

/-- The lowest frame that no page has is handed out, unless there is none. -/
theorem alloc (h : Keeps base count u v) :
    (u.pool.alloc = .ok none ∧ v.held.length = count) ∨
      ∃ i pool, u.pool.alloc = .ok (some (FrameStores.address base i, pool)) ∧ i < count ∧ i ∉ v.held ∧
        (∀ j < i, j ∈ v.held) ∧ Keeps base count ⟨pool, u.pages ++ [FrameStores.address base i]⟩
          ⟨v.held ++ [i], Function.update v.content i (Content.zero pageSize)⟩ := by
  obtain ⟨hnone, hall⟩ | ⟨i, pool, halloc, hpool, hi, hnot, hlow, hbase, hmembers, hcontents⟩ := h.wellFormed.alloc_cases
  · refine .inl ⟨hnone, ?_⟩
    rw [← h.card_members, hall, Finset.card_range, h.frameCount]
  · rw [h.frameCount] at hi
    rw [h.frameAddr] at halloc
    simp only [h.members, List.mem_toFinset] at hnot hlow
    refine .inr ⟨i, pool, halloc, hi, hnot, hlow, hpool, hbase.trans h.start, ?_, ?_, ?_, ?_, fun j hj => ?_⟩
    · rw [FramePool.frameCount, hcontents, Array.size_setIfInBounds]
      exact h.frameCount
    · rw [h.pages, List.map_append, List.map_singleton]
    · exact List.concat_eq_append .. ▸ h.nodup.concat hnot
    · rw [hmembers, h.members]
      ext j
      simp
    · rw [hcontents]
      exact h.getElem?_set hi _ hj

/-- A page held can be dropped, and its frame is free then. -/
theorem drop {k : Nat} (h : Keeps base count u v) (hk : v.held[k]? = some i) :
    (u.drop k (FrameStores.address base i)).1 = .done ∧
      Keeps base count (u.drop k (FrameStores.address base i)).2 { v with held := v.held.eraseIdx k } := by
  have hi : i ∈ v.held := List.mem_of_getElem? hk
  obtain ⟨pool, hrelease, hpool, hmembers, hbase, hcontents⟩ :=
    h.wellFormed.release_frameAddr (h.members ▸ List.mem_toFinset.2 hi)
  rw [h.frameAddr] at hrelease
  have herase : v.held.eraseIdx k = v.held.erase i := by
    obtain ⟨hlt, rfl⟩ := List.getElem?_eq_some_iff.1 hk
    exact (h.nodup.erase_getElem k hlt).symm
  simp only [FrameHolder.drop, hrelease, true_and]
  refine ⟨hpool, hbase.trans h.start, ?_, ?_, h.nodup.eraseIdx k, ?_, fun j hj => by rw [hcontents, h.contents j hj]⟩
  · rw [FramePool.frameCount, hcontents]
    exact h.frameCount
  · rw [h.pages, List.eraseIdx_map]
  · rw [hmembers, h.members]
    ext j
    simp [herase, h.nodup.mem_erase_iff]

theorem nodup_pages (h : Keeps base count u v) : u.pages.Nodup := by
  rw [h.pages]
  refine h.nodup.map fun i j hij => ?_
  rw [← h.frameAddr, ← h.frameAddr] at hij
  exact FramePool.frameAddr_injective _ hij

theorem length_pages (h : Keeps base count u v) : u.pages.length = v.held.length := by
  rw [h.pages, List.length_map]

theorem length_le (h : Keeps base count u v) : u.pages.length ≤ count := by
  rw [h.length_pages, ← h.freeFrames_add]
  exact Nat.le_add_left ..

theorem freeFrames (h : Keeps base count u v) : u.pool.freeFrames = count - v.held.length :=
  Nat.eq_sub_of_add_eq h.freeFrames_add

/-- A page begins at a page boundary and ends within the pool. -/
theorem page_inside (h : Keeps base count u v) (hpa : pa ∈ u.pages) :
    pa.offset = 0 ∧ base ≤ pa ∧ pa.toNat + pageSize ≤ base.toNat + count * pageSize := by
  rw [h.pages] at hpa
  obtain ⟨i, hi, rfl⟩ := List.mem_map.1 hpa
  have haligned := h.wellFormed.aligned
  have hroom := Nat.mul_le_mul_right pageSize (Nat.succ_le_of_lt (h.lt_count hi))
  rw [h.start] at haligned
  rw [Nat.succ_mul] at hroom
  refine ⟨?_, PhysAddr.le_iff.2 (Nat.le_add_right ..), ?_⟩
  · rw [PhysAddr.offset, FrameStores.address, Nat.add_mul_mod_self_right, haligned]
  · change base.toNat + i * pageSize + pageSize ≤ base.toNat + count * pageSize
    omega

theorem answer (h : Keeps base count u v) (r : FrameRequest) :
    ∃ v', v.Next base count r (u.answer r).1 v' ∧ Keeps base count (u.answer r).2 v' := by
  cases r with
  | alloc =>
    simp only [FrameHolder.answer]
    obtain ⟨hnone, hall⟩ | ⟨i, pool, hsome, hi, hfree, hlow, hnext⟩ := h.alloc
    · rw [hnone]
      exact ⟨v, .noPage hall, h⟩
    · rw [hsome]
      exact ⟨_, .alloc hi hfree hlow, hnext⟩
  | drop k =>
    simp only [FrameHolder.answer, h.page?_eq]
    cases hk : v.held[k]? with
    | none => exact ⟨v, .dropNone (List.getElem?_eq_none_iff.1 hk), h⟩
    | some i =>
      obtain ⟨hreply, hnext⟩ := h.drop hk
      exact ⟨_, hreply ▸ .drop hk, hnext⟩
  | withPage k f =>
    simp only [FrameHolder.answer, h.page?_eq]
    cases hk : v.held[k]? with
    | none => exact ⟨v, .withNone (List.getElem?_eq_none_iff.1 hk) f, h⟩
    | some i =>
      have hindex := h.indexOf?_address (h.lt_count (List.mem_of_getElem? hk))
      obtain ⟨hreply, hnext⟩ := h.withFrame hindex f .escaped
      exact ⟨_, hreply ▸ .withPage hk f, hnext⟩
  | withFrame pa f =>
    simp only [FrameHolder.answer]
    cases hindex : u.pool.indexOf? pa with
    | none =>
      have houtside := FramePool.indexOf?_eq_none_iff.1 hindex
      rw [h.frameCount, h.frameAddr, h.start] at houtside
      have hnone : u.withFrame pa f .outside = (.outside, u) := by
        rw [FrameHolder.withFrame, FramePool.content?, hindex, Option.bind_none]
      rw [hnone]
      exact ⟨v, .outside houtside f, h⟩
    | some i =>
      have hinside := FramePool.indexOf?_eq_some_iff.1 hindex
      rw [h.frameCount, h.frameAddr, h.frameAddr] at hinside
      obtain ⟨hreply, hnext⟩ := h.withFrame hindex f .outside
      exact ⟨_, hreply ▸ .withFrame hinside.1 hinside.2.1 hinside.2.2 f, hnext⟩
  | freeFrames =>
    simp only [FrameHolder.answer, h.freeFrames]
    exact ⟨v, .freeFrames, h⟩

end Keeps

end FrameHolder

/-- No page escapes its pool, and nothing panics. -/
theorem FrameStores.Next.ne_escaped {base : PhysAddr} {count : Nat} {v v' : FrameStores} {r : FrameRequest}
    {reply : FrameReply} (h : v.Next base count r reply v') : reply ≠ .escaped ∧ ∀ p, reply ≠ .panic p := by
  cases h <;> exact ⟨nofun, nofun⟩

namespace FrameHolder

/-- From a new pool on whose frames lie within the words, any requests are replied to as by frames that know nothing of
each other: the lowest one that no page has is handed out, filled with zeros, the bytes of a frame are reached through
its page and from the addresses inside it, and only what is done there changes them. At any time, the pages have frames
of their own, which lie in the pool, and the other frames are free. -/
theorem replies_exclusive (base : PhysAddr) (count : Nat)
    (hfit : base.pageDown.toNat + count * pageSize < Word.limit) (requests : List FrameRequest) :
    let first := base.pageDown
    let (replies, u) := session answer ⟨.new base count, []⟩ requests
    ∃ v, Obeys (FrameStores.Next first count) ⟨[], fun _ => Content.zero pageSize⟩ requests replies v ∧
      (∀ r ∈ replies, r ≠ .escaped ∧ ∀ p, r ≠ .panic p) ∧
      u.pages = v.held.map (FrameStores.address first) ∧ u.pages.Nodup ∧
      (∀ pa ∈ u.pages, pa.offset = 0 ∧ first ≤ pa ∧ pa.toNat + pageSize ≤ first.toNat + count * pageSize) ∧
      u.pages.length ≤ count ∧ u.pool.freeFrames = count - u.pages.length ∧
      (∀ i, u.pool.arena.unused.contains i = true → i < count) ∧
      ∀ i ≤ count, first.add (i * pageSize) = .ok (FrameStores.address first i) := by
  obtain ⟨v, hobeys, hend⟩ := session_obeys (R := Keeps base.pageDown count) (fun _ _ r h => h.answer r)
    (keeps_new base count) requests
  refine ⟨v, hobeys, hobeys.forall_reply fun _ _ _ _ h => h.ne_escaped, hend.pages, hend.nodup_pages,
    fun pa hpa => hend.page_inside hpa, hend.length_le, by rw [hend.freeFrames, hend.length_pages],
    fun i hi => (hend.wellFormed.arena.bound i hi).trans_eq hend.frameCount, fun i hi => ?_⟩
  have hle := Nat.mul_le_mul_right pageSize hi
  have hword : Word.add base.pageDown.toNat (i * pageSize) = .ok (base.pageDown.toNat + i * pageSize) :=
    Word.add_eq_ok_iff.2 ⟨by omega, rfl⟩
  rw [PhysAddr.add, hword]
  rfl

/-- Two frames from the page boundary below an address on: one of them is used twice, and nothing lies behind them. -/
theorem exists_replies_exclusive :
    ∃ v, Obeys (FrameStores.Next ⟨0x1000⟩ 2) ⟨[], fun _ => Content.zero pageSize⟩
      [.alloc, .alloc, .alloc, .drop 0, .withFrame ⟨0x3000⟩ id, .freeFrames, .alloc]
      [.page ⟨0x1000⟩, .page ⟨0x2000⟩, .noPage, .done, .outside, .count 1, .page ⟨0x1000⟩] v := by
  obtain ⟨v, hobeys, -⟩ := replies_exclusive ⟨0x1234⟩ 2 (by decide)
    [.alloc, .alloc, .alloc, .drop 0, .withFrame ⟨0x3000⟩ id, .freeFrames, .alloc]
  have hreplies : (session answer ⟨.new ⟨0x1234⟩ 2, []⟩
      [.alloc, .alloc, .alloc, .drop 0, .withFrame ⟨0x3000⟩ id, .freeFrames, .alloc]).1 =
      [.page ⟨0x1000⟩, .page ⟨0x2000⟩, .noPage, .done, .outside, .count 1, .page ⟨0x1000⟩] := by
    decide +kernel
  exact ⟨v, hreplies ▸ hobeys⟩

end FrameHolder

end DemandPaging
