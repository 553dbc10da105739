import ServerCore.SendBuffer.Steps

/-!
# Where a chunk is

A chunk is the current chunk of one thread at most. A chunk that waits in the pool, or that
a thread has just taken out or is about to put in, is nobody's current chunk and no buffer
points into it (`Free`), because its reference count was 0 when it came there. So a chunk
has no live buffer when it is reset.
-/

namespace ServerCore

namespace SendBufferManager

open Interleaving

variable {Tid : Type}

/-- The chunk that the thread is moving between the pool and a `shared_ptr`. -/
def Pc.carried : Pc → Option ℕ
  | .assign _ _ c => some c
  | .push c _ => some c
  | _ => none

/-- The thread is about to reset its current chunk, or has reset it in this call. -/
def Pc.fresh : Pc → Bool
  | .resetBuffer _ _ => true
  | .assertClosed _ fresh => fresh
  | .testFreeSize _ fresh => fresh
  | .assertOpen _ fresh => fresh
  | .chunkFreeSize _ fresh => fresh
  | .setOpened _ fresh => fresh
  | .makeShared _ fresh => fresh
  | .push _ resume => resume.isSome
  | _ => false

/-- No live buffer points into the chunk. -/
def Unused (s : State Tid) (c : ℕ) : Prop :=
  ∀ id sendBuffer, s.sendBuffers id = some sendBuffer → sendBuffer.ownerChunk ≠ c

def Free (s : State Tid) (c : ℕ) : Prop :=
  (∀ t, s.tlsSendBufferChunk t ≠ some c) ∧ Unused s c

/-- A chunk that is nobody's current chunk, has no buffer, and is in no place. -/
structure Loose (s : State Tid) (c : ℕ) : Prop where
  free : Free s c
  pool : c ∉ s.sendBufferChunkPool
  carried : ∀ t, (s.threads t).carried ≠ some c

/-- Owners are counted, and a chunk that is not somebody's current chunk and has no buffer
is in one place. -/
structure Placed (s : State Tid) : Prop where
  tlsOwner : ∀ t c, s.tlsSendBufferChunk t = some c → Owner.tls t ∈ (s.chunks c).owners
  bufferOwner : ∀ id sendBuffer, s.sendBuffers id = some sendBuffer →
    Owner.sendBuffer id ∈ (s.chunks sendBuffer.ownerChunk).owners
  single : ∀ t u c, s.tlsSendBufferChunk t = some c → s.tlsSendBufferChunk u = some c → t = u
  pool : s.sendBufferChunkPool.Nodup
  pooled : ∀ c ∈ s.sendBufferChunkPool, Free s c
  carried : ∀ t c, (s.threads t).carried = some c → Free s c ∧ c ∉ s.sendBufferChunkPool
  carriedOnce : ∀ t u c, (s.threads t).carried = some c → (s.threads u).carried = some c → t = u
  fresh : ∀ t c, (s.threads t).fresh = true → s.tlsSendBufferChunk t = some c → Unused s c
  newChunk : ∀ c, s.chunkCount ≤ c →
    Free s c ∧ c ∉ s.sendBufferChunkPool ∧ ∀ t, (s.threads t).carried ≠ some c
  newBuffer : ∀ id, s.sendBufferCount ≤ id → s.sendBuffers id = none

namespace Placed

variable {s s' : State Tid} {t : Tid} {c : ℕ}

theorem lt_of_current (h : Placed s) (current : s.tlsSendBufferChunk t = some c) :
    c < s.chunkCount :=
  Nat.not_le.mp fun hnew => (h.newChunk c hnew).1.1 t current

theorem lt_of_live (h : Placed s) {i : ℕ} {sendBuffer : SendBuffer}
    (live : s.sendBuffers i = some sendBuffer) : sendBuffer.ownerChunk < s.chunkCount :=
  Nat.not_le.mp fun hnew => (h.newChunk _ hnew).1.2 i sendBuffer live rfl

theorem lt_of_pooled (h : Placed s) (pooled : c ∈ s.sendBufferChunkPool) : c < s.chunkCount :=
  Nat.not_le.mp fun hnew => (h.newChunk c hnew).2.1 pooled

theorem lt_of_carried (h : Placed s) (carried : (s.threads t).carried = some c) :
    c < s.chunkCount :=
  Nat.not_le.mp fun hnew => (h.newChunk c hnew).2.2 t carried

theorem crash (h : Placed s) : Placed s.crash :=
  ⟨h.tlsOwner, h.bufferOwner, h.single, h.pool, h.pooled, h.carried, h.carriedOnce, h.fresh,
    h.newChunk, h.newBuffer⟩

/-- The chunk may change where nobody is left out. -/
theorem setChunk (h : Placed s) (c : ℕ) (chunk : SendBufferChunk Tid)
    (tls : ∀ t, s.tlsSendBufferChunk t = some c → Owner.tls t ∈ chunk.owners)
    (sendBuffers : ∀ i x, s.sendBuffers i = some x → x.ownerChunk = c →
      Owner.sendBuffer i ∈ chunk.owners) : Placed (s.setChunk c chunk) := by
  constructor
  case tlsOwner =>
    intro t d hd
    change Owner.tls t ∈ (Function.update s.chunks c chunk d).owners
    obtain rfl | hne := eq_or_ne d c
    · rw [Function.update_self]
      exact tls t hd
    · rw [Function.update_of_ne hne]
      exact h.tlsOwner t d hd
  case bufferOwner =>
    intro i x hx
    change Owner.sendBuffer i ∈ (Function.update s.chunks c chunk x.ownerChunk).owners
    obtain heq | hne := eq_or_ne x.ownerChunk c
    · rw [heq, Function.update_self]
      exact sendBuffers i x hx heq
    · rw [Function.update_of_ne hne]
      exact h.bufferOwner i x hx
  case single => exact h.single
  case pool => exact h.pool
  case pooled => exact h.pooled
  case carried => exact h.carried
  case carriedOnce => exact h.carriedOnce
  case fresh => exact h.fresh
  case newChunk => exact h.newChunk
  case newBuffer => exact h.newBuffer

theorem setChunk_same (h : Placed s) {chunk : SendBufferChunk Tid}
    (owners : chunk.owners = (s.chunks c).owners) : Placed (s.setChunk c chunk) := by
  apply h.setChunk
  · intro t current
    rw [owners]
    exact h.tlsOwner t c current
  · rintro i x hx rfl
    rw [owners]
    exact h.bufferOwner i x hx

/-- A buffer changes without leaving its chunk, or is destroyed. -/
theorem setSendBuffer (h : Placed s) {i : ℕ} {sendBuffer : SendBuffer} {after : Option SendBuffer}
    (live : s.sendBuffers i = some sendBuffer)
    (same : ∀ x, after = some x → x.ownerChunk = sendBuffer.ownerChunk) :
    Placed (s.setSendBuffer i after) := by
  have hbefore : ∀ j x, (s.setSendBuffer i after).sendBuffers j = some x →
      ∃ y, s.sendBuffers j = some y ∧ y.ownerChunk = x.ownerChunk := by
    intro j x hx
    obtain ⟨rfl, hafter⟩ | ⟨-, hold⟩ := State.setSendBuffer_cases hx
    · exact ⟨sendBuffer, live, (same x hafter).symm⟩
    · exact ⟨x, hold, rfl⟩
  have hunused : ∀ d, Unused s d → Unused (s.setSendBuffer i after) d := by
    intro d hd j x hx
    obtain ⟨y, hy, hsame⟩ := hbefore j x hx
    rw [← hsame]
    exact hd j y hy
  constructor
  case tlsOwner => exact h.tlsOwner
  case bufferOwner =>
    intro j x hx
    obtain ⟨y, hy, hsame⟩ := hbefore j x hx
    rw [← hsame]
    exact h.bufferOwner j y hy
  case single => exact h.single
  case pool => exact h.pool
  case pooled =>
    intro d hd
    exact ⟨(h.pooled d hd).1, hunused d (h.pooled d hd).2⟩
  case carried =>
    intro t d hd
    obtain ⟨hfree, hpool⟩ := h.carried t d hd
    exact ⟨⟨hfree.1, hunused d hfree.2⟩, hpool⟩
  case carriedOnce => exact h.carriedOnce
  case fresh => exact fun t d ht hd => hunused d (h.fresh t d ht hd)
  case newChunk =>
    intro d hd
    obtain ⟨hfree, hrest⟩ := h.newChunk d hd
    exact ⟨⟨hfree.1, hunused d hfree.2⟩, hrest⟩
  case newBuffer =>
    intro j hj
    have hnone := h.newBuffer j hj
    by_contra hsome
    obtain ⟨x, hx⟩ := Option.ne_none_iff_exists'.mp hsome
    obtain ⟨y, hy, -⟩ := hbefore j x hx
    rw [hnone] at hy
    cases hy

/-- Chunks enter the pool from nowhere, and leave it. -/
theorem setPool (h : Placed s) {pool : List ℕ} (nodup : pool.Nodup)
    (pooled : ∀ c ∈ pool, c ∈ s.sendBufferChunkPool ∨ Loose s c ∧ c < s.chunkCount) :
    Placed { s with sendBufferChunkPool := pool } := by
  constructor
  case tlsOwner => exact h.tlsOwner
  case bufferOwner => exact h.bufferOwner
  case single => exact h.single
  case pool => exact nodup
  case pooled =>
    intro d hd
    obtain hold | ⟨hloose, -⟩ := pooled d hd
    · exact h.pooled d hold
    · exact hloose.free
  case carried =>
    intro t d hd
    refine ⟨(h.carried t d hd).1, fun hmem => ?_⟩
    obtain hold | ⟨hloose, -⟩ := pooled d hmem
    · exact (h.carried t d hd).2 hold
    · exact hloose.carried t hd
  case carriedOnce => exact h.carriedOnce
  case fresh => exact h.fresh
  case newChunk =>
    intro d hd
    refine ⟨(h.newChunk d hd).1, fun hmem => ?_, (h.newChunk d hd).2.2⟩
    obtain hold | ⟨-, hlt⟩ := pooled d hmem
    · exact (h.newChunk d hd).2.1 hold
    · exact absurd hd (Nat.not_le.mpr hlt)
  case newBuffer => exact h.newBuffer

theorem newChunkCount (h : Placed s) : Placed { s with chunkCount := s.chunkCount + 1 } :=
  ⟨h.tlsOwner, h.bufferOwner, h.single, h.pool, h.pooled, h.carried, h.carriedOnce, h.fresh,
    fun c hc => h.newChunk c (Nat.le_of_succ_le hc), h.newBuffer⟩

variable [DecidableEq Tid]

/-- A thread goes on, with a chunk that was nowhere if it carries one. -/
theorem setPc (h : Placed s) {pc : Pc}
    (carried : ∀ c, pc.carried = some c → Loose s c ∧ c < s.chunkCount)
    (fresh : pc.fresh = true → ∀ c, s.tlsSendBufferChunk t = some c → Unused s c) :
    Placed (s.setPc t pc) := by
  have hself := s.setPc_self t pc
  have hother : ∀ u, u ≠ t → (s.setPc t pc).threads u = s.threads u :=
    fun u hu => s.setPc_of_ne hu pc
  constructor
  case tlsOwner => exact h.tlsOwner
  case bufferOwner => exact h.bufferOwner
  case single => exact h.single
  case pool => exact h.pool
  case pooled => exact h.pooled
  case carried =>
    intro u d hu
    obtain rfl | hne := eq_or_ne u t
    · rw [hself] at hu
      exact ⟨(carried d hu).1.free, (carried d hu).1.pool⟩
    · rw [hother u hne] at hu
      exact h.carried u d hu
  case carriedOnce =>
    intro u v d hu hv
    obtain rfl | hut := eq_or_ne u t
    · by_contra hvt
      rw [hself] at hu
      rw [hother v (Ne.symm hvt)] at hv
      exact (carried d hu).1.carried v hv
    · rw [hother u hut] at hu
      obtain rfl | hvt := eq_or_ne v t
      · rw [hself] at hv
        exact absurd hu ((carried d hv).1.carried u)
      · rw [hother v hvt] at hv
        exact h.carriedOnce u v d hu hv
  case fresh =>
    intro u d hu hd
    obtain rfl | hne := eq_or_ne u t
    · rw [hself] at hu
      exact fresh hu d hd
    · rw [hother u hne] at hu
      exact h.fresh u d hu hd
  case newChunk =>
    intro d hd
    obtain ⟨hfree, hpool, hcarried⟩ := h.newChunk d hd
    refine ⟨hfree, hpool, fun u hu => ?_⟩
    obtain rfl | hne := eq_or_ne u t
    · rw [hself] at hu
      exact absurd hd (Nat.not_le.mpr (carried d hu).2)
    · rw [hother u hne] at hu
      exact hcarried u hu
  case newBuffer => exact h.newBuffer

/-- A thread that carries nothing afterwards. -/
theorem setPc_of_none (h : Placed s) {pc : Pc} (carried : pc.carried = none)
    (fresh : pc.fresh = true → (s.threads t).fresh = true) : Placed (s.setPc t pc) := by
  apply h.setPc
  · intro c hc
    rw [carried] at hc
    cases hc
  · exact fun hpc c current => h.fresh t c (fresh hpc) current

/-- A thread takes a chunk that is nowhere as its current chunk. -/
theorem setTls (h : Placed s) (loose : Loose s c) (old : c < s.chunkCount)
    (owner : Owner.tls t ∈ (s.chunks c).owners) : Placed
      { s with tlsSendBufferChunk := Function.update s.tlsSendBufferChunk t (some c) } := by
  have hcase : ∀ u d, Function.update s.tlsSendBufferChunk t (some c) u = some d →
      (u = t ∧ d = c) ∨ s.tlsSendBufferChunk u = some d := by
    intro u d hd
    obtain rfl | hne := eq_or_ne u t
    · rw [Function.update_self] at hd
      exact .inl ⟨rfl, (Option.some.inj hd).symm⟩
    · rw [Function.update_of_ne hne] at hd
      exact .inr hd
  have hfree : ∀ d, d ≠ c → Free s d → Free
      { s with tlsSendBufferChunk := Function.update s.tlsSendBufferChunk t (some c) } d := by
    intro d hne hd
    refine ⟨fun u hu => ?_, hd.2⟩
    obtain ⟨-, rfl⟩ | hbefore := hcase u d hu
    · exact hne rfl
    · exact hd.1 u hbefore
  constructor
  case tlsOwner =>
    intro u d hd
    obtain ⟨rfl, rfl⟩ | hbefore := hcase u d hd
    · exact owner
    · exact h.tlsOwner u d hbefore
  case bufferOwner => exact h.bufferOwner
  case single =>
    intro u v d hu hv
    obtain ⟨rfl, rfl⟩ | hu' := hcase u d hu
    · obtain ⟨rfl, -⟩ | hv' := hcase v d hv
      · rfl
      · exact absurd hv' (loose.free.1 v)
    · obtain ⟨rfl, rfl⟩ | hv' := hcase v d hv
      · exact absurd hu' (loose.free.1 u)
      · exact h.single u v d hu' hv'
  case pool => exact h.pool
  case pooled =>
    intro d hd
    exact hfree d (fun heq => loose.pool (heq ▸ hd)) (h.pooled d hd)
  case carried =>
    intro u d hd
    obtain ⟨hd', hpool⟩ := h.carried u d hd
    exact ⟨hfree d (fun heq => loose.carried u (heq ▸ hd)) hd', hpool⟩
  case carriedOnce => exact h.carriedOnce
  case fresh =>
    intro u d hu hd
    obtain ⟨-, rfl⟩ | hbefore := hcase u d hd
    · exact loose.free.2
    · exact h.fresh u d hu hbefore
  case newChunk =>
    intro d hd
    obtain ⟨hd', hrest⟩ := h.newChunk d hd
    exact ⟨hfree d (fun heq => absurd old (Nat.not_lt.mpr (heq ▸ hd))) hd', hrest⟩
  case newBuffer => exact h.newBuffer

/-- The current chunk of a thread gets a new buffer. -/
theorem makeShared (h : Placed s) (current : s.tlsSendBufferChunk t = some c) {size : UInt32} :
    Placed (s.makeShared t c size) := by
  have hcount : (s.chunks c).owners ⊆ insert (Owner.sendBuffer s.sendBufferCount) (s.chunks c).owners :=
    Finset.subset_insert _ _
  have hpc : Placed (s.setPc t .idle) := h.setPc_of_none rfl nofun
  have hidle := s.setPc_self t .idle
  have hchunk : Placed ((s.setPc t .idle).setChunk c
      { s.chunks c with owners := insert (Owner.sendBuffer s.sendBufferCount) (s.chunks c).owners }) := by
    apply hpc.setChunk
    · exact fun u hu => hcount (h.tlsOwner u c hu)
    · rintro i x hx rfl
      exact hcount (h.bufferOwner i x hx)
  have hbuffers : ∀ i x, (s.makeShared t c size).sendBuffers i = some x →
      (i = s.sendBufferCount ∧ x.ownerChunk = c) ∨ s.sendBuffers i = some x := by
    intro i x hx
    change Function.update s.sendBuffers s.sendBufferCount _ i = some x at hx
    obtain rfl | hne := eq_or_ne i s.sendBufferCount
    · rw [Function.update_self] at hx
      cases hx
      exact .inl ⟨rfl, rfl⟩
    · rw [Function.update_of_ne hne] at hx
      exact .inr hx
  have hunused : ∀ d, d ≠ c → Unused s d → Unused (s.makeShared t c size) d := by
    intro d hne hd i x hx
    obtain ⟨-, rfl⟩ | hbefore := hbuffers i x hx
    · exact hne.symm
    · exact hd i x hbefore
  have hfree : ∀ d, Free s d → Free (s.makeShared t c size) d := by
    intro d hd
    refine ⟨hd.1, hunused d ?_ hd.2⟩
    rintro rfl
    exact hd.1 t current
  constructor
  case tlsOwner => exact hchunk.tlsOwner
  case bufferOwner =>
    intro i x hx
    obtain ⟨rfl, rfl⟩ | hbefore := hbuffers i x hx
    · change _ ∈ (Function.update s.chunks x.ownerChunk _ x.ownerChunk).owners
      rw [Function.update_self]
      exact Finset.mem_insert_self _ _
    · exact hchunk.bufferOwner i x hbefore
  case single => exact h.single
  case pool => exact h.pool
  case pooled => exact fun d hd => hfree d (h.pooled d hd)
  case carried =>
    intro u d hd
    obtain ⟨hd', hpool⟩ := hpc.carried u d hd
    exact ⟨hfree d hd', hpool⟩
  case carriedOnce => exact hpc.carriedOnce
  case fresh =>
    intro u d hu hd
    have hunused' : Unused s d := hpc.fresh u d hu hd
    refine hunused d ?_ hunused'
    rintro rfl
    obtain rfl := h.single u t d hd current
    change ((s.setPc u .idle).threads u).fresh = true at hu
    rw [hidle] at hu
    cases hu
  case newChunk =>
    intro d hd
    obtain ⟨hd', hpool, hcarried⟩ := hpc.newChunk d hd
    exact ⟨hfree d hd', hpool, hcarried⟩
  case newBuffer =>
    intro i hi
    have hne : i ≠ s.sendBufferCount := Nat.ne_of_gt hi
    change Function.update s.sendBuffers s.sendBufferCount _ i = none
    rw [Function.update_of_ne hne]
    exact h.newBuffer i (Nat.le_of_succ_le hi)

/-- A `shared_ptr` to a chunk outside the pool goes. If it was the last one, the chunk is
free. -/
theorem release (h : Placed s) {owner : Owner Tid} {resume : Option UInt32}
    (tls : ∀ u, s.tlsSendBufferChunk u = some c → Owner.tls u ≠ owner)
    (sendBuffers : ∀ i x, s.sendBuffers i = some x → x.ownerChunk = c → Owner.sendBuffer i ≠ owner)
    (pool : c ∉ s.sendBufferChunkPool) (carried : ∀ u, (s.threads u).carried ≠ some c)
    (old : c < s.chunkCount)
    (fresh : resume.isSome = true → ∀ d, s.tlsSendBufferChunk t = some d → Unused s d) :
    Placed (s.release t c owner resume) := by
  have hchunk : Placed (s.setChunk c
      { s.chunks c with owners := (s.chunks c).owners.erase owner }) := by
    apply h.setChunk
    · exact fun u hu => Finset.mem_erase.mpr ⟨tls u hu, h.tlsOwner u c hu⟩
    · rintro i x hx rfl
      exact Finset.mem_erase.mpr ⟨sendBuffers i x hx rfl, h.bufferOwner i x hx⟩
  simp only [State.release]
  split
  next hempty =>
    apply hchunk.setPc
    · rintro d ⟨⟩
      refine ⟨⟨⟨fun u hu => ?_, ?_⟩, pool, carried⟩, old⟩
      · have hmem := Finset.mem_erase.mpr ⟨tls u hu, h.tlsOwner u c hu⟩
        rw [hempty] at hmem
        exact absurd hmem (Finset.notMem_empty _)
      · rintro i x hx rfl
        have hmem := Finset.mem_erase.mpr ⟨sendBuffers i x hx rfl, h.bufferOwner i x hx⟩
        rw [hempty] at hmem
        exact absurd hmem (Finset.notMem_empty _)
    · exact fresh
  next =>
    apply hchunk.setPc
    · intro d hd
      cases resume with
      | none => cases hd
      | some size => cases hd
    · intro hfresh
      cases resume with
      | none => cases hfresh
      | some size => exact fresh rfl

/-- The chunk that `Pop` returns is loose: it left the pool, or it is new. -/
theorem pop (h : Placed s) {size : UInt32} {second : Bool} : Placed (s.pop t size second) := by
  unfold State.pop
  split
  next c hlast =>
    have happend := List.dropLast_append_getLast? c hlast
    have hmem : c ∈ s.sendBufferChunkPool := List.mem_of_getLast? hlast
    have hnodup := h.pool
    rw [← happend] at hnodup
    have hnot : c ∉ s.sendBufferChunkPool.dropLast := fun hc =>
      (List.nodup_append.mp hnodup).2.2 c hc c (List.mem_singleton_self c) rfl
    have hpool := h.setPool (List.nodup_append.mp hnodup).1
      fun d hd => .inl (List.mem_of_mem_dropLast hd)
    have hloose : Loose { s with sendBufferChunkPool := s.sendBufferChunkPool.dropLast } c :=
      ⟨h.pooled c hmem, hnot, fun u hu => (h.carried u c hu).2 hmem⟩
    have hchunk := hpool.setChunk c
      { s.chunks c with owners := insert (Owner.popped t) ((s.chunks c).owners.erase .pool) }
      (fun u hu => absurd hu (hloose.free.1 u)) fun i x hx heq => absurd heq (hloose.free.2 i x hx)
    apply hchunk.setPc
    · rintro d ⟨⟩
      exact ⟨⟨hloose.free, hloose.pool, hloose.carried⟩, h.lt_of_pooled hmem⟩
    · exact nofun
  next =>
    obtain ⟨hfree, hpool, hcarried⟩ := h.newChunk s.chunkCount (Nat.le_refl _)
    have hchunk := h.newChunkCount.setChunk s.chunkCount { owners := {Owner.popped t} }
      (fun u hu => absurd hu (hfree.1 u)) fun i x hx heq => absurd heq (hfree.2 i x hx)
    apply hchunk.setPc
    · rintro d ⟨⟩
      exact ⟨⟨hfree, hpool, hcarried⟩, Nat.lt_succ_self _⟩
    · exact nofun

/-- The deleter puts the chunk that it carries into the pool. -/
theorem push (h : Placed s) {resume : Option UInt32} (here : s.threads t = .push c resume) :
    Placed (s.push t c resume) := by
  have hcarried : (s.threads t).carried = some c := by
    rw [here]
    rfl
  obtain ⟨hfree, hnot⟩ := h.carried t c hcarried
  have hpc : Placed (s.setPc t (resume.elim .idle (.resetBuffer · true))) := by
    apply h.setPc_of_none
    · cases resume with
      | none => rfl
      | some size => rfl
    · intro hfresh
      rw [here]
      cases resume with
      | none => cases hfresh
      | some size => rfl
  have hloose : Loose (s.setPc t (resume.elim .idle (.resetBuffer · true))) c := by
    refine ⟨hfree, hnot, fun u hu => ?_⟩
    change (Function.update s.threads t _ u).carried = some c at hu
    obtain rfl | hne := eq_or_ne u t
    · rw [Function.update_self] at hu
      cases resume with
      | none => cases hu
      | some size => cases hu
    · rw [Function.update_of_ne hne] at hu
      exact hne (h.carriedOnce u t c hu hcarried)
  have hnodup : (s.sendBufferChunkPool ++ [c]).Nodup := by
    refine List.nodup_append.mpr ⟨h.pool, List.nodup_singleton c, ?_⟩
    rintro d hd _ hc rfl
    exact hnot (List.mem_singleton.mp hc ▸ hd)
  have hpool := hpc.setPool hnodup fun d hd => by
    obtain hd | hd := List.mem_append.mp hd
    · exact .inl hd
    · obtain rfl := List.mem_singleton.mp hd
      exact .inr ⟨hloose, h.lt_of_carried hcarried⟩
  exact hpool.setChunk c _ (fun u hu => absurd hu (hfree.1 u))
    fun i x hx heq => absurd heq (hfree.2 i x hx)

omit s' in
theorem setPc_setPc (s : State Tid) (t : Tid) (pc pc' : Pc) :
    (s.setPc t pc).setPc t pc' = s.setPc t pc' := by
  simp only [State.setPc, Function.update_idem]

omit s' in
theorem release_setPc (s : State Tid) (t : Tid) (pc : Pc) (c : ℕ) (owner : Owner Tid)
    (resume : Option UInt32) :
    (s.setPc t pc).release t c owner resume = s.release t c owner resume := by
  simp only [State.release, State.setPc, State.setChunk, Function.update_idem]

/-- The popped chunk becomes the current one, and the old one is released. -/
theorem assign (h : Placed s) {size : UInt32} {second : Bool}
    (here : s.threads t = .assign size second c) : Placed (s.assign t size second c) := by
  have hcarried : (s.threads t).carried = some c := by
    rw [here]
    rfl
  obtain ⟨hfree, hnot⟩ := h.carried t c hcarried
  have hpc : Placed (s.setPc t .idle) := h.setPc_of_none rfl nofun
  have hloose : Loose (s.setPc t .idle) c := by
    refine ⟨hfree, hnot, fun u hu => ?_⟩
    change (Function.update s.threads t .idle u).carried = some c at hu
    obtain rfl | hne := eq_or_ne u t
    · rw [Function.update_self] at hu
      cases hu
    · rw [Function.update_of_ne hne] at hu
      exact hne (h.carriedOnce u t c hu hcarried)
  have hchunk := hpc.setChunk c
    { s.chunks c with owners := insert (Owner.tls t) ((s.chunks c).owners.erase (.popped t)) }
    (fun u hu => absurd hu (hfree.1 u)) fun i x hx heq => absurd heq (hfree.2 i x hx)
  have htls := hchunk.setTls (t := t) (c := c) ⟨hloose.free, hloose.pool, hloose.carried⟩
    (h.lt_of_carried hcarried) (by
      change Owner.tls t ∈ (Function.update s.chunks c _ c).owners
      rw [Function.update_self]
      exact Finset.mem_insert_self _ _)
  have hunused : ∀ d, Function.update s.tlsSendBufferChunk t (some c) t = some d → Unused s d := by
    intro d hd
    rw [Function.update_self] at hd
    cases hd
    exact hfree.2
  simp only [State.assign]
  split
  next hnone =>
    rw [← setPc_setPc _ t .idle]
    exact htls.setPc nofun fun _ => hunused
  next old hold =>
    have hne : old ≠ c := by
      rintro rfl
      exact hfree.1 t hold
    rw [← release_setPc _ t .idle]
    apply htls.release
    · rintro u hu heq
      obtain rfl := Owner.tls.inj heq
      change Function.update s.tlsSendBufferChunk u (some c) u = some old at hu
      rw [Function.update_self] at hu
      exact hne (Option.some.inj hu).symm
    · exact fun _ _ _ _ => nofun
    · exact fun hmem => (h.pooled old hmem).1 t hold
    · intro u hu
      exact ((hpc.carried u old hu).1.1 t) hold
    · exact h.lt_of_current hold
    · exact fun _ => hunused

/-- Every step keeps the chunks in their places. -/
theorem step (h : Placed s) {e : Event Tid} (hstep : Step s e s') : Placed s' := by
  cases hstep with
  | crash => exact h.crash
  | openFirst idle => exact h.setPc_of_none rfl nofun
  | openCurrent idle => exact h.setPc_of_none rfl nofun
  | close live idle opened fits =>
      refine (h.setSendBuffer live ?_).setPc_of_none rfl nofun
      rintro x ⟨⟩
      rfl
  | count references live =>
      apply h.setSendBuffer live
      rintro x ⟨⟩
      rfl
  | @dropLast t i sendBuffer live idle free =>
      have hdead : Placed (s.setSendBuffer i none) := h.setSendBuffer live nofun
      apply hdead.release
      · exact fun _ _ => nofun
      · rintro j x hx - heq
        obtain rfl := Owner.sendBuffer.inj heq
        change Function.update s.sendBuffers j none j = some x at hx
        rw [Function.update_self] at hx
        cases hx
      · exact fun hmem => (h.pooled _ hmem).2 i sendBuffer live rfl
      · exact fun u hu => (h.carried u _ hu).1.2 i sendBuffer live rfl
      · exact h.lt_of_live live
      · exact nofun
  | pop here => exact h.pop
  | assign here => exact h.assign here
  | push here => exact h.push here
  | @resetBuffer t c size second here current =>
      have hchunk : Placed (s.setChunk c { s.chunks c with isOpened := false, usedSize := 0 }) :=
        h.setChunk_same rfl
      apply hchunk.setPc_of_none
      · cases second <;> rfl
      · intro _
        change (s.threads t).fresh = true
        rw [here]
        rfl
  | assertClosed here current closed => exact h.setPc_of_none rfl fun hfresh => by rwa [here]
  | tooSmall here => exact h.setPc_of_none rfl nofun
  | largeEnough here => exact h.setPc_of_none rfl fun hfresh => by rwa [here]
  | assertOpen here => exact h.setPc_of_none rfl fun hfresh => by rwa [here]
  | refused here => exact h.setPc_of_none rfl nofun
  | granted here current fits => exact h.setPc_of_none rfl fun hfresh => by rwa [here]
  | @setOpened t c size fresh here current =>
      have hchunk : Placed (s.setChunk c { s.chunks c with isOpened := true }) :=
        h.setChunk_same rfl
      apply hchunk.setPc_of_none
      · rfl
      · intro hfresh
        change (s.threads t).fresh = true
        rwa [here]
  | makeShared here current => exact h.makeShared current
  | closeAssert here live => exact h.setPc_of_none rfl nofun
  | @closeOpened t i sendBuffer writeSize here live =>
      have hchunk : Placed (s.setChunk sendBuffer.ownerChunk
          { s.chunks sendBuffer.ownerChunk with isOpened := false }) := h.setChunk_same rfl
      exact hchunk.setPc_of_none rfl nofun
  | @closeUsed t i sendBuffer writeSize here live =>
      have hchunk : Placed (s.setChunk sendBuffer.ownerChunk
          { s.chunks sendBuffer.ownerChunk with
            usedSize := (s.chunks sendBuffer.ownerChunk).usedSize + writeSize }) :=
        h.setChunk_same rfl
      refine (hchunk.setSendBuffer live ?_).setPc_of_none rfl nofun
      rintro x ⟨⟩
      rfl

end Placed

end SendBufferManager

end ServerCore
