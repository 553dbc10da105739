import ServerCore.Memory.Basic
import ServerCore.Memory.Stomp

/-!
# Where headers are attached

`MemoryManager::Allocate` and `ObjectPool::Pop` attach a `MemoryHeader`, which is aligned
to `SLIST_ALIGNMENT`, to an address that one of three places gives them: the list of a
`MemoryPool`, `_aligned_malloc`, or `StompAllocator`. The two pools pass
`SLIST_ALIGNMENT` on; the stomp allocator counts back from the end of a page.

A call is one step, and blocks are addresses. What the system answers is aligned as
documented, and is otherwise arbitrary: no block need be disjoint from another. Callers
return the pointers that they were given. `attached` records each address at which a
header was attached and the pointer that was returned. No step reads it.
-/

namespace ServerCore

open Interleaving

namespace Memory

namespace Alignment

/-- `SLIST_ALIGNMENT`. -/
def slistAlignment : ℕ := 16

/-- What is fixed at build time: `stomp` is `_STOMP_ALLOCATOR`, and `sizeof` gives the sizes
of the types that have an `ObjectPool`. -/
structure Config (Ty : Type) where
  target : Target
  build : Build
  stomp : Bool
  sizeof : Ty → ℕ

/-- What `_aligned_malloc` with `SLIST_ALIGNMENT` and `VirtualAlloc` would answer a call. -/
structure Answers where
  alignedMalloc : UInt64
  virtualAlloc : UInt64
  aligned : slistAlignment ∣ alignedMalloc.toNat
  pageAligned : 4096 ∣ virtualAlloc.toNat

/-- The memory pools: those of the manager, and the `s_memoryPool` of each type. -/
inductive Pool (Ty : Type) where
  | sizeClass (k : ℕ)
  | object (type : Ty)
  deriving DecidableEq

/-- `held` are the pointers that callers own, with the type of the `ObjectPool` that gave
them, if one did. -/
structure State (Ty : Type) where
  header : Pool Ty → List UInt64 := fun _ => []
  allocSize : UInt64 → UInt32 := fun _ => 0
  held : List (Option Ty × UInt64) := []
  crashed : Bool := false
  attached : List (UInt64 × UInt64) := []

inductive Event (Ty : Type) where
  | allocate (size : UInt32) (answers : Answers)
  | release (ptr : UInt64)
  | pop (type : Ty) (answers : Answers)
  | push (type : Ty) (obj : UInt64)

variable {Ty : Type}

/-- `sizeof(MemoryHeader)` as a distance between addresses. -/
def Config.headerSize (config : Config Ty) : UInt64 := config.target.sizeofMemoryHeader.toUInt64

/-- `s_allocSize`. -/
def Config.allocSize (config : Config Ty) (type : Ty) : Int32 :=
  Int32.ofNat (config.sizeof type + config.target.sizeofMemoryHeader.toNat)

namespace State

def crash (s : State Ty) : State Ty := { s with crashed := true }

/-- `AttachHeader`. The pointer that it returns goes to the caller. -/
def attachHeader (config : Config Ty) (s : State Ty) (owner : Option Ty) (header : UInt64)
    (size : UInt32) : State Ty :=
  let memory := header + config.headerSize
  { s with
    allocSize := Function.update s.allocSize header size
    held := (owner, memory) :: s.held
    attached := (header, memory) :: s.attached }

variable [DecidableEq Ty]

/-- `MemoryPool::Pop`. `none` is a failed assertion. -/
def popHeader (config : Config Ty) (s : State Ty) (pool : Pool Ty) (answers : Answers) :
    Option (State Ty × UInt64) :=
  match s.header pool with
  | [] => some (s, answers.alignedMalloc)
  | memory :: rest =>
      if config.build = .debug ∧ s.allocSize memory ≠ 0 then none
      else some ({ s with header := Function.update s.header pool rest }, memory)

/-- `MemoryPool::Push`. -/
def pushHeader (s : State Ty) (pool : Pool Ty) (ptr : UInt64) : State Ty :=
  { s with
    allocSize := Function.update s.allocSize ptr 0
    header := Function.update s.header pool (ptr :: s.header pool) }

end State

/-- `DetachHeader`. -/
def detachHeader (config : Config Ty) (ptr : UInt64) : UInt64 := ptr - config.headerSize

section Calls

variable [DecidableEq Ty]

/-- `MemoryManager::Allocate`. Reading a table entry that was never written has no step. -/
def allocate (config : Config Ty) (s : State Ty) (size : UInt32) (answers : Answers) :
    Option (State Ty) :=
  let allocSize := size + config.target.sizeofMemoryHeader
  if config.stomp then
    match StompAllocator.allocateMemory config.build (fun _ => answers.virtualAlloc)
        allocSize.toInt32 with
    | none => some s.crash
    | some header => some (s.attachHeader config none header allocSize)
  else if allocSize > maxAllocSize then
    some (s.attachHeader config none answers.alignedMalloc allocSize)
  else
    match MemoryManager.new.poolTable allocSize.toNat with
    | none => none
    | some k =>
        match s.popHeader config (.sizeClass k) answers with
        | none => some s.crash
        | some (s, header) => some (s.attachHeader config none header allocSize)

/-- `MemoryManager::Release`. -/
def release (config : Config Ty) (s : State Ty) (ptr : UInt64) : Option (State Ty) :=
  let header := detachHeader config ptr
  let allocSize := s.allocSize header
  if config.build = .debug ∧ allocSize = 0 then some s.crash
  else if config.stomp then some s
  else if allocSize > maxAllocSize then some s
  else (MemoryManager.new.poolTable allocSize.toNat).map fun k =>
    s.pushHeader (.sizeClass k) header

/-- `ObjectPool::Pop`, up to the constructor of the object. -/
def pop (config : Config Ty) (s : State Ty) (type : Ty) (answers : Answers) : State Ty :=
  let allocSize := config.allocSize type
  if config.stomp then
    match StompAllocator.allocateMemory config.build (fun _ => answers.virtualAlloc) allocSize with
    | none => s.crash
    | some ptr => s.attachHeader config (some type) ptr allocSize.toUInt32
  else
    match s.popHeader config (.object type) answers with
    | none => s.crash
    | some (s, memory) => s.attachHeader config (some type) memory allocSize.toUInt32

/-- `ObjectPool::Push`, after the destructor of the object. -/
def push (config : Config Ty) (s : State Ty) (type : Ty) (obj : UInt64) : State Ty :=
  if config.stomp then s else s.pushHeader (.object type) (detachHeader config obj)

/-- A call by a caller who owns the pointer that is returned. -/
def State.next (config : Config Ty) (s : State Ty) (e : Event Ty) : Option (State Ty) :=
  if s.crashed then none
  else
    match e with
    | .allocate size answers => allocate config s size answers
    | .release ptr =>
        if (none, ptr) ∈ s.held then
          release config { s with held := s.held.erase (none, ptr) } ptr
        else none
    | .pop type answers => some (pop config s type answers)
    | .push type obj =>
        if (some type, obj) ∈ s.held then
          some (push config { s with held := s.held.erase (some type, obj) } type obj)
        else none

def system (config : Config Ty) : System (State Ty) (Event Ty) where
  init s := s = {}
  next := State.next config

end Calls

/-- The address is a multiple of `SLIST_ALIGNMENT`. -/
def Aligned (address : UInt64) : Prop := slistAlignment ∣ address.toNat

instance (address : UInt64) : Decidable (Aligned address) :=
  inferInstanceAs (Decidable (_ ∣ _))

/-- Every header was attached at an aligned address, and so was the pointer behind it. -/
def State.HeadersAligned (s : State Ty) : Prop :=
  ∀ a ∈ s.attached, Aligned a.1 ∧ Aligned a.2

section Arithmetic

variable (config : Config Ty)

theorem dvd_sizeofMemoryHeader (target : Target) :
    slistAlignment ∣ target.sizeofMemoryHeader.toNat := by
  cases target <;> decide

theorem aligned_headerSize : Aligned config.headerSize := by
  unfold Config.headerSize
  cases config.target <;> decide

theorem aligned_attach {header : UInt64} (h : Aligned header) :
    Aligned (header + config.headerSize) :=
  (Word.dvd_toNat_add (by decide) h _).mpr (aligned_headerSize config)

theorem aligned_detach {ptr : UInt64} (h : Aligned ptr) : Aligned (detachHeader config ptr) :=
  Word.dvd_toNat_sub (by decide) h (aligned_headerSize config)

/-- At the end of a page a block is aligned when its size is a multiple. -/
theorem aligned_stomp (answers : Answers) (n : Int32) :
    Aligned (answers.virtualAlloc + StompAllocator.offset n) ↔ (slistAlignment : ℤ) ∣ n.toInt := by
  have hpage : slistAlignment ∣ 4096 := by decide
  rw [Aligned, Word.dvd_toNat_add (by decide) (hpage.trans answers.pageAligned),
    StompAllocator.dvd_offset hpage]

/-- The header makes no difference to `Allocate`, and neither do the conversions. -/
theorem dvd_allocateSize (target : Target) (size : UInt32) :
    (slistAlignment : ℤ) ∣ (size + target.sizeofMemoryHeader).toInt32.toInt ↔
      slistAlignment ∣ size.toNat := by
  rw [Word.dvd_toInt32 (by decide), UInt32.toNat_add, Nat.dvd_mod_iff (by decide)]
  exact Nat.dvd_add_left (dvd_sizeofMemoryHeader target)

theorem dvd_allocSize (type : Ty) :
    (slistAlignment : ℤ) ∣ (config.allocSize type).toInt ↔
      slistAlignment ∣ config.sizeof type := by
  have hvalue : (config.allocSize type).toInt =
      ((config.sizeof type + config.target.sizeofMemoryHeader.toNat : ℕ) : ℤ).bmod (2 ^ 32) :=
    Int32.toInt_ofNat'
  rw [hvalue, Word.dvd_bmod (by decide), Int.natCast_dvd_natCast]
  exact Nat.dvd_add_left (dvd_sizeofMemoryHeader config.target)

end Arithmetic

/-- What the lists and the callers hold is aligned, and so is what was attached. -/
structure Sound (s : State Ty) : Prop where
  header : ∀ pool, ∀ memory ∈ s.header pool, Aligned memory
  held : ∀ owner ptr, (owner, ptr) ∈ s.held → Aligned ptr
  attached : s.HeadersAligned

theorem sound_start : Sound ({} : State Ty) where
  header _ _ hmem := absurd hmem List.not_mem_nil
  held _ _ hmem := absurd hmem List.not_mem_nil
  attached _ hmem := absurd hmem List.not_mem_nil

namespace Sound

variable {config : Config Ty} {s s' : State Ty} {pool : Pool Ty} {answers : Answers}

theorem crash (h : Sound s) : Sound s.crash := ⟨h.header, h.held, h.attached⟩

theorem attachHeader (h : Sound s) {header : UInt64} (aligned : Aligned header)
    (owner : Option Ty) (size : UInt32) :
    Sound (s.attachHeader config owner header size) where
  header := h.header
  held owner' ptr hmem := by
    obtain heq | hmem := List.mem_cons.mp hmem
    · cases heq
      exact aligned_attach config aligned
    · exact h.held owner' ptr hmem
  attached a hmem := by
    obtain rfl | hmem := List.mem_cons.mp hmem
    · exact ⟨aligned, aligned_attach config aligned⟩
    · exact h.attached a hmem

variable [DecidableEq Ty]

/-- A pool gets another list, of aligned blocks. -/
theorem setHeader (h : Sound s) {list : List UInt64} (aligned : ∀ memory ∈ list, Aligned memory)
    (allocSize : UInt64 → UInt32) (pool : Pool Ty) :
    Sound { s with allocSize, header := Function.update s.header pool list } where
  header pool' memory hmem := by
    change memory ∈ Function.update s.header pool list pool' at hmem
    by_cases heq : pool' = pool
    · subst heq
      rw [Function.update_self] at hmem
      exact aligned memory hmem
    · rw [Function.update_of_ne heq] at hmem
      exact h.header pool' memory hmem
  held := h.held
  attached := h.attached

/-- `Pop` returns an aligned block, from its list or from `_aligned_malloc`. -/
theorem popHeader {header : UInt64} (h : Sound s)
    (hpop : s.popHeader config pool answers = some (s', header)) : Sound s' ∧ Aligned header := by
  have hblocks := h.header pool
  unfold State.popHeader at hpop
  cases hlist : s.header pool with
  | nil =>
      rw [hlist] at hpop
      cases hpop
      exact ⟨h, answers.aligned⟩
  | cons memory rest =>
      rw [hlist] at hpop hblocks
      simp only at hpop
      split at hpop
      · cases hpop
      · cases hpop
        have hrest : ∀ memory ∈ rest, Aligned memory :=
          fun memory hmem => hblocks memory (List.mem_cons_of_mem _ hmem)
        exact ⟨h.setHeader hrest _ pool, hblocks header List.mem_cons_self⟩

theorem pushHeader (h : Sound s) {ptr : UInt64} (aligned : Aligned ptr) (pool : Pool Ty) :
    Sound (s.pushHeader pool ptr) := by
  apply h.setHeader
  intro memory hmem
  obtain rfl | hmem := List.mem_cons.mp hmem
  · exact aligned
  · exact h.header pool memory hmem

/-- A caller gives up a pointer. -/
theorem giveUp (h : Sound s) (x : Option Ty × UInt64) :
    Sound { s with held := s.held.erase x } where
  header := h.header
  held owner ptr hmem := h.held owner ptr (List.mem_of_mem_erase hmem)
  attached := h.attached

theorem release (h : Sound s) {ptr : UInt64} (aligned : Aligned ptr)
    (hrelease : release config s ptr = some s') : Sound s' := by
  unfold Alignment.release at hrelease
  simp only at hrelease
  split at hrelease
  · cases hrelease
    exact h.crash
  · split at hrelease
    · cases hrelease
      exact h
    · split at hrelease
      · cases hrelease
        exact h
      · obtain ⟨k, -, rfl⟩ := Option.map_eq_some_iff.mp hrelease
        exact h.pushHeader (aligned_detach config aligned) _

theorem push (h : Sound s) {obj : UInt64} (aligned : Aligned obj) (type : Ty) :
    Sound (push config s type obj) := by
  unfold Alignment.push
  split
  · exact h
  · exact h.pushHeader (aligned_detach config aligned) _

end Sound

/-- The Debug build does not serve a request of the stomp allocator for these sizes. -/
def Refused (config : Config Ty) (n : Int32) : Prop :=
  config.build = .debug ∧ (n = 0 ∨ StompAllocator.pageSize < n)

/-- A call that asks for `n` bytes, header included, ends the process or attaches a header.
The address is aligned unless it is counted back from the end of a page by a size that is
not a multiple. -/
def Serves (config : Config Ty) (s : State Ty) (n : Int32) (s' : State Ty) : Prop :=
  (s' = s.crash ∧ (config.stomp → Refused config n)) ∨
    ∃ s₀ owner header size, Sound s₀ ∧ s' = s₀.attachHeader config owner header size ∧
      (config.stomp → ¬Refused config n) ∧
      (Aligned header ↔ (config.stomp → (slistAlignment : ℤ) ∣ n.toInt))

namespace Serves

variable {config : Config Ty} {s s' : State Ty} {n : Int32}

theorem sound (h : Serves config s n s') (hs : Sound s)
    (fits : config.stomp → Refused config n ∨ (slistAlignment : ℤ) ∣ n.toInt) : Sound s' := by
  obtain ⟨rfl, -⟩ | ⟨s₀, owner, header, size, hs₀, rfl, hserved, haligned⟩ := h
  · exact hs.crash
  · refine hs₀.attachHeader (haligned.mpr fun hstomp => ?_) owner size
    exact (fits hstomp).resolve_left (hserved hstomp)

theorem fits (h : Serves config s n s') (aligned : s'.HeadersAligned) :
    config.stomp → Refused config n ∨ (slistAlignment : ℤ) ∣ n.toInt := by
  intro hstomp
  obtain ⟨-, hrefused⟩ | ⟨s₀, owner, header, size, -, rfl, -, haligned⟩ := h
  · exact .inl (hrefused hstomp)
  · have hheader : Aligned header := (aligned _ List.mem_cons_self).1
    exact .inr (haligned.mp hheader hstomp)

/-- A pool, or `_aligned_malloc`, serves with an aligned block. -/
theorem of_pooled (hpooled : ¬config.stomp = true) {s₀ : State Ty} (hs₀ : Sound s₀)
    {header : UInt64} (aligned : Aligned header) (owner : Option Ty) (size : UInt32) :
    Serves config s n (s₀.attachHeader config owner header size) :=
  .inr ⟨s₀, owner, header, size, hs₀, rfl, fun hstomp => absurd hstomp hpooled,
    iff_of_true aligned fun hstomp => absurd hstomp hpooled⟩

/-- The stomp allocator refuses, or serves with the end of a page. -/
theorem of_stomp (hs : Sound s) (answers : Answers) (owner : Option Ty) (size : UInt32)
    (hstomp : config.stomp = true) :
    Serves config s n
      (match StompAllocator.allocateMemory config.build (fun _ => answers.virtualAlloc) n with
        | none => s.crash
        | some header => s.attachHeader config owner header size) := by
  by_cases hrefused : Refused config n
  · have hnone : StompAllocator.allocateMemory config.build (fun _ => answers.virtualAlloc) n =
        none := if_pos hrefused
    rw [hnone]
    exact .inl ⟨rfl, fun _ => hrefused⟩
  · have hsome : StompAllocator.allocateMemory config.build (fun _ => answers.virtualAlloc) n =
        some (answers.virtualAlloc + StompAllocator.offset n) := if_neg hrefused
    rw [hsome]
    refine .inr ⟨s, owner, _, size, hs, rfl, fun _ => hrefused, ?_⟩
    rw [aligned_stomp]
    exact ⟨fun h _ => h, fun h => h hstomp⟩

end Serves

section Runs

variable [DecidableEq Ty] {config : Config Ty} {s s' : State Ty}

theorem allocate_serves (hs : Sound s) {size : UInt32} {answers : Answers}
    (h : allocate config s size answers = some s') :
    Serves config s (size + config.target.sizeofMemoryHeader).toInt32 s' := by
  unfold allocate at h
  simp only at h
  split at h
  next hstomp =>
    have hserves := Serves.of_stomp (n := (size + config.target.sizeofMemoryHeader).toInt32) hs
      answers none (size + config.target.sizeofMemoryHeader) hstomp
    split at h
    next hnone =>
      rw [hnone] at hserves
      cases h
      exact hserves
    next header hsome =>
      rw [hsome] at hserves
      cases h
      exact hserves
  next hpooled =>
    split at h
    · cases h
      exact .of_pooled hpooled hs answers.aligned _ _
    · split at h
      · cases h
      next k _ =>
        split at h
        next hpop =>
          cases h
          exact .inl ⟨rfl, fun hstomp => absurd hstomp hpooled⟩
        next s₀ header hpop =>
          cases h
          obtain ⟨hs₀, haligned⟩ := hs.popHeader hpop
          exact .of_pooled hpooled hs₀ haligned _ _

theorem pop_serves (hs : Sound s) (type : Ty) (answers : Answers) :
    Serves config s (config.allocSize type) (pop config s type answers) := by
  unfold pop
  simp only
  split
  next hstomp => exact .of_stomp hs answers _ _ hstomp
  next hpooled =>
    split
    next hpop => exact .inl ⟨rfl, fun hstomp => absurd hstomp hpooled⟩
    next s₀ memory hpop =>
      obtain ⟨hs₀, haligned⟩ := hs.popHeader hpop
      exact .of_pooled hpooled hs₀ haligned _ _

/-- In a build with the stomp allocator a request is refused, or it is for a multiple of
`SLIST_ALIGNMENT`. -/
def Fits (config : Config Ty) (_ : State Ty) : Event Ty → Prop
  | .allocate size _ => config.stomp →
      Refused config (size + config.target.sizeofMemoryHeader).toInt32 ∨ slistAlignment ∣ size.toNat
  | .pop type _ => config.stomp →
      Refused config (config.allocSize type) ∨ slistAlignment ∣ config.sizeof type
  | .release _ => True
  | .push _ _ => True

theorem Sound.next {e : Event Ty} (hs : Sound s) (hfits : Fits config s e)
    (h : s.next config e = some s') : Sound s' := by
  unfold State.next at h
  split at h
  · cases h
  · cases e with
    | allocate size answers =>
        apply (allocate_serves hs h).sound hs
        rwa [dvd_allocateSize]
    | pop type answers =>
        cases h
        apply (pop_serves hs type answers).sound hs
        rwa [dvd_allocSize]
    | release ptr =>
        simp only at h
        split at h
        next hheld => exact (hs.giveUp _).release (hs.held none ptr hheld) h
        · cases h
    | push type obj =>
        simp only at h
        split at h
        next hheld =>
          cases h
          exact (hs.giveUp _).push (hs.held (some type) obj hheld) type
        · cases h

/-- A call after which all headers are aligned was for a size that fits. -/
theorem fits_of_aligned {e : Event Ty} (hs : Sound s) (h : s.next config e = some s')
    (aligned : s'.HeadersAligned) : Fits config s e := by
  unfold State.next at h
  split at h
  · cases h
  · cases e with
    | allocate size answers =>
        have hfits := (allocate_serves hs h).fits aligned
        rwa [dvd_allocateSize] at hfits
    | pop type answers =>
        cases h
        have hfits := (pop_serves hs type answers).fits aligned
        rwa [dvd_allocSize] at hfits
    | release ptr => trivial
    | push type obj => trivial

/-- Without the stomp allocator all headers are aligned. -/
theorem headersAligned_pooled (hpooled : config.stomp = false) (es : List (Event Ty)) :
    (system config).Throughout State.HeadersAligned es {} := by
  apply System.throughout_of_invariant (fun _ hs => hs.attached) _ es sound_start
  intro s e s' hs hnext
  apply hs.next _ hnext
  cases e <;> simp [Fits, hpooled]

/-- All headers of a run are aligned exactly when each of its requests fits. -/
theorem headersAligned_iff (config : Config Ty) (es : List (Event Ty)) :
    (system config).Throughout State.HeadersAligned es {} ↔
      (system config).Along (Fits config) es {} := by
  refine System.throughout_iff_along (I := Sound) (fun _ hs => hs.attached) ?_ ?_ es sound_start
  · intro s e s' hs hfits hnext
    exact hs.next hfits hnext
  · intro s e s' hs hnext aligned
    exact fits_of_aligned hs hnext aligned

end Runs

/-- A build with the stomp allocator, with one type of eight bytes. -/
def stompBuild : Config Unit where
  target := .x64
  build := .debug
  stomp := true
  sizeof _ := 8

/-- A page at 64 KiB. -/
def somePage : Answers where
  alignedMalloc := 0x10000
  virtualAlloc := 0x10000
  aligned := by decide
  pageAligned := by decide

/-- In a build with the stomp allocator a request for one byte is not aligned. -/
theorem headersAligned_oneByte :
    ¬∀ (config : Config Unit) (es : List (Event Unit)),
      (system config).Throughout State.HeadersAligned es {} := by
  intro hall
  have hattached : ∃ s, (system stompBuild).run [.allocate 1 somePage] {} = some s ∧
      ((0x10FDF, 0x10FFF) : UInt64 × UInt64) ∈ s.attached :=
    System.exists_of_run (by decide +kernel)
  obtain ⟨s, hrun, hmem⟩ := hattached
  have haligned := (hall stompBuild _).of_run hrun _ hmem
  exact absurd haligned (by decide)

end Alignment

end Memory

end ServerCore
