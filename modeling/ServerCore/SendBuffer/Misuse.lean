import Mathlib.Data.List.Basic
import ServerCore.SendBuffer.Basic

/-!
# Misuse of send buffers on one thread

One thread calls `SendBufferManager::Open` and `SendBuffer::Close` in the Debug build, in
any order and with any sizes, and each call runs to its end. Whether a buffer is open is
kept in one flag of its chunk. A second `Close` therefore passes the assertion when
another buffer of the chunk is open, and adds to `usedSize` once more.

A chunk records the `Close` calls that have added to `usedSize` since its last reset, and
a buffer whether it has been closed. No function of the source reads either.
-/

namespace ServerCore

namespace SendBufferManager

namespace OneThread

open Interleaving

structure SendBufferChunk where
  isOpened : Bool := false
  usedSize : UInt32 := 0
  closes : List (ℕ × UInt32) := []
  deriving DecidableEq, Repr

def SendBufferChunk.freeSize (chunk : SendBufferChunk) : UInt32 :=
  sendBufferChunkSize - chunk.usedSize

/-- A buffer is `live` until the last reference to it is dropped. -/
structure SendBuffer where
  ownerChunk : ℕ
  buffer : ℕ
  allocSize : UInt32
  writeSize : UInt32 := 0
  closed : Bool := false
  live : Bool := true
  deriving DecidableEq, Repr

structure State where
  chunks : ℕ → SendBufferChunk := fun _ => {}
  chunkCount : ℕ := 0
  sendBuffers : List SendBuffer := []
  tlsSendBufferChunk : Option ℕ := none
  sendBufferChunkPool : List ℕ := []
  /-- A misuse has returned. -/
  missed : Bool := false
  crashed : Bool := false

namespace State

variable (s : State)

def setChunk (c : ℕ) (chunk : SendBufferChunk) : State :=
  { s with chunks := Function.update s.chunks c chunk }

@[simp] theorem setChunk_self (c : ℕ) (chunk : SendBufferChunk) :
    (s.setChunk c chunk).chunks c = chunk := Function.update_self ..

theorem setChunk_of_ne {c d : ℕ} (h : d ≠ c) (chunk : SendBufferChunk) :
    (s.setChunk c chunk).chunks d = s.chunks d := Function.update_of_ne h ..

def crash : State := { s with crashed := true }

/-- Somebody other than the pool has a `shared_ptr` to the chunk. -/
def Owned (c : ℕ) : Prop :=
  s.tlsSendBufferChunk = some c ∨ ∃ b ∈ s.sendBuffers, b.live ∧ b.ownerChunk = c

instance (c : ℕ) : Decidable (s.Owned c) := inferInstanceAs (Decidable (_ ∨ _))

/-- A `shared_ptr` to the chunk has been destroyed: `PushGlobal` runs after the last. -/
def release (c : ℕ) : State :=
  if s.Owned c then s
  else { s with sendBufferChunkPool := s.sendBufferChunkPool ++ [c] }

/-- `Pop`: the last chunk of the pool, or a new one. -/
def pop : ℕ × State :=
  match s.sendBufferChunkPool.getLast? with
  | some c => (c, { s with sendBufferChunkPool := s.sendBufferChunkPool.dropLast })
  | none => (s.chunkCount, { s with chunkCount := s.chunkCount + 1 })

/-- The assignment to `tls_SendBufferChunk`, which destroys what was there. -/
def assign (c : ℕ) : State :=
  let assigned := { s with tlsSendBufferChunk := some c }
  match s.tlsSendBufferChunk with
  | none => assigned
  | some old => assigned.release old

/-- `tls_SendBufferChunk = Pop()` and `ResetBuffer`. -/
def renew : ℕ × State :=
  let (c, popped) := s.pop
  (c, (popped.assign c).setChunk c {})

/-- `isOpened = true`, and the new buffer. -/
def makeShared (c : ℕ) (size : UInt32) : State :=
  let chunk := s.chunks c
  let sendBuffer : SendBuffer :=
    { ownerChunk := c, buffer := chunk.usedSize.toNat, allocSize := size }
  { s.setChunk c { chunk with isOpened := true } with
    sendBuffers := s.sendBuffers ++ [sendBuffer] }

/-- `SendBufferChunk::Open`. -/
def chunkOpen (c : ℕ) (size : UInt32) : State :=
  let chunk := s.chunks c
  if sendBufferChunkSize < size then s.crash
  else if chunk.isOpened = true then s.crash
  else if chunk.freeSize < size then s
  else s.makeShared c size

/-- The current chunk, from the pool if there is none yet. -/
def current : ℕ × State :=
  match s.tlsSendBufferChunk with
  | none => s.renew
  | some c => (c, s)

/-- `SendBufferManager::Open`. -/
def openBuffer (size : UInt32) : State :=
  let (c, s) := s.current
  if (s.chunks c).isOpened = true then s.crash
  else if (s.chunks c).freeSize < size then s.renew.2.chunkOpen s.renew.1 size
  else s.chunkOpen c size

/-- The stores of `SendBuffer::Close` and `SendBufferChunk::Close`. -/
def close (id : ℕ) (b : SendBuffer) (writeSize : UInt32) : State :=
  let chunk := s.chunks b.ownerChunk
  let after : SendBufferChunk :=
    { isOpened := false
      usedSize := chunk.usedSize + writeSize
      closes := chunk.closes ++ [(id, writeSize)] }
  { s.setChunk b.ownerChunk after with
    sendBuffers := s.sendBuffers.set id { b with writeSize, closed := true } }

/-- `SendBuffer::Close`, and `SendBufferChunk::Close` in it. -/
def closeBuffer (id : ℕ) (b : SendBuffer) (writeSize : UInt32) : State :=
  if b.allocSize < writeSize then s.crash
  else if (s.chunks b.ownerChunk).isOpened = false then s.crash
  else s.close id b writeSize

/-- The last reference to a buffer is dropped. -/
def destroy (id : ℕ) (b : SendBuffer) : State :=
  { s with sendBuffers := s.sendBuffers.set id { b with live := false } }.release b.ownerChunk

end State

inductive Event where
  | openBuffer (size : UInt32)
  | closeBuffer (id : ℕ) (writeSize : UInt32)
  | destroy (id : ℕ)
  deriving DecidableEq, Repr

/-- The buffer that a reference leads to. -/
def State.held (s : State) (id : ℕ) : Option SendBuffer :=
  s.sendBuffers[id]?.filter (·.live)

/-- A `Close` of a closed buffer, a `Close` that has written too much, and an `Open`
while a buffer of the current chunk is open. -/
def State.Misuse (s : State) : Event → Prop
  | .openBuffer _ => ∃ b ∈ s.sendBuffers,
      b.live ∧ ¬b.closed ∧ s.tlsSendBufferChunk = some b.ownerChunk
  | .closeBuffer id writeSize => ∃ b ∈ s.held id, b.closed ∨ b.allocSize < writeSize
  | .destroy _ => False

instance (s : State) : DecidablePred s.Misuse
  | .openBuffer _ => inferInstanceAs (Decidable (∃ b ∈ s.sendBuffers, _))
  | .closeBuffer id writeSize =>
      inferInstanceAs (Decidable (∃ b ∈ s.held id, b.closed ∨ b.allocSize < writeSize))
  | .destroy _ => inferInstanceAs (Decidable False)

/-- What a call leads to. A buffer is closed and destroyed through a reference to it. -/
def State.call (s : State) : Event → Option State
  | .openBuffer size => some (s.openBuffer size)
  | .closeBuffer id writeSize => (s.held id).map (s.closeBuffer id · writeSize)
  | .destroy id => (s.held id).map (s.destroy id)

def State.next (s : State) (e : Event) : Option State :=
  if s.crashed then none
  else (s.call e).map fun t =>
    if s.Misuse e ∧ t.crashed = false then { t with missed := true } else t

def system : System State Event where
  init s := s = {}
  next := State.next

/-- `usedSize` of a chunk is what the `Close` calls since its reset have added: one of
each closed buffer, none of an open one, and none more than `AllocSize`. -/
structure Accounted (s : State) : Prop where
  used : ∀ c, (s.chunks c).usedSize = (s.chunks c).closes.foldl (fun n e => n + e.2) 0
  once : ∀ c, ((s.chunks c).closes.map Prod.fst).Nodup
  bounded : ∀ c, ∀ e ∈ (s.chunks c).closes, ∃ b, s.sendBuffers[e.1]? = some b ∧
    b.ownerChunk = c ∧ b.closed ∧ e.2 ≤ b.allocSize
  counted : ∀ id b, s.held id = some b → b.closed →
    id ∈ (s.chunks b.ownerChunk).closes.map Prod.fst

/-- Every misuse so far has ended in an assertion. -/
structure Caught (s : State) : Prop extends Accounted s where
  caught : s.missed = false

/-- A `Close` finds its buffer open, or its chunk closed. -/
def FirstClose (s : State) : Event → Prop
  | .closeBuffer id writeSize => ∀ b ∈ s.held id, b.closed →
      (s.chunks b.ownerChunk).isOpened = true → b.allocSize < writeSize
  | _ => True

/-- At most one buffer of a chunk is open, and then the chunk is. The chunks of the pool
are nobody's. -/
structure Inv (s : State) : Prop extends Caught s where
  isOpened : ∀ id b, s.held id = some b → ¬b.closed → (s.chunks b.ownerChunk).isOpened = true
  unique : ∀ i j b b', s.held i = some b → s.held j = some b' → ¬b.closed → ¬b'.closed →
    b.ownerChunk = b'.ownerChunk → i = j
  owned_lt : ∀ c, s.Owned c → c < s.chunkCount
  pool_lt : ∀ c ∈ s.sendBufferChunkPool, c < s.chunkCount
  pool_nodup : s.sendBufferChunkPool.Nodup
  pool_free : ∀ c ∈ s.sendBufferChunkPool, ¬s.Owned c

variable {s t : State}

theorem held_eq_some {id : ℕ} {b : SendBuffer} :
    s.held id = some b ↔ s.sendBuffers[id]? = some b ∧ b.live = true := by
  rw [State.held, Option.filter_eq_some_iff]

/-- The live entries of the table are the buffers that somebody holds. -/
theorem exists_held {p : SendBuffer → Prop} :
    (∃ b ∈ s.sendBuffers, b.live ∧ p b) ↔ ∃ id b, s.held id = some b ∧ p b := by
  constructor
  · rintro ⟨b, hmem, hlive, hp⟩
    obtain ⟨id, hid⟩ := List.mem_iff_getElem?.mp hmem
    exact ⟨id, b, held_eq_some.mpr ⟨hid, hlive⟩, hp⟩
  · rintro ⟨id, b, hheld, hp⟩
    obtain ⟨hid, hlive⟩ := held_eq_some.mp hheld
    exact ⟨b, List.mem_of_getElem? hid, hlive, hp⟩

theorem owned_iff {c : ℕ} : s.Owned c ↔
    s.tlsSendBufferChunk = some c ∨ ∃ id b, s.held id = some b ∧ b.ownerChunk = c := by
  rw [State.Owned, exists_held]

theorem owned_of_held {id : ℕ} {b : SendBuffer} (h : s.held id = some b) :
    s.Owned b.ownerChunk := owned_iff.mpr (.inr ⟨id, b, h, rfl⟩)

/-- What the fields say, whatever the flags. -/
theorem Inv.crash (h : Inv s) : Inv s.crash := { h with }

/-- `Pop` hands out a chunk that nobody has. -/
theorem Inv.pop (h : Inv s) : Inv s.pop.2 ∧ ¬s.pop.2.Owned s.pop.1 ∧
    s.pop.1 < s.pop.2.chunkCount ∧ s.pop.1 ∉ s.pop.2.sendBufferChunkPool := by
  rw [State.pop]
  split
  next c hlast =>
    have hmem := List.mem_of_getLast? hlast
    have hpool : s.sendBufferChunkPool.dropLast ++ [c] = s.sendBufferChunkPool :=
      List.dropLast_append_getLast? _ hlast
    have hsub := List.dropLast_sublist s.sendBufferChunkPool
    have hnodup := hpool ▸ h.pool_nodup
    refine ⟨?_, h.pool_free c hmem, h.pool_lt c hmem, ?_⟩
    · exact
        { h with
          pool_lt := fun d hd => h.pool_lt d (hsub.subset hd)
          pool_nodup := h.pool_nodup.sublist hsub
          pool_free := fun d hd => h.pool_free d (hsub.subset hd) }
    · exact fun hc => (List.nodup_append.mp hnodup).2.2 c hc c (List.mem_singleton_self c) rfl
  next =>
    refine ⟨?_, fun howned => Nat.lt_irrefl _ (h.owned_lt _ howned), Nat.lt_succ_self _,
      fun hc => Nat.lt_irrefl _ (h.pool_lt _ hc)⟩
    exact
      { h with
        owned_lt := fun d hd => Nat.lt_succ_of_lt (h.owned_lt d hd)
        pool_lt := fun d hd => Nat.lt_succ_of_lt (h.pool_lt d hd) }

theorem pop_crashed (s : State) : s.pop.2.crashed = s.crashed := by
  rw [State.pop]
  split <;> rfl

theorem release_eq (s : State) (c : ℕ) : s.release c =
    { s with sendBufferChunkPool := (s.release c).sendBufferChunkPool } := by
  rw [State.release]
  split <;> rfl

theorem Inv.release (h : Inv s) {c : ℕ} (hlt : c < s.chunkCount)
    (hpool : c ∉ s.sendBufferChunkPool) : Inv (s.release c) := by
  rw [State.release]
  split
  · exact h
  next hfree =>
    exact
      { h with
        pool_lt := fun d hd => (List.mem_append.mp hd).elim (h.pool_lt d) fun hlast =>
          List.mem_singleton.mp hlast ▸ hlt
        pool_nodup := List.nodup_append.mpr ⟨h.pool_nodup, List.nodup_singleton c,
          fun d hd e he heq => hpool (List.mem_singleton.mp he ▸ heq ▸ hd)⟩
        pool_free := fun d hd => (List.mem_append.mp hd).elim (h.pool_free d) fun hlast =>
          List.mem_singleton.mp hlast ▸ hfree }

theorem assign_eq (s : State) (c : ℕ) : s.assign c =
    { s with
      tlsSendBufferChunk := some c
      sendBufferChunkPool := (s.assign c).sendBufferChunkPool } := by
  rw [State.assign]
  split
  · rfl
  · rw [release_eq]

theorem Inv.assign (h : Inv s) {c : ℕ} (hlt : c < s.chunkCount)
    (hpool : c ∉ s.sendBufferChunkPool) : Inv (s.assign c) := by
  have howned : ∀ d, State.Owned { s with tlsSendBufferChunk := some c } d → d = c ∨ s.Owned d := by
    rintro d (hd | hd)
    · exact .inl (Option.some.inj hd).symm
    · exact .inr (.inr hd)
  have hassigned : Inv { s with tlsSendBufferChunk := some c } :=
    { h with
      owned_lt := fun d hd => (howned d hd).elim (fun heq => heq ▸ hlt) (h.owned_lt d)
      pool_free := fun d hd ho => (howned d ho).elim (fun heq => hpool (heq ▸ hd))
        (h.pool_free d hd) }
  rw [State.assign]
  split
  · exact hassigned
  next old htls =>
    have hold : s.Owned old := .inl htls
    exact hassigned.release (h.owned_lt old hold) fun hmem => h.pool_free old hmem hold

/-- What holds of the new chunk, and of every other as before. -/
theorem setChunk_cases (s : State) {c : ℕ} {chunk : SendBufferChunk}
    {P : ℕ → SendBufferChunk → Prop} (self : P c chunk)
    (other : ∀ d, d ≠ c → P d (s.chunks d)) (d : ℕ) : P d ((s.setChunk c chunk).chunks d) := by
  obtain rfl | hne := eq_or_ne d c
  · rwa [State.setChunk_self]
  · rw [s.setChunk_of_ne hne]
    exact other d hne

/-- `ResetBuffer` of a chunk without buffers. -/
theorem Inv.reset (h : Inv s) {c : ℕ} (hnone : ∀ id b, s.held id = some b → b.ownerChunk ≠ c) :
    Inv (s.setChunk c {}) := by
  exact
    { h with
      used := setChunk_cases s (P := fun _ chunk =>
        chunk.usedSize = chunk.closes.foldl (fun n e => n + e.2) 0) rfl fun d _ => h.used d
      once := setChunk_cases s (P := fun _ chunk => (chunk.closes.map Prod.fst).Nodup)
        List.nodup_nil fun d _ => h.once d
      bounded := setChunk_cases s (P := fun d chunk => ∀ e ∈ chunk.closes, ∃ b,
          s.sendBuffers[e.1]? = some b ∧ b.ownerChunk = d ∧ b.closed ∧ e.2 ≤ b.allocSize)
        (fun _ he => absurd he List.not_mem_nil) fun d _ => h.bounded d
      counted := fun id b hheld hclosed => by
        rw [s.setChunk_of_ne (hnone id b hheld)]
        exact h.counted id b hheld hclosed
      isOpened := fun id b hheld hopen => by
        rw [s.setChunk_of_ne (hnone id b hheld)]
        exact h.isOpened id b hheld hopen }

/-- The new current chunk is closed, and the bookkeeping of the others is kept. -/
theorem Inv.renew (h : Inv s) : Inv s.renew.2 ∧
    s.renew.2.tlsSendBufferChunk = some s.renew.1 ∧
    (s.renew.2.chunks s.renew.1).isOpened = false ∧
    s.renew.2.crashed = s.crashed := by
  obtain ⟨hpop, hfree, hlt, hnot⟩ := h.pop
  have hassign := hpop.assign hlt hnot
  have heq := assign_eq s.pop.2 s.pop.1
  show Inv ((s.pop.2.assign s.pop.1).setChunk s.pop.1 {}) ∧
    (s.pop.2.assign s.pop.1).tlsSendBufferChunk = some s.pop.1 ∧
    (((s.pop.2.assign s.pop.1).setChunk s.pop.1 {}).chunks s.pop.1).isOpened = false ∧
    (s.pop.2.assign s.pop.1).crashed = s.crashed
  refine ⟨hassign.reset ?_, ?_, ?_, ?_⟩
  · intro id b hheld hchunk
    rw [heq] at hheld
    exact hfree (hchunk ▸ owned_of_held hheld)
  · rw [heq]
  · rw [State.setChunk_self]
  · rw [heq]
    exact pop_crashed s

/-- The buffers after a new one has been appended. -/
theorem held_append {id : ℕ} {b new : SendBuffer}
    (h : State.held { t with sendBuffers := s.sendBuffers ++ [new] } id = some b) :
    s.held id = some b ∨ (id = s.sendBuffers.length ∧ b = new) := by
  obtain ⟨hid, hlive⟩ := held_eq_some.mp h
  rcases Nat.lt_trichotomy id s.sendBuffers.length with hlt | heq | hgt
  · rw [List.getElem?_append_left hlt] at hid
    exact .inl (held_eq_some.mpr ⟨hid, hlive⟩)
  · rw [heq, List.getElem?_concat_length] at hid
    exact .inr ⟨heq, (Option.some.inj hid).symm⟩
  · rw [List.getElem?_eq_none (by simpa using Nat.succ_le_of_lt hgt)] at hid
    cases hid

/-- The buffers after an entry has been replaced. -/
theorem held_set {id i : ℕ} {b new : SendBuffer}
    (h : State.held { t with sendBuffers := s.sendBuffers.set id new } i = some b) :
    (i = id ∧ b = new ∧ new.live) ∨ (i ≠ id ∧ s.held i = some b) := by
  obtain ⟨hi, hlive⟩ := held_eq_some.mp h
  obtain rfl | hne := eq_or_ne i id
  · have hlt : i < s.sendBuffers.length := by
      have := (List.getElem?_eq_some_iff.mp hi).1
      rwa [List.length_set] at this
    rw [List.getElem?_set_self hlt] at hi
    cases hi
    exact .inl ⟨rfl, rfl, hlive⟩
  · rw [List.getElem?_set_ne hne.symm] at hi
    exact .inr ⟨hne, held_eq_some.mpr ⟨hi, hlive⟩⟩

theorem Inv.makeShared (h : Inv s) {c : ℕ} (howned : s.Owned c)
    (hclosed : (s.chunks c).isOpened ≠ true) (size : UInt32) : Inv (s.makeShared c size) := by
  have hnone : ∀ id b, s.held id = some b → ¬b.closed → b.ownerChunk ≠ c :=
    fun id b hheld hopen hchunk => hclosed (hchunk ▸ h.isOpened id b hheld hopen)
  have hcloses : ∀ d, ((s.makeShared c size).chunks d).closes = (s.chunks d).closes :=
    setChunk_cases s (P := fun d chunk => chunk.closes = (s.chunks d).closes) rfl fun _ _ => rfl
  have hopened : ((s.makeShared c size).chunks c).isOpened = true := by
    rw [State.makeShared, State.setChunk_self]
  have hsame : ∀ d, (s.makeShared c size).Owned d → s.Owned d := by
    rintro d (htls | ⟨b, hmem, hlive, hchunk⟩)
    · exact .inl htls
    · rcases List.mem_append.mp hmem with hmem | hlast
      · exact .inr ⟨b, hmem, hlive, hchunk⟩
      · cases List.mem_singleton.mp hlast
        exact hchunk ▸ howned
  refine
    { used := ?_, once := ?_, bounded := ?_, counted := ?_, caught := h.caught, isOpened := ?_
      unique := ?_, owned_lt := ?_, pool_lt := h.pool_lt, pool_nodup := h.pool_nodup
      pool_free := ?_ }
  · exact setChunk_cases s (P := fun _ chunk =>
      chunk.usedSize = chunk.closes.foldl (fun n e => n + e.2) 0) (h.used c) fun d _ => h.used d
  · intro d
    rw [hcloses]
    exact h.once d
  · intro d e he
    rw [hcloses] at he
    obtain ⟨b, hb, hrest⟩ := h.bounded d e he
    refine ⟨b, ?_, hrest⟩
    show (s.sendBuffers ++ _)[e.1]? = some b
    rw [List.getElem?_append_left (List.getElem?_eq_some_iff.mp hb).1, hb]
  · intro id b hheld hb
    rw [hcloses]
    rcases held_append hheld with hold | ⟨-, rfl⟩
    · exact h.counted id b hold hb
    · cases hb
  · intro id b hheld hb
    rcases held_append hheld with hold | ⟨-, rfl⟩
    · show ((s.setChunk _ _).chunks _).isOpened = true
      rw [s.setChunk_of_ne (hnone id b hold hb)]
      exact h.isOpened id b hold hb
    · exact hopened
  · intro i j b b' hi hj hb hb' hchunk
    rcases held_append hi with hi | ⟨rfl, rfl⟩ <;> rcases held_append hj with hj | ⟨rfl, rfl⟩
    · exact h.unique i j b b' hi hj hb hb' hchunk
    · exact absurd hchunk (hnone i b hi hb)
    · exact absurd hchunk.symm (hnone j b' hj hb')
    · rfl
  · exact fun d hd => h.owned_lt d (hsame d hd)
  · exact fun d hd ho => h.pool_free d hd (hsame d ho)

theorem Inv.chunkOpen (h : Inv s) {c : ℕ} (htls : s.tlsSendBufferChunk = some c)
    (size : UInt32) : Inv (s.chunkOpen c size) := by
  rw [State.chunkOpen]
  split
  · exact h.crash
  split
  · exact h.crash
  next hclosed =>
    split
    · exact h
    · exact h.makeShared (.inl htls) hclosed size

section Close

variable {id : ℕ} {b : SendBuffer} {writeSize : UInt32}

/-- A buffer that has not been closed has added nothing yet. -/
theorem Accounted.notMem_closes (h : Accounted s) (hid : s.sendBuffers[id]? = some b)
    (hfirst : ¬b.closed) (c : ℕ) : id ∉ (s.chunks c).closes.map Prod.fst := by
  intro hmem
  obtain ⟨e, he, rfl⟩ := List.mem_map.mp hmem
  obtain ⟨b', hb', -, hclosed, -⟩ := h.bounded c e he
  cases hid.symm.trans hb'
  exact hfirst hclosed

/-- The first `Close` of a buffer adds its entry. -/
theorem Accounted.close (h : Accounted s) (hid : s.sendBuffers[id]? = some b)
    (hfirst : ¬b.closed) (hfits : writeSize ≤ b.allocSize) :
    Accounted (s.close id b writeSize) := by
  have hnot := h.notMem_closes hid hfirst
  refine { used := ?_, once := ?_, bounded := ?_, counted := ?_ }
  · refine setChunk_cases s (P := fun _ chunk =>
      chunk.usedSize = chunk.closes.foldl (fun n e => n + e.2) 0) ?_ fun d _ => h.used d
    rw [List.foldl_append, ← h.used]
    rfl
  · refine setChunk_cases s (P := fun _ chunk => (chunk.closes.map Prod.fst).Nodup) ?_
      fun d _ => h.once d
    rw [List.map_append]
    refine List.nodup_append.mpr ⟨h.once _, List.nodup_singleton id, ?_⟩
    rintro i hi j hj rfl
    cases List.mem_singleton.mp hj
    exact hnot _ hi
  · have hold : ∀ d, ∀ e ∈ (s.chunks d).closes, ∃ b',
        (s.close id b writeSize).sendBuffers[e.1]? = some b' ∧ b'.ownerChunk = d ∧ b'.closed ∧
          e.2 ≤ b'.allocSize := by
      intro d e he
      obtain ⟨b', hb', hrest⟩ := h.bounded d e he
      have hne : id ≠ e.1 := fun heq => hnot d (heq ▸ List.mem_map_of_mem he)
      exact ⟨b', (List.getElem?_set_ne hne).trans hb', hrest⟩
    refine setChunk_cases s (P := fun d chunk => ∀ e ∈ chunk.closes, ∃ b',
      (s.close id b writeSize).sendBuffers[e.1]? = some b' ∧ b'.ownerChunk = d ∧ b'.closed ∧
        e.2 ≤ b'.allocSize) (fun e he => ?_) fun d _ => hold d
    rcases List.mem_append.mp he with he | hlast
    · exact hold _ e he
    · cases List.mem_singleton.mp hlast
      exact ⟨_, List.getElem?_set_self (List.getElem?_eq_some_iff.mp hid).1, rfl, rfl, hfits⟩
  · intro i b' hi hclosed
    rcases held_set hi with ⟨rfl, rfl, -⟩ | ⟨-, hi⟩
    · show i ∈ ((s.setChunk b.ownerChunk _).chunks b.ownerChunk).closes.map Prod.fst
      rw [State.setChunk_self, List.map_append]
      exact List.mem_append_right _ (List.mem_singleton_self i)
    · refine setChunk_cases s (P := fun d chunk => b'.ownerChunk = d →
        i ∈ chunk.closes.map Prod.fst) (fun hchunk => ?_) (fun d _ hchunk => ?_) _ rfl
      · rw [List.map_append]
        exact List.mem_append_left _ (hchunk ▸ h.counted i b' hi hclosed)
      · exact hchunk ▸ h.counted i b' hi hclosed

/-- The two stores of `SendBufferChunk::Close`, for the first `Close` of a buffer. -/
theorem Inv.close (h : Inv s) (hheld : s.held id = some b) (hfirst : ¬b.closed)
    (hfits : writeSize ≤ b.allocSize) : Inv (s.close id b writeSize) := by
  have hunique : ∀ i b', s.held i = some b' → ¬b'.closed → i ≠ id →
      b'.ownerChunk ≠ b.ownerChunk :=
    fun i b' hi hopen hne hchunk => hne (h.unique i id b' b hi hheld hopen hfirst hchunk)
  have hsame : ∀ d, (s.close id b writeSize).Owned d → s.Owned d := by
    rintro d (htls | ⟨b', hmem, hlive, hchunk⟩)
    · exact .inl htls
    · rcases List.mem_or_eq_of_mem_set hmem with hmem | rfl
      · exact .inr ⟨b', hmem, hlive, hchunk⟩
      · exact hchunk ▸ (owned_of_held hheld : s.Owned b.ownerChunk)
  refine
    { h.toAccounted.close (held_eq_some.mp hheld).1 hfirst hfits with
      caught := h.caught, isOpened := ?_, unique := ?_
      owned_lt := fun d hd => h.owned_lt d (hsame d hd), pool_lt := h.pool_lt
      pool_nodup := h.pool_nodup
      pool_free := fun d hd ho => h.pool_free d hd (hsame d ho) }
  · intro i b' hi hopen
    rcases held_set hi with ⟨rfl, rfl, -⟩ | ⟨hne, hi⟩
    · exact absurd rfl hopen
    · show ((s.setChunk _ _).chunks _).isOpened = true
      rw [s.setChunk_of_ne (hunique i b' hi hopen hne)]
      exact h.isOpened i b' hi hopen
  · intro i j b₁ b₂ hi hj h₁ h₂ hchunk
    rcases held_set hi with ⟨rfl, rfl, -⟩ | ⟨-, hi⟩
    · exact absurd rfl h₁
    rcases held_set hj with ⟨rfl, rfl, -⟩ | ⟨-, hj⟩
    · exact absurd rfl h₂
    exact h.unique i j b₁ b₂ hi hj h₁ h₂ hchunk

end Close

theorem Inv.destroy (h : Inv s) {id : ℕ} {b : SendBuffer} (hheld : s.held id = some b) :
    Inv (s.destroy id b) := by
  have hid := (held_eq_some.mp hheld).1
  have howned : s.Owned b.ownerChunk := owned_of_held hheld
  have hold : ∀ i b', State.held { s with
      sendBuffers := s.sendBuffers.set id { b with live := false } } i = some b' →
      s.held i = some b' := by
    intro i b' hi
    rcases held_set hi with ⟨-, -, hlive⟩ | ⟨-, hi⟩
    · cases hlive
    · exact hi
  have hsame : ∀ d, State.Owned { s with
      sendBuffers := s.sendBuffers.set id { b with live := false } } d → s.Owned d := by
    rintro d (htls | ⟨b', hmem, hlive, hchunk⟩)
    · exact .inl htls
    · rcases List.mem_or_eq_of_mem_set hmem with hmem | rfl
      · exact .inr ⟨b', hmem, hlive, hchunk⟩
      · cases hlive
  have hdropped : Inv { s with
      sendBuffers := s.sendBuffers.set id { b with live := false } } :=
    { h with
      bounded := fun d e he => by
        obtain ⟨b', hb', hrest⟩ := h.bounded d e he
        obtain heq | hne := eq_or_ne id e.1
        · rw [← heq, hid] at hb'
          cases hb'
          rw [← heq]
          exact ⟨_, List.getElem?_set_self (List.getElem?_eq_some_iff.mp hid).1, hrest⟩
        · exact ⟨b', (List.getElem?_set_ne hne).trans hb', hrest⟩
      counted := fun i b' hi => h.counted i b' (hold i b' hi)
      isOpened := fun i b' hi => h.isOpened i b' (hold i b' hi)
      unique := fun i j b₁ b₂ hi hj => h.unique i j b₁ b₂ (hold i b₁ hi) (hold j b₂ hj)
      owned_lt := fun d hd => h.owned_lt d (hsame d hd)
      pool_free := fun d hd ho => h.pool_free d hd (hsame d ho) }
  exact hdropped.release (h.owned_lt _ howned) fun hmem => h.pool_free _ hmem howned

theorem Inv.current (h : Inv s) :
    Inv s.current.2 ∧ s.current.2.tlsSendBufferChunk = some s.current.1 := by
  rw [State.current]
  split
  · exact ⟨h.renew.1, h.renew.2.1⟩
  next c htls => exact ⟨h, htls⟩

theorem Inv.openBuffer (h : Inv s) (size : UInt32) : Inv (s.openBuffer size) := by
  have hcurrent := h.current
  rw [State.openBuffer]
  generalize s.current = p at hcurrent ⊢
  obtain ⟨c, cur⟩ := p
  obtain ⟨hinv, htls⟩ := hcurrent
  show Inv (if (cur.chunks c).isOpened = true then cur.crash else _)
  split
  · exact hinv.crash
  split
  · exact hinv.renew.1.chunkOpen hinv.renew.2.1 size
  · exact hinv.chunkOpen htls size

/-- An open buffer of the current chunk keeps the chunk open, and `Open` asserts. -/
theorem Inv.openBuffer_misuse (h : Inv s) (size : UInt32) (hmisuse : s.Misuse (.openBuffer size)) :
    (s.openBuffer size).crashed = true := by
  obtain ⟨b, hmem, hlive, hopen, htls⟩ := hmisuse
  obtain ⟨id, hid⟩ := List.mem_iff_getElem?.mp hmem
  have hcurrent : s.current = (b.ownerChunk, s) := by
    rw [State.current, htls]
  have hopened := h.isOpened id b (held_eq_some.mpr ⟨hid, hlive⟩) hopen
  rw [State.openBuffer, hcurrent]
  show (if (s.chunks b.ownerChunk).isOpened = true then s.crash else _).crashed = true
  rw [if_pos hopened]
  rfl

/-- A call that meets the condition keeps the invariant, and asserts if it is misuse. -/
theorem Inv.call (h : Inv s) {e : Event} (hok : FirstClose s e) (hcall : s.call e = some t) :
    Inv t ∧ (s.Misuse e → t.crashed = true) := by
  cases e with
  | openBuffer size =>
      cases hcall
      exact ⟨h.openBuffer size, h.openBuffer_misuse size⟩
  | closeBuffer id writeSize =>
      obtain ⟨b, hheld, rfl⟩ := Option.map_eq_some_iff.mp hcall
      rw [State.closeBuffer]
      split
      · exact ⟨h.crash, fun _ => rfl⟩
      next hfits =>
        split
        · exact ⟨h.crash, fun _ => rfl⟩
        next hopened =>
          have hfirst : ¬b.closed := fun hclosed =>
            hfits (hok b hheld hclosed (Bool.eq_true_of_not_eq_false hopened))
          refine ⟨h.close hheld hfirst (UInt32.not_lt.mp hfits), ?_⟩
          rintro ⟨b', hb', hmisuse⟩
          cases hheld.symm.trans hb'
          exact (hmisuse.elim hfirst hfits).elim
  | destroy id =>
      obtain ⟨b, hheld, rfl⟩ := Option.map_eq_some_iff.mp hcall
      exact ⟨h.destroy hheld, False.elim⟩

theorem Inv.next (h : Inv s) {e : Event} (hok : FirstClose s e) (hnext : s.next e = some t) :
    Inv t := by
  rw [State.next] at hnext
  split at hnext
  · cases hnext
  · obtain ⟨s', hcall, rfl⟩ := Option.map_eq_some_iff.mp hnext
    obtain ⟨hinv, hcaught⟩ := h.call hok hcall
    split
    next hmissed => exact absurd (hcaught hmissed.1) (by simp [hmissed.2])
    · exact hinv

/-- A second `Close` that finds its chunk open returns. -/
theorem firstClose_of_caught {e : Event} (hnext : s.next e = some t) (hcaught : Caught t) :
    FirstClose s e := by
  cases e with
  | openBuffer => trivial
  | destroy => trivial
  | closeBuffer id writeSize =>
      intro b hheld hclosed hopened
      by_contra hfits
      have hmisuse : s.Misuse (.closeBuffer id writeSize) := ⟨b, hheld, .inl hclosed⟩
      have hclose : s.call (.closeBuffer id writeSize) = some (s.close id b writeSize) := by
        rw [State.call, hheld, Option.map_some, State.closeBuffer, if_neg hfits, if_neg]
        simp [hopened]
      rw [State.next] at hnext
      split at hnext
      · cases hnext
      next hrunning =>
        rw [hclose, Option.map_some, if_pos ⟨hmisuse, eq_false_of_ne_true hrunning⟩] at hnext
        cases hnext
        cases hcaught.caught

/-- On one thread every misuse ends in an assertion, and `usedSize` grows once for each
closed buffer, exactly in the runs without a `Close` of a closed buffer whose chunk is
open. -/
theorem caught_iff (calls : List Event) :
    system.Throughout Caught calls {} ↔ system.Along FirstClose calls {} := by
  have hstart : Inv {} :=
    { used := fun _ => rfl
      once := fun _ => List.nodup_nil
      bounded := fun _ _ he => absurd he List.not_mem_nil
      counted := fun _ _ hheld => by cases hheld
      caught := rfl
      isOpened := fun _ _ hheld => by cases hheld
      unique := fun _ _ _ _ hheld => by cases hheld
      owned_lt := by
        rintro c (htls | ⟨b, hmem, -⟩)
        · cases htls
        · cases hmem
      pool_lt := fun _ hc => absurd hc List.not_mem_nil
      pool_nodup := List.nodup_nil
      pool_free := fun _ hc => absurd hc List.not_mem_nil }
  exact System.throughout_iff_along (fun _ h => h.toCaught) (fun _ _ _ h hok => h.next hok)
    (fun _ _ _ _ => firstClose_of_caught) calls hstart

/-- The second `Close` of the first buffer finds the chunk open, because of the second
buffer. -/
theorem secondClose_missed :
    ¬∀ calls : List Event, system.Throughout Caught calls {} := by
  intro h
  have hcaught : Caught _ :=
    (((((h [.openBuffer 16, .closeBuffer 0 16, .openBuffer 16, .closeBuffer 0 16]).2
      _ rfl).2 _ rfl).2 _ rfl).2 _ rfl)
  exact absurd hcaught.caught (by decide +kernel)

end OneThread

end SendBufferManager

end ServerCore
