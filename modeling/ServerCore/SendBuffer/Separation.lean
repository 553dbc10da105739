import ServerCore.SendBuffer.Closing

/-!
# Live send buffers do not overlap

`Close` gives up `isOpened` before it moves `usedSize`, so a thread whose `Open` passes its
assertion between the two stores hands out the same bytes again (`sendBuffers_overlap`).
`Ordered` rules that out, and nothing else has to be ruled out (`sendBuffers_separate`).
-/

namespace ServerCore

namespace SendBufferManager

open Interleaving

variable {Tid : Type}

/-- The chunk that the thread has given up and whose `usedSize` it is about to move. -/
def State.closesChunk (s : State Tid) (t : Tid) : Option ℕ :=
  match s.threads t with
  | .closeUsed id _ => (s.sendBuffers id).map SendBuffer.ownerChunk
  | _ => none

/-- `Open` evaluates its assertion outside every `Close` of the chunk that is between its
two stores. -/
def Ordered (s : State Tid) : Event Tid → Prop
  | .step t => ∀ size fresh, s.threads t = .assertClosed size fresh →
      ∀ u, s.closesChunk u ≠ s.tlsSendBufferChunk t
  | _ => True

/-- Live buffers are apart, and a chunk of the pool or one that was just reset has none. -/
structure Separate (s : State Tid) : Prop where
  disjoint : ∀ i j x y, i ≠ j → s.sendBuffers i = some x → s.sendBuffers j = some y →
    x.ownerChunk ≠ y.ownerChunk ∨ Disjoint x.range y.range
  inside : ∀ i x, s.sendBuffers i = some x → x.buffer + x.size.toNat ≤ sendBufferChunkSize.toNat
  pooled : ∀ c ∈ s.sendBufferChunkPool, Unused s c ∧ ∀ t, s.tlsSendBufferChunk t ≠ some c
  reset : ∀ t c, (s.threads t).fresh = true → s.tlsSendBufferChunk t = some c →
    Unused s c ∧ ∀ u, u ≠ t → s.tlsSendBufferChunk u ≠ some c

variable {s s' : State Tid} {t : Tid} {c i : ℕ}

namespace Settled

variable [DecidableEq Tid]

omit [DecidableEq Tid] in
/-- A chunk that is not opened, and that no thread is giving up, has closed buffers only. -/
theorem all_closed (h : Settled s) (closed : (s.chunks c).isOpened = false)
    (ordered : ∀ u, s.closesChunk u ≠ some c) {x : SendBuffer} (live : s.sendBuffers i = some x)
    (hchunk : x.ownerChunk = c) : x.status = .closed := by
  subst hchunk
  have hnot : (s.chunks x.ownerChunk).isOpened ≠ true := Bool.eq_false_iff.mp closed
  match hstatus : x.status with
  | .closed => rfl
  | .opened => exact absurd (h.opened i x live hstatus) hnot
  | .closing =>
      obtain ⟨u, w, hu⟩ := h.isClosing i x live hstatus
      match hpc : s.threads u with
      | .closeAssert j w' =>
          rw [hpc] at hu
          cases hu
          exact absurd (h.unclosed u i x (by rw [hpc]; rfl) live) hnot
      | .closeOpened j w' =>
          rw [hpc] at hu
          cases hu
          exact absurd (h.unclosed u i x (by rw [hpc]; rfl) live) hnot
      | .closeUsed j w' =>
          rw [hpc] at hu
          cases hu
          refine absurd ?_ (ordered u)
          simp only [State.closesChunk, hpc, live, Option.map_some]
      | .idle | .pop .. | .assign .. | .push .. | .resetBuffer .. | .assertClosed ..
      | .testFreeSize .. | .assertOpen .. | .chunkFreeSize .. | .setOpened .. | .makeShared .. =>
          rw [hpc] at hu
          cases hu

theorem pop (h : Settled s) (placed : Placed s) {size : UInt32} {second : Bool}
    (here : s.threads t = .pop size second) : Settled (s.pop t size second) := by
  have hbefore : (s.threads t).closing = none := by
    rw [here]
    rfl
  unfold State.pop
  split
  next c hlast =>
    have hpool : Settled { s with sendBufferChunkPool := s.sendBufferChunkPool.dropLast } :=
      h.frame (fun _ => rfl) (fun _ => rfl) rfl rfl rfl
    have hchunk := hpool.setChunk_same c { s.chunks c with
      owners := insert (Owner.popped t) ((s.chunks c).owners.erase .pool) } rfl rfl
    exact hchunk.setPc_outside hbefore rfl rfl
  next =>
    have hcount : Settled { s with chunkCount := s.chunkCount + 1 } :=
      h.frame (fun _ => rfl) (fun _ => rfl) rfl rfl rfl
    obtain ⟨hfree, -⟩ := placed.newChunk s.chunkCount (Nat.le_refl _)
    have hchunk : Settled (State.setChunk { s with chunkCount := s.chunkCount + 1 } s.chunkCount
        { owners := {Owner.popped t} }) :=
      hcount.resetChunk hfree.2 (fun u hu => absurd hu (hfree.1 u)) rfl
    exact hchunk.setPc_outside hbefore rfl rfl

/-- A chunk that is reset has no buffer, so it is as good as new. -/
theorem resetBuffer (h : Settled s) (placed : Placed s) {size : UInt32} {second : Bool}
    (here : s.threads t = .resetBuffer size second) (current : s.tlsSendBufferChunk t = some c) :
    Settled (s.resetBuffer t c size second) := by
  have hunused : Unused s c := placed.fresh t c (by rw [here]; rfl) current
  have hchunk : Settled (s.setChunk c { s.chunks c with isOpened := false, usedSize := 0 }) := by
    refine h.resetChunk hunused (fun u hu => ?_) rfl
    obtain rfl := placed.single u t c hu current
    rw [here]
    rfl
  refine hchunk.setPc ?_ ?_ ?_ ?_ ?_
  · rw [State.setChunk, here]
    cases second <;> rfl
  · intro i hi
    cases second <;> cases hi
  · intro _ d hd i x hx hxd
    cases current.symm.trans hd
    exact absurd hxd (hunused i x hx)
  · intro size' hsize
    cases second <;> cases hsize
  · intro hready
    cases second <;> cases hready

/-- Every ordered step keeps the buffers apart. -/
theorem step (h : Settled s) (placed : Placed s) {e : Event Tid} (ordered : Ordered s e)
    (hstep : Step s e s') : Settled s' := by
  cases hstep with
  | crash => exact h.frame (fun _ => rfl) (fun _ => rfl) rfl rfl rfl
  | openFirst idle => exact h.setPc_outside (by rw [idle]; rfl) rfl rfl
  | openCurrent idle => exact h.setPc_outside (by rw [idle]; rfl) rfl rfl
  | close live idle opened fits => exact h.close live idle opened fits
  | count references live => exact h.setReferences live references
  | dropLast live idle free => exact (h.dropBuffer live free).release (congrArg Pc.closing idle)
  | pop here => exact h.pop placed here
  | @assign t size second c here =>
      have htls : Settled { s with
          tlsSendBufferChunk := Function.update s.tlsSendBufferChunk t (some c) } :=
        h.setTls (by rw [here]; rfl) fun u hu => Function.update_of_ne hu ..
      have hchunk := htls.setChunk_same c { s.chunks c with
        owners := insert (Owner.tls t) ((s.chunks c).owners.erase (.popped t)) } rfl rfl
      have hbefore : (s.threads t).closing = none := by
        rw [here]
        rfl
      simp only [State.assign]
      split
      · exact hchunk.setPc_outside hbefore rfl rfl
      · exact hchunk.release hbefore
  | @push t c resume here =>
      have hpool : Settled { s with sendBufferChunkPool := s.sendBufferChunkPool ++ [c] } :=
        h.frame (fun _ => rfl) (fun _ => rfl) rfl rfl rfl
      have hchunk := hpool.setChunk_same c { s.chunks c with owners := {Owner.pool} } rfl rfl
      have hbefore : (s.threads t).closing = none := by
        rw [here]
        rfl
      cases resume with
      | none => exact hchunk.setPc_outside hbefore rfl rfl
      | some size => exact hchunk.setPc_outside hbefore rfl rfl
  | resetBuffer here current => exact h.resetBuffer placed here current
  | @assertClosed t c size fresh here current closed =>
      have hclosed : ∀ i x, s.sendBuffers i = some x → x.ownerChunk = c → x.status = .closed := by
        intro i x live hchunk
        refine h.all_closed closed (fun u hu => ?_) live hchunk
        exact ordered size fresh here u (hu.trans current.symm)
      refine h.setPc (by rw [here]; rfl) (by rintro _ ⟨⟩) (fun _ d hd => ?_) (by rintro _ ⟨⟩) (by rintro ⟨⟩)
      cases current.symm.trans hd
      exact hclosed
  | tooSmall here => exact h.setPc_outside (by rw [here]; rfl) rfl rfl
  | @largeEnough t size fresh here =>
      refine h.setPc (by rw [here]; rfl) (by rintro _ ⟨⟩) (fun _ d hd => ?_) (by rintro _ ⟨⟩) (by rintro ⟨⟩)
      exact h.past t d (by rw [here]; rfl) hd
  | @assertOpen t size fresh here =>
      refine h.setPc (by rw [here]; rfl) (by rintro _ ⟨⟩) (fun _ d hd => ?_) (by rintro _ ⟨⟩) (by rintro ⟨⟩)
      exact h.past t d (by rw [here]; rfl) hd
  | refused here => exact h.setPc_outside (by rw [here]; rfl) rfl rfl
  | @granted t c size fresh here current fits =>
      refine h.setPc (by rw [here]; rfl) (by rintro _ ⟨⟩) (fun _ d hd => ?_) ?_ (by rintro ⟨⟩)
      · exact h.past t d (by rw [here]; rfl) hd
      · rintro _ ⟨⟩ d hd
        cases current.symm.trans hd
        have hused := h.used c
        have hfits := UInt32.le_iff_toNat_le.mp fits
        have hfree : (s.chunks c).freeSize.toNat = 0x2000 - (s.chunks c).usedSize.toNat :=
          UInt32.toNat_sub_of_le _ _ (UInt32.le_iff_toNat_le.mpr hused)
        omega
  | @setOpened t c size fresh here current =>
      have hchunk : Settled (s.setChunk c { s.chunks c with isOpened := true }) :=
        h.openChunk rfl rfl
      refine hchunk.setPc (by rw [State.setChunk, here]; rfl) (by rintro _ ⟨⟩) ?_ ?_ ?_
      · exact fun _ d hd => hchunk.past t d (by rw [State.setChunk, here]; rfl) hd
      · exact fun size' hsize d hd => hchunk.room t d size' (by rw [State.setChunk, here]; exact hsize) hd
      · intro _ d hd
        cases current.symm.trans hd
        change (Function.update s.chunks c _ c).isOpened = true
        rw [Function.update_self]
  | @makeShared t c size fresh here current =>
      have hadded := h.addBuffer (placed.newBuffer _ (Nat.le_refl _)) here current
        fun u hu => placed.single u t c hu current
      have hchunk := hadded.setChunk_same c { s.chunks c with
        owners := insert (Owner.sendBuffer s.sendBufferCount) (s.chunks c).owners } rfl rfl
      exact hchunk.frame (fun _ => rfl) (fun _ => rfl) rfl rfl rfl
  | @closeAssert t i sendBuffer writeSize here live =>
      refine h.setPc (by rw [here]; rfl) (fun j hj => ?_) (by rintro ⟨⟩) (by rintro _ ⟨⟩) (by rintro ⟨⟩)
      rw [here]
      exact hj
  | closeOpened here live => exact h.closeOpened here live
  | closeUsed here live => exact h.closeUsed here live

omit [DecidableEq Tid] in
/-- One of two buffers of a chunk ends where the other one begins, or before. -/
theorem ends_before (h : Settled s) {i j : ℕ} {x y : SendBuffer} (hne : i ≠ j)
    (hx : s.sendBuffers i = some x) (hy : s.sendBuffers j = some y)
    (hsame : x.ownerChunk = y.ownerChunk) :
    x.buffer + x.size.toNat ≤ y.buffer ∨ y.buffer + y.size.toNat ≤ x.buffer := by
  by_cases hx' : x.status = .closed
  · have hxsize : x.size = x.writeSize := if_pos hx'
    have hbelow := h.closed i x hx hx'
    by_cases hy' : y.status = .closed
    · have hysize : y.size = y.writeSize := if_pos hy'
      rw [hxsize, hysize]
      exact h.apart i j x y hne hx hy hsame hx' hy'
    · left
      rw [hxsize, (h.unsettled j y hy hy').1, ← hsame]
      exact hbelow
  · by_cases hy' : y.status = .closed
    · right
      have hysize : y.size = y.writeSize := if_pos hy'
      rw [hysize, (h.unsettled i x hx hx').1, hsame]
      exact h.closed j y hy hy'
    · exact absurd (h.once i j x y hx hy hsame hx' hy') hne

omit [DecidableEq Tid] in
theorem separate (h : Settled s) (placed : Placed s) : Separate s := by
  refine ⟨fun i j x y hne hx hy => ?_, fun i x hx => ?_, fun c hc => ?_, fun t c ht hc => ?_⟩
  · by_cases hsame : x.ownerChunk = y.ownerChunk
    · right
      rw [Finset.disjoint_left]
      intro byte hbyte hbyte'
      have hbefore := h.ends_before hne hx hy hsame
      simp only [SendBuffer.range, Finset.mem_Ico] at hbyte hbyte'
      omega
    · exact .inl hsame
  · change _ ≤ 0x2000
    by_cases hclosed : x.status = .closed
    · have hsize : x.size = x.writeSize := if_pos hclosed
      rw [hsize]
      exact (h.closed i x hx hclosed).trans (h.used _)
    · have hsize : x.size = x.allocSize := if_neg hclosed
      rw [hsize]
      exact (h.unsettled i x hx hclosed).2
  · obtain ⟨htls, hunused⟩ := placed.pooled c hc
    exact ⟨hunused, htls⟩
  · exact ⟨placed.fresh t c ht hc, fun u hu hd => hu (placed.single u t c hd hc)⟩

end Settled

section Runs

theorem placed_start : Placed ({} : State Tid) :=
  ⟨nofun, nofun, nofun, List.nodup_nil, nofun, nofun, nofun, nofun,
    fun _ _ => ⟨⟨nofun, nofun⟩, nofun, nofun⟩, fun _ _ => rfl⟩

theorem settled_start : Settled ({} : State Tid) :=
  ⟨fun _ => Nat.zero_le _, nofun, nofun, nofun, nofun, nofun, nofun, nofun, nofun, nofun, nofun,
    nofun, nofun⟩

variable [DecidableEq Tid]

/-- In every run in which no `Open` passes its assertion inside a `Close` of its chunk, live
buffers do not overlap, lie in their chunks, and have left a chunk before it is reused. -/
theorem sendBuffers_separate {s : State Tid} (h : (system Tid).Reachable Ordered s) :
    Separate s := by
  have hinvariant : Placed s ∧ Settled s := by
    refine h.invariant (I := fun s => Placed s ∧ Settled s) ?_ ?_
    · rintro s rfl
      exact ⟨placed_start, settled_start⟩
    · intro s e s' hs ordered hnext
      have hstep := step_of_next hnext
      exact ⟨hs.1.step hstep, hs.2.step hs.1 ordered hstep⟩
  exact hinvariant.2.separate hinvariant.1

instance [Fintype Tid] (s : State Tid) (e : Event Tid) : Decidable (Ordered s e) :=
  match e with
  | .step t =>
      match hpc : s.threads t with
      | .assertClosed size fresh =>
          decidable_of_iff (∀ u, s.closesChunk u ≠ s.tlsSendBufferChunk t)
            ⟨fun h _ _ _ => h, fun h => h size fresh hpc⟩
      | .idle | .pop .. | .assign .. | .push .. | .resetBuffer .. | .testFreeSize ..
      | .assertOpen .. | .chunkFreeSize .. | .setOpened .. | .makeShared .. | .closeAssert ..
      | .closeOpened .. | .closeUsed .. => .isTrue fun _ _ heq => nomatch hpc.symm.trans heq
  | .openBuffer .. => .isTrue trivial
  | .closeBuffer .. => .isTrue trivial
  | .copyReference .. => .isTrue trivial
  | .dropReference .. => .isTrue trivial

/-- The first `Open` of thread 0, of 16 bytes. -/
def openRun : List (Event (Fin 2)) := .openBuffer 0 16 :: List.replicate 9 (.step 0)

/-- Thread 1 closes the buffer, and then thread 0 opens another one. -/
def turnsRun : List (Event (Fin 2)) :=
  openRun ++ [.closeBuffer 1 0 16, .step 1, .step 1, .step 1, .openBuffer 0 16] ++
    List.replicate 6 (.step 0)

theorem sendBuffers_separate_turns : ∃ s : State (Fin 2), (system (Fin 2)).run turnsRun {} = some s ∧
    s.sendBufferCount = 2 ∧ Separate s := by
  have hany : ((system (Fin 2)).run turnsRun {}).any
      (fun s => decide (s.sendBufferCount = 2)) = true := by
    decide +kernel
  obtain ⟨s, hrun, hcount⟩ := System.exists_of_run hany
  have hordered : (system (Fin 2)).Along Ordered turnsRun {} :=
    System.along_of_check (by decide +kernel)
  exact ⟨s, hrun, hcount, sendBuffers_separate ((System.Reachable.start rfl).run hordered hrun)⟩

/-- Thread 0 opens another buffer while thread 1 is between the two stores of `Close`. -/
def overlapRun : List (Event (Fin 2)) :=
  openRun ++ [.closeBuffer 1 0 16, .step 1, .step 1, .openBuffer 0 16] ++
    List.replicate 6 (.step 0) ++ [.step 1]

/-- No assertion fails, and both buffers have the bytes 0 to 16 of the chunk. -/
theorem sendBuffers_overlap :
    ¬∀ s : State (Fin 2), (system (Fin 2)).Reachable System.anyStep s → s.crashed = false →
      Separate s := by
  intro hall
  have hany : ((system (Fin 2)).run overlapRun {}).any (fun s => decide (s.crashed = false ∧
      s.sendBuffers 0 = some ⟨0, 0, 16, 16, .closed, 1⟩ ∧
        s.sendBuffers 1 = some ⟨0, 0, 16, 0, .opened, 1⟩)) = true := by
    decide +kernel
  obtain ⟨s, hrun, hrunning, hfirst, hsecond⟩ := System.exists_of_run hany
  have hseparate := hall s (System.reachable_of_run rfl hrun) hrunning
  obtain hchunk | hdisjoint := hseparate.disjoint 0 1 _ _ (by decide) hfirst hsecond
  · exact hchunk rfl
  · exact absurd hdisjoint (by decide)

end Runs

end SendBufferManager

end ServerCore
