import ServerCore.Interleaving.System
import ServerCore.Service.Basic
import ServerCore.Word

/-!
# The bookkeeping of a service

Each session is added once and then released once. `added` and `released` record the
calls; the sessions that are registered are those added and not released (`live`). In
the Debug build the members of `Service` agree with it while an `int32` can hold the
number of sessions. In the Release build the erasure of `ReleaseSession` is gone with
its assertion, so they agree only until the first release.
-/

namespace ServerCore

namespace Service

open Interleaving

variable {S : Type} [LinearOrder S]

structure Registry (S : Type) where
  service : Service S := {}
  added : Finset S := ∅
  released : Finset S := ∅
  crashed : Bool := false

inductive Call (S : Type) where
  | addSession (session : S)
  | releaseSession (session : S)

namespace Registry

/-- The sessions that were added and not yet released. -/
def live (s : Registry S) : Finset S := s.added \ s.released

/-- A call that keeps to the order of use: each session is added once and then released
once. -/
def next (build : Build) (s : Registry S) (call : Call S) : Option (Registry S) :=
  if s.crashed then none
  else
    match call with
    | .addSession session =>
        if session ∈ s.added then none
        else some { s with
          service := s.service.addSession session
          added := insert session s.added }
    | .releaseSession session =>
        if session ∉ s.live then none
        else
          match s.service.releaseSession build session with
          | none => some { s with crashed := true }
          | some service => some { s with service, released := insert session s.released }

/-- The members of the service agree with the calls made. -/
structure Booked (s : Registry S) : Prop where
  running : s.crashed = false
  sessions : s.service.sessions = s.live
  count : s.service.getCurrentSessionCount.toInt = s.service.sessions.card
  once : ∀ {Buf : Type} (sendBuffer : Buf), (s.service.broadCast sendBuffer).Nodup
  reached : ∀ {Buf : Type} (sendBuffer : Buf) session,
    (session, sendBuffer) ∈ s.service.broadCast sendBuffer ↔ session ∈ s.live

end Registry

def registry (build : Build) : System (Registry S) (Call S) where
  init s := s = {}
  next := Registry.next build

/-- The number of sessions stays in `int32`, and nothing is released in the Release
build. -/
def Kept (build : Build) (s : Registry S) : Call S → Prop
  | .addSession _ => s.service.sessions.card + 1 < 2 ^ 31
  | .releaseSession _ => build = .debug

namespace Registry

variable {build : Build} {s s' : Registry S} {call : Call S}

/-- `BroadCast` reaches the sessions of the set, once each. -/
theorem booked_of_counted (running : s.crashed = false) (sessions : s.service.sessions = s.live)
    (count : s.service.sessionCount.toInt = s.service.sessions.card) : s.Booked := by
  refine ⟨running, sessions, count, fun sendBuffer => ?_, fun sendBuffer session => ?_⟩
  · apply (Finset.sort_nodup _ _).map
    intro a b hab
    exact congrArg Prod.fst hab
  · simp [Service.broadCast, sessions]

theorem booked_start : ({} : Registry S).Booked := booked_of_counted rfl rfl rfl

/-- What the two calls do to a service that does not end the process. -/
inductive Step (build : Build) (s : Registry S) : Call S → Registry S → Prop where
  | add {session} (new : session ∉ s.added) : Step build s (.addSession session)
      { s with service := s.service.addSession session, added := insert session s.added }
  | released {session service} (mem : session ∈ s.live)
      (done : s.service.releaseSession build session = some service) :
      Step build s (.releaseSession session)
        { s with service, released := insert session s.released }
  | missing {session} (mem : session ∈ s.live)
      (absent : s.service.releaseSession build session = none) :
      Step build s (.releaseSession session) { s with crashed := true }

theorem step_of_next (h : (registry build).next s call = some s') : Step build s call s' := by
  change s.next build call = some s' at h
  unfold Registry.next at h
  split at h
  · cases h
  · cases call with
    | addSession session =>
        simp only at h
        split at h <;> cases h
        exact .add ‹_›
    | releaseSession session =>
        simp only at h
        split at h
        · cases h
        · split at h <;> cases h
          · exact .missing (not_not.mp ‹_›) ‹_›
          · exact .released (not_not.mp ‹_›) ‹_›

/-- Only what was added is released. -/
theorem Step.released_subset (h : Step build s call s') (hs : s.released ⊆ s.added) :
    s'.released ⊆ s'.added := by
  cases h with
  | add => exact hs.trans (Finset.subset_insert _ _)
  | released mem => exact Finset.insert_subset (Finset.mem_sdiff.mp mem).1 hs
  | missing => exact hs

/-- In the Debug build, and while the count fits, the agreement is kept. -/
theorem Booked.step (h : s.Booked) (hs : s.released ⊆ s.added) (kept : Kept build s call)
    (hstep : Step build s call s') : s'.Booked := by
  have hone : (1 : Int32).toInt = 1 := rfl
  have hcount : s.service.sessionCount.toInt = s.service.sessions.card := h.count
  cases hstep with
  | @add session new =>
      have hlive : session ∉ s.live := fun hmem => new (Finset.mem_sdiff.mp hmem).1
      have hfresh : session ∉ s.service.sessions := by
        rwa [h.sessions]
      change s.service.sessions.card + 1 < 2 ^ 31 at kept
      apply booked_of_counted
      · exact h.running
      · change insert session s.service.sessions = insert session s.added \ s.released
        rw [h.sessions, live, Finset.insert_sdiff_of_notMem _ fun hmem => new (hs hmem)]
      · change (s.service.sessionCount + 1).toInt = (insert session s.service.sessions).card
        rw [Finset.card_insert_of_notMem hfresh,
          Word.toInt_add_of_fits (by omega) (by omega), hcount, hone, Nat.cast_succ]
  | @released session service mem done =>
      obtain rfl : build = .debug := kept
      have hmem : session ∈ s.service.sessions := by
        rwa [h.sessions]
      simp only [releaseSession, hmem, not_true_eq_false, if_false] at done
      cases done
      have hpos := Finset.card_pos.mpr ⟨session, hmem⟩
      apply booked_of_counted
      · exact h.running
      · change s.service.sessions.erase session = s.added \ insert session s.released
        rw [h.sessions, live, Finset.sdiff_insert]
      · change (s.service.sessionCount - 1).toInt = (s.service.sessions.erase session).card
        rw [Finset.card_erase_of_mem hmem, Word.toInt_sub_of_le (by omega) (by omega), hcount,
          hone]
        omega
  | @missing session mem absent =>
      obtain rfl : build = .debug := kept
      have hmem : session ∈ s.service.sessions := by
        rwa [h.sessions]
      simp [releaseSession, hmem] at absent

/-- A step that keeps the agreement is in the Debug build or adds, and the count fits. -/
theorem Booked.kept (h : s.Booked) (hstep : Step build s call s') (h' : s'.Booked) :
    Kept build s call := by
  cases hstep with
  | @add session new =>
      have hfresh : session ∉ s.service.sessions := by
        rw [h.sessions]
        exact fun hmem => new (Finset.mem_sdiff.mp hmem).1
      have hcount := h'.count
      change (s.service.sessionCount + 1).toInt = (insert session s.service.sessions).card
        at hcount
      rw [Finset.card_insert_of_notMem hfresh] at hcount
      have hlt := Int32.toInt_lt (s.service.sessionCount + 1)
      change s.service.sessions.card + 1 < 2 ^ 31
      omega
  | @released session service mem done =>
      cases build with
      | debug => rfl
      | release =>
          cases done
          have hsessions := h'.sessions
          change s.service.sessions = s.added \ insert session s.released at hsessions
          rw [h.sessions] at hsessions
          rw [hsessions] at mem
          exact absurd (Finset.mem_insert_self _ _) (Finset.mem_sdiff.mp mem).2
  | missing =>
      have hrunning := h'.running
      cases hrunning

end Registry

/-- In a run of calls, the service is booked in every state exactly when every call is
kept: in the Debug build while the count fits, in the Release build until a release. -/
theorem service_booked_iff (build : Build) (calls : List (Call S)) :
    (registry build).Throughout Registry.Booked calls {} ↔
      (registry build).Along (Kept build) calls {} := by
  refine System.throughout_iff_along (I := fun s : Registry S => s.Booked ∧ s.released ⊆ s.added)
    (fun s hs => hs.1) ?_ ?_ calls ⟨Registry.booked_start, Finset.Subset.refl _⟩
  · intro s call s' hs kept hnext
    have hstep := Registry.step_of_next hnext
    exact ⟨hs.1.step hs.2 kept hstep, hstep.released_subset hs.2⟩
  · intro s call s' hs hnext h'
    exact hs.1.kept (Registry.step_of_next hnext) h'

/-- In the Release build a released session stays in the set. -/
theorem service_not_booked :
    ¬∀ (build : Build) (s : Registry (Fin 1)), (registry build).Reachable System.anyStep s →
      s.Booked := by
  intro hall
  have hany : ((registry .release).run [.addSession 0, .releaseSession 0]
      ({} : Registry (Fin 1))).any (fun s => decide (s.service.sessions ≠ s.live)) = true := by
    decide +kernel
  obtain ⟨s, hrun, hne⟩ := System.exists_of_run hany
  exact hne (hall .release s (System.reachable_of_run rfl hrun)).sessions

end Service

end ServerCore
