import ServerCore.Iocp.Accepts
import ServerCore.Word

/-!
# The number of sessions of a server

`StartAccept` arms as many accepts as the server may have sessions at once. An accept is
armed again when its session has been admitted, not when that session has been released,
and nothing looks at `sessionCount` before an admission. So the count is the number of
the clients that were admitted and not released, whatever that number is; it keeps to the
limit exactly when the clients do.

`ProcessDisconnect` may be called for every session at every time.
-/

namespace ServerCore

namespace Iocp

open Interleaving
open Receive (wsaIoPending)

/-- The world with its history: how often `ReleaseSession` has returned. -/
structure Limited (S L Buf : Type) where
  world : World S L Buf
  released : ℕ := 0

/-- The completion of an accept is handed to `ProcessAccept`, a session disconnects, or
a callback returns. -/
inductive LimitStep (S L : Type) where
  | processAccept (acceptEvent : AcceptEvent L) (answers : AcceptAnswers S)
  | processDisconnect (session : S)
  | finish (index : ℕ) (answer : Answer S)

variable {S L Buf : Type} [DecidableEq S] [DecidableEq L]

/-- `ProcessAccept` will run `ProcessConnect`. -/
def World.admits (w : World S L Buf) (acceptEvent : AcceptEvent L) (answers : AcceptAnswers S) :
    Bool :=
  (w.waiting acceptEvent).isSome && answers.syncSocketContext && !answers.getpeername

/-- The handler at the index will run a `ReleaseSession` that returns. -/
def World.releases (w : World S L Buf) (index : ℕ) : Bool :=
  match w.handlers[index]? with
  | some (.onDisconnected session) => (w.service.releaseSession w.build session).isSome
  | some (.onConnected _ _) => false
  | some (.onRecv _ _) => false
  | some (.onSend _) => false
  | none => false

def Limited.next (s : Limited S L Buf) : LimitStep S L → Option (Limited S L Buf)
  | .processAccept acceptEvent answers =>
      (s.world.acceptCompletion acceptEvent answers).map fun w => { s with world := w }
  | .processDisconnect session =>
      if s.world.crash.isSome then none
      else some { s with world := s.world.processDisconnect session }
  | .finish index answer =>
      (s.world.return index answer).map fun w =>
        { world := w, released := s.released + if s.world.releases index then 1 else 0 }

/-- All runs after a `StartAccept` of a server for `maxSessionCount` clients. -/
def limited (maxSessionCount : Int32) : System (Limited S L Buf) (LimitStep S L) where
  init s := ∃ bufferSize w listener attempts, (system bufferSize).init w ∧
    w.serviceType = .server ∧ w.maxSessionCount = maxSessionCount ∧
    w.startAccept listener true attempts = some s.world ∧ s.released = 0
  next := Limited.next

/-- The count keeps to the limit. -/
def WithinLimit (maxSessionCount : Int32) (s : Limited S L Buf) : Prop :=
  s.world.service.getCurrentSessionCount.toInt ≤ maxSessionCount.toInt

/-- The clients that were admitted and not released. -/
def Limited.clients (s : Limited S L Buf) : ℤ := s.world.admissions.length - s.released

/-- A client is admitted only below the limit, and a session is released only while an
`int32` holds the number. -/
def Below (maxSessionCount : Int32) (s : Limited S L Buf) : LimitStep S L → Prop
  | .processAccept acceptEvent answers =>
      s.world.admits acceptEvent answers = true → s.clients < maxSessionCount.toInt
  | .processDisconnect _ => True
  | .finish index _ => s.world.releases index = true → -2 ^ 31 < s.clients

variable {w w' : World S L Buf} {s t : Limited S L Buf}

section Steps

omit [DecidableEq S] [DecidableEq L] in
theorem admits_eq_false {acceptEvent : AcceptEvent L} {answers : AcceptAnswers S}
    (h : answers.syncSocketContext = false ∨ answers.getpeername = true) :
    w.admits acceptEvent answers = false := by
  rw [World.admits]
  obtain hsync | hpeer := h
  · rw [hsync, Bool.and_false, Bool.false_and]
  · rw [hpeer, Bool.not_true, Bool.and_false]

/-- A call of `ProcessAccept` admits one session, or leaves the service as it was. -/
theorem acceptCompletion_cases {acceptEvent : AcceptEvent L} {answers : AcceptAnswers S}
    (h : w.acceptCompletion acceptEvent answers = some w') :
    (w.admits acceptEvent answers = false ∧ w'.service = w.service ∧
      w'.admissions = w.admissions) ∨
    (w.admits acceptEvent answers = true ∧ ∃ session,
      w'.service = w.service.addSession session ∧
      w'.admissions = w.admissions ++ [(session, .accepted)]) := by
  rw [World.acceptCompletion] at h
  split at h
  · cases h
  cases hwaiting : w.waiting acceptEvent with
  | none =>
      -- the owner is null or a listener, and the process ends
      have hadmits : w.admits acceptEvent answers = false := by
        rw [World.admits, hwaiting]
        rfl
      rw [World.waiting] at hwaiting
      rw [World.processAccept] at h
      split at h
      · cases h
        exact .inl ⟨hadmits, rfl, rfl⟩
      · cases h
        exact .inl ⟨hadmits, rfl, rfl⟩
      next session howner =>
        change w.ownerSession (.acceptEvent acceptEvent) = some (.session session) at howner
        rw [howner] at hwaiting
        cases hwaiting
  | some session =>
      have howner : w.ownerSession (.acceptEvent acceptEvent) = some (.session session) := by
        rw [World.waiting] at hwaiting
        split at hwaiting <;> cases hwaiting
        assumption
      obtain ⟨hrejected, hregistered⟩ | ⟨hsync, hpeer, data, rfl⟩ :=
        processAccept_cases (w := w.dequeue (.acceptEvent acceptEvent)) howner h
      · have hquiet := quiet_registerAccept hregistered
        exact .inl ⟨admits_eq_false hrejected, hquiet.service, hquiet.admissions⟩
      · refine .inr ⟨?_, session, rfl, rfl⟩
        rw [World.admits, hwaiting, hsync, hpeer]
        rfl

omit [DecidableEq L] in
theorem finishDisconnect_sessionCount (w : World S L Buf) (session : S) :
    (w.finishDisconnect session).admissions = w.admissions ∧
      (w.finishDisconnect session).service.sessionCount = w.service.sessionCount -
        if (w.service.releaseSession w.build session).isSome then 1 else 0 := by
  unfold World.finishDisconnect
  cases hrelease : w.service.releaseSession w.build session with
  | none => exact ⟨rfl, (Int32.sub_zero _).symm⟩
  | some service =>
      refine ⟨rfl, ?_⟩
      show service.sessionCount = w.service.sessionCount - 1
      unfold Service.releaseSession at hrelease
      split at hrelease
      · split at hrelease
        · cases hrelease
        · cases hrelease
          rfl
      · cases hrelease
        rfl

theorem return_cases {index : ℕ} {answer : Answer S} (h : w.return index answer = some w') :
    w'.admissions = w.admissions ∧
      w'.service.sessionCount = w.service.sessionCount - if w.releases index then 1 else 0 := by
  rw [World.return] at h
  split at h
  · cases h
  split at h
  · cases h
  next handler hhandler =>
    have hother : (∀ session, handler ≠ .onDisconnected session) → w.releases index = false →
        w'.admissions = w.admissions ∧ w'.service.sessionCount = w.service.sessionCount -
          if w.releases index then 1 else 0 := by
      intro hne hreleases
      have hquiet := (quiet_handlers w (w.handlers.eraseIdx index)).trans (quiet_finish h hne)
      rw [hquiet.admissions, hquiet.service, hreleases]
      exact ⟨rfl, (Int32.sub_zero _).symm⟩
    cases handler with
    | onDisconnected session =>
        cases h
        rw [World.releases, hhandler]
        exact finishDisconnect_sessionCount { w with handlers := _ } session
    | onConnected => exact hother (by rintro _ ⟨⟩) (by rw [World.releases, hhandler])
    | onRecv => exact hother (by rintro _ ⟨⟩) (by rw [World.releases, hhandler])
    | onSend => exact hother (by rintro _ ⟨⟩) (by rw [World.releases, hhandler])

/-- A step leaves the count, or it counts an admission or a release. -/
theorem limited_cases {c : LimitStep S L} (hnext : s.next c = some t) (m : Int32) :
    (t.world.service.sessionCount = s.world.service.sessionCount ∧ t.clients = s.clients ∧
      Below m s c) ∨
    (t.world.service.sessionCount = s.world.service.sessionCount + 1 ∧
      t.clients = s.clients + 1 ∧ (Below m s c ↔ s.clients < m.toInt)) ∨
    (t.world.service.sessionCount = s.world.service.sessionCount - 1 ∧
      t.clients = s.clients - 1 ∧ (Below m s c ↔ -2 ^ 31 < s.clients)) := by
  cases c with
  | processAccept acceptEvent answers =>
      obtain ⟨w', hcompleted, rfl⟩ := Option.map_eq_some_iff.mp hnext
      obtain ⟨hadmits, hservice, hadmissions⟩ | ⟨hadmits, session, hservice, hadmissions⟩ :=
        acceptCompletion_cases hcompleted
      · refine .inl ⟨congrArg _ hservice, ?_, fun h => ?_⟩
        · show (w'.admissions.length : ℤ) - _ = _
          rw [hadmissions]
          rfl
        · rw [hadmits] at h
          cases h
      · refine .inr (.inl ⟨congrArg _ hservice, ?_, forall_prop_of_true hadmits⟩)
        show (w'.admissions.length : ℤ) - s.released = s.world.admissions.length - s.released + 1
        rw [hadmissions, List.length_append, List.length_singleton]
        omega
  | processDisconnect session =>
      rw [Limited.next] at hnext
      split at hnext
      · cases hnext
      · cases hnext
        exact .inl ⟨rfl, rfl, trivial⟩
  | finish index answer =>
      obtain ⟨w', hreturned, rfl⟩ := Option.map_eq_some_iff.mp hnext
      obtain ⟨hadmissions, hcount⟩ := return_cases hreturned
      have hclients : (w'.admissions.length : ℤ) = s.world.admissions.length := by
        rw [hadmissions]
      cases hreleases : s.world.releases index with
      | false =>
          rw [hreleases] at hcount
          refine .inl ⟨hcount.trans (Int32.sub_zero _), ?_, fun h => ?_⟩
          · show (w'.admissions.length : ℤ) - (s.released + 0 : ℕ) = _
            rw [hclients]
            rfl
          · rw [hreleases] at h
            cases h
      | true =>
          rw [hreleases] at hcount
          refine .inr (.inr ⟨hcount, ?_, forall_prop_of_true hreleases⟩)
          show (w'.admissions.length : ℤ) - (s.released + 1 : ℕ) =
            s.world.admissions.length - s.released - 1
          rw [hclients]
          omega

end Steps

section Runs

/-- Nobody is a client after `StartAccept`. -/
theorem limited_init {m : Int32} (h : (limited m).init s) :
    s.world.service.sessionCount = 0 ∧ s.clients = 0 := by
  obtain ⟨bufferSize, w, listener, attempts, ⟨build, serviceType, maxSessionCount, recvBuffer, -,
    rfl⟩, -, -, hstart, hreleased⟩ := h
  have hquiet := quiet_startAccept hstart
  rw [Limited.clients, hquiet.admissions, hquiet.service, hreleased]
  exact ⟨rfl, rfl⟩

/-- A counter below the largest limit passes it by an admission at the limit, or by a
release that wraps. -/
theorem within_iff_below {m : Int32} (hm : m ≠ Int32.maxValue) {c : LimitStep S L}
    (hcount : s.world.service.sessionCount.toInt = s.clients) (hwithin : WithinLimit m s)
    (hnext : s.next c = some t) :
    (WithinLimit m t ↔ Below m s c) ∧
      (Below m s c → t.world.service.sessionCount.toInt = t.clients) := by
  have hone : (1 : Int32).toInt = 1 := rfl
  have hmax := Word.toInt_lt_of_ne_maxValue hm
  have hmin := Int32.le_toInt s.world.service.sessionCount
  change s.world.service.sessionCount.toInt ≤ m.toInt at hwithin
  show (t.world.service.sessionCount.toInt ≤ m.toInt ↔ _) ∧ _
  obtain ⟨hsame, hclients, hbelow⟩ | ⟨hadded, hclients, hbelow⟩ | ⟨hreleased, hclients, hbelow⟩ :=
    limited_cases hnext m
  · rw [hsame, hclients]
    exact ⟨iff_of_true hwithin hbelow, fun _ => hcount⟩
  · have hsum : t.world.service.sessionCount.toInt = s.clients + 1 := by
      rw [hadded, Word.toInt_add_of_fits (by omega) (by omega), hcount, hone]
    rw [hbelow, hsum, hclients]
    exact ⟨Int.add_one_le_iff, fun _ => rfl⟩
  · rw [hbelow, hreleased, hclients]
    by_cases hlow : -2 ^ 31 < s.clients
    · have hdiff : (s.world.service.sessionCount - 1).toInt = s.clients - 1 := by
        rw [Word.toInt_sub_of_fits (by omega) (by omega), hcount, hone]
      rw [hdiff]
      exact ⟨iff_of_true (by omega) hlow, fun _ => rfl⟩
    · have hmin : s.world.service.sessionCount = Int32.minValue := by
        apply Int32.toInt_inj.mp
        show _ = (-2 ^ 31 : ℤ)
        omega
      have hwrapped : (s.world.service.sessionCount - 1).toInt = 2 ^ 31 - 1 := by
        rw [hmin]
        rfl
      rw [hwrapped]
      exact ⟨iff_of_false (by omega) hlow, fun h => absurd h hlow⟩

/-- In a run, the count keeps to the limit in every state exactly when every client is
admitted below the limit and no release wraps the count, or when no `int32` is above the
limit. -/
theorem sessionLimit_iff {m : Int32} (hm : 1 ≤ m.toInt) (hs : (limited m).init s)
    (steps : List (LimitStep S L)) :
    (limited m).Throughout (WithinLimit m) steps s ↔
      m = Int32.maxValue ∨ (limited m).Along (Below m) steps s := by
  obtain ⟨hzero, hnobody⟩ := limited_init hs
  by_cases hmax : m = Int32.maxValue
  · refine iff_of_true ?_ (.inl hmax)
    refine System.throughout_of_invariant (fun t _ => ?_) (fun _ _ _ _ _ => trivial) steps trivial
    have hlt := Int32.toInt_lt t.world.service.sessionCount
    rw [hmax]
    show t.world.service.sessionCount.toInt ≤ 2 ^ 31 - 1
    omega
  · have hstart : s.world.service.sessionCount.toInt = s.clients ∧ WithinLimit m s := by
      rw [WithinLimit, Service.getCurrentSessionCount, hzero, hnobody]
      exact ⟨rfl, Int.le_of_lt hm⟩
    rw [or_iff_right hmax]
    refine System.throughout_iff_along (I := fun s : Limited S L Buf =>
      s.world.service.sessionCount.toInt = s.clients ∧ WithinLimit m s) (fun s hs => hs.2) ?_ ?_
        steps hstart
    · intro s c t hs hbelow hnext
      obtain ⟨hiff, hcount⟩ := within_iff_below hmax hs.1 hs.2 hnext
      exact ⟨hcount hbelow, hiff.mpr hbelow⟩
    · intro s c t hs hnext hwithin
      exact (within_iff_below hmax hs.1 hs.2 hnext).1.mp hwithin

/-- The accept of a server for one client is armed with session 0. -/
def newLimited : Limited (Fin 2) (Fin 1) Unit := { world := listening.world }

theorem newLimited_init : (limited 1).init newLimited :=
  ⟨1, newServer, 0, [(rearmWith 0).attempts], ⟨.debug, .server, 1, _, by decide, rfl⟩, rfl, rfl,
    rfl, rfl⟩

/-- The client of session 0 is admitted, and then the client of session 1. -/
def twoClients : List (LimitStep (Fin 2) (Fin 1)) :=
  [.processAccept ⟨0, 0⟩ { getpeername := false },
    .finish 0 { result := ⟨true, wsaIoPending⟩, attempts := (rearmWith 1).attempts },
    .processAccept ⟨0, 0⟩ { getpeername := false }]

theorem sessionLimit_iff_twoClients :
    (limited 1).Throughout (WithinLimit 1) twoClients newLimited ↔
      1 = Int32.maxValue ∨ (limited 1).Along (Below 1) twoClients newLimited :=
  sessionLimit_iff (by decide) newLimited_init twoClients

/-- A server for one client has two. -/
theorem sessionLimit_passed :
    ¬∀ (m : Int32) (s : Limited (Fin 2) (Fin 1) Unit), 1 ≤ m.toInt →
      (limited m).Reachable System.anyStep s → WithinLimit m s := by
  intro hall
  have hany : ((limited 1).run twoClients newLimited).any
      (fun s => decide (s.world.service.getCurrentSessionCount = 2)) = true := by
    decide +kernel
  obtain ⟨s, hrun, htwo⟩ := System.exists_of_run hany
  have hwithin := hall 1 s (by decide) (System.reachable_of_run newLimited_init hrun)
  rw [WithinLimit, htwo] at hwithin
  exact absurd hwithin (by decide)

end Runs

end Iocp

end ServerCore
