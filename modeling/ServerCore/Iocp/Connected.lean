import ServerCore.Iocp.Calls

/-!
# Connected sessions and registered sessions

`ProcessConnect` sets `isConnected` and adds the session to its service.
`ProcessDisconnect` only releases it: nothing ever resets the flag. Here the handlers of
connects and disconnects run in the Debug build, those of one session in turn, and those
of several sessions in any order. A session is observed while no handler of it runs.
-/

namespace ServerCore

namespace Iocp

open Interleaving
open Receive (CallResult wsaIoPending)

variable {S L Buf : Type}

def Handler.session : Handler S L → S
  | .onConnected session _ => session
  | .onDisconnected session => session
  | .onRecv session _ => session
  | .onSend session => session

/-- `up` holds the sessions whose last handler was `ProcessConnect`. -/
structure Lifecycle (S L Buf : Type) where
  world : World S L Buf
  up : Finset S := ∅

namespace Lifecycle

/-- A handler of the session has not returned. -/
def Busy (s : Lifecycle S L Buf) (session : S) : Prop :=
  session ∈ s.world.handlers.map Handler.session

/-- A completion is dispatched, up to the callback, or a callback returns. -/
inductive Event (S : Type) where
  | connect (session : S)
  | disconnect (session : S)
  | finish (index : ℕ) (answer : Answer S)

variable [DecidableEq S]

instance (s : Lifecycle S L Buf) (session : S) : Decidable (s.Busy session) :=
  inferInstanceAs (Decidable (_ ∈ _))

variable [DecidableEq L]

/-- The handlers of a session alternate, beginning with `ProcessConnect`. -/
def next (s : Lifecycle S L Buf) : Event S → Option (Lifecycle S L Buf)
  | .connect session =>
      if s.world.crash.isSome ∨ s.Busy session ∨ session ∈ s.up then none
      else some
        { world := s.world.processConnect session (.connected true) none
          up := insert session s.up }
  | .disconnect session =>
      if s.world.crash.isSome ∨ s.Busy session ∨ session ∉ s.up then none
      else some
        { world := s.world.processDisconnect session
          up := s.up.erase session }
  | .finish index answer =>
      (s.world.next (.finish index answer)).map fun world => { s with world }

/-- The flag agrees with the set of the service, and a session that is not connected
sends and receives nothing and may connect. -/
structure Registered (s : Lifecycle S L Buf) : Prop where
  registered : ∀ session, ¬s.Busy session →
    ((s.world.sessions session).isConnected = true ↔ session ∈ s.world.service.sessions)
  silent : ∀ session, ¬s.Busy session → session ∉ s.up →
    (∀ sendBuffer, s.world.send session sendBuffer = s.world) ∧
      s.world.registerSend session = s.world ∧
      ∀ result, s.world.registerRecv session result = s.world
  connects : ∀ session, ¬s.Busy session → session ∉ s.up → s.world.serviceType = .client →
    ∀ result, result.posted = true → (s.world.registerConnect session true result).1 = true

/-- No `ProcessDisconnect` returns. -/
def Stays (s : Lifecycle S L Buf) : Event S → Prop
  | .finish index _ => ∀ session, s.world.handlers[index]? ≠ some (.onDisconnected session)
  | _ => True

end Lifecycle

/-- All runs of connects and disconnects over a service that was just made. -/
def lifecycle [DecidableEq S] [DecidableEq L] (bufferSize : Int32) :
    System (Lifecycle S L Buf) (Lifecycle.Event S) where
  init s := ∃ world, (system bufferSize).init world ∧ world.build = .debug ∧ s = { world }
  next := Lifecycle.next

namespace Lifecycle

variable [DecidableEq S] [DecidableEq L] {s s' : Lifecycle S L Buf} {e : Event S} {session : S}

/-- While no `ProcessDisconnect` has returned: the flag and the set agree throughout, and
the set holds the sessions that are up or inside `OnDisconnected`. -/
structure Sound (s : Lifecycle S L Buf) : Prop where
  debug : s.world.build = .debug
  nodup : (s.world.handlers.map Handler.session).Nodup
  handlers : ∀ handler ∈ s.world.handlers,
    (∃ session, handler = .onConnected session none) ∨ ∃ session, handler = .onDisconnected session
  connected : ∀ session,
    (s.world.sessions session).isConnected = true ↔ session ∈ s.world.service.sessions
  sessions : ∀ session, session ∈ s.world.service.sessions ↔
    session ∈ s.up ∨ Handler.onDisconnected session ∈ s.world.handlers

omit [DecidableEq S] [DecidableEq L] in
theorem busy_of_mem {handler : Handler S L} (h : handler ∈ s.world.handlers) :
    s.Busy handler.session := List.mem_map_of_mem h

section Step

theorem Sound.registered (h : Sound s) : Registered s := by
  have hfree : ∀ session, ¬s.Busy session → session ∉ s.up →
      (s.world.sessions session).isConnected = false := by
    intro session hidle hdown
    rw [Bool.eq_false_iff]
    intro hconnected
    obtain hup | hmem := (h.sessions session).mp ((h.connected session).mp hconnected)
    · exact hdown hup
    · exact hidle (busy_of_mem hmem)
  refine ⟨fun session _ => h.connected session, fun session hidle hdown => ?_, ?_⟩
  · have hdisconnected := hfree session hidle hdown
    refine ⟨fun _ => ?_, ?_, fun _ => ?_⟩
    · exact if_pos hdisconnected
    · exact if_pos hdisconnected
    · exact if_pos hdisconnected
  · intro session hidle hdown hclient result hposted
    simp [World.registerConnect, hfree session hidle hdown, hclient, hposted]

/-- `OnConnected` of a session begins. -/
theorem Sound.connect (h : Sound s) (hidle : ¬s.Busy session) :
    Sound ({ world := s.world.processConnect session (.connected true) none
             up := insert session s.up } : Lifecycle S L Buf) := by
  refine ⟨h.debug, List.nodup_cons.mpr ⟨hidle, h.nodup⟩, ?_, fun x => ?_, fun x => ?_⟩
  · intro handler hmem
    obtain rfl | hmem := List.mem_cons.mp hmem
    · exact .inl ⟨session, rfl⟩
    · exact h.handlers handler hmem
  · change (Function.update s.world.sessions session _ x).isConnected = true ↔
      x ∈ insert session s.world.service.sessions
    obtain rfl | hne := eq_or_ne x session
    · rw [Function.update_self]
      exact iff_of_true rfl (Finset.mem_insert_self _ _)
    · rw [Function.update_of_ne hne, Finset.mem_insert, or_iff_right hne]
      exact h.connected x
  · change x ∈ insert session s.world.service.sessions ↔
      x ∈ insert session s.up ∨ Handler.onDisconnected x ∈ _ :: s.world.handlers
    rw [Finset.mem_insert, Finset.mem_insert, h.sessions x, or_assoc, List.mem_cons]
    simp only [reduceCtorEq, false_or]

/-- `OnDisconnected` of a session begins. -/
theorem Sound.disconnect (h : Sound s) (hidle : ¬s.Busy session) (hup : session ∈ s.up) :
    Sound ({ world := s.world.processDisconnect session
             up := s.up.erase session } : Lifecycle S L Buf) := by
  refine ⟨h.debug, List.nodup_cons.mpr ⟨hidle, h.nodup⟩, ?_, h.connected, fun x => ?_⟩
  · intro handler hmem
    obtain rfl | hmem := List.mem_cons.mp hmem
    · exact .inr ⟨session, rfl⟩
    · exact h.handlers handler hmem
  · change x ∈ s.world.service.sessions ↔
      x ∈ s.up.erase session ∨ Handler.onDisconnected x ∈ _ :: s.world.handlers
    rw [h.sessions x, Finset.mem_erase, List.mem_cons, Handler.onDisconnected.injEq]
    obtain rfl | hne := eq_or_ne x session
    · simp [hup]
    · simp [hne]

omit [DecidableEq S] [DecidableEq L] in
theorem idle_of_nodup {handlers : List (Handler S L)} (h : (handlers.map Handler.session).Nodup)
    {index : ℕ} {handler : Handler S L} (hindex : handlers[index]? = some handler) :
    handler.session ∉ (handlers.eraseIdx index).map Handler.session := by
  rw [← List.eraseIdx_map, List.mem_eraseIdx_iff_getElem?]
  rintro ⟨i, hne, hi⟩
  have hk : (handlers.map Handler.session)[index]? = some handler.session := by
    rw [List.getElem?_map, hindex]
    rfl
  obtain ⟨hlt, -⟩ := List.getElem?_eq_some_iff.mp hi
  exact hne ((List.getElem?_inj hlt h).mp (hi.trans hk.symm))

theorem registerRecv_handlers (w : World S L Buf) (session : S) (result : CallResult) :
    (w.registerRecv session result).handlers = w.handlers ∧
      (w.registerRecv session result).build = w.build := by
  simp only [World.registerRecv]
  split
  · exact ⟨rfl, rfl⟩
  split
  · split
    · exact ⟨rfl, rfl⟩
    · exact ⟨rfl, rfl⟩
  · split
    · exact ⟨rfl, rfl⟩
    · exact ⟨rfl, rfl⟩

/-- `OnConnected` returns, and the handler registers a receive. -/
theorem Sound.finishConnect (h : Sound s) {index : ℕ} (result : CallResult)
    (hindex : s.world.handlers[index]? = some (.onConnected session none)) :
    Sound (⟨World.registerRecv { s.world with handlers := s.world.handlers.eraseIdx index }
      session result, s.up⟩ : Lifecycle S L Buf) := by
  have hquiet : Quiet s.world (World.registerRecv
      { s.world with handlers := s.world.handlers.eraseIdx index } session result) :=
    (quiet_handlers s.world _).trans (quiet_registerRecv _ session result)
  obtain ⟨hhandlers, hbuild⟩ := registerRecv_handlers
    { s.world with handlers := s.world.handlers.eraseIdx index } session result
  refine ⟨hbuild.trans h.debug, ?_, ?_, fun x => ?_, fun x => ?_⟩
  · rw [hhandlers, ← List.eraseIdx_map]
    exact h.nodup.eraseIdx index
  · intro handler hmem
    rw [hhandlers] at hmem
    exact h.handlers handler (List.mem_of_mem_eraseIdx hmem)
  · rw [hquiet.connected, hquiet.service]
    exact h.connected x
  · rw [hquiet.service, hhandlers]
    refine (h.sessions x).trans (or_congr_right ⟨fun hmem => ?_, List.mem_of_mem_eraseIdx⟩)
    obtain ⟨i, hi⟩ := List.mem_iff_getElem?.mp hmem
    refine List.mem_eraseIdx_iff_getElem?.mpr ⟨i, fun heq => ?_, hi⟩
    subst heq
    rw [hindex] at hi
    cases hi

/-- Where `ProcessDisconnect` returns, the session is released and still connected. -/
theorem Sound.finishDisconnect (h : Sound s) {index : ℕ}
    (hindex : s.world.handlers[index]? = some (.onDisconnected session)) :
    ¬Registered (⟨World.finishDisconnect { s.world with handlers := s.world.handlers.eraseIdx index }
      session, s.up⟩ : Lifecycle S L Buf) := by
  have hmem : session ∈ s.world.service.sessions :=
    (h.sessions session).mpr (.inr (List.mem_of_getElem? hindex))
  have hidle := idle_of_nodup h.nodup hindex
  have hreleased : s.world.service.releaseSession s.world.build session = some
      { sessions := s.world.service.sessions.erase session
        sessionCount := s.world.service.sessionCount - 1 } := by
    rw [h.debug]
    exact if_neg (not_not.mpr hmem)
  intro hregistered
  simp only [World.finishDisconnect, hreleased] at hregistered
  have hstill := (hregistered.registered session hidle).mp ((h.connected session).mpr hmem)
  exact Finset.notMem_erase session _ hstill

/-- A step keeps the agreement exactly when no `ProcessDisconnect` returns. -/
theorem registered_iff_stays (h : Sound s) (hnext : s.next e = some s') :
    (Stays s e → Sound s') ∧ (Registered s' → Stays s e) := by
  cases e with
  | connect session =>
      simp only [Lifecycle.next] at hnext
      split at hnext
      · cases hnext
      next hfree =>
        simp only [not_or] at hfree
        cases hnext
        exact ⟨fun _ => h.connect hfree.2.1, fun _ => trivial⟩
  | disconnect session =>
      simp only [Lifecycle.next] at hnext
      split at hnext
      · cases hnext
      next hfree =>
        simp only [not_or, not_not] at hfree
        cases hnext
        exact ⟨fun _ => h.disconnect hfree.2.1 hfree.2.2, fun _ => trivial⟩
  | finish index answer =>
      obtain ⟨world, hworld, rfl⟩ := Option.map_eq_some_iff.mp hnext
      unfold World.next at hworld
      split at hworld
      · cases hworld
      simp only at hworld
      split at hworld
      · cases hworld
      next handler hindex =>
      obtain ⟨session, rfl⟩ | ⟨session, rfl⟩ := h.handlers handler (List.mem_of_getElem? hindex)
      · cases hworld
        refine ⟨fun _ => h.finishConnect answer.result hindex, fun _ x hx => ?_⟩
        cases hindex.symm.trans hx
      · cases hworld
        refine ⟨fun hstays => absurd hindex (hstays session), fun hregistered => ?_⟩
        exact absurd hregistered (h.finishDisconnect hindex)

end Step

end Lifecycle

open Lifecycle

section Runs

variable [DecidableEq S] [DecidableEq L] {s : Lifecycle S L Buf}

/-- In a run, the flag agrees with the set of the service in every state exactly when no
`ProcessDisconnect` returns. -/
theorem connected_registered_iff {bufferSize : Int32} (h : (lifecycle bufferSize).init s)
    (es : List (Lifecycle.Event S)) :
    (lifecycle bufferSize).Throughout Registered es s ↔
      (lifecycle bufferSize).Along Stays es s := by
  have hstart : Sound s := by
    obtain ⟨world, ⟨build, serviceType, maxSessionCount, recvBuffer, -, rfl⟩, hdebug, rfl⟩ := h
    refine ⟨hdebug, List.nodup_nil, nofun, fun session => ?_, fun session => ?_⟩
    · exact iff_of_false nofun (Finset.notMem_empty session)
    · simp
  refine System.throughout_iff_along (I := fun s : Lifecycle S L Buf => Sound s)
    (fun s hs => hs.registered) ?_ ?_ es hstart
  · intro s e s' hs stays hnext
    exact (registered_iff_stays hs hnext).1 stays
  · intro s e s' hs hnext registered
    exact (registered_iff_stays hs hnext).2 registered

def newLifecycle : Lifecycle (Fin 1) (Fin 1) Unit := { world := newWorld .client }

theorem newLifecycle_init : (lifecycle 1).init newLifecycle :=
  ⟨newWorld .client, newWorld_init .client, rfl, rfl⟩

/-- The session connects and disconnects. -/
def reconnectRun : List (Lifecycle.Event (Fin 1)) :=
  [.connect 0, .finish 0 { result := ⟨true, wsaIoPending⟩ }, .disconnect 0,
    .finish 0 { result := ⟨true, wsaIoPending⟩ }]

theorem connected_registered_iff_reconnect :
    (lifecycle 1).Throughout Registered reconnectRun newLifecycle ↔
      (lifecycle 1).Along Stays reconnectRun newLifecycle :=
  connected_registered_iff newLifecycle_init reconnectRun

/-- After its disconnect the session is connected and not registered. -/
theorem connected_not_registered :
    ¬∀ (bufferSize : Int32) (s : Lifecycle (Fin 1) (Fin 1) Unit),
      (lifecycle bufferSize).Reachable System.anyStep s → Registered s := by
  intro hall
  have hany : ((lifecycle 1).run reconnectRun newLifecycle).any (fun s => decide
      (¬s.Busy 0 ∧ (s.world.sessions 0).isConnected = true ∧
        0 ∉ s.world.service.sessions)) = true := by
    decide +kernel
  obtain ⟨s, hrun, hidle, hconnected, habsent⟩ := System.exists_of_run hany
  have hregistered := hall 1 s (System.reachable_of_run newLifecycle_init hrun)
  exact habsent ((hregistered.registered 0 hidle).mp hconnected)

end Runs

end Iocp

end ServerCore
