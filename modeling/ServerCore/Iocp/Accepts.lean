import Mathlib.Data.List.Count
import ServerCore.Iocp.Calls

/-!
# Which clients an accept admits, and what becomes of its event

The completions of `AcceptEx` are handed to `ProcessAccept` here, whatever
`DispatchCompletionPacket` does with them, and every `AcceptEx` is accepted or pending.
Each way through `ProcessAccept` then arms its event once more, at the latest when
`OnConnected` has returned. Whom it admits is wrong as soon as `SyncSocketContext`
succeeds: a `getpeername` that has not failed is taken for a failure, and one that has
failed lets the client in with an address that nobody has stored.
-/

namespace ServerCore

namespace Iocp

open Interleaving
open Receive (CallResult wsaIoPending)

/-- A `RegisterAccept` whose first attempt is accepted, with the new session. -/
structure Rearm (S : Type) where
  session : S
  result : CallResult
  posted : result.posted = true

def Rearm.attempts {S : Type} (rearm : Rearm S) : List (Attempt S) :=
  [{ session := some rearm.session, result := rearm.result }]

/-- What `SyncSocketContext` and `getpeername` answer. -/
structure Peer where
  syncSocketContext : Bool
  getpeername : Bool
  sockAddr : NetAddress
  deriving DecidableEq

def Peer.answers {S : Type} (peer : Peer) (rearm : Rearm S) : AcceptAnswers S :=
  { syncSocketContext := peer.syncSocketContext, getpeername := peer.getpeername
    sockAddr := peer.sockAddr, attempts := rearm.attempts }

/-- A call of `ProcessAccept` that has begun. -/
structure Accepted (S L : Type) where
  acceptEvent : AcceptEvent L
  session : S
  peer : Peer
  deriving DecidableEq

/-- The world with its history: the calls of `ProcessAccept`, the sessions that
`ProcessConnect` was run on with their addresses, and the events that were armed with the
sessions that `CreateSession` made for them. -/
structure Accepting (S L Buf : Type) where
  world : World S L Buf
  calls : List (Accepted S L) := []
  admitted : List (S × NetAddress) := []
  armings : List (AcceptEvent L × S) := []

/-- The completion of an accept is handed to `ProcessAccept`, or a callback returns. -/
inductive AcceptStep (S L : Type) where
  | processAccept (acceptEvent : AcceptEvent L) (peer : Peer) (rearm : Rearm S)
  | finish (index : ℕ) (result : CallResult) (rearm : Rearm S)

variable {S L Buf : Type} [DecidableEq S] [DecidableEq L]

/-- An outstanding accept completes, and `ProcessAccept` is called. -/
def World.acceptCompletion (w : World S L Buf) (acceptEvent : AcceptEvent L)
    (answers : AcceptAnswers S) : Option (World S L Buf) :=
  if w.crash.isSome ∨ w.outstanding (.acceptEvent acceptEvent) = 0 then none
  else (w.dequeue (.acceptEvent acceptEvent)).processAccept acceptEvent answers

/-- The handler at the index goes on. -/
def World.return (w : World S L Buf) (index : ℕ) (answer : Answer S) : Option (World S L Buf) :=
  if w.crash.isSome then none
  else
    match w.handlers[index]? with
    | none => none
    | some handler => { w with handlers := w.handlers.eraseIdx index }.finish answer handler

/-- The sessions that were admitted between two states, with their addresses. -/
def newlyAdmitted (w w' : World S L Buf) : List (S × NetAddress) :=
  (w'.admissions.drop w.admissions.length).map fun a => (a.1, (w'.sessions a.1).netAddress)

/-- The session that waits for a client at the event. -/
def World.waiting (w : World S L Buf) (acceptEvent : AcceptEvent L) : Option S :=
  match w.ownerSession (.acceptEvent acceptEvent) with
  | some (.session session) => some session
  | some (.listener _) => none
  | none => none

/-- The arming of the event between two states. -/
def newlyArmed (w w' : World S L Buf) (acceptEvent : AcceptEvent L) : List (AcceptEvent L × S) :=
  if w.outstanding (.acceptEvent acceptEvent) < w'.outstanding (.acceptEvent acceptEvent) then
    (w'.waiting acceptEvent).toList.map (acceptEvent, ·)
  else []

/-- The event that the handler will arm. -/
def Handler.acceptEvent : Handler S L → Option (AcceptEvent L)
  | .onConnected _ event => event
  | .onDisconnected _ => none
  | .onRecv _ _ => none
  | .onSend _ => none

/-- The histories have the newest entry first. -/
def Accepting.next (s : Accepting S L Buf) : AcceptStep S L → Option (Accepting S L Buf)
  | .processAccept acceptEvent peer rearm =>
      (s.world.acceptCompletion acceptEvent (peer.answers rearm)).map fun w =>
        { world := w
          calls := (s.world.waiting acceptEvent).toList.map (⟨acceptEvent, ·, peer⟩) ++ s.calls
          admitted := newlyAdmitted s.world w ++ s.admitted
          armings := newlyArmed (s.world.dequeue (.acceptEvent acceptEvent)) w acceptEvent ++
            s.armings }
  | .finish index result rearm =>
      (s.world.return index { result, attempts := rearm.attempts }).map fun w =>
        { world := w
          calls := s.calls
          admitted := newlyAdmitted s.world w ++ s.admitted
          armings := ((s.world.handlers[index]?.bind Handler.acceptEvent).toList.flatMap
            (newlyArmed s.world w)) ++ s.armings }

/-- The armings of `StartAccept`, from the event with the given index on. -/
def startArmings (listener : L) : ℕ → List (Rearm S) → List (AcceptEvent L × S)
  | _, [] => []
  | index, rearm :: rest =>
      startArmings listener (index + 1) rest ++ [(⟨listener, index⟩, rearm.session)]

/-- All sequences of calls after a `StartAccept` of the listener. -/
def accepting (listener : L) : System (Accepting S L Buf) (AcceptStep S L) where
  init s := ∃ bufferSize w rearms w', (system bufferSize).init w ∧
    w.startAccept listener true (rearms.map Rearm.attempts) = some w' ∧
      s = { world := w', armings := startArmings listener 0 rearms }
  next := Accepting.next

/-- The calls of `ProcessAccept` that are inside `OnConnected`. -/
def World.pendingAccepts (w : World S L Buf) (acceptEvent : AcceptEvent L) : ℕ :=
  w.handlers.countP fun handler => handler.acceptEvent = some acceptEvent

/-- One for each event that `StartAccept` has made. -/
def World.slots (w : World S L Buf) (acceptEvent : AcceptEvent L) : ℕ :=
  if acceptEvent.index < w.acceptEvents acceptEvent.listener then 1 else 0

/-- Every event of `StartAccept` is armed once, except while a call that will arm it is
inside `OnConnected`; every call has armed its event once, or is about to; and an armed
event waits with the session that was made when it was armed last. -/
structure Rearmed (s : Accepting S L Buf) : Prop where
  armed : ∀ acceptEvent, s.world.outstanding (.acceptEvent acceptEvent) +
    s.world.pendingAccepts acceptEvent = s.world.slots acceptEvent
  once : ∀ acceptEvent, (s.armings.map Prod.fst).count acceptEvent +
    s.world.pendingAccepts acceptEvent =
      s.world.slots acceptEvent + (s.calls.map Accepted.acceptEvent).count acceptEvent
  session : ∀ acceptEvent, 0 < s.world.outstanding (.acceptEvent acceptEvent) →
    ∃ session, s.world.ownerSession (.acceptEvent acceptEvent) = some (.session session) ∧
      (s.armings.find? (·.1 = acceptEvent)) = some (acceptEvent, session)

/-- `ProcessConnect` was run for the calls whose `SyncSocketContext` and `getpeername`
both succeeded, with the addresses that `getpeername` reported. -/
def Exact (s : Accepting S L Buf) : Prop :=
  s.admitted = (s.calls.filter fun call =>
    call.peer.syncSocketContext && call.peer.getpeername).map fun call =>
      (call.session, call.peer.sockAddr)

/-- `SyncSocketContext` fails. -/
def SyncFails (_ : Accepting S L Buf) : AcceptStep S L → Prop
  | .processAccept _ peer _ => peer.syncSocketContext = false
  | .finish _ _ _ => True

/-- Nothing is owed, or one arming of the event. -/
def owes (owed : Option (AcceptEvent L)) (acceptEvent : AcceptEvent L) : ℕ :=
  if owed = some acceptEvent then 1 else 0

/-- `Rearmed` while an event may still be owed its arming; every arming has completed in a
call or is outstanding. -/
structure Ledger (owed : Option (AcceptEvent L)) (s : Accepting S L Buf) : Prop where
  armed : ∀ acceptEvent, s.world.outstanding (.acceptEvent acceptEvent) +
    s.world.pendingAccepts acceptEvent + owes owed acceptEvent = s.world.slots acceptEvent
  counted : ∀ acceptEvent, (s.armings.map Prod.fst).count acceptEvent =
    s.world.outstanding (.acceptEvent acceptEvent) +
      (s.calls.map Accepted.acceptEvent).count acceptEvent
  session : ∀ acceptEvent, 0 < s.world.outstanding (.acceptEvent acceptEvent) →
    ∃ session, s.world.ownerSession (.acceptEvent acceptEvent) = some (.session session) ∧
      (s.armings.find? (·.1 = acceptEvent)) = some (acceptEvent, session)
  running : s.world.crash = none
  handlers : ∀ handler ∈ s.world.handlers, ∃ session acceptEvent,
    handler = .onConnected session (some acceptEvent)

variable {w w' : World S L Buf} {s t : Accepting S L Buf} {acceptEvent : AcceptEvent L}

/-- The event is armed with the session. -/
def World.arm (w : World S L Buf) (acceptEvent : AcceptEvent L) (session : S) : World S L Buf :=
  (w.setOwner (.acceptEvent acceptEvent) (some (.session session))).start (.acceptEvent acceptEvent)

theorem registerAccept_rearm (rearm : Rearm S) :
    World.registerAccept acceptEvent rearm.attempts w = some (w.arm acceptEvent rearm.session) := by
  rw [Rearm.attempts, World.registerAccept]
  simp only [rearm.posted, if_true]
  rfl

section Arm

variable (w) (session : S)

theorem arm_outstanding : (w.arm acceptEvent session).outstanding (.acceptEvent acceptEvent) =
    w.outstanding (.acceptEvent acceptEvent) + 1 := Function.update_self ..

theorem arm_owner : (w.arm acceptEvent session).ownerSession (.acceptEvent acceptEvent) =
    some (.session session) := Function.update_self ..

theorem arm_of_ne {x : AcceptEvent L} (h : x ≠ acceptEvent) :
    (w.arm acceptEvent session).outstanding (.acceptEvent x) = w.outstanding (.acceptEvent x) ∧
    (w.arm acceptEvent session).ownerSession (.acceptEvent x) =
      w.ownerSession (.acceptEvent x) := by
  have hne : (.acceptEvent x : IocpEvent S L) ≠ .acceptEvent acceptEvent := by simpa using h
  exact ⟨Function.update_of_ne hne .., Function.update_of_ne hne ..⟩

theorem newlyArmed_arm {v : World S L Buf}
    (h : v.outstanding (.acceptEvent acceptEvent) = w.outstanding (.acceptEvent acceptEvent)) :
    newlyArmed w (v.arm acceptEvent session) acceptEvent = [(acceptEvent, session)] := by
  rw [newlyArmed, arm_outstanding, h, if_pos (Nat.lt_succ_self _), World.waiting, arm_owner]
  rfl

end Arm

section Ledger

omit [DecidableEq S] in
theorem owes_self : owes (some acceptEvent) acceptEvent = 1 := if_pos rfl

omit [DecidableEq S] in
theorem owes_of_ne {x : AcceptEvent L} (h : x ≠ acceptEvent) : owes (some acceptEvent) x = 0 :=
  if_neg fun heq => h (Option.some.inj heq).symm

omit [DecidableEq S] in
theorem Ledger.rearmed (h : Ledger none s) : Rearmed s where
  armed := h.armed
  once x := by
    have harmed := h.armed x
    have hcounted := h.counted x
    change _ + 0 = _ at harmed
    omega
  session := h.session

/-- The event that is owed its arming is armed with a new session. -/
theorem Ledger.arm (h : Ledger (some acceptEvent) s) (session : S) :
    Ledger none { s with
      world := s.world.arm acceptEvent session
      armings := (acceptEvent, session) :: s.armings } := by
  refine ⟨fun x => ?_, fun x => ?_, fun x hx => ?_, h.running, h.handlers⟩
  · have hbefore := h.armed x
    show (s.world.arm acceptEvent session).outstanding _ + s.world.pendingAccepts x + 0 =
      s.world.slots x
    obtain rfl | hne := eq_or_ne x acceptEvent
    · rw [owes_self] at hbefore
      rw [arm_outstanding]
      omega
    · rw [owes_of_ne hne] at hbefore
      rw [(arm_of_ne _ _ hne).1]
      exact hbefore
  · have hbefore := h.counted x
    show (acceptEvent :: s.armings.map Prod.fst).count x =
      (s.world.arm acceptEvent session).outstanding _ +
        (s.calls.map Accepted.acceptEvent).count x
    obtain rfl | hne := eq_or_ne x acceptEvent
    · rw [List.count_cons_self, arm_outstanding]
      omega
    · rw [List.count_cons_of_ne hne.symm, (arm_of_ne _ _ hne).1]
      exact hbefore
  · show ∃ y, (s.world.arm acceptEvent session).ownerSession _ = _ ∧
      List.find? _ ((acceptEvent, session) :: s.armings) = _
    obtain rfl | hne := eq_or_ne x acceptEvent
    · exact ⟨session, arm_owner _ _, List.find?_cons_of_pos (by simp)⟩
    · change 0 < (s.world.arm acceptEvent session).outstanding _ at hx
      rw [(arm_of_ne _ _ hne).1] at hx
      rw [(arm_of_ne _ _ hne).2, List.find?_cons_of_neg (by simpa using hne.symm)]
      exact h.session x hx

/-- An accept completes, and its call of `ProcessAccept` begins. -/
theorem Ledger.dequeue (h : Ledger none s)
    (hpending : s.world.outstanding (.acceptEvent acceptEvent) ≠ 0) (session : S) (peer : Peer) :
    Ledger (some acceptEvent) { s with
      world := s.world.dequeue (.acceptEvent acceptEvent)
      calls := ⟨acceptEvent, session, peer⟩ :: s.calls } := by
  have hself : (s.world.dequeue (.acceptEvent acceptEvent)).outstanding
      (.acceptEvent acceptEvent) = s.world.outstanding (.acceptEvent acceptEvent) - 1 :=
    Function.update_self ..
  have hother : ∀ {x}, x ≠ acceptEvent → (s.world.dequeue (.acceptEvent acceptEvent)).outstanding
      (.acceptEvent x) = s.world.outstanding (.acceptEvent x) :=
    fun hne => Function.update_of_ne (by simpa using hne) ..
  refine ⟨fun x => ?_, fun x => ?_, fun x hx => ?_, h.running, h.handlers⟩
  · have hbefore := h.armed x
    show (s.world.dequeue (.acceptEvent acceptEvent)).outstanding _ +
      s.world.pendingAccepts x + _ = s.world.slots x
    change _ + 0 = _ at hbefore
    obtain rfl | hne := eq_or_ne x acceptEvent
    · rw [hself, owes_self]
      omega
    · rw [hother hne, owes_of_ne hne]
      exact hbefore
  · have hbefore := h.counted x
    show (s.armings.map Prod.fst).count x =
      (s.world.dequeue (.acceptEvent acceptEvent)).outstanding _ +
        (acceptEvent :: s.calls.map Accepted.acceptEvent).count x
    obtain rfl | hne := eq_or_ne x acceptEvent
    · rw [List.count_cons_self, hself]
      omega
    · rw [List.count_cons_of_ne hne.symm, hother hne]
      exact hbefore
  · change 0 < (s.world.dequeue (.acceptEvent acceptEvent)).outstanding _ at hx
    refine h.session x ?_
    obtain rfl | hne := eq_or_ne x acceptEvent
    · exact Nat.pos_of_ne_zero hpending
    · rwa [hother hne] at hx

/-- Two states with the same accept events. -/
structure SameAccepts (w w' : World S L Buf) : Prop where
  outstanding : ∀ acceptEvent,
    w'.outstanding (.acceptEvent acceptEvent) = w.outstanding (.acceptEvent acceptEvent)
  ownerSession : ∀ acceptEvent,
    w'.ownerSession (.acceptEvent acceptEvent) = w.ownerSession (.acceptEvent acceptEvent)
  acceptEvents : w'.acceptEvents = w.acceptEvents
  crash : w'.crash = w.crash

omit [DecidableEq S] in
/-- A step that changes nothing about accept events but the handlers that will arm them. -/
theorem Ledger.handlers_changed {owed : Option (AcceptEvent L)} (h : Ledger owed s)
    (owed' : Option (AcceptEvent L)) (hsame : SameAccepts s.world w')
    (hcount : ∀ x, w'.pendingAccepts x + owes owed' x = s.world.pendingAccepts x + owes owed x)
    (hhandlers : ∀ handler ∈ w'.handlers, ∃ session acceptEvent,
      handler = .onConnected session (some acceptEvent)) (admitted : List (S × NetAddress)) :
    Ledger owed' { s with world := w', admitted } := by
  have hslots : ∀ x, w'.slots x = s.world.slots x := fun x => by
    rw [World.slots, hsame.acceptEvents]
    rfl
  refine ⟨fun x => ?_, fun x => ?_, fun x hx => ?_, hsame.crash.trans h.running, hhandlers⟩
  · have hbefore := h.armed x
    have := hcount x
    show w'.outstanding _ + w'.pendingAccepts x + _ = w'.slots x
    rw [hsame.outstanding, hslots]
    omega
  · show (s.armings.map Prod.fst).count x = w'.outstanding _ + _
    rw [hsame.outstanding]
    exact h.counted x
  · change 0 < w'.outstanding _ at hx
    show ∃ y, w'.ownerSession _ = _ ∧ _
    rw [hsame.outstanding] at hx
    rw [hsame.ownerSession]
    exact h.session x hx

end Ledger

section Steps

variable {peer : Peer} {rearm : Rearm S}

/-- `ProcessAccept` of an event that waits with the given session: the event is armed
again, or the session is admitted. -/
theorem processAccept_cases {answers : AcceptAnswers S} {session : S}
    (howner : w.ownerSession (.acceptEvent acceptEvent) = some (.session session))
    (h : w.processAccept acceptEvent answers = some w') :
    ((answers.syncSocketContext = false ∨ answers.getpeername = true) ∧
      World.registerAccept acceptEvent answers.attempts w = some w') ∨
    (answers.syncSocketContext = true ∧ answers.getpeername = false ∧
      ∃ data, w' = (w.setSession session data).processConnect session .accepted
        (some acceptEvent)) := by
  unfold World.processAccept at h
  rw [howner] at h
  simp only at h
  split at h
  next hsync => exact .inl ⟨.inl hsync, h⟩
  next hsync =>
    split at h
    next hpeer => exact .inl ⟨.inr hpeer, h⟩
    next hpeer =>
      exact .inr ⟨Bool.eq_true_of_not_eq_false hsync, Bool.eq_false_of_not_eq_true hpeer,
        _, (Option.some.inj h).symm⟩

omit [DecidableEq S] [DecidableEq L] in
theorem SameAccepts.refl (w : World S L Buf) : SameAccepts w w :=
  ⟨fun _ => rfl, fun _ => rfl, rfl, rfl⟩

omit [DecidableEq S] [DecidableEq L] in
theorem SameAccepts.trans {v : World S L Buf} (h : SameAccepts w v) (h' : SameAccepts v w') :
    SameAccepts w w' where
  outstanding x := (h'.outstanding x).trans (h.outstanding x)
  ownerSession x := (h'.ownerSession x).trans (h.ownerSession x)
  acceptEvents := h'.acceptEvents.trans h.acceptEvents
  crash := h'.crash.trans h.crash

theorem sameAccepts_setOwner (w : World S L Buf) {iocpEvent : IocpEvent S L}
    (h : ∀ x, iocpEvent ≠ .acceptEvent x) (owner : Option (ISession S L)) :
    SameAccepts w (w.setOwner iocpEvent owner) :=
  ⟨fun _ => rfl, fun x => setOwner_of_ne (h x).symm, rfl, rfl⟩

theorem sameAccepts_start (w : World S L Buf) {iocpEvent : IocpEvent S L}
    (h : ∀ x, iocpEvent ≠ .acceptEvent x) : SameAccepts w (w.start iocpEvent) :=
  ⟨fun x => Function.update_of_ne (h x).symm .., fun _ => rfl, rfl, rfl⟩

theorem sameAccepts_processConnect (w : World S L Buf) (session : S) (data : Session Buf)
    (admission : Admission) (event : Option (AcceptEvent L)) :
    SameAccepts w ((w.setSession session data).processConnect session admission event) :=
  have hne : ∀ x, (.connectEvent session : IocpEvent S L) ≠ .acceptEvent x := nofun
  have h := sameAccepts_setOwner (w.setSession session data) hne none
  ⟨h.outstanding, h.ownerSession, rfl, rfl⟩

omit [DecidableEq S] in
theorem pendingAccepts_enter (w : World S L Buf) (handler : Handler S L) (x : AcceptEvent L) :
    (w.enter handler).pendingAccepts x = w.pendingAccepts x + owes handler.acceptEvent x := by
  show (handler :: w.handlers).countP _ = _
  rw [List.countP_cons, World.pendingAccepts, owes]
  simp

omit [DecidableEq S] in
theorem pendingAccepts_erase {handler : Handler S L} {index : ℕ}
    (h : w.handlers[index]? = some handler) (x : AcceptEvent L) :
    World.pendingAccepts { w with handlers := w.handlers.eraseIdx index } x +
      owes handler.acceptEvent x = w.pendingAccepts x := by
  obtain ⟨hlt, rfl⟩ := List.getElem?_eq_some_iff.mp h
  have hperm := List.getElem_cons_eraseIdx_perm hlt
  rw [World.pendingAccepts, World.pendingAccepts, ← hperm.countP_eq, List.countP_cons, owes]
  simp

omit [DecidableEq S] [DecidableEq L] in
theorem newlyAdmitted_eq_nil (h : w'.admissions = w.admissions) : newlyAdmitted w w' = [] := by
  rw [newlyAdmitted, h, List.drop_length]
  rfl

omit [DecidableEq S] [DecidableEq L] in
theorem newlyArmed_eq_nil (h : SameAccepts w w') : newlyArmed w w' acceptEvent = [] := by
  rw [newlyArmed, h.outstanding, if_neg (Nat.lt_irrefl _)]

theorem newlyAdmitted_processConnect {v : World S L Buf} (h : v.admissions = w.admissions)
    (session : S) (data : Session Buf) (admission : Admission) (event : Option (AcceptEvent L)) :
    newlyAdmitted w ((v.setSession session data).processConnect session admission event) =
      [(session, data.netAddress)] := by
  have hadmissions : ((v.setSession session data).processConnect session admission
      event).admissions = w.admissions ++ [(session, admission)] := by
    rw [← h]
    rfl
  have haddress : (((v.setSession session data).processConnect session admission event).sessions
      session).netAddress = data.netAddress := by
    show (Function.update (v.setSession session data).sessions session
      { (v.setSession session data).sessions session with isConnected := true } session).netAddress = _
    rw [Function.update_self]
    show (Function.update v.sessions session data session).netAddress = _
    rw [Function.update_self]
  rw [newlyAdmitted, hadmissions, List.drop_left, List.map_singleton, haddress]

/-- A call of `ProcessAccept` arms its event, or is inside `OnConnected`; the history of
admissions has grown by its session in the second case. -/
theorem Ledger.processAccept (h : Ledger none s)
    (hnext : s.next (.processAccept acceptEvent peer rearm) = some t) :
    Ledger none t ∧ ∃ session, t.calls = ⟨acceptEvent, session, peer⟩ :: s.calls ∧
      if peer.syncSocketContext = true ∧ peer.getpeername = false then
        ∃ address, t.admitted = (session, address) :: s.admitted
      else t.admitted = s.admitted := by
  obtain ⟨w', hcompleted, rfl⟩ := Option.map_eq_some_iff.mp hnext
  rw [World.acceptCompletion] at hcompleted
  split at hcompleted
  · cases hcompleted
  next hguard =>
    obtain ⟨-, hpending⟩ := not_or.mp hguard
    obtain ⟨session, howner, -⟩ := h.session acceptEvent (Nat.pos_of_ne_zero hpending)
    have hwaiting : s.world.waiting acceptEvent = some session := by
      rw [World.waiting, howner]
    have hdequeued := h.dequeue hpending session peer
    rw [hwaiting]
    obtain ⟨hrejected, hregistered⟩ | ⟨hsync, hpeer, data, rfl⟩ :=
      processAccept_cases (w := s.world.dequeue (.acceptEvent acceptEvent)) howner hcompleted
    · cases (registerAccept_rearm rearm).symm.trans hregistered
      have hadmitted : newlyAdmitted s.world
          ((s.world.dequeue (.acceptEvent acceptEvent)).arm acceptEvent rearm.session) = [] :=
        newlyAdmitted_eq_nil rfl
      rw [hadmitted, newlyArmed_arm _ _ rfl]
      refine ⟨hdequeued.arm rearm.session, session, rfl, ?_⟩
      rw [if_neg]
      · rfl
      · rintro ⟨hsync, hpeer⟩
        change peer.syncSocketContext = false ∨ peer.getpeername = true at hrejected
        simp [hsync, hpeer] at hrejected
    · have hsame := sameAccepts_processConnect (s.world.dequeue (.acceptEvent acceptEvent)) session
        data .accepted (some acceptEvent)
      have hbefore : (s.world.dequeue (.acceptEvent acceptEvent)).admissions =
          s.world.admissions := rfl
      rw [newlyAdmitted_processConnect hbefore, newlyArmed_eq_nil hsame]
      refine ⟨?_, session, rfl, ?_⟩
      · refine hdequeued.handlers_changed none hsame (fun x => ?_) ?_ _
        · exact pendingAccepts_enter (s.world.dequeue (.acceptEvent acceptEvent))
            (.onConnected session (some acceptEvent)) x
        · intro handler hmem
          rcases List.mem_cons.mp hmem with rfl | hmem
          · exact ⟨session, acceptEvent, rfl⟩
          · exact h.handlers handler hmem
      · rw [if_pos ⟨hsync, hpeer⟩]
        exact ⟨_, rfl⟩

theorem sameAccepts_registerRecv (w : World S L Buf) (session : S) (result : CallResult) :
    SameAccepts w (w.registerRecv session result) ∧
      (w.registerRecv session result).handlers = w.handlers ∧
      (w.registerRecv session result).admissions = w.admissions := by
  have hne : ∀ x, (.recvEvent session : IocpEvent S L) ≠ .acceptEvent x := nofun
  have howned := sameAccepts_setOwner w hne (some (.session session))
  have hstarted := howned.trans (sameAccepts_start _ hne)
  simp only [World.registerRecv]
  split
  · exact ⟨.refl w, rfl, rfl⟩
  split
  · split
    · exact ⟨hstarted.trans (sameAccepts_setOwner _ hne none), rfl, rfl⟩
    · exact ⟨howned.trans (sameAccepts_setOwner _ hne none), rfl, rfl⟩
  · split
    · exact ⟨hstarted, rfl, rfl⟩
    · exact ⟨howned, rfl, rfl⟩

/-- The return of `OnConnected` arms the event of its call. -/
theorem Ledger.finish (h : Ledger none s) {index : ℕ} {result : CallResult}
    (hnext : s.next (.finish index result rearm) = some t) :
    Ledger none t ∧ t.calls = s.calls ∧ t.admitted = s.admitted := by
  obtain ⟨w', hreturned, rfl⟩ := Option.map_eq_some_iff.mp hnext
  rw [World.return, if_neg (by simp [h.running])] at hreturned
  split at hreturned
  · cases hreturned
  next handler hhandler =>
    obtain ⟨session, acceptEvent, rfl⟩ := h.handlers handler (List.mem_of_getElem? hhandler)
    obtain ⟨hsame, hhandlers, hadmissions⟩ := sameAccepts_registerRecv
      { s.world with handlers := s.world.handlers.eraseIdx index } session result
    have hfinished : w' = (World.registerRecv { s.world with
        handlers := s.world.handlers.eraseIdx index } session result).arm acceptEvent
          rearm.session := Option.some.inj (hreturned.symm.trans (registerAccept_rearm rearm))
    subst hfinished
    have herased : SameAccepts s.world (World.registerRecv { s.world with
        handlers := s.world.handlers.eraseIdx index } session result) :=
      ⟨hsame.outstanding, hsame.ownerSession, hsame.acceptEvents, hsame.crash⟩
    have howed : Ledger (some acceptEvent) { s with
        world := World.registerRecv { s.world with
          handlers := s.world.handlers.eraseIdx index } session result } := by
      refine h.handlers_changed (some acceptEvent) herased (fun x => ?_) (fun handler hmem => ?_) s.admitted
      · rw [World.pendingAccepts, hhandlers]
        exact pendingAccepts_erase hhandler x
      · rw [hhandlers] at hmem
        exact h.handlers handler (List.mem_of_mem_eraseIdx hmem)
    have hnobody : newlyAdmitted s.world ((World.registerRecv { s.world with
        handlers := s.world.handlers.eraseIdx index } session result).arm acceptEvent
          rearm.session) = [] := newlyAdmitted_eq_nil hadmissions
    rw [hhandler, hnobody]
    show Ledger none { world := _, calls := _, admitted := _, armings := [acceptEvent].flatMap _ ++ _ } ∧ _
    rw [List.flatMap_singleton, newlyArmed_arm _ _ (herased.outstanding acceptEvent)]
    exact ⟨howed.arm rearm.session, rfl, rfl⟩

end Steps

section StartAccept

/-- A new element of `acceptEvents`, of which the listener is the owner for a moment. -/
def World.newAcceptEvent (w : World S L Buf) (listener : L) : World S L Buf :=
  { w with acceptEvents :=
      Function.update w.acceptEvents listener (w.acceptEvents listener + 1) }.setOwner
    (.acceptEvent ⟨listener, w.acceptEvents listener⟩) (some (.listener listener))

theorem Ledger.newAcceptEvent (h : Ledger none s) (listener : L) :
    Ledger (some ⟨listener, s.world.acceptEvents listener⟩)
      { s with world := s.world.newAcceptEvent listener } := by
  have hzero : s.world.slots ⟨listener, s.world.acceptEvents listener⟩ = 0 :=
    if_neg (Nat.lt_irrefl _)
  have hone : (s.world.newAcceptEvent listener).slots
      ⟨listener, s.world.acceptEvents listener⟩ = 1 := by
    refine if_pos ?_
    show _ < Function.update s.world.acceptEvents listener _ listener
    rw [Function.update_self]
    exact Nat.lt_succ_self _
  have hslots : ∀ x : AcceptEvent L, x ≠ ⟨listener, s.world.acceptEvents listener⟩ →
      (s.world.newAcceptEvent listener).slots x = s.world.slots x := by
    rintro ⟨l, i⟩ hne
    show (if i < Function.update s.world.acceptEvents listener
      (s.world.acceptEvents listener + 1) l then 1 else 0) = s.world.slots ⟨l, i⟩
    obtain rfl | hl := eq_or_ne l listener
    · have hi : i ≠ s.world.acceptEvents l := fun heq => hne (heq ▸ rfl)
      have hiff : i < s.world.acceptEvents l + 1 ↔ i < s.world.acceptEvents l := by omega
      rw [Function.update_self, World.slots]
      simp only [hiff]
    · rw [Function.update_of_ne hl, World.slots]
  refine ⟨fun x => ?_, h.counted, fun x hx => ?_, h.running, h.handlers⟩
  · have hbefore := h.armed x
    change _ + 0 = _ at hbefore
    show s.world.outstanding _ + s.world.pendingAccepts x + _ = _
    obtain rfl | hne := eq_or_ne x ⟨listener, s.world.acceptEvents listener⟩
    · rw [owes_self, hone]
      omega
    · rw [owes_of_ne hne, hslots x hne]
      exact hbefore
  · change 0 < s.world.outstanding _ at hx
    have hne : x ≠ ⟨listener, s.world.acceptEvents listener⟩ := by
      rintro rfl
      have := h.armed ⟨listener, s.world.acceptEvents listener⟩
      omega
    show ∃ y, (s.world.newAcceptEvent listener).ownerSession _ = _ ∧ _
    rw [World.newAcceptEvent, setOwner_of_ne (by simpa using hne)]
    exact h.session x hx

/-- The loop of `StartAccept` arms one new event in each round. -/
theorem Ledger.startAcceptLoop {listener : L} {rearms : List (Rearm S)} (h : Ledger none s)
    (hloop : World.startAcceptLoop listener (rearms.map Rearm.attempts) s.world = some w') :
    Ledger none { s with
      world := w'
      armings := startArmings listener (s.world.acceptEvents listener) rearms ++ s.armings } := by
  induction rearms generalizing s with
  | nil =>
      cases hloop
      exact h
  | cons rearm rest ih =>
      have harmed := (h.newAcceptEvent listener).arm rearm.session
      rw [List.map_cons, World.startAcceptLoop] at hloop
      change ((World.registerAccept _ rearm.attempts (s.world.newAcceptEvent listener)).bind _) =
        some w' at hloop
      have hrunning : ((s.world.newAcceptEvent listener).arm
          ⟨listener, s.world.acceptEvents listener⟩ rearm.session).crash = none := harmed.running
      rw [registerAccept_rearm, Option.bind_some, if_neg (by simp [hrunning])] at hloop
      have hrest := ih harmed hloop
      have hnext : ((s.world.newAcceptEvent listener).arm
          ⟨listener, s.world.acceptEvents listener⟩ rearm.session).acceptEvents listener =
            s.world.acceptEvents listener + 1 := Function.update_self ..
      rw [hnext] at hrest
      rw [startArmings, List.append_assoc, List.singleton_append]
      exact hrest

/-- After `StartAccept` nothing is owed. -/
theorem ledger_init {listener : L} (h : (accepting listener).init s) :
    Ledger none s ∧ s.calls = [] ∧ s.admitted = [] := by
  obtain ⟨bufferSize, w, rearms, w', ⟨build, serviceType, maxSessionCount, recvBuffer, -, rfl⟩,
    hstart, rfl⟩ := h
  have hfresh : Ledger none ({ world :=
      { build, serviceType, maxSessionCount, sessions := fun _ => { recvBuffer } } } :
        Accepting S L Buf) :=
    ⟨fun _ => rfl, fun _ => rfl, fun _ hx => absurd hx (Nat.lt_irrefl 0), rfl,
      fun _ hmem => absurd hmem List.not_mem_nil⟩
  rw [World.startAccept, if_neg (by simp)] at hstart
  split at hstart
  · have hstarted := hfresh.startAcceptLoop hstart
    rw [List.append_nil] at hstarted
    exact ⟨hstarted, rfl, rfl⟩
  · cases hstart

end StartAccept

section Runs

/-- A step keeps the ledger, and admits exactly the right sessions unless it is a call
whose `SyncSocketContext` succeeds. -/
theorem Ledger.next (h : Ledger none s) {c : AcceptStep S L} (hnext : s.next c = some t) :
    Ledger none t ∧ (Exact s → (Exact t ↔ SyncFails s c)) := by
  cases c with
  | processAccept acceptEvent peer rearm =>
      obtain ⟨hledger, session, hcalls, hadmitted⟩ := h.processAccept hnext
      refine ⟨hledger, fun hexact => ?_⟩
      rw [Exact] at hexact ⊢
      rw [hcalls]
      cases hsync : peer.syncSocketContext with
      | false =>
          rw [if_neg (by simp [hsync])] at hadmitted
          refine iff_of_true ?_ hsync
          rw [List.filter_cons_of_neg (by simp [hsync]), hadmitted, hexact]
      | true =>
          have hsucceeds : ¬SyncFails s (.processAccept acceptEvent peer rearm) :=
            fun hfails => Bool.false_ne_true (hfails.symm.trans hsync)
          refine iff_of_false (fun hexact' => ?_) hsucceeds
          cases hpeer : peer.getpeername with
          | false =>
              -- admitted although getpeername has failed
              rw [if_pos ⟨hsync, hpeer⟩] at hadmitted
              obtain ⟨address, hadmitted⟩ := hadmitted
              rw [List.filter_cons_of_neg (by simp [hpeer]), hadmitted, ← hexact] at hexact'
              exact List.cons_ne_self _ _ hexact'
          | true =>
              -- turned away although both calls have succeeded
              rw [if_neg (by simp [hpeer])] at hadmitted
              rw [List.filter_cons_of_pos (by simp [hsync, hpeer]), List.map_cons, hadmitted,
                ← hexact] at hexact'
              exact List.cons_ne_self _ _ hexact'.symm
  | finish index result rearm =>
      obtain ⟨hledger, hcalls, hadmitted⟩ := h.finish hnext
      refine ⟨hledger, fun hexact => iff_of_true ?_ trivial⟩
      rw [Exact, hcalls, hadmitted]
      exact hexact

/-- Every call of `ProcessAccept` arms its event once more, in all runs; the sessions that
are admitted are the right ones exactly in the runs in which `SyncSocketContext` never
succeeds. -/
theorem accepts_iff {listener : L} (hs : (accepting listener).init s)
    (steps : List (AcceptStep S L)) :
    (accepting listener).Throughout Rearmed steps s ∧
      ((accepting listener).Throughout Exact steps s ↔
        (accepting listener).Along SyncFails steps s) := by
  obtain ⟨hledger, hcalls, hadmitted⟩ := ledger_init hs
  have hexact : Exact s := by
    rw [Exact, hcalls, hadmitted]
    rfl
  constructor
  · exact System.throughout_of_invariant (fun _ h => h.rearmed)
      (fun _ _ _ h hnext => (h.next hnext).1) steps hledger
  · exact System.throughout_iff_along (I := fun s : Accepting S L Buf => Ledger none s ∧ Exact s)
      (fun _ h => h.2)
      (fun _ _ _ h hok hnext => ⟨(h.1.next hnext).1, ((h.1.next hnext).2 h.2).mpr hok⟩)
      (fun _ _ _ h hnext hexact => ((h.1.next hnext).2 h.2).mp hexact) steps ⟨hledger, hexact⟩

end Runs

section Examples

/-- A server for one client, with an empty buffer of `bufferSize` 1. -/
def newServer : World (Fin 2) (Fin 1) Unit where
  build := .debug
  serviceType := .server
  sessions _ := { recvBuffer := ⟨10, 1, 0, 0, List.replicate 10 0⟩ }

/-- `AcceptEx` is accepted for the session. -/
def rearmWith (session : Fin 2) : Rearm (Fin 2) := ⟨session, ⟨false, 0⟩, rfl⟩

/-- The accept of the server is armed with session 0. -/
def listening : Accepting (Fin 2) (Fin 1) Unit where
  world := (newServer.newAcceptEvent 0).arm ⟨0, 0⟩ 0
  armings := [(⟨0, 0⟩, 0)]

theorem listening_init : (accepting 0).init listening :=
  ⟨1, newServer, [rearmWith 0], _, ⟨.debug, .server, 1, _, by decide, rfl⟩, rfl, rfl⟩

/-- Sessions 0 and 1 wait for clients; neither gets one. -/
theorem accepts_iff_twice :
    (accepting 0).init listening ∧
    ((accepting 0).Throughout Rearmed
        [.processAccept ⟨0, 0⟩ ⟨false, true, {}⟩ (rearmWith 1),
          .processAccept ⟨0, 0⟩ ⟨true, true, {}⟩ (rearmWith 0)] listening ∧
      ((accepting 0).Throughout Exact
          [.processAccept ⟨0, 0⟩ ⟨false, true, {}⟩ (rearmWith 1),
            .processAccept ⟨0, 0⟩ ⟨true, true, {}⟩ (rearmWith 0)] listening ↔
        (accepting 0).Along SyncFails
          [.processAccept ⟨0, 0⟩ ⟨false, true, {}⟩ (rearmWith 1),
            .processAccept ⟨0, 0⟩ ⟨true, true, {}⟩ (rearmWith 0)] listening)) :=
  ⟨listening_init, accepts_iff listening_init _⟩

/-- A client whose address `getpeername` has reported is turned away. -/
theorem accepts_good_turned_away :
    ¬∀ s : Accepting (Fin 2) (Fin 1) Unit, (accepting 0).init s → ∀ steps,
      (accepting 0).Throughout (fun s => Rearmed s ∧ Exact s) steps s := by
  intro h
  have hrun := h listening listening_init
    [.processAccept ⟨0, 0⟩ ⟨true, true, {}⟩ (rearmWith 1)]
  obtain ⟨-, hexact⟩ : _ ∧ Exact _ := hrun.2 _ rfl
  have hadmitted : ([] : List (Fin 2 × NetAddress)) = [(0, {})] := hexact
  exact List.cons_ne_nil _ _ hadmitted.symm

end Examples

end Iocp

end ServerCore
