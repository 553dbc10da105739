import ServerCore.JobQueue.Accounting
import ServerCore.Word

/-!
# Who is responsible for a job queue

Responsibility for a queue is a token. A `fetch_add` that moves the counter away
from zero creates it, a push to the global queue and a pop from it hand it over,
and the `fetch_sub` that brings the counter back to zero destroys it
(`step_owns`). So there is one token when the counter is not zero and none when it
is (`OneToken`), and a job body runs under the token of its queue.

The token is tied to the counter, not to the number of jobs. The counter is an
`int32`, and with 2^32 outstanding jobs it is zero again: the next push creates a
second token (`jobQueue_not_serialized`). `NoWrap` excludes that `fetch_add`.
-/

namespace ServerCore

namespace JobQueue

open Interleaving

variable {Tid Q Job : Type} [DecidableEq Q]

/-- Calls of `Push` and `DoGlobalQueueWork`. -/
def Call.serves : Call Q Job → Bool
  | .push _ _ _ => true
  | .doGlobalQueueWork => true
  | .execute _ => false
  | .clearJob _ => false

/-- Client code reaches `Execute` through `Push` and `DoGlobalQueueWork` only, and
clears nothing. -/
def Serves (_ : State Tid Q Job) (e : Event Tid Q Job) : Prop :=
  ∀ t c, e = .call t c → c.serves = true

/-- `DoGlobalQueueWork` is called outside job bodies. -/
def OutsideBodies (s : State Tid Q Job) (e : Event Tid Q Job) : Prop :=
  ∀ t, e = .call t .doGlobalQueueWork → (s.threads t).stack = []

/-- No `fetch_add` wraps a counter to zero. -/
def NoWrap (s : State Tid Q Job) (e : Event Tid Q Job) : Prop :=
  ∀ q, CountsPush s q e → (s.shared.queues q).jobCount ≠ -1

/-- The frame is between the step that made its thread responsible for `q` and the
step that ends it. -/
@[simp] def Frame.owns (q : Q) : Frame Q Job → ℕ
  | .pushItem q' _ _ prevCount => if q' = q ∧ prevCount = 0 then 1 else 0
  | .pushTest q' _ prevCount => if q' = q ∧ prevCount = 0 then 1 else 0
  | .pushGlobal q' => if q' = q then 1 else 0
  | .execute q' => if q' = q then 1 else 0
  | .popAll q' => if q' = q then 1 else 0
  | .runJobs q' _ _ => if q' = q then 1 else 0
  | .inJob q' _ _ => if q' = q then 1 else 0
  | .clock q' => if q' = q then 1 else 0
  | .requeue q' => if q' = q then 1 else 0
  | _ => 0

/-- The frame is a running body of a job of `q`. -/
@[simp] def Frame.body (q : Q) : Frame Q Job → ℕ
  | .inJob q' _ _ => if q' = q then 1 else 0
  | _ => 0

omit [DecidableEq Q] in
/-- The frame is a running job body. -/
@[simp] def Frame.anyBody : Frame Q Job → ℕ
  | .inJob _ _ _ => 1
  | _ => 0

theorem body_le_owns (q : Q) (frame : Frame Q Job) : frame.body q ≤ frame.owns q := by
  cases frame <;> simp

def Shared.occurrences (q : Q) (sh : Shared Q Job) : ℕ := sh.globalQueue.items.count (some q)

theorem occurrences_pushGlobal (q : Q) (sh : Shared Q Job) (q' : Q) :
    (sh.pushGlobal q').occurrences q = sh.occurrences q + if q' = q then 1 else 0 :=
  LockQueue.count_push _ _ _

/-- How a frame's step moves the token of `q`: not at all, by a `fetch_add`, into the
global queue, out of it, or by a `fetch_sub`. -/
theorem step_owns {now end' : UInt64} {sh sh' : Shared Q Job} {tls tls' : Option Q}
    {frame : Frame Q Job} {frames : List (Frame Q Job)} (q : Q)
    (h : frame.Step now end' sh tls sh' tls' frames) :
    ((sh'.queues q).jobCount = (sh.queues q).jobCount ∧
      weigh (Frame.owns q) frames + sh'.occurrences q = frame.owns q + sh.occurrences q) ∨
    (∃ job pushOnly, frame = .push q job pushOnly ∧
      (sh'.queues q).jobCount = (sh.queues q).jobCount + 1 ∧
      sh'.occurrences q = sh.occurrences q ∧
      weigh (Frame.owns q) frames = if (sh.queues q).jobCount = 0 then 1 else 0) ∨
    (∃ tempJobs i, frame = .runJobs q tempJobs i ∧
      (sh'.queues q).jobCount = (sh.queues q).jobCount - tempJobCount tempJobs ∧
      sh'.occurrences q = sh.occurrences q ∧
      weigh (Frame.owns q) frames =
        if (sh.queues q).jobCount = tempJobCount tempJobs then 0 else 1) := by
  cases h with
  | push q' job pushOnly =>
      by_cases hq : q' = q
      · subst hq
        refine .inr (.inl ⟨job, pushOnly, rfl, ?_, rfl, ?_⟩)
        · rw [setCount_self]
        · simp
      · refine .inl ⟨?_, ?_⟩
        · rw [setCount_other _ _ _ _ (Ne.symm hq)]
        · simp [hq, Shared.occurrences, Shared.setCount]
  | pushItem q' job pushOnly prevCount =>
      refine .inl ⟨?_, rfl⟩
      rw [pushJob_queues, setJobs_jobCount]
  | pushCounted q' pushOnly counted => exact .inl ⟨rfl, by simp [counted]⟩
  | pushGlobal q' | requeue q' =>
      refine .inl ⟨rfl, ?_⟩
      rw [occurrences_pushGlobal]
      simp
      omega
  | popAll q' popped =>
      refine .inl ⟨?_, by simp [Shared.occurrences, Shared.setJobs]⟩
      rw [setJobs_jobCount]
  | startJob q' here => exact .inl ⟨rfl, by simp [Shared.occurrences, Shared.startJob]⟩
  | @runLast q' tempJobs i finished last =>
      by_cases hq : q' = q
      · subst hq
        refine .inr (.inr ⟨tempJobs, i, rfl, ?_, rfl, by simp [last]⟩)
        rw [setCount_self]
      · refine .inl ⟨?_, by simp [hq, Shared.occurrences, Shared.setCount]⟩
        rw [setCount_other _ _ _ _ (Ne.symm hq)]
  | @runMore q' tempJobs i finished more =>
      by_cases hq : q' = q
      · subst hq
        refine .inr (.inr ⟨tempJobs, i, rfl, ?_, rfl, by simp [more]⟩)
        rw [setCount_self]
      · refine .inl ⟨?_, by simp [hq, Shared.occurrences, Shared.setCount]⟩
        rw [setCount_other _ _ _ _ (Ne.symm hq)]
  | popNothing popped =>
      refine .inl ⟨rfl, ?_⟩
      simp [Shared.occurrences, LockQueue.count_pop popped]
  | popQueue popped =>
      refine .inl ⟨rfl, ?_⟩
      simp [Shared.occurrences, LockQueue.count_pop popped]
      omega
  -- The other steps keep the counters, the global queue and the token.
  | _ => exact .inl ⟨rfl, by simp⟩

section Token

variable [Fintype Tid] {s s' : State Tid Q Job} {e : Event Tid Q Job}

def State.tokens (q : Q) (s : State Tid Q Job) : ℕ :=
  s.shared.occurrences q + s.total (Frame.owns q)

/-- A queue has a token exactly when its counter is not zero. -/
def OneToken (s : State Tid Q Job) : Prop :=
  ∀ q, s.tokens q = if (s.shared.queues q).jobCount = 0 then 0 else 1

omit [Fintype Tid] in
theorem entry_owns {c : Call Q Job} {frame : Frame Q Job} (hserves : c.serves = true)
    (h : c.entry = [frame]) (q : Q) : frame.owns q = 0 := by
  cases c with
  | push q' job pushOnly =>
      cases h
      rfl
  | execute q' => cases hserves
  | clearJob q' => cases hserves
  | doGlobalQueueWork =>
      cases h
      rfl

variable [DecidableEq Tid]

theorem tokens_setShared (q : Q) (sh : Shared Q Job) (t : Tid) (th : Thread Q Job) :
    ({ s with shared := sh }.setThread t th).tokens q +
        (s.shared.occurrences q + weigh (Frame.owns q) (s.threads t).stack) =
      s.tokens q + (sh.occurrences q + weigh (Frame.owns q) th.stack) := by
  have htotal := total_setShared (s := s) (Frame.owns q) sh t th
  rw [State.tokens, State.tokens]
  change sh.occurrences q + _ + _ = _
  omega

/-- The token survives every step that does not wrap the counter. -/
theorem OneToken.next (htoken : OneToken s) (hserves : Serves s e) (hwrap : NoWrap s e)
    (h : s.next e = some s') : OneToken s' := by
  intro q
  have hbefore := htoken q
  obtain ⟨t, c, frame, rfl, -, hentry, hs'⟩ | ⟨t, q', rfl, -⟩ |
    ⟨t, now, frame, rest, sh, tls, frames, rfl, hstack, hstep, hs'⟩ |
    ⟨t, q', tempJobs, i, rest, rfl, hstack, hs'⟩ := next_cases h
  · have hmoved := tokens_setShared (s := s) q s.shared t
      { s.threads t with stack := frame :: (s.threads t).stack }
    rw [weigh_cons, entry_owns (hserves t c rfl) hentry, ← hs'] at hmoved
    have hshared : s'.shared = s.shared := by rw [hs', setThread_shared]
    rw [hshared]
    omega
  · cases hserves t _ rfl
  · have hmoved := tokens_setShared (s := s) q sh t
      { s.threads t with stack := frames ++ rest, tlsCurrentJobQueue := tls }
    rw [hstack, weigh_cons, weigh_append, ← hs'] at hmoved
    have hshared : s'.shared = sh := by rw [hs', setThread_shared]
    rw [hshared]
    obtain ⟨hcount, hkept⟩ | ⟨job, pushOnly, rfl, hcount, hoccurrences, hnew⟩ |
      ⟨tempJobs, i, rfl, hcount, hoccurrences, hnew⟩ := step_owns q hstep
    · rw [hcount]
      omega
    · have hnonzero : (s.shared.queues q).jobCount + 1 ≠ 0 := by
        have hne := hwrap q ⟨job, pushOnly, rest, hstack⟩
        grind
      have hzero : (Frame.push q job pushOnly).owns q = 0 := rfl
      rw [hcount, if_neg hnonzero]
      by_cases hfirst : (s.shared.queues q).jobCount = 0
      · rw [if_pos hfirst] at hbefore hnew
        omega
      · rw [if_neg hfirst] at hbefore hnew
        omega
    · have hone : (Frame.runJobs q tempJobs i).owns q = 1 := by simp
      have hheld := weigh_le_total (s := s) (Frame.owns q) t
      rw [hstack, weigh_cons] at hheld
      have hle : s.total (Frame.owns q) ≤ s.tokens q := Nat.le_add_left _ _
      have hiff : (s.shared.queues q).jobCount - tempJobCount tempJobs = 0 ↔
          (s.shared.queues q).jobCount = tempJobCount tempJobs := by
        constructor <;> intro heq <;> grind
      rw [hcount]
      simp only [hiff]
      -- The executor holds the token, so the counter is not zero before the step.
      split at hbefore <;> omega
  · have hmoved := tokens_setShared (s := s) q s.shared t
      { s.threads t with stack := .runJobs q' tempJobs (i + 1) :: rest }
    rw [hstack, weigh_cons, weigh_cons, ← hs'] at hmoved
    have hsame : (Frame.runJobs q' tempJobs (i + 1)).owns q =
        (Frame.inJob q' tempJobs i).owns q := rfl
    have hshared : s'.shared = s.shared := by rw [hs', setThread_shared]
    rw [hshared]
    omega

end Token

section Nesting

omit [DecidableEq Q]

/-- What lies under an `Execute`: the client, or `DoGlobalQueueWork`. -/
def Base (stack : List (Frame Q Job)) : Prop := stack = [] ∨ stack = [.globalWork]

/-- The shape of a thread's stack. At most one `Execute` is on it, and while its
bodies run `tls_CurrentJobQueue` is set, so that a nested push does not execute. -/
def Nested (tls : Option Q) : List (Frame Q Job) → Prop
  | [] => tls = none
  | frame :: rest =>
      match frame with
      | .push _ _ _ | .pushItem _ _ _ _ | .pushTest _ _ _ | .pushGlobal _ =>
          (rest = [] ∧ tls = none) ∨
            ∃ q tempJobs i base, rest = .inJob q tempJobs i :: base ∧ Base base ∧ tls ≠ none
      | .execute _ | .requeue _ => Base rest ∧ tls = none
      | .popAll _ | .runJobs _ _ _ | .inJob _ _ _ | .clock _ => Base rest ∧ tls ≠ none
      | .globalWork | .globalPop => rest = [] ∧ tls = none

/-- The state a nested call, or `Execute` as a whole, returns to. -/
theorem Nested.pop {tls : Option Q} {rest : List (Frame Q Job)}
    (hrest : (rest = [] ∧ tls = none) ∨
      ∃ q tempJobs i base, rest = .inJob q tempJobs i :: base ∧ Base base ∧ tls ≠ none) :
    Nested tls rest := by
  obtain ⟨rfl, rfl⟩ | ⟨q, tempJobs, i, base, rfl, hbase, htls⟩ := hrest
  · rfl
  · exact ⟨hbase, htls⟩

theorem Base.nested {base : List (Frame Q Job)} (h : Base base) : Nested (none : Option Q) base := by
  obtain rfl | rfl := h
  · rfl
  · exact ⟨rfl, rfl⟩

theorem Base.anyBody {base : List (Frame Q Job)} (h : Base base) :
    weigh Frame.anyBody base = 0 := by
  obtain rfl | rfl := h <;> rfl

/-- No job body runs inside another one. -/
theorem Nested.anyBody {tls : Option Q} {stack : List (Frame Q Job)} (h : Nested tls stack) :
    weigh Frame.anyBody stack ≤ 1 := by
  cases stack with
  | nil => exact Nat.zero_le 1
  | cons frame rest =>
      rw [weigh_cons]
      cases frame with
      | push _ _ _ | pushItem _ _ _ _ | pushTest _ _ _ | pushGlobal _ =>
          obtain ⟨rfl, -⟩ | ⟨q, tempJobs, i, base, rfl, hbase, -⟩ := h
          · exact Nat.zero_le 1
          · rw [weigh_cons, hbase.anyBody]
            exact Nat.le_refl 1
      | execute _ | requeue _ =>
          rw [h.1.anyBody]
          exact Nat.zero_le 1
      | popAll _ | runJobs _ _ _ | inJob _ _ _ | clock _ =>
          rw [h.1.anyBody]
          simp
      | globalWork | globalPop =>
          rw [h.1]
          exact Nat.zero_le 1

variable [DecidableEq Tid] {s : State Tid Q Job}

def WellNested (s : State Tid Q Job) : Prop :=
  ∀ t, Nested (s.threads t).tlsCurrentJobQueue (s.threads t).stack

theorem WellNested.setThread (h : WellNested s) (sh : Shared Q Job) {t : Tid}
    {th : Thread Q Job} (hth : Nested th.tlsCurrentJobQueue th.stack) :
    WellNested ({ s with shared := sh }.setThread t th) := by
  intro u
  by_cases hu : u = t
  · rw [hu, setThread_self]
    exact hth
  · rw [setThread_other _ _ _ _ hu]
    exact h u

variable [DecidableEq Q]

theorem Nested.step {now end' : UInt64} {sh sh' : Shared Q Job} {tls tls' : Option Q}
    {frame : Frame Q Job} {frames rest : List (Frame Q Job)} (hnested : Nested tls (frame :: rest))
    (h : frame.Step now end' sh tls sh' tls' frames) : Nested tls' (frames ++ rest) := by
  cases h with
  | pushExecute q free =>
      obtain ⟨rfl, rfl⟩ | ⟨_, _, _, _, -, -, htls⟩ := hnested
      · exact ⟨.inl rfl, rfl⟩
      · exact absurd free htls
  | pushCounted | pushGlobal => exact Nested.pop hnested
  | execute q => exact ⟨hnested.1, Option.some_ne_none q⟩
  | runLast => exact Base.nested hnested.1
  | clockOver => exact ⟨hnested.1, rfl⟩
  | requeue =>
      obtain ⟨hbase, rfl⟩ := hnested
      exact Base.nested hbase
  | workOver | popNothing =>
      obtain ⟨rfl, rfl⟩ := hnested
      rfl
  | workLeft =>
      obtain ⟨rfl, rfl⟩ := hnested
      exact ⟨rfl, rfl⟩
  | popQueue =>
      obtain ⟨rfl, rfl⟩ := hnested
      exact ⟨.inr rfl, rfl⟩
  -- The new frame stands where the old one stood.
  | push | pushItem | pushHandOver | popAll | startJob | runMore | clockLeft => exact hnested

theorem WellNested.next {s' : State Tid Q Job} {e : Event Tid Q Job} (hnested : WellNested s)
    (hserves : Serves s e) (houtside : OutsideBodies s e) (h : s.next e = some s') :
    WellNested s' := by
  obtain ⟨t, c, frame, rfl, hclient, hentry, rfl⟩ | ⟨t, q', rfl, -⟩ |
    ⟨t, now, frame, rest, sh, tls, frames, rfl, hstack, hstep, rfl⟩ |
    ⟨t, q', tempJobs, i, rest, rfl, hstack, rfl⟩ := next_cases h
  · have ht := hnested t
    apply WellNested.setThread hnested s.shared
    cases c with
    | push q job pushOnly =>
        cases hentry
        rw [Thread.inClient] at hclient
        cases hstack : (s.threads t).stack with
        | nil =>
            rw [hstack] at ht
            exact .inl ⟨rfl, ht⟩
        | cons frame rest =>
            rw [hstack] at hclient ht
            cases frame with
            | inJob q' tempJobs i => exact .inr ⟨q', tempJobs, i, rest, rfl, ht⟩
            | _ => cases hclient
    | doGlobalQueueWork =>
        cases hentry
        have hempty := houtside t rfl
        rw [hempty] at ht ⊢
        exact ⟨rfl, ht⟩
    | execute q => cases hserves t _ rfl
    | clearJob q => cases hserves t _ rfl
  · cases hserves t _ rfl
  · have ht := hnested t
    rw [hstack] at ht
    exact WellNested.setThread hnested sh (ht.step hstep)
  · have ht := hnested t
    rw [hstack] at ht
    exact WellNested.setThread hnested s.shared ht

end Nesting

section Serialized

variable [Fintype Tid] {s : State Tid Q Job}

/-- The threads that are responsible for `q`. -/
def State.responsible (q : Q) (s : State Tid Q Job) : Finset Tid :=
  Finset.univ.filter fun t => 0 < weigh (Frame.owns q) (s.threads t).stack

/-- Each queue is in one place at most, and in one place while its counter is
positive. Its job bodies do not overlap, and no thread nests job bodies. -/
structure Serialized (s : State Tid Q Job) : Prop where
  single : ∀ q, s.shared.occurrences q + (s.responsible q).card ≤ 1
  busy : ∀ q, 0 < (s.shared.queues q).jobCount →
    s.shared.occurrences q + (s.responsible q).card = 1
  bodies : ∀ q, s.total (Frame.body q) ≤ 1
  nesting : ∀ t, weigh Frame.anyBody (s.threads t).stack ≤ 1

theorem OneToken.le_one (h : OneToken s) (q : Q) : s.tokens q ≤ 1 := by
  rw [h q]
  split <;> omega

theorem OneToken.card (h : OneToken s) (q : Q) :
    s.shared.occurrences q + (s.responsible q).card = s.tokens q := by
  have hle := h.le_one q
  rw [State.tokens] at hle ⊢
  have hcard := card_pos_eq_sum (fun t => weigh (Frame.owns q) (s.threads t).stack)
    (Nat.le_trans (Nat.le_add_left _ _) hle)
  rw [State.responsible, hcard]
  rfl

theorem OneToken.bodies (h : OneToken s) (q : Q) : s.total (Frame.body q) ≤ 1 := by
  have hle := h.le_one q
  have hbody : s.total (Frame.body q) ≤ s.total (Frame.owns q) :=
    Finset.sum_le_sum fun t _ => weigh_mono fun frame _ => body_le_owns q frame
  rw [State.tokens] at hle
  omega

theorem OneToken.initial (hs : s.Initial) : OneToken s := by
  intro q
  rw [State.tokens, total_initial hs, hs.1]
  rfl

/-- Programs that push and serve the global queue, the latter outside job bodies,
never run a queue in two places, as long as its counter does not wrap. -/
theorem jobQueue_serialized [DecidableEq Tid]
    (h : system.Reachable (fun s e => Serves s e ∧ OutsideBodies s e ∧ NoWrap s e) s) :
    Serialized s := by
  obtain ⟨htoken, hnested⟩ : OneToken s ∧ WellNested s := by
    refine h.invariant (I := fun s => OneToken s ∧ WellNested s) ?_ ?_
    · intro s hs
      refine ⟨OneToken.initial hs, fun t => ?_⟩
      rw [(hs.2 t).1]
      exact (hs.2 t).2
    · rintro s e s' ⟨htoken, hnested⟩ ⟨hserves, houtside, hwrap⟩ hnext
      exact ⟨htoken.next hserves hwrap hnext, hnested.next hserves houtside hnext⟩
  refine ⟨fun q => ?_, fun q hpos => ?_, htoken.bodies, fun t => (hnested t).anyBody⟩
  · rw [htoken.card q]
    exact htoken.le_one q
  · have hne : (s.shared.queues q).jobCount ≠ 0 := by
      intro hzero
      rw [hzero] at hpos
      exact absurd hpos (by decide)
    rw [htoken.card q, htoken q, if_neg hne]

/-- A body of queue `false` that pushes to queue `true`. -/
def nestedPush : List (Event (Fin 1) Bool Unit) :=
  [.call 0 (.push false () false), .step 0 0, .step 0 0, .step 0 0, .step 0 0, .step 0 0,
    .step 0 0, .call 0 (.push true () false), .step 0 0, .step 0 0, .step 0 0]

/-- The run counts three jobs at most, so a condition that allows pushes and the steps
on small queues admits it. -/
theorem nestedPush_along {ok : State (Fin 1) Bool Unit → Event (Fin 1) Bool Unit → Prop}
    (push : ∀ s t q pushOnly, ok s (.call t (.push q () pushOnly)))
    (step : ∀ s t now, (∀ q, (s.shared.queues q).jobCount ≠ -1) →
      (∀ q, (s.shared.queues q).jobs.items.length < 2 ^ 31) → ok s (.step t now)) :
    system.Along ok nestedPush {} := by
  refine System.along_cons rfl (push _ _ _ _) ?_
  iterate 6 refine System.along_cons rfl (step _ _ _ (by decide) (by decide)) ?_
  refine System.along_cons rfl (push _ _ _ _) ?_
  iterate 3 refine System.along_cons rfl (step _ _ _ (by decide) (by decide)) ?_
  trivial

theorem jobQueue_serialized_nestedPush :
    ∃ s, system.run nestedPush {} = some s ∧ Serialized s := by
  have hrun : system.run nestedPush {} = some _ := rfl
  refine ⟨_, hrun, jobQueue_serialized
    ((System.Reachable.start initial_empty).run (nestedPush_along ?_ ?_) hrun)⟩
  · intro s t q pushOnly
    refine ⟨?_, fun _ heq => (by cases heq), fun _ h => h.elim⟩
    rintro _ _ ⟨⟩
    rfl
  · intro s t now hcount _
    exact ⟨fun _ _ heq => (by cases heq), fun _ heq => (by cases heq), fun q _ => hcount q⟩

end Serialized

section FullCounter

variable [DecidableEq Tid] {s : State Tid Q Job} {t : Tid}

/-- The state with a thread's calls and the shared part replaced. -/
def State.put (s : State Tid Q Job) (t : Tid) (sh : Shared Q Job) (tls : Option Q)
    (stack : List (Frame Q Job)) : State Tid Q Job :=
  { s with shared := sh }.setThread t
    { s.threads t with stack := stack, tlsCurrentJobQueue := tls }

omit [DecidableEq Q] in
@[simp] theorem put_threads (sh : Shared Q Job) (tls : Option Q) (stack : List (Frame Q Job)) :
    (s.put t sh tls stack).threads t =
      { s.threads t with stack := stack, tlsCurrentJobQueue := tls } := by
  rw [State.put, setThread_self]

theorem next_put {now : UInt64} {sh sh' : Shared Q Job} {tls tls' : Option Q}
    {frame : Frame Q Job} {frames : List (Frame Q Job)} (rest : List (Frame Q Job))
    (hexec : frame.exec now (s.threads t).tlsEndTickCount sh tls = some (sh', tls', frames)) :
    (system : System (State Tid Q Job) _).next (s.put t sh tls (frame :: rest)) (.step t now) =
      some (s.put t sh' tls' (frames ++ rest)) := by
  have hshared : (s.put t sh tls (frame :: rest)).shared = sh := rfl
  simp only [system, State.next, put_threads, hshared, hexec]
  simp [State.put, State.setThread]

/-- Client code only pushes. -/
def Pushes (_ : State Tid Q Job) (e : Event Tid Q Job) : Prop :=
  ∀ t c, e = .call t c → ∃ q job, c = .push q job true

variable {sh sh' : Shared Q Job} {tls tls' : Option Q}

omit [DecidableEq Q] [DecidableEq Tid] in
theorem pushes_step (s : State Tid Q Job) : Pushes s (.step t 0) := by
  intro _ _ heq
  cases heq

theorem reachable_exec {ok : State Tid Q Job → Event Tid Q Job → Prop} {frame : Frame Q Job}
    {frames rest : List (Frame Q Job)} (hok : ∀ s, ok s (.step t 0))
    (h : system.Reachable ok (s.put t sh tls (frame :: rest)))
    (hexec : frame.exec 0 (s.threads t).tlsEndTickCount sh tls = some (sh', tls', frames)) :
    system.Reachable ok (s.put t sh' tls' (frames ++ rest)) :=
  h.step (hok _) (next_put rest hexec)

/-- A push counts and appends its job. -/
theorem reachable_pushTest (h : system.Reachable Pushes (s.put t sh none [])) (q : Q) (job : Job) :
    system.Reachable Pushes
      (s.put t ((sh.setCount q ((sh.queues q).jobCount + 1)).pushJob q job) none
        [.pushTest q true (sh.queues q).jobCount]) := by
  have hcall : (s.put t sh none []).next (.call t (.push q job true)) =
      some (s.put t sh none [.push q job true]) := by
    simp [State.next, State.enter, Thread.inClient, State.put, State.setThread]
  have hpush : Pushes (s.put t sh none []) (.call t (.push q job true)) := by
    rintro _ _ ⟨⟩
    exact ⟨q, job, rfl⟩
  exact reachable_exec pushes_step (reachable_exec pushes_step (h.step hpush hcall) rfl) rfl

/-- On a busy queue it returns. -/
theorem reachable_push_busy (h : system.Reachable Pushes (s.put t sh none [])) (q : Q) (job : Job)
    (busy : (sh.queues q).jobCount ≠ 0) :
    system.Reachable Pushes
      (s.put t ((sh.setCount q ((sh.queues q).jobCount + 1)).pushJob q job) none []) := by
  have htest : (Frame.pushTest q true (sh.queues q).jobCount).exec 0
      (s.threads t).tlsEndTickCount ((sh.setCount q ((sh.queues q).jobCount + 1)).pushJob q job)
      none = some ((sh.setCount q ((sh.queues q).jobCount + 1)).pushJob q job, none, []) := by
    simp only [Frame.exec, if_neg busy]
  exact reachable_exec pushes_step (reachable_pushTest h q job) htest

/-- On an idle queue, with `_pushOnly`, it queues the queue globally. -/
theorem reachable_push_idle (h : system.Reachable Pushes (s.put t sh none [])) (q : Q) (job : Job)
    (idle : (sh.queues q).jobCount = 0) :
    system.Reachable Pushes
      (s.put t (((sh.setCount q ((sh.queues q).jobCount + 1)).pushJob q job).pushGlobal q)
        none []) := by
  have htest : (Frame.pushTest q true (sh.queues q).jobCount).exec 0
      (s.threads t).tlsEndTickCount ((sh.setCount q ((sh.queues q).jobCount + 1)).pushJob q job)
      none = some ((sh.setCount q ((sh.queues q).jobCount + 1)).pushJob q job, none,
        [.pushGlobal q]) := by
    simp [Frame.exec, idle]
  exact reachable_exec pushes_step
    (reachable_exec pushes_step (reachable_pushTest h q job) htest) rfl

/-- One queue, to which `n` jobs were pushed and which nobody has run. -/
def filled (n : ℕ) : Shared Unit Unit where
  queues _ := { jobs := { items := List.replicate n (some ()) }, jobCount := Int32.ofNat n }
  globalQueue := { items := [some ()] }
  pushed _ := List.replicate n ()

theorem filled_succ (n : ℕ) :
    ((filled n).setCount () (Int32.ofNat n + 1)).pushJob () () = filled (n + 1) := by
  have hcount : Int32.ofNat n + 1 = Int32.ofNat (n + 1) := (Int32.ofNat_add n 1).symm
  have hitems : List.replicate n (some ()) ++ [some ()] = List.replicate (n + 1) (some ()) :=
    List.replicate_succ'.symm
  have hpushed : List.replicate n () ++ [()] = List.replicate (n + 1) () :=
    List.replicate_succ'.symm
  simp only [filled, Shared.setCount, Shared.pushJob, Shared.setJobs, LockQueue.push,
    Function.update_eq_const_of_subsingleton, Function.const_apply, hcount, hitems, hpushed]
  rfl

omit [DecidableEq Q] in
theorem put_initial (hs : s.Initial) (t : Tid) : s.put t {} none [] = s := by
  obtain ⟨hshared, hthreads⟩ := hs
  have hth : ({ s.threads t with stack := [], tlsCurrentJobQueue := none } : Thread Q Job) =
      s.threads t := by
    rw [← (hthreads t).1, ← (hthreads t).2]
  rw [State.put, hth, State.setThread, ← hshared, Function.update_eq_self]

/-- A queue can be filled until its counter is zero again. -/
theorem reachable_filled {s : State (Fin 1) Unit Unit} (hs : s.Initial) {n : ℕ}
    (hn : n < 2 ^ 32) : system.Reachable Pushes (s.put 0 (filled (n + 1)) none []) := by
  induction n with
  | zero =>
      have hstart : system.Reachable Pushes (s.put 0 {} none []) := by
        rw [put_initial hs]
        exact .start hs
      have hfirst := reachable_push_idle hstart () () rfl
      simp only [Shared.setCount, Shared.pushJob, Shared.setJobs, Shared.pushGlobal,
        LockQueue.push, Function.update_eq_const_of_subsingleton] at hfirst
      exact hfirst
  | succ n ih =>
      have hbusy : Int32.ofNat (n + 1) ≠ 0 := by
        intro hzero
        have := Word.ofNat_inj hn (show 0 < 2 ^ 32 by decide) hzero
        omega
      rw [← filled_succ]
      exact reachable_push_busy (ih (by omega)) () () hbusy

end FullCounter

/-- With 2^32 jobs outstanding the counter is zero while the queue waits in the global
queue, and the next push queues it there again. -/
theorem jobQueue_not_serialized :
    ¬∀ s : State (Fin 1) Unit Unit,
      system.Reachable (fun s e => Serves s e ∧ OutsideBodies s e) s → Serialized s := by
  intro hserialized
  have hfull := reachable_filled (s := {}) initial_empty (n := 2 ^ 32 - 1) (by decide)
  have hagain := reachable_push_idle hfull () () rfl
  refine absurd ((hserialized _ (hagain.mono ?_)).single ()) (by decide)
  intro s e hpushes
  refine ⟨fun t c heq => ?_, fun t heq => ?_⟩
  · obtain ⟨q, job, rfl⟩ := hpushes t c heq
    rfl
  · obtain ⟨q, job, hcall⟩ := hpushes t _ heq
    cases hcall

end JobQueue

end ServerCore
