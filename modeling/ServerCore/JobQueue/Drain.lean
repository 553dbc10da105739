import Mathlib.Data.Prod.Lex
import Mathlib.Order.WellFounded
import ServerCore.Interleaving.Clock
import ServerCore.JobQueue.Order

/-!
# Every pushed job can still be started

No order of steps brings the queues into a state from which jobs cannot be reached any
more. Once client code stops pushing, the calls that are running and threads that serve
the global queue can finish everything (`jobQueue_drains`), provided that the counters
are not negative and the clock, which never goes back, has not passed the time slices of
all threads. When it has, nobody serves the global queue any more: the calls can still
come to their ends, but the queues that were handed over wait for good.

The pushes that are under way are finished first. They are on top of their stacks
(`Covered`), so nothing holds them up, and from then on no queue grows. Every further
step then uses up some of the work that is left (`Frame.work`): an executor that pops a
queue leaves it empty, so it hands its queue over once more at most.
-/

namespace ServerCore

namespace JobQueue

open Interleaving

variable {Tid Q Job : Type}

/-- Client code makes no call any more, except for `DoGlobalQueueWork` outside all calls. -/
def Draining (s : State Tid Q Job) : Event Tid Q Job → Prop
  | .call t .doGlobalQueueWork => (s.threads t).stack = []
  | .call _ _ => False
  | .step _ _ => True
  | .endJob _ => True

/-- What `GetTickCount64` answers during an event. -/
def Event.reading : Event Tid Q Job → Option UInt64
  | .step _ now => some now
  | _ => none

/-- The steps that a push makes until its job is in the queue. -/
@[simp] def Frame.pushSteps : Frame Q Job → ℕ
  | .push _ _ _ => 2
  | .pushItem _ _ _ _ => 1
  | _ => 0

/-- No push waits under another frame. -/
def Covered (s : State Tid Q Job) : Prop :=
  ∀ t, weigh Frame.pushSteps (s.threads t).stack.tail = 0

/-- The jobs in each queue. -/
def Shared.lengths (sh : Shared Q Job) (q : Q) : ℕ := (sh.queues q).jobs.items.length

/-- A bound on the steps that a frame causes when queue `q` has `n q` jobs and no push
is under way. -/
def Frame.work (n : Q → ℕ) : Frame Q Job → ℕ
  | .push _ _ _ => 0
  | .pushItem _ _ _ _ => 0
  | .pushTest q _ _ => 3 * n q + 8
  | .pushGlobal q => 3 * n q + 7
  | .execute q => 3 * n q + 3
  | .popAll q => 3 * n q + 2
  | .runJobs q tempJobs i => 3 * (tempJobs.length - i) + 1 + if n q = 0 then 0 else 3 * n q + 8
  | .inJob q tempJobs i =>
      3 * (tempJobs.length - (i + 1)) + 2 + if n q = 0 then 0 else 3 * n q + 8
  | .clock q => 3 * n q + 8
  | .requeue q => 3 * n q + 7
  | .globalWork => 2
  | .globalPop => 1

/-- The same for an item of the global queue. -/
def waiting (n : Q → ℕ) : Option Q → ℕ
  | none => 6
  | some q => 3 * n q + 6

theorem Frame.work_mono {n m : Q → ℕ} (h : ∀ q, n q ≤ m q) (frame : Frame Q Job) :
    frame.work n ≤ frame.work m := by
  cases frame with
  | pushTest q | pushGlobal q | execute q | popAll q | clock q | requeue q =>
      have hq := h q
      simp only [Frame.work]
      omega
  | runJobs q tempJobs i | inJob q tempJobs i =>
      have hq := h q
      simp only [Frame.work]
      split <;> split <;> omega
  | _ => exact Nat.le_refl _

theorem waiting_mono {n m : Q → ℕ} (h : ∀ q, n q ≤ m q) (item : Option Q) :
    waiting n item ≤ waiting m item := by
  cases item with
  | none => exact Nat.le_refl _
  | some q =>
      have hq := h q
      simp only [waiting]
      omega

variable [DecidableEq Q]

/-- A push that is not counted yet. -/
@[simp] def Frame.starting (q : Q) : Frame Q Job → ℕ
  | .push q' _ _ => if q' = q then 1 else 0
  | _ => 0

section Frames

variable {now end' : UInt64} {sh sh' : Shared Q Job} {tls tls' : Option Q} {frame : Frame Q Job}
  {frames : List (Frame Q Job)}

/-- A push goes on to its end, and nothing else starts one. -/
theorem step_pushSteps (h : frame.Step now end' sh tls sh' tls' frames) :
    weigh Frame.pushSteps frames = frame.pushSteps - 1 ∧
      weigh Frame.pushSteps frames.tail = 0 := by
  cases h <;> exact ⟨rfl, rfl⟩

theorem step_starting (h : frame.Step now end' sh tls sh' tls' frames) (q : Q) :
    weigh (Frame.starting q) frames = 0 := by
  cases h <;> rfl

/-- Only a push makes a queue longer. -/
theorem step_lengths (nonNull : sh.NonNull) (quiet : frame.pushSteps = 0)
    (h : frame.Step now end' sh tls sh' tls' frames) (q : Q) : sh'.lengths q ≤ sh.lengths q := by
  cases h with
  | push | pushItem => cases quiet
  | popAll q' popped =>
      obtain ⟨contents, hitems⟩ := nonNull q'
      rw [LockQueue.popAll_of_items hitems] at popped
      cases popped
      by_cases hq : q = q'
      · subst hq
        simp [Shared.lengths]
      · rw [Shared.lengths, setJobs_other _ _ _ _ hq]
        exact Nat.le_refl _
  | runLast | runMore =>
      rw [Shared.lengths, setCount_jobs]
      exact Nat.le_refl _
  | _ => exact Nat.le_refl _

omit [DecidableEq Q] in
theorem weigh_waiting_push (n : Q → ℕ) (sh : Shared Q Job) (q : Q) :
    weigh (waiting n) (sh.pushGlobal q).globalQueue.items =
      weigh (waiting n) sh.globalQueue.items + (3 * n q + 6) := by
  change weigh (waiting n) (sh.globalQueue.items ++ [some q]) = _
  rw [weigh_append]
  rfl

/-- What is left to do for a frame that is replaced by `frames`, the items of the global
queue included. -/
def Shared.left (sh : Shared Q Job) (frames : List (Frame Q Job)) : ℕ :=
  weigh (Frame.work sh.lengths) frames + weigh (waiting sh.lengths) sh.globalQueue.items

omit [DecidableEq Q] in
theorem left_pushGlobal (sh : Shared Q Job) (q : Q) :
    (sh.pushGlobal q).left ([] : List (Frame Q Job)) < sh.left [.requeue q] := by
  have hpush := weigh_waiting_push sh.lengths sh q
  have hlengths : (sh.pushGlobal q).lengths = sh.lengths := rfl
  simp only [Shared.left, hlengths, weigh_cons, weigh_nil, Frame.work]
  omega

omit [DecidableEq Q] in
/-- A popped item no longer waits. -/
theorem weigh_waiting_pop (n : Q → ℕ) {queue rest : LockQueue Q} {item : Option Q}
    (popped : queue.pop = (item, rest)) :
    weigh (waiting n) rest.items + item.elim 0 (fun q => 3 * n q + 6) ≤
      weigh (waiting n) queue.items := by
  obtain ⟨items⟩ := queue
  cases items with
  | nil =>
      cases popped
      exact Nat.le_refl _
  | cons _ items =>
      cases popped
      cases item with
      | none =>
          rw [weigh_cons]
          exact Nat.le_add_left _ _
      | some q =>
          rw [weigh_cons, Nat.add_comm]
          exact Nat.le_refl _

/-- Once no push is under way, every step uses up some of the work. -/
theorem step_work (nonNull : sh.NonNull) (quiet : frame.pushSteps = 0)
    (more : ∀ q tempJobs i, frame = .runJobs q tempJobs i →
      (sh.queues q).jobCount ≠ tempJobCount tempJobs → sh.lengths q ≠ 0)
    (h : frame.Step now end' sh tls sh' tls' frames) : sh'.left frames < sh.left [frame] := by
  cases h with
  | push | pushItem => cases quiet
  | pushGlobal q => exact left_pushGlobal sh q
  | requeue q => exact left_pushGlobal sh q
  | popAll q popped =>
      obtain ⟨contents, hitems⟩ := nonNull q
      rw [LockQueue.popAll_of_items hitems] at popped
      cases popped
      have hbefore : sh.lengths q = contents.length := by
        rw [Shared.lengths, hitems, List.length_map]
      have hafter : (sh.setJobs q {}).lengths q = 0 := by
        rw [Shared.lengths, setJobs_self]
        rfl
      have hless : ∀ q', (sh.setJobs q {}).lengths q' ≤ sh.lengths q' := by
        intro q'
        by_cases hq : q' = q
        · rw [hq, hafter]
          exact Nat.zero_le _
        · rw [Shared.lengths, setJobs_other _ _ _ _ hq]
          exact Nat.le_refl _
      have hglobal : weigh (waiting (sh.setJobs q {}).lengths) sh.globalQueue.items ≤
          weigh (waiting sh.lengths) sh.globalQueue.items :=
        weigh_mono fun item _ => waiting_mono hless item
      have hsame : (sh.setJobs q {}).globalQueue = sh.globalQueue := rfl
      simp only [Shared.left, hsame, weigh_cons, weigh_nil, Frame.work, hbefore, hafter,
        List.nil_append, Nat.sub_zero, if_true]
      omega
  | @startJob q tempJobs i job here =>
      obtain ⟨hlt, -⟩ := List.getElem?_eq_some_iff.mp here
      have hsame : (sh.startJob q job).lengths = sh.lengths := rfl
      have hglobal : (sh.startJob q job).globalQueue = sh.globalQueue := rfl
      simp only [Shared.left, hsame, hglobal, weigh_cons, weigh_nil, Frame.work]
      omega
  | runLast q finished last =>
      have hsame (n : Int32) : (sh.setCount q n).lengths = sh.lengths := by
        funext q'
        rw [Shared.lengths, setCount_jobs]
        rfl
      have hglobal (n : Int32) : (sh.setCount q n).globalQueue = sh.globalQueue := rfl
      simp only [Shared.left, hsame, hglobal, weigh_cons, weigh_nil, Frame.work]
      omega
  | @runMore q tempJobs i finished hmore =>
      have hsame (n : Int32) : (sh.setCount q n).lengths = sh.lengths := by
        funext q'
        rw [Shared.lengths, setCount_jobs]
        rfl
      have hglobal (n : Int32) : (sh.setCount q n).globalQueue = sh.globalQueue := rfl
      have hne := more q tempJobs i rfl hmore
      simp only [Shared.left, hsame, hglobal, weigh_cons, weigh_nil, Frame.work, if_neg hne]
      omega
  | @popNothing globalQueue popped | @popQueue q globalQueue popped =>
      have hpop := weigh_waiting_pop sh.lengths popped
      have hsame : ({ sh with globalQueue } : Shared Q Job).lengths = sh.lengths := rfl
      simp only [Option.elim_none, Option.elim_some] at hpop
      simp only [Shared.left, hsame, weigh_cons, weigh_nil, Frame.work]
      omega
  | _ =>
      simp only [Shared.left, weigh_cons, weigh_nil, Frame.work]
      omega

/-- Every frame but a job body has a next step. -/
theorem exec_some (hsmall : frame.Small) (hbody : frame.anyBody = 0) (now end' : UInt64)
    (sh : Shared Q Job) (tls : Option Q) : ∃ r, frame.exec now end' sh tls = some r := by
  cases frame with
  | inJob => cases hbody
  | pushTest q pushOnly prevCount =>
      simp only [Frame.exec]
      split
      · split <;> exact ⟨_, rfl⟩
      · exact ⟨_, rfl⟩
  | runJobs q tempJobs i =>
      have hcount : (tempJobCount tempJobs).toInt = tempJobs.length :=
        Int32.toInt_ofNat_of_lt hsmall
      simp only [Frame.exec, hcount]
      split
      · next hlt =>
          rw [List.getElem?_eq_getElem (by omega)]
          exact ⟨_, rfl⟩
      · split <;> exact ⟨_, rfl⟩
  | clock q | globalWork =>
      simp only [Frame.exec]
      split <;> exact ⟨_, rfl⟩
  | globalPop =>
      simp only [Frame.exec]
      split <;> exact ⟨_, rfl⟩
  | _ => exact ⟨_, rfl⟩

end Frames

section Runs

variable [DecidableEq Tid] {s s' : State Tid Q Job} {e : Event Tid Q Job}

omit [DecidableEq Q] in
theorem Covered.setThread (h : Covered s) (sh : Shared Q Job) {t : Tid} {th : Thread Q Job}
    (hth : weigh Frame.pushSteps th.stack.tail = 0) :
    Covered ({ s with shared := sh }.setThread t th) := by
  intro u
  by_cases hu : u = t
  · rw [hu, setThread_self]
    exact hth
  · rw [setThread_other _ _ _ _ hu]
    exact h u

omit [DecidableEq Q] in
/-- A thread in client code is not inside a push. -/
theorem inClient_pushSteps {th : Thread Q Job} (h : th.inClient = true) :
    weigh Frame.pushSteps th.stack = weigh Frame.pushSteps th.stack.tail := by
  rw [Thread.inClient] at h
  split at h
  · next hstack => rw [hstack, List.tail_nil]
  · next hstack =>
      rw [hstack, weigh_cons, List.tail_cons]
      exact Nat.zero_add _
  · cases h

theorem Covered.next (h : Covered s) (hnext : s.next e = some s') : Covered s' := by
  obtain ⟨t, c, frame, rfl, hclient, -, rfl⟩ | ⟨t, q, rfl, rfl⟩ |
    ⟨t, now, frame, rest, sh, tls, frames, rfl, hstack, hstep, rfl⟩ |
    ⟨t, q, tempJobs, i, rest, rfl, hstack, rfl⟩ := next_cases hnext
  · apply h.setThread s.shared
    rw [List.tail_cons, inClient_pushSteps hclient]
    exact h t
  · exact h
  · have ht := h t
    rw [hstack, List.tail_cons] at ht
    apply h.setThread sh
    cases frames with
    | nil =>
        rw [List.nil_append]
        cases rest with
        | nil => rfl
        | cons next rest =>
            rw [weigh_cons] at ht
            rw [List.tail_cons]
            omega
    | cons first frames =>
        rw [List.cons_append, List.tail_cons, weigh_append, ht]
        exact (step_pushSteps hstep).2
  · have ht := h t
    rw [hstack] at ht
    exact h.setThread s.shared ht

omit [DecidableEq Q] [DecidableEq Tid] in
theorem Covered.initial (hs : s.Initial) : Covered s := by
  intro t
  rw [(hs.2 t).1]
  rfl

/-- Nothing assigns `tls_EndTickCount`. -/
theorem tlsEndTickCount_next (hnext : s.next e = some s') (t : Tid) :
    (s'.threads t).tlsEndTickCount = (s.threads t).tlsEndTickCount := by
  have hset : ∀ (sh : Shared Q Job) (u : Tid) (th : Thread Q Job),
      th.tlsEndTickCount = (s.threads u).tlsEndTickCount →
      (({ s with shared := sh }.setThread u th).threads t).tlsEndTickCount =
        (s.threads t).tlsEndTickCount := by
    intro sh u th hth
    by_cases hu : t = u
    · rw [hu, setThread_self, hth]
    · rw [setThread_other _ _ _ _ hu]
  obtain ⟨u, call, frame, rfl, -, -, rfl⟩ | ⟨u, q, rfl, rfl⟩ |
    ⟨u, now, frame, rest, sh, tls, frames, rfl, -, -, rfl⟩ |
    ⟨u, q, tempJobs, i, rest, rfl, -, rfl⟩ := next_cases hnext
  · exact hset s.shared u _ rfl
  · rfl
  · exact hset sh u _ rfl
  · exact hset s.shared u _ rfl

variable [Fintype Tid]

/-- The jobs of `q` that a counter counts, or will count when the pushes under way have
started. -/
def State.load (q : Q) (s : State Tid Q Job) : ℕ := s.outstanding q + s.total (Frame.starting q)

/-- A queue gets no further load while nobody calls `Push`. -/
theorem load_next (nonNull : s.shared.NonNull) (hdraining : Draining s e)
    (hnext : s.next e = some s') (q : Q) : s'.load q ≤ s.load q := by
  have hkeeps : ¬Discards s q e := by
    intro hdiscards
    cases e with
    | call t c =>
        cases c with
        | clearJob => exact hdraining
        | _ => exact hdiscards
    | _ => exact hdiscards
  obtain ⟨plus, minus, -, hledger, hplus⟩ := next_ledger nonNull hnext q hkeeps
  rw [State.load, State.load]
  obtain ⟨t, c, frame, rfl, -, hentry, rfl⟩ | ⟨t, q', rfl, -⟩ |
    ⟨t, now, frame, rest, sh, tls, frames, rfl, hstack, hstep, rfl⟩ |
    ⟨t, q', tempJobs, i, rest, rfl, hstack, rfl⟩ := next_cases hnext
  · have htotal := total_setThread (s := s) (Frame.starting q) t
      { s.threads t with stack := frame :: (s.threads t).stack }
    have hframe : frame.starting q = 0 := by
      cases c with
      | doGlobalQueueWork =>
          cases hentry
          rfl
      | _ => exact hdraining.elim
    rw [weigh_cons, hframe] at htotal
    obtain rfl | ⟨-, hcounts⟩ := hplus
    · omega
    · exact hcounts.elim
  · exact hdraining.elim
  · have htotal := total_setShared (s := s) (Frame.starting q) sh t
      { s.threads t with stack := frames ++ rest, tlsCurrentJobQueue := tls }
    rw [hstack, weigh_cons, weigh_append, step_starting hstep] at htotal
    obtain rfl | ⟨rfl, job, pushOnly, rest', hpush⟩ := hplus
    · omega
    · obtain ⟨rfl, -⟩ := List.cons.inj (hstack.symm.trans hpush)
      have hone : (Frame.push q job pushOnly).starting q = 1 := if_pos rfl
      omega
  · have htotal := total_setThread (s := s) (Frame.starting q) t
      { s.threads t with stack := .runJobs q' tempJobs (i + 1) :: rest }
    rw [hstack, weigh_cons, weigh_cons] at htotal
    have hsame : (Frame.runJobs q' tempJobs (i + 1)).starting q =
        (Frame.inJob q' tempJobs i).starting q := rfl
    obtain rfl | ⟨-, hcounts⟩ := hplus
    · omega
    · exact hcounts.elim

/-- What a run that drains the queues keeps. No counter gets out of its positive half. -/
structure Drainable (s : State Tid Q Job) : Prop where
  ordered : Ordered s
  covered : Covered s
  room : ∀ q, s.load q < 2 ^ 31

omit [DecidableEq Tid] in
theorem queued_le_outstanding (s : State Tid Q Job) (q : Q) : s.queued q ≤ s.outstanding q := by
  rw [State.outstanding]
  omega

omit [DecidableEq Tid] in
theorem outstanding_le_load (s : State Tid Q Job) (q : Q) : s.outstanding q ≤ s.load q :=
  Nat.le_add_right _ _

variable {c : UInt64}

theorem Drainable.next (h : Drainable s) (hdraining : Draining s e) (hnext : s.next e = some s') :
    Drainable s' where
  ordered := by
    have hserves : Serves s e := by
      rintro t c rfl
      cases c with
      | doGlobalQueueWork => rfl
      | _ => exact hdraining.elim
    have hwrap : NoWrap s e := by
      intro q _
      have hroom := h.room q
      have hle := outstanding_le_load s q
      rw [h.ordered.count q]
      intro hfull
      have heq := Word.ofNat_inj (h.ordered.bound q) (by decide : 2 ^ 32 - 1 < 2 ^ 32) hfull
      omega
    refine h.ordered.next hserves hwrap (fun t now q rest _ _ => ?_) hnext
    have hroom := h.room q
    have hqueued := queued_le_outstanding s q
    have hle := outstanding_le_load s q
    rw [State.queued] at hqueued
    omega
  covered := h.covered.next hnext
  room q := Nat.lt_of_le_of_lt (load_next h.ordered.nonNull hdraining hnext q) (h.room q)

omit [DecidableEq Q] [DecidableEq Tid] in
theorem total_mono {weight weight' : Frame Q Job → ℕ} (h : ∀ frame, weight frame ≤ weight' frame)
    (s : State Tid Q Job) : s.total weight ≤ s.total weight' :=
  Finset.sum_le_sum fun _ _ => weigh_mono fun frame _ => h frame

omit [DecidableEq Tid] in
/-- A stack without the token of `q` has claimed none of its jobs in a batch. -/
theorem weigh_batch_of_owns {q : Q} {stack : List (Frame Q Job)}
    (h : weigh (Frame.owns q) stack = 0) : weigh (Frame.batch q) stack = 0 := by
  induction stack with
  | nil => rfl
  | cons frame rest ih =>
      rw [weigh_cons] at h
      have hframe : frame.batch q = 0 := by
        have howns : frame.owns q = 0 := by omega
        cases frame with
        | runJobs q' tempJobs i | inJob q' tempJobs i =>
            have hne : q' ≠ q := by
              rintro rfl
              simp at howns
            exact if_neg hne
        | _ => rfl
      rw [weigh_cons, hframe, ih (by omega)]

/-- The executor of `q` has all the batches of `q`. -/
theorem OneToken.total_batch (htoken : OneToken s) {t : Tid} {q : Q} {tempJobs : List Job}
    {i : ℕ} {rest : List (Frame Q Job)}
    (hstack : (s.threads t).stack = .runJobs q tempJobs i :: rest) :
    s.total (Frame.batch q) = tempJobs.length := by
  have hle := htoken.le_one q
  rw [State.tokens] at hle
  have htotal : ∑ u, weigh (Frame.owns q) (s.threads u).stack ≤ 1 :=
    Nat.le_trans (Nat.le_add_left _ _) hle
  have hthread := weight_le_sum (fun u => weigh (Frame.owns q) (s.threads u).stack) t
  have howns : (Frame.runJobs q tempJobs i).owns q = 1 := if_pos rfl
  simp only [hstack, weigh_cons, howns] at hthread
  have hothers : ∀ u, u ≠ t → weigh (Frame.batch q) (s.threads u).stack = 0 := by
    intro u hu
    refine weigh_batch_of_owns (other_weight_zero htotal (i := t) ?_ hu)
    rw [hstack, weigh_cons]
    omega
  have hrest : weigh (Frame.batch q) rest = 0 := weigh_batch_of_owns (by omega)
  rw [State.total, Finset.sum_eq_single t (fun u _ hu => hothers u hu)
    (fun h => absurd (Finset.mem_univ t) h), hstack, weigh_cons, hrest]
  exact if_pos rfl

/-- The steps that the pushes under way still make. -/
def State.announced (s : State Tid Q Job) : ℕ := s.total Frame.pushSteps

/-- The work that is left, on the stacks and in the global queue. -/
def State.work (s : State Tid Q Job) : ℕ :=
  s.total (Frame.work s.shared.lengths) +
    weigh (waiting s.shared.lengths) s.shared.globalQueue.items

/-- Without pushes under way, an executor goes on only if its queue has jobs again. -/
theorem Drainable.more (h : Drainable s) (quiet : s.announced = 0) {t : Tid} {q : Q}
    {tempJobs : List Job} {i : ℕ} {rest : List (Frame Q Job)}
    (hstack : (s.threads t).stack = .runJobs q tempJobs i :: rest)
    (hmore : (s.shared.queues q).jobCount ≠ tempJobCount tempJobs) :
    s.shared.lengths q ≠ 0 := by
  intro hempty
  apply hmore
  have hpending : s.total (Frame.pending q) ≤ s.announced := by
    apply total_mono
    intro frame
    cases frame with
    | pushItem q' job pushOnly prevCount =>
        simp only [Frame.pending, Frame.pushSteps]
        split <;> omega
    | _ => exact Nat.zero_le _
  have hbatch := h.ordered.token.total_batch hstack
  have hqueued : s.queued q = 0 := hempty
  have hout : s.outstanding q = tempJobs.length := by
    rw [State.outstanding]
    omega
  rw [h.ordered.count q, hout]
  rfl

omit [DecidableEq Q] in
/-- Taking a frame off a stack takes its weight. -/
theorem total_dropFrame (weight : Frame Q Job → ℕ) {t : Tid} {frame : Frame Q Job}
    {rest : List (Frame Q Job)} (hstack : (s.threads t).stack = frame :: rest)
    (th : Thread Q Job) (hth : th.stack = rest) :
    (s.setThread t th).total weight + weight frame = s.total weight := by
  have htotal := total_setThread (s := s) weight t th
  rw [hstack, weigh_cons, hth] at htotal
  omega

section Step

variable {t : Tid} {frame : Frame Q Job} {frames rest : List (Frame Q Job)} {sh : Shared Q Job}
  {th : Thread Q Job}

omit [DecidableEq Q] in
/-- A step that makes no queue longer and leaves less to do for its frame leaves less
to do for the system. -/
theorem work_setThread (hstack : (s.threads t).stack = frame :: rest)
    (hth : th.stack = frames ++ rest) (hless : ∀ q, sh.lengths q ≤ s.shared.lengths q)
    (hleft : sh.left frames < s.shared.left [frame]) :
    ({ s with shared := sh }.setThread t th).work < s.work := by
  have hbefore := total_dropFrame (Frame.work s.shared.lengths) hstack
    { s.threads t with stack := rest } rfl
  have hwithout := total_dropFrame (Frame.work sh.lengths) hstack
    { s.threads t with stack := rest } rfl
  have hafter := total_setShared (s := s) (Frame.work sh.lengths) sh t th
  have hothers := total_mono (Frame.work_mono hless)
    (s.setThread t { s.threads t with stack := rest })
  rw [hstack, hth, weigh_cons, weigh_append] at hafter
  rw [Shared.left, Shared.left, weigh_cons, weigh_nil] at hleft
  rw [State.work, State.work]
  change State.total (Frame.work sh.lengths) _ + weigh (waiting sh.lengths) sh.globalQueue.items < _
  omega

/-- Pushes under way come first, then the rest of the work. -/
def State.measure (s : State Tid Q Job) : ℕ ×ₗ ℕ := toLex (s.announced, s.work)

omit [DecidableEq Q] in
/-- A step that finishes part of a push, or, when no push is under way, of the work. -/
theorem measure_setThread (hstack : (s.threads t).stack = frame :: rest)
    (hth : th.stack = frames ++ rest) (hfirst : frame.pushSteps = 0 → s.announced = 0)
    (hframes : weigh Frame.pushSteps frames = frame.pushSteps - 1)
    (hless : frame.pushSteps = 0 → ∀ q, sh.lengths q ≤ s.shared.lengths q)
    (hleft : frame.pushSteps = 0 → sh.left frames < s.shared.left [frame]) :
    ({ s with shared := sh }.setThread t th).measure < s.measure := by
  have htotal := total_setShared (s := s) Frame.pushSteps sh t th
  rw [hstack, hth, weigh_cons, weigh_append, hframes] at htotal
  rw [State.measure, State.measure, Prod.Lex.toLex_lt_toLex]
  by_cases hquiet : frame.pushSteps = 0
  · have hzero : s.total Frame.pushSteps = 0 := hfirst hquiet
    refine .inr ⟨?_, work_setThread hstack hth (hless hquiet) (hleft hquiet)⟩
    change State.total _ _ = State.total _ _
    omega
  · refine .inl ?_
    change State.total _ _ < State.total _ _
    omega

/-- A thread that is inside a call can always go on. -/
theorem Drainable.goOn (h : Drainable s) (hstack : (s.threads t).stack = frame :: rest)
    (hfirst : frame.pushSteps = 0 → s.announced = 0) :
    ∃ s', system.Leads (System.Steady Event.reading c Draining) s s' ∧ Drainable s' ∧
      s'.measure < s.measure := by
  have hsmall := h.ordered.small t frame (by rw [hstack]; exact List.mem_cons_self)
  by_cases hbody : frame.anyBody = 0
  · obtain ⟨⟨sh, tls, frames⟩, hexec⟩ := exec_some hsmall hbody c (s.threads t).tlsEndTickCount
      s.shared (s.threads t).tlsCurrentJobQueue
    have hstep := Frame.step_of_exec hexec
    have hnext : system.next s (.step t c) = some ({ s with shared := sh }.setThread t
        { s.threads t with stack := frames ++ rest, tlsCurrentJobQueue := tls }) := by
      simp only [system, State.next, hstack, hexec]
    have hdraining : Draining s (.step t c) := trivial
    refine ⟨_, .single hnext (System.steady_of_some rfl hdraining), h.next hdraining hnext,
      measure_setThread hstack rfl hfirst (step_pushSteps hstep).1 ?_ ?_⟩
    · intro hquiet
      exact step_lengths h.ordered.nonNull hquiet hstep
    · intro hquiet
      refine step_work h.ordered.nonNull hquiet ?_ hstep
      rintro q tempJobs i rfl hmore
      exact h.more (hfirst rfl) hstack hmore
  · cases frame with
    | inJob q tempJobs i =>
        have hnext : system.next s (.endJob t) = some (s.setThread t
            { s.threads t with stack := .runJobs q tempJobs (i + 1) :: rest }) := by
          simp only [system, State.next, hstack]
        have hdraining : Draining s (.endJob t) := trivial
        have hth : Frame.runJobs q tempJobs (i + 1) :: rest =
            [.runJobs q tempJobs (i + 1)] ++ rest := rfl
        refine ⟨_, .single hnext (System.steady_of_none rfl hdraining), h.next hdraining hnext,
          measure_setThread hstack hth hfirst rfl ?_ ?_⟩
        · exact fun _ q => Nat.le_refl _
        · intro _
          simp only [Shared.left, weigh_cons, weigh_nil, Frame.work]
          omega
    | _ => exact absurd rfl hbody

end Step

/-- Some thread serves the global queue at time `c`. -/
def Served (c : UInt64) (s : State Tid Q Job) : Prop := ∃ t, c ≤ (s.threads t).tlsEndTickCount

/-- Nothing runs, and nothing waits for a thread that could serve it. -/
def Idle (c : UInt64) (s : State Tid Q Job) : Prop :=
  (∀ t, (s.threads t).stack = []) ∧ (Served c s → s.shared.globalQueue.items = [])

omit [DecidableEq Q] [Fintype Tid] in
theorem setThread_setThread (s : State Tid Q Job) (sh : Shared Q Job) (t : Tid)
    (th th' : Thread Q Job) :
    ({ s.setThread t th with shared := sh } : State Tid Q Job).setThread t th' =
      { s with shared := sh }.setThread t th' := by
  simp [State.setThread]

/-- The frames that follow the pop of an item. -/
def popped : Option Q → List (Frame Q Job)
  | none => []
  | some q => [.execute q, .globalWork]

omit [Fintype Tid] in
/-- A thread outside all calls enters `DoGlobalQueueWork` within its time slice and pops. -/
theorem leads_pop {t : Tid} (hidle : (s.threads t).stack = [])
    (slice : c ≤ (s.threads t).tlsEndTickCount) {item : Option Q} {items : List (Option Q)}
    (hglobal : s.shared.globalQueue.items = item :: items) :
    system.Leads (System.Steady Event.reading c Draining) s
      ({ s with shared := { s.shared with globalQueue := { items } } }.setThread t
        { s.threads t with stack := popped item }) := by
  have hclient : (s.threads t).inClient = true := by rw [Thread.inClient, hidle]
  have hcall : system.next s (.call t .doGlobalQueueWork) = some (s.setThread t
      { s.threads t with stack := [.globalWork] }) := by
    simp only [system, State.next, hclient, State.enter, hidle, if_true]
  have hwork : system.next (s.setThread t { s.threads t with stack := [.globalWork] })
      (.step t c) = some (s.setThread t { s.threads t with stack := [.globalPop] }) := by
    have hslice : ¬c > (s.threads t).tlsEndTickCount := UInt64.not_lt.mpr slice
    simp only [system, State.next, setThread_self, Frame.exec, if_neg hslice, setThread_setThread]
    rfl
  have hpop : system.next (s.setThread t { s.threads t with stack := [.globalPop] })
      (.step t c) = some ({ s with shared := { s.shared with globalQueue := { items } } }.setThread t
        { s.threads t with stack := popped item }) := by
    have hitem : s.shared.globalQueue.pop = (item, { items }) := by
      rw [LockQueue.pop, hglobal]
    simp only [system, State.next, setThread_self, Frame.exec, setThread_shared, hitem]
    cases item <;> simp only [setThread_setThread] <;> rfl
  exact .head hcall (System.steady_of_none rfl hidle)
    (.head hwork (System.steady_of_some rfl trivial)
      (.single hpop (System.steady_of_some rfl trivial)))

omit [DecidableEq Q] in
/-- The weight of the only thread that is not idle. -/
theorem total_setThread_of_idle (hidle : ∀ t, (s.threads t).stack = [])
    (weight : Frame Q Job → ℕ) (sh : Shared Q Job) {t : Tid} {th : Thread Q Job}
    {stack : List (Frame Q Job)} (hth : th.stack = stack) :
    ({ s with shared := sh }.setThread t th).total weight = weigh weight stack := by
  have htotal := total_setShared (s := s) weight sh t th
  rw [hidle t, weigh_nil, total_of_idle hidle, Nat.zero_add, hth] at htotal
  exact htotal

/-- Serving the global queue gets on with the work. -/
theorem Drainable.serve (h : Drainable s) (hidle : ∀ t, (s.threads t).stack = [])
    (hserved : Served c s) (hglobal : s.shared.globalQueue.items ≠ []) :
    ∃ s', system.Leads (System.Steady Event.reading c Draining) s s' ∧ Drainable s' ∧
      s'.measure < s.measure := by
  obtain ⟨item, items, hitems⟩ := List.exists_cons_of_ne_nil hglobal
  obtain ⟨t, hslice⟩ := hserved
  have hleads := leads_pop (hidle t) hslice hitems
  refine ⟨_, hleads, hleads.invariant h fun s e s' h hd hnext => h.next hd.1 hnext, ?_⟩
  rw [State.measure, State.measure, Prod.Lex.toLex_lt_toLex]
  refine .inr ⟨?_, ?_⟩
  · change State.total _ _ = State.total _ _
    rw [total_setThread_of_idle hidle _ _ rfl, total_of_idle hidle]
    cases item <;> rfl
  · change State.total (Frame.work s.shared.lengths) _ + weigh (waiting s.shared.lengths) items <
      State.total (Frame.work s.shared.lengths) s +
        weigh (waiting s.shared.lengths) s.shared.globalQueue.items
    rw [total_setThread_of_idle hidle _ _ rfl, total_of_idle hidle, hitems, weigh_cons]
    cases item with
    | none =>
        simp only [popped, weigh_nil, waiting]
        omega
    | some q =>
        simp only [popped, weigh_cons, weigh_nil, Frame.work, waiting]
        omega

/-- While there is something to do, it can be done. -/
theorem Drainable.progress (h : Drainable s) (hbusy : ¬Idle c s) :
    ∃ s', system.Leads (System.Steady Event.reading c Draining) s s' ∧ Drainable s' ∧
      s'.measure < s.measure := by
  by_cases hquiet : s.announced = 0
  · by_cases hidle : ∀ t, (s.threads t).stack = []
    · have hwaiting : ¬(Served c s → s.shared.globalQueue.items = []) :=
        fun hserve => hbusy ⟨hidle, hserve⟩
      push Not at hwaiting
      exact h.serve hidle hwaiting.1 hwaiting.2
    · obtain ⟨t, hrunning⟩ := not_forall.mp hidle
      obtain ⟨frame, rest, hstack⟩ := List.exists_cons_of_ne_nil hrunning
      exact h.goOn hstack fun _ => hquiet
  · -- Some thread is inside a push, which is its innermost frame.
    have hannounced : ∃ t, weigh Frame.pushSteps (s.threads t).stack ≠ 0 := by
      by_contra hnone
      push Not at hnone
      exact hquiet (Finset.sum_eq_zero fun t _ => hnone t)
    obtain ⟨t, hpush⟩ := hannounced
    cases hstack : (s.threads t).stack with
    | nil =>
        rw [hstack] at hpush
        exact absurd rfl hpush
    | cons frame rest =>
        have hcovered := h.covered t
        rw [hstack, List.tail_cons] at hcovered
        rw [hstack, weigh_cons, hcovered] at hpush
        exact h.goOn hstack fun hzero => absurd hzero hpush

omit [Fintype Tid] in
/-- No step forgets a push. -/
theorem pushed_next (hnext : s.next e = some s') (q : Q) :
    s.shared.pushed q <+: s'.shared.pushed q := by
  obtain ⟨t, c, frame, rfl, -, -, rfl⟩ | ⟨t, q', rfl, rfl⟩ |
    ⟨t, now, frame, rest, sh, tls, frames, rfl, -, hstep, rfl⟩ |
    ⟨t, q', tempJobs, i, rest, rfl, -, rfl⟩ := next_cases hnext
  · exact List.prefix_refl _
  · exact List.prefix_refl _
  · cases hstep with
    | pushItem q' job =>
        by_cases hq : q = q'
        · subst hq
          simp [Shared.pushJob]
        · simp [Shared.pushJob, Function.update_of_ne hq]
    | _ => exact List.prefix_refl _
  · exact List.prefix_refl _

/-- The calls that ran in `s` are over in `s'`, no push of them is forgotten, and every
pushed job is started but those of queues that wait in the global queue. None waits if the
clock at `c` has not passed every time slice. -/
structure Finished (c : UInt64) (s s' : State Tid Q Job) : Prop where
  idle : ∀ t, (s'.threads t).stack = []
  kept : ∀ q, s.shared.pushed q <+: s'.shared.pushed q
  started : ∀ q, some q ∉ s'.shared.globalQueue.items →
    s'.shared.executed q = s'.shared.pushed q
  served : Served c s → s'.shared.globalQueue.items = []

/-- From every state that pushes and services of the global queue can reach without
overflow, whatever the clock reads there, the calls that are running can come to their ends
before it goes on, if fewer than 2^31 jobs of each queue are left. Together with threads
that serve the global queue within their time slices they start every pushed job. -/
theorem jobQueue_drains
    (h : system.Reachable (fun s e => Serves s e ∧ NoWrap s e ∧ SmallBatches s e) s)
    (room : ∀ q, s.load q < 2 ^ 31) (c : UInt64) :
    ∃ s', (system.clocked Event.reading).Leads (fun s e => Draining s.1 e) (s, c) (s', c) ∧
      Finished c s s' := by
  obtain ⟨hordered, hcovered⟩ : Ordered s ∧ Covered s := by
    refine h.invariant (I := fun s => Ordered s ∧ Covered s) ?_ ?_
    · exact fun s hs => ⟨Ordered.initial hs, Covered.initial hs⟩
    · rintro s e s' ⟨hordered, hcovered⟩ ⟨hserves, hwrap, hsmall⟩ hnext
      exact ⟨hordered.next hserves hwrap hsmall hnext, hcovered.next hnext⟩
  obtain ⟨s', hleads, hs', hidle, hglobal⟩ := System.Leads.of_measure State.measure
    (fun s (h : Drainable s) hbusy => h.progress hbusy) ⟨hordered, hcovered, room⟩
  refine ⟨s', hleads.clocked (UInt64.le_refl c), hidle, fun q => ?_,
    fun q hq => (hs'.ordered.settled_of_notMem hidle hq).2, fun hserved => hglobal ?_⟩
  · refine hleads.invariant (I := fun u => s.shared.pushed q <+: u.shared.pushed q)
      (List.prefix_refl _) ?_
    intro u e u' hkept _ hnext
    exact hkept.trans (pushed_next hnext q)
  · refine hleads.invariant (I := Served c) hserved ?_
    rintro u e u' ⟨t, ht⟩ _ hnext
    exact ⟨t, tlsEndTickCount_next hnext t ▸ ht⟩

end Runs

/-- A body of queue `false` has pushed to queue `true`, which is about to be handed over, and
the clock still reads 0. -/
theorem jobQueue_drains_nestedPush :
    ∃ s s' : State (Fin 1) Bool Unit, system.run nestedPush {} = some s ∧
      (system.clocked Event.reading).Leads (fun s e => Draining s.1 e) (s, 0) (s', 0) ∧
        Served 0 s ∧ Finished 0 s s' := by
  have hrun : system.run nestedPush ({} : State (Fin 1) Bool Unit) = some _ := rfl
  have hreached : system.Reachable (fun s e => Serves s e ∧ NoWrap s e ∧ SmallBatches s e) _ :=
    (System.Reachable.start initial_empty).run (System.along_of_check (by decide +kernel)) hrun
  obtain ⟨s', hleads, hfinished⟩ := jobQueue_drains hreached (by decide +kernel) 0
  exact ⟨_, s', hrun, hleads, ⟨0, by decide +kernel⟩, hfinished⟩

end JobQueue

end ServerCore
