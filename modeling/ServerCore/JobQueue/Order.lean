import ServerCore.JobQueue.Responsibility

/-!
# No job is lost, duplicated or reordered

A job is appended to its queue by `jobs.Push`, moves into the batch of the one
executor with the rest of the queue, and is started in its turn. So the started
jobs, the rest of the batch and the queue, put together, are the pushed jobs
(`Shared.InOrder`). Each step of the token's holder keeps this equation, and so
does each step of a thread that only appends.

The loop over a batch runs up to `static_cast<int32>(tempJobs.size())`. A batch of
2^31 jobs has a negative size there, and none of its jobs is started
(`jobQueue_loses_batch`). `SmallBatches` excludes such a `PopAll`.
-/

namespace ServerCore

namespace JobQueue

open Interleaving

variable {Tid Q Job : Type} [DecidableEq Q]

/-- The jobs of the frame's batch that are not started. -/
@[simp] def Frame.unexecuted (q : Q) : Frame Q Job → List Job
  | .runJobs q' tempJobs i => if q' = q then tempJobs.drop i else []
  | .inJob q' tempJobs i => if q' = q then tempJobs.drop (i + 1) else []
  | _ => []

/-- The frame processes a batch of `q`. -/
@[simp] def Frame.executes (q : Q) : Frame Q Job → ℕ
  | .runJobs q' _ _ => if q' = q then 1 else 0
  | .inJob q' _ _ => if q' = q then 1 else 0
  | _ => 0

omit [DecidableEq Q] in
/-- The frame's batch has fewer than 2^31 jobs. -/
def Frame.Small : Frame Q Job → Prop
  | .runJobs _ tempJobs _ => tempJobs.length < 2 ^ 31
  | .inJob _ tempJobs _ => tempJobs.length < 2 ^ 31
  | _ => True

/-- `PopAll` takes fewer than 2^31 jobs. -/
def SmallBatches (s : State Tid Q Job) (e : Event Tid Q Job) : Prop :=
  ∀ t now q rest, e = .step t now → (s.threads t).stack = .popAll q :: rest →
    (s.shared.queues q).jobs.items.length < 2 ^ 31

section Checks

omit [DecidableEq Q]

variable (s : State Tid Q Job)

/-- The queue whose counter the next step of the thread increments. -/
def Thread.counting (th : Thread Q Job) : Option Q :=
  match th.stack with
  | .push q _ _ :: _ => some q
  | _ => none

/-- The queue that the next step of the thread empties. -/
def Thread.popping (th : Thread Q Job) : Option Q :=
  match th.stack with
  | .popAll q :: _ => some q
  | _ => none

theorem noWrap_step_iff (t : Tid) (now : UInt64) : NoWrap s (.step t now) ↔
    ∀ q ∈ (s.threads t).counting, (s.shared.queues q).jobCount ≠ -1 := by
  constructor
  · intro h q hq
    unfold Thread.counting at hq
    split at hq
    · next job pushOnly rest hstack =>
        cases hq
        exact h q ⟨job, pushOnly, rest, hstack⟩
    · cases hq
  · rintro h q ⟨job, pushOnly, rest, hstack⟩
    apply h
    rw [Thread.counting, hstack]
    rfl

theorem smallBatches_step_iff (t : Tid) (now : UInt64) : SmallBatches s (.step t now) ↔
    ∀ q ∈ (s.threads t).popping, (s.shared.queues q).jobs.items.length < 2 ^ 31 := by
  constructor
  · intro h q hq
    unfold Thread.popping at hq
    split at hq
    · next rest hstack =>
        cases hq
        exact h t now q rest rfl hstack
    · cases hq
  · rintro h _ _ q rest ⟨⟩ hstack
    apply h
    rw [Thread.popping, hstack]
    rfl

instance : ∀ e : Event Tid Q Job, Decidable (Serves s e)
  | .call t c => decidable_of_iff (c.serves = true)
      ⟨fun h _ _ heq => by cases heq; exact h, fun h => h t c rfl⟩
  | .step _ _ => .isTrue fun _ _ heq => nomatch heq
  | .endJob _ => .isTrue fun _ _ heq => nomatch heq

instance : ∀ e : Event Tid Q Job, Decidable (NoWrap s e)
  | .call _ _ => .isTrue fun _ h => h.elim
  | .step t now => decidable_of_iff' _ (noWrap_step_iff s t now)
  | .endJob _ => .isTrue fun _ h => h.elim

instance : ∀ e : Event Tid Q Job, Decidable (SmallBatches s e)
  | .call _ _ => .isTrue fun _ _ _ _ heq => nomatch heq
  | .step t now => decidable_of_iff' _ (smallBatches_step_iff s t now)
  | .endJob _ => .isTrue fun _ _ _ _ heq => nomatch heq

end Checks

/-- The started jobs, then `batch`, then the queue are the pushed jobs. -/
def Shared.InOrder (q : Q) (batch : List Job) (sh : Shared Q Job) : Prop :=
  (sh.executed q ++ batch).map some ++ (sh.queues q).jobs.items = (sh.pushed q).map some

theorem executes_le_owns (q : Q) (frame : Frame Q Job) : frame.executes q ≤ frame.owns q := by
  cases frame <;> simp

theorem unexecuted_of_owns {q : Q} {frame : Frame Q Job} (h : frame.owns q = 0) :
    frame.unexecuted q = [] := by
  cases frame with
  | runJobs q' tempJobs i =>
      have hne : q' ≠ q := by
        intro heq
        simp [heq] at h
      simp [hne]
  | inJob q' tempJobs i =>
      have hne : q' ≠ q := by
        intro heq
        simp [heq] at h
      simp [hne]
  | _ => rfl

theorem InOrder.setCount {q : Q} {batch : List Job} {sh : Shared Q Job}
    (h : sh.InOrder q batch) (q' : Q) (n : Int32) : (sh.setCount q' n).InOrder q batch := by
  rw [Shared.InOrder, setCount_jobs]
  exact h

theorem InOrder.push {q : Q} {batch : List Job} {sh : Shared Q Job} (h : sh.InOrder q batch)
    (q' : Q) (job : Job) : (sh.pushJob q' job).InOrder q batch := by
  rw [Shared.InOrder] at h ⊢
  by_cases hq : q' = q
  · subst hq
    have hitems : ((sh.pushJob q' job).queues q').jobs.items =
        (sh.queues q').jobs.items ++ [some job] := by
      rw [pushJob_queues, setJobs_self]
      rfl
    have hpushed : ((sh.pushJob q' job).pushed q').map some =
        (sh.pushed q').map some ++ [some job] := by
      simp [Shared.pushJob]
    rw [hitems, hpushed, ← List.append_assoc, ← h]
    rfl
  · rw [pushJob_queues, setJobs_other _ _ _ _ (Ne.symm hq)]
    simp only [Shared.pushJob, Function.update_of_ne (Ne.symm hq)]
    exact h

theorem InOrder.start {q : Q} {tempJobs : List Job} {i : ℕ} {job : Job} {sh : Shared Q Job}
    (h : sh.InOrder q (tempJobs.drop i)) (hjob : tempJobs[i]? = some job) :
    (sh.startJob q job).InOrder q (tempJobs.drop (i + 1)) := by
  rw [Shared.InOrder] at h ⊢
  obtain ⟨hlt, hget⟩ := List.getElem?_eq_some_iff.mp hjob
  have hsplit : tempJobs.drop i = job :: tempJobs.drop (i + 1) := by
    rw [List.drop_eq_getElem_cons hlt, hget]
  rw [startJob_queues]
  simp only [Shared.startJob, Function.update_self]
  rw [hsplit] at h
  rw [List.append_assoc]
  exact h

/-- A frame's step either leaves the batches of `q` alone and keeps the order with
whatever batch another frame has, or holds the token of `q` and keeps the order
with its own batch. -/
theorem step_order {now end' : UInt64} {sh sh' : Shared Q Job} {tls tls' : Option Q}
    {frame : Frame Q Job} {frames : List (Frame Q Job)} (nonNull : sh.NonNull)
    (hsmall : frame.Small) (q : Q)
    (h : frame.Step now end' sh tls sh' tls' frames) :
    (frames.flatMap (Frame.unexecuted q) = frame.unexecuted q ∧
      ∀ batch, sh.InOrder q batch → sh'.InOrder q batch) ∨
    (frame.owns q = 1 ∧ (sh.InOrder q (frame.unexecuted q) →
      sh'.InOrder q (frames.flatMap (Frame.unexecuted q)))) := by
  cases h with
  | push q' job pushOnly => exact .inl ⟨rfl, fun batch horder => InOrder.setCount horder q' _⟩
  | pushItem q' job pushOnly prevCount =>
      exact .inl ⟨rfl, fun batch horder => InOrder.push horder q' job⟩
  | popAll q' popped =>
      obtain ⟨contents, hitems⟩ := nonNull q'
      rw [LockQueue.popAll_of_items hitems] at popped
      cases popped
      by_cases hq : q' = q
      · subst hq
        refine .inr ⟨by simp, fun horder => ?_⟩
        rw [Shared.InOrder, hitems] at horder
        rw [Shared.InOrder, setJobs_self]
        simpa [Shared.setJobs] using horder
      · refine .inl ⟨by simp [hq], fun batch horder => ?_⟩
        rw [Shared.InOrder, setJobs_other _ _ _ _ (Ne.symm hq)]
        exact horder
  | startJob q' here =>
      by_cases hq : q' = q
      · subst hq
        refine .inr ⟨by simp, fun horder => ?_⟩
        simp only [Frame.unexecuted, if_true, List.flatMap_cons, List.flatMap_nil,
          List.append_nil] at horder ⊢
        exact InOrder.start horder here
      · refine .inl ⟨by simp [hq], fun batch horder => ?_⟩
        rw [Shared.InOrder] at horder ⊢
        simp only [Shared.startJob, Function.update_of_ne (Ne.symm hq)]
        exact horder
  | @runLast q' tempJobs i finished _ | @runMore q' tempJobs i finished _ =>
      -- The batch fits its counter, so the loop ends at the end of the batch.
      have hdone : tempJobs.drop i = [] := by
        have hcount : (tempJobCount tempJobs).toInt = tempJobs.length :=
          Int32.toInt_ofNat_of_lt hsmall
        rw [hcount] at finished
        exact List.drop_eq_nil_of_le (by omega)
      have hframe : (Frame.runJobs q' tempJobs i).unexecuted q = [] := by
        simp [hdone]
      rw [hframe]
      exact .inl ⟨rfl, fun batch horder => InOrder.setCount horder q' _⟩
  -- The other steps touch neither the jobs nor the histories.
  | _ => exact .inl ⟨rfl, fun _ horder => horder⟩

/-- A step keeps batches small if a `PopAll` takes a small one. -/
theorem step_small {now end' : UInt64} {sh sh' : Shared Q Job} {tls tls' : Option Q}
    {frame : Frame Q Job} {frames : List (Frame Q Job)} (nonNull : sh.NonNull)
    (hsmall : frame.Small)
    (hpop : ∀ q, frame = .popAll q → (sh.queues q).jobs.items.length < 2 ^ 31)
    (h : frame.Step now end' sh tls sh' tls' frames) : ∀ f ∈ frames, f.Small := by
  cases h with
  | popAll q popped =>
      obtain ⟨contents, hitems⟩ := nonNull q
      have hlt := hpop q rfl
      rw [hitems, List.length_map] at hlt
      rw [LockQueue.popAll_of_items hitems] at popped
      cases popped
      exact List.forall_mem_singleton.mpr hlt
  | startJob => exact List.forall_mem_singleton.mpr hsmall
  | _ => simp [Frame.Small]

section Steps

variable [Fintype Tid] {s s' : State Tid Q Job} {e : Event Tid Q Job}

/-- The jobs that were popped and not started. -/
noncomputable def State.unexecuted (q : Q) (s : State Tid Q Job) : List Job :=
  gather (fun th : Thread Q Job => th.stack.flatMap (Frame.unexecuted q)) s.threads

omit [Fintype Tid] in
/-- A stack without the token of `q` has no batch of it. -/
theorem flatMap_unexecuted_of_weigh {q : Q} {stack : List (Frame Q Job)}
    (h : weigh (Frame.owns q) stack = 0) : stack.flatMap (Frame.unexecuted q) = [] := by
  induction stack with
  | nil => rfl
  | cons frame rest ih =>
      rw [weigh_cons] at h
      rw [List.flatMap_cons, unexecuted_of_owns (by omega), ih (by omega)]
      rfl

variable [DecidableEq Tid]

/-- The holder of the token has the whole batch. -/
theorem unexecuted_of_owns_frame {q : Q} (htoken : OneToken s) {t : Tid} {frame : Frame Q Job}
    {rest : List (Frame Q Job)} (hstack : (s.threads t).stack = frame :: rest)
    (howns : frame.owns q = 1) :
    rest.flatMap (Frame.unexecuted q) = [] ∧
      ∀ u, u ≠ t → (s.threads u).stack.flatMap (Frame.unexecuted q) = [] := by
  have hle := htoken.le_one q
  rw [State.tokens] at hle
  have htotal : ∑ u, weigh (Frame.owns q) (s.threads u).stack ≤ 1 :=
    Nat.le_trans (Nat.le_add_left _ _) hle
  have hthread := weight_le_sum (fun u => weigh (Frame.owns q) (s.threads u).stack) t
  simp only [hstack, weigh_cons] at hthread
  refine ⟨flatMap_unexecuted_of_weigh (by omega), fun u hu => ?_⟩
  refine flatMap_unexecuted_of_weigh (other_weight_zero htotal (i := t) ?_ hu)
  rw [hstack, weigh_cons]
  omega

/-- What holds in every run that pushes and serves the global queue. -/
structure Ordered (s : State Tid Q Job) : Prop where
  nonNull : s.shared.NonNull
  token : OneToken s
  count : ∀ q, (s.shared.queues q).jobCount = Int32.ofNat (s.outstanding q)
  bound : ∀ q, s.outstanding q < 2 ^ 32
  small : ∀ t, ∀ frame ∈ (s.threads t).stack, frame.Small
  order : ∀ q, s.shared.InOrder q (s.unexecuted q)

omit [DecidableEq Q] [Fintype Tid] [DecidableEq Tid] in
theorem Serves.keeps (h : Serves s e) (q : Q) : ¬Discards s q e := by
  intro hdiscards
  cases e with
  | call t c =>
      cases c with
      | clearJob q' => cases h t _ rfl
      | _ => exact hdiscards
  | _ => exact hdiscards

/-- The counter follows the outstanding jobs, which stay below the word size. -/
theorem Ordered.count_next (h : Ordered s) (hserves : Serves s e) (hwrap : NoWrap s e)
    (hnext : s.next e = some s') (q : Q) :
    (s'.shared.queues q).jobCount = Int32.ofNat (s'.outstanding q) ∧
      s'.outstanding q < 2 ^ 32 := by
  obtain ⟨plus, minus, hcount, hledger, hplus⟩ :=
    next_ledger h.nonNull hnext q (hserves.keeps q)
  rw [hcount, h.count q, Word.ofNat_ledger hledger]
  refine ⟨rfl, ?_⟩
  have hbound := h.bound q
  obtain rfl | ⟨rfl, hcounts⟩ := hplus
  · omega
  · have hroom : s.outstanding q ≠ 2 ^ 32 - 1 := by
      intro hfull
      have hne := hwrap q hcounts
      rw [h.count q, hfull] at hne
      exact hne rfl
    omega

omit [DecidableEq Q] [Fintype Tid] in
theorem small_setThread (hsmall : ∀ t, ∀ frame ∈ (s.threads t).stack, frame.Small)
    (sh : Shared Q Job) {t : Tid} {th : Thread Q Job} (hth : ∀ frame ∈ th.stack, frame.Small) :
    ∀ u, ∀ frame ∈ (({ s with shared := sh }.setThread t th).threads u).stack, frame.Small := by
  intro u
  by_cases hu : u = t
  · rw [hu, setThread_self]
    exact hth
  · rw [setThread_other _ _ _ _ hu]
    exact hsmall u

theorem Ordered.small_next (h : Ordered s) (hsmall : SmallBatches s e)
    (hnext : s.next e = some s') : ∀ t, ∀ frame ∈ (s'.threads t).stack, frame.Small := by
  obtain ⟨t, c, frame, rfl, -, hentry, rfl⟩ | ⟨t, q, rfl, rfl⟩ |
    ⟨t, now, frame, rest, sh, tls, frames, rfl, hstack, hstep, rfl⟩ |
    ⟨t, q, tempJobs, i, rest, rfl, hstack, rfl⟩ := next_cases hnext
  · apply small_setThread h.small s.shared
    intro f hf
    obtain rfl | hold := List.mem_cons.mp hf
    · cases c <;> cases hentry <;> trivial
    · exact h.small t f hold
  · exact h.small
  · have ht := h.small t
    rw [hstack] at ht
    apply small_setThread h.small sh
    intro f hf
    obtain hnew | hold := List.mem_append.mp hf
    · refine step_small h.nonNull (ht frame List.mem_cons_self) ?_ hstep f hnew
      rintro q rfl
      exact hsmall t now q rest rfl hstack
    · exact ht f (List.mem_cons_of_mem _ hold)
  · have ht := h.small t
    rw [hstack] at ht
    apply small_setThread h.small s.shared
    intro f hf
    obtain rfl | hold := List.mem_cons.mp hf
    · exact ht (.inJob q tempJobs i) List.mem_cons_self
    · exact ht f (List.mem_cons_of_mem _ hold)

/-- Replacing a thread's stack by one with the same batch changes no batch. -/
theorem unexecuted_setThread {q : Q} (sh : Shared Q Job) {t : Tid} {th : Thread Q Job}
    (hsame : th.stack.flatMap (Frame.unexecuted q) =
      (s.threads t).stack.flatMap (Frame.unexecuted q)) :
    ({ s with shared := sh }.setThread t th).unexecuted q = s.unexecuted q :=
  gather_update hsame

omit [DecidableEq Tid] in
/-- If no other thread has a batch of `q`, one thread's stack has all of it. -/
theorem unexecuted_of_others {q : Q} {t : Tid}
    (hothers : ∀ u, u ≠ t → (s.threads u).stack.flatMap (Frame.unexecuted q) = []) :
    s.unexecuted q = (s.threads t).stack.flatMap (Frame.unexecuted q) :=
  gather_eq_of_others hothers

theorem unexecuted_setThread_of_others {q : Q} (sh : Shared Q Job) {t : Tid}
    (th : Thread Q Job)
    (hothers : ∀ u, u ≠ t → (s.threads u).stack.flatMap (Frame.unexecuted q) = []) :
    ({ s with shared := sh }.setThread t th).unexecuted q =
      th.stack.flatMap (Frame.unexecuted q) := by
  rw [unexecuted_of_others (t := t), setThread_self]
  intro u hu
  rw [setThread_other _ _ _ _ hu]
  exact hothers u hu

theorem Ordered.order_next (h : Ordered s) (hserves : Serves s e) (hnext : s.next e = some s')
    (q : Q) : s'.shared.InOrder q (s'.unexecuted q) := by
  have horder := h.order q
  obtain ⟨t, c, frame, rfl, -, hentry, rfl⟩ | ⟨t, q', rfl, -⟩ |
    ⟨t, now, frame, rest, sh, tls, frames, rfl, hstack, hstep, rfl⟩ |
    ⟨t, q', tempJobs, i, rest, rfl, hstack, rfl⟩ := next_cases hnext
  · have hframe : frame.unexecuted q = [] := by cases c <;> cases hentry <;> rfl
    change s.shared.InOrder q (({ s with shared := s.shared }.setThread t _).unexecuted q)
    rw [unexecuted_setThread s.shared (by rw [List.flatMap_cons, hframe]; rfl)]
    exact horder
  · cases hserves t _ rfl
  · have hframe := h.small t frame (by rw [hstack]; exact List.mem_cons_self)
    rw [setThread_shared]
    obtain ⟨hsame, hkeep⟩ | ⟨howns, hkeep⟩ := step_order h.nonNull hframe q hstep
    · rw [unexecuted_setThread sh
        (by rw [hstack, List.flatMap_append, List.flatMap_cons, hsame])]
      exact hkeep _ horder
    · obtain ⟨hrest, hothers⟩ := unexecuted_of_owns_frame h.token hstack howns
      have hbefore : s.unexecuted q = frame.unexecuted q := by
        rw [unexecuted_of_others hothers, hstack, List.flatMap_cons, hrest, List.append_nil]
      rw [unexecuted_setThread_of_others sh _ hothers, List.flatMap_append, hrest,
        List.append_nil]
      rw [hbefore] at horder
      exact hkeep horder
  · change s.shared.InOrder q (({ s with shared := s.shared }.setThread t _).unexecuted q)
    rw [unexecuted_setThread s.shared (by rw [hstack, List.flatMap_cons, List.flatMap_cons]; rfl)]
    exact horder

theorem Ordered.next (h : Ordered s) (hserves : Serves s e) (hwrap : NoWrap s e)
    (hsmall : SmallBatches s e) (hnext : s.next e = some s') : Ordered s' where
  nonNull := NonNull.next h.nonNull hnext
  token := h.token.next hserves hwrap hnext
  count q := (h.count_next hserves hwrap hnext q).1
  bound q := (h.count_next hserves hwrap hnext q).2
  small := h.small_next hsmall hnext
  order := h.order_next hserves hnext

omit [DecidableEq Tid] in
theorem unexecuted_of_idle (hidle : ∀ t, (s.threads t).stack = []) (q : Q) :
    s.unexecuted q = [] := by
  rw [State.unexecuted, gather, List.flatMap_eq_nil_iff]
  intro t _
  rw [hidle t]
  rfl

omit [DecidableEq Tid] in
theorem Ordered.initial (hs : s.Initial) : Ordered s where
  nonNull := NonNull.initial hs
  token := OneToken.initial hs
  count q := by
    rw [outstanding_initial hs, hs.1]
    rfl
  bound q := by
    rw [outstanding_initial hs]
    decide
  small t frame hmem := by
    rw [(hs.2 t).1] at hmem
    cases hmem
  order q := by
    rw [unexecuted_of_idle (fun t => (hs.2 t).1), hs.1]
    rfl

/-- The jobs of each queue are started in the order of their pushes, each once: the
started ones, the rest of the one batch in progress and the queue are the pushed
ones. Where nothing is left to do, all of them were started. -/
structure NothingLost (s : State Tid Q Job) : Prop where
  order : ∀ q, s.shared.InOrder q (s.unexecuted q)
  single : ∀ q, s.total (Frame.executes q) ≤ 1
  settled : (∀ t, (s.threads t).stack = []) → s.shared.globalQueue.items = [] →
    ∀ q, (s.shared.queues q).jobCount = 0 ∧ s.shared.executed q = s.shared.pushed q

omit [DecidableEq Tid] in
/-- An idle queue that does not wait in the global queue has a zero counter, so nothing of
it is outstanding. -/
theorem Ordered.settled_of_notMem (h : Ordered s) (hidle : ∀ t, (s.threads t).stack = []) {q : Q}
    (hglobal : some q ∉ s.shared.globalQueue.items) :
    (s.shared.queues q).jobCount = 0 ∧ s.shared.executed q = s.shared.pushed q := by
  have hzero : (s.shared.queues q).jobCount = 0 := by
    have htoken := h.token q
    rw [State.tokens, total_of_idle hidle, Shared.occurrences, List.count_eq_zero.mpr hglobal]
      at htoken
    by_contra hne
    rw [if_neg hne] at htoken
    cases htoken
  have hout : s.outstanding q = 0 := by
    have hcount := h.count q
    rw [hzero] at hcount
    exact (Word.ofNat_inj (by decide) (h.bound q) hcount).symm
  have hempty : (s.shared.queues q).jobs.items = [] := by
    apply List.eq_nil_of_length_eq_zero
    rw [State.outstanding, State.queued] at hout
    omega
  have horder := h.order q
  rw [unexecuted_of_idle hidle, Shared.InOrder, hempty, List.append_nil, List.append_nil] at horder
  exact ⟨hzero, List.map_injective_iff.mpr (Option.some_injective Job) horder⟩

omit [DecidableEq Tid] in
/-- Nothing is outstanding while nothing runs or waits. -/
theorem Ordered.settled (h : Ordered s) (hidle : ∀ t, (s.threads t).stack = [])
    (hglobal : s.shared.globalQueue.items = []) (q : Q) :
    (s.shared.queues q).jobCount = 0 ∧ s.shared.executed q = s.shared.pushed q := by
  apply h.settled_of_notMem hidle
  rw [hglobal]
  exact List.not_mem_nil

/-- Programs that push and serve the global queue lose, repeat and reorder no job, as
long as no counter wraps and `PopAll` takes fewer than 2^31 jobs at once. -/
theorem jobQueue_order
    (h : system.Reachable (fun s e => Serves s e ∧ NoWrap s e ∧ SmallBatches s e) s) :
    NothingLost s := by
  have hordered : Ordered s := by
    apply h.invariant (I := Ordered)
    · exact fun s hs => Ordered.initial hs
    · exact fun s e s' h hok hnext => h.next hok.1 hok.2.1 hok.2.2 hnext
  refine ⟨hordered.order, fun q => ?_, hordered.settled⟩
  have hle := hordered.token.le_one q
  have hexecutes : s.total (Frame.executes q) ≤ s.total (Frame.owns q) :=
    Finset.sum_le_sum fun t _ => weigh_mono fun frame _ => executes_le_owns q frame
  rw [State.tokens] at hle
  omega

end Steps

/-- The run of a body that pushes to another queue. -/
theorem jobQueue_order_nestedPush :
    ∃ s, system.run nestedPush {} = some s ∧ NothingLost s := by
  have hrun : system.run nestedPush {} = some _ := rfl
  refine ⟨_, hrun, jobQueue_order
    ((System.Reachable.start initial_empty).run (nestedPush_along ?_ ?_) hrun)⟩
  · intro s t q pushOnly
    refine ⟨?_, fun _ h => h.elim, fun _ _ _ _ heq => (by cases heq)⟩
    rintro _ _ ⟨⟩
    rfl
  · intro s t now hcount hlength
    exact ⟨fun _ _ heq => (by cases heq), fun q _ => hcount q, fun _ _ q _ _ _ => hlength q⟩

section FullBatch

/-- `PopAll` takes all the pushed jobs of a filled queue. -/
theorem exec_popAll_filled (now end' : UInt64) (n : ℕ) :
    (Frame.popAll ()).exec now end' { filled n with globalQueue := {} } (some ()) =
      some (({ filled n with globalQueue := {} } : Shared Unit Unit).setJobs () {}, some (),
        [.runJobs () (List.replicate n ()) 0]) := by
  have hitems : ((filled n).queues ()).jobs.items = (List.replicate n ()).map some :=
    List.map_replicate.symm
  simp only [Frame.exec, LockQueue.popAll_of_items hitems, List.nil_append]

/-- A batch whose size wraps to a negative number: `Execute` starts none of its jobs,
and its `fetch_sub` brings the counter to zero. -/
theorem exec_runJobs_filled (now end' : UInt64) {n : ℕ} (hn : (Int32.ofNat n).toInt ≤ 0) :
    (Frame.runJobs () (List.replicate n ()) 0).exec now end'
        (({ filled n with globalQueue := {} } : Shared Unit Unit).setJobs () {}) (some ()) =
      some ((({ filled n with globalQueue := {} } : Shared Unit Unit).setJobs () {}).setCount ()
        (Int32.ofNat n - Int32.ofNat n), none, []) := by
  have hsize : tempJobCount (List.replicate n ()) = Int32.ofNat n := by
    rw [tempJobCount, List.length_replicate]
  have hcount : ((({ filled n with globalQueue := {} } : Shared Unit Unit).setJobs () {}).queues
      ()).jobCount = Int32.ofNat n := by
    rw [setJobs_jobCount]
    rfl
  have hnone : ¬((0 : ℕ) : ℤ) < (Int32.ofNat n).toInt := by omega
  simp only [Frame.exec, hsize, hcount, if_neg hnone, if_true]

/-- 2^31 jobs, popped as one batch from a queue that waits in the global queue: the
batch is dropped, and its queue looks settled. -/
theorem jobQueue_loses_batch :
    ¬∀ s : State (Fin 1) Unit Unit, system.Reachable Serves s → NothingLost s := by
  intro hlost
  have hstep : ∀ s : State (Fin 1) Unit Unit, Serves s (.step 0 0) := by
    intro _ _ _ heq
    cases heq
  have hfilled : system.Reachable Serves
      (({} : State (Fin 1) Unit Unit).put 0 (filled (2 ^ 31)) none []) := by
    refine (reachable_filled initial_empty (n := 2 ^ 31 - 1) (by decide)).mono ?_
    intro s e hpushes t c heq
    obtain ⟨q, job, rfl⟩ := hpushes t c heq
    rfl
  have hcall : (system : System (State (Fin 1) Unit Unit) _).next
      (({} : State (Fin 1) Unit Unit).put 0 (filled (2 ^ 31)) none [])
      (.call 0 .doGlobalQueueWork) =
        some (({} : State (Fin 1) Unit Unit).put 0 (filled (2 ^ 31)) none [.globalWork]) := by
    simp [system, State.next, State.enter, Thread.inClient, State.put, State.setThread]
  have hwork := hfilled.step (by rintro _ _ ⟨⟩; rfl) hcall
  have hpop := reachable_exec hstep (reachable_exec hstep (reachable_exec hstep hwork rfl) rfl) rfl
  have hrun := reachable_exec hstep hpop (exec_popAll_filled _ _ _)
  have hdone := reachable_exec hstep hrun (exec_runJobs_filled _ _ (by decide))
  have hidle := reachable_exec hstep (reachable_exec hstep hdone rfl) rfl
  have hexecuted := ((hlost _ hidle).settled (fun t => by cases Fin.fin_one_eq_zero t; rfl) rfl
    ()).2
  have hlength := congrArg List.length hexecuted
  change 0 = (List.replicate (2 ^ 31) ()).length at hlength
  rw [List.length_replicate] at hlength
  cases hlength

end FullBatch

end JobQueue

end ServerCore
