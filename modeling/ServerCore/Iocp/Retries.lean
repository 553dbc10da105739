import Mathlib.Data.Set.Finite.Basic
import Mathlib.Order.Interval.Finset.Nat
import Mathlib.Data.Set.Finite.Lattice
import ServerCore.Iocp.Basic

/-!
# The retries of `RegisterAccept`

A rejected `AcceptEx` makes `RegisterAccept` call itself with a new session. Nothing
counts the calls or looks at the socket, so an environment that rejects every attempt, as
the closed listening socket does, is never left. `CreateSession` returns null when the
new socket cannot be registered, and the dereference of null ends the process instead.
-/

namespace ServerCore

namespace Iocp

open Receive (CallResult wsaIoPending)

/-- What one call of `RegisterAccept` meets: the session that the factory makes, whether
`RegisterSockToIOCP` succeeds, and the result of `AcceptEx`. -/
structure Outcome (S : Type) where
  factory : Option S
  registered : Bool
  acceptEx : CallResult

/-- `Service::CreateSession`. A null session of the factory is dereferenced there, as the
null answer is by `RegisterAccept`. -/
def Outcome.createSession {S : Type} (outcome : Outcome S) : Option S :=
  if outcome.registered then outcome.factory else none

def Outcome.attempt {S : Type} (outcome : Outcome S) : Attempt S :=
  { session := outcome.createSession, result := outcome.acceptEx }

variable {S L Buf : Type} [DecidableEq S] [DecidableEq L]

section Definitions

variable (w : World S L Buf) (acceptEvent : AcceptEvent L) (outcomes : ℕ → Outcome S)

/-- The call is still running after `n` attempts. -/
def Retries (n : ℕ) : Prop :=
  World.registerAccept acceptEvent ((List.range n).map fun i => (outcomes i).attempt) w = none

/-- The attempts that reach `AcceptEx`. -/
def acceptExCalls : Set ℕ :=
  {n | Retries w acceptEvent outcomes n ∧ (outcomes n).createSession.isSome}

/-- The attempts whose factory makes a session. -/
def createdSessions : Set ℕ :=
  {n | Retries w acceptEvent outcomes n ∧ (outcomes n).factory.isSome}

end Definitions

/-- The attempt neither ends the call nor the process. -/
def Outcome.Fails (outcome : Outcome S) : Prop :=
  outcome.createSession.isSome ∧ outcome.acceptEx.posted = false

theorem registerAccept_eq_none {acceptEvent : AcceptEvent L} {attempts : List (Attempt S)}
    {w : World S L Buf} : World.registerAccept acceptEvent attempts w = none ↔
      ∀ attempt ∈ attempts, attempt.session.isSome ∧ attempt.result.posted = false := by
  induction attempts generalizing w with
  | nil => exact iff_of_true rfl fun _ h => absurd h List.not_mem_nil
  | cons attempt rest ih =>
      rw [World.registerAccept, List.forall_mem_cons]
      split
      next hnull =>
        rw [hnull]
        exact iff_of_false nofun fun h => absurd h.1.1 Bool.false_ne_true
      next session hsession =>
        rw [hsession]
        simp only [Option.isSome_some, true_and]
        split
        next hposted =>
          rw [hposted]
          exact iff_of_false nofun fun h => Bool.false_ne_true h.1.symm
        next hrejected =>
          rw [ih, Bool.eq_false_of_not_eq_true hrejected]
          exact ⟨fun h => ⟨rfl, h⟩, fun h => h.2⟩

variable {w : World S L Buf} {acceptEvent : AcceptEvent L} {outcomes : ℕ → Outcome S}

theorem retries_iff {n : ℕ} :
    Retries w acceptEvent outcomes n ↔ ∀ i < n, (outcomes i).Fails := by
  rw [Retries, registerAccept_eq_none, List.forall_mem_map]
  exact forall_congr' fun i => by rw [List.mem_range]; rfl

/-- The call ends at the first attempt that does not fail. -/
theorem retries_le {n m : ℕ} (h : Retries w acceptEvent outcomes m)
    (hends : ¬(outcomes n).Fails) : m ≤ n :=
  Nat.le_of_not_lt fun hlt => hends (retries_iff.mp h n hlt)

/-- One call of `RegisterAccept` makes finitely many attempts and sessions exactly when
some attempt is accepted or ends the process. -/
theorem registerAccept_finite_iff (w : World S L Buf) (acceptEvent : AcceptEvent L)
    (outcomes : ℕ → Outcome S) :
    ((acceptExCalls w acceptEvent outcomes).Finite ∧
      (createdSessions w acceptEvent outcomes).Finite) ↔
      ∃ n, (outcomes n).createSession = none ∨ (outcomes n).acceptEx.posted = true := by
  have hends : (∃ n, (outcomes n).createSession = none ∨ (outcomes n).acceptEx.posted = true) ↔
      ∃ n, ¬(outcomes n).Fails := by
    refine exists_congr fun n => ?_
    rw [Outcome.Fails, Classical.not_and_iff_not_or_not, Option.not_isSome_iff_eq_none,
      Bool.not_eq_false]
  rw [hends]
  constructor
  · rintro ⟨hcalls, -⟩
    by_contra hall
    have hfails : ∀ n, (outcomes n).Fails := fun n => not_not.mp fun hn => hall ⟨n, hn⟩
    have huniv : acceptExCalls w acceptEvent outcomes = Set.univ :=
      Set.eq_univ_of_forall fun n => ⟨retries_iff.mpr fun i _ => hfails i, (hfails n).1⟩
    rw [huniv] at hcalls
    exact Set.infinite_univ hcalls
  · rintro ⟨n, hn⟩
    have hbelow : {m | Retries w acceptEvent outcomes m} ⊆ Set.Iic n :=
      fun m hm => retries_le hm hn
    have hfinite := (Set.finite_Iic n).subset hbelow
    exact ⟨hfinite.subset fun m hm => hm.1, hfinite.subset fun m hm => hm.1⟩

/-- The listening socket has been closed: every `AcceptEx` fails with `WSAENOTSOCK`. -/
theorem registerAccept_never_returns :
    ¬∀ (w : World (Fin 1) (Fin 1) Unit) (acceptEvent : AcceptEvent (Fin 1))
      (outcomes : ℕ → Outcome (Fin 1)),
      (acceptExCalls w acceptEvent outcomes).Finite ∧
        (createdSessions w acceptEvent outcomes).Finite := by
  intro h
  have hcalls := (h (newWorld .server) ⟨0, 0⟩ fun _ => ⟨some 0, true, ⟨true, 10038⟩⟩).1
  refine Set.infinite_univ (hcalls.subset fun n _ => ⟨retries_iff.mpr fun _ _ => ?_, rfl⟩)
  exact ⟨rfl, rfl⟩

end Iocp

end ServerCore
