import Mathlib.Data.List.Nodup
import Mathlib.Tactic.Common

namespace Ndnfs

/-- A party that makes requests keeps them and their answers in the order of time. -/
structure Ledger (Request : Type) where
  requested : List Request
  answered : List Request
  deriving DecidableEq

namespace Ledger

variable {Request : Type}

def request (ledger : Ledger Request) (requests : List Request) : Ledger Request :=
  { ledger with requested := ledger.requested ++ requests }

def answer (ledger : Ledger Request) (request : Request) : Ledger Request :=
  { ledger with answered := ledger.answered ++ [request] }

@[simp] theorem requested_request (ledger : Ledger Request) (requests : List Request) :
    (ledger.request requests).requested = ledger.requested ++ requests := rfl

@[simp] theorem answered_request (ledger : Ledger Request) (requests : List Request) :
    (ledger.request requests).answered = ledger.answered := rfl

@[simp] theorem requested_answer (ledger : Ledger Request) (request : Request) :
    (ledger.answer request).requested = ledger.requested := rfl

@[simp] theorem answered_answer (ledger : Ledger Request) (request : Request) :
    (ledger.answer request).answered = ledger.answered ++ [request] := rfl

variable [DecidableEq Request] {ledger : Ledger Request} {item : Request}

/-- The request was made more often than it was answered. -/
def Outstanding (ledger : Ledger Request) (item : Request) : Prop :=
  ledger.answered.count item < ledger.requested.count item

instance (ledger : Ledger Request) (item : Request) : Decidable (ledger.Outstanding item) :=
  inferInstanceAs (Decidable (_ < _))

/-- When no request is made twice, those that have no answer are outstanding. -/
theorem outstanding_iff (once : ledger.requested.Nodup) :
    ledger.Outstanding item ↔ item ∈ ledger.requested ∧ item ∉ ledger.answered := by
  rw [← List.count_pos_iff, ← List.count_eq_zero, Outstanding]
  have made := List.nodup_iff_count_le_one.mp once item
  omega

/-- With one request more than answers, this request is the outstanding one. -/
theorem outstanding_last_iff {last : Request} (next : ledger.requested = ledger.answered ++ [last]) :
    ledger.Outstanding item ↔ item = last := by
  rw [Outstanding, next, List.count_append]
  by_cases same : item = last
  · subst same
    simp
  · simp [Ne.symm same, same]

/-- With all requests answered, none is outstanding. -/
theorem not_outstanding (done : ledger.requested = ledger.answered) (item : Request) :
    ¬ ledger.Outstanding item := by
  rw [Outstanding, done]
  exact Nat.lt_irrefl _

end Ledger

end Ndnfs
