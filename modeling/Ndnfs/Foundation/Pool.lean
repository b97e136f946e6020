import Ndnfs.Foundation.Guards
import Ndnfs.Foundation.Noninterference

namespace Ndnfs.Effect
open Program

/-- A thread has a task, the rest of its program and a state of its own. -/
structure Thread (Task Request : Type) (Reply : Request → Type) (A Own : Type) where
  task : Task
  program : Program Request Reply A
  own : Own

/-- The threads share a state. -/
structure Pool (Id Shared Thread : Type) where
  shared : Shared
  threads : Id → Option Thread

/-- A thread starts or makes its next request, or something outside changes the shared state. -/
inductive Turn (Id Task Event : Type) where
  | start (id : Id) (task : Task)
  | advance (id : Id)
  | outside (event : Event)

/-- The turn starts or advances one of these threads. -/
def Turn.Concerns {Id Task Event : Type} (mine : Id → Prop) : Turn Id Task Event → Prop
  | .start id _ | .advance id => mine id
  | .outside _ => False

instance {Id Task Event : Type} (mine : Id → Prop) [DecidablePred mine] :
    (turn : Turn Id Task Event) → Decidable (turn.Concerns mine)
  | .start id _ | .advance id => inferInstanceAs (Decidable (mine id))
  | .outside _ => .isFalse id

/-- The turn starts an expected task, or the event is an allowed one. -/
def Turn.Allows {Id Task Event : Type} (expected : Id → Task → Prop) (allowed : Event → Prop) :
    Turn Id Task Event → Prop
  | .start id task => expected id task
  | .advance _ => True
  | .outside event => allowed event

instance {Id Task Event : Type} (expected : Id → Task → Prop) (allowed : Event → Prop)
    [∀ id, DecidablePred (expected id)] [DecidablePred allowed] :
    (turn : Turn Id Task Event) → Decidable (turn.Allows expected allowed)
  | .start id task => inferInstanceAs (Decidable (expected id task))
  | .advance _ => .isTrue trivial
  | .outside event => inferInstanceAs (Decidable (allowed event))

namespace Pool

variable {Id Task Request : Type} {Reply : Request → Type} {A Own Shared Event : Type}
  [DecidableEq Id] (act : Handler Request Reply (Shared × Own))
  (code : Task → Program Request Reply A) (initial : Task → Own) (outside : Shared → Event → Shared)

/-- An ended thread makes no more requests. -/
def advance (shared : Shared) (thread : Thread Task Request Reply A Own) :
    Shared × Thread Task Request Reply A Own :=
  match thread.program with
  | .ret _ => (shared, thread)
  | .call request next =>
      let (reply, after) := act request (shared, thread.own)
      (after.1, { thread with program := next reply, own := after.2 })

/-- The thread stands under the id. -/
def place {Thread : Type} (pool : Pool Id Shared Thread) (id : Id) (thread : Thread) :
    Pool Id Shared Thread :=
  { pool with threads := fun other => if other = id then some thread else pool.threads other }

/-- An id is not used again. A thread that is never advanced again was stopped where it stands. -/
def step (pool : Pool Id Shared (Thread Task Request Reply A Own)) :
    Turn Id Task Event → Pool Id Shared (Thread Task Request Reply A Own)
  | .start id task =>
      match pool.threads id with
      | none => pool.place id ⟨task, code task, initial task⟩
      | some _ => pool
  | .advance id =>
      match pool.threads id with
      | none => pool
      | some thread =>
          let (shared, thread) := advance act pool.shared thread
          place { pool with shared } id thread
  | .outside event => { pool with shared := outside pool.shared event }

/-- The value of a thread that has ended. -/
def answer? (pool : Pool Id Shared (Thread Task Request Reply A Own)) (id : Id) : Option A :=
  (pool.threads id).bind fun thread => thread.program.value?

variable {act code initial outside}

section Cases

theorem threads_place {Thread : Type} (pool : Pool Id Shared Thread) (id other : Id)
    (thread : Thread) : (pool.place id thread).threads other =
      if other = id then some thread else pool.threads other := rfl

variable {pool pool' : Pool Id Shared (Thread Task Request Reply A Own)}
  {turn : Turn Id Task Event}

/-- This is all that a turn can do. -/
theorem step_cases (here : step act code initial outside pool turn = pool') :
    (pool' = pool ∧ ∀ event, turn ≠ .outside event) ∨
    (∃ id task, turn = .start id task ∧ pool.threads id = none ∧
      pool' = pool.place id ⟨task, code task, initial task⟩) ∨
    (∃ id thread, turn = .advance id ∧ pool.threads id = some thread ∧
      pool' = place { pool with shared := (advance act pool.shared thread).1 } id
        (advance act pool.shared thread).2) ∨
    ∃ event, turn = .outside event ∧ pool' = { pool with shared := outside pool.shared event } := by
  subst here
  cases turn with
  | start id task =>
      cases found : pool.threads id with
      | none => exact .inr (.inl ⟨id, task, rfl, found, by simp only [step, found]⟩)
      | some thread => exact .inl ⟨by simp only [step, found], by simp⟩
  | advance id =>
      cases found : pool.threads id with
      | none => exact .inl ⟨by simp only [step, found], by simp⟩
      | some thread =>
          exact .inr (.inr (.inl ⟨id, thread, rfl, found, by simp only [step, found]⟩))
  | outside event => exact .inr (.inr (.inr ⟨event, rfl, rfl⟩))

end Cases

/-- What is known of the own state of a thread, of the replies that it gets and of its requests. -/
structure Contract (act : Handler Request Reply (Shared × Own))
    (code : Task → Program Request Reply A) (initial : Task → Own) where
  linked : Task → Own → Prop
  possible : Task → (request : Request) → Reply request → Prop
  permitted : Task → Request → Prop
  linked_initial : ∀ task, linked task (initial task)
  gives : ∀ task request shared own, linked task own →
    possible task request (act request (shared, own)).1 ∧
      linked task (act request (shared, own)).2.2
  code_guards : ∀ task, (code task).Guards (possible task) (permitted task) fun _ => True

namespace Contract

variable (contract : Contract act code initial)

/-- The rest of the thread keeps to the contract. -/
structure Fits (thread : Thread Task Request Reply A Own) : Prop where
  linked : contract.linked thread.task thread.own
  guards : thread.program.Guards (contract.possible thread.task) (contract.permitted thread.task)
    fun _ => True

/-- All threads keep to the contract, and their tasks are among the expected ones. -/
def Sound (expected : Id → Task → Prop)
    (pool : Pool Id Shared (Thread Task Request Reply A Own)) : Prop :=
  ∀ id thread, pool.threads id = some thread → expected id thread.task ∧ contract.Fits thread

variable {contract} {expected : Id → Task → Prop} {allowed : Event → Prop}
  {pool : Pool Id Shared (Thread Task Request Reply A Own)} {turn : Turn Id Task Event}

theorem task_advance (shared : Shared) (thread : Thread Task Request Reply A Own) :
    (advance act shared thread).2.task = thread.task := by
  unfold advance
  split <;> rfl

theorem fits_advance {thread : Thread Task Request Reply A Own} (fits : contract.Fits thread)
    (shared : Shared) : contract.Fits (advance act shared thread).2 := by
  obtain ⟨task, program, own⟩ := thread
  cases program with
  | ret value => exact fits
  | call request next =>
      obtain ⟨came, later⟩ := contract.gives task request shared own fits.linked
      exact ⟨later, fits.guards.2 _ came⟩

theorem sound_step (sound : contract.Sound expected pool)
    (allows : Turn.Allows expected allowed turn) :
    contract.Sound expected (step act code initial outside pool turn) := by
  intro id thread here
  rcases step_cases (rfl : step act code initial outside pool turn = _) with
    ⟨same, -⟩ | ⟨fresh, task, rfl, free, started⟩ | ⟨moved, old, rfl, found, moves⟩ |
      ⟨event, rfl, changed⟩
  · exact sound id thread (same ▸ here)
  · rw [started, threads_place] at here
    split at here
    · rename_i same
      obtain rfl := Option.some.inj here
      exact ⟨same ▸ allows, contract.linked_initial task, contract.code_guards task⟩
    · exact sound id thread here
  · rw [moves, threads_place] at here
    split at here
    · rename_i same
      obtain rfl := Option.some.inj here
      obtain ⟨known, fits⟩ := sound moved old found
      rw [task_advance, same]
      exact ⟨known, fits_advance fits pool.shared⟩
    · exact sound id thread here
  · exact sound id thread (by rwa [changed] at here)

/-- A property that each permitted request and each allowed event keeps is kept by every turn. -/
theorem keeps_step (property : Shared → Prop)
    (requests : ∀ id task request shared own, expected id task → contract.linked task own →
      contract.permitted task request → property shared →
        property (act request (shared, own)).2.1)
    (events : ∀ event shared, allowed event → property shared → property (outside shared event))
    (sound : contract.Sound expected pool) (allows : Turn.Allows expected allowed turn)
    (holds : property pool.shared) : property (step act code initial outside pool turn).shared := by
  rcases step_cases (rfl : step act code initial outside pool turn = _) with
    ⟨same, -⟩ | ⟨fresh, task, rfl, free, started⟩ | ⟨moved, old, rfl, found, moves⟩ |
      ⟨event, rfl, changed⟩
  · rw [same]
    exact holds
  · rw [started]
    exact holds
  · rw [moves]
    obtain ⟨known, fits⟩ := sound moved old found
    obtain ⟨task, program, own⟩ := old
    cases program with
    | ret value => exact holds
    | call request next =>
        exact requests moved task request pool.shared own known fits.linked fits.guards.1 holds
  · rw [changed]
    exact events event pool.shared allows holds

/-- In every interleaving the property holds all the time. -/
theorem keeps_run (property : Shared → Prop)
    (requests : ∀ id task request shared own, expected id task → contract.linked task own →
      contract.permitted task request → property shared →
        property (act request (shared, own)).2.1)
    (events : ∀ event shared, allowed event → property shared → property (outside shared event))
    (sound : contract.Sound expected pool) (holds : property pool.shared)
    {turns : List (Turn Id Task Event)}
    (allows : ∀ turn ∈ turns, Turn.Allows expected allowed turn) :
    Run.Holds (step act code initial outside)
      (fun pool => contract.Sound expected pool ∧ property pool.shared) pool turns :=
  Run.invariant (fun _ _ both allows => ⟨sound_step both.1 allows,
    keeps_step property requests events both.1 allows both.2⟩) (Run.steps_of_forall _ allows) ⟨sound, holds⟩

section Unwinding

variable {mine : Id → Prop} {related : Shared → Shared → Prop}
  {pool' : Pool Id Shared (Thread Task Request Reply A Own)}

/-- The party sees the same state and has the same threads. -/
structure Alike (mine : Id → Prop) (related : Shared → Shared → Prop)
    (pool pool' : Pool Id Shared (Thread Task Request Reply A Own)) : Prop where
  shared : related pool.shared pool'.shared
  threads : ∀ id, mine id → pool.threads id = pool'.threads id

/-- A request of the party looks the same in related states. -/
def Sees (act : Handler Request Reply (Shared × Own)) (related : Shared → Shared → Prop)
    (request : Request) (own : Own) : Prop :=
  ∀ shared shared', related shared shared' →
    (act request (shared, own)).1 = (act request (shared', own)).1 ∧
      (act request (shared, own)).2.2 = (act request (shared', own)).2.2 ∧
        related (act request (shared, own)).2.1 (act request (shared', own)).2.1

theorem Alike.place (alike : Alike mine related pool pool') (id : Id)
    (thread : Thread Task Request Reply A Own) :
    Alike mine related (pool.place id thread) (pool'.place id thread) := by
  refine ⟨alike.shared, fun other own => ?_⟩
  rw [threads_place, threads_place, alike.threads other own]

/-- A thread of another party is not seen. -/
theorem Alike.place_other (alike : Alike mine related pool pool') {id : Id} (other : ¬ mine id)
    (thread : Thread Task Request Reply A Own) : Alike mine related (pool.place id thread) pool' := by
  refine ⟨alike.shared, fun own here => ?_⟩
  rw [threads_place, if_neg, alike.threads own here]
  rintro rfl
  exact other here

/-- A turn of the party leads from alike pools to alike pools. -/
theorem alike_own
    (sees : ∀ id task request own, mine id → expected id task → contract.linked task own →
      contract.permitted task request → Sees act related request own)
    (sound : contract.Sound expected pool) (alike : Alike mine related pool pool')
    (turn : Turn Id Task Event) (own : turn.Concerns mine) :
    Alike mine related (step act code initial outside pool turn) (step act code initial outside pool' turn) := by
  cases turn with
  | start id task =>
      have same := alike.threads id ‹_›
      unfold step
      dsimp only
      rw [← same]
      cases pool.threads id with
      | none => exact alike.place id _
      | some thread => exact alike
  | advance id =>
      have same := alike.threads id ‹_›
      unfold step
      dsimp only
      rw [← same]
      cases found : pool.threads id with
      | none => exact alike
      | some thread =>
          obtain ⟨known, fits⟩ := sound id thread found
          obtain ⟨task, program, state⟩ := thread
          cases program with
          | ret value => exact alike.place id _
          | call request next =>
              obtain ⟨reply, after, kept⟩ := sees id task request state ‹_› known fits.linked
                fits.guards.1 pool.shared pool'.shared alike.shared
              simp only [advance]
              rw [reply, after]
              have alike' : Alike mine related
                  { pool with shared := (act request (pool.shared, state)).2.1 }
                  { pool' with shared := (act request (pool'.shared, state)).2.1 } :=
                ⟨kept, alike.threads⟩
              exact alike'.place id _
  | outside event => exact own.elim

/-- A turn of another party changes nothing that the party sees. -/
theorem alike_other
    (unseen : ∀ id task request shared shared' own, ¬ mine id → expected id task →
      contract.linked task own → contract.permitted task request → related shared shared' →
        related (act request (shared, own)).2.1 shared')
    (events : ∀ event shared shared', allowed event → related shared shared' →
      related (outside shared event) shared')
    (sound : contract.Sound expected pool) (allows : Turn.Allows expected allowed turn)
    (alike : Alike mine related pool pool') (other : ¬ turn.Concerns mine) :
    Alike mine related (step act code initial outside pool turn) pool' := by
  rcases step_cases (rfl : step act code initial outside pool turn = _) with
    ⟨same, -⟩ | ⟨fresh, task, rfl, free, started⟩ | ⟨moved, old, rfl, found, moves⟩ |
      ⟨event, rfl, changed⟩
  · rw [same]
    exact alike
  · rw [started]
    exact alike.place_other other _
  · rw [moves]
    obtain ⟨known, fits⟩ := sound moved old found
    obtain ⟨task, program, own⟩ := old
    cases program with
    | ret value => exact alike.place_other other _
    | call request next =>
        have alike' : Alike mine related
            { pool with shared := (act request (pool.shared, own)).2.1 } pool' :=
          ⟨unseen moved task request pool.shared pool'.shared own other known fits.linked
            fits.guards.1 alike.shared, alike.threads⟩
        exact alike'.place_other other _
  · rw [changed]
    exact ⟨events event pool.shared pool'.shared allows alike.shared, alike.threads⟩

/-- The threads of the party run as they do without all the others. -/
theorem alike_run [DecidablePred mine]
    (sees : ∀ id task request own, mine id → expected id task → contract.linked task own →
      contract.permitted task request → Sees act related request own)
    (unseen : ∀ id task request shared shared' own, ¬ mine id → expected id task →
      contract.linked task own → contract.permitted task request → related shared shared' →
        related (act request (shared, own)).2.1 shared')
    (events : ∀ event shared shared', allowed event → related shared shared' →
      related (outside shared event) shared')
    (sound : contract.Sound expected pool) (alike : Alike mine related pool pool')
    {turns : List (Turn Id Task Event)}
    (allows : ∀ turn ∈ turns, Turn.Allows expected allowed turn) :
    Alike mine related (Run.after (step act code initial outside) pool turns)
      (Run.after (step act code initial outside) pool'
        (turns.filter fun turn => turn.Concerns mine)) := by
  have unwinding : Run.Unwinding (step act code initial outside) (Turn.Concerns mine)
      (Turn.Allows expected allowed)
      (fun pool pool' => contract.Sound expected pool ∧ Alike mine related pool pool') := by
    constructor
    · rintro pool pool' turn ⟨sound, alike⟩ own allows
      exact ⟨sound_step sound allows, alike_own sees sound alike turn own⟩
    · rintro pool pool' turn ⟨sound, alike⟩ other allows
      exact ⟨sound_step sound allows, alike_other unseen events sound allows alike other⟩
  exact (unwinding.run ⟨sound, alike⟩ allows).2

end Unwinding

end Contract

end Pool

end Ndnfs.Effect
