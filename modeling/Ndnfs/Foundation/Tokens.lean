import Ndnfs.Foundation.Ensures
import Ndnfs.Foundation.Pool

namespace Ndnfs.Effect.Pool
open Program

variable {Id Task Request : Type} {Reply : Request → Type} {A Own Shared Event Mark : Type}
  [DecidableEq Id] {act : Handler Request Reply (Shared × Own)}
  {code : Task → Program Request Reply A} {initial : Task → Own} {outside : Shared → Event → Shared}

/-- Some tasks win only after a request that left the mark of their result. -/
structure Receipt (contract : Contract act code initial) (Mark : Type) where
  runs : Task → Prop
  wins : A → Prop
  allowed : (request : Request) → Reply request → Prop
  mark : (request : Request) → Reply request → Option Mark
  token : Task → A → Mark
  replies : ∀ request shared own, allowed request (act request (shared, own)).1
  needs_token : ∀ task, runs task →
    (code task).Ensures allowed mark fun marks value => wins value → token task value ∈ marks

namespace Receipt

variable {contract : Contract act code initial} (receipt : Receipt contract Mark)

/-- The thread has not got its token yet. -/
def Pending (thread : Thread Task Request Reply A Own) : Prop :=
  thread.program.Ensures receipt.allowed receipt.mark fun marks value =>
    receipt.wins value → receipt.token thread.task value ∈ marks

/-- The request gives the thread its token. -/
def Granted (shared : Shared) (thread : Thread Task Request Reply A Own) : Prop :=
  ∃ request next value, thread.program = .call request next ∧
    receipt.mark request (act request (shared, thread.own)).1 =
      some (receipt.token thread.task value)

/-- The thread has ended and says that it has won. -/
def Won (thread : Thread Task Request Reply A Own) : Prop :=
  receipt.runs thread.task ∧ ∃ value, thread.program.value? = some value ∧ receipt.wins value

variable {receipt} {thread : Thread Task Request Reply A Own}

theorem Pending.not_won (pending : receipt.Pending thread) : ¬ receipt.Won thread := by
  obtain ⟨task, program, own⟩ := thread
  rintro ⟨-, value, ended, wins⟩
  cases program with
  | ret other =>
      obtain rfl := Option.some.inj ended
      exact List.not_mem_nil (pending wins)
  | call request next => cases ended

/-- A thread stays pending until its request is granted. -/
theorem Pending.advance (pending : receipt.Pending thread) (shared : Shared) :
    receipt.Pending (advance act shared thread).2 ∨ receipt.Granted shared thread := by
  obtain ⟨task, program, own⟩ := thread
  cases program with
  | ret value => exact .inl pending
  | call request next =>
      by_cases granted :
        ∃ value, receipt.mark request (act request (shared, own)).1 = some (receipt.token task value)
      · obtain ⟨value, granted⟩ := granted
        exact .inr ⟨request, next, value, rfl, granted⟩
      · left
        apply (pending _ (receipt.replies request shared own)).mono
        intro marks value needs wins
        rcases List.mem_append.mp (needs wins) with here | later
        · exact absurd ⟨value, Option.mem_toList.mp here⟩ granted
        · exact later

end Receipt

/-- The token is granted only while a resource is free, and it takes the resource. -/
structure Race (contract : Contract act code initial) (Mark : Type) extends
    Receipt contract Mark where
  taken : Shared → Prop
  grants : ∀ task value request shared own, runs task → contract.permitted task request →
    mark request (act request (shared, own)).1 = some (token task value) →
      ¬ taken shared ∧ taken (act request (shared, own)).2.1

/-- With the token of a result a task gets done what the result says. -/
structure Promise (contract : Contract act code initial) (Mark : Type) extends
    Receipt contract Mark where
  good : Shared → Prop
  done : Task → A → Shared → Prop
  grants : ∀ task value request shared own, runs task → contract.permitted task request →
    good shared → mark request (act request (shared, own)).1 = some (token task value) →
      done task value (act request (shared, own)).2.1

section Runs

variable {contract : Contract act code initial} {race : Race contract Mark}
  {promise : Promise contract Mark} {winner : Option Id}
  {pool : Pool Id Shared (Thread Task Request Reply A Own)}

/-- All threads in the race but the winner are pending. -/
structure Race.Fair (race : Race contract Mark) (winner : Option Id)
    (pool : Pool Id Shared (Thread Task Request Reply A Own)) : Prop where
  taken : winner ≠ none → race.taken pool.shared
  others : ∀ id thread, pool.threads id = some thread → race.runs thread.task →
    winner ≠ some id → race.Pending thread

theorem Race.Fair.won_eq (fair : race.Fair winner pool) {id : Id}
    {thread : Thread Task Request Reply A Own} (found : pool.threads id = some thread)
    (won : race.Won thread) : winner = some id := by
  by_contra other
  exact (fair.others id thread found won.1 other).not_won won

/-- The thread has done what it will say, or it still needs the token for that. -/
def Promise.Settles (promise : Promise contract Mark) (shared : Shared)
    (thread : Thread Task Request Reply A Own) : Prop :=
  thread.program.Ensures promise.allowed promise.mark fun marks value => promise.wins value →
    promise.token thread.task value ∈ marks ∨ promise.done thread.task value shared

def Promise.Kept (promise : Promise contract Mark)
    (pool : Pool Id Shared (Thread Task Request Reply A Own)) : Prop :=
  ∀ id thread, pool.threads id = some thread → promise.runs thread.task →
    promise.Settles pool.shared thread

section Settles

variable {shared shared' : Shared} {thread : Thread Task Request Reply A Own}

theorem Promise.Settles.lasts (settles : promise.Settles shared thread)
    (lasts : ∀ value, promise.done thread.task value shared →
      promise.done thread.task value shared') : promise.Settles shared' thread :=
  settles.mono fun _ value claim wins => (claim wins).imp_right (lasts value)

/-- The token of the request does what it stands for. -/
theorem Promise.Settles.advance (settles : promise.Settles shared thread)
    (runs : promise.runs thread.task) (good : promise.good shared)
    (guards : ∀ request next, thread.program = .call request next →
      contract.permitted thread.task request)
    (lasts : ∀ value, promise.done thread.task value shared →
      promise.done thread.task value (advance act shared thread).1) :
    promise.Settles (advance act shared thread).1 (advance act shared thread).2 := by
  obtain ⟨task, program, own⟩ := thread
  cases program with
  | ret value => exact settles
  | call request next =>
      have permitted := guards request next rfl
      have rest := settles _ (promise.replies request shared own)
      refine rest.mono fun marks value claim wins => ?_
      rcases claim wins with token | done
      · rcases List.mem_append.mp token with here | later
        · right
          exact promise.grants task value request shared own runs permitted good
            (Option.mem_toList.mp here)
        · exact .inl later
      · exact .inr (lasts value done)

theorem Promise.Settles.done (settles : promise.Settles shared thread) {value : A}
    (ended : thread.program.value? = some value) (wins : promise.wins value) :
    promise.done thread.task value shared := by
  obtain ⟨task, program, own⟩ := thread
  cases program with
  | ret other =>
      obtain rfl := Option.some.inj ended
      exact (settles wins).resolve_left List.not_mem_nil
  | call request next => cases ended

end Settles

variable {expected : Id → Task → Prop} {allowed : Event → Prop} {turn : Turn Id Task Event}

/-- A turn makes at most one winner. -/
theorem Race.fair_step
    (stays : ∀ id task request shared own, expected id task → contract.linked task own →
      contract.permitted task request → race.taken shared →
        race.taken (act request (shared, own)).2.1)
    (events : ∀ event shared, allowed event → race.taken shared →
      race.taken (outside shared event))
    (sound : contract.Sound expected pool) (allows : turn.Allows expected allowed)
    (fair : race.Fair winner pool) :
    ∃ winner, race.Fair winner (step act code initial outside pool turn) := by
  have keeps : race.taken pool.shared → race.taken (step act code initial outside pool turn).shared :=
    Contract.keeps_step race.taken stays events sound allows
  rcases step_cases (rfl : step act code initial outside pool turn = _) with
    ⟨same, -⟩ | ⟨fresh, task, rfl, free, started⟩ | ⟨moved, old, rfl, found, moves⟩ |
      ⟨event, rfl, changed⟩
  · exact ⟨winner, by rwa [same]⟩
  · refine ⟨winner, fun some => keeps (fair.taken some), ?_⟩
    intro id thread here runs other
    rw [started, threads_place] at here
    split at here
    · obtain rfl := Option.some.inj here
      exact race.needs_token task runs
    · exact fair.others id thread here runs other
  · by_cases granted : race.runs old.task ∧ race.Granted pool.shared old
    · obtain ⟨runs, request, next, value, program, granted⟩ := granted
      obtain ⟨known, fits⟩ := sound moved old found
      have guards := fits.guards
      rw [program] at guards
      obtain ⟨free, taken⟩ := race.grants old.task value request pool.shared old.own runs guards.1 granted
      have none : winner = none := by
        by_contra some
        exact free (fair.taken some)
      refine ⟨some moved, fun _ => ?_, ?_⟩
      · rw [moves]
        simp only [place, Pool.advance, program]
        exact taken
      · intro id thread here runs other
        rw [moves, threads_place, if_neg fun same => other (congrArg some same.symm)] at here
        exact fair.others id thread here runs (by simp [none])
    · refine ⟨winner, fun some => keeps (fair.taken some), ?_⟩
      intro id thread here runs other
      rw [moves, threads_place] at here
      split at here
      · rename_i same
        obtain rfl := Option.some.inj here
        rw [Contract.task_advance] at runs
        exact ((fair.others moved old found runs (same ▸ other)).advance pool.shared).resolve_right
          fun marked => granted ⟨runs, marked⟩
      · exact fair.others id thread here runs other
  · refine ⟨winner, fun some => keeps (fair.taken some), ?_⟩
    intro id thread here runs other
    rw [changed] at here
    exact fair.others id thread here runs other

/-- In every interleaving at most one thread wins, and then the resource is taken. -/
theorem Race.oneWinner_run
    (stays : ∀ id task request shared own, expected id task → contract.linked task own →
      contract.permitted task request → race.taken shared →
        race.taken (act request (shared, own)).2.1)
    (events : ∀ event shared, allowed event → race.taken shared →
      race.taken (outside shared event))
    (sound : contract.Sound expected pool) (fair : race.Fair winner pool)
    {turns : List (Turn Id Task Event)} (allows : ∀ turn ∈ turns, turn.Allows expected allowed) :
    Run.Holds (step act code initial outside)
      (fun pool => ∀ id thread, pool.threads id = some thread → race.Won thread →
        race.taken pool.shared ∧ ∀ other thread', pool.threads other = some thread' →
          race.Won thread' → other = id) pool turns := by
  have preserved : ∀ (pool : Pool Id Shared (Thread Task Request Reply A Own))
      (turn : Turn Id Task Event),
      (contract.Sound expected pool ∧ ∃ winner, race.Fair winner pool) →
      turn.Allows expected allowed →
      contract.Sound expected (step act code initial outside pool turn) ∧
        ∃ winner, race.Fair winner (step act code initial outside pool turn) := by
    intro pool turn both allows
    obtain ⟨sound, winner, fair⟩ := both
    exact ⟨Contract.sound_step sound allows, fair_step stays events sound allows fair⟩
  apply (Run.invariant preserved (Run.steps_of_forall _ allows) ⟨sound, winner, fair⟩).imp
  intro pool both id thread found won
  obtain ⟨-, winner, fair⟩ := both
  have here := fair.won_eq found won
  refine ⟨fair.taken (by simp [here]), fun other thread' found' won' => ?_⟩
  exact Option.some.inj ((fair.won_eq found' won').symm.trans here)

/-- What one thread has got done is not undone by the others. -/
theorem Promise.kept_step
    (stays : ∀ id task request shared own, expected id task → contract.linked task own →
      contract.permitted task request → promise.good shared →
        promise.good (act request (shared, own)).2.1 ∧
          ∀ other value, promise.done other value shared →
            promise.done other value (act request (shared, own)).2.1)
    (events : ∀ event shared, allowed event → promise.good shared →
      promise.good (outside shared event) ∧
        ∀ other value, promise.done other value shared →
          promise.done other value (outside shared event))
    (sound : contract.Sound expected pool) (allows : turn.Allows expected allowed)
    (good : promise.good pool.shared) (kept : promise.Kept pool) :
    promise.good (step act code initial outside pool turn).shared ∧
      promise.Kept (step act code initial outside pool turn) := by
  have good' : promise.good (step act code initial outside pool turn).shared :=
    Contract.keeps_step promise.good
      (fun id task request shared own known linked permitted good =>
        (stays id task request shared own known linked permitted good).1)
      (fun event shared permitted good => (events event shared permitted good).1)
      sound allows good
  have lasts (task : Task) (value : A) (done : promise.done task value pool.shared) :
      promise.done task value (step act code initial outside pool turn).shared :=
    (Contract.keeps_step (fun shared => promise.good shared ∧ promise.done task value shared)
      (fun id other request shared own known linked permitted holds =>
        (stays id other request shared own known linked permitted holds.1).imp_right
          fun stable => stable task value holds.2)
      (fun event shared permitted holds =>
        (events event shared permitted holds.1).imp_right fun stable => stable task value holds.2)
      sound allows ⟨good, done⟩).2
  refine ⟨good', fun id thread here runs => ?_⟩
  rcases step_cases (rfl : step act code initial outside pool turn = _) with
    ⟨same, -⟩ | ⟨fresh, task, rfl, free, started⟩ | ⟨moved, old, rfl, found, moves⟩ |
      ⟨event, rfl, changed⟩
  · rw [same] at here
    exact (kept id thread here runs).lasts (lasts thread.task)
  · rw [started, threads_place] at here
    split at here
    · obtain rfl := Option.some.inj here
      exact (promise.needs_token task runs).mono fun _ _ claim wins => .inl (claim wins)
    · exact (kept id thread here runs).lasts (lasts thread.task)
  · rw [moves, threads_place] at here
    split at here
    · obtain rfl := Option.some.inj here
      rw [Contract.task_advance] at runs
      have guards := (sound moved old found).2.guards
      have next := lasts old.task
      rw [moves] at next ⊢
      refine (kept moved old found runs).advance runs good (fun request rest program => ?_) next
      rw [program] at guards
      exact guards.1
    · exact (kept id thread here runs).lasts (lasts thread.task)
  · rw [changed] at here
    exact (kept id thread here runs).lasts (lasts thread.task)

/-- In every interleaving what the winners have got done stays done. -/
theorem Promise.kept_run
    (stays : ∀ id task request shared own, expected id task → contract.linked task own →
      contract.permitted task request → promise.good shared →
        promise.good (act request (shared, own)).2.1 ∧
          ∀ other value, promise.done other value shared →
            promise.done other value (act request (shared, own)).2.1)
    (events : ∀ event shared, allowed event → promise.good shared →
      promise.good (outside shared event) ∧
        ∀ other value, promise.done other value shared →
          promise.done other value (outside shared event))
    (sound : contract.Sound expected pool) (good : promise.good pool.shared)
    (kept : promise.Kept pool) {turns : List (Turn Id Task Event)}
    (allows : ∀ turn ∈ turns, turn.Allows expected allowed) :
    Run.Holds (step act code initial outside)
      (fun pool => promise.good pool.shared ∧ ∀ id thread, pool.threads id = some thread →
        promise.runs thread.task → ∀ value, thread.program.value? = some value →
          promise.wins value →
            expected id thread.task ∧ promise.done thread.task value pool.shared) pool turns := by
  have preserved : ∀ (pool : Pool Id Shared (Thread Task Request Reply A Own))
      (turn : Turn Id Task Event),
      (contract.Sound expected pool ∧ promise.good pool.shared ∧ promise.Kept pool) →
      turn.Allows expected allowed →
      contract.Sound expected (step act code initial outside pool turn) ∧
        promise.good (step act code initial outside pool turn).shared ∧
          promise.Kept (step act code initial outside pool turn) := by
    intro pool turn all allows
    obtain ⟨sound, good, kept⟩ := all
    exact ⟨Contract.sound_step sound allows, kept_step stays events sound allows good kept⟩
  apply (Run.invariant preserved (Run.steps_of_forall _ allows) ⟨sound, good, kept⟩).imp
  intro pool all
  obtain ⟨sound, good, kept⟩ := all
  exact ⟨good, fun id thread found runs value ended wins =>
    ⟨(sound id thread found).1, (kept id thread found runs).done ended wins⟩⟩

end Runs

end Ndnfs.Effect.Pool
