import Mathlib.Data.Fintype.Sum
import Mathlib.Tactic.DeriveFintype
import PconTng.Foundations.Semaphore

/-!
# The lock on shared memory

The daemon `Dcon`, any number of terminals `Pcon` and any number of requests served by `Scon` share
the semaphore of `ipc.c`. Each program starts with `ipc_sem_init`, which creates the semaphore set
and stores 1 in it, also when other programs are running, and then locks it to open and map the
shared file. `Next` follows the control flow of the three `main` routines and of the routines they
call, as far as the semaphore and the ends of the program are concerned.

Three critical sections have an end of the program inside: the opening of the file (`ipc_open`
and `ipc_map` exit on an error), `update_relays` (`logit` exits when the log cannot be opened) and
the storing of a reading by `Scon`, which returns when it cannot get the time.
-/

namespace PconTng.Ipc

open Semaphore

inductive Program
  | dcon | pcon | scon
  deriving DecidableEq

/-- Where a process is. -/
inductive Loc
  /-- in `main`, before `ipc_sem_init` -/
  | entry (p : Program)
  /-- in `ipc_sem_init`, after `semget` -/
  | created (p : Program)
  | initialised (p : Program)
  /-- opening and mapping the shared file, locked -/
  | mapping (p : Program)
  | mapped (p : Program)
  /-- `Dcon` writing the configuration of a new file, locked -/
  | configuring
  /-- the main loop of `Dcon` -/
  | loop
  /-- `Dcon` clearing `force_update`, locked -/
  | clearing
  /-- `Dcon` between clearing `force_update` and `update_relays` -/
  | forced
  /-- `Dcon` in `update_relays`, locked -/
  | updating
  /-- `Pcon` loading the working schedule, locked -/
  | loading
  /-- the main loop of `Pcon` -/
  | prompt
  /-- `Pcon` in a command that uses shared memory, locked -/
  | command
  /-- `Scon` storing a reading, locked -/
  | storing
  /-- `Scon` writing the reading to its files -/
  | logging

/-- The locations between a lock and the unlock that follows it. -/
def inside : Loc → Prop
  | .mapping _ | .configuring | .clearing | .updating | .loading | .command | .storing => True
  | _ => False

/-- The control flow of the programs. A program that ends stays where it is. -/
inductive Next : Loc → Event → Loc → Prop
  -- the start-up of every program
  | semget (p : Program) : Next (.entry p) .create (.created p)
  | semctl (p : Program) : Next (.created p) .setVal (.initialised p)
  | lockFile (p : Program) : Next (.initialised p) .acquire (.mapping p)
  | freeFile (p : Program) : Next (.mapping p) .release (.mapped p)
  | failEntry (p : Program) : Next (.entry p) .exit (.entry p)
  | failCreated (p : Program) : Next (.created p) .exit (.created p)
  | failInitialised (p : Program) : Next (.initialised p) .exit (.initialised p)
  | failMapping (p : Program) : Next (.mapping p) .exit (.mapping p)
  | failMapped (p : Program) : Next (.mapped p) .exit (.mapped p)
  -- Dcon
  | lockConfig : Next (.mapped .dcon) .acquire .configuring
  | freeConfig : Next .configuring .release .loop
  | fileFound : Next (.mapped .dcon) .work .loop
  | heartBeat : Next .loop .work .loop
  | lockClear : Next .loop .acquire .clearing
  | freeClear : Next .clearing .release .forced
  | lockForced : Next .forced .acquire .updating
  | lockTimed : Next .loop .acquire .updating
  | freeUpdate : Next .updating .release .loop
  | failLoop : Next .loop .exit .loop
  | failForced : Next .forced .exit .forced
  | failUpdating : Next .updating .exit .updating
  -- Pcon
  | lockLoad : Next (.mapped .pcon) .acquire .loading
  | freeLoad : Next .loading .release .prompt
  | token : Next .prompt .work .prompt
  | lockCommand : Next .prompt .acquire .command
  | freeCommand : Next .command .release .prompt
  | quit : Next .prompt .exit .prompt
  -- Scon
  | lockStore : Next (.mapped .scon) .acquire .storing
  | freeStore : Next .storing .release .logging
  | failStoring : Next .storing .exit .storing
  | finish : Next .logging .exit .logging

/-- A program locks only outside its critical sections and unlocks only inside. -/
def flow : Flow Loc where
  next := Next
  inside := inside
  acquire_enters h := by cases h <;> simp [inside]
  release_leaves h := by cases h <;> simp [inside]
  keeps h ha hr := by cases h <;> simp_all [inside]

/-! ## Any number of processes -/

/-- The daemon, `n` terminals and `m` requests. -/
inductive Proc (n m : ℕ)
  | dcon
  | pcon (i : Fin n)
  | scon (i : Fin m)
  deriving DecidableEq, Fintype

variable {n m : ℕ}

def start : Proc n m → Loc
  | .dcon => .entry .dcon
  | .pcon _ => .entry .pcon
  | .scon _ => .entry .scon

theorem not_inside_start (p : Proc n m) : ¬ flow.inside (start p) := by
  cases p <;> exact id

/-- **Mutual exclusion.** From the first `SETVAL` on the value of the semaphore and the number of
processes between a lock and its unlock add up to one at every state of a run, no two processes are
in a critical section and no process has ended in one, exactly if in no step of the run the value
is set while a process holds the lock and no process ends while it holds it. -/
theorem exclusive_run_iff {tr : List (State (Proc n m) Loc × (Proc n m × Event))}
    {t : State (Proc n m) Loc} (h : Path (Step flow) (initial start) tr t) :
    (∀ x ∈ tr, Orderly x.1 x.2) ↔ Path.Forall Exclusive tr t :=
  exclusive_iff not_inside_start h

/-- The daemon updates the relays and a terminal loads the schedule, one after the other. The
terminal starts while the lock is free. -/
theorem exclusive_run_turns : ∃ (tr : List (State (Proc 1 0) Loc × (Proc 1 0 × Event)))
    (t : State (Proc 1 0) Loc), Path (Step flow) (initial start) tr t ∧ tr.length = 12 ∧
      t.loc .dcon = .loop ∧ t.loc (.pcon 0) = .loading ∧ Path.Forall Exclusive tr t := by
  have hrun : Path (Step flow) (initial (start (n := 1) (m := 0))) _ _ :=
    .cons (.create (p := Proc.dcon) rfl (.semget .dcon)) <|
    .cons (.setVal (p := Proc.dcon) rfl (.semctl .dcon) (by decide)) <|
    .cons (.acquire (p := Proc.dcon) rfl (.lockFile .dcon) rfl) <|
    .cons (.release (p := Proc.dcon) rfl (.freeFile .dcon) rfl) <|
    .cons (.create (p := Proc.pcon (0 : Fin 1)) rfl (.semget .pcon)) <|
    .cons (.setVal (p := Proc.pcon (0 : Fin 1)) rfl (.semctl .pcon) (by decide)) <|
    .cons (.acquire (p := Proc.pcon (0 : Fin 1)) rfl (.lockFile .pcon) rfl) <|
    .cons (.work (p := Proc.dcon) rfl .fileFound) <|
    .cons (.release (p := Proc.pcon (0 : Fin 1)) rfl (.freeFile .pcon) rfl) <|
    .cons (.acquire (p := Proc.dcon) rfl .lockTimed rfl) <|
    .cons (.release (p := Proc.dcon) rfl .freeUpdate rfl) <|
    .cons (.acquire (p := Proc.pcon (0 : Fin 1)) rfl .lockLoad rfl) (.nil _)
  refine ⟨_, _, hrun, rfl, rfl, rfl, (exclusive_run_iff hrun).1 ?_⟩
  simp [Orderly, initial]

/-- A request that starts while the daemon is in `update_relays` sets the value to 1 although the
daemon holds the lock. -/
theorem exclusive_run_broken : ¬ ∀ (n m : ℕ)
    (tr : List (State (Proc n m) Loc × (Proc n m × Event))) (t : State (Proc n m) Loc),
    Path (Step flow) (initial start) tr t → Path.Forall Exclusive tr t := by
  intro hall
  have hrun : Path (Step flow) (initial (start (n := 0) (m := 1))) _ _ :=
    .cons (.create (p := Proc.dcon) rfl (.semget .dcon)) <|
    .cons (.setVal (p := Proc.dcon) rfl (.semctl .dcon) (by decide)) <|
    .cons (.acquire (p := Proc.dcon) rfl (.lockFile .dcon) rfl) <|
    .cons (.release (p := Proc.dcon) rfl (.freeFile .dcon) rfl) <|
    .cons (.work (p := Proc.dcon) rfl .fileFound) <|
    .cons (.acquire (p := Proc.dcon) rfl .lockTimed rfl) <|
    .cons (.create (p := Proc.scon (0 : Fin 1)) rfl (.semget .scon)) <|
    .cons (.setVal (p := Proc.scon (0 : Fin 1)) rfl (.semctl .scon) (by decide)) (.nil _)
  have hlast := (hall 0 1 _ _ hrun).2.balance 1 rfl
  exact absurd hlast (by decide)

end PconTng.Ipc
