import HamiCore.Library.GuardedRun
import HamiCore.Region.Slot

/-!
# The lock of the shared region

`lock_shrreg` waits on a process-shared semaphore and then writes the caller's pid into `owner_pid`;
`unlock_shrreg` clears `owner_pid` and posts.  The pid is there for recovery: a waiter whose wait
times out reads it, asks `proc_alive` whether that process is gone, and if so tries to swap it back
to `0`; the waiter whose swap succeeds posts on the dead owner's behalf.  `exit_handler` uses the
same swap when a process ends while its own pid is in `owner_pid`.

The model takes every access to the semaphore or to `owner_pid` as one step of one thread.  Threads
belong to processes (`pidOf`), `owner_pid` names a process, and a kill stops all threads of a
process between any two steps.

The proofs count one *token*.  It is in the semaphore, or with a thread that has decremented the
semaphore and not yet posted, or with a thread that has swapped a dead owner out and not yet posted
(`Holds`).  A thread that stored its pid keeps the token for as long as `owner_pid` still names its
process, dead or alive; that clause is what lets recovery take the token away from a dead thread.
-/

namespace HamiCore

/-- Where a thread is in `lock_shrreg`, `unlock_shrreg` or `exit_handler`.  `trials` counts the
timeouts of the current call. -/
inductive LockPc where
  /-- Outside all three. -/
  | idle
  /-- About to call `sem_timedwait`. -/
  | waiting (trials : ℕ)
  /-- `sem_timedwait` has returned `0`; `owner_pid` is not stored yet. -/
  | acquired
  /-- `owner_pid` is stored: inside the critical section. -/
  | owning
  /-- `unlock_shrreg` has stored `owner_pid = 0`; `sem_post` is next. -/
  | released
  /-- The wait timed out; `owner_pid` is to be loaded. -/
  | timedOut (trials : ℕ)
  /-- A non-zero owner was loaded; `proc_alive` is next. -/
  | probing (trials : ℕ) (owner : Pid)
  /-- The owner was found dead; the compare-exchange is next. -/
  | recovering (trials : ℕ) (owner : Pid)
  /-- The compare-exchange succeeded; `sem_post` is next. -/
  | recovered (trials : ℕ)
  /-- In `exit_handler`, before the load of `owner_pid`. -/
  | exitLoad
  /-- The load returned the caller's pid; the compare-exchange is next. -/
  | exitCas
  /-- The compare-exchange of `exit_handler` succeeded; `sem_post` is next. -/
  | exitPost
  /-- `exit_handler` is done with the lock. -/
  | exited
  deriving DecidableEq

/-- How `sem_timedwait` returns: with the semaphore, with `ETIMEDOUT`, or with another error. -/
inductive WaitResult where
  | acquired
  | timedOut
  | interrupted
  deriving DecidableEq

/-- The labels.  `access` is the next shared access of a thread whose outcome the state decides;
`wait` and `probe` carry what the environment answers. -/
inductive LockLabel (T : Type*) where
  | enter (t : T)
  | exit (t : T)
  | wait (t : T) (r : WaitResult)
  | probe (t : T) (answer : ProcState)
  | access (t : T)
  | kill (p : Pid)

/-- The semaphore, `owner_pid`, the living processes, and every thread's place. -/
structure LockState (T : Type*) where
  sem : ℕ
  ownerPid : Pid
  alive : Pid → Bool
  pc : T → LockPc

namespace LockState

variable {T : Type*} [DecidableEq T]

/-- Move thread `t`. -/
def goto (s : LockState T) (t : T) (pc : LockPc) : LockState T :=
  { s with pc := Function.update s.pc t pc }

/-- The next shared access of thread `t` of process `pid`. -/
def access (pid : Pid) (s : LockState T) (t : T) : Option (LockState T) :=
  match s.pc t with
  | .acquired => some ({ s with ownerPid := pid }.goto t .owning)
  | .owning => some ({ s with ownerPid := 0 }.goto t .released)
  | .released => some ({ s with sem := s.sem + 1 }.goto t .idle)
  | .timedOut trials =>
    if s.ownerPid ≠ 0 then some (s.goto t (.probing trials s.ownerPid))
    else if 30 < trials then some (s.goto t .exitLoad)
    else some (s.goto t (.waiting trials))
  | .recovering trials owner =>
    if s.ownerPid = owner then some ({ s with ownerPid := 0 }.goto t (.recovered trials))
    else some (s.goto t (.waiting trials))
  | .recovered trials => some ({ s with sem := s.sem + 1 }.goto t (.waiting trials))
  | .exitLoad =>
    if s.ownerPid = pid then some (s.goto t .exitCas) else some (s.goto t .exited)
  | .exitCas =>
    if s.ownerPid = pid then some ({ s with ownerPid := 0 }.goto t .exitPost)
    else some (s.goto t .exited)
  | .exitPost => some ({ s with sem := s.sem + 1 }.goto t .exited)
  | .idle | .waiting _ | .probing _ _ | .exited => none

/-- `sem_timedwait` returns. -/
def wait (s : LockState T) (t : T) : WaitResult → Option (LockState T)
  | .acquired =>
    match s.pc t, s.sem with
    | .waiting _, sem + 1 => some ({ s with sem := sem }.goto t .acquired)
    | _, _ => none
  | .timedOut =>
    match s.pc t with
    | .waiting trials => some (s.goto t (.timedOut (trials + 1)))
    | _ => none
  | .interrupted =>
    match s.pc t with
    | .waiting trials => some (s.goto t (.waiting trials))
    | _ => none

/-- `proc_alive` answers. -/
def probe (s : LockState T) (t : T) (answer : ProcState) : Option (LockState T) :=
  match s.pc t with
  | .probing trials owner =>
    if answer = .nonalive then some (s.goto t (.recovering trials owner))
    else some (s.goto t (.waiting trials))
  | _ => none

/-- One step of the system.  Only threads of living processes move. -/
def step (pidOf : T → Pid) (s : LockState T) : LockLabel T → Option (LockState T)
  | .enter t => if s.alive (pidOf t) ∧ s.pc t = .idle then some (s.goto t (.waiting 0)) else none
  | .exit t => if s.alive (pidOf t) ∧ s.pc t = .idle then some (s.goto t .exitLoad) else none
  | .wait t r => if s.alive (pidOf t) then s.wait t r else none
  | .probe t answer => if s.alive (pidOf t) then s.probe t answer else none
  | .access t => if s.alive (pidOf t) then s.access (pidOf t) t else none
  | .kill p => if s.alive p then some { s with alive := Function.update s.alive p false } else none

/-- The region as `try_create_shrreg` leaves it: the semaphore at `1`, no owner, nobody inside. -/
def Initial (s : LockState T) : Prop := s.sem = 1 ∧ s.ownerPid = 0 ∧ ∀ t, s.pc t = .idle

/-- A live thread between its successful `sem_timedwait` and its `sem_post`. -/
def InSection (pidOf : T → Pid) (s : LockState T) (t : T) : Prop :=
  s.alive (pidOf t) = true ∧ (s.pc t = .acquired ∨ s.pc t = .owning ∨ s.pc t = .released)

end LockState

namespace LockPc

/-- The places at which a thread has the token whatever `owner_pid` says. -/
def HasToken : LockPc → Prop
  | .acquired | .released | .recovered _ | .exitPost => True
  | _ => False

/-- The places at which a thread never has the token. -/
def Quiet : LockPc → Prop
  | .acquired | .owning | .released | .recovered _ | .exitPost => False
  | _ => True

/-- The places of `exit_handler`. -/
def Exiting : LockPc → Prop
  | .exitLoad | .exitCas | .exitPost => True
  | _ => False

/-- The owner that `proc_alive` is asked about. -/
def probed : LockPc → Option Pid
  | .probing _ owner => some owner
  | _ => none

instance : DecidablePred HasToken
  | .acquired | .released | .recovered _ | .exitPost => .isTrue trivial
  | .idle | .waiting _ | .owning | .timedOut _ | .probing _ _ | .recovering _ _ | .exitLoad
  | .exitCas | .exited => .isFalse id

instance : DecidablePred Exiting
  | .exitLoad | .exitCas | .exitPost => .isTrue trivial
  | .idle | .waiting _ | .acquired | .owning | .released | .timedOut _ | .probing _ _
  | .recovering _ _ | .recovered _ | .exited => .isFalse id

theorem Quiet.not_hasToken {pc : LockPc} (h : pc.Quiet) : ¬ pc.HasToken := by
  cases pc <;> first | exact h.elim | exact id

theorem Quiet.ne_owning {pc : LockPc} (h : pc.Quiet) : pc ≠ .owning := by
  rintro rfl
  exact h

theorem HasToken.ne_owning {pc : LockPc} (h : pc.HasToken) : pc ≠ .owning := by
  rintro rfl
  exact h

end LockPc

namespace LockLabel

variable {T : Type*}

/-- `proc_alive` never reports a live process dead. -/
def ProbeSound (s : LockState T) : LockLabel T → Prop
  | .probe t answer => ∀ owner ∈ (s.pc t).probed, s.alive owner = true → answer ≠ .nonalive
  | _ => True

/-- The compare-exchange of `exit_handler` is not tried while another thread of the same process is
inside the critical section. -/
def ExitSafe (pidOf : T → Pid) (s : LockState T) : LockLabel T → Prop
  | .access t => s.pc t = .exitCas → ∀ t', pidOf t' = pidOf t → s.pc t' ≠ .owning
  | _ => True

/-- A process is not killed while one of its threads has the token and `owner_pid` does not say
so. -/
def KillSafe (pidOf : T → Pid) (s : LockState T) : LockLabel T → Prop
  | .kill p => ∀ t, pidOf t = p → ¬ (s.pc t).HasToken
  | _ => True

/-- A step of `lock_shrreg` or `unlock_shrreg`, or a kill; not one of `exit_handler`. -/
def LockOnly (s : LockState T) : LockLabel T → Prop
  | .exit _ => False
  | .access t => ¬ (s.pc t).Exiting
  | _ => True

instance (s : LockState T) (a : LockLabel T) : Decidable (a.ProbeSound s) :=
  match a with
  | .probe t answer =>
    inferInstanceAs (Decidable (∀ owner ∈ (s.pc t).probed, s.alive owner = true →
      answer ≠ .nonalive))
  | .enter _ | .exit _ | .wait _ _ | .access _ | .kill _ => .isTrue trivial

instance [Fintype T] (pidOf : T → Pid) (s : LockState T) (a : LockLabel T) :
    Decidable (a.ExitSafe pidOf s) :=
  match a with
  | .access t =>
    inferInstanceAs (Decidable (s.pc t = .exitCas → ∀ t', pidOf t' = pidOf t → s.pc t' ≠ .owning))
  | .enter _ | .exit _ | .wait _ _ | .probe _ _ | .kill _ => .isTrue trivial

instance [Fintype T] (pidOf : T → Pid) (s : LockState T) (a : LockLabel T) :
    Decidable (a.KillSafe pidOf s) :=
  match a with
  | .kill p => inferInstanceAs (Decidable (∀ t, pidOf t = p → ¬ (s.pc t).HasToken))
  | .enter _ | .exit _ | .wait _ _ | .probe _ _ | .access _ => .isTrue trivial

instance (s : LockState T) (a : LockLabel T) : Decidable (a.LockOnly s) :=
  match a with
  | .exit _ => .isFalse id
  | .access t => inferInstanceAs (Decidable (¬ (s.pc t).Exiting))
  | .enter _ | .wait _ _ | .probe _ _ | .kill _ => .isTrue trivial

end LockLabel

/-! ## What a step can do -/

namespace LockState

variable {T : Type*} [DecidableEq T] {pidOf : T → Pid} {s s' : LockState T} {t t' : T}

@[simp] theorem goto_pc_self (s : LockState T) (t : T) (pc : LockPc) :
    (s.goto t pc).pc t = pc := Function.update_self _ _ _

theorem goto_pc_of_ne (s : LockState T) {t t' : T} (h : t' ≠ t) (pc : LockPc) :
    (s.goto t pc).pc t' = s.pc t' := Function.update_of_ne h _ _

@[simp] theorem goto_sem (s : LockState T) (t : T) (pc : LockPc) : (s.goto t pc).sem = s.sem := rfl

@[simp] theorem goto_ownerPid (s : LockState T) (t : T) (pc : LockPc) :
    (s.goto t pc).ownerPid = s.ownerPid := rfl

@[simp] theorem goto_alive (s : LockState T) (t : T) (pc : LockPc) :
    (s.goto t pc).alive = s.alive := rfl

theorem ne_of_goto_owning {pc : LockPc} (hpc : pc ≠ .owning) (h : (s.goto t pc).pc t' = .owning) :
    t' ≠ t := by
  rintro rfl
  rw [goto_pc_self] at h
  exact hpc h

/-- The state a kill leaves has no process alive that was not. -/
theorem alive_of_kill {alive : Pid → Bool} {p q : Pid}
    (h : Function.update alive p false q = true) : alive q = true := by
  by_cases hqp : q = p
  · rw [hqp, Function.update_self] at h
    exact absurd h (by simp)
  · rwa [Function.update_of_ne hqp] at h

/-- What a thread's place promises about the shared state: an owner under recovery is dead, and
`exit_handler` has not released anything. -/
def PcOk (s : LockState T) : LockPc → Prop
  | .probing _ owner => owner ≠ 0
  | .recovering _ owner => owner ≠ 0 ∧ s.alive owner = false
  | .exitPost => False
  | _ => True

/-- What the step labelled `a` can do: move a thread that has nothing to do with the token, take the
token out of the semaphore, write the owner down, clear the owner on the way out, put the token
back, swap a dead owner or the own pid out, or kill a process. -/
inductive LockMove (pidOf : T → Pid) (s : LockState T) (a : LockLabel T) : LockState T → Prop where
  | quiet {t : T} {pc : LockPc} : s.alive (pidOf t) = true → (s.pc t).Quiet → pc.Quiet →
      (a.ProbeSound s → s.PcOk (s.pc t) → s.PcOk pc) → LockMove pidOf s a (s.goto t pc)
  | take {t : T} {trials sem : ℕ} : s.alive (pidOf t) = true → s.pc t = .waiting trials →
      s.sem = sem + 1 → LockMove pidOf s a ({ s with sem := sem }.goto t .acquired)
  | store {t : T} : s.alive (pidOf t) = true → s.pc t = .acquired →
      LockMove pidOf s a ({ s with ownerPid := pidOf t }.goto t .owning)
  | reset {t : T} : a = .access t → s.alive (pidOf t) = true → s.pc t = .owning →
      LockMove pidOf s a ({ s with ownerPid := 0 }.goto t .released)
  | give {t : T} {pc : LockPc} : s.alive (pidOf t) = true → (s.pc t).HasToken → pc.Quiet →
      s.PcOk pc → LockMove pidOf s a ({ s with sem := s.sem + 1 }.goto t pc)
  | steal {t : T} {trials : ℕ} : a = .access t → s.alive (pidOf t) = true →
      s.pc t = .recovering trials s.ownerPid →
      LockMove pidOf s a ({ s with ownerPid := 0 }.goto t (.recovered trials))
  | exitSwap {t : T} : a = .access t → s.alive (pidOf t) = true → s.pc t = .exitCas →
      s.ownerPid = pidOf t → LockMove pidOf s a ({ s with ownerPid := 0 }.goto t .exitPost)
  | kill {p : Pid} : a = .kill p → s.alive p = true →
      LockMove pidOf s a { s with alive := Function.update s.alive p false }

theorem lockMove_of_wait {t : T} {r : WaitResult} {a : LockLabel T}
    (hlive : s.alive (pidOf t) = true) (h : s.wait t r = some s') : LockMove pidOf s a s' := by
  cases r with
  | acquired =>
    simp only [LockState.wait] at h
    split at h
    · next trials sem hpc hsem =>
      rw [← Option.some.inj h]
      exact .take hlive hpc hsem
    · exact absurd h (by simp)
  | timedOut =>
    simp only [LockState.wait] at h
    split at h
    · next trials hpc =>
      rw [← Option.some.inj h]
      exact .quiet hlive (by rw [hpc]; trivial) trivial fun _ _ => trivial
    · exact absurd h (by simp)
  | interrupted =>
    simp only [LockState.wait] at h
    split at h
    · next trials hpc =>
      rw [← Option.some.inj h]
      exact .quiet hlive (by rw [hpc]; trivial) trivial fun _ _ => trivial
    · exact absurd h (by simp)

theorem lockMove_of_probe {t : T} {answer : ProcState} (hlive : s.alive (pidOf t) = true)
    (h : s.probe t answer = some s') : LockMove pidOf s (.probe t answer) s' := by
  simp only [LockState.probe] at h
  split at h
  · next trials owner hpc =>
    have hquiet : (s.pc t).Quiet := by rw [hpc]; trivial
    split at h
    · next hdead =>
      rw [← Option.some.inj h]
      refine .quiet hlive hquiet trivial fun hprobe hok => ⟨?_, ?_⟩
      · rw [hpc] at hok
        exact hok
      · by_contra hne
        exact hprobe owner (by rw [hpc]; rfl) (by simpa using hne) hdead
    · rw [← Option.some.inj h]
      exact .quiet hlive hquiet trivial fun _ _ => trivial
  · exact absurd h (by simp)

theorem lockMove_of_access {t : T} (hlive : s.alive (pidOf t) = true)
    (h : s.access (pidOf t) t = some s') : LockMove pidOf s (.access t) s' := by
  simp only [LockState.access] at h
  split at h
  · next hpc =>
    rw [← Option.some.inj h]
    exact .store hlive hpc
  · next hpc =>
    rw [← Option.some.inj h]
    exact .reset rfl hlive hpc
  · next hpc =>
    rw [← Option.some.inj h]
    exact .give hlive (by rw [hpc]; trivial) trivial trivial
  · next trials hpc =>
    have hquiet : (s.pc t).Quiet := by rw [hpc]; trivial
    split at h
    · next hne =>
      rw [← Option.some.inj h]
      exact .quiet hlive hquiet trivial fun _ _ => hne
    · split at h
      · rw [← Option.some.inj h]
        exact .quiet hlive hquiet trivial fun _ _ => trivial
      · rw [← Option.some.inj h]
        exact .quiet hlive hquiet trivial fun _ _ => trivial
  · next trials owner hpc =>
    split at h
    · next heq =>
      rw [← Option.some.inj h]
      exact .steal rfl hlive (heq ▸ hpc)
    · rw [← Option.some.inj h]
      exact .quiet hlive (by rw [hpc]; trivial) trivial fun _ _ => trivial
  · next trials hpc =>
    rw [← Option.some.inj h]
    exact .give hlive (by rw [hpc]; trivial) trivial trivial
  · next hpc =>
    have hquiet : (s.pc t).Quiet := by rw [hpc]; trivial
    split at h
    · rw [← Option.some.inj h]
      exact .quiet hlive hquiet trivial fun _ _ => trivial
    · rw [← Option.some.inj h]
      exact .quiet hlive hquiet trivial fun _ _ => trivial
  · next hpc =>
    split at h
    · next heq =>
      rw [← Option.some.inj h]
      exact .exitSwap rfl hlive hpc heq
    · rw [← Option.some.inj h]
      exact .quiet hlive (by rw [hpc]; trivial) trivial fun _ _ => trivial
  · next hpc =>
    rw [← Option.some.inj h]
    exact .give hlive (by rw [hpc]; trivial) trivial trivial
  all_goals exact absurd h (by simp)

/-- **Reading a step.**  Every step is one of the moves. -/
theorem lockMove_of_step {a : LockLabel T} (h : s.step pidOf a = some s') :
    LockMove pidOf s a s' := by
  cases a with
  | enter t =>
    obtain ⟨⟨hlive, hpc⟩, ⟨⟩⟩ := Option.ite_none_right_eq_some.mp h
    exact .quiet hlive (by rw [hpc]; trivial) trivial fun _ _ => trivial
  | exit t =>
    obtain ⟨⟨hlive, hpc⟩, ⟨⟩⟩ := Option.ite_none_right_eq_some.mp h
    exact .quiet hlive (by rw [hpc]; trivial) trivial fun _ _ => trivial
  | wait t r =>
    obtain ⟨hlive, hw⟩ := Option.ite_none_right_eq_some.mp h
    exact lockMove_of_wait hlive hw
  | probe t answer =>
    obtain ⟨hlive, hp⟩ := Option.ite_none_right_eq_some.mp h
    exact lockMove_of_probe hlive hp
  | access t =>
    obtain ⟨hlive, ha⟩ := Option.ite_none_right_eq_some.mp h
    exact lockMove_of_access hlive ha
  | kill p =>
    obtain ⟨hlive, ⟨⟩⟩ := Option.ite_none_right_eq_some.mp h
    exact .kill rfl hlive

end LockState

end HamiCore
