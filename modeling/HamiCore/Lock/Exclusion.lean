import Mathlib.Data.Fin.VecNotation
import HamiCore.Lock.Token

/-!
# Mutual exclusion of the region lock

With one locking thread per process the recovery protocol is safe: whatever is killed, and however
many waiters race to recover, at most one live thread is between its wait and its post.

`owner_pid` names a process and not a thread, and `exit_handler` acts on it without asking which
thread stored it.  With several threads per process the lock stays safe exactly as long as
`exit_handler` does not come to its compare-exchange while another thread of the same process is
inside: that thread keeps working in the section, while the semaphore is posted on its behalf.
-/

namespace HamiCore

namespace LockLabel

variable {T : Type*}

/-- The thread that writes `0` into `owner_pid`, if the step is such a write: on the way out of the
section, or by one of the two compare-exchanges. -/
def clearsOwner (pidOf : T → Pid) (s : LockState T) : LockLabel T → Option T
  | .access t =>
    match s.pc t with
    | .owning => some t
    | .recovering _ owner => if s.ownerPid = owner then some t else none
    | .exitCas => if s.ownerPid = pidOf t then some t else none
    | _ => none
  | _ => none

end LockLabel

namespace LockState

variable {T : Type*} [DecidableEq T] {pidOf : T → Pid} {s s' : LockState T}

/-- `clearsOwner` misses no write: any other step leaves a non-zero `owner_pid` non-zero. -/
theorem ownerPid_ne_zero_of_clearsOwner (h0 : ∀ t, pidOf t ≠ 0) {a : LockLabel T}
    (hclr : a.clearsOwner pidOf s = none) (hst : s.step pidOf a = some s') (hne : s.ownerPid ≠ 0) :
    s'.ownerPid ≠ 0 := by
  cases lockMove_of_step hst with
  | quiet _ _ _ _ => exact hne
  | take _ _ _ => exact hne
  | store _ _ => exact h0 _
  | reset ha _ hpc =>
    subst ha
    simp [LockLabel.clearsOwner, hpc] at hclr
  | give _ _ _ _ => exact hne
  | steal ha _ hpc =>
    subst ha
    simp [LockLabel.clearsOwner, hpc] at hclr
  | exitSwap ha _ hpc heq =>
    subst ha
    simp [LockLabel.clearsOwner, hpc, heq] at hclr
  | kill _ _ => exact hne

/-- At most one thread is inside the section. -/
def Exclusive (pidOf : T → Pid) (s : LockState T) : Prop :=
  ∀ t t', s.InSection pidOf t → s.InSection pidOf t' → t = t'

/-- No thread clears `owner_pid` while a thread of another process is inside. -/
def OwnerKept (pidOf : T → Pid) (s : LockState T) : Prop :=
  ∀ a t s'', s.step pidOf a = some s'' → a.clearsOwner pidOf s = some t →
    ∀ t', s.InSection pidOf t' → pidOf t' = pidOf t

omit [DecidableEq T] in
theorem TokenInv.exclusive (h : s.TokenInv pidOf) : s.Exclusive pidOf := by
  intro t t' ht ht'
  exact h.unique t t' (h.holds_of_inSection ht) (h.holds_of_inSection ht')

theorem TokenInv.ownerKept (h0 : ∀ t, pidOf t ≠ 0) (h : s.TokenInv pidOf) :
    s.OwnerKept pidOf := by
  intro a t s'' hst hclr t' ht'
  have hhold' : s.Holds pidOf t' := h.holds_of_inSection ht'
  cases a with
  | access u =>
    obtain ⟨hlive, -⟩ := Option.ite_none_right_eq_some.mp hst
    simp only [LockLabel.clearsOwner] at hclr
    split at hclr
    · next hpc =>
      obtain rfl : u = t := Option.some.inj hclr
      rw [h.unique t' u hhold' (h.holds_of_owning hlive hpc)]
    · next trials owner hpc =>
      -- the owner that is swapped out is dead, and it has the token
      obtain ⟨heq, -⟩ := Option.ite_none_right_eq_some.mp hclr
      obtain ⟨hne, hdead⟩ : s.PcOk (.recovering trials owner) := hpc ▸ h.pcOk u
      rw [← heq] at hne hdead
      obtain ⟨o, ho, hown⟩ := h.owning_of_owner hne
      have hto : t' = o := h.unique t' o hhold' (Or.inr ⟨hown, ho.symm⟩)
      have hlive' := ht'.1
      rw [hto, ho, hdead] at hlive'
      exact absurd hlive' (by simp)
    · obtain ⟨heq, hut⟩ := Option.ite_none_right_eq_some.mp hclr
      obtain rfl : u = t := Option.some.inj hut
      obtain ⟨o, ho, hown⟩ := h.owning_of_owner (heq ▸ h0 u)
      rw [h.unique t' o hhold' (Or.inr ⟨hown, ho.symm⟩), ho, heq]
    · exact absurd hclr (by simp)
  | _ => exact absurd hclr (by simp [LockLabel.clearsOwner])

omit [DecidableEq T] in
/-- With one thread per process `exit_handler` cannot meet another thread of its own process. -/
theorem exitSafe_of_injective (hinj : Function.Injective pidOf) (s : LockState T)
    (a : LockLabel T) : a.ExitSafe pidOf s := by
  cases a with
  | access t =>
    intro hpc t' ht'
    rw [hinj ht', hpc]
    simp
  | _ => trivial

/-- **Over-release.**  When `exit_handler` comes to its compare-exchange while another thread of its
process is inside, it posts a second token: any waiter then enters beside that thread. -/
theorem TokenInv.overRelease (h : s.TokenInv pidOf) {t t' u : T} {trials : ℕ}
    (hlive : s.alive (pidOf t) = true) (ht : s.pc t = .exitCas) (hpid : pidOf t' = pidOf t)
    (ht' : s.pc t' = .owning) (hlive' : s.alive (pidOf u) = true) (hu : s.pc u = .waiting trials) :
    ∃ s'', GuardedRun (step pidOf) (fun s a => a.ProbeSound s) s s'' ∧ ¬ s''.Exclusive pidOf := by
  have hne : t' ≠ t := by
    rintro rfl
    exact absurd (ht'.symm.trans ht) (by simp)
  have hnu : u ≠ t := by
    rintro rfl
    exact absurd (hu.symm.trans ht) (by simp)
  have hnu' : t' ≠ u := by
    rintro rfl
    exact absurd (ht'.symm.trans hu) (by simp)
  have howner : s.ownerPid = pidOf t := by
    rw [← hpid]
    exact h.owner_of_owning t' (by rw [hpid]; exact hlive) ht'
  let s₁ : LockState T := { s with ownerPid := 0 }.goto t .exitPost
  let s₂ : LockState T := { s₁ with sem := s₁.sem + 1 }.goto t .exited
  let s₃ : LockState T := { s₂ with sem := s.sem }.goto u .acquired
  have h₁ : s.step pidOf (.access t) = some s₁ := by
    simp only [step, if_pos hlive, access, ht, if_pos howner]
    rfl
  have h₂ : s₁.step pidOf (.access t) = some s₂ := by
    have hpc : s₁.pc t = .exitPost := goto_pc_self _ _ _
    simp only [step, access, hpc]
    exact if_pos hlive
  have h₃ : s₂.step pidOf (.wait u .acquired) = some s₃ := by
    have hpc : s₂.pc u = .waiting trials := by
      rw [goto_pc_of_ne _ hnu, goto_pc_of_ne _ hnu]
      exact hu
    have hsem : s₂.sem = s.sem + 1 := rfl
    simp only [step, wait, hpc, hsem]
    exact if_pos hlive'
  refine ⟨s₃, (((GuardedRun.refl s).tail ?_ h₁).tail ?_ h₂).tail ?_ h₃, ?_⟩
  · trivial
  · trivial
  · trivial
  intro hex
  refine hnu' (hex t' u ⟨?_, Or.inr (Or.inl ?_)⟩ ⟨hlive', Or.inl (goto_pc_self _ _ _)⟩)
  · show s.alive (pidOf t') = true
    rw [hpid]
    exact hlive
  · rw [goto_pc_of_ne _ hnu', goto_pc_of_ne _ hne, goto_pc_of_ne _ hne]
    exact ht'

end LockState

section Safety

variable {T : Type*} [DecidableEq T] {pidOf : T → Pid} {s s' : LockState T}

/-- **Mutual exclusion under kills.**  Any number of processes, one locking thread each, any
interleaving, anybody killed at any step: as long as `proc_alive` never reports a live process dead,
the semaphore stays at most `1` and at most one live thread is between its wait and its post. -/
theorem region_lock_mutual_exclusion (hinj : Function.Injective pidOf) (h0 : ∀ t, pidOf t ≠ 0)
    (hinit : s.Initial)
    (hrun : GuardedRun (LockState.step pidOf) (fun s a => a.ProbeSound s) s s') :
    s'.sem ≤ 1 ∧ ∀ t t', s'.InSection pidOf t → s'.InSection pidOf t' → t = t' := by
  have hrun' : GuardedRun (LockState.step pidOf)
      (fun s a => a.ProbeSound s ∧ a.ExitSafe pidOf s) s s' :=
    hrun.mono fun s a hok => ⟨hok, LockState.exitSafe_of_injective hinj s a⟩
  have hinv : s'.TokenInv pidOf := hinit.tokenInv.run h0 hrun'
  exact ⟨hinv.sem_le, hinv.exclusive⟩

/-- Run the labels of a trace whose guard `ok` is decided label by label. -/
def lockTrace {n : ℕ} (pidOf : Fin n → Pid) (ok : LockState (Fin n) → LockLabel (Fin n) → Prop)
    [∀ s a, Decidable (ok s a)] (as : List (LockLabel (Fin n))) : Option (LockState (Fin n)) :=
  exec (LockState.step pidOf) (fun s a => decide (ok s a)) as ⟨1, 0, fun _ => true, fun _ => .idle⟩

theorem guardedRun_of_lockTrace {n : ℕ} {pidOf : Fin n → Pid}
    {ok : LockState (Fin n) → LockLabel (Fin n) → Prop} [∀ s a, Decidable (ok s a)]
    {as : List (LockLabel (Fin n))} {s : LockState (Fin n)} (h : lockTrace pidOf ok as = some s) :
    GuardedRun (LockState.step pidOf) ok ⟨1, 0, fun _ => true, fun _ => .idle⟩ s :=
  GuardedRun.of_exec (fun _ _ _ => of_decide_eq_true) h

/-- Two processes, with one thread each. -/
def twoProcesses : Fin 2 → Pid := ![1, 2]

/-- The thread of the first process, which takes the lock. -/
def holder : Fin 2 := 0

/-- The thread of the second process, which comes later. -/
def waiter : Fin 2 := 1

/-- The first process dies inside the section, the second one waits, recovers the lock and
enters. -/
def recoveredTrace : List (LockLabel (Fin 2)) :=
  [.enter holder, .wait holder .acquired, .access holder, .kill 1, .enter waiter,
    .wait waiter .timedOut, .access waiter, .probe waiter .nonalive, .access waiter,
    .access waiter, .wait waiter .acquired, .access waiter]

theorem exec_recoveredTrace :
    (lockTrace twoProcesses (fun s a => a.ProbeSound s) recoveredTrace).map
      (fun s => (s.pc 0, s.pc 1, s.sem, s.ownerPid)) = some (.owning, .owning, 0, 2) := by
  decide +kernel

/-- The run is one of those above, and ends with the second process inside. -/
theorem region_lock_mutual_exclusion_recovered :
    ∃ s : LockState (Fin 2), s.pc 0 = .owning ∧ s.pc 1 = .owning ∧ s.sem ≤ 1 ∧
      ∀ t t', s.InSection twoProcesses t → s.InSection twoProcesses t' → t = t' := by
  obtain ⟨s, hs, heq⟩ := Option.map_eq_some_iff.mp exec_recoveredTrace
  obtain ⟨hsem, hex⟩ := region_lock_mutual_exclusion
    (by decide) (by decide) ⟨rfl, rfl, fun _ => rfl⟩ (guardedRun_of_lockTrace hs)
  exact ⟨s, congrArg Prod.fst heq, congrArg (fun q => q.2.1) heq, hsem, hex⟩

/-- **When `exit_handler` keeps the lock.**  Any number of threads per process, watcher and main
thread among them: in every run in which `exit_handler` never comes to its compare-exchange while
another thread of its process is inside, the semaphore stays at most `1`, at most one thread is
inside, and nobody clears `owner_pid` under another process.  The condition is needed: a
compare-exchange that fails it lets any waiter in beside the thread that is inside. -/
theorem exit_handler_keeps_region_lock (h0 : ∀ t, pidOf t ≠ 0) (hinit : s.Initial)
    (hrun : GuardedRun (LockState.step pidOf)
      (fun s a => a.ProbeSound s ∧ a.ExitSafe pidOf s) s s') :
    (s'.sem ≤ 1 ∧ s'.Exclusive pidOf ∧ s'.OwnerKept pidOf) ∧
      ∀ t u trials, s'.alive (pidOf t) = true → s'.pc t = .exitCas →
        ¬ (LockLabel.access t).ExitSafe pidOf s' → s'.alive (pidOf u) = true →
        s'.pc u = .waiting trials →
        ∃ s'', GuardedRun (LockState.step pidOf) (fun s a => a.ProbeSound s) s' s'' ∧
          ¬ s''.Exclusive pidOf := by
  have hinv : s'.TokenInv pidOf := hinit.tokenInv.run h0 hrun
  refine ⟨⟨hinv.sem_le, hinv.exclusive, hinv.ownerKept h0⟩, ?_⟩
  intro t u trials hlive ht hunsafe hlive' hu
  simp only [LockLabel.ExitSafe, not_forall, not_not] at hunsafe
  obtain ⟨-, t', hpid, ht'⟩ := hunsafe
  exact hinv.overRelease hlive ht hpid ht' hlive' hu

/-- Threads `0` and `1` are watcher and main thread of one process, `2` is another process. -/
def watcherMainOther : Fin 3 → Pid := ![1, 1, 2]

/-- The watcher leaves the section before the main thread exits; then the other process enters. -/
def exitAfterSection : List (LockLabel (Fin 3)) :=
  [.enter 0, .wait 0 .acquired, .access 0, .exit 1, .access 1, .access 0, .access 1, .access 0,
    .enter 2, .wait 2 .acquired, .access 2]

theorem exec_exitAfterSection :
    (lockTrace watcherMainOther (fun s a => a.ProbeSound s ∧ a.ExitSafe watcherMainOther s)
      exitAfterSection).map (fun s => (s.pc 1, s.pc 2)) = some (.exited, .owning) := by
  decide +kernel

/-- Such a run exists, also with `exit_handler` loading its own pid on the way. -/
theorem exit_handler_keeps_region_lock_after_section :
    ∃ s : LockState (Fin 3), s.pc 1 = .exited ∧ s.pc 2 = .owning ∧ s.sem ≤ 1 ∧
      s.Exclusive watcherMainOther ∧ s.OwnerKept watcherMainOther := by
  obtain ⟨s, hs, heq⟩ := Option.map_eq_some_iff.mp exec_exitAfterSection
  obtain ⟨⟨hsem, hex, hkept⟩, -⟩ := exit_handler_keeps_region_lock
    (by decide) ⟨rfl, rfl, fun _ => rfl⟩ (guardedRun_of_lockTrace hs)
  exact ⟨s, congrArg Prod.fst heq, congrArg Prod.snd heq, hsem, hex, hkept⟩

/-- The main thread exits while the watcher is inside; the other process enters too. -/
def exitInsideSection : List (LockLabel (Fin 3)) :=
  [.enter 0, .wait 0 .acquired, .access 0, .exit 1, .access 1, .access 1, .access 1,
    .enter 2, .wait 2 .acquired, .access 2]

theorem exec_exitInsideSection :
    (lockTrace watcherMainOther (fun s a => a.ProbeSound s) exitInsideSection).map
      (fun s => (s.pc 0, s.pc 2, s.alive 1, s.alive 2)) = some (.owning, .owning, true, true) := by
  decide +kernel

/-- Without the condition two live threads of different processes are inside. -/
theorem exit_handler_over_releases :
    ¬ ∀ s s' : LockState (Fin 3), s.Initial →
      GuardedRun (LockState.step watcherMainOther) (fun s a => a.ProbeSound s) s s' →
      s'.sem ≤ 1 ∧ s'.Exclusive watcherMainOther ∧ s'.OwnerKept watcherMainOther := by
  intro hall
  obtain ⟨s, hs, heq⟩ := Option.map_eq_some_iff.mp exec_exitInsideSection
  simp only [Prod.mk.injEq] at heq
  obtain ⟨hpc₀, hpc₂, hlive₁, hlive₂⟩ := heq
  obtain ⟨-, hex, -⟩ := hall _ s ⟨rfl, rfl, fun _ => rfl⟩ (guardedRun_of_lockTrace hs)
  have := hex 0 2 ⟨hlive₁, Or.inr (Or.inl hpc₀)⟩ ⟨hlive₂, Or.inr (Or.inl hpc₂)⟩
  exact absurd this (by decide)

end Safety

end HamiCore
