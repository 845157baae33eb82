import HamiCore.Library.GuardedRun
import Mathlib.Logic.Function.Basic
import Mathlib.Tactic.SplitIfs

/-!
# The time of the last kernel

The region keeps the time of the last kernel launched by any of its processes.  A launch raises it
in a compare-and-swap loop, which never takes it back.  A process that attaches reads its clock
first, and stores what it read without looking at what is there; when others have launched in
between, the time goes back.  As long as no attachment comes that late, it does not, and a launch
that has returned is not forgotten (`lastKernelTime_monotone`).

The file lock, which a process takes between the two steps of its attachment, orders the attachments
and nothing else, and is left out.
-/

namespace HamiCore

/-- Where a process is in `try_create_shrreg`. -/
inductive AttachPc where
  | new
  /-- It has read its clock. -/
  | attaching
  | attached
  deriving DecidableEq

/-- Where a thread is in `pre_launch_kernel`. -/
inductive LaunchPc where
  | idle
  /-- It has read its clock; the first test of the interval is next. -/
  | called (now : UInt64)
  /-- `_kernel_mutex` is next. -/
  | locking (now : UInt64)
  /-- Under the mutex; the second test is next. -/
  | rechecking (now : UInt64)
  /-- Past both tests; the store to `region_info.last_kernel_time` is next. -/
  | recording (now : UInt64)
  /-- The load of the shared time is next. -/
  | loading (now : UInt64)
  /-- In the loop. -/
  | raising (now expected : UInt64)

/-- The processes `P` of a region and their threads `T`. -/
structure KernelTimeState (P T : Type*) where
  /-- The clock, in seconds. -/
  clock : UInt64
  /-- `last_kernel_time` of the shared region. -/
  shared : UInt64
  /-- `region_info.last_kernel_time` of each process. -/
  cached : P → UInt64
  attach : P → AttachPc
  /-- `_kernel_mutex` of each process. -/
  kernelMutex : P → Option T
  pc : T → LaunchPc
  /-- The times of the calls that have passed both tests and returned. -/
  returned : List UInt64

/-- What can happen next. -/
inductive KernelTimeLabel (P T : Type*) where
  /-- The clock shows another time. -/
  | tick (time : UInt64)
  /-- `try_create_shrreg` reads the clock. -/
  | attachClock (p : P)
  /-- `try_create_shrreg` stores the time. -/
  | attachStore (p : P)
  /-- `pre_launch_kernel` is called, and reads the clock. -/
  | launch (t : T)
  /-- A thread takes its next step up to the loop. -/
  | proceed (t : T)
  /-- The test of the loop, and a compare-and-swap if it holds, which may fail for no reason. -/
  | turn (t : T) (spurious : Bool)

section Machine

variable {P T : Type*} [DecidableEq P] [DecidableEq T] (process : T → P) (interval : UInt64)

/-- Move thread `t`. -/
def KernelTimeState.goto (s : KernelTimeState P T) (t : T) (pc : LaunchPc) : KernelTimeState P T :=
  { s with pc := Function.update s.pc t pc }

/-- `now - region_info.last_kernel_time < _record_kernel_interval`, in 64 bits without a sign. -/
def KernelTimeState.recent (s : KernelTimeState P T) (t : T) (now : UInt64) : Prop :=
  now - s.cached (process t) < interval

instance (s : KernelTimeState P T) (t : T) (now : UInt64) :
    Decidable (s.recent process interval t now) :=
  inferInstanceAs (Decidable (_ < _))

/-- One step. -/
def KernelTimeState.step (s : KernelTimeState P T) :
    KernelTimeLabel P T → Option (KernelTimeState P T)
  | .tick time => if s.clock ≤ time then some { s with clock := time } else none
  | .attachClock p =>
    if s.attach p = .new then
      some { s with
        cached := Function.update s.cached p s.clock
        attach := Function.update s.attach p .attaching }
    else none
  | .attachStore p =>
    if s.attach p = .attaching then
      some { s with
        shared := s.cached p
        attach := Function.update s.attach p .attached }
    else none
  | .launch t =>
    match s.pc t with
    | .idle => if s.attach (process t) = .attached then some (s.goto t (.called s.clock)) else none
    | _ => none
  | .proceed t =>
    match s.pc t with
    | .called now =>
      if s.recent process interval t now then some (s.goto t .idle)
      else some (s.goto t (.locking now))
    | .locking now =>
      if (s.kernelMutex (process t)).isNone then
        some { s.goto t (.rechecking now) with
          kernelMutex := Function.update s.kernelMutex (process t) (some t) }
      else none
    | .rechecking now =>
      if s.recent process interval t now then
        some { s.goto t .idle with
          kernelMutex := Function.update s.kernelMutex (process t) none }
      else some (s.goto t (.recording now))
    | .recording now =>
      some { s.goto t (.loading now) with
        cached := Function.update s.cached (process t) now
        kernelMutex := Function.update s.kernelMutex (process t) none }
    | .loading now => some (s.goto t (.raising now s.shared))
    | _ => none
  | .turn t spurious =>
    match s.pc t with
    | .raising now expected =>
      if expected < now then
        if s.shared = expected ∧ spurious = false then
          some { s.goto t .idle with shared := now, returned := now :: s.returned }
        else some (s.goto t (.raising now s.shared))
      else some { s.goto t .idle with returned := now :: s.returned }
    | _ => none

/-- Nobody is in `pre_launch_kernel` yet. -/
structure KernelTimeState.Start (s : KernelTimeState P T) : Prop where
  pc_idle : ∀ t, s.pc t = .idle
  returned_nil : s.returned = []

/-- The condition: an attachment stores a time that is not before the shared one. -/
def KernelTimeLabel.fresh (s : KernelTimeState P T) : KernelTimeLabel P T → Bool
  | .attachStore p => s.shared ≤ s.cached p
  | _ => true

/-- What a step does to the shared time and to the calls in the loop. -/
inductive KernelTimeMove (s : KernelTimeState P T) :
    KernelTimeLabel P T → KernelTimeState P T → Prop where
  /-- The shared time is left alone, and may be loaded. -/
  | other {a : KernelTimeLabel P T} {s' : KernelTimeState P T} (hfresh : a.fresh s = true)
      (hshared : s'.shared = s.shared) (hreturned : s'.returned = s.returned)
      (hpc : ∀ t now expected, s'.pc t = .raising now expected →
        s.pc t = .raising now expected ∨ expected = s.shared) : KernelTimeMove s a s'
  | attachStore {p : P} : KernelTimeMove s (.attachStore p)
      { s with shared := s.cached p, attach := Function.update s.attach p .attached }
  /-- The compare-and-swap succeeds. -/
  | raise {t : T} {now : UInt64} (hlt : s.shared < now) : KernelTimeMove s (.turn t false)
      { s.goto t .idle with shared := now, returned := now :: s.returned }
  /-- The time found is late enough. -/
  | done {t : T} {now expected : UInt64} {spurious : Bool}
      (hpc : s.pc t = .raising now expected) (hle : now ≤ expected) :
      KernelTimeMove s (.turn t spurious)
        { s.goto t .idle with returned := now :: s.returned }

section Steps

variable {process interval} {s s' : KernelTimeState P T} {a : KernelTimeLabel P T}

omit [DecidableEq P] in
/-- A thread that moves leaves the loops of the others alone. -/
theorem KernelTimeState.raising_of_update {t t' : T} {pc : LaunchPc} {now expected : UInt64}
    (hnew : ∀ now expected, pc = .raising now expected → expected = s.shared)
    (h : Function.update s.pc t pc t' = .raising now expected) :
    s.pc t' = .raising now expected ∨ expected = s.shared := by
  by_cases ht : t' = t
  · subst ht
    rw [Function.update_self] at h
    exact Or.inr (hnew now expected h)
  · rw [Function.update_of_ne ht] at h
    exact Or.inl h

/-- A thread has moved. -/
theorem KernelTimeMove.moved {t : T} {pc : LaunchPc} (hfresh : a.fresh s = true)
    (hnew : ∀ now expected, pc = .raising now expected → expected = s.shared)
    (hshared : s'.shared = s.shared) (hreturned : s'.returned = s.returned)
    (hpc : s'.pc = Function.update s.pc t pc) : KernelTimeMove s a s' := by
  refine .other hfresh hshared hreturned fun t' now expected h => ?_
  rw [hpc] at h
  exact KernelTimeState.raising_of_update hnew h

/-- **Inversion of a step.** -/
theorem kernelTimeMove_of_step (hst : s.step process interval a = some s') :
    KernelTimeMove s a s' := by
  cases a with
  | tick time =>
    obtain ⟨-, hst⟩ := Option.ite_none_right_eq_some.mp hst
    cases hst
    exact .other rfl rfl rfl fun _ _ _ h => Or.inl h
  | attachClock p =>
    obtain ⟨-, hst⟩ := Option.ite_none_right_eq_some.mp hst
    cases hst
    exact .other rfl rfl rfl fun _ _ _ h => Or.inl h
  | attachStore p =>
    obtain ⟨-, hst⟩ := Option.ite_none_right_eq_some.mp hst
    cases hst
    exact .attachStore
  | launch t =>
    simp only [KernelTimeState.step] at hst
    split at hst
    · obtain ⟨-, hst⟩ := Option.ite_none_right_eq_some.mp hst
      cases hst
      exact .moved rfl (by simp) rfl rfl rfl
    · cases hst
  | proceed t =>
    simp only [KernelTimeState.step] at hst
    split at hst
    · split_ifs at hst
      · cases hst
        exact .moved rfl (by simp) rfl rfl rfl
      · cases hst
        exact .moved rfl (by simp) rfl rfl rfl
    · obtain ⟨-, hst⟩ := Option.ite_none_right_eq_some.mp hst
      cases hst
      exact .moved rfl (by simp) rfl rfl rfl
    · split_ifs at hst
      · cases hst
        exact .moved rfl (by simp) rfl rfl rfl
      · cases hst
        exact .moved rfl (by simp) rfl rfl rfl
    · cases hst
      exact .moved rfl (by simp) rfl rfl rfl
    · cases hst
      exact .moved rfl (by simp) rfl rfl rfl
    · cases hst
  | turn t spurious =>
    simp only [KernelTimeState.step] at hst
    split at hst
    · next now expected hpc =>
      split_ifs at hst with hlt hswap
      · cases hst
        obtain ⟨rfl, rfl⟩ := hswap
        exact .raise hlt
      · cases hst
        exact .moved rfl (by simp) rfl rfl rfl
      · cases hst
        exact .done hpc (UInt64.not_lt.mp hlt)
    · cases hst

/-- **A step takes the shared time back exactly if it is a late attachment.** -/
theorem KernelTimeState.step_shared_le_iff (hst : s.step process interval a = some s') :
    s.shared ≤ s'.shared ↔ a.fresh s = true := by
  cases kernelTimeMove_of_step hst with
  | other hfresh hshared _ _ => exact iff_of_true (UInt64.le_of_eq hshared.symm) hfresh
  | attachStore => exact decide_eq_true_iff.symm
  | raise hlt => exact iff_of_true (UInt64.le_of_lt hlt) rfl
  | done _ _ => exact iff_of_true (UInt64.le_refl _) rfl

/-- The shared time is not before the launches that have returned, nor before what the loops have
found. -/
structure KernelTimeState.Inv (s : KernelTimeState P T) : Prop where
  returned_le : ∀ now ∈ s.returned, now ≤ s.shared
  expected_le : ∀ t now expected, s.pc t = .raising now expected → expected ≤ s.shared

omit [DecidableEq P] [DecidableEq T] in
theorem KernelTimeState.Start.inv (h : s.Start) : s.Inv := by
  refine ⟨?_, ?_⟩
  · simp [h.returned_nil]
  · intro t now expected hpc
    rw [h.pc_idle t] at hpc
    cases hpc

/-- The step lemma. -/
theorem KernelTimeState.Inv.step (h : s.Inv) (hfresh : a.fresh s = true)
    (hst : s.step process interval a = some s') : s'.Inv := by
  have hle := (KernelTimeState.step_shared_le_iff hst).mpr hfresh
  have hreturned : ∀ now ∈ s.returned, now ≤ s'.shared := fun now hnow =>
    UInt64.le_trans (h.returned_le now hnow) hle
  have hexpected : ∀ t now expected, s.pc t = .raising now expected → expected ≤ s'.shared :=
    fun t now expected hpc => UInt64.le_trans (h.expected_le t now expected hpc) hle
  cases kernelTimeMove_of_step hst with
  | other _ _ heq hpc =>
    refine ⟨heq ▸ hreturned, fun t now expected hraise => ?_⟩
    rcases hpc t now expected hraise with hold | rfl
    · exact hexpected t now expected hold
    · exact hle
  | attachStore => exact ⟨hreturned, hexpected⟩
  | raise hlt =>
    refine ⟨?_, fun t now expected hraise => ?_⟩
    · simpa using hreturned
    · rcases KernelTimeState.raising_of_update (by simp) hraise with hold | rfl
      · exact hexpected t now expected hold
      · exact hle
  | done hpc hlate =>
    refine ⟨?_, fun t now expected hraise => ?_⟩
    · intro now hnow
      rcases List.mem_cons.mp hnow with rfl | hnow
      · exact UInt64.le_trans hlate (hexpected _ _ _ hpc)
      · exact hreturned now hnow
    · rcases KernelTimeState.raising_of_update (by simp) hraise with hold | rfl
      · exact hexpected t now expected hold
      · exact hle

/-- **Without late attachments the time of the last kernel never goes back.**  In every state that a
run without late attachments reaches: the shared time is not before any launch that has passed its
tests and returned; no later state has an earlier time; and a next step takes the time back only if
it is a late attachment. -/
theorem lastKernelTime_monotone {s₀ : KernelTimeState P T} (hstart : s₀.Start)
    (hrun : GuardedRun (KernelTimeState.step process interval) (fun s a => a.fresh s = true)
      s₀ s) :
    (∀ now ∈ s.returned, now ≤ s.shared) ∧
      (∀ s', GuardedRun (KernelTimeState.step process interval) (fun s a => a.fresh s = true)
        s s' → s.shared ≤ s'.shared) ∧
      ∀ a s', s.step process interval a = some s' →
        (s.shared ≤ s'.shared ↔ a.fresh s = true) := by
  have hinv : s.Inv := hrun.invariant (P := KernelTimeState.Inv)
    (fun _ _ _ hu hfresh hst => hu.step hfresh hst) hstart.inv
  refine ⟨hinv.returned_le, fun s' hrun' => ?_, fun a s' => KernelTimeState.step_shared_le_iff⟩
  refine hrun'.invariant (P := fun u => s.shared ≤ u.shared) ?_ (UInt64.le_refl _)
  intro u a v hle hfresh hst
  exact UInt64.le_trans hle ((KernelTimeState.step_shared_le_iff hst).mpr hfresh)

end Steps

end Machine

/-! ## A late attachment -/

/-- Process `false` is attached since time `90`, and process `true` is not; it is `100`. -/
def kernelTimeStart : KernelTimeState Bool Unit where
  clock := 100
  shared := 90
  cached := fun _ => 90
  attach := fun p => if p then .new else .attached
  kernelMutex := fun _ => none
  pc := fun _ => .idle
  returned := []

theorem kernelTimeStart_start : kernelTimeStart.Start := ⟨fun _ => rfl, rfl⟩

/-- A launch of the attached process, from its call to its return. -/
def oneLaunch : List (KernelTimeLabel Bool Unit) :=
  [.launch (), .proceed (), .proceed (), .proceed (), .proceed (), .proceed (), .turn () false]

/-- Process `true` attaches before the launch. -/
theorem lastKernelTime_early :
    ∃ s, GuardedRun (KernelTimeState.step (fun _ => false) 1) (fun s a => a.fresh s = true)
        kernelTimeStart s ∧
      105 ∈ s.returned ∧ ∀ now ∈ s.returned, now ≤ s.shared := by
  obtain ⟨s, hexec, hreturned⟩ : ∃ s, exec (KernelTimeState.step (fun _ => false) 1)
      (fun s a => a.fresh s)
      (.attachClock true :: .attachStore true :: .tick 105 :: oneLaunch) kernelTimeStart = some s ∧
      105 ∈ s.returned := ⟨_, rfl, by decide⟩
  have hrun : GuardedRun (KernelTimeState.step (fun _ => false) 1) (fun s a => a.fresh s = true)
      kernelTimeStart s := GuardedRun.of_exec (fun _ _ _ h => h) hexec
  exact ⟨s, hrun, hreturned, (lastKernelTime_monotone kernelTimeStart_start hrun).1⟩

/-- It reads its clock before the launch, and stores what it read after it. -/
theorem lastKernelTime_late :
    ∃ s s', GuardedRun (KernelTimeState.step (fun _ => false) 1) (fun _ _ => True)
        kernelTimeStart s ∧
      s.step (fun _ => false) 1 (.attachStore true) = some s' ∧
      s'.shared < s.shared ∧ ∃ now ∈ s'.returned, s'.shared < now := by
  obtain ⟨s, s', hexec, hst, hback⟩ : ∃ s s', exec (KernelTimeState.step (fun _ => false) 1)
      (fun _ _ => true) (.attachClock true :: .tick 105 :: oneLaunch) kernelTimeStart = some s ∧
      s.step (fun _ => false) 1 (.attachStore true) = some s' ∧
      s'.shared < s.shared ∧ ∃ now ∈ s'.returned, s'.shared < now :=
    ⟨_, _, rfl, rfl, by decide, 105, by decide, by decide⟩
  exact ⟨s, s', GuardedRun.of_exec (fun _ _ _ _ => trivial) hexec, hst, hback⟩

end HamiCore
