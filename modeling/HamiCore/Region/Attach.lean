import HamiCore.Device.LimitEnv
import HamiCore.Lock.Exclusion

/-!
# Opening the shared region

`try_create_shrreg` maps the file and, under a file lock, looks at `initialized_flag`.  The first
process to come initialises the region in some fifty stores, the flag last; every later one finds
the flag and leaves the region as it is, whatever its own environment says.  A process may be killed
anywhere in between.  The system then releases its file lock, and since the flag is not set, the
next process does the whole initialisation again.

The region lock lives inside the region: its semaphore is one of the things initialised here.  So
this file puts `try_create_shrreg` in front of the lock of `HamiCore.Lock`, with a region that
starts out as a file of zeros.  What an attached process finds in the region is what one single
process has put there, for good, whatever anybody does with the lock (`attached_config`).  Nobody
comes to the region lock before the semaphore is ready, and nobody initialises it again afterwards;
hence, with one thread per process, the lock excludes from the creation of the file on
(`region_lock_from_creation`).
-/

namespace HamiCore

/-! ## What a process brings along -/

/-- `CUDA_DEVICE_SM_LIMIT`. -/
def cudaDeviceSmLimit : List Char := "CUDA_DEVICE_SM_LIMIT".toList

/-- `CUDA_DEVICE_SM_LIMIT_KEY_LENGTH`. -/
def cudaDeviceSmLimitKeyLength : ℕ := 32

/-- The variable of device `i`, as `snprintf` writes it into the buffer of that length. -/
def deviceSmLimitKey (i : ℕ) : List Char :=
  (cudaDeviceSmLimit ++ '_' :: Nat.toDigits 10 i).take (cudaDeviceSmLimitKeyLength - 1)

/-- `do_init_device_sm_limits(arr, len)`: what it stores in the first `len` entries. -/
def doInitDeviceSmLimits (getenv : List Char → Option (List Char)) (len : ℕ) : List UInt64 :=
  let envLimit := getLimitFromEnv (getenv cudaDeviceSmLimit)
  let fallbackLimit := if envLimit = 0 then 100 else envLimit
  (List.range len).map fun i =>
    let curLimit := getLimitFromEnv (getenv (deviceSmLimitKey i))
    if curLimit > 0 then curLimit
    else if fallbackLimit > 0 then fallbackLimit
    else 0

/-- `CUDA_TASK_PRIORITY_ENV`. -/
def cudaTaskPriorityEnv : List Char := "CUDA_TASK_PRIORITY".toList

/-- `MULTIPROCESS_SHARED_REGION_MAGIC_FLAG`. -/
def sharedRegionMagicFlag : ℤ := 19920718

/-- What a process initialises the region with: the version it was compiled with, its environment,
and the time of its call. -/
structure ProcessEnv where
  majorVersion : ℕ
  minorVersion : ℕ
  getenv : List Char → Option (List Char)
  time : UInt64

/-! ## The head of the region -/

/-- The fields of `shared_region_t` that only the initialisation writes. -/
structure RegionConfig where
  majorVersion : ℕ
  minorVersion : ℕ
  limit : Dev → UInt64
  smLimit : Dev → UInt64
  priority : ℤ

/-- The fields that attached processes write too, outside the region lock. -/
structure RegionVars where
  semPostinit : ℕ
  smInitFlag : ℤ
  utilizationSwitch : ℤ
  recentKernel : ℤ
  procNum : ℤ
  lastKernelTime : UInt64

/-- The head of `shared_region_t`. -/
structure RegionHeader where
  initializedFlag : ℤ
  config : RegionConfig
  sem : ℕ
  vars : RegionVars

/-- The stores of the initialisation, up to the one to `initialized_flag`. -/
inductive InitStore where
  | majorVersion
  | minorVersion
  | limit (dev : Dev)
  | smLimit (dev : Dev)
  | sem
  | semPostinit
  | smInitFlag
  | utilizationSwitch
  | recentKernel
  | procNum
  | priority
  /-- the second store to `priority`, where the variable is set -/
  | priorityEnv
  deriving DecidableEq

/-- The order in which the source makes them. -/
def initStores : List InitStore :=
  [.majorVersion, .minorVersion] ++ (List.finRange cudaDeviceMaxCount).map .limit ++
    (List.finRange cudaDeviceMaxCount).map .smLimit ++
    [.sem, .semPostinit, .smInitFlag, .utilizationSwitch, .recentKernel, .procNum, .priority,
      .priorityEnv]

/-- One store. -/
def InitStore.apply (env : ProcessEnv) (h : RegionHeader) : InitStore → RegionHeader
  | .majorVersion => { h with config := { h.config with majorVersion := env.majorVersion } }
  | .minorVersion => { h with config := { h.config with minorVersion := env.minorVersion } }
  | .limit dev =>
    let limits := doInitDeviceMemoryLimits env.getenv cudaDeviceMaxCount
    { h with config := { h.config with
        limit := Function.update h.config.limit dev (limits.getD dev 0) } }
  | .smLimit dev =>
    let limits := doInitDeviceSmLimits env.getenv cudaDeviceMaxCount
    { h with config := { h.config with
        smLimit := Function.update h.config.smLimit dev (limits.getD dev 0) } }
  | .sem => { h with sem := 1 }
  | .semPostinit => { h with vars := { h.vars with semPostinit := 1 } }
  | .smInitFlag => { h with vars := { h.vars with smInitFlag := 0 } }
  | .utilizationSwitch => { h with vars := { h.vars with utilizationSwitch := 1 } }
  | .recentKernel => { h with vars := { h.vars with recentKernel := 2 } }
  | .procNum => { h with vars := { h.vars with procNum := 0 } }
  | .priority => { h with config := { h.config with priority := 1 } }
  | .priorityEnv =>
    match env.getenv cudaTaskPriorityEnv with
    | some s => { h with config := { h.config with priority := atoi s } }
    | none => h

/-- What a complete initialisation leaves in the fields that nobody else writes. -/
def ProcessEnv.config (env : ProcessEnv) : RegionConfig where
  majorVersion := env.majorVersion
  minorVersion := env.minorVersion
  limit dev := (doInitDeviceMemoryLimits env.getenv cudaDeviceMaxCount).getD dev 0
  smLimit dev := (doInitDeviceSmLimits env.getenv cudaDeviceMaxCount).getD dev 0
  priority := ((env.getenv cudaTaskPriorityEnv).map atoi).getD 1

/-- The stores leave the flag alone. -/
theorem InitStore.apply_initializedFlag (env : ProcessEnv) (h : RegionHeader) (store : InitStore) :
    (store.apply env h).initializedFlag = h.initializedFlag := by
  cases store with
  | priorityEnv =>
    unfold apply
    dsimp only
    split <;> rfl
  | _ => rfl

/-- The first store of a loop over an array, and the others. -/
theorem update_then_stores (v f : Dev → UInt64) (dev : Dev) (devs : List Dev) :
    (fun d => if d ∈ devs then v d else Function.update f dev (v dev) d) =
      fun d => if d ∈ dev :: devs then v d else f d := by
  funext d
  by_cases hdev : d = dev
  · subst hdev
    simp
  · simp [hdev]

/-- The loop over the memory limits. -/
theorem foldl_limit (env : ProcessEnv) (h : RegionHeader) (devs : List Dev) :
    (devs.map .limit).foldl (InitStore.apply env) h = { h with config := { h.config with
      limit := fun d => if d ∈ devs then env.config.limit d else h.config.limit d } } := by
  induction devs generalizing h with
  | nil => simp
  | cons dev devs ih =>
    rw [List.map_cons, List.foldl_cons, ih,
      ← update_then_stores env.config.limit h.config.limit dev devs]
    rfl

/-- The loop over the core limits. -/
theorem foldl_smLimit (env : ProcessEnv) (h : RegionHeader) (devs : List Dev) :
    (devs.map .smLimit).foldl (InitStore.apply env) h = { h with config := { h.config with
      smLimit := fun d => if d ∈ devs then env.config.smLimit d else h.config.smLimit d } } := by
  induction devs generalizing h with
  | nil => simp
  | cons dev devs ih =>
    rw [List.map_cons, List.foldl_cons, ih,
      ← update_then_stores env.config.smLimit h.config.smLimit dev devs]
    rfl

/-- **A complete initialisation**, whatever was there before. -/
theorem foldl_initStores (env : ProcessEnv) (h : RegionHeader) :
    (initStores.foldl (InitStore.apply env) h).config = env.config ∧
      (initStores.foldl (InitStore.apply env) h).sem = 1 := by
  rw [initStores, List.foldl_append, List.foldl_append, List.foldl_append, foldl_limit,
    foldl_smLimit]
  simp only [List.foldl_cons, List.foldl_nil, List.mem_finRange, if_true]
  cases henv : env.getenv cudaTaskPriorityEnv <;>
    simp [InitStore.apply, ProcessEnv.config, henv]

/-! ## The machine -/

/-- Where a process is in `try_create_shrreg`. -/
inductive CreatePc where
  /-- before `lockf(fd, F_LOCK, ..)` returns -/
  | outside
  /-- about to load `initialized_flag` -/
  | checking
  /-- about to make the first of these stores, or the one to `initialized_flag` -/
  | storing (stores : List InitStore)
  /-- about to store `last_kernel_time` -/
  | stamping
  /-- about to call `lockf(fd, F_ULOCK, ..)` -/
  | unlocking
  | attached
  deriving DecidableEq

/-- Between the two calls of `lockf`. -/
def CreatePc.InFile : CreatePc → Prop
  | .checking | .storing _ | .stamping | .unlocking => True
  | _ => False

/-- Where `initialized_flag` has been seen or set. -/
def CreatePc.PastFlag : CreatePc → Prop
  | .stamping | .unlocking | .attached => True
  | _ => False

/-- The thread that makes a step of the region lock. -/
def LockLabel.thread {T : Type*} : LockLabel T → Option T
  | .enter t | .exit t | .wait t _ | .probe t _ | .access t => some t
  | .kill _ => none

/-- The file, the living processes, and where every thread is in `try_create_shrreg` and in the
region lock. -/
structure AttachState (T : Type*) where
  fileLock : Option T
  header : RegionHeader
  ownerPid : Pid
  alive : Pid → Bool
  pc : T → CreatePc
  lockPc : T → LockPc

/-- What can happen next: a step of `try_create_shrreg`, a step of the region lock or a kill, or an
attached process writes one of the fields that are there to be written. -/
inductive AttachLabel (T : Type*) where
  | attach (t : T)
  | lock (a : LockLabel T)
  | write (t : T) (vars : RegionVars)

namespace AttachState

variable {T : Type*} [DecidableEq T]

/-- The part of the state that the region lock works on. -/
def lockState (s : AttachState T) : LockState T := ⟨s.header.sem, s.ownerPid, s.alive, s.lockPc⟩

/-- Move thread `t`. -/
def goto (s : AttachState T) (t : T) (pc : CreatePc) : AttachState T :=
  { s with pc := Function.update s.pc t pc }

/-- The next step of `try_create_shrreg`.  The call of `lockf` returns when the file is not
locked. -/
def attach (env : ProcessEnv) (s : AttachState T) (t : T) : Option (AttachState T) :=
  match s.pc t with
  | .outside => if s.fileLock = none then some ({ s with fileLock := some t }.goto t .checking)
    else none
  | .checking => if s.header.initializedFlag ≠ sharedRegionMagicFlag
    then some (s.goto t (.storing initStores)) else some (s.goto t .stamping)
  | .storing (store :: stores) =>
    some ({ s with header := store.apply env s.header }.goto t (.storing stores))
  | .storing [] =>
    some ({ s with header := { s.header with
      initializedFlag := sharedRegionMagicFlag } }.goto t .stamping)
  | .stamping =>
    some ({ s with header := { s.header with
      vars := { s.header.vars with lastKernelTime := env.time } } }.goto t .unlocking)
  | .unlocking => some ({ s with fileLock := none }.goto t .attached)
  | .attached => none

/-- After a step of the region lock, or a kill, which takes the file lock from a process that is
gone. -/
def withLock (pidOf : T → Pid) (s : AttachState T) (l : LockState T) : AttachState T where
  fileLock := s.fileLock.filter fun t => l.alive (pidOf t)
  header := { s.header with sem := l.sem }
  ownerPid := l.ownerPid
  alive := l.alive
  pc := s.pc
  lockPc := l.pc

/-- One step of the system.  Only attached processes use the region. -/
def step (pidOf : T → Pid) (env : T → ProcessEnv) (s : AttachState T) :
    AttachLabel T → Option (AttachState T)
  | .attach t => if s.alive (pidOf t) then s.attach (env t) t else none
  | .lock a =>
    if a.thread.all fun t => s.pc t = .attached then
      (s.lockState.step pidOf a).map (s.withLock pidOf)
    else none
  | .write t vars =>
    if s.alive (pidOf t) ∧ s.pc t = .attached then
      some { s with header := { s.header with vars := vars } }
    else none

/-- A file that nobody has initialised, and nobody is at. -/
structure Fresh (s : AttachState T) : Prop where
  flag : s.header.initializedFlag ≠ sharedRegionMagicFlag
  ownerPid : s.ownerPid = 0
  fileLock : s.fileLock = none
  pc : ∀ t, s.pc t = .outside
  lockPc : ∀ t, s.lockPc t = .idle

/-- **The invariant** of `try_create_shrreg`, whatever the attached processes do. -/
structure Inv (pidOf : T → Pid) (env : T → ProcessEnv) (s : AttachState T) : Prop where
  /-- A live process between the calls of `lockf` has the file lock. -/
  inFile : ∀ t, s.alive (pidOf t) = true → (s.pc t).InFile → s.fileLock = some t
  /-- Until the flag is set nobody has come past it. -/
  unset : s.header.initializedFlag ≠ sharedRegionMagicFlag → ∀ t, ¬ (s.pc t).PastFlag
  /-- A live process that initialises the region has made the stores before the next one. -/
  storing : ∀ t stores, s.alive (pidOf t) = true → s.pc t = .storing stores →
    s.header.initializedFlag ≠ sharedRegionMagicFlag ∧ ∃ done base, done ++ stores = initStores ∧
      s.header = done.foldl (InitStore.apply (env t)) base
  /-- Once the flag is set the region is initialised. -/
  set : s.header.initializedFlag = sharedRegionMagicFlag → ∃ i, s.header.config = (env i).config

/-- **The invariant** of the region lock. -/
structure LockInv (pidOf : T → Pid) (s : AttachState T) : Prop where
  /-- Until the flag is set nobody has come to the lock. -/
  unset : s.header.initializedFlag ≠ sharedRegionMagicFlag →
    s.ownerPid = 0 ∧ ∀ t, s.lockPc t = .idle
  /-- Once it is set the lock is in order. -/
  set : s.header.initializedFlag = sharedRegionMagicFlag → s.lockState.TokenInv pidOf

variable {pidOf : T → Pid} {env : T → ProcessEnv} {s s' : AttachState T} {t u : T}

@[simp] theorem goto_pc_self (s : AttachState T) (t : T) (pc : CreatePc) :
    (s.goto t pc).pc t = pc := Function.update_self _ _ _

theorem goto_pc_of_ne (s : AttachState T) (h : u ≠ t) (pc : CreatePc) :
    (s.goto t pc).pc u = s.pc u := Function.update_of_ne h _ _

omit [DecidableEq T] in
theorem Fresh.inv (h : s.Fresh) : s.Inv pidOf env where
  inFile := by
    intro t _ ht
    rw [h.pc t] at ht
    exact absurd ht id
  unset := by
    intro _ t ht
    rw [h.pc t] at ht
    exact ht
  storing := by
    intro t stores _ ht
    rw [h.pc t] at ht
    exact absurd ht (by simp)
  set := fun hflag => absurd hflag h.flag

omit [DecidableEq T] in
theorem Fresh.lockInv (h : s.Fresh) : s.LockInv pidOf :=
  ⟨fun _ => ⟨h.ownerPid, h.lockPc⟩, fun hflag => absurd hflag h.flag⟩

omit [DecidableEq T] in
/-- **The file lock excludes.** -/
theorem Inv.alone (h : s.Inv pidOf env) (ht : s.alive (pidOf t) = true) (htf : (s.pc t).InFile)
    (hu : s.alive (pidOf u) = true) (huf : (s.pc u).InFile) : u = t :=
  Option.some.inj ((h.inFile u hu huf).symm.trans (h.inFile t ht htf))

omit [DecidableEq T] in
/-- Once somebody is past the flag, it is set. -/
theorem Inv.flag_of_pastFlag (h : s.Inv pidOf env) (ht : (s.pc t).PastFlag) :
    s.header.initializedFlag = sharedRegionMagicFlag := by
  by_contra hflag
  exact h.unset hflag t ht

/-- A process moves on while nobody else is between the calls of `lockf`. -/
theorem Inv.move (h : s.Inv pidOf env)
    (hothers : ∀ u, u ≠ t → s.alive (pidOf u) = true → ¬ (s.pc u).InFile) {lock : Option T}
    {header : RegionHeader} {pc : CreatePc} (hlock : pc.InFile → lock = some t)
    (hunset : header.initializedFlag ≠ sharedRegionMagicFlag →
      s.header.initializedFlag ≠ sharedRegionMagicFlag ∧ ¬ pc.PastFlag)
    (hstoring : ∀ stores, pc = .storing stores →
      header.initializedFlag ≠ sharedRegionMagicFlag ∧ ∃ done base, done ++ stores = initStores ∧
        header = done.foldl (InitStore.apply (env t)) base)
    (hset : header.initializedFlag = sharedRegionMagicFlag →
      ∃ i, header.config = (env i).config) :
    ({ s with fileLock := lock, header := header }.goto t pc : AttachState T).Inv pidOf env where
  inFile := by
    intro u hlive hin
    by_cases hut : u = t
    · subst hut
      rw [goto_pc_self] at hin
      exact hlock hin
    · rw [goto_pc_of_ne _ hut] at hin
      exact absurd hin (hothers u hut hlive)
  unset := by
    intro hflag u hu
    obtain ⟨hold, hpc⟩ := hunset hflag
    by_cases hut : u = t
    · subst hut
      rw [goto_pc_self] at hu
      exact hpc hu
    · rw [goto_pc_of_ne _ hut] at hu
      exact h.unset hold u hu
  storing := by
    intro u stores hlive hu
    by_cases hut : u = t
    · subst hut
      rw [goto_pc_self] at hu
      exact hstoring stores hu
    · rw [goto_pc_of_ne _ hut] at hu
      have hu' : s.pc u = .storing stores := hu
      exact absurd (by rw [hu']; trivial) (hothers u hut hlive)
  set := hset

/-- **A step of `try_create_shrreg`** keeps the invariant. -/
theorem Inv.attach (h : s.Inv pidOf env) (hlive : s.alive (pidOf t) = true)
    (hst : s.attach (env t) t = some s') : s'.Inv pidOf env := by
  -- the others are kept out as long as this process has the file lock
  have hothers : (s.pc t).InFile →
      ∀ u, u ≠ t → s.alive (pidOf u) = true → ¬ (s.pc u).InFile :=
    fun hin u hut hu huf => hut (h.alone hlive hin hu huf)
  have hkept : (s.pc t).PastFlag → ∀ flag : ℤ, flag = s.header.initializedFlag →
      ¬ flag ≠ sharedRegionMagicFlag := by
    rintro hpast flag rfl hflag
    exact hflag (h.flag_of_pastFlag hpast)
  cases hpc : s.pc t with
  | outside =>
    simp only [AttachState.attach, hpc] at hst
    obtain ⟨hfree, ⟨⟩⟩ := Option.ite_none_right_eq_some.mp hst
    refine h.move (fun u _ hu huf => ?_) (fun _ => rfl) (fun hflag => ⟨hflag, id⟩)
      (by rintro _ ⟨⟩) h.set
    exact absurd ((h.inFile u hu huf).symm.trans hfree) (by simp)
  | checking =>
    have hin : (s.pc t).InFile := by rw [hpc]; trivial
    simp only [AttachState.attach, hpc] at hst
    split_ifs at hst with hflag
    · cases hst
      refine h.move (hothers hin) (fun _ => h.inFile t hlive hin) (fun _ => ⟨hflag, id⟩) ?_ h.set
      rintro stores ⟨⟩
      exact ⟨hflag, [], s.header, rfl, rfl⟩
    · cases hst
      exact h.move (hothers hin) (fun _ => h.inFile t hlive hin) (fun hne => absurd hne hflag)
        (by rintro _ ⟨⟩) h.set
  | storing stores =>
    have hin : (s.pc t).InFile := by rw [hpc]; trivial
    obtain ⟨hflag, done, base, hdone, hheader⟩ := h.storing t stores hlive hpc
    cases stores with
    | cons store stores =>
      simp only [AttachState.attach, hpc] at hst
      cases hst
      have hkeep := store.apply_initializedFlag (env t) s.header
      refine h.move (hothers hin) (fun _ => h.inFile t hlive hin) (fun _ => ⟨hflag, id⟩) ?_
        fun hset => absurd (hkeep.symm.trans hset) hflag
      rintro stores' ⟨⟩
      rw [hkeep]
      refine ⟨hflag, done ++ [store], base, ?_, ?_⟩
      · rw [List.append_assoc]
        exact hdone
      · rw [List.foldl_append, hheader]
        rfl
    | nil =>
      simp only [AttachState.attach, hpc] at hst
      cases hst
      rw [List.append_nil] at hdone
      have hconfig := (foldl_initStores (env t) base).1
      rw [← hdone, ← hheader] at hconfig
      exact h.move (hothers hin) (fun _ => h.inFile t hlive hin) (fun hne => absurd rfl hne)
        (by rintro _ ⟨⟩) fun _ => ⟨t, hconfig⟩
  | stamping =>
    have hin : (s.pc t).InFile := by rw [hpc]; trivial
    have hpast : (s.pc t).PastFlag := by rw [hpc]; trivial
    simp only [AttachState.attach, hpc] at hst
    cases hst
    exact h.move (hothers hin) (fun _ => h.inFile t hlive hin)
      (fun hne => absurd hne (hkept hpast _ rfl)) (by rintro _ ⟨⟩) h.set
  | unlocking =>
    have hin : (s.pc t).InFile := by rw [hpc]; trivial
    have hpast : (s.pc t).PastFlag := by rw [hpc]; trivial
    simp only [AttachState.attach, hpc] at hst
    cases hst
    exact h.move (hothers hin) False.elim (fun hne => absurd hne (hkept hpast _ rfl))
      (by rintro _ ⟨⟩) h.set
  | attached =>
    simp only [AttachState.attach, hpc] at hst
    exact absurd hst (by simp)

/-- A step of `try_create_shrreg` is no step of the region lock. -/
theorem attach_frame (hst : s.attach (env t) t = some s') :
    s'.ownerPid = s.ownerPid ∧ s'.alive = s.alive ∧ s'.lockPc = s.lockPc := by
  unfold AttachState.attach at hst
  split at hst
  · obtain ⟨-, ⟨⟩⟩ := Option.ite_none_right_eq_some.mp hst
    exact ⟨rfl, rfl, rfl⟩
  · split_ifs at hst <;> cases hst <;> exact ⟨rfl, rfl, rfl⟩
  · cases hst
    exact ⟨rfl, rfl, rfl⟩
  · cases hst
    exact ⟨rfl, rfl, rfl⟩
  · cases hst
    exact ⟨rfl, rfl, rfl⟩
  · cases hst
    exact ⟨rfl, rfl, rfl⟩
  · exact absurd hst (by simp)

/-- Once the flag is set, `try_create_shrreg` changes neither it nor what the initialisation has
stored. -/
theorem Inv.attach_of_flag (h : s.Inv pidOf env) (hlive : s.alive (pidOf t) = true)
    (hflag : s.header.initializedFlag = sharedRegionMagicFlag)
    (hst : s.attach (env t) t = some s') :
    s'.header.initializedFlag = sharedRegionMagicFlag ∧ s'.header.config = s.header.config ∧
      s'.header.sem = s.header.sem := by
  unfold AttachState.attach at hst
  split at hst
  · obtain ⟨-, ⟨⟩⟩ := Option.ite_none_right_eq_some.mp hst
    exact ⟨hflag, rfl, rfl⟩
  · split_ifs at hst
    · exact absurd hflag (by assumption)
    · cases hst
      exact ⟨hflag, rfl, rfl⟩
  · next hpc => exact absurd hflag (h.storing t _ hlive hpc).1
  · next hpc => exact absurd hflag (h.storing t _ hlive hpc).1
  · cases hst
    exact ⟨hflag, rfl, rfl⟩
  · cases hst
    exact ⟨hflag, rfl, rfl⟩
  · exact absurd hst (by simp)

/-- Whoever sets the flag has made the semaphore ready. -/
theorem Inv.sem_of_attach (h : s.Inv pidOf env) (hlive : s.alive (pidOf t) = true)
    (hflag : s.header.initializedFlag ≠ sharedRegionMagicFlag)
    (hst : s.attach (env t) t = some s')
    (hset : s'.header.initializedFlag = sharedRegionMagicFlag) : s'.header.sem = 1 := by
  unfold AttachState.attach at hst
  split at hst
  · obtain ⟨-, ⟨⟩⟩ := Option.ite_none_right_eq_some.mp hst
    exact absurd hset hflag
  · rw [if_pos hflag] at hst
    cases hst
    exact absurd hset hflag
  · next store stores hpc =>
    cases hst
    exact absurd ((store.apply_initializedFlag (env t) s.header).symm.trans hset) hflag
  · next hpc =>
    obtain ⟨-, done, base, hdone, hheader⟩ := h.storing t _ hlive hpc
    cases hst
    rw [List.append_nil] at hdone
    have hsem := (foldl_initStores (env t) base).2
    rw [← hdone, ← hheader] at hsem
    exact hsem
  · cases hst
    exact absurd hset hflag
  · cases hst
    exact absurd hset hflag
  · exact absurd hst (by simp)

/-- A step of the region lock makes nobody alive. -/
theorem alive_of_lockStep {l l' : LockState T} {a : LockLabel T} (hst : l.step pidOf a = some l')
    {p : Pid} (hp : l'.alive p = true) : l.alive p = true := by
  cases LockState.lockMove_of_step hst with
  | kill _ _ => exact LockState.alive_of_kill hp
  | _ => exact hp

/-- A kill changes nothing but who is alive. -/
theorem eq_of_kill {l l' : LockState T} {a : LockLabel T} (ha : a.thread = none)
    (hst : l.step pidOf a = some l') :
    l'.sem = l.sem ∧ l'.ownerPid = l.ownerPid ∧ l'.pc = l.pc := by
  cases a with
  | kill p =>
    obtain ⟨-, ⟨⟩⟩ := Option.ite_none_right_eq_some.mp hst
    exact ⟨rfl, rfl, rfl⟩
  | _ => exact absurd ha (by simp [LockLabel.thread])

/-- Before the flag is set nobody is attached, so that a step of the lock is a kill. -/
theorem Inv.kill_of_unset (h : s.Inv pidOf env)
    (hflag : s.header.initializedFlag ≠ sharedRegionMagicFlag) {a : LockLabel T}
    (hthread : ∀ t ∈ a.thread, s.pc t = .attached) {l : LockState T}
    (hst : s.lockState.step pidOf a = some l) :
    l.sem = s.header.sem ∧ l.ownerPid = s.ownerPid ∧ l.pc = s.lockPc := by
  refine eq_of_kill ?_ hst
  cases hthr : a.thread with
  | none => rfl
  | some t => exact absurd (h.flag_of_pastFlag (by rw [hthread t hthr]; trivial)) hflag

/-- **A step of the region lock, or a kill**, keeps the invariant. -/
theorem Inv.lock (h : s.Inv pidOf env) {a : LockLabel T}
    (hthread : ∀ t ∈ a.thread, s.pc t = .attached) {l : LockState T}
    (hst : s.lockState.step pidOf a = some l) : (s.withLock pidOf l).Inv pidOf env := by
  have halive : ∀ {p}, l.alive p = true → s.alive p = true := fun hp => alive_of_lockStep hst hp
  refine ⟨fun t hlive hin => ?_, h.unset, fun t stores hlive ht => ?_, h.set⟩
  · have hlock := h.inFile t (halive hlive) hin
    show s.fileLock.filter _ = some t
    rw [hlock, Option.filter_some]
    exact if_pos hlive
  · obtain ⟨hflag, done, base, hdone, hheader⟩ := h.storing t stores (halive hlive) ht
    refine ⟨hflag, done, base, hdone, ?_⟩
    show { s.header with sem := l.sem } = _
    rw [(h.kill_of_unset hflag hthread hst).1]
    exact hheader

/-- The labels that are steps of attached threads, or kills. -/
theorem lockStep_cases {a : LockLabel T} (hst : s.step pidOf env (.lock a) = some s') :
    (∀ t ∈ a.thread, s.pc t = .attached) ∧
      ∃ l, s.lockState.step pidOf a = some l ∧ s' = s.withLock pidOf l := by
  obtain ⟨hthread, hmap⟩ := Option.ite_none_right_eq_some.mp hst
  obtain ⟨l, hl, rfl⟩ := Option.map_eq_some_iff.mp hmap
  refine ⟨fun t ht => ?_, l, hl, rfl⟩
  rw [Option.mem_def.mp ht] at hthread
  simpa using hthread

/-- **One step** keeps the invariant. -/
theorem Inv.step (h : s.Inv pidOf env) {a : AttachLabel T} (hst : s.step pidOf env a = some s') :
    s'.Inv pidOf env := by
  cases a with
  | attach t =>
    obtain ⟨hlive, hattach⟩ := Option.ite_none_right_eq_some.mp hst
    exact h.attach hlive hattach
  | lock a =>
    obtain ⟨hthread, l, hl, rfl⟩ := lockStep_cases hst
    exact h.lock hthread hl
  | write t vars =>
    obtain ⟨⟨-, hpc⟩, ⟨⟩⟩ := Option.ite_none_right_eq_some.mp hst
    have hflag : s.header.initializedFlag = sharedRegionMagicFlag :=
      h.flag_of_pastFlag (t := t) (by rw [hpc]; trivial)
    exact ⟨h.inFile, fun hne => absurd hflag hne,
      fun u stores hlive hu => absurd hflag (h.storing u stores hlive hu).1, h.set⟩

/-- Once the flag is set no step changes it, or what the initialisation has stored. -/
theorem Inv.config_step (h : s.Inv pidOf env)
    (hflag : s.header.initializedFlag = sharedRegionMagicFlag) {a : AttachLabel T}
    (hst : s.step pidOf env a = some s') :
    s'.header.initializedFlag = sharedRegionMagicFlag ∧ s'.header.config = s.header.config := by
  cases a with
  | attach t =>
    obtain ⟨hlive, hattach⟩ := Option.ite_none_right_eq_some.mp hst
    obtain ⟨hset, hconfig, -⟩ := h.attach_of_flag hlive hflag hattach
    exact ⟨hset, hconfig⟩
  | lock a =>
    obtain ⟨-, l, -, rfl⟩ := lockStep_cases hst
    exact ⟨hflag, rfl⟩
  | write t vars =>
    obtain ⟨-, ⟨⟩⟩ := Option.ite_none_right_eq_some.mp hst
    exact ⟨hflag, rfl⟩

/-- What is asked of the environment of the lock: `proc_alive` does not report a live process
dead. -/
def ProbeSound (s : AttachState T) : AttachLabel T → Prop
  | .lock a => a.ProbeSound s.lockState
  | _ => True

/-- **One step** keeps the lock in order. -/
theorem LockInv.step (h : s.LockInv pidOf) (hfile : s.Inv pidOf env)
    (hinj : Function.Injective pidOf) (h0 : ∀ t, pidOf t ≠ 0) {a : AttachLabel T}
    (hok : s.ProbeSound a) (hst : s.step pidOf env a = some s') : s'.LockInv pidOf := by
  cases a with
  | attach t =>
    obtain ⟨hlive, hattach⟩ := Option.ite_none_right_eq_some.mp hst
    obtain ⟨howner, halive, hlockPc⟩ := attach_frame hattach
    by_cases hflag : s.header.initializedFlag = sharedRegionMagicFlag
    · obtain ⟨hset, -, hsem⟩ := hfile.attach_of_flag hlive hflag hattach
      have hsame : s'.lockState = s.lockState := by
        rw [lockState, lockState, hsem, howner, halive, hlockPc]
      exact ⟨fun hne => absurd hset hne, fun _ => hsame ▸ h.set hflag⟩
    · obtain ⟨hzero, hidle⟩ := h.unset hflag
      have hidle' : ∀ t, s'.lockPc t = .idle := fun t => by rw [hlockPc, hidle t]
      exact ⟨fun _ => ⟨howner.trans hzero, hidle'⟩, fun hset => LockState.Initial.tokenInv
        ⟨hfile.sem_of_attach hlive hflag hattach hset, howner.trans hzero, hidle'⟩⟩
  | lock a =>
    obtain ⟨hthread, l, hl, rfl⟩ := lockStep_cases hst
    refine ⟨fun hflag => ?_, fun hflag => ?_⟩
    · obtain ⟨hzero, hidle⟩ := h.unset hflag
      obtain ⟨-, howner, hpc⟩ := hfile.kill_of_unset hflag hthread hl
      refine ⟨howner.trans hzero, fun t => ?_⟩
      show l.pc t = .idle
      rw [hpc, hidle t]
    · exact (h.set hflag).move h0 hok (LockState.exitSafe_of_injective hinj _ a)
        (LockState.lockMove_of_step hl)
  | write t vars =>
    obtain ⟨-, ⟨⟩⟩ := Option.ite_none_right_eq_some.mp hst
    exact ⟨h.unset, h.set⟩

end AttachState

section Attach

variable {T : Type*} [DecidableEq T] {pidOf : T → Pid} {env : T → ProcessEnv}
  {s s' s'' : AttachState T}

/-- **What an attached process finds stays.**  Any number of processes with any environments come to
a file of zeros, in any interleaving, anybody killed at any step: from the moment on at which one of
them is attached, the versions, the limits and the priority in the region are those of one single
process, and they stay as they are. -/
theorem attached_config (hs : s.Fresh)
    (hrun : GuardedRun (AttachState.step pidOf env) (fun _ _ => True) s s')
    (hrun' : GuardedRun (AttachState.step pidOf env) (fun _ _ => True) s' s'') {t : T}
    (ht : s'.pc t = .attached) :
    (∃ i, s'.header.config = (env i).config) ∧ s''.header.config = s'.header.config ∧
      s''.header.initializedFlag = sharedRegionMagicFlag := by
  have hinv : s'.Inv pidOf env := hrun.invariant (fun _ _ _ hI _ hst => hI.step hst) hs.inv
  have hflag : s'.header.initializedFlag = sharedRegionMagicFlag :=
    hinv.flag_of_pastFlag (by rw [ht]; trivial)
  have hstay : s''.Inv pidOf env ∧ s''.header.initializedFlag = sharedRegionMagicFlag ∧
      s''.header.config = s'.header.config := by
    refine hrun'.invariant (P := fun u => u.Inv pidOf env ∧
      u.header.initializedFlag = sharedRegionMagicFlag ∧ u.header.config = s'.header.config)
      (fun u a w hu _ hst => ?_) ⟨hinv, hflag, rfl⟩
    obtain ⟨hset, hconfig⟩ := hu.1.config_step hu.2.1 hst
    exact ⟨hu.1.step hst, hset, hconfig.trans hu.2.2⟩
  exact ⟨hinv.set hflag, hstay.2.2, hstay.2.1⟩

/-- **The region lock excludes from the creation of the file on.**  Any number of processes, one
thread each, come to a file of zeros, initialise it and use the lock in it, in any interleaving,
anybody killed at any step, also during the initialisation: as long as `proc_alive` never reports a
live process dead, at most one live thread is between its wait and its post, and the semaphore that
the attached processes see is at most `1`. -/
theorem region_lock_from_creation (hinj : Function.Injective pidOf) (h0 : ∀ t, pidOf t ≠ 0)
    (hs : s.Fresh) (hrun : GuardedRun (AttachState.step pidOf env) AttachState.ProbeSound s s') :
    (∀ t t', s'.lockState.InSection pidOf t → s'.lockState.InSection pidOf t' → t = t') ∧
      ∀ t, s'.pc t = .attached → s'.header.sem ≤ 1 := by
  obtain ⟨hfile, hinv⟩ : s'.Inv pidOf env ∧ s'.LockInv pidOf :=
    hrun.invariant (P := fun u => u.Inv pidOf env ∧ u.LockInv pidOf)
      (fun u a w hu hok hst => ⟨hu.1.step hst, hu.2.step hu.1 hinj h0 hok hst⟩)
      ⟨hs.inv, hs.lockInv⟩
  by_cases hflag : s'.header.initializedFlag = sharedRegionMagicFlag
  · have htoken := hinv.set hflag
    exact ⟨htoken.exclusive, fun _ _ => htoken.sem_le⟩
  · obtain ⟨-, hidle⟩ := hinv.unset hflag
    refine ⟨fun t t' ht => ?_, fun t ht => absurd (by rw [ht]; trivial) (hfile.unset hflag t)⟩
    obtain ⟨-, hpc | hpc | hpc⟩ := ht <;> exact absurd ((hidle t).symm.trans hpc) (by simp)

end Attach

/-! ## A process killed while it initialises the region -/

/-- Two processes, of which the second has a limit of one gigabyte in its environment. -/
def twoEnvs : Fin 2 → ProcessEnv :=
  ![⟨1, 2, fun _ => none, 100⟩,
    ⟨1, 2, fun key => if key = cudaDeviceMemoryLimit then some "1g".toList else none, 101⟩]

/-- A file of zeros. -/
def zeroFile : AttachState (Fin 2) where
  fileLock := none
  header := ⟨0, ⟨0, 0, fun _ => 0, fun _ => 0, 0⟩, 0, ⟨0, 0, 0, 0, 0, 0⟩⟩
  ownerPid := 0
  alive := fun _ => true
  pc := fun _ => .outside
  lockPc := fun _ => .idle

theorem zeroFile_fresh : zeroFile.Fresh := by
  refine ⟨?_, rfl, rfl, fun _ => rfl, fun _ => rfl⟩
  show (0 : ℤ) ≠ 19920718
  decide

/-- The first process is killed after ten stores; the second initialises the region. -/
def killedInitialising : List (AttachLabel (Fin 2)) :=
  List.replicate 12 (.attach holder) ++ .lock (.kill 1) :: List.replicate 47 (.attach waiter)

/-- Then it takes the region lock. -/
def takesLock : List (AttachLabel (Fin 2)) :=
  [.lock (.enter waiter), .lock (.wait waiter .acquired), .lock (.access waiter)]

theorem killedInitialising_probeSound :
    ∀ a ∈ killedInitialising ++ takesLock, ∀ s : AttachState (Fin 2), s.ProbeSound a := by
  intro a ha s
  simp only [killedInitialising, takesLock, List.mem_append, List.mem_replicate, List.mem_cons,
    List.not_mem_nil, or_false] at ha
  rcases ha with (⟨-, rfl⟩ | rfl | ⟨-, rfl⟩) | rfl | rfl | rfl <;> trivial

theorem exec_killedInitialising :
    (exec (AttachState.step twoProcesses twoEnvs) (fun _ _ => true) killedInitialising
      zeroFile).map (fun s => (s.pc holder, s.pc waiter,
        (exec (AttachState.step twoProcesses twoEnvs) (fun _ _ => true) takesLock s).map
          fun s' => (s'.lockPc waiter, s'.header.sem))) =
      some (.storing (initStores.drop 10), .attached, some (.owning, 0)) := by
  decide +kernel

theorem run_killedInitialising :
    ∃ s s' : AttachState (Fin 2),
      GuardedRun (AttachState.step twoProcesses twoEnvs) AttachState.ProbeSound zeroFile s ∧
        s.pc waiter = .attached ∧
        GuardedRun (AttachState.step twoProcesses twoEnvs) AttachState.ProbeSound s s' ∧
        s'.lockPc waiter = .owning := by
  obtain ⟨s, hexec, hs⟩ := Option.map_eq_some_iff.mp exec_killedInitialising
  simp only [Prod.mk.injEq] at hs
  obtain ⟨-, hpc, hlock⟩ := hs
  obtain ⟨s', hexec', hs'⟩ := Option.map_eq_some_iff.mp hlock
  have hsound := killedInitialising_probeSound
  exact ⟨s, s', GuardedRun.of_exec (fun a ha u _ => hsound a (List.mem_append_left _ ha) u) hexec,
    hpc, GuardedRun.of_exec (fun a ha u _ => hsound a (List.mem_append_right _ ha) u) hexec',
    congrArg Prod.fst hs'⟩

/-- What the second process has found when it was attached is still there when it has the lock. -/
theorem attached_config_killedInitialising :
    ∃ s s' : AttachState (Fin 2), s.pc waiter = .attached ∧ s'.lockPc waiter = .owning ∧
      (∃ i, s.header.config = (twoEnvs i).config) ∧ s'.header.config = s.header.config ∧
      s'.header.initializedFlag = sharedRegionMagicFlag := by
  obtain ⟨s, s', hrun, hpc, hrun', hlock⟩ := run_killedInitialising
  exact ⟨s, s', hpc, hlock, attached_config zeroFile_fresh (hrun.mono fun _ _ _ => trivial)
    (hrun'.mono fun _ _ _ => trivial) hpc⟩

/-- And it is inside, alone. -/
theorem region_lock_from_creation_killedInitialising :
    ∃ s : AttachState (Fin 2), s.lockPc waiter = .owning ∧
      (∀ t t', s.lockState.InSection twoProcesses t → s.lockState.InSection twoProcesses t' →
        t = t') ∧ ∀ t, s.pc t = .attached → s.header.sem ≤ 1 := by
  obtain ⟨s, s', hrun, -, hrun', hlock⟩ := run_killedInitialising
  exact ⟨s', hlock,
    region_lock_from_creation (by decide) (by decide) zeroFile_fresh (hrun.trans hrun')⟩

end HamiCore
