import HamiCore.Library.GuardedRun
import HamiCore.Library.Semaphore
import HamiCore.Lock.Protocol
import HamiCore.Process.HostPid

/-!
# One process at a time looks for its host pid

`set_task_pid` compares two listings of a device, before and after the process has retained its
primary context there, and takes the pid that is new for its own.  With two processes at it at the
same time each would find the other's.  `postInit` therefore calls it under `sem_postinit`, a
semaphore shared by the processes of the container.  Under it a process writes its own host pid into
the region or none, in every interleaving and whoever is killed, as long as nobody outside the
section comes to the device between the two listings of a process that lives, whether of the
container or not (`hostpid_own_or_zero`).  A pid has one host pid throughout: a process that takes
over the slot of a predecessor with its pid finds the host pid of that one there.

The semaphore has no owner, and nothing recovers it.  A process that is killed inside the section
keeps it for good: nobody gets in any more, and whoever comes waits for its eleven timeouts, gives
up, and goes on without a host pid (`killed_inside_shuts_out`).
-/

namespace HamiCore

/-- `SEM_WAIT_RETRY_TIMES_POSTINIT`. -/
def semWaitRetryTimesPostinit : ℕ := 10

/-- Where a process is in `postInit`, from `lock_postinit` on. -/
inductive PostInitPc where
  | outside
  /-- In `lock_postinit`, about to call `sem_timedwait`. -/
  | waiting (trials : ℕ)
  /-- In `set_task_pid`, before the first listing. -/
  | locked
  /-- About to retain the primary context. -/
  | listed (before : List NvmlProcessInfo)
  /-- Before the second listing. -/
  | retained (before : List NvmlProcessInfo)
  /-- About to call `set_host_pid`. -/
  | found (hostpid : UInt32)
  /-- About to release the primary context. -/
  | releasing
  /-- `set_task_pid` has returned; `sem_post` is next. -/
  | unlocking (success : Bool)
  /-- Past the section, with `pidfound` set, or not. -/
  | returned (pidfound : Bool)

/-- Between a successful `sem_timedwait` and the `sem_post`. -/
def PostInitPc.Inside : PostInitPc → Prop
  | .outside | .waiting _ | .returned _ => False
  | _ => True

/-- Between the two listings. -/
def PostInitPc.BetweenListings : PostInitPc → Prop
  | .listed _ | .retained _ => True
  | _ => False

/-- The semaphore, what NVML lists for the device, the region, the living processes, and where each
process is. -/
structure PostInitState where
  sem : ℕ
  running : List NvmlProcessInfo
  region : SharedRegion
  alive : Pid → Bool
  pc : Pid → PostInitPc

/-- What can happen next.  `proceed` is the next step of a process inside the section, with what
NVML lists after it, where the driver is called; `fail` is a call of NVML or of the driver that
returns an error. -/
inductive PostInitLabel where
  | call (p : Pid)
  | wait (p : Pid) (r : WaitResult)
  | proceed (p : Pid) (running : List NvmlProcessInfo)
  | fail (p : Pid)
  | others (running : List NvmlProcessInfo) (region : SharedRegion)
  | kill (p : Pid)

namespace PostInitState

/-- Move process `p`. -/
def goto (s : PostInitState) (p : Pid) (pc : PostInitPc) : PostInitState :=
  { s with pc := Function.update s.pc p pc }

/-- `sem_timedwait` returns in `lock_postinit`. -/
def wait (s : PostInitState) (p : Pid) : WaitResult → Option PostInitState
  | .acquired =>
    match s.pc p, s.sem with
    | .waiting _, sem + 1 => some ({ s with sem := sem }.goto p .locked)
    | _, _ => none
  | .timedOut =>
    match s.pc p with
    | .waiting trials =>
      if semWaitRetryTimesPostinit < trials + 1 then some (s.goto p (.returned false))
      else some (s.goto p (.waiting (trials + 1)))
    | _ => none
  | .interrupted =>
    match s.pc p with
    | .waiting trials => some (s.goto p (.waiting (trials + 1)))
    | _ => none

/-- The next step of `set_task_pid`, or the `sem_post` after it. -/
def proceed (s : PostInitState) (p : Pid) (running : List NvmlProcessInfo) :
    Option PostInitState :=
  match s.pc p with
  | .locked => some (s.goto p (.listed s.running))
  | .listed before => some ({ s with running := running }.goto p (.retained before))
  | .retained before =>
    if detectedPid before s.running = 0 then some (s.goto p (.unlocking false))
    else some (s.goto p (.found (detectedPid before s.running)))
  | .found hostpid =>
    some ({ s with region := (setHostPid p (asInt hostpid) s.region).getD s.region }.goto p
      .releasing)
  | .releasing => some ({ s with running := running }.goto p (.unlocking true))
  | .unlocking success => some ({ s with sem := s.sem + 1 }.goto p (.returned success))
  | _ => none

/-- A call inside `set_task_pid` returns an error. -/
def fail (s : PostInitState) (p : Pid) : Option PostInitState :=
  match s.pc p with
  | .locked | .listed _ | .retained _ | .releasing => some (s.goto p (.unlocking false))
  | _ => none

/-- One step of the system. -/
def step (s : PostInitState) : PostInitLabel → Option PostInitState
  | .call p =>
    match s.pc p with
    | .outside => if s.alive p then some (s.goto p (.waiting 0)) else none
    | _ => none
  | .wait p r => if s.alive p then s.wait p r else none
  | .proceed p running => if s.alive p then s.proceed p running else none
  | .fail p => if s.alive p then s.fail p else none
  | .others running region => some { s with running := running, region := region }
  | .kill p => if s.alive p then some { s with alive := Function.update s.alive p false } else none

/-- A process is inside the section. -/
def Inside (s : PostInitState) (p : Pid) : Prop := (s.pc p).Inside

/-- The host pid of a slot is that of its process, or none.  A process that exits sets the pid of
its slot to 0 and leaves the host pid. -/
def OwnOrZero (hostPidOf : Pid → UInt32) (slot : ShrregProcSlot) : Prop :=
  slot.hostpid = 0 ∨ ∃ p, slot.hostpid = asInt (hostPidOf p) ∧ (slot.pid = p ∨ slot.pid = 0)

/-- Before anybody has come to `postInit`. -/
structure Start (hostPidOf : Pid → UInt32) (s : PostInitState) : Prop where
  sem : s.sem = 1
  pc : ∀ p, s.pc p = .outside
  region : ∀ i < s.region.procNum, OwnOrZero hostPidOf (s.region.procs i)

/-- **What is asked of the surroundings.**  When a process retains its primary context, its host pid
comes to the listing and no other does; nobody else comes to it while a live process is between its
listings; and what others do to the region gives no slot a host pid that its process did not have,
or that the process it is marked as exited for did not have. -/
def Undisturbed (hostPidOf : Pid → UInt32) (s : PostInitState) : PostInitLabel → Prop
  | .proceed p running => ∀ before, s.pc p = .listed before →
      ∀ q ∈ reportedPids running, q ∈ reportedPids s.running ∨ q = hostPidOf p
  | .others running region =>
    ((∃ p, s.alive p = true ∧ (s.pc p).BetweenListings) →
      ∀ q ∈ reportedPids running, q ∈ reportedPids s.running) ∧
    ∀ i < region.procNum, (region.procs i).hostpid = 0 ∨ ∃ j < s.region.procNum,
      (region.procs i).hostpid = (s.region.procs j).hostpid ∧
        ((region.procs i).pid = (s.region.procs j).pid ∨ (region.procs i).pid = 0)
  | _ => True

/-- What a live process has found out so far. -/
def Listing (hostPidOf : Pid → UInt32) (running : List NvmlProcessInfo) (p : Pid) :
    PostInitPc → Prop
  | .listed before => ∀ q ∈ reportedPids running, q ∈ reportedPids before
  | .retained before => ∀ q ∈ reportedPids running, q ∈ reportedPids before ∨ q = hostPidOf p
  | .found hostpid => hostpid = hostPidOf p
  | _ => True

/-- **The invariant.** -/
structure Inv (hostPidOf : Pid → UInt32) (s : PostInitState) : Prop where
  token : TokenKept s.sem s.Inside
  listing : ∀ p, s.alive p = true → Listing hostPidOf s.running p (s.pc p)
  region : ∀ i < s.region.procNum, OwnOrZero hostPidOf (s.region.procs i)

/-! ## What a step can do -/

/-- The step labelled `a` moves a process outside the section, takes it in, moves it on inside, lets
it out, or moves none. -/
inductive Move (s : PostInitState) (a : PostInitLabel) : PostInitState → Prop where
  | outside {p : Pid} {pc : PostInitPc} (hlive : s.alive p = true) (hout : ¬ s.Inside p)
      (hpc : ¬ pc.Inside) (hno : pc ≠ .returned true) : Move s a (s.goto p pc)
  | take {p : Pid} {sem : ℕ} (hlive : s.alive p = true) (hsem : s.sem = sem + 1) :
      Move s a ({ s with sem := sem }.goto p .locked)
  | list {p : Pid} (hlive : s.alive p = true) (hpc : s.pc p = .locked) :
      Move s a (s.goto p (.listed s.running))
  | retain {p : Pid} {before running : List NvmlProcessInfo} (ha : a = .proceed p running)
      (hlive : s.alive p = true) (hpc : s.pc p = .listed before) :
      Move s a ({ s with running := running }.goto p (.retained before))
  | compare {p : Pid} {before : List NvmlProcessInfo} (hlive : s.alive p = true)
      (hpc : s.pc p = .retained before) (hne : detectedPid before s.running ≠ 0) :
      Move s a (s.goto p (.found (detectedPid before s.running)))
  | store {p : Pid} {hostpid : UInt32} (hlive : s.alive p = true) (hpc : s.pc p = .found hostpid) :
      Move s a ({ s with region := (setHostPid p (asInt hostpid) s.region).getD s.region }.goto p
        .releasing)
  | release {p : Pid} {running : List NvmlProcessInfo} (hlive : s.alive p = true)
      (hpc : s.pc p = .releasing) :
      Move s a ({ s with running := running }.goto p (.unlocking true))
  | giveUp {p : Pid} (hlive : s.alive p = true) (hin : s.Inside p) :
      Move s a (s.goto p (.unlocking false))
  | post {p : Pid} {success : Bool} (hlive : s.alive p = true)
      (hpc : s.pc p = .unlocking success) :
      Move s a ({ s with sem := s.sem + 1 }.goto p (.returned success))
  | others {running : List NvmlProcessInfo} {region : SharedRegion}
      (ha : a = .others running region) :
      Move s a { s with running := running, region := region }
  | kill {p : Pid} : Move s a { s with alive := Function.update s.alive p false }

section Moves

variable {hostPidOf : Pid → UInt32} {s s' : PostInitState} {a : PostInitLabel} {p : Pid}

theorem move_of_wait {r : WaitResult} (hlive : s.alive p = true) (hst : s.wait p r = some s') :
    s.Move a s' := by
  have hout : ∀ {trials}, s.pc p = .waiting trials → ¬ s.Inside p := by
    intro trials hpc
    rw [Inside, hpc]
    exact id
  cases r with
  | acquired =>
    simp only [PostInitState.wait] at hst
    split at hst
    · next trials sem hpc hsem =>
      cases hst
      exact .take hlive hsem
    · exact absurd hst (by simp)
  | timedOut =>
    simp only [PostInitState.wait] at hst
    split at hst
    · next trials hpc =>
      split_ifs at hst <;> cases hst <;> exact .outside hlive (hout hpc) id (by simp)
    · exact absurd hst (by simp)
  | interrupted =>
    simp only [PostInitState.wait] at hst
    split at hst
    · next trials hpc =>
      cases hst
      exact .outside hlive (hout hpc) id (by simp)
    · exact absurd hst (by simp)

theorem move_of_proceed {running : List NvmlProcessInfo} (hlive : s.alive p = true)
    (hst : s.proceed p running = some s') : s.Move (.proceed p running) s' := by
  simp only [PostInitState.proceed] at hst
  split at hst
  · next hpc =>
    cases hst
    exact .list hlive hpc
  · next before hpc =>
    cases hst
    exact .retain rfl hlive hpc
  · next before hpc =>
    split_ifs at hst with hzero
    · cases hst
      exact .giveUp hlive (by rw [Inside, hpc]; trivial)
    · cases hst
      exact .compare hlive hpc hzero
  · next hostpid hpc =>
    cases hst
    exact .store hlive hpc
  · next hpc =>
    cases hst
    exact .release hlive hpc
  · next success hpc =>
    cases hst
    exact .post hlive hpc
  · exact absurd hst (by simp)

theorem move_of_fail (hlive : s.alive p = true) (hst : s.fail p = some s') : s.Move a s' := by
  simp only [PostInitState.fail] at hst
  split at hst
  case h_5 => exact absurd hst (by simp)
  all_goals
    next hpc =>
    cases hst
    exact .giveUp hlive (by rw [Inside, hpc]; trivial)

/-- **Reading a step.** -/
theorem move_of_step (hst : s.step a = some s') : s.Move a s' := by
  cases a with
  | call p =>
    simp only [PostInitState.step] at hst
    split at hst
    · next hpc =>
      obtain ⟨hlive, ⟨⟩⟩ := Option.ite_none_right_eq_some.mp hst
      exact .outside hlive (by rw [Inside, hpc]; exact id) id (by simp)
    · exact absurd hst (by simp)
  | wait p r =>
    obtain ⟨hlive, hwait⟩ := Option.ite_none_right_eq_some.mp hst
    exact move_of_wait hlive hwait
  | proceed p running =>
    obtain ⟨hlive, hproceed⟩ := Option.ite_none_right_eq_some.mp hst
    exact move_of_proceed hlive hproceed
  | fail p =>
    obtain ⟨hlive, hfail⟩ := Option.ite_none_right_eq_some.mp hst
    exact move_of_fail hlive hfail
  | others running region =>
    cases hst
    exact .others rfl
  | kill p =>
    obtain ⟨-, ⟨⟩⟩ := Option.ite_none_right_eq_some.mp hst
    exact .kill

@[simp] theorem goto_pc_self (s : PostInitState) (p : Pid) (pc : PostInitPc) :
    (s.goto p pc).pc p = pc := Function.update_self _ _ _

theorem goto_pc_of_ne (s : PostInitState) {p q : Pid} (h : q ≠ p) (pc : PostInitPc) :
    (s.goto p pc).pc q = s.pc q := Function.update_of_ne h _ _

/-! ## The semaphore -/

/-- A process that comes inside. -/
theorem goto_inside_iff {pc : PostInitPc} (hpc : pc.Inside) (q : Pid) :
    (s.goto p pc).Inside q ↔ q = p ∨ s.Inside q := by
  by_cases hqp : q = p
  · subst hqp
    rw [Inside, goto_pc_self]
    exact iff_of_true hpc (Or.inl rfl)
  · rw [Inside, goto_pc_of_ne _ hqp]
    exact ⟨Or.inr, fun h => h.resolve_left hqp⟩

/-- A process that goes outside. -/
theorem goto_outside_iff {pc : PostInitPc} (hpc : ¬ pc.Inside) (q : Pid) :
    (s.goto p pc).Inside q ↔ q ≠ p ∧ s.Inside q := by
  by_cases hqp : q = p
  · subst hqp
    rw [Inside, goto_pc_self]
    exact iff_of_false hpc fun h => h.1 rfl
  · rw [Inside, goto_pc_of_ne _ hqp]
    exact ⟨fun h => ⟨hqp, h⟩, fun h => h.2⟩

/-- A process that does neither. -/
theorem tokenKept_goto (h : TokenKept s.sem s.Inside) {pc : PostInitPc}
    (hpc : pc.Inside ↔ s.Inside p) : TokenKept s.sem (s.goto p pc).Inside := by
  refine h.stay fun q => ?_
  by_cases hqp : q = p
  · subst hqp
    rw [Inside, goto_pc_self]
    exact hpc
  · rw [Inside, goto_pc_of_ne _ hqp]
    rfl

/-- **At most one process is inside**, dead or alive, whatever the surroundings do. -/
theorem tokenKept_move (h : TokenKept s.sem s.Inside) (hm : s.Move a s') :
    TokenKept s'.sem s'.Inside := by
  have hin : ∀ {p pc}, s.pc p = pc → pc.Inside → s.Inside p := by
    rintro p pc rfl hpc
    exact hpc
  cases hm with
  | outside _ hout hpc _ => exact tokenKept_goto h (iff_of_false hpc hout)
  | take _ hsem =>
    rw [hsem] at h
    have hlocked : PostInitPc.locked.Inside := trivial
    exact h.take fun q => goto_inside_iff hlocked q
  | list _ hpc => exact tokenKept_goto h (iff_of_true trivial (hin hpc trivial))
  | @retain p before running _ _ hpc =>
    exact tokenKept_goto (s := { s with running := running }) h
      (iff_of_true trivial (hin hpc trivial))
  | compare _ hpc _ => exact tokenKept_goto h (iff_of_true trivial (hin hpc trivial))
  | store _ hpc =>
    exact tokenKept_goto (s := { s with region := _ }) h (iff_of_true trivial (hin hpc trivial))
  | @release p running _ hpc =>
    exact tokenKept_goto (s := { s with running := running }) h
      (iff_of_true trivial (hin hpc trivial))
  | giveUp _ hin => exact tokenKept_goto h (iff_of_true trivial hin)
  | @post p success _ hpc =>
    have hreturned : ¬ (PostInitPc.returned success).Inside := id
    exact h.give (hin hpc trivial) fun q => goto_outside_iff hreturned q
  | others _ => exact h
  | kill => exact h

/-! ## The listings -/

/-- Outside the section nothing is known of the listings, and nothing is needed. -/
theorem listing_of_not_inside {pc : PostInitPc} (h : ¬ pc.Inside)
    (running : List NvmlProcessInfo) : Listing hostPidOf running p pc := by
  cases pc with
  | outside => trivial
  | waiting trials => trivial
  | returned pidfound => trivial
  | _ => exact absurd trivial h

/-- The first pid that is new in the second listing, if it is not 0. -/
theorem detectedPid_notMem {before after : List NvmlProcessInfo}
    (h : detectedPid before after ≠ 0) : detectedPid before after ∉ reportedPids before := by
  unfold detectedPid getextrapid at h ⊢
  split_ifs at h ⊢ with hcount
  · exact absurd rfl h
  · cases hfind : (mergepid after []).find? fun pid => pid ∉ mergepid before [] with
    | none =>
      rw [hfind] at h
      exact absurd rfl h
    | some pid =>
      have hnew := List.find?_some hfind
      simpa [mergepid_nil, mem_firstOccurrences] using hnew

/-- `set_host_pid` writes the host pid of the caller. -/
theorem ownOrZero_setHostPid {r : SharedRegion}
    (h : ∀ i < r.procNum, OwnOrZero hostPidOf (r.procs i)) :
    ∀ i < ((setHostPid p (asInt (hostPidOf p)) r).getD r).procNum,
      OwnOrZero hostPidOf (((setHostPid p (asInt (hostPidOf p)) r).getD r).procs i) := by
  unfold HamiCore.setHostPid
  split_ifs with hslot
  · intro i hi
    dsimp only [Option.getD_some]
    split_ifs with hself
    · refine Or.inr ⟨p, ?_, Or.inl hself.2⟩
      dsimp only
    · exact h i hi
  · exact h

/-- A slot that others have moved, or whose process has exited. -/
theorem OwnOrZero.of_eq {slot slot' : ShrregProcSlot} (h : OwnOrZero hostPidOf slot)
    (hhost : slot'.hostpid = slot.hostpid) (hpid : slot'.pid = slot.pid ∨ slot'.pid = 0) :
    OwnOrZero hostPidOf slot' := by
  rcases h with hzero | ⟨p, hown, hp⟩
  · exact Or.inl (hhost.trans hzero)
  · refine Or.inr ⟨p, hhost.trans hown, ?_⟩
    rcases hpid with hpid | hpid
    · rwa [hpid]
    · exact Or.inr hpid

/-- What a process knows when it moves, and the others when the listing stays or the process is
inside. -/
theorem listing_goto (h : s.Inv hostPidOf) {pc : PostInitPc} {running : List NvmlProcessInfo}
    (hothers : running = s.running ∨ s.Inside p)
    (hp : s.alive p = true → Listing hostPidOf running p pc) (q : Pid)
    (hlive : s.alive q = true) : Listing hostPidOf running q ((s.goto p pc).pc q) := by
  by_cases hqp : q = p
  · subst hqp
    rw [goto_pc_self]
    exact hp hlive
  · rw [goto_pc_of_ne _ hqp]
    rcases hothers with hsame | hin
    · rw [hsame]
      exact h.listing q hlive
    · exact listing_of_not_inside (fun hq => hqp (h.token.unique q p hq hin)) _

/-- **One step** keeps the invariant. -/
theorem Inv.move (h : s.Inv hostPidOf) (hok : s.Undisturbed hostPidOf a) (hm : s.Move a s') :
    s'.Inv hostPidOf := by
  have htoken := tokenKept_move h.token hm
  cases hm with
  | outside _ _ hpc _ =>
    exact ⟨htoken, listing_goto h (Or.inl rfl) fun _ => listing_of_not_inside hpc _, h.region⟩
  | take _ _ => exact ⟨htoken, listing_goto h (Or.inl rfl) fun _ => trivial, h.region⟩
  | list _ _ => exact ⟨htoken, listing_goto h (Or.inl rfl) fun _ _ hq => hq, h.region⟩
  | @retain p before running ha hlive hpc =>
    subst ha
    have hlisting := h.listing p hlive
    rw [hpc] at hlisting
    refine ⟨htoken, listing_goto h (Or.inr ?_) fun _ q hq => ?_, h.region⟩
    · rw [Inside, hpc]
      trivial
    · rcases hok before hpc q hq with hold | hown
      · exact Or.inl (hlisting q hold)
      · exact Or.inr hown
  | @compare p before hlive hpc hne =>
    have hlisting := h.listing p hlive
    rw [hpc] at hlisting
    refine ⟨htoken, listing_goto h (Or.inl rfl) fun _ => ?_, h.region⟩
    exact (hlisting _ (detectedPid_mem hne)).resolve_left (detectedPid_notMem hne)
  | @store p hostpid hlive hpc =>
    have hlisting := h.listing p hlive
    rw [hpc] at hlisting
    obtain rfl : hostpid = hostPidOf p := hlisting
    exact ⟨htoken, listing_goto h (Or.inl rfl) fun _ => trivial, ownOrZero_setHostPid h.region⟩
  | release _ hpc =>
    refine ⟨htoken, listing_goto h (Or.inr ?_) fun _ => trivial, h.region⟩
    rw [Inside, hpc]
    trivial
  | giveUp _ _ => exact ⟨htoken, listing_goto h (Or.inl rfl) fun _ => trivial, h.region⟩
  | post _ _ => exact ⟨htoken, listing_goto h (Or.inl rfl) fun _ => trivial, h.region⟩
  | @others running region ha =>
    subst ha
    obtain ⟨hnobody, hregion⟩ := hok
    refine ⟨htoken, fun p hlive => ?_, fun i hi => ?_⟩
    · have hlisting := h.listing p hlive
      show Listing hostPidOf running p (s.pc p)
      cases hpc : s.pc p with
      | listed before =>
        have hquiet := hnobody ⟨p, hlive, by rw [hpc]; trivial⟩
        rw [hpc] at hlisting
        exact fun q hq => hlisting q (hquiet q hq)
      | retained before =>
        have hquiet := hnobody ⟨p, hlive, by rw [hpc]; trivial⟩
        rw [hpc] at hlisting
        exact fun q hq => hlisting q (hquiet q hq)
      | found hostpid =>
        rw [hpc] at hlisting
        exact hlisting
      | _ => trivial
    · rcases hregion i hi with hzero | ⟨j, hj, hhost, hpid⟩
      · exact Or.inl hzero
      · exact (h.region j hj).of_eq hhost hpid
  | kill => exact ⟨htoken, fun q hlive => h.listing q (LockState.alive_of_kill hlive), h.region⟩

/-- **A whole run** keeps it. -/
theorem Inv.run (h : s.Inv hostPidOf)
    (hrun : GuardedRun PostInitState.step (Undisturbed hostPidOf) s s') : s'.Inv hostPidOf :=
  hrun.invariant (fun _ _ _ hu hok hst => hu.move hok (move_of_step hst)) h

theorem Start.inv (h : s.Start hostPidOf) : s.Inv hostPidOf where
  token := by
    rw [h.sem]
    refine TokenKept.start fun p hp => ?_
    rw [Inside, h.pc p] at hp
    exact hp
  listing := by
    intro p _
    rw [h.pc p]
    trivial
  region := h.region

end Moves

end PostInitState

section PostInit

variable {hostPidOf : Pid → UInt32} {s s' s'' : PostInitState}

/-- Process `p` is dead, has the semaphore, and nobody has found a pid since. -/
structure PostInitState.ShutOut (p : Pid) (s s' : PostInitState) : Prop where
  token : TokenKept s'.sem s'.Inside
  dead : s'.alive p = false
  inside : s'.Inside p
  found : ∀ q, s'.pc q = .returned true → s.pc q = .returned true

theorem PostInitState.ShutOut.move {p : Pid} (h : ShutOut p s s') {a : PostInitLabel}
    (hm : s'.Move a s'') : ShutOut p s s'' := by
  have htoken := tokenKept_move h.token hm
  -- a live process is not inside
  have hout : ∀ {q}, s'.alive q = true → ¬ s'.Inside q := by
    intro q hlive hin
    rw [h.token.unique q p hin h.inside, h.dead] at hlive
    exact absurd hlive (by simp)
  have hin : ∀ {q pc}, s'.pc q = pc → pc.Inside → s'.Inside q := by
    rintro q pc rfl hpc
    exact hpc
  cases hm with
  | @outside q pc hlive _ _ hno =>
    have hpq : p ≠ q := by
      rintro rfl
      exact absurd (h.dead.symm.trans hlive) (by simp)
    refine ⟨htoken, h.dead, ?_, fun u hu => ?_⟩
    · rw [Inside, goto_pc_of_ne _ hpq]
      exact h.inside
    · by_cases huq : u = q
      · subst huq
        rw [goto_pc_self] at hu
        exact absurd hu hno
      · rw [goto_pc_of_ne _ huq] at hu
        exact h.found u hu
  | take _ hsem => exact absurd (h.token.zero_iff.mpr ⟨p, h.inside⟩) (by omega)
  | list hlive hpc => exact absurd (hin hpc trivial) (hout hlive)
  | retain _ hlive hpc => exact absurd (hin hpc trivial) (hout hlive)
  | compare hlive hpc _ => exact absurd (hin hpc trivial) (hout hlive)
  | store hlive hpc => exact absurd (hin hpc trivial) (hout hlive)
  | release hlive hpc => exact absurd (hin hpc trivial) (hout hlive)
  | giveUp hlive hin => exact absurd hin (hout hlive)
  | post hlive hpc => exact absurd (hin hpc trivial) (hout hlive)
  | others _ => exact ⟨htoken, h.dead, h.inside, h.found⟩
  | @kill q =>
    refine ⟨htoken, ?_, h.inside, h.found⟩
    by_cases hpq : p = q
    · subst hpq
      exact Function.update_self _ _ _
    · exact (Function.update_of_ne hpq _ _).trans h.dead

/-- **A process killed inside the section shuts everybody out.**  In every run in which a process is
killed between its wait and its post, whatever happens afterwards, the semaphore stays at 0, no live
process is inside, and no process finds its host pid that had not found it before. -/
theorem killed_inside_shuts_out (hs : s.Start hostPidOf)
    (hrun : GuardedRun PostInitState.step (fun _ _ => True) s s') {p : Pid}
    (hdead : s'.alive p = false) (hin : s'.Inside p)
    (hrun' : GuardedRun PostInitState.step (fun _ _ => True) s' s'') :
    s''.sem = 0 ∧ (∀ q, s''.alive q = true → ¬ s''.Inside q) ∧
      ∀ q, s''.pc q = .returned true → s'.pc q = .returned true := by
  have htoken : TokenKept s'.sem s'.Inside :=
    hrun.invariant (P := fun u => TokenKept u.sem u.Inside) (fun _ _ _ h _ hst =>
      PostInitState.tokenKept_move h (PostInitState.move_of_step hst)) hs.inv.token
  have hshut : PostInitState.ShutOut p s' s'' :=
    hrun'.invariant (fun _ _ _ h _ hst => h.move (PostInitState.move_of_step hst))
      ⟨htoken, hdead, hin, fun _ hq => hq⟩
  refine ⟨hshut.token.zero_iff.mpr ⟨p, hshut.inside⟩, fun q hlive hq => ?_, hshut.found⟩
  rw [hshut.token.unique q p hq hshut.inside, hshut.dead] at hlive
  exact absurd hlive (by simp)

end PostInit

/-! ## Two processes -/

/-- Process 1 is 1001 outside, any other 1002. -/
def outsidePid (p : Pid) : UInt32 := if p = 1 then 1001 else 1002

/-- Processes 1 and 2 are registered, and a process of somebody else is at the device. -/
def twoAtPostInit : PostInitState where
  sem := 1
  running := [⟨500, 0⟩]
  region := ⟨fun _ => 0,
    fun i => { ShrregProcSlot.blank with pid := if i = 0 then 1 else 2 }, 2⟩
  alive := fun _ => true
  pc := fun _ => .outside

theorem twoAtPostInit_start : twoAtPostInit.Start outsidePid :=
  ⟨rfl, fun _ => rfl, fun _ _ => Or.inl rfl⟩

/-- Process 2 waits until process 1 is through. -/
def oneAfterTheOther : List PostInitLabel :=
  [.call 1, .call 2, .wait 1 .acquired, .wait 2 .timedOut, .proceed 1 [],
    .proceed 1 [⟨1001, 64⟩, ⟨500, 0⟩], .proceed 1 [], .proceed 1 [], .proceed 1 [⟨500, 0⟩],
    .proceed 1 [], .wait 2 .acquired, .proceed 2 [], .proceed 2 [⟨500, 0⟩, ⟨1002, 64⟩],
    .proceed 2 [], .proceed 2 []]

/-- `Undisturbed` where others do nothing, evaluated. -/
def undisturbed (s : PostInitState) : PostInitLabel → Bool
  | .proceed p running =>
    match s.pc p with
    | .listed _ => (reportedPids running).all fun q => q ∈ reportedPids s.running ∨ q = outsidePid p
    | _ => true
  | .others _ _ => false
  | _ => true

theorem undisturbed_of_eval {s : PostInitState} {a : PostInitLabel}
    (h : undisturbed s a = true) : s.Undisturbed outsidePid a := by
  cases a with
  | proceed p running =>
    intro before hpc q hq
    simp only [undisturbed, hpc, List.all_eq_true, decide_eq_true_eq] at h
    exact h q hq
  | others running region => exact absurd h (by simp [undisturbed])
  | _ => trivial

theorem exec_oneAfterTheOther :
    (exec PostInitState.step undisturbed oneAfterTheOther twoAtPostInit).map
      (fun s => (s.region.procNum, (s.region.procs 0).hostpid, (s.region.procs 1).hostpid,
        (s.region.procs 1).pid)) =
      some (2, 1001, 1002, 2) := by
  decide +kernel

/-- Process 1 is killed after its first listing. -/
def killedListing : List PostInitLabel :=
  [.call 1, .wait 1 .acquired, .proceed 1 [], .kill 1]

/-- Process 2 waits for nothing. -/
def waitsForNothing : List PostInitLabel :=
  .call 2 :: List.replicate 11 (.wait 2 .timedOut)

/-- Process 2 gives up, and is not inside. -/
theorem killed_inside_shuts_out_killedListing :
    ∃ s : PostInitState, s.pc 2 = .returned false ∧ s.sem = 0 ∧
      ∀ q, s.alive q = true → ¬ s.Inside q := by
  obtain ⟨s, s', hexec, hdead, hpc, hexec', hreturned⟩ : ∃ s s',
      exec PostInitState.step (fun _ _ => true) killedListing twoAtPostInit = some s ∧
      s.alive 1 = false ∧ s.pc 1 = .listed [⟨500, 0⟩] ∧
      exec PostInitState.step (fun _ _ => true) waitsForNothing s = some s' ∧
      s'.pc 2 = .returned false := ⟨_, _, rfl, rfl, rfl, rfl, rfl⟩
  have hin : s.Inside 1 := by
    rw [PostInitState.Inside, hpc]
    trivial
  obtain ⟨hsem, hout, -⟩ := killed_inside_shuts_out twoAtPostInit_start
    (GuardedRun.of_exec (fun _ _ _ _ => trivial) hexec) hdead hin
    (GuardedRun.of_exec (fun _ _ _ _ => trivial) hexec')
  exact ⟨s', hreturned, hsem, hout⟩

end HamiCore
