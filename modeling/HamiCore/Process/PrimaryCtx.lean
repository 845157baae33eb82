import HamiCore.Allocator.Failure
import HamiCore.Process.Fork

/-!
# The charge for primary contexts

The driver counts the references to the primary context of a device: it is active while successful
retains outnumber successful releases.  The hooks have one flag for each device instead.
`cuDevicePrimaryCtxRetain` charges `context_size` when the flag is off and turns it on;
`cuDevicePrimaryCtxRelease_v2` gives the charge back when the flag is on and turns it off; and
neither looks at what the driver returns.

So the counter always says what the flag says, and it never wraps below zero.  Whether it says what
the driver's count says is another matter: the first of two releases already gives the charge back,
and a failed call moves the flag and not the count.  `context_follows_references` is the exact
condition, call by call.
-/

namespace HamiCore

/-- A process, and the driver's references to its primary contexts: the successful retains less the
successful releases. -/
structure ContextState where
  proc : Process
  references : Dev → ℤ

/-- The calls.  `driver` is what the driver's function returns, and `procAlive` is for the
compaction in `init_proc_slot_withlock`, should the call be the first. -/
inductive ContextCall where
  | cuDevicePrimaryCtxRetain (procAlive : Pid → ProcState) (dev : Dev)
      (driver : Except CudaError Unit)
  | cuDevicePrimaryCtxReleaseV2 (procAlive : Pid → ProcState) (dev : Dev)
      (driver : Except CudaError Unit)

namespace ContextCall

def dev : ContextCall → Dev
  | .cuDevicePrimaryCtxRetain _ dev _ => dev
  | .cuDevicePrimaryCtxReleaseV2 _ dev _ => dev

/-- What the call sets the flag to. -/
def flag : ContextCall → Bool
  | .cuDevicePrimaryCtxRetain _ _ _ => true
  | .cuDevicePrimaryCtxReleaseV2 _ _ _ => false

/-- What the call adds to the driver's count. -/
def change : ContextCall → ℤ
  | .cuDevicePrimaryCtxRetain _ _ driver => if driver.isOk then 1 else 0
  | .cuDevicePrimaryCtxReleaseV2 _ _ driver => if driver.isOk then -1 else 0

end ContextCall

/-- The state after a call. -/
def ContextState.step (s : ContextState) (c : ContextCall) : Option ContextState :=
  (match c with
    | .cuDevicePrimaryCtxRetain procAlive dev _ => s.proc.primaryCtxRetain procAlive dev
    | .cuDevicePrimaryCtxReleaseV2 procAlive dev _ => s.proc.primaryCtxRelease procAlive dev).map
    fun p => ⟨p, Function.update s.references c.dev (s.references c.dev + c.change)⟩

/-- The counters follow the driver: `context_size` for a device whose context is active, and `0` for
any other. -/
def ContextState.Follows (s : ContextState) : Prop :=
  ∃ slot, s.proc.info.PointsAt slot ∧ ∀ d,
    (slot.used d).contextSize = if 0 < s.references d then s.proc.contextSize else 0

/-- A release that subtracts finds enough to subtract from. -/
def ContextState.NoUnderflow (s : ContextState) : Prop :=
  ∃ slot, s.proc.info.PointsAt slot ∧ ∀ d, s.proc.ctxActivate d = true →
    s.proc.contextSize ≤ (slot.used d).contextSize

/-- The condition, on the driver's count before the call.  A successful retain does not meet a count
below zero, and a successful release none above one; a failed retain happens only while the context
is active, and a failed release only while it is not. -/
def ContextCall.Keeps (s : ContextState) (c : ContextCall) : Prop :=
  match c with
  | .cuDevicePrimaryCtxRetain _ dev (.ok _) => 0 ≤ s.references dev
  | .cuDevicePrimaryCtxRetain _ dev (.error _) => 0 < s.references dev
  | .cuDevicePrimaryCtxReleaseV2 _ dev (.ok _) => s.references dev ≤ 1
  | .cuDevicePrimaryCtxReleaseV2 _ dev (.error _) => s.references dev ≤ 0

instance (s : ContextState) (c : ContextCall) : Decidable (c.Keeps s) :=
  match c with
  | .cuDevicePrimaryCtxRetain _ dev (.ok _) => inferInstanceAs (Decidable (0 ≤ s.references dev))
  | .cuDevicePrimaryCtxRetain _ dev (.error _) => inferInstanceAs (Decidable (0 < s.references dev))
  | .cuDevicePrimaryCtxReleaseV2 _ dev (.ok _) => inferInstanceAs (Decidable (s.references dev ≤ 1))
  | .cuDevicePrimaryCtxReleaseV2 _ dev (.error _) =>
    inferInstanceAs (Decidable (s.references dev ≤ 0))

/-- The condition says that the flag and the count agree after the call. -/
theorem ContextCall.keeps_iff (s : ContextState) (c : ContextCall) :
    c.Keeps s ↔ (c.flag = true ↔ 0 < s.references c.dev + c.change) := by
  cases c with
  | cuDevicePrimaryCtxRetain procAlive dev driver =>
    cases driver with
    | ok _ =>
      show 0 ≤ s.references dev ↔ (true = true ↔ 0 < s.references dev + 1)
      simp only [true_iff]
      omega
    | error res =>
      show 0 < s.references dev ↔ (true = true ↔ 0 < s.references dev + 0)
      simp only [true_iff, add_zero]
  | cuDevicePrimaryCtxReleaseV2 procAlive dev driver =>
    cases driver with
    | ok _ =>
      show s.references dev ≤ 1 ↔ (false = true ↔ 0 < s.references dev + -1)
      simp only [Bool.false_eq_true, false_iff]
      omega
    | error res =>
      show s.references dev ≤ 0 ↔ (false = true ↔ 0 < s.references dev + 0)
      simp only [Bool.false_eq_true, false_iff]
      omega

/-! ## The counters say what the flags say -/

/-- A registered process whose context counters are what its flags say. -/
structure Process.Flagged (p : Process) : Prop where
  registered : p.registered = true
  map_eq : p.cudaToNvmlMap = id
  size_pos : 0 < p.contextSize
  slot : ∃ slot, p.info.PointsAt slot ∧ ∀ d,
    (slot.used d).contextSize = if p.ctxActivate d then p.contextSize else 0

section Flagged

variable {p : Process}

/-- The context counters of a slot after a charge or a release. -/
theorem contextSize_update (slot : ShrregProcSlot) (op : UInt64 → UInt64 → UInt64) (dev d : Dev)
    (usage : UInt64) :
    ((slot.update op dev usage 0).used d).contextSize =
      if d = dev then op (slot.used dev).contextSize usage else (slot.used d).contextSize := by
  rw [ShrregProcSlot.used_update]
  by_cases hd : d = dev
  · rw [hd, Function.update_self, if_pos rfl]
    rfl
  · rw [Function.update_of_ne hd, if_neg hd]

/-- Setting a flag to what it is. -/
theorem Process.Flagged.set_same (h : p.Flagged) {dev : Dev} {b : Bool}
    (hb : p.ctxActivate dev = b) :
    Flagged { p with ctxActivate := Function.update p.ctxActivate dev b } := by
  rw [← hb, Function.update_eq_self]
  exact h

/-- Moving a flag and the counter of its device together. -/
theorem Process.Flagged.move (h : p.Flagged) (dev : Dev) (b : Bool)
    (op : UInt64 → UInt64 → UInt64)
    (hop : op (if p.ctxActivate dev then p.contextSize else 0) p.contextSize =
      if b then p.contextSize else 0) :
    Flagged { p with
      info := (updateGpuDeviceMemoryUsage op p.cudaToNvmlMap p.info p.info.pid dev
        p.contextSize 0).1
      ctxActivate := Function.update p.ctxActivate dev b } := by
  obtain ⟨slot, hpts, hused⟩ := h.slot
  refine ⟨h.registered, h.map_eq, h.size_pos, _,
    (hpts.updateType p.cudaToNvmlMap op dev p.contextSize 0).1, fun d => ?_⟩
  rw [contextSize_update, h.map_eq]
  show (if d = dev then _ else _) =
    if Function.update p.ctxActivate dev b d then p.contextSize else 0
  by_cases hd : d = dev
  · rw [hd, if_pos rfl, Function.update_self, id, hused dev]
    exact hop
  · rw [if_neg hd, Function.update_of_ne hd]
    exact hused d

/-- **`cuDevicePrimaryCtxRetain`** returns with the flag on. -/
theorem Process.Flagged.primaryCtxRetain (h : p.Flagged) (procAlive : Pid → ProcState)
    (dev : Dev) :
    ∃ p', p.primaryCtxRetain procAlive dev = some p' ∧ p'.Flagged ∧
      p'.ctxActivate = Function.update p.ctxActivate dev true ∧
      p'.contextSize = p.contextSize := by
  unfold Process.primaryCtxRetain
  cases hflag : p.ctxActivate dev with
  | true =>
    rw [if_pos rfl, Option.map_some, if_pos h.size_pos]
    exact ⟨_, rfl, h.set_same hflag, rfl, rfl⟩
  | false =>
    rw [if_neg Bool.false_ne_true, Process.charge, Process.ensureInitialized, if_pos h.registered,
      Option.map_some, Option.map_some, if_pos h.size_pos]
    refine ⟨_, rfl, h.move dev true (· + ·) ?_, rfl, rfl⟩
    rw [hflag]
    simp

/-- **`cuDevicePrimaryCtxRelease_v2`** returns with the flag off. -/
theorem Process.Flagged.primaryCtxRelease (h : p.Flagged) (procAlive : Pid → ProcState)
    (dev : Dev) :
    ∃ p', p.primaryCtxRelease procAlive dev = some p' ∧ p'.Flagged ∧
      p'.ctxActivate = Function.update p.ctxActivate dev false ∧
      p'.contextSize = p.contextSize := by
  unfold Process.primaryCtxRelease
  cases hflag : p.ctxActivate dev with
  | false =>
    rw [if_neg Bool.false_ne_true, Option.map_some]
    exact ⟨_, rfl, h.set_same hflag, rfl, rfl⟩
  | true =>
    rw [if_pos rfl, Process.discharge, Process.ensureInitialized, if_pos h.registered,
      Option.map_some, Option.map_some]
    have hmoved := h.move dev false (· - ·) (by rw [hflag]; simp)
    exact ⟨_, rfl, ⟨hmoved.registered, hmoved.map_eq, hmoved.size_pos, hmoved.slot⟩, rfl, rfl⟩

end Flagged

/-! ## Flags and references -/

section References

variable {s t : ContextState} {c : ContextCall}

theorem Process.Flagged.noUnderflow (h : s.proc.Flagged) : s.NoUnderflow := by
  obtain ⟨slot, hpts, hused⟩ := h.slot
  refine ⟨slot, hpts, fun d hd => ?_⟩
  rw [hused d, if_pos hd]
  exact UInt64.le_refl _

/-- The counters follow the driver exactly when the flags do. -/
theorem Process.Flagged.follows_iff (h : s.proc.Flagged) :
    s.Follows ↔ ∀ d, s.proc.ctxActivate d = true ↔ 0 < s.references d := by
  have hpos : s.proc.contextSize ≠ 0 := fun hzero =>
    absurd (hzero ▸ h.size_pos) (UInt64.lt_irrefl 0)
  obtain ⟨slot, hpts, hused⟩ := h.slot
  constructor
  · rintro ⟨slot', hpts', hcount⟩ d
    have hd := hused d
    rw [hpts.eq hpts', hcount d] at hd
    constructor
    · intro hflag
      by_contra hnone
      rw [if_neg hnone, if_pos hflag] at hd
      exact hpos hd.symm
    · intro hactive
      by_contra hoff
      rw [if_pos hactive, if_neg hoff] at hd
      exact hpos hd
  · intro hflags
    refine ⟨slot, hpts, fun d => ?_⟩
    rw [hused d]
    exact if_congr (hflags d) rfl rfl

/-- **One call.**  It returns; the counters still say what the flags say, the flag of its device is
set as the call says, and the driver's count moves. -/
theorem Process.Flagged.step (h : s.proc.Flagged) (c : ContextCall) :
    ∃ t, s.step c = some t ∧ t.proc.Flagged ∧
      t.proc.ctxActivate = Function.update s.proc.ctxActivate c.dev c.flag ∧
      t.references = Function.update s.references c.dev (s.references c.dev + c.change) := by
  cases c with
  | cuDevicePrimaryCtxRetain procAlive dev driver =>
    obtain ⟨p, hcall, hflagged, hflag, -⟩ := h.primaryCtxRetain procAlive dev
    refine ⟨⟨p, Function.update s.references dev (s.references dev + _)⟩, ?_, hflagged, hflag, rfl⟩
    rw [ContextState.step, hcall, Option.map_some]
    rfl
  | cuDevicePrimaryCtxReleaseV2 procAlive dev driver =>
    obtain ⟨p, hcall, hflagged, hflag, -⟩ := h.primaryCtxRelease procAlive dev
    refine ⟨⟨p, Function.update s.references dev (s.references dev + _)⟩, ?_, hflagged, hflag, rfl⟩
    rw [ContextState.step, hcall, Option.map_some]
    rfl

theorem Process.Flagged.of_step (h : s.proc.Flagged) (hst : s.step c = some t) :
    t.proc.Flagged ∧ t.proc.ctxActivate = Function.update s.proc.ctxActivate c.dev c.flag ∧
      t.references = Function.update s.references c.dev (s.references c.dev + c.change) := by
  obtain ⟨t', hst', hrest⟩ := h.step c
  rw [hst] at hst'
  cases hst'
  exact hrest

/-- **The condition is exact.**  Where the counters follow the driver, they do so after a call if
and only if the call keeps the condition. -/
theorem Process.Flagged.follows_step_iff (h : s.proc.Flagged) (hfollows : s.Follows)
    (hst : s.step c = some t) : t.Follows ↔ c.Keeps s := by
  obtain ⟨hflagged, hflag, hrefs⟩ := h.of_step hst
  rw [hflagged.follows_iff, ContextCall.keeps_iff, hflag, hrefs]
  constructor
  · intro hall
    have hdev := hall c.dev
    rwa [Function.update_self, Function.update_self] at hdev
  · intro hdev d
    by_cases hd : d = c.dev
    · rw [hd, Function.update_self, Function.update_self]
      exact hdev
    · rw [Function.update_of_ne hd, Function.update_of_ne hd]
      exact h.follows_iff.mp hfollows d

end References

/-- A process with the identity as device map, a `context_size` above `0`, no context charged, no
flag set and no reference held.  It has registered: `context_size` is `0` until `set_task_pid`
measures it, and that runs after `ensure_initialized`. -/
structure ContextState.Fresh (s : ContextState) : Prop where
  registered : s.proc.registered = true
  map_eq : s.proc.cudaToNvmlMap = id
  size_pos : 0 < s.proc.contextSize
  flags_off : s.proc.ctxActivate = fun _ => false
  unreferenced : s.references = fun _ => 0
  slot : ∃ slot, s.proc.info.PointsAt slot ∧ ∀ d, (slot.used d).contextSize = 0

theorem ContextState.Fresh.flagged {s : ContextState} (h : s.Fresh) : s.proc.Flagged where
  registered := h.registered
  map_eq := h.map_eq
  size_pos := h.size_pos
  slot := by
    obtain ⟨slot, hpts, hused⟩ := h.slot
    refine ⟨slot, hpts, fun d => ?_⟩
    rw [hused d, h.flags_off]
    rfl

theorem ContextState.Fresh.follows {s : ContextState} (h : s.Fresh) : s.Follows := by
  rw [h.flagged.follows_iff, h.flags_off, h.unreferenced]
  simp

/-- **No call** takes the counters out of step with the flags. -/
theorem ContextState.Fresh.run_flagged {ok : ContextState → ContextCall → Prop}
    {s t : ContextState} (h : s.Fresh) (hrun : GuardedRun ContextState.step ok s t) :
    t.proc.Flagged :=
  hrun.invariant (P := fun u => u.proc.Flagged) (fun _ _ _ hu _ hst => (hu.of_step hst).1) h.flagged

/-- **The charge for a primary context and the driver's references.**  In every run of retains and
releases, whatever the driver returns, every call returns and no release wraps the counter below
zero.  The counters follow the driver's references in every state of a run whose calls all keep the
condition, and the first call that does not keep it ends that. -/
theorem context_follows_references {s : ContextState} (h : s.Fresh) :
    (∀ t, GuardedRun ContextState.step (fun _ _ => True) s t →
        t.NoUnderflow ∧ ∀ c, ∃ u, t.step c = some u) ∧
      ∀ t, GuardedRun ContextState.step (fun u c => c.Keeps u) s t →
        t.Follows ∧ ∀ c u, t.step c = some u → (u.Follows ↔ c.Keeps t) := by
  constructor
  · intro t hrun
    have hflagged : t.proc.Flagged := h.run_flagged hrun
    refine ⟨hflagged.noUnderflow, fun c => ?_⟩
    obtain ⟨u, hst, -⟩ := hflagged.step c
    exact ⟨u, hst⟩
  · intro t hrun
    obtain ⟨hflagged, hfollows⟩ : t.proc.Flagged ∧ t.Follows :=
      hrun.invariant (P := fun u => u.proc.Flagged ∧ u.Follows)
        (fun _ _ _ hu hkeeps hst =>
          ⟨(hu.1.of_step hst).1, (hu.1.follows_step_iff hu.2 hst).mpr hkeeps⟩)
        ⟨h.flagged, h.follows⟩
    exact ⟨hfollows, fun c u hst => hflagged.follows_step_iff hfollows hst⟩

/-- A process alone in its region, with a `context_size` of 20. -/
def retainsNothing : ContextState where
  proc :=
    { toAllocator := aloneUnlimited.toAllocator
      deviceAllocasync := []
      limit := 0
      registered := true
      postInited := true
      cudaToNvmlMap := id
      contextSize := 20
      ctxActivate := fun _ => false
      underflow := false }
  references := fun _ => 0

theorem retainsNothing_fresh : retainsNothing.Fresh :=
  ⟨rfl, rfl, by decide, rfl, rfl, slotHolding 1 0, aloneUnlimited_registered.1, fun _ => rfl⟩

/-- Device 0 is retained twice, and a third retain fails; device 1 is retained and released. -/
def retainTwice : List ContextCall :=
  [.cuDevicePrimaryCtxRetain (fun _ => .alive) 0 (.ok ()),
    .cuDevicePrimaryCtxRetain (fun _ => .alive) 0 (.ok ()),
    .cuDevicePrimaryCtxRetain (fun _ => .alive) 0 (.error ⟨2, by decide⟩),
    .cuDevicePrimaryCtxRetain (fun _ => .alive) 1 (.ok ()),
    .cuDevicePrimaryCtxReleaseV2 (fun _ => .alive) 1 (.ok ())]

theorem exec_retainTwice :
    (exec ContextState.step (fun s c => c.Keeps s) retainTwice retainsNothing).map
      (fun t => (t.references 0, t.references 1)) = some (2, 0) := by
  decide +kernel

theorem context_follows_references_retainTwice :
    ∃ t : ContextState, t.references 0 = 2 ∧ t.references 1 = 0 ∧ t.Follows := by
  obtain ⟨t, hexec, ht⟩ := Option.map_eq_some_iff.mp exec_retainTwice
  have hrun : GuardedRun ContextState.step (fun s c => c.Keeps s) retainsNothing t :=
    GuardedRun.of_exec (fun _ _ _ hkeeps => of_decide_eq_true hkeeps) hexec
  obtain ⟨hzero, hone⟩ := Prod.mk.inj ht
  exact ⟨t, hzero, hone, ((context_follows_references retainsNothing_fresh).2 t hrun).1⟩

/-- Device 0 is retained twice and released once. -/
def retainTwiceRelease : List ContextCall :=
  [.cuDevicePrimaryCtxRetain (fun _ => .alive) 0 (.ok ()),
    .cuDevicePrimaryCtxRetain (fun _ => .alive) 0 (.ok ()),
    .cuDevicePrimaryCtxReleaseV2 (fun _ => .alive) 0 (.ok ())]

theorem exec_retainTwiceRelease :
    (exec ContextState.step (fun _ _ => true) retainTwiceRelease retainsNothing).map
      (fun t => (t.proc.ctxActivate 0, t.references 0)) = some (false, 1) := by
  decide +kernel

/-- The first release takes the charge away while a reference is left. -/
theorem context_lost_by_first_release :
    ¬ ∀ s t : ContextState, s.Fresh → GuardedRun ContextState.step (fun _ _ => True) s t →
      t.Follows ∧ t.NoUnderflow := by
  intro hall
  obtain ⟨t, hexec, ht⟩ := Option.map_eq_some_iff.mp exec_retainTwiceRelease
  have hrun : GuardedRun ContextState.step (fun _ _ => True) retainsNothing t :=
    GuardedRun.of_exec (fun _ _ _ _ => trivial) hexec
  obtain ⟨hfollows, -⟩ := hall retainsNothing t retainsNothing_fresh hrun
  obtain ⟨hflag, hrefs⟩ := Prod.mk.inj ht
  have hzero := (retainsNothing_fresh.run_flagged hrun).follows_iff.mp hfollows 0
  rw [hflag, hrefs] at hzero
  exact absurd (hzero.mpr (by decide)) Bool.false_ne_true

end HamiCore
