import HamiCore.Allocator.Async

/-!
# Stream-ordered charging and the other devices

The watermark `add_chunk_async` looks at belongs to the pool of one device.  The counter it is
compared with, `device_allocasync->limit`, belongs to the list, and there is one list for all
devices.  So what a request on device `d` is charged depends on what has been charged elsewhere, and
two runs that make the same requests on `d` may charge `d` differently.

A run is followed through its calls on `d`, with the states around each of them (`visits`).  In two
runs with the same requests on `d` the same bytes are charged after every call on `d` if and only
if, at every pair of corresponding calls, both charge nothing, or both find the same counter, or
both requests fit under the watermark (`async_charge_per_device_iff`).
-/

namespace HamiCore

/-- An `allocate_async_raw` call. -/
abbrev AllocAsyncCall := AllocAsyncEnv × UInt64

/-- A call on the device of interest, with the states around it. -/
structure AsyncVisit where
  before : AsyncAllocator
  env : AllocAsyncEnv
  size : UInt64
  after : AsyncAllocator

/-- The calls of a run that are made on device `d`. -/
def visits (d : Dev) : List AllocAsyncCall → AsyncAllocator → Option (List AsyncVisit)
  | [], _ => some []
  | (env, size) :: calls, a =>
    (addChunkAsync id env size a).bind fun out =>
      (visits d calls out.2).map fun vs =>
        if env.dev = d then ⟨a, env, size, out.2⟩ :: vs else vs

/-- What is asked of device `d`: the sizes, and the watermarks its pool reports. -/
def requestsOn (d : Dev) (calls : List AllocAsyncCall) : List (UInt64 × Except CudaError UInt64) :=
  (calls.filter fun c => c.1.dev = d).map fun c => (c.2, c.1.memPoolGetAttribute)

/-- `data_size` of device `k` in the slot the process charges. -/
def AsyncAllocator.dataSize (a : AsyncAllocator) (k : Dev) : Option UInt64 :=
  a.info.mySlot.map fun i => ((a.info.sharedRegion.procs i).used k).dataSize

/-- All driver calls of the request succeed. -/
structure AllocAsyncEnv.Succeeds (env : AllocAsyncEnv) : Prop where
  entryOk : env.entryOk = true
  memAllocAsync : ∃ address, env.memAllocAsync = .ok address
  deviceGetMemPool : env.deviceGetMemPool = .ok ()
  memPoolGetAttribute : ∃ poollimit, env.memPoolGetAttribute = .ok poollimit

/-- The watermark of a successful request. -/
def AllocAsyncEnv.poollimit (env : AllocAsyncEnv) : UInt64 :=
  match env.memPoolGetAttribute with
  | .ok poollimit => poollimit
  | .error _ => 0

namespace AsyncVisit

/-- `oom_check` lets the request through. -/
def passes (v : AsyncVisit) : Bool :=
  (oomCheck v.env.procAlive v.env.dev v.size v.before.info).any fun out => out.1 = 0

/-- Nothing is charged: the request is refused, the watermark is `0` or already covered, or no bytes
are asked for. -/
def Free (v : AsyncVisit) : Prop :=
  v.passes = false ∨ v.env.poollimit = 0 ∨ v.env.poollimit ≤ v.before.limit ∨ v.size = 0

/-- The request fits under the part of the watermark that is not covered. -/
def Fits (v : AsyncVisit) : Prop :=
  v.before.limit.toNat + v.size.toNat ≤ v.env.poollimit.toNat

/-- The condition on two corresponding calls. -/
def SameRoom (v w : AsyncVisit) : Prop :=
  (v.Free ∧ w.Free) ∨
    (¬ v.Free ∧ ¬ w.Free ∧ (v.before.limit = w.before.limit ∨ (v.Fits ∧ w.Fits)))

end AsyncVisit

/-! ## What one call charges -/

/-- The bytes `add_chunk_async` charges once it knows the watermark. -/
def allocsize (limit poollimit size : UInt64) : UInt64 :=
  if poollimit ≠ 0 ∧ limit < poollimit then
    if poollimit - limit < size then poollimit - limit else size
  else 0

/-- The bytes a call charges. -/
def AsyncVisit.charge (v : AsyncVisit) : UInt64 :=
  if v.passes then allocsize v.before.limit v.env.poollimit v.size else 0

section Charge

variable {limit poollimit size : UInt64}

/-- In natural numbers: the smaller of the request and what the watermark has above the counter. -/
theorem toNat_allocsize (limit poollimit size : UInt64) :
    (allocsize limit poollimit size).toNat = min size.toNat (poollimit.toNat - limit.toNat) := by
  unfold allocsize
  by_cases hroom : limit < poollimit
  · have hlt := UInt64.lt_iff_toNat_lt.mp hroom
    have hne : poollimit ≠ 0 := by
      rintro rfl
      exact absurd hlt (Nat.not_lt_zero _)
    have hsub := UInt64.toNat_sub_of_le _ _ (UInt64.le_of_lt hroom)
    rw [if_pos ⟨hne, hroom⟩]
    split_ifs with hsmall
    · have hsmall := UInt64.lt_iff_toNat_lt.mp hsmall
      rw [hsub] at hsmall ⊢
      omega
    · have hsize := UInt64.le_iff_toNat_le.mp (UInt64.not_lt.mp hsmall)
      rw [hsub] at hsize
      omega
  · have hle := UInt64.le_iff_toNat_le.mp (UInt64.not_lt.mp hroom)
    rw [if_neg fun h => hroom h.2]
    show 0 = _
    omega

theorem AsyncVisit.charge_eq_zero_iff (v : AsyncVisit) : v.charge = 0 ↔ v.Free := by
  unfold AsyncVisit.charge AsyncVisit.Free
  cases hpass : v.passes with
  | false => simp
  | true =>
    have hsize : v.size = 0 ↔ v.size.toNat = 0 := UInt64.toNat_inj.symm
    have hpool : v.env.poollimit = 0 ↔ v.env.poollimit.toNat = 0 := UInt64.toNat_inj.symm
    simp only [if_true, Bool.true_eq_false, false_or, hsize, hpool, UInt64.le_iff_toNat_le]
    rw [← UInt64.toNat_inj, toNat_allocsize]
    show min v.size.toNat (v.env.poollimit.toNat - v.before.limit.toNat) = 0 ↔ _
    omega

/-- **Two calls with the same request charge the same exactly under the condition.** -/
theorem AsyncVisit.charge_eq_iff {v w : AsyncVisit} (hsize : v.size = w.size)
    (hpool : v.env.poollimit = w.env.poollimit) : v.charge = w.charge ↔ v.SameRoom w := by
  by_cases hv : v.Free
  · have hzero := (v.charge_eq_zero_iff).mpr hv
    have hsame : v.SameRoom w ↔ w.Free := by
      simp [AsyncVisit.SameRoom, hv]
    rw [hsame, hzero, ← w.charge_eq_zero_iff]
    exact eq_comm
  · by_cases hw : w.Free
    · have hsame : ¬ v.SameRoom w := by
        simp [AsyncVisit.SameRoom, hv, hw]
      refine iff_of_false (fun heq => hv ?_) hsame
      rw [← v.charge_eq_zero_iff, heq]
      exact (w.charge_eq_zero_iff).mpr hw
    · have hsame : v.SameRoom w ↔ v.before.limit = w.before.limit ∨ (v.Fits ∧ w.Fits) := by
        simp [AsyncVisit.SameRoom, hv, hw]
      rw [hsame]
      simp only [AsyncVisit.Free, not_or, Bool.not_eq_false, UInt64.not_le] at hv hw
      obtain ⟨hvp, -, hvroom, hvsize⟩ := hv
      obtain ⟨hwp, -, hwroom, -⟩ := hw
      have hvlt := UInt64.lt_iff_toNat_lt.mp hvroom
      have hwlt := UInt64.lt_iff_toNat_lt.mp hwroom
      have hpos : v.size.toNat ≠ 0 := fun h0 => hvsize (UInt64.toNat_inj.mp h0)
      simp only [AsyncVisit.charge, hvp, hwp, if_true, AsyncVisit.Fits]
      rw [← UInt64.toNat_inj, ← UInt64.toNat_inj, toNat_allocsize, toNat_allocsize, ← hsize,
        ← hpool]
      rw [← hpool] at hwlt
      omega

end Charge

/-! ## What one call does to the counters -/

section Call

variable {a : AsyncAllocator} {s : ShrregProcSlot} {env : AllocAsyncEnv} {size : UInt64}
  {out : ℤ × AsyncAllocator}

theorem AsyncAllocator.dataSize_of_pointsAt (h : a.info.PointsAt s) (k : Dev) :
    a.dataSize k = some (s.used k).dataSize := by
  obtain ⟨i, hi, -, rfl⟩ := h
  rw [AsyncAllocator.dataSize, hi]
  rfl

/-- The charge of a watermark, on the slot. -/
theorem AsyncAllocator.pointsAt_record (h : a.info.PointsAt s) (dev : Dev)
    (address size poollimit : UInt64) :
    ∃ t, (a.record id dev address size poollimit).info.PointsAt t ∧ t.pid = s.pid ∧
      (a.record id dev address size poollimit).info.pid = a.info.pid ∧
      ∀ k, (t.used k).dataSize =
        (s.used k).dataSize + if k = dev then allocsize a.limit poollimit size else 0 := by
  -- the slot after a charge of `n` bytes
  have charged : ∀ n, ∀ k, ((s.update (· + ·) (id dev) n 2).used k).dataSize =
      (s.used k).dataSize + if k = dev then n else 0 := by
    intro n k
    rw [ShrregProcSlot.used_update]
    by_cases hk : k = dev
    · rw [hk, if_pos rfl]
      show (Function.update s.used dev _ dev).dataSize = _
      rw [Function.update_self]
      rfl
    · rw [if_neg hk, add_zero]
      show (Function.update s.used dev _ k).dataSize = _
      rw [Function.update_of_ne hk]
  unfold AsyncAllocator.record allocsize
  by_cases hpool : poollimit ≠ 0
  · by_cases hroom : a.limit < poollimit
    · obtain ⟨hpts, hpid⟩ := h.update id (· + ·) dev
        (if poollimit - a.limit < size then poollimit - a.limit else size)
      have hboth : poollimit ≠ 0 ∧ a.limit < poollimit := ⟨hpool, hroom⟩
      rw [if_pos hpool, if_pos hroom, if_pos hboth]
      exact ⟨_, hpts, rfl, hpid, charged _⟩
    · rw [if_pos hpool, if_neg hroom, if_neg fun hc => hroom hc.2]
      exact ⟨s, h, rfl, rfl, fun k => by rw [ite_self, add_zero]⟩
  · rw [if_neg hpool, if_neg fun hc => hpool hc.1]
    exact ⟨s, h, rfl, rfl, fun k => by rw [ite_self, add_zero]⟩

/-- **One call.**  The slot is kept, and `data_size` of the call's device grows by the charge. -/
theorem addChunkAsync_pointsAt (h : a.info.PointsAt s) (hpid : s.pid = a.info.pid)
    (h0 : a.info.pid ≠ 0) (hreg : ∀ n, env.procAlive n a.info.pid ≠ .nonalive)
    (hsucc : env.Succeeds) (hout : addChunkAsync id env size a = some out) :
    ∃ t, out.2.info.PointsAt t ∧ t.pid = out.2.info.pid ∧ out.2.info.pid = a.info.pid ∧
      ∀ k, (t.used k).dataSize =
        (s.used k).dataSize +
          if k = env.dev then (AsyncVisit.mk a env size out.2).charge else 0 := by
  obtain ⟨⟨oom, info⟩, hoom, rfl⟩ := Option.map_eq_some_iff.mp hout
  have hcomp : SelfCompacts a.info info := (oomCheck_spec hoom).1.selfCompacts hreg
  have hpts : info.PointsAt s := hcomp.pointsAt hpid h0 h
  obtain ⟨address, haddr⟩ := hsucc.memAllocAsync
  obtain ⟨poollimit, hattr⟩ := hsucc.memPoolGetAttribute
  have hlimit : env.poollimit = poollimit := by
    rw [AllocAsyncEnv.poollimit, hattr]
  simp only [AsyncVisit.charge, AsyncVisit.passes, hoom, Option.any_some, hsucc.entryOk, if_true,
    haddr, hsucc.deviceGetMemPool, hattr, hlimit]
  by_cases hne : oom = 0
  · obtain ⟨t, ht, htpid, hinfo, hused⟩ :=
      AsyncAllocator.pointsAt_record (a := { a with info := info }) hpts env.dev address size
        poollimit
    simp only [hne, ne_eq, not_true_eq_false, if_false, decide_true, if_true]
    refine ⟨t, ht, ?_, hinfo.trans hcomp.pid_eq, hused⟩
    rw [htpid, hpid]
    exact (hinfo.trans hcomp.pid_eq).symm
  · simp only [hne, ne_eq, not_false_eq_true, if_true, decide_false, Bool.false_eq_true, if_false,
      ite_self, add_zero]
    exact ⟨s, hpts, hpid.trans hcomp.pid_eq.symm, hcomp.pid_eq, fun _ => rfl⟩

end Call

/-! ## Along a run -/

/-- After each visit `data_size` of `d` is what it was after the one before, plus the charge. -/
def Chained (d : Dev) : UInt64 → List AsyncVisit → Prop
  | _, [] => True
  | x, v :: vs => v.after.dataSize d = some (x + v.charge) ∧ Chained d (x + v.charge) vs

/-- The calls are of a live process whose driver calls succeed. -/
def AllocAsyncCall.Regular (p : Pid) (c : AllocAsyncCall) : Prop :=
  c.1.Succeeds ∧ ∀ n, c.1.procAlive n p ≠ .nonalive

/-- **Calls on other devices do not touch `data_size` of `d`.** -/
theorem visits_chained {d : Dev} {calls : List AllocAsyncCall} {a : AsyncAllocator}
    {s : ShrregProcSlot} {vs : List AsyncVisit} (h : a.info.PointsAt s)
    (hpid : s.pid = a.info.pid) (h0 : a.info.pid ≠ 0)
    (hreg : ∀ c ∈ calls, AllocAsyncCall.Regular a.info.pid c)
    (hvs : visits d calls a = some vs) :
    Chained d (s.used d).dataSize vs ∧
      vs.map (fun v => (v.size, v.env.memPoolGetAttribute)) = requestsOn d calls := by
  induction calls generalizing a s vs with
  | nil =>
    obtain rfl := Option.some.inj hvs
    exact ⟨trivial, rfl⟩
  | cons c calls ih =>
    obtain ⟨env, size⟩ := c
    obtain ⟨out, hout, hrest⟩ := Option.bind_eq_some_iff.mp hvs
    obtain ⟨rest, hvisits, rfl⟩ := Option.map_eq_some_iff.mp hrest
    obtain ⟨hsucc, halive⟩ := hreg (env, size) List.mem_cons_self
    obtain ⟨t, ht, htpid, hpid', hdata⟩ := addChunkAsync_pointsAt h hpid h0 halive hsucc hout
    obtain ⟨hchain, hreq⟩ := ih ht htpid (by rw [hpid']; exact h0)
      (fun c hc => by rw [hpid']; exact hreg c (List.mem_cons_of_mem _ hc)) hvisits
    have hd := hdata d
    by_cases hdev : env.dev = d
    · rw [if_pos hdev.symm] at hd
      rw [if_pos hdev, requestsOn, List.filter_cons_of_pos (by simpa using hdev)]
      rw [hd] at hchain
      refine ⟨⟨?_, hchain⟩, ?_⟩
      · rw [AsyncAllocator.dataSize_of_pointsAt ht, hd]
      · rw [List.map_cons, List.map_cons, hreq]
        rfl
    · rw [if_neg fun heq => hdev heq.symm, add_zero] at hd
      rw [if_neg hdev, requestsOn, List.filter_cons_of_neg (by simpa using hdev)]
      rw [hd] at hchain
      exact ⟨hchain, hreq⟩

/-- Two chains from the same value agree after every visit exactly when all charges agree. -/
theorem Chained.map_eq_iff {d : Dev} {x : UInt64} {vs ws : List AsyncVisit} (hv : Chained d x vs)
    (hw : Chained d x ws) :
    vs.map (fun v => v.after.dataSize d) = ws.map (fun w => w.after.dataSize d) ↔
      List.Forall₂ (fun v w => v.charge = w.charge) vs ws := by
  induction vs generalizing x ws with
  | nil => cases ws <;> simp
  | cons v vs ih =>
    cases ws with
    | nil => simp
    | cons w ws =>
      rw [List.map_cons, List.map_cons, List.cons.injEq, List.forall₂_cons, hv.1, hw.1,
        Option.some.injEq, add_right_inj]
      refine and_congr_right fun heq => ?_
      have hw' := hw.2
      rw [← heq] at hw'
      exact ih hv.2 hw'

/-- The same requests, visit by visit. -/
theorem forall₂_charge_iff {vs ws : List AsyncVisit}
    (h : vs.map (fun v => (v.size, v.env.memPoolGetAttribute)) =
      ws.map fun w => (w.size, w.env.memPoolGetAttribute)) :
    List.Forall₂ (fun v w => v.charge = w.charge) vs ws ↔
      List.Forall₂ AsyncVisit.SameRoom vs ws := by
  induction vs generalizing ws with
  | nil => cases ws <;> simp
  | cons v vs ih =>
    cases ws with
    | nil => simp
    | cons w ws =>
      rw [List.map_cons, List.map_cons, List.cons.injEq, Prod.mk.injEq] at h
      have hpool : v.env.poollimit = w.env.poollimit := by
        rw [AllocAsyncEnv.poollimit, AllocAsyncEnv.poollimit, h.1.2]
      rw [List.forall₂_cons, List.forall₂_cons, AsyncVisit.charge_eq_iff h.1.1 hpool, ih h.2]

/-- **Charging one device among others.**  Two runs of `allocate_async_raw` by the same process,
from the same state, with the same requests on device `d` and any calls on other devices in between:
after every call on `d` the same bytes are charged to `d` in both, if and only if at every pair of
corresponding calls either both charge nothing, or both charge and find the same counter `limit` or
room for the whole request. -/
theorem async_charge_per_device_iff {d : Dev} {calls₁ calls₂ : List AllocAsyncCall}
    {a : AsyncAllocator} {s : ShrregProcSlot} {vs ws : List AsyncVisit} (hpts : a.info.PointsAt s)
    (hpid : s.pid = a.info.pid) (h0 : a.info.pid ≠ 0)
    (hreg₁ : ∀ c ∈ calls₁, AllocAsyncCall.Regular a.info.pid c)
    (hreg₂ : ∀ c ∈ calls₂, AllocAsyncCall.Regular a.info.pid c)
    (hsame : requestsOn d calls₁ = requestsOn d calls₂) (hvs : visits d calls₁ a = some vs)
    (hws : visits d calls₂ a = some ws) :
    vs.map (fun v => v.after.dataSize d) = ws.map (fun w => w.after.dataSize d) ↔
      List.Forall₂ AsyncVisit.SameRoom vs ws := by
  obtain ⟨hchain₁, hreq₁⟩ := visits_chained hpts hpid h0 hreg₁ hvs
  obtain ⟨hchain₂, hreq₂⟩ := visits_chained hpts hpid h0 hreg₂ hws
  rw [hchain₁.map_eq_iff hchain₂]
  exact forall₂_charge_iff (hreq₁.trans (hsame.trans hreq₂.symm))

theorem AllocAsyncEnv.succeeds_regular (dev : Dev) (address poollimit size : UInt64) (p : Pid) :
    AllocAsyncCall.Regular p (AllocAsyncEnv.succeeds dev address poollimit, size) :=
  ⟨⟨rfl, ⟨_, rfl⟩, rfl, ⟨_, rfl⟩⟩, fun _ => by simp [AllocAsyncEnv.succeeds]⟩

/-- One request on device `0`, of 10 bytes under a watermark of `poollimit`. -/
def alone (poollimit : UInt64) : List AllocAsyncCall := [(.succeeds 0 200 poollimit, 10)]

/-- The same request after one on device `1` that has charged 20 bytes. -/
def afterAnother (poollimit : UInt64) : List AllocAsyncCall :=
  [(.succeeds 1 100 20, 20), (.succeeds 0 200 poollimit, 10)]

theorem alone_regular (poollimit : UInt64) (p : Pid) :
    ∀ c ∈ alone poollimit, AllocAsyncCall.Regular p c := by
  intro c hc
  rw [List.mem_singleton.mp hc]
  exact AllocAsyncEnv.succeeds_regular _ _ _ _ _

theorem afterAnother_regular (poollimit : UInt64) (p : Pid) :
    ∀ c ∈ afterAnother poollimit, AllocAsyncCall.Regular p c := by
  intro c hc
  simp only [afterAnother, List.mem_cons, List.not_mem_nil, or_false] at hc
  rcases hc with rfl | rfl
  · exact AllocAsyncEnv.succeeds_regular _ _ _ _ _
  · exact AllocAsyncEnv.succeeds_regular _ _ _ _ _

/-- `data_size` of device `0` after each call on it. -/
def chargesOnZero (calls : List AllocAsyncCall) : Option (List (Option UInt64)) :=
  (visits 0 calls asyncRegistered).map fun vs => vs.map fun v => v.after.dataSize 0

theorem chargesOnZero_roomy :
    chargesOnZero (alone 100) = some [some 10] ∧
      chargesOnZero (afterAnother 100) = some [some 10] := by
  decide +kernel

/-- Under a watermark of 100 the request fits in both runs. -/
theorem async_charge_per_device_roomy :
    ∃ vs ws, visits 0 (alone 100) asyncRegistered = some vs ∧
      visits 0 (afterAnother 100) asyncRegistered = some ws ∧
      List.Forall₂ AsyncVisit.SameRoom vs ws := by
  obtain ⟨vs, hvs, hmap₁⟩ := Option.map_eq_some_iff.mp chargesOnZero_roomy.1
  obtain ⟨ws, hws, hmap₂⟩ := Option.map_eq_some_iff.mp chargesOnZero_roomy.2
  refine ⟨vs, ws, hvs, hws, ?_⟩
  exact (async_charge_per_device_iff asyncRegistered_start.pointsAt rfl (by decide)
    (alone_regular _ _) (afterAnother_regular _ _) rfl hvs hws).mp (hmap₁.trans hmap₂.symm)

theorem chargesOnZero_covered :
    chargesOnZero (alone 10) = some [some 10] ∧
      chargesOnZero (afterAnother 10) = some [some 0] := by
  decide +kernel

/-- Under a watermark of 10 for device `0`, the 20 bytes charged to device `1` leave nothing to
charge. -/
theorem async_charge_depends_on_other_device :
    ¬ ∀ (d : Dev) (calls₁ calls₂ : List AllocAsyncCall) (a : AsyncAllocator) (s : ShrregProcSlot)
        (vs ws : List AsyncVisit), a.info.PointsAt s → s.pid = a.info.pid → a.info.pid ≠ 0 →
      (∀ c ∈ calls₁, AllocAsyncCall.Regular a.info.pid c) →
      (∀ c ∈ calls₂, AllocAsyncCall.Regular a.info.pid c) →
      requestsOn d calls₁ = requestsOn d calls₂ → visits d calls₁ a = some vs →
      visits d calls₂ a = some ws →
      vs.map (fun v => v.after.dataSize d) = ws.map fun w => w.after.dataSize d := by
  intro hall
  obtain ⟨vs, hvs, hmap₁⟩ := Option.map_eq_some_iff.mp chargesOnZero_covered.1
  obtain ⟨ws, hws, hmap₂⟩ := Option.map_eq_some_iff.mp chargesOnZero_covered.2
  have heq := hall 0 _ _ _ _ vs ws asyncRegistered_start.pointsAt rfl (by decide)
    (alone_regular 10 _) (afterAnother_regular 10 _) rfl hvs hws
  rw [hmap₁, hmap₂] at heq
  exact absurd heq (by decide)

end HamiCore
