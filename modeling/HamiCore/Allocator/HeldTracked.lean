import HamiCore.Allocator.Tracking

/-!
# What is held is tracked

In the machine of `Tracking`, what callers hold stays in the list and counted as long as no second
check of `add_chunk_only` is lost and no `remove_chunk_only` works across another thread
(`success_implies_tracked`).  The invariant is that at most one thread has begun to change the list,
that nobody else is in it then, and that the list is at the stage this thread has come to; otherwise
the list is whole, and every cursor is at a node with nothing before it that has the address looked
for.  The bytes that are charged are those of what is held, and of what a thread has charged and not
handed out, or taken back and not released.

`success_without_tracking` has a run for either condition.  In the second one a `remove_chunk_only`
loads the link of the node it takes out, another thread appends behind that node and returns
`CUDA_SUCCESS`, and the store of what was loaded cuts the new node off.
-/

namespace HamiCore

open LinkedList

/-! ## The invariant -/

/-- What a thread knows of the list, whose nodes are `nodes`: where its cursor is, and how far it
has come with an entry that is not among them yet, or no more. -/
def TrackPc.Stage (d : LinkedList AllocatedDeviceMemory)
    (nodes : List (ℕ × AllocatedDeviceMemory)) : TrackPc → Prop
  | .appending r p e pc => pc.Holds d nodes p (r.listed e)
  | .addressing p e => d.Represents (nodes ++ [(p, { e with address := 0 })])
  | .charging _ e => ∃ p, d.Represents (nodes ++ [(p, e)])
  | .returning _ e => ∃ p, d.Represents (nodes ++ [(p, e)])
  | .comparing _ dptr val => ∃ l₁ l₂, nodes = l₁ ++ l₂ ∧ val = first l₂ none ∧
      ∀ n ∈ l₁, n.2.address ≠ dptr
  | .following _ dptr p => ∃ l₁ x l₂, nodes = l₁ ++ (p, x) :: l₂ ∧
      ∀ n ∈ l₁ ++ [(p, x)], n.2.address ≠ dptr
  | .unlinking _ p e pc => ∃ l₁ l₂, nodes = l₁ ++ l₂ ∧ pc.Holds d l₁ p e l₂
  | _ => True

section Inv

variable {T : Type*} [Fintype T] (cudaToNvmlMap : Dev → Dev) (base : Dev → DeviceMemory)

/-- The bytes charged for device `k`. -/
def TrackState.charge (s : TrackState T) (k : Dev) : UInt64 :=
  trackedLength cudaToNvmlMap s.held k + ∑ t, trackedLength cudaToNvmlMap (s.pc t).inFlight k

/-- The invariant: the nodes of what is held are in the list, up to what one thread is about to
change. -/
structure TrackState.Inv (s : TrackState T) (nodes : List (ℕ × AllocatedDeviceMemory)) : Prop where
  section_mutex : ∀ t, (s.pc t).inSection = true → s.mutex = some t
  writer : ∀ t u, (s.pc t).writing = true → (s.pc u).usesList = true → u = t
  clean : (∀ t, (s.pc t).writing = false) → s.deviceOverallocated.Represents nodes
  stage : ∀ t, (s.pc t).Stage s.deviceOverallocated nodes
  held_eq : s.held = nodes.map Prod.snd
  charged : s.info.Charged base (s.charge cudaToNvmlMap)
  intact : s.corrupted = false

end Inv

/-- Thread `t` moves to `pc`, and does with the mutex what it may. -/
structure TrackMove {T : Type*} [DecidableEq T] (s s' : TrackState T) (t : T) (pc : TrackPc) :
    Prop where
  pc_eq : s'.pc = Function.update s.pc t pc
  mutex : s'.mutex = s.mutex ∨ s.mutex = none ∨ s.mutex = some t
  section_mutex : pc.inSection = true → s'.mutex = some t
  intact : s'.corrupted = s.corrupted

theorem TrackPc.stage_of_usesList {pc : TrackPc} (h : pc.usesList = false)
    (d : LinkedList AllocatedDeviceMemory) (nodes : List (ℕ × AllocatedDeviceMemory)) :
    pc.Stage d nodes := by
  cases pc with
  | appending => exact absurd h (by simp [usesList, writing])
  | addressing => exact absurd h (by simp [usesList, writing])
  | charging => exact absurd h (by simp [usesList, writing])
  | returning => exact absurd h (by simp [usesList, writing])
  | comparing => exact absurd h (by simp [usesList])
  | following => exact absurd h (by simp [usesList])
  | unlinking => exact absurd h (by simp [usesList, writing])
  | _ => trivial

theorem TrackPc.usesList_of_writing {pc : TrackPc} (h : pc.writing = true) :
    pc.usesList = true := by
  cases pc with
  | comparing => rfl
  | following => rfl
  | _ => exact h

/-- Whoever has begun to change the list has the mutex, or unlinks a node. -/
theorem TrackPc.inSection_of_writing {pc : TrackPc} (h : pc.writing = true) :
    pc.inSection = true ∨ ∃ w val e at', pc = .unlinking w val e at' := by
  cases pc with
  | appending => exact Or.inl rfl
  | addressing => exact Or.inl rfl
  | charging => exact Or.inl rfl
  | returning => exact Or.inl rfl
  | unlinking w val e pc => exact Or.inr ⟨w, val, e, pc, rfl⟩
  | _ => exact absurd h (by simp [writing])

section Moves

variable {T : Type*} [DecidableEq T] {cudaToNvmlMap : Dev → Dev} {base : Dev → DeviceMemory}
  {s s' : TrackState T} {nodes nodes' : List (ℕ × AllocatedDeviceMemory)} {t : T} {pc : TrackPc}

theorem TrackMove.pc_self (hm : TrackMove s s' t pc) : s'.pc t = pc := by
  rw [hm.pc_eq, Function.update_self]

theorem TrackMove.pc_ne (hm : TrackMove s s' t pc) {u : T} (hu : u ≠ t) : s'.pc u = s.pc u := by
  rw [hm.pc_eq, Function.update_of_ne hu]

variable [Fintype T]

/-- What a move changes in the charged bytes. -/
theorem TrackMove.charge_add (hm : TrackMove s s' t pc) (cudaToNvmlMap : Dev → Dev) (k : Dev) :
    s'.charge cudaToNvmlMap k + trackedLength cudaToNvmlMap s.held k +
        trackedLength cudaToNvmlMap (s.pc t).inFlight k =
      s.charge cudaToNvmlMap k + trackedLength cudaToNvmlMap s'.held k +
        trackedLength cudaToNvmlMap pc.inFlight k := by
  have hsum := sum_update_add (fun pc : TrackPc => trackedLength cudaToNvmlMap pc.inFlight k) s.pc t
    pc
  rw [TrackState.charge, TrackState.charge, hm.pc_eq, add_right_comm _ _ (trackedLength _ s.held k),
    add_assoc, hsum]
  abel

/-- A move after which as much is charged. -/
theorem TrackMove.charge_eq (hm : TrackMove s s' t pc)
    (hbytes : ∀ k,
      trackedLength cudaToNvmlMap s'.held k + trackedLength cudaToNvmlMap pc.inFlight k =
      trackedLength cudaToNvmlMap s.held k + trackedLength cudaToNvmlMap (s.pc t).inFlight k) :
    s'.charge cudaToNvmlMap = s.charge cudaToNvmlMap := by
  funext k
  have hadd := hm.charge_add cudaToNvmlMap k
  rw [add_assoc, add_assoc, hbytes k] at hadd
  exact add_right_cancel hadd

namespace TrackState.Inv

variable (h : s.Inv cudaToNvmlMap base nodes)

include h

/-- A thread that leaves the mutex alone. -/
theorem keepMutex (hpc : s'.pc = Function.update s.pc t pc) (hmutex : s'.mutex = s.mutex)
    (hsection : pc.inSection = true → (s.pc t).inSection = true)
    (hintact : s'.corrupted = s.corrupted) : TrackMove s s' t pc :=
  ⟨hpc, Or.inl hmutex, fun hpc' => by rw [hmutex, h.section_mutex t (hsection hpc')], hintact⟩

/-- The mutex is with whoever is in its section. -/
theorem section_mutex_move (hm : TrackMove s s' t pc) (u : T) (hu : (s'.pc u).inSection = true) :
    s'.mutex = some u := by
  by_cases hut : u = t
  · subst hut
    rw [hm.pc_self] at hu
    exact hm.section_mutex hu
  · rw [hm.pc_ne hut] at hu
    have howner := h.section_mutex u hu
    rcases hm.mutex with heq | hnone | hmine
    · rw [heq, howner]
    · rw [hnone] at howner
      exact absurd howner (by simp)
    · rw [hmine] at howner
      exact absurd (Option.some.inj howner).symm hut

/-- **A move beside the list.**  The thread has not begun to change it and does not begin. -/
theorem still (hm : TrackMove s s' t pc)
    (hlist : s'.deviceOverallocated = s.deviceOverallocated) (hheld : s'.held = s.held)
    (hold : (s.pc t).writing = false) (hnew : pc.writing = false)
    (hreads : pc.usesList = true → ∀ u, u ≠ t → (s.pc u).writing = false)
    (hstage : pc.Stage s.deviceOverallocated nodes)
    (hcharged : s'.info.Charged base (s'.charge cudaToNvmlMap)) :
    s'.Inv cudaToNvmlMap base nodes := by
  have hwriting : ∀ u, (s'.pc u).writing = (s.pc u).writing := by
    intro u
    by_cases hut : u = t
    · rw [hut, hm.pc_self, hnew, hold]
    · rw [hm.pc_ne hut]
  refine ⟨h.section_mutex_move hm, fun v u hv hu => ?_, fun hnone => ?_, fun u => ?_,
    hheld.trans h.held_eq, hcharged, hm.intact.trans h.intact⟩
  · rw [hwriting] at hv
    by_cases hut : u = t
    · subst hut
      rw [hm.pc_self] at hu
      by_contra hvu
      rw [hreads hu v fun heq => hvu heq.symm] at hv
      exact absurd hv (by simp)
    · rw [hm.pc_ne hut] at hu
      exact h.writer v u hv hu
  · rw [hlist]
    exact h.clean fun u => by rw [← hwriting, hnone]
  · rw [hlist]
    by_cases hut : u = t
    · rw [hut, hm.pc_self]
      exact hstage
    · rw [hm.pc_ne hut]
      exact h.stage u

/-- **A move in the list**, by a thread that is alone in it. -/
theorem exclusive (hm : TrackMove s s' t pc)
    (halone : ∀ u, u ≠ t → (s.pc u).usesList = false)
    (hheld : s'.held = nodes'.map Prod.snd)
    (hstage : pc.Stage s'.deviceOverallocated nodes')
    (hclean : pc.writing = false → s'.deviceOverallocated.Represents nodes')
    (hcharged : s'.info.Charged base (s'.charge cudaToNvmlMap)) :
    s'.Inv cudaToNvmlMap base nodes' := by
  have hother : ∀ u, (s'.pc u).usesList = true → u = t := by
    intro u hu
    by_contra hut
    rw [hm.pc_ne hut, halone u hut] at hu
    exact absurd hu (by simp)
  refine ⟨h.section_mutex_move hm, fun v u hv hu => ?_, fun hnone => ?_, fun u => ?_, hheld,
    hcharged, hm.intact.trans h.intact⟩
  · rw [hother u hu, hother v (TrackPc.usesList_of_writing hv)]
  · refine hclean ?_
    rw [← hm.pc_self]
    exact hnone t
  · by_cases hut : u = t
    · rw [hut, hm.pc_self]
      exact hstage
    · rw [hm.pc_ne hut]
      exact TrackPc.stage_of_usesList (halone u hut) _ _

omit [DecidableEq T] in
/-- A thread that has begun to change the list is alone in it. -/
theorem alone_of_writing (hpc : (s.pc t).writing = true) (u : T) (hu : u ≠ t) :
    (s.pc u).usesList = false := by
  by_contra huses
  exact hu (h.writer t u hpc (by simpa using huses))

omit [DecidableEq T] in
/-- Nobody else is busy, where that is granted for those outside the mutex. -/
theorem undisturbed {busy : TrackPc → Bool} (halone : s.Undisturbed t busy) (u : T) (hu : u ≠ t) :
    busy (s.pc u) = false := by
  by_contra hbusy
  obtain ⟨ht, hu'⟩ := halone u hu (by simpa using hbusy)
  have hmutex := (h.section_mutex t ht).symm.trans (h.section_mutex u hu')
  exact hu (Option.some.inj hmutex).symm

/-- After a move that changes neither the counters nor what is charged. -/
theorem charged_keep (hm : TrackMove s s' t pc) (hcomp : SelfCompacts s.info s'.info)
    (hbytes : ∀ k,
      trackedLength cudaToNvmlMap s'.held k + trackedLength cudaToNvmlMap pc.inFlight k =
      trackedLength cudaToNvmlMap s.held k + trackedLength cudaToNvmlMap (s.pc t).inFlight k) :
    s'.info.Charged base (s'.charge cudaToNvmlMap) := by
  rw [hm.charge_eq hbytes]
  exact h.charged.keep hcomp

omit [DecidableEq T] in
/-- While a thread searches, the list is whole. -/
theorem represents_of_reading (hpc : (s.pc t).writing = false) (huses : (s.pc t).usesList = true) :
    (∀ u, (s.pc u).writing = false) ∧ s.deviceOverallocated.Represents nodes := by
  have hnone : ∀ u, (s.pc u).writing = false := by
    intro u
    by_contra hu
    have hu' : (s.pc u).writing = true := by simpa using hu
    rw [h.writer u t hu' huses] at hpc
    exact hu hpc
  exact ⟨hnone, h.clean hnone⟩

omit [DecidableEq T] in
/-- The recorded length is never below the number of nodes. -/
theorem length_le : nodes.length ≤ s.deviceOverallocated.length := by
  by_cases hwriter : ∃ u, (s.pc u).writing = true
  · obtain ⟨u, hu⟩ := hwriter
    have hstage := h.stage u
    cases hpc : s.pc u with
    | appending r p e pc =>
      rw [hpc] at hstage
      exact (AppendPc.Holds.length_eq hstage).ge
    | addressing p e =>
      rw [hpc] at hstage
      rw [Represents.length_eq hstage, List.length_append]
      exact Nat.le_add_right _ _
    | charging r e =>
      rw [hpc] at hstage
      obtain ⟨p, hlist⟩ := hstage
      rw [hlist.length_eq, List.length_append]
      exact Nat.le_add_right _ _
    | returning r e =>
      rw [hpc] at hstage
      obtain ⟨p, hlist⟩ := hstage
      rw [hlist.length_eq, List.length_append]
      exact Nat.le_add_right _ _
    | unlinking w p e pc =>
      rw [hpc] at hstage
      obtain ⟨l₁, l₂, rfl, hstage⟩ := hstage
      rw [hstage.length_eq, List.length_append]
      exact Nat.le_add_right _ _
    | _ =>
      rw [hpc] at hu
      exact absurd hu (by simp [TrackPc.writing])
  · have hclean := h.clean fun u => by simpa using fun hu => hwriter ⟨u, hu⟩
    exact hclean.length_eq.ge

/-- A move beside the list that leaves the charged bytes as they are. -/
theorem rest (t : T) (pc : TrackPc) (hm : TrackMove s s' t pc)
    (hlist : s'.deviceOverallocated = s.deviceOverallocated) (hheld : s'.held = s.held)
    (hcomp : SelfCompacts s.info s'.info)
    (hold : (s.pc t).writing = false) (hnew : pc.writing = false)
    (hreads : pc.usesList = true → ∀ u, u ≠ t → (s.pc u).writing = false)
    (hstage : pc.Stage s.deviceOverallocated nodes)
    (hflight : pc.inFlight = (s.pc t).inFlight) : s'.Inv cudaToNvmlMap base nodes :=
  h.still hm hlist hheld hold hnew hreads hstage
    (h.charged_keep hm hcomp fun k => by rw [hheld, hflight])

/-- A thread that goes on and changes nothing else. -/
theorem goto (t : T) (pc : TrackPc)
    (hsection : pc.inSection = true → (s.pc t).inSection = true)
    (hold : (s.pc t).writing = false) (hnew : pc.writing = false)
    (hreads : pc.usesList = true → ∀ u, u ≠ t → (s.pc u).writing = false)
    (hstage : pc.Stage s.deviceOverallocated nodes)
    (hflight : pc.inFlight = (s.pc t).inFlight) : (s.goto t pc).Inv cudaToNvmlMap base nodes :=
  h.rest t pc (h.keepMutex rfl rfl hsection rfl) rfl rfl Relation.ReflTransGen.refl hold hnew hreads
    hstage hflight

/-- A move in the list that leaves the counters as they are. -/
theorem change (t : T) (pc : TrackPc) (hm : TrackMove s s' t pc) (hinfo : s'.info = s.info)
    (halone : ∀ u, u ≠ t → (s.pc u).usesList = false)
    (hheld : s'.held = nodes'.map Prod.snd)
    (hstage : pc.Stage s'.deviceOverallocated nodes')
    (hclean : pc.writing = false → s'.deviceOverallocated.Represents nodes')
    (hbytes : ∀ k,
      trackedLength cudaToNvmlMap s'.held k + trackedLength cudaToNvmlMap pc.inFlight k =
      trackedLength cudaToNvmlMap s.held k + trackedLength cudaToNvmlMap (s.pc t).inFlight k) :
    s'.Inv cudaToNvmlMap base nodes' :=
  h.exclusive hm halone hheld hstage hclean
    (h.charged_keep hm (by rw [hinfo]; exact Relation.ReflTransGen.refl) hbytes)

/-! ### The accesses -/

/-- An access of `LIST_ADD`. -/
theorem append {r : Recorder} {p : ℕ} {e : AllocatedDeviceMemory} {at' : AppendPc}
    (hpc : s.pc t = .appending r p e at') :
    (s.append t r p e at').Inv cudaToNvmlMap base nodes := by
  have hstage := h.stage t
  rw [hpc] at hstage
  have halone := h.alone_of_writing (t := t) (by rw [hpc]; rfl)
  obtain ⟨next, d, haccess, hnext⟩ := AppendPc.Holds.access hstage
  unfold TrackState.append
  rw [haccess]
  cases next with
  | none =>
    refine h.change t (r.added p e) (h.keepMutex rfl rfl (fun _ => by rw [hpc]; rfl) rfl) rfl
      halone h.held_eq ?_ (fun hpc' => ?_) fun k => ?_
    · cases r with
      | addChunk => exact ⟨p, hnext⟩
      | addChunkOnly => exact hnext
    · cases r <;> exact absurd hpc' (by simp [Recorder.added, TrackPc.writing])
    · rw [hpc]
      cases r <;> rfl
  | some pc' =>
    refine h.change t (.appending r p e pc')
      (h.keepMutex rfl rfl (fun _ => by rw [hpc]; rfl) rfl) rfl
      halone h.held_eq hnext nofun fun k => ?_
    rw [hpc]
    rfl

/-- An access of `LIST_REMOVE`. -/
theorem unlink {w : Remover} {p : ℕ} {e : AllocatedDeviceMemory} {at' : UnlinkPc}
    (hpc : s.pc t = .unlinking w p e at') :
    (s.unlink t w p e at').Inv cudaToNvmlMap base nodes := by
  have hstage := h.stage t
  rw [hpc] at hstage
  have halone := h.alone_of_writing (t := t) (by rw [hpc]; rfl)
  obtain ⟨l₁, l₂, rfl, hstage⟩ := hstage
  obtain ⟨next, d, haccess, hnext⟩ := hstage.access
  unfold TrackState.unlink
  rw [haccess]
  cases next with
  | none =>
    refine h.change t (.uncharging w e)
      (h.keepMutex rfl rfl (fun hsection => by rw [hpc]; exact hsection) rfl) rfl
      halone h.held_eq trivial (fun _ => hnext) fun k => ?_
    rw [hpc]
    rfl
  | some pc' =>
    refine h.change t (.unlinking w p e pc')
      (h.keepMutex rfl rfl (fun hsection => by rw [hpc]; exact hsection) rfl) rfl
      halone h.held_eq ⟨l₁, l₂, rfl, hnext⟩ nofun fun k => ?_
    rw [hpc]
    rfl

/-- The address of the entry. -/
theorem storeAddress {p : ℕ} {e : AllocatedDeviceMemory} (hpc : s.pc t = .addressing p e) :
    (s.storeAddress t p e).Inv cudaToNvmlMap base nodes := by
  have hstage := h.stage t
  rw [hpc] at hstage
  have hlist : s.deviceOverallocated.Represents (nodes ++ [(p, { e with address := 0 })]) := hstage
  unfold TrackState.storeAddress
  rw [hlist.cell_eq]
  dsimp only
  refine h.change t (.charging .addChunkOnly e)
    (h.keepMutex rfl rfl (fun _ => by rw [hpc]; rfl) rfl) rfl
    (h.alone_of_writing (by rw [hpc]; rfl)) h.held_eq ⟨p, hlist.setEntry e⟩ nofun fun k => ?_
  rw [hpc]
  rfl

/-- The charge. -/
theorem charge {r : Recorder} {e : AllocatedDeviceMemory} (hpc : s.pc t = .charging r e) :
    TrackState.Inv cudaToNvmlMap base { s.goto t (.returning r e) with
      info := (addGpuDeviceMemoryUsage cudaToNvmlMap s.info s.info.pid e.dev e.length 2).1 }
      nodes := by
  have hstage := h.stage t
  rw [hpc] at hstage
  have hm : TrackMove s { s.goto t (.returning r e) with
      info := (addGpuDeviceMemoryUsage cudaToNvmlMap s.info s.info.pid e.dev e.length 2).1 } t
      (.returning r e) :=
    h.keepMutex rfl rfl (fun _ => by rw [hpc]; rfl) rfl
  refine h.exclusive hm (h.alone_of_writing (by rw [hpc]; rfl)) h.held_eq hstage nofun ?_
  have hcharged := h.charged.add cudaToNvmlMap e.dev e.length
  convert hcharged using 1
  funext k
  have hadd := hm.charge_add cudaToNvmlMap k
  rw [hpc, add_right_comm, add_right_comm (s.charge cudaToNvmlMap k)] at hadd
  have hbytes := add_right_cancel hadd
  rw [show (TrackPc.charging r e).inFlight = [] from rfl, trackedLength_nil, add_zero,
    show (TrackPc.returning r e).inFlight = [e] from rfl, trackedLength_cons, trackedLength_nil,
    add_zero] at hbytes
  exact hbytes

/-- The end of a section. -/
theorem hookReturn {r : Recorder} {e : AllocatedDeviceMemory} (hpc : s.pc t = .returning r e) :
    ∃ nodes', TrackState.Inv cudaToNvmlMap base { s.hookReturn t r e 0 with mutex := none }
      nodes' := by
  have hstage := h.stage t
  rw [hpc] at hstage
  obtain ⟨p, hlist⟩ := hstage
  have hheld : (s.hookReturn t r e 0).held = s.held ++ [e] := by
    cases r <;> rfl
  have howner := h.section_mutex t (by rw [hpc]; rfl)
  refine ⟨nodes ++ [(p, e)], h.change t .idle ⟨rfl, Or.inr (Or.inr howner), nofun, rfl⟩
    rfl (h.alone_of_writing (by rw [hpc]; rfl)) ?_ trivial (fun _ => hlist) fun k => ?_⟩
  · rw [List.map_append, ← h.held_eq]
    exact hheld
  · rw [hpc]
    dsimp only
    rw [hheld, trackedLength_append, show TrackPc.idle.inFlight = [] from rfl, trackedLength_nil,
      add_zero]
    rfl

/-- The end of a search, or the comparison of an address. -/
theorem compare {w : Remover} {dptr : UInt64} {val : Option ℕ}
    (hpc : s.pc t = .comparing w dptr val) (halone : (TrackLabel.access t).Alone s) :
    ∃ nodes', (s.compare t w dptr val).Inv cudaToNvmlMap base nodes' := by
  have hstage := h.stage t
  rw [hpc] at hstage
  obtain ⟨hnone, hlist⟩ := h.represents_of_reading (t := t) (by rw [hpc]; rfl) (by rw [hpc]; rfl)
  obtain ⟨l₁, l₂, rfl, hval, hbefore⟩ := hstage
  cases val with
  | none =>
    -- nothing has the address
    obtain rfl : l₂ = [] := by
      cases l₂ with
      | nil => rfl
      | cons n l₂ => exact absurd hval (by simp [first])
    have hheld : s.held.eraseP (fun e => e.address = dptr) = s.held := by
      refine List.eraseP_of_forall_not fun e he => ?_
      rw [h.held_eq, List.append_nil] at he
      obtain ⟨n, hn, rfl⟩ := List.mem_map.mp he
      simpa using hbefore n hn
    refine ⟨_, h.rest t .idle ?_ rfl ?_ Relation.ReflTransGen.refl (by rw [hpc]; rfl) rfl nofun
      trivial (by rw [hpc]; rfl)⟩
    · refine ⟨rfl, ?_, nofun, rfl⟩
      cases w with
      | removeChunk => exact Or.inr (Or.inr (h.section_mutex t (by rw [hpc]; rfl)))
      | removeChunkOnly => exact Or.inl rfl
    · cases w with
      | removeChunk => rfl
      | removeChunkOnly => exact hheld
  | some p =>
    obtain ⟨x, l₂, rfl⟩ : ∃ x l, l₂ = (p, x) :: l := by
      cases l₂ with
      | nil => exact absurd hval (by simp [first])
      | cons n l₂ =>
        obtain rfl := Option.some.inj hval
        exact ⟨n.2, l₂, rfl⟩
    unfold TrackState.compare
    dsimp only
    rw [hlist.cell_eq]
    dsimp only
    split_ifs with haddress
    · -- the node is taken out of what is held, and unlinked from now on
      have hfound : s.held.eraseP (fun e => e.address = dptr) = (l₁ ++ l₂).map Prod.snd := by
        rw [h.held_eq, List.map_append, List.map_cons, List.eraseP_append_right _ fun e he => ?_,
          List.eraseP_cons_of_pos (by simpa using haddress), List.map_append]
        obtain ⟨n, hn, rfl⟩ := List.mem_map.mp he
        simpa using hbefore n hn
      have hothers : ∀ u, u ≠ t → (s.pc u).usesList = false := by
        refine h.undisturbed ?_
        rw [TrackLabel.Alone, hpc] at halone
        exact halone _ hlist.cell_eq haddress
      refine ⟨l₁ ++ l₂, h.change t (.unlinking w p x .back)
        (h.keepMutex rfl rfl (fun hsection => by rw [hpc]; exact hsection) rfl) rfl hothers hfound
        ⟨l₁, l₂, rfl, hlist.cut⟩ nofun fun k => ?_⟩
      dsimp only
      rw [hpc, hfound, h.held_eq, List.map_append, List.map_append, List.map_cons,
        trackedLength_append, trackedLength_append, trackedLength_cons,
        show (TrackPc.unlinking w p x .back).inFlight = [x] from rfl, trackedLength_cons,
        show (TrackPc.comparing w dptr (some p)).inFlight = [] from rfl, trackedLength_nil]
      abel
    · refine ⟨_, h.goto t (.following w dptr p) (fun hsection => by rw [hpc]; exact hsection)
        (by rw [hpc]; rfl) rfl (fun _ u _ => hnone u) ⟨l₁, x, l₂, rfl, fun n hn => ?_⟩
        (by rw [hpc]; rfl)⟩
      rcases List.mem_append.mp hn with hn | hn
      · exact hbefore n hn
      · rw [List.mem_singleton.mp hn]
        exact haddress

/-- The link to the next node. -/
theorem follow {w : Remover} {dptr : UInt64} {p : ℕ} (hpc : s.pc t = .following w dptr p) :
    ∃ n, s.deviceOverallocated.cell p = some n ∧
      (s.goto t (.comparing w dptr n.next)).Inv cudaToNvmlMap base nodes := by
  have hstage := h.stage t
  rw [hpc] at hstage
  obtain ⟨hnone, hlist⟩ := h.represents_of_reading (t := t) (by rw [hpc]; rfl) (by rw [hpc]; rfl)
  obtain ⟨l₁, x, l₂, rfl, hbefore⟩ := hstage
  exact ⟨_, hlist.cell_eq, h.goto t (.comparing w dptr (first l₂ none))
    (fun hsection => by rw [hpc]; exact hsection) (by rw [hpc]; rfl) rfl (fun _ u _ => hnone u)
    ⟨l₁ ++ [(p, x)], l₂, by rw [List.append_assoc]; rfl, rfl, hbefore⟩ (by rw [hpc]; rfl)⟩

/-- The release. -/
theorem uncharge {w : Remover} {e : AllocatedDeviceMemory} (hpc : s.pc t = .uncharging w e) :
    TrackState.Inv cudaToNvmlMap base { s.goto t .idle with
      info := (rmGpuDeviceMemoryUsage cudaToNvmlMap s.info s.info.pid e.dev e.length 2).1
      mutex := s.mutexAfter w } nodes := by
  have hm : TrackMove s { s.goto t .idle with
      info := (rmGpuDeviceMemoryUsage cudaToNvmlMap s.info s.info.pid e.dev e.length 2).1
      mutex := s.mutexAfter w } t .idle := by
    refine ⟨rfl, ?_, nofun, rfl⟩
    cases w with
    | removeChunk => exact Or.inr (Or.inr (h.section_mutex t (by rw [hpc]; rfl)))
    | removeChunkOnly => exact Or.inl rfl
  refine h.still hm rfl rfl (by rw [hpc]; rfl) rfl nofun trivial (h.charged.rm fun k => ?_)
  have hadd := hm.charge_add cudaToNvmlMap k
  rw [hpc, add_right_comm, add_right_comm (s.charge cudaToNvmlMap k)] at hadd
  have hbytes := add_right_cancel hadd
  rw [show (TrackPc.uncharging w e).inFlight = [e] from rfl, trackedLength_cons, trackedLength_nil,
    add_zero, show TrackPc.idle.inFlight = [] from rfl, trackedLength_nil, add_zero] at hbytes
  exact hbytes.symm

/-- **An access.** -/
theorem access (halone : (TrackLabel.access t).Alone s)
    (hst : s.access cudaToNvmlMap t = some s') : ∃ nodes', s'.Inv cudaToNvmlMap base nodes' := by
  unfold TrackState.access at hst
  split at hst
  · next r p e pc hpc =>
    cases hst
    exact ⟨nodes, h.append hpc⟩
  · next p e hpc =>
    cases hst
    exact ⟨nodes, h.storeAddress hpc⟩
  · next r e hpc =>
    cases hst
    exact ⟨nodes, h.charge hpc⟩
  · next r e hpc =>
    cases hst
    exact h.hookReturn hpc
  · next dptr hpc =>
    split at hst
    · next hfree =>
      cases hst
      exact ⟨nodes, h.rest t (.starting .removeChunk dptr)
        ⟨rfl, Or.inr (Or.inl hfree), fun _ => rfl, rfl⟩ rfl rfl Relation.ReflTransGen.refl
        (by rw [hpc]; rfl) rfl nofun trivial (by rw [hpc]; rfl)⟩
    · exact absurd hst (by simp)
  · next handle hpc =>
    split_ifs at hst with hzero
    · cases hst
      have hnil : s.held = [] := by
        rw [h.held_eq, List.map_eq_nil_iff, ← List.length_eq_zero_iff]
        have hle := h.length_le
        omega
      refine ⟨nodes, h.rest t .idle (h.keepMutex rfl rfl nofun rfl) rfl ?_
        Relation.ReflTransGen.refl (by rw [hpc]; rfl) rfl nofun trivial (by rw [hpc]; rfl)⟩
      dsimp only
      rw [hnil]
      rfl
    · cases hst
      exact ⟨nodes, h.goto t (.starting .removeChunkOnly handle) nofun (by rw [hpc]; rfl) rfl nofun
        trivial (by rw [hpc]; rfl)⟩
  · next w dptr hpc =>
    cases hst
    rw [TrackLabel.Alone, hpc] at halone
    have hothers := h.undisturbed halone
    have hlist := h.clean fun u => by
      by_cases hu : u = t
      · rw [hu, hpc]
        rfl
      · exact hothers u hu
    exact ⟨nodes, h.goto t (.comparing w dptr s.deviceOverallocated.head)
      (fun hsection => by rw [hpc]; exact hsection) (by rw [hpc]; rfl) rfl (fun _ => hothers)
      ⟨[], nodes, rfl, hlist.head_eq, by simp⟩ (by rw [hpc]; rfl)⟩
  · next w dptr val hpc =>
    cases hst
    exact h.compare hpc halone
  · next w dptr p hpc =>
    obtain ⟨n, hn, h'⟩ := h.follow hpc
    rw [hn] at hst
    cases hst
    exact ⟨nodes, h'⟩
  · next w p e pc hpc =>
    cases hst
    exact ⟨nodes, h.unlink hpc⟩
  · next w e hpc =>
    cases hst
    exact ⟨nodes, h.uncharge hpc⟩
  · exact absurd hst (by simp)

/-! ### The other steps -/

/-- A step of a hook up to its mutex. -/
theorem prepare (pc : TrackPc) (hpc : s'.pc = Function.update s.pc t pc)
    (hmutex : s'.mutex = s.mutex) (hintact : s'.corrupted = s.corrupted)
    (hlist : s'.deviceOverallocated = s.deviceOverallocated) (hheld : s'.held = s.held)
    (hcomp : SelfCompacts s.info s'.info) (hold : (s.pc t).inFlight = [] ∧ (s.pc t).writing = false)
    (hnew : pc.inSection = false ∧ pc.usesList = false ∧ pc.inFlight = []) :
    s'.Inv cudaToNvmlMap base nodes := by
  obtain ⟨hsection, huses, hflight⟩ := hnew
  have hwriting : pc.writing = false := by
    by_contra hwriting
    rw [TrackPc.usesList_of_writing (by simpa using hwriting)] at huses
    exact absurd huses (by simp)
  exact h.rest t pc (h.keepMutex hpc hmutex (by simp [hsection]) hintact) hlist hheld
    hcomp hold.2 hwriting (by simp [huses]) (TrackPc.stage_of_usesList huses _ _)
    (hflight.trans hold.1.symm)

theorem firstCheck {r : Recorder} {dev : Dev} {size : UInt64} {procAlive : ℕ → Pid → ProcState}
    (hpc : s.pc t = .idle) (hself : ∀ n, procAlive n s.info.pid ≠ .nonalive)
    (hst : s.firstCheck t r dev size procAlive = some s') :
    s'.Inv cudaToNvmlMap base nodes := by
  obtain ⟨⟨oom, info⟩, hoom, rfl⟩ := Option.map_eq_some_iff.mp hst
  refine h.prepare _ rfl rfl rfl rfl rfl ((oomCheck_spec hoom).1.selfCompacts hself)
    (by rw [hpc]; exact ⟨rfl, rfl⟩) ?_
  split_ifs <;> exact ⟨rfl, rfl, rfl⟩

theorem call {c : HookCall} {procAlive : ℕ → Pid → ProcState} (hpc : s.pc t = .idle)
    (hself : ∀ n, procAlive n s.info.pid ≠ .nonalive) (hst : s.call t procAlive c = some s') :
    s'.Inv cudaToNvmlMap base nodes := by
  have hold : (s.pc t).inFlight = [] ∧ (s.pc t).writing = false := by
    rw [hpc]
    exact ⟨rfl, rfl⟩
  cases c with
  | cuMemAllocV2 dev bytesize => exact h.firstCheck hpc hself hst
  | cuMemAllocManaged ctxDevice bytesize =>
    simp only [TrackState.call] at hst
    split at hst
    · cases hst
      exact h
    · exact h.firstCheck hpc hself hst
  | cuMemAllocPitchV2 ctxDevice widthInBytes height elementSizeBytes =>
    simp only [TrackState.call] at hst
    split_ifs at hst
    split at hst
    · cases hst
      exact h
    · exact h.firstCheck hpc hself hst
  | cuMemCreate ctxDevice location size =>
    simp only [TrackState.call] at hst
    split at hst
    · exact h.firstCheck hpc hself hst
    · exact h.firstCheck hpc hself hst
    · cases hst
      exact h
  | cuMemFreeV2 dptr =>
    simp only [TrackState.call] at hst
    split_ifs at hst
    · cases hst
      exact h
    · cases hst
      exact h
    · cases hst
      exact h.prepare (.removing dptr) rfl rfl rfl rfl rfl Relation.ReflTransGen.refl hold
        ⟨rfl, rfl, rfl⟩
  | cuMemRelease handle =>
    cases hst
    exact h.prepare (.releasing handle) rfl rfl rfl rfl rfl Relation.ReflTransGen.refl hold
      ⟨rfl, rfl, rfl⟩

end TrackState.Inv

/-- Memory is handed to the caller and not recorded. -/
structure TrackLoss (s s' : TrackState T) : Prop where
  list_eq : s'.deviceOverallocated = s.deviceOverallocated
  held_eq : ∃ e, s'.held = s.held ++ [e]
  /-- Nobody appends meanwhile. -/
  outside : ∀ u, (s.pc u).writing = true → (s.pc u).inSection = false

namespace TrackState.Inv

variable (h : s.Inv cudaToNvmlMap base nodes)

include h

/-- The second check: it passes, or `add_chunk` reports the failure, or `add_chunk_only` loses the
memory. -/
theorem secondCheck {procAlive : ℕ → Pid → ProcState}
    (hself : ∀ n, procAlive n s.info.pid ≠ .nonalive)
    (hst : s.step cudaToNvmlMap (.secondCheck t procAlive) = some s') :
    ((TrackLabel.secondCheck t procAlive).Records s ∧ ∃ nodes', s'.Inv cudaToNvmlMap base nodes') ∨
      (¬ (TrackLabel.secondCheck t procAlive).Records s ∧ TrackLoss s s') := by
  simp only [TrackState.step] at hst
  split at hst
  · next r dev size address hpc hfree =>
    obtain ⟨⟨oom, info⟩, hoom, rfl⟩ := Option.map_eq_some_iff.mp hst
    have hcomp := (oomCheck_spec hoom).1.selfCompacts hself
    have hold : (s.pc t).inFlight = [] ∧ (s.pc t).writing = false := by
      rw [hpc]
      exact ⟨rfl, rfl⟩
    dsimp only
    split_ifs with hne
    · cases r with
      | addChunk =>
        refine Or.inl ⟨fun dev' size' address' hpc' => ?_, nodes, ?_⟩
        · rw [hpc] at hpc'
          exact absurd hpc' (by simp)
        · exact h.prepare .idle rfl rfl rfl rfl rfl hcomp hold ⟨rfl, rfl, rfl⟩
      | addChunkOnly =>
        refine Or.inr ⟨fun hrec => hne ?_, rfl, ⟨_, rfl⟩, fun u hu => ?_⟩
        · exact hrec dev size address hpc (oom, info) hoom
        · by_contra hsection
          have howner := h.section_mutex u (by simpa using hsection)
          rw [hfree] at howner
          exact absurd howner (by simp)
    · refine Or.inl ⟨fun dev' size' address' hpc' out hout => ?_, nodes, ?_⟩
      · rw [hpc, TrackPc.tracking.injEq] at hpc'
        obtain ⟨-, rfl, rfl, -⟩ := hpc'
        rw [← Option.some.inj (hoom.symm.trans hout)]
        exact not_not.mp hne
      · exact h.rest t (.passed r dev size address)
          ⟨rfl, Or.inr (Or.inl hfree), fun _ => rfl, rfl⟩ rfl rfl hcomp hold.2 rfl nofun trivial
          hold.1.symm
  · exact absurd hst (by simp)

/-- The new entry: `LIST_ADD` begins, or `add_chunk` reports the failure, or `add_chunk_only` loses
the memory. -/
theorem record {node : Option ℕ} (halone : (TrackLabel.record t node).Alone s)
    (hst : s.step cudaToNvmlMap (.record t node) = some s') :
    ((TrackLabel.record t node).Records s ∧ ∃ nodes', s'.Inv cudaToNvmlMap base nodes') ∨
      (¬ (TrackLabel.record t node).Records s ∧ TrackLoss s s') := by
  simp only [TrackState.step] at hst
  split at hst
  · next r dev size address p hpc =>
    split_ifs at hst with hfresh
    cases hst
    refine Or.inl ⟨fun _ _ _ _ => by simp, nodes, ?_⟩
    have hothers := h.undisturbed halone
    have hlist : s.deviceOverallocated.Represents nodes := by
      refine h.clean fun u => ?_
      by_cases hu : u = t
      · rw [hu, hpc]
        rfl
      · by_contra hwriting
        have hwriting' : (s.pc u).writing = true := by simpa using hwriting
        have huses := TrackPc.usesList_of_writing hwriting'
        rw [hothers u hu] at huses
        exact absurd huses (by simp)
    refine h.change t (.appending r p ⟨address, size, dev⟩ .test)
      (h.keepMutex rfl rfl (fun _ => by rw [hpc]; rfl) rfl) rfl hothers h.held_eq
      (hlist.beside hfresh _) nofun fun k => ?_
    rw [hpc]
    rfl
  · next r dev size address hpc =>
    cases hst
    cases r with
    | addChunk =>
      refine Or.inl ⟨fun dev' size' address' hpc' => ?_, nodes, ?_⟩
      · rw [hpc] at hpc'
        exact absurd hpc' (by simp)
      · exact h.prepare .idle rfl rfl rfl rfl rfl Relation.ReflTransGen.refl
          (by rw [hpc]; exact ⟨rfl, rfl⟩) ⟨rfl, rfl, rfl⟩
    | addChunkOnly =>
      refine Or.inr ⟨fun hrec => hrec dev size address hpc rfl, rfl, ⟨_, rfl⟩, fun u hu => ?_⟩
      by_contra hsection
      have howner := (h.section_mutex t (by rw [hpc]; rfl)).symm.trans
        (h.section_mutex u (by simpa using hsection))
      rw [← Option.some.inj howner, hpc] at hu
      exact absurd hu (by simp [TrackPc.writing])
  · exact absurd hst (by simp)

/-- **Reading a step.** -/
theorem step {a : TrackLabel T} (hreg : a.Regular s) (halone : a.Alone s)
    (hst : s.step cudaToNvmlMap a = some s') :
    (a.Records s ∧ ∃ nodes', s'.Inv cudaToNvmlMap base nodes') ∨
      (¬ a.Records s ∧ TrackLoss s s') := by
  cases a with
  | call t c procAlive =>
    simp only [TrackState.step] at hst
    split at hst
    · next hpc => exact Or.inl ⟨trivial, nodes, h.call hpc hreg hst⟩
    · exact absurd hst (by simp)
  | driverAlloc t result =>
    simp only [TrackState.step] at hst
    split at hst
    · next r dev size address hpc =>
      cases hst
      exact Or.inl ⟨trivial, nodes, h.prepare (.tracking r dev size address) rfl rfl rfl rfl rfl
        Relation.ReflTransGen.refl (by rw [hpc]; exact ⟨rfl, rfl⟩) ⟨rfl, rfl, rfl⟩⟩
    · next hpc =>
      cases hst
      exact Or.inl ⟨trivial, nodes, h.prepare .idle rfl rfl rfl rfl rfl Relation.ReflTransGen.refl
        (by rw [hpc]; exact ⟨rfl, rfl⟩) ⟨rfl, rfl, rfl⟩⟩
    · exact absurd hst (by simp)
  | secondCheck t procAlive => exact h.secondCheck hreg hst
  | record t node => exact h.record halone hst
  | driverRelease t ok =>
    simp only [TrackState.step] at hst
    split at hst
    · next handle hpc =>
      cases hst
      refine Or.inl ⟨trivial, nodes, h.prepare _ rfl rfl rfl rfl rfl Relation.ReflTransGen.refl
        (by rw [hpc]; exact ⟨rfl, rfl⟩) ?_⟩
      split_ifs <;> exact ⟨rfl, rfl, rfl⟩
    · exact absurd hst (by simp)
  | access t => exact Or.inl ⟨trivial, h.access halone hst⟩
  | others region =>
    cases hst
    exact Or.inl ⟨trivial, nodes, h.section_mutex, h.writer, h.clean, h.stage, h.held_eq,
      h.charged.others hreg, h.intact⟩

omit [DecidableEq T] in
/-- Whoever follows the links meets what is held. -/
theorem reads : ∃ l, Reads ListNode.next s.deviceOverallocated.cell s.deviceOverallocated.head l ∧
    s.held.Subperm (l.map Prod.snd) := by
  rw [h.held_eq]
  by_cases hwriter : ∃ u, (s.pc u).writing = true
  · obtain ⟨u, hu⟩ := hwriter
    have hstage := h.stage u
    have happended : ∀ n : ℕ × AllocatedDeviceMemory,
        (nodes.map Prod.snd).Subperm ((nodes ++ [n]).map Prod.snd) := fun n =>
      ((List.sublist_append_left nodes [n]).map Prod.snd).subperm
    cases hpc : s.pc u with
    | appending r p e pc =>
      rw [hpc] at hstage
      obtain ⟨l, hl, rfl | rfl⟩ := AppendPc.Holds.reads hstage
      · exact ⟨_, hl, List.Subperm.refl _⟩
      · exact ⟨_, hl, happended _⟩
    | addressing p e =>
      rw [hpc] at hstage
      exact ⟨_, Represents.reads_next hstage, happended _⟩
    | charging r e =>
      rw [hpc] at hstage
      obtain ⟨p, hlist⟩ := hstage
      exact ⟨_, hlist.reads_next, happended _⟩
    | returning r e =>
      rw [hpc] at hstage
      obtain ⟨p, hlist⟩ := hstage
      exact ⟨_, hlist.reads_next, happended _⟩
    | unlinking w p e pc =>
      rw [hpc] at hstage
      obtain ⟨l₁, l₂, rfl, hstage⟩ := hstage
      obtain ⟨l, hl, rfl | rfl⟩ := hstage.reads
      · refine ⟨_, hl, (List.Sublist.map Prod.snd ?_).subperm⟩
        exact (List.sublist_cons_self _ _).append_left l₁
      · exact ⟨_, hl, List.Subperm.refl _⟩
    | _ =>
      rw [hpc] at hu
      exact absurd hu (by simp [TrackPc.writing])
  · have hclean := h.clean fun u => by simpa using fun hu => hwriter ⟨u, hu⟩
    exact ⟨nodes, hclean.reads_next, List.Subperm.refl _⟩

omit [DecidableEq T] in
theorem accounted : s.Accounted cudaToNvmlMap base := by
  obtain ⟨slot, hpts, hpid, hused⟩ := h.charged.slot
  refine ⟨h.reads, ⟨slot, hpts, hpid, fun k => ?_⟩, h.intact⟩
  rw [hused k]
  rfl

omit [DecidableEq T] in
/-- Lost memory is held and not in the list. -/
theorem not_accounted (hloss : TrackLoss s s')
    (hunlink : ∀ t w val e pc, s.pc t ≠ .unlinking w val e pc) :
    ¬ s'.Accounted cudaToNvmlMap base := by
  rintro ⟨⟨l, hl, hsub⟩, -⟩
  have hlist : s.deviceOverallocated.Represents nodes := by
    refine h.clean fun u => ?_
    by_contra hu
    have hu' : (s.pc u).writing = true := by simpa using hu
    rcases TrackPc.inSection_of_writing hu' with hsection | ⟨w, val, e, pc, hpc⟩
    · rw [hloss.outside u hu'] at hsection
      exact absurd hsection (by simp)
    · exact hunlink u w val e pc hpc
  rw [hloss.list_eq] at hl
  obtain rfl := hl.unique hlist.reads_next
  obtain ⟨e, he⟩ := hloss.held_eq
  have hlen := hsub.length_le
  rw [he, h.held_eq, List.length_append, List.length_singleton] at hlen
  omega

end TrackState.Inv

end Moves

/-! ## Whole runs -/

/-- A process with a coherent pointer at its slot, whose threads have not called a hook yet. -/
structure TrackState.Start {T : Type*} (s : TrackState T) (slot : ShrregProcSlot) : Prop where
  pointsAt : s.info.PointsAt slot
  pid_eq : slot.pid = s.info.pid
  pid_ne_zero : s.info.pid ≠ 0
  untracked : s.deviceOverallocated.Represents []
  none_held : s.held = []
  idle : ∀ t, s.pc t = .idle
  intact : s.corrupted = false

section Runs

variable {T : Type*} [DecidableEq T] [Fintype T] {cudaToNvmlMap : Dev → Dev} {s s' : TrackState T}
  {slot : ShrregProcSlot}

omit [DecidableEq T] in
theorem TrackState.Start.inv (h : s.Start slot) : s.Inv cudaToNvmlMap slot.used [] := by
  refine ⟨fun t ht => ?_, fun t u ht => ?_, fun _ => h.untracked, fun t => ?_, h.none_held,
    ⟨h.pid_ne_zero, slot, h.pointsAt, h.pid_eq, fun k => ?_⟩, h.intact⟩
  · rw [h.idle] at ht
    exact absurd ht (by simp [TrackPc.inSection])
  · rw [h.idle] at ht
    exact absurd ht (by simp [TrackPc.writing])
  · rw [h.idle]
    trivial
  · have hcharge : s.charge cudaToNvmlMap k = 0 := by
      simp [TrackState.charge, h.none_held, h.idle, TrackPc.inFlight]
    rw [hcharge]
    simp [DeviceMemory.grown]

end Runs

/-! ## Two threads -/

section Eval

variable {T : Type*} [DecidableEq T] [Fintype T] {s : TrackState T} {a : TrackLabel T}

instance (t : T) (busy : TrackPc → Bool) : Decidable (s.Undisturbed t busy) :=
  inferInstanceAs (Decidable (∀ u, u ≠ t → busy (s.pc u) = true →
    (s.pc t).inSection = true ∧ (s.pc u).inSection = true))

/-- `Alone`, evaluated. -/
def TrackLabel.alone (s : TrackState T) : TrackLabel T → Bool
  | .record t (some _) => decide (s.Undisturbed t TrackPc.usesList)
  | .access t =>
    match s.pc t with
    | .starting _ _ => decide (s.Undisturbed t TrackPc.writing)
    | .comparing _ dptr (some p) =>
      (s.deviceOverallocated.cell p).all fun n =>
        decide (n.entry.address = dptr → s.Undisturbed t TrackPc.usesList)
    | _ => true
  | _ => true

theorem TrackLabel.alone_of_eval (h : a.alone s = true) : a.Alone s := by
  cases a with
  | record t node =>
    cases node with
    | none => trivial
    | some p => exact (of_decide_eq_true h : s.Undisturbed t TrackPc.usesList)
  | access t =>
    rw [TrackLabel.Alone]
    rw [TrackLabel.alone] at h
    cases hpc : s.pc t with
    | starting w dptr =>
      rw [hpc] at h
      exact (of_decide_eq_true h : s.Undisturbed t TrackPc.writing)
    | comparing w dptr val =>
      rw [hpc] at h
      cases val with
      | none => trivial
      | some p =>
        intro n hn haddress
        dsimp only at h
        rw [hn] at h
        exact (of_decide_eq_true h : _ → s.Undisturbed t TrackPc.usesList) haddress
    | _ => trivial
  | _ => trivial

omit [DecidableEq T] [Fintype T] in
/-- `Records`, evaluated. -/
def TrackLabel.records (s : TrackState T) : TrackLabel T → Bool
  | .secondCheck t procAlive =>
    match s.pc t with
    | .tracking .addChunkOnly dev size _ =>
      (oomCheck procAlive dev size s.info).all fun out => out.1 = 0
    | _ => true
  | .record _ node => node.isSome
  | _ => true

omit [DecidableEq T] [Fintype T] in
theorem TrackLabel.records_of_eval (h : a.records s = true) : a.Records s := by
  cases a with
  | secondCheck t procAlive =>
    intro dev size address hpc out hout
    rw [TrackLabel.records, hpc] at h
    change ((oomCheck procAlive dev size s.info).all fun out => decide (out.1 = 0)) = true at h
    rw [hout] at h
    exact of_decide_eq_true h
  | record t node =>
    intro dev size address hpc
    exact Option.isSome_iff_ne_none.mp h
  | _ => trivial

end Eval

/-- Process `7` with two threads, registered alone under a limit on device `0`. -/
def twoTracking (limit : UInt64) : TrackState Worker where
  info := ⟨7, ⟨fun _ => limit, fun _ => { ShrregProcSlot.blank with pid := 7 }, 1⟩, some 0⟩
  deviceOverallocated := LinkedList.empty
  mutex := none
  pc := fun _ => .idle
  held := []
  corrupted := false

theorem twoTracking_start (limit : UInt64) :
    (twoTracking limit).Start { ShrregProcSlot.blank with pid := 7 } :=
  ⟨⟨0, rfl, Nat.one_pos, rfl⟩, rfl, show (7 : Pid) ≠ 0 by decide,
    Represents.init LinkedList.empty, rfl, fun _ => rfl, rfl⟩

/-- What is held, and what is met along the links. -/
def TrackState.view (s : TrackState Worker) :
    List AllocatedDeviceMemory × Option (List (ℕ × AllocatedDeviceMemory)) :=
  (s.held, collect s.deviceOverallocated.cell 5 s.deviceOverallocated.head)

/-- More is held than is met. -/
theorem TrackState.not_accounted_of_view {s : TrackState Worker} {held : List AllocatedDeviceMemory}
    {l : List (ℕ × AllocatedDeviceMemory)} (h : s.view = (held, some l))
    (hlength : l.length < held.length) {base : Dev → DeviceMemory} : ¬ s.Accounted id base := by
  rintro ⟨⟨l', hl', hsub⟩, -⟩
  obtain ⟨hheld, hcollect⟩ := Prod.mk.inj h
  obtain rfl := hl'.unique (reads_of_collect hcollect)
  have hle := hsub.length_le
  rw [hheld, List.length_map] at hle
  omega

/-- Both threads pass their first check for 6 bytes of managed memory before either records; the
first one records, the second one checks again. -/
def bothCheck : List (TrackLabel Worker) :=
  [.call .one (.cuMemAllocManaged (.ok 0) 6) fun _ _ => .alive,
    .call .two (.cuMemAllocManaged (.ok 0) 6) fun _ _ => .alive,
    .driverAlloc .one (.ok 100), .driverAlloc .two (.ok 200),
    .secondCheck .one fun _ _ => .alive, .record .one (some 1)] ++
  List.replicate 7 (.access .one) ++ [.secondCheck .two fun _ _ => .alive]

/-- The second one records, and the first one releases what it has. -/
def thenRelease : List (TrackLabel Worker) :=
  [.record .two (some 2)] ++ List.replicate 10 (.access .two) ++
  [.call .one (.cuMemRelease 100) fun _ _ => .alive, .driverRelease .one true] ++
  List.replicate 13 (.access .one)

/-- The first thread creates a byte under the handle `address`, and records it in `node`. -/
def createByte (address : UInt64) (node accesses : ℕ) : List (TrackLabel Worker) :=
  [.call .one (.cuMemCreate (.ok 0) (some 0) 1) fun _ _ => .alive,
    .driverAlloc .one (.ok address), .secondCheck .one fun _ _ => .alive,
    .record .one (some node)] ++ List.replicate accesses (.access .one)

/-- The first thread releases `handle`, up to the store of the link it has loaded. -/
def releaseUpToStore (handle : UInt64) : List (TrackLabel Worker) :=
  [.call .one (.cuMemRelease handle) fun _ _ => .alive, .driverRelease .one true] ++
  List.replicate 6 (.access .one)

/-- The second thread allocates. -/
def allocateBeside : List (TrackLabel Worker) :=
  [.call .two (.cuMemAllocManaged (.ok 0) 1) fun _ _ => .alive, .driverAlloc .two (.ok 300),
    .secondCheck .two fun _ _ => .alive, .record .two (some 3)] ++
  List.replicate 10 (.access .two)

/-- The first thread creates twice, releases the second handle, and loads the link of its node; then
the second thread allocates, and then the first one stores what it has loaded. -/
def releaseAcross : List (TrackLabel Worker) :=
  createByte 100 1 7 ++ createByte 200 2 10 ++ releaseUpToStore 200 ++ allocateBeside ++
  [.access .one]

theorem twoTracking_regular :
    ∀ a ∈ bothCheck ++ thenRelease ++ releaseAcross, ∀ s : TrackState Worker, a.Regular s := by
  simp only [bothCheck, thenRelease, releaseAcross, createByte, releaseUpToStore, allocateBeside,
    List.forall_mem_append, List.forall_mem_cons, List.mem_replicate]
  simp [TrackLabel.Regular]

theorem exec_bothCheck_roomy :
    (exec (TrackState.step id) (fun s a => a.alone s && a.records s) (bothCheck ++ thenRelease)
      (twoTracking 20)).map TrackState.view = some ([⟨200, 6, 0⟩], some [(2, ⟨200, 6, 0⟩)]) := by
  decide +kernel

theorem exec_bothCheck_tight :
    (exec (TrackState.step id) (fun s a => a.alone s) bothCheck (twoTracking 10)).map
      TrackState.view = some ([⟨100, 6, 0⟩, ⟨200, 6, 0⟩], some [(1, ⟨100, 6, 0⟩)]) := by
  decide +kernel

theorem exec_releaseAcross :
    (exec (TrackState.step id) (fun s a => a.records s) releaseAcross (twoTracking 10)).map
      TrackState.view = some ([⟨100, 1, 0⟩, ⟨300, 1, 0⟩], some [(1, ⟨100, 1, 0⟩)]) := by
  decide +kernel

end HamiCore
