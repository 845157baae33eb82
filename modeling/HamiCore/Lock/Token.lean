import HamiCore.Lock.Protocol

/-!
# The token of the region lock

The semaphore counts one token.  `TokenInv` says where it is, and is preserved by every move of the
protocol under the two conditions that the environment and `exit_handler` have to meet: `proc_alive`
does not report a live process dead, and `exit_handler` does not swap out the pid of a process whose
other thread is inside.
-/

namespace HamiCore

namespace LockState

variable {T : Type*} [DecidableEq T] {pidOf : T → Pid} {s s' : LockState T} {t t' : T}

/-- Thread `t` has the token. -/
def Holds (pidOf : T → Pid) (s : LockState T) (t : T) : Prop :=
  (s.pc t).HasToken ∨ (s.pc t = .owning ∧ s.ownerPid = pidOf t)

/-- The invariant of the protocol. -/
structure TokenInv (pidOf : T → Pid) (s : LockState T) : Prop where
  /-- The token is at most once in the semaphore, -/
  sem_le : s.sem ≤ 1
  /-- and either there or with a thread, -/
  sem_zero_iff : s.sem = 0 ↔ ∃ t, s.Holds pidOf t
  /-- which is the only one. -/
  unique : ∀ t t', s.Holds pidOf t → s.Holds pidOf t' → t = t'
  /-- A live thread inside the section has its process in `owner_pid`, -/
  owner_of_owning : ∀ t, s.alive (pidOf t) = true → s.pc t = .owning → s.ownerPid = pidOf t
  /-- and a process in `owner_pid` has a thread that got as far as the section. -/
  owning_of_owner : s.ownerPid ≠ 0 → ∃ t, pidOf t = s.ownerPid ∧ s.pc t = .owning
  pcOk : ∀ t, s.PcOk (s.pc t)

theorem pcOk_goto {t : T} {pc pc' : LockPc} : (s.goto t pc).PcOk pc' ↔ s.PcOk pc' := by
  cases pc' <;> rfl

/-! ## The moves keep the invariant -/

omit [DecidableEq T] in
/-- Having the token depends on the thread's place and on `owner_pid` only. -/
theorem holds_congr (hpc : s'.pc t = s.pc t) (how : s'.ownerPid = s.ownerPid) :
    s'.Holds pidOf t ↔ s.Holds pidOf t := by
  rw [Holds, Holds, hpc, how]

omit [DecidableEq T] in
theorem not_holds_of_quiet (h : (s.pc t).Quiet) : ¬ s.Holds pidOf t := by
  rintro (htok | ⟨hown, -⟩)
  · exact h.not_hasToken htok
  · exact h.ne_owning hown

omit [DecidableEq T] in
/-- A live thread inside the section has the token. -/
theorem TokenInv.holds_of_owning (h : s.TokenInv pidOf) (hlive : s.alive (pidOf t) = true)
    (hpc : s.pc t = .owning) : s.Holds pidOf t :=
  Or.inr ⟨hpc, h.owner_of_owning t hlive hpc⟩

omit [DecidableEq T] in
theorem TokenInv.sem_zero (h : s.TokenInv pidOf) (ht : s.Holds pidOf t) : s.sem = 0 :=
  h.sem_zero_iff.mpr ⟨t, ht⟩

omit [DecidableEq T] in
/-- While somebody has the token outside the section, `owner_pid` is clear. -/
theorem TokenInv.owner_eq_zero (h : s.TokenInv pidOf) (ht : (s.pc t).HasToken) :
    s.ownerPid = 0 := by
  by_contra hne
  obtain ⟨t', ht', hown⟩ := h.owning_of_owner hne
  have heq : t = t' := h.unique t t' (Or.inl ht) (Or.inr ⟨hown, ht'.symm⟩)
  rw [heq, hown] at ht
  exact ht

omit [DecidableEq T] in
theorem Initial.tokenInv (h : s.Initial) : s.TokenInv pidOf := by
  obtain ⟨hsem, howner, hpc⟩ := h
  have hno : ∀ t, ¬ s.Holds pidOf t := fun t => not_holds_of_quiet (by rw [hpc t]; trivial)
  refine ⟨hsem.le, ⟨fun hz => ?_, fun ⟨t, ht⟩ => absurd ht (hno t)⟩,
    fun t t' ht => absurd ht (hno t), fun t _ hown => ?_, fun hne => absurd howner hne, fun t => ?_⟩
  · omega
  · rw [hpc t] at hown
    exact absurd hown (by simp)
  · rw [hpc t]
    trivial

/-- The promises of the places survive a step of one thread that kills nobody. -/
theorem pcOk_goto_of_pcOk {pc : LockPc} (halive : s'.alive = s.alive)
    (h : ∀ t', s.PcOk (s'.pc t')) (hpc : s.PcOk pc) (t' : T) :
    (s'.goto t pc).PcOk ((s'.goto t pc).pc t') := by
  rw [pcOk_goto]
  have hiff : ∀ pc', s'.PcOk pc' ↔ s.PcOk pc' := fun pc' => by
    cases pc' <;> first | rfl | exact Iff.of_eq (by rw [PcOk, PcOk, halive])
  rw [hiff]
  by_cases ht : t' = t
  · rw [ht, goto_pc_self]
    exact hpc
  · rw [goto_pc_of_ne _ ht]
    exact h t'

section Moves

variable (h0 : ∀ t, pidOf t ≠ 0)

theorem TokenInv.quiet (h : s.TokenInv pidOf) {pc : LockPc} (hq : (s.pc t).Quiet) (hq' : pc.Quiet)
    (hok : s.PcOk pc) : (s.goto t pc).TokenInv pidOf := by
  have hiff : ∀ t', (s.goto t pc).Holds pidOf t' ↔ s.Holds pidOf t' := by
    intro t'
    by_cases ht : t' = t
    · subst ht
      exact iff_of_false (not_holds_of_quiet (by rwa [goto_pc_self])) (not_holds_of_quiet hq)
    · exact holds_congr (goto_pc_of_ne s ht pc) rfl
  refine ⟨h.sem_le, ?_, fun a b ha hb => h.unique a b ((hiff a).mp ha) ((hiff b).mp hb),
    fun a hlive hown => ?_, fun hne => ?_, pcOk_goto_of_pcOk rfl h.pcOk hok⟩
  · rw [goto_sem, h.sem_zero_iff]
    exact exists_congr fun a => (hiff a).symm
  · have hat : a ≠ t := ne_of_goto_owning hq'.ne_owning hown
    rw [goto_pc_of_ne s hat] at hown
    exact h.owner_of_owning a hlive hown
  · obtain ⟨a, ha, hown⟩ := h.owning_of_owner hne
    have hat : a ≠ t := by
      rintro rfl
      exact hq.ne_owning hown
    exact ⟨a, ha, by rwa [goto_pc_of_ne s hat]⟩

omit [DecidableEq T] in
/-- The token changes hands: after a move of thread `t` that gives it the token, nobody else has
it. -/
theorem tokenInv_of_holder (hsem : s'.sem = 0) (ht : s'.Holds pidOf t)
    (honly : ∀ t', t' ≠ t → ¬ s'.Holds pidOf t')
    (howning : ∀ t', s'.alive (pidOf t') = true → s'.pc t' = .owning → s'.ownerPid = pidOf t')
    (howner : s'.ownerPid ≠ 0 → ∃ t', pidOf t' = s'.ownerPid ∧ s'.pc t' = .owning)
    (hok : ∀ t', s'.PcOk (s'.pc t')) : s'.TokenInv pidOf where
  sem_le := by omega
  sem_zero_iff := ⟨fun _ => ⟨t, ht⟩, fun _ => hsem⟩
  unique a b ha hb := by
    have heq : ∀ t', s'.Holds pidOf t' → t' = t :=
      fun t' ht' => by_contra fun hne => honly t' hne ht'
    rw [heq a ha, heq b hb]
  owner_of_owning := howning
  owning_of_owner := howner
  pcOk := hok

theorem TokenInv.take (h : s.TokenInv pidOf) {sem : ℕ} (hsem : s.sem = sem + 1) :
    ({ s with sem := sem }.goto t .acquired : LockState T).TokenInv pidOf := by
  have hle := h.sem_le
  have hno : ∀ t', ¬ s.Holds pidOf t' := fun t' ht' => by
    have := h.sem_zero ht'
    omega
  have hzero : s.ownerPid = 0 := by
    by_contra hne
    obtain ⟨a, ha, hown⟩ := h.owning_of_owner hne
    exact hno a (Or.inr ⟨hown, ha.symm⟩)
  refine tokenInv_of_holder (by rw [goto_sem]; dsimp only; omega)
    (Or.inl (by rw [goto_pc_self]; trivial)) (fun a hat ha => ?_) (fun a hlive hown => ?_)
    (fun hne => absurd hzero hne) (pcOk_goto_of_pcOk rfl h.pcOk trivial)
  · exact hno a ((holds_congr (goto_pc_of_ne _ hat _) rfl).mp ha)
  · have hat : a ≠ t := ne_of_goto_owning (by simp) hown
    rw [goto_pc_of_ne _ hat] at hown
    exact absurd (h.holds_of_owning hlive hown) (hno a)

theorem TokenInv.store (h : s.TokenInv pidOf) (hlive : s.alive (pidOf t) = true)
    (hpc : s.pc t = .acquired) :
    ({ s with ownerPid := pidOf t }.goto t .owning : LockState T).TokenInv pidOf := by
  have ht : s.Holds pidOf t := Or.inl (by rw [hpc]; trivial)
  refine tokenInv_of_holder (h.sem_zero ht) (Or.inr ⟨goto_pc_self _ _ _, rfl⟩)
    (fun a hat ha => ?_) (fun a hlive' hown => ?_) (fun _ => ⟨t, rfl, goto_pc_self _ _ _⟩)
    (pcOk_goto_of_pcOk rfl h.pcOk trivial)
  · rw [Holds, goto_pc_of_ne _ hat] at ha
    rcases ha with htok | ⟨hown, hpid⟩
    · exact hat (h.unique a t (Or.inl htok) ht)
    · -- another thread of the same process, which lives: it would have the token already
      have hlive' : s.alive (pidOf a) = true := by
        rw [← hpid]
        exact hlive
      exact hat (h.unique a t (h.holds_of_owning hlive' hown) ht)
  · by_cases hat : a = t
    · rw [hat]
      rfl
    · rw [goto_pc_of_ne _ hat] at hown
      exact absurd (h.unique a t (h.holds_of_owning hlive' hown) ht) hat

include h0 in
theorem TokenInv.reset (h : s.TokenInv pidOf) (hlive : s.alive (pidOf t) = true)
    (hpc : s.pc t = .owning) :
    ({ s with ownerPid := 0 }.goto t .released : LockState T).TokenInv pidOf := by
  have ht : s.Holds pidOf t := h.holds_of_owning hlive hpc
  refine tokenInv_of_holder (h.sem_zero ht) (Or.inl (by rw [goto_pc_self]; trivial))
    (fun a hat ha => ?_) (fun a hlive' hown => ?_) (fun hne => absurd rfl hne)
    (pcOk_goto_of_pcOk rfl h.pcOk trivial)
  · rw [Holds, goto_pc_of_ne _ hat] at ha
    rcases ha with htok | ⟨-, hpid⟩
    · exact hat (h.unique a t (Or.inl htok) ht)
    · exact h0 a hpid.symm
  · have hat : a ≠ t := ne_of_goto_owning (by simp) hown
    rw [goto_pc_of_ne _ hat] at hown
    exact absurd (h.unique a t (h.holds_of_owning hlive' hown) ht) hat

include h0 in
theorem TokenInv.give (h : s.TokenInv pidOf) {pc : LockPc} (htok : (s.pc t).HasToken)
    (hq : pc.Quiet) (hok : s.PcOk pc) :
    ({ s with sem := s.sem + 1 }.goto t pc : LockState T).TokenInv pidOf := by
  have ht : s.Holds pidOf t := Or.inl htok
  have hzero : s.ownerPid = 0 := h.owner_eq_zero htok
  have hsem : s.sem = 0 := h.sem_zero ht
  have hno : ∀ a, ¬ ({ s with sem := s.sem + 1 }.goto t pc : LockState T).Holds pidOf a := by
    intro a ha
    by_cases hat : a = t
    · refine not_holds_of_quiet ?_ ha
      rw [hat, goto_pc_self]
      exact hq
    · rw [Holds, goto_pc_of_ne _ hat] at ha
      rcases ha with htok' | ⟨-, hpid⟩
      · exact hat (h.unique a t (Or.inl htok') ht)
      · exact h0 a (hpid.symm.trans hzero)
  refine ⟨by rw [goto_sem]; dsimp only; omega, iff_of_false (by rw [goto_sem]; dsimp only; omega)
    fun ⟨a, ha⟩ => hno a ha, fun a b ha => absurd ha (hno a), fun a hlive hown => ?_,
    fun hne => absurd hzero hne, pcOk_goto_of_pcOk rfl h.pcOk hok⟩
  have hat : a ≠ t := ne_of_goto_owning hq.ne_owning hown
  rw [goto_pc_of_ne _ hat] at hown
  exact absurd (h.unique a t (h.holds_of_owning hlive hown) ht) hat

include h0 in
theorem TokenInv.steal (h : s.TokenInv pidOf) {trials : ℕ}
    (hpc : s.pc t = .recovering trials s.ownerPid) :
    ({ s with ownerPid := 0 }.goto t (.recovered trials) : LockState T).TokenInv pidOf := by
  obtain ⟨hne, hdead⟩ : s.PcOk (.recovering trials s.ownerPid) := hpc ▸ h.pcOk t
  -- the token is with the thread that died inside the section
  obtain ⟨o, ho, hown⟩ := h.owning_of_owner hne
  have hhold : s.Holds pidOf o := Or.inr ⟨hown, ho.symm⟩
  refine tokenInv_of_holder (h.sem_zero hhold) (Or.inl (by rw [goto_pc_self]; trivial))
    (fun a hat ha => ?_) (fun a hlive hown' => ?_) (fun hne => absurd rfl hne)
    (pcOk_goto_of_pcOk rfl h.pcOk trivial)
  · rw [Holds, goto_pc_of_ne _ hat] at ha
    rcases ha with htok | ⟨-, hpid⟩
    · rw [h.unique a o (Or.inl htok) hhold, hown] at htok
      exact htok
    · exact h0 a hpid.symm
  · have hat : a ≠ t := ne_of_goto_owning (by simp) hown'
    rw [goto_pc_of_ne _ hat] at hown'
    have hao : a = o := h.unique a o (h.holds_of_owning hlive hown') hhold
    have hlive' : s.alive s.ownerPid = true := by
      rw [← ho, ← hao]
      exact hlive
    exact absurd (hdead.symm.trans hlive') (by simp)

omit [DecidableEq T] in
theorem TokenInv.kill (h : s.TokenInv pidOf) (p : Pid) :
    ({ s with alive := Function.update s.alive p false } : LockState T).TokenInv pidOf := by
  refine ⟨h.sem_le, h.sem_zero_iff, h.unique, fun a hlive hown => ?_, h.owning_of_owner,
    fun a => ?_⟩
  · exact h.owner_of_owning a (alive_of_kill hlive) hown
  · have hok := h.pcOk a
    dsimp only
    cases hpc : s.pc a with
    | recovering trials owner =>
      rw [hpc] at hok
      refine ⟨hok.1, ?_⟩
      by_contra hne
      exact absurd (hok.2.symm.trans (alive_of_kill (by simpa using hne))) (by simp)
    | _ =>
      rw [hpc] at hok
      exact hok

include h0 in
/-- Every move keeps the invariant. -/
theorem TokenInv.move (h : s.TokenInv pidOf) {a : LockLabel T} (hprobe : a.ProbeSound s)
    (hexit : a.ExitSafe pidOf s) (hm : LockMove pidOf s a s') : s'.TokenInv pidOf := by
  cases hm with
  | @quiet t _ _ hq hq' hok => exact h.quiet hq hq' (hok hprobe (h.pcOk t))
  | take _ _ hsem => exact h.take hsem
  | store hlive hpc => exact h.store hlive hpc
  | reset _ hlive hpc => exact h.reset h0 hlive hpc
  | give _ htok hq hok => exact h.give h0 htok hq hok
  | steal _ _ hpc => exact h.steal h0 hpc
  | @exitSwap t ha _ hpc heq =>
    -- the swap cannot succeed: a process in `owner_pid` has a thread inside
    subst ha
    obtain ⟨o, ho, hown⟩ := h.owning_of_owner (heq ▸ h0 t)
    exact absurd hown (hexit hpc o (ho.trans heq))
  | kill _ _ => exact h.kill _

include h0 in
/-- **The token invariant.**  It holds along every run with a sound `proc_alive` in which
`exit_handler` never swaps out the pid of a process whose thread is inside. -/
theorem TokenInv.run (h : s.TokenInv pidOf)
    (hrun : GuardedRun (step pidOf) (fun s a => a.ProbeSound s ∧ a.ExitSafe pidOf s) s s') :
    s'.TokenInv pidOf :=
  hrun.invariant (fun _ _ _ hinv hok hst => hinv.move h0 hok.1 hok.2 (lockMove_of_step hst)) h

end Moves

omit [DecidableEq T] in
/-- A thread inside the section has the token. -/
theorem TokenInv.holds_of_inSection (h : s.TokenInv pidOf) (ht : s.InSection pidOf t) :
    s.Holds pidOf t := by
  obtain ⟨hlive, hpc | hpc | hpc⟩ := ht
  · exact Or.inl (by rw [hpc]; trivial)
  · exact h.holds_of_owning hlive hpc
  · exact Or.inl (by rw [hpc]; trivial)

end LockState

end HamiCore
