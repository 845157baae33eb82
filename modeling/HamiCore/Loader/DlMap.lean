import HamiCore.Library.RingBuffer
import Mathlib.Data.List.Induction

/-!
# The recursion detector of `dlsym`

`check_dlmap` remembers the lookups it has seen, a thread and a pointer each, in an array of
`DLMAP_SIZE` entries.  A counter of the entries recorded so far tells both how many of them are in
use and where the next one goes, so the array is a ring of the last lookups
(`check_dlmap_spec`).
-/

namespace HamiCore

/-- `DLMAP_SIZE`. -/
def dlmapSize : ℕ := 100

/-- `tid_dl_map`. -/
@[ext] structure TidDlMap where
  tid : UInt64
  pointer : UInt64
  deriving DecidableEq

/-- `dlmap`, with the memory behind it, and `dlmap_count`. -/
structure DlMap where
  dlmap : ℕ → TidDlMap
  dlmapCount : ℤ

/-- `init_dlsym()`. -/
def initDlsym : DlMap := ⟨fun _ => ⟨0, 0⟩, 0⟩

/-- The loop of `check_dlmap` over the entries below a cursor, from the last one down: whether it
finds the entry, and the indices it reads. -/
def searchDlmap (dlmap : ℕ → TidDlMap) (entry : TidDlMap) : ℕ → Bool × List ℤ
  | 0 => (false, [])
  | i + 1 =>
    if (dlmap i).pointer = entry.pointer ∧ (dlmap i).tid = entry.tid then (true, [(i : ℤ)])
    else
      let (found, indices) := searchDlmap dlmap entry i
      (found, (i : ℤ) :: indices)

/-- What a call of `check_dlmap` does. -/
structure CheckDlmap where
  returns : ℕ
  /-- The indices it reads from or writes to, in order. -/
  indices : List ℤ
  after : DlMap

/-- `check_dlmap(tid, pointer)`.  The count is an `int`, and `%` has its sign. -/
def checkDlmap (d : DlMap) (entry : TidDlMap) : CheckDlmap :=
  let cursor := if d.dlmapCount < dlmapSize then d.dlmapCount else dlmapSize
  let (found, indices) := searchDlmap d.dlmap entry cursor.toNat
  if found then ⟨1, indices, d⟩
  else
    let cursor := d.dlmapCount.tmod dlmapSize
    { returns := 0
      indices := indices ++ [cursor]
      after :=
        { dlmap := if 0 ≤ cursor then Function.update d.dlmap cursor.toNat entry else d.dlmap
          dlmapCount := (d.dlmapCount + 1).bmod (2 ^ 32) } }

/-- One more call; an entry is recorded if the call returns `0`. -/
def dlmapStep (s : DlMap × List TidDlMap) (entry : TidDlMap) : DlMap × List TidDlMap :=
  let call := checkDlmap s.1 entry
  (call.after, if call.returns = 0 then s.2 ++ [entry] else s.2)

/-- The map after a sequence of calls that follows `init_dlsym`, and the entries recorded so far, in
order. -/
def dlmapRun (calls : List TidDlMap) : DlMap × List TidDlMap :=
  calls.foldl dlmapStep (initDlsym, [])

theorem dlmapRun_concat (calls : List TidDlMap) (entry : TidDlMap) :
    dlmapRun (calls ++ [entry]) =
      ((checkDlmap (dlmapRun calls).1 entry).after,
        if (checkDlmap (dlmapRun calls).1 entry).returns = 0 then (dlmapRun calls).2 ++ [entry]
        else (dlmapRun calls).2) := by
  rw [dlmapRun, List.foldl_concat]
  rfl

/-! ## One call -/

theorem searchDlmap_fst (dlmap : ℕ → TidDlMap) (entry : TidDlMap) (cursor : ℕ) :
    (searchDlmap dlmap entry cursor).1 = true ↔ ∃ i < cursor, dlmap i = entry := by
  induction cursor with
  | zero => simp [searchDlmap]
  | succ i ih =>
    have hentry : (dlmap i).pointer = entry.pointer ∧ (dlmap i).tid = entry.tid ↔
        dlmap i = entry := by
      rw [TidDlMap.ext_iff, and_comm]
    rw [searchDlmap, Nat.exists_lt_succ_right, ← ih, ← hentry]
    split_ifs with h
    · exact iff_of_true rfl (Or.inr h)
    · rw [or_iff_left h]

theorem searchDlmap_snd (dlmap : ℕ → TidDlMap) (entry : TidDlMap) {cursor : ℕ} :
    ∀ k ∈ (searchDlmap dlmap entry cursor).2, 0 ≤ k ∧ k < cursor := by
  induction cursor with
  | zero => simp [searchDlmap]
  | succ i ih =>
    intro k hk
    rw [searchDlmap] at hk
    split_ifs at hk with h
    · obtain rfl := List.mem_singleton.mp hk
      omega
    · rcases List.mem_cons.mp hk with rfl | hk
      · omega
      · have := ih k hk
        omega

/-- The map is a ring of the recorded entries, and the count their number. -/
structure DlMap.Records (d : DlMap) (recorded : List TidDlMap) : Prop where
  count_eq : d.dlmapCount = recorded.length
  holds : RingHolds dlmapSize d.dlmap recorded
  nodup : (recent dlmapSize recorded).Nodup

section Call

variable {d : DlMap} {recorded : List TidDlMap} {entry : TidDlMap}

/-- The search goes through the cells in use. -/
theorem DlMap.Records.cursor_eq (h : d.Records recorded) :
    (if d.dlmapCount < dlmapSize then d.dlmapCount else (dlmapSize : ℤ)).toNat
      = min recorded.length dlmapSize := by
  rw [h.count_eq]
  split_ifs with hlt
  · omega
  · omega

/-- An entry that is among the recent ones is found, and nothing changes. -/
theorem DlMap.Records.checkDlmap_of_mem (h : d.Records recorded)
    (hmem : entry ∈ recent dlmapSize recorded) :
    (checkDlmap d entry).returns = 1 ∧ (checkDlmap d entry).after = d ∧
      ∀ k ∈ (checkDlmap d entry).indices, 0 ≤ k ∧ k < dlmapSize := by
  have hfound : (searchDlmap d.dlmap entry (min recorded.length dlmapSize)).1 = true := by
    rw [searchDlmap_fst, h.holds.exists_cell_iff (by decide)]
    exact hmem
  simp only [checkDlmap, h.cursor_eq, if_pos hfound, true_and]
  intro k hk
  have := searchDlmap_snd d.dlmap entry k hk
  omega

/-- Another entry is recorded. -/
theorem DlMap.Records.checkDlmap_of_notMem (h : d.Records recorded)
    (hlen : recorded.length < 2 ^ 31) (hmem : entry ∉ recent dlmapSize recorded) :
    (checkDlmap d entry).returns = 0 ∧
      (recorded.length + 1 < 2 ^ 31 →
        (checkDlmap d entry).after.Records (recorded ++ [entry])) ∧
      ∀ k ∈ (checkDlmap d entry).indices, 0 ≤ k ∧ k < dlmapSize := by
  have hfound : (searchDlmap d.dlmap entry (min recorded.length dlmapSize)).1 = false := by
    rw [← Bool.not_eq_true, searchDlmap_fst, h.holds.exists_cell_iff (by decide)]
    exact hmem
  have hcursor : d.dlmapCount.tmod dlmapSize = (recorded.length % dlmapSize : ℕ) := by
    rw [h.count_eq]
    rfl
  have hlt : recorded.length % dlmapSize < dlmapSize := Nat.mod_lt _ (by decide)
  simp only [checkDlmap, h.cursor_eq, hfound, hcursor, Bool.false_eq_true, if_false, true_and]
  constructor
  · intro hlen'
    refine ⟨?_, ?_, nodup_recent_concat h.nodup (by decide) hmem⟩
    · rw [h.count_eq, List.length_append, List.length_singleton]
      simp only [Int.bmod_def]
      omega
    · rw [if_pos (by omega), Int.toNat_natCast]
      exact h.holds.write entry
  · intro k hk
    rcases List.mem_append.mp hk with hk | hk
    · have := searchDlmap_snd d.dlmap entry k hk
      omega
    · obtain rfl := List.mem_singleton.mp hk
      omega

end Call

/-! ## Sequences of calls -/

/-- As long as the count does not overflow, the map is the ring of the recorded entries. -/
theorem dlmapRun_records {calls : List TidDlMap} (hlen : (dlmapRun calls).2.length < 2 ^ 31) :
    (dlmapRun calls).1.Records (dlmapRun calls).2 := by
  induction calls using List.reverseRecOn with
  | nil => exact ⟨rfl, RingHolds.nil, List.nodup_nil⟩
  | append_singleton calls entry ih =>
    have hlen' : (dlmapRun calls).2.length < 2 ^ 31 := by
      refine lt_of_le_of_lt ?_ hlen
      rw [dlmapRun_concat]
      dsimp only
      split_ifs
      · simp
      · exact le_rfl
    have h := ih hlen'
    by_cases hmem : entry ∈ recent dlmapSize (dlmapRun calls).2
    · obtain ⟨hret, hafter, -⟩ := h.checkDlmap_of_mem hmem
      rw [dlmapRun_concat, hret, hafter, if_neg Nat.one_ne_zero]
      exact h
    · obtain ⟨hret, hafter, -⟩ := h.checkDlmap_of_notMem hlen' hmem
      rw [dlmapRun_concat, hret, if_pos rfl] at hlen ⊢
      rw [List.length_append, List.length_singleton] at hlen
      exact hafter hlen

/-- **The recursion detector remembers the last 100 lookups.**  After every sequence of calls in
which fewer than `2 ^ 31` return `0`, the next call returns `1` exactly if its entry is among the
last 100 entries recorded, and `0` otherwise; every index it uses is in the array; and no two cells
in use hold the same entry. -/
theorem check_dlmap_spec (calls : List TidDlMap) (hlen : (dlmapRun calls).2.length < 2 ^ 31)
    (entry : TidDlMap) :
    (checkDlmap (dlmapRun calls).1 entry).returns
        = (if entry ∈ recent dlmapSize (dlmapRun calls).2 then 1 else 0) ∧
      (∀ k ∈ (checkDlmap (dlmapRun calls).1 entry).indices, 0 ≤ k ∧ k < dlmapSize) ∧
      ∀ i < min (dlmapRun calls).2.length dlmapSize, ∀ j < min (dlmapRun calls).2.length dlmapSize,
        (dlmapRun calls).1.dlmap i = (dlmapRun calls).1.dlmap j → i = j := by
  have h := dlmapRun_records hlen
  have hinj : ∀ i < min (dlmapRun calls).2.length dlmapSize,
      ∀ j < min (dlmapRun calls).2.length dlmapSize,
        (dlmapRun calls).1.dlmap i = (dlmapRun calls).1.dlmap j → i = j := fun i hi j hj =>
    h.holds.cell_inj h.nodup hi hj
  by_cases hmem : entry ∈ recent dlmapSize (dlmapRun calls).2
  · obtain ⟨hret, -, hindices⟩ := h.checkDlmap_of_mem hmem
    exact ⟨by rw [hret, if_pos hmem], hindices, hinj⟩
  · obtain ⟨hret, -, hindices⟩ := h.checkDlmap_of_notMem hlen hmem
    exact ⟨by rw [hret, if_neg hmem], hindices, hinj⟩

/-- A lookup of another thread in between. -/
theorem check_dlmap_again :
    let calls : List TidDlMap := [⟨1, 7⟩, ⟨2, 7⟩]
    (checkDlmap (dlmapRun calls).1 ⟨1, 7⟩).returns
        = (if ⟨1, 7⟩ ∈ recent dlmapSize (dlmapRun calls).2 then 1 else 0) ∧
      (∀ k ∈ (checkDlmap (dlmapRun calls).1 ⟨1, 7⟩).indices, 0 ≤ k ∧ k < dlmapSize) ∧
      ∀ i < min (dlmapRun calls).2.length dlmapSize, ∀ j < min (dlmapRun calls).2.length dlmapSize,
        (dlmapRun calls).1.dlmap i = (dlmapRun calls).1.dlmap j → i = j :=
  check_dlmap_spec [⟨1, 7⟩, ⟨2, 7⟩] (by decide) ⟨1, 7⟩

end HamiCore
