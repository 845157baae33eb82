import HamiCore.Device.Index
import HamiCore.Device.VisibleDevices
import Mathlib.Data.List.GetD
import Mathlib.Data.List.Nodup

/-!
# The list of visible devices

`CUDA_VISIBLE_DEVICES` lists NVML indices, and `parse_cuda_visible_env` stores them one after the
other in `cuda_to_nvml_map_array`.  A list of numbers comes out as it was written
(`parseCudaVisibleEnv_visibleList`).  How many numbers there are is not compared with the size of
the array, only with the driver's count, and only if the driver answers
(`parseCudaVisibleEnvWrites_iff`).  And `nvml_to_cuda_map` searches the array up to the number of
NVML devices, past the listed ones, where the entries still hold their own indices: a device that is
not listed may be found there (`nvmlToCuda_visibleList_iff`).
-/

namespace HamiCore

/-- The decimal forms of the numbers, with commas in between. -/
def visibleList (devices : List ℕ) : List Char :=
  List.intercalate [','] (devices.map (Nat.toDigits 10))

/-! ## Reading the list -/

/-- What follows the first number of a list. -/
def visibleTail (devices : List ℕ) : List Char :=
  devices.flatMap fun n => ',' :: Nat.toDigits 10 n

theorem visibleList_cons (n : ℕ) (devices : List ℕ) :
    visibleList (n :: devices) = Nat.toDigits 10 n ++ visibleTail devices := by
  induction devices generalizing n with
  | nil => simp [visibleList, visibleTail]
  | cons m devices ih =>
    have hlist : visibleList (n :: m :: devices)
        = Nat.toDigits 10 n ++ ',' :: visibleList (m :: devices) := by
      simp [visibleList, List.intercalate]
    rw [hlist, ih, visibleTail, visibleTail, List.flatMap_cons, List.cons_append]

/-- A number is followed by a comma or by nothing. -/
theorem visibleTail_head (devices : List ℕ) :
    ∀ c ∈ (visibleTail devices).head?, c.isDigit = false := by
  cases devices with
  | nil => simp [visibleTail]
  | cons n devices =>
    intro c hc
    obtain rfl : ',' = c := by simpa [visibleTail] using hc
    decide

theorem comma_notMem_toDigits (n : ℕ) : ',' ∉ Nat.toDigits 10 n := fun hmem =>
  absurd (Nat.isDigit_of_mem_toDigits (b := 10) (by decide) (by decide) hmem) (by decide)

theorem count_comma_visibleTail (devices : List ℕ) :
    (visibleTail devices).count ',' = devices.length := by
  induction devices with
  | nil => rfl
  | cons n devices ih =>
    have hcons : visibleTail (n :: devices)
        = ',' :: (Nat.toDigits 10 n ++ visibleTail devices) := by simp [visibleTail]
    rw [hcons, List.count_cons_self, List.count_append,
      List.count_eq_zero.mpr (comma_notMem_toDigits n), ih, List.length_cons, Nat.zero_add]

/-- Behind the first character the position does not matter. -/
theorem visibleDevices_succ (i : ℕ) (s : List Char) :
    visibleDevices (i + 1) s = visibleDevices 1 s := by
  induction s generalizing i with
  | nil => rfl
  | cons c cs ih =>
    rw [visibleDevices, visibleDevices, ih (i + 1), ih 1]
    simp

/-- Characters other than commas are skipped. -/
theorem visibleDevices_append {s : List Char} (hs : ',' ∉ s) (rest : List Char) :
    visibleDevices 1 (s ++ rest) = visibleDevices 1 rest := by
  induction s with
  | nil => rfl
  | cons c s ih =>
    obtain ⟨hc, hs⟩ := not_or.mp fun h => hs (List.mem_cons.mpr h)
    rw [List.cons_append, visibleDevices, if_neg (by simp [Ne.symm hc]), visibleDevices_succ, ih hs]

theorem visibleDevices_visibleTail {devices : List ℕ} (hlt : ∀ n ∈ devices, n < 2 ^ 31) :
    visibleDevices 1 (visibleTail devices) = devices.map Nat.cast := by
  induction devices with
  | nil => rfl
  | cons n devices ih =>
    have hcons : visibleTail (n :: devices)
        = ',' :: (Nat.toDigits 10 n ++ visibleTail devices) := by simp [visibleTail]
    rw [hcons, visibleDevices, if_pos (Or.inl rfl), if_neg Nat.one_ne_zero, visibleDevices_succ,
      visibleDevices_append (comma_notMem_toDigits n),
      atoi_toDigits (hlt n (by simp)) (visibleTail_head devices), List.map_cons]
    exact congrArg _ (ih fun m hm => hlt m (by simp [hm]))

/-- **The loop stores the numbers that were written.** -/
theorem visibleDevices_visibleList {devices : List ℕ} (hlt : ∀ n ∈ devices, n < 2 ^ 31) :
    visibleDevices 0 (visibleList devices) = devices.map Nat.cast := by
  cases devices with
  | nil => rfl
  | cons n devices =>
    have hnum := atoi_toDigits (hlt n (by simp)) (visibleTail_head devices)
    obtain ⟨d, ds, hds⟩ := List.exists_cons_of_ne_nil (Nat.toDigits_ne_nil (n := n) (b := 10))
    have hcomma : ',' ∉ ds := fun hmem => comma_notMem_toDigits n (by simp [hds, hmem])
    rw [hds, List.cons_append] at hnum
    rw [visibleList_cons, hds, List.cons_append]
    rw [visibleDevices, if_pos (Or.inr rfl), if_pos rfl, hnum, visibleDevices_succ,
      visibleDevices_append hcomma, visibleDevices_visibleTail fun m hm => hlt m (by simp [hm]),
      List.map_cons]

theorem getenvcount_visibleList {devices : List ℕ} (hne : devices ≠ []) :
    getenvcount (some (visibleList devices)) = devices.length := by
  obtain ⟨n, devices, rfl⟩ := List.exists_cons_of_ne_nil hne
  have hlen : (visibleList (n :: devices)).length ≠ 0 := by
    simp [visibleList_cons, Nat.toDigits_ne_nil]
  rw [getenvcount, if_neg hlen, visibleList_cons, List.count_append,
    List.count_eq_zero.mpr (comma_notMem_toDigits n), count_comma_visibleTail]
  simp

/-- Only a list with a number in it is virtualised. -/
theorem ne_nil_of_needCudaVirtualize {devices : List ℕ} {deviceCount : Option ℤ}
    (hvirt : needCudaVirtualize (some (visibleList devices)) deviceCount = true) :
    devices ≠ [] := by
  rintro rfl
  simp [needCudaVirtualize, visibleList] at hvirt

/-- What `parse_cuda_visible_env` makes of a list. -/
theorem parseCudaVisibleEnv_eq_ofDevices {devices : List ℕ} {deviceCount : Option ℤ}
    (hlen : devices.length ≤ cudaDeviceMaxCount) (hlt : ∀ n ∈ devices, n < 2 ^ 31)
    (hvirt : needCudaVirtualize (some (visibleList devices)) deviceCount = true) :
    parseCudaVisibleEnv (some (visibleList devices)) deviceCount
      = some (DeviceMap.ofDevices (devices.map Nat.cast), devices.length) := by
  have hfields := getenvcount_visibleList (ne_nil_of_needCudaVirtualize hvirt)
  rw [parseCudaVisibleEnv_eq (by rw [hfields]; exact_mod_cast hlen) hvirt,
    visibleDevices_visibleList hlt, List.length_map]

/-- A listed entry of the map, and an entry behind the list. -/
theorem DeviceMap.ofDevices_natCast (devices : List ℕ) (i : Dev) :
    DeviceMap.ofDevices (devices.map Nat.cast) i = (devices.getD i.val i.val : ℕ) := by
  rw [DeviceMap.ofDevices, List.getD_eq_getElem?_getD, List.getD_eq_getElem?_getD,
    List.getElem?_map]
  cases devices[i.val]? <;> rfl

/-- **The list is parsed as it was written.**  For every list of at most 16 numbers below
`2 ^ 31` that is to be virtualised: the return value is its length, which `getenvcount` gives too,
the first entries are its numbers, and the entries behind them keep their own indices. -/
theorem parseCudaVisibleEnv_visibleList {devices : List ℕ} {deviceCount : Option ℤ}
    (hlen : devices.length ≤ cudaDeviceMaxCount) (hlt : ∀ n ∈ devices, n < 2 ^ 31)
    (hvirt : needCudaVirtualize (some (visibleList devices)) deviceCount = true) :
    ∃ array count, parseCudaVisibleEnv (some (visibleList devices)) deviceCount
        = some (array, count) ∧
      count = devices.length ∧ getenvcount (some (visibleList devices)) = count ∧
      (∀ (i : Dev) (h : i.val < devices.length), array i = devices[i.val]) ∧
      ∀ i : Dev, devices.length ≤ i.val → array i = i.val := by
  refine ⟨_, _, parseCudaVisibleEnv_eq_ofDevices hlen hlt hvirt, rfl,
    getenvcount_visibleList (ne_nil_of_needCudaVirtualize hvirt), ?_, ?_⟩
  · intro i hi
    rw [DeviceMap.ofDevices_natCast, List.getD_eq_getElem _ _ hi]
  · intro i hi
    rw [DeviceMap.ofDevices_natCast, List.getD_eq_default _ _ hi]

/-- Three devices, with a driver that reports three. -/
theorem parseCudaVisibleEnv_three :
    ∃ array count, parseCudaVisibleEnv (some (visibleList [10, 2, 7])) (some 3)
        = some (array, count) ∧
      count = 3 ∧ getenvcount (some (visibleList [10, 2, 7])) = count ∧
      (∀ (i : Dev) (h : i.val < 3), array i = ([10, 2, 7] : List ℕ)[i.val]) ∧
      ∀ i : Dev, 3 ≤ i.val → array i = i.val :=
  parseCudaVisibleEnv_visibleList (by decide) (by decide) (by decide)

/-! ## Writing past the array -/

/-- The assignments of the loop over the string, from position `i` on: the index, which is the
number of assignments before, and the number stored.  Both counters are natural numbers; an `int`
would not hold those of a string of `2 ^ 31` characters. -/
def visibleWrites : ℕ → ℕ → List Char → List (ℕ × ℤ)
  | _, _, [] => []
  | count, i, c :: cs =>
    if c = ',' ∨ i = 0 then
      (count, if i = 0 then atoi (c :: cs) else atoi cs) :: visibleWrites (count + 1) (i + 1) cs
    else visibleWrites count (i + 1) cs

/-- Every assignment of `parse_cuda_visible_env` to `cuda_to_nvml_map_array`, in order. -/
def parseCudaVisibleEnvWrites (value : Option (List Char)) (deviceCount : Option ℤ) :
    List (ℕ × ℤ) :=
  (List.range cudaDeviceMaxCount).map (fun i : ℕ => (i, (i : ℤ))) ++
    if needCudaVirtualize value deviceCount then visibleWrites 0 0 (value.getD []) else []

theorem visibleWrites_eq (count i : ℕ) (s : List Char) :
    visibleWrites count i s = ((visibleDevices i s).zipIdx count).map Prod.swap := by
  induction s generalizing count i with
  | nil => rfl
  | cons c cs ih =>
    rw [visibleWrites, visibleDevices]
    by_cases hc : c = ',' ∨ i = 0
    · rw [if_pos hc, if_pos hc, ih, List.zipIdx_cons, List.map_cons, Prod.swap_prod_mk]
    · rw [if_neg hc, if_neg hc, ih]

/-- The indices go up to the number of assignments. -/
theorem forall_mem_visibleWrites_lt_iff (s : List Char) (n : ℕ) :
    (∀ w ∈ visibleWrites 0 0 s, w.1 < n) ↔ (visibleDevices 0 s).length ≤ n := by
  rw [visibleWrites_eq]
  constructor
  · intro h
    by_contra hlen
    have hmem : ((visibleDevices 0 s)[n], n) ∈ (visibleDevices 0 s).zipIdx := by
      rw [List.mem_zipIdx_iff_getElem?]
      exact List.getElem?_eq_getElem (Nat.not_le.mp hlen)
    exact absurd (h _ (List.mem_map_of_mem hmem)) (lt_irrefl n)
  · intro hlen w hw
    obtain ⟨⟨d, k⟩, hk, rfl⟩ := List.mem_map.mp hw
    have hlt := (List.mem_zipIdx hk).2.1
    show k < n
    omega

theorem length_visibleDevices_one (s : List Char) :
    (visibleDevices 1 s).length = s.count ',' := by
  induction s with
  | nil => rfl
  | cons c cs ih =>
    rw [visibleDevices, List.count_cons]
    by_cases hc : c = ','
    · rw [if_pos (Or.inl hc), List.length_cons, visibleDevices_succ, ih, if_pos (by simp [hc])]
    · rw [if_neg (by simp [hc]), visibleDevices_succ, ih, if_neg (by simp [hc]), Nat.add_zero]

/-- One number is stored at the start of a string, and one at each comma behind it. -/
theorem length_visibleDevices {s : List Char} (hs : s ≠ []) :
    (visibleDevices 0 s).length = s.tail.count ',' + 1 := by
  obtain ⟨c, cs, rfl⟩ := List.exists_cons_of_ne_nil hs
  rw [visibleDevices, if_pos (Or.inr rfl), List.length_cons, visibleDevices_succ,
    length_visibleDevices_one, List.tail_cons]

/-- The parse fails exactly if an assignment goes past the array. -/
theorem parseCudaVisibleEnv_eq_none_iff (value : Option (List Char)) (deviceCount : Option ℤ) :
    parseCudaVisibleEnv value deviceCount = none ↔
      ¬ ∀ w ∈ parseCudaVisibleEnvWrites value deviceCount, w.1 < cudaDeviceMaxCount := by
  have hown : ∀ w ∈ (List.range cudaDeviceMaxCount).map (fun i : ℕ => (i, (i : ℤ))),
      w.1 < cudaDeviceMaxCount := by
    intro w hw
    obtain ⟨i, hi, rfl⟩ := List.mem_map.mp hw
    exact List.mem_range.mp hi
  rw [parseCudaVisibleEnv, parseCudaVisibleEnvWrites, List.forall_mem_append,
    and_iff_right hown]
  by_cases hvirt : needCudaVirtualize value deviceCount = true
  · rw [if_pos hvirt, if_pos hvirt, forall_mem_visibleWrites_lt_iff]
    dsimp only
    split_ifs with hlen <;> simp [hlen]
  · rw [if_neg hvirt, if_neg hvirt]
    simp

/-- **The assignments stay in the array exactly if the string is not virtualised or has fewer than
16 commas behind its first character.**  For every string, and every answer of the driver. -/
theorem parseCudaVisibleEnvWrites_iff (value : Option (List Char)) (deviceCount : Option ℤ) :
    (∀ w ∈ parseCudaVisibleEnvWrites value deviceCount, w.1 < cudaDeviceMaxCount) ↔
      needCudaVirtualize value deviceCount = false ∨
        (value.getD []).tail.count ',' < cudaDeviceMaxCount := by
  rw [← not_iff_not, ← parseCudaVisibleEnv_eq_none_iff, parseCudaVisibleEnv]
  by_cases hvirt : needCudaVirtualize value deviceCount = true
  · have hne : value.getD [] ≠ [] := by
      intro hnil
      cases value with
      | none => simp [needCudaVirtualize] at hvirt
      | some s =>
        obtain rfl : s = [] := hnil
        simp [needCudaVirtualize] at hvirt
    rw [if_pos hvirt]
    dsimp only
    rw [length_visibleDevices hne]
    split_ifs with hlen <;> simp [hvirt] <;> omega
  · rw [if_neg hvirt]
    simp [hvirt]

/-- Seventeen devices, and a driver that does not answer: the last one is stored behind the
array. -/
theorem parseCudaVisibleEnv_seventeen :
    (16, (16 : ℤ)) ∈ parseCudaVisibleEnvWrites (some (visibleList (List.range 17))) none ∧
      ¬ ∀ w ∈ parseCudaVisibleEnvWrites (some (visibleList (List.range 17))) none,
        w.1 < cudaDeviceMaxCount := by
  have hmem : (16, (16 : ℤ)) ∈
      parseCudaVisibleEnvWrites (some (visibleList (List.range 17))) none := by decide +kernel
  exact ⟨hmem, fun h => absurd (h _ hmem) (by decide)⟩

/-! ## Looking a device up -/

/-- `nvml_to_cuda_map(nvmldev)`: the first entry with that number, of as many entries as there are
NVML devices. -/
def DeviceMap.nvmlToCuda (array : DeviceMap) (devcount : ℕ) (nvmldev : UInt32) : UInt32 :=
  match (List.finRange cudaDeviceMaxCount).find? fun i =>
      i.val < devcount ∧ UInt32.ofInt (array i) = nvmldev with
  | some i => UInt32.ofNat i.val
  | none => -1

/-- The first index with a property is found. -/
theorem find?_finRange_eq_some {n : ℕ} {p : Fin n → Bool} {i : Fin n} (hi : p i = true)
    (hfirst : ∀ j < i, p j = false) : (List.finRange n).find? p = some i := by
  rw [List.find?_eq_some_iff_getElem]
  refine ⟨hi, i.val, by simp, by simp, ?_⟩
  intro j hj
  simp only [List.getElem_finRange, Bool.not_eq_true']
  exact hfirst _ hj

theorem DeviceMap.nvmlToCuda_eq_of_first {array : DeviceMap} {devcount : ℕ} {nvmldev : UInt32}
    {i : Dev} (hi : i.val < devcount) (hentry : UInt32.ofInt (array i) = nvmldev)
    (hfirst : ∀ j < i, UInt32.ofInt (array j) ≠ nvmldev) :
    array.nvmlToCuda devcount nvmldev = UInt32.ofNat i.val := by
  rw [DeviceMap.nvmlToCuda, find?_finRange_eq_some (decide_eq_true ⟨hi, hentry⟩)]
  intro j hj
  exact decide_eq_false fun h => hfirst j hj h.2

theorem DeviceMap.nvmlToCuda_eq_of_forall_ne {array : DeviceMap} {devcount : ℕ} {nvmldev : UInt32}
    (h : ∀ i : Dev, i.val < devcount → UInt32.ofInt (array i) ≠ nvmldev) :
    array.nvmlToCuda devcount nvmldev = -1 := by
  rw [DeviceMap.nvmlToCuda, List.find?_eq_none.mpr]
  intro i _ hi
  exact h i (of_decide_eq_true hi).1 (of_decide_eq_true hi).2

/-- Small numbers are told apart as 32-bit numbers. -/
theorem ofInt_natCast_eq_ofNat_iff {m n : ℕ} (hm : m < 2 ^ 32) (hn : n < 2 ^ 32) :
    UInt32.ofInt (m : ℤ) = UInt32.ofNat n ↔ m = n := by
  have htoNat : ((m : ℤ) % 2 ^ 32).toNat = m := by omega
  rw [UInt32.ofInt, htoNat, ← UInt32.toNat_inj, UInt32.toNat_ofNat_of_lt' hm,
    UInt32.toNat_ofNat_of_lt' hn]

/-- On a map from devices to devices this is the lookup of the device indices. -/
theorem nvmlToCuda_of_dev (cudaToNvmlMap : Dev → Dev) (devcount : ℕ) (nvmldev : Dev) :
    DeviceMap.nvmlToCuda (fun i => ((cudaToNvmlMap i).val : ℕ)) devcount
        (UInt32.ofNat nvmldev.val)
      = ((nvmlToCudaMap cudaToNvmlMap devcount nvmldev).map
          fun i => UInt32.ofNat i.val).getD (-1) := by
  have hlt : ∀ i : Dev, i.val < 2 ^ 32 := fun i => i.isLt.trans (by decide)
  have hentry : ∀ i : Dev, UInt32.ofInt ((cudaToNvmlMap i).val : ℕ)
      = UInt32.ofNat nvmldev.val ↔ cudaToNvmlMap i = nvmldev := fun i =>
    (ofInt_natCast_eq_ofNat_iff (hlt _) (hlt _)).trans Fin.val_inj
  rw [DeviceMap.nvmlToCuda, nvmlToCudaMap]
  simp only [hentry]
  cases (List.finRange cudaDeviceMaxCount).find? _ <;> rfl

section Lookup

variable {devices : List ℕ} {devcount n : ℕ}

/-- An entry of a parsed list, compared with the index of a device. -/
theorem DeviceMap.ofDevices_eq_iff (hcount : devcount ≤ cudaDeviceMaxCount)
    (hdev : ∀ d ∈ devices, d < devcount) (hn : n < devcount) (i : Dev) :
    UInt32.ofInt (DeviceMap.ofDevices (devices.map Nat.cast) i) = UInt32.ofNat n ↔
      devices.getD i.val i.val = n := by
  have hmax : cudaDeviceMaxCount < 2 ^ 32 := by decide
  rw [DeviceMap.ofDevices_natCast, ofInt_natCast_eq_ofNat_iff _ (by omega)]
  by_cases hi : i.val < devices.length
  · rw [List.getD_eq_getElem _ _ hi]
    have := hdev _ (List.getElem_mem hi)
    omega
  · rw [List.getD_eq_default _ _ (Nat.not_lt.mp hi)]
    omega

/-- A listed device is found at its place in the list. -/
theorem DeviceMap.nvmlToCuda_of_mem (hcount : devcount ≤ cudaDeviceMaxCount)
    (hlen : devices.length ≤ devcount) (hnodup : devices.Nodup)
    (hdev : ∀ d ∈ devices, d < devcount) (hn : n ∈ devices) :
    (DeviceMap.ofDevices (devices.map Nat.cast)).nvmlToCuda devcount (UInt32.ofNat n)
      = UInt32.ofNat (devices.idxOf n) := by
  have hidx : devices.idxOf n < devices.length := List.idxOf_lt_length_of_mem hn
  have hentry := DeviceMap.ofDevices_eq_iff hcount hdev (hdev n hn)
  refine DeviceMap.nvmlToCuda_eq_of_first (i := ⟨devices.idxOf n, by omega⟩)
    (hidx.trans_le hlen) ?_ ?_
  · rw [hentry, List.getD_eq_getElem _ _ hidx]
    exact List.getElem_idxOf hidx
  · intro j hj
    have hj' : j.val < devices.idxOf n := hj
    rw [Ne, hentry, List.getD_eq_getElem _ _ (hj'.trans hidx)]
    intro h
    have hself := hnodup.idxOf_getElem j.val (hj'.trans hidx)
    rw [h] at hself
    exact hj'.ne' hself

/-- A device behind the list is found at its own index, where it is not listed. -/
theorem DeviceMap.nvmlToCuda_of_length_le (hcount : devcount ≤ cudaDeviceMaxCount)
    (hdev : ∀ d ∈ devices, d < devcount) (hn : n < devcount) (hmem : n ∉ devices)
    (hlen : devices.length ≤ n) :
    (DeviceMap.ofDevices (devices.map Nat.cast)).nvmlToCuda devcount (UInt32.ofNat n)
      = UInt32.ofNat n := by
  have hentry := DeviceMap.ofDevices_eq_iff hcount hdev hn
  refine DeviceMap.nvmlToCuda_eq_of_first (i := ⟨n, by omega⟩) hn ?_ ?_
  · rw [hentry, List.getD_eq_default _ _ hlen]
  · intro j hj
    have hj' : j.val < n := hj
    rw [Ne, hentry]
    by_cases hjlen : j.val < devices.length
    · rw [List.getD_eq_getElem _ _ hjlen]
      exact fun h => hmem (h ▸ List.getElem_mem hjlen)
    · rw [List.getD_eq_default _ _ (Nat.not_lt.mp hjlen)]
      exact hj'.ne

/-- A device before the end of the list that is not listed is not found. -/
theorem DeviceMap.nvmlToCuda_of_lt_length (hcount : devcount ≤ cudaDeviceMaxCount)
    (hdev : ∀ d ∈ devices, d < devcount) (hn : n < devcount) (hmem : n ∉ devices)
    (hlen : n < devices.length) :
    (DeviceMap.ofDevices (devices.map Nat.cast)).nvmlToCuda devcount (UInt32.ofNat n) = -1 := by
  apply DeviceMap.nvmlToCuda_eq_of_forall_ne
  intro i _
  rw [Ne, DeviceMap.ofDevices_eq_iff hcount hdev hn]
  by_cases hi : i.val < devices.length
  · rw [List.getD_eq_getElem _ _ hi]
    exact fun h => hmem (h ▸ List.getElem_mem hi)
  · rw [List.getD_eq_default _ _ (Nat.not_lt.mp hi)]
    omega

/-- **The lookup inverts the list exactly on the listed devices and on the indices below the length
of the list.**  For every list of distinct NVML indices, no longer than the number of devices, that
is to be virtualised, and every NVML index. -/
theorem nvmlToCuda_visibleList_iff {deviceCount : Option ℤ} (hcount : devcount ≤ cudaDeviceMaxCount)
    (hlen : devices.length ≤ devcount) (hnodup : devices.Nodup)
    (hdev : ∀ d ∈ devices, d < devcount)
    (hvirt : needCudaVirtualize (some (visibleList devices)) deviceCount = true)
    (hn : n < devcount) :
    ∃ array, parseCudaVisibleEnv (some (visibleList devices)) deviceCount
        = some (array, devices.length) ∧
      (array.nvmlToCuda devcount (UInt32.ofNat n)
          = (if n ∈ devices then UInt32.ofNat (devices.idxOf n) else -1) ↔
        n ∈ devices ∨ n < devices.length) := by
  have hmax : cudaDeviceMaxCount < 2 ^ 31 := by decide
  refine ⟨_, parseCudaVisibleEnv_eq_ofDevices (hlen.trans hcount)
    (fun d hd => (hdev d hd).trans_le (hcount.trans hmax.le)) hvirt, ?_⟩
  by_cases hmem : n ∈ devices
  · rw [if_pos hmem, DeviceMap.nvmlToCuda_of_mem hcount hlen hnodup hdev hmem]
    exact iff_of_true rfl (Or.inl hmem)
  rw [if_neg hmem, or_iff_right hmem]
  by_cases hlt : n < devices.length
  · rw [DeviceMap.nvmlToCuda_of_lt_length hcount hdev hn hmem hlt]
    exact iff_of_true rfl hlt
  · rw [DeviceMap.nvmlToCuda_of_length_le hcount hdev hn hmem (Nat.not_lt.mp hlt)]
    refine iff_of_false ?_ hlt
    rw [← UInt32.toNat_inj, UInt32.toNat_ofNat_of_lt' (show n < 2 ^ 32 by omega)]
    have hneg : (-1 : UInt32).toNat = 2 ^ 32 - 1 := by decide
    omega

end Lookup

/-- Of four devices, the list names two; the first of them is found at its place. -/
theorem nvmlToCuda_visibleList_two :
    ∃ array, parseCudaVisibleEnv (some (visibleList [3, 1])) (some 2) = some (array, 2) ∧
      (array.nvmlToCuda 4 (UInt32.ofNat 3)
          = (if 3 ∈ [3, 1] then UInt32.ofNat ([3, 1].idxOf 3) else -1) ↔
        3 ∈ [3, 1] ∨ 3 < 2) :=
  nvmlToCuda_visibleList_iff (by decide) (by decide) (by decide) (by decide) (by decide) (by decide)

/-- Of two devices only the first is listed; the second is found all the same, as ordinal 1. -/
theorem nvmlToCuda_not_listed :
    ∃ array, parseCudaVisibleEnv (some (visibleList [0])) (some 1) = some (array, 1) ∧
      array.nvmlToCuda 2 (UInt32.ofNat 1) = 1 ∧
      array.nvmlToCuda 2 (UInt32.ofNat 1)
        ≠ if 1 ∈ [0] then UInt32.ofNat ([0].idxOf 1) else -1 :=
  ⟨_, parseCudaVisibleEnv_eq_ofDevices (by decide) (by decide) (by decide), by decide, by decide⟩

end HamiCore
