import HamiCore.Library.Lines
import HamiCore.Loader.ProcAddress
import Mathlib.Algebra.BigOperators.Group.List.Basic
import Mathlib.Tactic.IntervalCases

/-!
# Finding the driver's functions

`load_cuda_libraries` fills in the function pointers of `cuda_library_entry`.  The names in that
table are those of one release of the driver, and an older driver has some of them in an earlier
version only, so a name that is not found is counted down: `_v3` becomes `_v2`, and `_v2` is cut
off.  `prior_function` does that in place, in the last three characters of a buffer.

An entry without a function pointer is not hooked by `__dlsym_hook_section`.  So what the driver
exports decides which hooks an application gets to see; `load_cuda_libraries_newest` says which
pointer an entry gets, and `hook_iff_exported` when a lookup finds a hook.
-/

namespace HamiCore

/-- `prior_function(tmp)`: what it returns, and the string it leaves in `tmp`; `none` where it reads
in front of the buffer. -/
def priorFunction (tmp : List Char) : Option (ℤ × List Char) :=
  if tmp.length < 3 then none
  else
    let pos := tmp.length - 3
    match tmp.drop pos with
    | ['_', 'v', c] =>
      if c = '2' then some (1, tmp.take pos)
      -- counted down to zero, the last character ends the string
      else some (1, cString (tmp.take pos ++ ['_', 'v', Char.ofNat (c.toNat - 1)]))
    | _ => some (0, tmp)

/-- What `real_dlsym` finds: in the handle of `libcuda.so.1`, or among all libraries when it could
not be opened, and behind this library. -/
structure RealDlsym where
  table : List Char → Option UInt64
  next : List Char → Option UInt64

/-- The `while` loop of `load_cuda_libraries` with at most `fuel` rounds. -/
def priorLoopFuel (next : List Char → Option UInt64) :
    ℕ → List Char → Option (Option UInt64)
  | 0, _ => none
  | fuel + 1, tmpfunc =>
    match priorFunction tmpfunc with
    | none => none
    | some (ret, tmpfunc) =>
      if ret = 0 then some none
      else
        match next tmpfunc with
        | some fnPtr => some (some fnPtr)
        | none => priorLoopFuel next fuel tmpfunc

/-- What goes down in every round. -/
def nameWeight (tmpfunc : List Char) : ℕ := (tmpfunc.map fun c => c.toNat + 1).sum

/-- The `while` loop. -/
def priorLoop (next : List Char → Option UInt64) (tmpfunc : List Char) : Option (Option UInt64) :=
  priorLoopFuel next (nameWeight tmpfunc + 1) tmpfunc

/-- The round of the loop in `load_cuda_libraries` for the entry `name`: its `fn_ptr`. -/
def loadEntry (lib : RealDlsym) (name : List Char) : Option (Option UInt64) :=
  match lib.table name with
  | some fnPtr => some (some fnPtr)
  | none =>
    match lib.next name with
    | some fnPtr => some (some fnPtr)
    | none => priorLoop lib.next (name.take 499)

/-- `load_cuda_libraries`: the function pointers of `cuda_library_entry`. -/
def loadCudaLibraries (lib : RealDlsym) : Option (List (Option UInt64)) :=
  cudaLibraryEntry.mapM fun name => loadEntry lib name.toList

/-! ## The loop ends -/

@[simp] theorem nameWeight_append (s t : List Char) :
    nameWeight (s ++ t) = nameWeight s + nameWeight t := by
  rw [nameWeight, List.map_append, List.sum_append]
  rfl

theorem nameWeight_suffix (base : List Char) (c : Char) :
    nameWeight (base ++ ['_', 'v', c]) = nameWeight base + (c.toNat + 216) := by
  have hsuffix : nameWeight ['_', 'v', c] = 96 + (119 + (c.toNat + 1 + 0)) := rfl
  rw [nameWeight_append, hsuffix]
  omega

/-- A character counted down, unless to zero. -/
theorem toNat_pred_lt {c : Char} (h : Char.ofNat (c.toNat - 1) ≠ '\x00') :
    (Char.ofNat (c.toNat - 1)).toNat < c.toNat := by
  have hpos : 0 < c.toNat := by
    by_contra hzero
    rw [Nat.eq_zero_of_not_pos hzero] at h
    exact h rfl
  rw [Char.ofNat]
  by_cases hvalid : (c.toNat - 1).isValidChar
  · rw [dif_pos hvalid]
    exact Nat.sub_lt hpos Nat.one_pos
  · rw [dif_neg hvalid]
    exact hpos

/-- Cutting a string makes it no heavier. -/
theorem nameWeight_cString_le (s : List Char) : nameWeight (cString s) ≤ nameWeight s := by
  conv_rhs => rw [← List.takeWhile_append_dropWhile (p := (· ≠ '\x00')) (l := s)]
  rw [nameWeight_append]
  exact Nat.le_add_right _ _

/-- The suffix of a name, read. -/
theorem priorFunction_suffix (base : List Char) (c : Char) :
    priorFunction (base ++ ['_', 'v', c]) =
      if c = '2' then some (1, base)
      else some (1, cString (base ++ ['_', 'v', Char.ofNat (c.toNat - 1)])) := by
  have hlen : (base ++ ['_', 'v', c]).length = base.length + 3 := List.length_append
  rw [priorFunction, if_neg (by omega), hlen]
  dsimp only
  rw [Nat.add_sub_cancel, List.drop_left, List.take_left]
  rfl

/-- What `prior_function` finds at the end of a name. -/
theorem priorFunction_cases (tmp : List Char) :
    priorFunction tmp = none ∨ priorFunction tmp = some (0, tmp) ∨
      ∃ base c, tmp = base ++ ['_', 'v', c] := by
  by_cases hlen : tmp.length < 3
  · exact Or.inl (by rw [priorFunction, if_pos hlen])
  · refine Or.inr ?_
    rw [priorFunction, if_neg hlen]
    dsimp only
    split
    · next c hdrop =>
      exact Or.inr ⟨tmp.take (tmp.length - 3), c, by rw [← hdrop, List.take_append_drop]⟩
    · exact Or.inl rfl

/-- **A round makes the name lighter.** -/
theorem nameWeight_priorFunction {tmp tmp' : List Char} {ret : ℤ}
    (h : priorFunction tmp = some (ret, tmp')) (hret : ret ≠ 0) :
    nameWeight tmp' < nameWeight tmp := by
  rcases priorFunction_cases tmp with hnone | hzero | ⟨base, c, rfl⟩
  · rw [hnone] at h
    cases h
  · rw [hzero] at h
    cases h
    exact absurd rfl hret
  · rw [priorFunction_suffix] at h
    rw [nameWeight_suffix]
    split_ifs at h with hc
    · cases h
      omega
    · cases h
      by_cases hnul : Char.ofNat (c.toNat - 1) = '\x00'
      · -- the last character is gone
        have hcut : cString (base ++ ['_', 'v', Char.ofNat (c.toNat - 1)]) =
            cString (base ++ ['_', 'v']) := by
          rw [hnul, cString, cString, List.takeWhile_append, List.takeWhile_append]
          rfl
        have hle := nameWeight_cString_le (base ++ ['_', 'v'])
        have hweight : nameWeight ['_', 'v'] = 215 := rfl
        rw [nameWeight_append] at hle
        rw [hcut]
        omega
      · have hle := nameWeight_cString_le (base ++ ['_', 'v', Char.ofNat (c.toNat - 1)])
        have hpred := toNat_pred_lt hnul
        rw [nameWeight_suffix] at hle
        omega

/-- Any two amounts of fuel above the weight of the name give the same result. -/
theorem priorLoopFuel_congr (next : List Char → Option UInt64) {fuel fuel' : ℕ} {tmp : List Char}
    (h : nameWeight tmp < fuel) (h' : nameWeight tmp < fuel') :
    priorLoopFuel next fuel tmp = priorLoopFuel next fuel' tmp := by
  induction fuel generalizing fuel' tmp with
  | zero => omega
  | succ fuel ih =>
    obtain ⟨fuel', rfl⟩ := Nat.exists_eq_succ_of_ne_zero (Nat.ne_zero_of_lt h')
    rw [priorLoopFuel, priorLoopFuel]
    cases hprior : priorFunction tmp with
    | none => rfl
    | some out =>
      obtain ⟨ret, tmp'⟩ := out
      dsimp only
      split_ifs with hret
      · rfl
      · have hlt := nameWeight_priorFunction hprior hret
        cases next tmp' with
        | some fnPtr => rfl
        | none => exact ih (by omega) (by omega)

/-- **The loop unfolds as it is written.** -/
theorem priorLoop_eq (next : List Char → Option UInt64) {tmp tmp' : List Char} {ret : ℤ}
    (h : priorFunction tmp = some (ret, tmp')) :
    priorLoop next tmp =
      if ret = 0 then some none else (next tmp').elim (priorLoop next tmp') (some ∘ some) := by
  rw [priorLoop, priorLoopFuel, h]
  dsimp only
  split_ifs with hret
  · rfl
  · have hlt := nameWeight_priorFunction h hret
    cases next tmp' with
    | some fnPtr => rfl
    | none => exact priorLoopFuel_congr next hlt (Nat.lt_succ_self _)

/-! ## Names and their versions -/

/-- A name without a suffix, which leaves room for one in the buffer. -/
structure BaseName where
  text : List Char
  long : 3 ≤ text.length
  short : text.length + 3 < 499
  noNul : '\x00' ∉ text
  noSuffix : ∀ base c, text ≠ base ++ ['_', 'v', c]

namespace BaseName

variable (b : BaseName)

/-- The name of version `version`; version 1 has no suffix. -/
def version (version : ℕ) : List Char :=
  if version ≤ 1 then b.text else b.text ++ ['_', 'v', Char.ofNat (48 + version)]

/-- The names of the versions before `version`, newest first. -/
def earlier : ℕ → List (List Char)
  | 0 | 1 => []
  | version + 2 => b.version (version + 1) :: earlier (version + 1)

/-- Counting down a digit. -/
theorem pred_digit {version : ℕ} (h : version < 9) :
    Char.ofNat ((Char.ofNat (48 + (version + 1))).toNat - 1) = Char.ofNat (48 + version) := by
  interval_cases version <;> rfl

/-- Version 1 has none before it. -/
theorem priorFunction_text : priorFunction b.text = some (0, b.text) := by
  rcases priorFunction_cases b.text with hnone | hzero | ⟨base, c, hsuffix⟩
  · rw [priorFunction, if_neg (not_lt.mpr b.long)] at hnone
    dsimp only at hnone
    split at hnone
    · split_ifs at hnone
    · cases hnone
  · exact hzero
  · exact absurd hsuffix (b.noSuffix base c)

/-- **The version before.** -/
theorem priorFunction_version {version : ℕ} (hpos : 1 ≤ version) (h : version < 9) :
    priorFunction (b.version (version + 1)) = some (1, b.version version) := by
  rw [BaseName.version, if_neg (by omega), priorFunction_suffix, BaseName.version]
  rcases eq_or_lt_of_le hpos with rfl | hlt
  · rw [if_pos (by decide), if_pos le_rfl]
  · have hne : Char.ofNat (48 + (version + 1)) ≠ '2' := by interval_cases version <;> decide
    have hnul : Char.ofNat (48 + version) ≠ '\x00' := by interval_cases version <;> decide
    rw [if_neg hne, if_neg (by omega), pred_digit h, cString_of_notMem]
    simp only [List.mem_append, b.noNul, List.mem_cons, List.not_mem_nil, or_false, false_or]
    rintro (heq | heq | heq)
    · exact absurd heq (by decide)
    · exact absurd heq (by decide)
    · exact hnul heq.symm

/-- **The loop looks for the earlier versions, newest first.** -/
theorem priorLoop_version (next : List Char → Option UInt64) {version : ℕ} (h : version ≤ 9) :
    priorLoop next (b.version version) = some ((b.earlier version).findSome? next) := by
  induction version with
  | zero => rw [BaseName.version, if_pos (by decide), priorLoop_eq next b.priorFunction_text]; rfl
  | succ version ih =>
    rcases Nat.eq_zero_or_pos version with rfl | hpos
    · rw [BaseName.version, if_pos (by decide), priorLoop_eq next b.priorFunction_text]
      rfl
    · obtain ⟨v, rfl⟩ := Nat.exists_eq_succ_of_ne_zero hpos.ne'
      rw [priorLoop_eq next (b.priorFunction_version hpos h), if_neg one_ne_zero, earlier,
        List.findSome?_cons]
      cases hfound : next (b.version (v + 1)) with
      | some fnPtr => rfl
      | none => exact ih (by omega)

end BaseName

/-- A name as they stand in `cuda_library_entry`. -/
structure EntryName where
  base : BaseName
  number : ℕ
  one_le : 1 ≤ number
  le_nine : number ≤ 9

namespace EntryName

variable (n : EntryName)

def text : List Char := n.base.version n.number

/-- The name and the names of its earlier versions, newest first. -/
def versions : List (List Char) := n.text :: n.base.earlier n.number

theorem length_text : n.text.length < 499 := by
  have hshort := n.base.short
  rw [text, BaseName.version]
  split_ifs
  · omega
  · rw [List.length_append]
    exact hshort

/-- **What an entry gets.** -/
theorem loadEntry_text (lib : RealDlsym) :
    loadEntry lib n.text = some ((lib.table n.text).or (n.versions.findSome? lib.next)) := by
  rw [loadEntry, versions, List.findSome?_cons]
  cases htable : lib.table n.text with
  | some fnPtr => rfl
  | none =>
    cases hnext : lib.next n.text with
    | some fnPtr => rfl
    | none =>
      dsimp only
      rw [List.take_of_length_le n.length_text.le, text,
        BaseName.priorLoop_version _ _ n.le_nine, Option.none_or]

end EntryName

/-- A driver that has `cuCtxCreate` and `cuCtxCreate_v2` only. -/
example : loadEntry ⟨fun _ => none, fun s => if s = "cuCtxCreate_v2".toList then some 4096
    else if s = "cuCtxCreate".toList then some 8192 else none⟩ "cuCtxCreate_v4".toList
      = some (some 4096) := by
  decide +kernel

/-- The suffix of a name, and what is in front of it. -/
def splitName (s : List Char) : List Char × ℕ :=
  match s.drop (s.length - 3) with
  | ['_', 'v', c] => (s.take (s.length - 3), c.toNat - 48)
  | _ => (s, 1)

/-- A test for names that stand in `cuda_library_entry`. -/
def isEntryName (s : List Char) : Bool :=
  let base := (splitName s).1
  let number := (splitName s).2
  3 ≤ base.length && base.length + 3 < 499 && '\x00' ∉ base && splitName base = (base, 1) &&
    1 ≤ number && number ≤ 9 &&
    s = if number ≤ 1 then base else base ++ ['_', 'v', Char.ofNat (48 + number)]

theorem splitName_suffix (base : List Char) (c : Char) :
    splitName (base ++ ['_', 'v', c]) = (base, c.toNat - 48) := by
  have hlen : (base ++ ['_', 'v', c]).length = base.length + 3 := List.length_append
  rw [splitName, hlen, Nat.add_sub_cancel, List.drop_left, List.take_left]
  rfl

theorem exists_entryName {s : List Char} (h : isEntryName s = true) :
    ∃ n : EntryName, n.text = s := by
  simp only [isEntryName, Bool.and_eq_true, decide_eq_true_eq] at h
  obtain ⟨⟨⟨⟨⟨⟨hlong, hshort⟩, hnul⟩, hsuffix⟩, hpos⟩, hnine⟩, htext⟩ := h
  refine ⟨⟨⟨(splitName s).1, hlong, hshort, hnul, fun base c heq => ?_⟩, (splitName s).2, hpos,
    hnine⟩, htext.symm⟩
  rw [heq, splitName_suffix, Prod.mk.injEq] at hsuffix
  have hlen := congrArg List.length hsuffix.1
  rw [List.length_append] at hlen
  exact absurd hlen (by simp)

theorem isEntryName_ofList {s : List Char} (h : isEntryName s = true) :
    isEntryName (String.ofList s).toList = true := by
  rwa [String.toList_ofList]

/-- Every entry has such a name. -/
theorem isEntryName_of_mem : ∀ name ∈ cudaLibraryEntry, isEntryName name.toList = true := by
  dsimp only [cudaLibraryEntry]
  -- each literal is taken apart into its characters before it is tested
  repeat' refine List.forall_mem_cons.mpr ⟨isEntryName_ofList ?_, ?_⟩
  case refine_2 => exact fun _ h => absurd h List.not_mem_nil
  all_goals decide +kernel

/-- The entries, as names with a version. -/
theorem exists_entryNames : ∃ names : List EntryName,
    names.map EntryName.text = cudaLibraryEntry.map String.toList := by
  have hall : ∀ l : List String, (∀ name ∈ l, isEntryName name.toList = true) →
      ∃ names : List EntryName, names.map EntryName.text = l.map String.toList := by
    intro l
    induction l with
    | nil => exact fun _ => ⟨[], rfl⟩
    | cons name l ih =>
      intro hl
      obtain ⟨n, hn⟩ := exists_entryName (hl name List.mem_cons_self)
      obtain ⟨names, hnames⟩ := ih fun name' h => hl name' (List.mem_cons_of_mem name h)
      exact ⟨n :: names, by rw [List.map_cons, List.map_cons, hn, hnames]⟩
  exact hall _ isEntryName_of_mem

/-- **Every entry gets the newest there is.**  For every driver, the loop ends for every entry
without leaving its buffer, and the entry gets what the driver's library has under its name, or else
the first that there is elsewhere under the name or that of an earlier version, newest first. -/
theorem load_cuda_libraries_newest : ∃ names : List EntryName,
    names.map EntryName.text = cudaLibraryEntry.map String.toList ∧ ∀ lib : RealDlsym,
      loadCudaLibraries lib
        = some (names.map fun n => (lib.table n.text).or (n.versions.findSome? lib.next)) := by
  obtain ⟨names, hnames⟩ := exists_entryNames
  refine ⟨names, hnames, fun lib => ?_⟩
  have hall : ∀ (l : List String) (ns : List EntryName),
      ns.map EntryName.text = l.map String.toList →
      (l.mapM fun name => loadEntry lib name.toList)
        = some (ns.map fun n => (lib.table n.text).or (n.versions.findSome? lib.next)) := by
    intro l
    induction l with
    | nil =>
      intro ns hns
      rw [List.map_nil, List.map_eq_nil_iff] at hns
      rw [hns]
      rfl
    | cons name l ih =>
      intro ns hns
      obtain ⟨n, ns, rfl⟩ := List.exists_cons_of_ne_nil (l := ns) (by rintro rfl; cases hns)
      rw [List.map_cons, List.map_cons, List.cons.injEq] at hns
      rw [List.mapM_cons, ← hns.1, n.loadEntry_text, ih ns hns.2]
      rfl
  exact hall _ names hnames

/-! ## Which hooks there are -/

namespace RealDlsym

variable (lib : RealDlsym)

/-- `fn_ptr` of the entry `name`. -/
def fnPtr (name : String) : Option UInt64 := (loadEntry lib name.toList).join

/-- The tables after `load_cuda_libraries`. -/
def hookTable (cudaVersion : ℕ) (hookMeminfoEnable : Bool) : HookTable :=
  ⟨cudaVersion, hookMeminfoEnable, fun name => (lib.fnPtr name).isSome⟩

/-- The driver's library has the function, or some library has it or an earlier version of it. -/
def Exports (s : List Char) : Prop :=
  ∃ n : EntryName, n.text = s ∧
    ((lib.table s).isSome ∨ ∃ earlier ∈ n.versions, (lib.next earlier).isSome)

/-- An entry has a function pointer if the driver has the function in some version. -/
theorem isSome_fnPtr_iff {name : String} (hname : name ∈ cudaLibraryEntry) :
    (lib.fnPtr name).isSome ↔ lib.Exports name.toList := by
  obtain ⟨n, hn⟩ := exists_entryName (isEntryName_of_mem name hname)
  have hload : ∀ n : EntryName, n.text = name.toList → ((lib.fnPtr name).isSome ↔
      (lib.table name.toList).isSome ∨ ∃ earlier ∈ n.versions, (lib.next earlier).isSome) := by
    intro n hn
    rw [fnPtr, ← hn, n.loadEntry_text, Option.join_some, Option.isSome_or, Bool.or_eq_true,
      List.findSome?_isSome_iff]
  constructor
  · exact fun h => ⟨n, hn, (hload n hn).mp h⟩
  · rintro ⟨n', hn', h⟩
    exact (hload n' hn').mpr h

end RealDlsym

namespace HookTable

variable {t : HookTable}

/-- **What `__dlsym_hook_section` hands out**: the hook of that name, where there is one with a
function pointer behind it. -/
theorem dlsymHookSection_eq_hook_iff {s : List Char} {name : String} :
    dlsymHookSection t s = .hook name ↔
      name ∈ t.hookFuncs ∧ name.toList = s ∧ t.loaded name = true := by
  constructor
  · intro h
    rw [dlsymHookSection] at h
    split_ifs at h with hall
    split at h
    · next name' hfind =>
      obtain rfl := ProcPtr.hook.inj h
      have hmem := List.mem_of_find?_eq_some hfind
      have htext : name'.toList = s := by simpa using List.find?_some hfind
      refine ⟨hmem, htext, ?_⟩
      obtain ⟨name'', hname''⟩ : ∃ name'', (cudaLibraryEntry.find? fun name => name.toList = s)
          = some name'' := Option.isSome_iff_exists.mp
        (List.find?_isSome.mpr ⟨name', (List.mem_filter.mp hmem).1, decide_eq_true htext⟩)
      have htext' : name''.toList = s := by simpa using List.find?_some hname''
      rw [hname'', String.toList_inj.mp (htext'.trans htext.symm)] at hall
      exact hall
    · cases h
  · rintro ⟨hmem, rfl, hloaded⟩
    exact dlsymHookSection_toList hmem hloaded

theorem dlsymHookSection_cases (t : HookTable) (s : List Char) :
    dlsymHookSection t s = .null ∨ ∃ name, dlsymHookSection t s = .hook name := by
  rw [dlsymHookSection]
  split_ifs
  · split
    · exact Or.inr ⟨_, rfl⟩
    · exact Or.inl rfl
  · exact Or.inl rfl

/-- No hook has a name that fills the buffer of `find_symbols_in_table`. -/
theorem dlsymHookSection_of_long {s : List Char} (hs : 499 ≤ s.length) :
    dlsymHookSection t s = .null := by
  rcases dlsymHookSection_cases t s with hnull | ⟨name, hhook⟩
  · exact hnull
  · obtain ⟨hmem, rfl, -⟩ := dlsymHookSection_eq_hook_iff.mp hhook
    obtain ⟨n, hn⟩ := exists_entryName (isEntryName_of_mem name (List.mem_filter.mp hmem).1)
    rw [← hn] at hs
    exact absurd n.length_text (not_lt.mpr hs)

/-- The first of the names with a hook. -/
def firstHook (t : HookTable) : List (List Char) → ProcPtr
  | [] => .null
  | s :: names => if dlsymHookSection t s ≠ .null then dlsymHookSection t s else t.firstHook names

theorem firstHook_eq_hook_iff {names : List (List Char)} {name : String} :
    t.firstHook names = .hook name ↔ ∃ before after, names = before ++ name.toList :: after ∧
      name ∈ t.hookFuncs ∧ t.loaded name = true ∧
        ∀ name' ∈ t.hookFuncs, name'.toList ∈ before → ¬ t.loaded name' = true := by
  induction names with
  | nil => simp [firstHook]
  | cons s names ih =>
    rcases dlsymHookSection_cases t s with hnull | ⟨found, hfound⟩
    · have hnone : ∀ name' ∈ t.hookFuncs, name'.toList = s → ¬ t.loaded name' = true := by
        rintro name' hmem rfl hloaded
        rw [dlsymHookSection_toList hmem hloaded] at hnull
        cases hnull
      rw [firstHook, if_neg (not_not.mpr hnull), ih]
      constructor
      · rintro ⟨before, after, rfl, hmem, hloaded, hbefore⟩
        refine ⟨s :: before, after, rfl, hmem, hloaded, fun name' hmem' hin => ?_⟩
        rcases List.mem_cons.mp hin with heq | hin
        · exact hnone name' hmem' heq
        · exact hbefore name' hmem' hin
      · rintro ⟨before, after, hnames, hmem, hloaded, hbefore⟩
        cases before with
        | nil =>
          rw [List.nil_append, List.cons.injEq] at hnames
          exact absurd hloaded (hnone name hmem hnames.1.symm)
        | cons s' before =>
          rw [List.cons_append, List.cons.injEq] at hnames
          exact ⟨before, after, hnames.2, hmem, hloaded,
            fun name' hmem' hin => hbefore name' hmem' (List.mem_cons_of_mem _ hin)⟩
    · obtain ⟨hmem', htext, hloaded'⟩ := dlsymHookSection_eq_hook_iff.mp hfound
      rw [firstHook, hfound, if_pos (by simp)]
      constructor
      · rintro ⟨⟩
        exact ⟨[], names, by rw [htext]; rfl, hmem', hloaded', fun _ _ hin => absurd hin (by simp)⟩
      · rintro ⟨before, after, hnames, hmem, hloaded, hbefore⟩
        cases before with
        | nil =>
          rw [List.nil_append, List.cons.injEq] at hnames
          rw [String.toList_inj.mp (htext.trans hnames.1)]
        | cons s' before =>
          rw [List.cons_append, List.cons.injEq] at hnames
          refine absurd hloaded' (hbefore found hmem' ?_)
          rw [htext, hnames.1]
          exact List.mem_cons_self

end HookTable

/-- The names under which the hook of a symbol is looked for, in that order. -/
def hookCandidates (symbol : List Char) (cudaVersion : ℤ) : List (List Char) :=
  match getRealFuncName symbol cudaVersion with
  | some realName => [realName.toList]
  | none =>
    if "cuGraph".toList.isPrefixOf symbol then []
    else [symbol ++ "_v3".toList, symbol ++ "_v2".toList, symbol]

/-- **The search, as one list of names.** -/
theorem findSymbolsInTableByCudaversion_eq (t : HookTable) (symbol : List Char)
    (cudaVersion : ℤ) : findSymbolsInTableByCudaversion t symbol cudaVersion
      = t.firstHook (hookCandidates symbol cudaVersion) := by
  have hlast : ∀ s, t.firstHook [s] = dlsymHookSection t s := by
    intro s
    rw [HookTable.firstHook, HookTable.firstHook]
    split_ifs with hnull
    · rfl
    · exact (not_not.mp hnull).symm
  rw [findSymbolsInTableByCudaversion, hookCandidates]
  cases getRealFuncName symbol cudaVersion with
  | some realName => exact (hlast _).symm
  | none =>
    dsimp only
    rw [findSymbolsInTable]
    split_ifs with hgraph
    · rfl
    · have hv3 : symbol ++ "_v3".toList = symbol ++ ['_', 'v'] ++ ['3'] := by simp
      have hv2 : symbol ++ "_v2".toList = symbol ++ ['_', 'v'] ++ ['2'] := by simp
      have hlen : (symbol ++ ['_', 'v']).length = symbol.length + 2 := List.length_append
      rw [HookTable.firstHook, HookTable.firstHook, hlast, hv3, hv2]
      dsimp only
      rcases le_or_gt symbol.length 496 with hshort | hlong
      · have hfits : (symbol ++ ['_', 'v'] ++ ['3']).length ≤ 499 := by
          rw [List.length_append, hlen, List.length_singleton]
          omega
        rw [List.take_of_length_le hfits, List.dropLast_concat]
      · -- cut or not, these names are longer than that of any hook
        have hfull : ∀ c, 499 ≤ (symbol ++ ['_', 'v'] ++ [c]).length := by
          intro c
          rw [List.length_append, hlen, List.length_singleton]
          omega
        have hcut : ((symbol ++ ['_', 'v'] ++ ['3']).take 499).length = 499 :=
          List.length_take_of_le (hfull '3')
        have hcutLast :
            (((symbol ++ ['_', 'v'] ++ ['3']).take 499).dropLast ++ ['2']).length = 499 := by
          rw [List.length_append, List.length_dropLast, hcut]
          rfl
        rw [HookTable.dlsymHookSection_of_long hcut.ge,
          HookTable.dlsymHookSection_of_long hcutLast.ge,
          HookTable.dlsymHookSection_of_long (hfull '3'),
          HookTable.dlsymHookSection_of_long (hfull '2')]

/-- **Which hook an application gets.**  A lookup finds the first hook among its candidates whose
function the driver has, in that version or an earlier one; where there is none it finds nothing.
So no hook is handed out that has no function of the driver behind it. -/
theorem hook_iff_exported (lib : RealDlsym) (cudaVersion : ℕ) (hookMeminfoEnable : Bool)
    (symbol : List Char) (version : ℤ) (name : String) :
    let t := lib.hookTable cudaVersion hookMeminfoEnable
    findSymbolsInTableByCudaversion t symbol version = .hook name ↔
      ∃ before after, hookCandidates symbol version = before ++ name.toList :: after ∧
        name ∈ t.hookFuncs ∧ lib.Exports name.toList ∧
        ∀ name' ∈ t.hookFuncs, name'.toList ∈ before → ¬ lib.Exports name'.toList := by
  intro t
  have hloaded : ∀ name ∈ t.hookFuncs, (t.loaded name = true ↔ lib.Exports name.toList) :=
    fun name hname => lib.isSome_fnPtr_iff (List.mem_filter.mp hname).1
  rw [findSymbolsInTableByCudaversion_eq, HookTable.firstHook_eq_hook_iff]
  refine exists_congr fun before => exists_congr fun after => and_congr_right fun _ =>
    and_congr_right fun hmem => and_congr (hloaded name hmem) ?_
  exact forall₂_congr fun name' hmem' => imp_congr_right fun _ => not_congr (hloaded name' hmem')

end HamiCore
