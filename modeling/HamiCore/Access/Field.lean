import HamiCore.Region.Compaction

/-!
# The atomic fields of a slot

A slot is not one word.  Every member of `shrreg_proc_slot_t` is an `_Atomic` of its own, and
`copy_proc_slot_atomic` and the zeroing in `clear_proc_slot_nolock` go through them one at a time.
Where another process may run in between, the unit of execution is one load or one store of one
field.

`SlotField` names the fields, with `get` and `set` for one load and one store.  The two lists
`copyFields` and `zeroFields` are the order in which the source visits them.  What a whole pass does
is read off field by field (`get_copyInto`): a complete copy makes the destination equal to the
source (`copyInto_copyFields`), and a complete zeroing is `ShrregProcSlot.vacate`
(`zeroInto_zeroFields`).
-/

namespace HamiCore

/-- The members of `device_memory_t`. -/
inductive MemField where
  | total
  | contextSize
  | moduleSize
  | dataSize
  | offset
  deriving DecidableEq

/-- The members of `device_util_t`. -/
inductive UtilField where
  | decUtil
  | encUtil
  | smUtil
  deriving DecidableEq

/-- The atomic members of `shrreg_proc_slot_t`. -/
inductive SlotField where
  | pid
  | hostpid
  | seqlock
  | status
  | used (dev : Dev) (m : MemField)
  | monitorused (dev : Dev)
  | deviceUtil (dev : Dev) (u : UtilField)
  deriving DecidableEq

namespace MemField

/-- Load one counter. -/
def get : MemField → DeviceMemory → UInt64
  | .total, m => m.total
  | .contextSize, m => m.contextSize
  | .moduleSize, m => m.moduleSize
  | .dataSize, m => m.dataSize
  | .offset, m => m.offset

/-- Store one counter. -/
def set : MemField → UInt64 → DeviceMemory → DeviceMemory
  | .total, v, m => { m with total := v }
  | .contextSize, v, m => { m with contextSize := v }
  | .moduleSize, v, m => { m with moduleSize := v }
  | .dataSize, v, m => { m with dataSize := v }
  | .offset, v, m => { m with offset := v }

@[simp] theorem get_set_self (f : MemField) (v : UInt64) (m : DeviceMemory) :
    f.get (f.set v m) = v := by
  cases f <;> rfl

theorem get_set_of_ne {f g : MemField} (h : g ≠ f) (v : UInt64) (m : DeviceMemory) :
    g.get (f.set v m) = g.get m := by
  cases f <;> cases g <;> first | rfl | exact absurd rfl h

theorem ext_get {m m' : DeviceMemory} (h : ∀ f : MemField, f.get m = f.get m') : m = m' := by
  obtain ⟨c, mo, d, o, t⟩ := m
  obtain ⟨c', mo', d', o', t'⟩ := m'
  obtain rfl : c = c' := h .contextSize
  obtain rfl : mo = mo' := h .moduleSize
  obtain rfl : d = d' := h .dataSize
  obtain rfl : o = o' := h .offset
  obtain rfl : t = t' := h .total
  rfl

end MemField

namespace UtilField

/-- Load one utilisation value. -/
def get : UtilField → DeviceUtil → UInt64
  | .decUtil, u => u.decUtil
  | .encUtil, u => u.encUtil
  | .smUtil, u => u.smUtil

/-- Store one utilisation value. -/
def set : UtilField → UInt64 → DeviceUtil → DeviceUtil
  | .decUtil, v, u => { u with decUtil := v }
  | .encUtil, v, u => { u with encUtil := v }
  | .smUtil, v, u => { u with smUtil := v }

@[simp] theorem get_set_self (f : UtilField) (v : UInt64) (u : DeviceUtil) :
    f.get (f.set v u) = v := by
  cases f <;> rfl

theorem get_set_of_ne {f g : UtilField} (h : g ≠ f) (v : UInt64) (u : DeviceUtil) :
    g.get (f.set v u) = g.get u := by
  cases f <;> cases g <;> first | rfl | exact absurd rfl h

theorem ext_get {u u' : DeviceUtil} (h : ∀ f : UtilField, f.get u = f.get u') : u = u' := by
  obtain ⟨d, e, s⟩ := u
  obtain ⟨d', e', s'⟩ := u'
  obtain rfl : d = d' := h .decUtil
  obtain rfl : e = e' := h .encUtil
  obtain rfl : s = s' := h .smUtil
  rfl

end UtilField

namespace SlotField

/-- The type of a field: `int32_t` for the two pids and the status, `uint64_t` for the rest. -/
abbrev Val : SlotField → Type
  | .pid => ℤ
  | .hostpid => ℤ
  | .status => ℤ
  | .seqlock => UInt64
  | .used _ _ => UInt64
  | .monitorused _ => UInt64
  | .deviceUtil _ _ => UInt64

/-- `atomic_load_explicit` of one field. -/
def get : (f : SlotField) → ShrregProcSlot → f.Val
  | .pid, s => s.pid
  | .hostpid, s => s.hostpid
  | .status, s => s.status
  | .seqlock, s => s.seqlock
  | .used d m, s => m.get (s.used d)
  | .monitorused d, s => s.monitorused d
  | .deviceUtil d u, s => u.get (s.deviceUtil d)

/-- `atomic_store_explicit` of one field. -/
def set : (f : SlotField) → f.Val → ShrregProcSlot → ShrregProcSlot
  | .pid, v, s => { s with pid := v }
  | .hostpid, v, s => { s with hostpid := v }
  | .status, v, s => { s with status := v }
  | .seqlock, v, s => { s with seqlock := v }
  | .used d m, v, s => { s with used := Function.update s.used d (m.set v (s.used d)) }
  | .monitorused d, v, s => { s with monitorused := Function.update s.monitorused d v }
  | .deviceUtil d u, v, s =>
    { s with deviceUtil := Function.update s.deviceUtil d (u.set v (s.deviceUtil d)) }

/-- The constant `0` of a field's type. -/
def zero (f : SlotField) : f.Val := f.get .blank

@[simp] theorem get_set_self (f : SlotField) (v : f.Val) (s : ShrregProcSlot) :
    f.get (f.set v s) = v := by
  cases f with
  | pid => rfl
  | hostpid => rfl
  | status => rfl
  | seqlock => rfl
  | used d m =>
    show m.get (Function.update s.used d (m.set v (s.used d)) d) = v
    rw [Function.update_self, MemField.get_set_self]
  | monitorused d =>
    show Function.update s.monitorused d v d = v
    rw [Function.update_self]
  | deviceUtil d u =>
    show u.get (Function.update s.deviceUtil d (u.set v (s.deviceUtil d)) d) = v
    rw [Function.update_self, UtilField.get_set_self]

/-- A store to one field leaves every other field alone. -/
theorem get_set_of_ne {f g : SlotField} (h : g ≠ f) (v : f.Val) (s : ShrregProcSlot) :
    g.get (f.set v s) = g.get s := by
  cases f with
  | pid => cases g <;> first | rfl | exact absurd rfl h
  | hostpid => cases g <;> first | rfl | exact absurd rfl h
  | status => cases g <;> first | rfl | exact absurd rfl h
  | seqlock => cases g <;> first | rfl | exact absurd rfl h
  | used d m =>
    cases g with
    | used e n =>
      show n.get (Function.update s.used d (m.set v (s.used d)) e) = n.get (s.used e)
      by_cases hed : e = d
      · subst hed
        rw [Function.update_self]
        exact MemField.get_set_of_ne (fun hnm => h (by rw [hnm])) v _
      · rw [Function.update_of_ne hed]
    | _ => rfl
  | monitorused d =>
    cases g with
    | monitorused e =>
      show Function.update s.monitorused d v e = s.monitorused e
      exact Function.update_of_ne (fun hed => h (by rw [hed])) _ _
    | _ => rfl
  | deviceUtil d u =>
    cases g with
    | deviceUtil e w =>
      show w.get (Function.update s.deviceUtil d (u.set v (s.deviceUtil d)) e) =
        w.get (s.deviceUtil e)
      by_cases hed : e = d
      · subst hed
        rw [Function.update_self]
        exact UtilField.get_set_of_ne (fun hwu => h (by rw [hwu])) v _
      · rw [Function.update_of_ne hed]
    | _ => rfl

/-- A slot is determined by its fields. -/
theorem ext_get {s s' : ShrregProcSlot} (h : ∀ f : SlotField, f.get s = f.get s') : s = s' := by
  ext1
  · exact h .pid
  · exact h .hostpid
  · ext1 d
    exact MemField.ext_get fun m => h (.used d m)
  · ext1 d
    exact h (.monitorused d)
  · ext1 d
    exact UtilField.ext_get fun u => h (.deviceUtil d u)
  · exact h .status
  · exact h .seqlock

/-- Storing what is already there changes nothing. -/
@[simp] theorem set_get (f : SlotField) (s : ShrregProcSlot) : f.set (f.get s) s = s := by
  refine ext_get fun g => ?_
  by_cases hgf : g = f
  · subst hgf
    rw [get_set_self]
  · rw [get_set_of_ne hgf]

end SlotField

/-- One turn of the device loop of `copy_proc_slot_atomic`. -/
def copyDeviceFields (dev : Dev) : List SlotField :=
  [.used dev .total, .used dev .contextSize, .used dev .moduleSize, .used dev .dataSize,
    .used dev .offset, .monitorused dev, .deviceUtil dev .decUtil, .deviceUtil dev .encUtil,
    .deviceUtil dev .smUtil]

/-- The order in which `copy_proc_slot_atomic` visits the fields. -/
def copyFields : List SlotField :=
  .pid :: .hostpid :: .seqlock :: .status ::
    (List.finRange cudaDeviceMaxCount).flatMap copyDeviceFields

/-- One turn of the device loop that zeroes the vacated slot. -/
def zeroDeviceFields (dev : Dev) : List SlotField :=
  [.used dev .total, .used dev .contextSize, .used dev .moduleSize, .used dev .dataSize,
    .deviceUtil dev .smUtil, .monitorused dev]

/-- The order in which `clear_proc_slot_nolock` zeroes the vacated slot. -/
def zeroFields : List SlotField :=
  .seqlock :: .pid :: .hostpid :: .status ::
    (List.finRange cudaDeviceMaxCount).flatMap zeroDeviceFields

/-- Copy the listed fields of `src`, one after the other. -/
def copyInto (src : ShrregProcSlot) (fs : List SlotField) (dst : ShrregProcSlot) :
    ShrregProcSlot :=
  fs.foldl (fun d f => f.set (f.get src) d) dst

/-- Zero the listed fields, one after the other: a copy from a slot of zeros. -/
def zeroInto (fs : List SlotField) (dst : ShrregProcSlot) : ShrregProcSlot :=
  copyInto .blank fs dst

@[simp] theorem copyInto_nil (src dst : ShrregProcSlot) : copyInto src [] dst = dst := rfl

@[simp] theorem copyInto_cons (src dst : ShrregProcSlot) (f : SlotField) (fs : List SlotField) :
    copyInto src (f :: fs) dst = copyInto src fs (f.set (f.get src) dst) := rfl

/-- **A pass over the fields.**  The listed fields come from the source, the others stay. -/
theorem get_copyInto (src dst : ShrregProcSlot) (fs : List SlotField) (g : SlotField) :
    g.get (copyInto src fs dst) = if g ∈ fs then g.get src else g.get dst := by
  induction fs generalizing dst with
  | nil => simp
  | cons f fs ih =>
    rw [copyInto_cons, ih]
    by_cases hgfs : g ∈ fs
    · rw [if_pos hgfs, if_pos (List.mem_cons_of_mem f hgfs)]
    · rw [if_neg hgfs]
      by_cases hgf : g = f
      · subst hgf
        rw [SlotField.get_set_self, if_pos List.mem_cons_self]
      · rw [SlotField.get_set_of_ne hgf, if_neg (by simp [hgf, hgfs])]

theorem mem_copyFields (f : SlotField) : f ∈ copyFields := by
  cases f with
  | used d m => cases m <;> simp [copyFields, copyDeviceFields]
  | deviceUtil d u => cases u <;> simp [copyFields, copyDeviceFields]
  | _ => simp [copyFields, copyDeviceFields]

/-- **A complete copy**: no member is forgotten. -/
theorem copyInto_copyFields (src dst : ShrregProcSlot) : copyInto src copyFields dst = src := by
  refine SlotField.ext_get fun f => ?_
  rw [get_copyInto, if_pos (mem_copyFields f)]

/-- **A complete zeroing**: `offset`, `dec_util` and `enc_util` keep their values. -/
theorem zeroInto_zeroFields (s : ShrregProcSlot) : zeroInto zeroFields s = s.vacate := by
  refine SlotField.ext_get fun f => ?_
  rw [zeroInto, get_copyInto]
  cases f with
  | used d m =>
    cases m with
    | offset => rw [if_neg (by simp [zeroFields, zeroDeviceFields])]; rfl
    | _ => rw [if_pos (by simp [zeroFields, zeroDeviceFields])]; rfl
  | deviceUtil d u =>
    cases u with
    | smUtil => rw [if_pos (by simp [zeroFields, zeroDeviceFields])]; rfl
    | _ => rw [if_neg (by simp [zeroFields, zeroDeviceFields])]; rfl
  | _ => rw [if_pos (by simp [zeroFields, zeroDeviceFields])]; rfl

end HamiCore
