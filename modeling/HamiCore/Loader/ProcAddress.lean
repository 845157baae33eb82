import Mathlib.Data.Int.Notation
import Mathlib.Data.List.Basic

/-!
# Looking up driver functions

An application that does not link against the driver asks `cuGetProcAddress_v2` for its functions,
and gets the hook of a function that has one.  The first lookup of `cuGetProcAddress_v2` itself
hands out a second implementation, `_cuGetProcAddress_v2`, for the lookups that follow.  Both search
the tables in the same way (`findSymbolsInTableByCudaversion`); when they find a hook, the first
still asks the driver, for its result and the symbol's status, and the second does not
(`procAddress_agree_iff`).  The global `cuGetProcAddress_real`, which only ever is written, is left
out.
-/

namespace HamiCore

/-- What a `void *` in a lookup may point to. -/
inductive ProcPtr where
  | null
  /-- The function of that name in this library. -/
  | hook (name : String)
  /-- `_cuGetProcAddress_v2`. -/
  | getProcAddressV2
  | driver (address : UInt64)
  deriving DecidableEq

/-- What decides which hooks there are: how the library was built, and which functions
`load_cuda_libraries` has found in the driver. -/
structure HookTable where
  /-- `CUDA_VERSION`. -/
  cudaVersion : ℕ
  /-- `HOOK_MEMINFO_ENABLE`. -/
  hookMeminfoEnable : Bool
  /-- `fn_ptr` of the entry with that name is not `NULL`. -/
  loaded : String → Bool

/-- The names of `cuda_library_entry`. -/
def cudaLibraryEntry : List String :=
  ["cuInit", "cuDeviceGetAttribute", "cuDeviceGet", "cuDeviceGetCount", "cuDeviceGetName",
   "cuDeviceCanAccessPeer", "cuDeviceGetP2PAttribute", "cuDeviceGetByPCIBusId",
   "cuDeviceGetPCIBusId", "cuDeviceGetUuid", "cuDeviceGetUuid_v2", "cuDeviceGetDefaultMemPool",
   "cuDeviceGetLuid", "cuDeviceGetMemPool", "cuDeviceTotalMem_v2", "cuDriverGetVersion",
   "cuDeviceGetTexture1DLinearMaxWidth", "cuDeviceSetMemPool", "cuFlushGPUDirectRDMAWrites",
   "cuDevicePrimaryCtxGetState", "cuDevicePrimaryCtxRetain", "cuDevicePrimaryCtxSetFlags_v2",
   "cuDevicePrimaryCtxRelease_v2", "cuCtxGetDevice", "cuCtxCreate_v2", "cuCtxCreate_v3",
   "cuCtxCreate_v4", "cuCtxDestroy_v2", "cuCtxGetApiVersion", "cuCtxGetCacheConfig",
   "cuCtxGetCurrent", "cuCtxGetFlags", "cuCtxGetLimit", "cuCtxGetSharedMemConfig",
   "cuCtxGetStreamPriorityRange", "cuCtxPopCurrent_v2", "cuCtxPushCurrent_v2",
   "cuCtxSetCacheConfig", "cuCtxSetCurrent", "cuCtxSetLimit", "cuCtxSetSharedMemConfig",
   "cuCtxSynchronize", "cuGetExportTable", "cuStreamCreate", "cuStreamDestroy_v2",
   "cuStreamSynchronize", "cuArray3DCreate_v2", "cuArrayCreate_v2", "cuArrayDestroy",
   "cuMemAlloc_v2", "cuMemAllocHost_v2", "cuMemAllocManaged", "cuMemAllocPitch_v2",
   "cuMemFree_v2", "cuMemFreeHost", "cuMemHostAlloc", "cuMemHostRegister_v2",
   "cuMemHostUnregister", "cuMemcpyDtoH_v2", "cuMemcpyHtoD_v2", "cuMipmappedArrayCreate",
   "cuMipmappedArrayDestroy", "cuMemGetInfo_v2", "cuMemcpy", "cuPointerGetAttribute",
   "cuPointerGetAttributes", "cuPointerSetAttribute", "cuIpcCloseMemHandle",
   "cuIpcGetMemHandle", "cuIpcOpenMemHandle_v2", "cuMemGetAddressRange_v2", "cuMemcpyAsync",
   "cuMemcpyAtoD_v2", "cuMemcpyDtoA_v2", "cuMemcpyDtoD_v2", "cuMemcpyDtoDAsync_v2",
   "cuMemcpyDtoHAsync_v2", "cuMemcpyHtoDAsync_v2", "cuMemcpyPeer", "cuMemcpyPeerAsync",
   "cuMemsetD16_v2", "cuMemsetD16Async", "cuMemsetD2D16_v2", "cuMemsetD2D16Async",
   "cuMemsetD2D32_v2", "cuMemsetD2D32Async", "cuMemsetD2D8_v2", "cuMemsetD2D8Async",
   "cuMemsetD32_v2", "cuMemsetD32Async", "cuMemsetD8_v2", "cuMemsetD8Async", "cuMemAdvise",
   "cuMemAdvise_v2", "cuFuncSetCacheConfig", "cuFuncSetSharedMemConfig", "cuFuncGetAttribute",
   "cuFuncSetAttribute", "cuLaunchKernel", "cuLaunchKernelEx", "cuLaunchCooperativeKernel",
   "cuEventCreate", "cuEventDestroy_v2", "cuModuleLoad", "cuModuleLoadData",
   "cuModuleLoadDataEx", "cuModuleLoadFatBinary", "cuModuleGetFunction", "cuModuleUnload",
   "cuModuleGetGlobal_v2", "cuModuleGetTexRef", "cuModuleGetSurfRef", "cuLinkAddData_v2",
   "cuLinkCreate_v2", "cuLinkAddFile_v2", "cuLinkComplete", "cuLinkDestroy",
   "cuMemAddressReserve", "cuMemCreate", "cuMemRelease", "cuMemMap",
   "cuMemImportFromShareableHandle", "cuMemAllocAsync", "cuMemFreeAsync",
   "cuMemHostGetDevicePointer_v2", "cuMemHostGetFlags", "cuMemPoolTrimTo",
   "cuMemPoolSetAttribute", "cuMemPoolGetAttribute", "cuMemPoolSetAccess", "cuMemPoolGetAccess",
   "cuMemPoolCreate", "cuMemPoolDestroy", "cuMemAllocFromPoolAsync",
   "cuMemPoolExportToShareableHandle", "cuMemPoolImportFromShareableHandle",
   "cuMemPoolExportPointer", "cuMemPoolImportPointer", "cuMemcpy2D_v2",
   "cuMemcpy2DUnaligned_v2", "cuMemcpy2DAsync_v2", "cuMemcpy3D_v2", "cuMemcpy3DAsync_v2",
   "cuMemcpy3DPeer", "cuMemcpy3DPeerAsync", "cuMemPrefetchAsync", "cuMemPrefetchAsync_v2",
   "cuMemRangeGetAttribute", "cuMemRangeGetAttributes", "cuImportExternalMemory",
   "cuExternalMemoryGetMappedBuffer", "cuExternalMemoryGetMappedMipmappedArray",
   "cuDestroyExternalMemory", "cuImportExternalSemaphore", "cuSignalExternalSemaphoresAsync",
   "cuWaitExternalSemaphoresAsync", "cuDestroyExternalSemaphore", "cuGraphCreate",
   "cuGraphAddKernelNode_v2", "cuGraphKernelNodeGetParams_v2", "cuGraphKernelNodeSetParams_v2",
   "cuGraphAddMemcpyNode", "cuGraphMemcpyNodeGetParams", "cuGraphMemcpyNodeSetParams",
   "cuGraphAddMemsetNode", "cuGraphMemsetNodeGetParams", "cuGraphMemsetNodeSetParams",
   "cuGraphAddHostNode", "cuGraphHostNodeGetParams", "cuGraphHostNodeSetParams",
   "cuGraphAddChildGraphNode", "cuGraphChildGraphNodeGetGraph", "cuGraphAddEmptyNode",
   "cuGraphAddEventRecordNode", "cuGraphEventRecordNodeGetEvent",
   "cuGraphEventRecordNodeSetEvent", "cuGraphAddEventWaitNode", "cuGraphEventWaitNodeGetEvent",
   "cuGraphEventWaitNodeSetEvent", "cuGraphAddExternalSemaphoresSignalNode",
   "cuGraphExternalSemaphoresSignalNodeGetParams",
   "cuGraphExternalSemaphoresSignalNodeSetParams", "cuGraphAddExternalSemaphoresWaitNode",
   "cuGraphExternalSemaphoresWaitNodeGetParams", "cuGraphExternalSemaphoresWaitNodeSetParams",
   "cuGraphExecExternalSemaphoresSignalNodeSetParams",
   "cuGraphExecExternalSemaphoresWaitNodeSetParams", "cuGraphClone", "cuGraphNodeFindInClone",
   "cuGraphNodeGetType", "cuGraphGetNodes", "cuGraphGetRootNodes", "cuGraphGetEdges",
   "cuGraphGetEdges_v2", "cuGraphNodeGetDependencies", "cuGraphNodeGetDependencies_v2",
   "cuGraphNodeGetDependentNodes", "cuGraphNodeGetDependentNodes_v2", "cuGraphAddDependencies",
   "cuGraphAddDependencies_v2", "cuGraphRemoveDependencies", "cuGraphRemoveDependencies_v2",
   "cuGraphDestroyNode", "cuGraphInstantiate", "cuGraphInstantiateWithFlags", "cuGraphUpload",
   "cuGraphLaunch", "cuGraphExecDestroy", "cuGraphDestroy", "cuGetProcAddress",
   "cuGetProcAddress_v2"]

/-- The functions of `__dlsym_hook_section` with a `DLSYM_HOOK_FUNC`: all of the table but one, and
some of them not in every build. -/
def HookTable.hookFuncs (t : HookTable) : List String :=
  cudaLibraryEntry.filter fun name =>
    name ≠ "cuGetExportTable" ∧
      (name ∈ ["cuCtxCreate_v2", "cuCtxCreate_v3"] → t.cudaVersion < 13000) ∧
      (name = "cuMemGetInfo_v2" → t.hookMeminfoEnable = true)

/-- An entry of `g_func_map`. -/
structure CudaFuncMapEntry where
  funcName : String
  minVer : ℤ
  maxVer : ℤ
  realName : String

/-- `g_func_map`. -/
def gFuncMap : List CudaFuncMapEntry :=
  [⟨"cuGraphAddKernelNode", 10000, 11999, "cuGraphAddKernelNode"⟩,
   ⟨"cuGraphAddKernelNode", 12000, 99999, "cuGraphAddKernelNode_v2"⟩,
   ⟨"cuGraphKernelNodeGetParams", 10000, 11999, "cuGraphKernelNodeGetParams"⟩,
   ⟨"cuGraphKernelNodeGetParams", 12000, 99999, "cuGraphKernelNodeGetParams_v2"⟩,
   ⟨"cuGraphKernelNodeSetParams", 10000, 11999, "cuGraphKernelNodeSetParams"⟩,
   ⟨"cuGraphKernelNodeSetParams", 12000, 99999, "cuGraphKernelNodeSetParams_v2"⟩]

/-- What the driver's `cuGetProcAddress_v2` does: its result, and what it writes to `*pfn` and
`*symbolStatus`, if it writes there. -/
structure ProcAddressAnswer where
  res : ℤ
  pfn : Option ProcPtr
  symbolStatus : Option ℤ

/-- The driver's `cuGetProcAddress_v2`: an answer for each symbol, version and flags. -/
abbrev ProcAddressDriver := List Char → ℤ → UInt64 → ProcAddressAnswer

/-- What the caller of a lookup gets: the result, `*pfn`, and `*symbolStatus` if the pointer was not
`NULL`. -/
structure ProcAddress where
  res : ℤ
  pfn : ProcPtr
  symbolStatus : Option ℤ
  deriving DecidableEq

/-! ## The tables -/

/-- `__dlsym_hook_section(NULL, symbol)`. -/
def dlsymHookSection (t : HookTable) (symbol : List Char) : ProcPtr :=
  if (cudaLibraryEntry.find? fun name => name.toList = symbol).all t.loaded then
    match t.hookFuncs.find? fun name => name.toList = symbol with
    | some name => .hook name
    | none => .null
  else .null

/-- `get_real_func_name(base_name, cuda_version)`. -/
def getRealFuncName (baseName : List Char) (cudaVersion : ℤ) : Option String :=
  (gFuncMap.find? fun entry => entry.funcName.toList = baseName ∧
    entry.minVer ≤ cudaVersion ∧ cudaVersion ≤ entry.maxVer).map CudaFuncMapEntry.realName

/-- `find_real_symbols_in_table(symbol)`. -/
def findRealSymbolsInTable (t : HookTable) (symbol : List Char) : ProcPtr :=
  dlsymHookSection t symbol

/-- `find_symbols_in_table(symbol)`.  The name with its suffix is cut at 499 characters. -/
def findSymbolsInTable (t : HookTable) (symbol : List Char) : ProcPtr :=
  if "cuGraph".toList.isPrefixOf symbol then .null
  else
    let symbolV3 := (symbol ++ "_v3".toList).take 499
    if dlsymHookSection t symbolV3 ≠ .null then dlsymHookSection t symbolV3
    else
      let symbolV2 := symbolV3.dropLast ++ ['2']
      if dlsymHookSection t symbolV2 ≠ .null then dlsymHookSection t symbolV2
      else dlsymHookSection t symbol

/-- `find_symbols_in_table_by_cudaversion(symbol, cudaVersion)`. -/
def findSymbolsInTableByCudaversion (t : HookTable) (symbol : List Char) (cudaVersion : ℤ) :
    ProcPtr :=
  match getRealFuncName symbol cudaVersion with
  | none => findSymbolsInTable t symbol
  | some realSymbol => findRealSymbolsInTable t realSymbol.toList

/-- A function with a hook is found if the driver has it. -/
theorem dlsymHookSection_toList {t : HookTable} {name : String} (hname : name ∈ t.hookFuncs)
    (hloaded : t.loaded name = true) : dlsymHookSection t name.toList = .hook name := by
  have hfind : ∀ l : List String, name ∈ l →
      (l.find? fun name' => name'.toList = name.toList) = some name := by
    intro l hl
    obtain ⟨name', hname'⟩ : ∃ name', (l.find? fun name' => name'.toList = name.toList)
        = some name' := Option.isSome_iff_exists.mp (List.find?_isSome.mpr ⟨name, hl, by simp⟩)
    have heq := List.find?_some hname'
    rw [hname', String.toList_inj.mp (of_decide_eq_true heq)]
  rw [dlsymHookSection, hfind _ (List.mem_filter.mp hname).1, Option.all_some, if_pos hloaded,
    hfind _ hname]

/-! ## The two lookups -/

section Lookups

variable (t : HookTable) (driver : ProcAddressDriver) (symbol : List Char) (cudaVersion : ℤ)
  (flags : UInt64) (symbolStatus : Option ℤ)

/-- The driver's `cuGetProcAddress_v2`, called with the address of `pfn`. -/
def driverGetProcAddressV2 (pfn : ProcPtr) : ProcAddress :=
  let answer := driver symbol cudaVersion flags
  ⟨answer.res, answer.pfn.getD pfn, symbolStatus.map fun old => answer.symbolStatus.getD old⟩

/-- `_cuGetProcAddress_v2`. -/
def _cuGetProcAddressV2 : ProcAddress :=
  let pfn := findSymbolsInTableByCudaversion t symbol cudaVersion
  if pfn = .null then driverGetProcAddressV2 driver symbol cudaVersion flags symbolStatus pfn
  else ⟨0, pfn, symbolStatus⟩

/-- `cuGetProcAddress_v2`. -/
def cuGetProcAddressV2 : ProcAddress :=
  let pfn := findSymbolsInTableByCudaversion t symbol cudaVersion
  if symbol = "cuGetProcAddress_v2".toList then
    let out := driverGetProcAddressV2 driver symbol cudaVersion flags symbolStatus pfn
    if out.res = 0 then { out with pfn := .getProcAddressV2 } else out
  else if pfn = .null then
    driverGetProcAddressV2 driver symbol cudaVersion flags symbolStatus pfn
  else
    -- the driver is asked for the status only, and stores its pointer elsewhere
    { driverGetProcAddressV2 driver symbol cudaVersion flags symbolStatus .null with pfn := pfn }

/-- The driver succeeds, and does not change `*symbolStatus`. -/
def ProcAddressAnswer.Silent (answer : ProcAddressAnswer) : Prop :=
  answer.res = 0 ∧ ∀ old ∈ symbolStatus, ∀ new ∈ answer.symbolStatus, new = old

variable {t driver symbol cudaVersion flags symbolStatus}

/-- Where the tables have no hook, both lookups are the driver's. -/
theorem getProcAddress_of_null (hsymbol : symbol ≠ "cuGetProcAddress_v2".toList)
    (hnull : findSymbolsInTableByCudaversion t symbol cudaVersion = .null) :
    cuGetProcAddressV2 t driver symbol cudaVersion flags symbolStatus
      = _cuGetProcAddressV2 t driver symbol cudaVersion flags symbolStatus := by
  simp only [cuGetProcAddressV2, _cuGetProcAddressV2, hnull, if_neg hsymbol, if_true]

/-- Where they have one, both return it, one with the driver's result and status and the other with
success and the status as it was. -/
theorem getProcAddress_of_ne_null (hsymbol : symbol ≠ "cuGetProcAddress_v2".toList)
    (hnull : findSymbolsInTableByCudaversion t symbol cudaVersion ≠ .null) :
    cuGetProcAddressV2 t driver symbol cudaVersion flags symbolStatus
        = ⟨(driver symbol cudaVersion flags).res,
            findSymbolsInTableByCudaversion t symbol cudaVersion,
            symbolStatus.map (driver symbol cudaVersion flags).symbolStatus.getD⟩ ∧
      _cuGetProcAddressV2 t driver symbol cudaVersion flags symbolStatus
        = ⟨0, findSymbolsInTableByCudaversion t symbol cudaVersion, symbolStatus⟩ := by
  constructor
  · simp only [cuGetProcAddressV2, if_neg hsymbol, if_neg hnull]
    rfl
  · simp only [_cuGetProcAddressV2, if_neg hnull]

/-- **The two lookups agree exactly if the tables have no hook, or the driver succeeds and leaves
the status alone.**  For every symbol but `cuGetProcAddress_v2`, every version, all flags and every
driver. -/
theorem procAddress_agree_iff (hsymbol : symbol ≠ "cuGetProcAddress_v2".toList) :
    cuGetProcAddressV2 t driver symbol cudaVersion flags symbolStatus
        = _cuGetProcAddressV2 t driver symbol cudaVersion flags symbolStatus ↔
      findSymbolsInTableByCudaversion t symbol cudaVersion = .null ∨
        (driver symbol cudaVersion flags).Silent symbolStatus := by
  by_cases hnull : findSymbolsInTableByCudaversion t symbol cudaVersion = .null
  · exact iff_of_true (getProcAddress_of_null hsymbol hnull) (Or.inl hnull)
  obtain ⟨hpublic, hinner⟩ :=
    @getProcAddress_of_ne_null t driver symbol cudaVersion flags symbolStatus hsymbol hnull
  rw [hpublic, hinner, ProcAddress.mk.injEq, eq_self_iff_true, true_and, or_iff_right hnull]
  refine and_congr_right fun _ => ?_
  cases symbolStatus <;> cases (driver symbol cudaVersion flags).symbolStatus <;> simp

end Lookups

/-- A build for CUDA 12 with everything found in the driver. -/
def HookTable.full : HookTable := ⟨12000, true, fun _ => true⟩

/-- A driver that has every function. -/
def ProcAddressDriver.finds : ProcAddressDriver := fun _ _ _ => ⟨0, some (.driver 4096), some 0⟩

/-- `cuGetErrorString` has no hook, so both lookups pass the driver's answer on. -/
theorem procAddress_agree_unhooked :
    cuGetProcAddressV2 .full .finds "cuGetErrorString".toList 12000 0 (some 1)
        = _cuGetProcAddressV2 .full .finds "cuGetErrorString".toList 12000 0 (some 1) ↔
      findSymbolsInTableByCudaversion .full "cuGetErrorString".toList 12000 = .null ∨
        (ProcAddressDriver.finds "cuGetErrorString".toList 12000 0).Silent (some 1) :=
  procAddress_agree_iff (by decide)

/-- `cuGraphAddKernelNode` of CUDA 12 has a hook.  One lookup sets the status to success, and the
other leaves it as it was. -/
theorem procAddress_disagree :
    cuGetProcAddressV2 .full .finds "cuGraphAddKernelNode".toList 12000 0 (some 1)
        = ⟨0, .hook "cuGraphAddKernelNode_v2", some 0⟩ ∧
      _cuGetProcAddressV2 .full .finds "cuGraphAddKernelNode".toList 12000 0 (some 1)
        = ⟨0, .hook "cuGraphAddKernelNode_v2", some 1⟩ ∧
      cuGetProcAddressV2 .full .finds "cuGraphAddKernelNode".toList 12000 0 (some 1)
        ≠ _cuGetProcAddressV2 .full .finds "cuGraphAddKernelNode".toList 12000 0 (some 1) := by
  have hreal : getRealFuncName "cuGraphAddKernelNode".toList 12000
      = some "cuGraphAddKernelNode_v2" := by decide
  have hentry : "cuGraphAddKernelNode_v2" ∈ cudaLibraryEntry := List.mem_of_getElem? (i := 158) rfl
  have hfind : findSymbolsInTableByCudaversion .full "cuGraphAddKernelNode".toList 12000
      = .hook "cuGraphAddKernelNode_v2" := by
    rw [findSymbolsInTableByCudaversion, hreal]
    exact dlsymHookSection_toList (List.mem_filter.mpr ⟨hentry, by decide⟩) rfl
  obtain ⟨hpublic, hinner⟩ := @getProcAddress_of_ne_null .full .finds
    "cuGraphAddKernelNode".toList 12000 0 (some 1) (by decide) (by rw [hfind]; decide)
  rw [hpublic, hinner, hfind]
  decide

end HamiCore
