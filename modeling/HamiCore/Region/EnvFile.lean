import HamiCore.Library.Lines
import HamiCore.Region.Attach

/-!
# The file that overrides the environment

`load_env_from_file` reads `/overrideEnv` with `fgets` into a buffer of ten thousand bytes and puts
every line `name=value` into the environment of the process, over what is there.  It stops at the
first line that has no `=`: an empty line or a comment ends the file.  A line that is too long for
the buffer comes in pieces, and its second piece usually has no `=` either.

`shrreg_tool --create_new` reads this file before it initialises the region, so the limits of the
container can be written down in it; `createNew_limit` follows them from there into the region.
-/

namespace HamiCore

/-- The environment of a process, as `getenv` reads it. -/
abbrev Environ := List Char → Option (List Char)

/-- `setenv(name, value, 1)`, which refuses a name that is empty or has a `=`. -/
def setenv (name value : List Char) (env : Environ) : Environ :=
  if name = [] ∨ '=' ∈ name then env else Function.update env name (some value)

/-- The loop over `cursor`: what stands before the first `=` and behind it. -/
def splitAtEquals : List Char → Option (List Char × List Char)
  | [] => none
  | c :: cs =>
    if c = '=' then some ([], cs) else (splitAtEquals cs).map fun nv => (c :: nv.1, nv.2)

/-- What `load_env_from_file` does with a line that has a `=`. -/
def setFromLine (tmp : List Char) (env : Environ) : Environ :=
  let line := if tmp.getLast? = some '\n' then tmp.dropLast else tmp
  match splitAtEquals line with
  | some (name, value) => setenv name value env
  | none => env

/-- `sizeof(tmp)`. -/
def envLineSize : ℕ := 10000

/-- The loop over the lines of the file. -/
def readEnvLines (file : List Char) (env : Environ) : Environ :=
  if file = [] then env
  else
    let tmp := cString (fgets (envLineSize - 1) file).1
    if '=' ∈ tmp then readEnvLines (fgets (envLineSize - 1) file).2 (setFromLine tmp env) else env
termination_by file.length
decreasing_by exact length_fgets_lt (by decide) ‹_›

/-- `load_env_from_file(filename)`, where `f` is what the file contains if `fopen` opens it. -/
def loadEnvFromFile (f : Option (List Char)) (env : Environ) : Environ :=
  match f with
  | none => env
  | some file => readEnvLines file env

/-! ## One line -/

theorem splitAtEquals_append {name : List Char} (hname : '=' ∉ name) (value : List Char) :
    splitAtEquals (name ++ '=' :: value) = some (name, value) := by
  induction name with
  | nil => rfl
  | cons c cs ih =>
    obtain ⟨hc, hcs⟩ := not_or.mp (mt List.mem_cons.mpr hname)
    rw [List.cons_append, splitAtEquals, if_neg (Ne.symm hc), ih hcs, Option.map_some]

/-- The parts of a split string, with the `=` between them, are the string. -/
theorem eq_of_splitAtEquals {line name value : List Char}
    (h : splitAtEquals line = some (name, value)) : line = name ++ '=' :: value := by
  induction line generalizing name with
  | nil => cases h
  | cons c cs ih =>
    rw [splitAtEquals] at h
    by_cases hc : c = '='
    · rw [if_pos hc] at h
      obtain ⟨rfl, rfl⟩ := Prod.mk.inj (Option.some.inj h)
      rw [hc, List.nil_append]
    · rw [if_neg hc, Option.map_eq_some_iff] at h
      obtain ⟨⟨n, v⟩, hsplit, hparts⟩ := h
      obtain ⟨rfl, rfl⟩ := Prod.mk.inj hparts
      rw [ih hsplit, List.cons_append]

/-- A line with its newline, and one without. -/
theorem setFromLine_newline {name value : List Char} (hname : '=' ∉ name) (env : Environ) :
    setFromLine (name ++ '=' :: value ++ ['\n']) env = setenv name value env := by
  have hlast : (name ++ '=' :: value ++ ['\n']).getLast? = some '\n' := List.getLast?_concat
  rw [setFromLine, if_pos hlast, List.dropLast_concat, splitAtEquals_append hname]

theorem setFromLine_bare {name value : List Char} (hname : '=' ∉ name) (hvalue : '\n' ∉ value)
    (env : Environ) : setFromLine (name ++ '=' :: value) env = setenv name value env := by
  have hlast : (name ++ '=' :: value).getLast? ≠ some '\n' := by
    intro h
    rw [List.getLast?_append_of_ne_nil _ (List.cons_ne_nil _ _)] at h
    have hmem := List.mem_of_getLast? h
    rw [List.mem_cons] at hmem
    exact hmem.elim (by decide) hvalue
  rw [setFromLine, if_neg hlast, splitAtEquals_append hname]

/-- A line sets at most one variable, to what it says behind the name. -/
theorem setFromLine_cases (tmp : List Char) (env : Environ) (name : List Char) :
    setFromLine tmp env name = env name ∨ name ≠ [] ∧ '=' ∉ name ∧
      ∃ value, setFromLine tmp env name = some value ∧ (name ++ '=' :: value) <:+: tmp := by
  have hline : (if tmp.getLast? = some '\n' then tmp.dropLast else tmp) <+: tmp := by
    split_ifs
    · exact tmp.dropLast_prefix
    · exact List.prefix_rfl
  rw [setFromLine]
  generalize (if tmp.getLast? = some '\n' then tmp.dropLast else tmp) = line at hline
  cases hsplit : splitAtEquals line with
  | none => exact Or.inl rfl
  | some nv =>
    obtain ⟨n, v⟩ := nv
    show setenv n v env name = env name ∨ _ ∧ _ ∧ ∃ value, setenv n v env name = some value ∧ _
    rw [setenv]
    split_ifs with hrefused
    · exact Or.inl rfl
    · by_cases hn : name = n
      · subst hn
        obtain ⟨hname, hnoeq⟩ := not_or.mp hrefused
        refine Or.inr ⟨hname, hnoeq, v, Function.update_self _ _ _, ?_⟩
        rw [← eq_of_splitAtEquals hsplit]
        exact hline.isInfix
      · exact Or.inl (Function.update_of_ne hn _ _)

/-! ## The loop -/

/-- A round of the loop that goes on. -/
theorem readEnvLines_of_mem {file : List Char} (hne : file ≠ [])
    (hequals : '=' ∈ cString (fgets (envLineSize - 1) file).1) (env : Environ) :
    readEnvLines file env = readEnvLines (fgets (envLineSize - 1) file).2
      (setFromLine (cString (fgets (envLineSize - 1) file).1) env) := by
  rw [readEnvLines, if_neg hne]
  simp only [if_pos hequals]

/-- A round of the loop that ends it. -/
theorem readEnvLines_of_notMem {file : List Char}
    (hequals : '=' ∉ cString (fgets (envLineSize - 1) file).1) (env : Environ) :
    readEnvLines file env = env := by
  rw [readEnvLines]
  by_cases hnil : file = []
  · rw [if_pos hnil]
  · rw [if_neg hnil]
    simp only [if_neg hequals]

/-- A line that is read whole and has a `=`. -/
theorem readEnvLines_line {line rest tmp : List Char}
    (hread : fgets (envLineSize - 1) (line ++ rest) = (tmp, rest)) (hnul : '\x00' ∉ tmp)
    (hequals : '=' ∈ tmp) (env : Environ) :
    readEnvLines (line ++ rest) env = readEnvLines rest (setFromLine tmp env) := by
  have hne : line ++ rest ≠ [] := by
    intro h
    rw [h] at hread
    have hnil : tmp = [] := (congrArg Prod.fst hread).symm
    rw [hnil] at hequals
    cases hequals
  rw [readEnvLines_of_mem hne, hread, cString_of_notMem hnul]
  rwa [hread, cString_of_notMem hnul]

/-- **A line without `=` ends the file**, whatever follows. -/
theorem readEnvLines_stop {tail : List Char} (h : '=' ∉ tail.takeWhile (· ≠ '\n'))
    (env : Environ) : readEnvLines tail env = env :=
  readEnvLines_of_notMem (fun hmem =>
    h (mem_fgets ((cString_isPrefix _).subset hmem) (by decide))) env

/-- What the file sets is written in it. -/
theorem readEnvLines_cases (file : List Char) (env : Environ) (name : List Char) :
    readEnvLines file env name = env name ∨ name ≠ [] ∧ '=' ∉ name ∧
      ∃ value, readEnvLines file env name = some value ∧ (name ++ '=' :: value) <:+: file := by
  induction file, env using readEnvLines.induct with
  | case1 env => exact Or.inl (by rw [readEnvLines, if_pos rfl])
  | case2 file env hne tmp hequals ih =>
    have hfile := fgets_append (envLineSize - 1) file
    rw [readEnvLines_of_mem hne hequals]
    rcases ih with hkept | ⟨hname, hnoeq, value, hvalue, hinfix⟩
    · -- a later line does not set it: this one does, or none
      rw [hkept]
      rcases setFromLine_cases tmp env name with hold | ⟨hname, hnoeq, value, hvalue, hinfix⟩
      · exact Or.inl hold
      · refine Or.inr ⟨hname, hnoeq, value, hvalue, hinfix.trans ?_⟩
        exact (cString_isPrefix _).isInfix.trans ⟨[], (fgets (envLineSize - 1) file).2, hfile⟩
    · refine Or.inr ⟨hname, hnoeq, value, hvalue, hinfix.trans ?_⟩
      exact ⟨(fgets (envLineSize - 1) file).1, [], by rw [List.append_nil, hfile]⟩
  | case3 file env hne tmp hequals => exact Or.inl (by rw [readEnvLines_of_notMem hequals])

/-- **Whatever the file sets is written in it.**  A variable keeps its value, or it has a name and
the file somewhere says `name=value`; and without the file nothing changes. -/
theorem env_file_written {f : Option (List Char)} {env : Environ} {name : List Char}
    (hset : loadEnvFromFile f env name ≠ env name) :
    name ≠ [] ∧ '=' ∉ name ∧ ∃ file value, f = some file ∧
      loadEnvFromFile f env name = some value ∧ (name ++ '=' :: value) <:+: file := by
  cases f with
  | none => exact absurd rfl hset
  | some file =>
    rcases readEnvLines_cases file env name with hold | ⟨hname, hequals, value, hvalue, hinfix⟩
    · exact absurd hold hset
    · exact ⟨hname, hequals, file, value, rfl, hvalue, hinfix⟩

/-- A value with a `=` in it, on a line behind one without a name. -/
theorem env_file_written_secondLine :
    "A".toList ≠ [] ∧ '=' ∉ "A".toList ∧ ∃ file value, some "=x\nA=b=c\n".toList = some file ∧
      loadEnvFromFile (some "=x\nA=b=c\n".toList) (fun _ => none) "A".toList = some value ∧
        ("A".toList ++ '=' :: value) <:+: file := by
  refine env_file_written ?_
  have hload : loadEnvFromFile (some "=x\nA=b=c\n".toList) (fun _ => none) "A".toList
      = some "b=c".toList := by
    rw [loadEnvFromFile, readEnvLines_of_mem (by decide) (by decide),
      readEnvLines_of_mem (by decide) (by decide), readEnvLines_of_notMem (by decide)]
    decide
  rw [hload]
  exact Option.some_ne_none _

/-! ## Files that are written as they are read -/

/-- A variable and its value that fit on a line of the file. -/
structure EnvBinding where
  name : List Char
  value : List Char
  name_ne_nil : name ≠ []
  equals_notMem : '=' ∉ name
  newline_notMem : '\n' ∉ name ++ value
  nul_notMem : '\x00' ∉ name ++ value
  fits : name.length + value.length + 2 < envLineSize

namespace EnvBinding

/-- `name=value`. -/
def text (b : EnvBinding) : List Char := b.name ++ '=' :: b.value

/-- The same with its newline. -/
def line (b : EnvBinding) : List Char := b.text ++ ['\n']

theorem newline_notMem_text (b : EnvBinding) : '\n' ∉ b.text := by
  have h := b.newline_notMem
  simp only [text, List.mem_append, List.mem_cons, not_or] at h ⊢
  exact ⟨h.1, by decide, h.2⟩

theorem nul_notMem_text (b : EnvBinding) : '\x00' ∉ b.text := by
  have h := b.nul_notMem
  simp only [text, List.mem_append, List.mem_cons, not_or] at h ⊢
  exact ⟨h.1, by decide, h.2⟩

theorem length_text (b : EnvBinding) : b.text.length = b.name.length + b.value.length + 1 := by
  rw [text, List.length_append, List.length_cons, Nat.add_assoc]

theorem equals_mem_text (b : EnvBinding) : '=' ∈ b.text := by simp [text]

/-- Set the variable. -/
def set (env : Environ) (b : EnvBinding) : Environ := Function.update env b.name (some b.value)

theorem setenv_eq (b : EnvBinding) (env : Environ) : setenv b.name b.value env = b.set env := by
  rw [setenv, if_neg (not_or.mpr ⟨b.name_ne_nil, b.equals_notMem⟩), set]

/-- A line of the file is read as the binding written on it. -/
theorem readEnvLines_line (b : EnvBinding) (rest : List Char) (env : Environ) :
    readEnvLines (b.line ++ rest) env = readEnvLines rest (b.set env) := by
  have hfits : b.text.length < envLineSize - 1 := by
    have := b.fits
    rw [length_text]
    omega
  have hread : fgets (envLineSize - 1) (b.line ++ rest) = (b.line, rest) := by
    rw [line, List.append_assoc, List.singleton_append]
    exact fgets_line b.newline_notMem_text hfits rest
  have hnul : '\x00' ∉ b.line := by
    simp only [line, List.mem_append, List.mem_singleton, not_or]
    exact ⟨b.nul_notMem_text, by decide⟩
  rw [HamiCore.readEnvLines_line hread hnul (List.mem_append_left _ b.equals_mem_text), line, text,
    setFromLine_newline b.equals_notMem, setenv_eq]

/-- So is the last line, if its newline is missing. -/
theorem readEnvLines_last (b : EnvBinding) (env : Environ) :
    readEnvLines b.text env = b.set env := by
  have hfits : b.text.length ≤ envLineSize - 1 := by
    have := b.fits
    rw [length_text]
    omega
  have hread : fgets (envLineSize - 1) (b.text ++ []) = (b.text, []) := by
    rw [List.append_nil, fgets_last b.newline_notMem_text hfits]
  have hstep := HamiCore.readEnvLines_line hread b.nul_notMem_text b.equals_mem_text env
  rw [List.append_nil] at hstep
  have hvalue : '\n' ∉ b.value := fun h => b.newline_notMem (List.mem_append_right _ h)
  rw [hstep, readEnvLines, if_pos rfl, text, setFromLine_bare b.equals_notMem hvalue, setenv_eq]

/-- Lines are read one after the other. -/
theorem readEnvLines_lines (bs : List EnvBinding) (rest : List Char) (env : Environ) :
    readEnvLines (bs.flatMap line ++ rest) env = readEnvLines rest (bs.foldl set env) := by
  induction bs generalizing env with
  | nil => rfl
  | cons b bs ih =>
    rw [List.flatMap_cons, List.append_assoc, readEnvLines_line, ih, List.foldl_cons]

/-- The last binding of a variable decides. -/
theorem foldl_set (bs : List EnvBinding) (env : Environ) (name : List Char) :
    bs.foldl set env name = (((bs.reverse.find? (·.name = name)).map value).or (env name)) := by
  induction bs using List.reverseRecOn with
  | nil => rfl
  | append_singleton bs b ih =>
    rw [List.foldl_concat, List.reverse_append, List.reverse_singleton, List.singleton_append, set]
    by_cases hname : b.name = name
    · subst hname
      rw [Function.update_self, List.find?_cons_of_pos (by simp)]
      rfl
    · rw [Function.update_of_ne (Ne.symm hname), ih, List.find?_cons_of_neg (by simpa using hname)]

end EnvBinding

/-- The lines before the first one without `=`, and nothing else. -/
theorem loadEnvFromFile_lines (bs : List EnvBinding) {tail : List Char}
    (htail : '=' ∉ tail.takeWhile (· ≠ '\n')) (env : Environ) :
    loadEnvFromFile (some (bs.flatMap EnvBinding.line ++ tail)) env
      = bs.foldl EnvBinding.set env := by
  rw [loadEnvFromFile, EnvBinding.readEnvLines_lines, readEnvLines_stop htail]

/-- **Bindings are read as they are written.**  A variable gets the last value that the lines before
the first one without `=` give it, and keeps its own where they give it none.  What follows that
line does not matter, and the newline at the end of the file may be missing. -/
theorem env_file_bindings (bs : List EnvBinding) (env : Environ) :
    (∀ tail : List Char, '=' ∉ tail.takeWhile (· ≠ '\n') → ∀ name,
      loadEnvFromFile (some (bs.flatMap EnvBinding.line ++ tail)) env name
        = ((bs.reverse.find? (·.name = name)).map EnvBinding.value).or (env name)) ∧
    ∀ b : EnvBinding, loadEnvFromFile (some (bs.flatMap EnvBinding.line ++ b.text)) env
      = loadEnvFromFile (some ((bs ++ [b]).flatMap EnvBinding.line)) env := by
  constructor
  · intro tail htail name
    rw [loadEnvFromFile_lines bs htail, EnvBinding.foldl_set]
  · intro b
    rw [loadEnvFromFile, EnvBinding.readEnvLines_lines, EnvBinding.readEnvLines_last,
      ← List.append_nil ((bs ++ [b]).flatMap EnvBinding.line), loadEnvFromFile_lines _ (by simp),
      List.foldl_concat]

/-- The device order is set twice, and a comment hides the third line. -/
theorem env_file_bindings_comment :
    ∃ order byBus : EnvBinding, order.text = "CUDA_DEVICE_ORDER=FASTEST_FIRST".toList ∧
      byBus.text = "CUDA_DEVICE_ORDER=PCI_BUS_ID".toList ∧
      loadEnvFromFile (some ([order, byBus].flatMap EnvBinding.line ++ "# end\nA=1\n".toList))
        (fun _ => none) "CUDA_DEVICE_ORDER".toList = some "PCI_BUS_ID".toList := by
  let order : EnvBinding := ⟨"CUDA_DEVICE_ORDER".toList, "FASTEST_FIRST".toList, by decide,
    by decide, by decide, by decide, by decide⟩
  let byBus : EnvBinding := ⟨"CUDA_DEVICE_ORDER".toList, "PCI_BUS_ID".toList, by decide,
    by decide, by decide, by decide, by decide⟩
  refine ⟨order, byBus, rfl, rfl, ?_⟩
  rw [(env_file_bindings [order, byBus] _).1 _ (by decide)]
  rfl

/-- **A line that fills the buffer ends the file.**  Its value is cut to what the buffer holds, and
the next call reads the rest of it, in which there is no `=`. -/
theorem env_file_long_line (bs : List EnvBinding) {name value : List Char}
    (hname : name ≠ []) (hequals : '=' ∉ name ++ value)
    (hline : ∀ c ∈ name ++ value, c ≠ '\n' ∧ c ≠ '\x00')
    (hstart : name.length + 1 < envLineSize)
    (hlong : envLineSize ≤ name.length + value.length + 2) (rest : List Char) (env : Environ) :
    loadEnvFromFile
        (some (bs.flatMap EnvBinding.line ++ (name ++ '=' :: value ++ '\n' :: rest))) env
      = Function.update (bs.foldl EnvBinding.set env) name
          (some (value.take (envLineSize - 2 - name.length))) := by
  obtain ⟨hnameEq, hvalueEq⟩ := not_or.mp (mt List.mem_append.mpr hequals)
  have hlen : (name ++ '=' :: value).length = name.length + value.length + 1 := by
    rw [List.length_append, List.length_cons, Nat.add_assoc]
  have hchar : ∀ c ∈ name ++ '=' :: value, c ≠ '\n' ∧ c ≠ '\x00' := by
    intro c hc
    rcases List.mem_append.mp hc with hc | hc
    · exact hline c (List.mem_append_left _ hc)
    · rcases List.mem_cons.mp hc with rfl | hc
      · decide
      · exact hline c (List.mem_append_right _ hc)
  -- the first call fills the buffer
  have hread := fgets_long (n := envLineSize - 1) (fun h => (hchar _ h).1 rfl)
    (by rw [hlen]; omega) ('\n' :: rest)
  have htake : (name ++ '=' :: value).take (envLineSize - 1)
      = name ++ '=' :: value.take (envLineSize - 2 - name.length) := by
    have hroom : envLineSize - 1 - name.length = envLineSize - 2 - name.length + 1 := by omega
    rw [List.take_append, List.take_of_length_le (by omega), hroom, List.take_succ_cons]
  have hdrop : (name ++ '=' :: value).drop (envLineSize - 1)
      = value.drop (envLineSize - 2 - name.length) := by
    have hroom : envLineSize - 1 - name.length = envLineSize - 2 - name.length + 1 := by omega
    rw [List.drop_append, List.drop_of_length_le (by omega), hroom, List.drop_succ_cons,
      List.nil_append]
  rw [htake, hdrop] at hread
  have hnul : '\x00' ∉ name ++ '=' :: value.take (envLineSize - 2 - name.length) := fun h =>
    (hchar _ ((htake ▸ List.take_subset _ _) h)).2 rfl
  have hvalue : '\n' ∉ value.take (envLineSize - 2 - name.length) := fun h =>
    (hline _ (List.mem_append_right _ (List.mem_of_mem_take h))).1 rfl
  -- and the second one finds no `=`
  have hstop : '=' ∉ (value.drop (envLineSize - 2 - name.length) ++ '\n' :: rest).takeWhile
      (· ≠ '\n') := by
    have hnone : ∀ c ∈ value.drop (envLineSize - 2 - name.length), (decide (c ≠ '\n')) = true :=
      fun c hc => decide_eq_true (hline c (List.mem_append_right _ (List.mem_of_mem_drop hc))).1
    rw [List.takeWhile_append_of_pos hnone, List.takeWhile_cons_of_neg (by simp), List.append_nil]
    exact fun h => hvalueEq (List.mem_of_mem_drop h)
  rw [loadEnvFromFile, EnvBinding.readEnvLines_lines,
    readEnvLines_of_mem (by simp) (by rw [hread, cString_of_notMem hnul]; simp), hread,
    cString_of_notMem hnul, readEnvLines_stop hstop, setFromLine_bare hnameEq hvalue, setenv,
    if_neg (not_or.mpr ⟨hname, hnameEq⟩)]

/-- A value of ten thousand characters. -/
theorem env_file_long_line_tenThousand :
    loadEnvFromFile (some (([] : List EnvBinding).flatMap EnvBinding.line ++
        ("A".toList ++ '=' :: List.replicate 10000 'x' ++ '\n' :: "B=1\n".toList))) (fun _ => none)
      = Function.update (([] : List EnvBinding).foldl EnvBinding.set fun _ => none) "A".toList
          (some ((List.replicate 10000 'x').take (envLineSize - 2 - 1))) := by
  have hmem : ∀ c ∈ "A".toList ++ List.replicate 10000 'x', c = 'A' ∨ c = 'x' := by
    intro c hc
    rcases List.mem_append.mp hc with hc | hc
    · exact Or.inl (List.mem_singleton.mp hc)
    · exact Or.inr (List.eq_of_mem_replicate hc)
  refine env_file_long_line [] (by decide) (fun h => ?_) (fun c hc => ?_) (by decide) ?_ _ _
  · exact absurd (hmem '=' h) (by decide)
  · rcases hmem c hc with rfl | rfl <;> decide
  · rw [List.length_replicate]
    decide

/-! ## Limits that are written down in the file -/

/-- The number as it is printed. -/
def DecimalNumeral.ofNat (n : ℕ) : DecimalNumeral where
  digits := Nat.toDigits 10 n
  ne_nil := Nat.toDigits_ne_nil
  isDigit _ hc := Nat.isDigit_of_mem_toDigits (by decide) (by decide) hc
  noLeadingZero := by
    induction n using Nat.strong_induction_on with
    | _ n ih =>
      rcases Nat.lt_or_ge n 10 with hn | hn
      · have hdigit : ∀ n < 10, [n.digitChar] = ['0'] ∨ [n.digitChar].head? ≠ some '0' := by
          decide
        rw [Nat.toDigits_of_lt_base hn]
        exact hdigit n hn
      · have hhead := ih (n / 10) (by omega)
        rw [Nat.toDigits_of_base_le (by decide) hn,
          List.head?_append_of_ne_nil _ Nat.toDigits_ne_nil]
        refine Or.inr ?_
        rcases hhead with hzero | hhead
        · -- the digits of `n / 10`, which is not 0
          have hvalue := Nat.ofDigitChars_ten_toDigits (n := n / 10)
          rw [hzero] at hvalue
          exact absurd hvalue (by simp [Nat.ofDigitChars]; omega)
        · exact hhead

@[simp] theorem DecimalNumeral.value_ofNat (n : ℕ) : (DecimalNumeral.ofNat n).value = n :=
  Nat.ofDigitChars_ten_toDigits

/-- A limit in the documented form whose value fits in 64 bits is read as that. -/
theorem toNat_getLimitFromEnv_limitString {n : DecimalNumeral} {suffix : Option LimitSuffix}
    (hfits : limitValue n suffix < 2 ^ 64) :
    (getLimitFromEnv (some (limitString n suffix))).toNat = limitValue n suffix := by
  obtain ⟨last, hlast, hscale⟩ := limitString_getLast n suffix
  have hpos : 0 < (suffix.map LimitSuffix.scale).getD 1 := hscale ▸ limitScalar_pos last
  have hnum : n.value < 2 ^ 64 :=
    Nat.lt_of_le_of_lt (Nat.le_mul_of_pos_right _ hpos) hfits
  have hread : (strtoul (limitString n suffix)).toNat = n.value := by
    rw [toNat_strtoul, signedNumber_limitString, if_neg (Nat.not_le.mpr hnum)]
    simp
  rw [toNat_getLimitFromEnv hlast, hscale, hread]
  exact if_pos hfits

/-- A memory limit as it is written down: a number of 64 bits, and a unit where there is one. -/
structure LimitSetting where
  number : ℕ
  suffix : Option LimitSuffix
  fits : limitValue (DecimalNumeral.ofNat number) suffix < 2 ^ 64

namespace LimitSetting

/-- The number of bytes. -/
def bytes (s : LimitSetting) : ℕ := limitValue (DecimalNumeral.ofNat s.number) s.suffix

/-- What is written behind the `=`. -/
def text (s : LimitSetting) : List Char := limitString (DecimalNumeral.ofNat s.number) s.suffix

theorem number_lt (s : LimitSetting) : s.number < 10 ^ 20 := by
  have hpos : 0 < (s.suffix.map LimitSuffix.scale).getD 1 := by
    cases s.suffix with
    | none => decide
    | some u => exact Nat.lt_of_lt_of_le (by decide) u.two_le_scale
  have hfits := s.fits
  rw [limitValue, DecimalNumeral.value_ofNat] at hfits
  exact Nat.lt_of_le_of_lt (Nat.le_mul_of_pos_right _ hpos) (Nat.lt_trans hfits (by decide))

theorem length_text (s : LimitSetting) : s.text.length ≤ 21 := by
  have hdigits : (Nat.toDigits 10 s.number).length ≤ 20 :=
    (Nat.length_toDigits_le_iff (by decide) (by decide)).mpr s.number_lt
  have hunit : (s.suffix.map LimitSuffix.char).toList.length ≤ 1 := by
    cases s.suffix <;> simp
  rw [text, limitString, List.length_append]
  exact Nat.add_le_add hdigits hunit

/-- Digits and a letter are neither a newline nor a NUL. -/
theorem mem_text {s : LimitSetting} {c : Char} (hc : c ∈ s.text) : c ≠ '\n' ∧ c ≠ '\x00' := by
  rcases List.mem_append.mp hc with hc | hc
  · have hdigit := (DecimalNumeral.ofNat s.number).isDigit c hc
    constructor <;> rintro rfl <;> exact absurd hdigit (by decide)
  · obtain ⟨u, -, rfl⟩ : ∃ u, s.suffix = some u ∧ u.char = c := by simpa using hc
    cases u <;> decide

end LimitSetting

/-- The characters of a key. -/
theorem mem_deviceMemoryLimitKey {i : ℕ} {c : Char} (hc : c ∈ deviceMemoryLimitKey i) :
    c ≠ '=' ∧ c ≠ '\n' ∧ c ≠ '\x00' := by
  rcases List.mem_append.mp (List.mem_of_mem_take hc) with hc | hc
  · have hall : cudaDeviceMemoryLimit.all fun c => c ≠ '=' ∧ c ≠ '\n' ∧ c ≠ '\x00' := by decide
    simpa using List.all_eq_true.mp hall c hc
  · rcases List.mem_cons.mp hc with rfl | hc
    · decide
    · have hdigit := Nat.isDigit_of_mem_toDigits (b := 10) (by decide) (by decide) hc
      refine ⟨?_, ?_, ?_⟩ <;> rintro rfl <;> exact absurd hdigit (by decide)

/-- The buffer holds the keys of the devices there can be. -/
theorem deviceMemoryLimitKey_eq {i : ℕ} (hi : i < cudaDeviceMaxCount) :
    deviceMemoryLimitKey i = cudaDeviceMemoryLimit ++ '_' :: Nat.toDigits 10 i := by
  have hdigits : (Nat.toDigits 10 i).length ≤ 2 :=
    (Nat.length_toDigits_le_iff (by decide) (by decide)).mpr (Nat.lt_trans hi (by decide))
  have hlen : cudaDeviceMemoryLimit.length = 24 := by decide
  apply List.take_of_length_le
  rw [List.length_append, List.length_cons, hlen, cudaDeviceMemoryLimitKeyLength]
  omega

/-- They are different, and none is the common one. -/
theorem deviceMemoryLimitKey_inj {i j : ℕ} (hi : i < cudaDeviceMaxCount)
    (hj : j < cudaDeviceMaxCount) (h : deviceMemoryLimitKey i = deviceMemoryLimitKey j) :
    i = j := by
  rw [deviceMemoryLimitKey_eq hi, deviceMemoryLimitKey_eq hj] at h
  have hdigits := (List.cons.inj (List.append_cancel_left h)).2
  rw [← Nat.ofDigitChars_ten_toDigits (n := i), hdigits, Nat.ofDigitChars_ten_toDigits]

theorem deviceMemoryLimitKey_ne (i : ℕ) : deviceMemoryLimitKey i ≠ cudaDeviceMemoryLimit := by
  intro h
  have hlen : cudaDeviceMemoryLimit.length = 24 := by decide
  have hkey := congrArg List.length h
  rw [deviceMemoryLimitKey, List.length_take, List.length_append, List.length_cons, hlen,
    cudaDeviceMemoryLimitKeyLength] at hkey
  omega

/-- The line of device `i`. -/
def LimitSetting.binding (i : ℕ) (s : LimitSetting) : EnvBinding where
  name := deviceMemoryLimitKey i
  value := s.text
  name_ne_nil h := by
    have hlen : cudaDeviceMemoryLimit.length = 24 := by decide
    have hkey := congrArg List.length h
    rw [deviceMemoryLimitKey, List.length_take, List.length_append, List.length_cons, hlen,
      cudaDeviceMemoryLimitKeyLength, List.length_nil] at hkey
    omega
  equals_notMem h := (mem_deviceMemoryLimitKey h).1 rfl
  newline_notMem h := (List.mem_append.mp h).elim (fun h => (mem_deviceMemoryLimitKey h).2.1 rfl)
    fun h => (LimitSetting.mem_text h).1 rfl
  nul_notMem h := (List.mem_append.mp h).elim (fun h => (mem_deviceMemoryLimitKey h).2.2 rfl)
    fun h => (LimitSetting.mem_text h).2 rfl
  fits := by
    have hname : (deviceMemoryLimitKey i).length ≤ cudaDeviceMemoryLimitKeyLength - 1 :=
      List.length_take_le _ _
    have hvalue := s.length_text
    rw [cudaDeviceMemoryLimitKeyLength] at hname
    rw [envLineSize]
    omega

/-- The file with a limit for each of the first devices. -/
def limitFile (settings : List LimitSetting) : List Char :=
  (settings.mapIdx LimitSetting.binding).flatMap EnvBinding.line

/-- Each device has the value of its own line, and the common limit is not in the file. -/
theorem foldl_limitFile {settings : List LimitSetting}
    (hlen : settings.length ≤ cudaDeviceMaxCount) (env : Environ) {i : ℕ}
    (hi : i < cudaDeviceMaxCount) :
    (settings.mapIdx LimitSetting.binding).foldl EnvBinding.set env (deviceMemoryLimitKey i)
      = (settings[i]?.map LimitSetting.text).or (env (deviceMemoryLimitKey i)) := by
  induction settings using List.reverseRecOn with
  | nil => rfl
  | append_singleton settings s ih =>
    rw [List.length_append, List.length_singleton] at hlen
    rw [List.mapIdx_concat, List.foldl_concat, EnvBinding.set]
    rcases Nat.lt_trichotomy i settings.length with hlt | rfl | hgt
    · have hkey : deviceMemoryLimitKey i ≠ (LimitSetting.binding settings.length s).name := fun h =>
        hlt.ne (deviceMemoryLimitKey_inj hi hlen h)
      rw [Function.update_of_ne hkey, ih (Nat.le_of_lt hlen), List.getElem?_append_left hlt]
    · rw [List.getElem?_concat_length]
      exact Function.update_self _ _ _
    · have hkey : deviceMemoryLimitKey i ≠ (LimitSetting.binding settings.length s).name := fun h =>
        hgt.ne' (deviceMemoryLimitKey_inj hi hlen h)
      have hnone : (settings ++ [s])[i]? = none := by
        rw [List.getElem?_eq_none_iff, List.length_append, List.length_singleton]
        exact hgt
      rw [Function.update_of_ne hkey, ih (Nat.le_of_lt hlen), hnone,
        List.getElem?_eq_none (Nat.le_of_lt hgt)]

theorem foldl_limitFile_common (settings : List LimitSetting) (env : Environ) :
    (settings.mapIdx LimitSetting.binding).foldl EnvBinding.set env cudaDeviceMemoryLimit
      = env cudaDeviceMemoryLimit := by
  induction settings using List.reverseRecOn with
  | nil => rfl
  | append_singleton settings s ih =>
    rw [List.mapIdx_concat, List.foldl_concat, ← ih]
    exact Function.update_of_ne (deviceMemoryLimitKey_ne _).symm _ _

/-- What the initialisation stores for a device. -/
theorem doInitDeviceMemoryLimits_getD (getenv : Environ) (dev : Dev) :
    (doInitDeviceMemoryLimits getenv cudaDeviceMaxCount).getD dev 0
      = if getLimitFromEnv (getenv (deviceMemoryLimitKey dev)) = 0
        then getLimitFromEnv (getenv cudaDeviceMemoryLimit)
        else getLimitFromEnv (getenv (deviceMemoryLimitKey dev)) := by
  rw [List.getD_eq_getElem?_getD]
  split_ifs with hzero
  · rw [doInitDeviceMemoryLimits_fallback dev.isLt hzero, Option.getD_some]
  · have hpos : getLimitFromEnv (getenv (deviceMemoryLimitKey dev)) > 0 :=
      UInt64.pos_iff_ne_zero.mpr hzero
    simp only [doInitDeviceMemoryLimits, List.getElem?_map, List.getElem?_range dev.isLt,
      Option.map_some, if_pos hpos, Option.getD_some]

/-- **From the file into the region.**  `create_new` reads the file and then initialises the region:
each device gets the limit that is written down for it, or the common one where that is 0, and the
devices behind the file's get what the environment says. -/
theorem createNew_limit (settings : List LimitSetting)
    (hlen : settings.length ≤ cudaDeviceMaxCount) (env : ProcessEnv) (h : RegionHeader)
    (dev : Dev) :
    let overridden := loadEnvFromFile (some (limitFile settings)) env.getenv
    ((initStores.foldl (InitStore.apply { env with getenv := overridden }) h).config.limit
        dev).toNat
      = match settings[dev.val]? with
        | some s => if s.bytes = 0
            then (getLimitFromEnv (env.getenv cudaDeviceMemoryLimit)).toNat else s.bytes
        | none => (env.config.limit dev).toNat := by
  intro overridden
  have hload : overridden
      = (settings.mapIdx LimitSetting.binding).foldl EnvBinding.set env.getenv := by
    have hend : '=' ∉ ([] : List Char).takeWhile (· ≠ '\n') := List.not_mem_nil
    rw [← loadEnvFromFile_lines _ hend, List.append_nil]
    rfl
  have hown := foldl_limitFile hlen env.getenv dev.isLt
  have hcommon := foldl_limitFile_common settings env.getenv
  rw [← hload] at hown hcommon
  rw [(foldl_initStores _ h).1]
  simp only [ProcessEnv.config, doInitDeviceMemoryLimits_getD, hown, hcommon]
  cases hs : settings[dev.val]? with
  | none => rfl
  | some s =>
    have hread : (getLimitFromEnv (some s.text)).toNat = s.bytes :=
      toNat_getLimitFromEnv_limitString s.fits
    have hzero : getLimitFromEnv (some s.text) = 0 ↔ s.bytes = 0 := by
      rw [← hread, ← UInt64.toNat_inj, UInt64.toNat_zero]
    simp only [Option.map_some, Option.some_or, hzero]
    split_ifs
    · rfl
    · exact hread

/-- Two devices with limits of their own in a new file, the second one written with a unit. -/
theorem createNew_limit_twoDevices :
    ∃ first second : LimitSetting, first.bytes = 1000 ∧ second.bytes = 4 * 2 ^ 30 ∧
      let overridden := loadEnvFromFile (some (limitFile [first, second])) fun _ => none
      ((initStores.foldl (InitStore.apply ⟨1, 2, overridden, 0⟩) zeroFile.header).config.limit
        1).toNat = 4 * 2 ^ 30 := by
  let first : LimitSetting := ⟨1000, none, by decide⟩
  let second : LimitSetting := ⟨4, some .g, by decide⟩
  have hsecond : second.bytes = 4 * 2 ^ 30 := by decide
  refine ⟨first, second, by decide, hsecond, ?_⟩
  refine (createNew_limit [first, second] (by decide) ⟨1, 2, fun _ => none, 0⟩ zeroFile.header
    1).trans ?_
  show (if second.bytes = 0 then _ else second.bytes) = _
  rw [hsecond, if_neg (by decide)]

end HamiCore
