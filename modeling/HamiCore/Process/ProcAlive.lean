import HamiCore.Library.CString
import HamiCore.Region.Slot
import Mathlib.Data.List.TakeWhile

/-!
# The state of a process

`proc_alive` reads `/proc/<pid>/stat` with the format `%d %s %c`.  The second field of the file is
the command name in parentheses, which the process chooses and which may hold blanks, and `%s` stops
at the first of them.  The character taken for the state is then one of the name
(`procAlive_statLine_iff`).
-/

namespace HamiCore

/-- `BUFFER_LENGTH`, the size of `name_buf`. -/
def bufferLength : ℕ := 8192

/-- `fscanf(fp, "%d %s %c", &__pid, name_buf, &state)`: the name and the state, or `none` when it
stores fewer than three fields. -/
def scanStat (s : List Char) : Option (List Char × Char) := do
  let s ← scanInt s
  let (nameBuf, s) ← scanWord (scanSpace s)
  let state ← scanChar (scanSpace s)
  return (nameBuf, state)

/-- The states of a process that is gone. -/
def isNonaliveState (state : Char) : Bool := state = 'Z' || state = 'X' || state = 'x'

/-- `proc_alive(pid)`, where `stat` is what the file `/proc/<pid>/stat` holds and `none` stands for
a file that cannot be opened. -/
def procAlive (stat : Option (List Char)) : ProcState :=
  match stat with
  | none => .nonalive
  | some s =>
    match scanStat s with
    | none => .unknown
    | some (_, state) => if isNonaliveState state then .nonalive else .alive

/-- A command name: 1 to 15 bytes other than the terminating zero and the newline. -/
structure CommandName where
  chars : List Char
  length_pos : 1 ≤ chars.length
  length_le : chars.length ≤ 15
  byte : ∀ c ∈ chars, c.toNat < 256 ∧ c ≠ '\x00' ∧ c ≠ '\n'

/-- A file that begins with the pid, the name in parentheses and the state. -/
def statLine (pid : Pid) (name : List Char) (state : Char) (rest : List Char) : List Char :=
  decimal pid ++ ' ' :: '(' :: (name ++ ')' :: ' ' :: state :: rest)

/-- The first character behind the first blanks of a name, with the parenthesis that closes it. -/
def charBehindBlanks (name : List Char) : Char :=
  ((name.dropWhile (!isSpace ·)).dropWhile isSpace).headD ')'

/-- The state is taken from what follows the first blanks behind the opening parenthesis. -/
theorem scanStat_statLine (pid : Pid) (name : List Char) (state : Char) (rest : List Char) :
    (scanStat (statLine pid name state rest)).map Prod.snd
      = (scanSpace ((name ++ ')' :: ' ' :: state :: rest).dropWhile (!isSpace ·))).head? := by
  have hword : scanSpace (' ' :: '(' :: (name ++ ')' :: ' ' :: state :: rest))
      = '(' :: (name ++ ')' :: ' ' :: state :: rest) := rfl
  have hword' : scanSpace ('(' :: (name ++ ')' :: ' ' :: state :: rest))
      = '(' :: (name ++ ')' :: ' ' :: state :: rest) := rfl
  rw [statLine, scanStat, scanInt_decimal pid (by decide)]
  simp only [Option.bind_eq_bind, Option.bind_some, hword, scanWord, hword', reduceCtorEq,
    if_false, scanChar]
  rw [List.dropWhile_cons_of_pos (by decide)]
  cases (scanSpace ((name ++ ')' :: ' ' :: state :: rest).dropWhile (!isSpace ·))).head? <;> rfl

/-- The word read before it, an initial part of the name in parentheses, fits in `name_buf`. -/
theorem scanWord_statLine_fits (name : CommandName) (state : Char) (rest : List Char) :
    (('(' :: (name.chars ++ ')' :: ' ' :: state :: rest)).takeWhile (!isSpace ·)).length
      < bufferLength := by
  have hstop : (('(' :: name.chars ++ [')']) ++ ' ' :: state :: rest).takeWhile (!isSpace ·)
      = ('(' :: name.chars ++ [')']).takeWhile (!isSpace ·) := by
    rw [List.takeWhile_append]
    split_ifs with h
    · rw [List.takeWhile_cons_of_neg (by decide), List.append_nil]
      exact (List.IsPrefix.eq_of_length (List.takeWhile_prefix _) h).symm
    · rfl
  have hle := (List.takeWhile_prefix (l := '(' :: name.chars ++ [')']) (!isSpace ·)).length_le
  have hlen := name.length_le
  rw [← hstop] at hle
  simp only [List.cons_append, List.append_assoc, List.nil_append, List.length_cons,
    List.length_append, List.length_nil] at hle ⊢
  rw [bufferLength]
  omega

/-- Without a blank in the name, the reading goes on at the state. -/
theorem scanSpace_of_no_blank {name : List Char} (hname : ∀ c ∈ name, isSpace c = false)
    (state : Char) (rest : List Char) :
    scanSpace ((name ++ ')' :: ' ' :: state :: rest).dropWhile (!isSpace ·))
      = scanSpace (state :: rest) := by
  rw [List.dropWhile_append_of_pos (fun c hc => by simp [hname c hc]),
    List.dropWhile_cons_of_pos (by decide), List.dropWhile_cons_of_neg (by decide)]
  rfl

/-- With a blank in the name, it goes on inside the parentheses. -/
theorem head_scanSpace_of_blank {name : List Char} (hname : ∃ c ∈ name, isSpace c)
    (state : Char) (rest : List Char) :
    (scanSpace ((name ++ ')' :: ' ' :: state :: rest).dropWhile (!isSpace ·))).head?
      = some (charBehindBlanks name) := by
  have hdrop : (name.dropWhile (!isSpace ·)).isEmpty = false := by
    simpa [List.isEmpty_eq_false_iff, List.dropWhile_eq_nil_iff] using hname
  rw [List.dropWhile_append, if_neg (by simp [hdrop]), charBehindBlanks]
  generalize name.dropWhile (!isSpace ·) = tail
  rw [scanSpace, List.dropWhile_append]
  cases htail : tail.dropWhile isSpace with
  | nil =>
    rw [List.isEmpty_nil, if_pos rfl, List.dropWhile_cons_of_neg (by decide)]
    rfl
  | cons c cs => rfl

/-- The answer for a process in the given state. -/
def stateOf (state : Char) : ProcState := if isNonaliveState state then .nonalive else .alive

/-- `proc_alive` decides by the character read for the state. -/
theorem procAlive_of_scanStat {s : List Char} {c : Char}
    (h : (scanStat s).map Prod.snd = some c) : procAlive (some s) = stateOf c := by
  obtain ⟨⟨nameBuf, state⟩, hscan, rfl⟩ := Option.map_eq_some_iff.mp h
  simp only [procAlive, hscan, stateOf]

/-- Two states get the same answer when both or neither are of a process that is gone. -/
theorem stateOf_eq_iff {c d : Char} :
    stateOf c = stateOf d ↔ (isNonaliveState c ↔ isNonaliveState d) := by
  unfold stateOf
  cases isNonaliveState c <;> cases isNonaliveState d <;> decide

/-- **When the state of a process is read right.**  Whatever follows in the file, the answer is that
of the state exactly when the name holds no blank (and the state is not one itself), or the
character behind the first blanks of the name happens to call for the same answer. -/
theorem procAlive_statLine_iff (pid : Pid) (name : CommandName) (state : Char) :
    (∀ rest, procAlive (some (statLine pid name.chars state rest)) = stateOf state) ↔
      (∀ c ∈ name.chars, isSpace c = false) ∧ isSpace state = false ∨
        (∃ c ∈ name.chars, isSpace c) ∧
          (isNonaliveState (charBehindBlanks name.chars) ↔ isNonaliveState state) := by
  by_cases hblank : ∃ c ∈ name.chars, isSpace c
  · have hread : ∀ rest, procAlive (some (statLine pid name.chars state rest))
        = stateOf (charBehindBlanks name.chars) := fun rest =>
      procAlive_of_scanStat
        ((scanStat_statLine ..).trans (head_scanSpace_of_blank hblank state rest))
    have hnot : ¬ ∀ c ∈ name.chars, isSpace c = false := fun h => by
      obtain ⟨c, hc, hspace⟩ := hblank
      rw [h c hc] at hspace
      cases hspace
    simp only [hread, forall_const, stateOf_eq_iff, hblank, hnot, false_and, true_and, false_or]
  · have hname : ∀ c ∈ name.chars, isSpace c = false := fun c hc => by
      by_contra h
      exact hblank ⟨c, hc, by simpa using h⟩
    simp only [hblank, false_and, or_false]
    constructor
    · intro h
      refine ⟨hname, ?_⟩
      by_contra hspace
      -- a blank state at the end of the file leaves nothing for the third field
      have hnone : (scanStat (statLine pid name.chars state [])).map Prod.snd = none := by
        rw [scanStat_statLine, scanSpace_of_no_blank hname, scanSpace,
          List.dropWhile_cons_of_pos (by simpa using hspace)]
        rfl
      have hunknown := h []
      simp only [procAlive, Option.map_eq_none_iff.mp hnone, stateOf] at hunknown
      split_ifs at hunknown
    · rintro ⟨-, hstate⟩ rest
      apply procAlive_of_scanStat
      rw [scanStat_statLine, scanSpace_of_no_blank hname, scanSpace,
        List.dropWhile_cons_of_neg (by simp [hstate])]
      rfl

/-- A sleeping process that calls itself `a Z` is reported dead. -/
theorem procAlive_misreads_name :
    ∃ name : CommandName, name.chars = "a Z".toList ∧
      ∃ rest, ¬ procAlive (some (statLine 7 name.chars 'S' rest)) = stateOf 'S' := by
  have hbyte : ∀ c ∈ "a Z".toList, c.toNat < 256 ∧ c ≠ '\x00' ∧ c ≠ '\n' := fun c hc => by
    have hall : "a Z".toList.all fun c => c.toNat < 256 ∧ c ≠ '\x00' ∧ c ≠ '\n' := by decide
    simpa using List.all_eq_true.mp hall c hc
  have hread :
      ¬ procAlive (some (statLine 7 "a Z".toList 'S' " 1 7 7 0".toList)) = stateOf 'S' := by
    decide
  exact ⟨⟨"a Z".toList, by decide, by decide, hbyte⟩, rfl, " 1 7 7 0".toList, hread⟩

end HamiCore
