import Mathlib.Data.List.TakeWhile

/-!
# Reading a text line by line

`fgets` reads up to the next newline or until its buffer is full, and the next call goes on behind
what this one has read.  A line that fits into the buffer comes out whole, with its newline; a
longer one comes out in pieces.  What a program then takes for the line is the contents of the
buffer up to the first NUL.
-/

namespace HamiCore

/-- What a call of `fgets` with room for `n` characters takes off a text, and what it leaves. -/
def fgets : ℕ → List Char → List Char × List Char
  | 0, cs => ([], cs)
  | _ + 1, [] => ([], [])
  | n + 1, c :: cs => if c = '\n' then ([c], cs) else (c :: (fgets n cs).1, (fgets n cs).2)

/-- The string in a buffer: its characters up to the first NUL. -/
def cString (buf : List Char) : List Char := buf.takeWhile (· ≠ '\x00')

/-- Nothing is lost between two calls. -/
theorem fgets_append (n : ℕ) (cs : List Char) : (fgets n cs).1 ++ (fgets n cs).2 = cs := by
  induction n generalizing cs with
  | zero => rfl
  | succ n ih =>
    cases cs with
    | nil => rfl
    | cons c cs =>
      rw [fgets]
      split_ifs
      · rfl
      · rw [List.cons_append, ih]

/-- A call with room for a character leaves less of the text, unless there is nothing left. -/
theorem length_fgets_lt {n : ℕ} {cs : List Char} (hn : 0 < n) (hcs : cs ≠ []) :
    (fgets n cs).2.length < cs.length := by
  obtain ⟨m, rfl⟩ := Nat.exists_eq_succ_of_ne_zero hn.ne'
  obtain ⟨c, ds, rfl⟩ := List.exists_cons_of_ne_nil hcs
  rw [fgets]
  split_ifs
  · exact Nat.lt_succ_self _
  · have hsum := congrArg List.length (fgets_append m ds)
    rw [List.length_append] at hsum
    show (fgets m ds).2.length < (c :: ds).length
    rw [List.length_cons]
    omega

/-- **A line that fits** comes out whole, with its newline. -/
theorem fgets_line {n : ℕ} {line : List Char} (hline : '\n' ∉ line) (hfits : line.length < n)
    (rest : List Char) : fgets n (line ++ '\n' :: rest) = (line ++ ['\n'], rest) := by
  induction line generalizing n with
  | nil =>
    obtain ⟨m, rfl⟩ := Nat.exists_eq_succ_of_ne_zero (Nat.ne_zero_of_lt hfits)
    rw [List.nil_append, fgets, if_pos rfl, List.nil_append]
  | cons c cs ih =>
    obtain ⟨m, rfl⟩ := Nat.exists_eq_succ_of_ne_zero (Nat.ne_zero_of_lt hfits)
    obtain ⟨hc, hcs⟩ := not_or.mp (mt List.mem_cons.mpr hline)
    rw [List.length_cons, Nat.succ_lt_succ_iff] at hfits
    rw [List.cons_append, fgets, if_neg (Ne.symm hc), ih hcs hfits, List.cons_append]

/-- **A line that does not fit** fills the buffer, and the next call goes on behind that. -/
theorem fgets_long {n : ℕ} {line : List Char} (hline : '\n' ∉ line) (hlong : n ≤ line.length)
    (rest : List Char) : fgets n (line ++ rest) = (line.take n, line.drop n ++ rest) := by
  induction line generalizing n with
  | nil =>
    obtain rfl := Nat.le_zero.mp hlong
    rfl
  | cons c cs ih =>
    cases n with
    | zero => rfl
    | succ n =>
      obtain ⟨hc, hcs⟩ := not_or.mp (mt List.mem_cons.mpr hline)
      rw [List.length_cons, Nat.succ_le_succ_iff] at hlong
      rw [List.cons_append, fgets, if_neg (Ne.symm hc), ih hcs hlong, List.take_succ_cons,
        List.drop_succ_cons]

/-- The last line may have no newline. -/
theorem fgets_last {n : ℕ} {line : List Char} (hline : '\n' ∉ line) (hfits : line.length ≤ n) :
    fgets n line = (line, []) := by
  induction line generalizing n with
  | nil => cases n <;> rfl
  | cons c cs ih =>
    obtain ⟨m, rfl⟩ := Nat.exists_eq_succ_of_ne_zero (Nat.ne_zero_of_lt hfits)
    obtain ⟨hc, hcs⟩ := not_or.mp (mt List.mem_cons.mpr hline)
    rw [List.length_cons, Nat.succ_le_succ_iff] at hfits
    rw [fgets, if_neg (Ne.symm hc), ih hcs hfits]

/-- Nothing comes out but the newline and what stands before it. -/
theorem mem_fgets {n : ℕ} {cs : List Char} {c : Char} (hc : c ∈ (fgets n cs).1) (hne : c ≠ '\n') :
    c ∈ cs.takeWhile (· ≠ '\n') := by
  induction n generalizing cs with
  | zero => cases hc
  | succ n ih =>
    cases cs with
    | nil => cases hc
    | cons d ds =>
      rw [fgets] at hc
      by_cases hd : d = '\n'
      · rw [if_pos hd, List.mem_singleton] at hc
        exact absurd (hc.trans hd) hne
      · rw [if_neg hd, List.mem_cons] at hc
        rw [List.takeWhile_cons_of_pos (by simpa using hd), List.mem_cons]
        exact hc.imp_right ih

/-- A buffer without a NUL is a string as a whole. -/
theorem cString_of_notMem {buf : List Char} (hbuf : '\x00' ∉ buf) : cString buf = buf := by
  rw [cString, List.takeWhile_eq_self_iff]
  intro c hc
  simpa using ne_of_mem_of_not_mem hc hbuf

theorem cString_isPrefix (buf : List Char) : cString buf <+: buf := List.takeWhile_prefix _

end HamiCore
