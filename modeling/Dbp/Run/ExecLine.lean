/-
# Command lines

`ExecLine` splits the `Exec` value of a package into arguments. Spaces end an
argument unless they are quoted, a backslash takes the next character as it
is, and of the codes that begin with `%` only `%%` stands for a character.
Both leave a quoted part: what follows is read as unquoted. An argument that
stays empty is none (`execLine_ne_nil`).

Key definitions: `ParseState`, `execLineParse`, `execLine`.
Key theorems: `execLineParse_ne_nil`, `execLine_ne_nil`.
-/
import Dbp.C.String

namespace Dbp

open CLib

/-- `ExecLine.ParseState`. -/
inductive ParseState
  | normal
  | quote
  | backslash
  | percent
deriving Repr, DecidableEq

/-- What is added to the arguments when `arg` ends. -/
def execLineArg (arg : CStr) : List CStr := if 0 < arg.length then [arg] else []

/-- The loop of the constructor over the characters, with the argument read so far. -/
def execLineParse : ParseState → CStr → CStr → List CStr
  | _, arg, [] => execLineArg arg
  | .backslash, arg, c :: s => execLineParse .normal (arg ++ [c]) s
  | .percent, arg, c :: s => execLineParse .normal (if c = '%' then arg ++ [c] else arg) s
  | state, arg, c :: s =>
    if c = '"' then execLineParse (if state = .quote then .normal else .quote) arg s
    else if c = '\\' then execLineParse .backslash arg s
    else if c = '%' then execLineParse .percent arg s
    else if c = ' ' then
      if state = .quote then execLineParse state (arg ++ [c]) s
      else execLineArg arg ++ execLineParse state [] s
    else execLineParse state (arg ++ [c]) s

/-- `ExecLine`: its arguments. -/
def execLine (cmdLine : CStr) : List CStr := execLineParse .normal [] cmdLine

theorem execLineArg_ne_nil {arg : CStr} : ∀ a ∈ execLineArg arg, a ≠ [] := by
  unfold execLineArg
  split_ifs with h
  · intro a ha
    rw [List.mem_singleton.mp ha]
    exact List.ne_nil_of_length_pos h
  · simp

theorem execLineParse_ne_nil (state : ParseState) (arg s : CStr) : ∀ a ∈ execLineParse state arg s, a ≠ [] := by
  fun_induction execLineParse state arg s with
  | case1 => exact execLineArg_ne_nil
  | case8 _ _ _ _ _ _ _ _ _ ih => exact List.forall_mem_append.mpr ⟨execLineArg_ne_nil, ih⟩
  | _ => assumption

/-- No argument is empty. -/
theorem execLine_ne_nil (cmdLine : CStr) : ∀ a ∈ execLine cmdLine, a ≠ [] := execLineParse_ne_nil _ _ _

example : execLine (lit "game  --name \"a b\" c\\ d %f 100%%") =
    [lit "game", lit "--name", lit "a b", lit "c d", lit "100%"] := by decide

end Dbp
