/-
# Quoted command lines

The arguments of a command line written in double quotes, the special
characters in them escaped, and read back by `ExecLine`. Its scanner has one
state for a backslash and one for a percent sign, and leaves both for the
unquoted state: behind the first special character of an argument its spaces
end it, and its closing quote opens the next quoted part, so that the space
before the next argument becomes one of its characters. So the list comes
back exactly if no argument but the last has a special character, and the
last has no space behind one (`execLine_quoteLine_iff`).

Key definitions: `special`, `quoteArg`, `quoteLine`, `Quotable`.
Key theorems: `execLineParse_word`, `execLineParse_grows`, `execLine_quoteArg_iff`, `execLineParse_quoteArg_lost`,
`execLine_quoteLine_iff`.
-/
import Dbp.Run.ExecLine

namespace Dbp

open CLib

/-! ### Quoting -/

/-- A character that is escaped inside quotes. -/
def special (c : Char) : Bool := c == '"' || c == '\\' || c == '%'

/-- A character inside quotes. -/
def quoteChar (c : Char) : CStr := if c = '%' then ['%', '%'] else if special c then ['\\', c] else [c]

/-- An argument in double quotes. -/
def quoteArg (a : CStr) : CStr := '"' :: (a.flatMap quoteChar ++ ['"'])

/-- The command line of a list of arguments. -/
def quoteLine (args : List CStr) : CStr := [' '].intercalate (args.map quoteArg)

/-- No argument but the last has a special character, and the last has no space behind one. -/
def Quotable (args : List CStr) : Prop :=
  (∀ a ∈ args.dropLast, ∀ c ∈ a, special c = false) ∧ ∀ a ∈ args.getLast?, ' ' ∉ a.dropWhile (!special ·)

example : quoteLine [lit "a b", lit "100%"] = lit "\"a b\" \"100%%\"" := by decide

theorem quoteChar_plain {c : Char} (h : special c = false) : quoteChar c = [c] := by
  have hne : c ≠ '%' := fun hc => by simp [hc, special] at h
  rw [quoteChar, if_neg hne, h, if_neg Bool.false_ne_true]

theorem flatMap_quoteChar_plain : ∀ {s : CStr}, (∀ c ∈ s, special c = false) → s.flatMap quoteChar = s
  | [], _ => rfl
  | c :: s, h => by
    obtain ⟨hc, hs⟩ := List.forall_mem_cons.mp h
    rw [List.flatMap_cons, quoteChar_plain hc, flatMap_quoteChar_plain hs]
    rfl

/-- An argument is a run of plain characters, or goes on with a special one. -/
theorem plain_or_special (a : CStr) : (∀ c ∈ a, special c = false) ∨
    ∃ p c post, a = p ++ c :: post ∧ (∀ x ∈ p, special x = false) ∧ special c = true := by
  obtain ⟨p, t, rfl, hp, ht⟩ := exists_run (!special ·) a
  have hplain : ∀ x ∈ p, special x = false := fun x hx => by simpa using hp x hx
  cases t with
  | nil => exact .inl (by simpa using hplain)
  | cons c t => exact .inr ⟨p, c, t, rfl, hplain, by simpa using ht⟩

/-! ### Scanning what is quoted -/

theorem execLineParse_cons {state : ParseState} (h : state = .normal ∨ state = .quote) (arg : CStr) (c : Char) (s : CStr) :
    execLineParse state arg (c :: s) =
      if c = '"' then execLineParse (if state = .quote then .normal else .quote) arg s
      else if c = '\\' then execLineParse .backslash arg s
      else if c = '%' then execLineParse .percent arg s
      else if c = ' ' then
        if state = .quote then execLineParse state (arg ++ [c]) s
        else execLineArg arg ++ execLineParse state [] s
      else execLineParse state (arg ++ [c]) s := by
  rcases h with rfl | rfl <;> rfl

/-- Plain characters in quotes are taken as they are. -/
theorem execLineParse_plain : ∀ (p arg s : CStr), (∀ c ∈ p, special c = false) →
    execLineParse .quote arg (p ++ s) = execLineParse .quote (arg ++ p) s
  | [], arg, s, _ => by rw [List.nil_append, List.append_nil]
  | c :: p, arg, s, h => by
    obtain ⟨hc, hp⟩ := List.forall_mem_cons.mp h
    have hne : (c ≠ '"' ∧ c ≠ '\\') ∧ c ≠ '%' := by simpa [special] using hc
    have ih := execLineParse_plain p (arg ++ [c]) s hp
    rw [List.append_assoc, List.singleton_append] at ih
    rw [List.cons_append, execLineParse_cons (.inr rfl), if_neg hne.1.1, if_neg hne.1.2, if_neg hne.2, if_pos rfl,
      ite_self, ih]

/-- A special character is taken, too, but what follows it is read as unquoted. -/
theorem execLineParse_special {state : ParseState} (h : state = .normal ∨ state = .quote) {c : Char} (hc : special c = true)
    (arg s : CStr) : execLineParse state arg (quoteChar c ++ s) = execLineParse .normal (arg ++ [c]) s := by
  unfold quoteChar
  by_cases hp : c = '%'
  · subst hp
    rw [if_pos rfl]
    rcases h with rfl | rfl <;> rfl
  · rw [if_neg hp, if_pos hc]
    rcases h with rfl | rfl <;> rfl

/-- Without spaces, the rest of an argument is read as it should be all the same. -/
theorem execLineParse_word : ∀ (w arg s : CStr), ' ' ∉ w →
    execLineParse .normal arg (w.flatMap quoteChar ++ s) = execLineParse .normal (arg ++ w) s
  | [], arg, s, _ => by rw [List.flatMap_nil, List.nil_append, List.append_nil]
  | c :: w, arg, s, h => by
    obtain ⟨hc, hw⟩ := not_or.mp (mt List.mem_cons.mpr h)
    have ih := execLineParse_word w (arg ++ [c]) s hw
    rw [List.append_assoc, List.singleton_append] at ih
    rw [List.flatMap_cons, List.append_assoc, ← ih]
    by_cases hs : special c = true
    · exact execLineParse_special (.inl rfl) hs arg _
    · have hs' : special c = false := by simpa using hs
      have hne : (c ≠ '"' ∧ c ≠ '\\') ∧ c ≠ '%' := by simpa [special] using hs'
      rw [quoteChar_plain hs', List.singleton_append, execLineParse_cons (.inl rfl), if_neg hne.1.1, if_neg hne.1.2,
        if_neg hne.2, if_neg (Ne.symm hc)]

theorem execLineArg_of_ne {arg : CStr} (h : arg ≠ []) : execLineArg arg = [arg] := by
  rw [execLineArg, if_pos (List.length_pos_iff.mpr h)]

/-- An argument that has begun is the first one, and only grows. -/
theorem execLineParse_grows (state : ParseState) (arg s : CStr) (h : arg ≠ []) :
    ∃ more rest, execLineParse state arg s = (arg ++ more) :: rest := by
  have hend : ∀ arg : CStr, arg ≠ [] → ∀ rest, ∃ more rest', execLineArg arg ++ rest = (arg ++ more) :: rest' := by
    intro arg h rest
    rw [execLineArg_of_ne h]
    exact ⟨[], rest, by rw [List.append_nil]; rfl⟩
  have hstep : ∀ {arg : CStr} {c : Char} {r : List CStr}, (∃ more rest, r = (arg ++ [c] ++ more) :: rest) →
      ∃ more rest, r = (arg ++ more) :: rest := by
    rintro arg c r ⟨more, rest, rfl⟩
    exact ⟨c :: more, rest, by simp⟩
  fun_induction execLineParse state arg s with
  | case1 _ arg => simpa using hend arg h []
  | case2 arg c s ih => exact hstep (ih (by simp))
  | case3 arg c s ih =>
    by_cases hc : c = '%'
    · rw [if_pos hc] at ih ⊢
      exact hstep (ih (by simp))
    · rw [if_neg hc] at ih ⊢
      exact ih h
  | case4 _ _ _ _ _ ih => exact ih h
  | case5 _ _ _ _ _ _ ih => exact ih h
  | case6 _ _ _ _ _ _ _ ih => exact ih h
  | case7 _ _ _ _ _ _ _ ih => exact hstep (ih (by simp))
  | case8 => exact hend _ h _
  | case9 _ _ _ _ _ _ _ _ _ _ ih => exact hstep (ih (by simp))

/-! ### Quoted arguments -/

section Arg

variable {a : CStr} (s : CStr)

/-- A quoted argument of plain characters. -/
theorem execLineParse_quoteArg (h : ∀ c ∈ a, special c = false) :
    execLineParse .normal [] (quoteArg a ++ s) = execLineParse .normal a s := by
  have hopen : execLineParse .normal [] (quoteArg a ++ s) = execLineParse .quote [] (a ++ '"' :: s) := by
    rw [quoteArg, flatMap_quoteChar_plain h, List.cons_append, List.append_assoc]
    rfl
  rw [hopen, execLineParse_plain a [] _ h]
  rfl

/-- One with a special character, behind which it is read as unquoted. -/
theorem execLineParse_quoteArg_special {p post : CStr} {c : Char} (hp : ∀ x ∈ p, special x = false)
    (hc : special c = true) : execLineParse .normal [] (quoteArg (p ++ c :: post) ++ s) =
      execLineParse .normal (p ++ [c]) (post.flatMap quoteChar ++ '"' :: s) := by
  have hopen : execLineParse .normal [] (quoteArg (p ++ c :: post) ++ s) =
      execLineParse .quote [] (p ++ (quoteChar c ++ (post.flatMap quoteChar ++ '"' :: s))) := by
    rw [quoteArg, List.flatMap_append, flatMap_quoteChar_plain hp, List.flatMap_cons]
    simp only [List.cons_append, List.append_assoc, List.nil_append]
    rfl
  rw [hopen, execLineParse_plain p [] _ hp, execLineParse_special (.inr rfl) hc]
  rfl

/-- If no space follows in it, it is read whole, and its closing quote opens a quoted part. -/
theorem execLineParse_quoteArg_open {p post : CStr} {c : Char} (hp : ∀ x ∈ p, special x = false) (hc : special c = true)
    (hpost : ' ' ∉ post) :
    execLineParse .normal [] (quoteArg (p ++ c :: post) ++ s) = execLineParse .quote (p ++ c :: post) s := by
  rw [execLineParse_quoteArg_special s hp hc, execLineParse_word post _ _ hpost, List.append_assoc, List.singleton_append]
  rfl

/-- If a space follows in it, it ends there. -/
theorem execLineParse_quoteArg_space {p post : CStr} {c : Char} (hp : ∀ x ∈ p, special x = false) (hc : special c = true)
    (hpost : ' ' ∈ post) (rest : List CStr) :
    execLineParse .normal [] (quoteArg (p ++ c :: post) ++ s) ≠ (p ++ c :: post) :: rest := by
  obtain ⟨q, r, rfl, hq⟩ : ∃ q r, post = q ++ ' ' :: r ∧ ' ' ∉ q := List.eq_append_cons_of_mem hpost
  have hsplit : execLineParse .normal [] (quoteArg (p ++ c :: (q ++ ' ' :: r)) ++ s) = execLineArg (p ++ [c] ++ q) ++
      execLineParse .normal [] (r.flatMap quoteChar ++ '"' :: s) := by
    rw [execLineParse_quoteArg_special s hp hc, List.flatMap_append, List.append_assoc, execLineParse_word q _ _ hq]
    rfl
  rw [hsplit, execLineArg_of_ne (by simp)]
  intro h
  have hlen := congrArg List.length (List.head_eq_of_cons_eq h)
  simp at hlen

/-- The last argument of a line. -/
theorem execLine_quoteArg_iff (ha : a ≠ []) : execLine (quoteArg a) = [a] ↔ ' ' ∉ a.dropWhile (!special ·) := by
  have hline : execLine (quoteArg a) = execLineParse .normal [] (quoteArg a ++ []) := by rw [execLine, List.append_nil]
  rw [hline]
  rcases plain_or_special a with hplain | ⟨p, c, post, rfl, hp, hc⟩
  · have hdrop : a.dropWhile (!special ·) = [] := List.dropWhile_eq_nil_iff.mpr fun x hx => by simp [hplain x hx]
    rw [execLineParse_quoteArg [] hplain, execLineParse, execLineArg_of_ne ha, hdrop]
    simp
  · have hdrop : (p ++ c :: post).dropWhile (!special ·) = c :: post :=
      dropWhile_append_stop (fun x hx => by simp [hp x hx]) (by simp [hc])
    have hcs : c ≠ ' ' := fun h => by simp [h, special] at hc
    rw [hdrop, List.mem_cons, not_or]
    by_cases hspace : ' ' ∈ post
    · exact iff_of_false (execLineParse_quoteArg_space [] hp hc hspace []) fun h => h.2 hspace
    · refine iff_of_true ?_ ⟨hcs.symm, hspace⟩
      rw [execLineParse_quoteArg_open [] hp hc hspace, execLineParse, execLineArg_of_ne ha]

/-- A plain argument in front of others. -/
theorem execLineParse_quoteArg_next (ha : a ≠ []) (h : ∀ c ∈ a, special c = false) :
    execLineParse .normal [] (quoteArg a ++ ' ' :: s) = a :: execLine s := by
  rw [execLineParse_quoteArg _ h, execLineParse_cons (.inl rfl), execLineArg_of_ne ha]
  rfl

/-- One with a special character is cut at a space in it, or goes on with the space behind it. -/
theorem execLineParse_quoteArg_lost {p post : CStr} {c : Char} (hp : ∀ x ∈ p, special x = false) (hc : special c = true)
    (rest : List CStr) :
    execLineParse .normal [] (quoteArg (p ++ c :: post) ++ ' ' :: s) ≠ (p ++ c :: post) :: rest := by
  by_cases hspace : ' ' ∈ post
  · exact execLineParse_quoteArg_space _ hp hc hspace rest
  · have hjoin : execLineParse .normal [] (quoteArg (p ++ c :: post) ++ ' ' :: s) =
        execLineParse .quote (p ++ c :: post ++ [' ']) s := execLineParse_quoteArg_open _ hp hc hspace
    obtain ⟨more, rest', hgrows⟩ := execLineParse_grows .quote (p ++ c :: post ++ [' ']) s (by simp)
    rw [hjoin, hgrows]
    intro h
    have hlen := congrArg List.length (List.head_eq_of_cons_eq h)
    simp at hlen

end Arg

theorem quoteLine_cons (a b : CStr) (l : List CStr) :
    quoteLine (a :: b :: l) = quoteArg a ++ ' ' :: quoteLine (b :: l) := by
  rw [quoteLine, List.map_cons, List.map_cons, List.intercalate_cons_cons, List.append_assoc]
  rfl

theorem quotable_single {a : CStr} : Quotable [a] ↔ ' ' ∉ a.dropWhile (!special ·) := by simp [Quotable]

theorem quotable_cons {a b : CStr} {l : List CStr} :
    Quotable (a :: b :: l) ↔ (∀ c ∈ a, special c = false) ∧ Quotable (b :: l) := by
  simp only [Quotable, List.dropLast_cons_cons, List.getLast?_cons_cons, List.forall_mem_cons, and_assoc]

/-- **Command line splitting.** A list of arguments comes back from its quoted command line exactly if no argument but the
last has a special character, and the last has no space behind one. -/
theorem execLine_quoteLine_iff : ∀ (args : List CStr), (∀ a ∈ args, a ≠ []) →
    (execLine (quoteLine args) = args ↔ Quotable args)
  | [], _ => by simp [quoteLine, execLine, execLineParse, execLineArg, Quotable]
  | [a], hne => by
    have hline : quoteLine [a] = quoteArg a := by simp [quoteLine]
    rw [hline, quotable_single, execLine_quoteArg_iff (hne a (by simp))]
  | a :: b :: l, hne => by
    obtain ⟨ha, hne'⟩ := List.forall_mem_cons.mp hne
    have ih := execLine_quoteLine_iff (b :: l) hne'
    rw [execLine, quoteLine_cons, quotable_cons]
    rcases plain_or_special a with hplain | ⟨p, c, post, rfl, hp, hc⟩
    · rw [execLineParse_quoteArg_next _ ha hplain, List.cons.injEq, ih]
      exact ⟨fun h => ⟨hplain, h.2⟩, fun h => ⟨rfl, h.2⟩⟩
    · exact iff_of_false (execLineParse_quoteArg_lost _ hp hc _) fun h => by simp [h.1 c (by simp)] at hc

/-- Two plain arguments. -/
theorem execLine_quoteLine_plain :
    execLine (quoteLine [lit "--name", lit "a b"]) = [lit "--name", lit "a b"] ↔ Quotable [lit "--name", lit "a b"] :=
  execLine_quoteLine_iff _ (by decide)

/-- An argument with a percent sign is joined with the next one, which is split at its space. -/
theorem execLine_percent : execLine (quoteLine [lit "100%", lit "a b"]) = [lit "100% a", lit "b"] ∧
    execLine (quoteLine [lit "100%", lit "a b"]) ≠ [lit "100%", lit "a b"] := by decide

end Dbp
