/-
# The grammar of dependency strings

A dependency is written as a package name, perhaps ':' and an architecture,
and constraints, each an operator and a version. `dbpmgr_depend_parse` reads
it back: the loop over the versions goes from operator to operator, and the
first version of each operator is the one that is kept
(`dbpmgrDependParse_write`).

Key definitions: `VersionCheck.text`, `writeDepend`, `WritableDepend`, `firstVersion`.
Key theorems: `findNextVersionParam_write`, `addVersion_write`, `parseVersions_write`, `dbpmgrDependParse_write`.
-/
import Dbp.Mgr.Depend

namespace Dbp

open CLib

/-! ### Written dependencies -/

/-- An operator as it is written. -/
def VersionCheck.text : VersionCheck → CStr
  | .lteq => lit "<="
  | .gteq => lit ">="
  | .lt => lit "<"
  | .eq => lit "="
  | .gt => lit ">"

/-- Constraints, one after the other. -/
def writeConstraints (cs : List (VersionCheck × CStr)) : CStr := cs.flatMap fun c => c.1.text ++ c.2

/-- The text `name[:arch]`, followed by the constraints. -/
def writeDepend (name : CStr) (arch : Option CStr) (cs : List (VersionCheck × CStr)) : CStr :=
  name ++ (match arch with | none => [] | some arch => ':' :: arch) ++ writeConstraints cs

/-- A character of a name or an architecture. -/
def nameChar (c : Char) : Bool := !isParam c && c != ':'

/-- The parts of a dependency that can be told apart. -/
structure WritableDepend (name : CStr) (arch : Option CStr) (cs : List (VersionCheck × CStr)) : Prop where
  name : ∀ c ∈ name, nameChar c
  arch : ∀ a ∈ arch, ∀ c ∈ a, nameChar c
  version : ∀ c ∈ cs, c.2 ≠ [] ∧ ∀ x ∈ c.2, !isParam x

/-- The version of the first constraint with an operator. -/
def firstVersion (cs : List (VersionCheck × CStr)) (op : VersionCheck) : Option CStr :=
  (cs.find? fun c => c.1 = op).map (·.2)

/-! ### The loop over the versions -/

theorem isParam_text (op : VersionCheck) : ∀ c ∈ op.text, isParam c := by
  cases op <;> decide

theorem text_ne_nil (op : VersionCheck) : op.text ≠ [] := by
  cases op <;> decide

/-- The search passes over what begins a version. -/
theorem findNextVersionParam_param {p : CStr} (hp : ∀ c ∈ p, isParam c) (s : CStr) :
    findNextVersionParam (p ++ s) = findNextVersionParam s := by
  induction p with
  | nil => rfl
  | cons c p ih =>
    obtain ⟨hc, hp⟩ := List.forall_mem_cons.mp hp
    rw [List.cons_append, findNextVersionParam, if_pos hc, ih hp]

/-- What is written after constraints is nothing, or begins with an operator. -/
theorem head_writeConstraints (cs : List (VersionCheck × CStr)) : (writeConstraints cs).head?.all isParam := by
  cases cs with
  | nil => rfl
  | cons c cs =>
    obtain ⟨x, t, ht⟩ := List.exists_cons_of_ne_nil (text_ne_nil c.1)
    have hx := isParam_text c.1 x (by rw [ht]; exact List.mem_cons_self)
    simp [writeConstraints, ht, hx]

section Constraint

variable (op : VersionCheck) {v : CStr} (hne : v ≠ []) (hv : ∀ x ∈ v, !isParam x)

include hne hv

/-- From one operator the search comes to the next. -/
theorem findNextVersionParam_write (cs : List (VersionCheck × CStr)) :
    findNextVersionParam (op.text ++ v ++ writeConstraints cs) =
      if writeConstraints cs = [] then none else some (writeConstraints cs) := by
  have hdrop : (v ++ writeConstraints cs).dropWhile (!isParam ·) = writeConstraints cs :=
    dropWhile_append_stop hv (by simpa using head_writeConstraints cs)
  rw [List.append_assoc, findNextVersionParam_param (isParam_text op)]
  obtain ⟨x, t, rfl⟩ := List.exists_cons_of_ne_nil hne
  have hx : isParam x = false := by simpa using hv x List.mem_cons_self
  rw [List.cons_append, List.dropWhile_cons_of_pos (by simp [hx])] at hdrop
  rw [List.cons_append, findNextVersionParam, hx, if_neg (by simp), hdrop]

/-- The operator is told by the order of the comparisons. -/
theorem find_comparisons (rest : CStr) :
    (comparisons.find? fun c => c.2.isPrefixOf (op.text ++ v ++ rest)) = some (op, op.text) := by
  obtain ⟨x, t, rfl⟩ := List.exists_cons_of_ne_nil hne
  have hx : isParam x = false := by simpa using hv x List.mem_cons_self
  have heq : ['='].isPrefixOf (x :: (t ++ rest)) = false := by
    rw [List.isPrefixOf_cons_cons, Bool.and_eq_false_iff, beq_eq_false_iff_ne]
    refine .inl ?_
    rintro rfl
    cases hx
  have hle : lit "<=" = ['<', '='] := rfl
  have hge : lit ">=" = ['>', '='] := rfl
  have hlt : lit "<" = ['<'] := rfl
  have heq' : lit "=" = ['='] := rfl
  have hgt : lit ">" = ['>'] := rfl
  cases op <;> simp [comparisons, VersionCheck.text, hle, hge, hlt, heq', hgt, heq]

/-- A turn of the loop keeps the version, if it is the first of its operator. -/
theorem addVersion_write (rest : CStr) (version : VersionCheck → Option CStr) :
    addVersion version (op.text ++ v ++ rest) (op.text ++ v).length =
      if (version op).isNone then Function.update version op (some v) else version := by
  have hlen : ((op.text ++ v ++ rest).take (op.text ++ v).length).drop op.text.length = v := by
    rw [List.take_left', List.drop_left']
    · rfl
    · rfl
  unfold addVersion
  rw [find_comparisons op hne hv rest]
  dsimp only
  rw [hlen]

end Constraint

/-- The loop, from the first operator on. -/
theorem parseVersions_write : ∀ (cs : List (VersionCheck × CStr)) (fuel : ℕ) (version : VersionCheck → Option CStr),
    cs ≠ [] → (∀ c ∈ cs, c.2 ≠ [] ∧ ∀ x ∈ c.2, !isParam x) → (writeConstraints cs).length ≤ fuel →
      parseVersions fuel (writeConstraints cs) version = fun op => (version op).or (firstVersion cs op)
  | (op, v) :: cs, fuel, version, _, h, hfuel => by
    obtain ⟨⟨hne, hv⟩, hcs⟩ := List.forall_mem_cons.mp h
    have htext : writeConstraints ((op, v) :: cs) = op.text ++ v ++ writeConstraints cs := rfl
    have hpos := List.length_pos_of_ne_nil (text_ne_nil op)
    rw [htext, List.length_append, List.length_append] at hfuel
    rw [htext]
    obtain ⟨f, rfl⟩ : ∃ f, fuel = f + 1 := ⟨fuel - 1, by omega⟩
    -- what the version of this operator was, or is now
    have hfirst : ∀ version' : VersionCheck → Option CStr,
        version' = (if (version op).isNone then Function.update version op (some v) else version) →
        (fun i => (version' i).or (firstVersion cs i)) = fun i => (version i).or (firstVersion ((op, v) :: cs) i) := by
      rintro _ rfl
      funext i
      by_cases hi : i = op
      · subst hi
        cases hver : version i <;> simp [hver, firstVersion]
      · have hkeep : (if (version op).isNone then Function.update version op (some v) else version) i = version i := by
          split_ifs
          · exact Function.update_of_ne hi _ _
          · rfl
        rw [hkeep, firstVersion, firstVersion, List.find?_cons_of_neg (by simpa using Ne.symm hi)]
    rw [parseVersions, findNextVersionParam_write op hne hv]
    cases cs with
    | nil =>
      have hlast := addVersion_write op hne hv [] version
      rw [List.append_nil] at hlast
      rw [show writeConstraints [] = [] from rfl, if_pos rfl]
      dsimp only
      rw [List.append_nil, ← hfirst _ hlast]
      simp [firstVersion]
    | cons c cs =>
      have hrest : writeConstraints (c :: cs) ≠ [] := by simp [writeConstraints, text_ne_nil]
      rw [if_neg hrest]
      dsimp only
      rw [List.length_append, Nat.add_sub_cancel, addVersion_write op hne hv,
        parseVersions_write (c :: cs) f _ (List.cons_ne_nil c cs) hcs (by omega)]
      exact hfirst _ rfl

/-- **Dependencies are read back** as they are written. -/
theorem dbpmgrDependParse_write (defaultArch : Option CStr) (name : CStr) (arch : Option CStr)
    (cs : List (VersionCheck × CStr)) (h : WritableDepend name arch cs) :
    dbpmgrDependParse defaultArch (writeDepend name arch cs) =
      { pkgName := name, version := firstVersion cs, arch := arch.getD (defaultArch.getD (lit "any")) } := by
  have hstop : (writeConstraints cs).head?.all fun c => !!isParam c := by simpa using head_writeConstraints cs
  have hparam : ∀ c, nameChar c → (!isParam c) = true ∧ c ≠ ':' := fun c hc => by simpa [nameChar] using hc
  have hname : ∀ c ∈ name, c ≠ ':' := fun c hc => (hparam c (h.name c hc)).2
  -- the versions
  have hver : (if writeConstraints cs = [] then fun _ => none
      else parseVersions (writeConstraints cs).length (writeConstraints cs) fun _ => none) = firstVersion cs := by
    cases cs with
    | nil => rfl
    | cons c cs =>
      rw [if_neg (by simp [writeConstraints, text_ne_nil]),
        parseVersions_write (c :: cs) _ _ (List.cons_ne_nil c cs) h.version le_rfl]
      rfl
  unfold dbpmgrDependParse writeDepend
  cases arch with
  | none =>
    have hall : ∀ c ∈ name, (!isParam c) = true := fun c hc => (hparam c (h.name c hc)).1
    have hcolon : ':' ∉ name := fun hc => hname _ hc rfl
    simp only [List.append_nil, takeWhile_append_stop hall hstop, dropWhile_append_stop hall hstop, hver]
    rw [if_neg hcolon, List.takeWhile_eq_self_iff.mpr (by simpa using hname)]
    rfl
  | some arch =>
    have hall : ∀ c ∈ name ++ ':' :: arch, (!isParam c) = true := by
      intro c hc
      rcases List.mem_append.mp hc with hc | hc
      · exact (hparam c (h.name c hc)).1
      · rcases List.mem_cons.mp hc with rfl | hc
        · rfl
        · exact (hparam c (h.arch arch rfl c hc)).1
    have hpre : ∀ c ∈ name, decide (c ≠ ':') = true := fun c hc => decide_eq_true (hname c hc)
    simp only [takeWhile_append_stop hall hstop, dropWhile_append_stop hall hstop, hver]
    rw [if_pos (by simp), takeWhile_append_stop hpre (by simp), dropWhile_append_stop hpre (by simp)]
    rfl

theorem dbpmgrDependParse_write_demo : dbpmgrDependParse (some (lit "armhf"))
      (writeDepend (lit "libc6") none [(.gteq, lit "2.19"), (.lt, lit "3"), (.gteq, lit "2.4")]) =
    { pkgName := lit "libc6", version := firstVersion [(.gteq, lit "2.19"), (.lt, lit "3"), (.gteq, lit "2.4")],
      arch := lit "armhf" } :=
  dbpmgrDependParse_write _ _ _ _ ⟨by decide, by simp, by decide⟩

end Dbp
