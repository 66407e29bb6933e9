/-
# The template of the wrapper scripts

`package_emit_exec` writes a package's wrapper script from a template in
which `!%package_id!`, `!%package_binary!` and `!%package_enviroment!` stand
for the package's values: each is to be replaced where a scan from left to
right comes to it, and everything else to be kept (`expandTemplate`). The
function reads the template as tokens between `!`, of which empty ones do
not appear, and keeps in a flag whether a token is inside or outside. So it
is right on the templates whose pieces between `!` are text, placeholder,
text, placeholder and so on, none of them empty but possibly the last, and
with one more `!` at most, in what is after the last placeholder
(`packageEmitExec_iff`).

Key definitions: `placeholders`, `expandTemplate`, `Expands`.
Key theorems: `expandTokens_of_expands`, `expands_of_expandTokens`, `packageEmitExec_iff`.
-/
import Dbp.Daemon.Machine
import Dbp.Lib.Placeholder

namespace Dbp

open CLib Placeholder

/-- The placeholders of a template, without their delimiters, and their values. -/
def placeholders (id bin : CStr) (env : ℤ) : List (CStr × CStr) :=
  [(lit "%package_id", id), (lit "%package_binary", bin), (lit "%package_enviroment", formatInt env)]

/-- The script a template stands for. -/
def expandTemplate (id bin : CStr) (env : ℤ) (text : CStr) : CStr := fill '!' (placeholders id bin env) 0 text

/-- The placeholders, whatever their values. -/
def placeholderNames : List CStr := [lit "%package_id", lit "%package_binary", lit "%package_enviroment"]

/-- The pieces of a template between `!` that are told apart rightly, from a piece of text on: text and placeholder
in turn, and a last `!` that is followed by text. -/
def Expands : List CStr → Prop
  | [p, q] => p ≠ [] ∧ q ≠ [] ∧ q.head? ≠ some '%'
  | p :: q :: r :: ps => p ≠ [] ∧ q ∈ placeholderNames ∧ Expands (r :: ps)
  | _ => True

section Values

variable (id bin : CStr) (env : ℤ)

theorem find?_placeholders_of_mem {q : CStr} (h : q ∈ placeholderNames) :
    ∃ v, ((placeholders id bin env).find? fun v => v.1 = q) = some v := by
  rw [← Option.isSome_iff_exists, List.find?_isSome]
  have hnames : (placeholders id bin env).map (·.1) = placeholderNames := rfl
  rw [← hnames] at h
  simpa using h

variable {id bin env}

theorem mem_of_find?_placeholders {q : CStr} {v : CStr × CStr}
    (h : ((placeholders id bin env).find? fun v => v.1 = q) = some v) : q ∈ placeholderNames := by
  have hq : v.1 = q := by simpa using List.find?_some h
  have hmem : v.1 ∈ (placeholders id bin env).map (·.1) := List.mem_map_of_mem (List.mem_of_find?_eq_some h)
  exact hq ▸ hmem

theorem exists_percent {q : CStr} (h : q ∈ placeholderNames) : ∃ t, q = '%' :: t := by
  simp only [placeholderNames, List.mem_cons, List.not_mem_nil, or_false] at h
  rcases h with rfl | rfl | rfl <;> exact ⟨_, rfl⟩

/-- A token that begins with `%`, inside: its value, and nothing if it is no placeholder. -/
theorem expandTokens_percent (t : CStr) (ts : List CStr) :
    expandTokens id bin env true (('%' :: t) :: ts) =
      (((placeholders id bin env).find? fun v => v.1 = '%' :: t).elim [] (·.2)) ++ expandTokens id bin env false ts := by
  have hname : ∀ s : CStr, '%' :: s = '%' :: t ↔ t = s := fun s => by simp [eq_comm]
  have hid : lit "%package_id" = '%' :: lit "package_id" := rfl
  have hbin : lit "%package_binary" = '%' :: lit "package_binary" := rfl
  have henv : lit "%package_enviroment" = '%' :: lit "package_enviroment" := rfl
  have htoken : expandTokens id bin env true (('%' :: t) :: ts) =
      (if t = lit "package_id" then id else if t = lit "package_binary" then bin
        else if t = lit "package_enviroment" then formatInt env else []) ++ expandTokens id bin env false ts := if_pos rfl
  simp only [htoken, placeholders, hid, hbin, henv, List.find?_cons, hname]
  by_cases h1 : t = lit "package_id"
  · simp only [if_pos h1, decide_eq_true h1, Option.elim]
  by_cases h2 : t = lit "package_binary"
  · simp only [if_neg h1, decide_eq_false h1, if_pos h2, decide_eq_true h2, Option.elim]
  by_cases h3 : t = lit "package_enviroment"
  · simp only [if_neg h1, decide_eq_false h1, if_neg h2, decide_eq_false h2, if_pos h3, decide_eq_true h3, Option.elim]
  · simp only [if_neg h1, decide_eq_false h1, if_neg h2, decide_eq_false h2, if_neg h3, decide_eq_false h3,
      List.find?_nil, Option.elim]

/-- A token that does not, inside. -/
theorem expandTokens_stray {t : CStr} (h : t.head? ≠ some '%') (ts : List CStr) :
    expandTokens id bin env true (t :: ts) = '!' :: t ++ expandTokens id bin env false ts := by
  simp only [expandTokens, h, ↓reduceIte]

/-! ### Templates that come out right -/

/-- The tokens among the pieces of a template. -/
abbrev templateTokens (ps : List CStr) : List CStr := ps.filter (· ≠ [])

theorem templateTokens_cons {p : CStr} (h : p ≠ []) (ps : List CStr) : templateTokens (p :: ps) = p :: templateTokens ps :=
  List.filter_cons_of_pos (by simpa using h)

theorem templateTokens_nil (ps : List CStr) : templateTokens ([] :: ps) = templateTokens ps :=
  List.filter_cons_of_neg (by simp)

theorem expandTokens_of_expands : ∀ {ps : List CStr}, Expands ps →
    expandTokens id bin env false (templateTokens ps) = fillPieces '!' (placeholders id bin env) false ps
  | [], _ => rfl
  | [p], _ => by
    by_cases hp : p = []
    · simp [hp, expandTokens, fillPieces]
    · simp [templateTokens_cons hp, expandTokens, fillPieces]
  | [p, q], ⟨hp, hq, hpercent⟩ => by
    rw [templateTokens_cons hp, templateTokens_cons hq, expandTokens, expandTokens_stray hpercent]
    simp [expandTokens, fillPieces]
  | p :: q :: r :: ps, ⟨hp, hq, h⟩ => by
    obtain ⟨v, hv⟩ := find?_placeholders_of_mem id bin env hq
    obtain ⟨t, rfl⟩ := exists_percent hq
    have ih : expandTokens id bin env false (templateTokens (r :: ps)) = _ := expandTokens_of_expands h
    rw [templateTokens_cons hp, templateTokens_cons (List.cons_ne_nil _ _), expandTokens, expandTokens_percent, hv, ih]
    simp only [fillPieces, hv, Option.elim]

end Values

/-! ### No others do

On other templates the values `x`, `x` and 0 tell the difference: the first
character that is out of step is a `!` or the start of a value where it should
be, and something else where it is. -/

/-- What is written for pieces with these values, and what should be. -/
abbrev written (b : Bool) (ps : List CStr) : CStr := expandTokens (lit "x") (lit "x") 0 b (templateTokens ps)

abbrev wanted (b : Bool) (ps : List CStr) : CStr := fillPieces '!' (placeholders (lit "x") (lit "x") 0) b ps

theorem value_head {v : CStr × CStr} (h : v ∈ placeholders (lit "x") (lit "x") 0) :
    ∃ c, v.2 = [c] ∧ c ≠ '!' ∧ c ≠ '%' := by
  simp only [placeholders, List.mem_cons, List.not_mem_nil, or_false] at h
  rcases h with rfl | rfl | rfl
  · exact ⟨'x', rfl, by decide⟩
  · exact ⟨'x', rfl, by decide⟩
  · exact ⟨'0', rfl, by decide⟩

theorem expandTokens_head : ∀ {ts : List CStr}, (∀ t ∈ ts, t ≠ [] ∧ '!' ∉ t) →
    (expandTokens (lit "x") (lit "x") 0 false ts).head? ≠ some '!'
  | [], _ => by simp [expandTokens]
  | [] :: _, h => absurd rfl (h [] List.mem_cons_self).1
  | (c :: t) :: ts, h => by
    have hc : '!' ∉ c :: t := (h _ List.mem_cons_self).2
    simp only [expandTokens, List.cons_append, List.head?_cons]
    exact fun he => hc (by simp [Option.some.inj he])

theorem templateTokens_ok {ps : List CStr} (h : ∀ p ∈ ps, '!' ∉ p) : ∀ t ∈ templateTokens ps, t ≠ [] ∧ '!' ∉ t := by
  intro t ht
  obtain ⟨hm, hne⟩ := List.mem_filter.mp ht
  exact ⟨by simpa using hne, h t hm⟩

/-- Where a `!` is to come, or the value of the next piece, nothing else will do. -/
theorem ne_wanted {y q : CStr} {ps : List CStr} (h : y.head? ≠ some '!') (hq : ∀ t, q = '%' :: t → y.head? = some '%') :
    y ≠ wanted true (q :: ps) := by
  rintro rfl
  cases ps with
  | nil => exact h rfl
  | cons r ps =>
    cases hf : (placeholders (lit "x") (lit "x") 0).find? fun v => v.1 = q with
    | none => exact h (by simp [wanted, fillPieces, hf])
    | some v =>
      obtain ⟨t, ht⟩ := exists_percent (mem_of_find?_placeholders hf)
      obtain ⟨c, hc, -, hne⟩ := value_head (List.mem_of_find?_eq_some hf)
      have hhead := hq t ht
      simp only [wanted, fillPieces, hf, hc, List.cons_append, List.head?_cons] at hhead
      exact hne (Option.some.inj hhead)

/-- Inside, a token that is out of step does not begin with `!`. -/
theorem expandTokens_percent_head {t : CStr} {ts : List CStr} (hts : ∀ t ∈ ts, t ≠ [] ∧ '!' ∉ t) :
    (expandTokens (lit "x") (lit "x") 0 true (('%' :: t) :: ts)).head? ≠ some '!' := by
  rw [expandTokens_percent]
  cases hf : (placeholders (lit "x") (lit "x") 0).find? fun v => v.1 = '%' :: t with
  | none => exact expandTokens_head hts
  | some v =>
    obtain ⟨c, hc, hne, -⟩ := value_head (List.mem_of_find?_eq_some hf)
    simpa [hc] using hne

/-- The first token of the pieces from `r` on, written out. -/
theorem written_ne_wanted {r : CStr} {ps : List CStr} (hps : ∀ p ∈ r :: ps, '!' ∉ p) {t : CStr} {ts : List CStr}
    (ht : templateTokens (r :: ps) = t :: ts) (y : CStr) : t ++ y ≠ wanted true (r :: ps) := by
  have hok := templateTokens_ok hps
  rw [ht] at hok
  obtain ⟨hne, hbang⟩ := hok t List.mem_cons_self
  obtain ⟨c, t', rfl⟩ := List.exists_cons_of_ne_nil hne
  apply ne_wanted
  · intro he
    exact hbang (by simp [Option.some.inj he])
  · rintro u rfl
    rw [templateTokens_cons (List.cons_ne_nil _ _)] at ht
    rw [← (List.cons.inj ht).1]
    rfl

/-- A piece inside that comes out right is a placeholder, and then all goes on as it should. -/
theorem placeholder_of_written {q r : CStr} {ps : List CStr} (hps : ∀ p ∈ r :: ps, '!' ∉ p)
    (h : written true (q :: r :: ps) = wanted true (q :: r :: ps)) :
    q ∈ placeholderNames ∧ written false (r :: ps) = wanted false (r :: ps) := by
  have hok := templateTokens_ok hps
  cases hf : (placeholders (lit "x") (lit "x") 0).find? fun v => v.1 = q with
  | some v =>
    obtain ⟨t, rfl⟩ := exists_percent (mem_of_find?_placeholders hf)
    rw [written, templateTokens_cons (List.cons_ne_nil _ _), expandTokens_percent, wanted, fillPieces, hf] at h
    exact ⟨mem_of_find?_placeholders hf, List.append_cancel_left h⟩
  | none =>
    -- The `!` before the piece is to be written; what follows the piece is told apart wrongly then.
    exfalso
    have hwanted : wanted true (q :: r :: ps) = '!' :: (q ++ wanted true (r :: ps)) := by
      simp only [wanted, fillPieces, hf]
    rw [hwanted] at h
    by_cases hq : q = []
    · subst hq
      have hskip : written true ([] :: r :: ps) = expandTokens (lit "x") (lit "x") 0 true (templateTokens (r :: ps)) := by
        rw [written, templateTokens_nil]
      rw [hskip] at h
      cases ht : templateTokens (r :: ps) with
      | nil => simp [ht, expandTokens] at h
      | cons t ts =>
        rw [ht] at h hok
        obtain ⟨⟨hne, hbang⟩, hts⟩ := List.forall_mem_cons.mp hok
        by_cases hpercent : t.head? = some '%'
        · obtain ⟨t', rfl⟩ : ∃ t', t = '%' :: t' := List.head?_eq_some_iff.mp hpercent
          exact expandTokens_percent_head hts (by rw [h]; rfl)
        · rw [expandTokens_stray hpercent, List.cons_append] at h
          exact written_ne_wanted hps ht _ (List.cons.inj h).2
    · rw [written, templateTokens_cons hq] at h
      by_cases hpercent : q.head? = some '%'
      · obtain ⟨t, rfl⟩ : ∃ t, q = '%' :: t := List.head?_eq_some_iff.mp hpercent
        exact expandTokens_percent_head hok (by rw [h]; rfl)
      · rw [expandTokens_stray hpercent, List.cons_append] at h
        have h' := List.append_cancel_left (List.cons.inj h).2
        cases ht : templateTokens (r :: ps) with
        | nil =>
          rw [ht, expandTokens] at h'
          exact ne_wanted (by simp) (fun t' hr => by simp [hr] at ht) h'
        | cons t ts =>
          rw [ht, expandTokens] at h'
          exact written_ne_wanted hps ht _ h'

/-- A piece of text that comes out right is not empty, unless it is the last. -/
theorem text_of_written {p q : CStr} {ps : List CStr} (hps : ∀ p ∈ q :: ps, '!' ∉ p)
    (h : written false (p :: q :: ps) = wanted false (p :: q :: ps)) :
    p ≠ [] ∧ written true (q :: ps) = wanted true (q :: ps) := by
  by_cases hp : p = []
  · exfalso
    subst hp
    rw [written, templateTokens_nil] at h
    cases ht : templateTokens (q :: ps) with
    | nil =>
      rw [ht] at h
      exact ne_wanted (by simp [expandTokens]) (fun t hq => by simp [hq] at ht) h
    | cons t ts =>
      rw [ht, expandTokens] at h
      exact written_ne_wanted hps ht _ h
  · rw [written, templateTokens_cons hp] at h
    exact ⟨hp, List.append_cancel_left h⟩

theorem expands_of_written : ∀ {ps : List CStr}, (∀ p ∈ ps, '!' ∉ p) → written false ps = wanted false ps → Expands ps
  | [], _, _ => trivial
  | [_], _, _ => trivial
  | [p, q], hps, h => by
    obtain ⟨hp, h⟩ := text_of_written (List.forall_mem_cons.mp hps).2 h
    have hwanted : wanted true [q] = '!' :: q := rfl
    rw [hwanted] at h
    refine ⟨hp, ?_, fun hpercent => ?_⟩
    · rintro rfl
      simp [written, expandTokens] at h
    · obtain ⟨t, rfl⟩ : ∃ t, q = '%' :: t := List.head?_eq_some_iff.mp hpercent
      rw [written, templateTokens_cons (List.cons_ne_nil _ _)] at h
      have hnone : ∀ t ∈ templateTokens [], t ≠ [] ∧ '!' ∉ t := fun _ ht => absurd ht List.not_mem_nil
      exact expandTokens_percent_head hnone (by rw [h]; rfl)
  | p :: q :: r :: ps, hps, h => by
    have hps' := (List.forall_mem_cons.mp hps).2
    obtain ⟨hp, h⟩ := text_of_written hps' h
    obtain ⟨hq, h⟩ := placeholder_of_written (List.forall_mem_cons.mp hps').2 h
    exact ⟨hp, hq, expands_of_written (List.forall_mem_cons.mp hps').2 h⟩

/-! ### The script -/

/-- What is written with these values comes from the template. -/
theorem mem_expandTokens {c : Char} (hc : c ≠ '!') (hx : c ≠ 'x') (h0 : c ≠ '0') : ∀ {ts : List CStr} {b : Bool},
    c ∈ expandTokens (lit "x") (lit "x") 0 b ts → ∃ t ∈ ts, c ∈ t
  | [], _, h => by simp [expandTokens] at h
  | t :: ts, false, h => by
    rcases List.mem_append.mp h with h | h
    · exact ⟨t, List.mem_cons_self, h⟩
    · obtain ⟨t', ht', h⟩ := mem_expandTokens hc hx h0 h
      exact ⟨t', List.mem_cons_of_mem _ ht', h⟩
  | t :: ts, true, h => by
    by_cases hpercent : t.head? = some '%'
    · obtain ⟨t, rfl⟩ : ∃ t', t = '%' :: t' := List.head?_eq_some_iff.mp hpercent
      rw [expandTokens_percent, List.mem_append] at h
      rcases h with h | h
      · cases hf : (placeholders (lit "x") (lit "x") 0).find? fun v => v.1 = '%' :: t with
        | none => simp [hf] at h
        | some v =>
          simp only [hf, Option.elim] at h
          have hv := List.mem_of_find?_eq_some hf
          simp only [placeholders, List.mem_cons, List.not_mem_nil, or_false] at hv
          rcases hv with rfl | rfl | rfl
          · exact absurd (List.mem_singleton.mp h) hx
          · exact absurd (List.mem_singleton.mp h) hx
          · exact absurd (List.mem_singleton.mp h) h0
      · obtain ⟨t', ht', h⟩ := mem_expandTokens hc hx h0 h
        exact ⟨t', List.mem_cons_of_mem _ ht', h⟩
    · rw [expandTokens_stray hpercent, List.mem_append, List.mem_cons] at h
      rcases h with (h | h) | h
      · exact absurd h hc
      · exact ⟨t, List.mem_cons_self, h⟩
      · obtain ⟨t', ht', h⟩ := mem_expandTokens hc hx h0 h
        exact ⟨t', List.mem_cons_of_mem _ ht', h⟩

/-- The template, piece by piece. -/
theorem expandTemplate_splitOn (id bin : CStr) (env : ℤ) (text : CStr) :
    expandTemplate id bin env text = fillPieces '!' (placeholders id bin env) false (text.splitOn '!') := by
  apply fill_splitOn
  have hnames : ∀ v ∈ placeholderNames, '!' ∉ v := by decide
  intro v hv
  exact hnames v.1 (List.mem_map_of_mem hv : v.1 ∈ (placeholders id bin env).map (·.1))

/-- **Template expansion.** The script is the template with its placeholders filled in, whatever their values, exactly if
the template has no NUL in it and its pieces are told apart rightly. -/
theorem packageEmitExec_iff (cfg : DBPConfig) (e : Env) {text : CStr} (h : e.readFile cfg.execTemplate = some text) :
    (∀ id bin env, packageEmitExec cfg e bin env id = some (expandTemplate id bin env text)) ↔
      '\x00' ∉ text ∧ Expands (text.splitOn '!') := by
  have hemit : ∀ id bin env, packageEmitExec cfg e bin env id =
      some (expandTokens id bin env false (templateTokens ((cString text).splitOn '!'))) := by
    intro id bin env
    rw [packageEmitExec, h]
    rfl
  have hcString : '\x00' ∉ text → cString text = text := fun h0 =>
    List.takeWhile_eq_self_iff.mpr fun c hc => decide_eq_true fun hc0 => h0 (hc0 ▸ hc)
  simp only [hemit, Option.some.injEq, expandTemplate_splitOn]
  constructor
  · intro hall
    have hx := hall (lit "x") (lit "x") 0
    have h0 : '\x00' ∉ text := by
      intro hmem
      have hnames : ∀ v ∈ placeholders (lit "x") (lit "x") 0, '\x00' ∉ v.1 := by decide
      have hwanted := mem_fillPieces (c := '!') (b := false) hnames (exists_mem_splitOn (c := '!') hmem (by decide))
      rw [← hx] at hwanted
      obtain ⟨t, ht, hc⟩ := mem_expandTokens (by decide) (by decide) (by decide) hwanted
      have htext := (infix_of_mem_splitOn (List.mem_filter.mp ht).1).subset hc
      exact absurd (List.mem_takeWhile_imp htext) (by decide)
    rw [hcString h0] at hx
    exact ⟨h0, expands_of_written (fun p hp => not_mem_of_mem_splitOn hp) hx⟩
  · rintro ⟨h0, hexp⟩ id bin env
    rw [hcString h0]
    exact expandTokens_of_expands hexp

/-- A template without a stray `!`. -/
theorem packageEmitExec_plain :
    (∀ id bin env, packageEmitExec demoConfig { demoEnv [] with readFile := fun _ => some (lit "dbp-run !%package_id!\n") }
        bin env id = some (expandTemplate id bin env (lit "dbp-run !%package_id!\n"))) ↔
      '\x00' ∉ lit "dbp-run !%package_id!\n" ∧ Expands ((lit "dbp-run !%package_id!\n").splitOn '!') :=
  packageEmitExec_iff demoConfig _ rfl

/-- A script's `#!` puts the placeholder after it outside. -/
theorem packageEmitExec_hash_bang :
    packageEmitExec demoConfig { demoEnv [] with readFile := fun _ => some (lit "#!/bin/sh\ndbp-run !%package_id!\n") }
        (lit "game") 1 (lit "pkg") = some (lit "#!/bin/sh\ndbp-run %package_id!\n") ∧
      expandTemplate (lit "pkg") (lit "game") 1 (lit "#!/bin/sh\ndbp-run !%package_id!\n") =
        lit "#!/bin/sh\ndbp-run pkg\n" := by
  decide

end Dbp
