/-
# The order of versions

A string that is compared as a version part is a list of tokens: a number
and the run of characters after it, in an order of characters in which '~'
comes before the end of the run and letters come last. Non-empty parts
compare as their tokens do (`compareVersionString_eq`). But the empty part
has no token: it comes after the parts that begin with '~' and before all
others, and there the tokens may say otherwise. `version_decode` puts "0"
for the empty upstream version where the string has no '-', but not where it
has one. So versions are a preorder except where such a clash decides
(`compare_version_preorder`).

Key definitions: `rank`, `versionTokens`, `versionKeys`, `Tilde`, `PartClash`, `DPackageVersion.Clash`.
Key theorems: `compareSubstring_eq`, `compareVersionString_cons`, `compareVersionString_eq`,
`compare_version_preorder`.
-/
import Dbp.Mgr.Version
import Dbp.Lib.Compare

namespace Dbp

open CLib Compare

/-! ### Runs of characters -/

/-- Where a character stands in a run: '~', then the end of the run at 0, then other
characters, then letters. -/
def rank (c : Char) : ℤ :=
  if c = '~' then -1 else if isalpha c then charVal c + 2 ^ 23 else charVal c + 2 ^ 22

/-- The run of characters a string begins with, and its end. -/
def runKey (s : CStr) : List ℤ := (s.takeWhile (!isdigit ·)).map rank ++ [0]

theorem charVal_bound (c : Char) : -0x110000 ≤ charVal c ∧ charVal c < 128 := by
  have := toNat_lt c
  unfold charVal
  split_ifs <;> omega

theorem rank_tilde : rank '~' = -1 := rfl

theorem rank_pos {c : Char} (h : c ≠ '~') : 0 < rank c := by
  have := charVal_bound c
  rw [rank, if_neg h]
  split_ifs <;> omega

/-- The comparison of two characters that differ. -/
theorem order_rank {c d : Char} (h : c ≠ d) : order (rank c) (rank d) =
    if c = '~' then -1
    else if d = '~' then 1
    else if !isalpha c then
      if !isalpha d then (if charVal c < charVal d then -1 else 1) else -1
    else if isalpha d then (if charVal c < charVal d then -1 else 1) else 1 := by
  have hne : charVal c ≠ charVal d := fun he => h (charVal_inj he)
  have hc := charVal_bound c
  have hd := charVal_bound d
  by_cases hct : c = '~'
  · rw [if_pos hct, hct, rank_tilde, order_of_lt]
    have := rank_pos fun hd => h (hct.trans hd.symm)
    omega
  rw [if_neg hct]
  by_cases hdt : d = '~'
  · rw [if_pos hdt, hdt, rank_tilde, order_of_gt]
    have := rank_pos hct
    omega
  rw [if_neg hdt, rank, rank, if_neg hct, if_neg hdt, order]
  by_cases hca : isalpha c = true <;> by_cases hda : isalpha d = true <;>
    simp only [hca, hda, Bool.not_true, Bool.not_false, if_true, if_false, Bool.false_eq_true] <;> split_ifs <;> omega

/-- Different characters never tie. -/
theorem order_rank_ne_zero {c d : Char} (h : c ≠ d) : order (rank c) (rank d) ≠ 0 := by
  rw [order_rank h]
  split_ifs <;> omega

theorem rank_injective : Function.Injective rank := by
  intro c d h
  by_contra hcd
  exact order_rank_ne_zero hcd (order_eq_zero.mpr h)

theorem runKey_end {s : CStr} (h : isEnd s = true) : runKey s = [0] := by
  cases s with
  | nil => rfl
  | cons c s =>
    rw [runKey, List.takeWhile_cons_of_neg (by simpa [isEnd] using h)]
    rfl

theorem runKey_cons {c : Char} {s : CStr} (h : isEnd (c :: s) = false) : runKey (c :: s) = rank c :: runKey s := by
  rw [runKey, List.takeWhile_cons_of_pos (by simpa [isEnd] using h)]
  rfl

theorem order_end {d : Char} {t : CStr} (h : isEnd (d :: t) = false) :
    order [0] (runKey (d :: t)) = if d = '~' then 1 else -1 := by
  rw [runKey_cons h, order_cons]
  by_cases hd : d = '~'
  · rw [if_pos hd, hd, rank_tilde, order_of_gt (by omega)]
    rfl
  · rw [if_neg hd, order_of_lt (rank_pos hd)]
    rfl

/-- Where one of the runs ends. -/
theorem compareEnd_eq {s t : CStr} (h : isEnd s = true ∨ isEnd t = true) :
    compareEnd s t = order (runKey s) (runKey t) := by
  unfold compareEnd
  by_cases hs : isEnd s = true
  · rw [runKey_end hs]
    by_cases ht : isEnd t = true
    · rw [runKey_end ht, order_self]
      simp [hs, ht]
    · obtain ⟨d, t, rfl⟩ := List.exists_cons_of_ne_nil fun hn : t = [] => ht (by rw [hn]; rfl)
      rw [order_end (by simpa using ht)]
      simp [hs, ht]
  · have ht := h.resolve_left hs
    obtain ⟨c, s, rfl⟩ := List.exists_cons_of_ne_nil fun hn : s = [] => hs (by rw [hn]; rfl)
    rw [runKey_end ht, order_swap, order_end (by simpa using hs)]
    rw [if_neg (by simp [hs]), if_neg hs, if_pos ht]
    by_cases hc : c = '~'
    · rw [if_neg (by simpa using hc), if_pos hc]
    · rw [if_pos (by simpa using hc), if_neg hc]
      rfl

/-- `compare_substring` is the order of the runs. -/
theorem compareSubstring_eq : ∀ s t : CStr, compareSubstring s t = order (runKey s) (runKey t)
  | [], t => by
    rw [← compareEnd_eq (.inl rfl)]
    cases t <;> rfl
  | c :: s, [] => compareEnd_eq (.inr rfl)
  | c :: s, d :: t => by
    rw [compareSubstring]
    by_cases hend : isEnd (c :: s) = true ∨ isEnd (d :: t) = true
    · rw [if_pos (by simpa using hend), compareEnd_eq hend]
    · obtain ⟨hc, hd⟩ : isEnd (c :: s) = false ∧ isEnd (d :: t) = false := by simpa using hend
      rw [if_neg (by simp [hc, hd]), runKey_cons hc, runKey_cons hd, order_cons]
      by_cases hcd : c = d
      · rw [if_pos hcd, hcd, order_self, thenBy_zero, compareSubstring_eq s t]
      · rw [if_neg hcd, thenBy_of_ne (order_rank_ne_zero hcd), order_rank hcd]

/-! ### Tokens -/

/-- The number `%i` reads at the start of a token, and the run behind its digits. -/
abbrev VersionToken := ℤ × CStr

/-- The token at the start of a string. -/
def versionToken (s : CStr) : VersionToken := (scanNumber s, (findNextNonumeric s).takeWhile (!isdigit ·))

/-- The tokens of a string: each begins where the run of the one before ends. -/
def versionTokens (s : CStr) : List VersionToken :=
  if _h : s = [] then [] else versionToken s :: versionTokens (nextChunk s)
termination_by s.length
decreasing_by exact nextChunk_length _h

/-- Where a token stands in the order of the tokens. -/
def VersionToken.key (a : VersionToken) : ℤ ×ₗ List ℤ := toLex (a.1, runKey a.2)

/-- The tokens of a string as they are ordered. -/
def versionKeys (s : CStr) : List (ℤ ×ₗ List ℤ) := (versionTokens s).map (·.key)

theorem versionToken_key (s : CStr) : (versionToken s).key = toLex (scanNumber s, runKey (findNextNonumeric s)) := by
  rw [VersionToken.key, versionToken, runKey, List.takeWhile_idem]
  rfl

@[simp] theorem versionKeys_nil : versionKeys [] = [] := by
  rw [versionKeys, versionTokens, dif_pos rfl, List.map_nil]

theorem versionKeys_cons {s : CStr} (h : s ≠ []) : versionKeys s = (versionToken s).key :: versionKeys (nextChunk s) := by
  rw [versionKeys, versionTokens, dif_neg h, List.map_cons, versionKeys]

/-- A string that begins with '~'. -/
def Tilde (s : CStr) : Prop := s.head? = some '~'

instance (s : CStr) : Decidable (Tilde s) := inferInstanceAs (Decidable (_ = _))

theorem not_tilde_of_end {s : CStr} (h : isEnd s = true) : ¬ Tilde s := by
  cases s with
  | nil => simp [Tilde]
  | cons c s =>
    intro ht
    obtain rfl : c = '~' := by simpa [Tilde] using ht
    cases h

/-- Where one of the parts is used up, and none is empty beside a '~'. -/
theorem compareRest_order {s t : CStr} (h : s = [] ∨ t = []) (hs : s = [] → ¬ Tilde t) (ht : t = [] → ¬ Tilde s) :
    compareRest s t = order (versionKeys s) (versionKeys t) := by
  unfold compareRest
  by_cases hs0 : s = []
  · subst hs0
    by_cases ht0 : t = []
    · subst ht0
      rw [order_self]
      rfl
    · have ht1 : ¬ t.head? = some '~' := hs rfl
      rw [if_pos ⟨rfl, ht0⟩, if_neg ht1, versionKeys_cons ht0, versionKeys_nil, order_nil_cons]
  · have ht0 := h.resolve_left hs0
    subst ht0
    have hs1 : ¬ s.head? = some '~' := ht rfl
    rw [if_neg fun hc => hs0 hc.1, if_pos ⟨hs0, rfl⟩, if_neg hs1, versionKeys_cons hs0, versionKeys_nil, order_cons_nil]

/-- A turn of the loop compares the numbers, then the runs, and goes on if both are the same. -/
theorem compareVersionString_cons {s t : CStr} (hs : s ≠ []) (ht : t ≠ []) : compareVersionString s t =
    thenBy (order (scanNumber s) (scanNumber t))
      (thenBy (compareSubstring (findNextNonumeric s) (findNextNonumeric t))
        (compareVersionString (nextChunk s) (nextChunk t))) := by
  rw [compareVersionString_step hs ht]
  rcases lt_trichotomy (scanNumber s) (scanNumber t) with hlt | heq | hgt
  · rw [if_pos hlt, order_of_lt hlt]
    rfl
  · rw [if_neg (by omega), if_neg (by omega), heq, order_self, thenBy_zero]
    unfold thenBy
    split_ifs <;> first | rfl | omega
  · rw [if_neg (by omega), if_pos hgt, order_of_gt hgt]
    rfl

/-- Parts are compared by their tokens, if none of them is an empty one beside a '~'. -/
theorem compareVersionString_order (n : ℕ) : ∀ s t : CStr, s.length ≤ n → (s = [] → ¬ Tilde t) →
    (t = [] → ¬ Tilde s) → compareVersionString s t = order (versionKeys s) (versionKeys t) := by
  induction n with
  | zero =>
    intro s t hn hs ht
    have h : s = [] ∨ t = [] := .inl (List.eq_nil_of_length_eq_zero (by omega))
    rw [compareVersionString_rest h, compareRest_order h hs ht]
  | succ n ih =>
    intro s t hn hs ht
    by_cases h : s = [] ∨ t = []
    · rw [compareVersionString_rest h, compareRest_order h hs ht]
    · obtain ⟨hs0, ht0⟩ := not_or.mp h
      have hlt := nextChunk_length hs0
      -- After a turn of the loop the strings begin with a digit, or are used up.
      have ih' := ih (nextChunk s) (nextChunk t) (by omega)
        (fun _ => not_tilde_of_end (isEnd_nextChunk t)) (fun _ => not_tilde_of_end (isEnd_nextChunk s))
      calc compareVersionString s t
          = thenBy (thenBy (order (scanNumber s) (scanNumber t))
              (order (runKey (findNextNonumeric s)) (runKey (findNextNonumeric t))))
              (order (versionKeys (nextChunk s)) (versionKeys (nextChunk t))) := by
            rw [compareVersionString_cons hs0 ht0, compareSubstring_eq, ih', thenBy_assoc]
        _ = thenBy (order (versionToken s).key (versionToken t).key) (order (versionKeys (nextChunk s)) (versionKeys (nextChunk t))) := by
            rw [versionToken_key, versionToken_key, order_toLex]
        _ = order (versionKeys s) (versionKeys t) := by rw [versionKeys_cons hs0, versionKeys_cons ht0, order_cons]

/-- A part without characters. -/
def Missing (s : CStr) : Prop := s = []

instance (s : CStr) : Decidable (Missing s) := inferInstanceAs (Decidable (_ = _))

/-- `compare_version_string` is the order of the tokens, with the missing part as a stray element. -/
theorem compareVersionString_eq (s t : CStr) : compareVersionString s t = strayOrder Missing Tilde versionKeys s t := by
  unfold strayOrder
  by_cases hs : Missing s
  · have hs0 : s = [] := hs
    rw [if_pos hs, compareVersionString_rest (.inl hs0), compareRest]
    by_cases ht : Missing t
    · rw [if_pos ht, if_neg fun h => h.2 ht, if_neg fun h => h.1 hs]
    · rw [if_neg ht, if_pos ⟨hs0, ht⟩]
      rfl
  · rw [if_neg hs]
    by_cases ht : Missing t
    · have ht0 : t = [] := ht
      rw [if_pos ht, compareVersionString_rest (.inr ht0), compareRest, if_neg fun h => hs h.1, if_pos ⟨hs, ht0⟩]
      rfl
    · rw [if_neg ht]
      exact compareVersionString_order s.length s t le_rfl (fun h => absurd h hs) fun h => absurd h ht

theorem versionKeys_eq_nil {s : CStr} : versionKeys s = [] ↔ Missing s := by
  refine ⟨fun h => ?_, fun h => ?_⟩
  · by_contra hs
    rw [versionKeys_cons hs] at h
    cases h
  · rw [show s = [] from h, versionKeys_nil]

theorem compareVersionString_swap (s t : CStr) : compareVersionString t s = -compareVersionString s t := by
  rw [compareVersionString_eq, compareVersionString_eq, strayOrder_swap]

theorem compareVersionString_eq_zero {s t : CStr} : compareVersionString s t = 0 ↔ versionKeys s = versionKeys t := by
  rw [compareVersionString_eq]
  by_cases hs : Missing s <;> by_cases ht : Missing t
  · rw [strayOrder_strays hs ht, versionKeys_eq_nil.mpr hs, versionKeys_eq_nil.mpr ht]
    simp
  · rw [versionKeys_eq_nil.mpr hs]
    exact ⟨fun h => absurd h (strayOrder_ne_zero hs ht), fun h => absurd (versionKeys_eq_nil.mp h.symm) ht⟩
  · rw [versionKeys_eq_nil.mpr ht, strayOrder_swap]
    exact ⟨fun h => absurd (Int.neg_eq_zero.mp h) (strayOrder_ne_zero ht hs),
      fun h => absurd (versionKeys_eq_nil.mp h) hs⟩
  · rw [strayOrder_others hs ht, order_eq_zero]

/-! ### Versions -/

/-- A part is not after another: by the tokens, with the missing part right after those that begin
with '~'. -/
def PartLe (s t : CStr) : Prop :=
  if Missing s then ¬ Tilde t else if Missing t then Tilde s else versionKeys s ≤ versionKeys t

theorem compareVersionString_le_zero {s t : CStr} : compareVersionString s t ≤ 0 ↔ PartLe s t := by
  rw [compareVersionString_eq, PartLe]
  by_cases hs : Missing s <;> by_cases ht : Missing t
  · rw [strayOrder_strays hs ht, if_pos hs, show t = [] from ht]
    simp [Tilde]
  · rw [strayOrder_left hs ht, if_pos hs]
  · rw [strayOrder_right hs ht, if_neg hs, if_pos ht]
  · rw [strayOrder_others hs ht, if_neg hs, if_neg ht, order_le_zero]

/-- The missing part `e` is above `q`, which begins with '~', and below `p`, whose tokens are not
after those of `q`. -/
abbrev PartClash (e p q : CStr) : Prop := StrayClash Missing Tilde versionKeys e p q

/-- Parts in a circle have the same tokens, or there is a clash. -/
theorem compareVersionString_circle {s t u : CStr} (hst : compareVersionString s t ≤ 0)
    (htu : compareVersionString t u ≤ 0) (hus : compareVersionString u s ≤ 0) :
    versionKeys s = versionKeys t ∧ versionKeys t = versionKeys u ∧ versionKeys u = versionKeys s ∨
      PartClash s t u ∨ PartClash t u s ∨ PartClash u s t := by
  rw [compareVersionString_eq] at hst htu hus
  rcases strayOrder_circle hst htu hus with ⟨h1, h2, h3⟩ | hc
  · rw [← compareVersionString_eq, compareVersionString_eq_zero] at h1 h2 h3
    exact .inl ⟨h1, h2, h3⟩
  · exact .inr hc

/-- Three versions that clash in the first part that is not the same for all. -/
def DPackageVersion.Clash (e p q : DPackageVersion) : Prop :=
  atoi e.epoch = atoi p.epoch ∧ atoi p.epoch = atoi q.epoch ∧
    (PartClash e.main p.main q.main ∧ (versionKeys p.main = versionKeys q.main → PartLe p.rev q.rev) ∨
      versionKeys e.main = versionKeys p.main ∧ versionKeys p.main = versionKeys q.main ∧ PartClash e.rev p.rev q.rev)

/-- The comparison of two decoded versions. -/
def DPackageVersion.order (v w : DPackageVersion) : ℤ :=
  thenBy (Compare.order (atoi v.epoch) (atoi w.epoch))
    (thenBy (compareVersionString v.main w.main) (compareVersionString v.rev w.rev))

theorem dbpmgrDependCompareVersion_eq (a b : CStr) :
    dbpmgrDependCompareVersion a b = (versionDecode a).order (versionDecode b) := by
  unfold dbpmgrDependCompareVersion DPackageVersion.order
  rcases lt_trichotomy (atoi (versionDecode a).epoch) (atoi (versionDecode b).epoch) with hlt | heq | hgt
  · rw [order_of_lt hlt]
    simp only [hlt.ne, hlt, ne_eq, not_false_eq_true, if_true]
    rfl
  · simp only [heq, ne_eq, not_true_eq_false, if_false, order_self, thenBy_zero]
    rfl
  · rw [order_of_gt hgt]
    simp only [hgt.ne', hgt.not_gt, ne_eq, not_false_eq_true, if_true, if_false]
    rfl

namespace DPackageVersion

variable {a b c e p q : DPackageVersion}

theorem order_swap (a b : DPackageVersion) : b.order a = -a.order b := by
  rw [order, order, Compare.order_swap, compareVersionString_swap a.main, compareVersionString_swap a.rev, thenBy_neg,
    thenBy_neg]

theorem order_le_zero : a.order b ≤ 0 ↔ atoi a.epoch < atoi b.epoch ∨ atoi a.epoch = atoi b.epoch ∧
    (compareVersionString a.main b.main < 0 ∨
      compareVersionString a.main b.main = 0 ∧ compareVersionString a.rev b.rev ≤ 0) := by
  rw [order, thenBy_le_zero, thenBy_le_zero, order_lt_zero, order_eq_zero]

theorem order_lt_zero : a.order b < 0 ↔ atoi a.epoch < atoi b.epoch ∨ atoi a.epoch = atoi b.epoch ∧
    (compareVersionString a.main b.main < 0 ∨
      compareVersionString a.main b.main = 0 ∧ compareVersionString a.rev b.rev < 0) := by
  rw [order, thenBy_lt_zero, thenBy_lt_zero, Compare.order_lt_zero, order_eq_zero]

/-- A clash is a circle. -/
theorem Clash.circle (h : Clash e p q) : e.order p ≤ 0 ∧ p.order q ≤ 0 ∧ q.order e < 0 := by
  obtain ⟨he, hp, hc⟩ := h
  have hq : atoi q.epoch = atoi e.epoch := (he.trans hp).symm
  rcases hc with ⟨hmain, hrev⟩ | ⟨hep, hpq, hrev⟩
  · obtain ⟨h1, h2⟩ := hmain.between
    obtain ⟨-, hp0, -, hq0, -, hle⟩ := hmain
    rw [← compareVersionString_eq] at h1 h2
    refine ⟨order_le_zero.mpr (.inr ⟨he, .inl h1⟩), order_le_zero.mpr (.inr ⟨hp, ?_⟩),
      order_lt_zero.mpr (.inr ⟨hq, .inl h2⟩)⟩
    rcases eq_or_lt_of_le hle with heq | hlt
    · exact .inr ⟨compareVersionString_eq_zero.mpr heq, compareVersionString_le_zero.mpr (hrev heq)⟩
    · refine .inl ?_
      rw [compareVersionString_eq, strayOrder_others hp0 hq0]
      exact Compare.order_lt_zero.mpr hlt
  · obtain ⟨h1, h2⟩ := hrev.between
    obtain ⟨-, hp0, -, hq0, -, hle⟩ := hrev
    rw [← compareVersionString_eq] at h1 h2
    refine ⟨order_le_zero.mpr (.inr ⟨he, .inr ⟨compareVersionString_eq_zero.mpr hep, h1.le⟩⟩),
      order_le_zero.mpr (.inr ⟨hp, .inr ⟨compareVersionString_eq_zero.mpr hpq, ?_⟩⟩),
      order_lt_zero.mpr (.inr ⟨hq, .inr ⟨compareVersionString_eq_zero.mpr (hep.trans hpq).symm, h2⟩⟩)⟩
    rw [compareVersionString_eq, strayOrder_others hp0 hq0]
    exact Compare.order_le_zero.mpr hle

/-- A circle is a clash of the three versions, in one of its turns. -/
theorem clash_of_circle (hab : a.order b ≤ 0) (hbc : b.order c ≤ 0) (hca : c.order a < 0) :
    Clash a b c ∨ Clash b c a ∨ Clash c a b := by
  rw [order_le_zero] at hab hbc
  rw [order_lt_zero] at hca
  have heab : atoi a.epoch = atoi b.epoch := by omega
  have hebc : atoi b.epoch = atoi c.epoch := by omega
  have heca : atoi c.epoch = atoi a.epoch := by omega
  have hmab := (hab.resolve_left (by omega)).2
  have hmbc := (hbc.resolve_left (by omega)).2
  have hmca := (hca.resolve_left (by omega)).2
  rcases compareVersionString_circle (s := a.main) (t := b.main) (u := c.main)
    (by omega) (by omega) (by omega) with ⟨h1, h2, h3⟩ | hc
  · have h1' := compareVersionString_eq_zero.mpr h1
    have h2' := compareVersionString_eq_zero.mpr h2
    have h3' := compareVersionString_eq_zero.mpr h3
    rcases compareVersionString_circle (s := a.rev) (t := b.rev) (u := c.rev)
      (by omega) (by omega) (by omega) with hr | hr | hr | hr
    · have := compareVersionString_eq_zero.mpr hr.2.2
      omega
    · exact .inl ⟨heab, hebc, .inr ⟨h1, h2, hr⟩⟩
    · exact .inr (.inl ⟨hebc, heca, .inr ⟨h2, h3, hr⟩⟩)
    · exact .inr (.inr ⟨heca, heab, .inr ⟨h3, h1, hr⟩⟩)
  · -- Of the two versions beside the stray one, the next one in the circle is not before the other.
    have hle : ∀ {s t u v : CStr}, compareVersionString s t < 0 ∨
        compareVersionString s t = 0 ∧ compareVersionString u v ≤ 0 → versionKeys s = versionKeys t → PartLe u v := by
      intro s t u v h heq
      have := compareVersionString_eq_zero.mpr heq
      exact compareVersionString_le_zero.mp (by omega)
    rcases hc with hc | hc | hc
    · exact .inl ⟨heab, hebc, .inl ⟨hc, hle hmbc⟩⟩
    · exact .inr (.inl ⟨hebc, heca, .inl ⟨hc, hle (hmca.imp_right fun h => ⟨h.1, h.2.le⟩)⟩⟩)
    · exact .inr (.inr ⟨heca, heab, .inl ⟨hc, hle hmab⟩⟩)

end DPackageVersion

/-- **Version order.** The comparison is a total preorder on the versions of `S` exactly when no three of
them clash. -/
theorem compare_version_preorder (S : Set CStr) : PreorderOn dbpmgrDependCompareVersion S ↔
    ∀ e ∈ S, ∀ p ∈ S, ∀ q ∈ S, ¬ (versionDecode e).Clash (versionDecode p) (versionDecode q) := by
  have hswap : ∀ a b, dbpmgrDependCompareVersion b a = -dbpmgrDependCompareVersion a b := fun a b => by
    rw [dbpmgrDependCompareVersion_eq, dbpmgrDependCompareVersion_eq, DPackageVersion.order_swap]
  rw [preorderOn_iff hswap]
  simp only [dbpmgrDependCompareVersion_eq]
  refine ⟨fun h e he p hp q hq hc => h e he p hp q hq hc.circle, fun h a ha b hb c hc ⟨h1, h2, h3⟩ => ?_⟩
  rcases DPackageVersion.clash_of_circle h1 h2 h3 with hcl | hcl | hcl
  · exact h a ha b hb c hc hcl
  · exact h b hb c hc a ha hcl
  · exact h c hc a ha b hb hcl

/-- Versions that compare equal get the same verdict in every range check. -/
theorem interchange_of_preorder {S : Set CStr} (h : PreorderOn dbpmgrDependCompareVersion S) {a b c : CStr}
    (ha : a ∈ S) (hb : b ∈ S) (hc : c ∈ S) (hab : dbpmgrDependCompareVersion a b = 0) (check : VersionCheck) :
    dbpmgrDependVersionResultCompare (dbpmgrDependCompareVersion a c) check =
      dbpmgrDependVersionResultCompare (dbpmgrDependCompareVersion b c) check := by
  obtain ⟨h1, h2⟩ := h.congr ha hb hc hab
  cases check <;> simp only [dbpmgrDependVersionResultCompare, decide_eq_decide] <;> omega

/-- Three versions in a circle: an empty upstream version, and two that begin with '~' or with a
zero before it. -/
theorem compare_version_circle : ¬ PreorderOn dbpmgrDependCompareVersion {lit "-1", lit "0~-1", lit "~-1"} := fun h => by
  have := h.trans (lit "-1") (.inl rfl) (lit "0~-1") (.inr (.inl rfl)) (lit "~-1") (.inr (.inr rfl)) (by decide)
    (by decide)
  revert this
  decide

end Dbp
