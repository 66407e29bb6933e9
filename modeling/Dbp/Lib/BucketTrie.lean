/-
# Bucket tries

A tree that finds entries by their keys. A node keeps the entries whose key
ends there, and the others in a bucket; a bucket that grows over a limit is
spread over a table of children by the next element of the keys, and from
then on entries are passed on to the children. `insert` has the depth it may
still go as fuel; with more than the longest key is left it does not run
out, and what `find` returns for a key has, in some order, just the entries
inserted with that key (`find_insertAll`).

Tables are made with a number of places, and `insertUses` and `findUses` are
the places used in them: all tables have one size where all insertions make
that size (`insertAll_sized`), and with few entries there is none
(`insertAll_few`). Where an entry goes depends on its key alone (`insert_map`).

Key definitions: `Node`, `insert`, `find`, `insertUses`, `findUses`, `Sized`, `Fits`, `Adds`.
Key theorems: `insertAll_sized`, `insertAll_few`, `insert_map`, `spread_adds`, `insert_adds`, `find_insertAll`.
-/
import Mathlib.Data.List.Induction
import Mathlib.Data.List.Perm.Basic
import Mathlib.Logic.Function.Basic

namespace BucketTrie

open scoped List

variable {α ι : Type*}

/-- A node: absent, with a bucket, or with a table that was made with `slots` places. -/
inductive Node (ι α : Type*)
  | null
  | bucket (ends list : List α)
  | table (ends : List α) (slots : ℕ) (lookup : ι → Node ι α)

namespace Node

/-- The entries whose key ends at a node. -/
def ends : Node ι α → List α
  | null => []
  | bucket ends _ => ends
  | table ends _ _ => ends

/-- The bucket of a node. -/
def list : Node ι α → List α
  | null => []
  | bucket _ list => list
  | table _ _ _ => []

/-- A node with one more entry whose key ends there. -/
def addEnd (a : α) : Node ι α → Node ι α
  | null => bucket [a] []
  | bucket ends list => bucket (a :: ends) list
  | table ends slots lookup => table (a :: ends) slots lookup

end Node

/-- The entries a search for a key comes to: those that end where it ends, or a bucket on the way. -/
def find : Node ι α → List ι → List α
  | .null, _ => []
  | .bucket ends _, [] => ends
  | .bucket _ list, _ :: _ => list
  | .table ends _ _, [] => ends
  | .table _ _ lookup, i :: ks => find (lookup i) ks

section Insert

variable [DecidableEq ι] (key : α → List ι) (limit slots : ℕ)

/-- An entry passed on to a child, by the element of its key at `depth`. -/
def spread (ins : Node ι α → α → Node ι α) (depth : ℕ) (lookup : ι → Node ι α) (a : α) : ι → Node ι α :=
  match (key a)[depth]? with
  | none => lookup
  | some i => Function.update lookup i (ins (lookup i) a)

/-- An entry put below a node at `depth`; `slots` is the size of new tables. -/
def insert : ℕ → Node ι α → α → ℕ → Node ι α
  | 0, n, _, _ => n
  | fuel + 1, n, a, depth =>
    match (key a)[depth]? with
    | none => n.addEnd a
    | some _ =>
      match n with
      | .table ends slots lookup =>
        .table ends slots (spread key (fun n a => insert fuel n a (depth + 1)) depth lookup a)
      | n =>
        if limit < n.list.length + 1 then
          .table n.ends slots
            ((a :: n.list).foldl (spread key (fun n a => insert fuel n a (depth + 1)) depth) fun _ => .null)
        else .bucket n.ends (a :: n.list)

/-! ### The places used -/

/-- The places that a search uses in the tables on its way, each with the number of places its table was made with. -/
def findUses : Node ι α → List ι → List (ι × ℕ)
  | .table _ slots lookup, i :: ks => (i, slots) :: findUses (lookup i) ks
  | _, _ => []

/-- The places used when entries are passed on to the children, one after the other, by `ins`, which has uses itself. -/
def spreadUses (ins : Node ι α → α → Node ι α) (uses : Node ι α → α → List (ι × ℕ)) (depth slots : ℕ) :
    (ι → Node ι α) → List α → List (ι × ℕ)
  | _, [] => []
  | lookup, a :: l =>
    (match (key a)[depth]? with
      | none => []
      | some i => (i, slots) :: uses (lookup i) a) ++ spreadUses ins uses depth slots (spread key ins depth lookup a) l

/-- The places used by `insert`. -/
def insertUses : ℕ → Node ι α → α → ℕ → List (ι × ℕ)
  | 0, _, _, _ => []
  | fuel + 1, n, a, depth =>
    match (key a)[depth]? with
    | none => []
    | some i =>
      match n with
      | .table _ slots lookup => (i, slots) :: insertUses fuel (lookup i) a (depth + 1)
      | n =>
        if limit < n.list.length + 1 then
          spreadUses key (fun n a => insert key limit slots fuel n a (depth + 1)) (fun n a => insertUses fuel n a (depth + 1))
            depth slots (fun _ => .null) (a :: n.list)
        else []

/-- The places used by one `insert` after the other. -/
def insertAllUses (fuel : ℕ) : Node ι α → List α → List (ι × ℕ)
  | _, [] => []
  | n, a :: es => insertUses key limit slots fuel n a 0 ++ insertAllUses fuel (insert key limit slots fuel n a 0) es

variable {key limit slots}

/-- A node that something was put below is there. -/
theorem insert_ne_null (fuel : ℕ) (n : Node ι α) (a : α) (depth : ℕ) :
    insert key limit slots (fuel + 1) n a depth ≠ .null := by
  unfold insert
  cases (key a)[depth]? with
  | none => cases n <;> exact nofun
  | some i =>
    cases n with
    | table ends slots lookup => exact nofun
    | null =>
      dsimp only
      split_ifs <;> exact nofun
    | bucket ends list =>
      dsimp only
      split_ifs <;> exact nofun

end Insert

/-! ### Tables of one size -/

section Sized

/-- All tables were made with this many places. -/
def Sized (slots : ℕ) : Node ι α → Prop
  | .null => True
  | .bucket _ _ => True
  | .table _ slots' lookup => slots' = slots ∧ ∀ i, Sized slots (lookup i)

variable {slots : ℕ}

theorem findUses_sized : ∀ {n : Node ι α}, Sized slots n → ∀ (ks : List ι), ∀ u ∈ findUses n ks, u.1 ∈ ks ∧ u.2 = slots
  | .null, _, _, _, hu => nomatch hu
  | .bucket _ _, _, _, _, hu => nomatch hu
  | .table _ _ _, _, [], _, hu => nomatch hu
  | .table ends slots' lookup, ⟨hs, hlookup⟩, i :: ks, u, hu => by
    rcases List.mem_cons.mp hu with rfl | hu
    · exact ⟨List.mem_cons_self, hs⟩
    · have h := findUses_sized (hlookup i) ks u hu
      exact ⟨List.mem_cons_of_mem i h.1, h.2⟩

variable [DecidableEq ι] {key : α → List ι} {limit : ℕ}

/-- What is said of an insertion below a node with tables of one size: it keeps their size, and uses places of elements
of keys. -/
def InsertSized (key : α → List ι) (slots : ℕ) (ins : Node ι α → α → Node ι α) (uses : Node ι α → α → List (ι × ℕ)) : Prop :=
  ∀ n a, Sized slots n → Sized slots (ins n a) ∧ ∀ u ∈ uses n a, (∃ x, u.1 ∈ key x) ∧ u.2 = slots

theorem spread_sized {ins : Node ι α → α → Node ι α} {uses : Node ι α → α → List (ι × ℕ)} (h : InsertSized key slots ins uses)
    (depth : ℕ) : ∀ (l : List α) (lookup : ι → Node ι α), (∀ i, Sized slots (lookup i)) →
      (∀ i, Sized slots (l.foldl (spread key ins depth) lookup i)) ∧
        ∀ u ∈ spreadUses key ins uses depth slots lookup l, (∃ x, u.1 ∈ key x) ∧ u.2 = slots
  | [], _, hlookup => ⟨hlookup, fun _ hu => nomatch hu⟩
  | a :: l, lookup, hlookup => by
    cases hget : (key a)[depth]? with
    | none =>
      have hspread : spread key ins depth lookup a = lookup := by simp [spread, hget]
      have ih := spread_sized h depth l lookup hlookup
      simpa [spreadUses, hget, hspread] using ih
    | some i =>
      have hchild := h (lookup i) a (hlookup i)
      have hspread : ∀ j, Sized slots (spread key ins depth lookup a j) := by
        intro j
        simp only [spread, hget]
        by_cases hj : j = i
        · subst hj
          rw [Function.update_self]
          exact hchild.1
        · rw [Function.update_of_ne hj]
          exact hlookup j
      have ih := spread_sized h depth l _ hspread
      refine ⟨ih.1, fun u hu => ?_⟩
      simp only [spreadUses, hget, List.cons_append, List.mem_cons, List.mem_append] at hu
      rcases hu with rfl | hu | hu
      · exact ⟨⟨a, List.mem_of_getElem? hget⟩, rfl⟩
      · exact hchild.2 u hu
      · exact ih.2 u hu

/-- An insertion makes tables of its own size only. -/
theorem insert_sized : ∀ (fuel depth : ℕ), InsertSized key slots (fun n a => insert key limit slots fuel n a depth)
    fun n a => insertUses key limit slots fuel n a depth
  | 0, _, _, _, hn => ⟨hn, fun _ hu => nomatch hu⟩
  | fuel + 1, depth, n, a, hn => by
    have ih : InsertSized key slots (fun n a => insert key limit slots fuel n a (depth + 1))
        fun n a => insertUses key limit slots fuel n a (depth + 1) := insert_sized fuel (depth + 1)
    -- a node that may get a table
    have hpush : ∀ ends list : List α, Sized slots (if limit < list.length + 1 then
          .table ends slots ((a :: list).foldl (spread key (fun n a => insert key limit slots fuel n a (depth + 1)) depth) fun _ => .null)
        else .bucket ends (a :: list)) ∧
        ∀ u ∈ (if limit < list.length + 1 then spreadUses key (fun n a => insert key limit slots fuel n a (depth + 1))
            (fun n a => insertUses key limit slots fuel n a (depth + 1)) depth slots (fun _ => .null) (a :: list)
          else []), (∃ x, u.1 ∈ key x) ∧ u.2 = slots := by
      intro ends list
      split_ifs
      · have hs := spread_sized ih depth (a :: list) (fun _ => .null) fun _ => trivial
        exact ⟨⟨rfl, hs.1⟩, hs.2⟩
      · exact ⟨trivial, fun _ hu => nomatch hu⟩
    unfold insert insertUses
    dsimp only
    cases hget : (key a)[depth]? with
    | none =>
      refine ⟨?_, fun _ hu => nomatch hu⟩
      cases n with
      | null => trivial
      | bucket ends list => trivial
      | table ends slots' lookup => exact hn
    | some i =>
      cases n with
      | null => exact hpush [] []
      | bucket ends list => exact hpush ends list
      | table ends slots' lookup =>
        obtain ⟨hslots, hlookup⟩ := hn
        have hs := spread_sized ih depth [a] lookup hlookup
        refine ⟨⟨hslots, hs.1⟩, fun u hu => ?_⟩
        rcases List.mem_cons.mp hu with rfl | hu
        · exact ⟨⟨a, List.mem_of_getElem? hget⟩, hslots⟩
        · exact (ih (lookup i) a (hlookup i)).2 u hu

theorem insertAll_sized (fuel : ℕ) : ∀ (es : List α) {n : Node ι α}, Sized slots n →
    Sized slots (es.foldl (fun n a => insert key limit slots fuel n a 0) n) ∧
      ∀ u ∈ insertAllUses key limit slots fuel n es, (∃ x, u.1 ∈ key x) ∧ u.2 = slots
  | [], _, hn => ⟨hn, fun _ hu => nomatch hu⟩
  | a :: es, n, hn => by
    have hstep : InsertSized key slots (fun n a => insert key limit slots fuel n a 0) fun n a => insertUses key limit slots fuel n a 0 :=
      insert_sized fuel 0
    have ha := hstep n a hn
    have ih := insertAll_sized fuel es ha.1
    refine ⟨ih.1, fun u hu => ?_⟩
    rcases List.mem_append.mp hu with hu | hu
    · exact ha.2 u hu
    · exact ih.2 u hu

end Sized

/-! ### Few entries -/

section Few

variable [DecidableEq ι] (key : α → List ι) {limit : ℕ}

theorem insertAllUses_append (slots fuel : ℕ) : ∀ (es es' : List α) (n : Node ι α),
    insertAllUses key limit slots fuel n (es ++ es') = insertAllUses key limit slots fuel n es ++
      insertAllUses key limit slots fuel (es.foldl (fun n a => insert key limit slots fuel n a 0) n) es'
  | [], _, _ => rfl
  | a :: es, es', n => by
    rw [List.cons_append, insertAllUses, insertAllUses, insertAllUses_append slots fuel es, List.append_assoc, List.foldl_cons]

/-- A node that no table was made for: the entries whose key is empty, and the others. -/
def Node.few (es : List α) : Node ι α :=
  if es = [] then null else bucket (es.filter (key · = [])).reverse (es.filter (key · ≠ [])).reverse

variable {key}

/-- One more entry. -/
theorem insert_few (slots fuel : ℕ) {es : List α} {a : α} (h : ((es ++ [a]).filter (key · ≠ [])).length ≤ limit) :
    insert key limit slots (fuel + 1) (Node.few key es) a 0 = Node.few key (es ++ [a]) ∧
      insertUses key limit slots (fuel + 1) (Node.few key es) a 0 = [] := by
  have hfew : Node.few key (es ++ [a]) =
      .bucket ((es ++ [a]).filter (key · = [])).reverse ((es ++ [a]).filter (key · ≠ [])).reverse := if_neg (by simp)
  rw [hfew]
  cases hk : key a with
  | nil =>
    unfold insert insertUses
    simp only [hk, List.getElem?_nil, and_true]
    by_cases hes : es = []
    · simp [Node.few, hes, Node.addEnd, hk]
    · simp [Node.few, hes, Node.addEnd, hk]
  | cons i ks =>
    have hlist : ¬ limit < (es.filter (key · ≠ [])).length + 1 := by
      simp [hk] at h
      simpa using h
    unfold insert insertUses
    simp only [hk, List.getElem?_cons_zero]
    by_cases hes : es = []
    · simp [hes] at hlist
      simp [Node.few, hes, Node.ends, Node.list, hk, hlist]
    · have hlen : ¬ limit < ((es.filter (key · ≠ [])).reverse).length + 1 := by simpa using hlist
      simp only [Node.few, hes, ↓reduceIte, Node.ends, Node.list, hlen]
      simp [hk]

/-- As long as no more entries than the limit have keys, no table is made. -/
theorem insertAll_few (slots fuel : ℕ) {es : List α} (h : (es.filter (key · ≠ [])).length ≤ limit) :
    es.foldl (fun n a => insert key limit slots (fuel + 1) n a 0) .null = Node.few key es ∧
      insertAllUses key limit slots (fuel + 1) .null es = [] := by
  induction es using List.reverseRecOn with
  | nil => exact ⟨rfl, rfl⟩
  | append_singleton es a ih =>
    have hle : (es.filter (key · ≠ [])).length ≤ limit := by
      refine Nat.le_trans ?_ h
      rw [List.filter_append, List.length_append]
      exact Nat.le_add_right _ _
    obtain ⟨hnode, huses⟩ := ih hle
    obtain ⟨hnode', huses'⟩ := insert_few slots fuel h
    rw [List.foldl_append, insertAllUses_append, hnode, huses]
    exact ⟨hnode', by rw [insertAllUses, insertAllUses, huses']; rfl⟩

omit [DecidableEq ι] in
theorem findUses_few (es : List α) (ks : List ι) : findUses (Node.few key es) ks = [] := by
  unfold Node.few
  split_ifs <;> rfl

/-- With more, a table is made, and its places are used. -/
theorem insertAllUses_ne_nil (slots fuel : ℕ) {es : List α} (h : limit < (es.filter (key · ≠ [])).length) :
    insertAllUses key limit slots (fuel + 1) .null es ≠ [] := by
  induction es using List.reverseRecOn with
  | nil => exact absurd h (Nat.not_lt_zero limit)
  | append_singleton es a ih =>
    rw [insertAllUses_append]
    by_cases hes : limit < (es.filter (key · ≠ [])).length
    · exact List.append_ne_nil_of_left_ne_nil (ih hes) _
    · -- the entry that the table is made for
      apply List.append_ne_nil_of_right_ne_nil
      have hle := Nat.le_of_not_lt hes
      rw [(insertAll_few slots fuel hle).1, insertAllUses, insertAllUses, List.append_nil]
      cases hk : key a with
      | nil =>
        rw [List.filter_append, List.filter_cons_of_neg (by simp [hk]), List.filter_nil, List.append_nil] at h
        exact absurd h hes
      | cons i ks =>
        rw [List.filter_append, List.filter_cons_of_pos (by simp [hk]), List.length_append] at h
        have hbig : limit < (Node.few key es).list.length + 1 := by
          refine Nat.lt_of_lt_of_le h (Nat.succ_le_succ ?_)
          unfold Node.few
          split_ifs with hes
          · simp [hes]
          · simp [Node.list]
        unfold insertUses
        have hne : spreadUses key (fun n a => insert key limit slots fuel n a 1) (fun n a => insertUses key limit slots fuel n a 1) 0
            slots (fun _ => .null) (a :: (Node.few key es).list) ≠ [] := by
          simp [spreadUses, hk]
        have htable : ∀ ends slots' lookup, Node.few key es ≠ .table ends slots' lookup := by
          intro ends slots' lookup
          unfold Node.few
          split_ifs <;> exact nofun
        simp only [hk, List.getElem?_cons_zero]
        cases hfew : Node.few key es with
        | table ends slots' lookup => exact absurd hfew (htable _ _ _)
        | null =>
          rw [hfew] at hbig hne
          simpa [hbig] using hne
        | bucket ends list =>
          rw [hfew] at hbig hne
          simpa [hbig] using hne

end Few

/-! ### Other entries -/

section Map

variable {β : Type*} (f : α → β)

/-- A node with its entries replaced. -/
def Node.map : Node ι α → Node ι β
  | null => null
  | bucket ends list => bucket (ends.map f) (list.map f)
  | table ends slots lookup => table (ends.map f) slots fun i => (lookup i).map

theorem find_map : ∀ (n : Node ι α) (ks : List ι), find (n.map f) ks = (find n ks).map f
  | .null, _ => rfl
  | .bucket _ _, [] => rfl
  | .bucket _ _, _ :: _ => rfl
  | .table _ _ _, [] => rfl
  | .table _ _ lookup, i :: ks => find_map (lookup i) ks

variable [DecidableEq ι] {key : β → List ι} {limit slots : ℕ}

theorem spread_map {ins : Node ι β → β → Node ι β} {ins' : Node ι α → α → Node ι α}
    (h : ∀ n a, ins (n.map f) (f a) = (ins' n a).map f) (depth : ℕ) (lookup : ι → Node ι α) (a : α) :
    spread key ins depth (fun i => (lookup i).map f) (f a) = fun i => (spread (key ∘ f) ins' depth lookup a i).map f := by
  unfold spread
  dsimp only [Function.comp]
  cases (key (f a))[depth]? with
  | none => rfl
  | some i =>
    funext j
    by_cases hj : j = i
    · subst hj
      simp [h]
    · simp [hj]

theorem spread_foldl_map {ins : Node ι β → β → Node ι β} {ins' : Node ι α → α → Node ι α}
    (h : ∀ n a, ins (n.map f) (f a) = (ins' n a).map f) (depth : ℕ) : ∀ (l : List α) (lookup : ι → Node ι α),
    (l.map f).foldl (spread key ins depth) (fun i => (lookup i).map f) =
      fun i => (l.foldl (spread (key ∘ f) ins' depth) lookup i).map f
  | [], _ => rfl
  | a :: l, lookup => by
    rw [List.map_cons, List.foldl_cons, List.foldl_cons, spread_map f h, spread_foldl_map h depth l]

/-- Where entries go depends on their keys alone. -/
theorem insert_map : ∀ (fuel : ℕ) (n : Node ι α) (a : α) (depth : ℕ),
    insert key limit slots fuel (n.map f) (f a) depth = (insert (key ∘ f) limit slots fuel n a depth).map f
  | 0, _, _, _ => rfl
  | fuel + 1, n, a, depth => by
    have ih : ∀ n a, insert key limit slots fuel (Node.map f n) (f a) (depth + 1) =
        (insert (key ∘ f) limit slots fuel n a (depth + 1)).map f := fun n a => insert_map fuel n a (depth + 1)
    -- a new table
    have htable : ∀ l : List α,
        (l.map f).foldl (spread key (fun n a => insert key limit slots fuel n a (depth + 1)) depth) (fun _ => .null) =
          fun i => (l.foldl (spread (key ∘ f) (fun n a => insert (key ∘ f) limit slots fuel n a (depth + 1)) depth)
            (fun _ => .null) i).map f :=
      fun l => spread_foldl_map f ih depth l fun _ => .null
    unfold insert
    dsimp only [Function.comp]
    cases (key (f a))[depth]? with
    | none => cases n <;> rfl
    | some i =>
      cases n with
      | null =>
        by_cases hbig : limit < 1
        · simp only [Node.map, Node.list, Node.ends, List.length_nil, hbig, ↓reduceIte]
          exact congrArg (Node.table [] slots) (htable [a])
        · simp [Node.map, Node.list, Node.ends, hbig]
      | bucket ends list =>
        by_cases hbig : limit < list.length + 1
        · simp only [Node.map, Node.list, Node.ends, List.length_map, hbig, ↓reduceIte]
          exact congrArg (Node.table (ends.map f) slots) (htable (a :: list))
        · simp [Node.map, Node.list, Node.ends, hbig]
      | table ends slots' lookup => exact congrArg (Node.table (ends.map f) slots') (spread_map f ih depth lookup a)

theorem insertAll_map (fuel : ℕ) : ∀ (es : List α) (n : Node ι α),
    (es.map f).foldl (fun n a => insert key limit slots fuel n a 0) (n.map f) =
      (es.foldl (fun n a => insert (key ∘ f) limit slots fuel n a 0) n).map f
  | [], _ => rfl
  | a :: es, n => by
    rw [List.map_cons, List.foldl_cons, List.foldl_cons, insert_map, insertAll_map fuel es]

end Map

/-! ### What a node holds -/

section Fits

variable (key : α → List ι) (bound : ℕ)

/-- An entry whose key goes on below the path `p`, and is no longer than the bound. -/
def Below (p : List ι) (x : α) : Prop := p <+: key x ∧ p.length < (key x).length ∧ (key x).length ≤ bound

/-- A node at the path `p`: the entries in a bucket are below it. -/
def Fits : List ι → Node ι α → Prop
  | _, .null => True
  | p, .bucket _ list => ∀ x ∈ list, Below key bound p x
  | p, .table _ _ lookup => ∀ i, Fits (p ++ [i]) (lookup i)

/-- `n'` is the node `n` at the path `p` with the entries `xs` more: a search that looks for keys comes to the
old entries and the new ones. -/
structure Adds (p : List ι) (n n' : Node ι α) (xs : List α) : Prop where
  fits : Fits key bound p n'
  found : ∀ (ks : List ι) (q : α → Bool), (∀ x, q x → key x = p ++ ks) →
    ((find n' ks).filter q).Perm ((xs ++ find n ks).filter q)

variable {key bound} {p : List ι} {n n' n'' : Node ι α} {xs ys : List α}

theorem Adds.refl (h : Fits key bound p n) : Adds key bound p n n [] := ⟨h, fun _ _ _ => .refl _⟩

theorem Adds.trans (h : Adds key bound p n n' xs) (h' : Adds key bound p n' n'' ys) :
    Adds key bound p n n'' (xs ++ ys) := by
  refine ⟨h'.fits, fun ks q hq => ?_⟩
  have hnew := h'.found ks q hq
  have hold := h.found ks q hq
  simp only [List.filter_append] at hnew hold ⊢
  calc (find n'' ks).filter q
      ~ ys.filter q ++ (find n' ks).filter q := hnew
    _ ~ ys.filter q ++ (xs.filter q ++ (find n ks).filter q) := hold.append_left _
    _ ~ xs.filter q ++ ys.filter q ++ (find n ks).filter q := by
      rw [List.append_assoc]
      exact List.perm_append_comm_assoc _ _ _

/-- An entry that is not looked for makes no difference. -/
theorem perm_not_looked_for {q : α → Bool} {a : α} (h : ¬ q a) (l : List α) : l.filter q ~ ([a] ++ l).filter q := by
  rw [List.singleton_append, List.filter_cons_of_neg h]

/-- More entries whose key ends at the node. -/
theorem addEnd_adds {a : α} (h : Fits key bound p n) (ha : key a = p) : Adds key bound p n (n.addEnd a) [a] := by
  -- a search that goes on from here looks for other keys
  have hpass : ∀ (i : ι) (ks : List ι) (q : α → Bool), (∀ x, q x → key x = p ++ i :: ks) → ¬ q a :=
    fun i ks q hq hqa => by simpa [ha] using hq a hqa
  refine ⟨?_, fun ks q hq => ?_⟩
  · cases n with
    | null => simp [Node.addEnd, Fits]
    | bucket ends list => exact h
    | table ends slots lookup => exact h
  · cases ks with
    | nil => cases n <;> exact .refl _
    | cons i ks =>
      have hsame := perm_not_looked_for (hpass i ks q hq)
      cases n <;> exact hsame _

/-! ### Insertion -/

variable [DecidableEq ι] {limit slots : ℕ} {ins : Node ι α → α → Node ι α}

/-- An entry passed on to the children of a node at the path `p`. -/
theorem spread_adds {lookup : ι → Node ι α} {a : α} (hfits : ∀ i, Fits key bound (p ++ [i]) (lookup i))
    (ha : p <+: key a) (hlt : p.length < (key a).length)
    (hins : ∀ i, p ++ [i] <+: key a → Adds key bound (p ++ [i]) (lookup i) (ins (lookup i) a) [a]) :
    (∀ i, Fits key bound (p ++ [i]) (spread key ins p.length lookup a i)) ∧
      ∀ (i : ι) (ks : List ι) (q : α → Bool), (∀ x, q x → key x = p ++ i :: ks) →
        (find (spread key ins p.length lookup a i) ks).filter q ~ ([a] ++ find (lookup i) ks).filter q := by
  obtain ⟨t, ht⟩ := ha
  obtain ⟨j, t, rfl⟩ := List.exists_cons_of_ne_nil (show t ≠ [] by rintro rfl; simp [← ht] at hlt)
  have hget : (key a)[p.length]? = some j := by simp [← ht]
  have hj := hins j ⟨t, by simp [← ht]⟩
  simp only [spread, hget]
  constructor
  · intro i
    by_cases hij : i = j
    · subst hij
      rw [Function.update_self]
      exact hj.fits
    · rw [Function.update_of_ne hij]
      exact hfits i
  · intro i ks q hq
    by_cases hij : i = j
    · subst hij
      rw [Function.update_self]
      exact hj.found ks q fun x hx => by simpa using hq x hx
    · -- the entry is not one of the child's
      rw [Function.update_of_ne hij]
      apply perm_not_looked_for
      intro hqa
      have hkey := hq a hqa
      rw [← ht, List.append_cancel_left_eq] at hkey
      exact hij (List.cons.inj hkey).1.symm

/-- A list of entries passed on to the children, one after the other. -/
theorem spread_foldl {l : List α} (hl : ∀ x ∈ l, Below key bound p x)
    (hins : ∀ (i : ι) (n : Node ι α), Fits key bound (p ++ [i]) n → ∀ x, p ++ [i] <+: key x → (key x).length ≤ bound →
      Adds key bound (p ++ [i]) n (ins n x) [x]) :
    ∀ {lookup : ι → Node ι α}, (∀ i, Fits key bound (p ++ [i]) (lookup i)) →
      (∀ i, Fits key bound (p ++ [i]) (l.foldl (spread key ins p.length) lookup i)) ∧
        ∀ (i : ι) (ks : List ι) (q : α → Bool), (∀ x, q x → key x = p ++ i :: ks) →
          (find (l.foldl (spread key ins p.length) lookup i) ks).filter q ~ (l ++ find (lookup i) ks).filter q := by
  induction l with
  | nil => exact fun hfits => ⟨hfits, fun _ _ _ _ => .refl _⟩
  | cons x l ih =>
    intro lookup hfits
    obtain ⟨⟨hpre, hlt, hle⟩, hl⟩ := List.forall_mem_cons.mp hl
    obtain ⟨hfits', hx⟩ := spread_adds hfits hpre hlt fun i hi => hins i _ (hfits i) x hi hle
    obtain ⟨hfold, hrest⟩ := ih hl hfits'
    refine ⟨hfold, fun i ks q hq => ?_⟩
    have hnew := hrest i ks q hq
    have hold := hx i ks q hq
    rw [List.filter_append] at hnew hold
    rw [List.foldl_cons, List.cons_append, ← List.singleton_append, List.filter_append, List.filter_append]
    calc (find (l.foldl (spread key ins p.length) (spread key ins p.length lookup x) i) ks).filter q
        ~ l.filter q ++ (find (spread key ins p.length lookup x i) ks).filter q := hnew
      _ ~ l.filter q ++ ([x].filter q ++ (find (lookup i) ks).filter q) := hold.append_left _
      _ ~ [x].filter q ++ (l.filter q ++ (find (lookup i) ks).filter q) := List.perm_append_comm_assoc _ _ _

/-- An entry that goes on below a node without a table. -/
theorem push_adds {a : α} (ha : Below key bound p a) (hlist : ∀ x ∈ n.list, Below key bound p x) (hends : find n [] = n.ends)
    (hfind : ∀ i ks, find n (i :: ks) = n.list)
    (hins : ∀ (i : ι) (n : Node ι α), Fits key bound (p ++ [i]) n → ∀ x, p ++ [i] <+: key x → (key x).length ≤ bound →
      Adds key bound (p ++ [i]) n (ins n x) [x]) :
    Adds key bound p n (if limit < n.list.length + 1 then
        .table n.ends slots ((a :: n.list).foldl (spread key ins p.length) fun _ => .null)
      else .bucket n.ends (a :: n.list)) [a] := by
  have hall : ∀ x ∈ a :: n.list, Below key bound p x := List.forall_mem_cons.mpr ⟨ha, hlist⟩
  -- its key does not end here
  have hend : ∀ q : α → Bool, (∀ x, q x → key x = p ++ []) → (n.ends).filter q ~ ([a] ++ n.ends).filter q := by
    intro q hq
    apply perm_not_looked_for
    intro hqa
    have hlt := ha.2.1
    simp [hq a hqa] at hlt
  split_ifs
  · obtain ⟨hfits, hfound⟩ := spread_foldl hall hins (show ∀ i, Fits key bound (p ++ [i]) ((fun _ => .null : ι → Node ι α) i) from fun _ => trivial)
    refine ⟨hfits, fun ks q hq => ?_⟩
    cases ks with
    | nil => rw [hends]; exact hend q hq
    | cons i ks =>
      rw [hfind]
      simpa [find] using hfound i ks q hq
  · refine ⟨hall, fun ks q hq => ?_⟩
    cases ks with
    | nil => rw [hends]; exact hend q hq
    | cons i ks => rw [hfind]; exact .refl _

/-- An insertion adds its entry, with enough depth left. -/
theorem insert_adds : ∀ (fuel : ℕ) (n : Node ι α) (a : α) (p : List ι), Fits key bound p n → p <+: key a →
    (key a).length ≤ bound → bound < p.length + fuel →
      Adds key bound p n (insert key limit slots fuel n a p.length) [a]
  | 0, n, a, p, hfits, hpre, hle, hfuel => by
    have := hpre.length_le
    omega
  | fuel + 1, n, a, p, hfits, hpre, hle, hfuel => by
    have hins : ∀ (i : ι) (n : Node ι α), Fits key bound (p ++ [i]) n → ∀ x, p ++ [i] <+: key x → (key x).length ≤ bound →
        Adds key bound (p ++ [i]) n (insert key limit slots fuel n x (p.length + 1)) [x] := by
      intro i n hn x hx hlex
      have := insert_adds fuel n x (p ++ [i]) hn hx hlex (by simp; omega)
      rwa [List.length_append, List.length_singleton] at this
    unfold insert
    cases hget : (key a)[p.length]? with
    | none =>
      have hlen := List.getElem?_eq_none_iff.mp hget
      exact addEnd_adds hfits (hpre.eq_of_length_le hlen).symm
    | some i =>
      have hlt : p.length < (key a).length := (List.getElem?_eq_some_iff.mp hget).1
      cases n with
      | null => exact push_adds ⟨hpre, hlt, hle⟩ (by simp [Node.list]) rfl (fun _ _ => rfl) hins
      | bucket ends list => exact push_adds ⟨hpre, hlt, hle⟩ hfits rfl (fun _ _ => rfl) hins
      | table ends slots' lookup =>
        obtain ⟨hsf, hsp⟩ := @spread_adds α ι key bound p _ (fun n a => insert key limit slots fuel n a (p.length + 1))
          lookup a hfits hpre hlt fun i hi => hins i _ (hfits i) a hi hle
        refine ⟨hsf, fun ks q hq => ?_⟩
        cases ks with
        | nil =>
          apply perm_not_looked_for
          intro hqa
          simp [hq a hqa] at hlt
        | cons i ks => exact hsp i ks q hq

/-- **Nothing is lost and nothing twice.** Of what a search for a key comes to, the entries with the key are those
inserted with it. -/
theorem find_insertAll {es : List α} {fuel : ℕ} (hes : ∀ a ∈ es, (key a).length ≤ bound) (hfuel : bound < fuel)
    (ks : List ι) (q : α → Bool) (hq : ∀ x, q x → key x = ks) :
    (find (es.foldl (fun n a => insert key limit slots fuel n a 0) .null) ks).filter q ~ es.filter q := by
  have hadds : Adds key bound [] .null (es.foldl (fun n a => insert key limit slots fuel n a 0) .null) es := by
    induction es using List.reverseRecOn with
    | nil => exact .refl trivial
    | append_singleton es a ih =>
      have hinit := ih fun x hx => hes x (List.mem_append_left _ hx)
      rw [List.foldl_append]
      exact hinit.trans (insert_adds fuel _ a [] hinit.fits List.nil_prefix (hes a (by simp)) (by simpa using hfuel))
  simpa [find] using hadds.found ks q hq

end Fits

end BucketTrie
