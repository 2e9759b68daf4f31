import Mathlib.Algebra.BigOperators.Group.Multiset.Basic
import Mathlib.Algebra.BigOperators.Group.List.Lemmas
import Mathlib.Algebra.Order.BigOperators.Group.List
import Mathlib.Tactic.Ring

/-!
# Option strings: pieces between single separators

The usual grammar of command-line option strings. A string is split at every single
separator; a doubled separator stands for one literal separator inside a piece. Each
piece is a key and a value, split at its first equals sign.

A string is *written* by joining pieces with separators. `unordered_pieces_intercalate_iff`
says when a family of strings written without doubling anything reads back as the
pieces it was written from, in whatever order the readers list them: exactly when no
piece contains the separator. The proof counts: reading accounts for every element of
the string once, and for every literal separator twice (`sum_weight_pieces`), while
writing puts in every element of a piece once. `unordered_read_write_iff` is the same
for keys and values.
-/

namespace OptionString

universe u v

variable {α : Type u} [DecidableEq α]

/-! ## Pieces -/

/-- Split at single separators, reading a doubled one as one literal separator. -/
def pieces (sep : α) : List α → List (List α)
  | [] => [[]]
  | [a] => if a = sep then [[], []] else [[a]]
  | a :: b :: l =>
    if a = sep then
      if b = sep then (pieces sep l).modifyHead (sep :: ·) else [] :: pieces sep (b :: l)
    else (pieces sep (b :: l)).modifyHead (a :: ·)

variable {sep : α}

theorem pieces_cons_of_ne {a : α} (ha : a ≠ sep) (l : List α) :
    pieces sep (a :: l) = (pieces sep l).modifyHead (a :: ·) := by
  cases l with
  | nil => simp [pieces, ha]
  | cons b l => rw [pieces, if_neg ha]

theorem pieces_sep_of_head {l : List α} (hl : l.head? ≠ some sep) :
    pieces sep (sep :: l) = [] :: pieces sep l := by
  cases l with
  | nil => simp [pieces]
  | cons b l =>
    have hb : b ≠ sep := fun heq => hl (by rw [heq, List.head?_cons])
    rw [pieces, if_pos rfl, if_neg hb]

theorem pieces_ne_nil (l : List α) : pieces sep l ≠ [] := by
  fun_induction pieces sep l <;> simp_all

/-- A separator-free list in front goes to the first piece. -/
theorem pieces_append_of_notMem {t : List α} (ht : sep ∉ t) (l : List α) :
    pieces sep (t ++ l) = (pieces sep l).modifyHead (t ++ ·) := by
  induction t with
  | nil =>
    rcases h : pieces sep l with _ | ⟨p, ps⟩
    · exact absurd h (pieces_ne_nil l)
    · simp [h]
  | cons a t ih =>
    rw [List.mem_cons, not_or] at ht
    rw [List.cons_append, pieces_cons_of_ne (Ne.symm ht.1), ih ht.2]
    rcases pieces sep l with _ | ⟨p, ps⟩ <;> rfl

omit [DecidableEq α] in
/-- What is written from a non-empty separator-free piece on does not start with a
separator. -/
theorem head?_intercalate {t : List α} (hne : t ≠ []) (ht : sep ∉ t) (ts : List (List α)) :
    ([sep].intercalate (t :: ts)).head? ≠ some sep := by
  rcases t with _ | ⟨b, t⟩
  · exact absurd rfl hne
  · have hb : b ≠ sep := fun heq => ht (by rw [heq]; exact List.mem_cons_self)
    rcases ts with _ | ⟨t', ts⟩
    · simpa using hb
    · simpa [List.intercalate_cons_cons] using hb

/-- Non-empty separator-free pieces read back as they were written. -/
theorem pieces_intercalate {ts : List (List α)} (hts : ts ≠ []) (hne : ∀ t ∈ ts, t ≠ [])
    (hsep : ∀ t ∈ ts, sep ∉ t) : pieces sep ([sep].intercalate ts) = ts := by
  induction ts with
  | nil => exact absurd rfl hts
  | cons t ts ih =>
    obtain ⟨-, hne'⟩ := List.forall_mem_cons.mp hne
    obtain ⟨ht, hsep'⟩ := List.forall_mem_cons.mp hsep
    rcases ts with _ | ⟨t', ts⟩
    · have := pieces_append_of_notMem ht []
      rw [List.append_nil, pieces, List.modifyHead_cons, List.append_nil] at this
      rw [List.intercalate_singleton, this]
    · have hrest := ih (by simp) hne' hsep'
      -- the next piece is non-empty and separator-free, so this separator is single
      have hhead : ([sep].intercalate (t' :: ts)).head? ≠ some sep :=
        head?_intercalate (hne' t' List.mem_cons_self) (hsep' t' List.mem_cons_self) ts
      rw [List.intercalate_cons_cons, List.append_assoc, pieces_append_of_notMem ht,
        List.singleton_append, pieces_sep_of_head hhead, hrest, List.modifyHead_cons,
        List.append_nil]

/-! ## Counting -/

/-- What a piece takes up in a string that doubles literal separators, with the
separator before or after it. -/
def weight (sep : α) (t : List α) : ℕ := t.length + t.count sep + 1

theorem sum_weight_modifyHead {a : α} {k : ℕ} {ps : List (List α)} (hps : ps ≠ [])
    (hk : ∀ t, weight sep (a :: t) = weight sep t + k) :
    ((ps.modifyHead (a :: ·)).map (weight sep)).sum = (ps.map (weight sep)).sum + k := by
  rcases ps with _ | ⟨p, ps⟩
  · exact absurd rfl hps
  · rw [List.modifyHead_cons, List.map_cons, List.map_cons, List.sum_cons, List.sum_cons, hk]
    omega

/-- Reading accounts for the whole string: every literal separator counts twice. -/
theorem sum_weight_pieces (l : List α) :
    ((pieces sep l).map (weight sep)).sum = l.length + 1 := by
  have hsep : ∀ t : List α, weight sep (sep :: t) = weight sep t + 2 := by
    intro t
    simp only [weight, List.length_cons, List.count_cons_self]
    omega
  have hne : ∀ {a : α}, a ≠ sep → ∀ t : List α, weight sep (a :: t) = weight sep t + 1 := by
    intro a ha t
    simp only [weight, List.length_cons, List.count_cons_of_ne ha]
    omega
  fun_induction pieces sep l with
  | case1 => simp [weight]
  | case2 => simp [weight]
  | case3 a ha => simp [weight, ha]
  | case4 l ih =>
    rw [sum_weight_modifyHead (pieces_ne_nil l) hsep, ih]
    simp only [List.length_cons]
  | case5 b l hb ih =>
    rw [List.map_cons, List.sum_cons, ih]
    simp only [weight, List.length_cons, List.length_nil, List.count_nil]
    omega
  | case6 a b l ha ih =>
    rw [sum_weight_modifyHead (pieces_ne_nil _) (hne ha), ih]
    simp only [List.length_cons]

omit [DecidableEq α] in
/-- Writing puts in every piece and one separator less than there are pieces. -/
theorem length_intercalate {ts : List (List α)} (hts : ts ≠ []) :
    ([sep].intercalate ts).length + 1 = (ts.map fun t => t.length + 1).sum := by
  induction ts with
  | nil => exact absurd rfl hts
  | cons t ts ih =>
    rcases ts with _ | ⟨t', ts⟩
    · simp
    · have := ih (by simp)
      rw [List.intercalate_cons_cons, List.map_cons, List.sum_cons, ← this]
      simp only [List.length_append, List.length_singleton]
      omega

/-- The total weight of written pieces exceeds what was written by the number of
literal separators. -/
theorem sum_weight_eq {ts : List (List α)} (hts : ts ≠ []) :
    (ts.map (weight sep)).sum =
      ([sep].intercalate ts).length + 1 + (ts.map (List.count sep)).sum := by
  rw [length_intercalate hts, ← List.sum_map_add]
  refine congrArg List.sum (List.map_congr_left fun t _ => ?_)
  simp only [weight]
  omega

/-- Rows without the order of the rows and without the order inside a row. -/
def unordered {β : Type v} (rows : List (List β)) : Multiset (Multiset β) :=
  Multiset.ofList (rows.map Multiset.ofList)

omit [DecidableEq α] in
/-- An injective reading of the elements loses nothing. -/
theorem unordered_map_inj {β : Type v} {f : α → β} (hf : Function.Injective f)
    {rows rows' : List (List α)} :
    unordered (rows.map (List.map f)) = unordered (rows'.map (List.map f)) ↔
      unordered rows = unordered rows' := by
  have hmap : ∀ rs : List (List α),
      unordered (rs.map (List.map f)) = (unordered rs).map (Multiset.map f) := by
    intro rs
    simp [unordered, Function.comp_def]
  rw [hmap, hmap]
  exact (Multiset.map_injective (Multiset.map_injective hf)).eq_iff

/-- The total weight of all rows. -/
theorem sum_weight_unordered (rows : List (List (List α))) :
    ((unordered rows).map fun r => (r.map (weight sep)).sum).sum =
      (rows.map fun ts => (ts.map (weight sep)).sum).sum := by
  simp [unordered, Function.comp_def]

/-- **Reading back what was written without doubling.** A family of strings, each the
pieces of a row joined by separators, reads back as those pieces, up to the order of the
rows and of the pieces in a row, exactly when no piece contains the separator. -/
theorem unordered_pieces_intercalate_iff {rows : List (List (List α))}
    (hrows : ∀ ts ∈ rows, ts ≠ []) (hne : ∀ ts ∈ rows, ∀ t ∈ ts, t ≠ []) :
    unordered (rows.map fun ts => pieces sep ([sep].intercalate ts)) = unordered rows ↔
      ∀ ts ∈ rows, ∀ t ∈ ts, sep ∉ t := by
  refine ⟨?_, ?_⟩
  · intro h
    -- compare the total weights of both sides
    have hweight := congrArg
      (fun m : Multiset (Multiset (List α)) => (m.map fun r => (r.map (weight sep)).sum).sum) h
    simp only [sum_weight_unordered, List.map_map, Function.comp_def] at hweight
    have hread : (rows.map fun ts => ((pieces sep ([sep].intercalate ts)).map (weight sep)).sum).sum
        = (rows.map fun ts => ([sep].intercalate ts).length + 1).sum :=
      congrArg List.sum (List.map_congr_left fun ts _ => sum_weight_pieces _)
    have hwritten : (rows.map fun ts => (ts.map (weight sep)).sum).sum =
        (rows.map fun ts => ([sep].intercalate ts).length + 1).sum +
          (rows.map fun ts => (ts.map (List.count sep)).sum).sum := by
      rw [← List.sum_map_add]
      exact congrArg List.sum (List.map_congr_left fun ts hts => sum_weight_eq (hrows ts hts))
    have hzero : (rows.map fun ts => (ts.map (List.count sep)).sum).sum = 0 := by omega
    intro ts hts t ht
    have hts0 : (ts.map (List.count sep)).sum = 0 :=
      List.sum_eq_zero_iff.mp hzero _ (List.mem_map_of_mem hts)
    have ht0 : t.count sep = 0 := List.sum_eq_zero_iff.mp hts0 _ (List.mem_map_of_mem ht)
    exact List.count_eq_zero.mp ht0
  · intro h
    have hid : (rows.map fun ts => pieces sep ([sep].intercalate ts)) = rows.map id :=
      List.map_congr_left fun ts hts => pieces_intercalate (hrows ts hts) (hne ts hts) (h ts hts)
    rw [hid, List.map_id]

/-! ## Keys and values -/

/-- Split a piece at its first equals sign; without one it is a key of its own. -/
def keyValue (eq : α) (t : List α) : List α × Option (List α) :=
  (t.takeWhile (· ≠ eq),
    match t.dropWhile (· ≠ eq) with
    | [] => none
    | _ :: v => some v)

variable {eq : α}

theorem keyValue_append {k : List α} (hk : eq ∉ k) (v : List α) :
    keyValue eq (k ++ eq :: v) = (k, some v) := by
  have hk' : ∀ a ∈ k, decide (a ≠ eq) = true :=
    fun a ha => decide_eq_true fun heq => hk (heq ▸ ha)
  rw [keyValue, List.takeWhile_append_of_pos hk', List.dropWhile_append_of_pos hk']
  simp

/-- Key and value determine the piece. -/
theorem keyValue_injective : Function.Injective (keyValue eq) := by
  have hpiece : ∀ t : List α, t = match keyValue eq t with
      | (k, none) => k
      | (k, some v) => k ++ eq :: v := by
    intro t
    have hsplit := List.takeWhile_append_dropWhile (p := (· ≠ eq)) (l := t)
    rcases hd : t.dropWhile (· ≠ eq) with _ | ⟨a, v⟩
    · rw [hd, List.append_nil] at hsplit
      simp only [keyValue, hd]
      exact hsplit.symm
    · have ha : a = eq := by
        have hhead := List.head_dropWhile_not (· ≠ eq) (l := t) (by rw [hd]; simp)
        simp only [hd] at hhead
        exact not_not.mp (of_decide_eq_false hhead)
      rw [hd, ha] at hsplit
      simp only [keyValue, hd]
      exact hsplit.symm
  intro t t' h
  rw [hpiece t, hpiece t', h]

/-! ## Reading and writing options -/

/-- Write options, a key and a value each, without doubling anything. -/
def write (sep eq : α) (options : List (List α × List α)) : List α :=
  [sep].intercalate (options.map fun o => o.1 ++ eq :: o.2)

/-- Read an option string. -/
def read (sep eq : α) (l : List α) : List (List α × Option (List α)) :=
  (pieces sep l).map (keyValue eq)

/-- **Option strings read back**, up to order, exactly when no value contains the
separator; the keys are to contain neither separator nor equals sign. -/
theorem unordered_read_write_iff {rows : List (List (List α × List α))} (heq : eq ≠ sep)
    (hrows : ∀ options ∈ rows, options ≠ [])
    (hkeys : ∀ options ∈ rows, ∀ o ∈ options, eq ∉ o.1 ∧ sep ∉ o.1) :
    unordered (rows.map fun options => read sep eq (write sep eq options)) =
        unordered (rows.map (List.map fun o => (o.1, some o.2))) ↔
      ∀ options ∈ rows, ∀ o ∈ options, sep ∉ o.2 := by
  -- the pieces of each row, as they are written
  let written : List (List (List α)) := rows.map (List.map fun o => o.1 ++ eq :: o.2)
  have hread : (rows.map fun options => read sep eq (write sep eq options)) =
      (written.map fun ts => pieces sep ([sep].intercalate ts)).map (List.map (keyValue eq)) := by
    rw [List.map_map, List.map_map]
    rfl
  have hwant : rows.map (List.map fun o => (o.1, some o.2)) =
      written.map (List.map (keyValue eq)) := by
    rw [List.map_map]
    refine List.map_congr_left fun options hoptions => ?_
    rw [Function.comp_apply, List.map_map]
    refine List.map_congr_left fun o ho => ?_
    rw [Function.comp_apply, keyValue_append (hkeys options hoptions o ho).1]
  have hnotMem : (∀ ts ∈ written, ∀ t ∈ ts, sep ∉ t) ↔
      ∀ options ∈ rows, ∀ o ∈ options, sep ∉ o.2 := by
    simp only [written, List.forall_mem_map, List.mem_append, List.mem_cons, not_or]
    refine ⟨fun h options hoptions o ho => (h options hoptions o ho).2.2, ?_⟩
    exact fun h options hoptions o ho =>
      ⟨(hkeys options hoptions o ho).2, heq.symm, h options hoptions o ho⟩
  rw [hread, hwant, unordered_map_inj keyValue_injective, unordered_pieces_intercalate_iff ?_ ?_,
    hnotMem]
  · simpa [written] using hrows
  · simp only [written, List.forall_mem_map]
    exact fun options _ o _ => by simp

end OptionString
