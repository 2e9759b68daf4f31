import Mathlib.Data.List.SplitBy

/-!
# Tokens: maximal runs between separators

A separator is any element satisfying `p`. Two readings of a list are compared:

* `runs p l` — the maximal runs of non-separators, in order. `spaced_iff` is its
  specification: `runs p l` is the one list of tokens from which `l` can be typed,
  putting at least one separator between tokens and any number around them;
* `l.splitOnP p` — the pieces between *consecutive* separators, some of them empty.

`filter_splitOnP` says the runs are the non-empty pieces, and `split_eq_runs_iff` when
there are no empty ones: exactly when the list is `Tight`. `splitOn_eq_iff` characterizes
the pieces by what they are put together to.
-/

namespace Tokens

universe u

variable {α : Type u} (p : α → Bool)

/-- The maximal runs of non-separators. -/
def runs : List α → List (List α)
  | [] => []
  | a :: l =>
    if p a then runs l
    else if l.head?.all p then [a] :: runs l
    else (runs l).modifyHead (a :: ·)

/-- `Spaced p ts l`: the tokens `ts` can be typed as `l`. Tokens are non-empty and free
of separators, and what follows a token starts with a separator or is empty. -/
inductive Spaced : List (List α) → List α → Prop where
  /-- no tokens, separators only -/
  | blank {gap : List α} : (∀ a ∈ gap, p a = true) → Spaced [] gap
  /-- any number of separators, a token, and the rest -/
  | token {gap t rest : List α} {ts : List (List α)} :
      (∀ a ∈ gap, p a = true) → t ≠ [] → (∀ a ∈ t, p a = false) →
      (∀ a ∈ rest.head?, p a = true) → Spaced ts rest →
      Spaced (t :: ts) (gap ++ (t ++ rest))

variable {p}

/-! ## The specification of `runs` -/

/-- One more separator in front types the same tokens. -/
theorem Spaced.cons_sep {ts : List (List α)} {l : List α} {a : α} (h : Spaced p ts l)
    (ha : p a = true) : Spaced p ts (a :: l) := by
  cases h with
  | blank hgap => exact .blank (List.forall_mem_cons.mpr ⟨ha, hgap⟩)
  | token hgap hne ht hrest hts =>
    exact .token (List.forall_mem_cons.mpr ⟨ha, hgap⟩) hne ht hrest hts

/-- A list starting with a non-separator starts with its first token. -/
theorem Spaced.head_token {ts : List (List α)} {l : List α} {b : α}
    (h : Spaced p ts l) (hl : l.head? = some b) (hb : p b = false) :
    ∃ t ts' rest, ts = t :: ts' ∧ l = t ++ rest ∧ (∀ a ∈ t, p a = false) ∧
      (∀ a ∈ rest.head?, p a = true) ∧ Spaced p ts' rest := by
  cases h with
  | blank hgap =>
    have : p b = true := hgap b (List.mem_of_mem_head? (Option.mem_def.mpr hl))
    rw [hb] at this
    cases this
  | @token gap t rest ts hgap hne ht hrest hts =>
    cases gap with
    | nil => exact ⟨t, ts, rest, rfl, rfl, ht, hrest, hts⟩
    | cons g gap =>
      obtain rfl : g = b := by simpa using hl
      rw [hgap g List.mem_cons_self] at hb
      cases hb

/-- Every list can be typed from its runs. -/
theorem spaced_runs (l : List α) : Spaced p (runs p l) l := by
  induction l with
  | nil => exact .blank (by simp)
  | cons a l ih =>
    by_cases ha : p a = true
    · rw [runs, if_pos ha]
      exact ih.cons_sep ha
    · have ha' : p a = false := Bool.eq_false_iff.mpr ha
      rw [runs, if_neg ha]
      by_cases hl : l.head?.all p = true
      · rw [if_pos hl]
        have hrest : ∀ b ∈ l.head?, p b = true := by
          intro b hb
          rw [Option.mem_def.mp hb] at hl
          exact hl
        change Spaced p ([a] :: runs p l) ([] ++ ([a] ++ l))
        exact .token (by simp) (by simp) (by simpa using ha') hrest ih
      · -- the run that starts at `a` goes on with the first run of `l`
        rw [if_neg hl]
        rcases hb : l.head? with _ | b
        · rw [hb] at hl
          simp at hl
        · rw [hb] at hl
          have hpb : p b = false := by simpa using hl
          obtain ⟨t, ts, rest, hruns, rfl, ht, hrest, hts⟩ := ih.head_token hb hpb
          rw [hruns, List.modifyHead_cons]
          change Spaced p ((a :: t) :: ts) ([] ++ ((a :: t) ++ rest))
          exact .token (by simp) (by simp) (List.forall_mem_cons.mpr ⟨ha', ht⟩) hrest hts

/-- Separators in front do not matter. -/
theorem runs_append_of_sep {gap : List α} (hgap : ∀ a ∈ gap, p a = true) (l : List α) :
    runs p (gap ++ l) = runs p l := by
  induction gap with
  | nil => rfl
  | cons a gap ih =>
    obtain ⟨ha, hgap⟩ := List.forall_mem_cons.mp hgap
    rw [List.cons_append, runs, if_pos ha, ih hgap]

/-- A token followed by a separator, or by nothing, is the first run. -/
theorem runs_token_append {t rest : List α} (hne : t ≠ []) (ht : ∀ a ∈ t, p a = false)
    (hrest : ∀ a ∈ rest.head?, p a = true) : runs p (t ++ rest) = t :: runs p rest := by
  induction t with
  | nil => exact absurd rfl hne
  | cons a t ih =>
    obtain ⟨ha, ht⟩ := List.forall_mem_cons.mp ht
    rw [List.cons_append, runs, if_neg (by simp [ha])]
    rcases t with _ | ⟨b, t⟩
    · have hall : rest.head?.all p = true := by
        rcases hr : rest.head? with _ | c
        · rfl
        · exact hrest c hr
      rw [List.nil_append, if_pos hall]
    · have hb : p b = false := ht b List.mem_cons_self
      rw [if_neg (by simp [hb]), ih (by simp) ht, List.modifyHead_cons]

/-- **Specification of `runs`**: the runs of a list are exactly the tokens it can be
typed from. -/
theorem spaced_iff {ts : List (List α)} {l : List α} : Spaced p ts l ↔ ts = runs p l := by
  refine ⟨?_, ?_⟩
  · intro h
    induction h with
    | blank hgap =>
      have := runs_append_of_sep hgap []
      rw [List.append_nil] at this
      rw [this, runs]
    | token hgap hne ht hrest _ ih =>
      rw [runs_append_of_sep hgap, runs_token_append hne ht hrest, ← ih]
  · rintro rfl
    exact spaced_runs l

/-! ## Runs and pieces -/

/-- The runs are the non-empty pieces between consecutive separators. -/
theorem filter_splitOnP (l : List α) : (l.splitOnP p).filter (fun t => !t.isEmpty) = runs p l := by
  induction l with
  | nil => simp [runs]
  | cons a l ih =>
    rw [List.splitOnP_cons_eq_if_modifyHead, runs]
    by_cases ha : p a = true
    · rw [if_pos ha, if_pos ha, List.filter_cons_of_neg (by simp), ih]
    · rw [if_neg ha, if_neg ha]
      rcases l with _ | ⟨b, l⟩
      · simp [runs]
      · rw [List.splitOnP_cons_eq_if_modifyHead] at ih ⊢
        by_cases hb : p b = true
        · rw [if_pos hb] at ih ⊢
          rw [List.filter_cons_of_neg (by simp)] at ih
          rw [List.modifyHead_cons, List.filter_cons_of_pos (by simp), ih, if_pos (by simp [hb])]
        · rw [if_neg hb] at ih ⊢
          rw [if_neg (by simp [hb]), ← ih]
          rcases hs : l.splitOnP p with _ | ⟨t, ts⟩
          · exact absurd hs (List.splitOnP_ne_nil p l)
          · simp

/-- No piece contains a separator. -/
theorem forall_mem_splitOnP (l : List α) : ∀ t ∈ l.splitOnP p, ∀ a ∈ t, p a = false := by
  induction l with
  | nil => simp
  | cons a l ih =>
    rw [List.splitOnP_cons_eq_if_modifyHead]
    by_cases ha : p a = true
    · rw [if_pos ha]
      exact List.forall_mem_cons.mpr ⟨by simp, ih⟩
    · rw [if_neg ha]
      rcases hs : l.splitOnP p with _ | ⟨t, ts⟩
      · exact absurd hs (List.splitOnP_ne_nil p l)
      · rw [hs] at ih
        obtain ⟨ht, hts⟩ := List.forall_mem_cons.mp ih
        rw [List.modifyHead_cons]
        refine List.forall_mem_cons.mpr ⟨?_, hts⟩
        exact List.forall_mem_cons.mpr ⟨Bool.eq_false_iff.mpr ha, ht⟩

/-- **Splitting at one element**: the pieces are the one non-empty list of lists without
that element that the list is put together from with the element in between. -/
theorem splitOn_eq_iff [BEq α] [LawfulBEq α] {x : α} {l : List α} {ts : List (List α)} :
    l.splitOn x = ts ↔ ts ≠ [] ∧ (∀ t ∈ ts, x ∉ t) ∧ [x].intercalate ts = l := by
  refine ⟨?_, ?_⟩
  · rintro rfl
    refine ⟨List.splitOn_ne_nil x l, ?_, List.intercalate_splitOn x⟩
    intro t ht hmem
    have hne := forall_mem_splitOnP (p := (· == x)) l t ht x hmem
    simp at hne
  · rintro ⟨hne, hfree, rfl⟩
    exact List.splitOn_intercalate x hfree hne

/-- No separator at either end, and no two in a row. -/
structure Tight (p : α → Bool) (l : List α) : Prop where
  /-- the list does not start with a separator -/
  head : ∀ a ∈ l.head?, p a = false
  /-- the list does not end with a separator -/
  last : ∀ a ∈ l.getLast?, p a = false
  /-- of two neighbours at most one is a separator -/
  neighbours : l.IsChain fun a b => p a = false ∨ p b = false

/-- The first piece is empty when the list starts with a separator or is empty. -/
theorem head_splitOnP_eq_nil {l t : List α} {ts : List (List α)} (h : l.splitOnP p = t :: ts) :
    t = [] ↔ ∀ a ∈ l.head?, p a = true := by
  rcases l with _ | ⟨a, l⟩
  · simp_all
  · rw [List.splitOnP_cons_eq_if_modifyHead] at h
    by_cases ha : p a = true
    · rw [if_pos ha] at h
      simp_all
    · rw [if_neg ha] at h
      rcases hs : l.splitOnP p with _ | ⟨t', ts'⟩
      · exact absurd hs (List.splitOnP_ne_nil p l)
      · rw [hs, List.modifyHead_cons] at h
        obtain ⟨rfl, -⟩ := List.cons.inj h
        simp [ha]

/-- The later pieces are non-empty exactly when the list does not end with a separator
and has no two in a row. -/
theorem nil_notMem_tail_splitOnP {l : List α} :
    ∀ {t : List α} {ts : List (List α)}, l.splitOnP p = t :: ts →
      ([] ∉ ts ↔ (∀ a ∈ l.getLast?, p a = false) ∧
        l.IsChain fun a b => p a = false ∨ p b = false) := by
  induction l with
  | nil =>
    intro t ts h
    simp_all
  | cons a l ih =>
    intro t ts h
    rw [List.splitOnP_cons_eq_if_modifyHead] at h
    rcases hs : l.splitOnP p with _ | ⟨t', ts'⟩
    · exact absurd hs (List.splitOnP_ne_nil p l)
    · have hih := ih hs
      have hhead := head_splitOnP_eq_nil hs
      rw [hs] at h
      by_cases ha : p a = true
      · -- the piece after this separator is the first piece of `l`
        rw [if_pos ha] at h
        obtain ⟨-, rfl⟩ := List.cons.inj h
        rcases l with _ | ⟨b, l⟩
        · simp_all
        · have hb : ([] = t' ↔ p b = true) := by
            rw [eq_comm, hhead]
            simp
          rw [List.mem_cons, not_or, hih, hb, List.getLast?_cons_cons, List.isChain_cons_cons]
          simp only [ha, Bool.true_eq_false, false_or, Bool.not_eq_true]
          tauto
      · rw [if_neg ha, List.modifyHead_cons] at h
        obtain ⟨-, rfl⟩ := List.cons.inj h
        have ha' : p a = false := Bool.eq_false_iff.mpr ha
        rcases l with _ | ⟨b, l⟩
        · simp_all
        · rw [hih, List.getLast?_cons_cons, List.isChain_cons_cons]
          simp only [ha', true_or, true_and]

/-- Splitting a non-empty list gives no empty piece exactly when the list is tight. -/
theorem nil_notMem_splitOnP {l : List α} (hl : l ≠ []) : [] ∉ l.splitOnP p ↔ Tight p l := by
  rcases hs : l.splitOnP p with _ | ⟨t, ts⟩
  · exact absurd hs (List.splitOnP_ne_nil p l)
  · have hhead : [] = t ↔ ¬ ∀ a ∈ l.head?, p a = false := by
      obtain ⟨a, l, rfl⟩ := List.exists_cons_of_ne_nil hl
      rw [eq_comm, head_splitOnP_eq_nil hs]
      simp
    rw [List.mem_cons, not_or, hhead, not_not, nil_notMem_tail_splitOnP hs]
    exact ⟨fun ⟨hfirst, hlast, hchain⟩ => ⟨hfirst, hlast, hchain⟩,
      fun h => ⟨h.head, h.last, h.neighbours⟩⟩

/-- **Pieces and runs agree on tight lists only.** Splitting a list (and an empty list
into nothing) gives its maximal runs exactly when the list is tight. -/
theorem split_eq_runs_iff (l : List α) :
    (if l.isEmpty then [] else l.splitOnP p) = runs p l ↔ Tight p l := by
  rcases l with _ | ⟨a, l⟩
  · exact ⟨fun _ => ⟨by simp, by simp, .nil⟩, fun _ => rfl⟩
  · rw [if_neg (by simp), ← filter_splitOnP, eq_comm, List.filter_eq_self,
      ← nil_notMem_splitOnP (List.cons_ne_nil a l)]
    simp only [Bool.not_eq_true', List.isEmpty_eq_false_iff]
    exact ⟨fun h hmem => h [] hmem rfl, fun h t ht heq => h (heq ▸ ht)⟩

end Tokens
