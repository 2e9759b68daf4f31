import Mathlib.Data.List.Basic
import Mathlib.Data.List.Infix

/-!
# Event-driven systems

A system that answers every event with a new state: `step : σ → ε → σ`. Runs are
finite sequences of events, and there are two ways to speak about a whole run:

* `Always P` — the state predicate `P` holds at the start and in every state the
  run reaches (every prefix of the events);
* `Along C` — every step the run takes meets `C`, a condition on the state
  *before* the step and the event.

The point of having both is `always_iff_along`: under an invariant that conforming
steps preserve, a state predicate holds in every state reached *exactly* when every
step meets the condition. It turns one-step case analyses into exact statements
about all runs; `along_iff_along` does the same for two conditions on steps.

A register is a part of the state that some steps write. `register_run` says that after
a run it holds what the run wrote last, and `log_induction` carries an invariant between
the state and everything written so far.

`simulation_run` says that an event-by-event refinement refines whole runs.
`observe_run` is for what an observer of the state cannot see: runs that differ in hidden
events only end in states that look the same. `until_of_fair` and `leadsTo_of_fair` are for
infinite runs, and for what must happen in them if some event does not fail to come.
-/

namespace EventSystem

universe u v

variable {σ : Type u} {ε : Type v}

/-- The state after a finite sequence of events. -/
def run (step : σ → ε → σ) (s : σ) (es : List ε) : σ := es.foldl step s

/-- `P` holds at `s` and in every state the run of `es` from `s` reaches. -/
def Always (step : σ → ε → σ) (P : σ → Prop) (s : σ) (es : List ε) : Prop :=
  ∀ es', es' <+: es → P (run step s es')

/-- Every step of the run of `es` from `s` meets `C`. -/
def Along (step : σ → ε → σ) (C : σ → ε → Prop) : σ → List ε → Prop
  | _, [] => True
  | s, e :: es => C s e ∧ Along step C (step s e) es

variable {step : σ → ε → σ}

theorem Along.imp {C D : σ → ε → Prop} (h : ∀ s e, C s e → D s e) :
    ∀ {s : σ} {es : List ε}, Along step C s es → Along step D s es := by
  intro s es
  induction es generalizing s with
  | nil => exact fun _ => trivial
  | cons e es ih => exact fun hC => ⟨h s e hC.1, ih hC.2⟩

@[simp] theorem run_nil (s : σ) : run step s [] = s := rfl

@[simp] theorem run_cons (s : σ) (e : ε) (es : List ε) :
    run step s (e :: es) = run step (step s e) es := rfl

@[simp] theorem run_append (s : σ) (es es' : List ε) :
    run step s (es ++ es') = run step (run step s es) es' := by
  simp [run, List.foldl_append]

/-! ## Invariants -/

/-- A predicate every step preserves holds after every run. -/
theorem run_induction {I : σ → Prop} (hstep : ∀ s e, I s → I (step s e)) :
    ∀ {s : σ} (es : List ε), I s → I (run step s es) := by
  intro s es
  induction es generalizing s with
  | nil => exact fun h => h
  | cons e es ih => exact fun h => ih (hstep s e h)

/-- A predicate that the steps of admitted events preserve holds after every run of
admitted events. -/
theorem run_induction_mem {I : σ → Prop} {A : ε → Prop}
    (hstep : ∀ s e, A e → I s → I (step s e)) :
    ∀ {s : σ} {es : List ε}, (∀ e ∈ es, A e) → I s → I (run step s es) := by
  intro s es
  induction es generalizing s with
  | nil => exact fun _ h => h
  | cons e es ih =>
    intro hA h
    obtain ⟨hAe, hAes⟩ := List.forall_mem_cons.mp hA
    exact ih hAes (hstep s e hAe h)

/-- A predicate that conforming steps preserve holds after every run of such steps. -/
theorem run_induction_along {I : σ → Prop} {C : σ → ε → Prop}
    (hstep : ∀ s e, C s e → I s → I (step s e)) :
    ∀ {s : σ} {es : List ε}, Along step C s es → I s → I (run step s es) := by
  intro s es
  induction es generalizing s with
  | nil => exact fun _ h => h
  | cons e es ih =>
    rintro ⟨hC, hes⟩ h
    exact ih hes (hstep s e hC h)

/-- An invariant between the state and the events so far. -/
theorem run_induction_past {J : List ε → σ → Prop}
    (hstep : ∀ past s e, J past s → J (past ++ [e]) (step s e)) :
    ∀ {past : List ε} {s : σ} (es : List ε), J past s → J (past ++ es) (run step s es) := by
  intro past s es
  induction es generalizing past s with
  | nil =>
    intro h
    rw [List.append_nil]
    exact h
  | cons e es ih =>
    intro h
    rw [List.append_cons]
    exact ih (hstep past s e h)

/-- What a step cannot bring back has held all along, if it holds at the end. -/
theorem along_of_run {P : σ → Prop} (hstep : ∀ s e, ¬ P s → ¬ P (step s e)) :
    ∀ {s : σ} {es : List ε}, P (run step s es) → Along step (fun s _ => P s) s es := by
  intro s es
  induction es generalizing s with
  | nil => exact fun _ => trivial
  | cons e es ih =>
    intro h
    refine ⟨?_, ih h⟩
    by_contra hs
    exact run_induction (I := fun s => ¬ P s) hstep es (hstep s e hs) h

/-- A state predicate holds always when it holds now and after every step. -/
theorem always_cons {P : σ → Prop} {s : σ} {e : ε} {es : List ε} :
    Always step P s (e :: es) ↔ P s ∧ Always step P (step s e) es := by
  refine ⟨?_, ?_⟩
  · intro h
    refine ⟨h [] List.nil_prefix, fun es' hes' => ?_⟩
    exact h (e :: es') (List.cons_prefix_cons.mpr ⟨rfl, hes'⟩)
  · rintro ⟨h, hes⟩ es' hes'
    rcases es' with _ | ⟨e', es''⟩
    · exact h
    · obtain ⟨rfl, htail⟩ := List.cons_prefix_cons.mp hes'
      exact hes es'' htail

/-! ## Registers -/

section Registers

universe w x

variable {β : Type w} {γ : Type x}

/-- What a run writes, oldest first: `write` is what one step writes, if anything. -/
def log (step : σ → ε → σ) (write : σ → ε → Option β) : σ → List ε → List β
  | _, [] => []
  | s, e :: es => (write s e).toList ++ log step write (step s e) es

/-- Entry `i` of what a run writes is written by one of its steps, the one before which `i`
entries were written. -/
theorem exists_of_getElem?_log {write : σ → ε → Option β} {s : σ} {es : List ε} {i : ℕ} {b : β}
    (h : (log step write s es)[i]? = some b) :
    ∃ before e after, es = before ++ e :: after ∧ (log step write s before).length = i ∧
      write (run step s before) e = some b := by
  induction es generalizing s i with
  | nil => cases h
  | cons e es ih =>
    rw [log] at h
    rcases hwrite : write s e with _ | b'
    · rw [hwrite] at h
      obtain ⟨before, e', after, rfl, hlength, hwrite'⟩ := ih h
      refine ⟨e :: before, e', after, rfl, ?_, hwrite'⟩
      rw [log, hwrite]
      exact hlength
    · rw [hwrite] at h
      rcases i with _ | i
      · exact ⟨[], e, es, rfl, rfl, hwrite.trans h⟩
      · -- the first entry is that of `e`, so this one is entry `i` of the rest
        obtain ⟨before, e', after, rfl, hlength, hwrite'⟩ := ih h
        refine ⟨e :: before, e', after, rfl, ?_, hwrite'⟩
        rw [log, hwrite]
        exact congrArg Nat.succ hlength

/-- What a run writes is read off its events, if every step writes what its event says. -/
theorem log_eq_filterMap {write : σ → ε → Option β} {read : ε → Option β} :
    ∀ {s : σ} {es : List ε}, Along step (fun s e => write s e = read e) s es →
      log step write s es = es.filterMap read := by
  intro s es
  induction es generalizing s with
  | nil => exact fun _ => rfl
  | cons e es ih =>
    rintro ⟨hwrite, hes⟩
    rw [log, hwrite, ih hes]
    rcases hread : read e with _ | b
    · rw [List.filterMap_cons_none hread]
      rfl
    · rw [List.filterMap_cons_some hread]
      rfl

/-- An invariant between the state and what was written so far, kept by every step that
adds to the one and to the other. -/
theorem log_induction {write : σ → ε → Option β} {J : σ → List β → Prop}
    (hstep : ∀ s e written, J s written → J (step s e) (written ++ (write s e).toList)) :
    ∀ {s : σ} {written : List β} (es : List ε), J s written →
      J (run step s es) (written ++ log step write s es) := by
  intro s written es
  induction es generalizing s written with
  | nil =>
    intro h
    rw [log, List.append_nil]
    exact h
  | cons e es ih =>
    intro h
    rw [log, ← List.append_assoc]
    exact ih (hstep s e written h)

/-- Two logs that no step adds to at once, side by side, are the log of both. -/
theorem log_or_perm {write write' : σ → ε → Option β}
    (hone : ∀ s e, write s e = none ∨ write' s e = none) (s : σ) (es : List ε) :
    (log step write s es ++ log step write' s es).Perm
      (log step (fun s e => (write s e).or (write' s e)) s es) := by
  induction es generalizing s with
  | nil => exact List.Perm.refl _
  | cons e es ih =>
    simp only [log]
    rcases hone s e with hnone | hnone
    · -- what the second log gets moves in front of the rest of the first
      rw [hnone, Option.none_or, Option.toList_none, List.nil_append, ← List.append_assoc]
      refine (List.Perm.append_right _ List.perm_append_comm).trans ?_
      rw [List.append_assoc]
      exact (ih _).append_left _
    · rw [hnone, Option.or_none, Option.toList_none, List.nil_append, List.append_assoc]
      exact (ih _).append_left _

/-- **A register holds what was written last.** If every step sets the register to what
it writes, and leaves it alone when it writes nothing, then after a run the register
holds the last value written, or what it held before if nothing was. -/
theorem register_run (register : σ → γ) (write : σ → ε → Option β) (enc : β → γ)
    {I : σ → Prop} (hI : ∀ s e, I s → I (step s e))
    (hstep : ∀ s e, I s → register (step s e) = ((write s e).map enc).getD (register s)) :
    ∀ {s : σ} (es : List ε), I s → register (run step s es) =
      ((log step write s es).getLast?.map enc).getD (register s) := by
  intro s es
  induction es generalizing s with
  | nil => exact fun _ => rfl
  | cons e es ih =>
    intro hs
    rw [run_cons, ih (hI s e hs), hstep s e hs, log, List.getLast?_append]
    rcases (log step write (step s e) es).getLast? with _ | b
    · rcases write s e with _ | b' <;> rfl
    · rfl

end Registers

/-! ## Simulations -/

section Simulations

universe p q

variable {τ : Type p} {μ : Type q}

/-- The moves of another system that a run makes, each event making a few. -/
def allMoves (step : σ → ε → σ) (moves : σ → ε → List μ) : σ → List ε → List μ
  | _, [] => []
  | s, e :: es => moves s e ++ allMoves step moves (step s e) es

/-- **Simulation**: if under an invariant every event makes some moves of another system,
then every run is a run of that system. -/
theorem simulation_run {move : τ → μ → τ} {abstract : σ → τ} {moves : σ → ε → List μ}
    {I : σ → Prop} (hI : ∀ s e, I s → I (step s e))
    (hstep : ∀ s e, I s → abstract (step s e) = run move (abstract s) (moves s e)) :
    ∀ {s : σ} (es : List ε), I s →
      abstract (run step s es) = run move (abstract s) (allMoves step moves s es) := by
  intro s es
  induction es generalizing s with
  | nil => exact fun _ => rfl
  | cons e es ih =>
    intro hs
    rw [run_cons, ih (hI s e hs), hstep s e hs, allMoves, run_append]

end Simulations

/-! ## Observations -/

section Observations

universe y z

variable {ω : Type y} {ζ : Type z} {observe : σ → ω} {visible : ε → Option ζ}

/-- A run of hidden events changes nothing that can be seen. -/
theorem observe_run_hidden
    (hhidden : ∀ s e, visible e = none → observe (step s e) = observe s) {s : σ} {es : List ε}
    (hes : ∀ e ∈ es, visible e = none) : observe (run step s es) = observe s :=
  run_induction_mem (I := fun s' => observe s' = observe s)
    (fun s' e he h => (hhidden s' e he).trans h) hes rfl

/-- **Hidden events cannot be observed.** If a hidden event changes nothing that can be
seen, and events that look the same have the same visible outcome in states that look the
same, then runs with the same visible events end in states that look the same. -/
theorem observe_run
    (hhidden : ∀ s e, visible e = none → observe (step s e) = observe s)
    (hvisible : ∀ s s' e e' v, visible e = some v → visible e' = some v → observe s = observe s' →
      observe (step s e) = observe (step s' e')) :
    ∀ {s s' : σ} {es es' : List ε}, es.filterMap visible = es'.filterMap visible →
      observe s = observe s' → observe (run step s es) = observe (run step s' es') := by
  intro s s' es
  induction es generalizing s s' with
  | nil =>
    intro es' hes hs
    have hall : ∀ e ∈ es', visible e = none := List.filterMap_eq_nil_iff.mp hes.symm
    exact hs.trans (observe_run_hidden hhidden hall).symm
  | cons e es ih =>
    intro es' hes hs
    rcases he : visible e with _ | v
    · rw [List.filterMap_cons_none he] at hes
      exact ih hes ((hhidden s e he).trans hs)
    · -- the other run gets to the same visible event through hidden ones
      rw [List.filterMap_cons_some he] at hes
      obtain ⟨before, e', after, rfl, hbefore, he', hafter⟩ :=
        List.filterMap_eq_cons_iff.mp hes.symm
      have hs' : observe s = observe (run step s' before) :=
        hs.trans (observe_run_hidden hhidden hbefore).symm
      rw [run_append, run_cons, run_cons]
      exact ih hafter.symm (hvisible s (run step s' before) e e' v he he' hs')

end Observations

/-! ## Infinite runs -/

section Infinite

/-- The state after the first `n` events of an infinite sequence. -/
def stateAt (step : σ → ε → σ) (s : σ) (es : ℕ → ε) : ℕ → σ
  | 0 => s
  | n + 1 => step (stateAt step s es n) (es n)

/-- It is the state after a run of finitely many events. -/
theorem stateAt_eq_run (s : σ) (es : ℕ → ε) (n : ℕ) :
    stateAt step s es n = run step s ((List.range n).map es) := by
  induction n with
  | zero => rfl
  | succ n ih => rw [stateAt, ih, List.range_succ, List.map_append, run_append]; rfl

/-- **Fairness comes to an event.** If an event outside `A` keeps `P` or achieves `Q`, and an
event in `A` comes if `P` goes on for ever, then `P` lasts until `Q` holds or such an event
happens. -/
theorem until_of_fair {P Q : σ → Prop} {A : ε → Prop} {s : σ} {es : ℕ → ε}
    (hkeep : ∀ s e, P s → ¬ A e → P (step s e) ∨ Q (step s e))
    (hfair : ∀ n, (∀ m, n ≤ m → P (stateAt step s es m)) → ∃ m, n ≤ m ∧ A (es m)) {n : ℕ}
    (h : P (stateAt step s es n)) :
    ∃ m, n ≤ m ∧ (Q (stateAt step s es m) ∨ P (stateAt step s es m) ∧ A (es m)) := by
  by_contra hnever
  have hQ : ∀ m, n ≤ m → ¬ Q (stateAt step s es m) :=
    fun m hm hQ => hnever ⟨m, hm, Or.inl hQ⟩
  have hA : ∀ m, n ≤ m → P (stateAt step s es m) → ¬ A (es m) :=
    fun m hm hP hA => hnever ⟨m, hm, Or.inr ⟨hP, hA⟩⟩
  -- with neither, `P` goes on for ever
  have hP : ∀ m, n ≤ m → P (stateAt step s es m) := by
    intro m hm
    induction m, hm using Nat.le_induction with
    | base => exact h
    | succ m hm ih =>
      exact (hkeep _ (es m) ih (hA m hm ih)).resolve_right (hQ (m + 1) (Nat.le_succ_of_le hm))
  obtain ⟨m, hm, hevent⟩ := hfair n hP
  exact hA m hm (hP m hm) hevent

/-- **Fairness leads somewhere.** If, besides, an event in `A` achieves `Q` from `P`, then `P`
leads to `Q`. -/
theorem leadsTo_of_fair {P Q : σ → Prop} {A : ε → Prop} {s : σ} {es : ℕ → ε}
    (hkeep : ∀ s e, P s → ¬ A e → P (step s e) ∨ Q (step s e))
    (hhelp : ∀ s e, P s → A e → Q (step s e))
    (hfair : ∀ n, (∀ m, n ≤ m → P (stateAt step s es m)) → ∃ m, n ≤ m ∧ A (es m)) {n : ℕ}
    (h : P (stateAt step s es n)) : ∃ m, n ≤ m ∧ Q (stateAt step s es m) := by
  obtain ⟨m, hm, hQ | ⟨hP, hA⟩⟩ := until_of_fair hkeep hfair h
  · exact ⟨m, hm, hQ⟩
  · exact ⟨m + 1, Nat.le_succ_of_le hm, hhelp _ (es m) hP hA⟩

end Infinite

/-! ## Exact conditions -/

section Exact

variable {A : ε → Prop} {I : σ → Prop} {C : σ → ε → Prop}

/-- Two step conditions that agree under an invariant agree along whole runs, when
the steps that meet the second keep the invariant. `A` is what the environment
promises of each event. -/
theorem along_iff_along {Q : σ → ε → Prop}
    (hiff : ∀ s e, A e → I s → (Q s e ↔ C s e))
    (hstep : ∀ s e, A e → I s → C s e → I (step s e)) :
    ∀ {s : σ} {es : List ε}, I s → (∀ e ∈ es, A e) →
      (Along step Q s es ↔ Along step C s es) := by
  intro s es
  induction es generalizing s with
  | nil => exact fun _ _ => Iff.rfl
  | cons e es ih =>
    intro h hA
    have hAe : A e := hA e List.mem_cons_self
    have hAes : ∀ e' ∈ es, A e' := fun e' he' => hA e' (List.mem_cons_of_mem _ he')
    refine ⟨?_, ?_⟩
    · rintro ⟨hQ, hes⟩
      have hC : C s e := (hiff s e hAe h).mp hQ
      exact ⟨hC, (ih (hstep s e hAe h hC) hAes).mp hes⟩
    · rintro ⟨hC, hes⟩
      exact ⟨(hiff s e hAe h).mpr hC, (ih (hstep s e hAe h hC) hAes).mpr hes⟩

/-- **Exact condition for a state predicate.** If, under the invariant and the
predicate, a step keeps the predicate exactly when it meets `C`, then the predicate
holds in every state of a run exactly when every step of the run meets `C`. -/
theorem always_iff_along {P : σ → Prop}
    (hiff : ∀ s e, I s → P s → (P (step s e) ↔ C s e))
    (hstep : ∀ s e, I s → P s → C s e → I (step s e)) {s : σ} (hI : I s) (hP : P s)
    (es : List ε) : Always step P s es ↔ Along step C s es := by
  induction es generalizing s with
  | nil => exact ⟨fun _ => trivial, fun _ es' hes' => by rwa [List.prefix_nil.mp hes']⟩
  | cons e es ih =>
    rw [always_cons]
    refine ⟨?_, ?_⟩
    · rintro ⟨-, hes⟩
      have hP' : P (step s e) := hes [] List.nil_prefix
      have hC : C s e := (hiff s e hI hP).mp hP'
      exact ⟨hC, (ih (hstep s e hI hP hC) hP').mp hes⟩
    · rintro ⟨hC, hes⟩
      have hP' : P (step s e) := (hiff s e hI hP).mpr hC
      exact ⟨hP, (ih (hstep s e hI hP hC) hP').mpr hes⟩

end Exact

end EventSystem
