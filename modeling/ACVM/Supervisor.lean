import ACVM.EventSystem

/-!
# Supervising children through one slot

An abstract supervisor that knows its children only through one slot. Children live
in a grow-only list, so an index is a stable identity. The supervisor starts a child
when the slot is empty, and stops the child in the slot by *asking* it to terminate
and emptying the slot at once; a child exits at a time of its own, and its exit is
reported later, at most once.

Two facts about all runs carry everything else:

* `Supervised.held` — a running child is in the slot or has been asked to terminate,
  so no child is ever lost;
* `Supervised.slot` — the child in the slot has never been asked to terminate and
  its exit has not been reported, so the report of its exit always empties the slot.

What does *not* hold is that one slot means one running child: an asked child may
outlive the slot. `atMostOneAlive_spawn` says exactly when a start is harmless.
-/

namespace Supervisor

universe u v

variable {α : Type u}

/-- Where a child is in its life. -/
inductive Phase : Type where
  /-- made, but never launched -/
  | created : Phase
  /-- launched and not exited -/
  | running : Phase
  /-- exited, the exit not yet reported -/
  | exited : Phase
  /-- exited and reported -/
  | notified : Phase
  deriving DecidableEq, Repr

/-- A child: what it was started with, and where it is in its life. -/
structure Child (α : Type u) : Type u where
  /-- what the child was started with -/
  info : α
  /-- where the child is in its life -/
  phase : Phase
  /-- whether the child has been asked to terminate -/
  asked : Bool

/-! ## Operations on children -/

/-- A new child, launched if `runs`. -/
def spawn (cs : List (Child α)) (info : α) (runs : Bool) : List (Child α) :=
  cs ++ [⟨info, if runs then .running else .created, false⟩]

/-- Launch child `p`, if it has been made and not launched yet. -/
def launch (cs : List (Child α)) (p : ℕ) : List (Child α) :=
  cs.modify p fun c => if c.phase = .created then { c with phase := .running } else c

/-- Ask child `p` to terminate. Nothing else happens to it now. -/
def ask (cs : List (Child α)) (p : ℕ) : List (Child α) :=
  cs.modify p fun c => { c with asked := true }

/-- Child `p` exits, if it is running. -/
def exit (cs : List (Child α)) (p : ℕ) : List (Child α) :=
  cs.modify p fun c => if c.phase = .running then { c with phase := .exited } else c

/-- The exit of child `p` is reported, if it has exited and was not reported before. -/
def report (cs : List (Child α)) (p : ℕ) : List (Child α) :=
  cs.modify p fun c => if c.phase = .exited then { c with phase := .notified } else c

/-- Child `p` is running. -/
def Alive (cs : List (Child α)) (p : ℕ) : Prop :=
  ∃ c, cs[p]? = some c ∧ c.phase = .running

/-- Child `p` was made, and never launched. -/
def NeverLaunched (cs : List (Child α)) (p : ℕ) : Prop :=
  (cs[p]?.map Child.phase) = some .created

instance (cs : List (Child α)) (p : ℕ) : Decidable (NeverLaunched cs p) :=
  inferInstanceAs (Decidable ((cs[p]?.map Child.phase) = some .created))

/-- At most one child is running. -/
def AtMostOneAlive (cs : List (Child α)) : Prop :=
  ∀ p q, Alive cs p → Alive cs q → p = q

/-- Inversion: a child after an in-place update comes from the child before it. -/
theorem getElem?_modify_inv {cs : List (Child α)} {f : Child α → Child α} {p q : ℕ}
    {c : Child α} (h : (cs.modify q f)[p]? = some c) :
    ∃ c₀, cs[p]? = some c₀ ∧ c = if q = p then f c₀ else c₀ := by
  rw [List.getElem?_modify] at h
  obtain ⟨c₀, hc₀, rfl⟩ := Option.map_eq_some_iff.mp h
  exact ⟨c₀, hc₀, rfl⟩

/-- Inversion: a child after a spawn is an old one or the new one. -/
theorem getElem?_spawn_inv {cs : List (Child α)} {info : α} {runs : Bool} {p : ℕ}
    {c : Child α} (h : (spawn cs info runs)[p]? = some c) :
    cs[p]? = some c ∨
      p = cs.length ∧ c = ⟨info, if runs then .running else .created, false⟩ := by
  rw [spawn, List.getElem?_append] at h
  split at h
  · exact Or.inl h
  · rename_i hge
    obtain ⟨hlt, rfl⟩ := List.getElem?_eq_some_iff.mp h
    rw [List.length_singleton] at hlt
    exact Or.inr ⟨by omega, List.getElem_singleton hlt⟩

@[simp] theorem getElem?_spawn_self (cs : List (Child α)) (info : α) (runs : Bool) :
    (spawn cs info runs)[cs.length]? =
      some ⟨info, if runs then .running else .created, false⟩ :=
  List.getElem?_concat_length

/-- A spawn leaves the old children alone. -/
theorem getElem?_spawn_of_some {cs : List (Child α)} {info : α} {runs : Bool} {p : ℕ}
    {c : Child α} (h : cs[p]? = some c) : (spawn cs info runs)[p]? = some c := by
  rw [spawn, List.getElem?_append_left (List.getElem?_eq_some_iff.mp h).1]
  exact h

/-- Making a child and launching it afterwards is making a launched child. -/
theorem launch_spawn (cs : List (Child α)) (info : α) :
    launch (spawn cs info false) cs.length = spawn cs info true := by
  refine List.ext_getElem? fun i => ?_
  rw [launch, List.getElem?_modify]
  rcases Nat.lt_trichotomy i cs.length with hlt | rfl | hgt
  · rw [spawn, spawn, List.getElem?_append_left hlt, List.getElem?_append_left hlt]
    rcases cs[i]? with _ | c
    · rfl
    · simp [Nat.ne_of_gt hlt]
  · simp [spawn]
  · have hlen : ∀ runs, (spawn cs info runs).length ≤ i := by
      intro runs
      rw [spawn, List.length_append, List.length_singleton]
      exact hgt
    rw [List.getElem?_eq_none (hlen false), List.getElem?_eq_none (hlen true)]
    rfl

/-- Asking a child to terminate does not end its life. -/
@[simp] theorem alive_ask {cs : List (Child α)} {p q : ℕ} : Alive (ask cs q) p ↔ Alive cs p := by
  refine ⟨?_, ?_⟩
  · rintro ⟨c, hc, hrun⟩
    obtain ⟨c₀, hc₀, rfl⟩ := getElem?_modify_inv hc
    exact ⟨c₀, hc₀, by split at hrun <;> exact hrun⟩
  · rintro ⟨c, hc, hrun⟩
    refine ⟨if q = p then { c with asked := true } else c, ?_, by split <;> exact hrun⟩
    rw [ask, List.getElem?_modify, hc]
    split <;> rfl

/-- After the exit of `q`, exactly the other running children run. -/
@[simp] theorem alive_exit {cs : List (Child α)} {p q : ℕ} :
    Alive (exit cs q) p ↔ Alive cs p ∧ p ≠ q := by
  refine ⟨?_, ?_⟩
  · rintro ⟨c, hc, hrun⟩
    obtain ⟨c₀, hc₀, rfl⟩ := getElem?_modify_inv hc
    by_cases hqp : q = p
    · rw [if_pos hqp] at hrun
      split at hrun
      · cases hrun
      · contradiction
    · rw [if_neg hqp] at hrun
      exact ⟨⟨c₀, hc₀, hrun⟩, Ne.symm hqp⟩
  · rintro ⟨⟨c, hc, hrun⟩, hne⟩
    refine ⟨c, ?_, hrun⟩
    rw [exit, List.getElem?_modify_ne _ _ (Ne.symm hne), hc]

/-- Exits, one after the other, make no child. -/
@[simp] theorem length_foldl_exit (cs : List (Child α)) (ps : List ℕ) :
    (ps.foldl exit cs).length = cs.length := by
  induction ps generalizing cs with
  | nil => rfl
  | cons p ps ih => rw [List.foldl_cons, ih, exit, List.length_modify]

/-- After exits, exactly the other running children run. -/
theorem alive_foldl_exit {cs : List (Child α)} {ps : List ℕ} {p : ℕ} :
    Alive (ps.foldl exit cs) p ↔ Alive cs p ∧ p ∉ ps := by
  induction ps generalizing cs with
  | nil => simp
  | cons q ps ih => rw [List.foldl_cons, ih, alive_exit, List.mem_cons, not_or, and_assoc]

/-- Reporting an exit ends no life. -/
@[simp] theorem alive_report {cs : List (Child α)} {p q : ℕ} :
    Alive (report cs q) p ↔ Alive cs p := by
  refine ⟨?_, ?_⟩
  · rintro ⟨c, hc, hrun⟩
    obtain ⟨c₀, hc₀, rfl⟩ := getElem?_modify_inv hc
    refine ⟨c₀, hc₀, ?_⟩
    split at hrun
    · split at hrun
      · cases hrun
      · exact hrun
    · exact hrun
  · rintro ⟨c, hc, hrun⟩
    refine ⟨c, ?_, hrun⟩
    rw [report, List.getElem?_modify, hc]
    by_cases hqp : q = p
    · simp [hqp, hrun]
    · simp [hqp]

/-- After a spawn, the old running children run, and the new one if it launched. -/
theorem alive_spawn {cs : List (Child α)} {info : α} {runs : Bool} {p : ℕ} :
    Alive (spawn cs info runs) p ↔ Alive cs p ∨ p = cs.length ∧ runs = true := by
  refine ⟨?_, ?_⟩
  · rintro ⟨c, hc, hrun⟩
    rcases getElem?_spawn_inv hc with hc | ⟨rfl, rfl⟩
    · exact Or.inl ⟨c, hc, hrun⟩
    · cases runs
      · cases hrun
      · exact Or.inr ⟨rfl, rfl⟩
  · rintro (⟨c, hc, hrun⟩ | ⟨rfl, rfl⟩)
    · exact ⟨c, getElem?_spawn_of_some hc, hrun⟩
    · exact ⟨_, getElem?_spawn_self cs info true, rfl⟩

/-- A running child's index is in range. -/
theorem Alive.lt_length {cs : List (Child α)} {p : ℕ} (h : Alive cs p) : p < cs.length := by
  obtain ⟨c, hc, -⟩ := h
  exact (List.getElem?_eq_some_iff.mp hc).1

/-- **When a start is harmless**: launching one more child keeps at most one running
exactly when none was running. -/
theorem atMostOneAlive_spawn {cs : List (Child α)} {info : α} :
    AtMostOneAlive (spawn cs info true) ↔ ∀ p, ¬ Alive cs p := by
  refine ⟨?_, ?_⟩
  · intro h p hp
    have hnew : Alive (spawn cs info true) cs.length := alive_spawn.mpr (Or.inr ⟨rfl, rfl⟩)
    have heq : p = cs.length := h p cs.length (alive_spawn.mpr (Or.inl hp)) hnew
    exact absurd hp.lt_length (by omega)
  · intro h p q hp hq
    rcases alive_spawn.mp hp with hp | ⟨rfl, -⟩
    · exact absurd hp (h p)
    · rcases alive_spawn.mp hq with hq | ⟨rfl, -⟩
      · exact absurd hq (h q)
      · rfl

/-- Fewer running children keep at most one running. -/
theorem AtMostOneAlive.mono {cs cs' : List (Child α)} (h : AtMostOneAlive cs)
    (hsub : ∀ p, Alive cs' p → Alive cs p) : AtMostOneAlive cs' :=
  fun p q hp hq => h p q (hsub p hp) (hsub q hq)

/-- An update that launches and unlaunches nothing keeps who was never launched. -/
theorem neverLaunched_modify {cs : List (Child α)} {f : Child α → Child α}
    (hf : ∀ c, (f c).phase = .created ↔ c.phase = .created) {p q : ℕ} :
    NeverLaunched (cs.modify q f) p ↔ NeverLaunched cs p := by
  rw [NeverLaunched, NeverLaunched, List.getElem?_modify]
  rcases cs[p]? with _ | c
  · exact Iff.rfl
  · by_cases hqp : q = p
    · simp [hqp, hf]
    · simp [hqp]

@[simp] theorem neverLaunched_exit {cs : List (Child α)} {p q : ℕ} :
    NeverLaunched (exit cs q) p ↔ NeverLaunched cs p := by
  rw [exit]
  refine neverLaunched_modify fun c => ?_
  by_cases hrun : c.phase = .running
  · simp [hrun]
  · rw [if_neg hrun]

@[simp] theorem neverLaunched_report {cs : List (Child α)} {p q : ℕ} :
    NeverLaunched (report cs q) p ↔ NeverLaunched cs p := by
  rw [report]
  refine neverLaunched_modify fun c => ?_
  by_cases hexited : c.phase = .exited
  · simp [hexited]
  · rw [if_neg hexited]

/-- A new child was never launched exactly when its launch failed. -/
@[simp] theorem neverLaunched_spawn_self {cs : List (Child α)} {info : α} {runs : Bool} :
    NeverLaunched (spawn cs info runs) cs.length ↔ runs = false := by
  rw [NeverLaunched, getElem?_spawn_self]
  cases runs <;> simp

/-! ## The supervisor -/

/-- The supervisor: its slot, and all children it ever made. -/
structure State (α : Type u) : Type u where
  /-- the child the supervisor holds, if any -/
  slot : Option ℕ
  /-- all children ever made, oldest first -/
  children : List (Child α)

/-- What can happen to a supervisor and its children. -/
inductive Move (α : Type u) : Type u where
  /-- make a child and launch it, the launch succeeding if the flag says so -/
  | start : α → Bool → Move α
  /-- ask the child in the slot to terminate, and empty the slot -/
  | stop : Move α
  /-- a child exits -/
  | exit : ℕ → Move α
  /-- the exit of a child is reported to the supervisor -/
  | report : ℕ → Move α

/-- One move. A start needs an empty slot, a stop a launched child in it. -/
def State.step (s : State α) : Move α → State α
  | .start info runs =>
    match s.slot with
    | some _ => s
    | none => ⟨some s.children.length, spawn s.children info runs⟩
  | .stop =>
    match s.slot with
    | none => s
    | some p =>
      if NeverLaunched s.children p then s else ⟨none, ask s.children p⟩
  | .exit p => ⟨s.slot, exit s.children p⟩
  | .report p =>
    if (s.children[p]?.map Child.phase) = some .exited then
      ⟨if s.slot = some p then none else s.slot, report s.children p⟩
    else s

/-- The supervisor's invariant. -/
structure Supervised (s : State α) : Prop where
  /-- a running child is in the slot or has been asked to terminate -/
  held : ∀ p c, s.children[p]? = some c → c.phase = .running → s.slot = some p ∨ c.asked = true
  /-- the child in the slot has not been asked to terminate, nor its exit reported -/
  slot : ∀ p, s.slot = some p →
    ∃ c, s.children[p]? = some c ∧ c.phase ≠ .notified ∧ c.asked = false

/-- A supervisor that has made no child. -/
def State.init : State α := ⟨none, []⟩

theorem supervised_init : Supervised (State.init : State α) where
  held := by
    intro p c hc
    simp [State.init] at hc
  slot := by
    intro p hp
    cases hp

/-- A start keeps the invariant: the new child is in the slot, and every other running
child had been asked to terminate because the slot was empty. -/
theorem Supervised.start {s : State α} (h : Supervised s) (info : α) (runs : Bool) :
    Supervised (s.step (.start info runs)) := by
  rcases hslot : s.slot with _ | q
  · have hstep : s.step (.start info runs) =
        ⟨some s.children.length, spawn s.children info runs⟩ := by simp [State.step, hslot]
    rw [hstep]
    refine ⟨?_, ?_⟩
    · intro p c hc hrun
      rcases getElem?_spawn_inv hc with hc | ⟨rfl, -⟩
      · rcases h.held p c hc hrun with hp | hasked
        · rw [hslot] at hp
          cases hp
        · exact Or.inr hasked
      · exact Or.inl rfl
    · intro p hp
      obtain rfl := Option.some.inj hp
      refine ⟨_, getElem?_spawn_self s.children info runs, ?_, rfl⟩
      cases runs <;> exact fun hphase => by cases hphase
  · have hstep : s.step (.start info runs) = s := by simp [State.step, hslot]
    rw [hstep]
    exact h

/-- A stop keeps the invariant: the child that leaves the slot has just been asked. -/
theorem Supervised.stop {s : State α} (h : Supervised s) : Supervised (s.step .stop) := by
  rcases hslot : s.slot with _ | q
  · have hstep : s.step .stop = s := by simp [State.step, hslot]
    rw [hstep]
    exact h
  · by_cases hcreated : NeverLaunched s.children q
    · have hstep : s.step .stop = s := by simp only [State.step, hslot, if_pos hcreated]
      rw [hstep]
      exact h
    · have hstep : s.step .stop = ⟨none, ask s.children q⟩ := by
        simp only [State.step, hslot, if_neg hcreated]
      rw [hstep]
      refine ⟨?_, fun p hp => by cases hp⟩
      intro p c hc hrun
      obtain ⟨c₀, hc₀, rfl⟩ := getElem?_modify_inv hc
      right
      by_cases hqp : q = p
      · rw [if_pos hqp]
      · rw [if_neg hqp] at hrun ⊢
        rcases h.held p c₀ hc₀ hrun with hp | hasked
        · rw [hslot] at hp
          exact absurd (Option.some.inj hp) hqp
        · exact hasked

/-- An exit keeps the invariant: it moves no child out of the slot and reports nothing. -/
theorem Supervised.exit {s : State α} (h : Supervised s) (q : ℕ) :
    Supervised (s.step (.exit q)) := by
  refine ⟨?_, ?_⟩
  · intro p c hc hrun
    obtain ⟨c₀, hc₀, rfl⟩ := getElem?_modify_inv hc
    have hc₀run : c₀.phase = .running ∧ q ≠ p := by
      obtain ⟨⟨c₁, hc₁, hrun₁⟩, hne⟩ := alive_exit.mp ⟨_, hc, hrun⟩
      obtain rfl := Option.some.inj (hc₁.symm.trans hc₀)
      exact ⟨hrun₁, Ne.symm hne⟩
    rw [if_neg hc₀run.2]
    exact h.held p c₀ hc₀ hc₀run.1
  · intro p hp
    obtain ⟨c, hc, hphase, hasked⟩ := h.slot p hp
    refine ⟨if q = p then (if c.phase = .running then { c with phase := .exited } else c) else c,
      ?_, ?_, ?_⟩
    · rw [State.step, Supervisor.exit, List.getElem?_modify, hc]
      split <;> rfl
    · split
      · split
        · exact fun hphase' => by cases hphase'
        · exact hphase
      · exact hphase
    · split
      · split <;> exact hasked
      · exact hasked

/-- A report keeps the invariant: it empties the slot when the child is in it, and
leaves the slot alone otherwise. -/
theorem Supervised.report {s : State α} (h : Supervised s) (q : ℕ) :
    Supervised (s.step (.report q)) := by
  by_cases hexited : (s.children[q]?.map Child.phase) = some .exited
  · have hstep : s.step (.report q) =
        ⟨if s.slot = some q then none else s.slot, Supervisor.report s.children q⟩ := by
      simp only [State.step, if_pos hexited]
    rw [hstep]
    refine ⟨?_, ?_⟩
    · intro p c hc hrun
      obtain ⟨c₀, hc₀, rfl⟩ := getElem?_modify_inv hc
      have hne : q ≠ p := by
        rintro rfl
        rw [hc₀, Option.map_some, Option.some.injEq] at hexited
        rw [if_pos rfl, if_pos hexited] at hrun
        cases hrun
      rw [if_neg hne] at hrun ⊢
      rcases h.held p c₀ hc₀ hrun with hp | hasked
      · left
        rw [if_neg (by rw [hp]; simpa using Ne.symm hne)]
        exact hp
      · exact Or.inr hasked
    · intro p hp
      have hne : s.slot ≠ some q ∧ s.slot = some p := by
        split at hp
        · cases hp
        · exact ⟨by assumption, hp⟩
      obtain ⟨c, hc, hphase, hasked⟩ := h.slot p hne.2
      have hqp : q ≠ p := fun heq => hne.1 (heq ▸ hne.2)
      refine ⟨c, ?_, hphase, hasked⟩
      rw [Supervisor.report, List.getElem?_modify_ne _ _ hqp, hc]
  · have hstep : s.step (.report q) = s := by simp only [State.step, if_neg hexited]
    rw [hstep]
    exact h

/-- Every move keeps the invariant. -/
theorem Supervised.step {s : State α} (h : Supervised s) (m : Move α) : Supervised (s.step m) := by
  cases m with
  | start info runs => exact h.start info runs
  | stop => exact h.stop
  | exit p => exact h.exit p
  | report p => exact h.report p

/-- **Supervision**: whatever happens, no running child is lost and the exit of the
child in the slot has not been reported. -/
theorem Supervised.run {s : State α} (h : Supervised s) (ms : List (Move α)) :
    Supervised (EventSystem.run State.step s ms) :=
  EventSystem.run_induction (fun _ m hs => hs.step m) ms h

/-- The child in the slot was launched. -/
def HoldsLaunched (s : State α) : Prop := ∀ p, s.slot = some p → ¬ NeverLaunched s.children p

/-- Every move but a failed start keeps a launched child in the slot, or none. -/
theorem HoldsLaunched.step {s : State α} (h : HoldsLaunched s) {m : Move α}
    (hm : ∀ info, m ≠ .start info false) : HoldsLaunched (s.step m) := by
  cases m with
  | start info runs =>
    have hruns : runs = true := by
      cases runs
      · exact absurd rfl (hm info)
      · rfl
    rcases hslot : s.slot with _ | q
    · intro p hp
      simp only [State.step, hslot, Option.some.injEq] at hp ⊢
      rw [← hp, neverLaunched_spawn_self, hruns]
      simp
    · simpa only [State.step, hslot] using h
  | stop =>
    rcases hslot : s.slot with _ | q
    · simpa only [State.step, hslot] using h
    · simp only [State.step, hslot, if_neg (h q hslot)]
      exact fun p hp => by cases hp
  | exit q => exact fun p hp => by simpa [State.step] using h p hp
  | report q =>
    rw [State.step]
    split
    · intro p hp
      rw [neverLaunched_report]
      dsimp only at hp
      split at hp
      · cases hp
      · exact h p hp
    · exact h

/-- Only a successful start brings a child to life. -/
theorem alive_of_alive_step {s : State α} {m : Move α} (hm : ∀ info, m ≠ .start info true)
    {p : ℕ} (h : Alive (s.step m).children p) : Alive s.children p := by
  cases m with
  | start info runs =>
    have hruns : runs = false := by
      cases runs
      · rfl
      · exact absurd rfl (hm info)
    rcases hslot : s.slot with _ | q
    · simp only [State.step, hslot, hruns] at h
      rcases alive_spawn.mp h with h | ⟨-, hfalse⟩
      · exact h
      · cases hfalse
    · simpa only [State.step, hslot] using h
  | stop =>
    rw [State.step] at h
    split at h
    · exact h
    · split at h
      · exact h
      · exact alive_ask.mp h
  | exit q => exact (alive_exit.mp h).1
  | report q =>
    rw [State.step] at h
    split at h
    · exact alive_report.mp h
    · exact h

/-- Moves without a successful start bring no child to life. -/
theorem alive_of_alive_run {ms : List (Move α)} (hms : ∀ m ∈ ms, ∀ info, m ≠ .start info true)
    {s : State α} {p : ℕ} (h : Alive (EventSystem.run State.step s ms).children p) :
    Alive s.children p := by
  by_contra hdead
  exact EventSystem.run_induction_mem (I := fun s : State α => ¬ Alive s.children p)
    (fun _ _ hm hs h' => hs (alive_of_alive_step hm h')) hms hdead h

/-- Moves without a failed start keep a launched child in the slot, or none. -/
theorem HoldsLaunched.run {ms : List (Move α)} (hms : ∀ m ∈ ms, ∀ info, m ≠ .start info false)
    {s : State α} (h : HoldsLaunched s) : HoldsLaunched (EventSystem.run State.step s ms) :=
  EventSystem.run_induction_mem (fun _ _ hm hs => hs.step hm) hms h

/-- An in-place update that leaves a trait of every child alone leaves the traits alone. -/
theorem map_modify {β : Type v} {g : Child α → β} {f : Child α → Child α}
    (hf : ∀ c, g (f c) = g c) (cs : List (Child α)) (p : ℕ) :
    (cs.modify p f).map g = cs.map g := by
  refine List.ext_getElem? fun i => ?_
  rw [List.getElem?_map, List.getElem?_map, List.getElem?_modify]
  rcases cs[i]? with _ | c
  · rfl
  · by_cases hpi : p = i
    · simp [hpi, hf]
    · simp [hpi]

section Traits

variable (cs : List (Child α)) (p : ℕ)

@[simp] theorem map_info_ask : (ask cs p).map Child.info = cs.map Child.info := by
  refine map_modify (fun c => ?_) cs p
  rfl

@[simp] theorem map_info_exit : (exit cs p).map Child.info = cs.map Child.info := by
  refine map_modify (fun c => ?_) cs p
  split <;> rfl

@[simp] theorem map_info_report : (report cs p).map Child.info = cs.map Child.info := by
  refine map_modify (fun c => ?_) cs p
  split <;> rfl

@[simp] theorem map_info_spawn (info : α) (runs : Bool) :
    (spawn cs info runs).map Child.info = cs.map Child.info ++ [info] := by
  rw [spawn, List.map_append]
  rfl

@[simp] theorem map_asked_exit : (exit cs p).map Child.asked = cs.map Child.asked := by
  refine map_modify (fun c => ?_) cs p
  split <;> rfl

@[simp] theorem map_asked_report : (report cs p).map Child.asked = cs.map Child.asked := by
  refine map_modify (fun c => ?_) cs p
  split <;> rfl

@[simp] theorem map_asked_spawn (info : α) (runs : Bool) :
    (spawn cs info runs).map Child.asked = cs.map Child.asked ++ [false] := by
  rw [spawn, List.map_append]
  rfl

/-- Asking a child to terminate sets its flag, and no other. -/
theorem getElem?_map_asked_ask (q : ℕ) : ((ask cs p).map Child.asked)[q]? =
    (cs.map Child.asked)[q]?.map fun asked => asked || decide (p = q) := by
  rw [ask, List.getElem?_map, List.getElem?_map, List.getElem?_modify]
  rcases cs[q]? with _ | c
  · rfl
  · by_cases hpq : p = q
    · simp [hpq]
    · simp [hpq]

end Traits

@[simp] theorem map_info_foldl_exit (cs : List (Child α)) (ps : List ℕ) :
    (ps.foldl exit cs).map Child.info = cs.map Child.info := by
  induction ps generalizing cs with
  | nil => rfl
  | cons p ps ih => rw [List.foldl_cons, ih, map_info_exit]

@[simp] theorem map_asked_foldl_exit (cs : List (Child α)) (ps : List ℕ) :
    (ps.foldl exit cs).map Child.asked = cs.map Child.asked := by
  induction ps generalizing cs with
  | nil => rfl
  | cons p ps ih => rw [List.foldl_cons, ih, map_asked_exit]

/-- What a child was started with never changes: a move at most adds a child. -/
theorem infos_step (s : State α) (m : Move α) :
    s.children.map Child.info <+: (s.step m).children.map Child.info := by
  cases m with
  | start info runs =>
    rw [State.step]
    split
    · exact List.prefix_rfl
    · rw [map_info_spawn]
      exact List.prefix_append ..
  | stop =>
    rw [State.step]
    split
    · exact List.prefix_rfl
    · split
      · exact List.prefix_rfl
      · rw [map_info_ask]
  | exit p =>
    rw [State.step, map_info_exit]
  | report p =>
    rw [State.step]
    split
    · rw [map_info_report]
    · exact List.prefix_rfl

/-- Nor over any number of moves. -/
theorem infos_run (s : State α) (ms : List (Move α)) :
    s.children.map Child.info <+: (EventSystem.run State.step s ms).children.map Child.info :=
  EventSystem.run_induction
    (I := fun s' : State α => s.children.map Child.info <+: s'.children.map Child.info)
    (fun s' m h => h.trans (infos_step s' m)) ms List.prefix_rfl

/-- With an empty slot, the running children are among those asked to terminate. -/
theorem Supervised.asked_of_alive {s : State α} (h : Supervised s) (hslot : s.slot = none)
    {p : ℕ} {c : Child α} (hc : s.children[p]? = some c) (hrun : c.phase = .running) :
    c.asked = true := by
  rcases h.held p c hc hrun with hp | hasked
  · rw [hslot] at hp
    cases hp
  · exact hasked

/-! ## Exits are reported -/

/-- A child that has exited stays in its phase, but for the report of its exit. -/
theorem phase_step {s : State α} {p : ℕ} {phase : Phase}
    (h : (s.children[p]?.map Child.phase) = some phase)
    (hended : phase = .exited ∨ phase = .notified) {m : Move α}
    (hm : phase = .exited → m ≠ .report p) :
    ((s.step m).children[p]?.map Child.phase) = some phase := by
  have hmodify : ∀ (q : ℕ) (f : Child α → Child α), (∀ c, c.phase = phase → q = p →
      (f c).phase = phase) → ((s.children.modify q f)[p]?.map Child.phase) = some phase := by
    intro q f hf
    obtain ⟨c, hc, hphase⟩ := Option.map_eq_some_iff.mp h
    rw [List.getElem?_modify, hc, Option.map_eq_map, Option.map_some, Option.map_some]
    split
    · rename_i hqp
      rw [hf c hphase hqp]
    · rw [hphase]
  cases m with
  | start info runs =>
    rw [State.step]
    split
    · exact h
    · obtain ⟨c, hc, hphase⟩ := Option.map_eq_some_iff.mp h
      dsimp only
      rw [getElem?_spawn_of_some hc, Option.map_some, hphase]
  | stop =>
    rw [State.step]
    split
    · exact h
    · split
      · exact h
      · exact hmodify _ _ fun c hphase _ => hphase
  | exit q =>
    refine hmodify q _ fun c hphase _ => ?_
    -- it does not run any more
    rw [if_neg (by rcases hended with rfl | rfl <;> rw [hphase] <;> decide)]
    exact hphase
  | report q =>
    rw [State.step]
    split
    · refine hmodify q _ fun c hphase hqp => ?_
      rw [if_neg]
      · exact hphase
      · intro hexited
        exact hm (hphase.symm.trans hexited) (congrArg Move.report hqp)
    · exact h

theorem exited_run {ms : List (Move α)} {p : ℕ} (hms : ∀ m ∈ ms, m ≠ .report p) {s : State α}
    (h : (s.children[p]?.map Child.phase) = some .exited) :
    ((EventSystem.run State.step s ms).children[p]?.map Child.phase) = some .exited :=
  EventSystem.run_induction_mem (A := fun m => m ≠ .report p)
    (I := fun s : State α => (s.children[p]?.map Child.phase) = some .exited)
    (fun _ _ hm hs => phase_step hs (Or.inl rfl) fun _ => hm) hms h

/-- What has been reported stays so. -/
theorem notified_run {s : State α} {p : ℕ}
    (h : (s.children[p]?.map Child.phase) = some .notified) (ms : List (Move α)) :
    ((EventSystem.run State.step s ms).children[p]?.map Child.phase) = some .notified :=
  EventSystem.run_induction
    (I := fun s : State α => (s.children[p]?.map Child.phase) = some .notified)
    (fun _ _ hs => phase_step hs (Or.inr rfl) fun hexited => by cases hexited) ms h

/-- A child comes to be reported by a report of its exit only. -/
theorem notified_of_step {s : State α} {m : Move α} {p : ℕ}
    (h : ((s.step m).children[p]?.map Child.phase) = some .notified) :
    (s.children[p]?.map Child.phase) = some .notified ∨
      m = .report p ∧ (s.children[p]?.map Child.phase) = some .exited := by
  obtain ⟨c, hc, hphase⟩ := Option.map_eq_some_iff.mp h
  cases m with
  | start info runs =>
    rw [State.step] at hc
    split at hc
    · exact Or.inl (by rw [hc, Option.map_some, hphase])
    · rcases getElem?_spawn_inv hc with hc | ⟨-, rfl⟩
      · exact Or.inl (by rw [hc, Option.map_some, hphase])
      · cases runs <;> cases hphase
  | stop =>
    rw [State.step] at hc
    split at hc
    · exact Or.inl (by rw [hc, Option.map_some, hphase])
    · split at hc
      · exact Or.inl (by rw [hc, Option.map_some, hphase])
      · obtain ⟨c₀, hc₀, rfl⟩ := getElem?_modify_inv hc
        refine Or.inl ?_
        rw [hc₀, Option.map_some, ← hphase]
        split <;> rfl
  | exit q =>
    obtain ⟨c₀, hc₀, rfl⟩ := getElem?_modify_inv hc
    refine Or.inl ?_
    rw [hc₀, Option.map_some, ← hphase]
    split
    · split
      · rename_i hqp hrun
        rw [if_pos hqp, if_pos hrun] at hphase
        cases hphase
      · rfl
    · rfl
  | report q =>
    rw [State.step] at hc
    split at hc
    · rename_i hexited
      by_cases hqp : q = p
      · rw [hqp] at hexited
        exact Or.inr ⟨congrArg Move.report hqp, hexited⟩
      · obtain ⟨c₀, hc₀, rfl⟩ := getElem?_modify_inv hc
        rw [if_neg hqp] at hphase
        exact Or.inl (by rw [hc₀, Option.map_some, hphase])
    · exact Or.inl (by rw [hc, Option.map_some, hphase])

theorem notified_of_run {s : State α} {ms : List (Move α)} {p : ℕ}
    (h : ((EventSystem.run State.step s ms).children[p]?.map Child.phase) = some .notified) :
    (s.children[p]?.map Child.phase) = some .notified ∨ .report p ∈ ms := by
  by_contra hno
  obtain ⟨hbefore, hreport⟩ := not_or.mp hno
  refine EventSystem.run_induction_mem (A := fun m => m ≠ .report p)
    (I := fun s : State α => (s.children[p]?.map Child.phase) ≠ some .notified) ?_ ?_ hbefore h
  · intro s m hm hs hnext
    rcases notified_of_step hnext with hnotified | ⟨heq, -⟩
    · exact hs hnotified
    · exact hm heq
  · rintro m hmem rfl
    exact hreport hmem

/-- A report takes note of an exit. -/
theorem report_of_exited {cs : List (Child α)} {p : ℕ}
    (h : (cs[p]?.map Child.phase) = some .exited) :
    ((report cs p)[p]?.map Child.phase) = some .notified := by
  obtain ⟨c, hc, hphase⟩ := Option.map_eq_some_iff.mp h
  simp [report, hc, hphase]

end Supervisor
