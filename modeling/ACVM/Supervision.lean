import ACVM.Interface

/-!
# The controller supervises QEMU through one slot

The controller refines the abstract supervisor: `qemuProcess` is the slot, and every
event is a short sequence of abstract moves (`supervisor_step`). What the supervisor
guarantees over all runs therefore holds of the app: no running VM is lost, and the
exit of the VM in the slot is always still to be reported.

The abstract supervisor hears of every exit that is reported. The app hears of those it
observes, so the refinement rests on `Observed`: no process is made without its observer.
-/

namespace ACVM

namespace World

/-- The supervisor in a world. -/
def supervisor (w : World) : Supervisor.State Launch := ⟨w.controller.qemuProcess, w.qemu⟩

/-- The abstract moves an event makes. -/
def moves (w : World) : Event → List (Supervisor.Move Launch)
  | .outside x => (exits [x]).map .exit
  | .tap env =>
    if w.crashed then []
    else match w.controller.qemuProcess, env.efiURL, w.controller.mainImageURL with
      | some _, _, _ => [.stop]
      | none, some efiURL, some mainImage =>
        (exits env.gap).map .exit ++ [.start (w.newLaunch efiURL mainImage) env.qemuRuns]
      | none, _, _ => []
  | .notify process => if w.crashed then [] else [.report process]
  | _ => []

/-! ## Every process is observed -/

/-- The controller observes the processes it has made, each once. -/
def Observed (w : World) : Prop := w.observers = List.range w.qemu.length

theorem Observed.mem {w : World} (h : w.Observed) {process : ℕ} (hlt : process < w.qemu.length) :
    process ∈ w.observers := by
  rw [h, List.mem_range]
  exact hlt

/-- An event that makes no process and ends no observation keeps it so. -/
theorem Observed.of_eq {w w' : World} (h : w.Observed) (hlength : w'.qemu.length = w.qemu.length)
    (hobservers : w'.observers = w.observers) : w'.Observed := by
  rw [Observed, hobservers, hlength]
  exact h

/-- The only event that makes a process observes it, and no observer is ever removed. -/
theorem observed_step {w : World} (h : w.Observed) (e : Event) : (w.step e).Observed := by
  have heffect := w.effect_step e
  generalize w.step e = w' at heffect ⊢
  cases heffect with
  | stop _ _ _ => exact h.of_eq (by simp [Supervisor.ask]) rfl
  | start _ _ =>
    rw [Observed, startVM_observers, startVM_qemu, Supervisor.spawn, List.length_append,
      Supervisor.length_foldl_exit, List.length_singleton, List.range_succ, h]
  | drop _ _ => exact h.of_eq (by rw [dropURL_qemu]) (by rw [dropURL_observers])
  | endEditing _ =>
    exact h.of_eq (by rw [updateNICOptions_qemu]) (by rw [updateNICOptions_observers])
  | notifyHeld _ _ _ _ => exact h.of_eq (by simp [Supervisor.report]) rfl
  | notifyOther _ _ _ => exact h.of_eq (by simp [Supervisor.report]) rfl
  | outside =>
    refine h.of_eq ?_ (by rw [outside_observers])
    rw [outside_qemu, Supervisor.length_foldl_exit]
  | _ => exact h.of_eq rfl rfl

theorem observed_openApp (defaults : UserDefaults) (disk : Disk) :
    (openApp defaults disk).Observed := rfl

theorem observed_run (defaults : UserDefaults) (disk : Disk) (es : List Event) :
    ((openApp defaults disk).run es).Observed :=
  EventSystem.run_induction (I := Observed) (fun _ e h => observed_step h e) es
    (observed_openApp defaults disk)

/-! ## The refinement -/

/-- Exits, one after the other, move nothing but the children. -/
theorem run_exits (s : Supervisor.State Launch) (ps : List ℕ) :
    EventSystem.run Supervisor.State.step s (ps.map .exit) =
      ⟨s.slot, ps.foldl Supervisor.exit s.children⟩ := by
  induction ps generalizing s with
  | nil => rfl
  | cons p ps ih => rw [List.map_cons, EventSystem.run_cons, ih]; rfl

theorem Starts.moves {w : World} {env : LaunchEnv} {efiURL mainImage : URL}
    (hcrash : w.crashed = false) (h : w.Starts env efiURL mainImage) :
    w.moves (.tap env) = (exits env.gap).map .exit ++
      [.start (w.newLaunch efiURL mainImage) env.qemuRuns] := by
  simp [World.moves, hcrash, h.1, h.2.1, h.2.2]

/-- The starts among the moves of an event: the one of a tap that passes the guards. -/
theorem start_mem_moves {w : World} {e : Event} {info : Launch} {runs : Bool}
    (h : .start info runs ∈ w.moves e) :
    ∃ env efiURL mainImage, e = .tap env ∧ w.crashed = false ∧ w.Starts env efiURL mainImage ∧
      env.qemuRuns = runs := by
  cases e with
  | tap env =>
    rcases hcrash : w.crashed with _ | _
    · rcases hslot : w.controller.qemuProcess with _ | p
      · rcases hefi : env.efiURL with _ | efiURL
        · simp [moves, hcrash, hslot, hefi] at h
        · rcases hmain : w.controller.mainImageURL with _ | mainImage
          · simp [moves, hcrash, hslot, hefi, hmain] at h
          · refine ⟨env, efiURL, mainImage, rfl, rfl, ⟨hslot, hefi, hmain⟩, ?_⟩
            simp only [moves, hcrash, hslot, hefi, hmain] at h
            rcases List.mem_append.mp h with h | h
            · obtain ⟨p, -, heq⟩ := List.mem_map.mp h
              cases heq
            · obtain ⟨-, rfl⟩ := Supervisor.Move.start.inj (List.mem_singleton.mp h)
              rfl
      · simp [moves, hcrash, hslot] at h
    · simp [moves, hcrash] at h
  | notify p =>
    rcases hcrash : w.crashed with _ | _ <;> simp [moves, hcrash] at h
  | outside x =>
    obtain ⟨p, -, heq⟩ := List.mem_map.mp h
    cases heq
  | _ => simp [moves] at h

/-- The reports among the moves of an event: the one of the notification of that process. -/
theorem report_mem_moves {w : World} {e : Event} {process : ℕ} (h : .report process ∈ w.moves e) :
    e = .notify process ∧ w.crashed = false := by
  cases e with
  | tap env =>
    rw [moves] at h
    split at h
    · cases h
    · split at h <;> simp at h
  | notify process' =>
    rw [moves] at h
    split at h
    · cases h
    · cases List.mem_singleton.mp h
      exact ⟨rfl, Bool.not_eq_true _ ▸ ‹¬ _›⟩
  | outside x =>
    obtain ⟨p, -, heq⟩ := List.mem_map.mp h
    cases heq
  | _ => cases h

/-- A tap that no guard lets through makes no move. -/
theorem moves_of_not_starts {w : World} {env : LaunchEnv} (hslot : w.controller.qemuProcess = none)
    (hno : ∀ efiURL mainImage, ¬ w.Starts env efiURL mainImage) : w.moves (.tap env) = [] := by
  rcases hcrash : w.crashed with _ | _
  · rcases hefi : env.efiURL with _ | efiURL
    · simp [moves, hcrash, hslot, hefi]
    · rcases hmain : w.controller.mainImageURL with _ | mainImage
      · simp [moves, hcrash, hslot, hefi, hmain]
      · exact absurd ⟨hslot, hefi, hmain⟩ (hno efiURL mainImage)
  · simp [moves, hcrash]

/-- The process has exited, and nobody has been told. -/
def Unreported (w : World) (process : ℕ) : Prop :=
  (w.qemu[process]?.map Supervisor.Child.phase) = some .exited

instance (w : World) (process : ℕ) : Decidable (w.Unreported process) :=
  inferInstanceAs (Decidable ((w.qemu[process]?.map Supervisor.Child.phase) = some .exited))

/-- A process that has exited was made. -/
theorem Unreported.lt_length {w : World} {process : ℕ} (h : w.Unreported process) :
    process < w.qemu.length := by
  obtain ⟨vm, hvm, -⟩ := Option.map_eq_some_iff.mp h
  exact (List.getElem?_eq_some_iff.mp hvm).1

/-- **Refinement**: with every process observed, every event is a sequence of moves of the
supervisor. -/
theorem supervisor_step {w : World} (h : w.Observed) (e : Event) :
    (w.step e).supervisor =
      EventSystem.run Supervisor.State.step w.supervisor (w.moves e) := by
  have heffect := w.effect_step e
  generalize w.step e = w' at heffect ⊢
  cases heffect with
  | crash hcrash hslot hnever =>
    simp [moves, hcrash, hslot, supervisor, Supervisor.State.step, hnever]
  | stop hcrash hslot hnever =>
    simp [moves, hcrash, hslot, supervisor, Supervisor.State.step, hnever]
  | start hcrash hstarts =>
    -- the exits of the gap, and then the start
    rw [hstarts.moves hcrash, EventSystem.run_append, run_exits, supervisor, startVM_controller,
      startVM_qemu, ViewController.updateStates_qemuProcess]
    simp [supervisor, Supervisor.State.step, hstarts.1]
  | reject _ hslot hno =>
    rw [moves_of_not_starts hslot hno]
    rfl
  | drop _ _ =>
    rw [supervisor, dropURL_qemuProcess, dropURL_qemu]
    rfl
  | pass _ _ => rfl
  | @edit field _ _ => cases field <;> rfl
  | endEditing _ =>
    rw [supervisor, updateNICOptions_controller, updateNICOptions_qemu]
    rfl
  | check _ => rfl
  | choose _ =>
    rw [ViewController.onGraphicChange]
    split <;> rfl
  | notifyHeld hcrash hexited _ hslot =>
    simp [moves, hcrash, supervisor, Supervisor.State.step, hexited, hslot]
  | notifyOther hcrash hexited hslot =>
    have hne := hslot (h.mem (Unreported.lt_length hexited))
    simp [moves, hcrash, supervisor, Supervisor.State.step, hexited, hne]
  | notifyNone hcrash hexited =>
    simp [moves, hcrash, supervisor, Supervisor.State.step, hexited]
  | outside =>
    rw [moves, run_exits, supervisor, outside_controller, outside_qemu]
    rfl
  | crashed hcrash hne =>
    cases e with
    | outside x => exact absurd rfl (hne x)
    | _ => simp [moves, hcrash]

/-- The invariant of the app: that of the supervisor, with every process observed. -/
structure Supervised (w : World) : Prop extends Supervisor.Supervised w.supervisor where
  /-- no process is made without its observer -/
  observed : w.Observed

/-- The invariant holds after every run of the app. -/
theorem supervised_step {w : World} (h : w.Supervised) (e : Event) : (w.step e).Supervised := by
  refine ⟨?_, observed_step h.observed e⟩
  rw [supervisor_step h.observed]
  exact h.toSupervised.run (w.moves e)

theorem supervisor_openApp (defaults : UserDefaults) (disk : Disk) :
    (openApp defaults disk).supervisor = Supervisor.State.init := by
  rw [supervisor, (opened defaults disk).qemuProcess]
  rfl

theorem supervised_openApp (defaults : UserDefaults) (disk : Disk) :
    (openApp defaults disk).Supervised := by
  refine ⟨?_, observed_openApp defaults disk⟩
  rw [supervisor_openApp]
  exact Supervisor.supervised_init

theorem supervised_run (defaults : UserDefaults) (disk : Disk) (es : List Event) :
    ((openApp defaults disk).run es).Supervised :=
  EventSystem.run_induction (I := Supervised) (fun _ e h => supervised_step h e) es
    (supervised_openApp defaults disk)

/-- **Runs refine runs**: seen from the slot and the processes, every run of the app is a run
of the supervisor, with the launches and exits of the app's own events. -/
theorem supervisor_run (defaults : UserDefaults) (disk : Disk) (es : List Event) :
    ((openApp defaults disk).run es).supervisor =
      EventSystem.run Supervisor.State.step Supervisor.State.init
        (EventSystem.allMoves step moves (openApp defaults disk) es) := by
  rw [← supervisor_openApp defaults disk]
  exact EventSystem.simulation_run (I := Observed) (fun _ e h => observed_step h e)
    (fun _ e h => supervisor_step h e) es (observed_openApp defaults disk)

/-! ## Crashes -/

/-- A tap that calls `terminate()` on a process that was never launched. -/
def TerminatesUnlaunched (w : World) (e : Event) : Prop :=
  ∃ env process, e = .tap env ∧ w.crashed = false ∧
    w.controller.qemuProcess = some process ∧ Supervisor.NeverLaunched w.qemu process

/-- The app crashes at such a tap only. -/
theorem crashed_step (w : World) (e : Event) :
    (w.step e).crashed = true ↔ w.crashed = true ∨ w.TerminatesUnlaunched e := by
  have hquiet : ¬ w.TerminatesUnlaunched e →
      (w.crashed = true ↔ w.crashed = true ∨ w.TerminatesUnlaunched e) := by
    intro hno
    rw [or_iff_left hno]
  have heffect := w.effect_step e
  generalize w.step e = w' at heffect ⊢
  cases heffect with
  | crash hcrash hslot hnever =>
    exact ⟨fun _ => Or.inr ⟨_, _, rfl, hcrash, hslot, hnever⟩, fun _ => rfl⟩
  | stop _ hslot hnever =>
    refine hquiet ?_
    rintro ⟨_, process, -, -, hslot', hnever'⟩
    obtain rfl := Option.some.inj (hslot.symm.trans hslot')
    exact hnever hnever'
  | start _ hstarts =>
    rw [startVM_crashed]
    refine hquiet ?_
    rintro ⟨_, process, -, -, hslot, -⟩
    cases hstarts.1.symm.trans hslot
  | reject _ hslot _ =>
    refine hquiet ?_
    rintro ⟨_, process, -, -, hslot', -⟩
    cases hslot.symm.trans hslot'
  | drop _ _ =>
    rw [dropURL_crashed]
    exact hquiet (by simp [TerminatesUnlaunched])
  | endEditing _ =>
    rw [updateNICOptions_crashed]
    exact hquiet (by simp [TerminatesUnlaunched])
  | outside =>
    rw [outside_crashed]
    exact hquiet (by simp [TerminatesUnlaunched])
  | crashed hcrash _ => simp [hcrash]
  | _ => exact hquiet (by simp [TerminatesUnlaunched])

/-- A crashed app stays crashed. -/
theorem crashed_run {w : World} (h : w.crashed = true) (es : List Event) :
    (w.run es).crashed = true :=
  EventSystem.run_induction (I := fun w : World => w.crashed = true)
    (fun w e hw => (crashed_step w e).mpr (Or.inl hw)) es h

/-- A crashed app holds the process that was never launched. -/
def CrashHolds (w : World) : Prop :=
  w.crashed = true →
    ∃ process, w.controller.qemuProcess = some process ∧ Supervisor.NeverLaunched w.qemu process

/-- Nothing that happens outside launches a process. -/
theorem neverLaunched_outside {w : World} {x : External} {process : ℕ} :
    Supervisor.NeverLaunched (w.outside x).qemu process ↔
      Supervisor.NeverLaunched w.qemu process := by
  cases x with
  | qemuExit p => exact Supervisor.neverLaunched_exit
  | qemuImgStep i ok => rw [outside]; split <;> exact Iff.rfl
  | diskChange path size => exact Iff.rfl

theorem crashHolds_step {w : World} (h : w.CrashHolds) (e : Event) : (w.step e).CrashHolds := by
  intro hcrashed
  have heffect := w.effect_step e
  generalize w.step e = w' at heffect hcrashed ⊢
  cases heffect with
  | crash _ hslot hnever => exact ⟨_, hslot, hnever⟩
  | outside =>
    rw [outside_crashed] at hcrashed
    obtain ⟨process, hslot, hnever⟩ := h hcrashed
    refine ⟨process, ?_, neverLaunched_outside.mpr hnever⟩
    rw [outside_controller]
    exact hslot
  | crashed hcrash _ => exact h hcrash
  | _ =>
    -- every other effect is one of a running app, and leaves it running
    simp_all

theorem crashHolds_run (defaults : UserDefaults) (disk : Disk) (es : List Event) :
    ((openApp defaults disk).run es).CrashHolds :=
  EventSystem.run_induction (I := fun w : World => w.CrashHolds)
    (fun _ e h => crashHolds_step h e) es fun hcrash => by cases hcrash

/-! ## No orphaned VM, no lost or misattributed exit -/

/-- The exit of the process in the slot, once it has happened, returns the controller to
idle when its notification is posted, if the process is observed. -/
theorem idle_notify {w : World} (hcrash : w.crashed = false) {process : ℕ}
    (hslot : w.controller.qemuProcess = some process)
    (hexited : w.Unreported process) (hobserved : process ∈ w.observers) :
    (w.step (.notify process)).controller.Idle := by
  have heffect := w.effect_step (.notify process)
  generalize w.step (.notify process) = w' at heffect ⊢
  cases heffect with
  | notifyHeld _ _ _ _ => exact ViewController.idle_updateStates rfl
  | notifyOther _ _ hne => exact absurd hslot (hne hobserved)
  | notifyNone _ hne => exact absurd hexited hne
  | crashed hcrashed _ => cases hcrash.symm.trans hcrashed

/-- The notification of a process that is not in the slot leaves the controller, and the
defaults, as they are. -/
theorem notify_of_ne {w : World} {process : ℕ} (hslot : w.controller.qemuProcess ≠ some process) :
    (w.step (.notify process)).controller = w.controller ∧
      (w.step (.notify process)).defaults = w.defaults := by
  have heffect := w.effect_step (.notify process)
  generalize w.step (.notify process) = w' at heffect ⊢
  cases heffect with
  | notifyHeld _ _ _ hslot' => exact absurd hslot' hslot
  | _ => exact ⟨rfl, rfl⟩

/-- An event calls `processDidTerminate(_:)` for the exit of a process: its notification is
posted, and the process is observed. -/
def Handles (w : World) (e : Event) (process : ℕ) : Prop :=
  e = .notify process ∧ w.crashed = false ∧ w.Unreported process ∧ process ∈ w.observers

/-- What such an event does. -/
theorem Handles.step_eq {w : World} {e : Event} {process : ℕ} (h : w.Handles e process) :
    w.step e = World.processDidTerminate
      { w with qemu := Supervisor.report w.qemu process } process := by
  obtain ⟨rfl, hcrash, hexited, hobserved⟩ := h
  have hphase : (w.qemu[process]?.map Supervisor.Child.phase) = some .exited := hexited
  simp [World.step, hcrash, handle, World.notify, hphase, hobserved]

/-- The process has exited, and the notification of its exit was posted. -/
def Notified (w : World) (process : ℕ) : Prop :=
  (w.qemu[process]?.map Supervisor.Child.phase) = some .notified

/-- **Every notification is handled**: with every process observed, none is posted but to the
controller. -/
theorem notified_step {w : World} (hobserved : w.Observed) (e : Event) (process : ℕ) :
    (w.step e).Notified process ↔ w.Notified process ∨ w.Handles e process := by
  have hstep : (w.step e).Notified process ↔ ((EventSystem.run Supervisor.State.step w.supervisor
      (w.moves e)).children[process]?.map Supervisor.Child.phase) = some .notified := by
    rw [← supervisor_step hobserved]
    rfl
  rw [hstep]
  refine ⟨?_, ?_⟩
  · intro h
    rcases Supervisor.notified_of_run h with hbefore | hreport
    · exact Or.inl hbefore
    · obtain ⟨rfl, hcrash⟩ := report_mem_moves hreport
      rw [moves, hcrash, if_neg Bool.false_ne_true, EventSystem.run_cons, EventSystem.run_nil] at h
      rcases Supervisor.notified_of_step h with hbefore | ⟨-, hexited⟩
      · exact Or.inl hbefore
      · have howed : w.Unreported process := hexited
        exact Or.inr ⟨rfl, hcrash, howed, hobserved.mem howed.lt_length⟩
  · rintro (hbefore | ⟨rfl, hcrash, hexited, -⟩)
    · exact Supervisor.notified_run (s := w.supervisor) hbefore _
    · have hphase : (w.supervisor.children[process]?.map Supervisor.Child.phase) = some .exited :=
        hexited
      rw [moves, hcrash, if_neg Bool.false_ne_true, EventSystem.run_cons, EventSystem.run_nil,
        Supervisor.State.step, if_pos hphase]
      exact Supervisor.report_of_exited hphase

/-- **No orphaned VM and no lost or misattributed exit.** After every run: a running VM
is the current one or has been asked to terminate; every process that was made is
observed; the exit of the current VM has not been handled, and its notification returns
the controller to idle; and the notification of any other process changes nothing. -/
theorem no_orphan_no_lost_exit (defaults : UserDefaults) (disk : Disk) (es : List Event) :
    let w := (openApp defaults disk).run es
    (∀ process vm, w.qemu[process]? = some vm → vm.phase = .running →
      w.controller.qemuProcess = some process ∨ vm.asked = true) ∧
    (∀ process, process < w.qemu.length → process ∈ w.observers) ∧
    (∀ process vm, w.controller.qemuProcess = some process → w.qemu[process]? = some vm →
      vm.phase ≠ .created →
      vm.phase ≠ .notified ∧
        (vm.phase = .exited → (w.step (.notify process)).controller.Idle)) ∧
    (∀ process, w.controller.qemuProcess ≠ some process →
      w.processDidTerminate process = w ∧
        (w.step (.notify process)).controller = w.controller ∧
        (w.step (.notify process)).defaults = w.defaults) := by
  intro w
  have hsupervised : w.Supervised := supervised_run defaults disk es
  refine ⟨hsupervised.held, fun _ => hsupervised.observed.mem, ?_, ?_⟩
  · intro process vm hslot hvm hlaunched
    obtain ⟨vm', hvm', hnotified, -⟩ := hsupervised.slot process hslot
    obtain rfl := Option.some.inj (hvm'.symm.trans hvm)
    refine ⟨hnotified, fun hexited => ?_⟩
    have hrunning : w.crashed = false := by
      -- a crashed app holds a process that was never launched, and `vm` was
      rcases hcrash : w.crashed with _ | _
      · rfl
      · obtain ⟨p, hp, hnever⟩ := crashHolds_run defaults disk es hcrash
        obtain rfl : process = p := Option.some.inj (hslot.symm.trans hp)
        rw [Supervisor.NeverLaunched, hvm, Option.map_some] at hnever
        exact absurd (Option.some.inj hnever) hlaunched
    have howed : w.Unreported process := by rw [Unreported, hvm, Option.map_some, hexited]
    exact idle_notify hrunning hslot howed (hsupervised.observed.mem howed.lt_length)
  · intro process hslot
    exact ⟨if_neg hslot, notify_of_ne hslot⟩

end World

end ACVM
