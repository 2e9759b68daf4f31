import ACVM.OneVM

/-!
# When `run()` of QEMU throws

`didTapStartButton` fills the slot and calls `updateStates` before it runs QEMU, and its
`catch` only logs. A process that was never launched posts no notification, so nothing
takes it out of the slot again but a tap on Stop, and `terminate()` on it raises.

`launchContained_step_iff` says how much of the intended behaviour is left: an event
contains its launch exactly when the launch does not fail. `stuck_of_launchFails` is what
a failure leads to: whatever happens before the next tap, the window shows a VM that can
be stopped, and that tap ends the app.
-/

namespace ACVM

namespace World

/-- The event is a start tap that passes the guards and whose `run()` of QEMU throws. -/
def LaunchFails (w : World) (e : Event) : Prop :=
  ∃ env efiURL mainImage, e = .tap env ∧ w.crashed = false ∧ w.Starts env efiURL mainImage ∧
    env.qemuRuns = false

/-- The process in the slot, if any, was launched. -/
def HoldsLaunched (w : World) : Prop :=
  ∀ process, w.controller.qemuProcess = some process →
    ∃ vm, w.qemu[process]? = some vm ∧ vm.phase ≠ .created

/-- An event contains its launch: a failure leaves the controller idle, whatever is held
afterwards was launched, and nothing that was not is told to terminate. -/
structure LaunchContained (w : World) (e : Event) : Prop where
  /-- a failed launch leaves the controller idle -/
  idle : w.LaunchFails e → (w.step e).controller.Idle
  /-- the process held after the handler was launched -/
  holds : (w.step e).HoldsLaunched
  /-- `terminate()` is called on launched processes only -/
  terminates : ¬ w.TerminatesUnlaunched e

/-- The supervisor never loses the process in its slot, so holding a launched one is the
same as not holding one that was never launched. -/
theorem holdsLaunched_iff {w : World} (h : w.Supervised) :
    w.HoldsLaunched ↔ Supervisor.HoldsLaunched w.supervisor := by
  refine ⟨?_, ?_⟩
  · intro hholds process hslot hnever
    obtain ⟨vm, hvm, hlaunched⟩ := hholds process hslot
    have hphase : (w.qemu[process]?.map Supervisor.Child.phase) = some .created := hnever
    rw [hvm, Option.map_some, Option.some.injEq] at hphase
    exact hlaunched hphase
  · intro hholds process hslot
    obtain ⟨vm, hvm, -, -⟩ := h.slot process hslot
    refine ⟨vm, hvm, fun hcreated => hholds process hslot ?_⟩
    have hchild : w.supervisor.children[process]? = some vm := hvm
    rw [Supervisor.NeverLaunched, hchild, Option.map_some, hcreated]

/-- A launched process in the slot is not terminated unlaunched. -/
theorem HoldsLaunched.not_terminatesUnlaunched {w : World} (h : w.HoldsLaunched) (e : Event) :
    ¬ w.TerminatesUnlaunched e := by
  rintro ⟨env, process, -, -, hslot, hnever⟩
  obtain ⟨vm, hvm, hlaunched⟩ := h process hslot
  rw [Supervisor.NeverLaunched, hvm, Option.map_some, Option.some.injEq] at hnever
  exact hlaunched hnever

/-- An event whose launch does not fail keeps a launched process in the slot. -/
theorem HoldsLaunched.step {w : World} (h : w.HoldsLaunched)
    (hsupervised : w.Supervised) {e : Event} (hfails : ¬ w.LaunchFails e) :
    (w.step e).HoldsLaunched := by
  rw [holdsLaunched_iff (supervised_step hsupervised e), supervisor_step hsupervised.observed]
  refine Supervisor.HoldsLaunched.run ?_ ((holdsLaunched_iff hsupervised).mp h)
  rintro m hm info rfl
  obtain ⟨env, efiURL, mainImage, rfl, hcrash, hstarts, hruns⟩ := start_mem_moves hm
  exact hfails ⟨env, efiURL, mainImage, rfl, hcrash, hstarts, hruns⟩

/-- The slot holds a process that was never launched. -/
def StuckOn (w : World) (process : ℕ) : Prop :=
  w.crashed = false ∧ w.controller.qemuProcess = some process ∧
    Supervisor.NeverLaunched w.qemu process

/-- What a failed launch leaves: the slot holds the process that was not launched. -/
theorem LaunchFails.stuckOn {w : World} {e : Event} (h : w.LaunchFails e) :
    (w.step e).StuckOn w.qemu.length := by
  obtain ⟨env, efiURL, mainImage, rfl, hcrash, hstarts, hruns⟩ := h
  rw [StuckOn, hstarts.step hcrash, startVM_crashed, startVM_controller, startVM_qemu,
    ← Supervisor.length_foldl_exit w.qemu (exits env.gap)]
  refine ⟨hcrash, ViewController.updateStates_qemuProcess _, ?_⟩
  exact Supervisor.neverLaunched_spawn_self.mpr hruns

/-- And it leaves the window reflecting that, whatever it reflected before. -/
theorem LaunchFails.reflects {w : World} {e : Event} (h : w.LaunchFails e) :
    (w.step e).controller.Reflects := by
  obtain ⟨env, efiURL, mainImage, rfl, hcrash, hstarts, -⟩ := h
  rw [hstarts.step hcrash, startVM_controller]
  exact ViewController.reflects_updateStates fun _ => by simp [hstarts.2.2]

/-- **One step**: with a launched process in the slot, or none, an event contains its
launch exactly when the launch does not fail. -/
theorem launchContained_step_iff {w : World} (hsupervised : w.Supervised)
    (hholds : w.HoldsLaunched) (e : Event) : w.LaunchContained e ↔ ¬ w.LaunchFails e := by
  refine ⟨?_, ?_⟩
  · intro hcontained hfails
    obtain ⟨-, hslot, -⟩ := hfails.stuckOn
    have hempty := (hcontained.idle hfails).1
    rw [hslot] at hempty
    cases hempty
  · intro hfails
    exact ⟨fun h => absurd h hfails, hholds.step hsupervised hfails,
      hholds.not_terminatesUnlaunched e⟩

/-- **Launch failures, exactly**: every event of a run contains its launch if and only if
no launch of the run fails. -/
theorem launchContained_iff (defaults : UserDefaults) (disk : Disk) (es : List Event) :
    EventSystem.Along step LaunchContained (openApp defaults disk) es ↔
      EventSystem.Along step (fun w e => ¬ w.LaunchFails e) (openApp defaults disk) es := by
  refine EventSystem.along_iff_along (A := fun _ => True)
    (I := fun w => w.Supervised ∧ w.HoldsLaunched) ?_ ?_ ?_ fun _ _ => trivial
  · rintro w e - ⟨hsupervised, hholds⟩
    exact launchContained_step_iff hsupervised hholds e
  · rintro w e - ⟨hsupervised, hholds⟩ hfails
    exact ⟨supervised_step hsupervised e, hholds.step hsupervised hfails⟩
  · refine ⟨supervised_openApp defaults disk, fun process hslot => ?_⟩
    rw [(opened defaults disk).qemuProcess] at hslot
    cases hslot

/-- The first failed launch leaves Stop on the button, and tapping it ends the app. -/
theorem failed_launch_not_contained :
    let opened := openApp .empty fun _ => none
    let drop : Event := .drag .mainImage (.carrying (URL.fileURLWithPath "/vm.img"))
    let fails : Event := .tap { LaunchEnv.smooth with qemuRuns := false }
    ¬ EventSystem.Along step LaunchContained opened [drop, fails] ∧
      ¬ (opened.run [drop, fails]).controller.Idle ∧
      (opened.run [drop, fails]).TerminatesUnlaunched (.tap .smooth) ∧
      (opened.run [drop, fails, .tap .smooth]).crashed = true := by
  intro opened drop fails
  have hidle : ¬ (opened.run [drop, fails]).controller.Idle := by
    rintro ⟨hslot, -⟩
    cases hslot
  refine ⟨?_, hidle, ⟨_, 0, rfl, rfl, rfl, rfl⟩, rfl⟩
  rintro ⟨-, hcontained, -⟩
  exact hidle (hcontained.idle ⟨_, _, _, rfl, rfl, ⟨rfl, rfl, rfl⟩, rfl⟩)

/-! ## What a failure leads to -/

/-- Only a tap gets the app out of this, by ending it. -/
theorem StuckOn.step {w : World} {process : ℕ} (h : w.StuckOn process) {e : Event}
    (he : ∀ env, e ≠ .tap env) : (w.step e).StuckOn process := by
  obtain ⟨hcrash, hslot, hnever⟩ := h
  have heffect := w.effect_step e
  generalize w.step e = w' at heffect ⊢
  cases heffect with
  | crash _ _ _ => exact absurd rfl (he _)
  | stop _ _ _ => exact absurd rfl (he _)
  | start _ _ => exact absurd rfl (he _)
  | drop _ _ =>
    refine ⟨?_, ?_, ?_⟩
    · rw [dropURL_crashed]
      exact hcrash
    · rw [dropURL_qemuProcess]
      exact hslot
    · rw [dropURL_qemu]
      exact hnever
  | @edit field _ _ => cases field <;> exact ⟨hcrash, hslot, hnever⟩
  | endEditing _ =>
    rw [updateNICOptions_eq]
    exact ⟨hcrash, hslot, hnever⟩
  | choose _ =>
    rw [ViewController.onGraphicChange]
    split <;> exact ⟨hcrash, hslot, hnever⟩
  | notifyHeld _ hexited _ hslot' =>
    -- the process in the slot never ran, so there is no exit of it to report
    obtain rfl := Option.some.inj (hslot.symm.trans hslot')
    cases hnever.symm.trans hexited
  | notifyOther _ _ _ => exact ⟨hcrash, hslot, Supervisor.neverLaunched_report.mpr hnever⟩
  | @outside x =>
    refine ⟨?_, ?_, neverLaunched_outside.mpr hnever⟩
    · rw [outside_crashed]
      exact hcrash
    · rw [outside_controller]
      exact hslot
  | _ => exact ⟨hcrash, hslot, hnever⟩

/-- **After a failed launch** the slot holds the process that was not launched, the button
says Stop and the inputs are disabled, whatever happens; and the next tap ends the app. -/
theorem stuck_of_launchFails {w : World} {e : Event} (h : w.LaunchFails e) {es : List Event}
    (hes : ∀ e' ∈ es, ∀ env, e' ≠ .tap env) (env : LaunchEnv) :
    let w' := (w.step e).run es
    w'.controller.qemuProcess = some w.qemu.length ∧
      Supervisor.NeverLaunched w'.qemu w.qemu.length ∧
      w'.controller.actionButton.title = "Stop" ∧
      w'.controller.actionButton.isEnabled = true ∧
      (∀ enabled ∈ w'.controller.inputsEnabled, enabled = false) ∧
      (w'.step (.tap env)).crashed = true := by
  intro w'
  obtain ⟨hcrash, hslot, hnever⟩ : w'.StuckOn w.qemu.length :=
    EventSystem.run_induction_mem (A := fun e' => ∀ env, e' ≠ .tap env)
      (I := fun w' : World => w'.StuckOn w.qemu.length) (fun _ _ he' hw => hw.step he') hes
      h.stuckOn
  have hreflects : w'.controller.Reflects := reflects_run h.reflects es
  have hheld : w'.controller.qemuProcess.isSome = true := by rw [hslot, Option.isSome_some]
  refine ⟨hslot, hnever, ?_, hreflects.button.trans (hreflects.stoppable hheld), ?_, ?_⟩
  · rw [hreflects.title, if_pos hheld]
  · intro enabled hmem
    rw [hreflects.inputs enabled hmem, hslot, Option.isNone_some]
  · exact (crashed_step w' _).mpr (Or.inr ⟨env, w.qemu.length, rfl, hcrash, hslot, hnever⟩)

/-- A failed launch, a commit of the NIC options, and a drop. -/
theorem stuck_of_launchFails_example :
    let w := (openApp .empty fun _ => none).run
      [.drag .mainImage (.carrying (URL.fileURLWithPath "/vm.img")),
        .tap { LaunchEnv.smooth with qemuRuns := false }, .endEditing,
        .drag .mainImage (.carrying (URL.fileURLWithPath "/other.img"))]
    w.controller.qemuProcess = some 0 ∧ Supervisor.NeverLaunched w.qemu 0 ∧
      w.controller.actionButton.title = "Stop" ∧ w.controller.actionButton.isEnabled = true ∧
      (∀ enabled ∈ w.controller.inputsEnabled, enabled = false) ∧
      (w.step (.tap .smooth)).crashed = true := by
  intro w
  let before := (openApp .empty fun _ => none).run
    [.drag .mainImage (.carrying (URL.fileURLWithPath "/vm.img"))]
  have hfails : before.LaunchFails (.tap { LaunchEnv.smooth with qemuRuns := false }) :=
    ⟨_, _, _, rfl, rfl, ⟨rfl, rfl, rfl⟩, rfl⟩
  have hquiet : ∀ e ∈ ([.endEditing,
      .drag .mainImage (.carrying (URL.fileURLWithPath "/other.img"))] : List Event),
      ∀ env, e ≠ .tap env := by simp
  have hrun : w = (before.step (.tap { LaunchEnv.smooth with qemuRuns := false })).run
      [.endEditing, .drag .mainImage (.carrying (URL.fileURLWithPath "/other.img"))] :=
    EventSystem.run_append _ [_] [_, _, _]
  have hlength : before.qemu.length = 0 := rfl
  rw [hrun, ← hlength]
  exact stuck_of_launchFails hfails hquiet .smooth

/-! ## Exactly when the app crashes -/

/-- The slot holds some process that was never launched. -/
def Stuck (w : World) : Prop := ∃ process, w.StuckOn process

/-- A process that was never launched gets into the slot by a failed launch only. -/
theorem Stuck.of_step {w : World} {e : Event} (h : (w.step e).Stuck) :
    w.LaunchFails e ∨ w.Stuck := by
  obtain ⟨process, hcrash', hslot, hnever⟩ := h
  have heffect := w.effect_step e
  generalize w.step e = w' at heffect hcrash' hslot hnever
  cases heffect with
  | crash _ _ _ => cases hcrash'
  | stop _ _ _ => simp at hslot
  | @start env efiURL mainImage hcrash hstarts =>
    left
    -- a start holds its own process, so this is the one that was not launched
    rw [startVM_controller, ViewController.updateStates_qemuProcess, Option.some.injEq] at hslot
    rw [← hslot, startVM_qemu, ← Supervisor.length_foldl_exit w.qemu (exits env.gap),
      Supervisor.neverLaunched_spawn_self] at hnever
    exact ⟨env, efiURL, mainImage, rfl, hcrash, hstarts, hnever⟩
  | drop hcrash _ =>
    rw [dropURL_qemuProcess] at hslot
    rw [dropURL_qemu] at hnever
    exact Or.inr ⟨process, hcrash, hslot, hnever⟩
  | @edit field _ hcrash => cases field <;> exact Or.inr ⟨process, hcrash, hslot, hnever⟩
  | endEditing hcrash =>
    rw [updateNICOptions_controller] at hslot
    rw [updateNICOptions_qemu] at hnever
    exact Or.inr ⟨process, hcrash, hslot, hnever⟩
  | choose hcrash =>
    rw [ViewController.onGraphicChange] at hslot
    split at hslot <;> exact Or.inr ⟨process, hcrash, hslot, hnever⟩
  | notifyHeld _ _ _ _ => simp at hslot
  | notifyOther hcrash _ _ =>
    exact Or.inr ⟨process, hcrash, hslot, Supervisor.neverLaunched_report.mp hnever⟩
  | outside =>
    rw [outside_crashed] at hcrash'
    rw [outside_controller] at hslot
    exact Or.inr ⟨process, hcrash', hslot, neverLaunched_outside.mp hnever⟩
  | _ => exact Or.inr ⟨process, hcrash', hslot, hnever⟩

/-- The app is past saving: a tap will end it, or has. -/
def Doomed (w : World) : Prop := w.Stuck ∨ w.crashed = true

theorem Doomed.tap {w : World} (h : w.Doomed) (env : LaunchEnv) :
    (w.step (.tap env)).crashed = true := by
  rw [crashed_step]
  rcases h with ⟨process, hcrash, hslot, hnever⟩ | hcrash
  · exact Or.inr ⟨env, process, rfl, hcrash, hslot, hnever⟩
  · exact Or.inl hcrash

theorem Doomed.step {w : World} (h : w.Doomed) (e : Event) : (w.step e).Doomed := by
  by_cases htap : ∃ env, e = .tap env
  · obtain ⟨env, rfl⟩ := htap
    exact Or.inr (h.tap env)
  · rcases h with ⟨process, hstuck⟩ | hcrash
    · exact Or.inl ⟨process, hstuck.step fun env he => htap ⟨env, he⟩⟩
    · exact Or.inr ((crashed_step w e).mpr (Or.inl hcrash))

theorem Doomed.run {w : World} (h : w.Doomed) (es : List Event) : (w.run es).Doomed :=
  EventSystem.run_induction (fun _ e hw => hw.step e) es h

/-- Some launch among the events failed. -/
def SomeLaunchFailed (first : World) (past : List Event) : Prop :=
  ∃ before e between, past = before ++ e :: between ∧ (first.run before).LaunchFails e

/-- What the state tells about the events so far. -/
structure Explained (first : World) (past : List Event) (w : World) : Prop where
  /-- it is what they lead to -/
  reached : w = first.run past
  /-- a process that was never launched is in the slot because a launch failed -/
  stuck : w.Stuck → first.SomeLaunchFailed past
  /-- the app has crashed because of a tap after that -/
  crashed : w.crashed = true →
    ∃ failed env after, past = failed ++ .tap env :: after ∧ first.SomeLaunchFailed failed

theorem Explained.step {first w : World} {past : List Event} (h : first.Explained past w)
    (e : Event) : first.Explained (past ++ [e]) (w.step e) := by
  refine ⟨?_, ?_, ?_⟩
  · have happend : first.run (past ++ [e]) = (first.run past).run [e] :=
      EventSystem.run_append first past [e]
    rw [happend, h.reached]
    rfl
  · intro hstuck
    rcases hstuck.of_step with hfails | hbefore
    · rw [h.reached] at hfails
      exact ⟨past, e, [], rfl, hfails⟩
    · obtain ⟨before, e', between, rfl, hfails⟩ := h.stuck hbefore
      exact ⟨before, e', between ++ [e], by simp, hfails⟩
  · intro hcrash
    -- crashed before, or by this very tap on a process that was never launched
    rcases (crashed_step w e).mp hcrash with hcrash | ⟨env, process, rfl, hcrash, hslot, hnever⟩
    · obtain ⟨failed, env, after, rfl, hfailed⟩ := h.crashed hcrash
      exact ⟨failed, env, after ++ [e], by simp, hfailed⟩
    · exact ⟨past, env, [], rfl, h.stuck ⟨process, hcrash, hslot, hnever⟩⟩

theorem explained_run (defaults : UserDefaults) (disk : Disk) (es : List Event) :
    (openApp defaults disk).Explained es ((openApp defaults disk).run es) := by
  have hopen : (openApp defaults disk).Explained [] (openApp defaults disk) := by
    refine ⟨rfl, ?_, fun h => by cases h⟩
    rintro ⟨process, -, hslot, -⟩
    cases (opened defaults disk).qemuProcess.symm.trans hslot
  exact EventSystem.run_induction_past (J := (openApp defaults disk).Explained)
    (fun _ _ e h => h.step e) es hopen

/-- After a failed launch the app is past saving. -/
theorem SomeLaunchFailed.doomed {first : World} {past : List Event}
    (h : first.SomeLaunchFailed past) : (first.run past).Doomed := by
  obtain ⟨before, e, between, rfl, hfails⟩ := h
  have hdoomed : (((first.run before).step e).run between).Doomed :=
    Doomed.run (Or.inl ⟨_, hfails.stuckOn⟩) between
  simpa only [World.run, EventSystem.run_append, EventSystem.run_cons] using hdoomed

/-- **Crashes, exactly**: a run ends the app if and only if some launch of it fails and
there is another tap after that, whatever happens in between. -/
theorem crashed_iff (defaults : UserDefaults) (disk : Disk) (es : List Event) :
    ((openApp defaults disk).run es).crashed = true ↔
      ∃ before e between env after, es = (before ++ e :: between) ++ .tap env :: after ∧
        ((openApp defaults disk).run before).LaunchFails e := by
  refine ⟨?_, ?_⟩
  · intro hcrash
    obtain ⟨failed, env, after, rfl, before, e, between, rfl, hfails⟩ :=
      (explained_run defaults disk es).crashed hcrash
    exact ⟨before, e, between, env, after, rfl, hfails⟩
  · rintro ⟨before, e, between, env, after, rfl, hfails⟩
    have hdoomed : ((openApp defaults disk).run (before ++ e :: between)).Doomed :=
      SomeLaunchFailed.doomed ⟨before, e, between, rfl, hfails⟩
    have hcrash := crashed_run (hdoomed.tap env) after
    simpa only [World.run, EventSystem.run_append, EventSystem.run_cons] using hcrash

end World

end ACVM
