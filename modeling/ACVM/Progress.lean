import ACVM.FailedLaunch
import Mathlib.Data.Nat.Pairing

/-!
# What the app gets on with

Safety says what never happens; this module is about what does. `exits_shown` is about
infinite runs: if Foundation delivers the notifications it owes, every exit is handled in
the end, and only once, and that of the current VM brings the controller back to idle.

`restart_iff` is about the user: from wherever a run has led, two taps at most start a new
VM with the settings on display, whatever happens outside in between, if the app bundle has
the EFI image and `run()` returns at these taps; and that is so exactly as long as no launch
has failed.
-/

namespace ACVM

namespace World

/-! ## Exits -/

/-- The notification of an exit is delivered if the app goes on for ever without it. -/
def FairDelivery (first : World) (es : ℕ → Event) : Prop :=
  ∀ process n, (∀ m, n ≤ m → (EventSystem.stateAt step first es m).Unreported process ∧
      (EventSystem.stateAt step first es m).crashed = false) →
    ∃ m, n ≤ m ∧ es m = .notify process

/-- Only the notification of an exit takes note of it. -/
theorem Unreported.step {w : World} {process : ℕ} (h : w.Unreported process)
    (hobserved : w.Observed) {e : Event} (he : e ≠ .notify process) :
    (w.step e).Unreported process := by
  have hmoves : ∀ m ∈ w.moves e, m ≠ .report process := by
    rintro m hm rfl
    exact he (report_mem_moves hm).1
  have hrun : ((w.step e).supervisor.children[process]?.map Supervisor.Child.phase) =
      some .exited := by
    rw [supervisor_step hobserved]
    exact Supervisor.exited_run hmoves h
  exact hrun

/-- The process in the slot stays there, or the controller becomes idle. -/
theorem held_step {w : World} {process : ℕ} (hslot : w.controller.qemuProcess = some process)
    (e : Event) :
    (w.step e).controller.qemuProcess = some process ∨ (w.step e).controller.Idle := by
  have heffect := w.effect_step e
  generalize w.step e = w' at heffect ⊢
  cases heffect with
  | stop _ _ _ => exact Or.inr (ViewController.idle_updateStates rfl)
  | start _ hstarts => cases hstarts.1.symm.trans hslot
  | drop _ _ =>
    rw [dropURL_qemuProcess]
    exact Or.inl hslot
  | @edit field _ _ => cases field <;> exact Or.inl hslot
  | endEditing _ =>
    rw [updateNICOptions_controller]
    exact Or.inl hslot
  | choose _ =>
    rw [ViewController.onGraphicChange]
    split <;> exact Or.inl hslot
  | notifyHeld _ _ _ _ => exact Or.inr (ViewController.idle_updateStates rfl)
  | outside =>
    rw [outside_controller]
    exact Or.inl hslot
  | _ => exact Or.inl hslot

/-- A process that has exited was launched. -/
theorem Unreported.not_neverLaunched {w : World} {process : ℕ} (h : w.Unreported process) :
    ¬ Supervisor.NeverLaunched w.qemu process := by
  intro hnever
  cases hnever.symm.trans h

/-- While the exit of the process in the slot is unreported, a tap does not end the app. -/
theorem Unreported.crashed_step {w : World} {process : ℕ} (h : w.Unreported process)
    (hslot : w.controller.qemuProcess = some process) (hcrash : w.crashed = false) (e : Event) :
    (w.step e).crashed = false := by
  rw [← Bool.not_eq_true, World.crashed_step, hcrash]
  rintro (hcrashed | ⟨env, process', -, -, hslot', hnever⟩)
  · cases hcrashed
  · obtain rfl := Option.some.inj (hslot.symm.trans hslot')
    exact h.not_neverLaunched hnever

/-- The app has not ended while the process in the slot has an exit to report: what a
crashed app holds was never launched. -/
theorem Unreported.running {w : World} {process : ℕ} (h : w.Unreported process)
    (hslot : w.controller.qemuProcess = some process) (hholds : w.CrashHolds) :
    w.crashed = false := by
  rw [← Bool.not_eq_true]
  intro hcrash
  obtain ⟨p, hp, hnever⟩ := hholds hcrash
  obtain rfl := Option.some.inj (hslot.symm.trans hp)
  exact h.not_neverLaunched hnever

/-- An exit that was handled is not owed any more, ever. -/
theorem not_unreported_of_handles {w : ℕ → World} {es : ℕ → Event}
    (hstep : ∀ m, w (m + 1) = (w m).step (es m)) (hobserved : ∀ m, (w m).Observed) {process m : ℕ}
    (h : (w m).Handles (es m) process) {k : ℕ} (hk : m < k) : ¬ (w k).Unreported process := by
  have hnotified : (w k).Notified process := by
    induction k, hk using Nat.le_induction with
    | base =>
      rw [hstep, notified_step (hobserved m)]
      exact Or.inr h
    | succ k _ ih =>
      rw [hstep, notified_step (hobserved k)]
      exact Or.inl ih
  intro hexited
  cases hnotified.symm.trans hexited

/-- An exit is owed until it is delivered, or the app crashes. -/
theorem FairDelivery.delivered {first : World} {es : ℕ → Event} (hfair : first.FairDelivery es)
    {n process : ℕ} (hexited : (EventSystem.stateAt step first es n).Unreported process)
    (hobserved : (EventSystem.stateAt step first es n).Observed) :
    ∃ m, n ≤ m ∧ ((EventSystem.stateAt step first es m).crashed = true ∨
      (EventSystem.stateAt step first es m).Handles (es m) process) := by
  rcases hcrash : (EventSystem.stateAt step first es n).crashed with _ | _
  · obtain ⟨m, hm, hcrash | ⟨⟨hexited, hrunning, hobserved⟩, hevent⟩⟩ :=
      EventSystem.until_of_fair (A := fun e => e = .notify process)
        (P := fun w : World => w.Unreported process ∧ w.crashed = false ∧ w.Observed)
        (Q := fun w : World => w.crashed = true)
        (by
          rintro w e ⟨hexited, -, hobserved⟩ he
          rcases hcrash : (w.step e).crashed with _ | _
          · exact Or.inl ⟨hexited.step hobserved he, rfl, observed_step hobserved e⟩
          · exact Or.inr rfl)
        (fun n hP => hfair process n fun m hm => ⟨(hP m hm).1, (hP m hm).2.1⟩)
        ⟨hexited, hcrash, hobserved⟩
    · exact ⟨m, hm, Or.inl hcrash⟩
    · exact ⟨m, hm, Or.inr ⟨hevent, hrunning, hexited, hobserved.mem hexited.lt_length⟩⟩
  · exact ⟨n, Nat.le_refl n, Or.inl hcrash⟩

/-- The exit of the process in the slot leads to an idle controller: as long as it is owed, a
stop is the only other way out. -/
theorem FairDelivery.idle {first : World} {es : ℕ → Event} (hfair : first.FairDelivery es)
    {n process : ℕ} (hexited : (EventSystem.stateAt step first es n).Unreported process)
    (hobserved : (EventSystem.stateAt step first es n).Observed)
    (hslot : (EventSystem.stateAt step first es n).controller.qemuProcess = some process)
    (hcrash : (EventSystem.stateAt step first es n).crashed = false) :
    ∃ m, n ≤ m ∧ (EventSystem.stateAt step first es m).controller.Idle ∧
      (EventSystem.stateAt step first es m).crashed = false := by
  refine EventSystem.leadsTo_of_fair (A := fun e => e = .notify process)
    (P := fun w : World => w.controller.qemuProcess = some process ∧ w.Unreported process ∧
      w.crashed = false ∧ w.Observed)
    (Q := fun w : World => w.controller.Idle ∧ w.crashed = false) ?_ ?_ ?_
    ⟨hslot, hexited, hcrash, hobserved⟩
  · rintro w e ⟨hslot, hexited, hcrash, hobserved⟩ he
    have hrunning : (w.step e).crashed = false := hexited.crashed_step hslot hcrash e
    rcases held_step hslot e with hheld | hidle
    · exact Or.inl ⟨hheld, hexited.step hobserved he, hrunning, observed_step hobserved e⟩
    · exact Or.inr ⟨hidle, hrunning⟩
  · rintro w e ⟨hslot, hexited, hcrash, hobserved⟩ rfl
    refine ⟨?_, hexited.crashed_step hslot hcrash _⟩
    exact idle_notify hcrash hslot hexited (hobserved.mem hexited.lt_length)
  · exact fun n hP => hfair process n fun m hm => ⟨(hP m hm).2.1, (hP m hm).2.2.1⟩

/-- **Every exit is shown.** In every infinite run in which owed notifications are
delivered: the exit of the process in the slot brings the controller back to idle; and
every exit is handled exactly once, unless the app crashes, which makes the controller
idle if the process is in the slot at that moment, and leaves it as it is otherwise. -/
theorem exits_shown (defaults : UserDefaults) (disk : Disk) {es : ℕ → Event}
    (hfair : (openApp defaults disk).FairDelivery es) :
    let w := EventSystem.stateAt step (openApp defaults disk) es
    ∀ n process, (w n).Unreported process →
      ((w n).controller.qemuProcess = some process →
        ∃ m, n ≤ m ∧ (w m).controller.Idle ∧ (w m).crashed = false) ∧
      ((∃ m, n ≤ m ∧ (w m).crashed = true) ∨
        ∃ m, n ≤ m ∧ (w m).Handles (es m) process ∧
          (∀ k, (w k).Handles (es k) process → k = m) ∧
          ((w m).controller.qemuProcess = some process → (w (m + 1)).controller.Idle) ∧
          ((w m).controller.qemuProcess ≠ some process →
            (w (m + 1)).controller = (w m).controller)) := by
  intro w n process hexited
  have hreached : ∀ m, w m = (openApp defaults disk).run ((List.range m).map es) :=
    EventSystem.stateAt_eq_run _ es
  have hobserved : ∀ m, (w m).Observed := by
    intro m
    rw [hreached]
    exact observed_run defaults disk _
  refine ⟨?_, ?_⟩
  · intro hslot
    have hholds : (w n).CrashHolds := by
      rw [hreached]
      exact crashHolds_run defaults disk _
    exact hfair.idle hexited (hobserved n) hslot (hexited.running hslot hholds)
  · obtain ⟨m, hm, hcrash | hhandles⟩ := hfair.delivered hexited (hobserved n)
    · exact Or.inl ⟨m, hm, hcrash⟩
    · have hnext : w (m + 1) = World.processDidTerminate
          { w m with qemu := Supervisor.report (w m).qemu process } process := hhandles.step_eq
      refine Or.inr ⟨m, hm, hhandles, ?_, ?_, ?_⟩
      · -- what was handled before is not owed, so it is handled once
        intro k hk
        rcases Nat.lt_trichotomy k m with hlt | heq | hgt
        · exact absurd hhandles.2.2.1
            (not_unreported_of_handles (fun _ => rfl) hobserved hk hlt)
        · exact heq
        · exact absurd hk.2.2.1 (not_unreported_of_handles (fun _ => rfl) hobserved hhandles hgt)
      · intro hslot
        rw [hnext, processDidTerminate, if_pos hslot]
        exact ViewController.idle_updateStates rfl
      · intro hslot
        rw [hnext, processDidTerminate, if_neg hslot]

/-- A VM runs and exits, and then every notification is delivered again and again. -/
theorem exits_shown_example :
    let es : ℕ → Event := fun n =>
      if n = 0 then .drag .mainImage (.carrying (URL.fileURLWithPath "/vm.img"))
      else if n = 1 then .tap .smooth
      else if n = 2 then .outside (.qemuExit 0)
      else .notify n.unpair.1
    let w := EventSystem.stateAt step (openApp .empty fun _ => none) es
    ∃ m, 3 ≤ m ∧ (w m).controller.Idle ∧ (w m).crashed = false := by
  intro es w
  have hfair : (openApp .empty fun _ => none).FairDelivery es := by
    intro process n _
    have hle : n + 3 ≤ Nat.pair process (n + 3) := Nat.right_le_pair process (n + 3)
    refine ⟨Nat.pair process (n + 3), by omega, ?_⟩
    dsimp only [es]
    rw [if_neg (by omega), if_neg (by omega), if_neg (by omega), Nat.unpair_pair]
  exact (exits_shown .empty (fun _ => none) hfair 3 0 rfl).1 rfl

/-! ## Starting again -/

/-- The VM in the slot runs, and was made as process `process` with the given launch. -/
def Runs (w : World) (process : ℕ) (launch : Launch) : Prop :=
  w.controller.qemuProcess = some process ∧ w.qemu[process]? = some ⟨launch, .running, false⟩

end World

/-- Nothing the user does: something happens outside, or a notification is delivered. -/
def Event.Quiet : Event → Prop
  | .outside _ | .notify _ => True
  | _ => False

namespace World

/-- While no process is held such events leave the window and the number of processes
alone. -/
theorem quiet_step {w : World} (hslot : w.controller.qemuProcess = none) {e : Event}
    (he : e.Quiet) : (w.step e).controller = w.controller ∧ (w.step e).defaults = w.defaults ∧
      (w.step e).qemu.length = w.qemu.length ∧ (w.step e).crashed = w.crashed := by
  have heffect := w.effect_step e
  generalize w.step e = w' at heffect ⊢
  cases heffect with
  | notifyHeld _ _ _ hslot' => cases hslot.symm.trans hslot'
  | notifyOther _ _ _ => exact ⟨rfl, rfl, by simp [Supervisor.report], rfl⟩
  | notifyNone _ _ => exact ⟨rfl, rfl, rfl, rfl⟩
  | outside =>
    refine ⟨by simp, by simp, ?_, by simp⟩
    rw [outside_qemu, Supervisor.length_foldl_exit]
  | crashed _ _ => exact ⟨rfl, rfl, rfl, rfl⟩
  | _ => cases he

theorem quiet_run {w : World} (hslot : w.controller.qemuProcess = none) {es : List Event}
    (hes : ∀ e ∈ es, e.Quiet) : (w.run es).controller = w.controller ∧
      (w.run es).defaults = w.defaults ∧ (w.run es).qemu.length = w.qemu.length ∧
      (w.run es).crashed = w.crashed := by
  refine EventSystem.run_induction_mem (A := Event.Quiet)
    (I := fun w' : World => w'.controller = w.controller ∧ w'.defaults = w.defaults ∧
      w'.qemu.length = w.qemu.length ∧ w'.crashed = w.crashed) ?_ hes ⟨rfl, rfl, rfl, rfl⟩
  rintro w' e he ⟨hcontroller, hdefaults, hlength, hcrash⟩
  obtain ⟨h₁, h₂, h₃, h₄⟩ := quiet_step (by rw [hcontroller]; exact hslot) he
  exact ⟨h₁.trans hcontroller, h₂.trans hdefaults, h₃.trans hlength, h₄.trans hcrash⟩

/-- A tap that passes the guards, with `run()` returning, starts the next VM. -/
theorem Starts.runs {w : World} (hcrash : w.crashed = false) {env : LaunchEnv}
    {efiURL mainImage : URL} (h : w.Starts env efiURL mainImage) (hruns : env.qemuRuns = true) :
    (w.step (.tap env)).Runs w.qemu.length (w.newLaunch efiURL mainImage) := by
  have hlaunched := h.launched
  rw [hruns, if_pos rfl, h.didTapStartButton, ← h.step hcrash] at hlaunched
  refine ⟨?_, hlaunched⟩
  rw [h.step hcrash, startVM_controller, ViewController.updateStates_qemuProcess]

/-- Stop changes nothing that a VM is launched with. -/
theorem newLaunch_of_stop {w w' : World}
    (hcontroller : w'.controller = { w.controller with qemuProcess := none }.updateStates)
    (hdefaults : w'.defaults = w.defaults) (efiURL mainImage : URL) :
    w'.newLaunch efiURL mainImage = w.newLaunch efiURL mainImage := by
  rw [newLaunch, newLaunch, configuration, configuration, hcontroller, hdefaults,
    ViewController.updateStates_eq]
  rfl

/-- After a Stop that does not crash the next tap starts a VM, with what was on display
before the Stop. -/
theorem runs_of_stop {w : World} (hcrash : w.crashed = false) {process : ℕ}
    (hslot : w.controller.qemuProcess = some process)
    (hlaunched : ¬ Supervisor.NeverLaunched w.qemu process) {mainImage : URL}
    (hmain : w.controller.mainImageURL = some mainImage) (stop : LaunchEnv) {between : List Event}
    (hquiet : ∀ e ∈ between, e.Quiet) {env : LaunchEnv} {efiURL : URL}
    (hefi : env.efiURL = some efiURL) (hruns : env.qemuRuns = true) :
    (((w.step (.tap stop)).run between).step (.tap env)).Runs w.qemu.length
      (w.newLaunch efiURL mainImage) := by
  rw [step_of_held hcrash hslot hlaunched]
  obtain ⟨hcontroller, hdefaults, hlength, hcrash'⟩ :=
    quiet_run (w := { w with
      qemu := Supervisor.ask w.qemu process
      controller := { w.controller with qemuProcess := none }.updateStates }) (by simp) hquiet
  generalize World.run _ between = stopped at hcontroller hdefaults hlength hcrash' ⊢
  have hstarts : stopped.Starts env efiURL mainImage := by
    refine ⟨?_, hefi, ?_⟩
    · rw [hcontroller, ViewController.updateStates_qemuProcess]
    · rw [hcontroller, ViewController.updateStates_mainImageURL]
      exact hmain
  have hnext := hstarts.runs (hcrash'.trans hcrash) hruns
  rw [hlength, newLaunch_of_stop hcontroller hdefaults] at hnext
  simpa [Supervisor.ask] using hnext

/-- A tap on a process that was never launched ends the app, and makes no process. -/
theorem Stuck.tap {w : World} (h : w.Stuck) (env : LaunchEnv) :
    w.step (.tap env) = { w with crashed := true } := by
  obtain ⟨process, hcrash, hslot, hnever⟩ := h
  have hterm : w.terminate process = none := if_pos hnever
  simp [World.step, hcrash, handle, didTapStartButton, hslot, stopVM, hterm]

/-- A process that is not there does not run. -/
theorem not_runs_length (w : World) (launch : Launch) : ¬ w.Runs w.qemu.length launch := by
  rintro ⟨-, hvm⟩
  rw [List.getElem?_eq_none (Nat.le_refl _)] at hvm
  cases hvm

/-- **Starting again.** In whatever state a run has led to, if a main image is set and the
app goes on, and if at the next two taps the EFI image is found and `run()` of QEMU returns:
the first of them starts a new VM with the settings on display, or the second does, whatever
happens outside between the two; and that is so if and only if no launch has failed before. -/
theorem restart_iff (defaults : UserDefaults) (disk : Disk) (es : List Event)
    (hcrash : ((openApp defaults disk).run es).crashed = false) {mainImage : URL}
    (hmain : ((openApp defaults disk).run es).controller.mainImageURL = some mainImage)
    {env env' : LaunchEnv} {efiURL : URL} (hefi : env.efiURL = some efiURL)
    (hefi' : env'.efiURL = some efiURL) (hruns : env.qemuRuns = true)
    (hruns' : env'.qemuRuns = true) :
    let first := openApp defaults disk
    let w := first.run es
    let fresh := w.newLaunch efiURL mainImage
    (w.step (.tap env)).Runs w.qemu.length fresh ∨
        (∀ between : List Event, (∀ e ∈ between, e.Quiet) →
          (((w.step (.tap env)).run between).step (.tap env')).Runs w.qemu.length fresh) ↔
      ¬ first.SomeLaunchFailed es := by
  intro first w fresh
  refine ⟨?_, ?_⟩
  · intro hstarted hfailed
    -- the first tap ends the app, so neither tap starts anything
    have hstuck : w.Stuck := hfailed.doomed.resolve_right (by rw [hcrash]; simp)
    have hended : w.step (.tap env) = { w with crashed := true } := hstuck.tap env
    rcases hstarted with hstarted | hstarted
    · rw [hended] at hstarted
      exact not_runs_length { w with crashed := true } fresh hstarted
    · have hagain := hstarted [] (by simp)
      rw [hended] at hagain
      exact not_runs_length { w with crashed := true } fresh hagain
  · intro hnone
    rcases hslot : w.controller.qemuProcess with _ | process
    · have hstarts : w.Starts env efiURL mainImage := ⟨hslot, hefi, hmain⟩
      exact Or.inl (hstarts.runs hcrash hruns)
    · have hlaunched : ¬ Supervisor.NeverLaunched w.qemu process := fun hnever =>
        hnone ((explained_run defaults disk es).stuck ⟨process, hcrash, hslot, hnever⟩)
      exact Or.inr fun between hquiet =>
        runs_of_stop hcrash hslot hlaunched hmain env hquiet hefi' hruns'

/-- A VM is restarted, and the exit of the old one is reported in between. -/
theorem restart_iff_example :
    let es : List Event :=
      [.drag .mainImage (.carrying (URL.fileURLWithPath "/vm.img")), .tap .smooth]
    let w := (openApp .empty fun _ => none).run es
    (((w.step (.tap .smooth)).run [.outside (.qemuExit 0), .notify 0]).step (.tap .smooth)).Runs
      1 (w.newLaunch (URL.fileURLWithPath "/QEMU_EFI.fd") (URL.fileURLWithPath "/vm.img")) := by
  intro es w
  have hnone : ¬ (openApp .empty fun _ => none).SomeLaunchFailed es := by
    rintro ⟨before, e, between, heq, env, efiURL, mainImage, rfl, -, -, hruns⟩
    have hmem : Event.tap env ∈ before ++ Event.tap env :: between := by simp
    rw [← heq] at hmem
    obtain rfl : env = .smooth := by simpa [es] using hmem
    cases hruns
  have hiff := @restart_iff .empty (fun _ => none) es rfl _ rfl .smooth .smooth _ rfl rfl rfl rfl
  have hrestart := hiff.mpr hnone
  rcases hrestart with ⟨hslot, -⟩ | hrestart
  · cases hslot
  · apply hrestart
    intro e he
    simp only [List.mem_cons, List.not_mem_nil, or_false] at he
    rcases he with rfl | rfl <;> exact trivial

end World

end ACVM
