import ACVM.CommandLine
import ACVM.Ledger

/-!
# What the window promises

The window makes two promises to somebody who looks at it. The button does what its title
says (`tap_does_title`): an enabled Start starts a process, a Stop gives the current one up,
and a disabled button stands for a tap that would do nothing. And while a process is held,
the window shows what it was launched with (`shown_is_launched`).

The second rests on `updateStates` disabling the inputs and on AppKit, which delivers input
to enabled controls only (`Delivered`). The drop views are the exception: they take drops
whether or not they are enabled, so of the two images the window may show others.
-/

namespace ACVM

namespace ViewController

variable (c : ViewController)

@[simp] theorem typed_updateStates : c.updateStates.typed = c.typed := by
  rw [updateStates_eq]
  refine Prod.ext (funext fun name => ?_) rfl
  cases name <;> rfl

/-- With the same CD image, the arguments are made from what is typed, chosen and clicked. -/
theorem arguments_withCD {c c' : ViewController} (h : c.typed = c'.typed)
    (cdImageURL : Option URL) (efiURL mainImage : URL) :
    { c with cdImageURL := cdImageURL }.arguments efiURL mainImage =
      { c' with cdImageURL := cdImageURL }.arguments efiURL mainImage := by
  have htyped : { c with cdImageURL := cdImageURL }.typed =
      { c' with cdImageURL := cdImageURL }.typed := h
  exact arguments_of_typed htyped rfl efiURL mainImage

/-- While a process is held, no input is enabled. -/
theorem Reflects.disabled {c : ViewController} (h : c.Reflects) {process : ℕ}
    (hslot : c.qemuProcess = some process) : ∀ enabled ∈ c.inputsEnabled, enabled = false := by
  intro enabled hmem
  rw [h.inputs enabled hmem, hslot]
  rfl

theorem field_isEnabled_mem (name : Field) : (c.field name).isEnabled ∈ c.inputsEnabled := by
  cases name <;> simp [inputsEnabled, field]

end ViewController

namespace World

/-- AppKit delivers input to enabled controls only, but drags to any view. -/
def Delivered (w : World) : Event → Prop
  | .tap _ => w.controller.actionButton.isEnabled = true
  | .edit field _ => (w.controller.field field).isEnabled = true
  | .check _ => w.controller.unhideMousePointer.isEnabled = true
  | .choose _ => w.controller.graphicPopupButton.isEnabled = true
  | .drag _ _ | .endEditing | .notify _ | .outside _ => True

/-! ## The inputs -/

/-- While a process is held, what is typed, chosen and clicked stays. -/
theorem typed_step {w : World} (h : w.controller.Reflects) {process : ℕ}
    (hslot : w.controller.qemuProcess = some process) {e : Event} (he : w.Delivered e) :
    (w.step e).controller.typed = w.controller.typed := by
  have hdisabled := h.disabled hslot
  have heffect := w.effect_step e
  generalize w.step e = w' at heffect ⊢
  cases heffect with
  | stop _ _ _ => exact ViewController.typed_updateStates _
  | start _ hstarts => cases hstarts.1.symm.trans hslot
  | @drop view _ url _ _ =>
    -- drops come through, but they bring no text
    rw [dropURL]
    split
    · cases view <;> exact ViewController.typed_updateStates _
    · cases view <;> rfl
  | @edit field _ _ =>
    cases (hdisabled _ (w.controller.field_isEnabled_mem field)).symm.trans he
  | endEditing _ => rw [updateNICOptions_controller]
  | check _ =>
    cases (hdisabled _ (by simp [ViewController.inputsEnabled])).symm.trans he
  | choose _ =>
    cases (hdisabled _ (by simp [ViewController.inputsEnabled])).symm.trans he
  | notifyHeld _ _ _ _ => exact ViewController.typed_updateStates _
  | outside => rw [outside_controller]
  | _ => rfl

/-- The window reflects the state, and shows what the process in the slot was made with. -/
structure Shown (w : World) : Prop where
  /-- titles and enabled flags reflect the state -/
  reflects : w.controller.Reflects
  /-- the process in the slot was made with the settings on display, but for the images -/
  made : ∀ process, w.controller.qemuProcess = some process →
    ∃ info efiURL, (w.qemu.map Supervisor.Child.info)[process]? = some info ∧
      info.arguments = { w.controller with
        cdImageURL := info.configuration.cdImageURL }.arguments efiURL info.mainImage

theorem Shown.step {w : World} (h : w.Shown) {e : Event} (he : w.Delivered e) :
    (w.step e).Shown := by
  refine ⟨reflects_step h.reflects e, ?_⟩
  intro process hslot
  rcases hstart : w.startOf e with _ | ⟨env, efiURL, mainImage⟩
  · -- the slot can only have been emptied, so the process was in it before
    obtain ⟨hkept, hinfos, -⟩ := step_of_startOf_none hstart
    have hbefore : w.controller.qemuProcess = some process := by
      rcases hkept with hkept | hempty
      · rw [← hkept]
        exact hslot
      · cases hempty.symm.trans hslot
    obtain ⟨info, efiURL, hinfo, harguments⟩ := h.made process hbefore
    refine ⟨info, efiURL, by rw [hinfos]; exact hinfo, ?_⟩
    rw [harguments]
    exact ViewController.arguments_withCD (typed_step h.reflects hbefore he).symm _ _ _
  · obtain ⟨-, hfilled, hinfos, -⟩ := step_of_startOf hstart
    obtain rfl := Option.some.inj (hfilled.symm.trans hslot)
    refine ⟨w.newLaunch efiURL mainImage, efiURL, ?_, ?_⟩
    · have hlength : (w.qemu.map Supervisor.Child.info).length = w.qemu.length := List.length_map _
      rw [hinfos, ← hlength, List.getElem?_concat_length]
    · obtain ⟨rfl, hcrash, hstarts⟩ := starts_of_startOf hstart
      have htyped : (w.step (.tap env)).controller.typed = w.controller.typed := by
        rw [hstarts.step hcrash, startVM_controller]
        exact ViewController.typed_updateStates _
      exact ViewController.arguments_withCD htyped.symm w.controller.cdImageURL _ _

/-- **The window shows what is running.** In a run in which input reaches enabled controls
only, while a process is held its arguments are the ones a start would make of the settings
on display, with the images of its launch. -/
theorem shown_is_launched (defaults : UserDefaults) (disk : Disk) {es : List Event}
    (hes : EventSystem.Along step Delivered (openApp defaults disk) es) :
    let w := (openApp defaults disk).run es
    ∀ process, w.controller.qemuProcess = some process → ∃ vm efiURL,
      w.qemu[process]? = some vm ∧ vm.info.arguments = { w.controller with
        cdImageURL := vm.info.configuration.cdImageURL }.arguments efiURL vm.info.mainImage := by
  intro w process hslot
  have hopen : (openApp defaults disk).Shown := by
    refine ⟨reflects_openApp defaults disk, ?_⟩
    intro process hslot
    cases (opened defaults disk).qemuProcess.symm.trans hslot
  have hshown : w.Shown := EventSystem.run_induction_along (fun _ _ he h => h.step he) hes hopen
  obtain ⟨info, efiURL, hinfo, harguments⟩ := hshown.made process hslot
  rw [List.getElem?_map] at hinfo
  obtain ⟨vm, hvm, rfl⟩ := Option.map_eq_some_iff.mp hinfo
  exact ⟨vm, efiURL, hvm, harguments⟩

/-- A VM with a RAM size of its own, and a CD image dropped after its start. -/
theorem shown_is_launched_example :
    let es : List Event := [.drag .mainImage (.carrying (URL.fileURLWithPath "/vm.img")),
      .edit .ram "8G", .tap .smooth, .drag .cdImage (.carrying (URL.fileURLWithPath "/cd.iso"))]
    let w := (openApp .empty fun _ => none).run es
    ∃ vm efiURL, w.qemu[0]? = some vm ∧ vm.info.arguments = { w.controller with
      cdImageURL := vm.info.configuration.cdImageURL }.arguments efiURL vm.info.mainImage := by
  intro es w
  have hes : EventSystem.Along step Delivered (openApp .empty fun _ => none) es :=
    ⟨trivial, rfl, rfl, trivial, trivial⟩
  exact shown_is_launched .empty (fun _ => none) hes 0 rfl

/-! ## The button -/

/-- Where the button is disabled there is no main image, and no process is held. -/
theorem tap_of_disabled {w : World} (h : w.controller.Reflects) (hcrash : w.crashed = false)
    (hdisabled : w.controller.actionButton.isEnabled = false) (env : LaunchEnv) :
    w.step (.tap env) = w := by
  have hmain : w.controller.mainImageURL = none := by
    rw [← Option.not_isSome_iff_eq_none, ← h.button, Bool.not_eq_true]
    exact hdisabled
  have hslot : w.controller.qemuProcess = none := by
    rw [← Option.not_isSome_iff_eq_none]
    intro hheld
    have hsome := h.stoppable hheld
    rw [hmain] at hsome
    cases hsome
  simp [World.step, hcrash, handle, didTapStartButton, hslot, hmain]

/-- A tap while a process is held ends the app if the process was never launched. Otherwise
it asks that process to terminate, and no other, and returns to idle. -/
theorem tap_of_held {w : World} (hcrash : w.crashed = false) {process : ℕ}
    (hslot : w.controller.qemuProcess = some process) (env : LaunchEnv) :
    ((w.step (.tap env)).crashed = true ↔ Supervisor.NeverLaunched w.qemu process) ∧
      (¬ Supervisor.NeverLaunched w.qemu process → (w.step (.tap env)).controller.Idle ∧
        (w.step (.tap env)).qemu = Supervisor.ask w.qemu process) := by
  refine ⟨?_, ?_⟩
  · rw [crashed_step, hcrash, or_iff_right Bool.false_ne_true]
    refine ⟨?_, fun hnever => ⟨env, process, rfl, hcrash, hslot, hnever⟩⟩
    rintro ⟨_, process', -, -, hslot', hnever⟩
    obtain rfl := Option.some.inj (hslot.symm.trans hslot')
    exact hnever
  · intro hlaunched
    rw [step_of_held hcrash hslot hlaunched]
    exact ⟨ViewController.idle_updateStates rfl, rfl⟩

/-- **The button does what it says.** After every run of an app that goes on, its title is
Start or Stop. A tap on an enabled Start puts a new process into the slot. Stop is always
enabled, and a tap on it asks the process in the slot to terminate, and no other, and returns
to idle; it ends the app exactly if that process was never launched. And where the button is
disabled a tap would do nothing. -/
theorem tap_does_title (defaults : UserDefaults) (disk : Disk) (es : List Event)
    (hcrash : ((openApp defaults disk).run es).crashed = false) :
    let w := (openApp defaults disk).run es
    let button := w.controller.actionButton
    (button.isEnabled = false → ∀ env, w.step (.tap env) = w) ∧
      (button.title = "Start" ∧ (button.isEnabled = true → ∀ env efiURL,
          env.efiURL = some efiURL →
          (w.step (.tap env)).controller.qemuProcess = some w.qemu.length ∧
            (w.step (.tap env)).qemu.length = w.qemu.length + 1) ∨
        button.title = "Stop" ∧ button.isEnabled = true ∧ ∃ process,
          w.controller.qemuProcess = some process ∧ ∀ env,
            ((w.step (.tap env)).crashed = true ↔ Supervisor.NeverLaunched w.qemu process) ∧
              (¬ Supervisor.NeverLaunched w.qemu process →
                (w.step (.tap env)).controller.Idle ∧
                  (w.step (.tap env)).qemu = Supervisor.ask w.qemu process)) := by
  intro w button
  have hreflects : w.controller.Reflects := reflects_run (reflects_openApp defaults disk) es
  refine ⟨tap_of_disabled hreflects hcrash, ?_⟩
  -- the title tells whether a process is held, and that decides what a tap does
  have htitle := hreflects.title
  rcases hslot : w.controller.qemuProcess with _ | process
  · rw [hslot] at htitle
    refine Or.inl ⟨htitle, ?_⟩
    intro henabled env efiURL hefi
    obtain ⟨mainImage, hmain⟩ :=
      Option.isSome_iff_exists.mp (hreflects.button.symm.trans henabled)
    have hstart := startOf_of_starts hcrash ⟨hslot, hefi, hmain⟩
    exact ⟨(step_of_startOf hstart).2.1, length_qemu_of_startOf hstart⟩
  · rw [hslot] at htitle
    have hheld : w.controller.qemuProcess.isSome = true := by rw [hslot]; rfl
    exact Or.inr ⟨htitle, hreflects.button.trans (hreflects.stoppable hheld), process, rfl,
      tap_of_held hcrash hslot⟩

/-- A VM is stopped. -/
theorem tap_does_title_example :
    let w := (openApp .empty fun _ => none).run
      [.drag .mainImage (.carrying (URL.fileURLWithPath "/vm.img")), .tap .smooth]
    (w.step (.tap .smooth)).controller.Idle ∧
      (w.step (.tap .smooth)).qemu = Supervisor.ask w.qemu 0 := by
  intro w
  obtain ⟨-, ⟨hstart, -⟩ | ⟨-, -, process, hslot, htap⟩⟩ := tap_does_title .empty (fun _ => none)
    [.drag .mainImage (.carrying (URL.fileURLWithPath "/vm.img")), .tap .smooth] rfl
  · exact absurd hstart (by decide)
  · obtain rfl : 0 = process := Option.some.inj hslot
    exact (htap .smooth).2 (by decide)

end World

end ACVM
