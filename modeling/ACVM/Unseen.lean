import ACVM.Steps

/-!
# What the controller cannot see

The controller looks at the disk twice: once in `viewDidLoad`, for the persisted image,
and at each start, for the variable store. The second look decides only whether
`qemu-img` is launched, and the controller never asks what became of that.

So within a session the disk and the `qemu-img` processes are invisible to it: whether
they succeed, fail, or never run, the controller goes through the same states, writes the
same defaults and makes the same QEMU processes with the same arguments. That is more
than a statement about one handler: `visible_step` compares an event with what is left of
it when all that is taken away, and `observe_run` makes whole runs of it.
-/

namespace ACVM

/-- What there is to see of something that happens outside: the exit of a QEMU process. -/
def External.visible : External → Option External
  | .qemuExit p => some (.qemuExit p)
  | .qemuImgStep _ _ | .diskChange _ _ => none

/-- What there is to see of a start's surroundings: not whether `qemu-img` runs. -/
def LaunchEnv.visible (env : LaunchEnv) : LaunchEnv :=
  { env with qemuImgRuns := false, gap := env.gap.filterMap External.visible }

/-- What there is to see of an event. -/
def Event.visible : Event → Option Event
  | .outside x => x.visible.map .outside
  | .tap env => some (.tap env.visible)
  | e => some e

namespace World

/-- What there is to see of a world: everything but the disk and the `qemu-img`
processes. -/
def visible (w : World) : World := { w with disk := fun _ => none, qemuImg := [] }

theorem visible_eq_iff {w w' : World} : w.visible = w'.visible ↔
    w.controller = w'.controller ∧ w.defaults = w'.defaults ∧ w.qemu = w'.qemu ∧
      w.observers = w'.observers ∧ w.crashed = w'.crashed := by
  obtain ⟨c, d, disk, q, o, i, x⟩ := w
  obtain ⟨c', d', disk', q', o', i', x'⟩ := w'
  simp [visible]

/-- The exits of a gap are visible. -/
theorem exits_filterMap_visible (xs : List External) :
    exits (xs.filterMap External.visible) = exits xs := by
  rw [exits, exits, List.filterMap_filterMap]
  refine List.filterMap_congr fun x _ => ?_
  cases x <;> rfl

/-- A hidden thing that happens outside changes nothing that can be seen. -/
theorem visible_outside (w : World) (x : External) :
    (w.outside x).visible = match x.visible with
      | none => w.visible
      | some x' => (w.visible.outside x').visible := by
  cases x with
  | qemuExit p => rfl
  | qemuImgStep i ok => rw [outside]; split <;> rfl
  | diskChange path size => rfl

/-- Committing the NIC options looks at nothing hidden. -/
theorem visible_updateNICOptions (w : World) :
    w.updateNICOptions.visible = w.visible.updateNICOptions.visible := by
  by_cases hempty : w.controller.nicOptionsTextField.stringValue.isEmpty = true <;>
    simp [updateNICOptions, visible, hempty]

/-- A stop looks at nothing hidden. -/
theorem visible_stopVM (w : World) (process : ℕ) :
    (w.stopVM process).visible = (w.visible.stopVM process).visible := by
  by_cases hnever : Supervisor.NeverLaunched w.qemu process <;>
    simp [stopVM, terminate, visible, hnever]

/-- What can be seen of a start does not depend on the disk, nor on `qemu-img`. -/
theorem visible_startVM (w : World) (env : LaunchEnv) (efiURL mainImage : URL) :
    (w.startVM env efiURL mainImage).visible =
      (w.visible.startVM env.visible efiURL mainImage).visible := by
  have hdefaults : w.updateNICOptions.defaults = w.visible.updateNICOptions.defaults :=
    (visible_eq_iff.mp (visible_updateNICOptions w)).2.1
  rw [visible_eq_iff, startVM_controller, startVM_controller, startVM_defaults, startVM_defaults,
    startVM_qemu, startVM_qemu, startVM_observers, startVM_observers, startVM_crashed,
    startVM_crashed, LaunchEnv.visible, exits_filterMap_visible]
  exact ⟨rfl, hdefaults, rfl, rfl, rfl⟩

/-- What can be seen of a tap does not depend on the disk, nor on `qemu-img`. -/
theorem visible_didTapStartButton (w : World) (env : LaunchEnv) :
    (w.didTapStartButton env).visible =
      (w.visible.didTapStartButton env.visible).visible := by
  rcases hslot : w.controller.qemuProcess with _ | process
  · have hslot' : w.visible.controller.qemuProcess = none := hslot
    rcases hefi : env.efiURL with _ | efiURL
    · have hefi' : env.visible.efiURL = none := hefi
      simp only [didTapStartButton, hslot, hslot', hefi, hefi']
      rfl
    · have hefi' : env.visible.efiURL = some efiURL := hefi
      rcases hmain : w.controller.mainImageURL with _ | mainImage
      · have hmain' : w.visible.controller.mainImageURL = none := hmain
        simp only [didTapStartButton, hslot, hslot', hefi, hefi', hmain, hmain']
        rfl
      · have hstarts : w.Starts env efiURL mainImage := ⟨hslot, hefi, hmain⟩
        have hstarts' : w.visible.Starts env.visible efiURL mainImage := ⟨hslot, hefi, hmain⟩
        rw [hstarts.didTapStartButton, hstarts'.didTapStartButton]
        exact visible_startVM w env efiURL mainImage
  · have hslot' : w.visible.controller.qemuProcess = some process := hslot
    simp only [didTapStartButton, hslot, hslot']
    exact visible_stopVM w process

theorem visible_dropURL (w : World) (view : DropView) (url : URL) :
    (w.dropURL view url).visible = (w.visible.dropURL view url).visible := by
  have hdelegate : w.visible.controller.view view = w.controller.view view := rfl
  rw [dropURL, dropURL, hdelegate]
  cases hlistens : (w.controller.view view).delegate <;> cases view <;> rfl

theorem visible_notify (w : World) (process : ℕ) :
    (w.notify process).visible = (w.visible.notify process).visible := by
  have hqemu : w.visible.qemu = w.qemu := rfl
  have hobservers : w.visible.observers = w.observers := rfl
  rw [notify, notify, hqemu]
  split
  · dsimp only
    rw [hobservers]
    split
    · rw [processDidTerminate, processDidTerminate]
      by_cases hslot : w.controller.qemuProcess = some process <;> simp [visible, hslot]
    · rfl
  · rfl

/-- What can be seen of a handler's outcome is the handler's outcome on what can be seen. -/
theorem visible_handle (w : World) (e : Event) :
    (w.handle e).visible = match e.visible with
      | none => w.visible
      | some e' => (w.visible.handle e').visible := by
  cases e with
  | tap env => exact visible_didTapStartButton w env
  | drag view s =>
    rcases hdropped : s.dropped with _ | url
    · simp only [handle, Event.visible, drag_of_dropped_none _ hdropped]
      rfl
    · simp only [handle, Event.visible, drag_of_dropped_some _ hdropped]
      exact visible_dropURL w view url
  | edit field text => rfl
  | endEditing => exact visible_updateNICOptions w
  | check state => rfl
  | choose title => rfl
  | notify process => exact visible_notify w process
  | outside x =>
    cases x with
    | qemuExit p => rfl
    | qemuImgStep i ok => exact visible_outside w (.qemuImgStep i ok)
    | diskChange path size => rfl

theorem step_outside (w : World) (x : External) : w.step (.outside x) = w.outside x := by
  rw [step]
  split <;> rfl

/-- **One step**: what can be seen of an event's outcome is the outcome of what can be seen
of the event. -/
theorem visible_step (w : World) (e : Event) :
    (w.step e).visible = match e.visible with
      | none => w.visible
      | some e' => (w.visible.step e').visible := by
  rcases hcrash : w.crashed with _ | _
  · have hcrash' : w.visible.crashed = false := hcrash
    simp only [step, hcrash, hcrash']
    exact visible_handle w e
  · cases e with
    | outside x =>
      -- outside things go on
      rw [step_outside, visible_outside]
      cases x with
      | qemuExit p => exact congrArg visible (step_outside w.visible (.qemuExit p)).symm
      | qemuImgStep i ok => rfl
      | diskChange path size => rfl
    | _ => simp [step, hcrash, Event.visible, visible]

/-- **The disk and `qemu-img` are invisible within a session.** Two sessions that find the
same persisted image, and then differ only in what happens to files and to `qemu-img`
processes, whether these are launched at all, and when, go through the same controller
states, defaults and QEMU processes. -/
theorem unseen_run (defaults : UserDefaults) {disk disk' : Disk}
    (hdisk : persistedImage defaults disk = persistedImage defaults disk') {es es' : List Event}
    (hes : es.filterMap Event.visible = es'.filterMap Event.visible) :
    ((openApp defaults disk).run es).visible = ((openApp defaults disk').run es').visible := by
  refine EventSystem.observe_run ?_ ?_ hes ?_
  · intro w e he
    rw [visible_step, he]
  · intro w w' e e' v he he' hw
    rw [visible_step, visible_step, he, he', hw]
  · have hcontroller :
        (openApp defaults disk).controller = (openApp defaults disk').controller := by
      change ((ViewController.storyboard.restoreMainImage defaults disk).restoreNICOptions
          defaults).updateStates.becomeDelegate =
        ((ViewController.storyboard.restoreMainImage defaults disk').restoreNICOptions
          defaults).updateStates.becomeDelegate
      rw [restoreMainImage_eq, restoreMainImage_eq, hdisk]
    exact visible_eq_iff.mpr ⟨hcontroller, rfl, rfl, rfl, rfl⟩

/-- A first start whose `qemu-img` fails, and one on a full disk whose `qemu-img` is not
launched. -/
theorem unseen_run_example :
    let drop : Event := .drag .mainImage (.carrying (URL.fileURLWithPath "/vm.img"))
    ((openApp .empty fun _ => none).run
        [drop, .tap .smooth, .outside (.qemuImgStep 0 false)]).visible =
      ((openApp .empty fun _ => some 0).run
        [.outside (.diskChange "/vm.img" none), drop,
          .tap { LaunchEnv.smooth with qemuImgRuns := false }]).visible :=
  unseen_run .empty rfl rfl

end World

end ACVM
