import ACVM.Steps

/-!
# The interface reflects the process slot

Nothing derives titles and enabled flags from the state; every handler has to call
`updateStates` after its last write to the slot or to the main image. `Reflects` says
what the user then sees, and `reflects_step` that every event leaves it so.

The one clause that is not local to `updateStates` is `stoppable`: a held process needs
a main image, or its Stop button would be disabled. It holds because the main image is
never taken away again.
-/

namespace ACVM

/-- What the window shows of the state. -/
structure ViewController.Reflects (c : ViewController) : Prop where
  /-- the button says what a tap would do -/
  title : c.actionButton.title = if c.qemuProcess.isSome then "Stop" else "Start"
  /-- the eight inputs are enabled exactly when no process is held -/
  inputs : ∀ enabled ∈ c.inputsEnabled, enabled = c.qemuProcess.isNone
  /-- the button is enabled exactly when there is a main image -/
  button : c.actionButton.isEnabled = c.mainImageURL.isSome
  /-- a held process has a main image -/
  stoppable : c.qemuProcess.isSome = true → c.mainImageURL.isSome = true

namespace ViewController

/-- The controller is idle: no process is held, and the window invites to start one. -/
def Idle (c : ViewController) : Prop :=
  c.qemuProcess = none ∧ c.actionButton.title = "Start" ∧
    ∀ enabled ∈ c.inputsEnabled, enabled = true

/-- `updateStates` makes a controller with an empty slot idle. -/
theorem idle_updateStates {c : ViewController} (h : c.qemuProcess = none) :
    c.updateStates.Idle := by
  refine ⟨by simpa using h, by simp [h], ?_⟩
  intro enabled hmem
  rw [updateStates_inputsEnabled, h] at hmem
  exact List.eq_of_mem_replicate hmem

/-- `updateStates` establishes everything but `stoppable`. -/
theorem reflects_updateStates {c : ViewController}
    (h : c.qemuProcess.isSome = true → c.mainImageURL.isSome = true) : c.updateStates.Reflects where
  title := by simp
  inputs := by
    intro enabled hmem
    rw [updateStates_inputsEnabled] at hmem
    rw [updateStates_qemuProcess]
    exact List.eq_of_mem_replicate hmem
  button := by simp
  stoppable := by simpa using h

/-- Replacing a drop view's file changes nothing the window reflects. -/
theorem Reflects.setContentURL {c : ViewController} (h : c.Reflects) (view : DropView)
    (url : Option URL) : (c.setView view ((c.view view).setContentURL url)).Reflects := by
  obtain ⟨htitle, hinputs, hbutton, hstop⟩ := h
  cases view with
  | mainImage =>
    refine ⟨htitle, ?_, hbutton, hstop⟩
    simpa [inputsEnabled, setView, ViewController.view] using hinputs
  | cdImage =>
    refine ⟨htitle, ?_, hbutton, hstop⟩
    simpa [inputsEnabled, setView, ViewController.view] using hinputs

/-- Typing changes nothing the window reflects. -/
theorem Reflects.edit {c : ViewController} (h : c.Reflects) (field : Field) (text : String) :
    (c.edit field text).Reflects := by
  obtain ⟨htitle, hinputs, hbutton, hstop⟩ := h
  cases field <;> exact ⟨htitle, hinputs, hbutton, hstop⟩

/-- Choosing a display adaptor changes nothing the window reflects. -/
theorem Reflects.choose {c : ViewController} (h : c.Reflects) (title : Option String) :
    ({ c with graphicPopupButton :=
      { c.graphicPopupButton with titleOfSelectedItem := title } }.onGraphicChange).Reflects := by
  obtain ⟨htitle, hinputs, hbutton, hstop⟩ := h
  rw [onGraphicChange]
  split <;> exact ⟨htitle, hinputs, hbutton, hstop⟩

end ViewController

namespace World

/-- A drop ends in `updateStates`, and takes no main image away. -/
theorem reflects_dropURL {w : World} (h : w.controller.Reflects) (view : DropView) (url : URL) :
    (w.dropURL view url).controller.Reflects := by
  have hset := h.setContentURL view (some url)
  rw [dropURL]
  split
  · cases view with
    | mainImage => exact ViewController.reflects_updateStates fun _ => rfl
    | cdImage => exact ViewController.reflects_updateStates hset.stoppable
  · exact hset

/-- Every step leaves the window reflecting the state. -/
theorem reflects_step {w : World} (h : w.controller.Reflects) (e : Event) :
    (w.step e).controller.Reflects := by
  refine step_rule (P := fun c _ => c.Reflects) e h ?_ ?_ ?_ ?_ h ?_ ?_
  · exact ViewController.reflects_updateStates fun hnone => by cases hnone
  · intro mainImage hmain
    exact ViewController.reflects_updateStates fun _ => by simp [hmain]
  · exact fun view url => reflects_dropURL h view url
  · exact fun field text _ => h.edit field text
  · exact fun state => ⟨h.title, h.inputs, h.button, h.stoppable⟩
  · exact fun title => h.choose title

theorem reflects_run {w : World} (h : w.controller.Reflects) (es : List Event) :
    (w.run es).controller.Reflects :=
  EventSystem.run_induction (I := fun w : World => w.controller.Reflects)
    (fun _ e hw => reflects_step hw e) es h

/-- `viewDidLoad` ends with the window reflecting an empty slot. -/
theorem reflects_openApp (defaults : UserDefaults) (disk : Disk) :
    (openApp defaults disk).controller.Reflects := by
  have h := opened defaults disk
  refine ⟨?_, ?_, ?_, ?_⟩
  · rw [h.shown.1, h.qemuProcess]
    rfl
  · intro enabled hmem
    rw [h.shown.2] at hmem
    rw [h.qemuProcess]
    exact List.eq_of_mem_replicate hmem
  · rw [h.shown.1]
  · intro hheld
    rw [h.qemuProcess] at hheld
    cases hheld

/-- **The interface always reflects the process state**, and a held process can always
be stopped: after every run the button and the inputs show what the slot and the main
image are, and while a process is held the button is enabled. -/
theorem interface_reflects (defaults : UserDefaults) (disk : Disk) (es : List Event) :
    let c := ((openApp defaults disk).run es).controller
    c.Reflects ∧ (c.qemuProcess.isSome = true → c.actionButton.isEnabled = true) := by
  have h : ((openApp defaults disk).run es).controller.Reflects :=
    reflects_run (reflects_openApp defaults disk) es
  exact ⟨h, fun hheld => h.button.trans (h.stoppable hheld)⟩

end World

end ACVM
