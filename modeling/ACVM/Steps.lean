import ACVM.World

/-!
# What one event does

For each handler, once: everything it can do to the controller, the defaults and the
processes, as an equation or a short list of cases. Every invariant below is derived
from these and unfolds no handler again.
-/

namespace ACVM

namespace World

/-! ## Outside the controller -/

section Outside

variable (w : World)

@[simp] theorem outside_controller (x : External) : (w.outside x).controller = w.controller := by
  cases x with
  | qemuExit p => rfl
  | qemuImgStep i ok => rw [outside]; split <;> rfl
  | diskChange path size => rfl

@[simp] theorem outside_defaults (x : External) : (w.outside x).defaults = w.defaults := by
  cases x with
  | qemuExit p => rfl
  | qemuImgStep i ok => rw [outside]; split <;> rfl
  | diskChange path size => rfl

@[simp] theorem outside_observers (x : External) : (w.outside x).observers = w.observers := by
  cases x with
  | qemuExit p => rfl
  | qemuImgStep i ok => rw [outside]; split <;> rfl
  | diskChange path size => rfl

@[simp] theorem outside_crashed (x : External) : (w.outside x).crashed = w.crashed := by
  cases x with
  | qemuExit p => rfl
  | qemuImgStep i ok => rw [outside]; split <;> rfl
  | diskChange path size => rfl

/-- The exits among the things that happen outside. -/
def exits (xs : List External) : List ℕ :=
  xs.filterMap fun x => match x with
    | .qemuExit p => some p
    | _ => none

theorem outside_qemu (x : External) :
    (w.outside x).qemu = (exits [x]).foldl Supervisor.exit w.qemu := by
  cases x with
  | qemuExit p => rfl
  | qemuImgStep i ok => rw [outside]; split <;> rfl
  | diskChange path size => rfl

@[simp] theorem outsideAll_cons (x : External) (xs : List External) :
    w.outsideAll (x :: xs) = (w.outside x).outsideAll xs := rfl

@[simp] theorem outsideAll_controller (xs : List External) :
    (w.outsideAll xs).controller = w.controller := by
  induction xs generalizing w with
  | nil => rfl
  | cons x xs ih => rw [outsideAll_cons, ih, outside_controller]

@[simp] theorem outsideAll_defaults (xs : List External) :
    (w.outsideAll xs).defaults = w.defaults := by
  induction xs generalizing w with
  | nil => rfl
  | cons x xs ih => rw [outsideAll_cons, ih, outside_defaults]

@[simp] theorem outsideAll_observers (xs : List External) :
    (w.outsideAll xs).observers = w.observers := by
  induction xs generalizing w with
  | nil => rfl
  | cons x xs ih => rw [outsideAll_cons, ih, outside_observers]

@[simp] theorem outsideAll_crashed (xs : List External) :
    (w.outsideAll xs).crashed = w.crashed := by
  induction xs generalizing w with
  | nil => rfl
  | cons x xs ih => rw [outsideAll_cons, ih, outside_crashed]

theorem outsideAll_qemu (xs : List External) :
    (w.outsideAll xs).qemu = (exits xs).foldl Supervisor.exit w.qemu := by
  induction xs generalizing w with
  | nil => rfl
  | cons x xs ih =>
    have hexits : exits (x :: xs) = exits [x] ++ exits xs := by
      rw [exits, ← List.singleton_append, List.filterMap_append]
      rfl
    rw [outsideAll_cons, ih, outside_qemu, hexits, List.foldl_append]

end Outside

/-! ## The NIC options -/

section NICOptions

variable (w : World)

/-- Committing the NIC options changes one key of the defaults. -/
theorem updateNICOptions_eq :
    w.updateNICOptions = { w with defaults := w.updateNICOptions.defaults } := by
  rw [updateNICOptions]
  split <;> rfl

/-- The committed text comes back; an empty one as nothing. -/
theorem updateNICOptions_nicOptions :
    w.updateNICOptions.defaults.string Constants.nicOptions =
      if w.controller.nicOptionsTextField.stringValue = "" then none
      else some w.controller.nicOptionsTextField.stringValue := by
  rw [updateNICOptions]
  by_cases h : w.controller.nicOptionsTextField.stringValue = ""
  · simp [h]
  · simp [h]

@[simp] theorem updateNICOptions_mainImageFilePath :
    w.updateNICOptions.defaults.string Constants.mainImageFilePath =
      w.defaults.string Constants.mainImageFilePath := by
  rw [updateNICOptions]
  split
  · exact UserDefaults.string_removeObject_of_ne _ Constants.nicOptions_ne.symm
  · exact UserDefaults.string_set_of_ne _ Constants.nicOptions_ne.symm _

@[simp] theorem updateNICOptions_controller : w.updateNICOptions.controller = w.controller := by
  rw [updateNICOptions_eq]

@[simp] theorem updateNICOptions_qemu : w.updateNICOptions.qemu = w.qemu := by
  rw [updateNICOptions_eq]

@[simp] theorem updateNICOptions_observers : w.updateNICOptions.observers = w.observers := by
  rw [updateNICOptions_eq]

@[simp] theorem updateNICOptions_crashed : w.updateNICOptions.crashed = w.crashed := by
  rw [updateNICOptions_eq]

@[simp] theorem updateNICOptions_disk : w.updateNICOptions.disk = w.disk := by
  rw [updateNICOptions_eq]

@[simp] theorem updateNICOptions_qemuImg : w.updateNICOptions.qemuImg = w.qemuImg := by
  rw [updateNICOptions_eq]

end NICOptions

/-! ## Drops -/

section Drops

variable (w : World)

/-- The world after the view took a URL and told its delegate, if it has one. -/
def dropURL (w : World) (view : DropView) (url : URL) : World :=
  let v := w.controller.view view
  let w' := { w with controller := w.controller.setView view (v.setContentURL (some url)) }
  if v.delegate then w'.fileDropView view url else w'

/-- A session that carries nothing through changes nothing. -/
theorem drag_of_dropped_none {s : DragSession} (h : s.dropped = none) (view : DropView) :
    w.drag view s = w := by
  rw [drag, FileDropView.dragSession_eq, h]
  cases view <;> rfl

/-- A session that carries a URL through drops it. -/
theorem drag_of_dropped_some {s : DragSession} {url : URL} (h : s.dropped = some url)
    (view : DropView) : w.drag view s = w.dropURL view url := by
  rw [drag, FileDropView.dragSession_eq, h, dropURL]
  cases hdelegate : (w.controller.view view).delegate <;> rfl

@[simp] theorem dropURL_qemu (view : DropView) (url : URL) :
    (w.dropURL view url).qemu = w.qemu := by
  rw [dropURL]
  split <;> cases view <;> rfl

@[simp] theorem dropURL_observers (view : DropView) (url : URL) :
    (w.dropURL view url).observers = w.observers := by
  rw [dropURL]
  split <;> cases view <;> rfl

@[simp] theorem dropURL_crashed (view : DropView) (url : URL) :
    (w.dropURL view url).crashed = w.crashed := by
  rw [dropURL]
  split <;> cases view <;> rfl

@[simp] theorem dropURL_qemuProcess (view : DropView) (url : URL) :
    (w.dropURL view url).controller.qemuProcess = w.controller.qemuProcess := by
  rw [dropURL]
  split <;> cases view <;> simp [fileDropView, ViewController.setView]

end Drops

/-! ## Starting and stopping -/

/-- A tap that passes all guards, with the EFI image and the main image it found. -/
def Starts (w : World) (env : LaunchEnv) (efiURL mainImage : URL) : Prop :=
  w.controller.qemuProcess = none ∧ env.efiURL = some efiURL ∧
    w.controller.mainImageURL = some mainImage

theorem Starts.didTapStartButton {w : World} {env : LaunchEnv} {efiURL mainImage : URL}
    (h : w.Starts env efiURL mainImage) :
    w.didTapStartButton env = w.startVM env efiURL mainImage := by
  simp [World.didTapStartButton, h.1, h.2.1, h.2.2]

section Start

variable (w : World) (env : LaunchEnv) (efiURL mainImage : URL)

/-- What the new `Process` is launched with, in terms of the world before the tap: the
gap changes nothing the controller reads, and committing the NIC options nothing the
configuration has. -/
def newLaunch (w : World) (efiURL mainImage : URL) : Launch :=
  ⟨w.controller.arguments efiURL mainImage, mainImage, w.configuration⟩

@[simp] theorem createStore_controller :
    (w.createStore env mainImage).controller = w.controller := by
  rw [createStore]; split <;> rfl

@[simp] theorem createStore_defaults : (w.createStore env mainImage).defaults = w.defaults := by
  rw [createStore]; split <;> rfl

@[simp] theorem createStore_observers :
    (w.createStore env mainImage).observers = w.observers := by
  rw [createStore]; split <;> rfl

@[simp] theorem createStore_crashed : (w.createStore env mainImage).crashed = w.crashed := by
  rw [createStore]; split <;> rfl

@[simp] theorem createStore_qemu : (w.createStore env mainImage).qemu = w.qemu := by
  rw [createStore]; split <;> rfl

@[simp] theorem afterGap_controller : (w.afterGap env mainImage).controller = w.controller := by
  rw [afterGap, outsideAll_controller, createStore_controller]

@[simp] theorem afterGap_defaults : (w.afterGap env mainImage).defaults = w.defaults := by
  rw [afterGap, outsideAll_defaults, createStore_defaults]

@[simp] theorem afterGap_observers : (w.afterGap env mainImage).observers = w.observers := by
  rw [afterGap, outsideAll_observers, createStore_observers]

@[simp] theorem afterGap_crashed : (w.afterGap env mainImage).crashed = w.crashed := by
  rw [afterGap, outsideAll_crashed, createStore_crashed]

theorem afterGap_qemu :
    (w.afterGap env mainImage).qemu = (exits env.gap).foldl Supervisor.exit w.qemu := by
  rw [afterGap, outsideAll_qemu, createStore_qemu]

@[simp] theorem length_afterGap_qemu :
    (w.afterGap env mainImage).qemu.length = w.qemu.length := by
  rw [afterGap_qemu, Supervisor.length_foldl_exit]

theorem updateNICOptions_afterGap_defaults :
    (w.afterGap env mainImage).updateNICOptions.defaults = w.updateNICOptions.defaults := by
  rw [updateNICOptions, updateNICOptions, afterGap_controller]
  split <;> simp

@[simp] theorem beforeRun_controller :
    (w.beforeRun env efiURL mainImage).controller =
      { w.controller with qemuProcess := some w.qemu.length }.updateStates := by
  simp [beforeRun, addObserver]

@[simp] theorem beforeRun_defaults :
    (w.beforeRun env efiURL mainImage).defaults = w.updateNICOptions.defaults :=
  w.updateNICOptions_afterGap_defaults env mainImage

/-- The new process is observed. -/
@[simp] theorem beforeRun_observers :
    (w.beforeRun env efiURL mainImage).observers = w.observers ++ [w.qemu.length] := by
  simp [beforeRun, addObserver]

@[simp] theorem beforeRun_crashed : (w.beforeRun env efiURL mainImage).crashed = w.crashed := by
  simp [beforeRun, addObserver]

@[simp] theorem beforeRun_disk :
    (w.beforeRun env efiURL mainImage).disk = (w.afterGap env mainImage).disk := by
  simp [beforeRun, addObserver]

@[simp] theorem beforeRun_qemuImg :
    (w.beforeRun env efiURL mainImage).qemuImg = (w.afterGap env mainImage).qemuImg := by
  simp [beforeRun, addObserver]

theorem beforeRun_qemu :
    (w.beforeRun env efiURL mainImage).qemu =
      Supervisor.spawn ((exits env.gap).foldl Supervisor.exit w.qemu)
        (w.newLaunch efiURL mainImage) false := by
  simp [beforeRun, addObserver, newLaunch, configuration, ← afterGap_qemu w env mainImage]

@[simp] theorem startVM_controller :
    (w.startVM env efiURL mainImage).controller =
      { w.controller with qemuProcess := some w.qemu.length }.updateStates := by
  rw [startVM, runQemu]; split <;> simp

@[simp] theorem startVM_defaults :
    (w.startVM env efiURL mainImage).defaults = w.updateNICOptions.defaults := by
  rw [startVM, runQemu]; split <;> simp

@[simp] theorem startVM_observers :
    (w.startVM env efiURL mainImage).observers = w.observers ++ [w.qemu.length] := by
  rw [startVM, runQemu]; split <;> simp

@[simp] theorem startVM_crashed : (w.startVM env efiURL mainImage).crashed = w.crashed := by
  rw [startVM, runQemu]; split <;> simp

@[simp] theorem startVM_disk :
    (w.startVM env efiURL mainImage).disk = (w.afterGap env mainImage).disk := by
  rw [startVM, runQemu]; split <;> simp

@[simp] theorem startVM_qemuImg :
    (w.startVM env efiURL mainImage).qemuImg = (w.afterGap env mainImage).qemuImg := by
  rw [startVM, runQemu]; split <;> simp

/-- The processes after a start: the gap's exits, then one new process, launched if
`run()` returned. -/
theorem startVM_qemu :
    (w.startVM env efiURL mainImage).qemu =
      Supervisor.spawn ((exits env.gap).foldl Supervisor.exit w.qemu)
        (w.newLaunch efiURL mainImage) env.qemuRuns := by
  have hlen := Supervisor.length_foldl_exit w.qemu (exits env.gap)
  rw [startVM, runQemu]
  cases env.qemuRuns
  · rw [if_neg (by simp), beforeRun_qemu]
  · rw [if_pos rfl]
    dsimp only
    rw [beforeRun_qemu, ← hlen, Supervisor.launch_spawn]

/-- The process a start makes, and what it is launched with. -/
theorem Starts.launched {w : World} {env : LaunchEnv} {efiURL mainImage : URL}
    (h : w.Starts env efiURL mainImage) :
    (w.didTapStartButton env).qemu[w.qemu.length]? = some
      ⟨w.newLaunch efiURL mainImage, if env.qemuRuns then .running else .created, false⟩ := by
  rw [h.didTapStartButton, startVM_qemu, ← Supervisor.length_foldl_exit w.qemu (exits env.gap),
    Supervisor.getElem?_spawn_self]

end Start

/-! ## Opening the app -/

/-- The main image `viewDidLoad` finds: the persisted path, if a file exists there. -/
def persistedImage (defaults : UserDefaults) (disk : Disk) : Option URL :=
  ((defaults.string Constants.mainImageFilePath).filter disk.fileExists).map URL.fileURLWithPath

/-- What `viewDidLoad` leaves of a fresh window. -/
structure Opened (c : ViewController) (defaults : UserDefaults) (disk : Disk) : Prop where
  /-- no process is held -/
  qemuProcess : c.qemuProcess = none
  /-- the main image is the persisted one, if its file exists -/
  mainImageURL : c.mainImageURL = persistedImage defaults disk
  /-- and it is on display -/
  mainContentURL : c.mainImage.contentURL = persistedImage defaults disk
  /-- there is no CD image -/
  cdImageURL : c.cdImageURL = none
  /-- and none on display -/
  cdContentURL : c.cdImage.contentURL = none
  /-- the controller listens to both drop views -/
  delegates : ∀ view, (c.view view).delegate = true
  /-- the NIC options are the persisted ones -/
  nicOptions : c.nicOptionsTextField.stringValue =
    (defaults.string Constants.nicOptions).getD ""
  /-- titles and enabled flags are those of `updateStates` -/
  shown : c.actionButton = ⟨"Start", c.mainImageURL.isSome⟩ ∧
    c.inputsEnabled = List.replicate 8 true

theorem restoreMainImage_eq (c : ViewController) (defaults : UserDefaults) (disk : Disk) :
    c.restoreMainImage defaults disk = match persistedImage defaults disk with
      | some url =>
        { c with mainImageURL := some url, mainImage := c.mainImage.setContentURL (some url) }
      | none => c := by
  rw [ViewController.restoreMainImage, persistedImage]
  rcases defaults.string Constants.mainImageFilePath with _ | path
  · rfl
  · cases hexists : disk.fileExists path <;> simp [Option.filter, hexists]

theorem restoreNICOptions_eq (c : ViewController) (defaults : UserDefaults) :
    c.restoreNICOptions defaults = { c with nicOptionsTextField :=
      { c.nicOptionsTextField with
        stringValue := (defaults.string Constants.nicOptions).getD
          c.nicOptionsTextField.stringValue } } := by
  rw [ViewController.restoreNICOptions]
  rcases defaults.string Constants.nicOptions with _ | nic <;> rfl

theorem opened (defaults : UserDefaults) (disk : Disk) :
    Opened (openApp defaults disk).controller defaults disk := by
  change Opened ((ViewController.storyboard.restoreMainImage defaults disk).restoreNICOptions
    defaults).updateStates.becomeDelegate defaults disk
  rw [restoreNICOptions_eq, restoreMainImage_eq]
  rcases h : persistedImage defaults disk with _ | url
  · exact ⟨rfl, h.symm, h.symm, rfl, rfl, fun view => by cases view <;> rfl, rfl, rfl, rfl⟩
  · exact ⟨rfl, h.symm, h.symm, rfl, rfl, fun view => by cases view <;> rfl, rfl, rfl, rfl⟩

/-! ## One step -/

/-- **What one event can do.** One constructor for each way through a handler. -/
inductive Effect (w : World) : Event → World → Prop where
  /-- Stop on a process that was never launched raises an exception -/
  | crash {env : LaunchEnv} {process : ℕ} : w.crashed = false →
      w.controller.qemuProcess = some process → Supervisor.NeverLaunched w.qemu process →
      Effect w (.tap env) { w with crashed := true }
  /-- Stop asks the process to terminate, and empties the slot -/
  | stop {env : LaunchEnv} {process : ℕ} : w.crashed = false →
      w.controller.qemuProcess = some process → ¬ Supervisor.NeverLaunched w.qemu process →
      Effect w (.tap env) { w with
        qemu := Supervisor.ask w.qemu process
        controller := { w.controller with qemuProcess := none }.updateStates }
  /-- Start starts a VM -/
  | start {env : LaunchEnv} {efiURL mainImage : URL} : w.crashed = false →
      w.Starts env efiURL mainImage → Effect w (.tap env) (w.startVM env efiURL mainImage)
  /-- a guard rejects Start -/
  | reject {env : LaunchEnv} : w.crashed = false → w.controller.qemuProcess = none →
      (∀ efiURL mainImage, ¬ w.Starts env efiURL mainImage) → Effect w (.tap env) w
  /-- a drag session carries a URL through -/
  | drop {view : DropView} {s : DragSession} {url : URL} : w.crashed = false →
      s.dropped = some url → Effect w (.drag view s) (w.dropURL view url)
  /-- a drag session carries nothing through -/
  | pass {view : DropView} {s : DragSession} : w.crashed = false →
      s.dropped = none → Effect w (.drag view s) w
  /-- a text is typed -/
  | edit {field : Field} {text : String} : w.crashed = false →
      Effect w (.edit field text) { w with controller := w.controller.edit field text }
  /-- the NIC options are committed -/
  | endEditing : w.crashed = false → Effect w .endEditing w.updateNICOptions
  /-- the check box changes -/
  | check {state : StateValue} : w.crashed = false →
      Effect w (.check state) { w with controller := { w.controller with
        unhideMousePointer := { w.controller.unhideMousePointer with state := state } } }
  /-- the display adaptor changes, and the check box with it -/
  | choose {title : Option String} : w.crashed = false →
      Effect w (.choose title) { w with controller := { w.controller with
        graphicPopupButton := { w.controller.graphicPopupButton with
          titleOfSelectedItem := title } }.onGraphicChange }
  /-- the exit of the process in the slot, which is observed, empties the slot -/
  | notifyHeld {process : ℕ} : w.crashed = false →
      (w.qemu[process]?.map Supervisor.Child.phase) = some .exited →
      process ∈ w.observers → w.controller.qemuProcess = some process →
      Effect w (.notify process) { w with
        qemu := Supervisor.report w.qemu process
        controller := { w.controller with qemuProcess := none }.updateStates }
  /-- the exit of a process that is not in the slot, or not observed -/
  | notifyOther {process : ℕ} : w.crashed = false →
      (w.qemu[process]?.map Supervisor.Child.phase) = some .exited →
      (process ∈ w.observers → w.controller.qemuProcess ≠ some process) →
      Effect w (.notify process) { w with qemu := Supervisor.report w.qemu process }
  /-- there is no exit to report -/
  | notifyNone {process : ℕ} : w.crashed = false →
      (w.qemu[process]?.map Supervisor.Child.phase) ≠ some .exited → Effect w (.notify process) w
  /-- something happens outside -/
  | outside {x : External} : Effect w (.outside x) (w.outside x)
  /-- a crashed app does nothing -/
  | crashed {e : Event} : w.crashed = true → (∀ x, e ≠ .outside x) → Effect w e w

/-- A tap crashes on a process that was never launched, stops the process in the slot,
starts a VM, or is rejected by a guard. -/
theorem effect_tap {w : World} (hcrash : w.crashed = false) (env : LaunchEnv) :
    Effect w (.tap env) (w.didTapStartButton env) := by
  rcases hslot : w.controller.qemuProcess with _ | process
  · rcases hefi : env.efiURL with _ | efiURL
    · have hno : ∀ efiURL mainImage, ¬ w.Starts env efiURL mainImage := by
        rintro efiURL mainImage ⟨-, hefi', -⟩
        rw [hefi] at hefi'
        cases hefi'
      simpa [didTapStartButton, hslot, hefi] using Effect.reject hcrash hslot hno
    · rcases hmain : w.controller.mainImageURL with _ | mainImage
      · have hno : ∀ efiURL mainImage, ¬ w.Starts env efiURL mainImage := by
          rintro efiURL mainImage ⟨-, -, hmain'⟩
          rw [hmain] at hmain'
          cases hmain'
        simpa [didTapStartButton, hslot, hefi, hmain] using Effect.reject hcrash hslot hno
      · have hstarts : w.Starts env efiURL mainImage := ⟨hslot, hefi, hmain⟩
        rw [hstarts.didTapStartButton]
        exact .start hcrash hstarts
  · by_cases hnever : Supervisor.NeverLaunched w.qemu process
    · have hterm : w.terminate process = none := if_pos hnever
      have heffect : Effect w (.tap env) _ := .crash hcrash hslot hnever
      simpa [didTapStartButton, hslot, stopVM, hterm] using heffect
    · have hterm : w.terminate process =
          some { w with qemu := Supervisor.ask w.qemu process } := if_neg hnever
      have heffect : Effect w (.tap env) _ := .stop hcrash hslot hnever
      simpa [didTapStartButton, hslot, stopVM, hterm] using heffect

/-- The notification of an exit empties the slot if the process is observed and in it;
without an exit to report nothing is posted. -/
theorem effect_notify {w : World} (hcrash : w.crashed = false) (process : ℕ) :
    Effect w (.notify process) (w.notify process) := by
  by_cases hexited : (w.qemu[process]?.map Supervisor.Child.phase) = some .exited
  · rw [notify, if_pos hexited]
    dsimp only
    by_cases hobserved : process ∈ w.observers
    · rw [if_pos hobserved, processDidTerminate]
      by_cases hslot : w.controller.qemuProcess = some process
      · rw [if_pos hslot]
        exact .notifyHeld hcrash hexited hobserved hslot
      · rw [if_neg hslot]
        exact .notifyOther hcrash hexited fun _ => hslot
    · rw [if_neg hobserved]
      exact .notifyOther hcrash hexited fun h => absurd h hobserved
  · rw [notify, if_neg hexited]
    exact .notifyNone hcrash hexited

/-- **Inversion of `step`**: every event has one of the effects. -/
theorem effect_step (w : World) (e : Event) : Effect w e (w.step e) := by
  rcases hcrash : w.crashed with _ | _
  · have hstep : w.step e = w.handle e := by simp [step, hcrash]
    rw [hstep]
    cases e with
    | tap env => exact effect_tap hcrash env
    | drag view s =>
      rw [handle]
      rcases hdropped : s.dropped with _ | url
      · rw [drag_of_dropped_none w hdropped]
        exact .pass hcrash hdropped
      · rw [drag_of_dropped_some w hdropped]
        exact .drop hcrash hdropped
    | edit field text => exact .edit hcrash
    | endEditing => exact .endEditing hcrash
    | check state => exact .check hcrash
    | choose title => exact .choose hcrash
    | notify process => exact effect_notify hcrash process
    | outside x => exact .outside
  · by_cases houtside : ∃ x, e = .outside x
    · obtain ⟨x, rfl⟩ := houtside
      have hstep : w.step (.outside x) = w.outside x := by simp [step, hcrash]
      rw [hstep]
      exact .outside
    · have hne : ∀ x, e ≠ .outside x := fun x heq => houtside ⟨x, heq⟩
      have hstep : w.step e = w := by
        cases e with
        | outside x => exact absurd rfl (hne x)
        | _ => simp [step, hcrash]
      rw [hstep]
      exact .crashed hcrash hne

/-- A tap that passes the guards starts a VM. -/
theorem Starts.step {w : World} (hcrash : w.crashed = false) {env : LaunchEnv}
    {efiURL mainImage : URL} (h : w.Starts env efiURL mainImage) :
    w.step (.tap env) = w.startVM env efiURL mainImage := by
  simp [World.step, hcrash, handle, h.didTapStartButton]

/-- A tap while a launched process is held stops it. -/
theorem step_of_held {w : World} (hcrash : w.crashed = false) {process : ℕ}
    (hslot : w.controller.qemuProcess = some process)
    (hlaunched : ¬ Supervisor.NeverLaunched w.qemu process) (env : LaunchEnv) :
    w.step (.tap env) = { w with
      qemu := Supervisor.ask w.qemu process
      controller := { w.controller with qemuProcess := none }.updateStates } := by
  have hterm : w.terminate process =
      some { w with qemu := Supervisor.ask w.qemu process } := if_neg hlaunched
  simp [World.step, hcrash, handle, didTapStartButton, hslot, stopVM, hterm]

/-- A drag session that carries a URL through drops it. -/
theorem step_of_dropped {w : World} (hcrash : w.crashed = false) {s : DragSession} {url : URL}
    (h : s.dropped = some url) (view : DropView) : w.step (.drag view s) = w.dropURL view url := by
  simp [World.step, hcrash, handle, drag_of_dropped_some w h]

/-- **Step rule for the controller and the defaults.** Whatever holds of them goes on
holding if it survives each kind of write a handler makes: emptying the slot, filling
it, a drop, a typed text, a commit of the NIC options, a click, and a chosen adaptor. -/
theorem step_rule {P : ViewController → UserDefaults → Prop} {w : World} (e : Event)
    (h : P w.controller w.defaults)
    (hclear : P { w.controller with qemuProcess := none }.updateStates w.defaults)
    (hstart : ∀ mainImage, w.controller.mainImageURL = some mainImage →
      P { w.controller with qemuProcess := some w.qemu.length }.updateStates
        w.updateNICOptions.defaults)
    (hdrop : ∀ view url, P (w.dropURL view url).controller (w.dropURL view url).defaults)
    (hedit : ∀ field text, e = .edit field text → P (w.controller.edit field text) w.defaults)
    (hcommit : P w.controller w.updateNICOptions.defaults)
    (hcheck : ∀ state, P { w.controller with
      unhideMousePointer := { w.controller.unhideMousePointer with state := state } } w.defaults)
    (hchoose : ∀ title, P { w.controller with
      graphicPopupButton := { w.controller.graphicPopupButton with
        titleOfSelectedItem := title } }.onGraphicChange w.defaults) :
    P (w.step e).controller (w.step e).defaults := by
  have heffect := w.effect_step e
  generalize w.step e = w' at heffect ⊢
  cases heffect with
  | crash _ _ _ => exact h
  | stop _ _ _ => exact hclear
  | start _ hstarts =>
    rw [startVM_controller, startVM_defaults]
    exact hstart _ hstarts.2.2
  | reject _ _ _ => exact h
  | drop _ _ => exact hdrop _ _
  | pass _ _ => exact h
  | edit _ => exact hedit _ _ rfl
  | endEditing _ =>
    rw [updateNICOptions_controller]
    exact hcommit
  | check _ => exact hcheck _
  | choose _ => exact hchoose _
  | notifyHeld _ _ _ _ => exact hclear
  | notifyOther _ _ _ => exact h
  | notifyNone _ _ => exact h
  | outside =>
    rw [outside_controller, outside_defaults]
    exact h
  | crashed _ _ => exact h

end World

end ACVM
