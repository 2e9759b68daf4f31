import ACVM.Supervisor
import ACVM.ViewController

/-!
# The launcher and the world around it

`World` is one run of the app: the controller with its window, the user defaults, the
disk, every `Process` the controller made, and whether an exception has ended the app.
`step` is one event: a handler of the controller, or something that happens outside.

* Foundation: `run()` that does not throw makes a process alive; `terminate()` only
  asks, and raises an exception on a process that was never launched; a process exits
  at an event of its own; the notification of its exit is posted at most once, any time
  after it, and reaches the controller if the controller observes that process.
* `qemu-img create` runs beside the app: it creates the file empty, gives it its size,
  and exits, and may fail at each step.
* Nothing else stops while a handler runs: whatever other processes do between the two
  `run()` calls of `didTapStartButton` is the `gap` of the tap.

Events that cannot happen in a state (the exit of a process that is not running, a
second delivery) leave it as it is. Input reaches a control whether or not it is
enabled; AppKit delivers less, so what holds of all runs here holds of all its runs.
-/

namespace ACVM

/-! ## Processes -/

/-- The settings a VM is started with: the images the controller and its views hold,
and the path in the defaults. -/
structure Configuration : Type where
  /-- the controller's main image -/
  mainImageURL : Option URL
  /-- the controller's CD image -/
  cdImageURL : Option URL
  /-- the main image on display -/
  mainContentURL : Option URL
  /-- the CD image on display -/
  cdContentURL : Option URL
  /-- the persisted path of the main image -/
  mainImageFilePath : Option String
  deriving DecidableEq

/-- What a QEMU process is launched with. -/
structure Launch : Type where
  /-- `Process.arguments` -/
  arguments : List String
  /-- the main image, and with it the EFI variable store -/
  mainImage : URL
  /-- the settings at the launch -/
  configuration : Configuration

/-- Where a `qemu-img create` is in its life. -/
inductive ImgPhase : Type where
  /-- `run()` threw -/
  | notLaunched : ImgPhase
  /-- launched, the file not touched yet -/
  | launched : ImgPhase
  /-- the file created empty -/
  | created : ImgPhase
  /-- the file given its size -/
  | sized : ImgPhase
  /-- exited, with or without success -/
  | exited : Bool → ImgPhase
  deriving DecidableEq

namespace ImgPhase

/-- The next phase, the step succeeding if the flag says so. -/
def next : ImgPhase → Bool → ImgPhase
  | .launched, true => .created
  | .created, true => .sized
  | .sized, true => .exited true
  | .launched, false | .created, false | .sized, false => .exited false
  | .notLaunched, _ => .notLaunched
  | .exited ok, _ => .exited ok

/-- Whether the process is alive. -/
def alive : ImgPhase → Bool
  | .launched | .created | .sized => true
  | .notLaunched | .exited _ => false

/-- A process that is not alive takes no step. -/
theorem next_of_not_alive {phase : ImgPhase} (h : phase.alive = false) (ok : Bool) :
    phase.next ok = phase := by
  cases phase with
  | notLaunched => rfl
  | exited _ => rfl
  | launched => cases h
  | created => cases h
  | sized => cases h

end ImgPhase

/-- A `qemu-img` process. -/
structure QemuImg : Type where
  /-- `Process.arguments` -/
  arguments : List String
  /-- where it is in its life -/
  phase : ImgPhase
  deriving DecidableEq

namespace QemuImg

/-- The file `create -f raw FILE SIZE` makes, and its size in bytes. -/
def target (img : QemuImg) : Option (String × ℕ) :=
  match img.arguments with
  | ["create", "-f", "raw", file, size] =>
    (decimalValue size.toList).map fun bytes => (file, bytes)
  | _ => none

/-- What the next step writes, if it succeeds. -/
def write (img : QemuImg) (ok : Bool) (disk : Disk) : Disk :=
  match img.target, img.phase, ok with
  | some (file, _), .launched, true => disk.write file (some 0)
  | some (file, bytes), .created, true => disk.write file (some bytes)
  | _, _, _ => disk

end QemuImg

/-! ## The world -/

/-- One run of the app, with what it touches. -/
structure World : Type where
  /-- the controller -/
  controller : ViewController
  /-- `UserDefaults.standard` -/
  defaults : UserDefaults
  /-- the disk -/
  disk : Disk
  /-- the `Process` objects made for QEMU, oldest first -/
  qemu : List (Supervisor.Child Launch)
  /-- the processes whose `didTerminateNotification` calls `processDidTerminate(_:)` -/
  observers : List ℕ
  /-- the `Process` objects made for `qemu-img`, oldest first -/
  qemuImg : List QemuImg
  /-- whether an uncaught exception has ended the app -/
  crashed : Bool

/-- What happens outside the controller. -/
inductive External : Type where
  /-- a QEMU process exits -/
  | qemuExit : ℕ → External
  /-- a `qemu-img` process takes its next step, successfully or not -/
  | qemuImgStep : ℕ → Bool → External
  /-- somebody else changes a file, QEMU's own writes to an image among them -/
  | diskChange : String → Option ℕ → External
  deriving DecidableEq

/-- What the outside answers while a start tap is handled. -/
structure LaunchEnv : Type where
  /-- `Bundle.main.url(forResource: "QEMU_EFI", withExtension: "fd")` -/
  efiURL : Option URL
  /-- whether `run()` of `qemu-img` returns -/
  qemuImgRuns : Bool
  /-- what happens outside between the check for the variable store and the `run()` of QEMU -/
  gap : List External
  /-- whether `run()` of QEMU returns -/
  qemuRuns : Bool

/-- The smooth start: both `run()` return, and nothing happens in between. -/
def LaunchEnv.smooth : LaunchEnv where
  efiURL := some (URL.fileURLWithPath "/QEMU_EFI.fd")
  qemuImgRuns := true
  gap := []
  qemuRuns := true

/-- The two drop views whose delegate the controller is. -/
inductive DropView : Type where
  /-- the main image's -/
  | mainImage : DropView
  /-- the CD image's -/
  | cdImage : DropView
  deriving DecidableEq

/-- The four text fields. -/
inductive Field : Type where
  /-- `cpuTextField` -/
  | cpu : Field
  /-- `ramTextField` -/
  | ram : Field
  /-- `nicOptionsTextField` -/
  | nicOptions : Field
  /-- `otherArgumentsTextField` -/
  | otherArguments : Field
  deriving DecidableEq

/-- One event of a run of the app. -/
inductive Event : Type where
  /-- the Start/Stop button is tapped -/
  | tap : LaunchEnv → Event
  /-- a drag session over a drop view -/
  | drag : DropView → DragSession → Event
  /-- text is typed into a field -/
  | edit : Field → String → Event
  /-- editing of the NIC options ends -/
  | endEditing : Event
  /-- the check box is clicked -/
  | check : StateValue → Event
  /-- a display adaptor is chosen -/
  | choose : Option String → Event
  /-- a `didTerminateNotification` is posted -/
  | notify : ℕ → Event
  /-- something happens outside -/
  | outside : External → Event

namespace ViewController

/-- The drop view a name stands for. -/
def view (c : ViewController) : DropView → FileDropView
  | .mainImage => c.mainImage
  | .cdImage => c.cdImage

/-- The controller with one drop view replaced. -/
def setView (c : ViewController) : DropView → FileDropView → ViewController
  | .mainImage, v => { c with mainImage := v }
  | .cdImage, v => { c with cdImage := v }

/-- The part of `viewDidLoad()` that looks for the persisted main image. -/
def restoreMainImage (c : ViewController) (defaults : UserDefaults) (disk : Disk) :
    ViewController :=
  match defaults.string Constants.mainImageFilePath with
  | some mainImageFilePath =>
    if disk.fileExists mainImageFilePath then
      let contentURL := URL.fileURLWithPath mainImageFilePath
      { c with mainImageURL := some contentURL
               mainImage := c.mainImage.setContentURL (some contentURL) }
    else c
  | none => c

/-- The part of `viewDidLoad()` that looks for the persisted NIC options. -/
def restoreNICOptions (c : ViewController) (defaults : UserDefaults) : ViewController :=
  match defaults.string Constants.nicOptions with
  | some nicOptions =>
    { c with nicOptionsTextField := { c.nicOptionsTextField with stringValue := nicOptions } }
  | none => c

/-- The end of `viewDidLoad()`: the controller becomes the delegate of its drop views. -/
def becomeDelegate (c : ViewController) : ViewController :=
  { c with mainImage := { c.mainImage with delegate := true }
           cdImage := { c.cdImage with delegate := true } }

/-- The controller with a text typed into a field. -/
def edit (c : ViewController) : Field → String → ViewController
  | .cpu, text => { c with cpuTextField := { c.cpuTextField with stringValue := text } }
  | .ram, text => { c with ramTextField := { c.ramTextField with stringValue := text } }
  | .nicOptions, text =>
    { c with nicOptionsTextField := { c.nicOptionsTextField with stringValue := text } }
  | .otherArguments, text =>
    { c with otherArgumentsTextField := { c.otherArgumentsTextField with stringValue := text } }

end ViewController

namespace World

/-- The current settings. -/
def configuration (w : World) : Configuration where
  mainImageURL := w.controller.mainImageURL
  cdImageURL := w.controller.cdImageURL
  mainContentURL := w.controller.mainImage.contentURL
  cdContentURL := w.controller.cdImage.contentURL
  mainImageFilePath := w.defaults.string Constants.mainImageFilePath

/-! ## Outside the controller -/

/-- Something happens outside. -/
def outside (w : World) : External → World
  | .qemuExit p => { w with qemu := Supervisor.exit w.qemu p }
  | .qemuImgStep i ok =>
    match w.qemuImg[i]? with
    | none => w
    | some img =>
      { w with
        qemuImg := w.qemuImg.set i { img with phase := img.phase.next ok }
        disk := img.write ok w.disk }
  | .diskChange path size => { w with disk := w.disk.write path size }

/-- Things happen outside, one after the other. -/
def outsideAll (w : World) (xs : List External) : World := xs.foldl outside w

/-! ## Handlers -/

/-- `viewDidLoad()`. -/
def viewDidLoad (w : World) : World :=
  let c := w.controller.restoreMainImage w.defaults w.disk
  let c := c.restoreNICOptions w.defaults
  let c := c.updateStates
  { w with controller := c.becomeDelegate }

/-- `updateNICOptions()`, and with it `netForwardDidChange(_:)`. -/
def updateNICOptions (w : World) : World :=
  if w.controller.nicOptionsTextField.stringValue.isEmpty then
    { w with defaults := w.defaults.removeObject Constants.nicOptions }
  else
    { w with defaults :=
        w.defaults.set w.controller.nicOptionsTextField.stringValue Constants.nicOptions }

/-- `fileDropView(_:didUpdate:)`. -/
def fileDropView (w : World) (view : DropView) (contentURL : URL) : World :=
  match view with
  | .mainImage =>
    { w with
      defaults := w.defaults.set contentURL.path Constants.mainImageFilePath
      controller := { w.controller with mainImageURL := some contentURL }.updateStates }
  | .cdImage =>
    { w with controller := { w.controller with cdImageURL := some contentURL }.updateStates }

/-- A drag session over a drop view, with the call of its delegate. -/
def drag (w : World) (view : DropView) (s : DragSession) : World :=
  let (v, told) := (w.controller.view view).dragSession s
  let w := { w with controller := w.controller.setView view v }
  match told with
  | some contentURL => w.fileDropView view contentURL
  | none => w

/-- `processDidTerminate(_:)`, for the notification of `process`. -/
def processDidTerminate (w : World) (process : ℕ) : World :=
  if w.controller.qemuProcess = some process then
    { w with controller := { w.controller with qemuProcess := none }.updateStates }
  else w

/-- `Process.terminate()`: a request, and an exception if the process was never launched. -/
def terminate (w : World) (process : ℕ) : Option World :=
  if Supervisor.NeverLaunched w.qemu process then none
  else some { w with qemu := Supervisor.ask w.qemu process }

/-- The stop branch of `didTapStartButton(_:)`. An exception leaves the handler, and
nobody catches it. -/
def stopVM (w : World) (process : ℕ) : World :=
  match w.terminate process with
  | none => { w with crashed := true }
  | some w => { w with controller := { w.controller with qemuProcess := none }.updateStates }

/-- `run()` of `qemu-img`, with its `catch`. -/
def runQemuImg (w : World) (arguments : List String) (runs : Bool) : World :=
  { w with qemuImg := w.qemuImg ++ [⟨arguments, if runs then .launched else .notLaunched⟩] }

/-- The part of `didTapStartButton(_:)` that creates the variable store if there is none. -/
def createStore (w : World) (env : LaunchEnv) (mainImage : URL) : World :=
  let url := ViewController.nvramURL mainImage
  if !w.disk.fileExists url.path then
    w.runQemuImg (ViewController.qi_arguments url) env.qemuImgRuns
  else w

/-- The world after that, and after what happens outside before QEMU is run. -/
def afterGap (w : World) (env : LaunchEnv) (mainImage : URL) : World :=
  (w.createStore env mainImage).outsideAll env.gap

/-- `NotificationCenter.default.addObserver(_:selector:name:object:)` for the
`didTerminateNotification` of `process`. -/
def addObserver (w : World) (process : ℕ) : World :=
  { w with observers := w.observers ++ [process] }

/-- `didTapStartButton(_:)` between the guards and the `run()` of QEMU: see to the
variable store, commit the NIC options, make the new process, observe it, and install it. -/
def beforeRun (w : World) (env : LaunchEnv) (efiURL mainImage : URL) : World :=
  let w := w.afterGap env mainImage
  let w := w.updateNICOptions
  let process := w.qemu.length
  let launch : Launch := ⟨w.controller.arguments efiURL mainImage, mainImage, w.configuration⟩
  let w := { w with qemu := Supervisor.spawn w.qemu launch false }
  let w := w.addObserver process
  { w with controller := { w.controller with qemuProcess := some process }.updateStates }

/-- `run()` of QEMU, with its `catch`. -/
def runQemu (w : World) (process : ℕ) (runs : Bool) : World :=
  if runs then { w with qemu := Supervisor.launch w.qemu process } else w

/-- `didTapStartButton(_:)` after its guards. -/
def startVM (w : World) (env : LaunchEnv) (efiURL mainImage : URL) : World :=
  (w.beforeRun env efiURL mainImage).runQemu w.qemu.length env.qemuRuns

/-- `didTapStartButton(_:)`. -/
def didTapStartButton (w : World) (env : LaunchEnv) : World :=
  match w.controller.qemuProcess with
  | some process => w.stopVM process
  | none =>
    match env.efiURL, w.controller.mainImageURL with
    | some efiURL, some mainImage => w.startVM env efiURL mainImage
    | _, _ => w

/-- The `didTerminateNotification` of `process` is posted: it reaches the handler if the
process is observed. -/
def notify (w : World) (process : ℕ) : World :=
  if (w.qemu[process]?.map Supervisor.Child.phase) = some .exited then
    let w := { w with qemu := Supervisor.report w.qemu process }
    if process ∈ w.observers then w.processDidTerminate process else w
  else w

/-! ## Events -/

/-- What an event does while the app runs. -/
def handle (w : World) : Event → World
  | .tap env => w.didTapStartButton env
  | .drag view s => w.drag view s
  | .edit field text => { w with controller := w.controller.edit field text }
  | .endEditing => w.updateNICOptions
  | .check state =>
    { w with controller := { w.controller with
        unhideMousePointer := { w.controller.unhideMousePointer with state := state } } }
  | .choose title =>
    { w with controller := { w.controller with
        graphicPopupButton := { w.controller.graphicPopupButton with
          titleOfSelectedItem := title } }.onGraphicChange }
  | .notify process => w.notify process
  | .outside x => w.outside x

/-- One event. When the app has crashed, only the outside goes on. -/
def step (w : World) (e : Event) : World :=
  if w.crashed then
    match e with
    | .outside x => w.outside x
    | _ => w
  else w.handle e

/-- The app is opened: a fresh window on the given defaults and disk. -/
def openApp (defaults : UserDefaults) (disk : Disk) : World :=
  viewDidLoad ⟨.storyboard, defaults, disk, [], [], [], false⟩

/-- The world after a sequence of events. -/
abbrev run (w : World) (es : List Event) : World := EventSystem.run step w es

end World

end ACVM
