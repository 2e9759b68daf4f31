import ACVM.FileDropView

/-!
# The view controller: its state and its pure part

`ViewController` holds the process slot, the two image URLs and the controls of the
window. This module has the methods that touch nothing else: `updateStates`, which
writes titles and enabled flags, and the machine properties that `didTapStartButton`
builds QEMU's arguments from. The handlers that reach out to processes, the defaults
and the disk are in `ACVM.World`.
-/

namespace ACVM

/-- The view controller. A `Process` is known by its index in the list of all QEMU
processes the controller made (`World.qemu`). -/
structure ViewController : Type where
  /-- the process slot -/
  qemuProcess : Option ℕ
  /-- the check box -/
  unhideMousePointer : CheckBox
  /-- the drop view of the main image -/
  mainImage : FileDropView
  /-- the drop view of the CD image -/
  cdImage : FileDropView
  /-- the number of cores, as typed -/
  cpuTextField : TextField
  /-- the RAM size, as typed -/
  ramTextField : TextField
  /-- the NIC options, as typed -/
  nicOptionsTextField : TextField
  /-- the extra QEMU arguments, as typed -/
  otherArgumentsTextField : TextField
  /-- the display adaptors -/
  graphicPopupButton : PopUpButton
  /-- the main image -/
  mainImageURL : Option URL
  /-- the CD image -/
  cdImageURL : Option URL
  /-- the Start/Stop button -/
  actionButton : PushButton

/-- The keys of `UserDefaults` the controller uses. -/
def Constants.mainImageFilePath : String := "mainImageFilePath"

/-- The key of the NIC options. -/
def Constants.nicOptions : String := "nicOptions"

theorem Constants.nicOptions_ne : Constants.nicOptions ≠ Constants.mainImageFilePath := by decide

namespace ViewController

/-- The controller and its window as the storyboard makes them. -/
def storyboard : ViewController where
  qemuProcess := none
  unhideMousePointer := ⟨.off, true⟩
  mainImage := .storyboard
  cdImage := .storyboard
  cpuTextField := ⟨"", true⟩
  ramTextField := ⟨"", true⟩
  nicOptionsTextField := ⟨"", true⟩
  otherArgumentsTextField := ⟨"", true⟩
  graphicPopupButton := ⟨some "ramfb", true⟩
  mainImageURL := none
  cdImageURL := none
  actionButton := ⟨"Start", true⟩

/-! ## Titles and enabled flags -/

/-- The enabled flags of the eight input controls. -/
def inputsEnabled (c : ViewController) : List Bool :=
  [c.mainImage.isEnabled, c.cdImage.isEnabled, c.cpuTextField.isEnabled, c.ramTextField.isEnabled,
    c.unhideMousePointer.isEnabled, c.graphicPopupButton.isEnabled, c.nicOptionsTextField.isEnabled,
    c.otherArgumentsTextField.isEnabled]

/-- Enable or disable the eight input controls. -/
def enableInputs (c : ViewController) (enabled : Bool) : ViewController :=
  { c with
    mainImage := { c.mainImage with isEnabled := enabled }
    cdImage := { c.cdImage with isEnabled := enabled }
    cpuTextField := { c.cpuTextField with isEnabled := enabled }
    ramTextField := { c.ramTextField with isEnabled := enabled }
    unhideMousePointer := { c.unhideMousePointer with isEnabled := enabled }
    graphicPopupButton := { c.graphicPopupButton with isEnabled := enabled }
    nicOptionsTextField := { c.nicOptionsTextField with isEnabled := enabled }
    otherArgumentsTextField := { c.otherArgumentsTextField with isEnabled := enabled } }

/-- `updateStates()`. -/
def updateStates (c : ViewController) : ViewController :=
  let c :=
    if c.mainImageURL ≠ none then
      { c with actionButton := { c.actionButton with isEnabled := true } }
    else { c with actionButton := { c.actionButton with isEnabled := false } }
  if c.qemuProcess ≠ none then
    { c with actionButton := { c.actionButton with title := "Stop" } }.enableInputs false
  else
    { c with actionButton := { c.actionButton with title := "Start" } }.enableInputs true

/-- **What `updateStates` does**: the button and the enabled flags become a function of
the process slot and the main image, and nothing else changes. -/
theorem updateStates_eq (c : ViewController) :
    c.updateStates = { c with
      actionButton := ⟨if c.qemuProcess.isSome then "Stop" else "Start", c.mainImageURL.isSome⟩
      }.enableInputs c.qemuProcess.isNone := by
  rcases hq : c.qemuProcess with _ | p <;> rcases hm : c.mainImageURL with _ | u <;>
    simp [updateStates, enableInputs, hq, hm]

section

variable (c : ViewController)

@[simp] theorem updateStates_qemuProcess : c.updateStates.qemuProcess = c.qemuProcess := by
  rw [updateStates_eq]; rfl

@[simp] theorem updateStates_mainImageURL : c.updateStates.mainImageURL = c.mainImageURL := by
  rw [updateStates_eq]; rfl

@[simp] theorem updateStates_cdImageURL : c.updateStates.cdImageURL = c.cdImageURL := by
  rw [updateStates_eq]; rfl

@[simp] theorem updateStates_mainImage :
    c.updateStates.mainImage = { c.mainImage with isEnabled := c.qemuProcess.isNone } := by
  rw [updateStates_eq]; rfl

@[simp] theorem updateStates_cdImage :
    c.updateStates.cdImage = { c.cdImage with isEnabled := c.qemuProcess.isNone } := by
  rw [updateStates_eq]; rfl

@[simp] theorem updateStates_nicOptionsTextField :
    c.updateStates.nicOptionsTextField =
      { c.nicOptionsTextField with isEnabled := c.qemuProcess.isNone } := by
  rw [updateStates_eq]; rfl

@[simp] theorem updateStates_actionButton :
    c.updateStates.actionButton =
      ⟨if c.qemuProcess.isSome then "Stop" else "Start", c.mainImageURL.isSome⟩ := by
  rw [updateStates_eq]; rfl

@[simp] theorem updateStates_inputsEnabled :
    c.updateStates.inputsEnabled = List.replicate 8 c.qemuProcess.isNone := by
  rw [updateStates_eq]; rfl

end

/-! ## Machine properties -/

/-- `numberOfCores`. -/
def numberOfCores (c : ViewController) : String :=
  match swiftInt c.cpuTextField.stringValue with
  | some numOfCores => if numOfCores > 0 then toString numOfCores else "4"
  | none => "4"

/-- `ramSize`. -/
def ramSize (c : ViewController) : String :=
  let adjustedRamText := trimmingWhitespacesAndNewlines c.ramTextField.stringValue
  if adjustedRamText.isEmpty then "4G" else adjustedRamText

/-- `displayAdaptor`. -/
def displayAdaptor (c : ViewController) : String :=
  match c.graphicPopupButton.titleOfSelectedItem with
  | none => "ramfb"
  | some adjustedDisplayText => adjustedDisplayText

/-- `nicOptions`. -/
def nicOptions (c : ViewController) : String :=
  let options := "user,model=virtio"
  if !c.nicOptionsTextField.stringValue.isEmpty then
    options ++ "," ++ c.nicOptionsTextField.stringValue
  else options

/-- `onGraphicChange(_:)`. -/
def onGraphicChange (c : ViewController) : ViewController :=
  if c.displayAdaptor = "ramfb" then
    { c with unhideMousePointer := { c.unhideMousePointer with state := .off } }
  else { c with unhideMousePointer := { c.unhideMousePointer with state := .on } }

/-! ## QEMU's arguments -/

/-- The `-drive` value of the main image. -/
def mainDrive (mainImage : URL) : String :=
  "file=" ++ mainImage.path ++ ",if=none,id=boot,cache=writethrough"

/-- The `-drive` value of the EFI variable store. -/
def nvramDrive (mainImage : URL) : String :=
  "file=" ++ mainImage.path ++ ".nvram,format=raw,if=pflash,index=1"

/-- The `-drive` value of the CD image. -/
def cdDrive (cdImageURL : URL) : String :=
  "file=" ++ cdImageURL.path ++ ",media=cdrom,if=none,id=cdimage"

/-- The arguments `didTapStartButton` builds itself. -/
def builtInArguments (c : ViewController) (efiURL mainImage : URL) : List String :=
  [ "-M", "virt,highmem=no",
    "-accel", "hvf",
    "-cpu", "host",
    "-smp", c.numberOfCores,
    "-m", c.ramSize,
    "-bios", efiURL.path,
    "-device", c.displayAdaptor,
    "-device", "qemu-xhci",
    "-device", "usb-kbd",
    "-device", "usb-tablet",
    "-nic", c.nicOptions,
    "-rtc", "base=localtime,clock=host",
    "-drive", mainDrive mainImage,
    "-drive", nvramDrive mainImage,
    "-device", "nvme,drive=boot,serial=boot",
    "-device", "intel-hda",
    "-device", "hda-duplex" ] ++
  (match c.cdImageURL with
    | some cdImageURL =>
      ["-drive", cdDrive cdImageURL, "-device", "usb-storage,drive=cdimage"]
    | none => []) ++
  (if c.unhideMousePointer.state = .on then ["-display", "cocoa,show-cursor=on"] else [])

/-- The arguments `didTapStartButton` appends for the text of the other-arguments field. -/
def otherArguments (c : ViewController) : List String :=
  if !c.otherArgumentsTextField.stringValue.isEmpty then
    componentsSeparatedBySpace c.otherArgumentsTextField.stringValue
  else []

/-- All arguments of the QEMU process. -/
def arguments (c : ViewController) (efiURL mainImage : URL) : List String :=
  c.builtInArguments efiURL mainImage ++ c.otherArguments

/-- The values of an option in a list of arguments in which every option takes a value. -/
def optionValues (option : String) : List String → List String
  | flag :: value :: rest =>
    if flag = option then value :: optionValues option rest else optionValues option rest
  | _ => []

/-- The path of the EFI variable store: where its existence is tested, and what
`qemu-img` is told to create. -/
def nvramURL (mainImage : URL) : URL := URL.fileURLWithPath (mainImage.path ++ ".nvram")

/-- Going through a URL makes that path absolute. -/
theorem nvramURL_path (mainImage : URL) :
    (nvramURL mainImage).path = absolutePath mainImage.path ++ ".nvram" := by
  have hsuffix : ".nvram".toList.getLast? = some 'm' := rfl
  have hlast : (mainImage.path ++ ".nvram").toList.getLast? ≠ some '/' := by
    rw [String.toList_append, List.getLast?_append, hsuffix]
    simp
  rw [nvramURL, URL.path_fileURLWithPath hlast]
  apply absolutePath_append
  decide

/-- The variable store of an absolute path is looked for right beside it. -/
theorem nvramURL_path_of_absolute {mainImage : URL}
    (h : mainImage.path.toList.head? = some '/') :
    (nvramURL mainImage).path = mainImage.path ++ ".nvram" := by
  rw [nvramURL_path, absolutePath_of_absolute h]

theorem head?_nvramURL_path (mainImage : URL) :
    (nvramURL mainImage).path.toList.head? = some '/' := by
  rw [nvramURL_path, String.toList_append, List.head?_append, head?_absolutePath]
  rfl

/-- The arguments of `qemu-img`. -/
def qi_arguments (url : URL) : List String := ["create", "-f", "raw", url.path, "67108864"]

end ViewController

end ACVM
