import ACVM.Drives

/-!
# What the command line tells

The built-in arguments are a list of options, each with its value, and the values are made
from the settings in the window. `arguments_eq_iff` goes back: the command line determines
every setting it is made from, whatever the texts and the paths are.
-/

namespace ACVM

namespace ViewController

variable (c : ViewController)

/-! ## Options and values -/

/-- The built-in arguments, an option and a value at a time. -/
def builtInOptions (efiURL mainImage : URL) : List (String × String) :=
  [ ("-M", "virt,highmem=no"), ("-accel", "hvf"), ("-cpu", "host"), ("-smp", c.numberOfCores),
    ("-m", c.ramSize), ("-bios", efiURL.path), ("-device", c.displayAdaptor),
    ("-device", "qemu-xhci"), ("-device", "usb-kbd"), ("-device", "usb-tablet"),
    ("-nic", c.nicOptions), ("-rtc", "base=localtime,clock=host"),
    ("-drive", mainDrive mainImage), ("-drive", nvramDrive mainImage),
    ("-device", "nvme,drive=boot,serial=boot"), ("-device", "intel-hda"),
    ("-device", "hda-duplex") ] ++
  (c.cdImageURL.toList.flatMap fun cdImageURL =>
    [("-drive", cdDrive cdImageURL), ("-device", "usb-storage,drive=cdimage")]) ++
  (if c.unhideMousePointer.state = .on then [("-display", "cocoa,show-cursor=on")] else [])

/-- **The command line is well formed**: it is a list of options, each with its value. -/
theorem builtInArguments_eq (efiURL mainImage : URL) :
    c.builtInArguments efiURL mainImage =
      (c.builtInOptions efiURL mainImage).flatMap fun o => [o.1, o.2] := by
  rw [builtInArguments, builtInOptions]
  cases c.cdImageURL <;> by_cases hpointer : c.unhideMousePointer.state = .on <;> simp [hpointer]

/-- Looking up an option in such a list. -/
theorem optionValues_flatMap (option : String) (options : List (String × String)) :
    optionValues option (options.flatMap fun o => [o.1, o.2]) =
      (options.filter fun o => o.1 = option).map Prod.snd := by
  induction options with
  | nil => rfl
  | cons o options ih =>
    rw [List.flatMap_cons, List.cons_append, List.singleton_append, optionValues, ih]
    by_cases hoption : o.1 = option <;> simp [hoption]

/-- The values of the built-in options. -/
theorem values_builtInArguments (efiURL mainImage : URL) :
    let values := fun option => optionValues option (c.builtInArguments efiURL mainImage)
    values "-M" = ["virt,highmem=no"] ∧ values "-accel" = ["hvf"] ∧ values "-cpu" = ["host"] ∧
      values "-smp" = [c.numberOfCores] ∧ values "-m" = [c.ramSize] ∧
      values "-bios" = [efiURL.path] ∧
      values "-device" = [c.displayAdaptor, "qemu-xhci", "usb-kbd", "usb-tablet",
        "nvme,drive=boot,serial=boot", "intel-hda", "hda-duplex"] ++
          c.cdImageURL.toList.map (fun _ => "usb-storage,drive=cdimage") ∧
      values "-nic" = [c.nicOptions] ∧ values "-rtc" = ["base=localtime,clock=host"] ∧
      values "-drive" = [mainDrive mainImage, nvramDrive mainImage] ++
        c.cdImageURL.toList.map cdDrive ∧
      values "-display" =
        if c.unhideMousePointer.state = .on then ["cocoa,show-cursor=on"] else [] := by
  simp only [builtInArguments_eq, optionValues_flatMap, builtInOptions]
  cases c.cdImageURL <;> by_cases hpointer : c.unhideMousePointer.state = .on <;> simp [hpointer]

/-! ## What the command line tells -/

/-- The text field a name stands for. -/
def field (c : ViewController) : Field → TextField
  | .cpu => c.cpuTextField
  | .ram => c.ramTextField
  | .nicOptions => c.nicOptionsTextField
  | .otherArguments => c.otherArgumentsTextField

/-- What the user has typed, chosen and clicked. -/
def typed (c : ViewController) : (Field → String) × String × StateValue :=
  (fun name => (c.field name).stringValue, c.displayAdaptor, c.unhideMousePointer.state)

/-- But for the images, the arguments are made from that. -/
theorem arguments_of_typed {c c' : ViewController} (h : c.typed = c'.typed)
    (hcd : c.cdImageURL = c'.cdImageURL) (efiURL mainImage : URL) :
    c.arguments efiURL mainImage = c'.arguments efiURL mainImage := by
  obtain ⟨hfields, hdisplay⟩ := Prod.mk.inj h
  obtain ⟨hadaptor, hpointer⟩ := Prod.mk.inj hdisplay
  have hcpu : c.cpuTextField.stringValue = c'.cpuTextField.stringValue := congrFun hfields .cpu
  have hram : c.ramTextField.stringValue = c'.ramTextField.stringValue := congrFun hfields .ram
  have hnic : c.nicOptionsTextField.stringValue = c'.nicOptionsTextField.stringValue :=
    congrFun hfields .nicOptions
  have hother : c.otherArgumentsTextField.stringValue = c'.otherArgumentsTextField.stringValue :=
    congrFun hfields .otherArguments
  simp only [arguments, builtInArguments, otherArguments, numberOfCores, ramSize, nicOptions, hcpu,
    hram, hnic, hother, hadaptor, hpointer, hcd]

/-- The value of `-nic` and the text of the field determine each other. -/
theorem nicOptions_injective {c c' : ViewController} (h : c.nicOptions = c'.nicOptions) :
    c.nicOptionsTextField.stringValue = c'.nicOptionsTextField.stringValue := by
  have hsplit : ∀ c : ViewController, c.nicOptions.toList = "user,model=virtio".toList ++
      if c.nicOptionsTextField.stringValue = "" then []
      else ',' :: c.nicOptionsTextField.stringValue.toList := by
    intro c
    rw [nicOptions]
    by_cases hempty : c.nicOptionsTextField.stringValue = "" <;> simp [hempty]
  have htail := congrArg String.toList h
  rw [hsplit, hsplit, List.append_cancel_left_eq] at htail
  split at htail <;> split at htail
  · rename_i hempty hempty'
    rw [hempty, hempty']
  · cases htail
  · cases htail
  · exact String.toList_inj.mp (List.cons.inj htail).2

theorem mainDrive_inj {url url' : URL} : mainDrive url = mainDrive url' ↔ url.path = url'.path := by
  rw [mainDrive, mainDrive, String.append_left_inj, String.append_right_inj]

theorem cdDrive_inj {url url' : URL} : cdDrive url = cdDrive url' ↔ url.path = url'.path := by
  rw [cdDrive, cdDrive, String.append_left_inj, String.append_right_inj]

/-- The drive of the CD image is known by the path of the image. -/
theorem map_cdDrive_inj {url url' : Option URL} :
    url.toList.map cdDrive = url'.toList.map cdDrive ↔ url.map URL.path = url'.map URL.path := by
  rcases url with _ | url <;> rcases url' with _ | url' <;> simp [cdDrive_inj]

/-- **The command line tells the settings**: with the same extra arguments, two windows
give the same command line exactly when they agree in everything a machine is made from,
and nothing else in the window matters. -/
theorem arguments_eq_iff {c c' : ViewController} {efiURL efiURL' mainImage mainImage' : URL}
    (hother : c.otherArgumentsTextField.stringValue = c'.otherArgumentsTextField.stringValue) :
    c.arguments efiURL mainImage = c'.arguments efiURL' mainImage' ↔
      c.numberOfCores = c'.numberOfCores ∧ c.ramSize = c'.ramSize ∧
        c.displayAdaptor = c'.displayAdaptor ∧
        c.nicOptionsTextField.stringValue = c'.nicOptionsTextField.stringValue ∧
        (c.unhideMousePointer.state = .on ↔ c'.unhideMousePointer.state = .on) ∧
        efiURL.path = efiURL'.path ∧ mainImage.path = mainImage'.path ∧
        c.cdImageURL.map URL.path = c'.cdImageURL.map URL.path := by
  have hsame : c.otherArguments = c'.otherArguments := by
    rw [otherArguments, otherArguments, hother]
  rw [arguments, arguments, hsame, List.append_cancel_right_eq]
  refine ⟨?_, ?_⟩
  · intro h
    -- each setting can be read back from the values of its option
    obtain ⟨-, -, -, hsmp, hm, hbios, hdevice, hnic, -, hdrive, hdisplay⟩ :=
      c.values_builtInArguments efiURL mainImage
    obtain ⟨-, -, -, hsmp', hm', hbios', hdevice', hnic', -, hdrive', hdisplay'⟩ :=
      c'.values_builtInArguments efiURL' mainImage'
    dsimp only at hsmp hm hbios hdevice hnic hdrive hdisplay
    dsimp only at hsmp' hm' hbios' hdevice' hnic' hdrive' hdisplay'
    rw [h] at hsmp hm hbios hdevice hnic hdrive hdisplay
    obtain ⟨hadaptor, -⟩ := List.cons.inj (hdevice.symm.trans hdevice')
    obtain ⟨hmain, hrest⟩ := List.cons.inj (hdrive.symm.trans hdrive')
    have hcd := map_cdDrive_inj.mp (List.cons.inj hrest).2
    refine ⟨?_, ?_, hadaptor, ?_, ?_, ?_, mainDrive_inj.mp hmain, hcd⟩
    · exact (List.singleton_inj.mp (hsmp'.symm.trans hsmp)).symm
    · exact (List.singleton_inj.mp (hm'.symm.trans hm)).symm
    · exact nicOptions_injective (List.singleton_inj.mp (hnic'.symm.trans hnic)).symm
    · have hshown := hdisplay.symm.trans hdisplay'
      refine ⟨fun hon => ?_, fun hon => ?_⟩
      · by_contra hoff
        rw [if_pos hon, if_neg hoff] at hshown
        cases hshown
      · by_contra hoff
        rw [if_neg hoff, if_pos hon] at hshown
        cases hshown
    · exact (List.singleton_inj.mp (hbios'.symm.trans hbios)).symm
  · rintro ⟨hcores, hram, hadaptor, hnic, hpointer, hefi, hmain, hcd⟩
    have hnics : c.nicOptions = c'.nicOptions := by rw [nicOptions, nicOptions, hnic]
    have hnvram : nvramDrive mainImage = nvramDrive mainImage' := by
      rw [nvramDrive, nvramDrive, hmain]
    rw [builtInArguments, builtInArguments, hcores, hram, hadaptor, hnics, hefi,
      mainDrive_inj.mpr hmain, hnvram]
    simp only [hpointer]
    rcases hold : c.cdImageURL with _ | cd <;> rcases hnew : c'.cdImageURL with _ | cd'
    · rfl
    · simp [hold, hnew] at hcd
    · simp [hold, hnew] at hcd
    · rw [hold, hnew] at hcd
      simp only [cdDrive_inj.mpr (Option.some.inj hcd)]

/-- Four cores are the default, however they are written; two cores are not. -/
theorem arguments_eq_iff_example :
    let url := URL.fileURLWithPath "/vm.img"
    storyboard.arguments url url = (storyboard.edit .cpu "04").arguments url url ∧
      storyboard.arguments url url ≠ (storyboard.edit .cpu "2").arguments url url := by
  intro url
  have hfour : (storyboard.edit .cpu "04").numberOfCores = "4" := by decide
  have htwo : (storyboard.edit .cpu "2").numberOfCores = "2" := by decide
  refine ⟨(arguments_eq_iff rfl).mpr ⟨hfour.symm, rfl, rfl, rfl, Iff.rfl, rfl, rfl, rfl⟩, ?_⟩
  intro h
  rw [arguments_eq_iff (by rfl)] at h
  obtain ⟨hcores, -⟩ := h
  rw [htwo] at hcores
  exact absurd hcores (by decide)

end ViewController

end ACVM
