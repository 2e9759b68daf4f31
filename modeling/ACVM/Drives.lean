import ACVM.OptionString
import ACVM.Steps

/-!
# Does QEMU open the files the user chose?

Each `-drive` value is an option string, and `didTapStartButton` puts paths into it as
they are. In QEMU's grammar a comma in a path ends the file name there, and what follows
becomes options of its own; only a doubled comma would stand for itself.

`decode_drives_iff` is the decode law: QEMU reads the drives back as they were meant
exactly when neither path contains a comma.
-/

namespace ACVM

/-- A decoded drive: its keys, with their values. -/
abbrev Drive : Type := List (String × Option String)

/-- What QEMU makes of a `-drive` value: split at single commas, and each piece at its
first equals sign. -/
def decodeDrive (value : String) : Drive :=
  (OptionString.read ',' '=' value.toList).map fun o =>
    (String.ofList o.1, o.2.map String.ofList)

/-- The options of the main image. -/
def mainOptions (mainImage : URL) : List (String × String) :=
  [("file", mainImage.path), ("if", "none"), ("id", "boot"), ("cache", "writethrough")]

/-- The options of the variable store: its file is the one that is looked for, and that
`qemu-img` creates. -/
def nvramOptions (mainImage : URL) : List (String × String) :=
  [("file", (ViewController.nvramURL mainImage).path), ("format", "raw"), ("if", "pflash"),
    ("index", "1")]

/-- The options of the CD image. -/
def cdOptions (cdImageURL : URL) : List (String × String) :=
  [("file", cdImageURL.path), ("media", "cdrom"), ("if", "none"), ("id", "cdimage")]

/-- The options of all drives a VM is to have. -/
def driveOptions (mainImage : URL) (cdImageURL : Option URL) : List (List (String × String)) :=
  [mainOptions mainImage, nvramOptions mainImage] ++ cdImageURL.toList.map cdOptions

/-- QEMU decodes the drives of a launch, in whatever order, as they are to be. -/
def Launch.DrivesChosen (launch : Launch) (cdImageURL : Option URL) : Prop :=
  OptionString.unordered ((ViewController.optionValues "-drive" launch.arguments).map decodeDrive) =
    OptionString.unordered ((driveOptions launch.mainImage cdImageURL).map
      (List.map fun o => (o.1, some o.2)))

namespace ViewController

/-- The built-in `-drive` values. -/
theorem optionValues_builtInArguments (c : ViewController) (efiURL mainImage : URL) :
    optionValues "-drive" (c.builtInArguments efiURL mainImage) =
      [mainDrive mainImage, nvramDrive mainImage] ++ c.cdImageURL.toList.map cdDrive := by
  rw [builtInArguments]
  rcases hcd : c.cdImageURL with _ | cdImageURL <;>
    by_cases hpointer : c.unhideMousePointer.state = .on <;> simp [optionValues, hpointer]

/-- A key and a value as they are written. -/
def chars (o : String × String) : List Char × List Char := (o.1.toList, o.2.toList)

/-- Each `-drive` value is its options written without doubling a comma. -/
theorem toList_mainDrive (mainImage : URL) :
    (mainDrive mainImage).toList =
      OptionString.write ',' '=' ((mainOptions mainImage).map chars) := by
  simp [mainDrive, mainOptions, OptionString.write, chars]

theorem toList_nvramDrive {mainImage : URL} (habs : mainImage.path.toList.head? = some '/') :
    (nvramDrive mainImage).toList =
      OptionString.write ',' '=' ((nvramOptions mainImage).map chars) := by
  simp [nvramDrive, nvramOptions, OptionString.write, chars, nvramURL_path_of_absolute habs]

theorem toList_cdDrive (cdImageURL : URL) :
    (cdDrive cdImageURL).toList =
      OptionString.write ',' '=' ((cdOptions cdImageURL).map chars) := by
  simp [cdDrive, cdOptions, OptionString.write, chars]

/-- All built-in drives are options written without doubling a comma. -/
theorem map_toList_drives {mainImage : URL} (habs : mainImage.path.toList.head? = some '/')
    (cdImageURL : Option URL) :
    ([mainDrive mainImage, nvramDrive mainImage] ++ cdImageURL.toList.map cdDrive).map
        String.toList =
      (driveOptions mainImage cdImageURL).map fun options =>
        OptionString.write ',' '=' (options.map chars) := by
  cases cdImageURL <;>
    simp [driveOptions, toList_mainDrive, toList_nvramDrive habs, toList_cdDrive]

end ViewController

/-- Decoding loses nothing of what was read. -/
theorem ofList_injective : Function.Injective
    fun o : List Char × Option (List Char) => (String.ofList o.1, o.2.map String.ofList) := by
  have hofList : Function.Injective String.ofList := fun _ _ => String.ofList_injective
  rintro ⟨k, v⟩ ⟨k', v'⟩ h
  obtain ⟨hk, hv⟩ := Prod.mk.inj h
  exact Prod.ext (hofList hk) (Option.map_injective hofList hv)

/-- The keys of the drives are plain words. -/
theorem keys_driveOptions (mainImage : URL) (cdImageURL : Option URL) :
    ∀ options ∈ driveOptions mainImage cdImageURL,
      options ≠ [] ∧ ∀ o ∈ options, '=' ∉ o.1.toList ∧ ',' ∉ o.1.toList := by
  cases cdImageURL <;>
    simp [driveOptions, mainOptions, nvramOptions, cdOptions, -Prod.forall]

/-- The values of the drives: the paths are the only ones that can contain a comma. -/
theorem comma_notMem_driveOptions {mainImage : URL}
    (habs : mainImage.path.toList.head? = some '/') (cdImageURL : Option URL) :
    (∀ options ∈ driveOptions mainImage cdImageURL, ∀ o ∈ options, ',' ∉ o.2.toList) ↔
      ',' ∉ mainImage.path.toList ∧ ∀ url, cdImageURL = some url → ',' ∉ url.path.toList := by
  cases cdImageURL <;>
    simp [driveOptions, mainOptions, nvramOptions, cdOptions,
      ViewController.nvramURL_path_of_absolute habs, -Prod.forall]

/-- **Decoding the drives**: QEMU reads the options of all drives back, up to order,
exactly when there is no comma in a path. -/
theorem decode_drives_iff {mainImage : URL} (habs : mainImage.path.toList.head? = some '/')
    (cdImageURL : Option URL) :
    OptionString.unordered
        (([ViewController.mainDrive mainImage, ViewController.nvramDrive mainImage] ++
          cdImageURL.toList.map ViewController.cdDrive).map decodeDrive) =
      OptionString.unordered ((driveOptions mainImage cdImageURL).map
        (List.map fun o => (o.1, some o.2))) ↔
    ',' ∉ mainImage.path.toList ∧ ∀ url, cdImageURL = some url → ',' ∉ url.path.toList := by
  let rows := (driveOptions mainImage cdImageURL).map (List.map ViewController.chars)
  have hdecode : ∀ values : List String, values.map decodeDrive =
      ((values.map String.toList).map (OptionString.read ',' '=')).map
        (List.map fun o => (String.ofList o.1, o.2.map String.ofList)) := by
    intro values
    rw [List.map_map, List.map_map]
    rfl
  have hread := congrArg (List.map (OptionString.read ',' '='))
    (ViewController.map_toList_drives habs cdImageURL)
  have hwant : (driveOptions mainImage cdImageURL).map (List.map fun o => (o.1, some o.2)) =
      (rows.map (List.map fun o => (o.1, some o.2))).map
        (List.map fun o => (String.ofList o.1, o.2.map String.ofList)) := by
    simp [rows, ViewController.chars, Function.comp_def]
  have hvalues : (∀ options ∈ rows, ∀ o ∈ options, ',' ∉ o.2) ↔
      ∀ options ∈ driveOptions mainImage cdImageURL, ∀ o ∈ options, ',' ∉ o.2.toList := by
    simp only [rows, List.forall_mem_map, ViewController.chars]
  have hrows : (driveOptions mainImage cdImageURL).map
        (fun options => OptionString.write ',' '=' (options.map ViewController.chars)) =
      rows.map (OptionString.write ',' '=') := by
    rw [List.map_map]
    rfl
  rw [hdecode, hread, hwant, OptionString.unordered_map_inj ofList_injective, hrows, List.map_map,
    ← comma_notMem_driveOptions habs, ← hvalues]
  refine OptionString.unordered_read_write_iff (by decide) ?_ ?_
  · intro options hoptions
    obtain ⟨options, hmem, rfl⟩ := List.mem_map.mp hoptions
    simpa using (keys_driveOptions mainImage cdImageURL options hmem).1
  · intro options hoptions o ho
    obtain ⟨options, hmem, rfl⟩ := List.mem_map.mp hoptions
    obtain ⟨o', ho', rfl⟩ := List.mem_map.mp ho
    exact (keys_driveOptions mainImage cdImageURL options hmem).2 o' ho'

namespace World

/-- **The drives, exactly**: when the main image has an absolute path and the
other-arguments field is empty, the process a start makes decodes its drives as the files
the user chose if and only if neither path contains a comma. -/
theorem drivesChosen_iff {w : World} {env : LaunchEnv} {efiURL mainImage : URL}
    (hstarts : w.Starts env efiURL mainImage) (habs : mainImage.path.toList.head? = some '/')
    (hother : w.controller.otherArgumentsTextField.stringValue = "") :
    ∃ vm, (w.didTapStartButton env).qemu[w.qemu.length]? = some vm ∧
      vm.info.mainImage = mainImage ∧
      (vm.info.DrivesChosen w.controller.cdImageURL ↔
        ',' ∉ mainImage.path.toList ∧
          ∀ url, w.controller.cdImageURL = some url → ',' ∉ url.path.toList) := by
  refine ⟨_, hstarts.launched, rfl, ?_⟩
  have harguments : (w.newLaunch efiURL mainImage).arguments =
      w.controller.builtInArguments efiURL mainImage := by
    simp [newLaunch, ViewController.arguments, ViewController.otherArguments, hother]
  rw [Launch.DrivesChosen, harguments, ViewController.optionValues_builtInArguments]
  exact decode_drives_iff habs w.controller.cdImageURL

/-- A start with a main image and a CD image. -/
theorem drivesChosen_iff_example :
    let w := (openApp .empty fun _ => none).run
      [.drag .mainImage (.carrying (URL.fileURLWithPath "/vm.img")),
        .drag .cdImage (.carrying (URL.fileURLWithPath "/a=b/cd.iso"))]
    ∃ vm, (w.didTapStartButton .smooth).qemu[0]? = some vm ∧
      vm.info.mainImage = URL.fileURLWithPath "/vm.img" ∧
      (vm.info.DrivesChosen w.controller.cdImageURL ↔
        ',' ∉ (URL.fileURLWithPath "/vm.img").path.toList ∧
          ∀ url, w.controller.cdImageURL = some url → ',' ∉ url.path.toList) :=
  drivesChosen_iff ⟨rfl, rfl, rfl⟩ (by decide) rfl

/-- An image named `a,b.img` is decoded as the file `/a` and a key `b.img`. -/
theorem comma_splits_path :
    let w := (openApp .empty fun _ => none).run
      [.drag .mainImage (.carrying (URL.fileURLWithPath "/a,b.img"))]
    ∃ vm, (w.didTapStartButton .smooth).qemu[0]? = some vm ∧
      (ViewController.optionValues "-drive" vm.info.arguments).map decodeDrive =
        [[("file", some "/a"), ("b.img", none), ("if", some "none"), ("id", some "boot"),
            ("cache", some "writethrough")],
          [("file", some "/a"), ("b.img.nvram", none), ("format", some "raw"),
            ("if", some "pflash"), ("index", some "1")]] ∧
      ¬ vm.info.DrivesChosen w.controller.cdImageURL := by
  intro w
  refine ⟨_, rfl, by decide, ?_⟩
  rw [Launch.DrivesChosen]
  decide

end World

end ACVM
