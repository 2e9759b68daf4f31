import ACVM.Ledger
import ACVM.VariableStore

/-!
# What the app leaves alone on the disk

Frame conditions for whole runs. To the disk the app writes nothing itself; its `qemu-img`
processes create variable stores.

A file that is there is safe from them as soon as none is at work on it (`Resting`),
because a start has `qemu-img` create only what is not there. That protects what the user
has, and also means that a store whose creation failed halfway is never made again. A file
that is not there can only become the store of a VM that was started (`Created`).
-/

namespace ACVM

/-- Nobody else changes the file at a path. -/
def External.Spares (path : String) : External → Prop
  | .diskChange path' _ => path ≠ path'
  | .qemuExit _ | .qemuImgStep _ _ => True

/-- Nobody else changes the file at a path during the event. -/
def Event.Spares (path : String) : Event → Prop
  | .outside x => x.Spares path
  | .tap env => ∀ x ∈ env.gap, x.Spares path
  | _ => True

namespace World

/-! ## Files that are there -/

/-- A file is there, and no `qemu-img` is at work on it. -/
structure Resting (path : String) (size : ℕ) (w : World) : Prop where
  /-- the file is there, with its size -/
  disk : w.disk path = some size
  /-- no live `qemu-img` was told to create it -/
  quiet : ∀ img ∈ w.qemuImg, ∀ bytes, img.target = some (path, bytes) → img.phase.alive = false

/-- A `qemu-img` process writes to its target only, and only while it is alive. -/
theorem write_of_quiet {img : QemuImg} {path : String}
    (h : ∀ bytes, img.target = some (path, bytes) → img.phase.alive = false) (ok : Bool)
    (disk : Disk) : img.write ok disk path = disk path := by
  rcases halive : img.phase.alive with _ | _
  · rw [write_of_not_alive halive]
  · unfold QemuImg.write
    rcases htarget : img.target with _ | ⟨file, bytes⟩
    · rfl
    · have hne : path ≠ file := by
        rintro rfl
        cases (h bytes htarget).symm.trans halive
      cases img.phase <;> cases ok <;> simp [Disk.write_of_ne _ hne]

section Resting

variable {path : String} {size : ℕ} {w : World}

theorem Resting.outside (h : w.Resting path size) {x : External} (hx : x.Spares path) :
    (w.outside x).Resting path size := by
  cases x with
  | qemuExit p => exact ⟨h.disk, h.quiet⟩
  | diskChange path' size' => exact ⟨(Disk.write_of_ne _ hx _).trans h.disk, h.quiet⟩
  | qemuImgStep i ok =>
    rcases himg : w.qemuImg[i]? with _ | img
    · have hnone : w.outside (.qemuImgStep i ok) = w := by simp only [World.outside, himg]
      rw [hnone]
      exact h
    · have hquiet := h.quiet img (List.mem_of_getElem? himg)
      rw [outside_qemuImgStep himg]
      refine ⟨(write_of_quiet hquiet ok w.disk).trans h.disk, ?_⟩
      intro img' himg' bytes htarget
      rcases List.mem_or_eq_of_mem_set himg' with himg' | rfl
      · exact h.quiet img' himg' bytes htarget
      · -- a process that was at rest takes no step
        have hdead := hquiet bytes htarget
        rw [ImgPhase.next_of_not_alive hdead]
        exact hdead

theorem Resting.outsideAll (h : w.Resting path size) {xs : List External}
    (hxs : ∀ x ∈ xs, x.Spares path) : (w.outsideAll xs).Resting path size := by
  have hrun : (EventSystem.run World.outside w xs).Resting path size :=
    EventSystem.run_induction_mem (fun _ _ hx hw => hw.outside hx) hxs h
  exact hrun

/-- A start tells `qemu-img` to create a file that is not there, so another one. -/
theorem Resting.createStore (h : w.Resting path size) (env : LaunchEnv) (mainImage : URL) :
    (w.createStore env mainImage).Resting path size := by
  rw [World.createStore]
  split
  · rename_i hmissing
    refine ⟨h.disk, ?_⟩
    intro img himg bytes htarget
    rcases List.mem_append.mp himg with himg | himg
    · exact h.quiet img himg bytes htarget
    · rw [List.mem_singleton] at himg
      rw [himg, target_qi_arguments, Option.some.injEq, Prod.mk.injEq] at htarget
      rw [Disk.fileExists_of_absolute _ (ViewController.head?_nvramURL_path mainImage), htarget.1,
        h.disk] at hmissing
      cases hmissing
  · exact h

theorem Resting.step (h : w.Resting path size) {e : Event} (he : e.Spares path) :
    (w.step e).Resting path size := by
  have heffect := w.effect_step e
  generalize w.step e = w' at heffect ⊢
  cases heffect with
  | @start env efiURL mainImage _ _ =>
    have hgap := (h.createStore env mainImage).outsideAll he
    refine ⟨?_, ?_⟩
    · rw [startVM_disk]
      exact hgap.disk
    · rw [startVM_qemuImg]
      exact hgap.quiet
  | @drop view _ url _ _ =>
    rw [dropURL]
    split <;> cases view <;> exact ⟨h.disk, h.quiet⟩
  | endEditing _ =>
    rw [updateNICOptions_eq]
    exact ⟨h.disk, h.quiet⟩
  | outside => exact h.outside he
  | _ => exact ⟨h.disk, h.quiet⟩

theorem Resting.run (h : w.Resting path size) {es : List Event} (hes : ∀ e ∈ es, e.Spares path) :
    (w.run es).Resting path size :=
  EventSystem.run_induction_mem (fun _ _ he hw => hw.step he) hes h

end Resting

/-- When the app is opened, every file that is there rests. -/
theorem resting_openApp (defaults : UserDefaults) {disk : Disk} {path : String} {size : ℕ}
    (h : disk path = some size) : (openApp defaults disk).Resting path size := by
  refine ⟨h, ?_⟩
  intro img himg
  cases himg

/-! ## Files that are not -/

/-- A file that was not there is not there yet, or some `qemu-img` was told to create it
and has got as far as one of its two sizes. -/
structure Created (path : String) (w : World) : Prop where
  /-- every `qemu-img` was told to create the store of a launched VM -/
  stores : ∀ arguments ∈ w.qemuImg.map QemuImg.arguments, ∃ mainImage,
    arguments = ViewController.qi_arguments (ViewController.nvramURL mainImage)
  /-- the file is missing, empty or complete -/
  disk : w.disk path = none ∨ (w.disk path = some 0 ∨ w.disk path = some nvramSize) ∧
    ∃ mainImage, ViewController.qi_arguments (ViewController.nvramURL mainImage) ∈
      w.qemuImg.map QemuImg.arguments ∧ path = (ViewController.nvramURL mainImage).path

/-- What a step of a `qemu-img` process does to a file: nothing, or it is its store and
becomes empty or complete. -/
theorem write_cases {img : QemuImg} {mainImage : URL}
    (himg : img.arguments = ViewController.qi_arguments (ViewController.nvramURL mainImage))
    (ok : Bool) (disk : Disk) (path : String) :
    img.write ok disk path = disk path ∨ path = (ViewController.nvramURL mainImage).path ∧
      (img.write ok disk path = some 0 ∨ img.write ok disk path = some nvramSize) := by
  obtain ⟨arguments, phase⟩ := img
  obtain rfl : arguments = _ := himg
  have htarget := target_qi_arguments (ViewController.nvramURL mainImage) phase
  by_cases hpath : path = (ViewController.nvramURL mainImage).path
  · subst hpath
    cases phase <;> cases ok <;> simp [QemuImg.write, htarget]
  · cases phase <;> cases ok <;> simp [QemuImg.write, htarget, Disk.write_of_ne _ hpath]

section Created

variable {path : String} {w : World}

theorem Created.outside (h : w.Created path) {x : External} (hx : x.Spares path) :
    (w.outside x).Created path := by
  refine ⟨?_, ?_⟩
  · rw [outside_arguments]
    exact h.stores
  · rw [outside_arguments]
    cases x with
    | qemuExit p => exact h.disk
    | diskChange path' size' =>
      have hsame : (w.outside (.diskChange path' size')).disk path = w.disk path :=
        Disk.write_of_ne _ hx _
      rw [hsame]
      exact h.disk
    | qemuImgStep i ok =>
      rcases himg : w.qemuImg[i]? with _ | img
      · have hnone : w.outside (.qemuImgStep i ok) = w := by simp only [World.outside, himg]
        rw [hnone]
        exact h.disk
      · have hmem : img.arguments ∈ w.qemuImg.map QemuImg.arguments :=
          List.mem_map_of_mem (List.mem_of_getElem? himg)
        obtain ⟨mainImage, harguments⟩ := h.stores _ hmem
        rw [outside_qemuImgStep himg]
        rcases write_cases harguments ok w.disk path with hsame | ⟨hpath, hsizes⟩
        · dsimp only
          rw [hsame]
          exact h.disk
        · exact Or.inr ⟨hsizes, mainImage, harguments ▸ hmem, hpath⟩

theorem Created.outsideAll (h : w.Created path) {xs : List External}
    (hxs : ∀ x ∈ xs, x.Spares path) : (w.outsideAll xs).Created path := by
  have hrun : (EventSystem.run World.outside w xs).Created path :=
    EventSystem.run_induction_mem (fun _ _ hx hw => hw.outside hx) hxs h
  exact hrun

theorem Created.createStore (h : w.Created path) (env : LaunchEnv) (mainImage : URL) :
    (w.createStore env mainImage).Created path := by
  rw [World.createStore]
  split
  · rw [runQemuImg]
    refine ⟨?_, ?_⟩
    · intro arguments hmem
      rw [List.map_append, List.mem_append, List.map_singleton, List.mem_singleton] at hmem
      rcases hmem with hmem | rfl
      · exact h.stores arguments hmem
      · exact ⟨mainImage, rfl⟩
    · rcases h.disk with hmissing | ⟨hsizes, image, hmem, hpath⟩
      · exact Or.inl hmissing
      · refine Or.inr ⟨hsizes, image, ?_, hpath⟩
        rw [List.map_append]
        exact List.mem_append_left _ hmem
  · exact h

theorem Created.step (h : w.Created path) {e : Event} (he : e.Spares path) :
    (w.step e).Created path := by
  have heffect := w.effect_step e
  generalize w.step e = w' at heffect ⊢
  cases heffect with
  | @start env efiURL mainImage _ _ =>
    have hgap := (h.createStore env mainImage).outsideAll he
    refine ⟨?_, ?_⟩
    · rw [startVM_qemuImg]
      exact hgap.stores
    · rw [startVM_qemuImg, startVM_disk]
      exact hgap.disk
  | @drop view _ url _ _ =>
    rw [dropURL]
    split <;> cases view <;> exact ⟨h.stores, h.disk⟩
  | endEditing _ =>
    rw [updateNICOptions_eq]
    exact ⟨h.stores, h.disk⟩
  | outside => exact h.outside he
  | _ => exact ⟨h.stores, h.disk⟩

end Created

/-- Every `qemu-img` was told to create the store of a VM that was started. -/
def StoresOfVMs (w : World) : Prop :=
  ∀ arguments ∈ w.qemuImg.map QemuImg.arguments, ∃ info ∈ w.qemu.map Supervisor.Child.info,
    arguments = ViewController.qi_arguments (ViewController.nvramURL info.mainImage)

theorem StoresOfVMs.step {w : World} (h : w.StoresOfVMs) (e : Event) : (w.step e).StoresOfVMs := by
  intro arguments hmem
  rcases hstart : w.startOf e with _ | ⟨env, efiURL, mainImage⟩
  · obtain ⟨-, hinfo, harguments⟩ := step_of_startOf_none hstart
    rw [harguments] at hmem
    rw [hinfo]
    exact h arguments hmem
  · obtain ⟨-, -, hinfo, -, harguments⟩ := step_of_startOf hstart
    rw [harguments, List.mem_append] at hmem
    rw [hinfo]
    rcases hmem with hmem | hmem
    · obtain ⟨info, hinfo, heq⟩ := h arguments hmem
      exact ⟨info, List.mem_append_left _ hinfo, heq⟩
    · refine ⟨_, List.mem_append_right _ (List.mem_singleton_self _), ?_⟩
      rw [Option.mem_toList, creation, hstart, Option.bind_some] at hmem
      split at hmem
      · cases hmem
      · exact (Option.some.inj hmem).symm

/-! ## What the app does to the disk -/

/-- **What the app does to the disk.** A file that nobody else changes is, after any run,
as it was; or it was missing, is now empty or of the size of a variable store, and is the
store of a VM that was started. -/
theorem disk_cases (defaults : UserDefaults) (disk : Disk) {path : String} {es : List Event}
    (hes : ∀ e ∈ es, e.Spares path) :
    let w := (openApp defaults disk).run es
    w.disk path = disk path ∨ disk path = none ∧
      (w.disk path = some 0 ∨ w.disk path = some nvramSize) ∧
      ∃ vm ∈ w.qemu, path = (ViewController.nvramURL vm.info.mainImage).path := by
  intro w
  -- a file that is there is never touched; one that is missing is a matter of the stores
  rcases hbefore : disk path with _ | size
  · have hopen : (openApp defaults disk).Created path := by
      refine ⟨?_, Or.inl hbefore⟩
      intro arguments hmem
      cases hmem
    have hcreated : w.Created path :=
      EventSystem.run_induction_mem (fun _ _ he hw => hw.step he) hes hopen
    have hvms : w.StoresOfVMs :=
      EventSystem.run_induction (fun _ e hw => hw.step e) es fun _ hmem => by cases hmem
    rcases hcreated.disk with hmissing | ⟨hsizes, mainImage, hmem, hpath⟩
    · exact Or.inl hmissing
    · obtain ⟨info, hinfo, heq⟩ := hvms _ hmem
      obtain ⟨vm, hvm, rfl⟩ := List.mem_map.mp hinfo
      -- the arguments determine the store
      have hstore : (ViewController.nvramURL mainImage).path =
          (ViewController.nvramURL vm.info.mainImage).path := by
        simpa [ViewController.qi_arguments] using heq
      exact Or.inr ⟨rfl, hsizes, vm, hvm, hpath.trans hstore⟩
  · exact Or.inl ((resting_openApp defaults hbefore).run hes).disk

/-- The store of a first start. -/
theorem disk_cases_example :
    let w := (openApp .empty fun _ => none).run
      [.drag .mainImage (.carrying (URL.fileURLWithPath "/vm.img")), .tap .smooth,
        .outside (.qemuImgStep 0 true)]
    w.disk "/vm.img.nvram" = none ∨ (none : Option ℕ) = none ∧
      (w.disk "/vm.img.nvram" = some 0 ∨ w.disk "/vm.img.nvram" = some nvramSize) ∧
      ∃ vm ∈ w.qemu, "/vm.img.nvram" = (ViewController.nvramURL vm.info.mainImage).path :=
  disk_cases .empty (fun _ => none) fun e he => by
    simp only [List.mem_cons, List.not_mem_nil, or_false] at he
    rcases he with rfl | rfl | rfl
    · exact trivial
    · exact fun x hx => by cases hx
    · exact trivial

/-- **A file that is there is safe**: from any state of a run in which it is there and no
`qemu-img` is at work on it, it is never written again, whatever the user starts. -/
theorem file_kept (defaults : UserDefaults) (disk : Disk) (before : List Event) {path : String}
    {size : ℕ} (hrests : ((openApp defaults disk).run before).Resting path size)
    {es : List Event} (hes : ∀ e ∈ es, e.Spares path) :
    ((openApp defaults disk).run (before ++ es)).disk path = some size := by
  have happend : (openApp defaults disk).run (before ++ es) =
      ((openApp defaults disk).run before).run es := EventSystem.run_append _ before es
  rw [happend]
  exact (hrests.run hes).disk

/-- A store whose creation failed halfway is there, empty, and stays so when the VM is
stopped and started again. -/
theorem file_kept_half_made :
    ((openApp .empty fun _ => none).run
      ([.drag .mainImage (.carrying (URL.fileURLWithPath "/vm.img")), .tap .smooth,
          .outside (.qemuImgStep 0 true), .outside (.qemuImgStep 0 false)] ++
        [.tap .smooth, .tap .smooth])).disk "/vm.img.nvram" = some 0 := by
  refine file_kept .empty (fun _ => none) _ ⟨rfl, ?_⟩ ?_
  · intro img himg bytes _
    rw [List.mem_singleton.mp himg]
    rfl
  · intro e he
    simp only [List.mem_cons, List.not_mem_nil, or_false, or_self] at he
    rw [he]
    exact fun x hx => by cases hx

end World

end ACVM
