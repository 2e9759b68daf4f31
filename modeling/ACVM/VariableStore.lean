import ACVM.Steps

/-!
# Is the variable store ready when the VM boots?

`didTapStartButton` looks whether `<main image>.nvram` exists, launches `qemu-img create`
if it does not, and runs QEMU. It waits for nothing and looks at no exit status, so what
QEMU finds depends on what `qemu-img` did in the gap between the two `run()` calls.

The invariant is `Settled`: no `qemu-img` is alive and every store is complete. Under it
at most the `qemu-img` of the tap itself is at work in a gap, and `Creating` follows it
step by step. `bootsReady_step_iff` is the outcome: QEMU is run on a ready store exactly
when the start finds one, or its `qemu-img` succeeds before it.
-/

namespace ACVM

/-- The size of a complete variable store in bytes. -/
def nvramSize : ℕ := 67108864

/-- Every variable store on the disk is complete. -/
def Disk.StoresComplete (disk : Disk) : Prop :=
  ∀ image size, disk (image ++ ".nvram") = some size → size = nvramSize

/-- Nobody else deletes or truncates a variable store. -/
def External.Harmless : External → Prop
  | .diskChange path size => ∀ image, path = image ++ ".nvram" → size = some nvramSize
  | .qemuExit _ | .qemuImgStep _ _ => True

/-- Nobody else deletes or truncates a variable store during the event. -/
def Event.Harmless : Event → Prop
  | .outside x => x.Harmless
  | .tap env => ∀ x ∈ env.gap, x.Harmless
  | _ => True

/-- `qemu-img` is told to create the store with its full size. -/
theorem target_qi_arguments (url : URL) (phase : ImgPhase) :
    QemuImg.target ⟨ViewController.qi_arguments url, phase⟩ = some (url.path, nvramSize) := by
  have hsize : decimalValue "67108864".toList = some nvramSize := rfl
  simp only [QemuImg.target, ViewController.qi_arguments, hsize, Option.map_some]

/-! ## The life of one `qemu-img` -/

namespace ImgPhase

/-- Once exited, a process takes no step. -/
theorem foldl_next_of_not_alive {phase : ImgPhase} (h : phase.alive = false) (oks : List Bool) :
    oks.foldl next phase = phase := by
  induction oks with
  | nil => rfl
  | cons ok oks ih => rw [List.foldl_cons, next_of_not_alive h, ih]

/-- A launched process exits with success exactly when its first three steps, creating
the file, sizing it, and exiting, all succeed. -/
theorem foldl_next_launched {oks : List Bool} :
    oks.foldl next .launched = .exited true ↔ [true, true, true] <+: oks := by
  have hexited : ∀ (ok : Bool) (oks : List Bool), oks.foldl next (.exited ok) = .exited ok :=
    fun ok oks => foldl_next_of_not_alive rfl oks
  rcases oks with _ | ⟨_ | _, _ | ⟨_ | _, _ | ⟨_ | _, oks⟩⟩⟩ <;> simp [next, hexited]

/-- What a store can be while the `qemu-img` that creates it is in a phase: absent or
somebody else's at first, empty or complete once it is created, complete once it is sized.
After a failure it can be anything. -/
def Leaves : ImgPhase → Option ℕ → Prop
  | .notLaunched, size | .launched, size => ∀ bytes, size = some bytes → bytes = nvramSize
  | .created, size => size = some 0 ∨ size = some nvramSize
  | .sized, size | .exited true, size => size = some nvramSize
  | .exited false, _ => True

/-- A complete store fits every phase. -/
theorem leaves_nvramSize (phase : ImgPhase) : phase.Leaves (some nvramSize) := by
  cases phase with
  | notLaunched => exact fun bytes h => (Option.some.inj h).symm
  | launched => exact fun bytes h => (Option.some.inj h).symm
  | created => exact Or.inr rfl
  | sized => exact rfl
  | exited ok =>
    cases ok
    · exact trivial
    · exact rfl

end ImgPhase

namespace World

/-- The steps of one `qemu-img` process among what happens outside. -/
def imgSteps (i : ℕ) (xs : List External) : List Bool :=
  xs.filterMap fun x => match x with
    | .qemuImgStep j ok => if j = i then some ok else none
    | .qemuExit _ | .diskChange _ _ => none

/-- A `qemu-img` process that is not alive writes nothing. -/
theorem write_of_not_alive {img : QemuImg} (h : img.phase.alive = false) (ok : Bool) (disk : Disk) :
    img.write ok disk = disk := by
  unfold QemuImg.write
  split
  · simp_all [ImgPhase.alive]
  · simp_all [ImgPhase.alive]
  · rfl

/-- A step of a `qemu-img` process that exists. -/
theorem outside_qemuImgStep {w : World} {i : ℕ} {img : QemuImg} (himg : w.qemuImg[i]? = some img)
    (ok : Bool) : w.outside (.qemuImgStep i ok) = { w with
      qemuImg := w.qemuImg.set i { img with phase := img.phase.next ok }
      disk := img.write ok w.disk } := by
  simp only [outside, himg]

/-- A `qemu-img` process that is not alive, or does not exist, takes no step. -/
theorem outside_of_not_alive {w : World} {i : ℕ}
    (h : ∀ img, w.qemuImg[i]? = some img → img.phase.alive = false) (ok : Bool) :
    w.outside (.qemuImgStep i ok) = w := by
  rcases himg : w.qemuImg[i]? with _ | img
  · simp only [outside, himg]
  · have halive : img.phase.alive = false := h img himg
    have hset : w.qemuImg.set i { img with phase := img.phase.next ok } = w.qemuImg := by
      obtain ⟨hlt, heq⟩ := List.getElem?_eq_some_iff.mp himg
      rw [ImgPhase.next_of_not_alive halive, ← heq, List.set_getElem_self]
    rw [outside_qemuImgStep himg, hset, write_of_not_alive halive]

/-! ## Between the two `run()` calls -/

/-- The stores are settled: no `qemu-img` is alive, and every store is complete. -/
structure Settled (w : World) : Prop where
  /-- no `qemu-img` is alive -/
  quiet : ∀ img ∈ w.qemuImg, img.phase.alive = false
  /-- every store is complete -/
  complete : w.disk.StoresComplete

/-- A harmless change of a file keeps every store complete. -/
theorem storesComplete_write {disk : Disk} (h : disk.StoresComplete) {path : String}
    {size : Option ℕ} (hx : (External.diskChange path size).Harmless) :
    (disk.write path size).StoresComplete := by
  intro image bytes hbytes
  by_cases hpath : image ++ ".nvram" = path
  · rw [hpath, Disk.write_self, hx image hpath.symm] at hbytes
    exact (Option.some.inj hbytes).symm
  · rw [Disk.write_of_ne _ hpath] at hbytes
    exact h image bytes hbytes

/-- Nothing that happens outside unsettles the stores or deletes one. -/
theorem Settled.outside {w : World} (h : w.Settled) {x : External} (hx : x.Harmless) :
    (w.outside x).Settled ∧ (w.outside x).qemuImg = w.qemuImg ∧
      ∀ image, (w.disk (image ++ ".nvram")).isSome = true →
        ((w.outside x).disk (image ++ ".nvram")).isSome = true := by
  cases x with
  | qemuExit p => exact ⟨⟨h.quiet, h.complete⟩, rfl, fun _ hexists => hexists⟩
  | qemuImgStep i ok =>
    rw [outside_of_not_alive (fun img himg => h.quiet img (List.mem_of_getElem? himg)) ok]
    exact ⟨h, rfl, fun _ hexists => hexists⟩
  | diskChange path size =>
    refine ⟨⟨h.quiet, storesComplete_write h.complete hx⟩, rfl, fun image hexists => ?_⟩
    change (w.disk.write path size (image ++ ".nvram")).isSome = true
    by_cases hpath : image ++ ".nvram" = path
    · rw [hpath, Disk.write_self, hx image hpath.symm]
      rfl
    · rw [Disk.write_of_ne _ hpath]
      exact hexists

theorem Settled.outsideAll {w : World} (h : w.Settled) {xs : List External}
    (hxs : ∀ x ∈ xs, x.Harmless) :
    (w.outsideAll xs).Settled ∧ (w.outsideAll xs).qemuImg = w.qemuImg ∧
      ∀ image, (w.disk (image ++ ".nvram")).isSome = true →
        ((w.outsideAll xs).disk (image ++ ".nvram")).isSome = true := by
  induction xs generalizing w with
  | nil => exact ⟨h, rfl, fun _ hexists => hexists⟩
  | cons x xs ih =>
    obtain ⟨hx, hxs⟩ := List.forall_mem_cons.mp hxs
    obtain ⟨hsettled, himgs, hkeeps⟩ := h.outside hx
    obtain ⟨hsettled', himgs', hkeeps'⟩ := ih hsettled hxs
    exact ⟨hsettled', himgs'.trans himgs, fun image hexists => hkeeps' image (hkeeps image hexists)⟩

/-- One new `qemu-img`, in a phase, is creating the store of an image; the older ones
rest, and all other stores are complete. -/
structure Creating (imgs : List QemuImg) (mainImage : URL) (phase : ImgPhase) (w : World) :
    Prop where
  /-- the new process is the last one -/
  imgs : w.qemuImg =
    imgs ++ [⟨ViewController.qi_arguments (ViewController.nvramURL mainImage), phase⟩]
  /-- the store is what the phase leaves -/
  store : phase.Leaves (w.disk (ViewController.nvramURL mainImage).path)
  /-- the other stores are complete -/
  others : ∀ image size, image ++ ".nvram" ≠ (ViewController.nvramURL mainImage).path →
    w.disk (image ++ ".nvram") = some size → size = nvramSize

/-- A step of the process itself: it writes to no store but its own. -/
theorem Creating.next {imgs : List QemuImg} {mainImage : URL} {phase : ImgPhase} {w : World}
    (h : Creating imgs mainImage phase w) (ok : Bool) :
    Creating imgs mainImage (phase.next ok) (w.outside (.qemuImgStep imgs.length ok)) := by
  have himg : w.qemuImg[imgs.length]? =
      some ⟨ViewController.qi_arguments (ViewController.nvramURL mainImage), phase⟩ := by
    rw [h.imgs]
    exact List.getElem?_concat_length
  have htarget := target_qi_arguments (ViewController.nvramURL mainImage) phase
  rw [outside_qemuImgStep himg]
  refine ⟨by simp [h.imgs], ?_, ?_⟩
  · have hstore := h.store
    cases phase <;> cases ok <;>
      simp_all [QemuImg.write, ImgPhase.next, ImgPhase.Leaves]
  · intro image size hne hsize
    refine h.others image size hne ?_
    cases phase <;> cases ok <;>
      simpa [QemuImg.write, htarget, Disk.write_of_ne _ hne] using hsize

/-- The phase of the process after something happens outside. -/
theorem Creating.outside {imgs : List QemuImg} {mainImage : URL} {phase : ImgPhase} {w : World}
    (himgs : ∀ img ∈ imgs, img.phase.alive = false) (h : Creating imgs mainImage phase w)
    {x : External} (hx : x.Harmless) :
    Creating imgs mainImage ((imgSteps imgs.length [x]).foldl ImgPhase.next phase)
      (w.outside x) := by
  cases x with
  | qemuExit p => exact ⟨h.imgs, h.store, h.others⟩
  | qemuImgStep i ok =>
    by_cases hi : i = imgs.length
    · have hsteps : imgSteps imgs.length [.qemuImgStep i ok] = [ok] := by simp [imgSteps, hi]
      rw [hsteps, hi]
      exact h.next ok
    · have hsteps : imgSteps imgs.length [.qemuImgStep i ok] = [] := by simp [imgSteps, hi]
      rw [hsteps, outside_of_not_alive ?_ ok]
      · exact h
      · -- any other process is one of the old ones, which rest
        intro img himg
        rw [h.imgs] at himg
        have hlt : i < imgs.length := by
          have hle := (List.getElem?_eq_some_iff.mp himg).1
          rw [List.length_append, List.length_singleton] at hle
          omega
        rw [List.getElem?_append_left hlt] at himg
        exact himgs img (List.mem_of_getElem? himg)
  | diskChange path size =>
    refine ⟨h.imgs, ?_, ?_⟩
    · have hstore := h.store
      rw [ViewController.nvramURL_path] at hstore ⊢
      change phase.Leaves (w.disk.write path size (absolutePath mainImage.path ++ ".nvram"))
      by_cases hpath : absolutePath mainImage.path ++ ".nvram" = path
      · rw [hpath, Disk.write_self, hx _ hpath.symm]
        exact phase.leaves_nvramSize
      · rw [Disk.write_of_ne _ hpath]
        exact hstore
    · intro image bytes hne hbytes
      change w.disk.write path size (image ++ ".nvram") = some bytes at hbytes
      by_cases hpath : image ++ ".nvram" = path
      · rw [hpath, Disk.write_self, hx image hpath.symm] at hbytes
        exact (Option.some.inj hbytes).symm
      · rw [Disk.write_of_ne _ hpath] at hbytes
        exact h.others image bytes hne hbytes

/-- Through a gap the process takes its own steps and nothing else changes its store. -/
theorem Creating.outsideAll {imgs : List QemuImg} {mainImage : URL} {phase : ImgPhase} {w : World}
    (himgs : ∀ img ∈ imgs, img.phase.alive = false) (h : Creating imgs mainImage phase w)
    {xs : List External} (hxs : ∀ x ∈ xs, x.Harmless) :
    Creating imgs mainImage ((imgSteps imgs.length xs).foldl ImgPhase.next phase)
      (w.outsideAll xs) := by
  induction xs generalizing w phase with
  | nil => exact h
  | cons x xs ih =>
    obtain ⟨hx, hxs⟩ := List.forall_mem_cons.mp hxs
    have hsteps : imgSteps imgs.length (x :: xs) =
        imgSteps imgs.length [x] ++ imgSteps imgs.length xs := by
      rw [imgSteps, ← List.singleton_append, List.filterMap_append]
      rfl
    rw [hsteps, List.foldl_append]
    exact ih (h.outside himgs hx) hxs

/-! ## At the start of a VM -/

/-- The store is ready at the `run()` of QEMU. -/
structure StoreReady (w : World) (env : LaunchEnv) (efiURL mainImage : URL) : Prop where
  /-- the store is there with its full size -/
  complete : (w.beforeRun env efiURL mainImage).disk (ViewController.nvramURL mainImage).path =
    some nvramSize
  /-- no `qemu-img` that creates it is alive -/
  quiet : ∀ img ∈ (w.beforeRun env efiURL mainImage).qemuImg, ∀ bytes,
    img.target = some ((ViewController.nvramURL mainImage).path, bytes) → img.phase.alive = false
  /-- the `qemu-img` of this start, if any, was launched and did not fail -/
  succeeded : ∀ img ∈ (w.beforeRun env efiURL mainImage).qemuImg.drop w.qemuImg.length,
    img.phase ≠ .notLaunched ∧ img.phase ≠ .exited false

/-- QEMU is run only when the store is ready. -/
def BootsReady (w : World) (e : Event) : Prop :=
  ∀ env efiURL mainImage, e = .tap env → w.crashed = false → w.Starts env efiURL mainImage →
    w.StoreReady env efiURL mainImage

/-- A start finds a store, or its `qemu-img` is launched and takes its three steps with
success before the `run()` of QEMU. -/
def AwaitsStore (w : World) (e : Event) : Prop :=
  ∀ env efiURL mainImage, e = .tap env → w.crashed = false → w.Starts env efiURL mainImage →
    w.disk.fileExists (ViewController.nvramURL mainImage).path = true ∨
      (env.qemuImgRuns = true ∧ [true, true, true] <+: imgSteps w.qemuImg.length env.gap)

section Start

variable {w : World} {env : LaunchEnv} {efiURL mainImage : URL}

/-- Without a store, a start has a new `qemu-img` go through its gap. -/
theorem Settled.creating (h : w.Settled) (hgap : ∀ x ∈ env.gap, x.Harmless)
    (hnone : w.disk.fileExists (ViewController.nvramURL mainImage).path = false) :
    Creating w.qemuImg mainImage
      ((imgSteps w.qemuImg.length env.gap).foldl ImgPhase.next
        (if env.qemuImgRuns then .launched else .notLaunched))
      (w.afterGap env mainImage) := by
  have hcreate : w.createStore env mainImage = w.runQemuImg
      (ViewController.qi_arguments (ViewController.nvramURL mainImage)) env.qemuImgRuns := by
    rw [createStore, hnone]
    rfl
  rw [afterGap, hcreate]
  refine Creating.outsideAll h.quiet ?_ hgap
  refine ⟨rfl, ?_, fun image size _ hsize => h.complete image size hsize⟩
  change ImgPhase.Leaves _ (w.disk (ViewController.nvramURL mainImage).path)
  rw [ViewController.nvramURL_path]
  cases env.qemuImgRuns <;> exact fun bytes hbytes => h.complete _ _ hbytes

/-- A start that finds a store leaves the stores settled, and its store complete. -/
theorem Settled.afterGap_of_exists (h : w.Settled) (hgap : ∀ x ∈ env.gap, x.Harmless)
    (hexists : w.disk.fileExists (ViewController.nvramURL mainImage).path = true) :
    (w.afterGap env mainImage).Settled ∧ (w.afterGap env mainImage).qemuImg = w.qemuImg ∧
      (w.afterGap env mainImage).disk (ViewController.nvramURL mainImage).path =
        some nvramSize := by
  have hcreate : w.createStore env mainImage = w := by
    rw [createStore, hexists]
    rfl
  rw [afterGap, hcreate]
  obtain ⟨hsettled, himgs, hkeeps⟩ := h.outsideAll hgap
  rw [Disk.fileExists_of_absolute _ (ViewController.head?_nvramURL_path mainImage),
    ViewController.nvramURL_path] at hexists
  obtain ⟨size, hsize⟩ := Option.isSome_iff_exists.mp (hkeeps _ hexists)
  refine ⟨hsettled, himgs, ?_⟩
  rw [ViewController.nvramURL_path, hsize, hsettled.complete _ _ hsize]

/-- A `qemu-img` that exited with success leaves the stores settled, and its own complete. -/
theorem Creating.settled {imgs : List QemuImg} (himgs : ∀ img ∈ imgs, img.phase.alive = false)
    (h : Creating imgs mainImage (.exited true) w) :
    w.Settled ∧ w.disk (ViewController.nvramURL mainImage).path = some nvramSize := by
  refine ⟨⟨?_, ?_⟩, h.store⟩
  · intro img himg
    rw [h.imgs, List.mem_append, List.mem_singleton] at himg
    rcases himg with himg | rfl
    · exact himgs img himg
    · rfl
  · intro image size hsize
    by_cases hpath : image ++ ".nvram" = (ViewController.nvramURL mainImage).path
    · rw [hpath, h.store] at hsize
      exact (Option.some.inj hsize).symm
    · exact h.others image size hpath hsize

/-- A start that finds a store, or awaits its `qemu-img`, leaves the stores settled and
its own store ready. -/
theorem Settled.start (h : w.Settled) (hgap : ∀ x ∈ env.gap, x.Harmless)
    (hawaits : w.disk.fileExists (ViewController.nvramURL mainImage).path = true ∨
      (env.qemuImgRuns = true ∧ [true, true, true] <+: imgSteps w.qemuImg.length env.gap)) :
    (w.afterGap env mainImage).Settled ∧ w.StoreReady env efiURL mainImage := by
  rcases hexists : w.disk.fileExists (ViewController.nvramURL mainImage).path with _ | _
  · obtain ⟨hruns, hsteps⟩ := hawaits.resolve_left (by simp [hexists])
    have hcreating := h.creating hgap hexists
    rw [hruns, if_pos rfl, ImgPhase.foldl_next_launched.mpr hsteps] at hcreating
    obtain ⟨hsettled, hstore⟩ := hcreating.settled h.quiet
    refine ⟨hsettled, ⟨by rw [beforeRun_disk]; exact hstore, ?_, ?_⟩⟩
    · intro img himg _ _
      rw [beforeRun_qemuImg] at himg
      exact hsettled.quiet img himg
    · intro img himg
      have himgs : (w.afterGap env mainImage).qemuImg = w.qemuImg ++ _ := hcreating.imgs
      rw [beforeRun_qemuImg, himgs, List.drop_left, List.mem_singleton] at himg
      rw [himg]
      exact ⟨by simp, by simp⟩
  · obtain ⟨hsettled, himgs, hstore⟩ := h.afterGap_of_exists hgap hexists
    refine ⟨hsettled, ⟨by rw [beforeRun_disk]; exact hstore, ?_, ?_⟩⟩
    · intro img himg _ _
      rw [beforeRun_qemuImg] at himg
      exact hsettled.quiet img himg
    · intro img himg
      rw [beforeRun_qemuImg, himgs, List.drop_length] at himg
      cases himg

/-- A start that finds no store has it ready only if it awaits its `qemu-img`. -/
theorem StoreReady.awaits (hready : w.StoreReady env efiURL mainImage) (h : w.Settled)
    (hgap : ∀ x ∈ env.gap, x.Harmless)
    (hnone : w.disk.fileExists (ViewController.nvramURL mainImage).path = false) :
    env.qemuImgRuns = true ∧ [true, true, true] <+: imgSteps w.qemuImg.length env.gap := by
  have hcreating := h.creating hgap hnone
  generalize hphase : (imgSteps w.qemuImg.length env.gap).foldl ImgPhase.next
    (if env.qemuImgRuns then .launched else .notLaunched) = phase at hcreating
  have himgs : (w.beforeRun env efiURL mainImage).qemuImg = w.qemuImg ++
      [⟨ViewController.qi_arguments (ViewController.nvramURL mainImage), phase⟩] := by
    rw [beforeRun_qemuImg]
    exact hcreating.imgs
  have htarget := target_qi_arguments (ViewController.nvramURL mainImage) phase
  have hdead : phase.alive = false := by
    refine hready.quiet _ ?_ _ htarget
    rw [himgs]
    exact List.mem_append_right _ (List.mem_singleton_self _)
  obtain ⟨hlaunched, hfailed⟩ : phase ≠ .notLaunched ∧ phase ≠ .exited false := by
    have hnew := hready.succeeded
    rw [himgs, List.drop_left] at hnew
    exact hnew _ (List.mem_singleton_self _)
  have hexited : phase = .exited true := by
    cases phase with
    | notLaunched => exact absurd rfl hlaunched
    | exited ok =>
      cases ok
      · exact absurd rfl hfailed
      · rfl
    | _ => cases hdead
  rw [hexited] at hphase
  rcases hruns : env.qemuImgRuns with _ | _
  · rw [hruns, if_neg (by simp), ImgPhase.foldl_next_of_not_alive rfl] at hphase
    cases hphase
  · rw [hruns, if_pos rfl] at hphase
    exact ⟨rfl, ImgPhase.foldl_next_launched.mp hphase⟩

end Start

/-- **One step**: with settled stores, QEMU is run on a ready store exactly when the start
finds the store or awaits its `qemu-img`. -/
theorem bootsReady_step_iff {w : World} (h : w.Settled) {e : Event} (he : e.Harmless) :
    w.BootsReady e ↔ w.AwaitsStore e := by
  refine ⟨?_, ?_⟩
  · rintro hboots env efiURL mainImage rfl hcrash hstarts
    rcases hexists : w.disk.fileExists (ViewController.nvramURL mainImage).path with _ | _
    · exact Or.inr ((hboots env efiURL mainImage rfl hcrash hstarts).awaits h he hexists)
    · exact Or.inl rfl
  · rintro hawaits env efiURL mainImage rfl hcrash hstarts
    exact (h.start he (hawaits env efiURL mainImage rfl hcrash hstarts)).2

/-- Every event whose start awaits its store leaves the stores settled. -/
theorem Settled.step {w : World} (h : w.Settled) {e : Event} (he : e.Harmless)
    (hawaits : w.AwaitsStore e) : (w.step e).Settled := by
  have heffect := w.effect_step e
  generalize w.step e = w' at heffect ⊢
  cases heffect with
  | @start env efiURL mainImage hcrash hstarts =>
    obtain ⟨hsettled, -⟩ : (w.afterGap env mainImage).Settled ∧
        w.StoreReady env efiURL mainImage :=
      h.start he (hawaits env efiURL mainImage rfl hcrash hstarts)
    refine ⟨?_, ?_⟩
    · rw [startVM_qemuImg]
      exact hsettled.quiet
    · rw [startVM_disk]
      exact hsettled.complete
  | @drop view _ url _ _ =>
    rw [dropURL]
    split <;> cases view <;> exact ⟨h.quiet, h.complete⟩
  | endEditing _ =>
    rw [updateNICOptions_eq]
    exact ⟨h.quiet, h.complete⟩
  | outside => exact (h.outside he).1
  -- no other effect touches the disk or a `qemu-img`
  | _ => exact ⟨h.quiet, h.complete⟩

/-- **The variable store, exactly**: if the stores on the disk are complete and nobody else
spoils one, QEMU is run on a ready store at every start of a run if and only if every
start finds a store or awaits a `qemu-img` that succeeds. -/
theorem bootsReady_iff (defaults : UserDefaults) {disk : Disk} (hdisk : disk.StoresComplete)
    {es : List Event} (hes : ∀ e ∈ es, e.Harmless) :
    EventSystem.Along step BootsReady (openApp defaults disk) es ↔
      EventSystem.Along step AwaitsStore (openApp defaults disk) es := by
  refine EventSystem.along_iff_along (I := Settled) ?_ ?_ ?_ hes
  · exact fun w e he h => bootsReady_step_iff h he
  · exact fun w e he h hawaits => h.step he hawaits
  · refine ⟨?_, hdisk⟩
    intro img himg
    cases himg

/-- A disk with the store of another image, and a start whose `qemu-img` succeeds while QEMU
writes to that one. -/
theorem bootsReady_iff_awaited :
    let disk : Disk := fun path => if path = "/other.img.nvram" then some nvramSize else none
    let awaited : LaunchEnv := { LaunchEnv.smooth with
      gap := [.qemuImgStep 0 true, .diskChange "/other.img.nvram" (some nvramSize),
        .qemuImgStep 0 true, .qemuImgStep 0 true] }
    EventSystem.Along step BootsReady (openApp .empty disk)
      [.drag .mainImage (.carrying (URL.fileURLWithPath "/vm.img")), .tap awaited] := by
  intro disk awaited
  have hdisk : disk.StoresComplete := by
    intro image size hsize
    dsimp only [disk] at hsize
    split at hsize
    · exact (Option.some.inj hsize).symm
    · cases hsize
  refine (bootsReady_iff .empty hdisk ?_).mpr ?_
  · intro e he
    rcases List.mem_cons.mp he with rfl | he
    · exact trivial
    · obtain rfl := List.mem_singleton.mp he
      intro x hx
      simp only [awaited, List.mem_cons, List.not_mem_nil, or_false] at hx
      rcases hx with rfl | rfl | rfl | rfl
      · exact trivial
      · exact fun _ _ => rfl
      · exact trivial
      · exact trivial
  · refine ⟨?_, ?_, trivial⟩
    · rintro env efiURL mainImage heq
      cases heq
    · rintro env efiURL mainImage heq - -
      obtain rfl := Event.tap.inj heq
      exact Or.inr ⟨rfl, by decide⟩

/-- The first start of an image runs QEMU while `qemu-img` has not yet made the store. -/
theorem first_start_not_ready :
    let opened := openApp .empty fun _ => none
    let drop : Event := .drag .mainImage (.carrying (URL.fileURLWithPath "/vm.img"))
    ¬ EventSystem.Along step BootsReady opened [drop, .tap .smooth] ∧
      ((opened.run [drop]).beforeRun .smooth (URL.fileURLWithPath "/QEMU_EFI.fd")
        (URL.fileURLWithPath "/vm.img")).disk "/vm.img.nvram" = none := by
  intro opened drop
  have hnone : ((opened.run [drop]).beforeRun .smooth (URL.fileURLWithPath "/QEMU_EFI.fd")
      (URL.fileURLWithPath "/vm.img")).disk "/vm.img.nvram" = none := rfl
  refine ⟨?_, hnone⟩
  rintro ⟨-, hboots, -⟩
  have hcomplete := (hboots _ _ _ rfl rfl ⟨rfl, rfl, rfl⟩).complete
  have hpath : (ViewController.nvramURL (URL.fileURLWithPath "/vm.img")).path = "/vm.img.nvram" :=
    ViewController.nvramURL_path_of_absolute (by decide)
  rw [hpath] at hcomplete
  exact absurd (hnone.symm.trans hcomplete) (by simp)

end World

end ACVM
