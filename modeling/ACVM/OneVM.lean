import ACVM.Supervision

/-!
# At most one VM at a time?

The stop branch of `didTapStartButton` empties the slot as soon as it has *asked* the VM
to terminate, and the next tap starts another one. `processDidTerminate`, which empties
the slot when the VM has really exited, then finds the slot taken by the new VM.

So Start, Stop, Start can leave two VMs writing to one image. `atMostOneVM_step_iff` is
the exact condition: an event keeps at most one VM alive if and only if a start among
them waits for the VMs stopped before it. How many can pile up without waiting is told by
`restarts_pile_up`: any number.
-/

namespace ACVM

namespace World

/-- At most one VM is alive. -/
def AtMostOneVM (w : World) : Prop := Supervisor.AtMostOneAlive w.qemu

/-- The event is a tap that starts a VM: it passes the guards and `run()` of QEMU returns. -/
def Launches (w : World) (e : Event) (env : LaunchEnv) (efiURL mainImage : URL) : Prop :=
  e = .tap env ∧ w.crashed = false ∧ w.Starts env efiURL mainImage ∧ env.qemuRuns = true

/-- A start waits for the stopped VMs: each VM that was asked to terminate and is still
alive at the tap exits before the `run()` of the new one. -/
def WaitsForStopped (w : World) (e : Event) : Prop :=
  ∀ env efiURL mainImage, w.Launches e env efiURL mainImage →
    ∀ process vm, w.qemu[process]? = some vm → vm.asked = true → vm.phase = .running →
      .qemuExit process ∈ env.gap

theorem mem_exits {xs : List External} {process : ℕ} :
    process ∈ exits xs ↔ .qemuExit process ∈ xs := by
  rw [exits, List.mem_filterMap]
  refine ⟨?_, fun h => ⟨_, h, rfl⟩⟩
  rintro ⟨x, hx, heq⟩
  cases x with
  | qemuExit p =>
    obtain rfl := Option.some.inj heq
    exact hx
  | qemuImgStep i ok => cases heq
  | diskChange path size => cases heq

/-- An event that starts no VM brings none to life. -/
theorem alive_of_alive_step {w : World} (hobserved : w.Observed) {e : Event}
    (h : ∀ env efiURL mainImage, ¬ w.Launches e env efiURL mainImage) {process : ℕ}
    (halive : Supervisor.Alive (w.step e).qemu process) : Supervisor.Alive w.qemu process := by
  have hmoves : ∀ m ∈ w.moves e, ∀ info, m ≠ .start info true := by
    rintro m hm info rfl
    obtain ⟨env, efiURL, mainImage, rfl, hcrash, hstarts, hruns⟩ := start_mem_moves hm
    exact h env efiURL mainImage ⟨rfl, hcrash, hstarts, hruns⟩
  have halive' : Supervisor.Alive (w.step e).supervisor.children process := halive
  rw [supervisor_step hobserved] at halive'
  exact Supervisor.alive_of_alive_run hmoves halive'

/-- What is alive when a VM is launched: whatever was alive and did not exit meanwhile,
and the new VM. -/
theorem Launches.qemu {w : World} {e : Event} {env : LaunchEnv} {efiURL mainImage : URL}
    (h : w.Launches e env efiURL mainImage) :
    (w.step e).qemu = Supervisor.spawn ((exits env.gap).foldl Supervisor.exit w.qemu)
      (w.newLaunch efiURL mainImage) true := by
  obtain ⟨rfl, hcrash, hstarts, hruns⟩ := h
  rw [hstarts.step hcrash, startVM_qemu, hruns]

/-- **One step**: while the invariant and the property hold, an event keeps at most one VM
alive exactly when, if it is a start, it waits for the stopped VMs. -/
theorem atMostOneVM_step_iff {w : World} (hsupervised : w.Supervised)
    (hone : w.AtMostOneVM) (e : Event) : (w.step e).AtMostOneVM ↔ w.WaitsForStopped e := by
  by_cases hlaunch : ∃ env efiURL mainImage, w.Launches e env efiURL mainImage
  · obtain ⟨env, efiURL, mainImage, h⟩ := hlaunch
    obtain ⟨rfl, hcrash, hstarts, hruns⟩ := id h
    rw [AtMostOneVM, h.qemu, Supervisor.atMostOneAlive_spawn]
    refine ⟨?_, ?_⟩
    · rintro hnone env' efiURL' mainImage' ⟨heq, -⟩ process vm hvm - hrun
      obtain rfl := Event.tap.inj heq
      by_contra hstays
      exact hnone process (Supervisor.alive_foldl_exit.mpr ⟨⟨vm, hvm, hrun⟩, fun hmem =>
        hstays (mem_exits.mp hmem)⟩)
    · intro hwaits process halive
      obtain ⟨⟨vm, hvm, hrun⟩, hstays⟩ := Supervisor.alive_foldl_exit.mp halive
      -- the slot is empty, so a VM that is still alive was stopped
      have hasked : vm.asked = true :=
        hsupervised.toSupervised.asked_of_alive hstarts.1 hvm hrun
      exact hstays (mem_exits.mpr (hwaits env efiURL mainImage h process vm hvm hasked hrun))
  · have hno : ∀ env efiURL mainImage, ¬ w.Launches e env efiURL mainImage :=
      fun env efiURL mainImage h => hlaunch ⟨env, efiURL, mainImage, h⟩
    refine ⟨fun _ env efiURL mainImage h => absurd h (hno env efiURL mainImage), fun _ => ?_⟩
    exact hone.mono fun process => alive_of_alive_step hsupervised.observed hno

/-- **At most one VM at a time, exactly**: in every state of a run at most one VM is
alive if and only if every start of the run waits for the VMs stopped before it. -/
theorem oneVM_iff (defaults : UserDefaults) (disk : Disk) (es : List Event) :
    EventSystem.Always step AtMostOneVM (openApp defaults disk) es ↔
      EventSystem.Along step WaitsForStopped (openApp defaults disk) es := by
  refine EventSystem.always_iff_along (I := Supervised) ?_ ?_
    (supervised_openApp defaults disk) ?_ es
  · exact fun w e hsupervised hone => atMostOneVM_step_iff hsupervised hone e
  · exact fun w e hsupervised _ _ => supervised_step hsupervised e
  · intro p q hp
    obtain ⟨c, hc, -⟩ := hp
    have hchildren := congrArg Supervisor.State.children (supervisor_openApp defaults disk)
    have hnil : (openApp defaults disk).qemu = [] := hchildren
    rw [hnil] at hc
    cases hc

/-- Start, Stop, Start: the second VM runs beside the first, which was only asked to
terminate, on the same image. -/
theorem restart_runs_two :
    let w := (openApp .empty fun _ => none).run
      [.drag .mainImage (.carrying (URL.fileURLWithPath "/vm.img")),
        .tap .smooth, .tap .smooth, .tap .smooth]
    (∃ first second, w.qemu[0]? = some first ∧ w.qemu[1]? = some second ∧
      first.phase = .running ∧ second.phase = .running ∧
      first.info.mainImage = second.info.mainImage) ∧ ¬ w.AtMostOneVM := by
  intro w
  refine ⟨⟨_, _, rfl, rfl, rfl, rfl, rfl⟩, fun hone => ?_⟩
  have heq : (0 : ℕ) = 1 := hone 0 1 ⟨_, rfl, rfl⟩ ⟨_, rfl, rfl⟩
  cases heq

/-! ## No bound -/

/-- The controller is idle with a main image, and as many VMs run on that image. -/
structure Piled (mainImage : URL) (n : ℕ) (w : World) : Prop where
  /-- the app goes on -/
  running : w.crashed = false
  /-- no process is held -/
  slot : w.controller.qemuProcess = none
  /-- the main image is set -/
  mainImageURL : w.controller.mainImageURL = some mainImage
  /-- that many processes were made -/
  length : w.qemu.length = n
  /-- and all of them run -/
  alive : ∀ vm ∈ w.qemu, vm.phase = .running ∧ vm.info.mainImage = mainImage

/-- Start and Stop put one more on the pile. -/
theorem Piled.restart {mainImage : URL} {n : ℕ} {w : World} (h : w.Piled mainImage n) :
    ((w.step (.tap .smooth)).step (.tap .smooth)).Piled mainImage (n + 1) := by
  let efiURL := URL.fileURLWithPath "/QEMU_EFI.fd"
  have hstarts : w.Starts .smooth efiURL mainImage := ⟨h.slot, rfl, h.mainImageURL⟩
  have hcrash : (w.startVM .smooth efiURL mainImage).crashed = false :=
    (startVM_crashed ..).trans h.running
  have hcontroller : (w.startVM .smooth efiURL mainImage).controller =
      { w.controller with qemuProcess := some w.qemu.length }.updateStates := startVM_controller ..
  have hqemu : (w.startVM .smooth efiURL mainImage).qemu =
      Supervisor.spawn w.qemu (w.newLaunch efiURL mainImage) true := startVM_qemu ..
  rw [hstarts.step h.running]
  generalize w.startVM .smooth efiURL mainImage = started at hcrash hcontroller hqemu ⊢
  have hheld : started.controller.qemuProcess = some w.qemu.length := by
    rw [hcontroller, ViewController.updateStates_qemuProcess]
  have hlaunched : ¬ Supervisor.NeverLaunched started.qemu w.qemu.length := by
    rw [hqemu, Supervisor.neverLaunched_spawn_self]
    simp
  rw [step_of_held hcrash hheld hlaunched]
  refine ⟨hcrash, by simp, ?_, ?_, ?_⟩
  · rw [ViewController.updateStates_mainImageURL, hcontroller,
      ViewController.updateStates_mainImageURL]
    exact h.mainImageURL
  · simp [Supervisor.ask, Supervisor.spawn, hqemu, h.length]
  · intro vm hvm
    obtain ⟨p, hp⟩ := List.mem_iff_getElem?.mp hvm
    obtain ⟨vm₀, hvm₀, rfl⟩ := Supervisor.getElem?_modify_inv hp
    rw [hqemu] at hvm₀
    rcases Supervisor.getElem?_spawn_inv hvm₀ with hold | ⟨-, rfl⟩
    · -- being asked changes nothing about a process
      have halive := h.alive vm₀ (List.mem_of_getElem? hold)
      split <;> exact halive
    · split <;> exact ⟨rfl, rfl⟩

theorem Piled.run {mainImage : URL} {n : ℕ} {w : World} (h : w.Piled mainImage n) (k : ℕ) :
    (w.run (List.replicate k [.tap .smooth, .tap .smooth]).flatten).Piled mainImage (n + k) := by
  induction k generalizing n w with
  | zero => exact h
  | succ k ih =>
    have hnext := ih h.restart
    rw [Nat.add_right_comm, Nat.add_assoc] at hnext
    exact hnext

/-- **There is no bound.** However many VMs are wanted, that many times Start and Stop makes
them run side by side, on one image. -/
theorem restarts_pile_up (defaults : UserDefaults) (disk : Disk) (mainImage : URL) (n : ℕ) :
    let es : List Event := .drag .mainImage (.carrying mainImage) ::
      (List.replicate n [.tap .smooth, .tap .smooth]).flatten
    let w := (openApp defaults disk).run es
    w.qemu.length = n ∧ ∀ vm ∈ w.qemu, vm.phase = .running ∧ vm.info.mainImage = mainImage := by
  intro es w
  have hdrop : ((openApp defaults disk).step (.drag .mainImage (.carrying mainImage))).Piled
      mainImage 0 := by
    have hopened := opened defaults disk
    have hdropped : (DragSession.carrying mainImage).dropped = some mainImage := rfl
    rw [step_of_dropped rfl hdropped]
    refine ⟨?_, ?_, ?_, ?_, ?_⟩
    · rw [dropURL_crashed]
      rfl
    · rw [dropURL_qemuProcess]
      exact hopened.qemuProcess
    · rw [dropURL, if_pos (hopened.delegates .mainImage), fileDropView,
        ViewController.updateStates_mainImageURL]
    · rw [dropURL_qemu]
      rfl
    · rw [dropURL_qemu]
      exact fun vm hvm => by cases hvm
  have hpiled : w.Piled mainImage (0 + n) := hdrop.run n
  rw [Nat.zero_add] at hpiled
  exact ⟨hpiled.length, hpiled.alive⟩

end World

end ACVM
