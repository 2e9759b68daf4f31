import ACVM.Supervision

/-!
# The ledger of processes

The controller remembers one process at a time, and forgets it when it is told to stop or
has exited. What happened to all the others is still determined: here a run is compared
with the books one could keep of it.

Every process the controller ever made is in one of three of them, and in one only: it
was told to terminate, or its exit was handled while it was the current one, or it is the
current one; they pass through the slot in the order in which they were made
(`succession_run`). The processes themselves, `qemu-img` included, are the ones the starts of
the run called for, with the arguments of the settings at the time. And the exits that were
handled, by the current process or an earlier one, are those that were notified
(`exits_handled`).
-/

namespace ACVM

namespace World

/-! ## Entries -/

/-- The start an event makes, if it is a tap that passes the guards: what the outside
answers, the EFI image and the main image. -/
def startOf (w : World) : Event → Option (LaunchEnv × URL × URL)
  | .tap env =>
    match w.crashed, w.controller.qemuProcess, env.efiURL, w.controller.mainImageURL with
    | false, none, some efiURL, some mainImage => some (env, efiURL, mainImage)
    | _, _, _, _ => none
  | _ => none

/-- What the QEMU process of an event's start is made with. -/
def launch (w : World) (e : Event) : Option Launch :=
  (w.startOf e).map fun start => w.newLaunch start.2.1 start.2.2

/-- What the `qemu-img` process of an event's start is made with: there is one if the
start finds no variable store. -/
def creation (w : World) (e : Event) : Option (List String) :=
  (w.startOf e).bind fun start =>
    if w.disk.fileExists (ViewController.nvramURL start.2.2).path then none
    else some (ViewController.qi_arguments (ViewController.nvramURL start.2.2))

/-- The process that leaves the slot during an event. -/
def departure (w : World) (e : Event) : Option ℕ :=
  if (w.step e).controller.qemuProcess = w.controller.qemuProcess then none
  else w.controller.qemuProcess

/-- The process an event calls `terminate()` on, unless that raises. -/
def terminated (w : World) : Event → Option ℕ
  | .tap _ =>
    match w.crashed, w.controller.qemuProcess with
    | false, some process =>
      if Supervisor.NeverLaunched w.qemu process then none else some process
    | _, _ => none
  | _ => none

/-- The process whose exit an event reports to the controller while it is the current one. -/
def reported (w : World) : Event → Option ℕ
  | .notify process =>
    if w.crashed = false ∧ w.controller.qemuProcess = some process ∧
        (w.qemu[process]?.map Supervisor.Child.phase) = some .exited ∧ process ∈ w.observers then
      some process
    else none
  | _ => none

/-- The process for whose exit an event calls `processDidTerminate(_:)`. -/
def handled (w : World) : Event → Option ℕ
  | .notify process =>
    if w.crashed = false ∧ w.Unreported process ∧ process ∈ w.observers then some process else none
  | _ => none

theorem handled_eq_some {w : World} {e : Event} {process : ℕ} :
    w.handled e = some process ↔ w.Handles e process := by
  cases e with
  | notify process' =>
    simp only [handled, Handles, Event.notify.injEq]
    refine ⟨?_, ?_⟩
    · intro h
      split at h
      · obtain rfl := Option.some.inj h
        exact ⟨rfl, ‹_›⟩
      · cases h
    · rintro ⟨rfl, hcall⟩
      exact if_pos hcall
  | _ => simp [handled, Handles]

/-- An event makes process number `process`. -/
def Makes (w : World) (e : Event) (process : ℕ) : Prop :=
  w.qemu.length = process ∧ (w.step e).qemu.length = process + 1

theorem startOf_of_starts {w : World} {env : LaunchEnv} {efiURL mainImage : URL}
    (hcrash : w.crashed = false) (h : w.Starts env efiURL mainImage) :
    w.startOf (.tap env) = some (env, efiURL, mainImage) := by
  simp [startOf, hcrash, h.1, h.2.1, h.2.2]

theorem starts_of_startOf {w : World} {e : Event} {env : LaunchEnv} {efiURL mainImage : URL}
    (h : w.startOf e = some (env, efiURL, mainImage)) :
    e = .tap env ∧ w.crashed = false ∧ w.Starts env efiURL mainImage := by
  cases e with
  | tap env' =>
    rw [startOf] at h
    split at h
    · rename_i hcrash hslot hefi hmain
      obtain ⟨rfl, rfl, rfl⟩ := by simpa using h
      exact ⟨rfl, hcrash, hslot, hefi, hmain⟩
    · cases h
  | _ => cases h

/-! ## What one event enters -/

/-- What a `qemu-img` process was made with does not change. -/
theorem outside_arguments (w : World) (x : External) :
    (w.outside x).qemuImg.map QemuImg.arguments = w.qemuImg.map QemuImg.arguments := by
  cases x with
  | qemuExit p => rfl
  | diskChange path size => rfl
  | qemuImgStep i ok =>
    rw [outside]
    rcases himg : w.qemuImg[i]? with _ | img
    · rfl
    · obtain ⟨hlt, rfl⟩ := List.getElem?_eq_some_iff.mp himg
      have hmap : i < (w.qemuImg.map QemuImg.arguments).length := by simpa using hlt
      have hself := List.set_getElem_self hmap
      rw [List.getElem_map] at hself
      rw [List.map_set]
      exact hself

theorem outsideAll_arguments (w : World) (xs : List External) :
    (w.outsideAll xs).qemuImg.map QemuImg.arguments = w.qemuImg.map QemuImg.arguments := by
  induction xs generalizing w with
  | nil => rfl
  | cons x xs ih => rw [outsideAll_cons, ih, outside_arguments]

/-- A start fills an empty slot with the process it makes, and makes a `qemu-img` process
if there is no variable store. -/
theorem step_of_startOf {w : World} {e : Event} {env : LaunchEnv} {efiURL mainImage : URL}
    (h : w.startOf e = some (env, efiURL, mainImage)) :
    w.controller.qemuProcess = none ∧
      (w.step e).controller.qemuProcess = some w.qemu.length ∧
      (w.step e).qemu.map Supervisor.Child.info =
        w.qemu.map Supervisor.Child.info ++ [w.newLaunch efiURL mainImage] ∧
      (w.step e).qemu.map Supervisor.Child.asked =
        w.qemu.map Supervisor.Child.asked ++ [false] ∧
      (w.step e).qemuImg.map QemuImg.arguments =
        w.qemuImg.map QemuImg.arguments ++ (w.creation e).toList := by
  have hcreation : w.creation e =
      if w.disk.fileExists (ViewController.nvramURL mainImage).path then none
      else some (ViewController.qi_arguments (ViewController.nvramURL mainImage)) := by
    rw [creation, h, Option.bind_some]
  obtain ⟨rfl, hcrash, hstarts⟩ := starts_of_startOf h
  rw [hstarts.step hcrash]
  refine ⟨hstarts.1, ?_, ?_, ?_, ?_⟩
  · rw [startVM_controller, ViewController.updateStates_qemuProcess]
  · rw [startVM_qemu, Supervisor.map_info_spawn, Supervisor.map_info_foldl_exit]
  · rw [startVM_qemu, Supervisor.map_asked_spawn, Supervisor.map_asked_foldl_exit]
  · rw [startVM_qemuImg, afterGap, outsideAll_arguments, hcreation, createStore]
    cases hexists : w.disk.fileExists (ViewController.nvramURL mainImage).path <;>
      simp [runQemuImg]

/-- Any other event makes no process, and at most empties the slot. -/
theorem step_of_startOf_none {w : World} {e : Event} (h : w.startOf e = none) :
    ((w.step e).controller.qemuProcess = w.controller.qemuProcess ∨
        (w.step e).controller.qemuProcess = none) ∧
      (w.step e).qemu.map Supervisor.Child.info = w.qemu.map Supervisor.Child.info ∧
      (w.step e).qemuImg.map QemuImg.arguments = w.qemuImg.map QemuImg.arguments := by
  have heffect := w.effect_step e
  generalize w.step e = w' at heffect ⊢
  cases heffect with
  | stop _ _ _ => exact ⟨Or.inr (by simp), by simp, rfl⟩
  | start hcrash hstarts =>
    rw [startOf_of_starts hcrash hstarts] at h
    cases h
  | @drop view _ url _ _ =>
    refine ⟨Or.inl (by simp), by simp, ?_⟩
    rw [dropURL]
    split <;> cases view <;> rfl
  | @edit field _ _ => cases field <;> exact ⟨Or.inl rfl, rfl, rfl⟩
  | endEditing _ => exact ⟨Or.inl (by simp), by simp, by simp⟩
  | choose _ =>
    rw [ViewController.onGraphicChange]
    split <;> exact ⟨Or.inl rfl, rfl, rfl⟩
  | notifyHeld _ _ _ _ => exact ⟨Or.inr (by simp), by simp, rfl⟩
  | notifyOther _ _ _ => exact ⟨Or.inl rfl, by simp, rfl⟩
  | @outside x =>
    refine ⟨Or.inl (by simp), ?_, outside_arguments w x⟩
    rw [outside_qemu, Supervisor.map_info_foldl_exit]
  | _ => exact ⟨Or.inl rfl, rfl, rfl⟩

/-- Stop sets the flag of the process it calls `terminate()` on; any other event that
starts no VM leaves the flags alone. -/
theorem asked_of_startOf_none {w : World} {e : Event} (h : w.startOf e = none) :
    (w.step e).qemu.map Supervisor.Child.asked = match w.terminated e with
      | some process => (Supervisor.ask w.qemu process).map Supervisor.Child.asked
      | none => w.qemu.map Supervisor.Child.asked := by
  have heffect := w.effect_step e
  generalize w.step e = w' at heffect ⊢
  cases heffect with
  | crash hcrash hslot hnever => simp [terminated, hcrash, hslot, hnever]
  | stop hcrash hslot hnever => simp [terminated, hcrash, hslot, hnever]
  | start hcrash hstarts =>
    rw [startOf_of_starts hcrash hstarts] at h
    cases h
  | reject hcrash hslot _ => simp [terminated, hcrash, hslot]
  | drop _ _ => simp [terminated]
  | endEditing _ => simp [terminated]
  | notifyHeld _ _ _ _ => simp [terminated]
  | notifyOther _ _ _ => simp [terminated]
  | @outside x =>
    rw [outside_qemu, Supervisor.map_asked_foldl_exit]
    rfl
  | crashed hcrash _ => cases e <;> simp [terminated, hcrash]
  | _ => rfl

/-- A process leaves the slot by a call of `terminate()` or by the report of its exit. -/
theorem departure_eq (w : World) (e : Event) :
    w.departure e = (w.terminated e).or (w.reported e) := by
  have heffect := w.effect_step e
  rw [departure]
  generalize w.step e = w' at heffect ⊢
  cases heffect with
  | crash hcrash hslot hnever => simp [terminated, reported, hcrash, hslot, hnever]
  | stop hcrash hslot hnever => simp [terminated, reported, hcrash, hslot, hnever]
  | start hcrash hstarts => simp [terminated, reported, hcrash, hstarts.1]
  | reject hcrash hslot _ => simp [terminated, reported, hcrash, hslot]
  | @edit field _ _ => cases field <;> simp [terminated, reported, ViewController.edit]
  | choose _ =>
    rw [ViewController.onGraphicChange]
    split <;> simp [terminated, reported]
  | notifyHeld hcrash hexited hobserved hslot =>
    simp [terminated, reported, hcrash, hexited, hobserved, hslot]
  | @notifyOther process _ _ hslot =>
    have hreported : w.reported (.notify process) = none := by
      refine if_neg ?_
      rintro ⟨-, hheld, -, hobserved⟩
      exact hslot hobserved hheld
    rw [hreported]
    simp [terminated]
  | notifyNone hcrash hexited => simp [terminated, reported, hexited]
  | crashed hcrash _ => cases e <;> simp [terminated, reported, hcrash]
  | _ => simp [terminated, reported]

/-- Never both at once. -/
theorem terminated_or_reported (w : World) (e : Event) :
    w.terminated e = none ∨ w.reported e = none := by
  cases e with
  | tap env => exact Or.inr rfl
  | _ => exact Or.inl rfl

/-! ## The books of a run -/

theorem length_qemu_of_startOf_none {w : World} {e : Event} (h : w.startOf e = none) :
    (w.step e).qemu.length = w.qemu.length := by
  simpa using congrArg List.length (step_of_startOf_none h).2.1

theorem length_qemu_of_startOf {w : World} {e : Event} {env : LaunchEnv} {efiURL mainImage : URL}
    (h : w.startOf e = some (env, efiURL, mainImage)) :
    (w.step e).qemu.length = w.qemu.length + 1 := by
  simpa using congrArg List.length (step_of_startOf h).2.2.1

/-- One event hands the slot on, if at all, to the next process made. -/
theorem succession_step {w : World} {left : List ℕ}
    (h : left ++ w.controller.qemuProcess.toList = List.range w.qemu.length) (e : Event) :
    left ++ (w.departure e).toList ++ (w.step e).controller.qemuProcess.toList =
      List.range (w.step e).qemu.length := by
  rcases hstart : w.startOf e with _ | ⟨env, efiURL, mainImage⟩
  · rw [length_qemu_of_startOf_none hstart, ← h, List.append_assoc, departure]
    rcases (step_of_startOf_none hstart).1 with hslot | hslot
    · simp [hslot]
    · cases hheld : w.controller.qemuProcess <;> simp [hslot]
  · obtain ⟨hempty, hfilled, -⟩ := step_of_startOf hstart
    rw [hempty, Option.toList_none, List.append_nil] at h
    rw [length_qemu_of_startOf hstart, List.range_succ, ← h, departure, hfilled, hempty]
    simp

/-- The processes pass through the slot one after the other, in the order in which they
were made: those that have left it and the one in it are all there are. -/
theorem succession_run (defaults : UserDefaults) (disk : Disk) (es : List Event) :
    EventSystem.log step departure (openApp defaults disk) es ++
        ((openApp defaults disk).run es).controller.qemuProcess.toList =
      List.range ((openApp defaults disk).run es).qemu.length := by
  have hopen : [] ++ (openApp defaults disk).controller.qemuProcess.toList =
      List.range (openApp defaults disk).qemu.length := by
    rw [(opened defaults disk).qemuProcess]
    rfl
  exact EventSystem.log_induction
    (J := fun (w : World) left => left ++ w.controller.qemuProcess.toList =
      List.range w.qemu.length)
    (fun _ e _ h => succession_step h e) es hopen

/-- The flags of the processes say which of them were told to terminate. -/
structure Flagged (w : World) (asked : List ℕ) : Prop where
  /-- the invariant of the app -/
  supervised : w.Supervised
  /-- only processes that were made are in the book -/
  made : ∀ process ∈ asked, process < w.qemu.length
  /-- the flag of a process is set exactly when it is in the book -/
  flags : ∀ process vm, w.qemu[process]? = some vm → (vm.asked = true ↔ process ∈ asked)

theorem flagged_iff {w : World} {asked : List ℕ} :
    (∀ process vm, w.qemu[process]? = some vm → (vm.asked = true ↔ process ∈ asked)) ↔
      ∀ process flag, (w.qemu.map Supervisor.Child.asked)[process]? = some flag →
        (flag = true ↔ process ∈ asked) := by
  refine ⟨?_, ?_⟩
  · intro h process flag hflag
    rw [List.getElem?_map] at hflag
    obtain ⟨vm, hvm, rfl⟩ := Option.map_eq_some_iff.mp hflag
    exact h process vm hvm
  · intro h process vm hvm
    exact h process vm.asked (by rw [List.getElem?_map, hvm, Option.map_some])

/-- A call of `terminate()` sets one flag, that of the process in the slot. -/
theorem Flagged.asks {w : World} {asked : List ℕ} (h : w.Flagged asked) {e : Event}
    (hstart : w.startOf e = none) {current : ℕ} (hterm : w.terminated e = some current) :
    (w.step e).Flagged (asked ++ [current]) := by
  have hasked := asked_of_startOf_none hstart
  rw [hterm] at hasked
  have hslot : w.controller.qemuProcess = some current := by
    have hdeparture := departure_eq w e
    rw [hterm, Option.some_or, departure] at hdeparture
    split at hdeparture
    · cases hdeparture
    · exact hdeparture
  obtain ⟨vm, hvm, -, -⟩ := h.supervised.slot current hslot
  refine ⟨supervised_step h.supervised e, ?_, ?_⟩
  · intro process hmem
    rw [length_qemu_of_startOf_none hstart]
    rcases List.mem_append.mp hmem with hmem | hmem
    · exact h.made process hmem
    · obtain rfl := List.mem_singleton.mp hmem
      exact (List.getElem?_eq_some_iff.mp hvm).1
  · rw [flagged_iff, hasked]
    intro process flag hflag
    rw [Supervisor.getElem?_map_asked_ask] at hflag
    obtain ⟨old, hold, rfl⟩ := Option.map_eq_some_iff.mp hflag
    rw [Bool.or_eq_true, flagged_iff.mp h.flags process old hold, decide_eq_true_eq,
      List.mem_append, List.mem_singleton]
    exact or_congr_right eq_comm

/-- A start sets no flag. -/
theorem Flagged.starts {w : World} {asked : List ℕ} (h : w.Flagged asked) {e : Event}
    {start : LaunchEnv × URL × URL} (hstart : w.startOf e = some start) :
    (w.step e).Flagged asked := by
  obtain ⟨-, -, -, hasked, -⟩ := step_of_startOf hstart
  refine ⟨supervised_step h.supervised e, ?_, ?_⟩
  · intro process hmem
    rw [length_qemu_of_startOf hstart]
    exact Nat.lt_succ_of_lt (h.made process hmem)
  · rw [flagged_iff, hasked]
    intro process flag hflag
    rw [List.getElem?_append, List.length_map] at hflag
    split at hflag
    · exact flagged_iff.mp h.flags process flag hflag
    · -- the new process has a number of its own, which is not in the book
      rename_i hnew
      have hfalse : flag = false := by
        rw [List.getElem?_singleton] at hflag
        split at hflag <;> simp_all
      rw [hfalse]
      simpa using fun hmem => hnew (h.made process hmem)

theorem Flagged.step {w : World} {asked : List ℕ} (h : w.Flagged asked) (e : Event) :
    (w.step e).Flagged (asked ++ (w.terminated e).toList) := by
  rcases hstart : w.startOf e with _ | start
  · rcases hterm : w.terminated e with _ | current
    · have hasked := asked_of_startOf_none hstart
      rw [hterm] at hasked
      rw [Option.toList_none, List.append_nil]
      refine ⟨supervised_step h.supervised e, ?_, ?_⟩
      · rw [length_qemu_of_startOf_none hstart]
        exact h.made
      · rw [flagged_iff, hasked]
        exact flagged_iff.mp h.flags
    · exact h.asks hstart hterm
  · -- a tap that starts finds nothing in the slot to terminate
    obtain ⟨rfl, -, -⟩ := starts_of_startOf hstart
    obtain ⟨hempty, -⟩ := step_of_startOf hstart
    have hterm : w.terminated (.tap start.1) = none := by
      rw [terminated, hempty]
      split <;> simp_all
    rw [hterm, Option.toList_none, List.append_nil]
    exact h.starts hstart

/-- **Every process is accounted for, once.** The processes pass through the slot in the
order in which they were made, and each leaves it in one way: it is told to terminate, by
one call, or its exit is handled while it is the current one. The flags of the processes
tell which were told. -/
theorem processes_settled (defaults : UserDefaults) (disk : Disk) (es : List Event) :
    let first := openApp defaults disk
    let w := first.run es
    let left := EventSystem.log step departure first es
    let asked := EventSystem.log step terminated first es
    let seen := EventSystem.log step reported first es
    left ++ w.controller.qemuProcess.toList = List.range w.qemu.length ∧
      (asked ++ seen).Perm left ∧
      ∀ process vm, w.qemu[process]? = some vm → (vm.asked = true ↔ process ∈ asked) := by
  intro first w left asked seen
  have hopen : first.Flagged [] := by
    have hnone : first.qemu = [] := rfl
    refine ⟨supervised_openApp defaults disk, by simp, ?_⟩
    intro process vm hvm
    rw [hnone] at hvm
    cases hvm
  have hflagged : w.Flagged asked :=
    EventSystem.log_induction (J := Flagged) (fun _ e _ h => h.step e) es hopen
  have hways : left =
      EventSystem.log step (fun w e => (w.terminated e).or (w.reported e)) first es :=
    congrArg (fun write => EventSystem.log step write first es) (funext₂ departure_eq)
  refine ⟨succession_run defaults disk es, ?_, hflagged.flags⟩
  rw [hways]
  exact EventSystem.log_or_perm terminated_or_reported first es

/-- An event adds to the processes what its start calls for. -/
theorem made_step (w : World) (e : Event) :
    (w.step e).qemu.map Supervisor.Child.info =
        w.qemu.map Supervisor.Child.info ++ (w.launch e).toList ∧
      (w.step e).qemuImg.map QemuImg.arguments =
        w.qemuImg.map QemuImg.arguments ++ (w.creation e).toList := by
  rcases hstart : w.startOf e with _ | ⟨env, efiURL, mainImage⟩
  · obtain ⟨-, hinfo, hargs⟩ := step_of_startOf_none hstart
    simp [launch, creation, hstart, hinfo, hargs]
  · obtain ⟨-, -, hinfo, -, hargs⟩ := step_of_startOf hstart
    refine ⟨?_, hargs⟩
    rw [hinfo, launch, hstart]
    rfl

theorem infos_run (defaults : UserDefaults) (disk : Disk) (es : List Event) :
    ((openApp defaults disk).run es).qemu.map Supervisor.Child.info =
      EventSystem.log step launch (openApp defaults disk) es :=
  EventSystem.log_induction (J := fun (w : World) made => w.qemu.map Supervisor.Child.info = made)
    (fun w e made h => by rw [(made_step w e).1, h]) es rfl

/-- As many processes are made as starts call for. -/
theorem length_log_launch (defaults : UserDefaults) (disk : Disk) (es : List Event) :
    (EventSystem.log step launch (openApp defaults disk) es).length =
      ((openApp defaults disk).run es).qemu.length := by
  rw [← infos_run, List.length_map]

/-- Every process was made by a start of the run. -/
theorem exists_starts {defaults : UserDefaults} {disk : Disk} {es : List Event} {process : ℕ}
    {vm : Supervisor.Child Launch}
    (h : ((openApp defaults disk).run es).qemu[process]? = some vm) :
    ∃ before env after efiURL mainImage, es = before ++ .tap env :: after ∧
      ((openApp defaults disk).run before).Makes (.tap env) process ∧
      ((openApp defaults disk).run before).crashed = false ∧
      ((openApp defaults disk).run before).Starts env efiURL mainImage ∧
      vm.info = ((openApp defaults disk).run before).newLaunch efiURL mainImage := by
  have hinfo : (((openApp defaults disk).run es).qemu.map Supervisor.Child.info)[process]? =
      some vm.info := by
    rw [List.getElem?_map, h, Option.map_some]
  rw [infos_run] at hinfo
  obtain ⟨before, e, after, rfl, hlength, hlaunch⟩ := EventSystem.exists_of_getElem?_log hinfo
  rw [length_log_launch] at hlength
  obtain ⟨⟨env, efiURL, mainImage⟩, hstart, hmade⟩ := Option.map_eq_some_iff.mp hlaunch
  have hnext := length_qemu_of_startOf hstart
  rw [hlength] at hnext
  obtain ⟨rfl, hcrash, hstarts⟩ := starts_of_startOf hstart
  exact ⟨before, env, after, efiURL, mainImage, rfl, ⟨hlength, hnext⟩, hcrash, hstarts,
    hmade.symm⟩

/-- **What was launched.** The QEMU processes are those the starts of the run called for,
in order, each with the arguments of the settings at its tap; and so are the `qemu-img`
processes, one for each start that found no variable store. -/
theorem processes_launched (defaults : UserDefaults) (disk : Disk) (es : List Event) :
    let first := openApp defaults disk
    let w := first.run es
    w.qemu.map Supervisor.Child.info = EventSystem.log step launch first es ∧
      w.qemuImg.map QemuImg.arguments = EventSystem.log step creation first es := by
  intro first w
  refine ⟨infos_run defaults disk es, ?_⟩
  exact EventSystem.log_induction
    (J := fun (w : World) made => w.qemuImg.map QemuImg.arguments = made)
    (fun w e made h => by rw [(made_step w e).2, h]) es rfl

/-! ## The exits that were handled -/

/-- The book of the exits handled so far, beside the state. -/
structure Booked (w : World) (calls : List ℕ) : Prop where
  /-- every process is observed -/
  observed : w.Observed
  /-- no exit is in the book twice -/
  once : calls.Nodup
  /-- the book has the exits that were notified -/
  notified : ∀ process, process ∈ calls ↔ w.Notified process

theorem Booked.step {w : World} {calls : List ℕ} (h : w.Booked calls) (e : Event) :
    (w.step e).Booked (calls ++ (w.handled e).toList) := by
  refine ⟨observed_step h.observed e, ?_, ?_⟩
  · rcases hcall : w.handled e with _ | process
    · simpa using h.once
    · -- what is handled now is still owed, so it is not in the book
      obtain ⟨-, -, hexited, -⟩ := handled_eq_some.mp hcall
      have hnew : process ∉ calls := by
        rw [h.notified]
        intro hnotified
        cases hnotified.symm.trans hexited
      rw [Option.toList_some, List.nodup_append]
      refine ⟨h.once, List.pairwise_singleton _ _, ?_⟩
      rintro p hp q hq rfl
      obtain rfl := List.mem_singleton.mp hq
      exact hnew hp
  · intro process
    rw [notified_step h.observed, List.mem_append, h.notified, Option.mem_toList, handled_eq_some]

/-- **No exit is handled twice, and none is missed.** After every run the controller observes
the processes it has made, each once; and the calls of `processDidTerminate(_:)` were for
processes that differ from one another: those whose notification was posted. -/
theorem exits_handled (defaults : UserDefaults) (disk : Disk) (es : List Event) :
    let first := openApp defaults disk
    let w := first.run es
    let calls := EventSystem.log step handled first es
    w.observers = List.range w.qemu.length ∧ calls.Nodup ∧
      ∀ process, process ∈ calls ↔ w.Notified process := by
  intro first w calls
  have hopen : first.Booked [] := by
    refine ⟨observed_openApp defaults disk, List.nodup_nil, fun process => ?_⟩
    have hnone : first.qemu = [] := rfl
    simp [Notified, hnone]
  have hbooked : w.Booked calls :=
    EventSystem.log_induction (J := Booked) (fun _ e _ h => h.step e) es hopen
  exact ⟨hbooked.observed, hbooked.once, hbooked.notified⟩

end World

end ACVM
