import ACVM.Sessions

/-!
# Is the configuration frozen while a VM is current?

`updateStates` disables the inputs while a process is held, the drop views among them.
But a drop does not come in through `isEnabled`: AppKit asks the view's own dragging
methods, and none of them looks at the flag. So a file dropped on a running VM replaces
the image on display, the controller's, and the persisted one.

What remains is exact: the settings are those of the current VM's launch as long as,
while one is held, every drop is of the file that is already there, and no longer
(`frozen_step_iff`). On the main view the file has to be there twice, on display and in the
defaults: the two differ after a relative path has come back absolute.
-/

namespace ACVM

namespace World

/-- The settings are those the current VM was launched with. -/
def Frozen (w : World) : Prop :=
  ∀ process vm, w.controller.qemuProcess = some process → w.qemu[process]? = some vm →
    vm.info.configuration = w.configuration

/-- A view shows a file, which on the main view is also the one persisted. -/
def Shows (w : World) (view : DropView) (url : URL) : Prop :=
  (w.controller.view view).contentURL = some url ∧
    (view = .mainImage → w.defaults.string Constants.mainImageFilePath = some url.path)

/-- While a process is held, a drag session carries through no other file than the one
its view shows. -/
def DropsShown (w : World) : SessionEvent → Prop
  | .event (.drag view s) => w.crashed = false → w.controller.qemuProcess ≠ none →
    ∀ url, s.dropped = some url → w.Shows view url
  | _ => True

/-- A drop changes nothing of the settings exactly when its file is the one shown. -/
theorem dropURL_configuration_iff {w : World} (h : Agrees w.controller w.defaults)
    (view : DropView) (url : URL) :
    (w.dropURL view url).configuration = w.configuration ↔ w.Shows view url := by
  rw [dropURL, if_pos (h.delegates view)]
  cases view with
  | mainImage =>
    refine ⟨?_, ?_⟩
    · intro heq
      have hcontent := congrArg Configuration.mainContentURL heq
      have hpersisted := congrArg Configuration.mainImageFilePath heq
      refine ⟨?_, fun _ => ?_⟩
      · change w.controller.mainImage.contentURL = some url
        simpa [configuration, fileDropView, ViewController.setView, eq_comm] using hcontent
      · simpa [configuration, fileDropView, ViewController.setView, eq_comm] using hpersisted
    · rintro ⟨hcontent, hpersisted⟩
      have hmain : w.controller.mainImageURL = some url := h.main.symm.trans hcontent
      have hcontent' : w.controller.mainImage.contentURL = some url := hcontent
      simp [configuration, fileDropView, ViewController.setView, hmain, hcontent', hpersisted rfl]
  | cdImage =>
    refine ⟨?_, ?_⟩
    · intro heq
      have hcontent := congrArg Configuration.cdContentURL heq
      refine ⟨?_, fun hview => by cases hview⟩
      change w.controller.cdImage.contentURL = some url
      simpa [configuration, fileDropView, ViewController.setView, eq_comm] using hcontent
    · rintro ⟨hcontent, -⟩
      have hcd : w.controller.cdImageURL = some url := h.cd.symm.trans hcontent
      have hcontent' : w.controller.cdImage.contentURL = some url := hcontent
      simp [configuration, fileDropView, ViewController.setView, hcd, hcontent']

/-- **Where the process in the slot comes from**: a start puts a new one there; any other
event leaves the old one, and the settings too unless a drop is carried through. -/
theorem slot_cases {w : World} {e : Event} {process : ℕ}
    (h : (w.step e).controller.qemuProcess = some process) :
    (∃ env efiURL mainImage, e = .tap env ∧ w.crashed = false ∧ w.Starts env efiURL mainImage ∧
      process = w.qemu.length) ∨
    (w.controller.qemuProcess = some process ∧
      ((∃ view s url, e = .drag view s ∧ w.crashed = false ∧ s.dropped = some url) ∨
        (w.step e).configuration = w.configuration)) := by
  have heffect := w.effect_step e
  generalize w.step e = w' at heffect h ⊢
  cases heffect with
  | stop _ _ _ => simp at h
  | @start env efiURL mainImage hcrash hstarts =>
    rw [startVM_controller, ViewController.updateStates_qemuProcess] at h
    exact Or.inl ⟨env, efiURL, mainImage, rfl, hcrash, hstarts, (Option.some.inj h).symm⟩
  | @drop view s url hcrash hdropped =>
    rw [dropURL_qemuProcess] at h
    exact Or.inr ⟨h, Or.inl ⟨view, s, url, rfl, hcrash, hdropped⟩⟩
  | @edit field _ _ => cases field <;> exact Or.inr ⟨h, Or.inr rfl⟩
  | endEditing _ =>
    rw [updateNICOptions_controller] at h
    exact Or.inr ⟨h, Or.inr (by simp [configuration])⟩
  | choose _ =>
    rw [ViewController.onGraphicChange] at h ⊢
    split at h <;> rename_i hramfb
    · exact Or.inr ⟨h, Or.inr (by rw [if_pos hramfb]; rfl)⟩
    · exact Or.inr ⟨h, Or.inr (by rw [if_neg hramfb]; rfl)⟩
  | notifyHeld _ _ _ _ => simp at h
  | outside =>
    rw [outside_controller] at h
    exact Or.inr ⟨h, Or.inr (by simp [configuration])⟩
  | _ => exact Or.inr ⟨h, Or.inr rfl⟩

/-- What a process was launched with never changes. -/
theorem info_step {w : World} (hobserved : w.Observed) {e : Event} {process : ℕ}
    {vm vm' : Supervisor.Child Launch} (hvm : w.qemu[process]? = some vm)
    (hvm' : (w.step e).qemu[process]? = some vm') :
    vm'.info = vm.info := by
  have hprefix := Supervisor.infos_run w.supervisor (w.moves e)
  rw [← supervisor_step hobserved] at hprefix
  change w.qemu.map Supervisor.Child.info <+: (w.step e).qemu.map Supervisor.Child.info at hprefix
  obtain ⟨new, hnew⟩ := hprefix
  have hinfo : (w.qemu.map Supervisor.Child.info ++ new)[process]? = some vm.info := by
    rw [List.getElem?_append_left, List.getElem?_map, hvm]
    · rfl
    · rw [List.length_map]
      exact (List.getElem?_eq_some_iff.mp hvm).1
  rw [hnew, List.getElem?_map, hvm'] at hinfo
  exact Option.some.inj hinfo

/-- **One step**: while the settings are those of the launch, an event keeps them so
exactly when it drops no other file on a running VM. -/
theorem frozen_step_iff {w : World} (hagrees : Agrees w.controller w.defaults)
    (hsupervised : w.Supervised) (hfrozen : w.Frozen) (e : SessionEvent) :
    (w.advance e).Frozen ↔ w.DropsShown e := by
  cases e with
  | relaunch disk =>
    refine ⟨fun _ => trivial, fun _ process vm hslot => ?_⟩
    have hempty := (opened w.defaults disk).qemuProcess
    cases hempty.symm.trans hslot
  | event e =>
    refine ⟨?_, ?_⟩
    · intro hnext
      cases e with
      | drag view s =>
        intro hcrash hheld url hdropped
        obtain ⟨process, hslot⟩ := Option.ne_none_iff_exists'.mp hheld
        obtain ⟨vm, hvm, -, -⟩ := hsupervised.slot process hslot
        have hstep : w.advance (.event (.drag view s)) = w.dropURL view url :=
          step_of_dropped hcrash hdropped view
        rw [hstep] at hnext
        have hafter := hnext process vm (by rw [dropURL_qemuProcess]; exact hslot)
          (by rw [dropURL_qemu]; exact hvm)
        have hbefore := hfrozen process vm hslot hvm
        exact (dropURL_configuration_iff hagrees view url).mp (hafter.symm.trans hbefore)
      | _ => exact trivial
    · intro hdrops process vm hslot hvm
      change (w.step e).controller.qemuProcess = some process at hslot
      change (w.step e).qemu[process]? = some vm at hvm
      change vm.info.configuration = (w.step e).configuration
      rcases slot_cases hslot with ⟨env, efiURL, mainImage, rfl, hcrash, hstarts, rfl⟩ |
        ⟨hheld, hcase⟩
      · -- a new VM: its launch recorded the settings, and the start changes none of them
        rw [hstarts.step hcrash, ← hstarts.didTapStartButton, hstarts.launched] at hvm
        obtain rfl := Option.some.inj hvm
        rw [hstarts.step hcrash]
        simp [newLaunch, configuration]
      · obtain ⟨vm₀, hvm₀, -, -⟩ := hsupervised.slot process hheld
        rw [info_step hsupervised.observed hvm₀ hvm, hfrozen process vm₀ hheld hvm₀]
        rcases hcase with ⟨view, s, url, rfl, hcrash, hdropped⟩ | hsame
        · have hstep : w.step (.drag view s) = w.dropURL view url :=
            step_of_dropped hcrash hdropped view
          have hshown := hdrops hcrash (by rw [hheld]; simp) url hdropped
          rw [hstep, (dropURL_configuration_iff hagrees view url).mpr hshown]
        · exact hsame.symm

theorem supervised_advance {w : World} (h : w.Supervised) (e : SessionEvent) :
    (w.advance e).Supervised := by
  cases e with
  | event e => exact supervised_step h e
  | relaunch disk => exact supervised_openApp w.defaults disk

/-- **The configuration is frozen, exactly**: in every state of a history of sessions the
settings are those the current VM was launched with, if and only if no drop on a running
VM is of another file than the one shown. -/
theorem frozen_iff (disk : Disk) (hs : List SessionEvent) :
    EventSystem.Always advance Frozen (openApp .empty disk) hs ↔
      EventSystem.Along advance DropsShown (openApp .empty disk) hs := by
  refine EventSystem.always_iff_along
    (I := fun w => Agrees w.controller w.defaults ∧ w.Supervised) ?_ ?_
    ⟨agrees_history disk [], supervised_openApp .empty disk⟩ ?_ hs
  · rintro w e ⟨hagrees, hsupervised⟩ hfrozen
    exact frozen_step_iff hagrees hsupervised hfrozen e
  · rintro w e ⟨hagrees, hsupervised⟩ - -
    exact ⟨hagrees.advance e, supervised_advance hsupervised e⟩
  · intro process vm hslot
    rw [(opened .empty disk).qemuProcess] at hslot
    cases hslot

/-- A file dropped on a running VM replaces all copies of its main image. -/
theorem drop_while_running :
    let running := (openApp .empty fun _ => none).run
      [.drag .mainImage (.carrying (URL.fileURLWithPath "/vm.img")), .tap .smooth]
    let dropped := running.step (.drag .mainImage (.carrying (URL.fileURLWithPath "/other.img")))
    running.controller.qemuProcess = some 0 ∧ dropped.controller.qemuProcess = some 0 ∧
      running.controller.mainImage.isEnabled = false ∧
      running.Frozen ∧ ¬ dropped.Frozen ∧
      dropped.controller.mainImageURL ≠ running.controller.mainImageURL ∧
      dropped.controller.mainImage.contentURL ≠ running.controller.mainImage.contentURL ∧
      dropped.defaults.string Constants.mainImageFilePath ≠
        running.defaults.string Constants.mainImageFilePath := by
  intro running dropped
  have hmain : dropped.controller.mainImageURL ≠ running.controller.mainImageURL := by decide
  refine ⟨rfl, rfl, rfl, ?_, ?_, hmain, by decide, by decide⟩
  · intro process vm hslot hvm
    obtain rfl : 0 = process := Option.some.inj hslot
    obtain rfl := Option.some.inj hvm
    rfl
  · intro hfrozen
    have hsame := hfrozen 0 _ rfl rfl
    exact hmain (congrArg Configuration.mainImageURL hsame).symm

end World

end ACVM
