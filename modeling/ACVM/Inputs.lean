import ACVM.Display
import ACVM.Relaunch

/-!
# From the inputs to the command line

Every text field and every image is a register as well: it holds what the user put into it
last, or what the session started with. With the two registers of the display that is
everything a command line is made from, so the command line of a VM can be read off the
inputs before its start (`launched_from_inputs`), whatever else has happened: VMs started,
stopped and exited, notifications, `qemu-img`, and drag sessions that came to nothing.
-/

namespace ACVM

namespace ViewController

/-- Typing into a field changes its text, and no other. -/
theorem field_edit (c : ViewController) (name name' : Field) (text : String) :
    ((c.edit name text).field name').stringValue =
      if name = name' then text else (c.field name').stringValue := by
  cases name <;> cases name' <;> rfl

/-- What there is of an image: the file on display, the file the controller has, and
whether the controller listens to the view. -/
def image (c : ViewController) : DropView → Option URL × Option URL × Bool
  | .mainImage => (c.mainImage.contentURL, c.mainImageURL, c.mainImage.delegate)
  | .cdImage => (c.cdImage.contentURL, c.cdImageURL, c.cdImage.delegate)

@[simp] theorem image_updateStates (c : ViewController) : c.updateStates.image = c.image := by
  rw [updateStates_eq]
  funext name
  cases name <;> rfl

@[simp] theorem image_edit (c : ViewController) (field : Field) (text : String) :
    (c.edit field text).image = c.image := by
  cases field <;> rfl

end ViewController

/-- The text an event types into a field. -/
def Event.entered (name : Field) : Event → Option String
  | .edit field text => if field = name then some text else none
  | _ => none

/-- The URL an event drops on a view. -/
def Event.dropped (name : DropView) : Event → Option URL
  | .drag view s => if view = name then s.dropped else none
  | _ => none

namespace World

/-! ## One step -/

/-- A field holds what an event types into it, and nothing else writes it. -/
theorem entered_step (name : Field) (w : World) (e : Event) :
    ((w.step e).controller.field name).stringValue =
      (w.live (Event.entered name) e).getD (w.controller.field name).stringValue := by
  -- `updateStates` enables and disables the fields, and leaves their texts
  have hupdate : ∀ c : ViewController,
      (c.updateStates.field name).stringValue = (c.field name).stringValue := by
    intro c
    rw [ViewController.updateStates_eq]
    cases name <;> rfl
  have heffect := w.effect_step e
  generalize w.step e = w' at heffect ⊢
  cases heffect with
  | stop _ _ _ =>
    simp only [live, Event.entered, ite_self, Option.getD_none, hupdate]
    cases name <;> rfl
  | start _ _ =>
    simp only [live, Event.entered, ite_self, Option.getD_none, startVM_controller, hupdate]
    cases name <;> rfl
  | @drop view _ url _ _ =>
    simp only [live, Event.entered, ite_self, Option.getD_none, dropURL]
    split
    · cases view <;> exact (hupdate _).trans (by cases name <;> rfl)
    · cases view <;> cases name <;> rfl
  | @edit field text hcrash =>
    rw [live, hcrash, Event.entered, ViewController.field_edit]
    by_cases hfield : field = name <;> simp [hfield]
  | choose _ =>
    simp only [live, Event.entered, ite_self, Option.getD_none, ViewController.onGraphicChange_eq]
    cases name <;> rfl
  | check _ =>
    simp only [live, Event.entered, ite_self, Option.getD_none]
    cases name <;> rfl
  | notifyHeld _ _ _ _ =>
    simp only [live, Event.entered, ite_self, Option.getD_none, hupdate]
    cases name <;> rfl
  | crashed hcrash _ => simp [live, hcrash]
  | _ => simp [live, Event.entered]

/-- An image is the file an event drops on its view, and nothing else changes it. -/
theorem dropped_step (name : DropView) {w : World}
    (hlistens : ∀ name, (w.controller.image name).2.2 = true) (e : Event) :
    (w.step e).controller.image name =
      ((w.live (Event.dropped name) e).map fun url => (some url, some url, true)).getD
        (w.controller.image name) := by
  have heffect := w.effect_step e
  generalize w.step e = w' at heffect ⊢
  cases heffect with
  | stop _ _ _ =>
    simp only [live, Event.dropped, ite_self, Option.map_none, Option.getD_none,
      ViewController.image_updateStates]
    cases name <;> rfl
  | start _ _ =>
    simp only [live, Event.dropped, ite_self, Option.map_none, Option.getD_none,
      startVM_controller, ViewController.image_updateStates]
    cases name <;> rfl
  | @drop view s url hcrash hdropped =>
    have hdelegate : (w.controller.view view).delegate = true := by
      have hview := hlistens view
      cases view <;> exact hview
    have hthis : w.live (Event.dropped name) (.drag view s) =
        if view = name then some url else none := by
      simp [live, Event.dropped, hcrash, hdropped]
    rw [dropURL, if_pos hdelegate, hthis]
    -- `fileDropView` takes the file over for its own view, and leaves the other one alone
    cases view with
    | mainImage =>
      rw [fileDropView, ViewController.image_updateStates]
      cases name with
      | mainImage => exact Prod.ext rfl (Prod.ext rfl hdelegate)
      | cdImage => rfl
    | cdImage =>
      rw [fileDropView, ViewController.image_updateStates]
      cases name with
      | mainImage => rfl
      | cdImage => exact Prod.ext rfl (Prod.ext rfl hdelegate)
  | pass _ hdropped => simp [live, Event.dropped, hdropped]
  | edit _ => simp [live, Event.dropped]
  | choose _ =>
    simp only [live, Event.dropped, ite_self, Option.map_none, Option.getD_none,
      ViewController.onGraphicChange_eq]
    cases name <;> rfl
  | check _ =>
    simp only [live, Event.dropped, ite_self, Option.map_none, Option.getD_none]
    cases name <;> rfl
  | notifyHeld _ _ _ _ =>
    simp only [live, Event.dropped, ite_self, Option.map_none, Option.getD_none,
      ViewController.image_updateStates]
    cases name <;> rfl
  | crashed hcrash _ => simp [live, hcrash]
  | _ => simp [live, Event.dropped]

/-- The controller goes on listening to its views. -/
theorem listens_step {w : World} (h : ∀ name, (w.controller.image name).2.2 = true) (e : Event) :
    ∀ name, ((w.step e).controller.image name).2.2 = true := by
  intro name
  rw [dropped_step name h]
  rcases w.live (Event.dropped name) e with _ | url
  · exact h name
  · rfl

/-! ## Whole runs -/

/-- The window with the last inputs of some events filled in, over what a session starts
with. -/
def filledIn (defaults : UserDefaults) (disk : Disk) (es : List Event) : ViewController :=
  let text := fun name => (es.filterMap (Event.entered name)).getLast?
  { ViewController.storyboard with
    cpuTextField := ⟨(text .cpu).getD "", true⟩
    ramTextField := ⟨(text .ram).getD "", true⟩
    nicOptionsTextField :=
      ⟨(text .nicOptions).getD ((defaults.string Constants.nicOptions).getD ""), true⟩
    otherArgumentsTextField := ⟨(text .otherArguments).getD "", true⟩
    graphicPopupButton := ⟨some ((es.filterMap Event.chosen).getLast?.getD "ramfb"), true⟩
    unhideMousePointer := ⟨(es.filterMap Event.pointed).getLast?.getD .off, true⟩
    mainImageURL := (es.filterMap (Event.dropped .mainImage)).getLast?.or
      (persistedImage defaults disk)
    cdImageURL := (es.filterMap (Event.dropped .cdImage)).getLast? }

section FilledIn

variable {defaults : UserDefaults} {disk : Disk} {es : List Event}
  (hcrash : ((openApp defaults disk).run es).crashed = false)

include hcrash

theorem field_run (name : Field) :
    (((openApp defaults disk).run es).controller.field name).stringValue =
      (es.filterMap (Event.entered name)).getLast?.getD
        ((openApp defaults disk).controller.field name).stringValue := by
  rw [← log_live hcrash]
  exact register_live (fun w => (w.controller.field name).stringValue) (entered_step name) _ es

theorem image_run (name : DropView) :
    (((openApp defaults disk).run es).controller.image name).2.1 =
      (es.filterMap (Event.dropped name)).getLast?.or
        ((openApp defaults disk).controller.image name).2.1 := by
  have hopen : ∀ name, ((openApp defaults disk).controller.image name).2.2 = true := by
    intro name
    rw [controller_openApp]
    cases name <;> rfl
  have hregister := EventSystem.register_run (fun w : World => w.controller.image name)
    (live (Event.dropped name)) (fun url => (some url, some url, true))
    (I := fun w : World => ∀ name, (w.controller.image name).2.2 = true)
    (fun _ e h => listens_step h e) (fun _ e h => dropped_step name h e) es hopen
  rw [log_live hcrash] at hregister
  have himage := congrArg (fun image => image.2.1) hregister
  rw [himage]
  rcases (es.filterMap (Event.dropped name)).getLast? with _ | url <;> rfl

/-- As long as the app goes on, the window is the one with the last inputs filled in. -/
theorem typed_run :
    ((openApp defaults disk).run es).controller.typed = (filledIn defaults disk es).typed := by
  obtain ⟨hadaptor, hpointer⟩ := display_openApp defaults disk
  refine Prod.ext (funext fun name => ?_) (Prod.ext ?_ ?_)
  · change (((openApp defaults disk).run es).controller.field name).stringValue = _
    rw [field_run hcrash, controller_openApp]
    cases name <;> rfl
  · change ((openApp defaults disk).run es).controller.displayAdaptor = _
    rw [register_live (fun w => w.controller.displayAdaptor) (fun w e => (display_step w e).1),
      log_live hcrash, hadaptor]
    rfl
  · change ((openApp defaults disk).run es).controller.unhideMousePointer.state = _
    rw [register_live (fun w => w.controller.unhideMousePointer.state)
      (fun w e => (display_step w e).2), log_live hcrash, hpointer]
    rfl

theorem images_run :
    ((openApp defaults disk).run es).controller.mainImageURL =
        (filledIn defaults disk es).mainImageURL ∧
      ((openApp defaults disk).run es).controller.cdImageURL =
        (filledIn defaults disk es).cdImageURL := by
  have hmain := image_run hcrash .mainImage
  have hcd := image_run hcrash .cdImage
  rw [controller_openApp] at hmain hcd
  refine ⟨hmain, hcd.trans ?_⟩
  exact Option.or_none

end FilledIn

/-- **From the inputs to the command line.** Every VM of a run was made by a tap of it, and
its arguments are those of the window with the last inputs before the tap that made it filled
in: the last text typed into each field, the last adaptor chosen, the last click or choice
for the check box, and the last file dropped on each view. -/
theorem launched_from_inputs (defaults : UserDefaults) (disk : Disk) (es : List Event) :
    let first := openApp defaults disk
    ∀ process vm, (first.run es).qemu[process]? = some vm →
      ∃ before env after efiURL mainImage, es = before ++ .tap env :: after ∧
        (first.run before).Makes (.tap env) process ∧ env.efiURL = some efiURL ∧
        (filledIn defaults disk before).mainImageURL = some mainImage ∧
        vm.info.mainImage = mainImage ∧
        vm.info.arguments = (filledIn defaults disk before).arguments efiURL mainImage := by
  intro first process vm hvm
  obtain ⟨before, env, after, efiURL, mainImage, rfl, hmakes, hcrash, hstarts, hinfo⟩ :=
    exists_starts hvm
  obtain ⟨hmain, hcd⟩ := images_run hcrash
  refine ⟨before, env, after, efiURL, mainImage, rfl, hmakes, hstarts.2.1, ?_, ?_, ?_⟩
  · rw [← hmain]
    exact hstarts.2.2
  · rw [hinfo]
    rfl
  · rw [hinfo]
    exact ViewController.arguments_of_typed (typed_run hcrash) hcd efiURL mainImage

/-- The second of two VMs, whose RAM size was typed after the first was stopped. -/
theorem launched_from_inputs_example :
    let first := openApp .empty fun _ => none
    let es : List Event := [.edit .ram "2G",
      .drag .mainImage (.carrying (URL.fileURLWithPath "/vm.img")), .tap .smooth, .tap .smooth,
      .edit .ram "8G", .tap .smooth]
    ∃ vm, (first.run es).qemu[1]? = some vm ∧ ∃ before env after efiURL mainImage,
      es = before ++ .tap env :: after ∧ (first.run before).Makes (.tap env) 1 ∧
        env.efiURL = some efiURL ∧
        (filledIn .empty (fun _ => none) before).mainImageURL = some mainImage ∧
        vm.info.mainImage = mainImage ∧ vm.info.arguments =
          (filledIn .empty (fun _ => none) before).arguments efiURL mainImage := by
  intro first es
  have hlength : 1 < (first.run es).qemu.length := by decide
  have hvm := List.getElem?_eq_getElem hlength
  exact ⟨_, hvm, launched_from_inputs .empty (fun _ => none) es 1 _ hvm⟩

end World

end ACVM
