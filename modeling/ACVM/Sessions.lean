import ACVM.Supervision

/-!
# Settings across sessions

The main image is kept three times, by its view, by the controller and in the defaults,
and the NIC options twice. Four handlers write them. An empty NIC text is kept as a
missing key, and a main image whose file is missing is passed over but not forgotten.

`Agrees` is the invariant that holds the copies together, over any number of sessions.
The defaults are two registers of the history: `mainImageFilePath` holds the main image
dropped last and `nicOptions` the text committed last, whichever session that was in.
What the next session starts with is read off them.

A path in the defaults comes back through `URL(fileURLWithPath:)`. That keeps the path of a
file URL (`URL.IsFilePath.path_eq`), but nothing in the code says that what was dropped has
one: a relative path comes back absolute (`relative_drop_disagrees`).
-/

namespace ACVM

/-- One event of a history of sessions: an event of the app, or the app is quit and,
after the disk has become what it has become, opened again. -/
inductive SessionEvent : Type where
  /-- an event of the running app -/
  | event : Event → SessionEvent
  /-- the app is quit, and opened on a disk -/
  | relaunch : Disk → SessionEvent

namespace World

/-- One event of a history of sessions. -/
def advance (w : World) : SessionEvent → World
  | .event e => w.step e
  | .relaunch disk => openApp w.defaults disk

/-- The world after a history of sessions. -/
abbrev history (w : World) (hs : List SessionEvent) : World := EventSystem.run advance w hs

/-! ## The copies agree -/

/-- The copies of the settings agree. -/
structure Agrees (c : ViewController) (defaults : UserDefaults) : Prop where
  /-- the main image on display is the controller's -/
  main : c.mainImage.contentURL = c.mainImageURL
  /-- the CD image on display is the controller's -/
  cd : c.cdImage.contentURL = c.cdImageURL
  /-- the path of the controller's main image is persisted, or it was made from the
  persisted path -/
  persisted : ∀ url, c.mainImageURL = some url →
    ∃ path, defaults.string Constants.mainImageFilePath = some path ∧
      (url.path = path ∨ url = URL.fileURLWithPath path)
  /-- the controller listens to both drop views -/
  delegates : ∀ view, (c.view view).delegate = true

/-- `updateStates` and the process slot have no part in it. -/
theorem Agrees.updateStates {c : ViewController} {defaults : UserDefaults} (h : Agrees c defaults)
    (process : Option ℕ) : Agrees { c with qemuProcess := process }.updateStates defaults where
  main := by simpa using h.main
  cd := by simpa using h.cd
  persisted := by simpa using h.persisted
  delegates := by
    intro view
    cases view with
    | mainImage => simpa [ViewController.view] using h.delegates .mainImage
    | cdImage => simpa [ViewController.view] using h.delegates .cdImage

/-- Nor have the other keys of the defaults. -/
theorem Agrees.of_string_eq {c : ViewController} {defaults defaults' : UserDefaults}
    (h : Agrees c defaults) (heq : defaults'.string Constants.mainImageFilePath =
      defaults.string Constants.mainImageFilePath) : Agrees c defaults' where
  main := h.main
  cd := h.cd
  persisted := by
    rw [heq]
    exact h.persisted
  delegates := h.delegates

/-- A drop on the main image sets all three copies, one on the CD image both. -/
theorem Agrees.dropURL {w : World} (h : Agrees w.controller w.defaults) (view : DropView)
    (url : URL) : Agrees (w.dropURL view url).controller (w.dropURL view url).defaults := by
  rw [World.dropURL, if_pos (h.delegates view)]
  cases view with
  | mainImage =>
    refine Agrees.updateStates (c := { w.controller with
      mainImage := w.controller.mainImage.setContentURL (some url)
      mainImageURL := some url }) ⟨?_, h.cd, ?_, ?_⟩ w.controller.qemuProcess
    · exact FileDropView.setContentURL_contentURL _ _
    · rintro url' hurl'
      obtain rfl := Option.some.inj hurl'
      exact ⟨url.path, UserDefaults.string_set_self .., Or.inl rfl⟩
    · intro view
      cases view with
      | mainImage => exact h.delegates .mainImage
      | cdImage => exact h.delegates .cdImage
  | cdImage =>
    refine Agrees.updateStates (c := { w.controller with
      cdImage := w.controller.cdImage.setContentURL (some url)
      cdImageURL := some url }) ⟨h.main, ?_, h.persisted, ?_⟩ w.controller.qemuProcess
    · exact FileDropView.setContentURL_contentURL _ _
    · intro view
      cases view with
      | mainImage => exact h.delegates .mainImage
      | cdImage => exact h.delegates .cdImage

/-- No event makes the copies disagree. -/
theorem Agrees.step {w : World} (h : Agrees w.controller w.defaults) (e : Event) :
    Agrees (w.step e).controller (w.step e).defaults := by
  refine step_rule (P := Agrees) e h (h.updateStates none) ?_ ?_ ?_ ?_ ?_ ?_
  · exact fun _ _ => (h.updateStates _).of_string_eq w.updateNICOptions_mainImageFilePath
  · exact fun view url => h.dropURL view url
  · intro field text _
    cases field <;> exact ⟨h.main, h.cd, h.persisted, h.delegates⟩
  · exact h.of_string_eq w.updateNICOptions_mainImageFilePath
  · exact fun _ => ⟨h.main, h.cd, h.persisted, h.delegates⟩
  · intro title
    rw [ViewController.onGraphicChange]
    split <;> exact ⟨h.main, h.cd, h.persisted, h.delegates⟩

/-- A session starts with the copies in agreement. -/
theorem agrees_openApp (defaults : UserDefaults) (disk : Disk) :
    Agrees (openApp defaults disk).controller (openApp defaults disk).defaults := by
  have h := opened defaults disk
  refine ⟨h.mainContentURL.trans h.mainImageURL.symm, h.cdContentURL.trans h.cdImageURL.symm, ?_,
    h.delegates⟩
  intro url hurl
  rw [h.mainImageURL, persistedImage] at hurl
  obtain ⟨path, hpath, rfl⟩ := Option.map_eq_some_iff.mp hurl
  obtain ⟨hpath, -⟩ := Option.filter_eq_some_iff.mp hpath
  exact ⟨path, hpath, Or.inr rfl⟩

theorem Agrees.advance {w : World} (h : Agrees w.controller w.defaults) (e : SessionEvent) :
    Agrees (w.advance e).controller (w.advance e).defaults := by
  cases e with
  | event e => exact h.step e
  | relaunch disk => exact agrees_openApp w.defaults disk

theorem agrees_history (disk : Disk) (hs : List SessionEvent) :
    Agrees ((openApp .empty disk).history hs).controller
      ((openApp .empty disk).history hs).defaults :=
  EventSystem.run_induction (I := fun w : World => Agrees w.controller w.defaults)
    (fun _ e h => h.advance e) hs (agrees_openApp .empty disk)

/-! ## What is dropped and committed -/

/-- The main image an event drops. -/
def mainDrop (w : World) : SessionEvent → Option URL
  | .event (.drag .mainImage s) => if w.crashed then none else s.dropped
  | _ => none

/-- The NIC text an event commits: at the end of editing, and at a tap that passes the
guards of a start. -/
def commit (w : World) : SessionEvent → Option String
  | .event .endEditing =>
    if w.crashed then none else some w.controller.nicOptionsTextField.stringValue
  | .event (.tap env) =>
    match w.crashed, w.controller.qemuProcess, env.efiURL, w.controller.mainImageURL with
    | false, none, some _, some _ => some w.controller.nicOptionsTextField.stringValue
    | _, _, _, _ => none
  | _ => none

/-- The main images dropped in a history, oldest first. -/
def mainDrops (w : World) (hs : List SessionEvent) : List URL :=
  EventSystem.log advance mainDrop w hs

/-- The NIC texts committed in a history, oldest first. -/
def commits (w : World) (hs : List SessionEvent) : List String :=
  EventSystem.log advance commit w hs

/-- **What an event writes to the defaults**: the path of the main image it drops, the
NIC text it commits, or nothing. -/
theorem defaults_cases {w : World} (hdelegates : ∀ view, (w.controller.view view).delegate = true)
    (e : Event) :
    (∃ url, w.mainDrop (.event e) = some url ∧ w.commit (.event e) = none ∧
      (w.step e).defaults = w.defaults.set url.path Constants.mainImageFilePath) ∨
    (w.mainDrop (.event e) = none ∧
      w.commit (.event e) = some w.controller.nicOptionsTextField.stringValue ∧
      (w.step e).defaults = w.updateNICOptions.defaults) ∨
    (w.mainDrop (.event e) = none ∧ w.commit (.event e) = none ∧
      (w.step e).defaults = w.defaults) := by
  have heffect := w.effect_step e
  generalize w.step e = w' at heffect ⊢
  cases heffect with
  | crash hcrash hslot _ => exact Or.inr (Or.inr ⟨rfl, by simp [commit, hcrash, hslot], rfl⟩)
  | stop hcrash hslot _ => exact Or.inr (Or.inr ⟨rfl, by simp [commit, hcrash, hslot], rfl⟩)
  | start hcrash hstarts =>
    refine Or.inr (Or.inl ⟨rfl, ?_, startVM_defaults ..⟩)
    simp [commit, hcrash, hstarts.1, hstarts.2.1, hstarts.2.2]
  | @reject env hcrash hslot hno =>
    refine Or.inr (Or.inr ⟨rfl, ?_, rfl⟩)
    rcases hefi : env.efiURL with _ | efiURL
    · simp [commit, hcrash, hslot, hefi]
    · rcases hmain : w.controller.mainImageURL with _ | mainImage
      · simp [commit, hcrash, hslot, hefi, hmain]
      · exact absurd ⟨hslot, hefi, hmain⟩ (hno efiURL mainImage)
  | @drop view s url hcrash hdropped =>
    rw [dropURL, if_pos (hdelegates view)]
    cases view with
    | mainImage => exact Or.inl ⟨url, by simp [mainDrop, hcrash, hdropped], rfl, rfl⟩
    | cdImage => exact Or.inr (Or.inr ⟨rfl, rfl, rfl⟩)
  | @pass view s hcrash hdropped =>
    refine Or.inr (Or.inr ⟨?_, rfl, rfl⟩)
    cases view with
    | mainImage => simp [mainDrop, hcrash, hdropped]
    | cdImage => rfl
  | endEditing hcrash => exact Or.inr (Or.inl ⟨rfl, by simp [commit, hcrash], rfl⟩)
  | @outside x => exact Or.inr (Or.inr ⟨rfl, rfl, outside_defaults w x⟩)
  | crashed hcrash _ =>
    refine Or.inr (Or.inr ⟨?_, ?_, rfl⟩)
    · cases e with
      | drag view s => cases view <;> simp [mainDrop, hcrash]
      | _ => rfl
    · cases e <;> simp [commit, hcrash]
  | _ => exact Or.inr (Or.inr ⟨rfl, rfl, rfl⟩)

/-- The persisted path is a register that holds the main image dropped last. -/
theorem mainImageFilePath_advance {w : World} (h : Agrees w.controller w.defaults)
    (e : SessionEvent) :
    (w.advance e).defaults.string Constants.mainImageFilePath =
      ((w.mainDrop e).map fun url => some url.path).getD
        (w.defaults.string Constants.mainImageFilePath) := by
  cases e with
  | relaunch disk => rfl
  | event e =>
    change (w.step e).defaults.string _ = _
    rcases defaults_cases h.delegates e with ⟨url, hdrop, -, heq⟩ | ⟨hdrop, -, heq⟩ |
      ⟨hdrop, -, heq⟩
    · rw [heq, hdrop, UserDefaults.string_set_self]
      rfl
    · rw [heq, hdrop, updateNICOptions_mainImageFilePath]
      rfl
    · rw [heq, hdrop]
      rfl

/-- The persisted NIC options are a register that holds the text committed last. -/
theorem nicOptions_advance {w : World} (h : Agrees w.controller w.defaults) (e : SessionEvent) :
    (w.advance e).defaults.string Constants.nicOptions =
      ((w.commit e).map fun text => if text = "" then none else some text).getD
        (w.defaults.string Constants.nicOptions) := by
  cases e with
  | relaunch disk => rfl
  | event e =>
    change (w.step e).defaults.string _ = _
    rcases defaults_cases h.delegates e with ⟨url, -, hcommit, heq⟩ | ⟨-, hcommit, heq⟩ |
      ⟨-, hcommit, heq⟩
    · rw [heq, hcommit, UserDefaults.string_set_of_ne _ Constants.nicOptions_ne]
      rfl
    · rw [heq, hcommit, updateNICOptions_nicOptions]
      rfl
    · rw [heq, hcommit]
      rfl

/-- After any history the persisted path is that of the main image dropped last. -/
theorem mainImageFilePath_history (disk : Disk) (hs : List SessionEvent) :
    ((openApp .empty disk).history hs).defaults.string Constants.mainImageFilePath =
      ((openApp .empty disk).mainDrops hs).getLast?.map URL.path := by
  have hregister : ((openApp .empty disk).history hs).defaults.string Constants.mainImageFilePath =
      (((openApp .empty disk).mainDrops hs).getLast?.map fun url => some url.path).getD none :=
    EventSystem.register_run (fun w : World => w.defaults.string Constants.mainImageFilePath)
      mainDrop (fun url => some url.path) (I := fun w => Agrees w.controller w.defaults)
      (fun _ e h => h.advance e) (fun _ e h => mainImageFilePath_advance h e) hs
      (agrees_history disk [])
  rw [hregister]
  rcases ((openApp .empty disk).mainDrops hs).getLast? with _ | url <;> rfl

/-- After any history the persisted NIC options are the text committed last, and are
missing if it was empty. -/
theorem nicOptions_history (disk : Disk) (hs : List SessionEvent) :
    (((openApp .empty disk).history hs).defaults.string Constants.nicOptions).getD "" =
      ((openApp .empty disk).commits hs).getLast?.getD "" := by
  have hregister : ((openApp .empty disk).history hs).defaults.string Constants.nicOptions =
      (((openApp .empty disk).commits hs).getLast?.map fun text =>
        if text = "" then none else some text).getD none :=
    EventSystem.register_run (fun w : World => w.defaults.string Constants.nicOptions)
      commit (fun text => if text = "" then none else some text)
      (I := fun w => Agrees w.controller w.defaults)
      (fun _ e h => h.advance e) (fun _ e h => nicOptions_advance h e) hs (agrees_history disk [])
  rw [hregister]
  rcases ((openApp .empty disk).commits hs).getLast? with _ | text
  · rfl
  · rw [Option.map_some, Option.getD_some, Option.getD_some]
    split
    · rename_i hempty
      rw [hempty]
      rfl
    · rfl

/-! ## The next session -/

/-- The main image the next session finds is made from the path of the one dropped last, if
its file exists. -/
theorem persistedImage_history (disk : Disk) (hs : List SessionEvent) (disk' : Disk) :
    persistedImage ((openApp .empty disk).history hs).defaults disk' =
      (((openApp .empty disk).mainDrops hs).getLast?.filter
        fun url => disk'.fileExists url.path).map fun url => URL.fileURLWithPath url.path := by
  rw [persistedImage, mainImageFilePath_history]
  rcases ((openApp .empty disk).mainDrops hs).getLast? with _ | url
  · rfl
  · cases hexists : disk'.fileExists url.path <;> simp [Option.filter, hexists]

/-- The main image has the path of the one dropped last, or is made from it; for the path of
a file URL that is the same. -/
theorem mainImageURL_history (disk : Disk) (hs : List SessionEvent) {url : URL}
    (hurl : ((openApp .empty disk).history hs).controller.mainImageURL = some url) :
    ∃ last, ((openApp .empty disk).mainDrops hs).getLast? = some last ∧
      ((openApp .empty disk).history hs).defaults.string Constants.mainImageFilePath =
        some last.path ∧
      (url.path = last.path ∨ url = URL.fileURLWithPath last.path) ∧
      (URL.IsFilePath last.path → url.path = last.path) := by
  obtain ⟨path, hpath, hfrom⟩ := (agrees_history disk hs).persisted url hurl
  have hdropped := mainImageFilePath_history disk hs
  rw [hpath] at hdropped
  obtain ⟨last, hlast, rfl⟩ := Option.map_eq_some_iff.mp hdropped.symm
  refine ⟨last, hlast, hpath, hfrom, fun hfile => ?_⟩
  rcases hfrom with hsame | hmade
  · exact hsame
  · rw [hmade, hfile.path_eq]

/-- Nothing but an edit changes the NIC text on display. -/
theorem nicText_step {w : World} {e : Event} (he : ∀ text, e ≠ .edit .nicOptions text) :
    (w.step e).controller.nicOptionsTextField.stringValue =
      w.controller.nicOptionsTextField.stringValue := by
  refine step_rule (P := fun c _ => c.nicOptionsTextField.stringValue =
    w.controller.nicOptionsTextField.stringValue) e rfl ?_ ?_ ?_ ?_ rfl ?_ ?_
  · simp
  · intro _ _
    simp
  · intro view url
    rw [dropURL]
    split <;> cases view <;> simp [fileDropView, ViewController.setView]
  · rintro field text rfl
    cases field with
    | nicOptions => exact absurd rfl (he text)
    | _ => rfl
  · exact fun _ => rfl
  · intro title
    rw [ViewController.onGraphicChange]
    split <;> rfl

theorem nicText_run {w : World} {es : List Event}
    (hes : ∀ e ∈ es, ∀ text, e ≠ .edit .nicOptions text) :
    (w.run es).controller.nicOptionsTextField.stringValue =
      w.controller.nicOptionsTextField.stringValue :=
  EventSystem.run_induction_mem
    (I := fun w' : World => w'.controller.nicOptionsTextField.stringValue =
      w.controller.nicOptionsTextField.stringValue)
    (fun _ _ he h => (nicText_step he).trans h) hes rfl

/-- The value of `-nic` follows the text of the field. -/
theorem head?_optionValues_nic (c : ViewController) (efiURL mainImage : URL) :
    (ViewController.optionValues "-nic" (c.arguments efiURL mainImage)).head? =
      some ("user,model=virtio" ++ if c.nicOptionsTextField.stringValue = "" then ""
        else "," ++ c.nicOptionsTextField.stringValue) := by
  have hnic : c.nicOptions = "user,model=virtio" ++
      if c.nicOptionsTextField.stringValue = "" then ""
      else "," ++ c.nicOptionsTextField.stringValue := by
    rw [ViewController.nicOptions]
    by_cases htext : c.nicOptionsTextField.stringValue = ""
    · simp [htext]
    · rw [if_pos (by simpa using htext), if_neg htext, String.append_assoc]
  rw [← hnic]
  simp [ViewController.arguments, ViewController.builtInArguments, ViewController.optionValues]

/-- **Shown, launched and persisted settings agree, within and across sessions.** After
any history of sessions the copies of the images agree, and the persisted path is that of
the main image dropped last, which is the main image's, up to `URL(fileURLWithPath:)`; the
next session opens with that path, in whichever session it was dropped, if its file exists,
and with the NIC text committed last; and a start without further edits passes that
text. -/
theorem sessions_agree (disk : Disk) (hs : List SessionEvent) :
    let first := openApp .empty disk
    let w := first.history hs
    (w.controller.mainImage.contentURL = w.controller.mainImageURL ∧
      w.controller.cdImage.contentURL = w.controller.cdImageURL ∧
      ∀ url, w.controller.mainImageURL = some url →
        ∃ last, (first.mainDrops hs).getLast? = some last ∧
          w.defaults.string Constants.mainImageFilePath = some last.path ∧
          (url.path = last.path ∨ url = URL.fileURLWithPath last.path) ∧
          (URL.IsFilePath last.path → url.path = last.path)) ∧
    ∀ disk', let next := w.advance (.relaunch disk')
      (∀ url, (first.mainDrops hs).getLast? = some url → disk'.fileExists url.path = true →
        next.controller.mainImageURL = some (URL.fileURLWithPath url.path) ∧
          (URL.IsFilePath url.path →
            next.controller.mainImageURL.map URL.path = some url.path) ∧
          next.controller.actionButton.isEnabled = true) ∧
      ((∀ url, (first.mainDrops hs).getLast? = some url → disk'.fileExists url.path = false) →
        next.controller.mainImageURL = none ∧
          next.controller.actionButton.isEnabled = false) ∧
      next.controller.nicOptionsTextField.stringValue = (first.commits hs).getLast?.getD "" ∧
      ∀ es, (∀ e ∈ es, ∀ text, e ≠ .edit .nicOptions text) → ∀ env efiURL mainImage,
        (next.run es).Starts env efiURL mainImage →
        ∃ vm, ((next.run es).didTapStartButton env).qemu[(next.run es).qemu.length]? = some vm ∧
          (ViewController.optionValues "-nic" vm.info.arguments).head? =
            some ("user,model=virtio" ++ if (first.commits hs).getLast?.getD "" = "" then ""
              else "," ++ (first.commits hs).getLast?.getD "") := by
  intro first w
  have hagrees : Agrees w.controller w.defaults := agrees_history disk hs
  refine ⟨⟨hagrees.main, hagrees.cd, fun url => mainImageURL_history disk hs⟩, fun disk' => ?_⟩
  intro next
  have hopened : Opened next.controller w.defaults disk' := opened w.defaults disk'
  have hmain : next.controller.mainImageURL = ((first.mainDrops hs).getLast?.filter
      fun url => disk'.fileExists url.path).map fun url => URL.fileURLWithPath url.path :=
    hopened.mainImageURL.trans (persistedImage_history disk hs disk')
  have hbutton : next.controller.actionButton.isEnabled = next.controller.mainImageURL.isSome := by
    rw [hopened.shown.1]
  have hnic : next.controller.nicOptionsTextField.stringValue =
      (first.commits hs).getLast?.getD "" :=
    hopened.nicOptions.trans (nicOptions_history disk hs)
  refine ⟨?_, ?_, hnic, ?_⟩
  · intro url hlast hexists
    have hsome : next.controller.mainImageURL = some (URL.fileURLWithPath url.path) := by
      rw [hmain, hlast, Option.filter_some, if_pos hexists, Option.map_some]
    refine ⟨hsome, fun hfile => ?_, by rw [hbutton, hsome]; rfl⟩
    rw [hsome, Option.map_some, hfile.path_eq]
  · intro hmissing
    have hnone : next.controller.mainImageURL = none := by
      rw [hmain, Option.map_eq_none_iff, Option.filter_eq_none_iff]
      exact fun url hlast => by simp [hmissing url hlast]
    exact ⟨hnone, by rw [hbutton, hnone]; rfl⟩
  · intro es hes env efiURL mainImage hstarts
    refine ⟨_, hstarts.launched, ?_⟩
    have harguments := head?_optionValues_nic (next.run es).controller efiURL mainImage
    rw [nicText_run hes, hnic] at harguments
    exact harguments

/-- A relative path is dropped, and comes back absolute: the main image of the second session
has another path than the one persisted, which is that of the image dropped. -/
theorem relative_drop_disagrees :
    let first := openApp .empty fun _ => none
    let foo : URL := ⟨"foo", some "foo"⟩
    let hs : List SessionEvent := [.event (.drag .mainImage (.carrying foo)),
      .relaunch fun path => if path = "/foo" then some 0 else none]
    let w := first.history hs
    (first.mainDrops hs).getLast? = some foo ∧
      w.controller.mainImageURL = some (URL.fileURLWithPath "/foo") ∧
      w.defaults.string Constants.mainImageFilePath = some "foo" ∧
      ¬ ∀ url, w.controller.mainImageURL = some url →
        w.defaults.string Constants.mainImageFilePath = some url.path := by
  intro first foo hs w
  have hmain : w.controller.mainImageURL = some (URL.fileURLWithPath "/foo") := by decide
  have hpersisted : w.defaults.string Constants.mainImageFilePath = some "foo" := rfl
  refine ⟨rfl, hmain, hpersisted, fun hagree => ?_⟩
  have hsame := hpersisted.symm.trans (hagree _ hmain)
  exact absurd (Option.some.inj hsame) (by decide)

end World

end ACVM
