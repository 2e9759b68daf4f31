import ACVM.Sessions

/-!
# What survives a quit

The app is rebuilt from its defaults and the disk. `defaults_history` says what a history of
sessions leaves in the defaults: the path of the main image dropped last and the NIC text
committed last, and nothing else. So two histories in which these two are the same cannot be
told apart from then on, and any other two can (`relaunch_iff`).

What comes back is the path, through `URL(fileURLWithPath:)`: a file URL is the same again
(`URL.fileURLWithPath_path`), and a relative path has become absolute.
-/

namespace ACVM

/-- The controller and its window when the app has been opened, with a main image or
without, and with a NIC text. -/
def ViewController.fresh (mainImageURL : Option URL) (nicOptions : String) : ViewController :=
  { storyboard with
    mainImageURL := mainImageURL
    mainImage := { FileDropView.storyboard.setContentURL mainImageURL with delegate := true }
    cdImage := { FileDropView.storyboard with delegate := true }
    nicOptionsTextField := ⟨nicOptions, true⟩
    actionButton := ⟨"Start", mainImageURL.isSome⟩ }

/-- The defaults with the path of a main image persisted, or without, and with a NIC
text. -/
def UserDefaults.persisted (mainImageFilePath : Option String) (nicOptions : String) :
    UserDefaults :=
  fun key =>
    if key = Constants.mainImageFilePath then mainImageFilePath
    else if key = Constants.nicOptions then if nicOptions = "" then none else some nicOptions
    else none

namespace World

/-! ## The window of the next session -/

/-- `viewDidLoad` leaves everything but the persisted settings as the storyboard has it. -/
theorem controller_openApp (defaults : UserDefaults) (disk : Disk) :
    (openApp defaults disk).controller = ViewController.fresh (persistedImage defaults disk)
      ((defaults.string Constants.nicOptions).getD "") := by
  change ((ViewController.storyboard.restoreMainImage defaults disk).restoreNICOptions
    defaults).updateStates.becomeDelegate = _
  rw [restoreNICOptions_eq, restoreMainImage_eq]
  rcases persistedImage defaults disk with _ | url <;> rfl

/-! ## The defaults of a history -/

/-- No event writes to another key of the defaults. -/
theorem string_step {w : World} {key : String} (hmain : key ≠ Constants.mainImageFilePath)
    (hnic : key ≠ Constants.nicOptions) (e : Event) :
    (w.step e).defaults.string key = w.defaults.string key := by
  have hcommit : w.updateNICOptions.defaults.string key = w.defaults.string key := by
    rw [updateNICOptions]
    split
    · exact UserDefaults.string_removeObject_of_ne _ hnic
    · exact UserDefaults.string_set_of_ne _ hnic _
  refine step_rule (P := fun _ d => d.string key = w.defaults.string key) e rfl rfl
    (fun _ _ => hcommit) ?_ (fun _ _ _ => rfl) hcommit (fun _ => rfl) (fun _ => rfl)
  intro view url
  rw [dropURL]
  split
  · cases view with
    | mainImage => exact UserDefaults.string_set_of_ne _ hmain _
    | cdImage => rfl
  · rfl

/-- The app keeps to its keys: over any history of sessions the other keys of the defaults
hold what they held. -/
theorem string_history {key : String} (hmain : key ≠ Constants.mainImageFilePath)
    (hnic : key ≠ Constants.nicOptions) (w : World) (hs : List SessionEvent) :
    (w.history hs).defaults.string key = w.defaults.string key := by
  refine EventSystem.run_induction
    (I := fun w' : World => w'.defaults.string key = w.defaults.string key) ?_ hs rfl
  intro w' e h
  cases e with
  | event e => exact (string_step hmain hnic e).trans h
  | relaunch disk => exact h

/-- An empty NIC text is not persisted. -/
theorem nicOptions_ne_empty (disk : Disk) (hs : List SessionEvent) :
    ((openApp .empty disk).history hs).defaults.string Constants.nicOptions ≠ some "" := by
  refine EventSystem.run_induction
    (I := fun w : World => w.defaults.string Constants.nicOptions ≠ some "") ?_ hs
    (by change (none : Option String) ≠ some ""; simp)
  intro w e h
  cases e with
  | relaunch disk => exact h
  | event e =>
    have hcommit : w.updateNICOptions.defaults.string Constants.nicOptions ≠ some "" := by
      -- an empty text is removed from the defaults instead
      rw [updateNICOptions_nicOptions]
      split
      · simp
      · simpa using ‹_›
    refine step_rule (P := fun _ d => d.string Constants.nicOptions ≠ some "") e h h
      (fun _ _ => hcommit) ?_ (fun _ _ _ => h) hcommit (fun _ => h) (fun _ => h)
    intro view url
    rw [dropURL]
    split
    · cases view with
      | mainImage =>
        change (w.defaults.set _ _).string _ ≠ _
        rw [UserDefaults.string_set_of_ne _ Constants.nicOptions_ne]
        exact h
      | cdImage => exact h
    · exact h

/-- A history leaves in the defaults the path of the main image dropped last and the NIC text
committed last, and nothing else. -/
theorem defaults_history (disk : Disk) (hs : List SessionEvent) :
    ((openApp .empty disk).history hs).defaults =
      .persisted (((openApp .empty disk).mainDrops hs).getLast?.map URL.path)
        (((openApp .empty disk).commits hs).getLast?.getD "") := by
  funext key
  change ((openApp .empty disk).history hs).defaults.string key = _
  rw [UserDefaults.persisted]
  -- the two keys of the app each have their history, and any other has none
  by_cases hmain : key = Constants.mainImageFilePath
  · rw [if_pos hmain, hmain]
    exact mainImageFilePath_history disk hs
  · rw [if_neg hmain]
    by_cases hnic : key = Constants.nicOptions
    · rw [if_pos hnic, hnic, ← nicOptions_history disk hs]
      have hne := nicOptions_ne_empty disk hs
      generalize ((openApp .empty disk).history hs).defaults.string Constants.nicOptions = text
        at hne
      rcases text with _ | nic
      · rfl
      · rw [Option.getD_some, if_neg fun hempty => hne (congrArg some hempty)]
    · rw [if_neg hnic]
      exact string_history hmain hnic (openApp .empty disk) hs

/-- What is persisted can be told from the defaults. -/
theorem persisted_inj {path path' : Option String} {nic nic' : String} :
    UserDefaults.persisted path nic = .persisted path' nic' ↔ path = path' ∧ nic = nic' := by
  refine ⟨?_, ?_⟩
  · intro h
    have hmain := congrFun h Constants.mainImageFilePath
    have hnic := congrFun h Constants.nicOptions
    rw [UserDefaults.persisted, UserDefaults.persisted, if_pos rfl, if_pos rfl] at hmain
    rw [UserDefaults.persisted, UserDefaults.persisted, if_neg Constants.nicOptions_ne,
      if_neg Constants.nicOptions_ne, if_pos rfl, if_pos rfl] at hnic
    refine ⟨hmain, ?_⟩
    split at hnic <;> split at hnic <;> simp_all
  · rintro ⟨rfl, rfl⟩
    rfl

/-- **What survives a quit.** After any history of sessions the next one opens with the file
at the path of the main image dropped last, if it exists, which is that image if it was
dropped as a file URL; with the NIC text committed last; and otherwise as the storyboard has
it. Two histories lead to the same next session, and so to the same future, if and only if
the path dropped last and the text committed last are the same. -/
theorem relaunch_iff (disk : Disk) (hs : List SessionEvent) (disk' : Disk) :
    let first := openApp .empty disk
    let next := (first.history hs).advance (.relaunch disk')
    let image := (first.mainDrops hs).getLast?.filter fun url => disk'.fileExists url.path
    let text := (first.commits hs).getLast?.getD ""
    next.controller = .fresh (image.map fun url => URL.fileURLWithPath url.path) text ∧
      ((∀ url, image = some url → url.IsFile) → next.controller = .fresh image text) ∧
      ∀ (otherDisk : Disk) (hs' : List SessionEvent), let other := openApp .empty otherDisk
        (next = (other.history hs').advance (.relaunch disk') ↔
          (first.mainDrops hs).getLast?.map URL.path =
              (other.mainDrops hs').getLast?.map URL.path ∧
            (first.commits hs).getLast?.getD "" = (other.commits hs').getLast?.getD "") := by
  intro first next image text
  have hcontroller : next.controller =
      .fresh (image.map fun url => URL.fileURLWithPath url.path) text := by
    have hopen := controller_openApp (first.history hs).defaults disk'
    rw [persistedImage_history, nicOptions_history] at hopen
    exact hopen
  refine ⟨hcontroller, ?_, ?_⟩
  · intro hfile
    rw [hcontroller]
    rcases himage : image with _ | url
    · rfl
    · rw [Option.map_some, URL.fileURLWithPath_path (hfile url himage)]
  · intro otherDisk hs' other
    rw [← persisted_inj, ← defaults_history, ← defaults_history]
    refine ⟨?_, ?_⟩
    · intro h
      have hdefaults : next.defaults =
          ((other.history hs').advance (.relaunch disk')).defaults := congrArg World.defaults h
      exact hdefaults
    · exact fun h => congrArg (fun defaults => openApp defaults disk') h

end World

end ACVM
