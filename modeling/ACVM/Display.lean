import ACVM.CommandLine
import ACVM.Ledger

/-!
# The display settings

The adaptor pop-up and the check box are two more registers of a run. Only the user writes
the first; the second is written by a click and, through `onGraphicChange`, by every choice
of an adaptor. `display_run` says what the two show after any run, and that without clicks
the check box follows the adaptor.
-/

namespace ACVM

/-- The state of the check box that goes with an adaptor. -/
def pointerOf (displayAdaptor : String) : StateValue :=
  if displayAdaptor = "ramfb" then .off else .on

namespace ViewController

variable (c : ViewController)

@[simp] theorem updateStates_displayAdaptor : c.updateStates.displayAdaptor = c.displayAdaptor := by
  rw [updateStates_eq]
  rfl

@[simp] theorem updateStates_pointer :
    c.updateStates.unhideMousePointer.state = c.unhideMousePointer.state := by
  rw [updateStates_eq]
  rfl

theorem onGraphicChange_eq :
    c.onGraphicChange = { c with unhideMousePointer :=
      { c.unhideMousePointer with state := pointerOf c.displayAdaptor } } := by
  rw [onGraphicChange, pointerOf]
  split <;> rfl

end ViewController

/-- The adaptor an event chooses. -/
def Event.chosen : Event → Option String
  | .choose title => some (title.getD "ramfb")
  | _ => none

/-- The state an event gives to the check box. -/
def Event.pointed : Event → Option StateValue
  | .check state => some state
  | .choose title => some (pointerOf (title.getD "ramfb"))
  | _ => none

namespace World

universe u

variable {β : Type u}

/-! ## Inputs -/

/-- What an event puts in, while the app goes on. -/
def live (input : Event → Option β) (w : World) (e : Event) : Option β :=
  if w.crashed then none else input e

/-- As long as the app goes on, what a run puts in is read off its events. -/
theorem log_live {w : World} {es : List Event} (h : (w.run es).crashed = false)
    (input : Event → Option β) : EventSystem.log step (live input) w es = es.filterMap input := by
  apply EventSystem.log_eq_filterMap
  have halong : EventSystem.Along step (fun w _ => w.crashed = false) w es := by
    refine EventSystem.along_of_run ?_ h
    intro w e hcrash hstep
    rw [(crashed_step w e).mpr (Or.inl (by simpa using hcrash))] at hstep
    cases hstep
  apply halong.imp
  intro w e hcrash
  rw [live, hcrash]
  exact if_neg (by simp)

/-- A part of the world that holds what events put in, and that nothing else writes, holds
after a run what was put in last. -/
theorem register_live (register : World → β) {input : Event → Option β}
    (hstep : ∀ (w : World) e, register (w.step e) = (w.live input e).getD (register w)) (w : World)
    (es : List Event) : register (w.run es) =
      (EventSystem.log step (live input) w es).getLast?.getD (register w) := by
  have hregister := EventSystem.register_run register (live input) id (I := fun _ => True)
    (fun _ _ _ => trivial) (fun w e _ => by rw [Option.map_id, id_eq]; exact hstep w e)
    (s := w) es trivial
  rw [Option.map_id, id_eq] at hregister
  exact hregister

/-! ## The two registers -/

/-- The two registers hold what an event puts in, and nothing else writes them. -/
theorem display_step (w : World) (e : Event) :
    (w.step e).controller.displayAdaptor =
        (w.live Event.chosen e).getD w.controller.displayAdaptor ∧
      (w.step e).controller.unhideMousePointer.state =
        (w.live Event.pointed e).getD w.controller.unhideMousePointer.state := by
  have heffect := w.effect_step e
  generalize w.step e = w' at heffect ⊢
  cases heffect with
  | stop _ _ _ =>
    simp only [live, Event.chosen, Event.pointed, ite_self, Option.getD_none]
    exact ⟨ViewController.updateStates_displayAdaptor _, ViewController.updateStates_pointer _⟩
  | start _ _ =>
    simp only [live, Event.chosen, Event.pointed, ite_self, Option.getD_none, startVM_controller]
    exact ⟨ViewController.updateStates_displayAdaptor _, ViewController.updateStates_pointer _⟩
  | @drop view _ url _ _ =>
    -- whether or not the controller listens to the view
    simp only [live, Event.chosen, Event.pointed, ite_self, Option.getD_none, dropURL]
    split
    · cases view <;>
        exact ⟨ViewController.updateStates_displayAdaptor _, ViewController.updateStates_pointer _⟩
    · cases view <;> exact ⟨rfl, rfl⟩
  | @edit field _ _ =>
    simp only [live, Event.chosen, Event.pointed, ite_self, Option.getD_none]
    cases field <;> exact ⟨rfl, rfl⟩
  | check hcrash =>
    rw [live, live, hcrash]
    exact ⟨rfl, rfl⟩
  | @choose title hcrash =>
    rw [live, live, hcrash, ViewController.onGraphicChange_eq]
    rcases title with _ | t <;> exact ⟨rfl, rfl⟩
  | notifyHeld _ _ _ _ =>
    simp only [live, Event.chosen, Event.pointed, ite_self, Option.getD_none]
    exact ⟨ViewController.updateStates_displayAdaptor _, ViewController.updateStates_pointer _⟩
  | crashed hcrash _ => simp [live, hcrash]
  | _ => simp [live, Event.chosen, Event.pointed]

/-- Only a click makes the check box disagree with the adaptor. -/
theorem pointer_step {w : World} {e : Event} (he : ∀ state, e ≠ .check state)
    (h : w.controller.unhideMousePointer.state = pointerOf w.controller.displayAdaptor) :
    (w.step e).controller.unhideMousePointer.state =
      pointerOf (w.step e).controller.displayAdaptor := by
  -- an adaptor that is chosen brings its state of the check box along
  have hboth : w.live Event.pointed e = (w.live Event.chosen e).map pointerOf := by
    rw [live, live]
    split
    · rfl
    · cases e with
      | check state => exact absurd rfl (he state)
      | _ => rfl
  obtain ⟨hadaptor, hpointer⟩ := display_step w e
  rw [hadaptor, hpointer, hboth, h]
  rcases w.live Event.chosen e with _ | adaptor <;> rfl

theorem display_openApp (defaults : UserDefaults) (disk : Disk) :
    (openApp defaults disk).controller.displayAdaptor = "ramfb" ∧
      (openApp defaults disk).controller.unhideMousePointer.state = .off := by
  change ((ViewController.storyboard.restoreMainImage defaults disk).restoreNICOptions
    defaults).updateStates.becomeDelegate.displayAdaptor = _ ∧
      ((ViewController.storyboard.restoreMainImage defaults disk).restoreNICOptions
        defaults).updateStates.becomeDelegate.unhideMousePointer.state = _
  rw [restoreNICOptions_eq, restoreMainImage_eq]
  rcases persistedImage defaults disk with _ | url <;> exact ⟨rfl, rfl⟩

/-- **What the display settings show.** After any run the pop-up shows the adaptor chosen
last, `ramfb` at first, and the check box what it was given last, by a click or along with
an adaptor, and is off at first. As long as nobody clicks it, it is on exactly for the
adaptors other than `ramfb`. -/
theorem display_run (defaults : UserDefaults) (disk : Disk) (es : List Event) :
    let first := openApp defaults disk
    let c := (first.run es).controller
    c.displayAdaptor = (EventSystem.log step (live Event.chosen) first es).getLast?.getD "ramfb" ∧
      c.unhideMousePointer.state =
        (EventSystem.log step (live Event.pointed) first es).getLast?.getD .off ∧
      ((∀ e ∈ es, ∀ state, e ≠ .check state) →
        c.unhideMousePointer.state = pointerOf c.displayAdaptor) := by
  intro first c
  obtain ⟨hadaptor, hpointer⟩ := display_openApp defaults disk
  refine ⟨?_, ?_, ?_⟩
  · rw [← hadaptor]
    exact register_live (fun w => w.controller.displayAdaptor)
      (fun w e => (display_step w e).1) first es
  · rw [← hpointer]
    exact register_live (fun w => w.controller.unhideMousePointer.state)
      (fun w e => (display_step w e).2) first es
  · intro hes
    refine EventSystem.run_induction_mem (A := fun e => ∀ state, e ≠ .check state)
      (I := fun w : World =>
        w.controller.unhideMousePointer.state = pointerOf w.controller.displayAdaptor)
      (fun _ _ he h => pointer_step he h) hes ?_
    rw [hadaptor, hpointer]
    rfl

end World

end ACVM
