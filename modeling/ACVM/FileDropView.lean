import ACVM.Foundation

/-!
# The file drop view

`FileDropView` is an image view that accepts one dropped file. AppKit sends it the
messages of a drag session; each answers from the pasteboard alone. A session that the
view accepts to the end sets `contentURL` and tells the delegate.

None of the dragging methods reads `isEnabled`: `dragSession_eq` says what a session
does to a view, and the answer depends on the session only.
-/

namespace ACVM

/-- A drop view. `image` is the icon on display, known by the path it was asked for;
`didSet` of `contentURL` keeps the two together. -/
structure FileDropView : Type where
  /-- the file the view shows -/
  contentURL : Option URL
  /-- the icon on display -/
  image : Option String
  /-- `isEnabled` -/
  isEnabled : Bool
  /-- whether the controller has become the (weak) delegate -/
  delegate : Bool
  /-- the icon on display is the one of the file -/
  image_eq : image = contentURL.map URL.path

namespace FileDropView

/-- Assigning `contentURL`, with its `didSet`. -/
def setContentURL (v : FileDropView) (contentURL : Option URL) : FileDropView :=
  match contentURL with
  | none => { v with contentURL := none, image := none, image_eq := rfl }
  | some url => { v with contentURL := some url, image := some url.path, image_eq := rfl }

@[simp] theorem setContentURL_contentURL (v : FileDropView) (contentURL : Option URL) :
    (v.setContentURL contentURL).contentURL = contentURL := by
  cases contentURL <;> rfl

@[simp] theorem setContentURL_isEnabled (v : FileDropView) (contentURL : Option URL) :
    (v.setContentURL contentURL).isEnabled = v.isEnabled := by
  cases contentURL <;> rfl

/-- A drop view as the storyboard makes it. -/
def storyboard : FileDropView where
  contentURL := none
  image := none
  isEnabled := true
  delegate := false
  image_eq := rfl

/-- The guard every dragging method starts with. -/
def offersFileURL (pasteboard : Pasteboard) : Bool :=
  match pasteboard.types with
  | some types => types.contains .fileURL
  | none => false

/-- `draggingEntered(_:)`. -/
def draggingEntered (_v : FileDropView) (pasteboard : Pasteboard) : DragOperation :=
  if offersFileURL pasteboard then .copy else .none

/-- `draggingUpdated(_:)`. -/
def draggingUpdated (_v : FileDropView) (pasteboard : Pasteboard) : DragOperation :=
  if offersFileURL pasteboard then .copy else .none

/-- `prepareForDragOperation(_:)`. -/
def prepareForDragOperation (_v : FileDropView) (pasteboard : Pasteboard) : Bool :=
  if offersFileURL pasteboard then true else false

/-- `URL(string:)` of the pasteboard's file URL string, if it is a string. -/
def fileURL (pasteboard : Pasteboard) : Option URL :=
  match pasteboard.fileURL with
  | some (.string url) => url
  | _ => none

/-- `performDragOperation(_:)`: the answer, the view afterwards, and the URL its
delegate is told, if any. -/
def performDragOperation (v : FileDropView) (pasteboard : Pasteboard) :
    Bool × FileDropView × Option URL :=
  if offersFileURL pasteboard then
    match fileURL pasteboard with
    | some url => (true, v.setContentURL (some url), if v.delegate then some url else none)
    | none => (true, v, none)
  else (false, v, none)

end FileDropView

/-- A drag session over one view: the pasteboard as each message finds it. Without a
`drop` the drag leaves the view again. -/
structure DragSession : Type where
  /-- at `draggingEntered` -/
  entered : Pasteboard
  /-- at each `draggingUpdated` -/
  updates : List Pasteboard
  /-- at `prepareForDragOperation` and at `performDragOperation` -/
  drop : Option (Pasteboard × Pasteboard)
  deriving DecidableEq

namespace DragSession

/-- The URL a session carries through, if any: the pasteboard listed the type of file URLs
before the mouse button was released and from then on, and held a string that is a URL
for it at the end. -/
def dropped (s : DragSession) : Option URL :=
  match s.drop with
  | none => none
  | some (prepare, perform) =>
    if (s.updates.getLastD s.entered).ListsFileURL ∧ prepare.ListsFileURL ∧
        perform.ListsFileURL then
      match perform.fileURL with
      | some (.string url) => url
      | _ => none
    else none

/-- The plain session: one file over the view from its start to its end. -/
def carrying (url : URL) : DragSession :=
  let pasteboard : Pasteboard := ⟨some [.fileURL], some (.string (some url))⟩
  ⟨pasteboard, [], some (pasteboard, pasteboard)⟩

end DragSession

namespace FileDropView

/-- The operation the view answered last before the mouse button was released. -/
def lastOperation (v : FileDropView) (s : DragSession) : DragOperation :=
  s.updates.foldl (fun _ pasteboard => v.draggingUpdated pasteboard) (v.draggingEntered s.entered)

/-- A drag session as AppKit runs it: a release over the view goes on only if the last
operation was not empty, and the drop is performed only if the view prepared for it.
`draggingExited` and `concludeDragOperation` do nothing. -/
def dragSession (v : FileDropView) (s : DragSession) : FileDropView × Option URL :=
  match s.drop with
  | none => (v, none)
  | some (prepare, perform) =>
    if v.lastOperation s = .copy then
      if v.prepareForDragOperation prepare then (v.performDragOperation perform).2 else (v, none)
    else (v, none)

/-- The guard asks whether the pasteboard lists the type of file URLs. -/
theorem offersFileURL_iff {pasteboard : Pasteboard} :
    offersFileURL pasteboard = true ↔ pasteboard.ListsFileURL := by
  rw [offersFileURL, Pasteboard.ListsFileURL]
  rcases pasteboard.types with _ | types
  · simp
  · exact List.contains_iff_mem

theorem lastOperation_eq (v : FileDropView) (s : DragSession) :
    v.lastOperation s = .copy ↔ (s.updates.getLastD s.entered).ListsFileURL := by
  have hfold : ∀ (updates : List Pasteboard) (entered : Pasteboard) (op : DragOperation),
      (op = .copy ↔ entered.ListsFileURL) →
      (updates.foldl (fun _ pasteboard => v.draggingUpdated pasteboard) op = .copy ↔
        (updates.getLastD entered).ListsFileURL) := by
    intro updates
    induction updates with
    | nil => exact fun _ _ h => h
    | cons pasteboard updates ih =>
      intro entered op _
      rw [List.foldl_cons, List.getLastD_cons]
      exact ih pasteboard _ (by simp [draggingUpdated, offersFileURL_iff])
  exact hfold s.updates s.entered _ (by simp [draggingEntered, offersFileURL_iff])

/-- **What a drag session does**: it sets the URL it carries through and tells the
delegate, or it does nothing. -/
theorem dragSession_eq (v : FileDropView) (s : DragSession) :
    v.dragSession s = match s.dropped with
      | some url => (v.setContentURL (some url), if v.delegate then some url else none)
      | none => (v, none) := by
  unfold dragSession DragSession.dropped
  rcases s.drop with _ | ⟨prepare, perform⟩
  · rfl
  · simp only [prepareForDragOperation, performDragOperation, offersFileURL_iff, v.lastOperation_eq]
    generalize s.updates.getLastD s.entered = last
    by_cases hlast : last.ListsFileURL
    · by_cases hprepare : prepare.ListsFileURL
      · by_cases hperform : perform.ListsFileURL
        · -- the last message finds the URL, or something else
          rcases hurl : perform.fileURL with _ | ⟨_ | url⟩ | _ <;>
            simp [hlast, hprepare, hperform, fileURL, hurl]
        · simp [hlast, hprepare, hperform]
      · simp [hlast, hprepare]
    · simp [hlast]

end FileDropView

end ACVM
