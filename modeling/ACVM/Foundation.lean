import Mathlib.Data.List.DropRight
import Mathlib.Logic.Function.Basic

/-!
# What the launcher uses of Foundation and AppKit

The values and library calls the two view classes are written with: strings, paths and
URLs, the user defaults, the disk as `fileExists` sees it, the controls of the window,
and the dragging pasteboard. Only what the launcher reads or writes is here.

The one thing kept as data instead of code is `URL(string:)`: a string on the
pasteboard enters the model together with what that parser makes of it.
-/

namespace ACVM

/-! ## Strings -/

/-- `components(separatedBy: " ")`: the substrings between consecutive spaces. -/
def componentsSeparatedBySpace (s : String) : List String :=
  (s.toList.splitOnP (· == ' ')).map String.ofList

/-- Membership in `CharacterSet.whitespacesAndNewlines`: the Unicode separators,
tabulation, U+000A to U+000D, and U+0085. -/
def whitespacesAndNewlines (c : Char) : Bool :=
  let n := c.toNat
  (0x09 ≤ n && n ≤ 0x0D) || n == 0x20 || n == 0x85 || n == 0xA0 || n == 0x1680 ||
    (0x2000 ≤ n && n ≤ 0x200A) || n == 0x2028 || n == 0x2029 || n == 0x202F || n == 0x205F ||
    n == 0x3000

/-- `trimmingCharacters(in: .whitespacesAndNewlines)`. -/
def trimmingWhitespacesAndNewlines (s : String) : String :=
  String.ofList ((s.toList.dropWhile whitespacesAndNewlines).rdropWhile whitespacesAndNewlines)

/-- The value of a non-empty list of decimal digits. -/
def decimalValue (digits : List Char) : Option ℕ :=
  if digits ≠ [] ∧ digits.all Char.isDigit then
    some (digits.foldl (fun n c => 10 * n + (c.toNat - '0'.toNat)) 0)
  else none

/-- Swift's `Int(_ description: String)` on a 64-bit platform: an optional sign and
decimal digits, `nil` outside the range of `Int`. -/
def swiftInt (s : String) : Option ℤ :=
  let value : Option ℤ := match s.toList with
    | '+' :: digits => (decimalValue digits).map fun (n : ℕ) => (n : ℤ)
    | '-' :: digits => (decimalValue digits).map fun (n : ℕ) => -(n : ℤ)
    | digits => (decimalValue digits).map fun (n : ℕ) => (n : ℤ)
  value.filter fun n => decide (-0x8000000000000000 ≤ n ∧ n < 0x8000000000000000)

/-! ## Paths and URLs -/

/-- The absolute form of a path: a relative one is taken from the current directory of a
launched app, which is the root. -/
def absolutePath (p : String) : String :=
  if p.toList.head? = some '/' then p else "/" ++ p

theorem absolutePath_of_absolute {p : String} (h : p.toList.head? = some '/') :
    absolutePath p = p := if_pos h

theorem head?_absolutePath (p : String) : (absolutePath p).toList.head? = some '/' := by
  rw [absolutePath]
  split
  · assumption
  · rw [String.toList_append, List.head?_append]
    rfl

/-- A suffix does not make a path absolute. -/
theorem absolutePath_append {s : String} (h : s.toList.head? ≠ some '/') (p : String) :
    absolutePath (p ++ s) = absolutePath p ++ s := by
  have hhead : (p ++ s).toList.head? = some '/' ↔ p.toList.head? = some '/' := by
    rw [String.toList_append, List.head?_append]
    rcases p.toList.head? with _ | c
    · simp [h]
    · simp
  rw [absolutePath, absolutePath]
  by_cases habs : p.toList.head? = some '/'
  · rw [if_pos habs, if_pos (hhead.mpr habs)]
  · rw [if_neg habs, if_neg (mt hhead.mp habs), String.append_assoc]

/-- A URL: its `path`, which is all that the two classes read of one, and what else its
string says. What `URL(string:)` makes of a string can have any path, relative ones among
them. -/
@[ext] structure URL : Type where
  /-- `URL.path` -/
  path : String
  /-- the string the URL was made from, or `none` when that says no more than that there
  is a file at the path -/
  string : Option String
  deriving DecidableEq

namespace URL

/-- The path is one that a file URL has: absolute, and without a slash at its end unless it
is the root. -/
def IsFilePath (p : String) : Prop :=
  p.toList.head? = some '/' ∧ (p = "/" ∨ p.toList.getLast? ≠ some '/')

instance (p : String) : Decidable (IsFilePath p) := inferInstanceAs (Decidable (_ ∧ _))

/-- The URL says that there is a file at its path, and no more. -/
def IsFile (u : URL) : Prop := u.string = none ∧ IsFilePath u.path

instance (u : URL) : Decidable u.IsFile := inferInstanceAs (Decidable (_ ∧ _))

/-- `URL(fileURLWithPath:)`: slashes at the end of the path are dropped, and a relative one
is made absolute. -/
def fileURLWithPath (p : String) : URL where
  path := absolutePath (String.ofList (p.toList.rdropWhile (· == '/')))
  string := none

/-- A path without a slash at its end is only made absolute. -/
theorem path_fileURLWithPath {p : String} (hlast : p.toList.getLast? ≠ some '/') :
    (fileURLWithPath p).path = absolutePath p := by
  have hkeep : p.toList.rdropWhile (· == '/') = p.toList := by
    rw [List.rdropWhile_eq_self_iff]
    intro hne hslash
    rw [List.getLast?_eq_some_getLast hne] at hlast
    exact hlast (congrArg some (eq_of_beq hslash))
  change absolutePath (String.ofList _) = _
  rw [hkeep, String.ofList_toList]

/-- The path of a file URL is kept. -/
theorem IsFilePath.path_eq {p : String} (h : IsFilePath p) : (fileURLWithPath p).path = p := by
  rcases h.2 with hroot | hlast
  · rw [hroot]
    rfl
  · rw [path_fileURLWithPath hlast, absolutePath_of_absolute h.1]

/-- A URL made from the path of a file URL is that URL. -/
theorem fileURLWithPath_path {u : URL} (h : u.IsFile) : fileURLWithPath u.path = u :=
  URL.ext h.2.path_eq h.1.symm

end URL

/-! ## User defaults -/

/-- The app's domain of `UserDefaults.standard`, its string values by key. It outlives
the app. -/
abbrev UserDefaults : Type := String → Option String

namespace UserDefaults

/-- `string(forKey:)`. -/
def string (d : UserDefaults) (key : String) : Option String := d key

/-- `set(_:forKey:)`. -/
def set (d : UserDefaults) (value key : String) : UserDefaults :=
  Function.update d key (some value)

/-- `removeObject(forKey:)`. -/
def removeObject (d : UserDefaults) (key : String) : UserDefaults :=
  Function.update d key none

/-- Defaults in which nothing was ever set. -/
def empty : UserDefaults := fun _ => none

variable (d : UserDefaults)

@[simp] theorem string_set_self (value key : String) :
    (d.set value key).string key = some value := Function.update_self ..

@[simp] theorem string_removeObject_self (key : String) :
    (d.removeObject key).string key = none := Function.update_self ..

theorem string_set_of_ne {key key' : String} (h : key' ≠ key) (value : String) :
    (d.set value key).string key' = d.string key' := Function.update_of_ne h ..

theorem string_removeObject_of_ne {key key' : String} (h : key' ≠ key) :
    (d.removeObject key).string key' = d.string key' := Function.update_of_ne h ..

end UserDefaults

/-! ## The disk -/

/-- The files by absolute path, with their sizes in bytes. -/
abbrev Disk : Type := String → Option ℕ

namespace Disk

/-- `FileManager.default.fileExists(atPath:)`. -/
def fileExists (disk : Disk) (path : String) : Bool :=
  !path.isEmpty && (disk (absolutePath path)).isSome

/-- The file at `path` gets a size, or disappears. -/
def write (disk : Disk) (path : String) (size : Option ℕ) : Disk :=
  Function.update disk path size

variable (disk : Disk)

@[simp] theorem write_self (path : String) (size : Option ℕ) :
    disk.write path size path = size := Function.update_self ..

theorem write_of_ne {path path' : String} (h : path' ≠ path) (size : Option ℕ) :
    disk.write path size path' = disk path' := Function.update_of_ne h ..

/-- An absolute path is looked up as it is. -/
theorem fileExists_of_absolute {path : String} (h : path.toList.head? = some '/') :
    disk.fileExists path = (disk path).isSome := by
  have hne : path.isEmpty = false := by
    rw [Bool.eq_false_iff]
    intro hempty
    rw [String.isEmpty_iff.mp hempty] at h
    cases h
  rw [fileExists, hne, absolutePath_of_absolute h, Bool.not_false, Bool.true_and]

end Disk

/-! ## Controls -/

/-- `NSControl.StateValue`. -/
inductive StateValue : Type where
  /-- `.on` -/
  | on : StateValue
  /-- `.off` -/
  | off : StateValue
  /-- `.mixed` -/
  | mixed : StateValue
  deriving DecidableEq

/-- An `NSTextField`. -/
structure TextField : Type where
  /-- `stringValue` -/
  stringValue : String
  /-- `isEnabled` -/
  isEnabled : Bool
  deriving DecidableEq

/-- An `NSButton` used as a check box. -/
structure CheckBox : Type where
  /-- `state` -/
  state : StateValue
  /-- `isEnabled` -/
  isEnabled : Bool
  deriving DecidableEq

/-- An `NSButton` used as a push button. -/
structure PushButton : Type where
  /-- `title` -/
  title : String
  /-- `isEnabled` -/
  isEnabled : Bool
  deriving DecidableEq

/-- An `NSPopUpButton`. -/
structure PopUpButton : Type where
  /-- `titleOfSelectedItem` -/
  titleOfSelectedItem : Option String
  /-- `isEnabled` -/
  isEnabled : Bool
  deriving DecidableEq

/-! ## Dragging -/

/-- `NSPasteboard.PasteboardType`. -/
inductive PasteboardType : Type where
  /-- `.fileURL` -/
  | fileURL : PasteboardType
  /-- any other type -/
  | other : String → PasteboardType
  deriving DecidableEq

/-- A property list object, as far as `as? String` and `URL(string:)` tell them apart. -/
inductive PropertyList : Type where
  /-- a string, with what `URL(string:)` makes of it -/
  | string : Option URL → PropertyList
  /-- any other object -/
  | other : PropertyList
  deriving DecidableEq

/-- A dragging pasteboard. -/
structure Pasteboard : Type where
  /-- `types` -/
  types : Option (List PasteboardType)
  /-- `propertyList(forType: .fileURL)` -/
  fileURL : Option PropertyList
  deriving DecidableEq

/-- The pasteboard lists the type of file URLs. -/
def Pasteboard.ListsFileURL (p : Pasteboard) : Prop := PasteboardType.fileURL ∈ p.types.getD []

instance (p : Pasteboard) : Decidable p.ListsFileURL := inferInstanceAs (Decidable (_ ∈ _))

/-- `NSDragOperation`, as far as the drop views answer it. -/
inductive DragOperation : Type where
  /-- `[]` -/
  | none : DragOperation
  /-- `.copy` -/
  | copy : DragOperation
  deriving DecidableEq

end ACVM
