import ACVM.Steps
import ACVM.Tokens

/-!
# The other arguments

The text of the other-arguments field is split at every single space. Typed with single
spaces it becomes its words; two spaces in a row, or one at an end, put an empty argument
between them, which QEMU takes for the name of a disk image.

`otherArguments_eq_words_iff` says when the words are what QEMU gets, and
`empty_mem_otherArguments_iff` that otherwise an empty argument is always among them.
`otherArguments_eq_iff` goes the other way, from the arguments to the text.
-/

namespace ACVM

/-- The words of a text: its maximal runs of non-space characters. -/
def words (text : String) : List String :=
  (Tokens.runs (· == ' ') text.toList).map String.ofList

/-- No space at either end of the text, and no two in a row. -/
def SingleSpaced (text : String) : Prop := Tokens.Tight (· == ' ') text.toList

/-- The words of a text are the tokens it can be typed from, with any spaces around them
and at least one between them. -/
theorem map_ofList_eq_words_iff {ts : List (List Char)} {text : String} :
    ts.map String.ofList = words text ↔ Tokens.Spaced (· == ' ') ts text.toList := by
  rw [words, Tokens.spaced_iff]
  exact (List.map_injective_iff.mpr fun _ _ => String.ofList_injective).eq_iff

namespace ViewController

variable (c : ViewController)

theorem otherArguments_eq :
    c.otherArguments =
      (if c.otherArgumentsTextField.stringValue.toList.isEmpty then []
        else c.otherArgumentsTextField.stringValue.toList.splitOnP (· == ' ')).map
          String.ofList := by
  rw [otherArguments, componentsSeparatedBySpace]
  by_cases htext : c.otherArgumentsTextField.stringValue = "" <;> simp [htext]

/-- The text becomes its words exactly when it is single-spaced. -/
theorem otherArguments_eq_words_iff :
    c.otherArguments = words c.otherArgumentsTextField.stringValue ↔
      SingleSpaced c.otherArgumentsTextField.stringValue := by
  rw [otherArguments_eq, words, SingleSpaced, ← Tokens.split_eq_runs_iff]
  exact (List.map_injective_iff.mpr fun _ _ => String.ofList_injective).eq_iff

/-- Any other text puts an empty argument among them. -/
theorem empty_mem_otherArguments_iff :
    "" ∈ c.otherArguments ↔ ¬ SingleSpaced c.otherArgumentsTextField.stringValue := by
  rw [otherArguments_eq, SingleSpaced]
  rcases htext : c.otherArgumentsTextField.stringValue.toList with _ | ⟨a, text⟩
  · simp [(Tokens.split_eq_runs_iff (p := (· == ' ')) []).mp rfl]
  · rw [← Tokens.nil_notMem_splitOnP (List.cons_ne_nil a text), not_not, if_neg (by simp)]
    exact List.mem_map_of_injective fun _ _ => String.ofList_injective

/-- **Typing arguments**: the text becomes a given list of arguments exactly when it is
that list joined by single spaces, none of them contains a space, and they are not a single
empty argument. No other list can be passed, and no other text passes it. -/
theorem otherArguments_eq_iff {arguments : List String} :
    c.otherArguments = arguments ↔
      c.otherArgumentsTextField.stringValue = " ".intercalate arguments ∧
        (∀ argument ∈ arguments, ' ' ∉ argument.toList) ∧ arguments ≠ [""] := by
  rw [otherArguments_eq]
  generalize c.otherArgumentsTextField.stringValue = text
  have hjoin : text = " ".intercalate arguments ↔
      [' '].intercalate (arguments.map String.toList) = text.toList := by
    rw [← String.toList_inj, String.toList_intercalate, eq_comm]
    rfl
  have hmap : ∀ l : List (List Char), l.map String.ofList = arguments ↔
      l = arguments.map String.toList := by
    intro l
    refine ⟨?_, ?_⟩
    · rintro rfl
      simp [Function.comp_def]
    · rintro rfl
      simp [Function.comp_def]
  rw [hmap, hjoin]
  by_cases htext : text = ""
  · -- an empty text is split into nothing here, though joining `[""]` gives it as well
    subst htext
    rcases arguments with _ | ⟨argument, _ | ⟨argument', rest⟩⟩
    · simp
    · simp +contextual
    · simp [List.intercalate_cons_cons]
  · have hne : text.toList ≠ [] := by simpa using htext
    rw [if_neg (by simpa using hne), ← List.splitOn_eq_splitOnP, Tokens.splitOn_eq_iff,
      List.forall_mem_map]
    refine ⟨?_, ?_⟩
    · rintro ⟨-, hfree, hjoined⟩
      refine ⟨hjoined, hfree, ?_⟩
      rintro rfl
      exact hne (by rw [← hjoined]; rfl)
    · rintro ⟨hjoined, hfree, -⟩
      refine ⟨?_, hfree, hjoined⟩
      rintro hnil
      rw [hnil] at hjoined
      exact hne hjoined.symm

end ViewController

namespace World

/-- **The other arguments, exactly**: what a start appends after the built-in arguments
are the words of the text, the tokens the text can be typed from, and free of empty
arguments, each if and only if the text is single-spaced. -/
theorem extraArguments_iff {w : World} {env : LaunchEnv} {efiURL mainImage : URL}
    (hstarts : w.Starts env efiURL mainImage) :
    let text := w.controller.otherArgumentsTextField.stringValue
    ∃ vm appended, (w.didTapStartButton env).qemu[w.qemu.length]? = some vm ∧
      vm.info.arguments = w.controller.builtInArguments efiURL mainImage ++ appended ∧
      (appended = words text ↔ SingleSpaced text) ∧
      (∀ ts, Tokens.Spaced (· == ' ') ts text.toList →
        (appended = ts.map String.ofList ↔ SingleSpaced text)) ∧
      ("" ∉ appended ↔ SingleSpaced text) := by
  intro text
  refine ⟨_, w.controller.otherArguments, hstarts.launched, rfl,
    w.controller.otherArguments_eq_words_iff, ?_, ?_⟩
  · intro ts hts
    rw [map_ofList_eq_words_iff.mpr hts]
    exact w.controller.otherArguments_eq_words_iff
  · rw [ViewController.empty_mem_otherArguments_iff, not_not]

/-- A start with three words in the field. -/
theorem extraArguments_iff_example :
    let w := (openApp .empty fun _ => none).run
      [.drag .mainImage (.carrying (URL.fileURLWithPath "/vm.img")),
        .edit .otherArguments "-s -S -snapshot"]
    let text := w.controller.otherArgumentsTextField.stringValue
    ∃ vm appended, (w.didTapStartButton .smooth).qemu[0]? = some vm ∧
      vm.info.arguments = w.controller.builtInArguments (URL.fileURLWithPath "/QEMU_EFI.fd")
        (URL.fileURLWithPath "/vm.img") ++ appended ∧
      (appended = words text ↔ SingleSpaced text) ∧
      (∀ ts, Tokens.Spaced (· == ' ') ts text.toList →
        (appended = ts.map String.ofList ↔ SingleSpaced text)) ∧
      ("" ∉ appended ↔ SingleSpaced text) :=
  extraArguments_iff ⟨rfl, rfl, rfl⟩

/-- A space at the end of the text appends an empty argument. -/
theorem trailing_space_appends_empty :
    let w := (openApp .empty fun _ => none).run
      [.drag .mainImage (.carrying (URL.fileURLWithPath "/vm.img")),
        .edit .otherArguments "-snapshot "]
    ∃ vm, (w.didTapStartButton .smooth).qemu[0]? = some vm ∧
      words w.controller.otherArgumentsTextField.stringValue = ["-snapshot"] ∧
      vm.info.arguments = w.controller.builtInArguments (URL.fileURLWithPath "/QEMU_EFI.fd")
        (URL.fileURLWithPath "/vm.img") ++ ["-snapshot", ""] ∧
      vm.info.arguments ≠ w.controller.builtInArguments (URL.fileURLWithPath "/QEMU_EFI.fd")
        (URL.fileURLWithPath "/vm.img") ++
          words w.controller.otherArgumentsTextField.stringValue := by
  intro w
  have hwords : words w.controller.otherArgumentsTextField.stringValue = ["-snapshot"] := by decide
  have harguments : (w.newLaunch (URL.fileURLWithPath "/QEMU_EFI.fd")
      (URL.fileURLWithPath "/vm.img")).arguments =
        w.controller.builtInArguments (URL.fileURLWithPath "/QEMU_EFI.fd")
          (URL.fileURLWithPath "/vm.img") ++ ["-snapshot", ""] := by
    have hother : w.controller.otherArguments = ["-snapshot", ""] := by decide
    exact congrArg (w.controller.builtInArguments _ _ ++ ·) hother
  refine ⟨_, rfl, hwords, harguments, fun heq => ?_⟩
  rw [hwords] at heq
  have happended := List.append_cancel_left (harguments.symm.trans heq)
  cases happended

end World

end ACVM
