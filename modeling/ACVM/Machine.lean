import ACVM.World

/-!
# The machine settings are normal forms

What a start passes for the number of cores and for the RAM size is not the text of the
field but what `numberOfCores` and `ramSize` make of it: a positive number, a trimmed
text that is not empty, or a default. Typed back into its field such a value is passed
again, so the defaults pass the very checks they stand in for. The default stands in for
nothing that makes sense: a number that was typed, if it is positive and fits, and a size
that is not blank are passed on.
-/

namespace ACVM

/-! ## Numbers -/

/-- A text of digits is read as its value, if that is in range. -/
theorem swiftInt_of_digits {s : String} (hdigits : ∀ c ∈ s.toList, c.isDigit = true) :
    swiftInt s = ((decimalValue s.toList).map fun (n : ℕ) => (n : ℤ)).filter fun n =>
      decide (-0x8000000000000000 ≤ n ∧ n < 0x8000000000000000) := by
  rw [swiftInt]
  split
  · rename_i digits hplus
    have hdigit : '+'.isDigit = true := hdigits '+' (by rw [hplus]; exact List.mem_cons_self)
    cases hdigit
  · rename_i digits hminus
    have hdigit : '-'.isDigit = true := hdigits '-' (by rw [hminus]; exact List.mem_cons_self)
    cases hdigit
  · rfl

/-- Reading the decimal digits of a number gives the number back. -/
theorem decimalValue_toDigits (n : ℕ) : decimalValue (Nat.toDigits 10 n) = some n := by
  have hdigits : (Nat.toDigits 10 n).all Char.isDigit = true :=
    List.all_eq_true.mpr fun c hc => Nat.isDigit_of_mem_toDigits (by decide) (by decide) hc
  rw [decimalValue, if_pos ⟨Nat.toDigits_ne_nil, hdigits⟩]
  exact congrArg some Nat.ofDigitChars_ten_toDigits

/-- **Round trip**: a number that fits is read back as it was printed. -/
theorem swiftInt_toString {n : ℤ} (hpos : 0 < n) (hlt : n < 0x8000000000000000) :
    swiftInt (toString n) = some n := by
  obtain ⟨m, rfl⟩ := Int.eq_ofNat_of_zero_le (Int.le_of_lt hpos)
  have hchars : (toString (m : ℤ)).toList = Nat.toDigits 10 m := Nat.toList_repr
  rw [swiftInt_of_digits, hchars, decimalValue_toDigits, Option.map_some, Option.filter_some,
    if_pos (by rw [decide_eq_true_eq]; omega)]
  rw [hchars]
  exact fun c hc => Nat.isDigit_of_mem_toDigits (by decide) (by decide) hc

/-- A number that was read fits. -/
theorem lt_of_swiftInt {s : String} {n : ℤ} (h : swiftInt s = some n) :
    n < 0x8000000000000000 := by
  rw [swiftInt] at h
  obtain ⟨-, hrange⟩ := Option.filter_eq_some_iff.mp h
  exact (of_decide_eq_true hrange).2

/-! ## Trimming -/

/-- What is left after trimming neither starts nor ends with a blank. -/
theorem trimmingWhitespacesAndNewlines_idempotent (s : String) :
    trimmingWhitespacesAndNewlines (trimmingWhitespacesAndNewlines s) =
      trimmingWhitespacesAndNewlines s := by
  rw [trimmingWhitespacesAndNewlines, trimmingWhitespacesAndNewlines, String.toList_ofList]
  generalize hfront : s.toList.dropWhile whitespacesAndNewlines = l
  -- the first character that is left stays the first one
  have hhead : (l.rdropWhile whitespacesAndNewlines).dropWhile whitespacesAndNewlines =
      l.rdropWhile whitespacesAndNewlines := by
    rcases htrimmed : l.rdropWhile whitespacesAndNewlines with _ | ⟨c, rest⟩
    · rfl
    · obtain ⟨tail, htail⟩ := List.rdropWhile_prefix whitespacesAndNewlines (l := l)
      rw [htrimmed, List.cons_append] at htail
      have hc := List.head_dropWhile_not whitespacesAndNewlines (l := s.toList)
        (by rw [hfront, ← htail]; simp)
      simp only [hfront, ← htail, List.head_cons] at hc
      rw [List.dropWhile_cons_of_neg (by rw [hc]; simp)]
  rw [hhead, List.rdropWhile_idempotent]

/-- Nothing is left after trimming exactly when all was blank. -/
theorem trimmingWhitespacesAndNewlines_eq_empty_iff {s : String} :
    trimmingWhitespacesAndNewlines s = "" ↔ ∀ c ∈ s.toList, whitespacesAndNewlines c = true := by
  rw [trimmingWhitespacesAndNewlines, String.ofList_eq_empty_iff, List.rdropWhile_eq_nil_iff]
  refine ⟨?_, ?_⟩
  · intro hall
    rw [← List.dropWhile_eq_nil_iff]
    by_contra hne
    -- the first character that is left is not blank
    have hhead := List.head_dropWhile_not whitespacesAndNewlines hne
    rw [hall _ (List.head_mem hne)] at hhead
    cases hhead
  · intro hall c hc
    rw [List.dropWhile_eq_nil_iff.mpr hall] at hc
    cases hc

namespace ViewController

variable (c : ViewController)

/-! ## The properties -/

/-- A positive number that was typed is passed on as its numeral. -/
theorem numberOfCores_of_pos {n : ℤ} (hread : swiftInt c.cpuTextField.stringValue = some n)
    (hpos : 0 < n) : c.numberOfCores = toString n := by
  rw [numberOfCores, hread]
  exact if_pos hpos

/-- A size that was typed is passed on trimmed, unless it is blank. -/
theorem ramSize_of_not_blank
    (h : ∃ ch ∈ c.ramTextField.stringValue.toList, whitespacesAndNewlines ch = false) :
    c.ramSize = trimmingWhitespacesAndNewlines c.ramTextField.stringValue := by
  obtain ⟨ch, hmem, hchar⟩ := h
  have hne : trimmingWhitespacesAndNewlines c.ramTextField.stringValue ≠ "" := by
    intro hempty
    cases hchar.symm.trans (trimmingWhitespacesAndNewlines_eq_empty_iff.mp hempty ch hmem)
  rw [ramSize]
  exact if_neg (by simpa using hne)

/-- The number of cores is a positive number that fits. -/
theorem numberOfCores_eq :
    ∃ n : ℤ, 0 < n ∧ n < 0x8000000000000000 ∧ c.numberOfCores = toString n := by
  rw [numberOfCores]
  rcases hread : swiftInt c.cpuTextField.stringValue with _ | n
  · exact ⟨4, by decide, by decide, rfl⟩
  · by_cases hpos : 0 < n
    · exact ⟨n, hpos, lt_of_swiftInt hread, if_pos hpos⟩
    · exact ⟨4, by decide, by decide, if_neg hpos⟩

/-- The RAM size is trimmed and not empty. -/
theorem ramSize_eq :
    c.ramSize ≠ "" ∧ trimmingWhitespacesAndNewlines c.ramSize = c.ramSize := by
  rw [ramSize]
  split
  · exact ⟨by decide, by decide⟩
  · rename_i hne
    exact ⟨by simpa using hne, trimmingWhitespacesAndNewlines_idempotent _⟩

theorem edit_cpu (text : String) : (c.edit .cpu text).cpuTextField.stringValue = text := rfl

theorem edit_ram (text : String) : (c.edit .ram text).ramTextField.stringValue = text := rfl

/-- The number of cores passed, typed into its field, is passed again. -/
theorem numberOfCores_idempotent :
    (c.edit .cpu c.numberOfCores).numberOfCores = c.numberOfCores := by
  obtain ⟨n, hpos, hlt, htext⟩ := c.numberOfCores_eq
  have hread : swiftInt (c.edit .cpu c.numberOfCores).cpuTextField.stringValue = some n := by
    rw [edit_cpu, htext]
    exact swiftInt_toString hpos hlt
  rw [numberOfCores_of_pos _ hread hpos, htext]

/-- The RAM size passed, typed into its field, is passed again. -/
theorem ramSize_idempotent : (c.edit .ram c.ramSize).ramSize = c.ramSize := by
  obtain ⟨hne, htrimmed⟩ := c.ramSize_eq
  rw [ramSize, edit_ram, htrimmed]
  exact if_neg (by simpa using hne)

/-- **The settings are normal forms.** The cores are passed as a positive number that fits,
the one typed if there is one, and the RAM size as a trimmed text that is not empty, the one
typed unless it is blank; and with these values typed back into their fields the whole
command line stays what it was. -/
theorem settings_normal (efiURL mainImage : URL) :
    (∃ n : ℤ, 0 < n ∧ n < 0x8000000000000000 ∧ c.numberOfCores = toString n) ∧
      (∀ n, swiftInt c.cpuTextField.stringValue = some n → 0 < n →
        c.numberOfCores = toString n) ∧
      (c.ramSize ≠ "" ∧ trimmingWhitespacesAndNewlines c.ramSize = c.ramSize) ∧
      ((∃ ch ∈ c.ramTextField.stringValue.toList, whitespacesAndNewlines ch = false) →
        c.ramSize = trimmingWhitespacesAndNewlines c.ramTextField.stringValue) ∧
      ((c.edit .cpu c.numberOfCores).edit .ram c.ramSize).arguments efiURL mainImage =
        c.arguments efiURL mainImage := by
  refine ⟨c.numberOfCores_eq, fun _ => c.numberOfCores_of_pos, c.ramSize_eq,
    c.ramSize_of_not_blank, ?_⟩
  have hcores : ((c.edit .cpu c.numberOfCores).edit .ram c.ramSize).numberOfCores =
      c.numberOfCores := c.numberOfCores_idempotent
  have hram : ((c.edit .cpu c.numberOfCores).edit .ram c.ramSize).ramSize = c.ramSize :=
    c.ramSize_idempotent
  rw [arguments, arguments, builtInArguments, builtInArguments, hcores, hram]
  rfl

end ViewController

end ACVM
