import QuerySurface.Proofs.Text.Tokens
import QuerySurface.Text.Case

/-!
# Names and the characters of words

The characters that names are made of are ASCII, and changing their case leaves them what they are.
So a name stays a name when it is capitalised or extended by such characters, and capitalising it
makes it no longer or shorter.
-/

namespace QuerySurface.Text

/-! ## Characters of words -/

/-- Word characters are ASCII. -/
theorem toNat_lt_of_isWordChar {c : Char} (h : isWordChar c = true) : c.toNat < 128 := by
  have hkinds : ((c.isUpper || c.isLower) || c.isDigit || c == '_') = true := h
  have hbound : ∀ top : Char, top.val.toNat < 128 → c.val ≤ top.val → c.toNat < 128 :=
    fun _ ht hc => Nat.lt_of_le_of_lt (UInt32.le_iff_toNat_le.mp hc) ht
  simp only [Bool.or_eq_true] at hkinds
  rcases hkinds with ((hupper | hlower) | hdigit) | hline
  · have hrange : c.val ≥ 'A'.val ∧ c.val ≤ 'Z'.val := of_decide_eq_true hupper
    exact hbound 'Z' (by decide) hrange.2
  · exact hbound 'z' (by decide) (of_decide_eq_true (Bool.and_eq_true_iff.mp hlower).2)
  · exact hbound '9' (by decide) (of_decide_eq_true (Bool.and_eq_true_iff.mp hdigit).2)
  · rw [beq_iff_eq.mp hline]
    decide

/-- What the ASCII characters of words have in common all characters of words have. -/
theorem of_isWordChar (holds : Char → Prop)
    (hascii : ∀ code < 128, isWordChar (Char.ofNat code) = true → holds (Char.ofNat code))
    {c : Char} (h : isWordChar c = true) : holds c := by
  have hc := hascii c.toNat (toNat_lt_of_isWordChar h)
  rw [Char.ofNat_toNat] at hc
  exact hc h

/-- The lower case of a word character is one. -/
theorem isWordChar_toLower {c : Char} (h : isWordChar c = true) : isWordChar c.toLower = true :=
  of_isWordChar (fun c => isWordChar c.toLower = true) (by decide) h

/-- The upper case of a word character is one. -/
theorem isWordChar_toUpper {c : Char} (h : isWordChar c = true) : isWordChar c.toUpper = true :=
  of_isWordChar (fun c => isWordChar c.toUpper = true) (by decide) h

/-- The upper case of a word character that is no digit is no digit. -/
theorem isDigit_toUpper {c : Char} (h : isWordChar c = true) (hd : c.isDigit = false) :
    c.toUpper.isDigit = false :=
  of_isWordChar (fun c => c.isDigit = false → c.toUpper.isDigit = false) (by decide) h hd

/-- The upper case of a word character is no small letter. -/
theorem isLower_toUpper {c : Char} (h : isWordChar c = true) : c.toUpper.isLower = false :=
  of_isWordChar (fun c => c.toUpper.isLower = false) (by decide) h

/-- The lower case of a word character that is no digit is no digit. -/
theorem isDigit_toLower {c : Char} (h : isWordChar c = true) (hd : c.isDigit = false) :
    c.toLower.isDigit = false :=
  of_isWordChar (fun c => c.isDigit = false → c.toLower.isDigit = false) (by decide) h hd

/-! ## Names -/

/-- A name is a word character that is no digit, and more word characters. -/
theorem isName_cons_iff {c : Char} {rest : List Char} :
    IsName (c :: rest) ↔
      isWordChar c = true ∧ c.isDigit = false ∧ ∀ d ∈ rest, isWordChar d = true := by
  have hdigit : c.isDigit = false ↔ ¬('0' ≤ c ∧ c ≤ '9') := by
    rw [← isDigit_iff, Bool.not_eq_true]
  rw [hdigit]
  simp only [isWordChar_iff]
  constructor
  · intro h
    have hmem := List.forall_mem_cons.mp h.mem
    exact ⟨hmem.1, h.head c rfl, hmem.2⟩
  · rintro ⟨hc, hd, hr⟩
    refine ⟨List.cons_ne_nil c rest, List.forall_mem_cons.mpr ⟨hc, hr⟩, ?_⟩
    intro first hf
    rwa [← Option.some.inj hf]

/-- A name stays a name when more word characters stand behind it. -/
theorem IsName.append {name more : List Char} (h : IsName name)
    (hm : ∀ c ∈ more, isWordChar c = true) : IsName (name ++ more) := by
  cases name with
  | nil => exact absurd rfl h.ne_nil
  | cons c rest =>
    obtain ⟨hc, hd, hr⟩ := isName_cons_iff.mp h
    exact isName_cons_iff.mpr ⟨hc, hd, List.forall_mem_append.mpr ⟨hr, hm⟩⟩

/-- The characters of a name are word characters. -/
theorem IsName.isWordChar {name : List Char} (h : IsName name) :
    ∀ c ∈ name, isWordChar c = true :=
  fun c hc => isWordChar_iff.mpr (h.mem c hc)

/-- A capitalised name is the capital of its first character and the rest. -/
theorem IsName.exists_capitalize {name : String} (h : IsName name.toList) :
    ∃ c rest, name.toList = c :: rest ∧ (capitalize name).toList = c.toUpper :: rest := by
  cases hname : name.toList with
  | nil => exact absurd hname h.ne_nil
  | cons c rest =>
    rw [hname, isName_cons_iff] at h
    have hupper : Letter.upper c = [c.toUpper] :=
      Letter.upper_of_ascii (toNat_lt_of_isWordChar h.1)
    refine ⟨c, rest, rfl, ?_⟩
    rw [capitalize, hname]
    simp [hupper]

/-- A capitalised name is a name. -/
theorem IsName.capitalize {name : String} (h : IsName name.toList) :
    IsName (capitalize name).toList := by
  obtain ⟨c, rest, hname, hcapital⟩ := h.exists_capitalize
  rw [hname, isName_cons_iff] at h
  obtain ⟨hc, hd, hr⟩ := h
  rw [hcapital, isName_cons_iff]
  exact ⟨isWordChar_toUpper hc, isDigit_toUpper hc hd, hr⟩

/-- A capitalised name is as long as the name. -/
theorem IsName.length_capitalize {name : String} (h : IsName name.toList) :
    (Text.capitalize name).length = name.length := by
  obtain ⟨c, rest, hname, hcapital⟩ := h.exists_capitalize
  rw [← String.length_toList, ← String.length_toList, hname, hcapital]
  rfl

end QuerySurface.Text
