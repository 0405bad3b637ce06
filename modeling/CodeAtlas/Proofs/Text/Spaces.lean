import CodeAtlas.Text.Chars
import Mathlib.Data.List.DropRight

/-! White space.

The characters that count as white space are few, so what holds of all of them can be
checked one by one (`of_isSpace`). Trimming takes white space from both ends of a text, and
leaves a text as it is that has none there (`trimChars_eq_self_iff`). -/
namespace CodeAtlas.Text

variable {c : Char}

/-- The code points of white space. -/
def spaceCodes : List Nat :=
  [9, 10, 11, 12, 13, 0x20, 0x85, 0xA0, 0x1680, 0x2000, 0x2001, 0x2002, 0x2003, 0x2004, 0x2005, 0x2006, 0x2007, 0x2008,
    0x2009, 0x200A, 0x2028, 0x2029, 0x202F, 0x205F, 0x3000]

theorem mem_spaceCodes (h : isSpace c = true) : c.toNat ∈ spaceCodes := by
  simp only [isSpace, Bool.or_eq_true, Bool.and_eq_true, decide_eq_true_eq, beq_iff_eq] at h
  simp only [spaceCodes, List.mem_cons, List.not_mem_nil]
  omega

/-- What holds of each of the code points holds of all white space. -/
theorem of_isSpace {P : Char → Prop} (hall : ∀ n ∈ spaceCodes, P (Char.ofNat n)) (h : isSpace c = true) : P c :=
  Char.ofNat_toNat c ▸ hall c.toNat (mem_spaceCodes h)

theorem isWord_of_isSpace (h : isSpace c = true) : isWord c = false :=
  of_isSpace (P := fun c => isWord c = false) (by decide +kernel) h

/-! ### Trimming -/

theorem trimChars_eq (cs : List Char) : trimChars cs = (cs.dropWhile isSpace).rdropWhile isSpace := rfl

/-- Trimming leaves a text as it is that neither begins nor ends with white space. -/
theorem trimChars_eq_self_iff {cs : List Char} : trimChars cs = cs ↔
    (∀ c ∈ cs.head?, isSpace c = false) ∧ ∀ c ∈ cs.getLast?, isSpace c = false := by
  have hleft : cs.dropWhile isSpace = cs ↔ ∀ c ∈ cs.head?, isSpace c = false := by
    cases cs with
    | nil => simp
    | cons c rest => simp [List.dropWhile_eq_self_iff]
  have hright : cs.rdropWhile isSpace = cs ↔ ∀ c ∈ cs.getLast?, isSpace c = false := by
    rw [List.rdropWhile_eq_self_iff]
    constructor
    · intro h c hc
      obtain ⟨hne, rfl⟩ := List.mem_getLast?_eq_getLast hc
      simpa using h hne
    · intro h hne
      simpa using h _ (List.getLast_mem_getLast? hne)
  rw [← hleft, ← hright, trimChars_eq]
  constructor
  · intro h
    have hlength := congrArg List.length h
    have hle := (List.rdropWhile_prefix isSpace (l := cs.dropWhile isSpace)).length_le
    have hwhole : cs.dropWhile isSpace = cs := (List.dropWhile_suffix isSpace).eq_of_length_le (by omega)
    exact ⟨hwhole, by rwa [hwhole] at h⟩
  · rintro ⟨hl, hr⟩
    rw [hl, hr]

theorem trimChars_of_forall {cs : List Char} (h : ∀ c ∈ cs, isSpace c = false) : trimChars cs = cs :=
  trimChars_eq_self_iff.mpr ⟨fun c hc => h c (List.mem_of_mem_head? hc), fun c hc => h c (List.mem_of_getLast? hc)⟩

theorem trimChars_trimChars (cs : List Char) : trimChars (trimChars cs) = trimChars cs := by
  have hstart : trimChars cs <+: cs.dropWhile isSpace := List.rdropWhile_prefix ..
  have hhead : (trimChars cs).dropWhile isSpace = trimChars cs := by
    rw [List.dropWhile_eq_self_iff]
    intro hpos
    rw [hstart.getElem hpos]
    exact List.dropWhile_eq_self_iff.mp (List.dropWhile_idempotent ..) _
  rw [trimChars_eq (trimChars cs), hhead, trimChars_eq, List.rdropWhile_idempotent]

end CodeAtlas.Text
