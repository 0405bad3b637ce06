import CodeAtlas.Text.Case
import Mathlib.Data.List.Forall2

/-! Lowercase forms against case folding, for ASCII texts.

Beyond ASCII only the long s and the kelvin sign fold to ASCII, and only the kelvin
sign has a lowercase form in ASCII. So a text has the lowercase form of an ASCII text
just when the two match character by character without regard to case and no long s
takes part (`lowercaseFrom_eq_iff`). -/
namespace CodeAtlas.Text

/-- It folds to s, and is its own lowercase form. -/
def longS : Char := Char.ofNat 0x17F

/-- It folds to k, which is its lowercase form. -/
def kelvin : Char := Char.ofNat 0x212A

theorem toNat_ofNat {n : Nat} (h : n.isValidChar) : (Char.ofNat n).toNat = n := by
  rw [Char.ofNat, dif_pos h]
  rfl

theorem toNat_ne {c d : Char} (h : c ≠ d) : c.toNat ≠ d.toNat := fun he => h (Char.toNat_inj.mp he)

/-! ### Runs -/

/-- All code points of a run are mapped to characters beyond ASCII. -/
def staysHigh (run : CaseRun) : Bool :=
  let (first, last, _, shift) := run
  128 ≤ first + shift && (last + shift < 0xD800 || (0xDFFF < first + shift && last + shift < 0x110000))

theorem high_of_staysHigh {first last step : Nat} {shift : Int} (h : staysHigh (first, last, step, shift) = true) {n : Nat}
    (hfirst : first ≤ n) (hlast : n ≤ last) : 128 ≤ (n + shift).toNat ∧ (n + shift).toNat.isValidChar := by
  simp only [staysHigh, Bool.and_eq_true, Bool.or_eq_true, decide_eq_true_eq] at h
  unfold Nat.isValidChar
  omega

theorem applyRuns_high {runs : List CaseRun} {n : Nat} (hn : 128 ≤ n) (hvalid : n.isValidChar)
    (h : ∀ run ∈ runs, staysHigh run = true ∨ n < run.1 ∨ run.2.1 < n) :
    128 ≤ applyRuns n runs ∧ (applyRuns n runs).isValidChar := by
  induction runs with
  | nil => exact ⟨hn, hvalid⟩
  | cons run rest ih =>
    obtain ⟨first, last, step, shift⟩ := run
    have hrest := ih fun run hrun => h run (List.mem_cons_of_mem _ hrun)
    rw [applyRuns]
    split
    · exact ⟨hn, hvalid⟩
    · rename_i hfirst
      split
      · rename_i hhit
        have hlast : n ≤ last := by simpa using (Bool.and_eq_true_iff.mp hhit).1
        rcases h _ List.mem_cons_self with hstays | hbefore | hafter
        · exact high_of_staysHigh hstays (Nat.le_of_not_lt hfirst) hlast
        · exact absurd hbefore hfirst
        · exact absurd hlast (Nat.not_le_of_lt hafter)
      · exact hrest

theorem foldingRuns_high : ∀ run ∈ foldingRuns,
    staysHigh run = true ∨ run.2.1 < 128 ∨ (run.1 = 0x17F ∧ run.2.1 = 0x17F) ∨ (run.1 = 0x212A ∧ run.2.1 = 0x212A) := by
  decide +kernel

theorem lowercaseRuns_high : ∀ run ∈ lowercaseRuns,
    staysHigh run = true ∨ run.2.1 < 128 ∨ (run.1 = 0x212A ∧ run.2.1 = 0x212A) := by
  decide +kernel

theorem toNat_applyRuns {runs : List CaseRun} {c : Char} (hc : 128 ≤ c.toNat)
    (h : ∀ run ∈ runs, staysHigh run = true ∨ c.toNat < run.1 ∨ run.2.1 < c.toNat) :
    128 ≤ (Char.ofNat (applyRuns c.toNat runs)).toNat := by
  obtain ⟨hhigh, hvalid⟩ := applyRuns_high hc c.valid h
  rwa [toNat_ofNat hvalid]

/-! ### Characters -/

theorem fold_high {c : Char} (hc : 128 ≤ c.toNat) (hs : c ≠ longS) (hk : c ≠ kelvin) : 128 ≤ (fold c).toNat := by
  rw [fold, if_neg (by omega)]
  refine toNat_applyRuns hc fun run hrun => ?_
  have hs : c.toNat ≠ 0x17F := toNat_ne hs
  have hk : c.toNat ≠ 0x212A := toNat_ne hk
  exact (foldingRuns_high run hrun).imp_right (by omega)

theorem fold_ascii {c : Char} (hc : c.toNat < 128) : (fold c).toNat < 128 := by
  rw [fold, if_pos hc, asciiLower]
  split
  · rename_i hcapital
    have hle : c ≤ 'Z' := of_decide_eq_true (Bool.and_eq_true_iff.mp hcapital).2
    have hle : c.toNat ≤ 90 := hle
    have hvalid : (c.toNat + 32).isValidChar := .inl (by omega)
    rw [toNat_ofNat hvalid]
    omega
  · exact hc

theorem ascii_of_fold {c : Char} (h : (fold c).toNat < 128) : c.toNat < 128 ∨ c = longS ∨ c = kelvin := by
  by_contra hnot
  simp only [not_or] at hnot
  exact absurd h (Nat.not_lt_of_le (fold_high (Nat.le_of_not_lt hnot.1) hnot.2.1 hnot.2.2))

/-- What holds of the ASCII characters, the long s and the kelvin sign holds of every
character that folds to ASCII. -/
theorem of_fold {P : Char → Prop} {c : Char} (h : (fold c).toNat < 128) (hascii : ∀ n < 128, P (Char.ofNat n))
    (hs : P longS) (hk : P kelvin) : P c := by
  rcases ascii_of_fold h with hlow | rfl | rfl
  · exact Char.ofNat_toNat c ▸ hascii c.toNat hlow
  · exact hs
  · exact hk

/-- What folds to a letter is a word character. -/
theorem isWord_of_fold {c : Char} (h : isAsciiLetter (fold c) = true) : isWord c = true := by
  have hlow : (fold c).toNat < 128 := by
    rcases Bool.or_eq_true_iff.mp h with h | h
    · have hle : fold c ≤ 'z' := of_decide_eq_true (Bool.and_eq_true_iff.mp h).2
      exact Nat.lt_of_le_of_lt (show (fold c).toNat ≤ 122 from hle) (by decide)
    · have hle : fold c ≤ 'Z' := of_decide_eq_true (Bool.and_eq_true_iff.mp h).2
      exact Nat.lt_of_le_of_lt (show (fold c).toNat ≤ 90 from hle) (by decide)
  exact of_fold (P := fun c => isAsciiLetter (fold c) = true → isWord c = true) hlow (by decide +kernel)
    (by decide +kernel) (by decide +kernel) h

/-- What a character becomes in the lowercase form of a text. -/
def lowercaseIn (before : List Char) (c : Char) (rest : List Char) : List Char :=
  if c.toNat == 0x3A3 then
    [Char.ofNat (if reachesCased before && !reachesCased rest then 0x3C2 else 0x3C3)]
  else lowercaseChar c

theorem lowercaseFrom_cons (before : List Char) (c : Char) (rest : List Char) :
    lowercaseFrom before (c :: rest) = lowercaseIn before c rest ++ lowercaseFrom (c :: before) rest := rfl

/-- A character that folds to ASCII, other than the long s, has its fold as lowercase form. -/
theorem lowercaseIn_of_fold {c : Char} (hs : c ≠ longS) (hc : (fold c).toNat < 128) (before rest : List Char) :
    lowercaseIn before c rest = [fold c] := by
  by_cases hlow : c.toNat < 128
  · have hsigma : (c.toNat == 0x3A3) = false := beq_eq_false_iff_ne.mpr (by omega)
    rw [lowercaseIn, hsigma, lowercaseChar, if_pos hlow, fold, if_pos hlow]
    rfl
  · have hk : c = kelvin := by
      by_contra hk
      exact absurd hc (Nat.not_lt_of_le (fold_high (by omega) hs hk))
    rw [hk, lowercaseIn, if_neg (by decide)]
    decide +kernel

/-- No other character has a lowercase form in ASCII. -/
theorem lowercaseIn_high {c : Char} (h : c = longS ∨ ¬(fold c).toNat < 128) (before rest : List Char) :
    ∃ d ∈ lowercaseIn before c rest, 128 ≤ d.toNat := by
  rcases h with rfl | h
  · exact ⟨longS, show longS ∈ lowercaseChar longS by decide +kernel, by decide⟩
  have hc : 128 ≤ c.toNat := Nat.le_of_not_lt fun hc => h (fold_ascii hc)
  have hk : c.toNat ≠ 0x212A := toNat_ne (d := kelvin) fun hk => h (by rw [hk]; decide +kernel)
  unfold lowercaseIn lowercaseChar
  split
  · split <;> exact ⟨_, List.mem_singleton.mpr rfl, by decide⟩
  · rw [if_neg (by omega)]
    split
    · exact ⟨Char.ofNat 0x307, by simp, by decide⟩
    · refine ⟨_, List.mem_singleton.mpr rfl, toNat_applyRuns hc fun run hrun => ?_⟩
      exact (lowercaseRuns_high run hrun).imp_right (by omega)

/-! ### Texts -/

theorem lowercaseFrom_ascii {ns : List Char} (h : ∀ n ∈ ns, n.toNat < 128) (before : List Char) :
    lowercaseFrom before ns = ns.map fold := by
  induction ns generalizing before with
  | nil => rfl
  | cons n ns ih =>
    have hn : n.toNat < 128 := h n List.mem_cons_self
    have hs : n ≠ longS := fun hs => absurd hn (by rw [hs]; decide)
    rw [lowercaseFrom_cons, lowercaseIn_of_fold hs (fold_ascii hn), ih fun m hm => h m (List.mem_cons_of_mem n hm)]
    rfl

/-- A text has the lowercase form of an ASCII text when they match without regard to
case, and there is no long s in it. -/
theorem lowercaseFrom_eq_iff {ns cs : List Char} (h : ∀ n ∈ ns, n.toNat < 128) (before before' : List Char) :
    lowercaseFrom before cs = lowercaseFrom before' ns ↔
      List.Forall₂ (fun n c => sameFold n c = true) ns cs ∧ longS ∉ cs := by
  rw [lowercaseFrom_ascii h]
  induction cs generalizing before ns with
  | nil => cases ns <;> simp [lowercaseFrom]
  | cons c rest ih =>
    rw [lowercaseFrom_cons]
    by_cases hc : c ≠ longS ∧ (fold c).toNat < 128
    · rw [lowercaseIn_of_fold hc.1 hc.2]
      cases ns with
      | nil => simp
      | cons n ns =>
        have hih := ih (fun m hm => h m (List.mem_cons_of_mem n hm)) (c :: before)
        have hs : longS ∉ c :: rest ↔ longS ∉ rest := by simp [hc.1.symm]
        rw [List.singleton_append, List.map_cons, List.cons.injEq, List.forall₂_cons, hih, hs, sameFold, beq_iff_eq,
          and_assoc, eq_comm]
    · -- Something in the form is beyond ASCII, while the fold of the ASCII text is not.
      obtain ⟨d, hd, hhigh⟩ := lowercaseIn_high (not_and_or.mp hc |>.imp_left not_not.mp) before rest
      refine iff_of_false (fun he => ?_) fun ⟨hmatch, hs⟩ => ?_
      · obtain ⟨n, hn, rfl⟩ := List.mem_map.mp (he ▸ List.mem_append_left _ hd)
        exact absurd (fold_ascii (h n hn)) (Nat.not_lt_of_le hhigh)
      · obtain ⟨n, ns, hsame, -, rfl⟩ := List.forall₂_cons_right_iff.mp hmatch
        refine hc ⟨fun hlong => hs (hlong ▸ List.mem_cons_self), ?_⟩
        rw [← beq_iff_eq.mp hsame]
        exact fold_ascii (h n List.mem_cons_self)

end CodeAtlas.Text
