import Mailgrid.Text.Integer
import Mathlib.Algebra.Group.Nat.Defs

/-!
# Numbers are read as they are written

A number in decimal digits is read back, unless it has more digits than a number
may have.
-/

namespace Mailgrid.Text

theorem toNat_of_isDigit {c : Char} (h : c.isDigit = true) : 48 ≤ c.toNat ∧ c.toNat ≤ 57 := by
  simpa [Char.isDigit, UInt32.le_iff_toNat_le] using h

theorem digitIn?_of_isDigit {c : Char} (h : c.isDigit = true) :
    digitIn? 10 c = some (c.toNat - '0'.toNat) := by
  have hc := toNat_of_isDigit h
  have hzero : '0'.toNat = 48 := rfl
  have hvalue : digitValue? c = some (c.toNat - 48) := by
    rw [digitValue?]
    simp only [hc.1, hc.2, and_self, if_true]
    exact if_pos (by omega)
  rw [digitIn?, hvalue, hzero]
  simp only [Option.filter_some]
  exact if_pos (by simp; omega)

theorem isDigit_of_isDigit {c : Char} (h : c.isDigit = true) : isDigit c = true := by
  have hvalue := digitIn?_of_isDigit h
  unfold digitIn? at hvalue
  unfold isDigit
  cases hd : digitValue? c with
  | some d => rfl
  | none =>
    -- no letter is below ten
    have hc := toNat_of_isDigit h
    rw [digitValue?] at hd
    simp only [hc.1, hc.2, and_self, if_true] at hd
    rw [if_pos (by omega)] at hd
    cases hd

theorem digitsOnto_of_isDigit {s : List Char} (h : ∀ c ∈ s, c.isDigit = true) (value : Nat)
    {closed : Bool} (hs : s = [] → closed = true) :
    digitsOnto 10 value closed s = some (Nat.ofDigitChars 10 s value) := by
  induction s generalizing value closed with
  | nil =>
    rw [digitsOnto, hs rfl]
    rfl
  | cons c s ih =>
    obtain ⟨hc, hs⟩ := List.forall_mem_cons.mp h
    rw [digitsOnto, digitIn?_of_isDigit hc, Nat.ofDigitChars_cons]
    exact ih hs _ fun _ => rfl

theorem trim_of_not_blank {s : List Char} (h : ∀ c ∈ s, isBlank c = false) : trim s = s := by
  have hend : trimEnd s = s := by
    induction s with
    | nil => rfl
    | cons c s ih =>
      obtain ⟨hc, hs⟩ := List.forall_mem_cons.mp h
      rw [trimEnd, ih hs]
      cases s with
      | nil => exact if_neg (by simp [hc])
      | cons d s => rfl
  have hstart : skipBlanks s = s := by
    cases s with
    | nil => rfl
    | cons c s => exact skipBlanks_of_not_blank (h c List.mem_cons_self) s
  rw [trim, hstart, hend]

theorem isBlank_of_isDigit {c : Char} (h : c.isDigit = true) : isBlank c = false := by
  have hc := toNat_of_isDigit h
  simp only [isBlank, Bool.or_eq_false_iff, Bool.and_eq_false_iff, decide_eq_false_iff_not,
    beq_eq_false_iff_ne]
  omega

theorem isDigit_of_mem_toString {n : Nat} {c : Char} (h : c ∈ (toString n).toList) :
    c.isDigit = true := by
  rw [Nat.toString_eq_ofList_toDigits, String.toList_ofList] at h
  exact Nat.isDigit_of_mem_toDigits (by decide) (by decide) h

theorem toString_ne_nil (n : Nat) : (toString n).toList ≠ [] := by
  rw [Nat.toString_eq_ofList_toDigits, String.toList_ofList]
  exact Nat.toDigits_ne_nil

theorem natural?_toString {n : Nat} (h : n < 10 ^ maxDigits) :
    natural? (toString n).toList = some n := by
  have hlength : (toString n).toList.length ≤ maxDigits := by
    rw [Nat.toString_eq_ofList_toDigits, String.toList_ofList]
    exact (Nat.length_toDigits_le_iff (by decide) (by decide)).mpr h
  have hcount : ¬ maxDigits < (toString n).toList.countP isDigit :=
    Nat.not_lt.mpr (Nat.le_trans List.countP_le_length hlength)
  rw [natural?, if_neg hcount,
    digitsOnto_of_isDigit (fun _ => isDigit_of_mem_toString) 0
      fun he => absurd he (toString_ne_nil n),
    Nat.toString_eq_ofList_toDigits, String.toList_ofList, Nat.ofDigitChars_ten_toDigits]

theorem integer?_toString {n : Nat} (h : n < 10 ^ maxDigits) :
    integer? (toString n).toList = some (n : Int) := by
  have hdigit (c : Char) (hc : c ∈ (toString n).toList) := isDigit_of_mem_toString hc
  have hread := natural?_toString h
  rw [integer?, trim_of_not_blank fun c hc => isBlank_of_isDigit (hdigit c hc)]
  generalize (toString n).toList = digits at hdigit hread
  unfold signed?
  -- a sign is no digit
  split
  · exact absurd (hdigit _ List.mem_cons_self) (by decide)
  · exact absurd (hdigit _ List.mem_cons_self) (by decide)
  · rw [hread]
    rfl

end Mailgrid.Text
