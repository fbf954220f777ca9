import Mathlib.Algebra.Order.Ring.Nat
import MbararaAuction.Model.Decimals
import MbararaAuction.Proofs.LocalTimes

namespace MbararaAuction

section Digits
variable {c : Char} {ds es rest : List Char} {n : Nat}

def AllDigits (ds : List Char) : Prop := ∀ c ∈ ds, c.isDigit = true

theorem AllDigits.append (hd : AllDigits ds) (he : AllDigits es) : AllDigits (ds ++ es) := by
  intro c hc
  exact (List.mem_append.mp hc).elim (hd c) (he c)

theorem allDigits_toDigits : AllDigits (Nat.toDigits 10 n) :=
  fun _ hc => Nat.isDigit_of_mem_toDigits (by decide) (by decide) hc

theorem allDigits_zeros : AllDigits (List.replicate n '0') := by
  intro c hc
  rw [List.eq_of_mem_replicate hc]
  rfl

theorem toString_toList : (toString n).toList = Nat.toDigits 10 n := Nat.toList_repr

theorem digitsValue_toDigits : digitsValue (Nat.toDigits 10 n) = n := Nat.ofDigitChars_ten_toDigits

/-- Zeros in front change nothing. -/
theorem digitsValue_zeros : digitsValue (List.replicate n '0' ++ ds) = digitsValue ds := by
  induction n with
  | zero => rfl
  | succ n ih => exact ih

theorem span_digits (hd : AllDigits ds) (hrest : ∀ c, rest.head? = some c → c.isDigit = false) :
    (ds ++ rest).takeWhile Char.isDigit = ds ∧ (ds ++ rest).dropWhile Char.isDigit = rest := by
  rw [List.takeWhile_append_of_pos hd, List.dropWhile_append_of_pos hd]
  cases rest with
  | nil => exact ⟨List.append_nil ds, rfl⟩
  | cons c rest =>
    have hc := hrest c rfl
    rw [List.takeWhile_cons_of_neg (by simp [hc]), List.dropWhile_cons_of_neg (by simp [hc])]
    exact ⟨List.append_nil ds, rfl⟩

end Digits

section Parts
variable {negative : Bool} {whole fraction body : List Char} {power : Int}

/-- A point and the digits after it, where there are any. -/
def pointed (fraction : List Char) : List Char :=
  if fraction = [] then [] else '.' :: fraction

/-- The exponent, where it is not zero. -/
def exponentText (power : Int) : List Char :=
  if power = 0 then []
  else 'E' :: (if power < 0 then '-' else '+') :: Nat.toDigits 10 power.natAbs

def signText (negative : Bool) : List Char := if negative then ['-'] else []

theorem readExponent_text : readExponent (exponentText power) = some power := by
  unfold exponentText
  split
  · next hzero => rw [hzero]; rfl
  · have hall : (Nat.toDigits 10 power.natAbs).all Char.isDigit = true :=
      List.all_eq_true.mpr allDigits_toDigits
    have hletter : 'E'.toLower = 'e' := by decide
    split
    · simp only [readExponent, splitSign, hletter, hall, digitsValue_toDigits, ne_eq,
        Nat.toDigits_ne_nil, not_false_eq_true, and_self, ↓reduceIte, Option.some.injEq]
      omega
    · simp only [readExponent, splitSign, hletter, hall, digitsValue_toDigits, ne_eq,
        Nat.toDigits_ne_nil, not_false_eq_true, and_self, Bool.false_eq_true, ↓reduceIte,
        Option.some.injEq]
      omega

theorem exponentText_head {c : Char} (h : (exponentText power).head? = some c) : c = 'E' := by
  unfold exponentText at h
  split at h
  · cases h
  · simpa using h.symm

theorem splitFraction_pointed (hfraction : AllDigits fraction) :
    splitFraction (pointed fraction ++ exponentText power) = (fraction, exponentText power) := by
  have hend : ∀ c, (exponentText power).head? = some c → c.isDigit = false := by
    intro c hc
    rw [exponentText_head hc]
    rfl
  unfold pointed
  split
  · next hempty =>
    rw [hempty, List.nil_append]
    cases hrest : exponentText power with
    | nil => rfl
    | cons c rest =>
      have hhead : (exponentText power).head? = some c := by rw [hrest]; rfl
      have hc := exponentText_head hhead
      subst hc
      rfl
  · obtain ⟨htake, hdrop⟩ := span_digits hfraction hend
    simp only [List.cons_append, splitFraction, htake, hdrop]

/-- A number in the three parts that `str` writes is read back. -/
theorem readFinite_parts (negative : Bool) (hwhole : AllDigits whole) (hfraction : AllDigits fraction)
    (hne : whole ≠ []) (hlimits : withinLimits (digitsValue (whole ++ fraction))
      (power - fraction.length) = true) :
    readFinite negative (whole ++ (pointed fraction ++ exponentText power)) =
      some (.finite negative (digitsValue (whole ++ fraction)) (power - fraction.length)) := by
  have hend : ∀ c, (pointed fraction ++ exponentText power).head? = some c → c.isDigit = false := by
    intro c hc
    unfold pointed at hc
    split at hc
    · rw [exponentText_head hc]
      rfl
    · cases hc
      rfl
  obtain ⟨htake, hdrop⟩ := span_digits hwhole hend
  have hsome : whole ++ fraction ≠ [] := by simp [hne]
  simp only [readFinite, htake, hdrop, splitFraction_pointed hfraction, readExponent_text,
    Option.bind_eq_bind, Option.bind_some, if_neg hsome, hlimits, ↓reduceIte]

/-- The text of the exponent in `str`. -/
theorem exponentText_toList : (if power = 0 then "" else
    (if power < 0 then "E-" else "E+") ++ toString power.natAbs).toList = exponentText power := by
  unfold exponentText
  split
  · rfl
  · split <;> simp [Nat.toList_repr]

/-- The three parts of the text of a finite number. -/
theorem str_parts (negative : Bool) (coefficient : Nat) (exponent : Int) :
    ∃ whole fraction power, AllDigits whole ∧ AllDigits fraction ∧ whole ≠ [] ∧
      digitsValue (whole ++ fraction) = coefficient ∧ power - fraction.length = exponent ∧
      (Decimal.str negative coefficient exponent).toList =
        signText negative ++ (whole ++ (pointed fraction ++ exponentText power)) := by
  let digits := Nat.toDigits 10 coefficient
  have hpos : 0 < digits.length := Nat.length_toDigits_pos
  have hdigits : (toString coefficient).toList = digits := toString_toList
  have hlength : (toString coefficient).length = digits.length := by
    rw [← String.length_toList, hdigits]
  have hall : AllDigits digits := allDigits_toDigits
  have hsign : (if negative then "-" else "").toList = signText negative := by
    cases negative <;> rfl
  unfold Decimal.str
  dsimp only
  rw [hlength]
  generalize hplace : (if exponent ≤ 0 ∧ -6 < exponent + (digits.length : Int) then
    exponent + (digits.length : Int) else 1) = dotPlace
  by_cases hleft : dotPlace ≤ 0
  · -- the point stands before all digits
    have hplain : dotPlace = exponent + digits.length := by split at hplace <;> omega
    refine ⟨['0'], List.replicate (-dotPlace).toNat '0' ++ digits, 0, ?_, allDigits_zeros.append hall,
      by simp, ?_, ?_, ?_⟩
    · intro c hc
      rw [List.mem_singleton.mp hc]
      rfl
    · exact digitsValue_zeros (n := 1).trans (digitsValue_zeros.trans digitsValue_toDigits)
    · simp only [List.length_append, List.length_replicate]
      omega
    · have hzero : exponent + digits.length - dotPlace = 0 := by omega
      have hne : List.replicate (-dotPlace).toNat '0' ++ digits ≠ [] :=
        List.append_ne_nil_of_right_ne_nil _ (List.ne_nil_of_length_pos hpos)
      simp only [if_pos hleft, hzero, pointed, if_neg hne, String.toList_append, hsign, hdigits,
        String.toList_ofList, exponentText, ↓reduceIte]
      simp
  · by_cases hright : (digits.length : Int) ≤ dotPlace
    · -- there is no point
      have hwhole : dotPlace = digits.length := by split at hplace <;> omega
      refine ⟨digits, [], exponent, hall, by simp [AllDigits], List.ne_nil_of_length_pos hpos, ?_,
        by simp, ?_⟩
      · rw [List.append_nil]
        exact digitsValue_toDigits
      · have hpower : exponent + digits.length - dotPlace = exponent := by omega
        have hnone : (dotPlace - digits.length).toNat = 0 := by omega
        rw [if_neg hleft, if_pos hright, hpower, hnone, String.toList_append, exponentText_toList]
        simp only [String.toList_append, hsign, hdigits, pointed, ↓reduceIte]
        simp
    · -- the point stands between two digits
      have hcut : dotPlace.toNat < digits.length := by omega
      have hsome : 0 < dotPlace.toNat := by omega
      have htail : digits.drop dotPlace.toNat ≠ [] := by
        rw [ne_eq, List.drop_eq_nil_iff]
        omega
      refine ⟨digits.take dotPlace.toNat, digits.drop dotPlace.toNat,
        exponent + digits.length - dotPlace, fun c hc => hall c (List.mem_of_mem_take hc),
        fun c hc => hall c (List.mem_of_mem_drop hc), ?_, ?_, ?_, ?_⟩
      · apply List.ne_nil_of_length_pos
        rw [List.length_take]
        omega
      · rw [List.take_append_drop]
        exact digitsValue_toDigits
      · rw [List.length_drop]
        omega
      · rw [if_neg hleft, if_neg hright, String.toList_append, exponentText_toList]
        simp only [String.toList_append, hsign, hdigits, pointed, if_neg htail,
          String.toList_ofList]
        simp

/-- The characters of the text of a finite number. -/
def Plain (c : Char) : Prop := c.isDigit = true ∨ c = '.' ∨ c = 'E' ∨ c = '+' ∨ c = '-'

theorem parts_plain (hwhole : AllDigits whole) (hfraction : AllDigits fraction) :
    ∀ c ∈ signText negative ++ (whole ++ (pointed fraction ++ exponentText power)), Plain c := by
  intro c hc
  simp only [List.mem_append] at hc
  rcases hc with hc | hc | hc | hc
  · cases negative with
    | false => cases hc
    | true =>
      rw [List.mem_singleton.mp hc]
      exact .inr (.inr (.inr (.inr rfl)))
  · exact .inl (hwhole c hc)
  · unfold pointed at hc
    split at hc
    · cases hc
    · rcases List.mem_cons.mp hc with rfl | hc
      · exact .inr (.inl rfl)
      · exact .inl (hfraction c hc)
  · unfold exponentText at hc
    split at hc
    · cases hc
    · rcases List.mem_cons.mp hc with rfl | hc
      · exact .inr (.inr (.inl rfl))
      · rcases List.mem_cons.mp hc with rfl | hc
        · split
          · exact .inr (.inr (.inr (.inr rfl)))
          · exact .inr (.inr (.inr (.inl rfl)))
        · exact .inl (allDigits_toDigits c hc)

theorem Plain.isSpace {c : Char} (h : Plain c) : isSpace c = false := by
  rcases h with h | rfl | rfl | rfl | rfl
  · exact isSpace_digit h
  all_goals decide

theorem Plain.ascii {c : Char} (h : Plain c) : c ≠ '_' ∧ c.toNat < 128 := by
  rcases h with h | rfl | rfl | rfl | rfl
  · have hrange : 48 ≤ c.toNat ∧ c.toNat ≤ 57 := by
      simpa [Char.isDigit, UInt32.le_iff_toNat_le] using h
    refine ⟨?_, by omega⟩
    intro hc
    rw [hc] at h
    cases h
  all_goals decide

end Parts

section Reading
variable {negative : Bool} {body : List Char} {c : Char} {text : String}

/-- Plain characters are parsed as they are. -/
theorem decimalText_plain (h : ∀ c ∈ text.toList, Plain c) : decimalText text = text.toList := by
  have hkept : text.toList.filter (· ≠ '_') = text.toList :=
    List.filter_eq_self.mpr fun c hc => by simp [(h c hc).ascii.1]
  rw [decimalText, strip_solid fun c hc => (h c hc).isSpace, hkept]
  conv_rhs => rw [← List.map_id text.toList]
  refine List.map_congr_left fun c hc => ?_
  rw [if_pos (h c hc).ascii.2, id_eq]

/-- A text whose first digit stands after at most a sign is read as a finite number. -/
theorem ofText_digit (hc : c.isDigit = true)
    (htext : decimalText text = signText negative ++ c :: body) :
    Decimal.ofText text = readFinite negative (c :: body) := by
  have hrange : 48 ≤ c.toNat ∧ c.toNat ≤ 57 := by
    simpa [Char.isDigit, UInt32.le_iff_toNat_le] using hc
  have hsplit : splitSign (decimalText text) = (negative, c :: body) := by
    rw [htext]
    cases negative with
    | true => rfl
    | false =>
      simp only [signText, Bool.false_eq_true, ↓reduceIte, List.nil_append, splitSign]
      split
      · next heq => cases heq; cases hc
      · next heq => cases heq; cases hc
      · rfl
  have hsmall : ¬ (c.val ≥ 'A'.val ∧ c.val ≤ 'Z'.val) := by
    rw [not_and, ge_iff_le, UInt32.le_iff_toNat_le]
    intro hupper
    have hletter : 65 ≤ c.toNat := hupper
    omega
  have hsame : c.toLower = c := dif_neg hsmall
  have hlower : c.toLower.isDigit = true := by rw [hsame, hc]
  unfold Decimal.ofText
  rw [hsplit]
  dsimp only
  rw [List.map_cons]
  generalize c.toLower = lower at hlower
  generalize body.map Char.toLower = lowered
  split
  · next heq => cases heq; cases hlower
  · next heq => cases heq; cases hlower
  · next heq => cases heq; cases hlower
  · next heq => cases heq; cases hlower
  · rfl

/-- The numbers that have a text of their own: not the payload of a NaN, and nothing that
an exact conversion refuses. -/
def Decimal.readable : Decimal → Bool
  | finite _ coefficient exponent => withinLimits coefficient exponent
  | infinity _ | nan _ => true

theorem ofText_str {coefficient : Nat} {exponent : Int}
    (h : withinLimits coefficient exponent = true) :
    Decimal.ofText (Decimal.str negative coefficient exponent) =
      some (.finite negative coefficient exponent) := by
  obtain ⟨whole, fraction, power, hwhole, hfraction, hne, hvalue, hscale, htext⟩ :=
    str_parts negative coefficient exponent
  have hplain : ∀ c ∈ (Decimal.str negative coefficient exponent).toList, Plain c := by
    rw [htext]
    exact parts_plain hwhole hfraction
  cases whole with
  | nil => exact absurd rfl hne
  | cons c whole =>
    have hparsed := (decimalText_plain hplain).trans htext
    have hread := readFinite_parts negative hwhole hfraction hne
      (by rw [hvalue, hscale]; exact h)
    rw [hvalue, hscale] at hread
    exact (ofText_digit (hwhole c List.mem_cons_self) hparsed).trans hread

/-- What `str` writes of a decimal, `Decimal` reads back. -/
theorem ofText_text {d : Decimal} (h : d.readable = true) : Decimal.ofText d.text = some d := by
  cases d with
  | finite negative coefficient exponent => exact ofText_str h
  | infinity negative => cases negative <;> decide +kernel
  | nan signaling => cases signaling <;> decide +kernel

end Reading

section Money
open Calendars
variable {n : Nat} {m : Money}

theorem padded_toList (h : n < 100) : (padded n).toList = twoDigits n := by
  unfold padded twoDigits
  split
  · next hsmall =>
    have hhigh : n / 10 = 0 := by omega
    have hlow : n % 10 = n := by omega
    rw [String.toList_append, toString_toList, Nat.toDigits_of_lt_base hsmall, hhigh, hlow]
    rfl
  · have hhigh : n / 10 < 10 := by omega
    rw [toString_toList, Nat.toDigits_of_base_le (by decide) (by omega),
      Nat.toDigits_of_lt_base hhigh]
    rfl

/-- A number below 100 is padded to two digits. -/
theorem twoDigits_small (h : n < 100) : twoDigits n =
    List.replicate (2 - (Nat.toDigits 10 n).length) '0' ++ Nat.toDigits 10 n := by
  rw [← padded_toList h]
  unfold padded
  split
  · next hone =>
    rw [String.toList_append, toString_toList, Nat.toDigits_of_lt_base hone]
    rfl
  · next htwo =>
    have hlong : ¬ (Nat.toDigits 10 n).length ≤ 1 := fun hle =>
      htwo ((Nat.length_toDigits_le_iff (by decide) (by decide)).mp hle)
    have hnone : 2 - (Nat.toDigits 10 n).length = 0 := by omega
    rw [toString_toList, hnone]
    rfl

/-- The last two digits of a number, and those before them. -/
theorem toDigits_hundreds (h : 100 ≤ n) :
    Nat.toDigits 10 n = Nat.toDigits 10 (n / 100) ++ twoDigits (n % 100) := by
  have hhundreds : n / 10 / 10 = n / 100 := by omega
  have htens : n / 10 % 10 = n % 100 / 10 := by omega
  have hones : n % 10 = n % 100 % 10 := by omega
  rw [Nat.toDigits_of_base_le (by decide) (by omega), Nat.toDigits_of_base_le (by decide) (by omega),
    hhundreds, htens, hones]
  simp [twoDigits]

theorem moneyStr_toList (m : Money) : (moneyStr m).toList = signText (m < 0) ++
    (Nat.toDigits 10 (m.natAbs / 100) ++ '.' :: twoDigits (m.natAbs % 100)) := by
  have hcents : m.natAbs % 100 < 100 := by omega
  have hsign : (if m < 0 then "-" else "").toList = signText (m < 0) := by
    unfold signText
    split <;> simp_all
  simp only [moneyStr, String.toList_append, hsign, toString_toList, padded_toList hcents]
  simp

/-- A money column is a decimal of scale 2. -/
theorem moneyStr_eq (m : Money) : moneyStr m = Decimal.str (m < 0) m.natAbs (-2) := by
  have hsign : (if decide (m < 0) = true then "-" else "").toList = signText (m < 0) := by
    cases decide (m < 0) <;> rfl
  rw [← String.toList_inj, moneyStr_toList]
  generalize m.natAbs = n
  generalize decide (m < 0) = negative at hsign ⊢
  let digits := Nat.toDigits 10 n
  have hpos : 0 < digits.length := Nat.length_toDigits_pos
  have hlength : (toString n).length = digits.length := by
    rw [← String.length_toList, toString_toList]
  have hplace : (-2 : Int) ≤ 0 ∧ -6 < -2 + (digits.length : Int) := by omega
  unfold Decimal.str
  dsimp only
  have hpower : (-2 : Int) + digits.length - (-2 + digits.length) = 0 := by omega
  rw [hlength, if_pos hplace, if_pos hpower, String.append_empty, String.toList_append, hsign,
    List.append_cancel_left_eq]
  by_cases hsmall : n < 100
  · have hwhole : n / 100 = 0 := by omega
    have hcents : n % 100 = n := by omega
    have hshort : digits.length ≤ 2 := (Nat.length_toDigits_le_iff (by decide) (by decide)).mpr hsmall
    have hzeros : (-(-2 + (digits.length : Int))).toNat = 2 - digits.length := by omega
    rw [if_pos (by omega), hwhole, hcents, twoDigits_small hsmall, hzeros, Nat.toDigits_zero,
      String.toList_append, String.toList_append, toString_toList,
      String.toList_ofList (l := List.replicate _ '0')]
    rfl
  · have hdigits : digits = Nat.toDigits 10 (n / 100) ++ twoDigits (n % 100) :=
      toDigits_hundreds (by omega)
    have hlong : digits.length = (Nat.toDigits 10 (n / 100)).length + 2 := by
      rw [hdigits, List.length_append]
      rfl
    have hcut : (-2 + (digits.length : Int)).toNat = (Nat.toDigits 10 (n / 100)).length := by omega
    have hhead : 0 < (Nat.toDigits 10 (n / 100)).length := Nat.length_toDigits_pos
    rw [if_neg (by omega), if_neg (by omega), toString_toList, hcut]
    change _ = (String.ofList (digits.take _) ++ "." ++ String.ofList (digits.drop _)).toList
    rw [hdigits, List.take_left', List.drop_left']
    · simp
    · rfl
    · rfl

theorem money_withinLimits {coefficient : Nat} (h : coefficient < 10 ^ 14) :
    withinLimits coefficient (-2) = true := by
  have hlength : (toString coefficient).length ≤ 14 := by
    rw [← String.length_toList, toString_toList]
    exact (Nat.length_toDigits_le_iff (by decide) (by decide)).mpr h
  unfold withinLimits minEtiny maxEmax
  split
  · decide
  · simp only [Bool.and_eq_true, decide_eq_true_eq]
    omega

/-- What is quoted of a money column, `Decimal` reads back. -/
theorem ofText_moneyStr (hm : m.natAbs < 10 ^ 14) :
    Decimal.ofText (moneyStr m) = some (.finite (m < 0) m.natAbs (-2)) := by
  rw [moneyStr_eq]
  exact ofText_str (money_withinLimits hm)

theorem cents_money (m : Money) : cents (m < 0) m.natAbs (-2) = m := by
  have hscale : Nat.pow 10 ((-2 : Int) + 2).toNat = 1 := rfl
  rw [cents, hscale, Nat.mul_one]
  by_cases hneg : m < 0
  · rw [if_pos (decide_eq_true hneg), Int.ofNat_natAbs_of_nonpos (Int.le_of_lt hneg), Int.neg_mul_neg,
      Int.one_mul]
  · rw [if_neg (by simpa using hneg), Int.natAbs_of_nonneg (Int.not_lt.mp hneg), Int.one_mul]

end Money

end MbararaAuction
