import Mathlib.Data.List.TakeWhile

namespace Calendars

/-- A date and a time of day, to the second and without a zone. -/
structure Stamp where
  year : Nat
  month : Nat
  day : Nat
  hour : Nat
  minute : Nat
  second : Nat
deriving DecidableEq, Repr

/-- The numbers of a stamp. -/
inductive Numeral where
  | year | month | day | hour | minute | second
deriving DecidableEq, Repr

def Numeral.get (x : Stamp) : Numeral → Nat
  | year => x.year
  | month => x.month
  | day => x.day
  | hour => x.hour
  | minute => x.minute
  | second => x.second

def Numeral.set (n : Nat) (x : Stamp) : Numeral → Stamp
  | year => { x with year := n }
  | month => { x with month := n }
  | day => { x with day := n }
  | hour => { x with hour := n }
  | minute => { x with minute := n }
  | second => { x with second := n }

/-- The range of a part. -/
def Numeral.admits (n : Nat) : Numeral → Bool
  | year => 1 ≤ n && n ≤ 9999
  | month => 1 ≤ n && n ≤ 12
  | day => 1 ≤ n && n ≤ 31
  | hour => n ≤ 23
  | minute | second => n ≤ 59

/-- A format: numbers, and the characters between them. -/
inductive Directive where
  | num (p : Numeral)
  | lit (c : Char)
deriving DecidableEq, Repr

def twoDigits (n : Nat) : List Char := [Nat.digitChar (n / 10), Nat.digitChar (n % 10)]

/-- Years are printed as they are, the other numbers with two digits. -/
def Numeral.print (n : Nat) : Numeral → List Char
  | year => Nat.toDigits 10 n
  | _ => twoDigits n

/-- `strftime`. -/
def print (x : Stamp) : List Directive → List Char
  | [] => []
  | .lit c :: fmt => c :: print x fmt
  | .num p :: fmt => p.print (p.get x) ++ print x fmt

def digit? (c : Char) : Option Nat := if c.isDigit then some (c.toNat - 48) else none

/-- The four digits of a year. -/
def scanYear : List Char → Option (Nat × List Char)
  | c₃ :: c₂ :: c₁ :: c₀ :: rest =>
    match digit? c₃, digit? c₂, digit? c₁, digit? c₀ with
    | some d₃, some d₂, some d₁, some d₀ => some (1000 * d₃ + 100 * d₂ + 10 * d₁ + d₀, rest)
    | _, _, _, _ => none
  | _ => none

/-- The other numbers have one digit or two. -/
def scanShort : List Char → Option (Nat × List Char)
  | [] => none
  | [c] => (digit? c).map fun d => (d, [])
  | c₁ :: c₀ :: rest =>
    match digit? c₁, digit? c₀ with
    | some d₁, some d₀ => some (10 * d₁ + d₀, rest)
    | some d₁, none => some (d₁, c₀ :: rest)
    | none, _ => none

def Numeral.scan (text : List Char) : Numeral → Option (Nat × List Char)
  | year => scanYear text
  | _ => scanShort text

/-- `strptime`: the numbers of the text over those of `x`. -/
def scan : List Directive → List Char → Stamp → Option Stamp
  | [], [], x => some x
  | [], _ :: _, _ => none
  | .lit _ :: _, [], _ => none
  | .lit c :: fmt, c' :: rest, x => if c' = c then scan fmt rest x else none
  | .num p :: fmt, text, x =>
    match p.scan text with
    | some (n, rest) => if p.admits n then scan fmt rest (p.set n x) else none
    | none => none

/-- The parts that a format names, taken over from `x`. -/
def copy (x : Stamp) : List Directive → Stamp → Stamp
  | [], y => y
  | .lit _ :: fmt, y => copy x fmt y
  | .num p :: fmt, y => copy x fmt (p.set (p.get x) y)

section Digits
variable {c : Char} {n : Nat} {text rest : List Char}

theorem digit_digitChar (h : n < 10) : digit? (Nat.digitChar n) = some n := by
  revert n
  decide

theorem isDigit_of_digit {d : Nat} (h : digit? c = some d) : c.isDigit = true := by
  by_contra hc
  rw [digit?, if_neg hc] at h
  cases h

theorem scanShort_twoDigits (h : n < 100) : scanShort (twoDigits n ++ rest) = some (n, rest) := by
  have hhigh : n / 10 < 10 := by omega
  have hlow : n % 10 < 10 := by omega
  simp only [twoDigits, List.cons_append, List.nil_append, scanShort, digit_digitChar hhigh,
    digit_digitChar hlow]
  have hsplit : 10 * (n / 10) + n % 10 = n := by omega
  rw [hsplit]

/-- A year between 1000 and 9999 has four digits. -/
theorem toDigits_year (hlow : 1000 ≤ n) (hhigh : n < 10000) :
    Nat.toDigits 10 n = [Nat.digitChar (n / 10 / 10 / 10), Nat.digitChar (n / 10 / 10 % 10),
      Nat.digitChar (n / 10 % 10), Nat.digitChar (n % 10)] := by
  rw [Nat.toDigits_of_base_le (by decide) (by omega), Nat.toDigits_of_base_le (by decide) (by omega),
    Nat.toDigits_of_base_le (by decide) (by omega), Nat.toDigits_of_lt_base (by omega)]
  rfl

theorem scanYear_toDigits (hlow : 1000 ≤ n) (hhigh : n < 10000) :
    scanYear (Nat.toDigits 10 n ++ rest) = some (n, rest) := by
  rw [toDigits_year hlow hhigh]
  have h₃ : n / 10 / 10 / 10 < 10 := by omega
  have h₂ : n / 10 / 10 % 10 < 10 := by omega
  have h₁ : n / 10 % 10 < 10 := by omega
  have h₀ : n % 10 < 10 := by omega
  simp only [List.cons_append, List.nil_append, scanYear, digit_digitChar h₃, digit_digitChar h₂,
    digit_digitChar h₁, digit_digitChar h₀]
  have hsplit : 1000 * (n / 10 / 10 / 10) + 100 * (n / 10 / 10 % 10) + 10 * (n / 10 % 10) + n % 10 =
      n := by omega
  rw [hsplit]

/-- What is read as a year is four digits. -/
theorem scanYear_some (h : scanYear text = some (n, rest)) :
    ∃ digits, digits.length = 4 ∧ (∀ c ∈ digits, c.isDigit = true) ∧ text = digits ++ rest := by
  unfold scanYear at h
  split at h
  · rename_i c₃ c₂ c₁ c₀ _
    split at h
    · rename_i d₃ d₂ d₁ d₀ h₃ h₂ h₁ h₀
      simp only [Option.some.injEq, Prod.mk.injEq] at h
      refine ⟨[c₃, c₂, c₁, c₀], rfl, ?_, by rw [h.2]; rfl⟩
      simp [isDigit_of_digit h₃, isDigit_of_digit h₂, isDigit_of_digit h₁, isDigit_of_digit h₀]
    · cases h
  · cases h

/-- Digits that end before something else are as many wherever they are split off. -/
theorem digits_unique {ds ds' : List Char} (hc : c.isDigit = false) (hds : ∀ x ∈ ds, x.isDigit = true)
    (hds' : ∀ x ∈ ds', x.isDigit = true) {later later' : List Char}
    (h : ds ++ c :: later = ds' ++ c :: later') : ds = ds' := by
  have htake := congrArg (List.takeWhile Char.isDigit) h
  rwa [List.takeWhile_append_of_pos hds, List.takeWhile_append_of_pos hds', List.takeWhile_cons_of_neg,
    List.takeWhile_cons_of_neg, List.append_nil, List.append_nil] at htake
  all_goals simp [hc]

theorem length_toDigits_year : (Nat.toDigits 10 n).length = 4 ↔ 1000 ≤ n ∧ n < 10000 := by
  have h₃ := Nat.length_toDigits_le_iff (b := 10) (n := n) (k := 3) (by decide) (by decide)
  have h₄ := Nat.length_toDigits_le_iff (b := 10) (n := n) (k := 4) (by decide) (by decide)
  omega

end Digits

section RoundTrip
variable {x y : Stamp} {fmt : List Directive}

/-- A number that is read back from what is printed. -/
def Numeral.Prints (n : Nat) (p : Numeral) : Prop := p.admits n = true ∧ (p = .year → 1000 ≤ n)

theorem Numeral.scan_print {p : Numeral} {n : Nat} (h : p.Prints n) (rest : List Char) :
    p.scan (p.print n ++ rest) = some (n, rest) := by
  obtain ⟨hrange, hyear⟩ := h
  cases p with
  | year =>
    simp only [Numeral.admits, Bool.and_eq_true, decide_eq_true_eq] at hrange
    exact scanYear_toDigits (hyear rfl) (by omega)
  | month | day | hour | minute | second =>
    simp only [Numeral.admits, Bool.and_eq_true, decide_eq_true_eq] at hrange
    exact scanShort_twoDigits (by omega)

/-- What is printed in a format is read back in it: the parts that the format names. -/
theorem scan_print (hx : ∀ p, .num p ∈ fmt → p.Prints (p.get x)) :
    scan fmt (print x fmt) y = some (copy x fmt y) := by
  induction fmt generalizing y with
  | nil => rfl
  | cons directive fmt ih =>
    have hrest : ∀ p, .num p ∈ fmt → p.Prints (p.get x) := fun p hp => hx p (List.mem_cons_of_mem _ hp)
    cases directive with
    | lit c =>
      simp only [print, scan, ↓reduceIte]
      exact ih hrest
    | num p =>
      have hp := hx p List.mem_cons_self
      rw [print, scan, p.scan_print hp]
      simp only [hp.1, ↓reduceIte]
      exact ih hrest

theorem isDigit_twoDigits {n : Nat} (h : n < 100) {c : Char} (hc : c ∈ twoDigits n) :
    c.isDigit = true := by
  have hdigit : ∀ d < 10, (Nat.digitChar d).isDigit = true := by decide
  simp only [twoDigits, List.mem_cons, List.not_mem_nil, or_false] at hc
  rcases hc with rfl | rfl
  · exact hdigit _ (by omega)
  · exact hdigit _ (by omega)

/-- What is printed are digits and the characters of the format. -/
theorem mem_print (hx : ∀ p, .num p ∈ fmt → p ≠ .year → p.admits (p.get x) = true) {c : Char}
    (hc : c ∈ print x fmt) : c.isDigit = true ∨ .lit c ∈ fmt := by
  induction fmt with
  | nil => cases hc
  | cons directive fmt ih =>
    have hrest := ih fun p hp => hx p (List.mem_cons_of_mem _ hp)
    cases directive with
    | lit c' =>
      rcases List.mem_cons.mp hc with rfl | hc
      · exact .inr List.mem_cons_self
      · exact (hrest hc).imp_right (List.mem_cons_of_mem _)
    | num p =>
      rcases List.mem_append.mp hc with hc | hc
      · left
        have hp := hx p List.mem_cons_self
        cases p with
        | year => exact Nat.isDigit_of_mem_toDigits (by decide) (by decide) hc
        | month | day | hour | minute | second =>
          have hrange := hp (by decide)
          simp only [Numeral.admits, Bool.and_eq_true, decide_eq_true_eq] at hrange
          exact isDigit_twoDigits (by omega) hc
      · exact (hrest hc).imp_right (List.mem_cons_of_mem _)

/-- A year that has not four digits is not read back. -/
theorem scan_print_year {c : Char} (hc : c.isDigit = false) {fmt' : List Directive}
    (hyear : ¬ (1000 ≤ x.year ∧ x.year < 10000)) :
    scan (.num .year :: .lit c :: fmt') (print x (.num .year :: .lit c :: fmt)) y = none := by
  simp only [print, Numeral.print, Numeral.get, scan, Numeral.scan]
  split
  · rename_i n rest hscan
    obtain ⟨digits, hlength, hdigits, htext⟩ := scanYear_some hscan
    split
    · cases rest with
      | nil => rfl
      | cons c' rest =>
        rw [scan]
        split
        · rename_i hsame
          subst hsame
          have hall : ∀ d ∈ Nat.toDigits 10 x.year, d.isDigit = true :=
            fun d hd => Nat.isDigit_of_mem_toDigits (by decide) (by decide) hd
          have hunique := digits_unique hc hall hdigits htext
          rw [← hunique, length_toDigits_year] at hlength
          exact absurd hlength hyear
        · rfl
    · rfl
  · rfl

end RoundTrip

end Calendars
