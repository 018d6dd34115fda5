import Mathlib.Data.Nat.Digits.Defs
import Mathlib.Tactic.Common
import Reflash.Tool.Number
/-! # The grammar of numbers

  A number on the command line is written in decimal, or in hexadecimal behind its marker.
  `Number.Denotes` is this grammar, said without the parser: which digits there are, what a
  row of them is worth, and where the marker, the underscores and the plus sign may stand.

  The parser accepts just the texts of the grammar whose number is a word
  (`parse_accepts_grammar`). It reads one digit after the other and gives up as soon as the
  value is too large, which is right because the value never gets smaller again.
-/

namespace Reflash

namespace Number

/-! ### The grammar -/

/-- The characters for the digits, from zero on. -/
def lowerDigits : List Char :=
  ['0', '1', '2', '3', '4', '5', '6', '7', '8', '9', 'a', 'b', 'c', 'd', 'e', 'f']

/-- The same with capital letters. -/
def upperDigits : List Char :=
  ['0', '1', '2', '3', '4', '5', '6', '7', '8', '9', 'A', 'B', 'C', 'D', 'E', 'F']

/-- A character stands for a digit. -/
def IsDigit (base : Nat) (c : Char) (d : Nat) : Prop :=
  d < base ∧ (lowerDigits[d]? = some c ∨ upperDigits[d]? = some c)

/-- Characters stand for digits, the highest first, that are worth `n`. -/
def Spells (base : Nat) (cs : List Char) (n : Nat) : Prop :=
  ∃ ds, List.Forall₂ (IsDigit base) cs ds ∧ Nat.ofDigits base ds.reverse = n

/-- One digit at least, behind a plus sign or not. -/
def Numeral (base : Nat) (cs : List Char) (n : Nat) : Prop :=
  ∃ body, body ≠ [] ∧ (cs = body ∨ cs = '+' :: body) ∧ Spells base body n

/-- What is left of a text without its underscores. -/
def withoutUnderscores (cs : List Char) : List Char := cs.filter (· != '_')

/-- A text is hexadecimal, with this behind the marker. -/
def HasMarker (text body : List Char) : Prop :=
  text = '0' :: 'x' :: body ∨ text = '0' :: 'X' :: body

/-- A text stands for a number. -/
def Denotes (text : List Char) (n : Nat) : Prop :=
  (∃ body, HasMarker text body ∧ Numeral 16 (withoutUnderscores body) n)
    ∨ (¬ ∃ body, HasMarker text body) ∧ Numeral 10 (withoutUnderscores text) n

/-! ### Digits -/

section digits

variable {base most : Nat} {excess : Flaw} {c : Char} {d value n : Nat} {cs : List Char}

/-- The digit of a character, whatever the base is. -/
def digitValue? (c : Char) : Option Nat :=
  if '0' ≤ c ∧ c ≤ '9' then some (c.toNat - '0'.toNat)
  else if 'a' ≤ c ∧ c ≤ 'f' then some (c.toNat - 'a'.toNat + 10)
  else if 'A' ≤ c ∧ c ≤ 'F' then some (c.toNat - 'A'.toNat + 10)
  else none

theorem digit?_eq (base : Nat) (c : Char) : digit? base c = (digitValue? c).filter (· < base) := rfl

/-- No character behind the letters is a digit. -/
theorem toNat_lt_of_digitValue? (h : digitValue? c = some d) : c.toNat < 128 := by
  have hbound : ∀ limit : Char, limit.toNat < 128 → c ≤ limit → c.toNat < 128 :=
    fun limit hlimit hc => Nat.lt_of_le_of_lt hc hlimit
  unfold digitValue? at h
  split_ifs at h with hdecimal hlower hupper
  · exact hbound '9' (by decide) hdecimal.2
  · exact hbound 'f' (by decide) hlower.2
  · exact hbound 'F' (by decide) hupper.2

/-- A character has the value of its place among the digits. -/
theorem digitValue?_eq_some_iff :
    digitValue? c = some d ↔ lowerDigits[d]? = some c ∨ upperDigits[d]? = some c := by
  constructor
  · -- Only so many characters are left to look at.
    have hall : ∀ k : Fin 128, ∀ d ∈ digitValue? (Char.ofNat k),
        lowerDigits[d]? = some (Char.ofNat k) ∨ upperDigits[d]? = some (Char.ofNat k) := by
      decide
    intro h
    have hplace := hall ⟨c.toNat, toNat_lt_of_digitValue? h⟩
    rw [Char.ofNat_toNat] at hplace
    exact hplace d h
  · have hlower : ∀ k : Fin 16, digitValue? lowerDigits[k] = some k.val := by decide
    have hupper : ∀ k : Fin 16, digitValue? upperDigits[k] = some k.val := by decide
    rintro (h | h)
    · obtain ⟨hd, rfl⟩ := List.getElem?_eq_some_iff.mp h
      exact hlower ⟨d, hd⟩
    · obtain ⟨hd, rfl⟩ := List.getElem?_eq_some_iff.mp h
      exact hupper ⟨d, hd⟩

theorem digit?_eq_some_iff : digit? base c = some d ↔ IsDigit base c d := by
  rw [digit?_eq, Option.filter_eq_some_iff, digitValue?_eq_some_iff, decide_eq_true_iff, IsDigit,
    and_comm]

/-- A sign is no digit. -/
theorem not_isDigit_sign (hc : c = '+' ∨ c = '-') : ¬ IsDigit base c d := by
  rintro ⟨-, h⟩
  rw [← digitValue?_eq_some_iff] at h
  rcases hc with rfl | rfl <;> cases h

/-- The value of some digits behind those that make up another value. -/
theorem ofDigits_behind (base value d : Nat) (ds : List Nat) :
    Nat.ofDigits base ((d :: ds).reverse ++ [value])
      = Nat.ofDigits base (ds.reverse ++ [value * base + d]) := by
  rw [List.reverse_cons, List.append_assoc, List.singleton_append, Nat.ofDigits_append,
    Nat.ofDigits_append, Nat.ofDigits_cons, Nat.ofDigits_singleton, Nat.ofDigits_singleton,
    Nat.add_comm d, Nat.mul_comm base]

/-- The value does not get smaller with more digits. -/
theorem le_ofDigits_behind (hbase : 0 < base) (value : Nat) (ds : List Nat) :
    value ≤ Nat.ofDigits base (ds.reverse ++ [value]) := by
  rw [Nat.ofDigits_append, Nat.ofDigits_singleton]
  exact Nat.le_trans (Nat.le_mul_of_pos_left value (Nat.pow_pos hbase)) (Nat.le_add_left _ _)

/-- Digits are read as what they are worth behind those before, if that is not too large. -/
theorem digits_eq_ok_iff (hbase : 0 < base) (hvalue : value ≤ most) :
    digits base most excess value cs = .ok n ↔ n ≤ most
      ∧ ∃ ds, List.Forall₂ (IsDigit base) cs ds
        ∧ Nat.ofDigits base (ds.reverse ++ [value]) = n := by
  induction cs generalizing value with
  | nil =>
    rw [digits]
    constructor
    · intro h
      cases h
      exact ⟨hvalue, [], .nil, by simp⟩
    · rintro ⟨-, ds, hds, rfl⟩
      cases hds
      simp
  | cons c rest ih =>
    rw [digits]
    cases hdigit : digit? base c with
    | none =>
      refine iff_of_false nofun ?_
      rintro ⟨-, _, hds, -⟩
      cases hds with
      | cons hd _ =>
        rw [digit?_eq_some_iff.mpr hd] at hdigit
        cases hdigit
    | some d =>
      -- The digit is the only one that the character can stand for.
      have hsplit : (∃ ds, List.Forall₂ (IsDigit base) (c :: rest) ds
            ∧ Nat.ofDigits base (ds.reverse ++ [value]) = n)
          ↔ ∃ ds, List.Forall₂ (IsDigit base) rest ds
            ∧ Nat.ofDigits base (ds.reverse ++ [value * base + d]) = n := by
        constructor
        · rintro ⟨_, hds, hn⟩
          cases hds with
          | @cons _ d' _ ds hd hrest =>
            rw [← digit?_eq_some_iff, hdigit] at hd
            cases hd
            exact ⟨ds, hrest, (ofDigits_behind base value d ds).symm.trans hn⟩
        · rintro ⟨ds, hrest, hn⟩
          exact ⟨d :: ds, .cons (digit?_eq_some_iff.mp hdigit) hrest,
            (ofDigits_behind base value d ds).trans hn⟩
      rw [hsplit]
      dsimp only
      by_cases hlarge : most < value * base + d
      · rw [if_pos hlarge]
        refine iff_of_false nofun ?_
        rintro ⟨hn, ds, -, rfl⟩
        have hle := le_ofDigits_behind hbase (value * base + d) ds
        omega
      · rw [if_neg hlarge, ih (Nat.le_of_not_lt hlarge)]

/-- From the first digit on, digits are read as what they spell. -/
theorem digits_zero_eq_ok_iff (hbase : 0 < base) :
    digits base most excess 0 cs = .ok n ↔ n ≤ most ∧ Spells base cs n := by
  rw [digits_eq_ok_iff hbase (Nat.zero_le most)]
  simp only [Nat.ofDigits_append_zero]
  rfl

/-- What spells a number does not begin with a sign. -/
theorem Spells.head (h : Spells base (c :: cs) n) : c ≠ '+' ∧ c ≠ '-' := by
  obtain ⟨_, hds, -⟩ := h
  cases hds with
  | cons hd _ =>
    exact ⟨fun hc => not_isDigit_sign (.inl hc) hd, fun hc => not_isDigit_sign (.inr hc) hd⟩

/-- A number is read with or without a plus sign. -/
theorem natural_eq_ok_iff (hbase : 0 < base) :
    natural base most cs = .ok n ↔ n ≤ most ∧ Numeral base cs n := by
  unfold natural
  split
  · refine iff_of_false nofun ?_
    rintro ⟨-, body, hbody, rfl | h, -⟩
    · exact hbody rfl
    · cases h
  · refine iff_of_false nofun ?_
    rintro ⟨-, body, hbody, rfl | h, hspells⟩
    · exact hspells.head.1 rfl
    · cases h
      exact hbody rfl
  · refine iff_of_false nofun ?_
    rintro ⟨-, body, hbody, rfl | h, hspells⟩
    · exact hspells.head.2 rfl
    · cases h
  · rename_i rest hsome
    rw [digits_zero_eq_ok_iff hbase]
    refine and_congr_right fun _ => ⟨fun h => ⟨rest, fun hnil => hsome ?_, .inr rfl, h⟩, ?_⟩
    · rw [hnil]
    · rintro ⟨body, -, rfl | h, hspells⟩
      · exact absurd rfl hspells.head.1
      · cases h
        exact hspells
  · rename_i hsome _ _ hplus
    rw [digits_zero_eq_ok_iff hbase]
    refine and_congr_right fun _ => ⟨fun h => ⟨cs, hsome, .inl rfl, h⟩, ?_⟩
    rintro ⟨body, -, rfl | rfl, hspells⟩
    · exact hspells
    · exact absurd rfl (hplus body)

end digits

/-! ### Whole texts -/

/-- The base of a text follows from its marker. -/
theorem splitBase_cases (text : List Char) :
    (∃ body, HasMarker text body ∧ splitBase text = (16, body))
      ∨ (¬ ∃ body, HasMarker text body) ∧ splitBase text = (10, text) := by
  unfold splitBase
  split
  · exact .inl ⟨_, .inl rfl, rfl⟩
  · exact .inl ⟨_, .inr rfl, rfl⟩
  · rename_i hlower hupper
    refine .inr ⟨?_, rfl⟩
    rintro ⟨body, rfl | rfl⟩
    · exact hlower body rfl
    · exact hupper body rfl

/-- There is one thing behind a marker. -/
theorem HasMarker.unique {text body body' : List Char} (h : HasMarker text body)
    (h' : HasMarker text body') : body = body' := by
  rcases h with rfl | rfl <;> rcases h' with h' | h' <;> cases h' <;> rfl

/-- A text is read as the number that it stands for, if that is a word. -/
theorem word?_eq_ok_iff {text : List Char} {w : UInt32} :
    word? text = .ok w ↔ Denotes text w.toNat := by
  have hmap : ∀ result : Except Flaw Nat, (∀ n, result = .ok n → n ≤ largestWord) →
      (result.map UInt32.ofNat = .ok w ↔ result = .ok w.toNat) := by
    intro result hsmall
    cases result with
    | error flaw => exact iff_of_false nofun nofun
    | ok n =>
      have hn : n < UInt32.size := Nat.lt_succ_of_le (hsmall n rfl)
      show Except.ok (UInt32.ofNat n) = Except.ok w ↔ _
      rw [Except.ok.injEq, Except.ok.injEq, ← UInt32.toNat_inj, UInt32.toNat_ofNat_of_lt' hn]
  have hw : w.toNat ≤ largestWord := Nat.le_of_lt_succ w.toNat_lt
  have hread : ∀ {base : Nat} {cs : List Char}, 0 < base →
      ((natural base largestWord cs).map UInt32.ofNat = .ok w ↔ Numeral base cs w.toNat) := by
    intro base cs hbase
    rw [hmap _ fun n hn => ((natural_eq_ok_iff hbase).mp hn).1, natural_eq_ok_iff hbase]
    exact and_iff_right hw
  unfold word? Denotes
  rcases splitBase_cases text with ⟨body, hmarker, hsplit⟩ | ⟨hplain, hsplit⟩
  · rw [hsplit]
    refine (hread (by decide)).trans ⟨fun h => .inl ⟨body, hmarker, h⟩, ?_⟩
    rintro (⟨body', hmarker', h⟩ | ⟨hplain, -⟩)
    · obtain rfl := hmarker.unique hmarker'
      exact h
    · exact absurd ⟨body, hmarker⟩ hplain
  · rw [hsplit]
    refine (hread (by decide)).trans ⟨fun h => .inr ⟨hplain, h⟩, ?_⟩
    rintro (⟨body, hmarker, -⟩ | ⟨-, h⟩)
    · exact absurd ⟨body, hmarker⟩ hplain
    · exact h

/-- An argument is read as a word just if it stands for that by the grammar: hexadecimal
    digits behind a marker or decimal ones without it, underscores anywhere but in the
    marker, a plus sign or none, and any number of zeros in front. For any other argument
    there is a complaint that quotes it. -/
theorem parse_accepts_grammar (text : String) :
    (∀ w, parse text = .ok w ↔ Denotes text.toList w.toNat)
      ∧ ((¬ ∃ w : UInt32, Denotes text.toList w.toNat) →
        ∃ flaw : Flaw,
          parse text = .error ("invalid number '" ++ text ++ "': " ++ flaw.message)) := by
  have hparse : ∀ w, parse text = .ok w ↔ Denotes text.toList w.toNat := by
    intro w
    rw [← word?_eq_ok_iff]
    unfold parse
    cases word? text.toList with
    | error flaw => exact iff_of_false nofun nofun
    | ok v => exact ⟨fun h => by cases h; rfl, fun h => by cases h; rfl⟩
  refine ⟨hparse, fun hnone => ?_⟩
  unfold parse
  cases hword : word? text.toList with
  | error flaw => exact ⟨flaw, rfl⟩
  | ok w => exact absurd ⟨w, word?_eq_ok_iff.mp hword⟩ hnone

/-- An underscore may stand before the sign, but not in the marker. -/
example : word? ['0', 'x', '_', '+', '1', 'F'] = .ok 31
    ∧ word? ['0', '_', 'x', '1', 'F'] = .error .invalidDigit := by
  decide +kernel

end Number

end Reflash
