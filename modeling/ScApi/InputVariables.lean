import Mathlib.Data.List.Forall2
import Mathlib.Data.List.TakeWhile
import ScApi.DeviceSections

/-!
# The variables of inputs

An input names the variable that it follows: a name alone for a variable of its own device, or the
number of a device and a name with a colon between them. `parseInputs` reads the number with
`std::from_chars`, which stops at the first character that is not a digit, and it does not look where
that was. So a prefix that only begins with a number is taken for that number.

## Main results

* `resolves_iff`: when a variable is resolved as it should be.
* `inputs_resolve_iff`: the same for the inputs of a section.
-/

open Bytes BoundedRead Bson

namespace ScApi.DeviceInfo

open ElementType BsonReader

/-! ### What a variable says -/

/-- The number that some digits are. -/
def numberOf (digits : List UInt8) : ℕ :=
  digits.foldl (fun n c => n * 10 + (c.toNat - 48)) 0

/-- A decimal numeral of a number: digits, at least one, and nothing else. -/
def IsNumeral (s : List UInt8) (n : ℕ) : Prop :=
  s ≠ [] ∧ (∀ c ∈ s, isDigit c = true) ∧ numberOf s = n

/-- The variable is one of another device: the numeral of a 16-bit number, a colon and a name. -/
def Names (var : List UInt8) (n : ℕ) (name : List UInt8) : Prop :=
  ∃ numeral, IsNumeral numeral n ∧ n < 65536 ∧ var = numeral ++ 58 :: name

/-- **What a variable has to resolve to**: what it names, or a variable of the device itself. -/
def Resolves (thisDeviceId : UInt16) (var : List UInt8) (ref : VariableRef) : Prop :=
  (∀ n name, Names var n name → ref = ⟨UInt16.ofNat n, name⟩) ∧
  ((¬ ∃ n name, Names var n name) → ref = ⟨thisDeviceId, var⟩)

/-- **The variables that are not resolved so**: what is in front of the first colon begins with the
numeral of a 16-bit number, and goes on behind it. -/
def PartlyNumeric (var : List UInt8) : Prop :=
  58 ∈ var ∧ (var.takeWhile (· ≠ 58)).takeWhile isDigit ≠ [] ∧
    (var.takeWhile (· ≠ 58)).takeWhile isDigit ≠ var.takeWhile (· ≠ 58) ∧
    numberOf ((var.takeWhile (· ≠ 58)).takeWhile isDigit) < 65536

instance (var : List UInt8) : Decidable (PartlyNumeric var) :=
  inferInstanceAs (Decidable (_ ∧ _ ∧ _ ∧ _))

section Split

variable {front name : List UInt8}

/-- The first colon is where the part in front of it ends. -/
theorem takeWhile_colon (h : 58 ∉ front) : (front ++ 58 :: name).takeWhile (· ≠ 58) = front := by
  have hfront : ∀ c ∈ front, decide (c ≠ 58) = true := fun c hc =>
    decide_eq_true (fun hcolon => h (hcolon ▸ hc))
  rw [List.takeWhile_append_of_pos hfront, List.takeWhile_cons_of_neg (by decide), List.append_nil]

theorem dropWhile_colon (h : 58 ∉ front) : (front ++ 58 :: name).dropWhile (· ≠ 58) = 58 :: name := by
  have hall := List.takeWhile_append_dropWhile (p := fun c : UInt8 => decide (c ≠ 58))
    (l := front ++ 58 :: name)
  rw [takeWhile_colon h] at hall
  exact List.append_cancel_left hall

theorem IsNumeral.noColon {n : ℕ} (h : IsNumeral front n) : 58 ∉ front :=
  fun hmem => absurd (h.2.1 58 hmem) (by decide)

/-- A variable with a colon names a device when the part in front of the first colon is a numeral. -/
theorem names_iff (h : 58 ∉ front) {n : ℕ} {name' : List UInt8} :
    Names (front ++ 58 :: name) n name' ↔ IsNumeral front n ∧ n < 65536 ∧ name' = name := by
  constructor
  · rintro ⟨numeral, hnumeral, hn, heq⟩
    have hfront := congrArg (List.takeWhile (· ≠ 58)) heq
    rw [takeWhile_colon h, takeWhile_colon hnumeral.noColon] at hfront
    subst hfront
    exact ⟨hnumeral, hn, (List.cons.inj (List.append_cancel_left heq)).2.symm⟩
  · rintro ⟨hnumeral, hn, rfl⟩
    exact ⟨front, hnumeral, hn, rfl⟩

end Split

/-- A variable without a colon names no device. -/
theorem not_names {var : List UInt8} (h : 58 ∉ var) : ¬ ∃ n name, Names var n name := by
  rintro ⟨n, name, numeral, -, -, rfl⟩
  exact h (by simp)

/-- A numeral is read as its number. -/
theorem isNumeral_iff {s : List UInt8} {n : ℕ} :
    IsNumeral s n ↔ s.takeWhile isDigit ≠ [] ∧ s.takeWhile isDigit = s ∧
      numberOf (s.takeWhile isDigit) = n := by
  constructor
  · rintro ⟨hne, hdigits, hn⟩
    rw [List.takeWhile_eq_self_iff.mpr hdigits]
    exact ⟨hne, rfl, hn⟩
  · rintro ⟨hne, hself, hn⟩
    rw [hself] at hne hn
    exact ⟨hne, List.takeWhile_eq_self_iff.mp hself, hn⟩

theorem fromChars_eq (s : List UInt8) :
    fromChars s = if s.takeWhile isDigit ≠ [] ∧ numberOf (s.takeWhile isDigit) < 65536 then
      some (UInt16.ofNat (numberOf (s.takeWhile isDigit))) else none := by
  rw [fromChars, ← numberOf]
  by_cases hne : s.takeWhile isDigit = []
  · rw [if_pos (.inl hne), if_neg (fun h => h.1 hne)]
  · by_cases hlt : numberOf (s.takeWhile isDigit) < 65536
    · rw [if_neg (by simp [hne, hlt]), if_pos ⟨hne, hlt⟩]
    · rw [if_pos (.inr (by omega)), if_neg (fun h => hlt h.2)]

/-- **When a variable is resolved as it should be.** -/
theorem resolves_iff (thisDeviceId : UInt16) (var : List UInt8) :
    Resolves thisDeviceId var (variableOf thisDeviceId var) ↔ ¬ PartlyNumeric var := by
  by_cases hcolon : 58 ∈ var
  · obtain ⟨front, name, rfl, hfront⟩ := List.eq_append_cons_of_mem hcolon
    rw [variableOf, if_neg (not_not_intro hcolon), takeWhile_colon hfront, dropWhile_colon hfront,
      List.tail_cons, fromChars_eq, PartlyNumeric, takeWhile_colon hfront, Resolves]
    simp only [names_iff hfront, isNumeral_iff]
    obtain ⟨digits, hdigits⟩ : ∃ digits, digits = front.takeWhile isDigit := ⟨_, rfl⟩
    rw [← hdigits]
    by_cases hread : digits ≠ [] ∧ numberOf digits < 65536
    · rw [if_pos hread]
      dsimp only
      by_cases hself : digits = front
      · -- the number is all that is in front of the colon
        refine ⟨fun _ h => h.2.2.1 hself, fun _ => ⟨?_, fun hnone => ?_⟩⟩
        · rintro n name' ⟨⟨-, -, rfl⟩, -, rfl⟩
          rfl
        · exact absurd ⟨_, name, ⟨hread.1, hself, rfl⟩, hread.2, rfl⟩ hnone
      · -- there is more than the number, and the name is not the whole variable
        refine ⟨fun h => ?_, fun h => absurd ⟨hcolon, hread.1, hself, hread.2⟩ h⟩
        have hnone : ¬ ∃ n name', (digits ≠ [] ∧ digits = front ∧ numberOf digits = n) ∧ n < 65536 ∧
            name' = name := by
          rintro ⟨n, name', hnumeral, -⟩
          exact hself hnumeral.2.1
        have hwhole := h.2 hnone
        have hlength := congrArg (fun ref => ref.id.length) hwhole
        simp only [List.length_append, List.length_cons] at hlength
        omega
    · rw [if_neg hread]
      refine ⟨fun _ h => hread ⟨h.2.1, h.2.2.2⟩, fun _ => ⟨?_, fun _ => rfl⟩⟩
      rintro n name' ⟨⟨hne, -, rfl⟩, hlt, -⟩
      exact absurd ⟨hne, hlt⟩ hread
  · rw [variableOf, if_pos hcolon]
    refine ⟨fun _ h => hcolon h.1, fun _ => ⟨fun n name h => ?_, fun _ => rfl⟩⟩
    exact absurd ⟨n, name, h⟩ (not_names hcolon)

/-- **When the variables of the inputs in a section are resolved as they should be**, if there are
several in an input, the last one. -/
theorem inputs_resolve_iff (mem key : List UInt8) (thisDeviceId : UInt16) (els : Elements) :
    ∃ inputs, ReadsAs mem 1 key (parseInputs mem thisDeviceId) els inputs ∧
      List.Forall₂ (fun (x : List UInt8 × Elements) (input : Input) =>
        input.id = x.1 ∧ ∀ var, lastText "variable" x.2.entries = some var →
          (Resolves thisDeviceId var input.variable ↔ ¬ PartlyNumeric var))
        (documentsIn els) inputs := by
  refine ⟨_, readsAs_inputs key els, ?_⟩
  rw [inputsOf, List.forall₂_map_right_iff, List.forall₂_same]
  refine fun x _ => ⟨rfl, fun var hvar => ?_⟩
  rw [Input.after, hvar]
  exact resolves_iff thisDeviceId var

/-- An input of device 3 whose variable begins with a number and goes on: it is bound to a variable of
device 12. -/
theorem not_resolves :
    (parseInputs (document (Elements.sub .doc (ascii "x")
        (.leaf (ascii "variable") (.string (ascii "12ab:speed")) .nil) .nil).bytes) 3
        (accepted 38 38)).map (fun p => p.1.map Input.variable) = .ok [⟨12, ascii "speed"⟩] ∧
      ¬ ∀ (thisDeviceId : UInt16) (var : List UInt8),
        Resolves thisDeviceId var (variableOf thisDeviceId var) := by
  refine ⟨by decide +kernel, fun h => ?_⟩
  exact (resolves_iff 3 (ascii "12ab:speed")).mp (h _ _) (by decide)

end ScApi.DeviceInfo
