import Scriptorium.Run.Arithmetic
import Mathlib.Algebra.Group.Int.Defs

/-!
# Exact arithmetic

Operators are computed here three times: with the integers of the logic, by rules that
say what the result has to be, and with machine words.  All three agree.

* `Width.Fits` — the integers of a width, and `Value.Denotes`: the values that are one.
* `BinaryOp.Computes`, `Value.Negates` — the rules: one for each way an operator can
  end.  `BinaryOp.computes_apply` and `BinaryOp.Computes.eq_apply` show that `apply`
  follows them, and that they leave no choice.
* `BinaryOp.onWords` — the operators on words of any length, each with the check that
  tells whether its result is lost.  `BinaryOp.onWords_eq`: a word is lost exactly if the
  exact result does not fit, and is the exact result otherwise.
* `BinaryOp.applyWords` — the operators as they run: 32 bits are widened to 64 before the
  operation and made narrow again after it.  `BinaryOp.onWords_signExtend_ne` and
  `BinaryOp.narrow?_onWords_signExtend`: the way over 64 bits loses nothing, and ends where
  the operation on 32 bits ends.
-/

namespace Scriptorium

/-! ## The integers of a width -/

/-- The integer is one of those that a word of so many bits can stand for. -/
def InBits (bits : Nat) (n : Int) : Prop := -2 ^ (bits - 1) ≤ n ∧ n < 2 ^ (bits - 1)

instance (bits : Nat) (n : Int) : Decidable (InBits bits n) :=
  inferInstanceAs (Decidable (_ ∧ _))

namespace Width

/-- The number of bits of a width. -/
def bits : Width → Nat
  | .narrow => 32
  | .wide => 64

/-- The integer is one of the width. -/
def Fits (w : Width) (n : Int) : Prop := InBits w.bits n

/-- The width of an operation: wide if one of its operands is. -/
def join : Width → Width → Width
  | .narrow, .narrow => .narrow
  | _, _ => .wide

theorem fits_iff (w : Width) (n : Int) : w.Fits n ↔ w.least ≤ n ∧ n ≤ w.greatest := by
  cases w <;> simp only [Fits, InBits, bits, least, greatest] <;> omega

end Width

/-- The value is the integer `n`, and has the width `w`. -/
inductive Value.Denotes : Value → Width → Int → Prop
  | int (k : Int32) : Value.Denotes (.int k) .narrow k.toInt
  | wide (k : Int64) : Value.Denotes (.wide k) .wide k.toInt

namespace Value

/-- The value is an integer of some width. -/
def IsInteger (v : Value) : Prop := ∃ w n, v.Denotes w n

theorem toInt?_eq_some_iff {v : Value} {n : Int} : v.toInt? = some n ↔ ∃ w, v.Denotes w n := by
  constructor
  · intro h
    cases v with
    | int k => cases h; exact ⟨_, .int k⟩
    | wide k => cases h; exact ⟨_, .wide k⟩
    | _ => cases h
  · rintro ⟨w, h⟩
    cases h <;> rfl

theorem toInt?_eq_none_iff {v : Value} : v.toInt? = none ↔ ¬ v.IsInteger := by
  constructor
  · rintro h ⟨w, n, hv⟩
    have := toInt?_eq_some_iff.2 ⟨w, hv⟩
    simp [h] at this
  · intro h
    cases hv : v.toInt? with
    | none => rfl
    | some n =>
      obtain ⟨w, hw⟩ := toInt?_eq_some_iff.1 hv
      exact absurd ⟨w, n, hw⟩ h

namespace Denotes

variable {v v' : Value} {w w' : Width} {n n' : Int}

theorem toInt?_eq (h : v.Denotes w n) : v.toInt? = some n := toInt?_eq_some_iff.2 ⟨w, h⟩

theorem fits (h : v.Denotes w n) : w.Fits n := by
  cases h with
  | int k => exact (Width.fits_iff _ _).2 ⟨k.le_toInt, Int.le_of_lt_add_one k.toInt_lt⟩
  | wide k => exact (Width.fits_iff _ _).2 ⟨k.le_toInt, Int.le_of_lt_add_one k.toInt_lt⟩

/-- An integer of a width is one value. -/
theorem injective (h : v.Denotes w n) (h' : v'.Denotes w n) : v = v' := by
  cases h with
  | int k =>
    generalize hn : k.toInt = n at h'
    cases h' with
    | int k' => rw [Int32.toInt_inj.1 hn]
  | wide k =>
    generalize hn : k.toInt = n at h'
    cases h' with
    | wide k' => rw [Int64.toInt_inj.1 hn]

theorem commonWidth_eq (h : v.Denotes w n) (h' : v'.Denotes w' n') :
    v.commonWidth v' = w.join w' := by
  cases h <;> cases h' <;> rfl

end Denotes

end Value

namespace Width

/-- An integer that fits is a value of the width. -/
theorem Fits.exists_value {w : Width} {n : Int} (h : w.Fits n) :
    ∃ v, w.value? n = some v ∧ v.Denotes w n := by
  have hn := (w.fits_iff n).1 h
  refine ⟨_, if_pos hn, ?_⟩
  cases w with
  | narrow =>
    have denotes := Value.Denotes.int (Int32.ofInt n)
    rwa [Int32.toInt_ofInt_of_le hn.1 (Int.lt_add_one_of_le hn.2)] at denotes
  | wide =>
    have denotes := Value.Denotes.wide (Int64.ofInt n)
    rwa [Int64.toInt_ofInt_of_le hn.1 (Int.lt_add_one_of_le hn.2)] at denotes

theorem value?_eq_some_iff {w : Width} {n : Int} {v : Value} :
    w.value? n = some v ↔ v.Denotes w n := by
  constructor
  · intro h
    have fits : w.Fits n := by
      by_cases hn : w.least ≤ n ∧ n ≤ w.greatest
      · exact (w.fits_iff n).2 hn
      · simp [value?, hn] at h
    obtain ⟨v', hv', denotes⟩ := fits.exists_value
    rw [h] at hv'
    cases hv'
    exact denotes
  · intro h
    obtain ⟨v', hv', denotes⟩ := h.fits.exists_value
    rw [hv', denotes.injective h]

theorem value?_eq_none_iff {w : Width} {n : Int} : w.value? n = none ↔ ¬ w.Fits n := by
  rw [fits_iff]
  simp [value?]

end Width

/-! ## The rules of the operators -/

namespace BinaryOp

/-- The operator makes the number `n` of the integers `x` and `y`. -/
inductive Number (x y : Int) : BinaryOp → Int → Prop
  | add : Number x y .add (x + y)
  | sub : Number x y .sub (x - y)
  | mul : Number x y .mul (x * y)
  | div : y ≠ 0 → Number x y .div (x.tdiv y)

/-- What the operator asks about the integers `x` and `y`. -/
inductive Question (x y : Int) : BinaryOp → Prop → Prop
  | eq : Question x y .eq (x = y)
  | notEq : Question x y .notEq (x ≠ y)
  | less : Question x y .less (x < y)
  | lessEq : Question x y .lessEq (x ≤ y)
  | greater : Question x y .greater (x > y)
  | greaterEq : Question x y .greaterEq (x ≥ y)

/-- What has to come of an operator and its operands. -/
inductive Computes (op : BinaryOp) (a b : Value) : Except RunError Value → Prop
  /-- The left operand is no integer. -/
  | left : ¬ a.IsInteger →
      Computes op a b (.error (.ofFault (.typeMismatch "integer" a.typeName)
        [s!"operator `{op.symbol}` requires integer operands"]))
  /-- Only the right operand is no integer. -/
  | right : a.IsInteger → ¬ b.IsInteger →
      Computes op a b (.error (.ofFault (.typeMismatch "integer" b.typeName)
        [s!"operator `{op.symbol}` requires integer operands"]))
  /-- The divisor is zero. -/
  | zero {w : Width} : op = .div → a.IsInteger → b.Denotes w 0 →
      Computes op a b (.error (.ofFault .divisionByZero []))
  /-- The exact number fits. -/
  | number {w w' : Width} {x y n : Int} {v : Value} : a.Denotes w x → b.Denotes w' y →
      op.Number x y n → v.Denotes (w.join w') n → Computes op a b (.ok v)
  /-- The exact number does not fit. -/
  | overflow {w w' : Width} {x y n : Int} : a.Denotes w x → b.Denotes w' y →
      op.Number x y n → ¬ (w.join w').Fits n →
      Computes op a b (.error (.ofFault (.integerOverflow op.symbol) []))
  /-- The answer is yes. -/
  | yes {w w' : Width} {x y : Int} {p : Prop} : a.Denotes w x → b.Denotes w' y →
      op.Question x y p → p → Computes op a b (.ok (.int 1))
  /-- The answer is no. -/
  | no {w w' : Width} {x y : Int} {p : Prop} : a.Denotes w x → b.Denotes w' y →
      op.Question x y p → ¬ p → Computes op a b (.ok (.int 0))

theorem onInts_eq_none_iff {op : BinaryOp} {x y : Int} :
    op.onInts x y = none ↔ op = .div ∧ y = 0 := by
  cases op <;> simp [onInts]

theorem onInts_eq_number_iff {op : BinaryOp} {x y n : Int} :
    op.onInts x y = some (.inl n) ↔ op.Number x y n := by
  constructor
  · intro h
    cases op with
    | div =>
      by_cases hy : y = 0
      · simp [onInts, hy] at h
      · simp only [onInts, if_neg hy, Option.some.injEq, Sum.inl.injEq] at h
        exact h ▸ .div hy
    | add => cases h; exact .add
    | sub => cases h; exact .sub
    | mul => cases h; exact .mul
    | _ => cases h
  · intro h
    cases h with
    | div hy => simp [onInts, hy]
    | _ => rfl

theorem onInts_eq_answer_iff {op : BinaryOp} {x y : Int} {c : Bool} :
    op.onInts x y = some (.inr c) ↔ ∃ p, op.Question x y p ∧ (c = true ↔ p) := by
  constructor
  · intro h
    cases op with
    | eq => cases h; exact ⟨_, .eq, decide_eq_true_iff⟩
    | notEq => cases h; exact ⟨_, .notEq, decide_eq_true_iff⟩
    | less => cases h; exact ⟨_, .less, decide_eq_true_iff⟩
    | lessEq => cases h; exact ⟨_, .lessEq, decide_eq_true_iff⟩
    | greater => cases h; exact ⟨_, .greater, decide_eq_true_iff⟩
    | greaterEq => cases h; exact ⟨_, .greaterEq, decide_eq_true_iff⟩
    | div => by_cases hy : y = 0 <;> simp [onInts, hy] at h
    | _ => cases h
  · rintro ⟨p, hp, hc⟩
    have answer (q : Prop) [Decidable q] (hq : c = true ↔ q) :
        (some (.inr (decide q)) : Option (Int ⊕ Bool)) = some (.inr c) := by
      cases c <;> simp_all
    cases hp <;> exact answer _ hc

section

variable {op : BinaryOp} {a b v : Value} {w w' : Width} {x y n : Int} {c : Bool}

theorem apply_zero (ha : a.Denotes w x) (hb : b.Denotes w' y) (h : op.onInts x y = none) :
    op.apply a b = .error .divisionByZero := by
  simp only [apply, ha.toInt?_eq, hb.toInt?_eq, h]

theorem apply_answer (ha : a.Denotes w x) (hb : b.Denotes w' y)
    (h : op.onInts x y = some (.inr c)) : op.apply a b = .ok (.ofBool c) := by
  simp only [apply, ha.toInt?_eq, hb.toInt?_eq, h]

theorem apply_number (ha : a.Denotes w x) (hb : b.Denotes w' y)
    (h : op.onInts x y = some (.inl n)) (hv : (w.join w').value? n = some v) :
    op.apply a b = .ok v := by
  simp only [apply, ha.toInt?_eq, hb.toInt?_eq, h, ha.commonWidth_eq hb, hv]

theorem apply_overflow (ha : a.Denotes w x) (hb : b.Denotes w' y)
    (h : op.onInts x y = some (.inl n)) (hv : (w.join w').value? n = none) :
    op.apply a b = .error (.overflow op) := by
  simp only [apply, ha.toInt?_eq, hb.toInt?_eq, h, ha.commonWidth_eq hb, hv]

end

/-- An operator follows the rules. -/
theorem computes_apply (op : BinaryOp) (a b : Value) : op.Computes a b (op.apply a b) := by
  cases ha : a.toInt? with
  | none => simpa only [apply, ha] using .left (Value.toInt?_eq_none_iff.1 ha)
  | some x =>
  obtain ⟨w, aDenotes⟩ := Value.toInt?_eq_some_iff.1 ha
  cases hb : b.toInt? with
  | none =>
    simpa only [apply, ha, hb] using .right ⟨w, x, aDenotes⟩ (Value.toInt?_eq_none_iff.1 hb)
  | some y =>
  obtain ⟨w', bDenotes⟩ := Value.toInt?_eq_some_iff.1 hb
  match hop : op.onInts x y with
  | none =>
    obtain ⟨division, rfl⟩ := onInts_eq_none_iff.1 hop
    rw [apply_zero aDenotes bDenotes hop]
    exact .zero division ⟨w, x, aDenotes⟩ bDenotes
  | some (.inl n) =>
    have number := onInts_eq_number_iff.1 hop
    cases hv : (w.join w').value? n with
    | none =>
      rw [apply_overflow aDenotes bDenotes hop hv]
      exact .overflow aDenotes bDenotes number (Width.value?_eq_none_iff.1 hv)
    | some v =>
      rw [apply_number aDenotes bDenotes hop hv]
      exact .number aDenotes bDenotes number (Width.value?_eq_some_iff.1 hv)
  | some (.inr c) =>
    obtain ⟨p, question, hc⟩ := onInts_eq_answer_iff.1 hop
    rw [apply_answer aDenotes bDenotes hop]
    cases c with
    | true => exact .yes aDenotes bDenotes question (hc.1 rfl)
    | false => exact .no aDenotes bDenotes question (by simpa using hc)

/-- The rules leave no choice. -/
theorem Computes.eq_apply {op : BinaryOp} {a b : Value} {r : Except RunError Value}
    (h : op.Computes a b r) : op.apply a b = r := by
  cases h with
  | left ha => simp only [apply, Value.toInt?_eq_none_iff.2 ha]; rfl
  | right ha hb =>
    obtain ⟨w, x, ha⟩ := ha
    simp only [apply, ha.toInt?_eq, Value.toInt?_eq_none_iff.2 hb]; rfl
  | zero division ha hb =>
    obtain ⟨w, x, ha⟩ := ha
    exact apply_zero ha hb (onInts_eq_none_iff.2 ⟨division, rfl⟩)
  | number ha hb number hv =>
    exact apply_number ha hb (onInts_eq_number_iff.2 number) (Width.value?_eq_some_iff.2 hv)
  | overflow ha hb number hn =>
    exact apply_overflow ha hb (onInts_eq_number_iff.2 number) (Width.value?_eq_none_iff.2 hn)
  | yes ha hb question yes =>
    exact apply_answer ha hb (onInts_eq_answer_iff.2 ⟨_, question, iff_of_true rfl yes⟩)
  | no ha hb question no =>
    exact apply_answer ha hb
      (onInts_eq_answer_iff.2 ⟨_, question, iff_of_false Bool.false_ne_true no⟩)

end BinaryOp

/-- What has to come of the negation of a value. -/
inductive Value.Negates (a : Value) : Except RunError Value → Prop
  /-- The operand is no integer. -/
  | operand : ¬ a.IsInteger →
      Value.Negates a (.error (.ofFault (.typeMismatch "integer" a.typeName)
        ["unary `-` requires an integer operand"]))
  /-- The operand has a negative of the same width. -/
  | number {w : Width} {x : Int} {v : Value} : a.Denotes w x → v.Denotes w (-x) →
      Value.Negates a (.ok v)
  /-- The operand is the least integer of its width. -/
  | least {w : Width} : a.Denotes w (-2 ^ (w.bits - 1)) →
      Value.Negates a (.error (.ofFault (.integerOverflow "-") []))

namespace UnaryOp

/-- Only the least integer of a width has no negative there. -/
theorem not_fits_neg_iff {a : Value} {w : Width} {x : Int} (h : a.Denotes w x) :
    ¬ w.Fits (-x) ↔ x = -2 ^ (w.bits - 1) := by
  have fits := h.fits
  simp only [Width.Fits, InBits] at fits ⊢
  omega

theorem commonWidth_self {a : Value} {w : Width} {x : Int} (h : a.Denotes w x) :
    a.commonWidth a = w := by
  cases h <;> rfl

theorem apply_neg {a v : Value} {w : Width} {x : Int} (h : a.Denotes w x)
    (hv : w.value? (-x) = some v) : neg.apply a = .ok v := by
  simp only [apply, h.toInt?_eq, commonWidth_self h, hv]

theorem apply_neg_overflow {a : Value} {w : Width} {x : Int} (h : a.Denotes w x)
    (hv : w.value? (-x) = none) : neg.apply a = .error .negationOverflow := by
  simp only [apply, h.toInt?_eq, commonWidth_self h, hv]

/-- The negation follows the rules. -/
theorem negates_apply (a : Value) : a.Negates (neg.apply a) := by
  cases ha : a.toInt? with
  | none => simpa only [apply, ha] using .operand (Value.toInt?_eq_none_iff.1 ha)
  | some x =>
    obtain ⟨w, aDenotes⟩ := Value.toInt?_eq_some_iff.1 ha
    cases hv : w.value? (-x) with
    | none =>
      have least := (not_fits_neg_iff aDenotes).1 (Width.value?_eq_none_iff.1 hv)
      rw [apply_neg_overflow aDenotes hv]
      exact .least (least ▸ aDenotes)
    | some v =>
      rw [apply_neg aDenotes hv]
      exact .number aDenotes (Width.value?_eq_some_iff.1 hv)

end UnaryOp

/-- The rules of negation leave no choice. -/
theorem Value.Negates.eq_apply {a : Value} {r : Except RunError Value} (h : a.Negates r) :
    UnaryOp.neg.apply a = r := by
  cases h with
  | operand ha => simp only [UnaryOp.apply, toInt?_eq_none_iff.2 ha]; rfl
  | number ha hv => exact UnaryOp.apply_neg ha (Width.value?_eq_some_iff.2 hv)
  | least ha =>
    have lost := (UnaryOp.not_fits_neg_iff ha).2 rfl
    exact UnaryOp.apply_neg_overflow ha (Width.value?_eq_none_iff.2 lost)

/-! ## Machine words -/

/-- The word for an integer, if there is one. -/
def word? (bits : Nat) (n : Int) : Option (BitVec bits) :=
  if InBits bits n then some (BitVec.ofInt bits n) else none

namespace BinaryOp

/-- What an operator makes of two words: a word, which may be lost, or a truth value.
There is no result for a division by zero. -/
def onWords {bits : Nat} (op : BinaryOp) (a b : BitVec bits) :
    Option (Option (BitVec bits) ⊕ Bool) :=
  match op with
  | .add => some (.inl (if a.saddOverflow b then none else some (a + b)))
  | .sub => some (.inl (if a.ssubOverflow b then none else some (a - b)))
  | .mul => some (.inl (if a.smulOverflow b then none else some (a * b)))
  | .div =>
      if b = 0 then none
      else some (.inl (if a.negOverflow ∧ b = .allOnes bits then none else some (a.sdiv b)))
  | .eq => some (.inr (a == b))
  | .notEq => some (.inr (a != b))
  | .less => some (.inr (a.slt b))
  | .lessEq => some (.inr (a.sle b))
  | .greater => some (.inr (b.slt a))
  | .greaterEq => some (.inr (b.sle a))

end BinaryOp

section

variable {bits : Nat}

theorem inBits_toInt (a : BitVec bits) : InBits bits a.toInt := ⟨a.le_toInt, a.toInt_lt⟩

theorem not_inBits_iff {n : Int} :
    (decide (n ≥ 2 ^ (bits - 1)) || decide (n < -2 ^ (bits - 1))) ↔ ¬ InBits bits n := by
  simp only [InBits, Bool.or_eq_true, decide_eq_true_iff]
  omega

/-- A checked operation is exact if its check finds what does not fit. -/
theorem checked_eq_word? {n : Int} {lost : Prop} [Decidable lost] {a : BitVec bits}
    (hlost : lost ↔ ¬ InBits bits n) (ha : a = BitVec.ofInt bits n) :
    (if lost then none else some a) = word? bits n := by
  subst ha
  by_cases h : InBits bits n <;> simp [word?, hlost, h]

theorem same_words (a b : BitVec bits) : (a == b) = decide (a.toInt = b.toInt) := by
  simp only [BitVec.toInt_inj]
  rfl

/-- A quotient is lost only if the least integer is divided by minus one. -/
theorem InBits.tdiv_iff {x y : Int} (hx : InBits bits x) (hy : y ≠ 0) :
    InBits bits (x.tdiv y) ↔ ¬ (x = -2 ^ (bits - 1) ∧ y = -1) := by
  have bound := Int.natAbs_tdiv_le_natAbs x y
  constructor
  · rintro fits ⟨rfl, rfl⟩
    rw [Int.tdiv_neg, Int.tdiv_one] at fits
    simp only [InBits] at fits
    omega
  · intro h
    by_cases one : y = 1
    · simpa [one] using hx
    · simp only [InBits] at *
      by_cases least : x = -2 ^ (bits - 1)
      · have smaller : (x.tdiv y).natAbs < x.natAbs := by
          rw [Int.natAbs_tdiv]
          have positive := Int.pow_pos (n := 2) (m := bits - 1) (by decide)
          exact Nat.div_lt_self (by omega) (by omega)
        omega
      · omega

namespace BinaryOp

/-- A word is lost exactly if the exact result does not fit, and it is the exact result
otherwise. -/
theorem onWords_eq (op : BinaryOp) (a b : BitVec bits) :
    op.onWords a b = (op.onInts a.toInt b.toInt).map (Sum.map (word? bits) id) := by
  cases op with
  | add =>
    have sum : a + b = .ofInt bits (a.toInt + b.toInt) := by simp [BitVec.ofInt_add]
    exact congrArg (some ∘ Sum.inl) (checked_eq_word? not_inBits_iff sum)
  | sub =>
    have difference : a - b = .ofInt bits (a.toInt - b.toInt) := by
      rw [Int.sub_eq_add_neg]
      simp [BitVec.ofInt_add, BitVec.ofInt_neg, BitVec.sub_eq_add_neg]
    exact congrArg (some ∘ Sum.inl) (checked_eq_word? not_inBits_iff difference)
  | mul =>
    have product : a * b = .ofInt bits (a.toInt * b.toInt) := by simp [BitVec.ofInt_mul]
    exact congrArg (some ∘ Sum.inl) (checked_eq_word? not_inBits_iff product)
  | div =>
    by_cases zero : b = 0
    · simp [onWords, onInts, zero]
    · have nonzero : b.toInt ≠ 0 := by
        rw [← BitVec.toInt_zero (w := bits)]
        exact fun h => zero (BitVec.toInt_inj.1 h)
      have quotient : a.sdiv b = .ofInt bits (a.toInt.tdiv b.toInt) := by
        rw [← BitVec.toInt_inj, BitVec.toInt_sdiv, BitVec.toInt_ofInt]
      simp only [onWords, onInts, if_neg zero, if_neg nonzero]
      refine congrArg (some ∘ Sum.inl) (checked_eq_word? ?_ quotient)
      have positive : 0 < bits := by
        cases bits with
        | zero => exact absurd b.eq_nil zero
        | succ bits => exact Nat.succ_pos bits
      have minusOne : b = .allOnes bits ↔ b.toInt = -1 := by
        rw [← BitVec.toInt_inj, BitVec.toInt_allOnes, if_pos positive]
      rw [(inBits_toInt a).tdiv_iff nonzero, Decidable.not_not, minusOne]
      simp only [BitVec.negOverflow, beq_iff_eq]
  | eq => exact congrArg (some ∘ Sum.inr) (same_words a b)
  | notEq =>
    refine congrArg (some ∘ Sum.inr) ?_
    rw [bne, same_words, decide_not]
    rfl
  | less => rfl
  | lessEq => rfl
  | greater => rfl
  | greaterEq => rfl

end BinaryOp

end

/-! ## Words and values -/

/-- The word of an integer, narrow ones widened. -/
def Value.toWord? : Value → Option (BitVec 64)
  | .int k => some (k.toBitVec.signExtend 64)
  | .wide k => some k.toBitVec
  | _ => none

/-- The word made narrow, if that keeps its integer. -/
def narrow? (a : BitVec 64) : Option (BitVec 32) := word? 32 a.toInt

/-- The value of a word at a width. -/
def Width.ofWord? : Width → BitVec 64 → Option Value
  | .narrow, a => (narrow? a).map fun b => .int (.ofBitVec b)
  | .wide, a => some (.wide (.ofBitVec a))

/-- An operator, computed with words of 64 bits. -/
def BinaryOp.applyWords (op : BinaryOp) (left right : Value) : Except RunError Value :=
  match left.toWord?, right.toWord? with
  | none, _ => .error (.binaryOperand op left.typeName)
  | some _, none => .error (.binaryOperand op right.typeName)
  | some a, some b =>
      match op.onWords a b with
      | none => .error .divisionByZero
      | some (.inr c) => .ok (.ofBool c)
      | some (.inl result) =>
          match result.bind (left.commonWidth right).ofWord? with
          | some v => .ok v
          | none => .error (.overflow op)

/-- The negation, computed with words of the width of its operand. -/
def Value.negateWord (a : Value) : Except RunError Value :=
  match a with
  | .int k => if k.toBitVec.negOverflow then .error .negationOverflow else .ok (.int (-k))
  | .wide k => if k.toBitVec.negOverflow then .error .negationOverflow else .ok (.wide (-k))
  | _ => .error (.unaryOperand .neg a.typeName)

theorem toInt_of_word? {bits : Nat} {n : Int} {a : BitVec bits} (positive : 0 < bits)
    (h : word? bits n = some a) : a.toInt = n := by
  by_cases fits : InBits bits n
  · simp only [word?, if_pos fits, Option.some.injEq] at h
    rw [← h, BitVec.toInt_ofInt_eq_self positive fits.1 fits.2]
  · simp [word?, fits] at h

theorem word?_eq_none_iff {bits : Nat} {n : Int} : word? bits n = none ↔ ¬ InBits bits n := by
  simp [word?]

/-- The way over 64 bits loses nothing that fits 32. -/
theorem word?_bind_narrow? (n : Int) : (word? 64 n).bind narrow? = word? 32 n := by
  cases h : word? 64 n with
  | none =>
    have lost := word?_eq_none_iff.1 h
    refine (word?_eq_none_iff.2 fun fits => lost ?_).symm
    simp only [InBits] at fits ⊢
    omega
  | some a => rw [Option.bind_some, narrow?, toInt_of_word? (by decide) h]

theorem Width.value?_eq_word? (w : Width) (n : Int) : w.value? n = (word? 64 n).bind w.ofWord? := by
  have fits := w.fits_iff n
  cases w with
  | narrow =>
    have steps : ofWord? .narrow = Option.map (fun b => .int (.ofBitVec b)) ∘ narrow? := rfl
    rw [steps, ← Option.map_bind, word?_bind_narrow?]
    by_cases h : InBits 32 n
    · simp [value?, word?, h, ← fits, Fits, bits, Int32.ofInt]
    · simp [value?, word?, h, ← fits, Fits, bits]
  | wide =>
    by_cases h : InBits 64 n
    · simp [value?, word?, h, ← fits, Fits, bits, ofWord?, Int64.ofInt]
    · simp [value?, word?, h, ← fits, Fits, bits]

theorem Value.toInt?_eq_toWord? (v : Value) : v.toInt? = v.toWord?.map BitVec.toInt := by
  cases v with
  | int k =>
    exact congrArg some (BitVec.toInt_signExtend_of_le (w := 32) (v := 64) (by decide)).symm
  | _ => rfl

/-- The operators compute with words as they do with integers. -/
theorem BinaryOp.applyWords_eq (op : BinaryOp) (a b : Value) :
    op.applyWords a b = op.apply a b := by
  simp only [applyWords, apply, Value.toInt?_eq_toWord?]
  cases a.toWord? with
  | none => rfl
  | some x =>
  cases b.toWord? with
  | none => rfl
  | some y =>
    simp only [onWords_eq, Option.map_some]
    cases op.onInts x.toInt y.toInt with
    | none => rfl
    | some r =>
    cases r with
    | inr c => rfl
    | inl n =>
      have value := Width.value?_eq_word? (a.commonWidth b) n
      simp only [Option.map_some, Sum.map_inl]
      cases hv : (a.commonWidth b).value? n with
      | none => simp only [← value, hv]
      | some v => simp only [← value, hv]

theorem Value.Negates.of_word {a v : Value} {w : Width} {k : BitVec w.bits}
    (ha : a.Denotes w k.toInt) (hv : v.Denotes w (-k).toInt) :
    a.Negates (if k.negOverflow then .error .negationOverflow else .ok v) := by
  by_cases lost : k.negOverflow
  · rw [if_pos lost]
    rw [beq_iff_eq.1 lost] at ha
    exact .least ha
  · rw [if_neg lost]
    rw [BitVec.toInt_neg_of_not_negOverflow lost] at hv
    exact .number ha hv

/-- The negation of a word follows the rules. -/
theorem Value.negates_negateWord (a : Value) : a.Negates a.negateWord := by
  cases a with
  | int k => exact .of_word (.int k) (.int (-k))
  | wide k => exact .of_word (.wide k) (.wide (-k))
  | _ => exact .operand (toInt?_eq_none_iff.1 rfl)

/-- What is made of two integers of 32 bits is one of 64 bits. -/
theorem BinaryOp.Number.inBits {op : BinaryOp} {x y n : Int} (h : op.Number x y n)
    (hx : InBits 32 x) (hy : InBits 32 y) : InBits 64 n := by
  simp only [InBits] at *
  cases h with
  | add => omega
  | sub => omega
  | mul =>
    have product : (x * y).natAbs ≤ 2 ^ 31 * 2 ^ 31 := by
      rw [Int.natAbs_mul]
      exact Nat.mul_le_mul (by omega) (by omega)
    omega
  | div =>
    have quotient := Int.natAbs_tdiv_le_natAbs x y
    omega

namespace BinaryOp

theorem onWords_signExtend_eq (op : BinaryOp) (a b : BitVec 32) :
    op.onWords (a.signExtend 64) (b.signExtend 64) =
      (op.onInts a.toInt b.toInt).map (Sum.map (word? 64) id) := by
  simp only [onWords_eq, BitVec.toInt_signExtend_of_le (w := 32) (v := 64) (by decide)]

/-- No result of narrow operands is lost on the way over 64 bits. -/
theorem onWords_signExtend_ne (op : BinaryOp) (a b : BitVec 32) :
    op.onWords (a.signExtend 64) (b.signExtend 64) ≠ some (.inl none) := by
  rw [onWords_signExtend_eq]
  match h : op.onInts a.toInt b.toInt with
  | none => simp
  | some (.inr c) => simp
  | some (.inl n) =>
    have fits := (onInts_eq_number_iff.1 h).inBits (inBits_toInt a) (inBits_toInt b)
    simp [word?, fits]

/-- Made narrow again, it is the result of the operation on 32 bits. -/
theorem narrow?_onWords_signExtend (op : BinaryOp) (a b : BitVec 32) :
    (op.onWords (a.signExtend 64) (b.signExtend 64)).map (Sum.map (·.bind narrow?) id) =
      op.onWords a b := by
  have narrowed : (fun n => (word? 64 n).bind narrow?) = word? 32 := funext word?_bind_narrow?
  rw [onWords_signExtend_eq, onWords_eq, Option.map_map, Sum.map_comp_map]
  exact congrArg (fun f => (op.onInts a.toInt b.toInt).map (Sum.map f id)) narrowed

end BinaryOp

/-- The operators are exact: they follow the rules and nothing else, machine words give the
same results, and those of two narrow operands are never lost on the way. -/
theorem operators_exact :
    (∀ op a b r, BinaryOp.apply op a b = r ↔ op.Computes a b r) ∧
    (∀ a r, UnaryOp.neg.apply a = r ↔ a.Negates r) ∧
    (∀ op a b, BinaryOp.applyWords op a b = op.apply a b) ∧
    (∀ a, Value.negateWord a = UnaryOp.neg.apply a) ∧
    ∀ (op : BinaryOp) (a b : BitVec 32),
      op.onWords (a.signExtend 64) (b.signExtend 64) ≠ some (.inl none) ∧
      (op.onWords (a.signExtend 64) (b.signExtend 64)).map (Sum.map (·.bind narrow?) id) =
        op.onWords a b := by
  refine ⟨?_, ?_, BinaryOp.applyWords_eq, fun a => a.negates_negateWord.eq_apply.symm, ?_⟩
  · intro op a b r
    exact ⟨fun h => h ▸ op.computes_apply a b, BinaryOp.Computes.eq_apply⟩
  · intro a r
    exact ⟨fun h => h ▸ UnaryOp.negates_apply a, Value.Negates.eq_apply⟩
  · intro op a b
    exact ⟨op.onWords_signExtend_ne a b, op.narrow?_onWords_signExtend a b⟩

example : BinaryOp.div.apply (.int (-2147483648)) (.int (-1)) = .error (.overflow .div) := rfl

end Scriptorium
