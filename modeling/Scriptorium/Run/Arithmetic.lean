import Scriptorium.Run.Value

/-!
# Arithmetic

The operators compute with integers of any size and then ask whether the result
fits its width: 32 bits if both operands are narrow, 64 bits if one is wide.  A
result that does not fit is an error; nothing wraps around.
-/

namespace Scriptorium

namespace Value

/-- The width at which two integers are combined. -/
def commonWidth : Value → Value → Width
  | .wide _, _ => .wide
  | _, .wide _ => .wide
  | _, _ => .narrow

end Value

namespace BinaryOp

/-- What an operator makes of two integers: a number or a truth value.  There is no
result for a division by zero. -/
def onInts (op : BinaryOp) (x y : Int) : Option (Int ⊕ Bool) :=
  match op with
  | .add => some (.inl (x + y))
  | .sub => some (.inl (x - y))
  | .mul => some (.inl (x * y))
  | .div => if y = 0 then none else some (.inl (x.tdiv y))
  | .eq => some (.inr (x = y))
  | .notEq => some (.inr (x ≠ y))
  | .less => some (.inr (x < y))
  | .lessEq => some (.inr (x ≤ y))
  | .greater => some (.inr (x > y))
  | .greaterEq => some (.inr (x ≥ y))

/-- The value of an operator and its operands. -/
def apply (op : BinaryOp) (left right : Value) : Except RunError Value :=
  match left.toInt?, right.toInt? with
  | none, _ => .error (.binaryOperand op left.typeName)
  | some _, none => .error (.binaryOperand op right.typeName)
  | some x, some y =>
      match op.onInts x y with
      | none => .error .divisionByZero
      | some (.inr b) => .ok (.ofBool b)
      | some (.inl n) =>
          match (left.commonWidth right).value? n with
          | some v => .ok v
          | none => .error (.overflow op)

end BinaryOp

namespace UnaryOp

/-- The value of an operator and its operand. -/
def apply (op : UnaryOp) (operand : Value) : Except RunError Value :=
  match operand.toInt?, op with
  | none, _ => .error (.unaryOperand op operand.typeName)
  | some _, .not => .ok (.ofBool !operand.isTrue)
  | some n, .neg =>
      match (operand.commonWidth operand).value? (-n) with
      | some v => .ok v
      | none => .error .negationOverflow

end UnaryOp

end Scriptorium
