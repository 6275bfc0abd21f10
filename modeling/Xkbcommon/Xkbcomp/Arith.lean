import Xkbcommon.Lib.Outcome
import Xkbcommon.Xkbcomp.Expr

/-!
# Integer expressions and their complements

What the evaluator of `Xkbcommon.Xkbcomp.exprResolveIntegerLookup` is for: the value of an
expression in the integers, as long as nothing leaves the range of `int64_t` on the way. The
relation `Xkbcommon.Xkbcomp.Evaluates` states this value without the evaluator. The evaluator
agrees with it except at two operations that the source does not check: the negation of the
least integer, and its quotient by -1 (`Xkbcommon.Xkbcomp.Overflows`).

The second part compares the evaluator of masks with it. The operand of `~` in a mask is an
integer expression, in which `+` carries, so a mask and its complement need not be
complementary.
-/

namespace Xkbcommon.Xkbcomp

open Outcome

variable {op : BinaryOp} {left right e child : ExprDef} {v x : ℤ} {lookup : IdentLookup}

/-! ### The value of an expression -/

section Values

/-- The value of an operation in the integers. -/
def exactOp : BinaryOp → ℤ → ℤ → Option ℤ
  | .add, x, y => some (x + y)
  | .subtract, x, y => some (x - y)
  | .multiply, x, y => some (x * y)
  | .divide, x, y => if y = 0 then none else some (x.tdiv y)
  | .assign, _, _ => none

/-- The value of an operation on one operand in the integers. -/
def exactUnaryOp : UnaryOp → ℤ → Option ℤ
  | .not, _ => none
  | .negate, x => some (-x)
  | .invert, x => some (-x - 1)
  | .unaryPlus, x => some x

/-- **The value of an expression**, which exists if every value on the way to it is one of
`int64_t`. -/
inductive Evaluates (lookup : IdentLookup) : ExprDef → ℤ → Prop
  | integer {ival : ℤ} (hfits : InInt64 ival) : Evaluates lookup (.integer ival) ival
  | ident {name : Atom} {u : BitVec 32} (hname : lookup name = .ok u) :
      Evaluates lookup (.ident name) u.toNat
  | binary {op : BinaryOp} {left right : ExprDef} {x y v : ℤ} (hleft : Evaluates lookup left x)
      (hright : Evaluates lookup right y) (hop : exactOp op x y = some v) (hfits : InInt64 v) :
      Evaluates lookup (.binary op left right) v
  | unary {op : UnaryOp} {child : ExprDef} {x v : ℤ} (hchild : Evaluates lookup child x)
      (hop : exactUnaryOp op x = some v) (hfits : InInt64 v) : Evaluates lookup (.unary op child) v

/-- The expressions of integer arithmetic: literals and names, the four operations, `-`, `+`
and `~`. -/
inductive IntExpr : ExprDef → Prop
  | integer {ival : ℤ} (hfits : InInt64 ival) : IntExpr (.integer ival)
  | ident (name : Atom) : IntExpr (.ident name)
  | binary {op : BinaryOp} {left right : ExprDef} (hop : op ≠ .assign) (hleft : IntExpr left)
      (hright : IntExpr right) : IntExpr (.binary op left right)
  | unary {op : UnaryOp} {child : ExprDef} (hop : op ≠ .not) (hchild : IntExpr child) :
      IntExpr (.unary op child)

/-- The literals of an expression are integers of the source, as the scanner reads them. -/
def LiteralsFit : ExprDef → Prop
  | .integer ival => InInt64 ival
  | .binary _ left right => LiteralsFit left ∧ LiteralsFit right
  | .unary _ child => LiteralsFit child
  | _ => True

/-- **The first operation without a value**, in the order of evaluation, is the negation of the
least integer or its quotient by -1. -/
inductive Overflows (lookup : IdentLookup) : ExprDef → Prop
  | negate {child : ExprDef} (hchild : Evaluates lookup child (-2 ^ 63)) :
      Overflows lookup (.unary .negate child)
  | divide {left right : ExprDef} (hleft : Evaluates lookup left (-2 ^ 63))
      (hright : Evaluates lookup right (-1)) : Overflows lookup (.binary .divide left right)
  | left {op : BinaryOp} {left right : ExprDef} (hleft : Overflows lookup left) :
      Overflows lookup (.binary op left right)
  | right {op : BinaryOp} {left right : ExprDef} {x : ℤ} (hleft : Evaluates lookup left x)
      (hright : Overflows lookup right) : Overflows lookup (.binary op left right)
  | child {op : UnaryOp} {child : ExprDef} (hchild : Overflows lookup child) :
      Overflows lookup (.unary op child)

end Values

/-! ### One operation -/

section Operations

variable {y : ℤ}

/-- The quotient of two `int64_t` is one, the least integer by -1 apart. -/
theorem inInt64_tdiv (hx : InInt64 x) (hxy : ¬(x = -2 ^ 63 ∧ y = -1)) : InInt64 (x.tdiv y) := by
  have habs : (x.tdiv y).natAbs ≤ x.natAbs := by
    rw [Int.natAbs_tdiv]
    exact Nat.div_le_self _ _
  obtain ⟨hlow, hhigh⟩ := hx
  by_cases hmin : x = -2 ^ 63
  · have hy : y ≠ -1 := fun h => hxy ⟨hmin, h⟩
    by_cases hy1 : y = 1
    · rw [hy1, Int.tdiv_one]
      exact ⟨hlow, hhigh⟩
    by_cases hy0 : y = 0
    · rw [hy0, Int.tdiv_zero]
      decide
    -- the divisor has an absolute value of 2 at least, so the quotient is halved
    have hhalf : (x.tdiv y).natAbs ≤ x.natAbs / 2 := by
      rw [Int.natAbs_tdiv]
      exact Nat.div_le_div_left (by omega) (by omega)
    constructor <;> omega
  · constructor <;> omega

theorem checked_eq_ok_iff {e : ResolveError} :
    (if InInt64 x then .ok x else .error e : Resolved ℤ) = .ok v ↔ x = v ∧ InInt64 v := by
  split_ifs with h
  · rw [Except.ok.injEq]
    exact ⟨fun hv => ⟨hv, hv ▸ h⟩, And.left⟩
  · refine ⟨nofun, ?_⟩
    rintro ⟨rfl, hx⟩
    exact absurd hx h

theorem ckd_eq_ok_iff : ckd x = .ok v ↔ x = v ∧ InInt64 v := checked_eq_ok_iff

theorem unchecked_eq_ok_iff : unchecked x = .ok v ↔ x = v ∧ InInt64 v := checked_eq_ok_iff

theorem ckd_ne_undefined : ckd x ≠ .error .undefined := by
  unfold ckd
  split_ifs <;> simp

theorem unchecked_undefined_iff : unchecked x = .error .undefined ↔ ¬InInt64 x := by
  unfold unchecked
  split_ifs with h <;> simp [h]

/-- An operation has the exact value, if that fits. -/
theorem integerOp_eq_ok_iff : integerOp op x y = .ok v ↔ exactOp op x y = some v ∧ InInt64 v := by
  cases op with
  | add | subtract | multiply => simp [integerOp, exactOp, ckd_eq_ok_iff]
  | divide =>
    by_cases hy : y = 0
    · simp [integerOp, exactOp, hy]
    · simp [integerOp, exactOp, hy, unchecked_eq_ok_iff]
  | assign => simp [integerOp, exactOp]

theorem integerUnaryOp_eq_ok_iff {op : UnaryOp} (hx : InInt64 x) :
    integerUnaryOp op x = .ok v ↔ exactUnaryOp op x = some v ∧ InInt64 v := by
  obtain ⟨hlow, hhigh⟩ := hx
  cases op with
  | not => simp [integerUnaryOp, exactUnaryOp]
  | negate => simp [integerUnaryOp, exactUnaryOp, unchecked_eq_ok_iff]
  | invert =>
    simp only [integerUnaryOp, exactUnaryOp, Except.ok.injEq, Option.some.injEq, iff_self_and]
    rintro rfl
    constructor <;> omega
  | unaryPlus =>
    simp only [integerUnaryOp, exactUnaryOp, Except.ok.injEq, Option.some.injEq, iff_self_and]
    rintro rfl
    exact ⟨hlow, hhigh⟩

theorem integerOp_undefined_iff (hx : InInt64 x) :
    integerOp op x y = .error .undefined ↔ op = .divide ∧ x = -2 ^ 63 ∧ y = -1 := by
  cases op with
  | add | subtract | multiply => simp [integerOp, ckd_ne_undefined]
  | divide =>
    by_cases hy : y = 0
    · simp [integerOp, hy]
    simp only [integerOp, hy, if_false, unchecked_undefined_iff, true_and]
    constructor
    · intro hfits
      by_contra hne
      exact hfits (inInt64_tdiv hx hne)
    · rintro ⟨rfl, rfl⟩
      decide
  | assign => simp [integerOp]

theorem integerUnaryOp_undefined_iff {op : UnaryOp} (hx : InInt64 x) :
    integerUnaryOp op x = .error .undefined ↔ op = .negate ∧ x = -2 ^ 63 := by
  cases op with
  | not | invert | unaryPlus => simp [integerUnaryOp]
  | negate =>
    simp only [integerUnaryOp, unchecked_undefined_iff, true_and]
    unfold InInt64 at *
    omega

end Operations

/-! ### The evaluator -/

section Evaluator

theorem resolveInteger_binary (hop : op ≠ .assign) :
    exprResolveIntegerLookup lookup (.binary op left right) =
      (exprResolveIntegerLookup lookup left).bind fun l =>
        (exprResolveIntegerLookup lookup right).bind fun r => integerOp op l r := by
  simp only [exprResolveIntegerLookup, hop, if_false]
  rfl

theorem resolveInteger_unary {op : UnaryOp} (hop : op ≠ .not) :
    exprResolveIntegerLookup lookup (.unary op child) =
      (exprResolveIntegerLookup lookup child).bind fun l => integerUnaryOp op l := by
  simp only [exprResolveIntegerLookup, hop, if_false]
  rfl

/-- Every value of an expression fits `int64_t`. -/
theorem Evaluates.inInt64 (h : Evaluates lookup e v) : InInt64 v := by
  cases h with
  | integer hfits => exact hfits
  | @ident _ u _ =>
    have := u.isLt
    constructor <;> omega
  | binary _ _ _ hfits => exact hfits
  | unary _ _ hfits => exact hfits

/-- The evaluator finds the value of an expression. -/
theorem Evaluates.resolve (h : Evaluates lookup e v) :
    exprResolveIntegerLookup lookup e = .ok v := by
  induction h with
  | integer _ => rfl
  | ident hname =>
    simp only [exprResolveIntegerLookup, hname]
    rfl
  | @binary op left right x y v _ _ hop hfits ihleft ihright =>
    have hassign : op ≠ .assign := by
      rintro rfl
      cases hop
    rw [resolveInteger_binary hassign, ihleft, ihright]
    exact integerOp_eq_ok_iff.mpr ⟨hop, hfits⟩
  | @unary op child x v hchild hop hfits ih =>
    have hnot : op ≠ .not := by
      rintro rfl
      cases hop
    rw [resolveInteger_unary hnot, ih]
    exact (integerUnaryOp_eq_ok_iff hchild.inInt64).mpr ⟨hop, hfits⟩

/-- What the evaluator finds is the value of the expression, if the literals are integers of the
source. -/
theorem LiteralsFit.evaluates (he : LiteralsFit e)
    (h : exprResolveIntegerLookup lookup e = .ok v) : Evaluates lookup e v := by
  induction e using exprResolveIntegerLookup.induct generalizing v with
  | case1 ival =>
    cases h
    exact .integer he
  | case2 name =>
    simp only [exprResolveIntegerLookup] at h
    cases hname : lookup name with
    | error err => simp [hname, Except.map] at h
    | ok u =>
      rw [hname] at h
      cases h
      exact .ident hname
  | case3 left right => cases h
  | case4 op left right hop ihleft ihright =>
    rw [resolveInteger_binary hop] at h
    obtain ⟨x, hx, h⟩ := bind_eq_ok h
    obtain ⟨y, hy, h⟩ := bind_eq_ok h
    obtain ⟨hvalue, hfits⟩ := integerOp_eq_ok_iff.mp h
    exact .binary (ihleft he.1 hx) (ihright he.2 hy) hvalue hfits
  | case5 child => cases h
  | case6 op child hop ih =>
    rw [resolveInteger_unary hop] at h
    obtain ⟨x, hx, h⟩ := bind_eq_ok h
    obtain ⟨hvalue, hfits⟩ := (integerUnaryOp_eq_ok_iff (ih he hx).inInt64).mp h
    exact .unary (ih he hx) hvalue hfits
  | case7 e => simp [exprResolveIntegerLookup] at h

theorem IntExpr.literalsFit (he : IntExpr e) : LiteralsFit e := by
  induction he with
  | integer hfits => exact hfits
  | ident _ => trivial
  | binary _ _ _ ihleft ihright => exact ⟨ihleft, ihright⟩
  | unary _ _ ih => exact ih

theorem IntExpr.evaluates (he : IntExpr e) (h : exprResolveIntegerLookup lookup e = .ok v) :
    Evaluates lookup e v := he.literalsFit.evaluates h

/-- The evaluation is undefined exactly if an unchecked operation overflows. -/
theorem IntExpr.undefined_iff (hlookup : ∀ name, lookup name ≠ .error .undefined) (he : IntExpr e) :
    exprResolveIntegerLookup lookup e = .error .undefined ↔ Overflows lookup e := by
  induction he with
  | integer _ =>
    constructor <;> intro h <;> cases h
  | ident name =>
    constructor
    · intro h
      simp only [exprResolveIntegerLookup] at h
      cases hname : lookup name with
      | error err =>
        rw [hname] at h
        cases h
        exact absurd hname (hlookup name)
      | ok u =>
        rw [hname] at h
        cases h
    · intro h
      cases h
  | @binary op left right hop hleft hright ihleft ihright =>
    rw [resolveInteger_binary hop]
    constructor
    · intro h
      rcases bind_eq_error h with hl | ⟨x, hx, h⟩
      · exact .left (ihleft.mp hl)
      have hxv := hleft.evaluates hx
      rcases bind_eq_error h with hr | ⟨y, hy, h⟩
      · exact .right hxv (ihright.mp hr)
      obtain ⟨rfl, rfl, rfl⟩ := (integerOp_undefined_iff hxv.inInt64).mp h
      exact .divide hxv (hright.evaluates hy)
    · intro h
      cases h with
      | divide hx hy =>
        rw [hx.resolve, hy.resolve]
        rfl
      | left hl =>
        rw [ihleft.mpr hl]
        rfl
      | right hx hr =>
        rw [hx.resolve, ihright.mpr hr]
        rfl
  | @unary op child hop hchild ih =>
    rw [resolveInteger_unary hop]
    constructor
    · intro h
      rcases bind_eq_error h with hc | ⟨x, hx, h⟩
      · exact .child (ih.mp hc)
      have hxv := hchild.evaluates hx
      obtain ⟨rfl, rfl⟩ := (integerUnaryOp_undefined_iff hxv.inInt64).mp h
      exact .negate hxv
    · intro h
      cases h with
      | negate hx =>
        rw [hx.resolve]
        rfl
      | child hc =>
        rw [ih.mpr hc]
        rfl

/-- **Integer expressions are exact or rejected**, unless an unchecked operation overflows: the
evaluator has the value of the expression, or there is none and it fails or waits. -/
theorem integer_exact_or_rejected (lookup : IdentLookup)
    (hlookup : ∀ name, lookup name ≠ .error .undefined) (e : ExprDef) (he : IntExpr e) :
    ((∃ v, exprResolveIntegerLookup lookup e = .ok v ∧ Evaluates lookup e v) ∨
        ((exprResolveIntegerLookup lookup e = .error .failed ∨
            exprResolveIntegerLookup lookup e = .error .pending) ∧
          ∀ v, ¬Evaluates lookup e v)) ↔
      ¬Overflows lookup e := by
  rw [← he.undefined_iff hlookup]
  cases hresult : exprResolveIntegerLookup lookup e with
  | ok v =>
    refine iff_of_true (.inl ⟨v, rfl, he.evaluates hresult⟩) ?_
    simp
  | error err =>
    have hnone : ∀ v, ¬Evaluates lookup e v := by
      intro v hv
      rw [hv.resolve] at hresult
      cases hresult
    cases err with
    | failed => exact iff_of_true (.inr ⟨.inl rfl, hnone⟩) (by simp)
    | pending => exact iff_of_true (.inr ⟨.inr rfl, hnone⟩) (by simp)
    | undefined => simp

/-- The least integer, written `~0x7fffffffffffffff`. -/
def leastInteger : ExprDef := .unary .invert (.integer 0x7fffffffffffffff)

/-- The quotient of 7 by 2 is exact, in the sense of truncation. -/
theorem integer_exact_or_rejected_seven_halves :
    (∃ v, exprResolveInteger (.binary .divide (.integer 7) (.integer 2)) = .ok v ∧
        Evaluates (fun _ => .error .failed) (.binary .divide (.integer 7) (.integer 2)) v) ∨
      ((exprResolveInteger (.binary .divide (.integer 7) (.integer 2)) = .error .failed ∨
          exprResolveInteger (.binary .divide (.integer 7) (.integer 2)) = .error .pending) ∧
        ∀ v, ¬Evaluates (fun _ => .error .failed)
          (.binary .divide (.integer 7) (.integer 2)) v) := by
  have he : IntExpr (.binary .divide (.integer 7) (.integer 2)) :=
    .binary (by decide) (.integer (by decide)) (.integer (by decide))
  refine (integer_exact_or_rejected (fun _ => .error .failed) (by simp) _ he).mpr ?_
  rw [← he.undefined_iff (by simp)]
  decide

/-- The negation of the least integer has no value, and the evaluator does not fail at it. -/
theorem negated_leastInteger_undefined :
    IntExpr (.unary .negate leastInteger) ∧
      (∀ v, ¬Evaluates (fun _ => .error .failed) (.unary .negate leastInteger) v) ∧
      exprResolveInteger (.unary .negate leastInteger) = .error .undefined := by
  refine ⟨.unary (by decide) (.unary (by decide) (.integer (by decide))), ?_, by decide⟩
  intro v hv
  have hundefined : exprResolveIntegerLookup (fun _ => .error .failed)
      (.unary .negate leastInteger) = .error .undefined := by decide
  rw [hv.resolve] at hundefined
  cases hundefined

end Evaluator

/-! ### Complements of masks -/

section Complement

variable {m : BitVec 32}

/-- The expressions of masks: literals and names, unions, differences and complements. -/
inductive MaskExpr : ExprDef → Prop
  | integer {ival : ℤ} (hfits : InInt64 ival) : MaskExpr (.integer ival)
  | ident (name : Atom) : MaskExpr (.ident name)
  | add {left right : ExprDef} (hleft : MaskExpr left) (hright : MaskExpr right) :
      MaskExpr (.binary .add left right)
  | subtract {left right : ExprDef} (hleft : MaskExpr left) (hright : MaskExpr right) :
      MaskExpr (.binary .subtract left right)
  | invert {child : ExprDef} (hchild : MaskExpr child) : MaskExpr (.unary .invert child)

/-- An expression of masks is one of integer arithmetic. -/
theorem MaskExpr.intExpr (he : MaskExpr e) : IntExpr e := by
  induction he with
  | integer hfits => exact .integer hfits
  | ident name => exact .ident name
  | add _ _ ihleft ihright | subtract _ _ ihleft ihright => exact .binary (by decide) ihleft ihright
  | invert _ ih => exact .unary (by decide) ih

theorem resolveMask_binary (hop : op ≠ .assign) :
    exprResolveMaskLookup lookup (.binary op left right) =
      (exprResolveMaskLookup lookup left).bind fun l =>
        (exprResolveMaskLookup lookup right).bind fun r => maskOp op l r := by
  simp only [exprResolveMaskLookup, hop, if_false]
  rfl

theorem resolveMask_invert :
    exprResolveMaskLookup lookup (.unary .invert child) =
      (exprResolveIntegerLookup lookup child).bind fun v =>
        (toMask v).bind fun m => .ok (~~~m) := rfl

/-- An accepted operation on masks is one on two accepted masks. -/
theorem resolveMask_binary_ok (hop : op ≠ .assign)
    (h : exprResolveMaskLookup lookup (.binary op left right) = .ok m) :
    ∃ a b, exprResolveMaskLookup lookup left = .ok a ∧
      exprResolveMaskLookup lookup right = .ok b ∧ maskOp op a b = .ok m := by
  rw [resolveMask_binary hop] at h
  obtain ⟨a, ha, h⟩ := bind_eq_ok h
  obtain ⟨b, hb, h⟩ := bind_eq_ok h
  exact ⟨a, b, ha, hb, h⟩

theorem toMask_eq_ok_iff : toMask v = .ok m ↔ v = m.toNat := by
  unfold toMask
  constructor
  · split_ifs with h
    · rintro ⟨⟩
      rw [BitVec.toNat_ofInt]
      omega
    · intro hm
      cases hm
  · rintro rfl
    have hm := m.isLt
    rw [if_pos (by omega)]
    simp

/-- **The complement of a mask**: the union and the difference of masks mean what they say, and
`~e` is accepted with the complement of the value of `e` exactly if the value of `e` in the
integers, where `+` and `-` carry, is the mask. -/
theorem mask_complement_iff (lookup : IdentLookup) (e : ExprDef) (m : BitVec 32)
    (he : MaskExpr e) (hm : exprResolveMaskLookup lookup e = .ok m) :
    ((∀ left right, e = .binary .add left right →
          ∃ a b, exprResolveMaskLookup lookup left = .ok a ∧
            exprResolveMaskLookup lookup right = .ok b ∧ m = a ||| b) ∧
        (∀ left right, e = .binary .subtract left right →
          ∃ a b, exprResolveMaskLookup lookup left = .ok a ∧
            exprResolveMaskLookup lookup right = .ok b ∧ m = a &&& ~~~b) ∧
        exprResolveMaskLookup lookup (.unary .invert e) = .ok (~~~m)) ↔
      Evaluates lookup e m.toNat := by
  constructor
  · rintro ⟨-, -, hinvert⟩
    rw [resolveMask_invert] at hinvert
    obtain ⟨v, hv, hinvert⟩ := Outcome.bind_eq_ok hinvert
    obtain ⟨a, ha, hinvert⟩ := Outcome.bind_eq_ok hinvert
    obtain rfl : a = m := by
      rw [← BitVec.not_not (b := a), Except.ok.inj hinvert, BitVec.not_not]
    rw [← toMask_eq_ok_iff.mp ha]
    exact he.intExpr.evaluates hv
  · intro hvalue
    refine ⟨?_, ?_, ?_⟩
    · rintro left right rfl
      obtain ⟨a, b, ha, hb, hab⟩ := resolveMask_binary_ok (by decide) hm
      exact ⟨a, b, ha, hb, (Except.ok.inj hab).symm⟩
    · rintro left right rfl
      obtain ⟨a, b, ha, hb, hab⟩ := resolveMask_binary_ok (by decide) hm
      exact ⟨a, b, ha, hb, (Except.ok.inj hab).symm⟩
    · rw [resolveMask_invert, hvalue.resolve]
      change (toMask m.toNat).bind _ = _
      rw [toMask_eq_ok_iff.mpr rfl]
      rfl

/-- A lookup in which `Shift` is the first modifier. -/
def shiftLookup : IdentLookup := simpleLookup [(ascii "Shift", 1#32), (ascii "Lock", 2#32)]

/-- The union of two modifiers and its complement. -/
theorem mask_complement_shift_lock :
    exprResolveMaskLookup shiftLookup
        (.unary .invert (.binary .add (.ident (ascii "Shift")) (.ident (ascii "Lock")))) =
      .ok (~~~3#32) :=
  ((mask_complement_iff shiftLookup
    (.binary .add (.ident (ascii "Shift")) (.ident (ascii "Lock"))) 3#32
    (.add (.ident _) (.ident _)) (by decide)).mpr
    (.binary (.ident (u := 1#32) (by decide)) (.ident (u := 2#32) (by decide)) rfl
      (by decide))).2.2

/-- `Shift+Shift` is `Shift`, and its complement is that of the second modifier. -/
theorem mask_complement_shift_twice :
    exprResolveMaskLookup shiftLookup
        (.binary .add (.ident (ascii "Shift")) (.ident (ascii "Shift"))) = .ok 1#32 ∧
      exprResolveMaskLookup shiftLookup (.unary .invert
        (.binary .add (.ident (ascii "Shift")) (.ident (ascii "Shift")))) = .ok (~~~2#32) := by
  constructor <;> decide

end Complement

end Xkbcommon.Xkbcomp
