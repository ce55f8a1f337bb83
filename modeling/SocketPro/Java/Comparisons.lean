import SocketPro.Java.ChangeType
import SocketPro.Foundation.Binary
import Mathlib.Data.List.Lex
import Mathlib.Algebra.Order.Field.Rat
import Mathlib.Algebra.Order.Field.Power

/-!
# The comparisons of a Java table

`gt`, `ge`, `lt`, `le`, `eq` and `neq` of `CTable`. All of them look at the class of the first
object and cast the second one to it, and what they then ask of the two is the same for all six:
whether the first comes before the second, equals it or comes after it (`Comparison`). A number that
is none does nothing of this. A comparison that throws gives `none`.

**Keys.** Two objects of one type of column are related as their keys are (`relation_eq`). A key is
a list of numbers in lexicographic order.
-/

namespace SocketPro.Java

open Binary

/-- `CTable.Operator` -/
inductive Operator
  | equal
  | great
  | less
  | great_equal
  | less_equal
  | not_equal
  | is_null
deriving DecidableEq, Repr

/-- How an object is related to another one. -/
structure Comparison where
  before : Bool
  equals : Bool
  after : Bool
deriving DecidableEq, Repr

/-- The relation of two values of a linear order. -/
def Comparison.of {κ : Type*} [LinearOrder κ] (x y : κ) : Comparison := ⟨x < y, x = y, y < x⟩

/-- What a comparison asks. -/
def Operator.holds (op : Operator) (r : Comparison) : Bool :=
  match op with
  | .equal => r.equals
  | .great => r.after
  | .less => r.before
  | .great_equal => r.after || r.equals
  | .less_equal => r.before || r.equals
  | .not_equal => !r.equals
  | .is_null => false

/-! ### Numbers, texts and dates -/

/-- `double` -/
def binary64 : Format := ⟨11, 52⟩

/-- `float` -/
def binary32 : Format := ⟨8, 23⟩

/-- `<`, `==` and `>` of two floating-point numbers. -/
def floatRelation (f : Format) (a b : ℕ) : Comparison :=
  if f.isNaN a = true ∨ f.isNaN b = true then ⟨false, false, false⟩
  else .of (f.key a) (f.key b)

/-- `s.compareTo(t)`: the difference of the first code units that differ, or of the lengths. -/
def compareUnits : Text → Text → ℤ
  | c :: s, d :: t => if c = d then compareUnits s t else c.toNat - d.toNat
  | s, t => s.length - t.length

/-- `compareTo` or `compareToIgnoreCase` -/
def compareText (l : Library) (caseSensitive : Bool) (s t : Text) : ℤ :=
  if caseSensitive = true then compareUnits s t
  else compareUnits (s.map l.foldCase) (t.map l.foldCase)

/-- The two unscaled values at a common scale. -/
def BigDecimal.relation (d e : BigDecimal) : Comparison :=
  .of (d.unscaledValue * 10 ^ (e.scale - d.scale).toNat)
    (e.unscaledValue * 10 ^ (d.scale - e.scale).toNat)

/-- The upper halves are compared first; both are signed. -/
def uuidRelation (most least most' least' : UInt64) : Comparison :=
  if most = most' then .of least.toInt64.toInt least'.toInt64.toInt
  else .of most.toInt64.toInt most'.toInt64.toInt

/-- The times are compared first. -/
def Timestamp.relation (s t : Timestamp) : Comparison :=
  if s.getTime = t.getTime then .of s.getNanos t.getNanos else .of s.getTime.toInt t.getTime.toInt

/-- The whole seconds of a `Timestamp`, which are its time as a `java.util.Date`. -/
def Timestamp.fastTime (t : Timestamp) : ℤ := t.getTime.toInt - (t.getNanos / 1000000 : ℕ)

/-! ### The comparisons -/

section Compare

variable (l : Library) (caseSensitive : Bool)

/-- The relation of two objects, if the second one has the class of the first. -/
def relation : Obj → Obj → Option Comparison
  | .int m, .int n => some (.of m.toInt n.toInt)
  | .long m, .long n => some (.of m.toInt n.toInt)
  | .short m, .short n => some (.of m.toInt n.toInt)
  | .double d, .double e => some (floatRelation binary64 d.toNat e.toNat)
  | .string s, .string t => some (.of (compareText l caseSensitive s t) 0)
  | .boolean b, .boolean c => some (.of b.toNat c.toNat)
  | .timestamp s, .timestamp t => some (s.relation t)
  | .decimal d, .decimal e => some (d.relation e)
  | .float d, .float e => some (floatRelation binary32 d.toNat e.toNat)
  | .uuid m n, .uuid m' n' => some (uuidRelation m n m' n')
  | .char c, .char d => some (.of c.toNat d.toNat)
  | .byte m, .byte n => some (.of m.toInt n.toInt)
  | .date s, .date t => some (.of s.toInt t.toInt)
  -- `equals` looks at all of the time, `before` and `after` at its seconds.
  | .date s, .timestamp t => some ⟨s.toInt < t.fastTime, s = t.getTime, t.fastTime < s.toInt⟩
  | _, _ => none

/-- The six comparisons. -/
def compareWith (op : Operator) (vt0 vt1 : Obj) : Option ℤ :=
  match vt0, vt1 with
  | .null, _ => some 0
  | .bytes _, _ | .other _, _ => some COMPARISON_NOT_SUPPORTED
  -- `equals(null)` is false; the other methods throw.
  | .timestamp _, .null | .date _, .null =>
    if op = .equal then some 0 else if op = .not_equal then some 1 else none
  | vt0, vt1 => (relation l caseSensitive vt0 vt1).map fun r ↦ if op.holds r = true then 1 else 0

def gt : Obj → Obj → Option ℤ := compareWith l caseSensitive .great

def ge : Obj → Obj → Option ℤ := compareWith l caseSensitive .great_equal

def lt : Obj → Obj → Option ℤ := compareWith l caseSensitive .less

def le : Obj → Obj → Option ℤ := compareWith l caseSensitive .less_equal

def neq : Obj → Obj → Option ℤ := compareWith l caseSensitive .not_equal

end Compare

/-! ### Keys -/

/-- The key of a text. -/
def textKey (l : Library) (caseSensitive : Bool) (s : Text) : List ℚ :=
  (if caseSensitive = true then s else s.map l.foldCase).map fun c ↦ (c.toNat : ℚ)

/-- The key of an object that is of a comparable type, and is a number if it is meant to be one. -/
def Obj.key (l : Library) (caseSensitive : Bool) : Obj → Option (List ℚ)
  | .byte n => some [(n.toInt : ℚ)]
  | .short n => some [(n.toInt : ℚ)]
  | .int n => some [(n.toInt : ℚ)]
  | .long n => some [(n.toInt : ℚ)]
  | .boolean b => some [(b.toNat : ℚ)]
  | .float x => if binary32.isNaN x.toNat = true then none else some [(binary32.key x.toNat : ℚ)]
  | .double x => if binary64.isNaN x.toNat = true then none else some [(binary64.key x.toNat : ℚ)]
  | .string s => some (textKey l caseSensitive s)
  | .decimal d => some [d.unscaledValue * 10 ^ (-d.scale)]
  | .uuid most least => some [(most.toInt64.toInt : ℚ), (least.toInt64.toInt : ℚ)]
  | .timestamp t => some [(t.getTime.toInt : ℚ), (t.getNanos : ℚ)]
  | .null | .char _ | .date _ | .bytes _ | .other _ => none

namespace Comparison

variable {κ κ' : Type*} [LinearOrder κ] [LinearOrder κ']

/-- Two pairs in one order are in one relation. -/
theorem of_congr {x y : κ} {x' y' : κ'} (hlt : x < y ↔ x' < y') (hgt : y < x ↔ y' < x') :
    of x y = of x' y' := by
  have heq : x = y ↔ x' = y' := by
    rw [eq_iff_le_not_lt, eq_iff_le_not_lt, ← not_lt, ← not_lt, hlt, hgt]
  simp only [of, hlt, heq, hgt]

theorem of_map {f : κ → κ'} (hf : StrictMono f) (x y : κ) : of (f x) (f y) = of x y :=
  of_congr hf.lt_iff_lt hf.lt_iff_lt

theorem of_singleton (x y : κ) : of [x] [y] = of x y :=
  of_congr (by simp [List.cons_lt_cons_iff]) (by simp [List.cons_lt_cons_iff])

theorem of_pair (x y x' y' : κ) :
    of [x, y] [x', y'] = if x = x' then of y y' else of x x' := by
  split_ifs with h
  · subst h
    exact of_congr (by simp [List.cons_lt_cons_iff]) (by simp [List.cons_lt_cons_iff])
  · exact of_congr (by simp [List.cons_lt_cons_iff, h]) (by simp [List.cons_lt_cons_iff, Ne.symm h])

end Comparison

theorem of_intCast (m n : ℤ) : Comparison.of (m : ℚ) (n : ℚ) = Comparison.of m n :=
  Comparison.of_map Int.cast_strictMono m n

theorem of_natCast (m n : ℕ) : Comparison.of (m : ℚ) (n : ℚ) = Comparison.of m n :=
  Comparison.of_map Nat.strictMono_cast m n

/-- The units of two texts decide as the lists of their numbers do. -/
theorem of_compareUnits (s t : Text) : Comparison.of (compareUnits s t) 0 =
    Comparison.of (s.map fun c ↦ (c.toNat : ℚ)) (t.map fun c ↦ (c.toNat : ℚ)) := by
  induction s generalizing t with
  | nil =>
    cases t with
    | nil => exact Comparison.of_congr (by simp [compareUnits]) (by simp [compareUnits])
    | cons d t =>
      refine Comparison.of_congr ?_ (by simp [compareUnits])
      simp only [compareUnits, List.length_nil, List.length_cons, List.map_nil, List.map_cons,
        List.nil_lt_cons, iff_true]
      omega
  | cons c s ih =>
    cases t with
    | nil =>
      refine Comparison.of_congr (iff_of_false ?_ (List.not_lt_nil _)) ?_
      · simp only [compareUnits, List.length_cons, List.length_nil]
        omega
      · simp only [compareUnits, List.length_nil, List.length_cons, List.map_nil, List.map_cons,
          List.nil_lt_cons, iff_true]
        omega
    | cons d t =>
      rw [compareUnits]
      split_ifs with h
      · rw [ih, h]
        exact Comparison.of_congr (by simp) (by simp)
      · have hne : c.toNat ≠ d.toNat := mt UInt16.toNat_inj.1 h
        refine Comparison.of_congr ?_ ?_
        · simp only [List.map_cons, List.cons_lt_cons_iff, Nat.cast_lt, Nat.cast_inj, hne,
            false_and, or_false]
          omega
        · simp only [List.map_cons, List.cons_lt_cons_iff, Nat.cast_lt, Nat.cast_inj, hne.symm,
            false_and, or_false]
          omega

theorem of_compareText (l : Library) (caseSensitive : Bool) (s t : Text) :
    Comparison.of (compareText l caseSensitive s t) 0 =
      Comparison.of (textKey l caseSensitive s) (textKey l caseSensitive t) := by
  unfold compareText textKey
  split_ifs <;> exact of_compareUnits _ _

/-- The common scale does not matter. -/
theorem BigDecimal.relation_eq (d e : BigDecimal) :
    d.relation e =
      .of ((d.unscaledValue : ℚ) * 10 ^ (-d.scale)) (e.unscaledValue * 10 ^ (-e.scale)) := by
  have hpow : (0 : ℚ) < 10 ^ (max d.scale e.scale) := by positivity
  have hscale (x : BigDecimal) (other : ℤ) (hle : max d.scale e.scale = max x.scale other) :
      ((x.unscaledValue * 10 ^ (other - x.scale).toNat : ℤ) : ℚ) =
        x.unscaledValue * 10 ^ (-x.scale) * 10 ^ (max d.scale e.scale) := by
    have hsum : ((other - x.scale).toNat : ℤ) = -x.scale + max d.scale e.scale := by omega
    rw [Int.cast_mul, Int.cast_pow, Int.cast_ofNat, ← zpow_natCast, hsum,
      zpow_add₀ (by norm_num), mul_assoc]
  rw [relation, ← of_intCast, hscale d e.scale rfl, hscale e d.scale (max_comm _ _)]
  exact Comparison.of_map (strictMono_mul_right_of_pos hpow) _ _

/-- Single numbers. -/
theorem of_integers (m n : ℤ) : Comparison.of m n = .of [(m : ℚ)] [(n : ℚ)] := by
  rw [Comparison.of_singleton, of_intCast]

theorem of_floats {f : Format} {a b : ℕ} {x y : List ℚ}
    (hx : (if f.isNaN a = true then none else some [(f.key a : ℚ)]) = some x)
    (hy : (if f.isNaN b = true then none else some [(f.key b : ℚ)]) = some y) :
    floatRelation f a b = .of x y := by
  obtain ⟨ha, hx⟩ := Option.ite_none_left_eq_some.1 hx
  obtain ⟨hb, hy⟩ := Option.ite_none_left_eq_some.1 hy
  cases hx
  cases hy
  rw [floatRelation, if_neg (not_or.2 ⟨ha, hb⟩), of_integers]

theorem toInt64_inj {m n : UInt64} : m.toInt64 = n.toInt64 ↔ m = n :=
  ⟨fun h ↦ congrArg Int64.toUInt64 h, congrArg UInt64.toInt64⟩

/-- **Objects of one type** are related as their keys. -/
theorem relation_eq {l : Library} {caseSensitive : Bool} {v w : Obj} {x y : List ℚ}
    (htype : v.type = w.type) (hx : v.key l caseSensitive = some x)
    (hy : w.key l caseSensitive = some y) : relation l caseSensitive v w = some (.of x y) := by
  cases v with
  | null | char _ | date _ | bytes _ | other _ => cases hx
  | float a =>
    cases w with
    | float b => exact congrArg some (of_floats hx hy)
    | _ => cases htype
  | double a =>
    cases w with
    | double b => exact congrArg some (of_floats hx hy)
    | _ => cases htype
  | byte m =>
    cases w with
    | byte n =>
      cases hx
      cases hy
      exact congrArg some (of_integers _ _)
    | _ => cases htype
  | short m =>
    cases w with
    | short n =>
      cases hx
      cases hy
      exact congrArg some (of_integers _ _)
    | _ => cases htype
  | int m =>
    cases w with
    | int n =>
      cases hx
      cases hy
      exact congrArg some (of_integers _ _)
    | _ => cases htype
  | long m =>
    cases w with
    | long n =>
      cases hx
      cases hy
      exact congrArg some (of_integers _ _)
    | _ => cases htype
  | boolean b =>
    cases w with
    | boolean c =>
      cases hx
      cases hy
      rw [Comparison.of_singleton, of_natCast]
      rfl
    | _ => cases htype
  | string s =>
    cases w with
    | string t =>
      cases hx
      cases hy
      exact congrArg some (of_compareText l caseSensitive s t)
    | _ => cases htype
  | decimal d =>
    cases w with
    | decimal e =>
      cases hx
      cases hy
      rw [Comparison.of_singleton]
      exact congrArg some (d.relation_eq e)
    | _ => cases htype
  | uuid m n =>
    cases w with
    | uuid m' n' =>
      cases hx
      cases hy
      have hmost : m = m' ↔ (m.toInt64.toInt : ℚ) = m'.toInt64.toInt := by
        rw [Int.cast_inj, Int64.toInt_inj, toInt64_inj]
      rw [Comparison.of_pair, of_intCast, of_intCast]
      simp only [← hmost]
      rfl
    | _ => cases htype
  | timestamp s =>
    cases w with
    | timestamp t =>
      cases hx
      cases hy
      have htime : s.getTime = t.getTime ↔ (s.getTime.toInt : ℚ) = t.getTime.toInt := by
        rw [Int.cast_inj, Int64.toInt_inj]
      rw [Comparison.of_pair, of_intCast, of_natCast]
      simp only [← htime]
      rfl
    | _ => cases htype

section Compare

variable {l : Library} {caseSensitive : Bool} {v w : Obj} {x y : List ℚ}

/-- An object with a key is compared with anything but null by the relation. -/
theorem compareWith_of_key (op : Operator) (hx : v.key l caseSensitive = some x)
    (hw : w ≠ .null) : compareWith l caseSensitive op v w =
      (relation l caseSensitive v w).map fun r ↦ if op.holds r = true then 1 else 0 := by
  cases v with
  | null | char _ | date _ | bytes _ | other _ => cases hx
  | timestamp s =>
    cases w with
    | null => exact absurd rfl hw
    | _ => rfl
  | _ => rfl

/-- **The comparisons compare the keys.** -/
theorem compareWith_eq (op : Operator) (htype : v.type = w.type)
    (hx : v.key l caseSensitive = some x) (hy : w.key l caseSensitive = some y) :
    compareWith l caseSensitive op v w = some (if op.holds (.of x y) = true then 1 else 0) := by
  have hw : w ≠ .null := fun h ↦ by
    rw [h] at hy
    cases hy
  rw [compareWith_of_key op hx hw, relation_eq htype hx hy, Option.map_some]

/-- Two numbers are at one place if they have the same bits, or are both zero. -/
theorem key_eq_iff (f : Format) {a b : ℕ} (ha : a < 2 ^ (f.exponent + f.mantissa + 1))
    (hb : b < 2 ^ (f.exponent + f.mantissa + 1)) :
    f.key a = f.key b ↔ a = b ∨ f.magnitude a = 0 ∧ f.magnitude b = 0 := by
  have hpow := Nat.two_pow_pos (f.exponent + f.mantissa)
  rw [Nat.pow_succ] at ha hb
  have hda := Nat.div_add_mod a (2 ^ (f.exponent + f.mantissa))
  have hdb := Nat.div_add_mod b (2 ^ (f.exponent + f.mantissa))
  have hsa : a / 2 ^ (f.exponent + f.mantissa) < 2 := Nat.div_lt_of_lt_mul ha
  have hsb : b / 2 ^ (f.exponent + f.mantissa) < 2 := Nat.div_lt_of_lt_mul hb
  have hra := Nat.mod_lt a hpow
  have hrb := Nat.mod_lt b hpow
  unfold Format.key Format.negative Format.magnitude
  generalize a % 2 ^ (f.exponent + f.mantissa) = m at *
  generalize b % 2 ^ (f.exponent + f.mantissa) = n at *
  generalize a / 2 ^ (f.exponent + f.mantissa) = i at *
  generalize b / 2 ^ (f.exponent + f.mantissa) = j at *
  generalize 2 ^ (f.exponent + f.mantissa) = p at *
  obtain rfl | rfl : i = 0 ∨ i = 1 := by omega
  all_goals
    obtain rfl | rfl : j = 0 ∨ j = 1 := by omega
    all_goals
      simp only [Nat.zero_mod, Nat.one_mod, zero_ne_one, decide_false, decide_true, if_true,
        Bool.false_eq_true, if_false]
      omega

theorem floatEq_eq (f : Format) {a b : ℕ} (ha : a < 2 ^ (f.exponent + f.mantissa + 1))
    (hb : b < 2 ^ (f.exponent + f.mantissa + 1)) :
    floatEq (f.exponent + f.mantissa + 1) f.infinity a b = (floatRelation f a b).equals := by
  unfold floatEq floatRelation isZero
  rw [Nat.add_sub_cancel]
  by_cases hna : f.magnitude a ≤ f.infinity
  · by_cases hnb : f.magnitude b ≤ f.infinity
    · have hnan : ¬ (f.isNaN a = true ∨ f.isNaN b = true) := by
        simp [Format.isNaN, hna, hnb]
      rw [if_neg hnan]
      unfold Format.magnitude at hna hnb
      simp [hna, hnb, Comparison.of, key_eq_iff f ha hb, Format.magnitude]
    · have hnan : f.isNaN b = true := decide_eq_true (Nat.lt_of_not_le hnb)
      rw [if_pos (.inr hnan)]
      unfold Format.magnitude at hnb
      simp [hnb]
  · have hnan : f.isNaN a = true := decide_eq_true (Nat.lt_of_not_le hna)
    rw [if_pos (.inl hnan)]
    unfold Format.magnitude at hna
    simp [hna]

theorem sameText_eq (s t : Text) : sameText l caseSensitive s t =
    (Comparison.of (compareText l caseSensitive s t) 0).equals := by
  rw [of_compareText]
  unfold sameText textKey
  have hinj : Function.Injective (List.map fun c : UInt16 ↦ (c.toNat : ℚ)) :=
    List.map_injective_iff.2 fun c d h ↦ UInt16.toNat_inj.1 (Nat.cast_injective h)
  split_ifs <;> simp only [Comparison.of, hinj.eq_iff]

/-- The result of a test. -/
theorem result_congr {b c : Bool} (h : b = c) :
    some (if b = true then (1 : ℤ) else 0) = some (if c = true then 1 else 0) := by rw [h]

/-- `eq` is one of them. -/
theorem eq_eq_compareWith (v w : Obj) :
    eq l caseSensitive v w = compareWith l caseSensitive .equal v w := by
  cases v with
  | null | bytes _ | other _ => rfl
  | string s =>
    cases w with
    | string t => exact result_congr (sameText_eq s t)
    | _ => rfl
  | float d =>
    cases w with
    | float e => exact result_congr (floatEq_eq binary32 d.toNat_lt e.toNat_lt)
    | _ => rfl
  | double d =>
    cases w with
    | double e => exact result_congr (floatEq_eq binary64 d.toNat_lt e.toNat_lt)
    | _ => rfl
  | decimal d =>
    cases w with
    | decimal e =>
      exact result_congr
        (by simp [BigDecimal.same, Operator.holds, BigDecimal.relation, Comparison.of])
    | _ => rfl
  | int m =>
    cases w with
    | int n => exact result_congr (by simp [Operator.holds, Comparison.of, Int32.toInt_inj])
    | _ => rfl
  | long m =>
    cases w with
    | long n => exact result_congr (by simp [Operator.holds, Comparison.of, Int64.toInt_inj])
    | _ => rfl
  | short m =>
    cases w with
    | short n => exact result_congr (by simp [Operator.holds, Comparison.of, Int16.toInt_inj])
    | _ => rfl
  | byte m =>
    cases w with
    | byte n => exact result_congr (by simp [Operator.holds, Comparison.of, Int8.toInt_inj])
    | _ => rfl
  | char c =>
    cases w with
    | char d => exact result_congr (by simp [Operator.holds, Comparison.of, UInt16.toNat_inj])
    | _ => rfl
  | boolean b =>
    cases w with
    | boolean c => exact result_congr (by cases b <;> cases c <;> rfl)
    | _ => rfl
  | uuid m n =>
    cases w with
    | uuid m' n' =>
      refine result_congr ?_
      unfold Operator.holds uuidRelation
      split_ifs with h <;> simp [Comparison.of, h, Int64.toInt_inj, toInt64_inj]
    | _ => rfl
  | timestamp s =>
    cases w with
    | timestamp t =>
      refine result_congr ?_
      obtain ⟨time, nanos⟩ := s
      obtain ⟨time', nanos'⟩ := t
      unfold Operator.holds Timestamp.relation
      split_ifs with h <;> dsimp only at h <;> simp [Comparison.of, h, Int64.toInt_inj]
    | _ => rfl
  | date s =>
    cases w with
    | date t => exact result_congr (by simp [Operator.holds, Comparison.of, Int64.toInt_inj])
    | _ => rfl

end Compare

end SocketPro.Java
