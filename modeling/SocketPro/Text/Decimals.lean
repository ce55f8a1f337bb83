import SocketPro.Json.Escapes
import SocketPro.Text.Integers

/-!
# Decimals as texts

`ToString(const DECIMAL&)` and `ParseDec` for decimals of 64 bits.

**The writer** pads the digits with zeros until one stands before the point, so the text is the
digits of `Lo64`, perhaps behind zeros, with a point `scale` places from the end.

**The reader** puts the digits before and behind the point together again, modulo 64 bits, which
loses nothing of a number that fits. But it starts a negative number at its minus, where `atoull`
reads nothing: every negative decimal is read as zero of scale zero (`parseDec_toString_iff`).
-/

namespace SocketPro.Text

open SocketPro.Json (code cur isDigit decimal)

/-- `DECIMAL`, with `Mid32` and `Lo32` as `Lo64`. -/
structure DECIMAL where
  wReserved : UInt16
  scale : UInt8
  sign : UInt8
  hi32 : UInt32
  lo64 : UInt64
deriving DecidableEq

/-- The digits with zeros before them, if there are no more than `scale`. -/
def padded (scale : ℕ) (s : List ℕ) : List ℕ :=
  if s.length ≤ scale then List.replicate (scale - s.length + 1) (code '0') ++ s else s

/-- `ToString(const DECIMAL&)`, where `std::to_string` writes the numeral. -/
def toStringDecimal (d : DECIMAL) : List ℕ :=
  let s := padded d.scale.toNat (numeral d.lo64.toNat)
  let s := if d.sign ≠ 0 ∧ d.lo64 ≠ 0 then code '-' :: s else s
  if d.scale ≠ 0 then s.insertIdx (s.length - d.scale.toNat) (code '.') else s

/-- `while (scale) { temp = (temp << 3) + (temp << 1); --scale; }`. -/
def timesTen : ℕ → ℕ → ℕ
  | 0, temp => temp
  | scale + 1, temp => timesTen scale (((temp <<< 3) + (temp <<< 1)) % 2 ^ 64)

/-- `ParseDec`: the pointers are the texts left from them, so `end - start` is the difference of two
lengths. -/
def parseDec (data : List ℕ) : DECIMAL :=
  let negative : Bool := code '-' ∈ data
  -- `strchr` yields the place of the minus, not the one behind it
  let data := if negative then data.dropWhile (· ≠ code '-') else data
  let sign : UInt8 := if negative then 0x80 else 0
  let temp := Json.atoull data
  if cur temp.2 = code '.' then
    let start := temp.2.tail
    let dot := Json.atoull start
    let scale := UInt8.ofNat (start.length - dot.2.length)
    ⟨0, scale, sign, 0, UInt64.ofNat (timesTen scale.toNat temp.1 + dot.1)⟩
  else ⟨0, 0, sign, 0, UInt64.ofNat temp.1⟩

/-- The two decimals have one value and one scale; zero has no sign. -/
def DECIMAL.Same (d e : DECIMAL) : Prop :=
  e.lo64 = d.lo64 ∧ e.scale = d.scale ∧ (d.lo64 = 0 ∨ e.sign = d.sign)

instance (d e : DECIMAL) : Decidable (d.Same e) := by
  unfold DECIMAL.Same
  infer_instance

/-! ### The digits of the text -/

theorem value_padded (scale n : ℕ) : value (padded scale (numeral n)) = n := by
  rw [padded]
  split
  · rw [value_zeros_append, value_numeral]
  · exact value_numeral n

theorem isDigit_of_mem_padded {scale n c : ℕ} (hc : c ∈ padded scale (numeral n)) :
    isDigit c = true := by
  rw [padded] at hc
  split at hc
  · rcases List.mem_append.1 hc with hc | hc
    · rw [List.eq_of_mem_replicate hc]
      decide
    · exact isDigit_of_mem_numeral hc
  · exact isDigit_of_mem_numeral hc

/-- At least one digit stands before the point. -/
theorem scale_lt_length_padded (scale : ℕ) (s : List ℕ) : scale < (padded scale s).length := by
  rw [padded]
  split
  · rw [List.length_append, List.length_replicate]
    omega
  · omega

/-- The reader takes all digits there are, modulo the word. -/
theorem atoull_append {ds rest : List ℕ} (hds : ∀ d ∈ ds, isDigit d = true)
    (hrest : isDigit (cur rest) = false) :
    Json.atoull (ds ++ rest) = (value ds % 2 ^ 64, rest) := by
  rw [Json.atoull, Json.readDigits_append _ _ hds hrest, foldl_value_mod]

theorem timesTen_mod (scale temp : ℕ) :
    timesTen scale temp % 2 ^ 64 = temp * 10 ^ scale % 2 ^ 64 := by
  induction scale generalizing temp with
  | zero => rw [timesTen, pow_zero, Nat.mul_one]
  | succ scale ih =>
    have hten : (temp <<< 3) + (temp <<< 1) = temp * 10 := by
      rw [Nat.shiftLeft_eq, Nat.shiftLeft_eq]
      omega
    rw [timesTen, ih, hten, Nat.mod_mul_mod, Nat.mul_assoc, ← Nat.pow_succ']

/-! ### The round trip -/

/-- **A text without a minus.** The digits around a point are put together again. -/
theorem parseDec_point {front back : List ℕ} (hfront : ∀ d ∈ front, isDigit d = true)
    (hback : ∀ d ∈ back, isDigit d = true) (hlength : back.length < 256) :
    parseDec (front ++ code '.' :: back) =
      ⟨0, UInt8.ofNat back.length, 0, 0, UInt64.ofNat (value (front ++ back))⟩ := by
  have hminus : code '-' ∉ front ++ code '.' :: back := by
    intro hmem
    rcases List.mem_append.1 hmem with hmem | hmem
    · exact absurd (hfront _ hmem) (by decide)
    · rcases List.mem_cons.1 hmem with hmem | hmem
      · exact absurd hmem (by decide)
      · exact absurd (hback _ hmem) (by decide)
  have htemp : Json.atoull (front ++ code '.' :: back) = (value front % 2 ^ 64, code '.' :: back) :=
    atoull_append hfront (show isDigit (code '.') = false by decide)
  have hdot : Json.atoull back = (value back % 2 ^ 64, []) := by
    have hall := @atoull_append back [] hback (by decide)
    rwa [List.append_nil] at hall
  have hscale : (UInt8.ofNat back.length).toNat = back.length := by
    rw [UInt8.toNat_ofNat', Nat.mod_eq_of_lt hlength]
  have hword : UInt64.ofNat (timesTen back.length (value front % 2 ^ 64) + value back % 2 ^ 64) =
      UInt64.ofNat (value (front ++ back)) := by
    rw [← UInt64.toNat_inj, UInt64.toNat_ofNat', UInt64.toNat_ofNat', value_append, Nat.add_mod,
      timesTen_mod, Nat.mod_mul_mod, Nat.mod_mod, ← Nat.add_mod]
  rw [parseDec]
  simp only [hminus, decide_false, Bool.false_eq_true, if_false, htemp, hdot, hscale,
    List.tail_cons, List.length_nil, Nat.sub_zero, hword]
  rfl

theorem parseDec_digits {ds : List ℕ} (hds : ∀ d ∈ ds, isDigit d = true) :
    parseDec ds = ⟨0, 0, 0, 0, UInt64.ofNat (value ds)⟩ := by
  have hminus : code '-' ∉ ds := fun hmem ↦ absurd (hds _ hmem) (by decide)
  have htemp : Json.atoull ds = (value ds % 2 ^ 64, []) := by
    have hall := @atoull_append ds [] hds (by decide)
    rwa [List.append_nil] at hall
  have hword : UInt64.ofNat (value ds % 2 ^ 64) = UInt64.ofNat (value ds) := by
    rw [← UInt64.toNat_inj, UInt64.toNat_ofNat', UInt64.toNat_ofNat', Nat.mod_mod]
  have hend : cur [] ≠ code '.' := by decide
  rw [parseDec]
  simp only [hminus, decide_false, Bool.false_eq_true, if_false, htemp, hend, hword]

/-- **A text with a minus is read as zero.** -/
theorem parseDec_minus (s : List ℕ) : parseDec (code '-' :: s) = ⟨0, 0, 0x80, 0, 0⟩ := by
  have hread : Json.atoull (code '-' :: s) = (0, code '-' :: s) := by
    rw [Json.atoull, Json.readDigits, if_neg (by decide)]
  have hpoint : cur (code '-' :: s) ≠ code '.' := by
    rw [cur, List.headD_cons]
    decide
  rw [parseDec]
  simp only [List.mem_cons, true_or, decide_true, if_true, ne_eq, not_true_eq_false, decide_false,
    Bool.false_eq_true, not_false_eq_true, List.dropWhile_cons_of_neg, hread, hpoint, if_false]
  rfl

/-- What is read back of a decimal that is printed without a minus. -/
theorem parseDec_toString {d : DECIMAL} (hd : ¬ (d.sign ≠ 0 ∧ d.lo64 ≠ 0)) :
    parseDec (toStringDecimal d) = ⟨0, d.scale, 0, 0, d.lo64⟩ := by
  have hdigits {c : ℕ} (hc : c ∈ padded d.scale.toNat (numeral d.lo64.toNat)) :=
    isDigit_of_mem_padded hc
  have hvalue := value_padded d.scale.toNat d.lo64.toNat
  have hlength := scale_lt_length_padded d.scale.toNat (numeral d.lo64.toNat)
  rw [toStringDecimal]
  simp only [hd, if_false]
  generalize padded d.scale.toNat (numeral d.lo64.toNat) = s at *
  split
  · obtain ⟨front, back, rfl, hback⟩ : ∃ front back, s = front ++ back ∧
        back.length = d.scale.toNat := by
      refine ⟨_, _, (List.take_append_drop (s.length - d.scale.toNat) s).symm, ?_⟩
      rw [List.length_drop]
      omega
    have hplace : (front ++ back).length - d.scale.toNat = front.length := by
      rw [List.length_append]
      omega
    have hlt : back.length < 256 := hback ▸ d.scale.toNat_lt
    rw [hplace, Json.insertIdx_append, parseDec_point
      (fun c hc ↦ hdigits (List.mem_append_left _ hc))
      (fun c hc ↦ hdigits (List.mem_append_right _ hc)) hlt, hback, hvalue, UInt8.ofNat_toNat,
      UInt64.ofNat_toNat]
  · rename_i hscale
    rw [parseDec_digits fun c hc ↦ hdigits hc, hvalue, UInt64.ofNat_toNat, not_not.1 hscale]

/-- A decimal below zero is printed with a minus in front: the point never comes before it. -/
theorem toStringDecimal_minus {d : DECIMAL} (hd : d.sign ≠ 0 ∧ d.lo64 ≠ 0) :
    ∃ s, toStringDecimal d = code '-' :: s := by
  have hlength := scale_lt_length_padded d.scale.toNat (numeral d.lo64.toNat)
  rw [toStringDecimal, if_pos hd]
  generalize padded d.scale.toNat (numeral d.lo64.toNat) = s at *
  split
  · have hplace : (code '-' :: s).length - d.scale.toNat = (s.length - d.scale.toNat) + 1 := by
      rw [List.length_cons]
      omega
    rw [hplace, List.insertIdx_succ_cons]
    exact ⟨_, rfl⟩
  · exact ⟨s, rfl⟩

/-- **Which decimals come back.** Those that are not negative, of any scale. -/
theorem parseDec_toString_iff (d : DECIMAL) :
    d.Same (parseDec (toStringDecimal d)) ↔ d.sign = 0 ∨ d.lo64 = 0 := by
  by_cases hd : d.sign ≠ 0 ∧ d.lo64 ≠ 0
  · obtain ⟨s, hs⟩ := toStringDecimal_minus hd
    rw [hs, parseDec_minus]
    constructor
    · intro hsame
      exact absurd hsame.1.symm hd.2
    · rintro (hsign | hlo)
      · exact absurd hsign hd.1
      · exact absurd hlo hd.2
  · rw [parseDec_toString hd]
    have hcases : d.sign = 0 ∨ d.lo64 = 0 := by
      by_contra hnone
      rw [not_or] at hnone
      exact hd hnone
    refine iff_of_true ⟨rfl, rfl, ?_⟩ hcases
    rcases hcases with hsign | hlo
    · exact .inr hsign.symm
    · exact .inl hlo

/-- **The decimal -1.5 comes back as zero.** -/
theorem parseDec_toString_negative :
    toStringDecimal ⟨0, 1, 0x80, 0, 15⟩ = "-1.5".toList.map code ∧
      parseDec (toStringDecimal ⟨0, 1, 0x80, 0, 15⟩) = ⟨0, 0, 0x80, 0, 0⟩ ∧
      ¬ ∀ d : DECIMAL, d.hi32 = 0 → d.scale ≤ 19 → d.sign = 0 ∨ d.sign = 0x80 →
        d.Same (parseDec (toStringDecimal d)) := by
  have htext : toStringDecimal ⟨0, 1, 0x80, 0, 15⟩ = "-1.5".toList.map code := by
    simp [toStringDecimal, padded, numeral, decimal]
    decide
  have hread : parseDec (toStringDecimal ⟨0, 1, 0x80, 0, 15⟩) = ⟨0, 0, 0x80, 0, 0⟩ := by
    rw [htext]
    exact parseDec_minus ("1.5".toList.map code)
  refine ⟨htext, hread, fun hall ↦ ?_⟩
  have hsame := hall ⟨0, 1, 0x80, 0, 15⟩ (by decide) (by decide) (by decide)
  rw [hread] at hsame
  exact absurd hsame (by decide)

end SocketPro.Text
