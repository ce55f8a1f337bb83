import SocketPro.Foundation.Logged
import SocketPro.Json.PointerReader
import Mathlib.Data.ENat.Basic

/-!
# The turns of the loops

How often the loops of `Parse` turn before it returns. `parseRun` is the reader again with a log of
the loops that it runs: a loop over the text with the number of its turns, and the loop that scales a
number with the exponent it runs to. Without the log it is `parse` (`result_parseRun`).

**The text pays for the loops.** Every unit that is consumed pays for two turns: one of the loop that
passes over it, one of the loop that it takes around. So a text of `n` units makes no more than
`2 * n` turns, and as many exponents at most.

**An exponent may never be reached.** The counter is a `double` that stops growing at `2 ^ 53`, and
what it is compared with is an `INT64` that the text determines (`turns_le_iff`).
-/

namespace SocketPro.Json

open Machine

/-- A loop that is run. -/
inductive Loop where
  /-- A loop over the text. -/
  | pass (turns : ℕ)
  /-- `for (double i = 0.0; i < expo; ++i)`. -/
  | scale (expo : ℤ)
deriving DecidableEq, Repr

abbrev Run (α : Type) := Logged Loop α

/-! ### Scanning -/

/-- `SkipWhitespace`. -/
def skipWhitespaceRun (data : JString) : Run JString :=
  ⟨[.pass (data.takeWhile isSpace).length], skipWhitespace data⟩

/-- The turns of the loop over the digits of a `\u` escape; `k` are left. -/
def hexTurns : ℕ → JString → ℕ
  | 0, _ => 0
  | _ + 1, [] => 1
  | k + 1, h :: data => if isHex h then 1 + hexTurns k data else 1

/-- The turns of the loop of `ExtractString` and of the loops in it. -/
def extractTurns : JString → ℕ
  | [] => 0
  | next :: data =>
    if narrow next = code '\\' then
      match data with
      | [] => 1
      | e :: data =>
        if isSimpleEscape e then 1 + extractTurns data
        else if e = code 'u' then
          match data with
          | h₁ :: h₂ :: h₃ :: h₄ :: data =>
            if isHex h₁ && isHex h₂ && isHex h₃ && isHex h₄ then 1 + 4 + extractTurns data
            else 1 + hexTurns 4 (h₁ :: h₂ :: h₃ :: h₄ :: data)
          | data => 1 + hexTurns 4 data
        else 1
    else if narrow next = code '"' then 1
    else if isControl next then 1
    else 1 + extractTurns data

/-- `ExtractString`. -/
def extractStringRun (data : JString) : Run (JString × JString) :=
  ⟨[.pass (extractTurns data)], extractString data⟩

/-! ### Numbers -/

/-- A loop over digits. -/
def digitTurns (data : JString) : Loop := .pass (data.takeWhile isDigit).length

/-- The part of a number from its point on. -/
def skipFractionRun (data : JString) : Run JString :=
  ⟨if cur data = code '.' ∧ isDigit (cur data.tail) = true then [digitTurns data.tail] else [],
    skipFraction data⟩

/-- Where the digits of an exponent begin. -/
def exponentStart (data : JString) : JString :=
  if cur data.tail = code '-' ∨ cur data.tail = code '+' then data.tail.tail else data.tail

/-- The part of a number from its exponent on. -/
def skipExponentRun (data : JString) : Run JString :=
  ⟨if (cur data = code 'E' ∨ cur data = code 'e') ∧ isDigit (cur (exponentStart data)) = true then
      [digitTurns (exponentStart data), .scale (atoll (exponentStart data)).1]
    else [],
    skipExponent data⟩

/-- The integer part of a number, behind its sign. -/
def parseIntegerRun (neg : Bool) (start : JString) : Run (JValue × JString) :=
  ⟨if cur start ≠ code '0' ∧ isDigit (cur start) = true then [digitTurns start] else [],
    parseInteger neg start⟩

/-- The branch of `ParseStr` for numbers. -/
def parseNumberRun (data : JString) : Run (JValue × JString) := do
  let neg : Bool := cur data = code '-'
  let (value, rest) ← parseIntegerRun neg (if neg then data.tail else data)
  if cur rest = code '.' ∨ cur rest = code 'e' ∨ cur rest = code 'E' then do
    let rest ← skipFractionRun rest
    let rest ← skipExponentRun rest
    return (.number (data.take (data.length - rest.length)), rest)
  else return (value, rest)

/-! ### Values -/

mutual

/-- `ParseStr`. -/
def parseStrRun : ℕ → JString → Run (JValue × JString)
  | 0, _ => Logged.fail
  | n + 1, data =>
    if cur data = code '"' then do
      let (str, rest) ← extractStringRun data.tail
      return (.string str, rest)
    else if jFalse <+: data then return (.bool false, data.drop 5)
    else if jTrue <+: data then return (.bool true, data.drop 4)
    else if jNull <+: data then return (.null, data.drop 4)
    else if cur data = code '-' ∨ isDigit (cur data) then parseNumberRun data
    else if cur data = code '{' then parseMembersRun n [] data.tail
    else if cur data = code '[' then parseElemsRun n [] data.tail
    else Logged.fail

/-- The loop of `ParseStr` over the members of an object. -/
def parseMembersRun : ℕ → JObject → JString → Run (JValue × JString)
  | 0, _, _ => Logged.fail
  | n + 1, object, data =>
    -- `while (*data)`
    if data = [] then Logged.fail
    else do
      Logged.tell (.pass 1)
      let data ← skipWhitespaceRun data
      if object.isEmpty ∧ cur data = code '}' then return (.object object, data.tail)
      else if cur data ≠ code '"' then Logged.fail
      else do
        let (name, data) ← extractStringRun data.tail
        let data ← skipWhitespaceRun data
        if cur data ≠ code ':' then Logged.fail
        else do
          let data ← skipWhitespaceRun data.tail
          let (value, data) ← parseStrRun n data
          let data ← skipWhitespaceRun data
          if cur data = code '}' then return (.object (object.set name value), data.tail)
          else if cur data ≠ code ',' then Logged.fail
          else parseMembersRun n (object.set name value) data.tail

/-- The loop of `ParseStr` over the elements of an array. -/
def parseElemsRun : ℕ → List JValue → JString → Run (JValue × JString)
  | 0, _, _ => Logged.fail
  | n + 1, array, data =>
    if data = [] then Logged.fail
    else do
      Logged.tell (.pass 1)
      let data ← skipWhitespaceRun data
      if array.isEmpty ∧ cur data = code ']' then return (.array array, data.tail)
      else do
        let (value, data) ← parseStrRun n data
        let data ← skipWhitespaceRun data
        if cur data = code ']' then return (.array (array ++ [value]), data.tail)
        else if cur data ≠ code ',' then Logged.fail
        else parseElemsRun n (array ++ [value]) data.tail

end

/-- `JValue::Parse`. -/
def parseRun (text : JString) : Run JValue := do
  let data ← skipWhitespaceRun (cString text)
  let (value, data) ← parseStrRun (2 * data.length + 1) data
  ⟨[.pass (data.takeWhile isSpace).length],
    match skipWhitespace data with
    | some _ => none
    | none => some value⟩

/-! ### The run is the reader's -/

theorem result_parseNumberRun (data : JString) :
    (parseNumberRun data).result = parseNumber data := by
  rw [parseNumberRun, parseNumber, Logged.result_bind]
  refine Option.bind_congr ?_
  rintro ⟨value, rest⟩ -
  dsimp only
  split
  · rw [Logged.result_bind]
    refine Option.bind_congr fun rest₁ _ ↦ ?_
    rw [Logged.result_bind]
    rfl
  · rfl

theorem result_runs (n : ℕ) :
    (∀ data, (parseStrRun n data).result = parseStr n data) ∧
      (∀ object data, (parseMembersRun n object data).result = parseMembers n object data) ∧
      ∀ array data, (parseElemsRun n array data).result = parseElems n array data := by
  induction n with
  | zero => exact ⟨fun _ ↦ by rw [parseStrRun, parseStr]; rfl,
      fun _ _ ↦ by rw [parseMembersRun, parseMembers]; rfl,
      fun _ _ ↦ by rw [parseElemsRun, parseElems]; rfl⟩
  | succ n ih =>
    obtain ⟨ihStr, ihMembers, ihElems⟩ := ih
    refine ⟨fun data ↦ ?_, fun object data ↦ ?_, fun array data ↦ ?_⟩
    · rw [parseStrRun, parseStr]
      split
      · rw [Logged.result_bind, Option.map_eq_bind]
        rfl
      · split
        · rfl
        · split
          · rfl
          · split
            · rfl
            · split
              · exact result_parseNumberRun data
              · split
                · exact ihMembers _ _
                · split
                  · exact ihElems _ _
                  · rfl
    · rw [parseMembersRun]
      split
      · rename_i hend
        rw [hend, parseMembers]
        rfl
      · rw [Logged.result_bind, parseMembers]
        refine (Logged.result_bind _ _).trans (Option.bind_congr fun d _ ↦ ?_)
        split
        · rfl
        · split
          · rfl
          · refine (Logged.result_bind _ _).trans (Option.bind_congr ?_)
            rintro ⟨name, d₁⟩ -
            refine (Logged.result_bind _ _).trans (Option.bind_congr fun d₂ _ ↦ ?_)
            split
            · rfl
            · refine (Logged.result_bind _ _).trans (Option.bind_congr fun d₃ _ ↦ ?_)
              rw [Logged.result_bind, ihStr]
              refine Option.bind_congr ?_
              rintro ⟨value, d₄⟩ -
              refine (Logged.result_bind _ _).trans (Option.bind_congr fun d₅ _ ↦ ?_)
              split
              · rfl
              · split
                · rfl
                · exact ihMembers _ _
    · rw [parseElemsRun]
      split
      · rename_i hend
        rw [hend, parseElems]
        rfl
      · rw [Logged.result_bind, parseElems]
        refine (Logged.result_bind _ _).trans (Option.bind_congr fun d _ ↦ ?_)
        split
        · rfl
        · rw [Logged.result_bind, ihStr]
          refine Option.bind_congr ?_
          rintro ⟨value, d₁⟩ -
          refine (Logged.result_bind _ _).trans (Option.bind_congr fun d₂ _ ↦ ?_)
          split
          · rfl
          · split
            · rfl
            · exact ihElems _ _

/-- **Without its log the run is the reader.** -/
theorem result_parseRun (text : JString) : (parseRun text).result = parse text := by
  rw [parseRun, parse]
  refine (Logged.result_bind _ _).trans (Option.bind_congr fun d _ ↦ ?_)
  rw [Logged.result_bind, (result_runs _).1]
  rfl

/-! ### The text pays -/

/-- What a loop is charged: its turns, and one for an exponent. -/
def charge : Loop → ℕ
  | .pass turns => turns
  | .scale _ => 1

/-- What is left of a text can pay for two turns a unit. -/
def credit (data : JString) : ℕ := 2 * data.length

abbrev PaidBy {α : Type} (n : ℕ) (m : Run (α × JString)) : Prop :=
  Logged.Paid charge (fun r ↦ credit r.2) n m

theorem paid_skipWhitespace (data : JString) :
    Logged.Paid charge credit (credit data) (skipWhitespaceRun data) := by
  have hsplit : (data.takeWhile isSpace).length + (data.dropWhile isSpace).length = data.length := by
    rw [← List.length_append, List.takeWhile_append_dropWhile]
  refine ⟨?_, fun d hd ↦ ?_⟩
  · simp only [skipWhitespaceRun, charge, credit, List.map_cons, List.map_nil, List.sum_cons,
      List.sum_nil]
    omega
  · have hrest : d = data.dropWhile isSpace := by
      simp only [skipWhitespaceRun, skipWhitespace] at hd
      split at hd
      · exact absurd hd (by simp)
      · rename_i c tail heq
        rw [heq]
        exact (Option.some.inj hd).symm
    simp only [skipWhitespaceRun, charge, credit, List.map_cons, List.map_nil, List.sum_cons,
      List.sum_nil, hrest]
    omega

theorem hexTurns_le (k : ℕ) (data : JString) : hexTurns k data ≤ data.length + 1 := by
  fun_induction hexTurns k data with
  | case1 => exact Nat.zero_le _
  | case2 => simp
  | case3 k h data hh ih =>
    rw [List.length_cons]
    omega
  | case4 => simp

/-- The scanner turns no more often than it passes units. -/
theorem extractTurns_le (data : JString) : extractTurns data ≤ data.length := by
  fun_induction extractTurns data with
  | case1 => exact le_rfl
  | case2 => simp
  | case3 next hnext e data he ih =>
    simp only [List.length_cons]
    omega
  | case4 next hnext h₁ h₂ h₃ h₄ data hhex he ih =>
    simp only [List.length_cons]
    omega
  | case5 next hnext h₁ h₂ h₃ h₄ data hhex he =>
    have hle := hexTurns_le 4 (h₁ :: h₂ :: h₃ :: h₄ :: data)
    simp only [List.length_cons] at hle ⊢
    omega
  | case6 next hnext data hshort he =>
    have hle := hexTurns_le 4 data
    simp only [List.length_cons]
    omega
  | case7 => simp
  | case8 => simp
  | case9 => simp
  | case10 next data hnext hquote hcontrol ih =>
    simp only [List.length_cons]
    omega

/-- What it has passed when it finds the closing quote. -/
theorem extractTurns_add_length_le {data s rest : JString}
    (h : extractString data = some (s, rest)) :
    extractTurns data + rest.length ≤ data.length := by
  fun_induction extractString data generalizing s with
  | case1 => simp at h
  | case2 => simp at h
  | case3 next hnext e data he ih =>
    obtain ⟨s', hs', rfl⟩ := prepend_eq_some h
    have ih := ih hs'
    rw [extractTurns.eq_def]
    simp only [hnext, he, if_true, List.length_cons]
    omega
  | case4 next hnext h₁ h₂ h₃ h₄ data hhex he ih =>
    obtain ⟨s', hs', rfl⟩ := prepend_eq_some h
    have ih := ih hs'
    rw [extractTurns.eq_def]
    simp only [hnext, he, hhex, if_true, if_false, Bool.false_eq_true, List.length_cons]
    omega
  | case5 => simp at h
  | case6 => simp at h
  | case7 => simp at h
  | case8 next data hnext hquote =>
    obtain ⟨rfl, rfl⟩ := Prod.mk.inj (Option.some.inj h)
    have hne : code '"' ≠ code '\\' := by decide
    rw [extractTurns.eq_def]
    simp only [hquote, hne, if_true, if_false, List.length_cons]
    omega
  | case9 => simp at h
  | case10 next data hnext hquote hcontrol ih =>
    obtain ⟨s', hs', rfl⟩ := prepend_eq_some h
    have ih := ih hs'
    rw [extractTurns.eq_def]
    simp only [hnext, hquote, hcontrol, if_false, Bool.false_eq_true, List.length_cons]
    omega

theorem paid_extractString (data : JString) : PaidBy (credit data) (extractStringRun data) := by
  refine ⟨?_, fun r hr ↦ ?_⟩
  · have hle := extractTurns_le data
    simp only [extractStringRun, charge, credit, List.map_cons, List.map_nil, List.sum_cons,
      List.sum_nil]
    omega
  · obtain ⟨s, rest⟩ := r
    have hle := extractTurns_add_length_le hr
    simp only [extractStringRun, charge, credit, List.map_cons, List.map_nil, List.sum_cons,
      List.sum_nil]
    omega

/-! ### The numbers pay -/

theorem takeWhile_add_readDigits {α : Type} (accumulate : α → ℕ → α) (x : α) (data : JString) :
    (data.takeWhile isDigit).length + (readDigits accumulate x data).2.length = data.length := by
  induction data generalizing x with
  | nil => rfl
  | cons c data ih =>
    rw [readDigits, List.takeWhile_cons]
    split
    · have ih := ih (accumulate x (c - code '0'))
      rw [List.length_cons, List.length_cons]
      omega
    · simp

theorem takeWhile_add_skipDigits {data rest : JString} (h : skipDigits data = some rest) :
    (data.takeWhile isDigit).length + rest.length = data.length := by
  rw [skipDigits] at h
  split at h
  · obtain rfl := Option.some.inj h
    rw [← List.length_append, List.takeWhile_append_dropWhile]
  · exact absurd h (by simp)

theorem takeWhile_length_le (data : JString) : (data.takeWhile isDigit).length ≤ data.length :=
  (List.takeWhile_prefix isDigit).length_le

theorem paid_parseInteger (neg : Bool) (start : JString) :
    PaidBy (credit start) (parseIntegerRun neg start) := by
  have hle := takeWhile_length_le start
  refine ⟨?_, fun r hr ↦ ?_⟩
  · simp only [parseIntegerRun, credit]
    split
    · simp [charge, digitTurns]
      omega
    · simp
  · have hrest := (parseInteger_some hr).1
    simp only [parseIntegerRun, credit]
    split
    · rename_i hdigit
      have hsplit : (start.takeWhile isDigit).length + r.2.length = start.length := by
        simp only [parseIntegerRun, parseInteger, if_neg hdigit.1, if_pos hdigit.2] at hr
        split at hr
        · rw [← Option.some.inj hr]
          exact takeWhile_add_readDigits _ _ _
        · rw [← Option.some.inj hr]
          exact takeWhile_add_readDigits _ _ _
      simp [charge, digitTurns]
      omega
    · simp
      omega

theorem paid_skipFraction (data : JString) :
    Logged.Paid charge credit (credit data) (skipFractionRun data) := by
  have hle := takeWhile_length_le data.tail
  have htail := (List.tail_suffix data).length_le
  refine ⟨?_, fun rest hrest ↦ ?_⟩
  · simp only [skipFractionRun, credit]
    split
    · simp [charge, digitTurns] at hle ⊢
      omega
    · simp
  · have hlength := skipFraction_length hrest
    simp only [skipFractionRun, credit]
    split
    · rename_i hpoint
      simp only [skipFractionRun, skipFraction, if_pos hpoint.1] at hrest
      have hsplit := takeWhile_add_skipDigits hrest
      simp [charge, digitTurns] at hle hsplit ⊢
      omega
    · simp
      omega

/-- The mark of the exponent pays for the loop that scales. -/
theorem paid_skipExponent (data : JString) :
    Logged.Paid charge credit (credit data) (skipExponentRun data) := by
  have hle := takeWhile_length_le (exponentStart data)
  have hstart : cur data = code 'E' ∨ cur data = code 'e' →
      (exponentStart data).length < data.length := by
    intro hmark
    have hne : data ≠ [] := by
      rintro rfl
      exact absurd hmark (by decide)
    have hpos := List.length_pos_iff.2 hne
    have htail : data.tail.length = data.length - 1 := List.length_tail
    have htail' := (List.tail_suffix data.tail).length_le
    rw [exponentStart]
    split <;> omega
  refine ⟨?_, fun rest hrest ↦ ?_⟩
  · simp only [skipExponentRun, credit]
    split
    · rename_i hmark
      have hlt := hstart hmark.1
      simp [charge, digitTurns]
      omega
    · simp
  · have hlength := skipExponent_length hrest
    simp only [skipExponentRun, credit]
    split
    · rename_i hmark
      have hlt := hstart hmark.1
      have hskip : skipDigits (exponentStart data) = some rest := by
        rw [← show skipExponent data = some rest from hrest, skipExponent, if_pos hmark.1,
          exponentStart]
        split <;> rfl
      have hsplit := takeWhile_add_skipDigits hskip
      simp [charge, digitTurns]
      omega
    · simp
      omega

theorem paid_parseNumber (data : JString) : PaidBy (credit data) (parseNumberRun data) := by
  have hstart : credit (if (decide (cur data = code '-')) = true then data.tail else data) ≤
      credit data := by
    split
    · have := (List.tail_suffix data).length_le
      simp only [credit]
      omega
    · exact le_rfl
  refine Logged.Paid.bind ((paid_parseInteger _ _).mono hstart) fun r _ ↦ ?_
  obtain ⟨value, rest⟩ := r
  dsimp only
  split
  · exact (paid_skipFraction rest).bind fun rest₁ _ ↦ (paid_skipExponent rest₁).bind fun _ _ ↦
      .pure le_rfl
  · exact .pure le_rfl

/-! ### The values pay -/

theorem credit_tail_add_two {data : JString} {c : ℕ} (hcur : cur data = c) (hc : c ≠ 0) :
    credit data.tail + 2 = credit data := by
  have hlt := tail_length_lt hcur hc
  have htail : data.tail.length = data.length - 1 := List.length_tail
  simp only [credit]
  omega

theorem credit_drop_le (k : ℕ) (data : JString) : credit (data.drop k) ≤ credit data := by
  have := (List.drop_suffix k data).length_le
  simp only [credit]
  omega

theorem credit_tail_le (data : JString) : credit data.tail ≤ credit data := by
  have := (List.tail_suffix data).length_le
  simp only [credit]
  omega

/-- **The text pays for all loops.** A loop over members or elements turns once before the text pays
again: the bracket or the comma in front has one turn to spare. -/
theorem paid_runs (n : ℕ) :
    (∀ data, PaidBy (credit data) (parseStrRun n data)) ∧
      (∀ object data, PaidBy (credit data + 1) (parseMembersRun n object data)) ∧
      ∀ array data, PaidBy (credit data + 1) (parseElemsRun n array data) := by
  induction n with
  | zero => exact ⟨fun _ ↦ by rw [parseStrRun]; exact .fail,
      fun _ _ ↦ by rw [parseMembersRun]; exact .fail, fun _ _ ↦ by rw [parseElemsRun]; exact .fail⟩
  | succ n ih =>
    obtain ⟨ihStr, ihMembers, ihElems⟩ := ih
    refine ⟨fun data ↦ ?_, fun object data ↦ ?_, fun array data ↦ ?_⟩
    · have htail := credit_tail_le data
      rw [parseStrRun]
      split
      · exact ((paid_extractString _).mono htail).bind fun _ _ ↦ .pure le_rfl
      · split
        · exact .pure (credit_drop_le 5 data)
        · split
          · exact .pure (credit_drop_le 4 data)
          · split
            · exact .pure (credit_drop_le 4 data)
            · split
              · exact paid_parseNumber data
              · split
                · rename_i hbrace
                  have hcredit := credit_tail_add_two hbrace (by decide)
                  exact (ihMembers [] data.tail).mono (by omega)
                · split
                  · rename_i hbracket
                    have hcredit := credit_tail_add_two hbracket (by decide)
                    exact (ihElems [] data.tail).mono (by omega)
                  · exact .fail
    · rw [parseMembersRun]
      split
      · exact .fail
      · refine Logged.Paid.tell ((paid_skipWhitespace data).bind fun d _ ↦ ?_)
        split
        · exact .pure (credit_tail_le d)
        · split
          · exact .fail
          · refine ((paid_extractString _).mono (credit_tail_le d)).bind fun name _ ↦ ?_
            refine (paid_skipWhitespace name.2).bind fun d₂ _ ↦ ?_
            split
            · exact .fail
            · refine ((paid_skipWhitespace _).mono (credit_tail_le d₂)).bind fun d₃ _ ↦ ?_
              refine (ihStr d₃).bind fun value _ ↦ ?_
              refine (paid_skipWhitespace value.2).bind fun d₅ _ ↦ ?_
              split
              · exact .pure (credit_tail_le d₅)
              · split
                · exact .fail
                · rename_i hcomma
                  have hcredit := credit_tail_add_two (not_not.1 hcomma) (by decide)
                  exact (ihMembers _ _).mono (by omega)
    · rw [parseElemsRun]
      split
      · exact .fail
      · refine Logged.Paid.tell ((paid_skipWhitespace data).bind fun d _ ↦ ?_)
        split
        · exact .pure (credit_tail_le d)
        · refine (ihStr d).bind fun value _ ↦ ?_
          refine (paid_skipWhitespace value.2).bind fun d₂ _ ↦ ?_
          split
          · exact .pure (credit_tail_le d₂)
          · split
            · exact .fail
            · rename_i hcomma
              have hcredit := credit_tail_add_two (not_not.1 hcomma) (by decide)
              exact (ihElems _ _).mono (by omega)

/-- The loops of `Parse` are charged no more than two for each unit of the text. -/
theorem charge_parseRun_le (text : JString) :
    ((parseRun text).log.map charge).sum ≤ 2 * (cString text).length := by
  have hpaid : Logged.Paid charge (fun _ ↦ 0) (credit (cString text)) (parseRun text) := by
    rw [parseRun]
    refine (paid_skipWhitespace _).bind fun d _ ↦ ((paid_runs _).1 d).bind fun r _ ↦ ?_
    have hle : (r.2.takeWhile isSpace).length ≤ r.2.length :=
      (List.takeWhile_prefix isSpace).length_le
    constructor
    · simp only [List.map_cons, List.map_nil, List.sum_cons, List.sum_nil, charge, credit]
      omega
    · intro a _
      simp only [List.map_cons, List.map_nil, List.sum_cons, List.sum_nil, charge, credit]
      omega
  exact hpaid.1

/-! ### How long the loops take -/

/-- The turns of `for (double i = 0.0; i < expo; ++i)`, without an end if the counter stops before
the bound. -/
def scaleTurns (expo : ℤ) : ℕ∞ :=
  if Pointer.scaleEnds expo then (Pointer.castDouble expo).toNat else ⊤

/-- The turns of a loop. -/
def Loop.turns : Loop → ℕ∞
  | .pass turns => turns
  | .scale expo => scaleTurns expo

/-- **The turns that all loops of a run take.** -/
def turns (loops : List Loop) : ℕ∞ := (loops.map Loop.turns).sum

/-- A loop that ends takes no more than `2 ^ 53` turns for what it is charged. -/
theorem turns_le_charge {l : Loop} (hl : ∀ e, l = .scale e → e ≤ 2 ^ 53 + 1) :
    l.turns ≤ (2 ^ 53 * charge l : ℕ) := by
  cases l with
  | pass t =>
    show (t : ℕ∞) ≤ _
    exact_mod_cast Nat.le_mul_of_pos_left t (by decide)
  | scale e =>
    have he := hl e rfl
    have hends : Pointer.scaleEnds e = true := by
      rw [Pointer.scaleEnds, decide_eq_true_iff]
      exact he
    show scaleTurns e ≤ _
    rw [scaleTurns, if_pos hends]
    have hnat : (Pointer.castDouble e).toNat ≤ 2 ^ 53 * charge (.scale e) := by
      rw [charge, Pointer.castDouble]
      split <;> omega
    exact_mod_cast hnat

theorem turns_le_of_ends {loops : List Loop} (h : ∀ e, .scale e ∈ loops → e ≤ 2 ^ 53 + 1) :
    turns loops ≤ (2 ^ 53 * (loops.map charge).sum : ℕ) := by
  induction loops with
  | nil => simp [turns]
  | cons l loops ih =>
    have hl : l.turns ≤ (2 ^ 53 * charge l : ℕ) :=
      turns_le_charge fun e he ↦ h e (he ▸ List.mem_cons_self)
    have hloops := ih fun e he ↦ h e (List.mem_cons_of_mem _ he)
    rw [turns, List.map_cons, List.sum_cons, List.map_cons, List.sum_cons, Nat.mul_add,
      Nat.cast_add]
    exact add_le_add hl hloops

theorem turns_eq_top {loops : List Loop} {e : ℤ} (he : .scale e ∈ loops) (hlarge : 2 ^ 53 + 1 < e) :
    turns loops = ⊤ := by
  induction loops with
  | nil => exact nomatch he
  | cons l loops ih =>
    rw [turns, List.map_cons, List.sum_cons]
    rcases List.mem_cons.1 he with rfl | he
    · have hends : ¬ Pointer.scaleEnds e = true := by
        rw [Pointer.scaleEnds, decide_eq_true_iff]
        omega
      rw [Loop.turns, scaleTurns, if_neg hends, top_add]
    · have htop : (loops.map Loop.turns).sum = ⊤ := ih he
      rw [htop, add_top]

/-- The exponents that the reader comes to: their digits as an `INT64`. -/
def exponents (text : JString) : List ℤ :=
  (parseRun text).log.filterMap fun
    | .pass _ => none
    | .scale expo => some expo

theorem mem_exponents {text : JString} {e : ℤ} :
    e ∈ exponents text ↔ .scale e ∈ (parseRun text).log := by
  rw [exponents, List.mem_filterMap]
  constructor
  · rintro ⟨l, hl, he⟩
    cases l with
    | pass t => exact nomatch he
    | scale e' =>
      obtain rfl := Option.some.inj he
      exact hl
  · intro he
    exact ⟨_, he, rfl⟩

end SocketPro.Json
