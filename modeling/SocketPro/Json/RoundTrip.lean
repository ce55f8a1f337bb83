import SocketPro.Json.Number

/-!
# Reading back what was written

`parse (stringify v) = some v` for the values one can build, and exactly when it holds.

**Two ways to fail.** The writer copies stored strings and keys between quotes, so they come back
only when the scanner takes them for string bodies; and the smallest `INT64` is printed without
digits. `Readable` says that neither occurs in a value.

* `parse_allBodies` — whatever text is read, the strings and keys of the value are string bodies;
* `parseStr_stringify` — a value whose strings and keys are string bodies is read back, unless it
  holds the smallest `INT64`, in which case the reading fails;
* `parse_stringify` — both together.
-/

namespace SocketPro.Json

/-! ### What a value is made of -/

mutual

/-- Every stored string and every key passes `body`, and every `Int64` passes `int`. -/
def allParts (body : JString → Bool) (int : ℤ → Bool) : JValue → Bool
  | .string s => body s
  | .int64 x => int x
  | .array vs => allElems body int vs
  | .object ms => allMembers body int ms
  | _ => true

def allElems (body : JString → Bool) (int : ℤ → Bool) : List JValue → Bool
  | [] => true
  | v :: vs => allParts body int v && allElems body int vs

def allMembers (body : JString → Bool) (int : ℤ → Bool) : JObject → Bool
  | [] => true
  | m :: ms => body m.1 && allParts body int m.2 && allMembers body int ms

end

/-- All stored strings and keys are string bodies. -/
abbrev allBodies : JValue → Bool := allParts StringBody fun _ ↦ true

/-- The smallest `INT64` does not occur. -/
abbrev noMin : JValue → Bool := allParts (fun _ ↦ true) fun x ↦ x ≠ -2 ^ 63

/-- **When a value comes back.** -/
def Readable (v : JValue) : Prop :=
  allParts StringBody (fun x ↦ x ≠ -2 ^ 63) v = true

instance (v : JValue) : Decidable (Readable v) := inferInstanceAs (Decidable (_ = _))

section Parts

variable {b₁ b₂ : JString → Bool} {i₁ i₂ : ℤ → Bool}

mutual

theorem allParts_and : ∀ v : JValue,
    allParts (fun s ↦ b₁ s && b₂ s) (fun x ↦ i₁ x && i₂ x) v =
      (allParts b₁ i₁ v && allParts b₂ i₂ v)
  | .null => rfl
  | .string _ => rfl
  | .bool _ => rfl
  | .number _ => rfl
  | .int64 _ => rfl
  | .uint64 _ => rfl
  | .array vs => by simp only [allParts, allElems_and vs]
  | .object ms => by simp only [allParts, allMembers_and ms]

theorem allElems_and : ∀ vs : List JValue,
    allElems (fun s ↦ b₁ s && b₂ s) (fun x ↦ i₁ x && i₂ x) vs =
      (allElems b₁ i₁ vs && allElems b₂ i₂ vs)
  | [] => rfl
  | v :: vs => by
    rw [allElems, allParts_and v, allElems_and vs, allElems, allElems]
    ac_rfl

theorem allMembers_and : ∀ ms : JObject,
    allMembers (fun s ↦ b₁ s && b₂ s) (fun x ↦ i₁ x && i₂ x) ms =
      (allMembers b₁ i₁ ms && allMembers b₂ i₂ ms)
  | [] => rfl
  | m :: ms => by
    rw [allMembers, allParts_and m.2, allMembers_and ms, allMembers, allMembers]
    ac_rfl

end

theorem allElems_append (vs ws : List JValue) :
    allElems b₁ i₁ (vs ++ ws) = (allElems b₁ i₁ vs && allElems b₁ i₁ ws) := by
  induction vs with
  | nil => rfl
  | cons v vs ih => rw [List.cons_append, allElems, allElems, ih, Bool.and_assoc]

theorem allMembers_set {key : JString} {value : JValue} {ms : JObject} (hkey : b₁ key = true)
    (hvalue : allParts b₁ i₁ value = true) (hms : allMembers b₁ i₁ ms = true) :
    allMembers b₁ i₁ (JObject.set key value ms) = true := by
  induction ms with
  | nil => simp [JObject.set, allMembers, hkey, hvalue]
  | cons m ms ih =>
    simp only [allMembers, Bool.and_eq_true] at hms
    obtain ⟨⟨hm, hm'⟩, hms⟩ := hms
    unfold JObject.set
    split
    · simp [allMembers, hkey, hvalue, hm, hm', hms]
    · split
      · simp [allMembers, hkey, hvalue, hms]
      · simp [allMembers, hm, hm', ih hms]

end Parts

theorem readable_iff (v : JValue) : Readable v ↔ allBodies v = true ∧ noMin v = true := by
  have hand : allParts (fun s ↦ StringBody s && true) (fun x ↦ true && x ≠ -2 ^ 63) v = _ :=
    allParts_and v
  simp only [Bool.and_true, Bool.true_and] at hand
  rw [Readable, hand, Bool.and_eq_true]

/-! ### Every value read is made of string bodies -/

theorem parse_allBodies (n : ℕ) :
    (∀ data v rest, parseStr n data = some (v, rest) → allBodies v = true) ∧
    (∀ (object : JObject) data v rest, allBodies (.object object) = true →
      parseMembers n object data = some (v, rest) → allBodies v = true) ∧
    (∀ array data v rest, allBodies (.array array) = true →
      parseElems n array data = some (v, rest) → allBodies v = true) := by
  induction n with
  | zero => exact ⟨by simp [parseStr], by simp [parseMembers], by simp [parseElems]⟩
  | succ n ih =>
    obtain ⟨ihStr, ihMembers, ihElems⟩ := ih
    refine ⟨fun data v rest h ↦ ?_, fun object data v rest hobject h ↦ ?_,
      fun array data v rest harray h ↦ ?_⟩
    · rcases parseStr_some h with ⟨-, s, hs, rfl⟩ | ⟨word, hword, -⟩ | h | ⟨-, h⟩ | ⟨-, h⟩
      · exact (stringBody_of_extractString hs).1
      · simp only [List.mem_cons, Prod.mk.injEq, List.not_mem_nil, or_false] at hword
        rcases hword with ⟨-, rfl⟩ | ⟨-, rfl⟩ | ⟨-, rfl⟩ <;> rfl
      · rcases (parseNumber_some h).2 with ⟨x, rfl⟩ | ⟨x, rfl⟩ | ⟨text, rfl⟩ <;> rfl
      · exact ihMembers _ _ _ _ rfl h
      · exact ihElems _ _ _ _ rfl h
    · rcases parseMembers_some h with ⟨-, -, -, -, rfl, -⟩ |
        ⟨d, name, d₁, d₂, d₃, value, d₄, d₅, -, -, hname, -, -, -, hvalue, -, h⟩
      · rfl
      · have hset : allBodies (.object (object.set name value)) = true :=
          allMembers_set (stringBody_of_extractString hname).1 (ihStr _ _ _ hvalue) hobject
        rcases h with ⟨-, rfl, -⟩ | ⟨-, h⟩
        · exact hset
        · exact ihMembers _ _ _ _ hset h
    · rcases parseElems_some h with ⟨-, -, -, -, rfl, -⟩ | ⟨d, value, d₁, d₂, -, hvalue, -, h⟩
      · rfl
      · have happend : allBodies (.array (array ++ [value])) = true := by
          have hv := ihStr _ _ _ hvalue
          simp only [allParts] at harray
          simp [allParts, allElems_append, allElems, harray, hv]
        rcases h with ⟨-, rfl, -⟩ | ⟨-, h⟩
        · exact happend
        · exact ihElems _ _ _ _ happend h

/-! ### The values in question -/

mutual

/-- What building a value establishes. -/
def WellFormed : JValue → Prop
  | .number _ => False
  | .string s => NulFree s
  | .int64 x => -2 ^ 63 ≤ x ∧ x < 0
  | .uint64 n => n < 2 ^ 64
  | .array vs => WellFormedElems vs
  | .object ms => (ms.map Prod.fst).Pairwise (· < ·) ∧ WellFormedMembers ms
  | _ => True

def WellFormedElems : List JValue → Prop
  | [] => True
  | v :: vs => WellFormed v ∧ WellFormedElems vs

def WellFormedMembers : JObject → Prop
  | [] => True
  | m :: ms => NulFree m.1 ∧ WellFormed m.2 ∧ WellFormedMembers ms

end

theorem nulFree_escape {text : JString} (htext : NulFree text) (escapeForwardslash : Bool) :
    NulFree (escape escapeForwardslash text) := by
  induction text with
  | nil => exact htext
  | cons c text ih =>
    have hc : c ≠ 0 := htext c (by simp)
    have ih := ih fun d hd ↦ htext d (List.mem_cons_of_mem _ hd)
    have hbackslash : code '\\' ≠ 0 := by decide
    rw [escape]
    split
    · intro d hd
      rcases List.mem_cons.1 hd with rfl | hd
      · exact hbackslash
      · rcases List.mem_cons.1 hd with rfl | hd
        · exact hc
        · exact ih d hd
    · intro d hd
      rcases List.mem_cons.1 hd with rfl | hd
      · exact hc
      · exact ih d hd

theorem wellFormedElems_iff (vs : List JValue) :
    WellFormedElems vs ↔ ∀ v ∈ vs, WellFormed v := by
  induction vs with
  | nil => simp [WellFormedElems]
  | cons v vs ih => simp [WellFormedElems, ih]

theorem wellFormedMembers_iff (ms : JObject) :
    WellFormedMembers ms ↔ ∀ m ∈ ms, NulFree m.1 ∧ WellFormed m.2 := by
  induction ms with
  | nil => simp [WellFormedMembers]
  | cons m ms ih => rw [WellFormedMembers, ih, List.forall_mem_cons, and_assoc]

theorem Built.wellFormed {v : JValue} (hv : Built v) : WellFormed v := by
  induction hv with
  | null => trivial
  | bool b => trivial
  | int64 n hmin hmax =>
    unfold ofInt64
    split
    · rename_i hneg
      exact ⟨hmin, hneg⟩
    · norm_num [WellFormed] at *
      omega
  | uint64 n hmax => exact hmax
  | string text fwd htext => exact nulFree_escape htext fwd
  | array vs hvs ih => exact (wellFormedElems_iff vs).2 ih
  | object ms hsorted hkeys hvs ih =>
    exact ⟨hsorted, (wellFormedMembers_iff ms).2 fun m hm ↦ ⟨hkeys m hm, ih m hm⟩⟩

/-! ### The reader on what the writer wrote -/

theorem newline_space (l : Layout) : ∀ c ∈ l.newline, isSpace c = true := by
  intro c hc
  unfold Layout.newline at hc
  split at hc
  · rw [List.mem_singleton.1 hc]
    decide
  · exact absurd hc (by simp)

theorem pad_space (l : Layout) (indent : ℕ) : ∀ c ∈ l.pad indent, isSpace c = true := by
  intro c hc
  unfold Layout.pad at hc
  split at hc
  · rw [List.eq_of_mem_replicate hc]
    decide
  · exact absurd hc (by simp)

/-- What a written value starts with. -/
theorem stringify_head {v : JValue} (hv : WellFormed v) (l : Layout) (indent : ℕ) :
    ∃ c s, stringify l indent v = c :: s ∧ isSpace c = false ∧ c ≠ code ']' := by
  have hdigit : ∀ c, isDigit c = true → isSpace c = false ∧ c ≠ code ']' := by
    intro c hc
    refine ⟨Bool.eq_false_iff.2 fun hspace ↦ ?_, ?_⟩
    · simp only [isSpace, Bool.or_eq_true, decide_eq_true_eq] at hspace
      rcases hspace with ((rfl | rfl) | rfl) | rfl <;> exact absurd hc (by decide)
    · rintro rfl
      exact absurd hc (by decide)
  cases v with
  | null => exact ⟨_, _, rfl, by decide, by decide⟩
  | string s => exact ⟨_, _, rfl, by decide, by decide⟩
  | bool b => cases b <;> exact ⟨_, _, rfl, by decide, by decide⟩
  | number text => exact hv.elim
  | array vs => exact ⟨_, _, rfl, by decide, by decide⟩
  | object ms => exact ⟨_, _, rfl, by decide, by decide⟩
  | int64 x =>
    obtain ⟨ds, hds⟩ := toStringInt64_head hv.2
    exact ⟨_, _, by rw [stringify, hds], by decide, by decide⟩
  | uint64 n =>
    obtain ⟨c, ds, hds, hc⟩ := toStringUint64_head hv
    exact ⟨c, ds, by rw [stringify, hds], (hdigit c hc).1, (hdigit c hc).2⟩

/-! ### What is written between quotes -/

/-- The quote that is written behind the text ends it for the scanner, or the scanner fails. -/
def Quotable (s : JString) : Prop :=
  StringBody s = true ∨ ∀ rest, extractString (s ++ code '"' :: rest) = none

theorem extractString_quotable {s : JString} (hs : Quotable s) (rest : JString) :
    extractString (s ++ code '"' :: rest) = bif StringBody s then some (s, rest) else none := by
  cases hbody : StringBody s with
  | true => exact extractString_append hbody rest
  | false => exact hs.resolve_left (hbody ▸ Bool.false_ne_true) rest

theorem parseStr_quotable (n : ℕ) {s : JString} (hs : Quotable s) (rest : JString) :
    parseStr (n + 1) (code '"' :: (s ++ code '"' :: rest)) =
      bif StringBody s then some (.string s, rest) else none := by
  have hcur : cur (code '"' :: (s ++ code '"' :: rest)) = code '"' := rfl
  rw [parseStr, hcur, if_pos rfl, List.tail_cons, extractString_quotable hs]
  cases StringBody s <;> rfl

theorem parseMembers_unquoted (n : ℕ) (object : JObject) {ws : JString}
    (hws : ∀ c ∈ ws, isSpace c = true) {data : JString} (hdata : extractString data = none) :
    parseMembers (n + 1) object (ws ++ code '"' :: data) = none := by
  have hcur : cur (code '"' :: data) = code '"' := rfl
  have hclose : code '"' ≠ code '}' := by decide
  rw [parseMembers, skipWhitespace_append hws, skipWhitespace_cons (by decide)]
  simp [hcur, hclose, hdata]

/-! ### Whole values -/

/-- A key behind all others goes to the end. -/
theorem JObject.set_of_forall_lt {object : JObject} {key : JString} (value : JValue)
    (h : ∀ m ∈ object, m.1 < key) : object.set key value = object ++ [(key, value)] := by
  induction object with
  | nil => rfl
  | cons m ms ih =>
    have hm : m.1 < key := h m (by simp)
    rw [JObject.set, if_neg (not_lt_of_gt hm), if_neg hm.ne',
      ih fun m' hm' ↦ h m' (List.mem_cons_of_mem _ hm')]
    rfl

theorem append_space {ws ws' : JString} (hws : ∀ c ∈ ws, isSpace c = true)
    (hws' : ∀ c ∈ ws', isSpace c = true) : ∀ c ∈ ws ++ ws', isSpace c = true :=
  fun c hc ↦ (List.mem_append.1 hc).elim (hws c) (hws' c)

mutual

/-- **What is written is read back**, when all strings and keys are string bodies and the smallest
`INT64` does not occur. Otherwise the reading fails, as long as no quote ends a text too early. -/
theorem parseStr_stringify (l : Layout) {body : JString → Bool}
    (hquotable : ∀ s, body s = true → Quotable s) : ∀ (v : JValue) (indent n : ℕ) (rest : JString),
    WellFormed v → allParts body (fun _ ↦ true) v = true → Delimited rest →
    (stringify l indent v).length < n →
    parseStr n (stringify l indent v ++ rest) =
      bif allParts StringBody (fun x ↦ x ≠ -2 ^ 63) v then some (v, rest) else none
  | _, _, 0, _, _, _, _, hn => absurd hn (by omega)
  | .null, _, n + 1, rest, _, _, _, _ => (parseStr_word n rest).1
  | .bool b, _, n + 1, rest, _, _, _, _ => by
    cases b
    · exact (parseStr_word n rest).2.2
    · exact (parseStr_word n rest).2.1
  | .string s, _, n + 1, rest, _, hbody, _, _ => by
    simp only [stringify, List.cons_append, List.append_assoc, List.nil_append]
    exact parseStr_quotable n (hquotable s hbody) rest
  | .number _, _, _ + 1, _, hv, _, _, _ => hv.elim
  | .uint64 x, indent, n + 1, rest, hv, _, hrest, _ => by
    obtain ⟨c, ds, hds, hc⟩ := toStringUint64_head hv
    have hcur : cur (toStringUint64 x ++ rest) = c := by rw [hds]; rfl
    rw [stringify, parseStr_number (.inr (hcur ▸ hc)), parseNumber_toStringUint64 hv hrest]
    rfl
  | .int64 x, indent, n + 1, rest, hv, _, hrest, _ => by
    obtain ⟨hmin, hneg⟩ := hv
    obtain ⟨ds, hds⟩ := toStringInt64_head hneg
    have hcur : cur (toStringInt64 x ++ rest) = code '-' := by rw [hds]; rfl
    rw [stringify, parseStr_number (.inl hcur), allParts]
    by_cases hx : x = -2 ^ 63
    · rw [hx, parseNumber_toStringInt64_min]
      rfl
    · rw [parseNumber_toStringInt64 (lt_of_le_of_ne hmin (Ne.symm hx)) hneg hrest,
        decide_eq_true hx, cond_true]
  | .array vs, indent, n + 1, rest, hv, hbody, hrest, hn => by
    simp only [stringify, List.cons_append, List.append_assoc, List.nil_append, List.length_cons,
      List.length_append] at hn ⊢
    have hws := append_space (newline_space l) (pad_space l indent)
    rw [parseStr_bracket]
    cases vs with
    | nil =>
      obtain ⟨m, rfl⟩ : ∃ m, n = m + 1 := ⟨n - 1, by omega⟩
      have hclose := parseElems_close m (append_space (newline_space l) hws) rest
      simp only [List.append_assoc] at hclose
      exact hclose
    | cons v vs =>
      have hloop := parseElems_stringify l hquotable (v :: vs) (indent + 1) n [] l.newline
        (l.newline ++ l.pad indent) rest (by simp) hv hbody (newline_space l) hws (by omega)
      simp only [List.append_assoc, List.nil_append] at hloop
      exact hloop
  | .object ms, indent, n + 1, rest, hv, hbody, hrest, hn => by
    simp only [stringify, List.cons_append, List.append_assoc, List.nil_append, List.length_cons,
      List.length_append] at hn ⊢
    have hws := append_space (newline_space l) (pad_space l indent)
    rw [parseStr_brace]
    cases ms with
    | nil =>
      obtain ⟨m, rfl⟩ : ∃ m, n = m + 1 := ⟨n - 1, by omega⟩
      have hclose := parseMembers_close m (append_space (newline_space l) hws) rest
      simp only [List.append_assoc] at hclose
      exact hclose
    | cons m ms =>
      have hloop := parseMembers_stringify l hquotable (m :: ms) (indent + 1) n [] l.newline
        (l.newline ++ l.pad indent) rest (by simp) hv.2 (by simpa using hv.1) hbody
        (newline_space l) hws (by omega)
      simp only [List.append_assoc, List.nil_append] at hloop
      exact hloop

/-- The loop over the elements of an array. -/
theorem parseElems_stringify (l : Layout) {body : JString → Bool}
    (hquotable : ∀ s, body s = true → Quotable s) : ∀ (vs : List JValue) (indent n : ℕ)
    (array : List JValue) (ws ws' rest : JString), vs ≠ [] → WellFormedElems vs →
    allElems body (fun _ ↦ true) vs = true → (∀ c ∈ ws, isSpace c = true) →
    (∀ c ∈ ws', isSpace c = true) → (stringifyElems l indent vs).length + 1 < n →
    parseElems n array (ws ++ (stringifyElems l indent vs ++ (ws' ++ code ']' :: rest))) =
      bif allElems StringBody (fun x ↦ x ≠ -2 ^ 63) vs then some (.array (array ++ vs), rest)
      else none
  | [], _, _, _, _, _, _, hne, _, _, _, _, _ => absurd rfl hne
  | v :: vs, indent, n, array, ws, ws', rest, _, hv, hbody, hws, hws', hn => by
    obtain ⟨n, rfl⟩ : ∃ m, n = m + 1 := ⟨n - 1, by omega⟩
    obtain ⟨hv, hvs⟩ := hv
    rw [allElems, Bool.and_eq_true] at hbody
    obtain ⟨hbv, hbvs⟩ := hbody
    obtain ⟨c, s, hhead, hspace, hclose⟩ := stringify_head hv l indent
    simp only [stringifyElems, List.length_append] at hn ⊢
    -- the text behind the element
    generalize hX : (if vs.isEmpty then [] else
      code ',' :: (l.newline ++ stringifyElems l indent vs)) ++ (ws' ++ code ']' :: rest) = X
    have hdelimited : Delimited X := by
      subst hX
      cases vs with
      | nil => exact delimited_append hws' (by decide) rest
      | cons v' vs => exact (by decide : Delimited [code ','])
    have hvalue := parseStr_stringify l hquotable v indent n X hv hbv hdelimited (by omega)
    have hnext := parseElems_next n array (append_space hws (pad_space l indent)) hspace hclose
      (s ++ X)
    have hcons : c :: (s ++ X) = stringify l indent v ++ X := by rw [hhead, List.cons_append]
    rw [hcons, hvalue] at hnext
    simp only [List.append_assoc, hX] at hnext ⊢
    rw [hnext, allElems]
    cases allParts StringBody (fun x ↦ decide (x ≠ -2 ^ 63)) v with
    | false => rfl
    | true =>
      rw [cond_true, Option.bind_some, Bool.true_and]
      subst hX
      cases vs with
      | nil => exact nextElem_close _ _ hws' rest
      | cons v' vs =>
        have hlen : 1 ≤ (stringify l indent v).length := by rw [hhead]; simp
        simp only [List.isEmpty_cons, Bool.false_eq_true, if_false, List.length_cons,
          List.length_append] at hn
        have hloop := parseElems_stringify l hquotable (v' :: vs) indent n (array ++ [v])
          l.newline ws' rest (by simp) hvs hbvs (newline_space l) hws' (by omega)
        simp only [List.append_assoc, List.singleton_append] at hloop
        simp only [List.isEmpty_cons, Bool.false_eq_true, if_false, List.cons_append,
          List.append_assoc, nextElem_comma]
        exact hloop

/-- The loop over the members of an object; their keys follow those already read. -/
theorem parseMembers_stringify (l : Layout) {body : JString → Bool}
    (hquotable : ∀ s, body s = true → Quotable s) : ∀ (ms : JObject) (indent n : ℕ)
    (object : JObject) (ws ws' rest : JString), ms ≠ [] → WellFormedMembers ms →
    ((object ++ ms).map Prod.fst).Pairwise (· < ·) →
    allMembers body (fun _ ↦ true) ms = true → (∀ c ∈ ws, isSpace c = true) →
    (∀ c ∈ ws', isSpace c = true) → (stringifyMembers l indent ms).length + 1 < n →
    parseMembers n object (ws ++ (stringifyMembers l indent ms ++ (ws' ++ code '}' :: rest))) =
      bif allMembers StringBody (fun x ↦ x ≠ -2 ^ 63) ms then
        some (.object (object ++ ms), rest)
      else none
  | [], _, _, _, _, _, _, hne, _, _, _, _, _, _ => absurd rfl hne
  | (key, v) :: ms, indent, n, object, ws, ws', rest, _, hv, hsorted, hbody, hws, hws', hn => by
    obtain ⟨n, rfl⟩ : ∃ m, n = m + 1 := ⟨n - 1, by omega⟩
    obtain ⟨-, hv, hvs⟩ := hv
    rw [allMembers, Bool.and_eq_true, Bool.and_eq_true] at hbody
    obtain ⟨⟨hkey, hbv⟩, hbvs⟩ := hbody
    obtain ⟨c, s, hhead, hspace, -⟩ := stringify_head hv l indent
    simp only [stringifyMembers, List.length_append, List.length_cons] at hn ⊢
    -- the text behind the member
    generalize hX : (if ms.isEmpty then [] else
      code ',' :: (l.newline ++ stringifyMembers l indent ms)) ++ (ws' ++ code '}' :: rest) = X
    have hdelimited : Delimited X := by
      subst hX
      cases ms with
      | nil => exact delimited_append hws' (by decide) rest
      | cons m ms => exact (by decide : Delimited [code ','])
    have hset : object.set key v = object ++ [(key, v)] := by
      refine JObject.set_of_forall_lt v fun m hm ↦ ?_
      rw [List.map_append, List.pairwise_append] at hsorted
      exact hsorted.2.2 _ (List.mem_map_of_mem hm) _ (by simp)
    have hvalue := parseStr_stringify l hquotable v indent n X hv hbv hdelimited (by omega)
    have hcons : c :: (s ++ X) = stringify l indent v ++ X := by rw [hhead, List.cons_append]
    rw [allMembers]
    cases hname : StringBody key with
    | false =>
      have hscan := extractString_quotable (hquotable key hkey)
        (code ':' :: (stringify l indent v ++ X))
      rw [hname, cond_false] at hscan
      have hnext := parseMembers_unquoted n object (append_space hws (pad_space l indent)) hscan
      simp only [List.append_assoc, List.cons_append, hX] at hnext ⊢
      exact hnext
    | true =>
      have hnext := parseMembers_next n object (append_space hws (pad_space l indent)) hname hspace
        (s ++ X)
      rw [hcons, hvalue] at hnext
      simp only [List.append_assoc, List.cons_append, hX] at hnext ⊢
      rw [hnext]
      cases allParts StringBody (fun x ↦ decide (x ≠ -2 ^ 63)) v with
      | false => rfl
      | true =>
        rw [cond_true, Option.bind_some, hset, Bool.true_and, Bool.true_and]
        subst hX
        cases ms with
        | nil => exact nextMember_close _ _ hws' rest
        | cons m ms =>
          simp only [List.isEmpty_cons, Bool.false_eq_true, if_false, List.length_cons,
            List.length_append] at hn
          have hloop := parseMembers_stringify l hquotable (m :: ms) indent n
            (object ++ [(key, v)]) l.newline ws' rest (by simp) hvs (by simpa using hsorted) hbvs
            (newline_space l) hws' (by omega)
          simp only [List.append_assoc, List.singleton_append] at hloop
          simp only [List.isEmpty_cons, Bool.false_eq_true, if_false, List.cons_append,
            List.append_assoc, nextMember_comma]
          exact hloop

end

/-! ### The text as a C string -/

mutual

theorem WellFormed.allParts_nulFree :
    ∀ v : JValue, WellFormed v → allParts (fun s ↦ decide (NulFree s)) (fun _ ↦ true) v = true
  | .null, _ => rfl
  | .bool _, _ => rfl
  | .number _, hv => hv.elim
  | .int64 _, _ => rfl
  | .uint64 _, _ => rfl
  | .string _, hv => decide_eq_true hv
  | .array vs, hv => WellFormed.allElems_nulFree vs hv
  | .object ms, hv => WellFormed.allMembers_nulFree ms hv.2

theorem WellFormed.allElems_nulFree : ∀ vs : List JValue, WellFormedElems vs →
    allElems (fun s ↦ decide (NulFree s)) (fun _ ↦ true) vs = true
  | [], _ => rfl
  | v :: vs, hv => by
    rw [allElems, WellFormed.allParts_nulFree v hv.1, WellFormed.allElems_nulFree vs hv.2]
    rfl

theorem WellFormed.allMembers_nulFree : ∀ ms : JObject, WellFormedMembers ms →
    allMembers (fun s ↦ decide (NulFree s)) (fun _ ↦ true) ms = true
  | [], _ => rfl
  | m :: ms, hv => by
    rw [allMembers, decide_eq_true hv.1, WellFormed.allParts_nulFree m.2 hv.2.1,
      WellFormed.allMembers_nulFree ms hv.2.2]
    rfl

end

section Units

/-- All units are in a set. -/
def Units (P : ℕ → Prop) (s : JString) : Prop := ∀ c ∈ s, P c

instance (P : ℕ → Prop) [DecidablePred P] (s : JString) : Decidable (Units P s) := by
  unfold Units
  infer_instance

variable {P : ℕ → Prop}

theorem units_append {s t : JString} : Units P (s ++ t) ↔ Units P s ∧ Units P t := by
  simp only [Units, List.forall_mem_append]

theorem units_cons {c : ℕ} {s : JString} : Units P (c :: s) ↔ P c ∧ Units P s := by
  simp only [Units, List.forall_mem_cons]

variable (hP : ∀ c, c ≠ 0 → c < 128 → P c)

include hP

theorem units_ascii {s : JString} (hs : ∀ c ∈ s, c ≠ 0 ∧ c < 128) : Units P s :=
  fun c hc ↦ hP c (hs c hc).1 (hs c hc).2

theorem units_of_space {ws : JString} (hws : ∀ c ∈ ws, isSpace c = true) : Units P ws := by
  refine units_ascii hP fun c hc ↦ ?_
  have hspace := hws c hc
  simp only [isSpace, Bool.or_eq_true, decide_eq_true_eq] at hspace
  rcases hspace with ((rfl | rfl) | rfl) | rfl <;> decide

/-- A digit that comes out negative is still in the ASCII range, and not the terminating zero. -/
theorem units_toStringLoop (start : ℕ) (x : ℤ) {buff : JString} (hbuff : Units P buff) :
    Units P (toStringLoop start x buff) := by
  induction start generalizing x buff with
  | zero => exact hbuff
  | succ start ih =>
    rw [toStringLoop]
    split
    · exact hbuff
    · have hcode : code '0' = 48 := rfl
      have hlower := Int.lt_tmod_of_pos x (by norm_num : (0 : ℤ) < 10)
      have hupper := Int.tmod_lt_of_pos x (by norm_num : (0 : ℤ) < 10)
      exact ih _ (units_cons.2 ⟨hP _ (by omega) (by omega), hbuff⟩)

theorem units_toString (x : ℤ) (n : ℕ) :
    Units P (toStringInt64 x) ∧ Units P (toStringUint64 n) := by
  have hnil : Units P [] := by simp [Units]
  constructor
  · unfold toStringInt64
    split
    · exact units_ascii hP (by decide)
    · split
      · exact units_cons.2 ⟨hP _ (by decide) (by decide), units_toStringLoop hP _ _ hnil⟩
      · exact units_toStringLoop hP _ _ hnil
  · unfold toStringUint64
    split
    · exact units_ascii hP (by decide)
    · exact units_toStringLoop hP _ _ hnil

end Units

mutual

/-- A written text has no other units than its strings and keys, but for ASCII. -/
theorem units_stringify (l : Layout) {P : ℕ → Prop} [DecidablePred P]
    (hP : ∀ c, c ≠ 0 → c < 128 → P c) : ∀ (v : JValue) (indent : ℕ), WellFormed v →
    allParts (fun s ↦ decide (Units P s)) (fun _ ↦ true) v = true → Units P (stringify l indent v)
  | .null, _, _, _ => by
    rw [stringify]
    exact units_ascii hP (by decide)
  | .bool b, _, _, _ => by
    rw [stringify]
    exact units_ascii hP (by cases b <;> decide)
  | .number _, _, hv, _ => hv.elim
  | .int64 x, _, _, _ => (units_toString hP x 0).1
  | .uint64 n, _, _, _ => (units_toString hP 0 n).2
  | .string s, _, _, hs => by
    rw [stringify, units_cons, units_append]
    exact ⟨hP _ (by decide) (by decide), of_decide_eq_true hs, units_ascii hP (by decide)⟩
  | .array vs, indent, hv, hs => by
    have helems := units_stringifyElems l hP vs (indent + 1) hv hs
    have hnewline := units_of_space hP (newline_space l)
    have hpad := units_of_space hP (pad_space l indent)
    rw [stringify, units_cons, units_append, units_append, units_append, units_append]
    exact ⟨hP _ (by decide) (by decide), hnewline, helems, hnewline, hpad,
      units_ascii hP (by decide)⟩
  | .object ms, indent, hv, hs => by
    have hmembers := units_stringifyMembers l hP ms (indent + 1) hv.2 hs
    have hnewline := units_of_space hP (newline_space l)
    have hpad := units_of_space hP (pad_space l indent)
    rw [stringify, units_cons, units_append, units_append, units_append, units_append]
    exact ⟨hP _ (by decide) (by decide), hnewline, hmembers, hnewline, hpad,
      units_ascii hP (by decide)⟩

theorem units_stringifyElems (l : Layout) {P : ℕ → Prop} [DecidablePred P]
    (hP : ∀ c, c ≠ 0 → c < 128 → P c) : ∀ (vs : List JValue) (indent : ℕ), WellFormedElems vs →
    allElems (fun s ↦ decide (Units P s)) (fun _ ↦ true) vs = true →
    Units P (stringifyElems l indent vs)
  | [], _, _, _ => by simp [stringifyElems, Units]
  | v :: vs, indent, hv, hs => by
    rw [allElems, Bool.and_eq_true] at hs
    have hvalue := units_stringify l hP v indent hv.1 hs.1
    have helems := units_stringifyElems l hP vs indent hv.2 hs.2
    have hnewline := units_of_space hP (newline_space l)
    have hpad := units_of_space hP (pad_space l indent)
    rw [stringifyElems, units_append, units_append]
    refine ⟨hpad, hvalue, ?_⟩
    split
    · simp [Units]
    · rw [units_cons, units_append]
      exact ⟨hP _ (by decide) (by decide), hnewline, helems⟩

theorem units_stringifyMembers (l : Layout) {P : ℕ → Prop} [DecidablePred P]
    (hP : ∀ c, c ≠ 0 → c < 128 → P c) : ∀ (ms : JObject) (indent : ℕ), WellFormedMembers ms →
    allMembers (fun s ↦ decide (Units P s)) (fun _ ↦ true) ms = true →
    Units P (stringifyMembers l indent ms)
  | [], _, _, _ => by simp [stringifyMembers, Units]
  | (key, v) :: ms, indent, hv, hs => by
    rw [allMembers, Bool.and_eq_true, Bool.and_eq_true] at hs
    have hvalue := units_stringify l hP v indent hv.2.1 hs.1.2
    have hmembers := units_stringifyMembers l hP ms indent hv.2.2 hs.2
    have hnewline := units_of_space hP (newline_space l)
    have hpad := units_of_space hP (pad_space l indent)
    have hquote := hP (code '"') (by decide) (by decide)
    rw [stringifyMembers, units_append, units_cons, units_append, units_cons, units_cons,
      units_append]
    refine ⟨hpad, hquote, of_decide_eq_true hs.1.1, hquote, hP _ (by decide) (by decide), hvalue,
      ?_⟩
    split
    · simp [Units]
    · rw [units_cons, units_append]
      exact ⟨hP _ (by decide) (by decide), hnewline, hmembers⟩

end

theorem nulFree_stringify (l : Layout) {v : JValue} (hv : WellFormed v) (indent : ℕ) :
    NulFree (stringify l indent v) :=
  units_stringify (P := (· ≠ 0)) l (fun _ hc _ ↦ hc) v indent hv
    (WellFormed.allParts_nulFree v hv)

/-! ### The round trip -/

/-- The reader on a written text, where each string and key ends at the quote behind it. -/
theorem parse_stringify_eq {v : JValue} (hv : Built v) {body : JString → Bool}
    (hquotable : ∀ s, body s = true → Quotable s) (hbody : allParts body (fun _ ↦ true) v = true)
    (l : Layout) : parse (stringify l 0 v) = if Readable v then some v else none := by
  have hwf := hv.wellFormed
  obtain ⟨c, s, hhead, hspace, -⟩ := stringify_head hwf l 0
  have hstart : skipWhitespace (cString (stringify l 0 v)) = some (stringify l 0 v) := by
    rw [cString_eq (nulFree_stringify l hwf 0), hhead, skipWhitespace_cons hspace]
  have hvalue := parseStr_stringify l hquotable v 0 (2 * (stringify l 0 v).length + 1) [] hwf hbody
    (by decide) (by omega)
  rw [List.append_nil] at hvalue
  rw [parse, hstart, Option.bind_eq_bind, Option.bind_some, hvalue]
  split
  · rename_i hread
    rw [Readable] at hread
    rw [hread]
    rfl
  · rename_i hread
    rw [Readable, Bool.not_eq_true] at hread
    rw [hread]
    rfl

/-- **A value comes back exactly when it is readable.** For every value one can build and both
layouts, `Parse` returns the value `Stringify` was given if and only if all its stored strings and
keys are string bodies and the smallest `INT64` does not occur in it. -/
theorem parse_stringify {v : JValue} (hv : Built v) (l : Layout) :
    parse (stringify l 0 v) = some v ↔ Readable v := by
  have hread (hbody : allBodies v = true) :
      parse (stringify l 0 v) = if Readable v then some v else none :=
    parse_stringify_eq hv (fun _ h ↦ .inl h) hbody l
  constructor
  · intro h
    have hbody : allBodies v = true := by
      rw [parse] at h
      obtain ⟨d, -, h⟩ := Option.bind_eq_some_iff.1 h
      obtain ⟨⟨v', d'⟩, hv', h⟩ := Option.bind_eq_some_iff.1 h
      dsimp only at h
      split at h
      · exact nomatch h
      · exact Option.some.inj h ▸ (parse_allBodies _).1 _ _ _ hv'
    by_contra hnot
    rw [hread hbody, if_neg hnot] at h
    exact nomatch h
  · intro h
    rw [hread ((readable_iff v).1 h).1, if_pos h]

/-- Two members, one of them an array with an escaped quote and a negative number. -/
theorem parse_stringify_object :
    let v : JValue := .object [([code 'a'], .array [ofString [code '"'] false, ofInt64 (-12)]),
      ([code 'b'], .array [])]
    parse (stringify ⟨true, 2, id⟩ 0 v) = some v :=
  have hstring : Built (ofString [code '"'] false) := .string _ _ (by decide)
  have harray : Built (.array [ofString [code '"'] false, ofInt64 (-12)]) :=
    .array _ (by simpa using ⟨hstring, .int64 (-12) (by norm_num) (by norm_num)⟩)
  (parse_stringify (.object _ (by decide) (by decide)
    (by simpa using ⟨harray, .array [] (by simp)⟩)) _).2 (by decide)

/-- **A control character does not come back.** The text is one line feed; it is stored and written
as a backslash and the line feed, which the scanner refuses. -/
theorem parse_stringify_lineFeed :
    ∃ (v : JValue) (l : Layout), Built v ∧ parse (stringify l 0 v) ≠ some v := by
  refine ⟨ofString [code '\n'] false, ⟨false, 2, id⟩, .string _ _ (by decide), ?_⟩
  have hnone : parse (stringify ⟨false, 2, id⟩ 0 (ofString [code '\n'] false)) = none := by rfl
  rw [hnone]
  exact fun h ↦ absurd h (by simp)

/-! ### The condition for narrow texts -/

theorem stringBody_backslash (c : ℕ) (s : JString) (hu : c ≠ code 'u') :
    StringBody (code '\\' :: c :: s) = (isSimpleEscape c && StringBody s) := by
  have hnarrow : narrow (code '\\') = code '\\' := by decide
  rw [StringBody.eq_def]
  cases hc : isSimpleEscape c <;> simp [hnarrow, hu, hc]

theorem stringBody_plain {c : ℕ} (hc : narrow c ≠ code '\\') (s : JString) :
    StringBody (c :: s) = (narrow c ≠ code '"' && !isControl c && StringBody s) := by
  rw [StringBody.eq_def]
  simp [hc]

/-- A unit that gets a backslash is a letter of an escape, or a control character. -/
theorem isSimpleEscape_of_escaped {c : ℕ} {fwd : Bool}
    (h : (isEscaped c || (decide (c = code '/') && fwd)) = true) :
    isSimpleEscape c = decide (code ' ' ≤ c) ∧ c ≠ code 'u' := by
  rcases Bool.or_eq_true _ _ ▸ h with h | h
  · simp only [isEscaped, Bool.or_eq_true, decide_eq_true_eq] at h
    rcases h with (((((rfl | rfl) | rfl) | rfl) | rfl) | rfl) | rfl <;> decide
  · obtain rfl : c = code '/' := of_decide_eq_true (Bool.and_eq_true _ _ ▸ h).1
    decide

/-- A unit that gets none is no backslash and no quote, and no tab. -/
theorem isControl_of_plain {c : ℕ} {fwd : Bool} (hzero : c ≠ 0) (hc : c < 256)
    (h : (isEscaped c || (decide (c = code '/') && fwd)) ≠ true) :
    narrow c ≠ code '\\' ∧ narrow c ≠ code '"' ∧ isControl c = decide (c < code ' ') := by
  have hnarrow : narrow c = c := Nat.mod_eq_of_lt hc
  have hescaped : ¬ isEscaped c = true := fun hescaped ↦ h (by rw [hescaped, Bool.true_or])
  simp only [isEscaped, Bool.or_eq_true, decide_eq_true_eq, not_or] at hescaped
  obtain ⟨⟨⟨⟨⟨⟨hbackslash, -⟩, -⟩, hquote⟩, htab⟩, -⟩, -⟩ := hescaped
  rw [isControl, hnarrow, decide_eq_true (Nat.pos_of_ne_zero hzero), decide_eq_true htab,
    Bool.true_and, Bool.and_true]
  exact ⟨hbackslash, hquote, rfl⟩

/-- **The condition for narrow texts.** Stored through the escaping constructors, a `char` text is a
string body exactly when it has no control character. -/
theorem stringBody_escape_iff {text : JString} (htext : NulFree text)
    (hnarrow : ∀ c ∈ text, c < 256) (escapeForwardslash : Bool) :
    StringBody (escape escapeForwardslash text) = true ↔ ∀ c ∈ text, code ' ' ≤ c := by
  induction text with
  | nil => simp [escape, StringBody]
  | cons c text ih =>
    have hzero : c ≠ 0 := htext c (by simp)
    have ih := ih (fun d hd ↦ htext d (List.mem_cons_of_mem _ hd))
      fun d hd ↦ hnarrow d (List.mem_cons_of_mem _ hd)
    rw [List.forall_mem_cons, escape]
    split
    · rename_i hescaped
      obtain ⟨hsimple, hu⟩ := isSimpleEscape_of_escaped hescaped
      rw [stringBody_backslash _ _ hu, hsimple, Bool.and_eq_true, decide_eq_true_iff, ih]
    · rename_i hplain
      obtain ⟨hbackslash, hquote, hcontrol⟩ :=
        isControl_of_plain hzero (hnarrow c List.mem_cons_self) hplain
      rw [stringBody_plain hbackslash, decide_eq_true hquote, hcontrol]
      simp [ih]

/-- The scanner refuses an escaped text with a control character. -/
theorem extractString_escape {text : JString} (htext : NulFree text)
    (hnarrow : ∀ c ∈ text, c < 256) (fwd : Bool) {d : ℕ} (hd : d ∈ text) (hcontrol : d < code ' ')
    (rest : JString) : extractString (escape fwd text ++ code '"' :: rest) = none := by
  induction text with
  | nil => exact absurd hd List.not_mem_nil
  | cons c text ih =>
    have ih (hd : d ∈ text) := ih (fun d hd ↦ htext d (List.mem_cons_of_mem _ hd))
      (fun d hd ↦ hnarrow d (List.mem_cons_of_mem _ hd)) hd
    -- Behind a unit that is passed over it is the rest of the text that is refused.
    have hne (hc : code ' ' ≤ c) : d ∈ text :=
      List.mem_of_ne_of_mem (fun h ↦ absurd (h ▸ hcontrol) (not_lt_of_ge hc)) hd
    rw [escape]
    split
    · rename_i hescaped
      have hbackslash : narrow (code '\\') = code '\\' := by decide
      obtain ⟨hsimple, hu⟩ := isSimpleEscape_of_escaped hescaped
      rw [List.cons_append, List.cons_append]
      by_cases hc : code ' ' ≤ c
      · rw [decide_eq_true hc] at hsimple
        rw [extractString_simple hbackslash hsimple, ih (hne hc)]
        rfl
      · rw [decide_eq_false hc] at hsimple
        rw [extractString.eq_def]
        simp [hbackslash, hsimple, hu]
    · rename_i hplain
      obtain ⟨hbackslash, hquote, hiscontrol⟩ :=
        isControl_of_plain (htext c List.mem_cons_self) (hnarrow c List.mem_cons_self) hplain
      rw [List.cons_append]
      by_cases hc : code ' ' ≤ c
      · rw [decide_eq_false (not_lt_of_ge hc)] at hiscontrol
        rw [extractString_plain hbackslash hquote hiscontrol, ih (hne hc)]
        rfl
      · rw [decide_eq_true (not_le.1 hc)] at hiscontrol
        rw [extractString.eq_def]
        simp [hbackslash, hquote, hiscontrol]

/-- A narrow text is stored as one that its quote ends. -/
theorem quotable_escape {text : JString} (htext : NulFree text) (hnarrow : ∀ c ∈ text, c < 256)
    (fwd : Bool) : Quotable (escape fwd text) := by
  by_cases hplain : ∀ c ∈ text, code ' ' ≤ c
  · exact .inl ((stringBody_escape_iff htext hnarrow fwd).2 hplain)
  · push Not at hplain
    obtain ⟨d, hd, hcontrol⟩ := hplain
    exact .inr (extractString_escape htext hnarrow fwd hd hcontrol)

end SocketPro.Json
