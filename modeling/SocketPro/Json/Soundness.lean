import SocketPro.Json.Lexemes

/-!
# What the reader accepts, the grammar derives

The reader of lists against the grammar, with the strings and the keys in their spelling, escapes
and all. By induction on the bound of the recursion: one turn of a loop is one more element or
member of the derivation.
-/

namespace SocketPro.Json

/-! ### What a derivation leaves behind -/

theorem suffix_of_name {t s t₁ t₂ : JString} (h₁ : White t (code '"' :: (s ++ code '"' :: t₁)))
    (h₂ : White t₁ (code ':' :: t₂)) : t₂ <:+ t := by
  have hname : t₁ <:+ code '"' :: (s ++ code '"' :: t₁) := ⟨code '"' :: (s ++ [code '"']), by simp⟩
  exact (((List.suffix_cons _ _).trans h₂.suffix).trans hname).trans h₁.suffix

variable {read : JString → JString} {num : JString → JValue → Prop}

mutual

theorem Value.suffix {t r : JString} {v : JValue} : Value read num t v r → r <:+ t
  | .null => List.suffix_append _ _
  | .true => List.suffix_append _ _
  | .false => List.suffix_append _ _
  | .string (s := s) _ => ⟨code '"' :: (s ++ [code '"']), by simp⟩
  | .number _ => List.suffix_append _ _
  | .emptyArray ht => ((List.suffix_cons _ _).trans ht.suffix).trans (List.suffix_cons _ _)
  | .array ht => ht.suffix.trans (List.suffix_cons _ _)
  | .emptyObject ht => ((List.suffix_cons _ _).trans ht.suffix).trans (List.suffix_cons _ _)
  | .object ht => ht.suffix.trans (List.suffix_cons _ _)

theorem Elements.suffix {t r : JString} {vs : List JValue} : Elements read num t vs r → r <:+ t
  | .last h₁ hv h₂ =>
    (((List.suffix_cons _ _).trans h₂.suffix).trans hv.suffix).trans h₁.suffix
  | .cons h₁ hv h₂ hvs =>
    (((hvs.suffix.trans (List.suffix_cons _ _)).trans h₂.suffix).trans hv.suffix).trans h₁.suffix

theorem Members.suffix {t r : JString} {ms : List (JString × JValue)} :
    Members read num t ms r → r <:+ t
  | .last h₁ _ h₂ h₃ hv h₄ =>
    ((((List.suffix_cons _ _).trans h₄.suffix).trans hv.suffix).trans h₃.suffix).trans
      (suffix_of_name h₁ h₂)
  | .cons h₁ _ h₂ h₃ hv h₄ hms =>
    (((((hms.suffix.trans (List.suffix_cons _ _)).trans h₄.suffix).trans hv.suffix).trans
      h₃.suffix)).trans (suffix_of_name h₁ h₂)

end

mutual

/-- The same text with its strings read in another way and its numbers denoting something else. -/
theorem value_map {read' : JString → JString} {num' : JString → JValue → Prop}
    (h : ∀ t v, num t v → ∃ v', num' t v') {t r : JString} {v : JValue} :
    Value read num t v r → ∃ v', Value read' num' t v' r
  | .null => ⟨_, .null⟩
  | .true => ⟨_, .true⟩
  | .false => ⟨_, .false⟩
  | .string hs => ⟨_, .string hs⟩
  | .number hv => (h _ _ hv).elim fun _ hv' ↦ ⟨_, .number hv'⟩
  | .emptyArray ht => ⟨_, .emptyArray ht⟩
  | .array ht => (elements_map h ht).elim fun _ ht' ↦ ⟨_, .array ht'⟩
  | .emptyObject ht => ⟨_, .emptyObject ht⟩
  | .object ht => (members_map h ht).elim fun _ ht' ↦ ⟨_, .object ht'⟩

theorem elements_map {read' : JString → JString} {num' : JString → JValue → Prop}
    (h : ∀ t v, num t v → ∃ v', num' t v') {t r : JString} {vs : List JValue} :
    Elements read num t vs r → ∃ vs', Elements read' num' t vs' r
  | .last h₁ hv h₂ => (value_map h hv).elim fun _ hv' ↦ ⟨_, .last h₁ hv' h₂⟩
  | .cons h₁ hv h₂ hvs =>
    (value_map h hv).elim fun _ hv' ↦
      (elements_map h hvs).elim fun _ hvs' ↦ ⟨_, .cons h₁ hv' h₂ hvs'⟩

theorem members_map {read' : JString → JString} {num' : JString → JValue → Prop}
    (h : ∀ t v, num t v → ∃ v', num' t v') {t r : JString} {ms : List (JString × JValue)} :
    Members read num t ms r → ∃ ms', Members read' num' t ms' r
  | .last h₁ hs h₂ h₃ hv h₄ =>
    (value_map h hv).elim fun _ hv' ↦ ⟨_, .last h₁ hs h₂ h₃ hv' h₄⟩
  | .cons h₁ hs h₂ h₃ hv h₄ hms =>
    (value_map h hv).elim fun _ hv' ↦
      (members_map h hms).elim fun _ hms' ↦ ⟨_, .cons h₁ hs h₂ h₃ hv' h₄ hms'⟩

end

/-! ### What the reader accepts -/

theorem eq_cons_of_cur {d : JString} {c : ℕ} (h : cur d = c) (hc : c ≠ 0) : d = c :: d.tail := by
  rcases d with - | ⟨d, data⟩
  · exact absurd h.symm hc
  · rw [← h]
    rfl

/-- The scanner stops at a sign. -/
theorem white_of_cur {data d : JString} {c : ℕ} (h : skipWhitespace data = some d)
    (hcur : cur d = c) (hc : c ≠ 0) : White data (c :: d.tail) :=
  eq_cons_of_cur hcur hc ▸ white_of_skipWhitespace h

theorem JObject.set_ne_nil (key : JString) (value : JValue) (object : JObject) :
    object.set key value ≠ [] := by
  rcases object with - | ⟨m, ms⟩
  · simp [JObject.set]
  · rw [JObject.set]
    split <;> [skip; split] <;> simp

/-- The members that a loop put into the object it started with. -/
def addMembers (object : JObject) (ms : List (JString × JValue)) : JObject :=
  ms.foldl (fun object m ↦ object.set m.1 m.2) object

/-- What the loop over the members of an object returned. -/
def MembersRead (object : JObject) (data : JString) (v : JValue) (rest : JString) : Prop :=
  (object = [] ∧ v = .object [] ∧ White data (code '}' :: rest)) ∨
    ∃ ms, Members id Number data ms rest ∧ v = .object (addMembers object ms)

/-- What the loop over the elements of an array returned. -/
def ElemsRead (array : List JValue) (data : JString) (v : JValue) (rest : JString) : Prop :=
  (array = [] ∧ v = .array [] ∧ White data (code ']' :: rest)) ∨
    ∃ vs, Elements id Number data vs rest ∧ v = .array (array ++ vs)

/-- **What the reader accepts, the grammar derives.** -/
theorem parse_sound (n : ℕ) :
    (∀ data v rest, IsText data → parseStr n data = some (v, rest) → Value id Number data v rest) ∧
    (∀ object data v rest, IsText data → parseMembers n object data = some (v, rest) →
      MembersRead object data v rest) ∧
    (∀ array data v rest, IsText data → parseElems n array data = some (v, rest) →
      ElemsRead array data v rest) := by
  induction n with
  | zero => exact ⟨by simp [parseStr], by simp [parseMembers], by simp [parseElems]⟩
  | succ n ih =>
    obtain ⟨ihStr, ihMembers, ihElems⟩ := ih
    refine ⟨fun data v rest hdata h ↦ ?_, fun object data v rest hdata h ↦ ?_,
      fun array data v rest hdata h ↦ ?_⟩
    · have htail : IsText data.tail := hdata.of_suffix (List.tail_suffix data)
      rcases parseStr_some h with ⟨hcur, s, hs, rfl⟩ | ⟨word, hword, rfl⟩ | h | ⟨hcur, h⟩ | ⟨hcur, h⟩
      · obtain ⟨hchars, hrest⟩ := chars_of_extractString htail hs
        rw [eq_cons_of_cur hcur (by decide), hrest]
        exact .string hchars
      · simp only [List.mem_cons, Prod.mk.injEq, List.not_mem_nil, or_false] at hword
        rcases hword with ⟨rfl, rfl⟩ | ⟨rfl, rfl⟩ | ⟨rfl, rfl⟩
        · exact .false
        · exact .true
        · exact .null
      · obtain ⟨t, ht, rfl⟩ := number_of_parseNumber h
        exact .number ht
      · rw [eq_cons_of_cur hcur (by decide)]
        rcases ihMembers _ _ _ _ htail h with ⟨-, rfl, hwhite⟩ | ⟨ms, hms, rfl⟩
        · exact .emptyObject hwhite
        · exact .object hms
      · rw [eq_cons_of_cur hcur (by decide)]
        rcases ihElems _ _ _ _ htail h with ⟨-, rfl, hwhite⟩ | ⟨vs, hvs, rfl⟩
        · exact .emptyArray hwhite
        · exact .array hvs
    · rcases parseMembers_some h with ⟨d, hd, hobject, hclose, rfl, rfl⟩ |
        ⟨d, name, d₁, d₂, d₃, value, d₄, d₅, hd, hquote, hname, hd₂, hcolon, hd₃, hvalue, hd₅, h⟩
      · exact .inl ⟨hobject, rfl, white_of_cur hd hclose (by decide)⟩
      · -- one more member
        have hstart := white_of_cur hd hquote (by decide)
        have htail : IsText d.tail :=
          hdata.of_suffix ((List.suffix_cons _ _).trans hstart.suffix)
        obtain ⟨hchars, hrest⟩ := chars_of_extractString htail hname
        rw [hrest] at hstart
        have hmark := white_of_cur hd₂ hcolon (by decide)
        have hgap := white_of_skipWhitespace hd₃
        have htext₃ : IsText d₃ :=
          hdata.of_suffix (hgap.suffix.trans (suffix_of_name hstart hmark))
        have hvalue := ihStr _ _ _ htext₃ hvalue
        rcases h with ⟨hclose, rfl, rfl⟩ | ⟨hcomma, h⟩
        · exact .inr ⟨_, .last hstart hchars hmark hgap hvalue (white_of_cur hd₅ hclose (by decide)),
            rfl⟩
        · have hnext := white_of_cur hd₅ hcomma (by decide)
          have htext₅ : IsText d₅.tail :=
            htext₃.of_suffix (((List.suffix_cons _ _).trans hnext.suffix).trans hvalue.suffix)
          rcases ihMembers _ _ _ _ htext₅ h with ⟨hnil, -⟩ | ⟨ms, hms, rfl⟩
          · exact absurd hnil (JObject.set_ne_nil _ _ _)
          · exact .inr ⟨_, .cons hstart hchars hmark hgap hvalue hnext hms, rfl⟩
    · rcases parseElems_some h with ⟨d, hd, harray, hclose, rfl, rfl⟩ |
        ⟨d, value, d₁, d₂, hd, hvalue, hd₂, h⟩
      · exact .inl ⟨harray, rfl, white_of_cur hd hclose (by decide)⟩
      · -- one more element
        have hstart := white_of_skipWhitespace hd
        have htext : IsText d := hdata.of_suffix hstart.suffix
        have hvalue := ihStr _ _ _ htext hvalue
        rcases h with ⟨hclose, rfl, rfl⟩ | ⟨hcomma, h⟩
        · exact .inr ⟨_, .last hstart hvalue (white_of_cur hd₂ hclose (by decide)), rfl⟩
        · have hnext := white_of_cur hd₂ hcomma (by decide)
          have htext₂ : IsText d₂.tail :=
            htext.of_suffix (((List.suffix_cons _ _).trans hnext.suffix).trans hvalue.suffix)
          rcases ihElems _ _ _ _ htext₂ h with ⟨hnil, -⟩ | ⟨vs, hvs, rfl⟩
          · exact absurd hnil (by simp)
          · exact .inr ⟨value :: vs, .cons hstart hvalue hnext hvs, by
              rw [List.append_assoc, List.singleton_append]⟩

/-- A text that is read is a JSON text, and it denotes the value that is returned. -/
theorem jsonText_of_parse {text : JString} (htext : IsText text) {v : JValue}
    (h : parse text = some v) : JsonText id Number text v := by
  rw [parse, cString_eq fun c hc ↦ (htext c hc).1] at h
  obtain ⟨d, hd, h⟩ := Option.bind_eq_some_iff.1 h
  obtain ⟨⟨value, rest⟩, hvalue, h⟩ := Option.bind_eq_some_iff.1 h
  have hstart := white_of_skipWhitespace hd
  have hvalue := (parse_sound _).1 _ _ _ (htext.of_suffix hstart.suffix) hvalue
  dsimp only at h
  split at h
  · exact nomatch h
  · rename_i hend
    obtain rfl := Option.some.inj h
    exact ⟨d, rest, hstart, hvalue, skipWhitespace_eq_none.1 hend⟩

end SocketPro.Json
