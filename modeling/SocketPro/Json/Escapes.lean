import SocketPro.Json.RoundTrip

/-!
# Escaping in place

`Escape` and `Unescape` as they run: both edit the string while a position moves over it, and
`Unescape` carries the unit it saw last, through a `char`. Here a loop is a function of the string,
the position and the length that the source keeps beside them.

**What each loop amounts to.** `Escape` is the list function `escape`. `Unescape` drops every unit
that looks like a backslash in its low byte and stands directly before a unit with an escape
(`dropBackslashes`): it decides on the units of the text as given, not on what is left of it.

**Why the round trip fails.** Unescaping an escaped text is the same as unescaping the text itself
(`unescapeInPlace_escape`). The backslashes that `Escape` adds all go, and so does every backslash
of the text that had a unit with an escape behind it: the reader does not leave out the second unit
of a pair when it looks for the next.
-/

namespace SocketPro.Json

/-! ### The loops -/

/-- The loop of `Escape` from the position `pos`. -/
def escapeLoop (escapeForwardslash : Bool) (str : JString) (pos len : ℕ) : JString :=
  if pos < len then
    if isEscaped (str.getD pos 0) || (str.getD pos 0 = code '/' && escapeForwardslash) then
      escapeLoop escapeForwardslash (str.insertIdx pos (code '\\')) (pos + 1 + 1) (len + 1)
    else escapeLoop escapeForwardslash str (pos + 1) len
  else str
termination_by len - pos

/-- `Escape` on a `basic_string`. -/
def escapeInPlace (escapeForwardslash : Bool) (str : JString) : JString :=
  escapeLoop escapeForwardslash str 0 str.length

/-- The units before which `Unescape` takes a backslash away. -/
def isUnescaped (c : ℕ) : Bool := isEscaped c || c = code '/'

/-- The loop of `Unescape` from the position `pos`, behind the unit `prev`. -/
def unescapeLoop (str : JString) (pos len prev : ℕ) : JString :=
  if pos < len then
    if prev = code '\\' ∧ isUnescaped (str.getD pos 0) = true then
      -- the unit at `pos` moves to `pos - 1`, where the loop goes on
      let str := str.eraseIdx (pos - 1)
      unescapeLoop str (pos - 1 + 1) (len - 1) (narrow (str.getD (pos - 1) 0))
    else unescapeLoop str (pos + 1) len (narrow (str.getD pos 0))
  else str
termination_by len - pos

/-- `Unescape` on a `basic_string`. -/
def unescapeInPlace (str : JString) : JString :=
  unescapeLoop str 0 str.length 0

/-! ### What the loops compute -/

/-- The text without the backslashes that `Unescape` takes away. -/
def dropBackslashes : JString → JString
  | [] => []
  | [c] => [c]
  | c :: e :: str =>
    if narrow c = code '\\' ∧ isUnescaped e = true then dropBackslashes (e :: str)
    else c :: dropBackslashes (e :: str)

theorem getD_append_cons (done : JString) (c : ℕ) (rest : JString) :
    (done ++ c :: rest).getD done.length 0 = c := by
  simp

theorem insertIdx_append (done : JString) (c : ℕ) (rest : JString) :
    (done ++ rest).insertIdx done.length c = done ++ c :: rest := by
  induction done with
  | nil => simp
  | cons d done ih => simpa using ih

/-- The invariant of `Escape`: what is behind the position is escaped, what is before it is not. -/
theorem escapeLoop_eq (fwd : Bool) (rest done : JString) :
    escapeLoop fwd (done ++ rest) done.length (done ++ rest).length = done ++ escape fwd rest := by
  induction rest generalizing done with
  | nil =>
    rw [escapeLoop, if_neg (by simp)]
    rfl
  | cons c rest ih =>
    rw [escapeLoop, if_pos (by simp), getD_append_cons, escape]
    split
    · have hdone := ih (done ++ [code '\\', c])
      have hlength : (done ++ c :: rest).length + 1 = (done ++ [code '\\', c] ++ rest).length := by
        simp
        omega
      rw [insertIdx_append, hlength]
      simpa using hdone
    · have hdone := ih (done ++ [c])
      simpa using hdone

/-- `Escape` computes `escape`. -/
theorem escapeInPlace_eq (fwd : Bool) (str : JString) : escapeInPlace fwd str = escape fwd str :=
  escapeLoop_eq fwd str []

theorem eraseIdx_append_cons (done : JString) (p c : ℕ) (rest : JString) :
    (done ++ p :: c :: rest).eraseIdx done.length = done ++ c :: rest := by
  induction done with
  | nil => rfl
  | cons d done ih => simpa using ih

/-- The invariant of `Unescape` behind a unit `p` that is still in the text: the units before `p`
are final, `p` goes when the next unit has an escape. -/
theorem unescapeLoop_eq (rest done : JString) (p : ℕ) :
    unescapeLoop (done ++ p :: rest) (done.length + 1) (done ++ p :: rest).length (narrow p) =
      done ++ dropBackslashes (p :: rest) := by
  induction rest generalizing done p with
  | nil =>
    rw [unescapeLoop, if_neg (by simp)]
    rfl
  | cons c rest ih =>
    have hat : (done ++ p :: c :: rest).getD (done.length + 1) 0 = c := by simp
    rw [unescapeLoop, if_pos (by simp), hat, dropBackslashes]
    split
    · have hdone := ih done c
      have hlength : (done ++ p :: c :: rest).length - 1 = (done ++ c :: rest).length := by simp
      simp only [Nat.add_sub_cancel]
      rw [eraseIdx_append_cons, getD_append_cons, hlength]
      exact hdone
    · have hdone := ih (done ++ [p]) c
      simpa using hdone

/-- `Unescape` computes `dropBackslashes`. -/
theorem unescapeInPlace_eq (str : JString) : unescapeInPlace str = dropBackslashes str := by
  cases str with
  | nil => rw [unescapeInPlace, unescapeLoop, if_neg (by simp), dropBackslashes]
  | cons c str =>
    have hprev : ¬ (0 = code '\\' ∧ isUnescaped ((c :: str).getD 0 0) = true) := by
      rintro ⟨hzero, -⟩
      exact absurd hzero (by decide)
    rw [unescapeInPlace, unescapeLoop, if_pos (by simp), if_neg hprev]
    exact unescapeLoop_eq str [] c

/-! ### The round trip -/

theorem isUnescaped_backslash : isUnescaped (code '\\') = true := by decide

theorem narrow_backslash : narrow (code '\\') = code '\\' := by decide

/-- What `Escape` puts before the first unit `e` of a text does not change what becomes of the unit
before `e`: a backslash has an escape itself. -/
theorem dropBackslashes_cons_escape (fwd : Bool) (str : JString) (c : ℕ) :
    dropBackslashes (c :: escape fwd str) = dropBackslashes (c :: str) := by
  induction str generalizing c with
  | nil => rfl
  | cons e str ih =>
    rw [escape]
    split
    · rename_i hescaped
      have he : isUnescaped e = true := by
        rw [isUnescaped]
        rcases Bool.or_eq_true _ _ ▸ hescaped with h | h
        · simp [h]
        · simp [(Bool.and_eq_true _ _ ▸ h).1]
      have hadded : dropBackslashes (code '\\' :: e :: escape fwd str) =
          dropBackslashes (e :: str) := by
        rw [dropBackslashes, if_pos ⟨narrow_backslash, he⟩, ih]
      rw [dropBackslashes, hadded, dropBackslashes, he, isUnescaped_backslash]
    · rw [dropBackslashes, dropBackslashes, ih]

/-- **Unescaping an escaped text unescapes the text.** -/
theorem unescapeInPlace_escape (fwd : Bool) (str : JString) :
    unescapeInPlace (escapeInPlace fwd str) = unescapeInPlace str := by
  rw [escapeInPlace_eq, unescapeInPlace_eq, unescapeInPlace_eq]
  have hall := dropBackslashes_cons_escape fwd str 0
  have hzero (s : JString) : dropBackslashes (0 :: s) = 0 :: dropBackslashes s := by
    cases s with
    | nil => rfl
    | cons e s => rw [dropBackslashes, if_neg (fun h ↦ absurd h.1 (by decide))]
  rw [hzero, hzero] at hall
  exact List.tail_eq_of_cons_eq hall

/-- No unit that is a backslash in its low byte stands directly before a unit with an escape. -/
def Settled (str : JString) : Prop :=
  str.IsChain fun c e ↦ ¬ (narrow c = code '\\' ∧ isUnescaped e = true)

theorem dropBackslashes_length_le (str : JString) :
    (dropBackslashes str).length ≤ str.length := by
  fun_induction dropBackslashes str with
  | case1 => simp
  | case2 c => simp
  | case3 c e str hdrop ih => exact ih.trans (by simp)
  | case4 c e str hkeep ih => simpa using ih

/-- Nothing is taken away from a text exactly if it is settled. -/
theorem dropBackslashes_eq_self_iff (str : JString) : dropBackslashes str = str ↔ Settled str := by
  fun_induction dropBackslashes str with
  | case1 => simp [Settled]
  | case2 c => simp [Settled]
  | case3 c e str hdrop ih =>
    constructor
    · intro hself
      have hshort := dropBackslashes_length_le (e :: str)
      have hlength := congrArg List.length hself
      rw [List.length_cons] at hlength
      omega
    · intro hsettled
      exact absurd hdrop (List.isChain_cons_cons.1 hsettled).1
  | case4 c e str hkeep ih =>
    rw [List.cons_inj_right, ih, Settled, Settled, List.isChain_cons_cons]
    exact (and_iff_right hkeep).symm

/-- The round trip of a `basic_string`, zeros included. -/
theorem unescapeInPlace_escapeInPlace_iff (escapeForwardslash : Bool) (str : JString) :
    unescapeInPlace (escapeInPlace escapeForwardslash str) = str ↔ Settled str := by
  rw [unescapeInPlace_escape, unescapeInPlace_eq, dropBackslashes_eq_self_iff]

/-! ### The functions on C strings -/

/-- `s.assign(str)` unless `str` is null. -/
def assigned : Option JString → JString
  | none => []
  | some str => cString str

/-- `Escape` on a `const TChar*`. -/
def escapeText (escapeForwardslash : Bool) (str : Option JString) : JString :=
  escapeInPlace escapeForwardslash (assigned str)

/-- `Unescape` on a `const TChar*`. -/
def unescapeText (str : Option JString) : JString :=
  unescapeInPlace (assigned str)

theorem nulFree_escapeInPlace {str : JString} (hstr : NulFree str) (escapeForwardslash : Bool) :
    NulFree (escapeInPlace escapeForwardslash str) := by
  rw [escapeInPlace_eq]
  exact nulFree_escape hstr escapeForwardslash

/-- **The round trip of a text.** With either setting, and through either pair of functions, a
NUL-free text comes back exactly if it is settled. -/
theorem unescape_escape_iff {str : JString} (hstr : NulFree str) (escapeForwardslash : Bool) :
    (unescapeInPlace (escapeInPlace escapeForwardslash str) = str ↔ Settled str) ∧
      (unescapeText (some (escapeText escapeForwardslash (some str))) = str ↔ Settled str) := by
  have hround := unescapeInPlace_escapeInPlace_iff escapeForwardslash str
  refine ⟨hround, ?_⟩
  rw [unescapeText, escapeText, assigned, assigned, cString_eq hstr,
    cString_eq (nulFree_escapeInPlace hstr _)]
  exact hround

/-- A text with a quote and a solidus, both escaped and unescaped again. -/
theorem unescape_escape_quote_solidus :
    (unescapeInPlace (escapeInPlace true [code 'a', code '"', code '/']) =
        [code 'a', code '"', code '/'] ↔ Settled [code 'a', code '"', code '/']) ∧
      (unescapeText (some (escapeText true (some [code 'a', code '"', code '/']))) =
        [code 'a', code '"', code '/'] ↔ Settled [code 'a', code '"', code '/']) :=
  @unescape_escape_iff [code 'a', code '"', code '/'] (by decide) true

/-- **A backslash before a quote is lost.** The text is escaped to three backslashes and the quote,
and all three of them are taken away again. -/
theorem unescape_escape_backslash_quote :
    NulFree [code '\\', code '"'] ∧
      escapeInPlace false [code '\\', code '"'] = [code '\\', code '\\', code '\\', code '"'] ∧
      unescapeInPlace (escapeInPlace false [code '\\', code '"']) = [code '"'] ∧
      ¬ ∀ (str : JString) (escapeForwardslash : Bool), NulFree str →
        unescapeInPlace (escapeInPlace escapeForwardslash str) = str := by
  have hlost : unescapeInPlace (escapeInPlace false [code '\\', code '"']) = [code '"'] := by
    rw [unescapeInPlace_escape, unescapeInPlace_eq]
    decide
  refine ⟨by decide, ?_, hlost, fun hall ↦ ?_⟩
  · rw [escapeInPlace_eq]
    decide
  · exact absurd (hlost.symm.trans (hall _ false (by decide))) (by decide)

end SocketPro.Json
