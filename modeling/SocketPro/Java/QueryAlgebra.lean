import SocketPro.Java.Queries

/-!
# The query algebra of a Java table

`In`, `NotIn`, `Find` and `Between` of a table that `AddRows` has filled, for values that `ChangeType`
converts. `Fits` says that no comparison and no copy throws; the queries obey `QueryAlgebra` exactly
then (`java_query_algebra_iff`).
-/

namespace SocketPro.Java

section Column

variable {l : Library} {c : Copies} {copyData : Bool} {s s' : Tables} {n DataType : ℕ}
  {v w a b : Obj} {vs ws : List Obj} {op : Operator}

/-! ### The algebra -/

/-- **The query algebra**, for a list of values: `In` and `NotIn` split the rows that are not null in
the column, `Find` for equal and not equal is `In` and `NotIn` of the value, and `Between` has the rows
between its bounds, in either order. All of them return, and the table that is asked stays as it is. -/
structure QueryAlgebra (l : Library) (c : Copies) (copyData : Bool) (s : Tables) (n DataType : ℕ)
    (vs : List Obj) : Prop where
  split : ∃ p : Row → Bool,
    Selects c copyData s ((In l c copyData s n (some vs)).map Prod.fst)
      (fun r ↦ decide (cell n r ≠ .null) && p r) ∧
    Selects c copyData s ((NotIn l c copyData s n (some vs)).map Prod.fst)
      (fun r ↦ decide (cell n r ≠ .null) && !p r)
  find : ∀ v ∈ vs, ∀ op, op ≠ .is_null → ∃ p, Selects c copyData s (Find l c copyData s n op v) p
  equal : ∀ v ∈ vs,
    Find l c copyData s n .equal v = (In l c copyData s n (some [v])).map Prod.fst
  not_equal : ∀ v ∈ vs,
    Find l c copyData s n .not_equal v = (NotIn l c copyData s n (some [v])).map Prod.fst
  between : ∀ a ∈ vs, ∀ b ∈ vs,
    Between l c copyData s n a b = Between l c copyData s n b a ∧ ∃ p q,
      Selects c copyData s (Find l c copyData s n .great_equal (smaller l s DataType a b)) p ∧
      Selects c copyData s (Find l c copyData s n .less_equal (greater l s DataType a b)) q ∧
      Selects c copyData s (Between l c copyData s n a b) fun r ↦ p r && q r

theorem Fits.mono (h : Fits c copyData s n ws) {ws' : List Obj} (hsub : ∀ w ∈ ws', w ∈ ws) :
    Fits c copyData s n ws' :=
  ⟨h.prepared, h.copied, fun w hw ↦ h.nulls w (hsub w hw), fun w hw ↦ h.cells w (hsub w hw),
    fun w hw w' hw' ↦ h.values w (hsub w hw) w' (hsub w' hw')⟩

theorem map_fst_select {p : Row → Bool} {β : Type} (b : β) :
    ((select c copyData s p).map fun r ↦ (r, b)).map Prod.fst = select c copyData s p := by
  cases select c copyData s p <;> rfl

theorem ne_null_of_passes {r : Row} (h : passes l s n op w r = true) : cell n r ≠ .null :=
  of_decide_eq_true ((Bool.and_eq_true _ _).mp h).1

theorem Fits.find_selects (hprepare : prepare c copyData s = some s') (hs : s'.source = s.source)
    (hcolumn : ComparedColumn s.source n DataType) (hvs : ∀ v ∈ vs, Converts l DataType v)
    (hfits : Fits c copyData s n (vs.map (converted l DataType))) (hv : v ∈ vs)
    (hop : op ≠ .is_null) : Selects c copyData s (Find l c copyData s n op v)
      (passes l s n op (converted l DataType v)) := by
  rw [Find_eq hprepare hs hcolumn (hvs v hv) hfits (List.mem_map_of_mem hv) hop]
  exact select_selects hs fun r hr hp ↦ hfits.copied r hr (ne_null_of_passes hp)

theorem Fits.between_comm (hprepare : prepare c copyData s = some s') (hs : s'.source = s.source)
    (hcolumn : ComparedColumn s.source n DataType) (hvs : ∀ v ∈ vs, Converts l DataType v)
    (hfits : Fits c copyData s n (vs.map (converted l DataType))) (ha : a ∈ vs) (hb : b ∈ vs)
    (hcomparable : ∀ v ∈ vs, (converted l DataType v).Comparable) :
    Between l c copyData s n a b = Between l c copyData s n b a := by
  rw [Between_eq hprepare hs hcolumn hvs hfits ha hb (hcomparable a ha),
    Between_eq hprepare hs hcolumn hvs hfits hb ha (hcomparable b hb)]
  have hgt {v w : Obj} (hv : v ∈ vs) (hw : w ∈ vs) :
      gt l s.source.m_bDataCaseSensitive (converted l DataType v) (converted l DataType w) =
        some (if (related l s.source.m_bDataCaseSensitive (converted l DataType v)
          (converted l DataType w)).after = true then 1 else 0) := by
    obtain ⟨t, ht, hbytes⟩ := hcomparable v hv
    have hw' := hfits.values _ (List.mem_map_of_mem hw) _ (List.mem_map_of_mem hv)
    have hcompare : Java.compareBy l s.source.m_bDataCaseSensitive .great (converted l DataType v)
        (converted l DataType w) = _ := compareBy_of_type (by decide) ht (hw'.trans ht) hbytes
    exact hcompare
  unfold smaller greater
  rw [hgt ha hb, hgt hb ha]
  cases hab : (related l s.source.m_bDataCaseSensitive (converted l DataType a)
      (converted l DataType b)).after with
  | true => rw [related_after_asymm hab]; rfl
  | false =>
    cases hba : (related l s.source.m_bDataCaseSensitive (converted l DataType b)
        (converted l DataType a)).after with
    | true => rfl
    | false =>
      refine select_congr fun r _ ↦ ?_
      exact Bool.eq_iff_iff.2 ⟨passes_swap hab hba, passes_swap hba hab⟩

/-- **Where nothing throws**, the queries obey the algebra. -/
theorem Fits.queryAlgebra (hcolumn : ComparedColumn s.source n DataType)
    (hvs : ∀ v ∈ vs, Converts l DataType v)
    (hcomparable : ∀ v ∈ vs, (converted l DataType v).Comparable)
    (hfits : Fits c copyData s n (vs.map (converted l DataType))) :
    QueryAlgebra l c copyData s n DataType vs := by
  obtain ⟨s', hprepare, hs⟩ := prepare_ok hfits.prepared
  have hone {v : Obj} (hv : v ∈ vs) : Fits c copyData s n ([v].map (converted l DataType)) :=
    hfits.mono fun w hw ↦ by
      obtain rfl : w = converted l DataType v := by simpa using hw
      exact List.mem_map_of_mem hv
  have hvs' {v : Obj} (hv : v ∈ vs) : ∀ u ∈ [v], Converts l DataType u := fun u hu ↦ by
    rw [List.mem_singleton.1 hu]
    exact hvs v hv
  refine ⟨⟨fun r ↦ (vs.map (converted l DataType)).any fun w ↦ passes l s n .equal w r, ?_, ?_⟩,
    fun v hv op hop ↦ ⟨_, hfits.find_selects hprepare hs hcolumn hvs hv hop⟩, fun v hv ↦ ?_,
    fun v hv ↦ ?_, fun a ha b hb ↦ ⟨hfits.between_comm hprepare hs hcolumn hvs ha hb hcomparable, ?_⟩⟩
  · rw [In_eq hprepare hs hcolumn hvs hfits, map_fst_select]
    exact select_selects hs fun r hr hp ↦
      hfits.copied r hr (of_decide_eq_true ((Bool.and_eq_true _ _).mp hp).1)
  · rw [NotIn_eq hprepare hs hcolumn hvs hfits, map_fst_select]
    exact select_selects hs fun r hr hp ↦
      hfits.copied r hr (of_decide_eq_true ((Bool.and_eq_true _ _).mp hp).1)
  · rw [Find_eq hprepare hs hcolumn (hvs v hv) hfits (List.mem_map_of_mem hv) (by decide),
      In_eq hprepare hs hcolumn (hvs' hv) (hone hv), map_fst_select]
    refine select_congr fun r _ ↦ ?_
    by_cases hnull : cell n r = .null <;> simp [passes, hnull]
  · rw [Find_eq hprepare hs hcolumn (hvs v hv) hfits (List.mem_map_of_mem hv) (by decide),
      NotIn_eq hprepare hs hcolumn (hvs' hv) (hone hv), map_fst_select]
    refine select_congr fun r _ ↦ ?_
    by_cases hnull : cell n r = .null <;> simp [passes, hnull, Operator.holds]
  · have hmem (p : Prop) [Decidable p] : (if p then b else a) ∈ vs ∧ (if p then a else b) ∈ vs := by
      split_ifs
      · exact ⟨hb, ha⟩
      · exact ⟨ha, hb⟩
    have hsmaller : smaller l s DataType a b ∈ vs := (hmem _).1
    have hgreater : greater l s DataType a b ∈ vs := (hmem _).2
    refine ⟨_, _, hfits.find_selects hprepare hs hcolumn hvs hsmaller (by decide),
      hfits.find_selects hprepare hs hcolumn hvs hgreater (by decide), ?_⟩
    rw [Between_eq hprepare hs hcolumn hvs hfits ha hb (hcomparable a ha)]
    exact select_selects hs fun r hr hp ↦
      hfits.copied r hr (ne_null_of_passes ((Bool.and_eq_true _ _).mp hp).1)

/-! ### Nothing throws -/

theorem source_of_fill {verdict : Row → Option Verdict} {res : ℤ}
    (h : fill c copyData s verdict = some (res, s')) : s'.source = s.source := by
  obtain ⟨⟨res, vRow⟩, -, h⟩ := Option.bind_eq_some_iff.1 h
  cases h
  rfl

theorem source_of_queryValues {isChosen : Obj → List Obj → Option Bool} {ordinal : ℤ}
    {vArray rest : Option (List Obj)} {res : ℤ}
    (h : queryValues l c copyData isChosen s ordinal vArray = some ((res, s'), rest)) :
    ∃ s₀, prepare c copyData s = some s₀ ∧ s'.source = s₀.source := by
  obtain ⟨s₀, hprepare, h⟩ := Option.bind_eq_some_iff.1 h
  refine ⟨s₀, hprepare, ?_⟩
  split_ifs at h
  · cases h
    rfl
  cases vArray with
  | none =>
    cases h
    rfl
  | some vArray =>
    obtain ⟨col, -, h⟩ := Option.bind_eq_some_iff.1 h
    obtain ⟨⟨all, vArray'⟩, -, h⟩ := Option.bind_eq_some_iff.1 h
    dsimp only at h
    split_ifs at h
    · obtain ⟨⟨res, s''⟩, hfill, h⟩ := Option.bind_eq_some_iff.1 h
      cases h
      exact source_of_fill hfill
    · cases h
      rfl

/-- Where `In` of a value returns, it could compare the value with every cell. -/
theorem eq_of_In (hprepare : prepare c copyData s = some s') (hs : s'.source = s.source)
    (hcolumn : ComparedColumn s.source n DataType) (hv : Converts l DataType v) {s'' : Tables}
    (h : (In l c copyData s n (some [v])).map Prod.fst = some (1, s'')) :
    ∀ r ∈ s.source.m_vRow,
      ∃ m, eq l s.source.m_bDataCaseSensitive (converted l DataType v) (cell n r) = some m := by
  have hvs : ∀ u ∈ [v], Converts l DataType u := fun u hu ↦ by
    rw [List.mem_singleton.1 hu]
    exact hv
  rw [In, queryValues_eq_fill hprepare hs hcolumn hvs, Option.map_map] at h
  obtain ⟨answer, hfill, hanswer⟩ := Option.map_eq_some_iff.1 h
  obtain rfl : answer = (1, s'') := hanswer
  have hjudged := (judged_of_fill hfill fun r hr res hstop ↦ ?_).2
  · intro r hr
    rw [hs] at hjudged
    obtain ⟨ok, hok⟩ := hjudged r hr
    rw [hcolumn.cells r hr, Option.bind_eq_bind, Option.bind_some] at hok
    obtain ⟨chosen, hchosen, -⟩ := Option.bind_eq_some_iff.1 hok
    obtain ⟨m, hm, -⟩ := Option.bind_eq_some_iff.1 hchosen
    exact ⟨m, hm⟩
  · -- the loop of `In` never returns early
    obtain ⟨v0, -, hstop⟩ := Option.bind_eq_some_iff.1 hstop
    obtain ⟨chosen, -, hstop⟩ := Option.bind_eq_some_iff.1 hstop
    cases chosen <;> cases hstop

theorem gt_of_Between (hprepare : prepare c copyData s = some s') (hs : s'.source = s.source)
    (hcolumn : ComparedColumn s.source n DataType) (ha : Converts l DataType a)
    (hb : Converts l DataType b) {answer : ℤ × Tables}
    (h : Between l c copyData s n a b = some answer) : ∃ m,
      gt l s.source.m_bDataCaseSensitive (converted l DataType a) (converted l DataType b) = some m := by
  obtain ⟨col, hcol, rfl⟩ := hcolumn.dataType
  have hordinal := not_badOrdinal (hcolumn.of_source hs)
  rw [Between, hprepare, Option.bind_eq_bind, Option.bind_some, if_neg hordinal,
    if_neg (not_or.2 ⟨ha.ne_null, hb.ne_null⟩), hs, Int.toNat_natCast, hcol, Option.bind_eq_bind,
    Option.bind_some] at h
  dsimp only at h
  rw [ha.changeType, Option.bind_eq_bind, Option.bind_some, if_neg ha.converted_ne_null,
    hb.changeType, Option.bind_eq_bind, Option.bind_some, if_neg hb.converted_ne_null] at h
  obtain ⟨m, hm, -⟩ := Option.bind_eq_some_iff.1 h
  exact ⟨m, hm⟩

/-- **Where the queries obey the algebra**, nothing throws. -/
theorem QueryAlgebra.fits (h : QueryAlgebra l c copyData s n DataType vs)
    (hcolumn : ComparedColumn s.source n DataType) (hvs : ∀ v ∈ vs, Converts l DataType v)
    (hcomparable : ∀ v ∈ vs, (converted l DataType v).Comparable) :
    Fits c copyData s n (vs.map (converted l DataType)) := by
  obtain ⟨p, ⟨sIn, hIn, hsource, hcopies⟩, ⟨sNotIn, -, -, hcopies'⟩⟩ := h.split
  have hprepared : Prepared c copyData s := by
    obtain ⟨⟨⟨res, s'⟩, rest⟩, hquery, hfst⟩ := Option.map_eq_some_iff.1 hIn
    cases hfst
    obtain ⟨s₀, hprepare, hs₀⟩ := source_of_queryValues hquery
    exact prepared_of_source hprepare (hs₀.symm.trans hsource)
  obtain ⟨s', hprepare, hs⟩ := prepare_ok hprepared
  have heq {v : Obj} (hv : v ∈ vs) : ∀ r ∈ s.source.m_vRow,
      ∃ m, eq l s.source.m_bDataCaseSensitive (converted l DataType v) (cell n r) = some m := by
    obtain ⟨q, s'', hfind, -⟩ := h.find v hv .equal (by decide)
    exact eq_of_In hprepare hs hcolumn (hvs v hv) ((h.equal v hv).symm.trans hfind)
  have hmem {P : Obj → Prop} (hP : ∀ v ∈ vs, P (converted l DataType v)) :
      ∀ w ∈ vs.map (converted l DataType), P w := fun w hw ↦ by
    obtain ⟨v, hv, rfl⟩ := List.mem_map.1 hw
    exact hP v hv
  refine ⟨hprepared, fun r hr hnull ↦ ?_, hmem fun v hv r hr hnull ↦ ?_,
    hmem fun v hv r hr hnull ↦ ?_, hmem fun a ha ↦ hmem fun b hb ↦ ?_⟩
  · cases hp : p r with
    | true => exact isSome_of_mapM hcopies r (List.mem_filter.2 ⟨hr, by simp [hnull, hp]⟩)
    | false => exact isSome_of_mapM hcopies' r (List.mem_filter.2 ⟨hr, by simp [hnull, hp]⟩)
  · obtain ⟨t, ht, hbytes⟩ := hcomparable v hv
    obtain ⟨m, hm⟩ := heq hv r hr
    rw [hnull, eq_null ht hbytes] at hm
    split_ifs at hm with htimestamp
    rw [ht, htimestamp]
  · obtain ⟨t, ht, hbytes⟩ := hcomparable v hv
    obtain ⟨t', ht', -⟩ := hcolumn.comparable r hr hnull
    obtain ⟨m, hm⟩ := heq hv r hr
    have hcompare : compareBy l s.source.m_bDataCaseSensitive .equal _ (cell n r) = some m := hm
    rw [ht, ht', type_of_compareBy (by decide) ht ht' hbytes hcompare]
  · obtain ⟨t, ht, hbytes⟩ := hcomparable a ha
    obtain ⟨t', ht', -⟩ := hcomparable b hb
    obtain ⟨-, -, -, -, -, s'', hbetween, -⟩ := h.between a ha b hb
    obtain ⟨m, hm⟩ := gt_of_Between hprepare hs hcolumn (hvs a ha) (hvs b hb) hbetween
    have hcompare : compareBy l s.source.m_bDataCaseSensitive .great _ _ = some m := hm
    rw [ht, ht', type_of_compareBy (by decide) ht ht' hbytes hcompare]

end Column

/-! ### Tables that are filled by `AddRows` -/

section Filled

variable {l : Library}

/-- A table of the cache, with the option that it has besides. -/
def CTable.table (t : CTable) (bFieldNameCaseSensitive : Bool) : Table :=
  ⟨t.m_meta, t.m_vRow, bFieldNameCaseSensitive, t.m_bDataCaseSensitive⟩

/-- Tables that were filled by calls of `AddRows`, all of which returned. -/
inductive CTable.Filled (l : Library) : CTable → Prop
  | empty {t : CTable} (h : t.m_vRow = []) : Filled l t
  | addRows {t t' : CTable} {v : List Obj} {n : ℤ} (h : Filled l t)
      (hadd : t.addRows l v = some (n, t')) : Filled l t'

namespace CTable

variable {t t' : CTable}

/-- The cells of a row have come from `ChangeType`. -/
def Typed (l : Library) (t : CTable) (r : Row) : Prop :=
  ∀ i v, r[i]? = some v → ∃ u, t.changeType l u i = some v

/-- A row with a cell for every column. -/
def Complete (l : Library) (t : CTable) (r : Row) : Prop :=
  r.length = t.m_meta.length ∧ t.Typed l r

/-- The rows while `AddRows` is at the value with the number `n`: the last one has been begun. -/
def Begun (l : Library) (t : CTable) (n : ℕ) (vRow : List Row) : Prop :=
  ∃ rows last, vRow = rows ++ last ∧ (∀ r ∈ rows, t.Complete l r) ∧
    if n % t.m_meta.length = 0 then last = []
    else ∃ r, last = [r] ∧ r.length = n % t.m_meta.length ∧ t.Typed l r

theorem Typed.concat {r : Row} {u v : Obj} (h : t.Typed l r) (hv : t.changeType l u r.length = some v) :
    t.Typed l (r ++ [v]) := by
  intro i w hw
  rcases Nat.lt_or_ge i r.length with hi | hi
  · rw [List.getElem?_append_left hi] at hw
    exact h i w hw
  · rw [List.getElem?_append_right hi] at hw
    obtain ⟨hlt, hw⟩ := List.getElem?_eq_some_iff.1 hw
    obtain rfl : i = r.length := by
      rw [List.length_singleton] at hlt
      omega
    exact ⟨u, by rw [hv, ← hw]; simp⟩

/-- One more cell. -/
theorem begun_concat {n : ℕ} {rows : List Row} {r : Row} {u v : Obj}
    (hrows : ∀ r ∈ rows, t.Complete l r) (hlen : r.length = n % t.m_meta.length) (hr : t.Typed l r)
    (hv : t.changeType l u (n % t.m_meta.length) = some v) :
    t.Begun l (n + 1) (rows ++ [r ++ [v]]) := by
  have hpos := t.columns_pos
  have hlt := Nat.mod_lt n hpos
  have htyped := hr.concat (hlen ▸ hv)
  have hnext : (n + 1) % t.m_meta.length = (n % t.m_meta.length + 1) % t.m_meta.length :=
    (Nat.mod_add_mod ..).symm
  by_cases hfull : n % t.m_meta.length + 1 = t.m_meta.length
  · refine ⟨rows ++ [r ++ [v]], [], (List.append_nil _).symm, fun x hx ↦ ?_, ?_⟩
    · rcases List.mem_append.1 hx with hx | hx
      · exact hrows x hx
      · rw [List.mem_singleton.1 hx]
        exact ⟨by rw [List.length_append, List.length_singleton, hlen, hfull], htyped⟩
    · rw [if_pos (by rw [hnext, hfull, Nat.mod_self])]
  · have hmod : (n + 1) % t.m_meta.length = n % t.m_meta.length + 1 := by
      rw [hnext, Nat.mod_eq_of_lt (by omega)]
    refine ⟨rows, [r ++ [v]], rfl, hrows, ?_⟩
    rw [hmod, if_neg (Nat.succ_ne_zero _)]
    exact ⟨_, rfl, by rw [List.length_append, List.length_singleton, hlen], htyped⟩

/-- **One value** is added. -/
theorem begun_addValue {n : ℕ} {vRow : List Row} {u v : Obj} (h : t.Begun l n vRow)
    (hv : t.changeType l u (n % t.m_meta.length) = some v) :
    t.Begun l (n + 1) (if n % t.m_meta.length = 0 then vRow ++ [[v]]
      else vRow.modifyLast fun r ↦ r ++ [v]) := by
  obtain ⟨rows, last, rfl, hrows, hlast⟩ := h
  split_ifs at hlast ⊢ with hfirst
  · rw [hlast, List.append_nil]
    exact begun_concat (r := []) hrows hfirst.symm (fun i w hw ↦ nomatch hw) hv
  · obtain ⟨r, rfl, hlen, hr⟩ := hlast
    rw [List.modifyLast_concat]
    exact begun_concat hrows hlen hr hv

theorem begun_addValues {vs : List Obj} {n : ℕ} {vRow vRow' : List Row} (h : t.Begun l n vRow)
    (hadd : t.addValues l vs n vRow = some vRow') : t.Begun l (n + vs.length) vRow' := by
  induction vs generalizing n vRow with
  | nil =>
    cases hadd
    exact h
  | cons v vs ih =>
    obtain ⟨obj, hobj, hadd⟩ := Option.bind_eq_some_iff.1 hadd
    rw [List.length_cons, Nat.add_comm vs.length, ← Nat.add_assoc]
    exact ih (begun_addValue h hobj) hadd

/-- **Every row has a cell for every column**, and the cells are what `ChangeType` made. -/
theorem Filled.complete (h : t.Filled l) : ∀ r ∈ t.m_vRow, t.Complete l r := by
  induction h with
  | empty h =>
    rw [h]
    exact fun r hr ↦ nomatch hr
  | @addRows t t' v n _ hadd ih =>
    rw [CTable.addRows] at hadd
    split_ifs at hadd with hmod
    · cases hadd
      exact ih
    · obtain ⟨vRow, hvRow, hadd⟩ := Option.bind_eq_some_iff.1 hadd
      cases hadd
      have hbegun := begun_addValues (n := 0)
        ⟨t.m_vRow, [], (List.append_nil _).symm, ih, by rw [Nat.zero_mod, if_pos rfl]⟩ hvRow
      obtain ⟨rows, last, hrows, hcomplete, hlast⟩ := hbegun
      rw [Nat.zero_add, if_pos (by omega)] at hlast
      rw [hlast, List.append_nil] at hrows
      intro r hr
      exact hcomplete r (hrows ▸ hr)

end CTable

theorem comparable_of_changeType {DataType : ℕ} {type : ColumnType}
    (htype : columnType DataType = some type) (hcomparable : type ≠ .bytes) {u w : Obj}
    (h : ChangeType l u DataType = some w) (hw : w ≠ .null) : w.Comparable := by
  by_cases hu : u = .null
  · rw [ChangeType, if_pos hu] at h
    exact absurd (Option.some.inj h).symm hw
  rw [ChangeType_eq hu htype] at h
  rcases type_of_changeTo h with hnull | hof | ⟨hboolean, rfl⟩
  · exact absurd hnull hw
  · exact ⟨type, hof, hcomparable⟩
  · cases u with
    | boolean b =>
      cases h
      exact ⟨.byte, rfl, by decide⟩
    | _ => cases hboolean

/-- The two types of texts are one. -/
theorem columnType_queryType (DataType : ℕ) : columnType (queryType DataType) = columnType DataType := by
  unfold queryType
  split_ifs with h
  · rw [h]
    rfl
  · rfl

/-- A column of a table that was filled. -/
theorem CTable.Filled.comparedColumn {t : CTable} (h : t.Filled l) {n : ℕ} {col : CDBColumnInfo}
    (hcol : t.m_meta[n]? = some col) {type : ColumnType} (htype : columnType col.DataType = some type)
    (hcomparable : type ≠ .bytes) (bFieldNameCaseSensitive : Bool) :
    ComparedColumn (t.table bFieldNameCaseSensitive) n col.DataType := by
  have hcell {r : Row} (hr : r ∈ t.m_vRow) : r[n]? = some (cell n r) := by
    have hlt : n < r.length := by
      rw [(h.complete r hr).1]
      exact (List.getElem?_eq_some_iff.1 hcol).1
    rw [cell, List.getD_eq_getElem?_getD, List.getElem?_eq_getElem hlt]
    rfl
  refine ⟨⟨col, hcol, rfl⟩, fun r hr ↦ hcell hr, fun r hr hnull ↦ ?_⟩
  obtain ⟨u, hu⟩ := (h.complete r hr).2 n _ (hcell hr)
  rw [CTable.changeType, hcol, Option.bind_eq_bind, Option.bind_some] at hu
  exact comparable_of_changeType htype hcomparable hu hnull

/-- **When the queries obey the algebra**: of every table that was filled, in every comparable column
and for every list of values that are converted, exactly where no comparison and no copy throws. -/
theorem java_query_algebra_iff (l : Library) (c : Copies) (copyData : Bool) {t : CTable} (ht : t.Filled l)
    {n : ℕ} {col : CDBColumnInfo} (hcol : t.m_meta[n]? = some col) {type : ColumnType}
    (htype : columnType col.DataType = some type) (hcomparable : type ≠ .bytes)
    (bFieldNameCaseSensitive : Bool) (tbl : Table) (shared : Bool) {vs : List Obj}
    (hvs : ∀ v ∈ vs, Converts l col.DataType v) :
    QueryAlgebra l c copyData ⟨t.table bFieldNameCaseSensitive, tbl, shared⟩ n col.DataType vs ↔
      Fits c copyData ⟨t.table bFieldNameCaseSensitive, tbl, shared⟩ n
        (vs.map (converted l col.DataType)) := by
  have hcolumn := ht.comparedColumn hcol htype hcomparable bFieldNameCaseSensitive
  have hvalues : ∀ v ∈ vs, (converted l col.DataType v).Comparable := fun v hv ↦
    comparable_of_changeType ((columnType_queryType col.DataType).trans htype) hcomparable
      (hvs v hv).changeType (hvs v hv).converted_ne_null
  exact ⟨fun h ↦ h.fits hcolumn hvs hvalues, fun h ↦ h.queryAlgebra hcolumn hvs hvalues⟩

end Filled

/-! ### Null cells and Booleans -/

/-- A table with a key and another column. -/
def twoColumns (DataType : ℕ) (rows : List Row) : CTable where
  m_meta := [⟨[], [], FLAG_PRIMARY_KEY, sdVT_I4⟩, ⟨[], [], 0, DataType⟩]
  m_vRow := rows
  m_bDataCaseSensitive := true
  one_or_two := by
    simp [keysFrom, CDBColumnInfo.isKey, FLAG_PRIMARY_KEY, FLAG_AUTOINCREMENT]

/-- The table is asked, and another one is filled. -/
def asked (t : CTable) : Tables := ⟨t.table false, ⟨[], [], false, false⟩, false⟩

/-- Copies that are the same. -/
def sameCopies : Copies := ⟨some, some⟩

theorem java_query_algebra_iff_scores :
    QueryAlgebra plainLibrary sameCopies true
      (asked (twoColumns sdVT_I4 [[.int 1, .int 5], [.int 2, .int 7]])) 1 sdVT_I4 [.int 5, .int 6] := by
  have htype : columnType sdVT_I4 = some .int := rfl
  refine (java_query_algebra_iff plainLibrary sameCopies true
    (.addRows (t := twoColumns sdVT_I4 []) (v := [.int 1, .int 5, .int 2, .int 7]) (n := 2)
      (.empty rfl) rfl) (n := 1) rfl htype (by decide) false _ false ?_).2 ?_
  · intro v hv
    obtain rfl | rfl : v = .int 5 ∨ v = .int 6 := by simpa using hv
    · exact ⟨by decide, rfl, by decide⟩
    · exact ⟨by decide, rfl, by decide⟩
  · exact ⟨fun _ ↦ ⟨_, rfl, fun h ↦ nomatch h⟩, by decide, by decide, by decide, by decide⟩

/-- `In` throws for a null cell in a column of integers, and `Find` for a `Boolean` that `AddRows` has
made a `Byte`, where it is asked for another value. -/
theorem null_cell_throws :
    (let t := twoColumns sdVT_I4 [[.int 1, .null], [.int 2, .int 5]]
    t.Filled plainLibrary ∧ Converts plainLibrary sdVT_I4 (.int 5) ∧
      In plainLibrary sameCopies false (asked t) 1 (some [.int 5]) = none ∧
      ¬ QueryAlgebra plainLibrary sameCopies false (asked t) 1 sdVT_I4 [.int 5]) ∧
    (let t := twoColumns sdVT_BOOL [[.int 1, .byte 1]]
    t.Filled plainLibrary ∧ Converts plainLibrary sdVT_BOOL (.int 1) ∧
      Find plainLibrary sameCopies false (asked t) 1 .equal (.int 1) = none ∧
      ¬ QueryAlgebra plainLibrary sameCopies false (asked t) 1 sdVT_BOOL [.int 1]) := by
  refine ⟨⟨.addRows (t := twoColumns sdVT_I4 []) (v := [.int 1, .null, .int 2, .int 5]) (n := 2)
    (.empty rfl) rfl, ⟨by decide, rfl, by decide⟩, by decide, fun h ↦ ?_⟩,
    .addRows (t := twoColumns sdVT_BOOL []) (v := [.int 1, .boolean true]) (n := 1) (.empty rfl) rfl,
    ⟨by decide, rfl, by decide⟩, by decide, fun h ↦ ?_⟩
  · obtain ⟨p, ⟨s', hIn, -⟩, -⟩ := h.split
    have hnone : In plainLibrary sameCopies false
      (asked (twoColumns sdVT_I4 [[.int 1, .null], [.int 2, .int 5]])) 1 (some [.int 5]) = none := by
      decide
    rw [Nat.cast_one, hnone] at hIn
    cases hIn
  · obtain ⟨p, s', hfind, -⟩ := h.find (.int 1) List.mem_cons_self .equal (by decide)
    have hnone : Find plainLibrary sameCopies false
      (asked (twoColumns sdVT_BOOL [[.int 1, .byte 1]])) 1 .equal (.int 1) = none := by
      decide
    rw [Nat.cast_one, hnone] at hfind
    cases hfind

end SocketPro.Java
