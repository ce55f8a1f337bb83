import SocketPro.Cache.Refinement

/-!
# Initialisations of the real-time cache

`CMasterPool` of `masterpool.h`: the tables that the server delivers are collected in `m_cache`, and
at the end of an initialisation without error `m_cache` and `Cache` are exchanged. After connecting,
`m_cache` is emptied first; the initialisation that follows an update event (`SetInitialCache` out
of `OnPublish`) starts with what `m_cache` holds by then.

**Result.** `initialise_exact`: in every sequence of initialisations, after one that ends with `0`
`Cache` holds exactly the tables and rows it has delivered, and after one that ends with an error
`Cache` is what it was, if every one that ends with `0` starts with an empty `m_cache` (`Fresh`).

**Where it fails.** `stale_tables`: the tables that `m_cache` holds at the start come into `Cache`.
`third_initialisation` is the first time that this happens when no initialisation ends with an
error. -/

namespace SocketPro.TableCache

open Machine Buffer

/-! ### The pool -/

/-- The data of `CMasterPool`. -/
structure CMasterPool where
  Cache : CDataSet
  m_cache : CDataSet
  m_meta : List CDBColumnInfo

/-- What the server sends: the columns of a table, or some of its rows. -/
inductive Frame
  | header (columns : List CDBColumnInfo)
  | rows (vData : List VARIANT)

variable (P : Platform)

namespace CMasterPool

/-- The first half of `speConnected`: `m_cache` is emptied. -/
def onConnected (s : CMasterPool) : CMasterPool := { s with m_cache := s.m_cache.empty }

/-- The two callbacks for the data. -/
def onFrame (s : CMasterPool) : Frame → CMasterPool
  | .header columns => { s with m_cache := s.m_cache.addEmptyRowset columns, m_meta := columns }
  | .rows vData =>
    let front := s.m_meta.headD default
    { s with m_cache := (s.m_cache.addRows P front.DBPath front.TablePath vData).2 }

/-- The callback for the result. -/
def onResult (s : CMasterPool) (res : ℤ) : CMasterPool :=
  if res = 0 then
    { s with Cache := (s.Cache.swap s.m_cache).1, m_cache := (s.Cache.swap s.m_cache).2 }
  else s

end CMasterPool

/-- A table that is delivered, its rows in batches. -/
structure Delivered where
  columns : List CDBColumnInfo
  batches : List (List CRow)

/-- The frames for a list of tables. -/
def frames (tables : List Delivered) : List Frame :=
  tables.flatMap fun t ↦ .header t.columns :: t.batches.map fun rows ↦ .rows rows.flatten

/-- An initialisation, after connecting or after an update event. With an error only the first
`sent` frames arrive. -/
structure Initialisation where
  connected : Bool
  tables : List Delivered
  res : ℤ
  sent : ℕ

/-- The frames that arrive. -/
def Initialisation.arriving (i : Initialisation) : List Frame :=
  if i.res = 0 then frames i.tables else (frames i.tables).take i.sent

namespace CMasterPool

/-- The pool when the request has been sent. -/
def begin (s : CMasterPool) (i : Initialisation) : CMasterPool :=
  if i.connected then s.onConnected else s

/-- The pool after an initialisation. -/
def initialise (s : CMasterPool) (i : Initialisation) : CMasterPool :=
  (i.arriving.foldl (onFrame P) (s.begin i)).onResult i.res

/-- A pool without tables. -/
def new (dbCase tableCase dataCase : Bool) : CMasterPool :=
  ⟨⟨[], dbCase, tableCase, dataCase⟩, ⟨[], dbCase, tableCase, dataCase⟩, []⟩

end CMasterPool

/-! ### What an initialisation is for -/

/-- A table has columns, and its rows have a value for each. -/
def Delivered.WellFormed (t : Delivered) : Prop :=
  0 < t.columns.length ∧ ∀ rows ∈ t.batches, ∀ row ∈ rows, row.length = t.columns.length

/-- The table as the cache holds it, each value stored in the type of its column. -/
def Delivered.stored (caseSensitive : Bool) (t : Delivered) : CTable :=
  ⟨t.columns, t.batches.flatten.map (List.zipWith (cell P) t.columns), caseSensitive⟩

/-- After success `Cache` holds the tables that have been delivered, after an error it is as it
was. -/
def Exact (s : CMasterPool) (i : Initialisation) : Prop :=
  if i.res = 0 then
    (s.initialise P i).Cache.m_ds = i.tables.map (Delivered.stored P s.m_cache.m_bDataCaseSensitive)
  else (s.initialise P i).Cache = s.Cache

/-- The first column names the table. -/
def Delivered.front (t : Delivered) : CDBColumnInfo := t.columns.headD default

/-- No two of the tables have names that compare as equal. -/
def Separate (ds : CDataSet) (tables : List Delivered) : Prop :=
  tables.Pairwise fun t u ↦ CDataSet.is P ds.m_bDBNameCaseSensitive ds.m_bTableNameCaseSensitive
    t.columns u.front.DBPath u.front.TablePath = false

/-- The condition: an initialisation that ends with `0` starts with an empty `m_cache`, and its
tables can be told apart. -/
def Fresh (s : CMasterPool) (i : Initialisation) : Prop :=
  i.res = 0 → (i.connected = true ∨ s.m_cache.m_ds.length = 0) ∧ Separate P s.m_cache i.tables

instance (s : CMasterPool) (i : Initialisation) : Decidable (Fresh P s i) := by
  unfold Fresh Separate
  infer_instance

/-! ### Tables that arrive -/

variable {P}

/-- A name that none of the tables before has, and the table itself has. -/
theorem onFirst_last {α : Type} {found : α → Bool} {f : α → ℕ × α} {pre : List α} {a : α}
    (hpre : ∀ b ∈ pre, found b = false) (ha : found a = true) :
    (CDataSet.onFirst found f (pre ++ [a])).2 = pre ++ [(f a).2] := by
  induction pre with
  | nil =>
    show (CDataSet.onFirst found f [a]).2 = [(f a).2]
    rw [CDataSet.onFirst, if_pos ha]
  | cons b pre ih =>
    have hb : ¬ found b = true := by simp [hpre b List.mem_cons_self]
    rw [List.cons_append, CDataSet.onFirst, if_neg hb,
      ih fun c hc ↦ hpre c (List.mem_cons_of_mem _ hc)]
    rfl

section Deliver

variable {s : CMasterPool} {t : Delivered} {pre : List CTable} {rows : List CRow}

/-- The table that is arriving is the last one in `m_cache`, and no other one has its names. -/
structure Arriving (P : Platform) (s : CMasterPool) (t : Delivered) (pre : List CTable)
    (rows : List CRow) : Prop where
  tables : s.m_cache.m_ds = pre ++ [⟨t.columns, rows, s.m_cache.m_bDataCaseSensitive⟩]
  current : s.m_meta = t.columns
  others : ∀ u ∈ pre, CDataSet.is P s.m_cache.m_bDBNameCaseSensitive
    s.m_cache.m_bTableNameCaseSensitive u.columns t.front.DBPath t.front.TablePath = false

/-- What the data frames leave as it is. -/
structure SameFlags (s s' : CMasterPool) : Prop where
  cache : s'.Cache = s.Cache
  dbCase : s'.m_cache.m_bDBNameCaseSensitive = s.m_cache.m_bDBNameCaseSensitive
  tableCase : s'.m_cache.m_bTableNameCaseSensitive = s.m_cache.m_bTableNameCaseSensitive
  dataCase : s'.m_cache.m_bDataCaseSensitive = s.m_cache.m_bDataCaseSensitive

theorem SameFlags.trans {s s' s'' : CMasterPool} (h : SameFlags s s') (h' : SameFlags s' s'') :
    SameFlags s s'' :=
  ⟨h'.cache.trans h.cache, h'.dbCase.trans h.dbCase, h'.tableCase.trans h.tableCase,
    h'.dataCase.trans h.dataCase⟩

theorem onFrame_sameFlags (s : CMasterPool) (f : Frame) : SameFlags s (s.onFrame P f) := by
  cases f with
  | header columns =>
    show SameFlags s { s with m_cache := s.m_cache.addEmptyRowset columns, m_meta := columns }
    unfold CDataSet.addEmptyRowset
    split_ifs <;> exact ⟨rfl, rfl, rfl, rfl⟩
  | rows vData =>
    show SameFlags s { s with m_cache := (s.m_cache.addRows P _ _ vData).2 }
    unfold CDataSet.addRows
    split_ifs <;> exact ⟨rfl, rfl, rfl, rfl⟩

theorem foldl_sameFlags (fs : List Frame) (s : CMasterPool) :
    SameFlags s (fs.foldl (CMasterPool.onFrame P) s) := by
  induction fs generalizing s with
  | nil => exact ⟨rfl, rfl, rfl, rfl⟩
  | cons f fs ih => exact (onFrame_sameFlags s f).trans (ih (s.onFrame P f))

/-- The table finds itself by its names. -/
theorem is_front (P : Platform) (dbCase tableCase : Bool) (columns : List CDBColumnInfo) :
    CDataSet.is P dbCase tableCase columns (columns.headD default).DBPath
      (columns.headD default).TablePath = true := by
  rw [CDataSet.is, isEqual_self, isEqual_self]
  rfl

theorem onHeader_arriving (hcolumns : 0 < t.columns.length) (htables : s.m_cache.m_ds = pre)
    (hothers : ∀ u ∈ pre, CDataSet.is P s.m_cache.m_bDBNameCaseSensitive
      s.m_cache.m_bTableNameCaseSensitive u.columns t.front.DBPath t.front.TablePath = false) :
    Arriving P (s.onFrame P (.header t.columns)) t pre [] := by
  have hne : t.columns.length ≠ 0 := Nat.pos_iff_ne_zero.1 hcolumns
  have hadd : s.m_cache.addEmptyRowset t.columns = { s.m_cache with
      m_ds := s.m_cache.m_ds ++ [⟨t.columns, [], s.m_cache.m_bDataCaseSensitive⟩] } := if_neg hne
  have hframe : s.onFrame P (.header t.columns) = { s with
      m_cache := { s.m_cache with
        m_ds := s.m_cache.m_ds ++ [⟨t.columns, [], s.m_cache.m_bDataCaseSensitive⟩] }
      m_meta := t.columns } := by
    rw [← hadd]
    rfl
  rw [hframe]
  exact ⟨htables ▸ rfl, rfl, hothers⟩

/-- A batch of rows goes to the table that is arriving. -/
theorem onRows_arriving {batch : List CRow} (hcolumns : 0 < t.columns.length)
    (h : Arriving P s t pre rows) (hbatch : ∀ row ∈ batch, row.length = t.columns.length) :
    Arriving P (s.onFrame P (.rows batch.flatten)) t pre
      (rows ++ batch.map (List.zipWith (cell P) t.columns)) := by
  have hlen := length_flatten_of_width hbatch
  obtain ⟨cache, staged, current⟩ := s
  obtain rfl : current = t.columns := h.current
  show Arriving P ⟨cache, (staged.addRows P (t.columns.headD default).DBPath
    (t.columns.headD default).TablePath batch.flatten).2, t.columns⟩ t pre _
  unfold CDataSet.addRows
  by_cases hnone : batch.flatten.length = 0
  · have hnil : batch = [] := by
      rw [hlen, Nat.mul_eq_zero] at hnone
      exact List.length_eq_zero_iff.1 (hnone.resolve_right (by omega))
    subst hnil
    rw [if_pos hnone, List.map_nil, List.append_nil]
    exact h
  · rw [if_neg hnone]
    have htables : staged.m_ds = pre ++ [⟨t.columns, rows, staged.m_bDataCaseSensitive⟩] := h.tables
    have hothers : ∀ u ∈ pre, CDataSet.is P staged.m_bDBNameCaseSensitive
        staged.m_bTableNameCaseSensitive u.columns (t.columns.headD default).DBPath
        (t.columns.headD default).TablePath = false := h.others
    have hmod : batch.flatten.length % t.columns.length = 0 := by rw [hlen, Nat.mul_mod_left]
    refine ⟨?_, rfl, h.others⟩
    show (CDataSet.onFirst _ _ staged.m_ds).2 = _
    rw [htables, onFirst_last hothers (is_front P _ _ t.columns), addRows_eq hmod,
      rowsOf_flatten hcolumns hbatch]
    rfl

/-- All batches of a table. -/
theorem batches_arriving {batches : List (List CRow)} (hcolumns : 0 < t.columns.length)
    (h : Arriving P s t pre rows)
    (hbatches : ∀ batch ∈ batches, ∀ row ∈ batch, row.length = t.columns.length) :
    Arriving P ((batches.map fun rows ↦ Frame.rows rows.flatten).foldl (CMasterPool.onFrame P) s) t
      pre (rows ++ batches.flatten.map (List.zipWith (cell P) t.columns)) := by
  induction batches generalizing s rows with
  | nil =>
    rw [List.flatten_nil, List.map_nil, List.map_nil, List.append_nil]
    exact h
  | cons batch batches ih =>
    have hstep := onRows_arriving hcolumns h (hbatches batch List.mem_cons_self)
    rw [List.map_cons, List.foldl_cons, List.flatten_cons, List.map_append, ← List.append_assoc]
    exact ih hstep fun b hb ↦ hbatches b (List.mem_cons_of_mem _ hb)

/-- **The tables that arrive** are put behind those in `m_cache`, if none has the names of one
before it. -/
theorem frames_arrive (tables : List Delivered) (s : CMasterPool)
    (hform : ∀ t ∈ tables, t.WellFormed) (hseparate : Separate P s.m_cache tables)
    (hothers : ∀ u ∈ s.m_cache.m_ds, ∀ t ∈ tables, CDataSet.is P s.m_cache.m_bDBNameCaseSensitive
      s.m_cache.m_bTableNameCaseSensitive u.columns t.front.DBPath t.front.TablePath = false) :
    ((frames tables).foldl (CMasterPool.onFrame P) s).m_cache.m_ds =
      s.m_cache.m_ds ++ tables.map (Delivered.stored P s.m_cache.m_bDataCaseSensitive) := by
  induction tables generalizing s with
  | nil => exact (List.append_nil _).symm
  | cons t tables ih =>
    obtain ⟨hcolumns, hbatches⟩ := hform t List.mem_cons_self
    obtain ⟨hfirst, hrest⟩ := List.pairwise_cons.1 hseparate
    have hheader := onHeader_arriving (P := P) hcolumns rfl
      fun u hu ↦ hothers u hu t List.mem_cons_self
    have hall := batches_arriving hcolumns hheader hbatches
    have hflags : SameFlags s ((t.batches.map fun rows ↦ Frame.rows rows.flatten).foldl
        (CMasterPool.onFrame P) (s.onFrame P (.header t.columns))) :=
      (onFrame_sameFlags s _).trans (foldl_sameFlags _ _)
    have hsplit : (frames (t :: tables)).foldl (CMasterPool.onFrame P) s =
        (frames tables).foldl (CMasterPool.onFrame P)
          ((t.batches.map fun rows ↦ Frame.rows rows.flatten).foldl (CMasterPool.onFrame P)
            (s.onFrame P (.header t.columns))) := by
      rw [frames, List.flatMap_cons, List.cons_append, List.foldl_cons, List.foldl_append]
      rfl
    have hnow := hall.tables
    rw [List.nil_append, hflags.dataCase] at hnow
    rw [hsplit, ih _ (fun u hu ↦ hform u (List.mem_cons_of_mem _ hu)), hnow, hflags.dataCase,
      List.map_cons, List.append_assoc]
    · rfl
    · unfold Separate
      rw [hflags.dbCase, hflags.tableCase]
      exact hrest
    · rw [hflags.dbCase, hflags.tableCase, hnow]
      intro u hu v hv
      rcases List.mem_append.1 hu with hu | hu
      · exact hothers u hu v (List.mem_cons_of_mem _ hv)
      · rw [List.mem_singleton.1 hu]
        exact hfirst v hv

end Deliver

/-! ### Initialisations -/

/-- **One initialisation.** -/
theorem exact_of_fresh {s : CMasterPool} {i : Initialisation}
    (hform : ∀ t ∈ i.tables, t.WellFormed) (h : Fresh P s i) : Exact P s i := by
  have hbegin : SameFlags s (s.begin i) := by
    unfold CMasterPool.begin
    split_ifs <;> exact ⟨rfl, rfl, rfl, rfl⟩
  unfold Exact
  by_cases hres : i.res = 0
  · obtain ⟨hempty, hseparate⟩ := h hres
    have hnone : (s.begin i).m_cache.m_ds = [] := by
      unfold CMasterPool.begin
      rcases hempty with hconnected | hlen
      · rw [if_pos hconnected]
        rfl
      · split_ifs
        · rfl
        · exact List.length_eq_zero_iff.1 hlen
    have hseparate' : Separate P (s.begin i).m_cache i.tables := by
      unfold Separate
      rw [hbegin.dbCase, hbegin.tableCase]
      exact hseparate
    have harrive := frames_arrive i.tables (s.begin i) hform hseparate'
      fun u hu ↦ by rw [hnone] at hu; cases hu
    rw [hnone, List.nil_append, hbegin.dataCase] at harrive
    rw [if_pos hres, CMasterPool.initialise, Initialisation.arriving, if_pos hres,
      CMasterPool.onResult, if_pos hres]
    exact harrive
  · rw [if_neg hres, CMasterPool.initialise, CMasterPool.onResult, if_neg hres]
    exact (foldl_sameFlags _ _).cache.trans hbegin.cache

/-- **Initialisations are exact**, as long as those that end with `0` start with an empty
`m_cache`. -/
theorem initialise_exact (P : Platform) (inits : List Initialisation) (s : CMasterPool)
    (hform : ∀ i ∈ inits, ∀ t ∈ i.tables, t.WellFormed)
    (h : Within (fun s i ↦ some (s.initialise P i)) (Fresh P) s inits) :
    Within (fun s i ↦ some (s.initialise P i)) (Exact P) s inits := by
  induction inits generalizing s with
  | nil => trivial
  | cons i inits ih =>
    obtain ⟨hfresh, hrest⟩ := h
    exact ⟨exact_of_fresh (hform i List.mem_cons_self) hfresh,
      ih _ (fun j hj ↦ hform j (List.mem_cons_of_mem _ hj)) hrest⟩

/-- An initialisation of one table with one row. -/
def oneRow (connected : Bool) (res : ℤ) : Initialisation where
  connected := connected
  tables := [⟨keyedColumns 1, [[[int 1, int 2]]]⟩]
  res := res
  sent := 2

theorem oneRow_wellFormed (connected : Bool) (res : ℤ) :
    ∀ t ∈ (oneRow connected res).tables, t.WellFormed := by
  intro t ht
  rw [List.mem_singleton.1 ht]
  refine ⟨by decide, fun rows hrows row hrow ↦ ?_⟩
  rw [List.mem_singleton.1 hrows] at hrow
  rw [List.mem_singleton.1 hrow]
  rfl

/-- After connecting, after an update event and after connecting again; then one with an error. -/
theorem initialise_exact_oneRow :
    Within (fun s i ↦ some (CMasterPool.initialise plain s i)) (Exact plain)
      (.new true true true) [oneRow true 0, oneRow false 0, oneRow true 0, oneRow false 5] :=
  initialise_exact plain _ _ (fun i hi ↦ by
    simp only [List.mem_cons, List.not_mem_nil, or_false] at hi
    rcases hi with rfl | rfl | rfl | rfl <;> exact oneRow_wellFormed _ _) (by decide +kernel)

/-! ### Where it fails -/

theorem length_onFirst {α : Type} (found : α → Bool) (f : α → ℕ × α) (l : List α) :
    (CDataSet.onFirst found f l).2.length = l.length := by
  induction l with
  | nil => rfl
  | cons a l ih =>
    rw [CDataSet.onFirst]
    split_ifs
    · rfl
    · exact congrArg (· + 1) ih

theorem length_batches (s : CMasterPool) (batches : List (List CRow)) :
    ((batches.map fun rows ↦ Frame.rows rows.flatten).foldl
      (CMasterPool.onFrame P) s).m_cache.m_ds.length = s.m_cache.m_ds.length := by
  induction batches generalizing s with
  | nil => rfl
  | cons batch batches ih =>
    rw [List.map_cons, List.foldl_cons, ih]
    show (s.m_cache.addRows P _ _ batch.flatten).2.m_ds.length = _
    unfold CDataSet.addRows
    split_ifs
    · rfl
    · exact length_onFirst _ _ _

/-- Every table that arrives is added to those in `m_cache`. -/
theorem length_frames (tables : List Delivered) (s : CMasterPool)
    (hform : ∀ t ∈ tables, t.WellFormed) :
    ((frames tables).foldl (CMasterPool.onFrame P) s).m_cache.m_ds.length =
      s.m_cache.m_ds.length + tables.length := by
  induction tables generalizing s with
  | nil => rfl
  | cons t tables ih =>
    have hne : t.columns.length ≠ 0 := Nat.pos_iff_ne_zero.1 (hform t List.mem_cons_self).1
    have hheader : (s.onFrame P (.header t.columns)).m_cache.m_ds.length =
        s.m_cache.m_ds.length + 1 := by
      show (s.m_cache.addEmptyRowset t.columns).m_ds.length = _
      rw [CDataSet.addEmptyRowset, if_neg hne, List.length_append]
      rfl
    rw [frames, List.flatMap_cons, List.cons_append, List.foldl_cons, List.foldl_append, ← frames,
      ih _ fun u hu ↦ hform u (List.mem_cons_of_mem _ hu), length_batches, hheader,
      List.length_cons]
    omega

/-- **Stale tables.** An initialisation after an update event that ends with `0` is never exact when
`m_cache` holds a table at its start. -/
theorem stale_tables {s : CMasterPool} {i : Initialisation} (hform : ∀ t ∈ i.tables, t.WellFormed)
    (hres : i.res = 0) (hevent : i.connected = false) (hstale : s.m_cache.m_ds.length ≠ 0) :
    ¬ Exact P s i := by
  have hbegin : s.begin i = s := by rw [CMasterPool.begin, hevent]; rfl
  have hlen := length_frames (P := P) i.tables s hform
  unfold Exact
  rw [if_pos hres, CMasterPool.initialise, Initialisation.arriving, if_pos hres,
    CMasterPool.onResult, if_pos hres, hbegin]
  intro h
  have hcount := congrArg List.length h
  rw [List.length_map] at hcount
  have hswap := hlen.symm.trans hcount
  omega

/-- Three initialisations without error: after the third one `Cache` holds the table of the first
one as well. -/
theorem third_initialisation :
    (∀ i ∈ [oneRow true 0, oneRow false 0, oneRow false 0], ∀ t ∈ i.tables, t.WellFormed) ∧
      ¬ Within (fun s i ↦ some (CMasterPool.initialise plain s i)) (Exact plain)
        (.new true true true) [oneRow true 0, oneRow false 0, oneRow false 0] := by
  refine ⟨fun i hi ↦ ?_, fun h ↦ ?_⟩
  · simp only [List.mem_cons, List.not_mem_nil, or_false] at hi
    rcases hi with rfl | rfl | rfl <;> exact oneRow_wellFormed _ _
  · exact stale_tables (oneRow_wellFormed false 0) rfl rfl (by decide) h.2.2.1

end SocketPro.TableCache
