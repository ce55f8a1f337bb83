import SocketPro.Cache.MasterPool

/-!
# The snapshot and the events around it

`CSQLMasterPool` of `rdbcache.h`: on one connection come the result of `Open`, which empties
`m_cache`, the snapshot, which fills `m_cache`, and the final result, which exchanges `m_cache` and
`Cache`. The events that the server publishes for later changes are applied to `Cache` when they
come. The state is that of `CMasterPool`; `m_meta` stands for the columns that the handler has
received last (`GetColumnInfo`).

**Result.** `snapshot_complete`: when all has been processed, on a first start as on a reload,
`Cache` follows the tables of the server, if the events come behind the final result (`EventsLast`)
and are ones that the cache is made for.

**Where it fails.** `event_lost`: an event before the final result changes the tables that are about
to be thrown away.
-/

namespace SocketPro.TableCache

open Machine Buffer Keyed

/-- `tagUpdateEvent`. -/
inductive tagUpdateEvent
  | ueInsert
  | ueUpdate
  | ueDelete
deriving DecidableEq

/-- A published change: what is in the message behind the names of server and user. -/
structure Published where
  eventType : tagUpdateEvent
  dbName : List UInt16
  tblName : List UInt16
  vData : List VARIANT

/-- The change of the cache that `OnPublish` makes of it. -/
def Published.event (p : Published) : Event where
  dbName := p.dbName
  tblName := p.tblName
  change :=
    match p.eventType, p.vData with
    | .ueInsert, vData => .insert vData
    | .ueUpdate, vData => .update vData
    | .ueDelete, [vtKey] => .delete vtKey
    | .ueDelete, vData => .deleteRow vData

/-- What comes over the connection. -/
inductive Arrival
  | opened (res : ℤ)
  | frame (f : Frame)
  | done (res : ℤ)
  | publish (p : Published)

variable (P : Platform)

/-- The pool when something comes. -/
def CMasterPool.onArrival (s : CMasterPool) : Arrival → CMasterPool
  | .opened res => if res = 0 then s.onConnected else s
  | .frame f => s.onFrame P f
  | .done res => s.onResult res
  | .publish p => { s with Cache := s.Cache.apply P p.event }

/-- The pool when all of a list has come. -/
abbrev CMasterPool.process (s : CMasterPool) (stream : List Arrival) : CMasterPool :=
  stream.foldl (CMasterPool.onArrival P) s

/-! ### The server -/

/-- The relation of a table in the snapshot. -/
def Delivered.relation (caseSensitive : Bool) (t : Delivered) : Relation :=
  ⟨t.columns, (t.stored P caseSensitive).rows, caseSensitive⟩

/-- The server at the moment of the snapshot; its names are compared as in `Cache`. -/
def CMasterPool.server (s : CMasterPool) (tables : List Delivered) : Master where
  relations := tables.map (Delivered.relation P s.m_cache.m_bDataCaseSensitive)
  dbCase := s.Cache.m_bDBNameCaseSensitive
  tableCase := s.Cache.m_bTableNameCaseSensitive

/-- The server after the published changes. -/
def Master.after (m : Master) (published : List Published) : Master :=
  (published.map Published.event).foldl (fun m e ↦ m.apply P e) m

def Arrival.isReply : Arrival → Bool
  | .publish _ => false
  | _ => true

def Arrival.published? : Arrival → Option Published
  | .publish p => some p
  | _ => none

/-- What comes behind the result of `Open`: the snapshot and the final result in their order, and
the published changes in theirs, interleaved in any way. -/
structure Interleaved (tables : List Delivered) (published : List Published)
    (stream : List Arrival) : Prop where
  replies : stream.filter Arrival.isReply = (frames tables).map .frame ++ [.done 0]
  events : stream.filterMap Arrival.published? = published

/-- The condition: no event comes before the final result. -/
def EventsLast : List Arrival → Prop
  | [] => True
  | .done _ :: _ => True
  | .publish _ :: _ => False
  | _ :: stream => EventsLast stream

variable {P}

/-- Then the events come behind the replies. -/
theorem eq_append_of_eventsLast {fs : List Frame} {published : List Published}
    {stream : List Arrival} (hreplies : stream.filter Arrival.isReply = fs.map .frame ++ [.done 0])
    (hevents : stream.filterMap Arrival.published? = published) (hlast : EventsLast stream) :
    stream = fs.map .frame ++ .done 0 :: published.map .publish := by
  induction stream generalizing fs with
  | nil => simp at hreplies
  | cons a stream ih =>
    cases a with
    | publish p => exact hlast.elim
    | opened res =>
      have hcons : Arrival.opened res :: stream.filter Arrival.isReply = _ := hreplies
      cases fs <;> simp at hcons
    | frame f =>
      have hcons : Arrival.frame f :: stream.filter Arrival.isReply = _ := hreplies
      cases fs with
      | nil => simp at hcons
      | cons f' fs =>
        obtain ⟨hf, hrest⟩ := List.cons.inj hcons
        rw [ih hrest hevents hlast, hf]
        rfl
    | done res =>
      have hcons : Arrival.done res :: stream.filter Arrival.isReply = _ := hreplies
      cases fs with
      | cons f' fs => simp at hcons
      | nil =>
        obtain ⟨hres, hrest⟩ := List.cons.inj hcons
        -- Only events are left.
        have hall : ∀ l : List Arrival, l.filter Arrival.isReply = [] →
            l = (l.filterMap Arrival.published?).map .publish := by
          intro l hl
          induction l with
          | nil => rfl
          | cons b l ihl =>
            cases b with
            | publish p =>
              have hl' : l.filter Arrival.isReply = [] := hl
              show _ = Arrival.publish p :: (l.filterMap Arrival.published?).map .publish
              rw [← ihl hl']
            | _ => cases hl
        have hstream := hall stream hrest
        have htail : stream.filterMap Arrival.published? = published := hevents
        rw [htail] at hstream
        rw [hstream, hres]
        rfl

theorem process_frames (s : CMasterPool) (fs : List Frame) :
    s.process P (fs.map .frame) = fs.foldl (CMasterPool.onFrame P) s := by
  rw [CMasterPool.process, List.foldl_map]
  rfl

theorem process_published (s : CMasterPool) (published : List Published) :
    (s.process P (published.map .publish)).Cache =
      (published.map Published.event).foldl (fun ds e ↦ ds.apply P e) s.Cache := by
  induction published generalizing s with
  | nil => rfl
  | cons p published ih => exact ih _

/-- The tables of a snapshot, as they are stored, are those of the server. -/
theorem stored_holds (caseSensitive : Bool) (tables : List Delivered) :
    List.Forall₂ CTable.Holds (tables.map (Delivered.stored P caseSensitive))
      (tables.map (Delivered.relation P caseSensitive)) := by
  rw [List.forall₂_map_left_iff, List.forall₂_map_right_iff]
  exact List.forall₂_same.2 fun t _ ↦ ⟨rfl, rfl, rfl⟩

/-- **Snapshot and events together** give the tables of the server, if the events come behind the
final result and the cache is made for them. -/
theorem snapshot_complete (P : Platform) (s : CMasterPool) (tables : List Delivered)
    (published : List Published) (stream : List Arrival)
    (hform : ∀ t ∈ tables, t.WellFormed) (hseparate : Separate P s.m_cache tables)
    (hstream : Interleaved tables published stream)
    (hevents : Within (fun m e ↦ some (Master.apply P m e))
      (fun m e ↦ m.Allows P e ∧ m.Covers P e) (s.server P tables) (published.map Published.event))
    (hlast : EventsLast stream) :
    (s.process P (.opened 0 :: stream)).Cache.Follows ((s.server P tables).after P published) := by
  have hsplit := eq_append_of_eventsLast hstream.replies hstream.events hlast
  have hflags := foldl_sameFlags (P := P) (frames tables) s.onConnected
  have htables := frames_arrive (P := P) tables s.onConnected hform hseparate nofun
  have hrun : s.process P (.opened 0 :: stream) =
      (((frames tables).foldl (CMasterPool.onFrame P) s.onConnected).onResult 0).process P
        (published.map .publish) := by
    show s.onConnected.process P stream = _
    rw [hsplit, CMasterPool.process, List.foldl_append, List.foldl_cons]
    show ((s.onConnected.process P ((frames tables).map .frame)).onResult 0).process P _ = _
    rw [process_frames]
  rw [hrun, process_published]
  refine foldl_follows _ ⟨?_, ?_, ?_⟩ hevents
  · show List.Forall₂ _ ((frames tables).foldl (CMasterPool.onFrame P) s.onConnected).m_cache.m_ds _
    rw [htables]
    exact stored_holds _ _
  · show ((frames tables).foldl (CMasterPool.onFrame P)
      s.onConnected).Cache.m_bDBNameCaseSensitive = s.Cache.m_bDBNameCaseSensitive
    rw [hflags.cache]
    rfl
  · show ((frames tables).foldl (CMasterPool.onFrame P)
      s.onConnected).Cache.m_bTableNameCaseSensitive = s.Cache.m_bTableNameCaseSensitive
    rw [hflags.cache]
    rfl

/-! ### Fixed streams -/

/-- A table with one row. -/
def oneRowTable : Delivered := ⟨keyedColumns 1, [[[int 1, int 2]]]⟩

/-- A second row is inserted. -/
def secondRow : Published := ⟨.ueInsert, [100], [116], [int 2, int 3]⟩

/-- The event comes behind the final result. -/
theorem snapshot_complete_secondRow :
    (CMasterPool.process plain (.new true true true) (.opened 0 ::
      ((frames [oneRowTable]).map .frame ++ [.done 0, .publish secondRow]))).Cache.Follows
        (((CMasterPool.new true true true).server plain [oneRowTable]).after plain [secondRow]) :=
  snapshot_complete plain (.new true true true) [oneRowTable] [secondRow] _
    (oneRow_wellFormed true 0) (List.pairwise_singleton _ _) ⟨rfl, rfl⟩ (by decide +kernel) trivial

/-- The event comes before the rows of the snapshot, and is lost. -/
theorem event_lost :
    Interleaved [oneRowTable] [secondRow]
        [.frame (.header (keyedColumns 1)), .publish secondRow, .frame (.rows [int 1, int 2]),
          .done 0] ∧
      ¬ (CMasterPool.process plain (.new true true true)
        [.opened 0, .frame (.header (keyedColumns 1)), .publish secondRow,
          .frame (.rows [int 1, int 2]), .done 0]).Cache.Follows
          (((CMasterPool.new true true true).server plain [oneRowTable]).after plain
            [secondRow]) := by
  refine ⟨⟨rfl, rfl⟩, fun h ↦ ?_⟩
  have htables : List.Forall₂ CTable.Holds [_] [_] := h.tables
  have hcount := congrArg Multiset.card (List.forall₂_cons.1 htables).1.rows
  revert hcount
  decide +kernel

end SocketPro.TableCache
