import SocketPro.Client.ConfigHistory
import SocketPro.Client.ConfigTexts

/-!
# A configuration that is written and read again

`GetConfig` against `Parse`: the text of a configuration that an object holds, behind any sequence
of calls, is written to a file and parsed in a fresh object.

**What is kept by reading.** What an object holds was made of the strings in files (`Held`): texts
are unescaped and trimmed, maps are sorted, the slaves of a pool have its service id, and the checks
found nothing. So a text, a map, a context or a pool that is written is read as it was, up to
`readBack`: the member "V6" is assigned to `Zip`, and `RecvTimeout` stands in the place of
`ConnTimeout`. The checks look at neither.

**What is not read.** Allowed keys are escaped on writing and not unescaped on reading. A control
character, which can only be a tab, is written with a backslash before it, and the reader refuses
the whole file (`parseFromFile_written`).
-/

namespace SocketPro.Client.SpConfig

open Json Unicode

/-! ### Objects with given members -/

theorem lit_inj {a b : String} : lit a = lit b ↔ a = b := by
  constructor
  · intro h
    have hcode : Function.Injective code := fun c d hcd ↦ Char.ext (UInt32.toNat_inj.1 hcd)
    exact String.toList_injective (List.map_injective_iff.2 hcode h)
  · rintro rfl
    rfl

/-- Of the members of one name the last counts. -/
theorem lookup_object (ms : List (String × JValue)) (name : String) :
    (object ms).lookup (lit name) =
      ms.foldl (fun found m ↦ if name = m.1 then some m.2 else found) none := by
  suffices hfold : ∀ obj : JObject,
      (ms.foldl (fun obj m ↦ SortedMap.set (lit m.1) m.2 obj) obj).lookup (lit name) =
        ms.foldl (fun found m ↦ if name = m.1 then some m.2 else found)
          (obj.lookup (lit name)) from
    hfold []
  induction ms with
  | nil => exact fun _ ↦ rfl
  | cons m ms ih =>
    intro obj
    rw [List.foldl_cons, List.foldl_cons, ih, SortedMap.lookup_set]
    simp only [lit_inj]

theorem sorted_object (ms : List (String × JValue)) : SortedMap.Sorted (object ms) := by
  suffices hfold : ∀ obj : JObject, SortedMap.Sorted obj →
      SortedMap.Sorted (ms.foldl (fun obj m ↦ SortedMap.set (lit m.1) m.2 obj) obj) from
    hfold [] SortedMap.sorted_nil
  induction ms with
  | nil => exact fun _ h ↦ h
  | cons m ms ih => exact fun obj h ↦ ih _ (SortedMap.sorted_set h _ _)

theorem mem_object {ms : List (String × JValue)} {e : JString × JValue} (he : e ∈ object ms) :
    ∃ m ∈ ms, e = (lit m.1, m.2) := by
  suffices hfold : ∀ obj : JObject,
      e ∈ ms.foldl (fun obj m ↦ SortedMap.set (lit m.1) m.2 obj) obj →
        e ∈ obj ∨ ∃ m ∈ ms, e = (lit m.1, m.2) from
    (hfold [] he).resolve_left List.not_mem_nil
  clear he
  induction ms with
  | nil => exact fun _ h ↦ .inl h
  | cons m ms ih =>
    intro obj he
    rcases ih _ he with he | ⟨m', hm', rfl⟩
    · rcases SortedMap.mem_set he with rfl | he
      · exact .inr ⟨m, List.mem_cons_self, rfl⟩
      · exact .inl he
    · exact .inr ⟨m', List.mem_cons_of_mem _ hm', rfl⟩

theorem ofInt64_natCast (n : ℕ) : ofInt64 n = .uint64 n := by
  rw [ofInt64, if_neg (by omega), Int.toNat_natCast]

/-- The entries of a sorted map, in their order. -/
theorem writeMap_eq {α : Type} (write : α → JValue) {m : Map α} (hm : SortedMap.Sorted m) :
    writeMap write m = .object (m.map fun e ↦ (e.1, write e.2)) := by
  rw [writeMap, SortedMap.foldl_set (fun e ↦ write e.2) hm (by simp), List.nil_append]

/-- **A map comes back** entry by entry. -/
theorem read_writeMap {α β : Type} (write : α → JValue) {read : JValue → β} {m : Map α}
    (hm : SortedMap.Sorted m) (hwrite : ∀ a, ∃ ms, write a = .object ms) {v : JValue}
    {name : String} (hv : Child v (lit name) = some (writeMap write m)) :
    (objectsAt v name).foldl (fun ns e ↦ SortedMap.set e.1 (read e.2) ns) [] =
      m.map fun e ↦ (e.1, read (write e.2)) := by
  have hobjects : objectsAt v name = m.map fun e ↦ (e.1, write e.2) := by
    rw [objectsAt, hv, writeMap_eq write hm]
    refine (List.filterMap_map ..).trans (List.filterMap_eq_map_iff_forall_eq_some.2 fun e _ ↦ ?_)
    obtain ⟨ms, hms⟩ := hwrite e.2
    simp only [Function.comp_apply, hms]
  rw [hobjects, List.foldl_map]
  exact SortedMap.foldl_set (fun e ↦ read (write e.2)) hm (by simp)

/-! ### The strings in a written value -/

section Parts

variable {p : JString → Bool} {i : ℤ → Bool}

theorem allMembers_iff {ms : JObject} :
    allMembers p i ms = true ↔ ∀ m ∈ ms, p m.1 = true ∧ allParts p i m.2 = true := by
  induction ms with
  | nil => simp [allMembers]
  | cons m ms ih =>
    rw [allMembers, Bool.and_eq_true, Bool.and_eq_true, ih, List.forall_mem_cons]

theorem allElems_iff {vs : List JValue} :
    allElems p i vs = true ↔ ∀ v ∈ vs, allParts p i v = true := by
  induction vs with
  | nil => simp [allElems]
  | cons v vs ih => rw [allElems, Bool.and_eq_true, ih, List.forall_mem_cons]

/-- An object of given members none of which is lost. -/
theorem allParts_object {ms : List (String × JValue)} (hp : ∀ m ∈ ms, p (lit m.1) = true)
    (h : ∀ m ∈ ms, (object ms).lookup (lit m.1) = some m.2) :
    allParts p i (.object (object ms)) = true ↔ ∀ m ∈ ms, allParts p i m.2 = true := by
  rw [allParts, allMembers_iff]
  constructor
  · intro hall m hm
    exact (hall _ ((SortedMap.lookup_eq_some_iff (sorted_object ms)).1 (h m hm))).2
  · intro hall e he
    obtain ⟨m, hm, rfl⟩ := mem_object he
    exact ⟨hp m hm, hall m hm⟩

@[simp]
theorem allParts_ofInt64_natCast (n : ℕ) : allParts p i (ofInt64 n) = true := by
  rw [ofInt64_natCast]
  rfl

@[simp]
theorem allParts_str (t : JString) : allParts p i (str t) = true ↔ p (escape false t) = true :=
  Iff.rfl

@[simp]
theorem allParts_strs (texts : List JString) :
    allParts p i (.array (texts.map str)) = true ↔ ∀ t ∈ texts, p (escape false t) = true := by
  rw [allParts, allElems_iff, List.forall_mem_map]
  rfl

@[simp]
theorem allParts_bool (b : Bool) : allParts p i (.bool b) = true := rfl

@[simp]
theorem allParts_uint64 (n : ℕ) : allParts p i (.uint64 n) = true := rfl

theorem allParts_writeMap {α : Type} (write : α → JValue) {m : Map α} (hm : SortedMap.Sorted m) :
    allParts p i (writeMap write m) = true ↔
      ∀ e ∈ m, p e.1 = true ∧ allParts p i (write e.2) = true := by
  rw [writeMap_eq write hm, allParts, allMembers_iff, List.forall_mem_map]

end Parts

/-! ### Contexts -/

theorem child_writeCC (ctx : CConnectionContext) :
    Child (writeCC ctx) (lit "Host") = some (str ctx.Host) ∧
    Child (writeCC ctx) (lit "Port") = some (.uint64 ctx.Port.toNat) ∧
    Child (writeCC ctx) (lit "UserId") = some (str (ToUTF8 ctx.UserId)) ∧
    Child (writeCC ctx) (lit "Password") = some (str (ToUTF8 ctx.Password)) ∧
    Child (writeCC ctx) (lit "EncrytionMethod") = some ctx.EncrytionMethod.int ∧
    Child (writeCC ctx) (lit "Zip") = some (.bool ctx.Zip) ∧
    Child (writeCC ctx) (lit "V6") = some (.bool ctx.V6) := by
  simp [writeCC, Child, lookup_object, ofInt64_natCast]

theorem stringAt_eq {v : JValue} {name : String} {s : JString}
    (h : Child v (lit name) = some (str s)) : stringAt v name = some (escape false s) := by
  rw [stringAt, h]
  rfl

theorem uint64At_eq {v : JValue} {name : String} {n : ℕ}
    (h : Child v (lit name) = some (.uint64 n)) : uint64At v name = some n := by
  rw [uint64At, h]

theorem boolAt_eq {v : JValue} {name : String} {b : Bool}
    (h : Child v (lit name) = some (.bool b)) : boolAt v name = some b := by
  rw [boolAt, h]

theorem stringsAt_eq {v : JValue} {name : String} {texts : List JString}
    (h : Child v (lit name) = some (.array (texts.map str))) :
    stringsAt v name = texts.map (escape false) := by
  rw [stringsAt, h]
  refine (List.filterMap_map ..).trans (List.filterMap_eq_map_iff_forall_eq_some.2 fun t _ ↦ ?_)
  rfl

/-- What `GetCC` makes of a written context: "V6" is `false` and put into `Zip`. -/
def CConnectionContext.readBack (ctx : CConnectionContext) : CConnectionContext :=
  { ctx with Zip := false }

/-- What `GetCC` makes of the strings in a file. -/
structure CConnectionContext.Read (ctx : CConnectionContext) : Prop where
  Host : Kept ctx.Host
  lower : ToLower ctx.Host = ctx.Host
  UserId : WideKept ctx.UserId
  trim : Trim (ToUTF8 ctx.UserId) = ToUTF8 ctx.UserId
  Password : WideKept ctx.Password
  V6 : ctx.V6 = false

theorem getCC_writeCC {ctx : CConnectionContext} (h : ctx.Read) :
    GetCC (writeCC ctx) = ctx.readBack := by
  obtain ⟨hHost, hPort, hUserId, hPassword, hEncrytionMethod, -, hV6⟩ := child_writeCC ctx
  obtain ⟨Host, Port, UserId, Password, EncrytionMethod, V6, Zip⟩ := ctx
  obtain ⟨hhost, hlower, huser, htrim, hpass, rfl⟩ := h
  have hmethod : uint64At (writeCC ⟨Host, Port, UserId, Password, EncrytionMethod, false, Zip⟩)
      "EncrytionMethod" = some (if EncrytionMethod = .TLSv1 then 1 else 0) := by
    rw [uint64At, hEncrytionMethod]
    cases EncrytionMethod <;> rfl
  rw [GetCC, stringAt_eq hHost, uint64At_eq hPort, stringAt_eq hUserId, stringAt_eq hPassword,
    hmethod, boolAt_eq hV6]
  simp only [Option.map_some, Option.getD_some, unescape_escape hhost.settled, hhost.trim, hlower,
    unescape_escape huser.settled, htrim, huser.toWide, unescape_escape hpass.settled,
    hpass.toWide, UInt16.ofNat_toNat]
  cases EncrytionMethod <;> rfl

/-! ### Pools -/

/-- What `GetPool` makes of the strings in a file. -/
structure PoolFields.Read (pf : PoolFields) : Prop where
  Hosts : ∀ h ∈ pf.Hosts, Kept h
  Queue : Kept pf.Queue
  DefaultDb : Kept pf.DefaultDb

/-- The members that main and slave pools have in common. -/
structure Written (v : JValue) (pf : PoolFields) : Prop where
  SvsId : Child v (lit "SvsId") = some (.uint64 pf.SvsId.toNat)
  Hosts : Child v (lit "Hosts") = some (.array (pf.Hosts.map str))
  Threads : Child v (lit "Threads") = some (.uint64 pf.Threads.toNat)
  Queue : Child v (lit "Queue") = some (str pf.Queue)
  AutoConn : Child v (lit "AutoConn") = some (.bool pf.AutoConn)
  AutoMerge : Child v (lit "AutoMerge") = some (.bool pf.AutoMerge)
  RecvTimeout : Child v (lit "RecvTimeout") = some (.uint64 pf.RecvTimeout.toNat)
  ConnTimeout : Child v (lit "ConnTimeout") = some (.uint64 pf.ConnTimeout.toNat)
  DefaultDb : Child v (lit "DefaultDb") = some (str pf.DefaultDb)

theorem written_writeSlave (psc : PoolFields) : Written (writeSlave psc) psc := by
  constructor <;> simp [writeSlave, Child, lookup_object]

theorem written_writePool (pscMain : CPoolConfig) :
    Written (writePool pscMain)
      { pscMain.toPoolFields with ConnTimeout := pscMain.RecvTimeout } := by
  constructor <;> rw [writePool] <;> split <;> simp [Child, lookup_object]

theorem slaves_writePool (pscMain : CPoolConfig) :
    Child (writePool pscMain) (lit "Slaves") =
      if pscMain.Slaves = [] then none else some (writeMap writeSlave pscMain.Slaves) := by
  rw [writePool]
  split <;> simp [Child, lookup_object]

theorem poolFields_written {v : JValue} {pf : PoolFields} (h : Written v pf) (hpf : pf.Read)
    (main : Bool) :
    poolFields main v = { pf with
      PoolType := if main then if pf.DefaultDb ≠ [] then .Master else .Regular else .Slave } := by
  have hHosts : (stringsAt v "Hosts").map (fun s ↦ Trim (Unescape s)) = pf.Hosts := by
    rw [stringsAt_eq h.Hosts, List.map_map]
    conv_rhs => rw [← List.map_id pf.Hosts]
    refine List.map_congr_left fun t ht ↦ ?_
    have hkept := hpf.Hosts t ht
    rw [Function.comp_apply, unescape_escape hkept.settled, hkept.trim, id]
  rw [poolFields, uint64At_eq h.SvsId, hHosts, uint64At_eq h.Threads, stringAt_eq h.Queue,
    boolAt_eq h.AutoConn, boolAt_eq h.AutoMerge, uint64At_eq h.RecvTimeout,
    uint64At_eq h.ConnTimeout, stringAt_eq h.DefaultDb]
  simp only [Option.map_some, Option.getD_some, unescape_escape hpf.Queue.settled, hpf.Queue.trim,
    unescape_escape hpf.DefaultDb.settled, hpf.DefaultDb.trim, UInt32.ofNat_toNat]

/-- A slave pool, with what it has from its main pool. -/
structure PoolFields.ReadSlave (slave pc : PoolFields) : Prop where
  read : slave.Read
  SvsId : slave.SvsId = pc.SvsId
  DefaultDb : slave.DefaultDb ≠ []
  PoolType : slave.PoolType = .Slave

theorem slaveFields_writeSlave {slave pc : PoolFields} (h : slave.ReadSlave pc) :
    slaveFields pc (writeSlave slave) = slave := by
  rw [slaveFields, poolFields_written (written_writeSlave slave) h.read]
  dsimp only
  rw [if_neg h.DefaultDb, ← h.SvsId, if_neg Bool.false_ne_true, ← h.PoolType]

/-- What `GetPool` makes of a written main pool. -/
def CPoolConfig.readBack (pc : CPoolConfig) : CPoolConfig :=
  { pc with ConnTimeout := pc.RecvTimeout }

/-- A main pool. -/
structure CPoolConfig.Read (pc : CPoolConfig) : Prop where
  read : pc.toPoolFields.Read
  PoolType : pc.PoolType = if pc.DefaultDb ≠ [] then .Master else .Regular
  noSlaves : pc.PoolType ≠ .Master → pc.Slaves = []
  sorted : SortedMap.Sorted pc.Slaves
  Slaves : ∀ e ∈ pc.Slaves, scanned e.1 = true ∧ e.2.ReadSlave pc.toPoolFields

theorem getPool_writePool {pc : CPoolConfig} (h : pc.Read) :
    GetPool (writePool pc) = pc.readBack := by
  have hfields : poolFields true (writePool pc) =
      { pc.toPoolFields with ConnTimeout := pc.RecvTimeout } := by
    rw [poolFields_written (written_writePool pc) ⟨h.read.Hosts, h.read.Queue, h.read.DefaultDb⟩]
    simp only [if_pos, ← h.PoolType]
  have hslaves (hmaster : pc.PoolType = .Master) :
      (objectsAt (writePool pc) "Slaves").foldl (fun slaves m ↦ SortedMap.set m.1
        (slaveFields { pc.toPoolFields with ConnTimeout := pc.RecvTimeout } m.2) slaves) [] =
        pc.Slaves := by
    have hchild := slaves_writePool pc
    split at hchild
    · rename_i hnil
      rw [objectsAt, hchild, hnil]
      rfl
    · rw [read_writeMap writeSlave h.sorted (fun psc ↦ ⟨_, rfl⟩) hchild]
      conv_rhs => rw [← List.map_id pc.Slaves]
      refine List.map_congr_left fun e he ↦ ?_
      obtain ⟨hread, hSvsId, hDefaultDb, hPoolType⟩ := (h.Slaves e he).2
      exact congrArg (Prod.mk e.1)
        (slaveFields_writeSlave ⟨hread, hSvsId, hDefaultDb, hPoolType⟩)
  rw [GetPool, hfields, CPoolConfig.readBack]
  dsimp only
  split
  · rename_i hmaster
    rw [hslaves hmaster]
  · rename_i hmaster
    rw [← h.noSlaves hmaster]

/-! ### What is read from a file -/

theorem lexical_child {v w : JValue} {name : JString} (h : Lexical v)
    (hw : Child v name = some w) : Lexical w := by
  cases v with
  | object ms =>
    obtain ⟨l₁, l₂, rfl, -⟩ := List.lookup_eq_some_iff.1 hw
    exact (allMembers_iff.1 h (name, w) (by simp)).2
  | _ => exact nomatch hw

/-- A string that is read, or the default. -/
theorem isText_stringAt {v : JValue} {name : String} {s : JString} (h : Lexical v)
    (hs : stringAt v name = some s) : IsText s := by
  rw [stringAt] at hs
  split at hs
  · rename_i hchild
    obtain rfl := Option.some.inj hs
    exact (scanned_iff.1 (lexical_child h hchild)).2
  · exact nomatch hs

theorem isText_stringsAt {v : JValue} {name : String} {s : JString} (h : Lexical v)
    (hs : s ∈ stringsAt v name) : IsText s := by
  rw [stringsAt] at hs
  split at hs
  · rename_i vs hchild
    obtain ⟨w, hw, hsome⟩ := List.mem_filterMap.1 hs
    have hlexical := allElems_iff.1 (lexical_child h hchild) w hw
    cases w with
    | string s' =>
      obtain rfl := Option.some.inj hsome
      exact (scanned_iff.1 hlexical).2
    | _ => exact nomatch hsome
  · exact absurd hs List.not_mem_nil

theorem lexical_objectsAt {v : JValue} {name : String} {e : JString × JValue} (h : Lexical v)
    (he : e ∈ objectsAt v name) : scanned e.1 = true ∧ Lexical e.2 := by
  rw [objectsAt] at he
  split at he
  · rename_i ms hchild
    obtain ⟨⟨key, w⟩, hm, hsome⟩ := List.mem_filterMap.1 he
    have hlexical := allMembers_iff.1 (lexical_child h hchild) _ hm
    cases w with
    | object fields =>
      obtain rfl := Option.some.inj hsome
      exact hlexical
    | _ => exact nomatch hsome
  · exact absurd he List.not_mem_nil

theorem kept_stringAt {v : JValue} (h : Lexical v) (name : String) :
    Kept (((stringAt v name).map fun s ↦ Trim (Unescape s)).getD []) := by
  cases hs : stringAt v name with
  | none => exact kept_nil
  | some s => exact kept_trim (isText_stringAt h hs)

theorem getCC_read {cc : JValue} (h : Lexical cc) : (GetCC cc).Read where
  Host := by
    rw [GetCC]
    cases hs : stringAt cc "Host" with
    | none => exact kept_nil
    | some s => exact (kept_trim (isText_stringAt h hs)).toLower
  lower := by
    rw [GetCC]
    cases stringAt cc "Host" with
    | none => rfl
    | some s => exact toLower_toLower _
  UserId := by
    rw [GetCC]
    cases hs : stringAt cc "UserId" with
    | none => exact wideKept_nil
    | some s =>
      have hkept := kept_trim (isText_stringAt h hs)
      exact wideKept_toWide hkept.isText hkept.settled
  trim := by
    rw [GetCC]
    cases hs : stringAt cc "UserId" with
    | none => rfl
    | some s => 
      have hkept := kept_trim (isText_stringAt h hs)
      show Trim (ToUTF8 (ToWide _)) = ToUTF8 (ToWide _)
      rcases toUTF8_toWide hkept.isText with hback | hnil
      · rw [hback, hkept.trim]
      · rw [hnil]
        rfl
  Password := by
    rw [GetCC]
    cases hs : stringAt cc "Password" with
    | none => exact wideKept_nil
    | some s =>
      have htext := isText_stringAt h hs
      exact wideKept_toWide (isText_unescape htext) (settled_unescape htext)
  V6 := rfl

theorem poolFields_read {pool : JValue} (h : Lexical pool) (main : Bool) :
    (poolFields main pool).Read where
  Hosts t ht := by
    obtain ⟨s, hs, rfl⟩ := List.mem_map.1 ht
    exact kept_trim (isText_stringsAt h hs)
  Queue := kept_stringAt h "Queue"
  DefaultDb := kept_stringAt h "DefaultDb"

theorem slaveFields_read {pc : PoolFields} {pool : JValue} (h : Lexical pool) (hpc : pc.Read)
    (hmaster : pc.DefaultDb ≠ []) : (slaveFields pc pool).ReadSlave pc where
  read := by
    obtain ⟨hHosts, hQueue, hDefaultDb⟩ := poolFields_read h false
    refine ⟨hHosts, hQueue, ?_⟩
    rw [slaveFields]
    dsimp only
    split
    · exact hpc.DefaultDb
    · exact hDefaultDb
  SvsId := rfl
  DefaultDb := by
    rw [slaveFields]
    dsimp only
    split
    · exact hmaster
    · assumption
  PoolType := rfl

/-- An entry of a map that is read, or that was there. -/
theorem mem_foldl_set {α β : Type} {f : β → α} {ms : List (JString × β)} {ns : Map α}
    {e : JString × α} (he : e ∈ ms.foldl (fun ns m ↦ SortedMap.set m.1 (f m.2) ns) ns) :
    e ∈ ns ∨ ∃ m ∈ ms, e = (m.1, f m.2) := by
  induction ms generalizing ns with
  | nil => exact .inl he
  | cons m ms ih =>
    rcases ih he with he | ⟨m', hm', rfl⟩
    · rcases SortedMap.mem_set he with rfl | he
      · exact .inr ⟨m, List.mem_cons_self, rfl⟩
      · exact .inl he
    · exact .inr ⟨m', List.mem_cons_of_mem _ hm', rfl⟩

theorem getPool_read {pool : JValue} (h : Lexical pool) : (GetPool pool).Read := by
  have hread := poolFields_read h true
  have hmaster (hm : (poolFields true pool).PoolType = .Master) :
      (poolFields true pool).DefaultDb ≠ [] := by
    intro hnil
    have htype : (poolFields true pool).PoolType =
        if (poolFields true pool).DefaultDb ≠ [] then .Master else .Regular := rfl
    rw [htype, if_neg (not_not.2 hnil)] at hm
    exact nomatch hm
  refine ⟨hread, rfl, fun hne ↦ if_neg hne, ?_, fun e he ↦ ?_⟩
  · rw [GetPool]
    dsimp only
    split
    · exact sorted_foldl_set _ _ SortedMap.sorted_nil
    · exact SortedMap.sorted_nil
  · rw [GetPool] at he
    dsimp only at he
    split at he
    · rename_i hm
      obtain ⟨m, hm', rfl⟩ := (mem_foldl_set he).resolve_left List.not_mem_nil
      obtain ⟨hkey, hslave⟩ := lexical_objectsAt h hm'
      exact ⟨hkey, slaveFields_read hslave hread (hmaster hm)⟩
    · exact absurd he List.not_mem_nil

/-- What `Parse` makes of the strings in a file. -/
structure CSpConfig.Read (c : CSpConfig) : Prop where
  CertStore : Kept c.CertStore
  KeysAllowed : ∀ k ∈ c.KeysAllowed, IsText k ∧ k ≠ [] ∧ Trim k = k ∧ ToLower k = k
  sortedHosts : SortedMap.Sorted c.Hosts
  Hosts : ∀ e ∈ c.Hosts, scanned e.1 = true ∧ e.2.Read
  sortedPools : SortedMap.Sorted c.Pools
  Pools : ∀ e ∈ c.Pools, scanned e.1 = true ∧ e.2.Read

theorem readConfig_read {c : CSpConfig} (hc : c.Read) {jv : JValue} (h : Lexical jv) :
    (readConfig c.reset jv).Read where
  CertStore := kept_stringAt h "CertStore"
  KeysAllowed k hk := by
    rcases List.mem_append.1 hk with hk | hk
    · exact hc.KeysAllowed k hk
    · obtain ⟨t, ht, rfl⟩ := List.mem_map.1 hk
      obtain ⟨ht, hne⟩ := List.mem_filter.1 ht
      obtain ⟨s, hs, rfl⟩ := List.mem_map.1 ht
      have htext : IsText (Trim s) :=
        fun c hc ↦ isText_stringsAt h hs c ((trim_segment s).subset hc)
      refine ⟨isText_toLower htext, ?_, ?_, toLower_toLower _⟩
      · exact fun hnil ↦ of_decide_eq_true hne (List.map_eq_nil_iff.1 hnil)
      · rw [trim_toLower, trim_trim]
  sortedHosts := sorted_foldl_set GetCC _ hc.sortedHosts
  Hosts e he := by
    rcases mem_foldl_set he with he | ⟨m, hm, rfl⟩
    · exact hc.Hosts e he
    · obtain ⟨hkey, hcc⟩ := lexical_objectsAt h hm
      exact ⟨hkey, getCC_read hcc⟩
  sortedPools := sorted_foldl_set GetPool _ SortedMap.sorted_nil
  Pools e he := by
    obtain ⟨m, hm, rfl⟩ := (mem_foldl_set he).resolve_left List.not_mem_nil
    obtain ⟨hkey, hpool⟩ := lexical_objectsAt h hm
    exact ⟨hkey, getPool_read hpool⟩

/-! ### The whole configuration -/

theorem child_configValue (c : CSpConfig) (workDirectory : JString) :
    Child (configValue c workDirectory) (lit "CertStore") = some (str c.CertStore) ∧
    Child (configValue c workDirectory) (lit "KeysAllowed") =
      some (.array (c.KeysAllowed.map str)) ∧
    Child (configValue c workDirectory) (lit "Hosts") = some (writeMap writeCC c.Hosts) ∧
    Child (configValue c workDirectory) (lit "Pools") = some (writeMap writePool c.Pools) := by
  simp [configValue, Child, lookup_object]

/-- The keys that are allowed, as they are read back. -/
theorem keysAllowed_written {c : CSpConfig} (h : c.Read) (workDirectory : JString) :
    (readConfig CSpConfig.new.reset (configValue c workDirectory)).KeysAllowed =
      c.KeysAllowed.map fun k ↦ ToLower (escape false k) := by
  obtain ⟨-, hKeysAllowed, -, -⟩ := child_configValue c workDirectory
  have htrim : (c.KeysAllowed.map (escape false)).map Trim = c.KeysAllowed.map (escape false) := by
    rw [List.map_map]
    exact List.map_congr_left fun k hk ↦ trim_escape (h.KeysAllowed k hk).2.2.1
  have hfilter : (c.KeysAllowed.map (escape false)).filter (· ≠ []) =
      c.KeysAllowed.map (escape false) := by
    refine List.filter_eq_self.2 fun t ht ↦ decide_eq_true ?_
    obtain ⟨k, hk, rfl⟩ := List.mem_map.1 ht
    exact fun hnil ↦ (h.KeysAllowed k hk).2.1 (escape_eq_nil.1 hnil)
  rw [readConfig, stringsAt_eq hKeysAllowed, htrim, hfilter, List.map_map]
  rfl

/-- **What is read of a written configuration.** -/
theorem readConfig_configValue {c : CSpConfig} (h : c.Read) (workDirectory : JString) :
    let d := readConfig CSpConfig.new.reset (configValue c workDirectory)
    d.CertStore = c.CertStore ∧
      d.Hosts = c.Hosts.map (fun e ↦ (e.1, e.2.readBack)) ∧
      d.Pools = c.Pools.map (fun e ↦ (e.1, e.2.readBack)) := by
  obtain ⟨hCertStore, hKeysAllowed, hHosts, hPools⟩ := child_configValue c workDirectory
  refine ⟨?_, ?_, ?_⟩
  · rw [readConfig, stringAt_eq hCertStore]
    simp only [Option.map_some, Option.getD_some, unescape_escape h.CertStore.settled,
      h.CertStore.trim]
  · refine (read_writeMap writeCC h.sortedHosts (fun ctx ↦ ⟨_, rfl⟩) hHosts).trans
      (List.map_congr_left fun e he ↦ ?_)
    rw [getCC_writeCC (h.Hosts e he).2]
  · refine (read_writeMap writePool h.sortedPools (fun pc ↦ ⟨_, rfl⟩) hPools).trans
      (List.map_congr_left fun e he ↦ ?_)
    rw [getPool_writePool (h.Pools e he).2]

/-! ### The checks again -/

theorem checkHosts_map {f : CConnectionContext → CConnectionContext}
    (hf : ∀ cc, (f cc).Host = cc.Host ∧ (f cc).Port = cc.Port) (vCC : List CConnectionContext)
    (hosts : Map CConnectionContext) :
    checkHosts (vCC.map f) (hosts.map fun e ↦ (e.1, f e.2)) = checkHosts vCC hosts := by
  induction hosts generalizing vCC with
  | nil => rfl
  | cons e hosts ih =>
    obtain ⟨hHost, hPort⟩ := hf e.2
    have hany : (vCC.map f).any (fun s ↦ s.Host = e.2.Host && s.Port = e.2.Port) =
        vCC.any fun s ↦ s.Host = e.2.Host && s.Port = e.2.Port := by
      rw [List.any_map]
      refine List.any_congr rfl fun cc ↦ ?_
      rw [Function.comp_apply, (hf cc).1, (hf cc).2]
    have ih := ih (vCC ++ [e.2])
    rw [List.map_append, List.map_singleton] at ih
    rw [List.map_cons, checkHosts, checkHosts, hHost, hPort, hany, ih]

theorem hostErrors_map {f : CConnectionContext → CConnectionContext}
    (hf : ∀ cc, (f cc).Host = cc.Host ∧ (f cc).Port = cc.Port) (Hosts : Map CConnectionContext) :
    hostErrors (Hosts.map fun e ↦ (e.1, f e.2)) = hostErrors Hosts := by
  have hhosts := checkHosts_map hf [] Hosts
  rw [List.map_nil] at hhosts
  rw [hostErrors, hostErrors, hhosts]
  simp only [List.map_eq_nil_iff]

section CheckPools

variable {Hosts Hosts' : Map CConnectionContext} (hHosts : ExistHost Hosts' = ExistHost Hosts)

include hHosts

theorem checkPoolHosts_congr (pool m_errMsg : JString) (hs : List JString) :
    checkPoolHosts Hosts' pool m_errMsg hs = checkPoolHosts Hosts pool m_errMsg hs := by
  induction hs generalizing m_errMsg with
  | nil => rfl
  | cons h hs ih => rw [checkPoolHosts, checkPoolHosts, hHosts, ih]

theorem checkSlaves_congr (pool : JString) (slaves : Map PoolFields) (c : Check) :
    checkSlaves Hosts' pool slaves c = checkSlaves Hosts pool slaves c := by
  induction slaves generalizing c with
  | nil => rfl
  | cons e slaves ih =>
    rw [checkSlaves, checkSlaves, checkPoolHosts_congr hHosts, ih]

variable {f : CPoolConfig → CPoolConfig}
    (hf : ∀ pc, (f pc).Hosts = pc.Hosts ∧ (f pc).Slaves = pc.Slaves ∧
      serviceError (f pc).toPoolFields = serviceError pc.toPoolFields)

include hf

theorem checkPools_map (pools : Map CPoolConfig) (c : Check) :
    checkPools Hosts' (pools.map fun e ↦ (e.1, f e.2)) c = checkPools Hosts pools c := by
  induction pools generalizing c with
  | nil => rfl
  | cons e pools ih =>
    obtain ⟨hhosts, -, hservice⟩ := hf e.2
    rw [List.map_cons, checkPools, checkPools, hservice, hhosts, checkPoolHosts_congr hHosts, ih]

theorem checkAllSlaves_map (pools : Map CPoolConfig) (c : Check) :
    checkAllSlaves Hosts' (pools.map fun e ↦ (e.1, f e.2)) c = checkAllSlaves Hosts pools c := by
  induction pools generalizing c with
  | nil => rfl
  | cons e pools ih =>
    rw [List.map_cons, checkAllSlaves, checkAllSlaves, (hf e.2).2.1, checkSlaves_congr hHosts]
    split
    · exact ih _
    · rfl

theorem checkPoolErrors_map (Pools : Map CPoolConfig) (c : Check) :
    CheckPoolErrors Hosts' (Pools.map fun e ↦ (e.1, f e.2)) c = CheckPoolErrors Hosts Pools c := by
  rw [CheckPoolErrors, CheckPoolErrors, checkPools_map hHosts hf]
  simp only [List.map_eq_nil_iff]
  split
  · rfl
  · split
    · exact checkAllSlaves_map hHosts hf Pools _
    · rfl

end CheckPools

/-- The checks find nothing. -/
def Accepted (c : CSpConfig) : Prop :=
  hostErrors c.Hosts = [] ∧ (CheckPoolErrors c.Hosts c.Pools ⟨[], []⟩).m_errMsg = []

/-- The checks do not look at what is not read back. -/
theorem filled_configValue {c : CSpConfig} (h : c.Read) (hc : Accepted c)
    (workDirectory : JString) :
    (CSpConfig.new.filled (configValue c workDirectory)).m_errMsg = [] := by
  obtain ⟨hhost, hpool⟩ := hc
  obtain ⟨-, hhosts, hpools⟩ := readConfig_configValue h workDirectory
  have hexist : ExistHost (c.Hosts.map fun e ↦ (e.1, e.2.readBack)) = ExistHost c.Hosts := by
    funext key
    rw [ExistHost, ExistHost, List.any_map]
    rfl
  have hctx (ctx : CConnectionContext) :
      ctx.readBack.Host = ctx.Host ∧ ctx.readBack.Port = ctx.Port := ⟨rfl, rfl⟩
  have hpc (pc : CPoolConfig) : pc.readBack.Hosts = pc.Hosts ∧ pc.readBack.Slaves = pc.Slaves ∧
      serviceError pc.readBack.toPoolFields = serviceError pc.toPoolFields := ⟨rfl, rfl, rfl⟩
  have hherr := (hostErrors_map hctx c.Hosts).trans hhost
  rw [← checkPoolErrors_map hexist hpc, ← hhosts, ← hpools] at hpool
  rw [← hhosts] at hherr
  rw [CSpConfig.filled, Normalize, if_neg (not_not.2 hherr)]
  exact hpool

/-! ### Configurations that are held -/

theorem read_new : CSpConfig.new.Read :=
  ⟨kept_nil, nofun, SortedMap.sorted_nil, nofun, SortedMap.sorted_nil, nofun⟩

/-- What an object holds was read from files, and its pools were checked. -/
structure Held (c : CSpConfig) : Prop where
  read : c.Read
  accepted : c.Pools ≠ [] → Accepted c

theorem lexical_of_parseFromFile {f : File} {jv : JValue} (h : ParseFromFile f = some jv) :
    Lexical jv := lexical_of_parse h

theorem Held.parse {c : CSpConfig} (h : Held c) (call : Call) : Held (Parse c call).2 := by
  by_cases hpools : c.Pools = []
  · cases hcall : call.file.bind ParseFromFile with
    | none =>
      obtain ⟨m_errMsg, hparse⟩ := parse_unread hpools hcall
      rw [hparse]
      exact ⟨⟨kept_nil, h.read.KeysAllowed, h.read.sortedHosts, h.read.Hosts,
        SortedMap.sorted_nil, List.forall_mem_nil _⟩, fun hne ↦ absurd rfl hne⟩
    | some jv =>
      obtain ⟨f, -, hf⟩ := Option.bind_eq_some_iff.1 hcall
      obtain ⟨hCertStore, hKeysAllowed, hsortedHosts, hHosts, hsortedPools, hPools⟩ :=
        readConfig_read h.read (lexical_of_parseFromFile hf)
      rw [parse_read hpools hcall]
      split
      · rw [CSpConfig.filled, normalize_eq]
        exact ⟨⟨hCertStore, hKeysAllowed, hsortedHosts, hHosts, SortedMap.sorted_nil,
          List.forall_mem_nil _⟩, fun hne ↦ absurd rfl hne⟩
      · rename_i herr
        obtain ⟨hhost, -, hpool⟩ := normalize_ok (not_not.1 herr)
        rw [CSpConfig.filled, normalize_eq]
        exact ⟨⟨hCertStore, hKeysAllowed, hsortedHosts, hHosts, hsortedPools, hPools⟩,
          fun _ ↦ ⟨hhost, hpool⟩⟩
  · rw [parse_loaded hpools]
    exact h

theorem held_after (calls : List Call) : Held (after calls) :=
  foldl_history (P := Held) (Q := fun _ _ ↦ True) (fun _ call h _ ↦ h.parse call)
    ⟨read_new, fun hne ↦ absurd rfl hne⟩ fun _ _ ↦ trivial

/-! ### The written text -/

/-- The texts of a pool that are written. -/
def PoolFields.texts (pf : PoolFields) : List JString := pf.Hosts ++ [pf.Queue, pf.DefaultDb]

/-- The texts of a context that are written. -/
def CConnectionContext.texts (ctx : CConnectionContext) : List JString :=
  [ctx.Host, ToUTF8 ctx.UserId, ToUTF8 ctx.Password]

/-- All texts that are written. -/
def CSpConfig.texts (c : CSpConfig) (workDirectory : JString) : List JString :=
  [c.CertStore, workDirectory] ++ c.Hosts.flatMap (fun e ↦ e.2.texts) ++ c.KeysAllowed ++
    c.Pools.flatMap fun e ↦ e.2.texts ++ e.2.Slaves.flatMap fun s ↦ s.2.texts

/-- The names of the members. -/
def memberNames : List String :=
  ["AutoConn", "AutoMerge", "CertStore", "ConnTimeout", "DefaultDb", "EncrytionMethod", "Host",
    "Hosts", "KeysAllowed", "Password", "PoolType", "Pools", "Port", "Queue", "QueuePassword",
    "RecvTimeout", "Slaves", "SvsId", "Threads", "UserId", "V6", "WorkingDir", "Zip"]

theorem scanned_memberNames : ∀ name ∈ memberNames, scanned (lit name) = true := by
  decide +kernel

section Parts

variable {p : JString → Bool} {i : ℤ → Bool} (hp : ∀ s, scanned s = true → p s = true)

include hp

/-- The members of an object are written, and none is lost. -/
theorem allParts_members {ms : List (String × JValue)} (hnames : ∀ m ∈ ms, m.1 ∈ memberNames)
    (h : ∀ m ∈ ms, (object ms).lookup (lit m.1) = some m.2) :
    allParts p i (.object (object ms)) = true ↔ ∀ m ∈ ms, allParts p i m.2 = true :=
  allParts_object (fun m hm ↦ hp _ (scanned_memberNames _ (hnames m hm))) h

theorem allParts_writeCC (ctx : CConnectionContext) :
    allParts p i (writeCC ctx) = true ↔ ∀ t ∈ ctx.texts, p (escape false t) = true := by
  have hmethod : allParts p i ctx.EncrytionMethod.int = true := by
    cases ctx.EncrytionMethod <;> rfl
  rw [writeCC, allParts_members hp (by simp [memberNames]) (by simp [lookup_object])]
  simp [CConnectionContext.texts, hmethod]

theorem allParts_writeSlave (psc : PoolFields) :
    allParts p i (writeSlave psc) = true ↔ ∀ t ∈ psc.texts, p (escape false t) = true := by
  have htype : allParts p i psc.PoolType.int = true := by
    cases psc.PoolType <;> rfl
  rw [writeSlave, allParts_members hp (by simp [memberNames]) (by simp [lookup_object])]
  simp [PoolFields.texts, htype, or_imp, forall_and]

theorem allParts_writePool {pc : CPoolConfig} (h : pc.Read) :
    allParts p i (writePool pc) = true ↔ (∀ t ∈ pc.texts, p (escape false t) = true) ∧
      ∀ e ∈ pc.Slaves, ∀ t ∈ e.2.texts, p (escape false t) = true := by
  have htype : allParts p i pc.PoolType.int = true := by
    cases pc.PoolType <;> rfl
  have hslaves : allParts p i (writeMap writeSlave pc.Slaves) = true ↔
      ∀ e ∈ pc.Slaves, ∀ t ∈ e.2.texts, p (escape false t) = true := by
    rw [allParts_writeMap writeSlave h.sorted]
    refine forall₂_congr fun e he ↦ ?_
    rw [allParts_writeSlave hp]
    exact and_iff_right (hp _ (h.Slaves e he).1)
  rw [writePool]
  split
  · rename_i hnil
    rw [allParts_members hp (by simp [memberNames]) (by simp [lookup_object]), hnil]
    simp [PoolFields.texts, htype, or_imp, forall_and]
  · rw [allParts_members hp (by simp [memberNames]) (by simp [lookup_object])]
    simp [PoolFields.texts, htype, hslaves, or_imp, forall_and, and_assoc]

theorem allParts_configValue {c : CSpConfig} (h : c.Read) (workDirectory : JString) :
    allParts p i (configValue c workDirectory) = true ↔
      ∀ t ∈ c.texts workDirectory, p (escape false t) = true := by
  have hqp : allParts p i (ofInt64 (if c.m_bQP then 1 else 0)) = true := by
    cases c.m_bQP <;> rfl
  have hhosts : allParts p i (writeMap writeCC c.Hosts) = true ↔
      ∀ e ∈ c.Hosts, ∀ t ∈ e.2.texts, p (escape false t) = true := by
    rw [allParts_writeMap writeCC h.sortedHosts]
    refine forall₂_congr fun e he ↦ ?_
    rw [allParts_writeCC hp]
    exact and_iff_right (hp _ (h.Hosts e he).1)
  have hpools : allParts p i (writeMap writePool c.Pools) = true ↔
      ∀ e ∈ c.Pools, (∀ t ∈ e.2.texts, p (escape false t) = true) ∧
        ∀ s ∈ e.2.Slaves, ∀ t ∈ s.2.texts, p (escape false t) = true := by
    rw [allParts_writeMap writePool h.sortedPools]
    refine forall₂_congr fun e he ↦ ?_
    rw [allParts_writePool hp (h.Pools e he).2]
    exact and_iff_right (hp _ (h.Pools e he).1)
  rw [configValue, allParts_members hp (by simp [memberNames]) (by simp [lookup_object])]
  simp only [CSpConfig.texts, List.forall_mem_append, List.forall_mem_cons, List.not_mem_nil,
    false_imp_iff, implies_true, List.forall_mem_flatMap, allParts_str, allParts_strs, hqp, hhosts,
    hpools, and_assoc, true_and, and_true]

end Parts

theorem isText_of_scanned {s : JString} (h : scanned s = true) : IsText s := (scanned_iff.1 h).2

theorem built_str {t : JString} (h : IsText t) : Built (str t) :=
  .string t false fun c hc ↦ (h c hc).1

theorem built_strs {texts : List JString} (h : ∀ t ∈ texts, IsText t) :
    Built (.array (texts.map str)) :=
  .array _ (List.forall_mem_map.2 fun t ht ↦ built_str (h t ht))

theorem built_object {ms : List (String × JValue)} (hnames : ∀ m ∈ ms, m.1 ∈ memberNames)
    (h : ∀ m ∈ ms, Built m.2) : Built (.object (object ms)) := by
  refine .object _ (sorted_object ms) (fun e he ↦ ?_) fun e he ↦ ?_
  · obtain ⟨m, hm, rfl⟩ := mem_object he
    exact fun c hc ↦ (isText_of_scanned (scanned_memberNames _ (hnames m hm)) c hc).1
  · obtain ⟨m, hm, rfl⟩ := mem_object he
    exact h m hm

theorem built_writeMap {α : Type} (write : α → JValue) {m : Map α} (hm : SortedMap.Sorted m)
    (h : ∀ e ∈ m, scanned e.1 = true ∧ Built (write e.2)) : Built (writeMap write m) := by
  rw [writeMap_eq write hm]
  refine .object _ ?_ (List.forall_mem_map.2 fun e he ↦ ?_) (List.forall_mem_map.2 fun e he ↦ ?_)
  · rw [List.map_map]
    exact hm
  · exact fun c hc ↦ (isText_of_scanned (h e he).1 c hc).1
  · exact (h e he).2

theorem built_uint32 (n : UInt32) : Built (.uint64 n.toNat) :=
  .uint64 _ (n.toNat_lt.trans (by norm_num))

theorem built_writeCC {ctx : CConnectionContext} (h : ctx.Read) : Built (writeCC ctx) := by
  have hport : Built (ofInt64 ctx.Port.toNat) := by
    have := ctx.Port.toNat_lt
    exact .int64 _ (by omega) (by omega)
  have hmethod : Built ctx.EncrytionMethod.int := by
    cases ctx.EncrytionMethod <;> exact .int64 _ (by norm_num) (by norm_num)
  refine built_object (by simp [memberNames]) ?_
  simp only [List.forall_mem_cons, List.not_mem_nil, false_imp_iff, implies_true, and_true]
  exact ⟨built_str h.Host.isText, hport, built_str h.UserId.isText, built_str h.Password.isText,
    hport, hmethod, .bool _, .bool _⟩

theorem built_poolType (t : tagPoolType) : Built t.int := by
  cases t <;> exact .int64 _ (by norm_num) (by norm_num)

theorem built_writeSlave {psc : PoolFields} (h : psc.Read) : Built (writeSlave psc) := by
  refine built_object (by simp [memberNames]) ?_
  simp only [List.forall_mem_cons, List.not_mem_nil, false_imp_iff, implies_true, and_true]
  exact ⟨built_uint32 _, built_strs fun t ht ↦ (h.Hosts t ht).isText, built_uint32 _,
    built_str h.Queue.isText, .bool _, .bool _, built_uint32 _, built_uint32 _,
    built_str h.DefaultDb.isText, built_poolType _⟩

theorem built_writePool {pc : CPoolConfig} (h : pc.Read) : Built (writePool pc) := by
  have hslaves : Built (writeMap writeSlave pc.Slaves) :=
    built_writeMap writeSlave h.sorted fun e he ↦
      ⟨(h.Slaves e he).1, built_writeSlave (h.Slaves e he).2.read⟩
  have hhosts := built_strs fun t ht ↦ (h.read.Hosts t ht).isText
  rw [writePool]
  split
  · refine built_object (by simp [memberNames]) ?_
    simp only [List.forall_mem_append, List.forall_mem_cons, List.not_mem_nil, false_imp_iff,
      implies_true, and_true]
    exact ⟨⟨built_uint32 _, hhosts, built_uint32 _, built_str h.read.Queue.isText, .bool _,
      .bool _, built_uint32 _, built_uint32 _, built_str h.read.DefaultDb.isText⟩,
      built_poolType _⟩
  · refine built_object (by simp [memberNames]) ?_
    simp only [List.forall_mem_append, List.forall_mem_cons, List.not_mem_nil, false_imp_iff,
      implies_true, and_true]
    exact ⟨⟨⟨built_uint32 _, hhosts, built_uint32 _, built_str h.read.Queue.isText, .bool _,
      .bool _, built_uint32 _, built_uint32 _, built_str h.read.DefaultDb.isText⟩, hslaves⟩,
      built_poolType _⟩

theorem built_configValue {c : CSpConfig} (h : c.Read) {workDirectory : JString}
    (hdir : IsText workDirectory) : Built (configValue c workDirectory) := by
  have hqp : Built (ofInt64 (if c.m_bQP then 1 else 0)) := by
    cases c.m_bQP <;> exact .int64 _ (by norm_num) (by norm_num)
  refine built_object (by simp [memberNames]) ?_
  simp only [List.forall_mem_cons, List.not_mem_nil, false_imp_iff, implies_true, and_true]
  exact ⟨built_str h.CertStore.isText, built_str hdir, hqp,
    built_writeMap writeCC h.sortedHosts fun e he ↦
      ⟨(h.Hosts e he).1, built_writeCC (h.Hosts e he).2⟩,
    built_strs fun k hk ↦ (h.KeysAllowed k hk).1,
    built_writeMap writePool h.sortedPools fun e he ↦
      ⟨(h.Pools e he).1, built_writePool (h.Pools e he).2⟩⟩

theorem isText_texts {c : CSpConfig} (h : c.Read) {workDirectory : JString}
    (hdir : IsText workDirectory) : ∀ t ∈ c.texts workDirectory, IsText t := by
  have hpool (pf : PoolFields) (hpf : pf.Read) : ∀ t ∈ pf.texts, IsText t := by
    simp only [PoolFields.texts, List.forall_mem_append, List.forall_mem_cons, List.not_mem_nil,
      false_imp_iff, implies_true, and_true]
    exact ⟨fun t ht ↦ (hpf.Hosts t ht).isText, hpf.Queue.isText, hpf.DefaultDb.isText⟩
  simp only [CSpConfig.texts, CConnectionContext.texts, List.forall_mem_append,
    List.forall_mem_cons, List.not_mem_nil, false_imp_iff, implies_true, and_true,
    List.forall_mem_flatMap]
  refine ⟨⟨⟨⟨h.CertStore.isText, hdir⟩, fun e he ↦ ?_⟩, fun k hk ↦ (h.KeysAllowed k hk).1⟩,
    fun e he ↦ ?_⟩
  · obtain ⟨hHost, -, hUserId, -, hPassword, -⟩ := (h.Hosts e he).2
    exact ⟨hHost.isText, hUserId.isText, hPassword.isText⟩
  · have hpc := (h.Pools e he).2
    exact ⟨hpool _ hpc.read, fun s hs ↦ hpool _ (hpc.Slaves s hs).2.read⟩

/-- No written text has a control character. -/
def NoControl (c : CSpConfig) (workDirectory : JString) : Prop :=
  ∀ t ∈ c.texts workDirectory, ∀ u ∈ t, code ' ' ≤ u

instance (c : CSpConfig) (workDirectory : JString) : Decidable (NoControl c workDirectory) :=
  inferInstanceAs (Decidable (∀ t ∈ c.texts workDirectory, ∀ u ∈ t, code ' ' ≤ u))

theorem readable_configValue {c : CSpConfig} (h : c.Read) {workDirectory : JString}
    (hdir : IsText workDirectory) :
    Readable (configValue c workDirectory) ↔ NoControl c workDirectory := by
  rw [Readable, allParts_configValue (fun s hs ↦ (scanned_iff.1 hs).1) h, NoControl]
  refine forall₂_congr fun t ht ↦ ?_
  have htext := isText_texts h hdir t ht
  exact stringBody_escape_iff (fun c hc ↦ (htext c hc).1) (fun c hc ↦ (htext c hc).2) false

/-- **The written file is read** as what was written, or not at all. -/
theorem parseFromFile_written {c : CSpConfig} (h : c.Read) (hpools : c.Pools ≠ [])
    {workDirectory : JString} (hdir : IsText workDirectory) {pretty : Bool} {f : File}
    (hf : f.bytes = (GetConfig c workDirectory pretty).map UInt8.ofNat) :
    ParseFromFile f =
      if NoControl c workDirectory then some (configValue c workDirectory) else none := by
  classical
  have hbuilt := built_configValue h hdir
  have htexts := isText_texts h hdir
  rw [GetConfig, if_neg hpools] at hf
  have hunits : IsText (stringify ⟨pretty, 2, id⟩ 0 (configValue c workDirectory)) := by
    refine units_stringify (P := fun u ↦ u ≠ 0 ∧ u < 256) _ (fun u h0 hu ↦ ⟨h0, by omega⟩) _ 0
      hbuilt.wellFormed ((allParts_configValue (fun s hs ↦ ?_) h workDirectory).2 fun t ht ↦ ?_)
    · exact decide_eq_true (isText_of_scanned hs)
    · exact decide_eq_true (isText_escape (htexts t ht))
  have hquotable : allParts (fun s ↦ decide (Quotable s)) (fun _ ↦ true)
      (configValue c workDirectory) = true := by
    refine (allParts_configValue (fun s hs ↦ ?_) h workDirectory).2 fun t ht ↦ ?_
    · exact decide_eq_true (.inl (scanned_iff.1 hs).1)
    · have htext := htexts t ht
      exact decide_eq_true
        (quotable_escape (fun u hu ↦ (htext u hu).1) (fun u hu ↦ (htext u hu).2) false)
  have hread := parse_stringify_eq hbuilt (fun s hs ↦ of_decide_eq_true hs) hquotable
    ⟨pretty, 2, id⟩
  have hchar : charText f.bytes = stringify ⟨pretty, 2, id⟩ 0 (configValue c workDirectory) := by
    rw [hf, charText, map_toNat_ofNat hunits, cString_eq fun u hu ↦ (hunits u hu).1]
  -- The text begins with a brace, so there is no byte order mark.
  have hmark : f.bytes.take 3 ≠ [0xef, 0xbb, 0xbf] := by
    rw [hf]
    exact fun hbom ↦ absurd (List.cons.inj hbom).1 (by decide)
  rw [ParseFromFile, if_neg hmark, hchar, hread]
  simp only [readable_configValue h hdir]

/-! ### The round trip -/

/-- The same configuration. -/
def SameConfig (d c : CSpConfig) : Prop :=
  d.Hosts = c.Hosts ∧ d.Pools = c.Pools ∧ d.KeysAllowed = c.KeysAllowed ∧ d.CertStore = c.CertStore

theorem sameConfig_filled (c : CSpConfig) (jv : JValue) :
    SameConfig (c.filled jv) (readConfig c.reset jv) := by
  rw [CSpConfig.filled, normalize_eq]
  exact ⟨rfl, rfl, rfl, rfl⟩

/-- The text of `GetConfig`, written to a file and parsed in a fresh object, gives what it was made
of. -/
def ComesBack (c : CSpConfig) (workDirectory : JString) (pretty : Bool) : Prop :=
  ∃ f : File, f.bytes = (GetConfig c workDirectory pretty).map UInt8.ofNat ∧
    ∀ (midTier : Bool) (jsonConfig : Option JString),
      Succeeds .new ⟨midTier, jsonConfig, some f⟩ ∧
        SameConfig (Parse .new ⟨midTier, jsonConfig, some f⟩).2 c

/-- What is written is read as it was. -/
structure Portable (c : CSpConfig) (workDirectory : JString) (pretty : Bool) : Prop where
  Zip : ∀ e ∈ c.Hosts, e.2.Zip = false
  ConnTimeout : ∀ e ∈ c.Pools, e.2.ConnTimeout = e.2.RecvTimeout
  KeysAllowed : ∀ k ∈ c.KeysAllowed, ∀ u ∈ k, isEscaped u = false
  noControl : NoControl c workDirectory
  small : (GetConfig c workDirectory pretty).length + 4 < 2 ^ 32

theorem map_entries_eq_iff {α : Type} {f : α → α} {m : Map α} :
    (m.map fun e ↦ (e.1, f e.2)) = m ↔ ∀ e ∈ m, f e.2 = e.2 := by
  conv_lhs => rhs; rw [← List.map_id m]
  rw [List.map_inj_left]
  exact forall₂_congr fun e _ ↦ ⟨fun h ↦ congrArg Prod.snd h, fun h ↦ Prod.ext rfl h⟩

theorem readBack_ctx_iff {ctx : CConnectionContext} : ctx.readBack = ctx ↔ ctx.Zip = false := by
  obtain ⟨Host, Port, UserId, Password, EncrytionMethod, V6, Zip⟩ := ctx
  simp [CConnectionContext.readBack, eq_comm]

theorem readBack_pool_iff {pc : CPoolConfig} :
    pc.readBack = pc ↔ pc.ConnTimeout = pc.RecvTimeout := by
  obtain ⟨⟨SvsId, Hosts, Threads, Queue, AutoConn, AutoMerge, RecvTimeout, ConnTimeout, DefaultDb,
    PoolType⟩, Slaves⟩ := pc
  simp [CPoolConfig.readBack, eq_comm]

theorem toLower_escape_iff {k : JString} (hk : ToLower k = k) :
    ToLower (escape false k) = k ↔ ∀ u ∈ k, isEscaped u = false := by
  constructor
  · intro h
    have hlength := congrArg List.length h
    rw [ToLower, List.length_map] at hlength
    exact escape_length_iff.1 hlength
  · intro h
    rw [escape_eq_self h, hk]

/-- What is read of a written configuration is all of it. -/
theorem readConfig_written_iff {c : CSpConfig} (h : c.Read) (workDirectory : JString) :
    SameConfig (readConfig CSpConfig.new.reset (configValue c workDirectory)) c ↔
      (∀ e ∈ c.Hosts, e.2.Zip = false) ∧ (∀ e ∈ c.Pools, e.2.ConnTimeout = e.2.RecvTimeout) ∧
        ∀ k ∈ c.KeysAllowed, ∀ u ∈ k, isEscaped u = false := by
  obtain ⟨hCertStore, hHosts, hPools⟩ := readConfig_configValue h workDirectory
  have hkeys : (c.KeysAllowed.map fun k ↦ ToLower (escape false k)) = c.KeysAllowed ↔
      ∀ k ∈ c.KeysAllowed, ∀ u ∈ k, isEscaped u = false := by
    conv_lhs => rhs; rw [← List.map_id c.KeysAllowed]
    rw [List.map_inj_left]
    exact forall₂_congr fun k hk ↦ toLower_escape_iff (h.KeysAllowed k hk).2.2.2
  rw [SameConfig, hHosts, hPools, hCertStore, keysAllowed_written h, map_entries_eq_iff,
    map_entries_eq_iff, hkeys, and_iff_left rfl]
  simp only [readBack_ctx_iff, readBack_pool_iff]

/-- What is held comes back exactly if it is portable. -/
theorem settings_return_iff {c : CSpConfig} (h : Held c) (hpools : c.Pools ≠ []) {dir : JString}
    (hdir : IsText dir) (pretty : Bool) : ComesBack c dir pretty ↔ Portable c dir pretty := by
  obtain ⟨hread, haccepted⟩ := h
  have haccepted := haccepted hpools
  have hiff := readConfig_written_iff hread dir
  have hparse {f : File} (hf : ParseFromFile f = some (configValue c dir)) (midTier : Bool)
      (jsonConfig : Option JString) :
      Parse .new ⟨midTier, jsonConfig, some f⟩ =
        (true, { CSpConfig.new.filled (configValue c dir) with m_bMidTier := midTier }) := by
    have hread' : (Call.mk midTier jsonConfig (some f)).file.bind ParseFromFile =
        some (configValue c dir) := hf
    have hnew : CSpConfig.new.Pools = [] := rfl
    rw [parse_read hnew hread', if_neg (not_not.2 (filled_configValue hread haccepted dir))]
  have hsame (midTier : Bool) :
      SameConfig { CSpConfig.new.filled (configValue c dir) with m_bMidTier := midTier } c ↔
        SameConfig (readConfig CSpConfig.new.reset (configValue c dir)) c := by
    obtain ⟨hHosts, hPools, hKeysAllowed, hCertStore⟩ :=
      sameConfig_filled CSpConfig.new (configValue c dir)
    rw [SameConfig, SameConfig, hHosts, hPools, hKeysAllowed, hCertStore]
  constructor
  · rintro ⟨f, hf, hcomes⟩
    have hfile := parseFromFile_written hread hpools hdir hf
    obtain ⟨hsucceeds, hequal⟩ := hcomes false none
    have hcontrol : NoControl c dir := by
      by_contra hcontrol
      rw [if_neg hcontrol] at hfile
      have hnone : (Call.mk false none (some f)).file.bind ParseFromFile = none := hfile
      have hnew : CSpConfig.new.Pools = [] := rfl
      obtain ⟨m_errMsg, hunread⟩ := parse_unread hnew hnone
      rw [Succeeds, hunread] at hsucceeds
      exact Bool.false_ne_true hsucceeds
    rw [if_pos hcontrol] at hfile
    rw [hparse hfile, hsame, hiff] at hequal
    have hsmall := f.small
    rw [hf, List.length_map] at hsmall
    exact ⟨hequal.1, hequal.2.1, hequal.2.2, hcontrol, hsmall⟩
  · rintro ⟨hZip, hConnTimeout, hKeysAllowed, hcontrol, hsmall⟩
    refine ⟨⟨_, by rwa [List.length_map]⟩, rfl, fun midTier jsonConfig ↦ ?_⟩
    have hfile := parseFromFile_written (f := ⟨_, by rwa [List.length_map]⟩) hread hpools hdir rfl
    rw [if_pos hcontrol] at hfile
    rw [Succeeds, hparse hfile, hsame, hiff]
    exact ⟨rfl, hZip, hConnTimeout, hKeysAllowed⟩

/-- **A configuration that was loaded** comes back from its text exactly if it is portable. -/
theorem configuration_comes_back_iff (calls : List Call)
    (h : ∃ e ∈ history .new calls, Succeeds e.1 e.2) (workDirectory : List UInt8)
    (pretty : Bool) :
    ComesBack (after calls) (charText workDirectory) pretty ↔
      Portable (after calls) (charText workDirectory) pretty :=
  settings_return_iff (held_after calls) (loaded_of_succeeds inv_new (.inr h))
    (isText_charText workDirectory) pretty

/-- A call that reads the sample file. -/
def sampleCall : Call := ⟨false, none, some sampleFile⟩

theorem sample_comes_back : ComesBack (after [sampleCall]) (charText []) true :=
  (configuration_comes_back_iff [sampleCall] ⟨_, List.mem_cons_self, by decide +kernel⟩ [] true).2
    ⟨by decide +kernel, by decide +kernel, by decide +kernel, by decide +kernel,
      by decide +kernel⟩

/-- A host with compression, and a pool with a time-out for connecting. -/
def compressedFile : File where
  bytes := (stringify ⟨false, 2, id⟩ 0 (.object [
    (lit "Hosts", .object [(lit "h", .object [(lit "Host", .string (lit "localhost")),
      (lit "Port", .uint64 20901), (lit "Zip", .bool true)])]),
    (lit "Pools", .object [(lit "p", .object [(lit "ConnTimeout", .uint64 5000),
      (lit "Hosts", .array [.string (lit "h")]),
      (lit "SvsId", .uint64 sidQueue.toNat)])])])).map UInt8.ofNat
  small := by decide +kernel

/-- A call that reads this file. -/
def compressedCall : Call := ⟨false, none, some compressedFile⟩

/-- Neither the compression nor the time-out comes back. -/
theorem compression_lost :
    (∃ e ∈ history .new [compressedCall], Succeeds e.1 e.2) ∧
      ¬ ComesBack (after [compressedCall]) (charText []) true := by
  have hsucceeds : Succeeds .new compressedCall := by decide +kernel
  have hrun : ∃ e ∈ history .new [compressedCall], Succeeds e.1 e.2 :=
    ⟨_, List.mem_cons_self, hsucceeds⟩
  have hlost : ¬ ∀ e ∈ (after [compressedCall]).Hosts, e.2.Zip = false := by decide +kernel
  refine ⟨hrun, fun h ↦ hlost ?_⟩
  have hpools : (after [compressedCall]).Pools ≠ [] := loaded_of_succeeds inv_new (.inr hrun)
  exact ((settings_return_iff (held_after _) hpools (isText_charText []) true).1 h).Zip

end SocketPro.Client.SpConfig
