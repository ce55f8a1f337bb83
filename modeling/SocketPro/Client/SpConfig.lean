import Mathlib.Data.List.DropRight
import SocketPro.Foundation.SortedMap
import SocketPro.Foundation.Unicode
import SocketPro.Json.Escapes
import SocketPro.Json.Lexemes

/-!
# The configuration of the client pools

`CSpConfig` of `manager.cpp`: how a configuration file is read (`Parse`), checked (`Normalize`) and
written (`GetConfig`), POSIX build. What goes to the core library is left out but for the working
directory, which `GetConfig` asks it for.

**Maps.** A `std::map` is the list of its entries by increasing key. The hosts are an
`unordered_map`; here they are gone through by increasing key as well, which decides which of
several errors is reported and not whether there is one. A pointer to an element of a map is its
key.

**Texts.** A `std::string` is a list of units as in the JSON reader. `ToWide` and `ToUTF8` convert
exactly, and give the empty text for bytes that are no UTF-8.
-/

namespace SocketPro.Client.SpConfig

open Json Unicode

/-- `std::map<std::string, T>`. -/
abbrev Map (α : Type) := List (JString × α)

/-- A text of the source. -/
def lit (s : String) : JString := s.toList.map code

/-! ### Texts -/

/-- `::isspace`. -/
def isspace (c : ℕ) : Bool := c = 32 || (9 ≤ c && c ≤ 13)

/-- `Trim`. -/
def Trim (s : JString) : JString := (s.rdropWhile isspace).dropWhile isspace

/-- `::tolower`. -/
def tolower (c : ℕ) : ℕ := if 65 ≤ c ∧ c ≤ 90 then c + 32 else c

/-- `ToLower`. -/
def ToLower (s : JString) : JString := s.map tolower

/-- `Utilities::ToWide`. -/
def ToWide (s : JString) : List Char :=
  let bytes := s.map UInt8.ofNat
  if encodeUTF8 (decodeUTF8 bytes) = bytes then decodeUTF8 bytes else []

/-- `Utilities::ToUTF8`. -/
def ToUTF8 (s : List Char) : JString := (encodeUTF8 s).map UInt8.toNat

/-- `Unescape`. -/
abbrev Unescape : JString → JString := unescapeInPlace

/-! ### Connection contexts and pools -/

inductive tagEncryptionMethod
  | NoEncryption
  | TLSv1
deriving DecidableEq, Repr

structure CConnectionContext where
  Host : JString
  Port : UInt16
  UserId : List Char
  Password : List Char
  EncrytionMethod : tagEncryptionMethod
  V6 : Bool
  Zip : Bool
deriving DecidableEq, Repr

inductive tagPoolType
  | Regular
  | Slave
  | Master
deriving DecidableEq, Repr

/-- The fields of a `CPoolConfig` that are read for main and slave pools alike. -/
structure PoolFields where
  SvsId : UInt32
  Hosts : List JString
  Threads : UInt32
  Queue : JString
  AutoConn : Bool
  AutoMerge : Bool
  RecvTimeout : UInt32
  ConnTimeout : UInt32
  DefaultDb : JString
  PoolType : tagPoolType
deriving DecidableEq, Repr

/-- A main pool. Slaves have no slaves. -/
structure CPoolConfig extends PoolFields where
  Slaves : Map PoolFields
deriving DecidableEq, Repr

/-- The element of `Pools`, or of a `Slaves` map in it, that a pointer was made for. -/
inductive Pointer
  | main (key : JString)
  | slave (main key : JString)
deriving DecidableEq, Repr

/-- A `CSpConfig` object, with the static `CPoolConfig::KeysAllowed`. -/
structure CSpConfig where
  m_bQP : Bool
  CertStore : JString
  Hosts : Map CConnectionContext
  Pools : Map CPoolConfig
  m_errMsg : JString
  m_pp : Map Pointer
  m_bMidTier : Bool
  KeysAllowed : List JString
deriving DecidableEq, Repr

/-- The constructor, before anything has been read. -/
def CSpConfig.new : CSpConfig where
  m_bQP := false
  CertStore := []
  Hosts := []
  Pools := []
  m_errMsg := []
  m_pp := []
  m_bMidTier := false
  KeysAllowed := []

/-! ### Reading -/

/-- `Child(name)`. -/
def Child : JValue → JString → Option JValue
  | .object ms, name => ms.lookup name
  | _, _ => none

/-- A member of type `String`. -/
def stringAt (v : JValue) (name : String) : Option JString :=
  match Child v (lit name) with
  | some (.string s) => some s
  | _ => none

/-- A member of type `Uint64`. -/
def uint64At (v : JValue) (name : String) : Option ℕ :=
  match Child v (lit name) with
  | some (.uint64 n) => some n
  | _ => none

/-- A member of type `Bool`. -/
def boolAt (v : JValue) (name : String) : Option Bool :=
  match Child v (lit name) with
  | some (.bool b) => some b
  | _ => none

/-- A member of type `Array`, its elements of type `String`. -/
def stringsAt (v : JValue) (name : String) : List JString :=
  match Child v (lit name) with
  | some (.array vs) => vs.filterMap fun
    | .string s => some s
    | _ => none
  | _ => []

/-- A member of type `Object`, its members of type `Object`. -/
def objectsAt (v : JValue) (name : String) : List (JString × JValue) :=
  match Child v (lit name) with
  | some (.object ms) => ms.filterMap fun
    | (key, .object fields) => some (key, .object fields)
    | _ => none
  | _ => []

/-- `GetCC`. -/
def GetCC (cc : JValue) : CConnectionContext where
  Host := ((stringAt cc "Host").map fun s ↦ ToLower (Trim (Unescape s))).getD []
  Port := ((uint64At cc "Port").map UInt16.ofNat).getD 0
  UserId := ((stringAt cc "UserId").map fun s ↦ ToWide (Trim (Unescape s))).getD []
  Password := ((stringAt cc "Password").map fun s ↦ ToWide (Unescape s)).getD []
  EncrytionMethod := ((uint64At cc "EncrytionMethod").map fun n ↦
    if n ≠ 0 then .TLSv1 else .NoEncryption).getD .NoEncryption
  V6 := false
  -- "V6" is put into `Zip` as well, behind "Zip".
  Zip := (boolAt cc "V6").getD ((boolAt cc "Zip").getD false)

/-- `GetPool`, without the slaves. -/
def poolFields (main : Bool) (pool : JValue) : PoolFields :=
  let DefaultDb := ((stringAt pool "DefaultDb").map fun s ↦ Trim (Unescape s)).getD []
  { SvsId := ((uint64At pool "SvsId").map UInt32.ofNat).getD 0
    Hosts := (stringsAt pool "Hosts").map fun s ↦ Trim (Unescape s)
    Threads := ((uint64At pool "Threads").map UInt32.ofNat).getD 1
    Queue := ((stringAt pool "Queue").map fun s ↦ Trim (Unescape s)).getD []
    AutoConn := (boolAt pool "AutoConn").getD true
    AutoMerge := (boolAt pool "AutoMerge").getD false
    RecvTimeout := ((uint64At pool "RecvTimeout").map UInt32.ofNat).getD 30000
    ConnTimeout := ((uint64At pool "ConnTimeout").map UInt32.ofNat).getD 30000
    DefaultDb
    PoolType := if main then if DefaultDb ≠ [] then .Master else .Regular else .Slave }

/-- A slave of a pool, with what it has from the pool. -/
def slaveFields (pc : PoolFields) (pool : JValue) : PoolFields :=
  let slave := poolFields false pool
  { slave with
    SvsId := pc.SvsId
    DefaultDb := if slave.DefaultDb = [] then pc.DefaultDb else slave.DefaultDb }

/-- `GetPool(true, pool)`. -/
def GetPool (pool : JValue) : CPoolConfig :=
  let pc := poolFields true pool
  { pc with
    Slaves :=
      if pc.PoolType = .Master then
        (objectsAt pool "Slaves").foldl (fun slaves m ↦
          SortedMap.set m.1 (slaveFields pc m.2) slaves) []
      else [] }

/-! ### Checking -/

/-- The numbers of `ucomm.h` and of the services. -/
def sidReserved : UInt32 := 0x10000000

def sidQueue : UInt32 := 0x101

def sidFile : UInt32 := 0x103

def sidOdbc : UInt32 := 0x104

def sidSqlite : UInt32 := sidReserved + 0x6FFFFFF0

def sidMysql : UInt32 := sidReserved + 0x6FFFFFF1

/-- The loop of `CheckHostErrors`, behind the contexts `vCC`. -/
def checkHosts (vCC : List CConnectionContext) : Map CConnectionContext → JString
  | [] => []
  | (key, cc) :: hosts =>
    if key = [] then lit "Host key cannot be an empty string"
    else if cc.Host = [] then lit "No remote host address given for host key " ++ key
    else if cc.Port = 0 then
      lit "No port number given in connection context for host key " ++ key
    else if vCC.any fun s ↦ s.Host = cc.Host && s.Port = cc.Port then
      lit "No remote host duplicated with the same address and port number for host key " ++ key
    else checkHosts (vCC ++ [cc]) hosts

/-- `CheckHostErrors`: the message. -/
def hostErrors (Hosts : Map CConnectionContext) : JString :=
  if Hosts = [] then lit "No connection context given in Hosts" else checkHosts [] Hosts

/-- `ExistHost`. -/
def ExistHost (Hosts : Map CConnectionContext) (key : JString) : Bool :=
  Hosts.any fun m ↦ m.1 = key

/-- What is wrong with the service id of a main pool, if anything. -/
def serviceError (pc : PoolFields) : JString :=
  if pc.SvsId = sidFile then
    if pc.PoolType ≠ .Regular then
      lit "Remote file service has not support to either master or slave pool"
    else []
  else if pc.SvsId = sidQueue then
    if pc.PoolType ≠ .Regular then
      lit "Server persistent queue service has not support to either master or slave pool"
    else []
  else if pc.SvsId = sidMysql ∨ pc.SvsId = sidSqlite ∨ pc.SvsId = sidOdbc then []
  else if pc.SvsId ≤ sidReserved then
    lit "Service id must be larger than " ++ toStringUint64 sidReserved.toNat
  else []

/-- The loop over the hosts of a pool. -/
def checkPoolHosts (Hosts : Map CConnectionContext) (pool : JString) (m_errMsg : JString) :
    List JString → JString
  | [] => m_errMsg
  | h :: hs =>
    checkPoolHosts Hosts pool
      (if ExistHost Hosts h then m_errMsg
      else lit "Host " ++ h ++ lit " not found in Hosts for pool " ++ pool) hs

/-- What `CheckPoolErrors` sets. -/
structure Check where
  m_errMsg : JString
  m_pp : Map Pointer

/-- The loop of `CheckPoolErrors` over the main pools; `false` where the function returns. -/
def checkPools (Hosts : Map CConnectionContext) : Map CPoolConfig → Check → Bool × Check
  | [], c => (true, c)
  | (key, pc) :: pools, c =>
    if (c.m_pp.lookup key).isSome then
      (true, { c with m_errMsg := lit "Pool key " ++ key ++ lit " duplicated in Pools" })
    else if serviceError pc.toPoolFields ≠ [] then
      (false, { c with m_errMsg := serviceError pc.toPoolFields })
    else
      checkPools Hosts pools
        { m_errMsg := checkPoolHosts Hosts key c.m_errMsg pc.Hosts
          m_pp := SortedMap.set key (.main key) c.m_pp }

/-- The loop over the slaves of a pool. -/
def checkSlaves (Hosts : Map CConnectionContext) (pool : JString) :
    Map PoolFields → Check → Bool × Check
  | [], c => (true, c)
  | (key, pc) :: slaves, c =>
    if (c.m_pp.lookup key).isSome then
      (false, { c with m_errMsg := lit "Pool key " ++ key ++ lit " duplicated in Pools" })
    else
      checkSlaves Hosts pool slaves
        { m_errMsg := checkPoolHosts Hosts pool c.m_errMsg pc.Hosts
          m_pp := SortedMap.set key (.slave pool key) c.m_pp }

/-- The loop over the main pools for their slaves. -/
def checkAllSlaves (Hosts : Map CConnectionContext) : Map CPoolConfig → Check → Check
  | [], c => c
  | (key, pc) :: pools, c =>
    match checkSlaves Hosts key pc.Slaves c with
    | (true, c) => checkAllSlaves Hosts pools c
    | (false, c) => c

/-- `CheckPoolErrors`. -/
def CheckPoolErrors (Hosts : Map CConnectionContext) (Pools : Map CPoolConfig) (c : Check) :
    Check :=
  if Pools = [] then { c with m_errMsg := lit "No pool context given in Pools" }
  else
    match checkPools Hosts Pools c with
    | (true, c) => checkAllSlaves Hosts Pools c
    | (false, c) => c

/-- `Normalize`. -/
def Normalize (c : CSpConfig) : CSpConfig :=
  let m_errMsg := hostErrors c.Hosts
  if m_errMsg ≠ [] then { c with m_errMsg }
  else
    let check := CheckPoolErrors c.Hosts c.Pools ⟨c.m_errMsg, c.m_pp⟩
    { c with m_errMsg := check.m_errMsg, m_pp := check.m_pp }

/-! ### `Parse` -/

/-- A file. Larger ones do not fit the memory `ParseFromFile` reads them into. -/
structure File where
  bytes : List UInt8
  small : bytes.length + 4 < 2 ^ 32

/-- `JSON::ParseFromFile` behind opening the file: a byte order mark is left out. -/
def ParseFromFile (f : File) : Option JValue :=
  let bytes :=
    if f.bytes.take 3 = [0xef, 0xbb, 0xbf] then f.bytes.drop 3 else f.bytes
  parse (charText bytes)

/-- A call: the arguments, and the file of that name if it can be opened. -/
structure Call where
  midTier : Bool
  jsonConfig : Option JString
  file : Option File

/-- The name of the file. -/
def Call.jsFile (call : Call) : JString :=
  let jsFile := Trim (call.jsonConfig.getD [])
  if jsFile = [] then lit "sp_config.json" else jsFile

/-- What `Parse` takes from the value in the file. -/
def readConfig (c : CSpConfig) (jv : JValue) : CSpConfig :=
  let CertStore := ((stringAt jv "CertStore").map fun s ↦ Trim (Unescape s)).getD []
  { c with
    CertStore
    m_bQP := ((stringAt jv "QueuePassword").map fun s ↦ Trim (Unescape s)).getD [] ≠ []
    -- Keys are kept as they are in the file, and put behind those that are there.
    KeysAllowed := c.KeysAllowed ++
      (((stringsAt jv "KeysAllowed").map Trim).filter (· ≠ [])).map ToLower
    Hosts := (objectsAt jv "Hosts").foldl (fun hosts m ↦ SortedMap.set m.1 (GetCC m.2) hosts)
      c.Hosts
    Pools := (objectsAt jv "Pools").foldl (fun pools m ↦ SortedMap.set m.1 (GetPool m.2) pools)
      c.Pools }

/-- `CSpConfig::Parse`. -/
def Parse (c : CSpConfig) (call : Call) : Bool × CSpConfig :=
  if c.Pools ≠ [] then (true, c)
  else
    let c := { c with Pools := [], m_errMsg := [], CertStore := [], m_bQP := false, m_pp := [] }
    match call.file with
    | none => (false, { c with m_errMsg := lit "Cannot open configuration file " ++ call.jsFile })
    | some f =>
      match ParseFromFile f with
      | none => (false, { c with m_errMsg := lit "Bad JSON configuration object" })
      | some jv =>
        let c := Normalize (readConfig c jv)
        if c.m_errMsg ≠ [] then (false, { c with Pools := [] })
        else (true, { c with m_bMidTier := call.midTier })

/-! ### `GetConfig` -/

/-- A string that is assigned to a value, or put into an array of values. -/
def str (s : JString) : JValue := ofString s false

/-- An object with the given members, assigned one by one. -/
def object (ms : List (String × JValue)) : JObject :=
  ms.foldl (fun obj m ↦ SortedMap.set (lit m.1) m.2 obj) []

/-- `(int) e` of an `enum`. -/
def tagEncryptionMethod.int : tagEncryptionMethod → JValue
  | NoEncryption => ofInt64 0
  | TLSv1 => ofInt64 1

def tagPoolType.int : tagPoolType → JValue
  | Regular => ofInt64 0
  | Slave => ofInt64 1
  | Master => ofInt64 2

/-- A connection context. -/
def writeCC (ctx : CConnectionContext) : JValue :=
  .object (object [("Host", str ctx.Host), ("Port", ofInt64 ctx.Port.toNat),
    ("UserId", str (ToUTF8 ctx.UserId)), ("Password", str (ToUTF8 ctx.Password)),
    ("Port", ofInt64 ctx.Port.toNat), ("EncrytionMethod", ctx.EncrytionMethod.int),
    ("Zip", .bool ctx.Zip), ("V6", .bool ctx.V6)])

/-- A slave pool. -/
def writeSlave (psc : PoolFields) : JValue :=
  .object (object [("SvsId", .uint64 psc.SvsId.toNat), ("Hosts", .array (psc.Hosts.map str)),
    ("Threads", .uint64 psc.Threads.toNat), ("Queue", str psc.Queue),
    ("AutoConn", .bool psc.AutoConn), ("AutoMerge", .bool psc.AutoMerge),
    ("RecvTimeout", .uint64 psc.RecvTimeout.toNat), ("ConnTimeout", .uint64 psc.ConnTimeout.toNat),
    ("DefaultDb", str psc.DefaultDb), ("PoolType", psc.PoolType.int)])

/-- A map of values. -/
def writeMap {α : Type} (write : α → JValue) (m : Map α) : JValue :=
  .object (m.foldl (fun obj e ↦ SortedMap.set e.1 (write e.2) obj) [])

/-- A main pool. `RecvTimeout` is what is written as its "ConnTimeout". -/
def writePool (pscMain : CPoolConfig) : JValue :=
  .object (object ([("SvsId", .uint64 pscMain.SvsId.toNat),
    ("Hosts", .array (pscMain.Hosts.map str)), ("Threads", .uint64 pscMain.Threads.toNat),
    ("Queue", str pscMain.Queue), ("AutoConn", .bool pscMain.AutoConn),
    ("AutoMerge", .bool pscMain.AutoMerge), ("RecvTimeout", .uint64 pscMain.RecvTimeout.toNat),
    ("ConnTimeout", .uint64 pscMain.RecvTimeout.toNat), ("DefaultDb", str pscMain.DefaultDb)] ++
    (if pscMain.Slaves = [] then [] else [("Slaves", writeMap writeSlave pscMain.Slaves)]) ++
    [("PoolType", pscMain.PoolType.int)]))

/-- The value that `GetConfig` writes. -/
def configValue (c : CSpConfig) (workDirectory : JString) : JValue :=
  .object (object [("CertStore", str c.CertStore), ("WorkingDir", str workDirectory),
    ("QueuePassword", ofInt64 (if c.m_bQP then 1 else 0)), ("Hosts", writeMap writeCC c.Hosts),
    ("KeysAllowed", .array (c.KeysAllowed.map str)), ("Pools", writeMap writePool c.Pools)])

/-- `CSpConfig::GetConfig`; `workDirectory` is what the core library has as working directory. No
number is printed that needs the printing of a `double`. -/
def GetConfig (c : CSpConfig) (workDirectory : JString) (pretty : Bool) : JString :=
  if c.Pools = [] then []
  else stringify ⟨pretty, 2, id⟩ 0 (configValue c workDirectory)

end SocketPro.Client.SpConfig
