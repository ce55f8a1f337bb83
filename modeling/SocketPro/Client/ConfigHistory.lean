import SocketPro.Client.SpConfig

/-!
# What calls of `Parse` leave behind

Sequences of calls of `CSpConfig::Parse` from a fresh object. A configuration is loaded once: behind
a call that succeeds all others return at once, with the same result. So no sequence but one of
failures with at most one success at the end is of interest.

**What a failure leaves.** A file that cannot be opened or is no JSON leaves a blank object, and the
next call is that of a fresh one. A file that is rejected by the checks does not: its hosts and keys
stay, and `m_pp` points to pools that are gone. What follows such a rejection is only said as far as
it holds nevertheless: `parse_sequence`.

**Pointers.** Those in `m_pp` are made from the maps in `Pools` and behind all changes of them
(`Made`), so they are good as long as `Pools` is what it was.
-/

namespace SocketPro.Client.SpConfig

open Json

/-! ### Sequences of calls -/

/-- The object behind the calls. -/
def after (calls : List Call) : CSpConfig := calls.foldl (fun c call ↦ (Parse c call).2) .new

/-- Each call with the object before it. -/
def history (c : CSpConfig) : List Call → List (CSpConfig × Call)
  | [] => []
  | call :: calls => (c, call) :: history (Parse c call).2 calls

/-- The call succeeds. -/
def Succeeds (c : CSpConfig) (call : Call) : Prop := (Parse c call).1 = true

instance (c : CSpConfig) (call : Call) : Decidable (Succeeds c call) :=
  inferInstanceAs (Decidable (_ = true))

/-- The call reads a value, and `CheckHostErrors` or `CheckPoolErrors` rejects it. -/
def Rejected (c : CSpConfig) (call : Call) : Prop :=
  ¬ Succeeds c call ∧ (call.file.bind ParseFromFile).isSome

/-- The call does what a single one in a fresh object does. -/
def SameAsFresh (c : CSpConfig) (call : Call) : Prop :=
  (Parse c call).1 = (Parse .new call).1 ∧ (Succeeds c call →
    (Parse c call).2.Hosts = (Parse .new call).2.Hosts ∧
    (Parse c call).2.Pools = (Parse .new call).2.Pools ∧
    (Parse c call).2.KeysAllowed = (Parse .new call).2.KeysAllowed ∧
    (Parse c call).2.m_pp = (Parse .new call).2.m_pp)

/-- The pointer is to an element of the map or of a `Slaves` map in it. -/
def Points (Pools : Map CPoolConfig) : Pointer → Prop
  | .main key => (Pools.lookup key).isSome
  | .slave main key => ∃ pc, Pools.lookup main = some pc ∧ (pc.Slaves.lookup key).isSome

/-- All pointers in `m_pp` are good. -/
def PointersGood (c : CSpConfig) : Prop := ∀ e ∈ c.m_pp, Points c.Pools e.2

/-- Every call is as one in a fresh object, and leaves good pointers. -/
def NoTrace (calls : List Call) : Prop :=
  ∀ e ∈ history .new calls, SameAsFresh e.1 e.2 ∧ PointersGood (Parse e.1 e.2).2

/-! ### The cases of a call -/

/-- What `Parse` begins with. -/
def CSpConfig.reset (c : CSpConfig) : CSpConfig :=
  { c with Pools := [], m_errMsg := [], CertStore := [], m_bQP := false, m_pp := [] }

/-- The object that the value in a file makes of a reset one. -/
def CSpConfig.filled (c : CSpConfig) (jv : JValue) : CSpConfig := Normalize (readConfig c.reset jv)

theorem parse_loaded {c : CSpConfig} (hc : c.Pools ≠ []) (call : Call) :
    Parse c call = (true, c) := if_pos hc

theorem parse_unread {c : CSpConfig} (hc : c.Pools = []) {call : Call}
    (hcall : call.file.bind ParseFromFile = none) :
    ∃ m_errMsg, Parse c call = (false, { c.reset with m_errMsg }) := by
  rw [Parse, if_neg (not_not.2 hc)]
  cases hfile : call.file with
  | none => exact ⟨_, rfl⟩
  | some f =>
    rw [hfile, Option.bind_some] at hcall
    dsimp only
    rw [hcall]
    exact ⟨_, rfl⟩

theorem parse_read {c : CSpConfig} (hc : c.Pools = []) {call : Call} {jv : JValue}
    (hcall : call.file.bind ParseFromFile = some jv) :
    Parse c call =
      if (c.filled jv).m_errMsg ≠ [] then (false, { c.filled jv with Pools := [] })
      else (true, { c.filled jv with m_bMidTier := call.midTier }) := by
  obtain ⟨f, hfile, hparse⟩ := Option.bind_eq_some_iff.1 hcall
  rw [Parse, if_neg (not_not.2 hc), hfile]
  dsimp only
  rw [hparse]
  rfl

/-- A call succeeds on a loaded object, and where the checks find nothing. -/
theorem succeeds_iff {c : CSpConfig} {call : Call} :
    Succeeds c call ↔ c.Pools ≠ [] ∨
      ∃ jv, call.file.bind ParseFromFile = some jv ∧ (c.filled jv).m_errMsg = [] := by
  by_cases hc : c.Pools = []
  · rw [or_iff_right (not_not.2 hc)]
    cases hcall : call.file.bind ParseFromFile with
    | none =>
      obtain ⟨m_errMsg, hparse⟩ := parse_unread hc hcall
      rw [Succeeds, hparse]
      exact ⟨nofun, fun ⟨_, h, _⟩ ↦ nomatch h⟩
    | some jv =>
      rw [Succeeds, parse_read hc hcall]
      split
      · rename_i herr
        exact ⟨nofun, fun ⟨jv', h, hnil⟩ ↦ absurd (Option.some.inj h ▸ hnil) herr⟩
      · rename_i herr
        exact ⟨fun _ ↦ ⟨jv, rfl, not_not.1 herr⟩, fun _ ↦ rfl⟩
  · rw [Succeeds, parse_loaded hc]
    exact ⟨fun _ ↦ .inl hc, fun _ ↦ rfl⟩

/-! ### Pointers -/

/-- The pointers that `CheckPoolErrors` has put together are to entries of the maps. -/
def Made (Pools : Map CPoolConfig) (m_pp : Map Pointer) : Prop :=
  ∀ e ∈ m_pp, match e.2 with
    | .main key => ∃ pc, (key, pc) ∈ Pools
    | .slave main key => ∃ pc, (main, pc) ∈ Pools ∧ ∃ fields, (key, fields) ∈ pc.Slaves

theorem Made.set {Pools : Map CPoolConfig} {m_pp : Map Pointer} (h : Made Pools m_pp)
    {key : JString} {p : Pointer} (hp : Made Pools [(key, p)]) :
    Made Pools (SortedMap.set key p m_pp) := by
  intro e he
  rcases SortedMap.mem_set he with rfl | he
  · exact hp _ List.mem_cons_self
  · exact h e he

theorem checkPools_made {Pools : Map CPoolConfig} (Hosts : Map CConnectionContext)
    {pools : Map CPoolConfig} (hpools : ∀ e ∈ pools, e ∈ Pools) {c : Check}
    (hc : Made Pools c.m_pp) : Made Pools (checkPools Hosts pools c).2.m_pp := by
  induction pools generalizing c with
  | nil => exact hc
  | cons e pools ih =>
    obtain ⟨he, hpools⟩ := List.forall_mem_cons.1 hpools
    rw [checkPools]
    split
    · exact hc
    · split
      · exact hc
      · refine ih hpools (hc.set fun p hp ↦ ?_)
        obtain rfl := List.mem_singleton.1 hp
        exact ⟨e.2, he⟩

theorem checkSlaves_made {Pools : Map CPoolConfig} (Hosts : Map CConnectionContext)
    {pool : JString} {pc : CPoolConfig} (hpool : (pool, pc) ∈ Pools) {slaves : Map PoolFields}
    (hslaves : ∀ e ∈ slaves, e ∈ pc.Slaves) {c : Check} (hc : Made Pools c.m_pp) :
    Made Pools (checkSlaves Hosts pool slaves c).2.m_pp := by
  induction slaves generalizing c with
  | nil => exact hc
  | cons e slaves ih =>
    obtain ⟨he, hslaves⟩ := List.forall_mem_cons.1 hslaves
    rw [checkSlaves]
    split
    · exact hc
    · refine ih hslaves (hc.set fun p hp ↦ ?_)
      obtain rfl := List.mem_singleton.1 hp
      exact ⟨pc, hpool, e.2, he⟩

theorem checkAllSlaves_made {Pools : Map CPoolConfig} (Hosts : Map CConnectionContext)
    {pools : Map CPoolConfig} (hpools : ∀ e ∈ pools, e ∈ Pools) {c : Check}
    (hc : Made Pools c.m_pp) : Made Pools (checkAllSlaves Hosts pools c).m_pp := by
  induction pools generalizing c with
  | nil => exact hc
  | cons e pools ih =>
    obtain ⟨he, hpools⟩ := List.forall_mem_cons.1 hpools
    have hslaves := checkSlaves_made Hosts he (fun _ h ↦ h) hc
    rw [checkAllSlaves]
    split
    · rename_i heq
      rw [heq] at hslaves
      exact ih hpools hslaves
    · rename_i heq
      rw [heq] at hslaves
      exact hslaves

theorem checkPoolErrors_made (Hosts : Map CConnectionContext) (Pools : Map CPoolConfig) {c : Check}
    (hc : c.m_pp = []) : Made Pools (CheckPoolErrors Hosts Pools c).m_pp := by
  have hnil : Made Pools c.m_pp := by
    rw [hc]
    exact nofun
  have hmain := checkPools_made Hosts (fun _ h ↦ h) hnil
  rw [CheckPoolErrors]
  split
  · exact hnil
  · split
    · rename_i heq
      rw [heq] at hmain
      exact checkAllSlaves_made Hosts (fun _ h ↦ h) hmain
    · rename_i heq
      rw [heq] at hmain
      exact hmain

/-- Pointers that are made from sorted maps are good. -/
theorem Made.points {Pools : Map CPoolConfig} {m_pp : Map Pointer} (h : Made Pools m_pp)
    (hPools : SortedMap.Sorted Pools) : ∀ e ∈ m_pp, Points Pools e.2 := by
  intro e he
  have hmade := h e he
  cases hp : e.2 with
  | main key =>
    rw [hp] at hmade
    obtain ⟨pc, hpc⟩ := hmade
    exact SortedMap.mem_keys_iff.2 ⟨_, hpc, rfl⟩
  | slave main key =>
    rw [hp] at hmade
    obtain ⟨pc, hpc, fields, hfields⟩ := hmade
    exact ⟨pc, (SortedMap.lookup_eq_some_iff hPools).2 hpc,
      SortedMap.mem_keys_iff.2 ⟨_, hfields, rfl⟩⟩

/-! ### What is read and checked -/

theorem sorted_foldl_set {α β : Type} (f : β → α) (ms : List (JString × β)) {ns : Map α}
    (h : SortedMap.Sorted ns) :
    SortedMap.Sorted (ms.foldl (fun ns m ↦ SortedMap.set m.1 (f m.2) ns) ns) := by
  induction ms generalizing ns with
  | nil => exact h
  | cons m ms ih => exact ih (SortedMap.sorted_set h _ _)

theorem readConfig_sorted (c : CSpConfig) (jv : JValue) :
    SortedMap.Sorted (readConfig c.reset jv).Pools :=
  sorted_foldl_set GetPool _ SortedMap.sorted_nil

theorem normalize_eq (c : CSpConfig) :
    Normalize c = { c with m_errMsg := (Normalize c).m_errMsg, m_pp := (Normalize c).m_pp } := by
  rw [Normalize]
  split <;> rfl

/-- Without an error all pointers have been made. -/
theorem normalize_ok {c : CSpConfig} (h : (Normalize c).m_errMsg = []) :
    hostErrors c.Hosts = [] ∧
      (Normalize c).m_pp = (CheckPoolErrors c.Hosts c.Pools ⟨c.m_errMsg, c.m_pp⟩).m_pp ∧
      (CheckPoolErrors c.Hosts c.Pools ⟨c.m_errMsg, c.m_pp⟩).m_errMsg = [] := by
  rw [Normalize] at h ⊢
  split at h
  · rename_i herr
    exact absurd h herr
  · rename_i herr
    rw [if_neg herr]
    exact ⟨not_not.1 herr, rfl, h⟩

theorem checkPoolErrors_ne {Hosts : Map CConnectionContext} {Pools : Map CPoolConfig} {c : Check}
    (h : (CheckPoolErrors Hosts Pools c).m_errMsg = []) : Pools ≠ [] := by
  intro hnil
  have hmessage : lit "No pool context given in Pools" ≠ [] := by decide
  rw [CheckPoolErrors, if_pos hnil] at h
  exact hmessage h

/-- What is loaded has pools, and good pointers to them. -/
theorem filled_ok {c : CSpConfig} {jv : JValue} (h : (c.filled jv).m_errMsg = []) :
    (c.filled jv).Pools ≠ [] ∧ ∀ e ∈ (c.filled jv).m_pp, Points (c.filled jv).Pools e.2 := by
  obtain ⟨-, hpp, herr⟩ := normalize_ok h
  have hpools : (c.filled jv).Pools = (readConfig c.reset jv).Pools := by
    rw [CSpConfig.filled, normalize_eq]
  have hmade : Made (readConfig c.reset jv).Pools (c.filled jv).m_pp := by
    rw [CSpConfig.filled, hpp]
    exact checkPoolErrors_made _ _ rfl
  rw [hpools]
  exact ⟨checkPoolErrors_ne herr, hmade.points (readConfig_sorted c jv)⟩

/-! ### The pointers do not depend on the hosts -/

theorem checkPools_agree (Hosts Hosts' : Map CConnectionContext) (pools : Map CPoolConfig)
    {c c' : Check} (h : c.m_pp = c'.m_pp) :
    (checkPools Hosts pools c).1 = (checkPools Hosts' pools c').1 ∧
      (checkPools Hosts pools c).2.m_pp = (checkPools Hosts' pools c').2.m_pp := by
  induction pools generalizing c c' with
  | nil => exact ⟨rfl, h⟩
  | cons e pools ih =>
    rw [checkPools, checkPools, h]
    split
    · exact ⟨rfl, rfl⟩
    · split
      · exact ⟨rfl, rfl⟩
      · exact ih rfl

theorem checkSlaves_agree (Hosts Hosts' : Map CConnectionContext) (pool : JString)
    (slaves : Map PoolFields) {c c' : Check} (h : c.m_pp = c'.m_pp) :
    (checkSlaves Hosts pool slaves c).1 = (checkSlaves Hosts' pool slaves c').1 ∧
      (checkSlaves Hosts pool slaves c).2.m_pp = (checkSlaves Hosts' pool slaves c').2.m_pp := by
  induction slaves generalizing c c' with
  | nil => exact ⟨rfl, h⟩
  | cons e slaves ih =>
    rw [checkSlaves, checkSlaves, h]
    split
    · exact ⟨rfl, rfl⟩
    · exact ih rfl

theorem checkAllSlaves_agree (Hosts Hosts' : Map CConnectionContext) (pools : Map CPoolConfig)
    {c c' : Check} (h : c.m_pp = c'.m_pp) :
    (checkAllSlaves Hosts pools c).m_pp = (checkAllSlaves Hosts' pools c').m_pp := by
  induction pools generalizing c c' with
  | nil => exact h
  | cons e pools ih =>
    obtain ⟨hgo, hpp⟩ := checkSlaves_agree Hosts Hosts' e.1 e.2.Slaves h
    rw [checkAllSlaves, checkAllSlaves]
    rcases hc : checkSlaves Hosts e.1 e.2.Slaves c with ⟨b, d⟩
    rcases hc' : checkSlaves Hosts' e.1 e.2.Slaves c' with ⟨b', d'⟩
    rw [hc, hc'] at hgo hpp
    obtain rfl : b = b' := hgo
    cases b with
    | true => exact ih hpp
    | false => exact hpp

theorem checkPoolErrors_agree (Hosts Hosts' : Map CConnectionContext) (Pools : Map CPoolConfig)
    {c c' : Check} (h : c.m_pp = c'.m_pp) :
    (CheckPoolErrors Hosts Pools c).m_pp = (CheckPoolErrors Hosts' Pools c').m_pp := by
  obtain ⟨hgo, hpp⟩ := checkPools_agree Hosts Hosts' Pools h
  rw [CheckPoolErrors, CheckPoolErrors]
  split
  · exact h
  · rcases hc : checkPools Hosts Pools c with ⟨b, d⟩
    rcases hc' : checkPools Hosts' Pools c' with ⟨b', d'⟩
    rw [hc, hc'] at hgo hpp
    obtain rfl : b = b' := hgo
    cases b with
    | true => exact checkAllSlaves_agree Hosts Hosts' Pools hpp
    | false => exact hpp

/-- **What is loaded** from a file has the pools and pointers of that file, whatever was there. -/
theorem filled_agree {c d : CSpConfig} {jv : JValue} (hc : (c.filled jv).m_errMsg = [])
    (hd : (d.filled jv).m_errMsg = []) :
    (c.filled jv).Pools = (d.filled jv).Pools ∧ (c.filled jv).m_pp = (d.filled jv).m_pp := by
  obtain ⟨-, hpp, -⟩ := normalize_ok hc
  obtain ⟨-, hpp', -⟩ := normalize_ok hd
  constructor
  · rw [CSpConfig.filled, CSpConfig.filled, normalize_eq, normalize_eq (readConfig d.reset jv)]
    rfl
  · rw [CSpConfig.filled, CSpConfig.filled, hpp, hpp']
    exact checkPoolErrors_agree _ _ _ rfl

/-! ### Runs -/

/-- Nothing is left of earlier calls but a message. -/
structure Blank (c : CSpConfig) : Prop where
  Pools : c.Pools = []
  Hosts : c.Hosts = []
  KeysAllowed : c.KeysAllowed = []
  m_bMidTier : c.m_bMidTier = false

theorem Blank.reset {c : CSpConfig} (h : Blank c) : c.reset = CSpConfig.new := by
  obtain ⟨qp, cert, hosts, pools, err, pp, mid, keys⟩ := c
  obtain ⟨-, rfl, rfl, rfl⟩ := h
  rfl

/-- A call on a blank object is that on a fresh one. -/
theorem Blank.parse {c : CSpConfig} (h : Blank c) (call : Call) :
    Parse c call = Parse .new call := by
  have hreset : c.reset = CSpConfig.new.reset := h.reset.trans rfl
  have hnew : CSpConfig.new.Pools = [] := rfl
  have hopen : ∀ d : CSpConfig, d.Pools = [] → Parse d call = Parse d.reset call :=
    fun d hd ↦ (if_neg (not_not.2 hd)).trans (if_neg (not_not.2 rfl)).symm
  rw [hopen c h.Pools, hopen .new hnew, hreset]

/-- A call that reads nothing leaves a blank object. -/
theorem Blank.step {c : CSpConfig} (h : Blank c) {call : Call} (hfails : ¬ Succeeds c call)
    (hread : ¬ Rejected c call) : Blank (Parse c call).2 := by
  have hcall : call.file.bind ParseFromFile = none :=
    Option.not_isSome_iff_eq_none.1 fun hsome ↦ hread ⟨hfails, hsome⟩
  obtain ⟨m_errMsg, hparse⟩ := parse_unread h.Pools hcall
  rw [hparse]
  exact ⟨rfl, h.Hosts, h.KeysAllowed, h.m_bMidTier⟩

/-- There are no pools, or good pointers to them. -/
def Inv (c : CSpConfig) : Prop := c.Pools = [] ∨ PointersGood c

/-- One call. -/
theorem parse_step {c : CSpConfig} (hc : Inv c) (call : Call) :
    Inv (Parse c call).2 ∧ (Succeeds c call → (Parse c call).2.Pools ≠ []) ∧
      (¬ Succeeds c call → (Parse c call).2.Pools = []) ∧
      (¬ Rejected c call → PointersGood (Parse c call).2) := by
  by_cases hpools : c.Pools = []
  · cases hcall : call.file.bind ParseFromFile with
    | none =>
      obtain ⟨m_errMsg, hparse⟩ := parse_unread hpools hcall
      rw [Succeeds, hparse]
      exact ⟨.inl rfl, nofun, fun _ ↦ rfl, fun _ _ he ↦ nomatch he⟩
    | some jv =>
      have hparse := parse_read hpools hcall
      by_cases herr : (c.filled jv).m_errMsg = []
      · rw [if_neg (not_not.2 herr)] at hparse
        rw [Succeeds, hparse]
        obtain ⟨hne, hgood⟩ := filled_ok herr
        exact ⟨.inr hgood, fun _ ↦ hne, fun h ↦ absurd rfl h, fun _ ↦ hgood⟩
      · rw [if_pos herr] at hparse
        have hfails : ¬ Succeeds c call := by
          rw [Succeeds, hparse]
          exact Bool.false_ne_true
        have hrejected : Rejected c call := ⟨hfails, by rw [hcall]; rfl⟩
        rw [hparse]
        exact ⟨.inl rfl, fun h ↦ absurd h hfails, fun _ ↦ rfl, fun h ↦ absurd hrejected h⟩
  · have hparse := parse_loaded hpools call
    have hgood : PointersGood c := hc.resolve_left hpools
    rw [Succeeds, hparse]
    exact ⟨hc, fun _ ↦ hpools, fun h ↦ absurd rfl h, fun _ ↦ hgood⟩

theorem foldl_history {P : CSpConfig → Prop} {Q : CSpConfig → Call → Prop}
    (hstep : ∀ c call, P c → Q c call → P (Parse c call).2) {calls : List Call} {c : CSpConfig}
    (hc : P c) (hcalls : ∀ e ∈ history c calls, Q e.1 e.2) :
    P (calls.foldl (fun c call ↦ (Parse c call).2) c) := by
  induction calls generalizing c with
  | nil => exact hc
  | cons call calls ih =>
    obtain ⟨hcall, hcalls⟩ := List.forall_mem_cons.1 hcalls
    exact ih (hstep c call hc hcall) hcalls

theorem inv_new : Inv .new := .inl rfl

theorem inv_after (calls : List Call) : Inv (after calls) :=
  foldl_history (P := Inv) (Q := fun _ _ ↦ True) (fun _ call h _ ↦ (parse_step h call).1) inv_new
    fun _ _ ↦ trivial

/-- Behind a call that succeeds the object is loaded. -/
theorem loaded_of_succeeds {calls : List Call} {c : CSpConfig} (hc : Inv c)
    (h : c.Pools ≠ [] ∨ ∃ e ∈ history c calls, Succeeds e.1 e.2) :
    (calls.foldl (fun c call ↦ (Parse c call).2) c).Pools ≠ [] := by
  induction calls generalizing c with
  | nil => exact h.resolve_right nofun
  | cons call calls ih =>
    obtain ⟨hinv, hloaded, -⟩ := parse_step hc call
    refine ih hinv ?_
    rcases h with hpools | ⟨e, he, hsucceeds⟩
    · have hsucceeds : Succeeds c call := congrArg Prod.fst (parse_loaded hpools call)
      exact .inl (hloaded hsucceeds)
    · rcases List.mem_cons.1 he with rfl | he
      · exact .inl (hloaded hsucceeds)
      · exact .inr ⟨e, he, hsucceeds⟩

theorem blank_after {calls : List Call}
    (h : ∀ e ∈ history .new calls, ¬ Succeeds e.1 e.2 ∧ ¬ Rejected e.1 e.2) :
    Blank (after calls) :=
  foldl_history (P := Blank) (Q := fun c call ↦ ¬ Succeeds c call ∧ ¬ Rejected c call)
    (fun _ _ hc hcall ↦ hc.step hcall.1 hcall.2) ⟨rfl, rfl, rfl, rfl⟩ h

/-- **Any sequence of calls, and one more.** A configuration is loaded once. Before that, and behind
files that cannot be opened or are no JSON, a call is as one in a fresh object. What it loads are
the pools and pointers of its file, whatever was rejected before, and all pointers are good unless
the call itself is rejected by the checks. -/
theorem parse_sequence (before : List Call) (call : Call) :
    ((∃ e ∈ history .new before, Succeeds e.1 e.2) →
      Parse (after before) call = (true, after before)) ∧
    ((∀ e ∈ history .new before, ¬ Succeeds e.1 e.2 ∧ ¬ Rejected e.1 e.2) →
      SameAsFresh (after before) call) ∧
    ((∀ e ∈ history .new before, ¬ Succeeds e.1 e.2) → Succeeds (after before) call →
      Succeeds .new call →
        (Parse (after before) call).2.Pools = (Parse .new call).2.Pools ∧
        (Parse (after before) call).2.m_pp = (Parse .new call).2.m_pp) ∧
    (¬ Rejected (after before) call → PointersGood (Parse (after before) call).2) := by
  refine ⟨fun h ↦ ?_, fun h ↦ ?_, fun h hsucceeds hnew ↦ ?_, fun h ↦ ?_⟩
  · exact parse_loaded (loaded_of_succeeds inv_new (.inr h)) call
  · rw [SameAsFresh, (blank_after h).parse call]
    exact ⟨rfl, fun _ ↦ ⟨rfl, rfl, rfl, rfl⟩⟩
  · have hempty : (after before).Pools = [] :=
      foldl_history (P := fun c ↦ c.Pools = []) (Q := fun c call ↦ ¬ Succeeds c call)
        (fun c call hc hfails ↦ (parse_step (.inl hc) call).2.2.1 hfails) rfl h
    obtain ⟨jv, hcall, herr⟩ := (succeeds_iff.1 hsucceeds).resolve_left (not_not.2 hempty)
    obtain ⟨jv', hcall', herr'⟩ := (succeeds_iff.1 hnew).resolve_left (not_not.2 rfl)
    obtain rfl : jv = jv' := Option.some.inj (hcall.symm.trans hcall')
    rw [parse_read hempty hcall, parse_read rfl hcall, if_neg (not_not.2 herr),
      if_neg (not_not.2 herr')]
    exact filled_agree herr herr'
  · exact (parse_step (inv_after before) call).2.2.2 h

/-! ### A case -/

/-- One host and one pool. -/
def sampleValue : JValue :=
  .object [(lit "Hosts", .object [(lit "h", .object [(lit "Host", .string (lit "localhost")),
      (lit "Port", .uint64 20901)])]),
    (lit "Pools", .object [(lit "p", .object [(lit "Hosts", .array [.string (lit "h")]),
      (lit "SvsId", .uint64 sidQueue.toNat)])])]

/-- The file with this value. -/
def sampleFile : File where
  bytes := (stringify ⟨false, 2, id⟩ 0 sampleValue).map UInt8.ofNat
  small := by decide +kernel

/-- A file that is loaded, and one that cannot be opened: the second call has no effect and
succeeds. -/
theorem loaded_then_missing :
    ¬ NoTrace [⟨false, none, some sampleFile⟩, ⟨false, some (lit "other.json"), none⟩] := by
  intro h
  have hsame := (h _ (List.mem_cons_of_mem _ List.mem_cons_self)).1.1
  revert hsame
  decide +kernel

end SocketPro.Client.SpConfig
