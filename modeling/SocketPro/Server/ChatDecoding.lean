import SocketPro.Buffer.VariantRoundTrip
import SocketPro.Foundation.Decode

/-!
# What the server decodes of chat and web requests

`CBaseService::OnChatComing` and the branch of `CBaseService::OnReqArrive` for `idUserRequest`, both
of `aserverw.cpp`, from the content that has been retrieved into the queue of the peer. Asserts do
nothing. A pointer into the queue is what the content is from it on, at the time `GetBuffer` is
called; popping from the front does not move these bytes. What `ToWide` makes of a text is a
parameter.

* `Frame` is what a request says, and `Layout` how it is laid out;
* `decoding_safe_iff` — **the decoding is safe and exact if and only if the content is complete**:
  it begins with a layout. Nothing else than an exception or a pair that leaves the content is there
  for a content that is not.
-/

namespace SocketPro.Server

open Buffer Bytes Machine

inductive tagChatRequestID
  | idEnter
  | idSpeak
  | idSpeakEx
  | idExit
  | idSendUserMessage
  | idSendUserMessageEx
  | other (id : UInt16)
deriving DecidableEq, Repr

/-- The peer of a request: whether `ServiceId` is `sidHTTP`, and `GetChatGroups()`. -/
structure CSocketPeer where
  http : Bool
  groups : List UInt32

/-- The calls of `OnChatComing`, with pointers and counts. -/
inductive Call
  | OnSubscribe (pGroup : List UInt8) (count : ℕ)
  | OnUnsubscribe (groups : List UInt32)
  | OnPublish (vtMessage : VARIANT) (pGroup : List UInt8) (count : ℕ)
  | OnSendUserMessage (receiver : List UInt32) (vtMessage : VARIANT)
  | OnSendUserMessageEx (receiver : List UInt32) (pMessage : List UInt8) (size : ℕ)
  | OnPublishEx (pGroup : List UInt8) (count : ℕ) (pMessage : List UInt8) (size : ℕ)

abbrev sizeofUInt : ℕ := 4

/-! ### The decoding -/

/-- `GetBuffer(offset)` -/
def GetBuffer (offset : ℕ) : Pop (List UInt8) := fun c ↦ .ok (c.drop (min offset c.length)) c

/-- The strings of the standard library: `operator>>` with the exception for a length that is too
large. -/
def popText {α : Type} (e : CUException) (assign : List UInt8 → List α) : Pop (List α) := do
  let size ← popNumber 4 0
  if size = UQUEUE_NULL_LENGTH ∨ size = 0 then pure []
  else do
    let rest ← getSize
    if rest < size then Effect.raise e
    else do
      let s ← peek size 0
      let _ ← discard size 0
      pure (assign s)

/-- `operator>>(std::string&)` -/
def popString : Pop (List UInt8) := popText .badAscii id

section Decoding

variable (cv : Converters) (toWide : List UInt16 → List UInt32) (f : Flags)

/-- `operator>>(std::wstring&)` -/
def popWString : Pop (List UInt32) := popText .badUnicode fun s ↦ toWide (utf16Units s)

/-- `operator>>(CComVariant&)` -/
def popUVariant : Pop VARIANT := do
  let (vtData, _) ← popCComVariant cv f 0
  pure vtData

/-- The `switch` of `OnChatComing`. The cast to `CClientPeer` of the two requests with bytes is not
one that a peer of the HTTP service stands. -/
def OnChatComing (p : CSocketPeer) : tagChatRequestID → Pop (Option Call)
  | .idEnter => do
    let _ ← popNumber 2 0
    let len ← popNumber 4 0
    let pGroup ← GetBuffer 0
    pure (some (.OnSubscribe pGroup len))
  | .idExit => pure (some (.OnUnsubscribe p.groups))
  | .idSpeak => do
    let _ ← popNumber 2 0
    let len ← popNumber 4 0
    let pGroup ← GetBuffer 0
    let _ ← discard (len * sizeofUInt % 2 ^ 32) 0
    let vtParam0 ← popUVariant cv f
    pure (some (.OnPublish vtParam0 pGroup len))
  | .idSendUserMessage => do
    let userId ← popWString toWide
    let vtParam0 ← popUVariant cv f
    pure (some (.OnSendUserMessage userId vtParam0))
  | .idSendUserMessageEx => do
    let userId ← popWString toWide
    let len ← getSize
    let pMessage ← GetBuffer 0
    let _ ← Effect.guard (!p.http)
    pure (some (.OnSendUserMessageEx userId pMessage len))
  | .idSpeakEx => do
    let size ← popNumber 4 0
    let msg ← GetBuffer 0
    let pGroup ← GetBuffer size
    let rest ← getSize
    let _ ← Effect.guard (!p.http)
    pure (some (.OnPublishEx pGroup (sub32 rest size / sizeofUInt) msg size))
  | .other _ => pure none

/-- The request of a web page: `m_WebRequestName` and `m_vArg`. -/
structure WebRequest where
  m_WebRequestName : List UInt8
  m_vArg : List VARIANT

/-- The branch of `OnReqArrive` for `idUserRequest`. -/
def userRequest : Pop WebRequest := do
  let m_WebRequestName ← popString
  let count ← popNumber 4 0
  let m_vArg ← repeatRead (popUVariant cv f) count
  pure { m_WebRequestName, m_vArg }

end Decoding

/-! ### The requests -/

/-- What a chat request says. -/
inductive Frame
  | enter (groups : List UInt32)
  | exit
  | speak (groups : List UInt32) (message : VARIANT)
  | sendUserMessage (user : List UInt32) (message : VARIANT)
  | sendUserMessageEx (user : List UInt32) (message : List UInt8)
  | speakEx (groups : List UInt32) (message : List UInt8)
  | ignored

/-- A text with its length ahead. -/
inductive TextItem {α : Type} (assign : List UInt8 → List α) : List α → List UInt8 → Prop
  | null : TextItem assign [] (leBytes 4 UQUEUE_NULL_LENGTH)
  | empty : TextItem assign [] (leBytes 4 0)
  | text {s : List UInt8} : s ≠ [] → s.length < UQUEUE_NULL_LENGTH →
      TextItem assign (assign s) (leBytes 4 s.length ++ s)

/-- The type in front of groups. -/
abbrev GROUPS : ℕ := VT_ARRAY + ScalarVT.UINT.vt

section Layout

variable (cv : Converters) (toWide : List UInt16 → List UInt32) (f : Flags)

/-- How the requests are laid out. `tags` are the types that may stand in front of groups. -/
inductive Layout (tags : ℕ → Prop) : tagChatRequestID → Frame → List UInt8 → Prop
  | enter {vt : ℕ} {groups : List UInt32} : tags vt → groups.length < 2 ^ 32 →
      Layout tags .idEnter (.enter groups)
        (leBytes 2 vt ++ (leBytes 4 groups.length ++ wordBytes groups))
  | exit : Layout tags .idExit .exit []
  | speak {vt : ℕ} {groups : List UInt32} {message : VARIANT} {b : List UInt8} : tags vt →
      groups.length < 2 ^ 32 → Item cv f message b →
      Layout tags .idSpeak (.speak groups message)
        (leBytes 2 vt ++ (leBytes 4 groups.length ++ (wordBytes groups ++ b)))
  | sendUserMessage {user : List UInt32} {message : VARIANT} {u b : List UInt8} :
      TextItem (fun s ↦ toWide (utf16Units s)) user u → Item cv f message b →
      Layout tags .idSendUserMessage (.sendUserMessage user message) (u ++ b)
  | sendUserMessageEx {user : List UInt32} {message u : List UInt8} :
      TextItem (fun s ↦ toWide (utf16Units s)) user u →
      Layout tags .idSendUserMessageEx (.sendUserMessageEx user message) (u ++ message)
  | speakEx {groups : List UInt32} {message : List UInt8} : message.length < 2 ^ 32 →
      Layout tags .idSpeakEx (.speakEx groups message)
        (leBytes 4 message.length ++ (message ++ wordBytes groups))
  | other {id : UInt16} : Layout tags (.other id) .ignored []

/-- The content is the request. -/
def WellFormed (id : tagChatRequestID) (frame : Frame) (c : List UInt8) : Prop :=
  Layout cv toWide f (fun vt ↦ vt = GROUPS) id frame c

/-- The content begins with a request, whatever type stands in front of its groups. -/
def Complete (id : tagChatRequestID) (c : List UInt8) : Prop :=
  ∃ frame b rest, c = b ++ rest ∧ Layout cv toWide f (fun vt ↦ vt < 2 ^ 16) id frame b

/-- How the request of a web page is laid out. -/
def WebLayout (r : WebRequest) (b : List UInt8) : Prop :=
  ∃ name args, b = name ++ (leBytes 4 r.m_vArg.length ++ args) ∧ r.m_vArg.length < 2 ^ 32 ∧
    TextItem id r.m_WebRequestName name ∧ Chunked (Item cv f) r.m_vArg args

/-- The content begins with the request of a web page. -/
def WebComplete (c : List UInt8) : Prop := ∃ r b rest, c = b ++ rest ∧ WebLayout cv f r b

end Layout

/-- The requests that a peer of the HTTP service does not have. -/
def CSocketPeer.Serves (p : CSocketPeer) (id : tagChatRequestID) : Prop :=
  id = .idSendUserMessageEx ∨ id = .idSpeakEx → p.http = false

theorem CSocketPeer.serves_of_ne {p : CSocketPeer} {id : tagChatRequestID}
    (hmessage : id ≠ .idSendUserMessageEx) (hspeak : id ≠ .idSpeakEx) : p.Serves id := fun h ↦
  (h.elim hmessage hspeak).elim

/-! ### Safety -/

/-- The pairs of a pointer and a count lie inside the content. -/
def Call.Inside : Call → Prop
  | OnSubscribe pGroup count => count * sizeofUInt ≤ pGroup.length
  | OnPublish _ pGroup count => count * sizeofUInt ≤ pGroup.length
  | OnSendUserMessageEx _ pMessage size => size ≤ pMessage.length
  | OnPublishEx pGroup count pMessage size =>
    count * sizeofUInt ≤ pGroup.length ∧ size ≤ pMessage.length
  | _ => True

/-- What is read through the pointers of a call. -/
def received : Option Call → Frame
  | some (.OnSubscribe pGroup count) => .enter (words count pGroup)
  | some (.OnUnsubscribe _) => .exit
  | some (.OnPublish vtMessage pGroup count) => .speak (words count pGroup) vtMessage
  | some (.OnSendUserMessage receiver vtMessage) => .sendUserMessage receiver vtMessage
  | some (.OnSendUserMessageEx receiver pMessage size) =>
    .sendUserMessageEx receiver (pMessage.take size)
  | some (.OnPublishEx pGroup count pMessage size) =>
    .speakEx (words count pGroup) (pMessage.take size)
  | none => .ignored

section Safe

variable (cv : Converters) (toWide : List UInt16 → List UInt32) (f : Flags)

/-- No exception leaves `OnChatComing`, the pairs that are passed lie inside the content, and of a
content that is well-formed exactly the request is passed. -/
def ChatSafe (p : CSocketPeer) (id : tagChatRequestID) (c : List UInt8) : Prop :=
  ∃ call rest, OnChatComing cv toWide f p id c = .ok call rest ∧ (∀ k ∈ call, k.Inside) ∧
    ∀ frame, WellFormed cv toWide f id frame c → received call = frame

/-- No exception leaves `OnReqArrive`, and of a content that is well-formed exactly the name and the
arguments are taken. -/
def WebSafe (c : List UInt8) : Prop :=
  ∃ r rest, userRequest cv f c = .ok r rest ∧ ∀ r', WebLayout cv f r' c → r = r'

end Safe

/-! ### What the readers recognize -/

theorem popNumber_recognizes {w : ℕ} (hw : w < 2 ^ 32) :
    Recognizes (2 ^ 32) (popNumber w 0) fun n b ↦ b = leBytes w n ∧ n < 256 ^ w := by
  intro c n rest hc
  have hsize : ([] : List UInt8).length + c.length < 2 ^ 32 := by
    rwa [List.length_nil, Nat.zero_add]
  constructor
  · intro h
    obtain ⟨rest', hc', hn, hrest⟩ :=
      (popNumber_meets hw hsize : Effect.Meets (popNumber w 0) c _ _).ok h
    exact ⟨leBytes w n, hc'.trans (congrArg _ hrest.symm), rfl, hn⟩
  · rintro ⟨_, rfl, rfl, hn⟩
    have hok : popNumber w ([] : List UInt8).length ([] ++ (leBytes w n ++ rest)) = _ :=
      popNumber_ok hn hsize
    exact hok

theorem popText_recognizes {α : Type} (e : CUException) (assign : List UInt8 → List α) :
    Recognizes (2 ^ 32) (popText e assign) (TextItem assign) := by
  intro c a rest hc
  rw [popText, (popNumber_recognizes (by decide)).bind_eq_ok hc]
  constructor
  · rintro ⟨size, b, u, rfl, ⟨rfl, hsize⟩, h⟩
    split at h
    · next hempty =>
      cases h
      obtain rfl | rfl := hempty
      · exact ⟨_, rfl, .null⟩
      · exact ⟨_, rfl, .empty⟩
    · next hsome =>
      obtain ⟨hnull, hzero⟩ := not_or.1 hsome
      have hget : getSize u = .ok u.length u := rfl
      rw [Effect.bind_ok hget] at h
      split at h
      · cases h
      · next hle =>
        have htake : (u.take size).length = size := List.length_take_of_le (not_lt.1 hle)
        have hsplit : u.take size ++ u.drop size = u := List.take_append_drop size u
        have hpeek : peek size 0 u = .ok (u.take size) u := by
          have hok : peek (u.take size).length ([] : List UInt8).length
            ([] ++ (u.take size ++ u.drop size)) = _ := peek_ok
          rwa [htake, List.nil_append, hsplit] at hok
        have hdiscard : discard size 0 u = .ok size (u.drop size) := by
          have hok : discard (u.take size).length ([] : List UInt8).length
            ([] ++ (u.take size ++ u.drop size)) = _ := discard_ok
          rwa [htake, List.nil_append, hsplit] at hok
        rw [Effect.bind_ok hpeek, Effect.bind_ok hdiscard] at h
        cases h
        refine ⟨leBytes 4 size ++ u.take size, ?_, ?_⟩
        · rw [List.append_assoc, hsplit]
        · have hitem : TextItem assign _ (leBytes 4 (u.take size).length ++ u.take size) :=
            .text (fun hnil ↦ hzero (by rw [← htake, hnil, List.length_nil])) (by
              rw [htake]
              have h32 : UQUEUE_NULL_LENGTH + 1 = 256 ^ 4 := rfl
              omega)
          rwa [htake] at hitem
  · rintro ⟨b, rfl, hitem⟩
    cases hitem with
    | null =>
      refine ⟨UQUEUE_NULL_LENGTH, _, rest, rfl, ⟨rfl, by decide⟩, ?_⟩
      rw [if_pos (.inl rfl)]
      rfl
    | empty =>
      refine ⟨0, _, rest, rfl, ⟨rfl, by decide⟩, ?_⟩
      rw [if_pos (.inr rfl)]
      rfl
    | @text s hne hlt =>
      have h32 : UQUEUE_NULL_LENGTH + 1 = 256 ^ 4 := rfl
      refine ⟨s.length, leBytes 4 s.length, s ++ rest, List.append_assoc .., ⟨rfl, by omega⟩, ?_⟩
      have hsome : ¬ (s.length = UQUEUE_NULL_LENGTH ∨ s.length = 0) := by
        rintro (hnull | hzero)
        · exact absurd hnull hlt.ne
        · exact hne (List.length_eq_zero_iff.1 hzero)
      have hget : getSize (s ++ rest) = .ok (s ++ rest).length (s ++ rest) := rfl
      have hle : ¬ (s ++ rest).length < s.length := by
        rw [List.length_append]
        omega
      have hpeek : peek s.length 0 (s ++ rest) = .ok s (s ++ rest) :=
        (peek_ok : peek s.length ([] : List UInt8).length ([] ++ (s ++ rest)) = _)
      have hdiscard : discard s.length 0 (s ++ rest) = .ok s.length rest :=
        (discard_ok : discard s.length ([] : List UInt8).length ([] ++ (s ++ rest)) = _)
      rw [if_neg hsome, Effect.bind_ok hget, if_neg hle, Effect.bind_ok hpeek,
        Effect.bind_ok hdiscard]
      rfl

theorem popUVariant_recognizes (cv : Converters) (f : Flags) :
    Recognizes (2 ^ 32) (popUVariant cv f) (Item cv f) := by
  intro c v rest hc
  rw [popUVariant, Effect.bind_eq_ok]
  constructor
  · rintro ⟨⟨w, n⟩, u, hpop, h⟩
    cases h
    have hmeets : Effect.Meets (popVariant cv f ([] : List UInt8).length) ([] ++ c) _ _ :=
      popVariant_meets hc
    obtain ⟨b, rest', hitem, hc', -, hrest⟩ := hmeets.ok hpop
    exact ⟨b, hc'.trans (congrArg _ hrest.symm), hitem⟩
  · rintro ⟨b, rfl, hitem⟩
    exact ⟨(v, b.length), rest, popCComVariant_ok hitem 0 hc, rfl⟩

theorem GetBuffer_zero (c : List UInt8) : GetBuffer 0 c = .ok c c := by
  rw [GetBuffer, Nat.zero_min, List.drop_zero]

/-- `Pop(len)` from the front. -/
theorem discard_zero (n : ℕ) (c : List UInt8) :
    discard n 0 c = .ok (min n c.length) (c.drop (min n c.length)) := by
  have hn : (if n = 0 ∨ c.length ≤ 0 then 0 else min n (c.length - 0)) = min n c.length := by
    split <;> omega
  have hremove : removeAt 0 (min n c.length) c = c.drop (min n c.length) := by
    rw [removeAt, List.take_zero, List.nil_append, Nat.zero_add]
  unfold Buffer.discard
  simp only [hn, hremove]

/-- Groups in front of what is left. -/
theorem groups_split {n : ℕ} {c : List UInt8} (h : n * sizeofUInt ≤ c.length) :
    c = wordBytes (words n c) ++ c.drop (4 * n) := by
  have hle : 4 * n ≤ c.length := by rwa [Nat.mul_comm]
  rw [wordBytes_words hle, List.take_append_drop]

/-! ### Chat requests -/

section Chat

variable {cv : Converters} {toWide : List UInt16 → List UInt32} {f : Flags} {p : CSocketPeer}
  {id : tagChatRequestID} {c u rest : List UInt8} {call : Option Call}

theorem length_suffix_lt {b : List UInt8} (hc : (b ++ u).length < 2 ^ 32) : u.length < 2 ^ 32 :=
  (List.suffix_append b u).length_le.trans_lt hc

/-- The type and the count in front of groups. -/
theorem header_eq_ok {x : ℕ → Pop (Option Call)} (hc : c.length < 2 ^ 32) :
    (popNumber 2 0 >>= fun _ ↦ popNumber 4 0 >>= x) c = .ok call rest ↔
      ∃ vt n u, c = leBytes 2 vt ++ (leBytes 4 n ++ u) ∧ vt < 2 ^ 16 ∧ n < 2 ^ 32 ∧
        x n u = .ok call rest := by
  rw [(popNumber_recognizes (by decide)).bind_eq_ok hc]
  constructor
  · rintro ⟨vt, _, v, rfl, ⟨rfl, hvt⟩, h⟩
    rw [(popNumber_recognizes (by decide)).bind_eq_ok (length_suffix_lt hc)] at h
    obtain ⟨n, _, u, rfl, ⟨rfl, hn⟩, h⟩ := h
    exact ⟨vt, n, u, rfl, hvt, hn, h⟩
  · rintro ⟨vt, n, u, rfl, hvt, hn, h⟩
    refine ⟨vt, _, _, rfl, ⟨rfl, hvt⟩, ?_⟩
    rw [(popNumber_recognizes (by decide)).bind_eq_ok (length_suffix_lt hc)]
    exact ⟨n, _, u, rfl, ⟨rfl, hn⟩, h⟩

/-- A guard that has been passed. -/
theorem guard_eq_ok {b : Bool} {x : Pop (Option Call)}
    (h : ((Effect.guard b : Effect CUException (List UInt8) PUnit) >>= fun _ ↦ x) c =
      .ok call rest) : b = true ∧ x c = .ok call rest := by
  cases b with
  | true => exact ⟨rfl, h⟩
  | false => cases h

/-- **A call that is made with pairs inside the content**: the content begins with what is read
through them. -/
theorem complete_of_ok (hc : c.length < 2 ^ 32)
    (h : OnChatComing cv toWide f p id c = .ok call rest) (hin : ∀ k ∈ call, k.Inside) :
    p.Serves id ∧ ∃ b u, c = b ++ u ∧
      Layout cv toWide f (fun vt ↦ vt < 2 ^ 16) id (received call) b := by
  cases id with
  | idEnter =>
    refine ⟨CSocketPeer.serves_of_ne nofun nofun, ?_⟩
    rw [OnChatComing, header_eq_ok hc] at h
    obtain ⟨vt, n, u, rfl, hvt, hn, h⟩ := h
    rw [Effect.bind_ok (GetBuffer_zero u)] at h
    cases h
    have hsplit := groups_split (hin _ rfl)
    have hlen : (words n rest).length = n := length_words n rest
    refine ⟨leBytes 2 vt ++ (leBytes 4 (words n rest).length ++ wordBytes (words n rest)),
      rest.drop (4 * n), ?_, .enter hvt (by rwa [hlen])⟩
    rw [hlen, List.append_assoc, List.append_assoc, ← hsplit]
  | idExit =>
    cases h
    exact ⟨CSocketPeer.serves_of_ne nofun nofun, [], c, rfl, .exit⟩
  | idSpeak =>
    refine ⟨CSocketPeer.serves_of_ne nofun nofun, ?_⟩
    rw [OnChatComing, header_eq_ok hc] at h
    obtain ⟨vt, n, u, rfl, hvt, hn, h⟩ := h
    have hu : u.length < 2 ^ 32 := length_suffix_lt (length_suffix_lt hc)
    rw [Effect.bind_ok (GetBuffer_zero u), Effect.bind_ok (discard_zero _ u)] at h
    have hdrop : (u.drop (min (n * sizeofUInt % 2 ^ 32) u.length)).length < 2 ^ 32 :=
      lt_of_le_of_lt (List.length_drop.le.trans (Nat.sub_le ..)) hu
    rw [(popUVariant_recognizes cv f).bind_eq_ok hdrop] at h
    obtain ⟨v, b, w, hb, hitem, h⟩ := h
    cases h
    -- The count is not too large for the product.
    have hinside : n * sizeofUInt ≤ u.length := hin _ rfl
    have hmin : min (n * sizeofUInt % 2 ^ 32) u.length = 4 * n := by
      rw [Nat.mod_eq_of_lt (hinside.trans_lt hu), Nat.min_eq_left hinside, Nat.mul_comm]
    rw [hmin] at hb
    have hsplit := groups_split hinside
    have hlen : (words n u).length = n := length_words n u
    refine ⟨leBytes 2 vt ++ (leBytes 4 (words n u).length ++ (wordBytes (words n u) ++ b)),
      rest, ?_, .speak hvt (by rwa [hlen]) hitem⟩
    rw [hb] at hsplit
    simp only [hlen, List.append_assoc, ← hsplit]
  | idSpeakEx =>
    rw [OnChatComing, (popNumber_recognizes (by decide)).bind_eq_ok hc] at h
    obtain ⟨size, _, u, rfl, ⟨rfl, hsize⟩, h⟩ := h
    have hu : u.length < 2 ^ 32 := length_suffix_lt hc
    have hget : getSize u = .ok u.length u := rfl
    have hbuffer : GetBuffer size u = .ok (u.drop (min size u.length)) u := rfl
    rw [Effect.bind_ok (GetBuffer_zero u), Effect.bind_ok hbuffer, Effect.bind_ok hget] at h
    obtain ⟨hhttp, h⟩ := guard_eq_ok h
    cases h
    refine ⟨fun _ ↦ by rwa [Bool.not_eq_true'] at hhttp, ?_⟩
    obtain ⟨hgroups, hmessage⟩ := hin _ rfl
    rw [Nat.min_eq_left hmessage] at hgroups
    rw [received, Nat.min_eq_left hmessage]
    have htake : (rest.take size).length = size := List.length_take_of_le hmessage
    have hsplit := groups_split hgroups
    refine ⟨leBytes 4 (rest.take size).length ++ (rest.take size ++ wordBytes _),
      (rest.drop size).drop (4 * (sub32 rest.length size / sizeofUInt)), ?_,
      .speakEx (by rwa [htake])⟩
    rw [htake, List.append_assoc, List.append_assoc, ← hsplit, List.take_append_drop]
  | idSendUserMessage =>
    refine ⟨CSocketPeer.serves_of_ne nofun nofun, ?_⟩
    rw [OnChatComing, popWString, (popText_recognizes _ _).bind_eq_ok hc] at h
    obtain ⟨user, b₁, u, rfl, huser, h⟩ := h
    rw [(popUVariant_recognizes cv f).bind_eq_ok (length_suffix_lt hc)] at h
    obtain ⟨v, b₂, w, rfl, hitem, h⟩ := h
    cases h
    exact ⟨b₁ ++ b₂, rest, (List.append_assoc ..).symm, .sendUserMessage huser hitem⟩
  | idSendUserMessageEx =>
    rw [OnChatComing, popWString, (popText_recognizes _ _).bind_eq_ok hc] at h
    obtain ⟨user, b, u, rfl, huser, h⟩ := h
    have hget : getSize u = .ok u.length u := rfl
    rw [Effect.bind_ok hget, Effect.bind_ok (GetBuffer_zero u)] at h
    obtain ⟨hhttp, h⟩ := guard_eq_ok h
    cases h
    refine ⟨fun _ ↦ by rwa [Bool.not_eq_true'] at hhttp, b ++ rest, [], ?_, ?_⟩
    · rw [List.append_nil]
    · rw [received, List.take_length]
      exact .sendUserMessageEx huser
  | other n =>
    cases h
    exact ⟨CSocketPeer.serves_of_ne nofun nofun, [], c, rfl, .other⟩

/-- **A request in front of other bytes**: a call is made with pairs inside the content. Without
other bytes it passes what the request says. -/
theorem ok_of_layout {frame : Frame} {b : List UInt8} (hp : p.Serves id)
    (h : Layout cv toWide f (fun vt ↦ vt < 2 ^ 16) id frame b) (hc : (b ++ u).length < 2 ^ 32) :
    ∃ call rest, OnChatComing cv toWide f p id (b ++ u) = .ok call rest ∧
      (∀ k ∈ call, k.Inside) ∧ (u = [] → received call = frame) := by
  cases h with
  | @enter vt groups hvt hn =>
    have hok : OnChatComing cv toWide f p .idEnter
        (leBytes 2 vt ++ (leBytes 4 groups.length ++ wordBytes groups) ++ u) =
          .ok (some (.OnSubscribe (wordBytes groups ++ u) groups.length))
            (wordBytes groups ++ u) := by
      refine (header_eq_ok hc).2 ⟨vt, groups.length, wordBytes groups ++ u, ?_, hvt, hn, ?_⟩
      · rw [List.append_assoc, List.append_assoc]
      · rw [Effect.bind_ok (GetBuffer_zero _)]
        rfl
    refine ⟨_, _, hok, ?_, fun _ ↦ ?_⟩
    · rintro k ⟨⟩
      show groups.length * 4 ≤ _
      rw [List.length_append, length_wordBytes]
      omega
    · rw [received, words_wordBytes]
  | exit => exact ⟨_, _, rfl, fun k hk ↦ (by cases hk; trivial), fun _ ↦ rfl⟩
  | @speak vt groups message b hvt hn hitem =>
    have hlen : (wordBytes groups ++ (b ++ u)).length < 2 ^ 32 := by
      rw [List.append_assoc, List.append_assoc, List.append_assoc] at hc
      exact length_suffix_lt (length_suffix_lt hc)
    have hwords : (wordBytes groups).length = groups.length * sizeofUInt :=
      (length_wordBytes groups).trans (Nat.mul_comm ..)
    have hdrop : (wordBytes groups ++ (b ++ u)).drop (min (groups.length * sizeofUInt % 2 ^ 32)
        (wordBytes groups ++ (b ++ u)).length) = b ++ u := by
      rw [List.length_append] at hlen ⊢
      rw [← hwords, Nat.mod_eq_of_lt (by omega), Nat.min_eq_left (by omega), List.drop_left]
    have hok : OnChatComing cv toWide f p .idSpeak
        (leBytes 2 vt ++ (leBytes 4 groups.length ++ (wordBytes groups ++ b)) ++ u) =
        .ok (some (.OnPublish message (wordBytes groups ++ (b ++ u)) groups.length)) u := by
      refine (header_eq_ok hc).2
        ⟨vt, groups.length, wordBytes groups ++ (b ++ u), ?_, hvt, hn, ?_⟩
      · simp only [List.append_assoc]
      · rw [Effect.bind_ok (GetBuffer_zero _), Effect.bind_ok (discard_zero _ _), hdrop,
          (popUVariant_recognizes cv f).bind_eq_ok (length_suffix_lt hlen)]
        exact ⟨message, b, u, rfl, hitem, rfl⟩
    refine ⟨_, _, hok, ?_, fun _ ↦ ?_⟩
    · rintro k ⟨⟩
      show groups.length * sizeofUInt ≤ _
      rw [List.length_append, hwords]
      exact Nat.le_add_right ..
    · rw [received, words_wordBytes]
  | @sendUserMessage user message b₁ b₂ huser hitem =>
    have hok : OnChatComing cv toWide f p .idSendUserMessage (b₁ ++ b₂ ++ u) =
        .ok (some (.OnSendUserMessage user message)) u := by
      rw [List.append_assoc] at hc ⊢
      rw [OnChatComing, popWString, (popText_recognizes _ _).bind_eq_ok hc]
      refine ⟨user, b₁, b₂ ++ u, rfl, huser, ?_⟩
      rw [(popUVariant_recognizes cv f).bind_eq_ok (length_suffix_lt hc)]
      exact ⟨message, b₂, u, rfl, hitem, rfl⟩
    exact ⟨_, _, hok, fun k hk ↦ (by cases hk; trivial), fun _ ↦ rfl⟩
  | @sendUserMessageEx user message b huser =>
    have hok : OnChatComing cv toWide f p .idSendUserMessageEx (b ++ message ++ u) =
        .ok (some (.OnSendUserMessageEx user (message ++ u) (message ++ u).length))
          (message ++ u) := by
      rw [List.append_assoc] at hc ⊢
      rw [OnChatComing, popWString, (popText_recognizes _ _).bind_eq_ok hc, hp (.inl rfl)]
      exact ⟨user, b, message ++ u, rfl, huser, rfl⟩
    refine ⟨_, _, hok, ?_, ?_⟩
    · rintro k ⟨⟩
      exact Nat.le_refl _
    · rintro rfl
      rw [received, List.take_length, List.append_nil]
  | @speakEx groups message hsize =>
    have hlen : (message ++ (wordBytes groups ++ u)).length < 2 ^ 32 := by
      rw [List.append_assoc, List.append_assoc] at hc
      exact length_suffix_lt hc
    have hbuffer : GetBuffer message.length (message ++ (wordBytes groups ++ u)) =
        .ok (wordBytes groups ++ u) (message ++ (wordBytes groups ++ u)) := by
      rw [GetBuffer, Nat.min_eq_left (by rw [List.length_append]; omega), List.drop_left]
    have hsub : sub32 (message ++ (wordBytes groups ++ u)).length message.length =
        (wordBytes groups ++ u).length := by
      rw [List.length_append] at hlen ⊢
      rw [sub32_of_le (by omega) hlen, Nat.add_sub_cancel_left]
    have hok : OnChatComing cv toWide f p .idSpeakEx
        (leBytes 4 message.length ++ (message ++ wordBytes groups) ++ u) =
        .ok (some (.OnPublishEx (wordBytes groups ++ u)
          ((wordBytes groups ++ u).length / sizeofUInt) (message ++ (wordBytes groups ++ u))
          message.length)) (message ++ (wordBytes groups ++ u)) := by
      rw [List.append_assoc, List.append_assoc] at hc ⊢
      rw [OnChatComing, (popNumber_recognizes (by decide)).bind_eq_ok hc, hp (.inr rfl)]
      refine ⟨message.length, _, _, rfl, ⟨rfl, hsize⟩, ?_⟩
      have hget : getSize (message ++ (wordBytes groups ++ u)) = .ok _ _ := rfl
      rw [Effect.bind_ok (GetBuffer_zero _), Effect.bind_ok hbuffer, Effect.bind_ok hget, hsub]
      rfl
    refine ⟨_, _, hok, ?_, ?_⟩
    · rintro k ⟨⟩
      refine ⟨Nat.div_mul_le_self .., ?_⟩
      rw [List.length_append]
      exact Nat.le_add_right ..
    · rintro rfl
      have hcount : (wordBytes groups ++ ([] : List UInt8)).length / sizeofUInt =
          groups.length := by
        rw [List.append_nil, length_wordBytes]
        exact Nat.mul_div_cancel_left _ (by decide)
      rw [received, hcount, words_wordBytes, List.take_left]
  | other => exact ⟨_, _, rfl, nofun, fun _ ↦ rfl⟩

/-- A request with the right type in front of its groups is one with some type there. -/
theorem WellFormed.layout {frame : Frame} (h : WellFormed cv toWide f id frame c) :
    Layout cv toWide f (fun vt ↦ vt < 2 ^ 16) id frame c := by
  have hgroups : GROUPS < 2 ^ 16 := by decide
  cases h with
  | enter hvt hn => exact .enter (hvt.trans_lt hgroups) hn
  | exit => exact .exit
  | speak hvt hn hitem => exact .speak (hvt.trans_lt hgroups) hn hitem
  | sendUserMessage huser hitem => exact .sendUserMessage huser hitem
  | sendUserMessageEx huser => exact .sendUserMessageEx huser
  | speakEx hsize => exact .speakEx hsize
  | other => exact .other

theorem chatSafe_iff (hc : c.length < 2 ^ 32) :
    ChatSafe cv toWide f p id c ↔ p.Serves id ∧ Complete cv toWide f id c := by
  constructor
  · rintro ⟨call, rest, hok, hinside, -⟩
    obtain ⟨hp, b, u, hb, hlayout⟩ := complete_of_ok hc hok hinside
    exact ⟨hp, _, b, u, hb, hlayout⟩
  · rintro ⟨hp, frame, b, u, rfl, hlayout⟩
    obtain ⟨call, rest, hok, hinside, -⟩ := ok_of_layout hp hlayout hc
    refine ⟨call, rest, hok, hinside, fun frame' hwell ↦ ?_⟩
    -- The content is also a request of its own.
    obtain ⟨call', rest', hok', -, hreceived⟩ :=
      ok_of_layout (u := []) hp hwell.layout (by rwa [List.append_nil])
    rw [List.append_nil] at hok'
    obtain ⟨rfl, -⟩ := Outcome.ok.inj (hok.symm.trans hok')
    exact hreceived rfl

end Chat

/-! ### Web requests -/

section Web

variable {cv : Converters} {f : Flags} {c : List UInt8}

theorem userRequest_recognizes :
    Recognizes (2 ^ 32) (userRequest cv f) (WebLayout cv f) := by
  have hparts := (popText_recognizes .badAscii id).bind fun name ↦
    (popNumber_recognizes (w := 4) (by decide)).bind fun count ↦
      ((popUVariant_recognizes cv f).repeatRead count).map (WebRequest.mk name)
  refine hparts.congr fun r b ↦ ?_
  constructor
  · rintro ⟨name, b₁, _, rfl, hname, count, _, b₂, rfl, ⟨rfl, hcount⟩, args, rfl, rfl, hargs⟩
    exact ⟨b₁, b₂, rfl, hcount, hname, hargs⟩
  · rintro ⟨b₁, b₂, rfl, hcount, hname, hargs⟩
    exact ⟨_, b₁, _, rfl, hname, _, _, b₂, rfl, ⟨rfl, hcount⟩, _, rfl, rfl, hargs⟩

theorem webSafe_iff (hc : c.length < 2 ^ 32) : WebSafe cv f c ↔ WebComplete cv f c := by
  rw [WebComplete, ← userRequest_recognizes.returns hc]
  constructor
  · rintro ⟨r, rest, hok, -⟩
    exact ⟨r, rest, hok⟩
  · rintro ⟨r, rest, hok⟩
    refine ⟨r, rest, hok, fun r' hr' ↦ ?_⟩
    have hok' : userRequest cv f c = .ok r' [] :=
      (userRequest_recognizes c r' [] hc).2 ⟨c, (List.append_nil c).symm, hr'⟩
    exact (Outcome.ok.inj (hok.symm.trans hok')).1

end Web

/-- **The decoding is safe and exact if and only if the content is complete**, for a chat request
and for the request of a web page. -/
theorem decoding_safe_iff (cv : Converters) (toWide : List UInt16 → List UInt32) (f : Flags)
    (p : CSocketPeer) (id : tagChatRequestID) {c : List UInt8} (hc : c.length < 2 ^ 32) :
    (ChatSafe cv toWide f p id c ↔ p.Serves id ∧ Complete cv toWide f id c) ∧
      (WebSafe cv f c ↔ WebComplete cv f c) :=
  ⟨chatSafe_iff hc, webSafe_iff hc⟩

/-- A peer of a service that is not the HTTP service. -/
def clientPeer : CSocketPeer := ⟨false, [1]⟩

/-- Two groups to enter. -/
theorem decoding_safe_two_groups :
    (ChatSafe asciiConverters (fun _ ↦ []) noFlags clientPeer .idEnter
        [0x17, 0x20, 2, 0, 0, 0, 1, 0, 0, 0, 7, 0, 0, 0] ↔
      clientPeer.Serves .idEnter ∧ Complete asciiConverters (fun _ ↦ []) noFlags .idEnter
        [0x17, 0x20, 2, 0, 0, 0, 1, 0, 0, 0, 7, 0, 0, 0]) ∧
    (WebSafe asciiConverters noFlags [0x17, 0x20, 2, 0, 0, 0, 1, 0, 0, 0, 7, 0, 0, 0] ↔
      WebComplete asciiConverters noFlags [0x17, 0x20, 2, 0, 0, 0, 1, 0, 0, 0, 7, 0, 0, 0]) :=
  decoding_safe_iff asciiConverters (fun _ ↦ []) noFlags clientPeer .idEnter (by decide)

/-- A request to enter one group without the group: a pointer to the end of the content is passed
with the count one. -/
theorem decoding_unsafe :
    ¬ ∀ (cv : Converters) (toWide : List UInt16 → List UInt32) (f : Flags) (p : CSocketPeer)
      (id : tagChatRequestID) (c : List UInt8), c.length < 2 ^ 32 →
      ChatSafe cv toWide f p id c ∧ WebSafe cv f c := by
  intro h
  obtain ⟨⟨call, rest, hok, hinside, -⟩, -⟩ := h asciiConverters (fun _ ↦ []) noFlags clientPeer
    .idEnter [0x17, 0x20, 1, 0, 0, 0] (by decide)
  have hactual : OnChatComing asciiConverters (fun _ ↦ []) noFlags clientPeer .idEnter
      [0x17, 0x20, 1, 0, 0, 0] = .ok (some (.OnSubscribe [] 1)) [] := rfl
  obtain ⟨rfl, -⟩ := Outcome.ok.inj (hactual.symm.trans hok)
  have hle : 1 * sizeofUInt ≤ ([] : List UInt8).length := hinside _ rfl
  exact absurd hle (by decide)

end SocketPro.Server
