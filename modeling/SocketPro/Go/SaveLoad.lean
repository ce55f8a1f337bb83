import SocketPro.Go.SaveArguments

/-!
# `Save` and the `Load` methods

Values are read in the order in which they were saved, each with the method of its type.

`saved_values_return_iff` — **a sequence of values comes back and leaves the queue empty** exactly
if each of them is `Restorable` and the array needs no 2^32 bytes, whatever the queue was like
before. The condition is necessary by counting: nothing is left where each value has taken its size,
so a value of which nothing was written is not made up for by what others have written.
-/

namespace SocketPro.Go.SaveLoad

open Bytes Machine Unicode Calendar Slices CUQueue

/-! ### Saving and loading -/

/-- `Save`. -/
def Save (m : Arrays) (q : CUQueue) (a : List Argument) : Option (Arrays × CUQueue) :=
  writeAll (m, q) (a.flatMap Argument.writes)

/-- The `Load` methods of some values, one after the other. -/
def LoadEach (a : List Argument) : Reader (List Argument) := readEach Argument.Load a

/-- A reader on the queue. Behind the end of the array Go panics, or other memory is read. -/
def read {α : Type} (m : Arrays) (x : Reader α) : Effect Panic CUQueue α := fun q ↦
  let content := q.content m
  match x content with
  | .ok a rest => .ok a (q.advance (content.length - rest.length))
  | .throw e rest =>
    if content.length < q.len then .fault
    else .throw e (q.advance (content.length - rest.length))
  | .fault => .fault

/-- **The round trip**: some values are saved; when what was in the queue before has been read, they
are read, are the same, and nothing is left. -/
def RoundTrip (m : Arrays) (q : CUQueue) (a : List Argument) : Prop :=
  ∃ m' q' q'', Save m q a = some (m', q') ∧
    read m' (do
      let _ ← take q.len
      LoadEach a) q' = .ok a q'' ∧ q''.len = 0

/-- What the readers of the values take. -/
def totalSize (a : List Argument) : ℕ := (a.map Argument.size).sum

variable {m m' : Arrays} {q q' : CUQueue} {a : List Argument}

theorem bytesOf_writes : bytesOf (a.flatMap Argument.writes) =
    a.flatMap fun x ↦ bytesOf x.writes := bytesOf_flatMap _ _

/-- **A sequence of values** that can be stored. -/
theorem each_sized (h : ∀ x ∈ a, x.Storable) :
    Sized LIMIT (LoadEach a) (bytesOf (a.flatMap Argument.writes)) (totalSize a) a
      (∀ x ∈ a, x.Restorable) := by
  have hread := Sized.readEach fun x hx ↦ Argument.sized x (h x hx)
  rwa [List.map_id', ← bytesOf_writes] at hread

/-- What has been saved could be stored. -/
theorem storable_of_save (h : q.Housed m) (hb : q.blockSize < 2 ^ 32)
    (hsave : Save m q a = some (m', q')) : ∀ x ∈ a, x.Storable := by
  intro x hx
  obtain ⟨l, r, rfl⟩ := List.append_of_mem hx
  rw [Save, List.flatMap_append, List.flatMap_cons, writeAll_append] at hsave
  obtain ⟨⟨m₁, q₁⟩, hfront, hsave⟩ := Option.bind_eq_some_iff.1 hsave
  rw [writeAll_append] at hsave
  obtain ⟨⟨m₂, q₂⟩, hwrite, -⟩ := Option.bind_eq_some_iff.1 hsave
  obtain ⟨hhoused, -, -, hblock⟩ := writeAll_inv h hb hfront
  exact Argument.storable_of_writes hhoused (hblock ▸ hb) hwrite

theorem read_eq_ok {α : Type} {x : Reader α} {c : α} :
    read m x q = .ok c q' ↔ ∃ rest, x (q.content m) = .ok c rest ∧
      q' = q.advance ((q.content m).length - rest.length) := by
  rw [read]
  constructor
  · intro h
    cases hx : x (q.content m) with
    | ok d rest =>
      rw [hx] at h
      injection h with hd hq
      exact ⟨rest, hd ▸ rfl, hq.symm⟩
    | throw e rest =>
      simp only [hx] at h
      split at h <;> cases h
    | fault =>
      rw [hx] at h
      cases h
  · rintro ⟨rest, hx, rfl⟩
    simp only [hx]

/-- **Counting**: values that come back and leave nothing were written in full, behind a content
that is all there. -/
theorem full_of_roundTrip {q'' : CUQueue} (h : q.Sound m) (hb : q.blockSize < 2 ^ 32)
    (hsave : Save m q a = some (m', q'))
    (hread : read m' (do
      let _ ← take q.len
      LoadEach a) q' = .ok a q'') (hempty : q''.len = 0) :
    (bytesOf (a.flatMap Argument.writes)).length = totalSize a ∧
      q'.len = q.len + totalSize a ∧ (q'.content m').length = q'.len ∧
      LoadEach a ((q'.content m').drop q.len) = .ok a [] := by
  have hhoused := (sound_iff.1 h).1
  have hsized := each_sized (storable_of_save hhoused hb hsave)
  obtain ⟨-, -, hlen, -⟩ := writeAll_inv hhoused hb hsave
  obtain ⟨rest, hx, rfl⟩ := read_eq_ok.1 hread
  obtain ⟨old, c, hold, hvalues⟩ := Effect.bind_eq_ok.1 hx
  obtain ⟨hle, -, rfl⟩ := take_inv hold
  have htakes := hsized.takes _ rest hvalues
  have hwritten := hsized.length_le
  have hcontent := length_content_le_len m' q'
  rw [advance_len] at hempty
  rw [List.length_drop] at htakes
  obtain rfl : rest = [] := List.length_eq_zero_iff.1 (by omega)
  rw [List.length_nil] at hempty htakes
  exact ⟨by omega, by omega, by omega, hvalues⟩

theorem fits_zero (m : Arrays) (q : CUQueue) : q.Fits m 0 := fun h ↦ absurd h (Nat.not_lt_zero _)

/-- **When a sequence of values comes back**, whatever the queue was like before. -/
theorem saved_values_return_iff (h : q.Sound m) (hpos : 0 < q.blockSize)
    (hb : q.blockSize < 2 ^ 32) :
    RoundTrip m q a ↔ q.Fits m (totalSize a) ∧ ∀ x ∈ a, x.Restorable := by
  have hhoused := (sound_iff.1 h).1
  constructor
  · rintro ⟨m', q', q'', hsave, hread, hempty⟩
    obtain ⟨hfull, hlen, hall, hvalues⟩ := full_of_roundTrip h hb hsave hread hempty
    have hsized := each_sized (storable_of_save hhoused hb hsave)
    obtain ⟨hhoused', hhead, -, hblock⟩ := writeAll_inv hhoused hb hsave
    have hfit : q.Fits m (totalSize a) := by
      rcases Nat.eq_zero_or_pos (totalSize a) with hzero | hsome
      · rw [hzero]
        exact fits_zero m q
      · have hsound' := sound_of_length_content hhoused' hall (by omega)
        have hinside := (sound_iff.1 hsound').2
        have hcap := hhoused'.capacity_lt (hblock ▸ hb)
        rw [← hfull]
        exact (fits_of_writeAll hhoused hpos hb (by omega) hsave hsound').2
    refine ⟨hfit, ?_⟩
    have hlimit := hfit.lt h hpos hb
    obtain ⟨m₁, q₁, hsave₁, -, hcontent⟩ := writeAll_ok h hpos hb (hfull.symm ▸ hfit)
    obtain ⟨rfl, rfl⟩ := Prod.mk.inj (Option.some.inj (hsave.symm.trans hsave₁))
    rw [hcontent, List.drop_left' h.length_content] at hvalues
    exact (hsized.iff (show totalSize a < 2 ^ 32 by omega)).1 hvalues
  · rintro ⟨hfit, hrestorable⟩
    have hlimit := hfit.lt h hpos hb
    have htotal : totalSize a < LIMIT := by
      show totalSize a < 2 ^ 32
      omega
    have hsized := each_sized (a := a) fun x hx ↦ Argument.storable_of_size
      (lt_of_le_of_lt (le_sum_of_mem (n := Argument.size) hx) htotal)
    have hfull := hsized.length_eq htotal hrestorable
    obtain ⟨m', q', hsave, hsound', hcontent⟩ := writeAll_ok h hpos hb (hfull.symm ▸ hfit)
    have hvalues := (hsized.iff htotal).2 hrestorable
    refine ⟨m', q', q'.advance (q'.content m').length, hsave, read_eq_ok.2 ⟨[], ?_, rfl⟩, ?_⟩
    · have hlt : (q.content m ++ bytesOf (a.flatMap Argument.writes)).length < LIMIT := by
        rw [← hcontent, hsound'.length_content]
        exact hsound'.len_lt
      rw [hcontent, Effect.bind_ok (take_decodes_of_length h.length_content _ hlt), hvalues]
    · rw [advance_len, hsound'.length_content, Nat.sub_self]

/-- A queue with an array of four bytes, the third of which is its content, and blocks of 16. -/
def sampleQueue : Arrays × CUQueue := ([[1, 2, 3, 4]], ⟨some 0, 1, 2, 16⟩)

theorem sampleQueue_sound : sampleQueue.2.Sound sampleQueue.1 where
  array a ha := by
    obtain rfl : 0 = a := Option.some.inj ha
    decide
  none hnone := by cases hnone

def sampleValues : List Argument :=
  [.nil, .AStr [104, 105], .int 5, .string [], .bools [true, false], .AStrArray [none, some []],
    .nums .int16 (by decide) [1, 2], .byte 7]

theorem sample_values_return :
    RoundTrip sampleQueue.1 sampleQueue.2 sampleValues := by
  refine (saved_values_return_iff sampleQueue_sound (by decide) (by decide)).2 ⟨by decide, ?_⟩
  intro x hx
  simp only [sampleValues, List.mem_cons, List.not_mem_nil, or_false] at hx
  rcases hx with rfl | rfl | rfl | rfl | rfl | rfl | rfl | rfl
  · trivial
  · exact List.cons_ne_nil _ _
  · exact ⟨by decide, by decide⟩
  · exact ⟨[], by decide⟩
  · exact (by decide : 2 < 2 ^ 32)
  · trivial
  · exact ⟨(by decide : 2 < 2 ^ 32), fun n hn ↦ absurd (show n ∈ [] from hn) List.not_mem_nil⟩
  · trivial

/-- **An empty `AStr`** in front of a number, in a queue that `MakeBuffer` has made: four bytes are
written, and eight are read. -/
theorem empty_AStr_lost : ¬ RoundTrip [zeros 4096] ⟨some 0, 0, 0, 4096⟩
    [.AStr [], .num .int32 1#32] := by
  rintro ⟨m', q', q'', hsave, hread, hempty⟩
  have hsound : Sound [zeros 4096] ⟨some 0, 0, 0, 4096⟩ := by
    refine ⟨fun a ha ↦ ?_, fun hnone ↦ by cases hnone⟩
    obtain rfl : 0 = a := Option.some.inj ha
    have hlen : (Store.elements [zeros 4096] 0).length = 4096 := List.length_replicate
    rw [hlen]
    decide
  have hfull := (full_of_roundTrip hsound (by decide) hsave hread hempty).1
  exact absurd hfull (by decide)

end SocketPro.Go.SaveLoad
