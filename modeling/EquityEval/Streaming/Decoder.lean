import Mathlib.Data.List.Basic
import Mathlib.Order.Basic
import Mathlib.Order.Nat

/-!
# Formats decoded item by item

A decoder reads one item after the other until it has finished, and each item may decode to several.
A decompressor feeds a decoder piece by piece with a bound on what it returns at once. What it returns
of a stream that stays within its bounds does not depend on how the stream was cut into pieces.
-/

namespace Streaming

variable {α : Type}

/-- A format: its states, what an item of the input decodes to, and the states after the end of a stream. -/
structure Decoder (α : Type) where
  State : Type
  start : State
  next : State → α → Option (State × List α)
  finished : State → Bool

namespace Decoder

variable (d : Decoder α)

/-- What is decoded of an input, and what is left of it after the end of the stream; nothing where it is malformed. -/
def decode : d.State → List α → Option (d.State × List α × List α)
  | s, [] => some (s, [], [])
  | s, a :: rest =>
    if d.finished s = true then some (s, [], a :: rest)
    else (d.next s a).bind fun (t, decoded) => (decode t rest).map fun (u, more, left) => (u, decoded ++ more, left)

/-- The input is one complete stream, with nothing after it. -/
def Complete (input decoded : List α) : Prop := ∃ s, d.decode d.start input = some (s, decoded, []) ∧ d.finished s = true

variable {d} {s t : d.State} {u v decoded more left : List α}

/-- An input that has been read up to its end is read on. -/
theorem decode_append (h : d.decode s u = some (t, decoded, [])) :
    d.decode s (u ++ v) = (d.decode t v).map fun (t', more, left) => (t', decoded ++ more, left) := by
  induction u generalizing s decoded with
  | nil =>
    cases h
    simp
  | cons a rest ih =>
    rw [decode] at h
    rw [List.cons_append, decode]
    split at h
    · cases h
    · rename_i hfinished
      rw [if_neg hfinished]
      obtain ⟨⟨t₁, first⟩, hnext, h⟩ := Option.bind_eq_some_iff.mp h
      obtain ⟨⟨t₂, others, left⟩, hrest, h⟩ := Option.map_eq_some_iff.mp h
      cases h
      simp only [hnext, Option.bind_some, ih hrest, Option.map_map]
      congr 1
      funext ⟨t', more, left⟩
      simp only [Function.comp_apply, List.append_assoc]

/-- A stream that ends with an input has been read up to each place of it. -/
theorem exists_decode_of_append (h : d.decode s (u ++ v) = some (t, decoded, [])) :
    ∃ t₁ first others, d.decode s u = some (t₁, first, []) ∧ d.decode t₁ v = some (t, others, []) ∧ decoded = first ++ others := by
  induction u generalizing s decoded with
  | nil => exact ⟨s, [], decoded, rfl, h, rfl⟩
  | cons a rest ih =>
    rw [List.cons_append, decode] at h
    split at h
    · cases h
    · rename_i hfinished
      obtain ⟨⟨t₁, first⟩, hnext, h⟩ := Option.bind_eq_some_iff.mp h
      obtain ⟨⟨t₂, others, left⟩, hrest, h⟩ := Option.map_eq_some_iff.mp h
      cases h
      obtain ⟨t₂, second, third, hu, hv, rfl⟩ := ih hrest
      refine ⟨t₂, first ++ second, third, ?_, hv, (List.append_assoc _ _ _).symm⟩
      simp only [decode, if_neg hfinished, hnext, Option.bind_some, hu, Option.map_some]

/-- A stream has one decoded form. -/
theorem Complete.unique {input first second : List α} (h : d.Complete input first) (h' : d.Complete input second) : first = second := by
  obtain ⟨s, hs, -⟩ := h
  obtain ⟨t, ht, -⟩ := h'
  cases hs.symm.trans ht
  rfl

variable (d)

/-- Decode items until there is more than there is room for. -/
def inflate (room : ℕ) : d.State → List α → List α → Option (d.State × List α × List α)
  | s, decoded, [] => some (s, decoded, [])
  | s, decoded, a :: rest =>
    if d.finished s = true ∨ room < decoded.length then some (s, decoded, a :: rest)
    else (d.next s a).bind fun (t, more) => inflate room t (decoded ++ more) rest

variable {d} {room : ℕ}

/-- What fits is what is decoded. -/
theorem inflate_of_decode {before : List α} (h : d.decode s u = some (t, decoded, left)) (hroom : (before ++ decoded).length ≤ room) :
    d.inflate room s before u = some (t, before ++ decoded, left) := by
  induction u generalizing s before decoded with
  | nil =>
    cases h
    rw [inflate, List.append_nil]
  | cons a rest ih =>
    rw [List.length_append] at hroom
    rw [decode] at h
    rw [inflate]
    split at h
    · rename_i hfinished
      cases h
      rw [if_pos (Or.inl hfinished), List.append_nil]
    · rename_i hfinished
      rw [if_neg (not_or.mpr ⟨hfinished, by omega⟩)]
      obtain ⟨⟨t₁, first⟩, hnext, h⟩ := Option.bind_eq_some_iff.mp h
      obtain ⟨⟨t₂, others, left⟩, hrest, h⟩ := Option.map_eq_some_iff.mp h
      cases h
      simp only [hnext, Option.bind_some]
      rw [ih hrest (by simpa [Nat.add_assoc] using hroom), List.append_assoc]

/-- What is decoded, if it fits. -/
theorem decode_of_inflate {before after : List α} (h : d.inflate room s before u = some (t, after, left)) (hroom : after.length ≤ room) :
    ∃ decoded, d.decode s u = some (t, decoded, left) ∧ after = before ++ decoded := by
  induction u generalizing s before with
  | nil =>
    cases h
    exact ⟨[], rfl, (List.append_nil _).symm⟩
  | cons a rest ih =>
    rw [inflate] at h
    rw [decode]
    split at h
    · rename_i hstop
      cases h
      have hfinished := hstop.resolve_right (by omega)
      exact ⟨[], by rw [if_pos hfinished], (List.append_nil _).symm⟩
    · rename_i hgo
      obtain ⟨⟨t₁, first⟩, hnext, h⟩ := Option.bind_eq_some_iff.mp h
      obtain ⟨others, hrest, rfl⟩ := ih h
      refine ⟨first ++ others, ?_, List.append_assoc _ _ _⟩
      simp only [if_neg (not_or.mp hgo).1, hnext, Option.bind_some, hrest, Option.map_some]

end Decoder

/-! ### Piece by piece -/

/-- The state of a decompressor: what it has decoded and not returned, what it has not read, and what came after the end. -/
structure Decompressor (d : Decoder α) where
  state : d.State
  pending : List α := []
  unconsumedTail : List α := []
  unusedData : List α := []

namespace Decompressor

variable {d : Decoder α}

/-- The stream has ended, and all of it was returned. -/
def eof (z : Decompressor d) : Bool := d.finished z.state && z.pending.isEmpty

/-- Feed a decompressor; at most as much is returned as there is room for. -/
def decompress (z : Decompressor d) (data : List α) (room : ℕ) : Option (Decompressor d × List α) :=
  (d.inflate room z.state z.pending data).map fun (s, decoded, left) =>
    let ended := d.finished s = true ∧ decoded.length ≤ room
    (⟨s, decoded.drop room, if ended then [] else left, if ended then z.unusedData ++ left else z.unusedData⟩, decoded.take room)

/-- Only the end of a stream leaves something of an input. -/
theorem eq_nil_of_not_finished {s t : d.State} {u decoded left : List α} (h : d.decode s u = some (t, decoded, left))
    (hfinished : d.finished t = false) : left = [] := by
  induction u generalizing s decoded with
  | nil =>
    cases h
    rfl
  | cons a rest ih =>
    rw [Decoder.decode] at h
    split at h
    · rename_i hs
      cases h
      rw [hs] at hfinished
      cases hfinished
    · obtain ⟨⟨t₁, first⟩, hnext, h⟩ := Option.bind_eq_some_iff.mp h
      obtain ⟨⟨t₂, others, left⟩, hrest, h⟩ := Option.map_eq_some_iff.mp h
      cases h
      exact ih hrest

/-- What is returned of a piece that leaves room. -/
theorem decompress_of_decode {z : Decompressor d} {data decoded left : List α} {room : ℕ} {t : d.State} (hpending : z.pending = [])
    (h : d.decode z.state data = some (t, decoded, left)) (hroom : decoded.length < room) :
    z.decompress data room = some (⟨t, [], [], z.unusedData ++ left⟩, decoded) := by
  have hle : decoded.length ≤ room := hroom.le
  have hinflate : d.inflate room z.state [] data = some (t, [] ++ decoded, left) := Decoder.inflate_of_decode h hle
  rw [decompress, hpending, hinflate, Option.map_some]
  simp only [List.nil_append, List.drop_eq_nil_of_le hle, List.take_of_length_le hle, hle, and_true]
  cases hfinished : d.finished t with
  | true => simp
  | false => simp [eq_nil_of_not_finished h hfinished]

/-- A piece that leaves room was read up to its end or to that of the stream. -/
theorem decode_of_decompress {z z' : Decompressor d} {data decoded : List α} {room : ℕ} (hpending : z.pending = [])
    (h : z.decompress data room = some (z', decoded)) (hroom : decoded.length < room) :
    ∃ left, d.decode z.state data = some (z'.state, decoded, left) ∧ z' = ⟨z'.state, [], [], z.unusedData ++ left⟩ := by
  have hresult := h
  rw [decompress, Option.map_eq_some_iff] at h
  obtain ⟨⟨s, after, left⟩, hinflate, h⟩ := h
  have htake : after.take room = decoded := congrArg Prod.snd h
  have hlt : after.length < room := by
    have := congrArg List.length htake
    rw [List.length_take] at this
    omega
  rw [hpending] at hinflate
  obtain ⟨more, hdecode, hmore⟩ := Decoder.decode_of_inflate hinflate hlt.le
  rw [List.nil_append] at hmore
  rw [decompress_of_decode hpending hdecode (by rw [← hmore]; exact hlt)] at hresult
  obtain ⟨hz, hdecoded⟩ := Prod.mk.inj (Option.some.inj hresult)
  rw [← hdecoded, ← hz]
  exact ⟨left, hdecode, rfl⟩

end Decompressor

end Streaming
