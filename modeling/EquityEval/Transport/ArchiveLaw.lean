import EquityEval.Transport.Archive
import EquityEval.Transport.SecLaw

/-!
# What the archive keeps

What is archived depends on the bytes of a body alone, and not on its chunks: the state after some chunks is
computed from what they are together (`reading`). A body is published exactly when it may be archived.
-/

namespace EquityEval.Transport

open Streaming
open Workflow (Uuid Instant isSha256)

section Reading

variable {d : Decoder UInt8} {limit : ℕ} {word : List UInt8}

/-- The decompressor after some bytes, and what they decode to; nothing where they are malformed or go on after the end. -/
def reading (d : Decoder UInt8) (plain : Bool) (wire : List UInt8) : Option (Option (Decompressor d) × List UInt8) :=
  if plain = true then some (none, wire)
  else match d.decode d.start wire with
    | some (s, body, []) => some (some { state := s }, body)
    | _ => none

/-- A body is within the limits, and the word is not in it. -/
structure Admits (limit : ℕ) (word wire body : List UInt8) : Prop where
  wire_le : wire.length ≤ limit * 2 + 65536
  body_le : body.length ≤ limit
  unseen : word ≠ [] → ¬ word <:+: body

/-- The state after some bytes. -/
structure Holds (plain : Bool) (word : List UInt8) (p : Progress d) (wire body : List UInt8) : Prop where
  reading : reading d plain wire = some (p.decoder, body)
  wireCount : p.wireCount = wire.length
  count : p.count = body.length
  tail : word ≠ [] → Keeps word body p.tail
  decoded : p.decoded.flatten = body

/-- What more bytes decode to comes after what the first did. -/
theorem reading_append {plain : Bool} {wire more body : List UInt8} {z : Option (Decompressor d)}
    (h : reading d plain (wire ++ more) = some (z, body)) : ∃ z' before, reading d plain wire = some (z', before) ∧ before <+: body := by
  unfold reading at h ⊢
  split at h
  · rename_i hplain
    cases h
    exact ⟨none, wire, by rw [if_pos hplain], List.prefix_append _ _⟩
  · rename_i hplain
    rw [if_neg hplain]
    split at h
    · rename_i s decoded hdecode
      cases h
      obtain ⟨t, first, others, hfirst, -, rfl⟩ := Decoder.exists_decode_of_append hdecode
      exact ⟨some { state := t }, first, by rw [hfirst], List.prefix_append _ _⟩
    · cases h

/-- A part of a body that may be archived is within the limits too. -/
theorem Admits.initial {wire more body before : List UInt8} (h : Admits limit word (wire ++ more) body) (hbefore : before <+: body) :
    Admits limit word wire before where
  wire_le := by
    have := h.wire_le
    rw [List.length_append] at this
    omega
  body_le := hbefore.length_le.trans h.body_le
  unseen hword hin := h.unseen hword (hin.trans hbefore.isInfix)

/-- Bytes of a compressed body that are decoded after others. -/
theorem reading_compressed {s t : d.State} {wire more body others left : List UInt8} (h : reading d false wire = some (some { state := s }, body))
    (hmore : d.decode s more = some (t, others, left)) :
    reading d false (wire ++ more) = if left = [] then some (some { state := t }, body ++ others) else none := by
  unfold reading at h ⊢
  rw [if_neg Bool.false_ne_true] at h ⊢
  split at h
  · rename_i u decoded hdecode
    cases h
    rw [Decoder.decode_append hdecode, hmore]
    cases left <;> rfl
  · cases h

/-- Bytes of a compressed body that are malformed after others. -/
theorem reading_malformed {s : d.State} {wire more body : List UInt8} (h : reading d false wire = some (some { state := s }, body))
    (hmore : d.decode s more = none) : reading d false (wire ++ more) = none := by
  unfold reading at h ⊢
  rw [if_neg Bool.false_ne_true] at h ⊢
  split at h
  · rename_i u decoded hdecode
    cases h
    rw [Decoder.decode_append hdecode, hmore]
    rfl
  · cases h

/-- A piece is accepted exactly when the body is within its limits with it. -/
theorem accept_spec (p : Progress d) (piece : List UInt8) {wire body : List UInt8} (hcount : p.count = body.length) (htail : word ≠ [] → Keeps word body p.tail)
    (hwire : wire.length ≤ limit * 2 + 65536) (hunseen : word ≠ [] → ¬ word <:+: body) :
    (∃ tail, accept limit word p piece =
        .ok { p with count := (body ++ piece).length, tail := tail, decoded := p.decoded ++ [piece] } ∧
      (word ≠ [] → Keeps word (body ++ piece) tail) ∧ Admits limit word wire (body ++ piece)) ∨
    ((∃ e, accept limit word p piece = .error (.raised e)) ∧ ¬ Admits limit word wire (body ++ piece)) := by
  unfold accept
  rw [hcount, ← List.length_append]
  by_cases hlimit : limit < (body ++ piece).length
  · rw [if_pos hlimit]
    exact Or.inr ⟨⟨_, rfl⟩, fun h => absurd h.body_le (Nat.not_le.mpr hlimit)⟩
  · rw [if_neg hlimit]
    have hle := Nat.not_lt.mp hlimit
    by_cases hword : word = []
    · subst hword
      exact Or.inl ⟨p.tail, rfl, fun h => absurd rfl h, hwire, hle, fun h => absurd rfl h⟩
    · obtain ⟨hfound, hkept⟩ := scan_spec piece hword (htail hword) (hunseen hword)
      cases hscan : scan word p.tail piece with
      | none => exact Or.inr ⟨⟨_, rfl⟩, fun h => h.unseen hword (hfound.mp hscan)⟩
      | some tail =>
        refine Or.inl ⟨tail, rfl, fun _ => hkept tail hscan, hwire, hle, fun _ hin => ?_⟩
        rw [hfound.mpr hin] at hscan
        cases hscan

/-- Nothing is left to be decoded. -/
theorem drain_nil (fuel : ℕ) (p : Progress d) : drain limit word fuel p [] = .ok p := by
  cases fuel <;> rfl

/-- More bytes of a body are taken when it may be archived with them, and refused otherwise. -/
def Takes (limit : ℕ) (plain : Bool) (word wire : List UInt8) (result : Except Failure (Progress d)) : Prop :=
  (∃ p body, result = .ok p ∧ Holds plain word p wire body ∧ Admits limit word wire body) ∨
    ((∃ e, result = .error (.raised e)) ∧ ∀ z body, reading d plain wire = some (z, body) → ¬ Admits limit word wire body)

variable {p : Progress d} {wire body : List UInt8} {fuel : ℕ}

/-- The bytes of a body that is not compressed. -/
theorem drain_plain {bytes : List UInt8} (h : Holds true word p wire body) (hadmits : Admits limit word wire body) (hwire : (wire ++ bytes).length ≤ limit * 2 + 65536)
    (hbytes : bytes ≠ []) :
    Takes limit true word (wire ++ bytes) (drain limit word (fuel + 1) { p with wireCount := (wire ++ bytes).length } bytes) := by
  have hreading := h.reading
  rw [reading, if_pos rfl, Option.some.injEq, Prod.mk.injEq] at hreading
  obtain ⟨hdecoder, rfl⟩ := hreading
  obtain ⟨b, rest, rfl⟩ := List.exists_cons_of_ne_nil hbytes
  simp only [drain, ← hdecoder]
  rcases accept_spec { p with wireCount := (wire ++ b :: rest).length, decoder := none } (b :: rest) h.count h.tail hwire hadmits.unseen with
    ⟨tail, hok, hkeeps, hall⟩ | ⟨⟨e, herror⟩, hnot⟩
  · rw [hok]
    refine Or.inl ⟨_, _, rfl, ⟨?_, rfl, rfl, hkeeps, ?_⟩, hall⟩
    · rw [reading, if_pos rfl]
    · rw [List.flatten_append, h.decoded, List.flatten_singleton]
  · rw [herror]
    refine Or.inr ⟨⟨e, rfl⟩, fun z body hbody => ?_⟩
    rw [reading, if_pos rfl, Option.some.injEq, Prod.mk.injEq] at hbody
    obtain ⟨-, rfl⟩ := hbody
    exact hnot

/-- The bytes of a compressed body. -/
theorem drain_compressed {bytes : List UInt8} (h : Holds false word p wire body) (hadmits : Admits limit word wire body)
    (hwire : (wire ++ bytes).length ≤ limit * 2 + 65536) (hbytes : bytes ≠ []) :
    Takes limit false word (wire ++ bytes) (drain limit word (fuel + 1) { p with wireCount := (wire ++ bytes).length } bytes) := by
  obtain ⟨s, hdecoder, hreading⟩ : ∃ s, p.decoder = some { state := s } ∧ reading d false wire = some (some { state := s }, body) := by
    have hreading := h.reading
    unfold reading at hreading
    rw [if_neg Bool.false_ne_true] at hreading
    split at hreading
    · rename_i s decoded _
      obtain ⟨hdecoder, -⟩ := Prod.mk.inj (Option.some.inj hreading)
      exact ⟨s, hdecoder.symm, by rw [hdecoder]; exact h.reading⟩
    · cases hreading
  obtain ⟨b, rest, rfl⟩ := List.exists_cons_of_ne_nil hbytes
  have hle := hadmits.body_le
  -- a body that is within its limits leaves room
  have hroom : ∀ {t others left}, d.decode s (b :: rest) = some (t, others, left) → (body ++ others).length ≤ limit →
      Decompressor.decompress { state := s } (b :: rest) (limit - p.count + 1) = some (⟨t, [], [], left⟩, others) := by
    intro t others left hdecode hfits
    rw [List.length_append] at hfits
    exact Decompressor.decompress_of_decode (z := { state := s }) rfl hdecode (by rw [h.count]; omega)
  simp only [drain, hdecoder]
  cases hz : Decompressor.decompress { state := s } (b :: rest) (limit - p.count + 1) with
  | none =>
    refine Or.inr ⟨⟨_, rfl⟩, fun z more hmore hall => ?_⟩
    cases hdecode : d.decode s (b :: rest) with
    | none =>
      rw [reading_malformed hreading hdecode] at hmore
      cases hmore
    | some result =>
      obtain ⟨t, others, left⟩ := result
      rw [reading_compressed hreading hdecode] at hmore
      split at hmore
      · cases hmore
        rw [hroom hdecode hall.body_le] at hz
        cases hz
      · cases hmore
  | some result =>
    obtain ⟨z, piece⟩ := result
    dsimp only
    by_cases hshort : piece.length < limit - p.count + 1
    · obtain ⟨left, hdecode, hshape⟩ := Decompressor.decode_of_decompress (z := { state := s }) rfl hz hshort
      rw [List.nil_append] at hshape
      generalize z.state = t at hdecode hshape
      subst hshape
      have hnext := reading_compressed hreading hdecode
      cases left with
      | cons c left =>
        rw [if_neg (List.cons_ne_nil c left)] at hnext
        exact Or.inr ⟨⟨_, rfl⟩, fun z more hmore => absurd (hnext.symm.trans hmore) nofun⟩
      | nil =>
        rw [if_pos rfl] at hnext
        rw [if_neg (not_not.mpr rfl)]
        simp only [drain_nil]
        rcases accept_spec { p with decoder := some { state := t }, wireCount := (wire ++ b :: rest).length } piece
          h.count h.tail hwire hadmits.unseen with ⟨tail, hok, hkeeps, hall⟩ | ⟨⟨e, herror⟩, hnot⟩
        · rw [hok]
          refine Or.inl ⟨_, _, rfl, ⟨hnext, rfl, rfl, hkeeps, ?_⟩, hall⟩
          rw [List.flatten_append, h.decoded, List.flatten_singleton]
        · rw [herror]
          refine Or.inr ⟨⟨e, rfl⟩, fun z more hmore => ?_⟩
          cases hnext.symm.trans hmore
          exact hnot
    · -- the room is used up: there is more than the limit
      refine Or.inr ⟨?_, fun z' more hmore hall => ?_⟩
      · split
        · exact ⟨_, rfl⟩
        · refine ⟨.bodyLimitExceeded, ?_⟩
          rw [accept, if_pos (by rw [h.count] at hshort ⊢; omega)]
          rfl
      · cases hdecode : d.decode s (b :: rest) with
        | none =>
          rw [reading_malformed hreading hdecode] at hmore
          cases hmore
        | some result =>
          obtain ⟨t, others, left⟩ := result
          rw [reading_compressed hreading hdecode] at hmore
          split at hmore
          · cases hmore
            rw [hroom hdecode hall.body_le] at hz
            cases hz
            have hfits := hall.body_le
            rw [List.length_append] at hfits
            rw [h.count] at hshort
            omega
          · cases hmore

/-- A chunk is taken or refused. -/
theorem chunk_takes {plain : Bool} (bytes : List UInt8) (h : Holds plain word p wire body) (hadmits : Admits limit word wire body) :
    Takes limit plain word (wire ++ bytes) (chunk limit word p bytes) := by
  unfold chunk
  rw [h.wireCount, ← List.length_append]
  by_cases hwire : limit * 2 + 65536 < (wire ++ bytes).length
  · rw [if_pos hwire]
    exact Or.inr ⟨⟨_, rfl⟩, fun _ _ _ hall => absurd hall.wire_le (Nat.not_le.mpr hwire)⟩
  · rw [if_neg hwire]
    cases bytes with
    | nil =>
      refine Or.inl ⟨_, body, drain_nil _ _, ?_, ?_⟩
      · rw [List.append_nil]
        exact ⟨h.reading, rfl, h.count, h.tail, h.decoded⟩
      · rw [List.append_nil]
        exact hadmits
    | cons b rest =>
      rw [List.length_cons]
      cases plain with
      | true => exact drain_plain h hadmits (Nat.not_lt.mp hwire) (List.cons_ne_nil b rest)
      | false => exact drain_compressed h hadmits (Nat.not_lt.mp hwire) (List.cons_ne_nil b rest)

/-- What a whole body is archived for: it is within its limits and complete. -/
structure Finishes (limit : ℕ) (word wire : List UInt8) (expected : Option ℤ) (z : Option (Decompressor d)) (body : List UInt8) : Prop extends
    Admits limit word wire body where
  eof : ∀ y, z = some y → y.eof = true
  length : ∀ n, expected = some n → (wire.length : ℤ) = n

/-- The chunks of a body are received when they are a body that may be archived, and refused otherwise. -/
theorem receive_spec {plain : Bool} (expected : Option ℤ) {deadline : ℕ → Except Fault Unit} (hdeadline : ∀ n, deadline n = .ok ())
    (chunks : List (List UInt8)) {n : ℕ} (h : Holds plain word p wire body) (hadmits : Admits limit word wire body) :
    (∃ p' body', receive limit word expected deadline n p chunks = .ok p' ∧ Holds plain word p' (wire ++ chunks.flatten) body' ∧
      Finishes limit word (wire ++ chunks.flatten) expected p'.decoder body') ∨
    ((∃ e, receive limit word expected deadline n p chunks = .error (.raised e)) ∧
      ∀ z body', reading d plain (wire ++ chunks.flatten) = some (z, body') → ¬ Finishes limit word (wire ++ chunks.flatten) expected z body') := by
  induction chunks generalizing n p wire body with
  | nil =>
    rw [List.flatten_nil, List.append_nil, receive, hdeadline]
    have hunique : ∀ {z body'}, reading d plain wire = some (z, body') → z = p.decoder := fun hz => by
      have := h.reading.symm.trans hz
      cases this
      rfl
    change (∃ p' body', ending expected p = _ ∧ _) ∨ (∃ e, ending expected p = _) ∧ _
    unfold ending
    by_cases heof : p.decoder.any fun z => !z.eof
    · rw [if_pos heof]
      refine Or.inr ⟨⟨_, rfl⟩, fun z body' hz hall => ?_⟩
      obtain ⟨y, hy, hnot⟩ := (Option.any_eq_true ..).mp heof
      rw [hall.eof y ((hunique hz).trans hy)] at hnot
      cases hnot
    · rw [if_neg heof]
      by_cases hlength : expected.any fun n => (p.wireCount : ℤ) ≠ n
      · rw [if_pos hlength]
        refine Or.inr ⟨⟨_, rfl⟩, fun z body' hz hall => ?_⟩
        obtain ⟨n, hn, hne⟩ := (Option.any_eq_true ..).mp hlength
        rw [h.wireCount] at hne
        exact of_decide_eq_true hne (hall.length n hn)
      · rw [if_neg hlength]
        refine Or.inl ⟨p, body, rfl, h, hadmits, fun y hy => ?_, fun n hn => ?_⟩
        · rw [hy] at heof
          simpa using heof
        · rw [hn, h.wireCount] at hlength
          simpa using hlength
  | cons c chunks ih =>
    rw [List.flatten_cons, ← List.append_assoc, receive, hdeadline]
    change (∃ p' body', (chunk limit word p c).bind _ = _ ∧ _) ∨ (∃ e, (chunk limit word p c).bind _ = _) ∧ _
    rcases chunk_takes c h hadmits with ⟨p', body', hok, hholds, hall⟩ | ⟨⟨e, herror⟩, hnot⟩
    · rw [hok]
      exact ih hholds hall
    · rw [herror]
      refine Or.inr ⟨⟨e, rfl⟩, fun z body' hz hall => ?_⟩
      -- what is refused early stays refused
      obtain ⟨z', before, hbefore, hprefix⟩ := reading_append hz
      exact hnot z' before hbefore (hall.toAdmits.initial hprefix)

end Reading

/-! ### Publication -/

/-- A file is read when it is as long as expected. -/
theorem readChunks_eq {byteCount : ℕ} {count : ℕ} {read source : List UInt8} (hcount : count = read.length) (hle : count ≤ byteCount) :
    readChunks byteCount count read source = if byteCount < count + source.length then .error .archiveError else .ok (read ++ source) := by
  induction hlen : source.length using Nat.strong_induction_on generalizing count read source with
  | _ n ih =>
    subst hlen
    rw [readChunks]
    by_cases hnil : source = []
    · subst hnil
      rw [dif_pos rfl, if_neg (by rw [List.length_nil]; omega), List.append_nil]
    · rw [dif_neg hnil]
      have hpos := List.length_pos_of_ne_nil hnil
      have htake : (source.take (min 65536 (byteCount - count + 1))).length ≤ source.length := List.length_take_le' _ _
      by_cases hmore : byteCount < count + (source.take (min 65536 (byteCount - count + 1))).length
      · rw [if_pos hmore, if_pos (by omega)]
      · rw [if_neg hmore]
        have hsplit := congrArg List.length (List.take_append_drop (min 65536 (byteCount - count + 1)) source)
        rw [List.length_append] at hsplit
        rw [ih _ (by rw [List.length_drop]; omega) (by rw [List.length_append, hcount]) (Nat.not_lt.mp hmore) rfl,
          List.append_assoc, List.take_append_drop, Nat.add_assoc, hsplit]

namespace ArchiveLibrary

variable {library : ArchiveLibrary}

/-- A file is read back with the digest and the size of what is in it. -/
theorem readPath_eq (hdigest : ∀ body, isSha256 (library.sha256 body) = true) {content body : List UInt8}
    (hcontent : library.gunzip content = some body) : library.readPath (some content) (library.sha256 body) body.length = .ok body := by
  unfold readPath
  rw [if_neg (not_or.mpr ⟨by omega, by rw [hdigest]; exact Bool.noConfusion⟩), Option.bind_some, hcontent]
  dsimp only
  rw [Int.toNat_natCast, readChunks_eq List.length_nil.symm (Nat.zero_le _), Nat.zero_add, if_neg (lt_irrefl _), List.nil_append]
  change (if _ then _ else _) = _
  rw [if_neg (not_or.mpr ⟨not_not.mpr rfl, not_not.mpr rfl⟩)]

variable (library) in
/-- The bytes are one complete stream of an encoding, with nothing after it. -/
def Encodes (encoding : Encoding) (wire body : List UInt8) : Prop :=
  match encoding with
  | .identity => body = wire
  | .gzip => library.gzipFormat.Complete wire body
  | .deflate => library.zlibFormat.Complete wire body

variable (library) in
/-- A body that may be archived for some bytes that were received. -/
structure Archivable (a : WriteArguments) (wire body : List UInt8) : Prop where
  encodes : ∃ encoding, a.encoding = some encoding ∧ library.Encodes encoding wire body
  wire_le : (wire.length : ℤ) ≤ a.maxBytes * 2 + 65536
  body_le : (body.length : ℤ) ≤ a.maxBytes
  length : ∀ n, a.expectedWireBytes = some n → (wire.length : ℤ) = n
  unseen : ∀ secret, a.secret = some secret → secret ≠ "" → ¬ encode secret <:+: body

/-- The state at the end of a complete body. -/
theorem encodes_iff {encoding : Encoding} {wire body : List UInt8} :
    library.Encodes encoding wire body ↔
      ∃ z, reading (library.format encoding) (encoding = .identity) wire = some (z, body) ∧ ∀ y, z = some y → y.eof = true := by
  have hcomplete : ∀ d : Decoder UInt8, d.Complete wire body ↔ ∃ z, reading d false wire = some (z, body) ∧ ∀ y, z = some y → y.eof = true := by
    intro d
    unfold reading
    rw [if_neg Bool.false_ne_true]
    constructor
    · rintro ⟨s, hdecode, hfinished⟩
      refine ⟨some { state := s }, by rw [hdecode], ?_⟩
      rintro _ ⟨⟩
      simp [Decompressor.eof, hfinished]
    · rintro ⟨z, hz, heof⟩
      split at hz
      · rename_i s decoded hdecode
        cases hz
        have hends := heof _ rfl
        simp only [Decompressor.eof, List.isEmpty_nil, Bool.and_true] at hends
        exact ⟨s, hdecode, hends⟩
      · cases hz
  cases encoding with
  | identity =>
    constructor
    · rintro rfl
      exact ⟨none, rfl, nofun⟩
    · rintro ⟨z, hz, -⟩
      cases hz
      rfl
  | gzip => exact hcomplete _
  | deflate => exact hcomplete _

variable (library) in
/-- Nothing was decoded before the first chunk. -/
theorem opening_holds (encoding : Encoding) {word : List UInt8} :
    Holds (encoding = .identity) word (library.opening encoding) [] [] where
  reading := by
    unfold reading opening
    by_cases h : encoding = .identity
    · simp [h]
    · simp [h, Decoder.decode]
  wireCount := rfl
  count := rfl
  tail _ := ⟨List.suffix_rfl, Or.inl rfl⟩
  decoded := rfl

/-- No body is within all limits. -/
theorem admits_nil (limit : ℕ) (word : List UInt8) : Admits limit word [] [] where
  wire_le := Nat.zero_le _
  body_le := Nat.zero_le _
  unseen hword hin := hword (List.infix_nil.mp hin)

/-- A received body is archived unless something is stored under its path. -/
theorem publish_eq (hdigest : ∀ body, isSha256 (library.sha256 body) = true)
    (hgzip : ∀ pieces, library.gunzip (library.gzip pieces) = some pieces.flatten) {disk : Disk} {key : String} {target : Path}
    {decoded : List (List UInt8)} {body : List UInt8} (hbody : decoded.flatten = body) :
    library.publish disk key target body.length decoded =
      if (disk.files target).isSome then (.error (.raised .osError), disk)
      else (.ok ⟨key, library.sha256 body, body.length⟩, disk.link target (library.gzip decoded)) := by
  subst hbody
  unfold publish
  dsimp only
  rw [readPath_eq hdigest (hgzip decoded)]

end ArchiveLibrary

namespace WriteArguments

variable {a : WriteArguments}

variable (a) in
/-- The names that an archive key is made of are well formed. -/
def Named : Prop := isSourceKey a.sourceKey = true ∧ isSha256 a.paramsHash = true ∧ a.sourceObjectKey ≠ ""

/-- The arguments that are accepted. -/
theorem checked_eq_ok {encoding : Encoding} :
    a.checked = .ok encoding ↔ a.Named ∧ 0 ≤ a.maxBytes ∧ (∀ n, a.expectedWireBytes = some n → 0 ≤ n) ∧ a.encoding = some encoding := by
  unfold checked Named
  split_ifs with hsource hnames hmax hexpected
  · simp [hsource]
  · refine ⟨nofun, fun ⟨⟨_, hhash, hobject⟩, _⟩ => ?_⟩
    exact (hnames.elim (fun h => by rw [h] at hhash; cases hhash) (fun h => hobject h)).elim
  · exact ⟨nofun, fun ⟨_, h, _⟩ => absurd hmax (not_lt.mpr h)⟩
  · refine ⟨nofun, fun ⟨_, _, h, _⟩ => ?_⟩
    obtain ⟨n, hn, hneg⟩ := (Option.any_eq_true ..).mp hexpected
    exact absurd (of_decide_eq_true hneg) (not_lt.mpr (h n hn))
  · have hall : ∀ n, a.expectedWireBytes = some n → 0 ≤ n := fun n hn => by
      rw [hn] at hexpected
      simpa using hexpected
    obtain ⟨hhash, hobject⟩ := not_or.mp hnames
    have hnamed : isSourceKey a.sourceKey = true ∧ isSha256 a.paramsHash = true ∧ a.sourceObjectKey ≠ "" :=
      ⟨Bool.eq_true_of_not_eq_false hsource, Bool.eq_true_of_not_eq_false hhash, hobject⟩
    cases hencoding : a.encoding with
    | none => simp
    | some e => simpa [hnamed, not_lt.mp hmax] using fun _ => hall

/-- The scanner looks for a secret that is not empty. -/
theorem unseen_iff {body : List UInt8} :
    (a.word ≠ [] → ¬ a.word <:+: body) ↔ ∀ secret, a.secret = some secret → secret ≠ "" → ¬ encode secret <:+: body := by
  have hempty : ∀ text : String, encode text = [] ↔ text = "" := by
    intro text
    unfold encode
    rw [List.flatMap_eq_nil_iff]
    constructor
    · intro h
      rw [← String.toList_eq_nil_iff, List.eq_nil_iff_forall_not_mem]
      exact fun c hc => String.utf8EncodeChar_ne_nil (h c hc)
    · rintro rfl
      exact nofun
  unfold word
  cases a.secret with
  | none => simp
  | some secret => simp [hempty]

end WriteArguments

namespace ArchiveLibrary

variable {library : ArchiveLibrary} {disk : Disk} {a : WriteArguments} {wire body : List UInt8}

/-- A body may be archived when it is received. -/
theorem archivable_iff {encoding : Encoding} (hchecked : a.checked = .ok encoding) :
    library.Archivable a wire body ↔ ∃ z, reading (library.format encoding) (encoding = .identity) wire = some (z, body) ∧
      Finishes a.limit a.word wire a.expectedWireBytes z body := by
  obtain ⟨-, hmax, -, hencoding⟩ := WriteArguments.checked_eq_ok.mp hchecked
  have hlimit : (a.limit : ℤ) = a.maxBytes := Int.toNat_of_nonneg hmax
  constructor
  · rintro ⟨⟨e, he, hencodes⟩, hwire, hbody, hlength, hunseen⟩
    cases hencoding.symm.trans he
    obtain ⟨z, hz, heof⟩ := encodes_iff.mp hencodes
    exact ⟨z, hz, ⟨by omega, by omega, WriteArguments.unseen_iff.mpr hunseen⟩, heof, hlength⟩
  · rintro ⟨z, hz, ⟨hwire, hbody, hunseen⟩, heof, hlength⟩
    exact ⟨⟨encoding, hencoding, encodes_iff.mpr ⟨z, hz, heof⟩⟩, by omega, by omega, hlength, WriteArguments.unseen_iff.mp hunseen⟩

/-- The arguments of a body that may be archived are accepted. -/
theorem Archivable.checked (h : library.Archivable a wire body) (hnamed : a.Named) : ∃ encoding, a.checked = .ok encoding := by
  obtain ⟨encoding, hencoding, -⟩ := h.encodes
  refine ⟨encoding, WriteArguments.checked_eq_ok.mpr ⟨hnamed, ?_, fun n hn => ?_, hencoding⟩⟩
  · exact (Int.natCast_nonneg _).trans h.body_le
  · rw [← h.length n hn]
    exact Int.natCast_nonneg _

/-- Bytes have one decoded form in an encoding. -/
theorem Archivable.unique {body' : List UInt8} (h : library.Archivable a wire body) (h' : library.Archivable a wire body') : body = body' := by
  obtain ⟨encoding, hencoding, hencodes⟩ := h.encodes
  obtain ⟨encoding', hencoding', hencodes'⟩ := h'.encodes
  cases hencoding.symm.trans hencoding'
  obtain ⟨z, hz, -⟩ := encodes_iff.mp hencodes
  obtain ⟨z', hz', -⟩ := encodes_iff.mp hencodes'
  cases hz.symm.trans hz'
  rfl

/-- A key leads to a path where nothing is stored. -/
def Vacant (disk : Disk) (key : String) : Prop := ∃ target, disk.path key = .ok target ∧ disk.files target = none

variable (disk a) in
/-- A body that may be archived is, and nothing changes otherwise. -/
theorem write_cases (hdigest : ∀ body, isSha256 (library.sha256 body) = true)
    (hgzip : ∀ pieces, library.gunzip (library.gzip pieces) = some pieces.flatten) {deadline : ℕ → Except Fault Unit}
    (hdeadline : ∀ n, deadline n = .ok ()) (chunks : List (List UInt8)) :
    (∃ body target content, a.Named ∧ library.Archivable a chunks.flatten body ∧ disk.path (a.key library) = .ok target ∧
      disk.files target = none ∧ library.gunzip content = some body ∧
      library.write disk a deadline chunks = (.ok ⟨a.key library, library.sha256 body, body.length⟩, disk.link target content)) ∨
    ((∃ e, library.write disk a deadline chunks = (.error (.raised e), disk)) ∧
      ¬ (a.Named ∧ Vacant disk (a.key library) ∧ ∃ body, library.Archivable a chunks.flatten body)) := by
  unfold write
  cases hchecked : a.checked with
  | error e =>
    refine Or.inr ⟨⟨e, rfl⟩, fun ⟨hnamed, _, body, hbody⟩ => ?_⟩
    obtain ⟨encoding, hok⟩ := hbody.checked hnamed
    cases hchecked.symm.trans hok
  | ok encoding =>
    dsimp only
    have hnamed := (WriteArguments.checked_eq_ok.mp hchecked).1
    cases hpath : disk.path (a.key library) with
    | error e => exact Or.inr ⟨⟨e, rfl⟩, fun ⟨_, ⟨target, htarget, _⟩, _⟩ => absurd (hpath.symm.trans htarget) nofun⟩
    | ok target =>
      dsimp only
      rcases receive_spec a.expectedWireBytes hdeadline chunks (opening_holds library encoding) (admits_nil a.limit a.word) with ⟨p, body, hreceive, hholds, hfinishes⟩ | ⟨⟨e, herror⟩, hnot⟩
      · rw [List.nil_append] at hholds hfinishes
        have harchivable := (archivable_iff hchecked).mpr ⟨p.decoder, hholds.reading, hfinishes⟩
        rw [hreceive]
        dsimp only
        rw [hholds.count, publish_eq hdigest hgzip hholds.decoded]
        cases hfile : disk.files target with
        | none =>
          exact Or.inl ⟨body, target, library.gzip p.decoded, hnamed, harchivable, rfl, hfile, by rw [hgzip, hholds.decoded], rfl⟩
        | some content =>
          refine Or.inr ⟨⟨_, rfl⟩, fun ⟨_, ⟨target', htarget, hnone⟩, _⟩ => ?_⟩
          cases hpath.symm.trans htarget
          cases hfile.symm.trans hnone
      · rw [herror]
        refine Or.inr ⟨⟨e, rfl⟩, fun ⟨_, _, body, hbody⟩ => ?_⟩
        obtain ⟨z, hz, hfinishes⟩ := (archivable_iff hchecked).mp hbody
        exact hnot z body (by rw [List.nil_append]; exact hz) (by rw [List.nil_append]; exact hfinishes)

/-- What was linked to the path of a key is read under it. -/
theorem readBlob_link (hdigest : ∀ body, isSha256 (library.sha256 body) = true) {key : String} {target : Path} {content : List UInt8}
    (hpath : disk.path key = .ok target) (hcontent : library.gunzip content = some body) :
    library.readBlob (disk.link target content) key (library.sha256 body) body.length = .ok body := by
  have hlinked : (disk.link target content).path key = .ok target := hpath
  unfold readBlob
  rw [hlinked]
  change library.readPath (if target = target then some content else disk.files target) _ _ = _
  rw [if_pos rfl]
  exact readPath_eq hdigest hcontent

end ArchiveLibrary

/-! ### Credentials and bodies -/

/-- The header fields that were recorded. -/
def ResponseHeaders.values (fields : ResponseHeaders) : List String :=
  [fields.contentType, fields.contentEncoding, fields.etag, fields.lastModified, fields.retryAfter, fields.location].filterMap id

namespace ProviderTransport

variable {t : ProviderTransport} {response : Response}

/-- A header field that is kept does not contain the credential. -/
theorem header_clean {name key value : String} (hkey : t.key = some key) (h : t.header response name = .ok (some value)) :
    ¬ key.toList <:+: value.toList := by
  unfold header at h
  split at h
  · cases h
  · rw [hkey] at h
    split_ifs at h with hreflected
    · cases h
      simpa using hreflected

/-- No header field that is recorded contains the credential. -/
theorem evidence_clean {fields : ResponseHeaders} {key : String} (hkey : t.key = some key) (h : t.evidence response = .ok fields) :
    ∀ value ∈ fields.values, ¬ key.toList <:+: value.toList := by
  unfold evidence at h
  obtain ⟨contentType, hcontentType, h⟩ := Relational.bind_eq_ok.mp h
  obtain ⟨contentEncoding, hcontentEncoding, h⟩ := Relational.bind_eq_ok.mp h
  obtain ⟨etag, hetag, h⟩ := Relational.bind_eq_ok.mp h
  obtain ⟨lastModified, hlastModified, h⟩ := Relational.bind_eq_ok.mp h
  obtain ⟨retryAfter, hretryAfter, h⟩ := Relational.bind_eq_ok.mp h
  cases h
  intro value hvalue
  simp only [ResponseHeaders.values, List.mem_filterMap, List.mem_cons, List.not_mem_nil, or_false, id] at hvalue
  obtain ⟨field, hfield, rfl⟩ := hvalue
  rcases hfield with rfl | rfl | rfl | rfl | rfl | hfield
  · exact header_clean hkey hcontentType
  · exact header_clean hkey hcontentEncoding
  · exact header_clean hkey hetag
  · exact header_clean hkey hlastModified
  · exact header_clean hkey hretryAfter
  · cases hfield

end ProviderTransport

namespace ArchiveLibrary

variable {library : ArchiveLibrary} (disk : Disk) (a : WriteArguments)

/-- A body is published exactly when it may be archived and its path is vacant; it can then be read, and its digest and size
are those of its bytes, however it was cut into chunks. Otherwise nothing changes. No recorded header field contains a credential. -/
theorem write_publishes (hdigest : ∀ body, isSha256 (library.sha256 body) = true)
    (hgzip : ∀ pieces, library.gunzip (library.gzip pieces) = some pieces.flatten) {deadline : ℕ → Except Fault Unit}
    (hdeadline : ∀ n, deadline n = .ok ()) (chunks : List (List UInt8)) :
    ((∃ blob, (library.write disk a deadline chunks).1 = .ok blob) ↔
      a.Named ∧ Vacant disk (a.key library) ∧ ∃ body, library.Archivable a chunks.flatten body) ∧
    (∀ blob body, (library.write disk a deadline chunks).1 = .ok blob → library.Archivable a chunks.flatten body →
      blob = ⟨a.key library, library.sha256 body, body.length⟩ ∧
        library.readBlob (library.write disk a deadline chunks).2 blob.blobKey blob.bodySha256 blob.byteCount = .ok body) ∧
    (∀ f, (library.write disk a deadline chunks).1 = .error f →
      (∃ e, f = .raised e) ∧ (library.write disk a deadline chunks).2 = disk) ∧
    (∀ (deadline' : ℕ → Except Fault Unit) (chunks' : List (List UInt8)), (∀ n, deadline' n = .ok ()) → chunks'.flatten = chunks.flatten →
      (library.write disk a deadline' chunks').1.toOption = (library.write disk a deadline chunks).1.toOption) ∧
    ∀ (t : ProviderTransport) (response : Response) (fields : ResponseHeaders) (key : String), t.key = some key →
      t.evidence response = .ok fields → ∀ value ∈ fields.values, ¬ key.toList <:+: value.toList := by
  refine ⟨?_, ?_, ?_, ?_, fun t response fields key hkey h => ProviderTransport.evidence_clean hkey h⟩
  · rcases write_cases disk a hdigest hgzip hdeadline chunks with
      ⟨body, target, content, hnamed, hbody, hpath, hfree, _, hwrite⟩ | ⟨⟨e, hwrite⟩, hnot⟩
    · rw [hwrite]
      exact iff_of_true ⟨_, rfl⟩ ⟨hnamed, ⟨target, hpath, hfree⟩, body, hbody⟩
    · rw [hwrite]
      exact iff_of_false (fun ⟨blob, h⟩ => nomatch h) hnot
  · intro blob body hok hbody
    rcases write_cases disk a hdigest hgzip hdeadline chunks with
      ⟨body', target, content, _, hbody', hpath, _, hcontent, hwrite⟩ | ⟨⟨e, hwrite⟩, -⟩
    · cases hbody.unique hbody'
      rw [hwrite] at hok ⊢
      cases hok
      exact ⟨rfl, readBlob_link hdigest hpath hcontent⟩
    · rw [hwrite] at hok
      cases hok
  · intro f herror
    rcases write_cases disk a hdigest hgzip hdeadline chunks with ⟨_, _, _, _, _, _, _, _, hwrite⟩ | ⟨⟨e, hwrite⟩, -⟩
    · rw [hwrite] at herror
      cases herror
    · rw [hwrite] at herror ⊢
      cases herror
      exact ⟨⟨e, rfl⟩, rfl⟩
  · intro deadline' chunks' hdeadline' hsame
    have hcases := write_cases disk a hdigest hgzip hdeadline chunks
    have hcases' := write_cases disk a hdigest hgzip hdeadline' chunks'
    rw [hsame] at hcases'
    rcases hcases with ⟨body, target, content, hnamed, hbody, hpath, hfree, _, hwrite⟩ | ⟨⟨e, hwrite⟩, hnot⟩
    · rcases hcases' with ⟨body', _, _, _, hbody', _, _, _, hwrite'⟩ | ⟨_, hnot'⟩
      · rw [hwrite, hwrite', hbody.unique hbody']
      · exact absurd ⟨hnamed, ⟨target, hpath, hfree⟩, body, hbody⟩ hnot'
    · rcases hcases' with ⟨body', target', _, hnamed', hbody', hpath', hfree', _, _⟩ | ⟨⟨e', hwrite'⟩, _⟩
      · exact absurd ⟨hnamed', ⟨target', hpath', hfree'⟩, body', hbody'⟩ hnot
      · rw [hwrite, hwrite']
        rfl

end ArchiveLibrary

section Samples

open SecTransport (sampleHash)

/-- The decoded bytes of a sample. -/
def sampleContent : List UInt8 := [123, 34, 97, 34, 58, 49, 125]

/-- A sample as it is received: a compressed stream that stores its bytes as they are. -/
def sampleWire : List UInt8 :=
  [31, 139, 8, 0, 0, 0, 0, 0, 4, 3, 1, 7, 0, 248, 255] ++ sampleContent ++ [175, 172, 27, 86, 7, 0, 0, 0]

/-- The file that a sample is written to. -/
def sampleFile : List UInt8 :=
  [31, 139, 8, 0, 0, 0, 0, 0, 2, 255, 171, 86, 74, 84, 178, 50, 172, 5, 0, 175, 172, 27, 86, 7, 0, 0, 0]

/-- A format of one stream: its state is the number of bytes that were read. -/
def sampleFormat : Decoder UInt8 where
  State := ℕ
  start := 0
  next n b := if sampleWire[n]? = some b then some (n + 1, if 15 ≤ n ∧ n < 22 then [b] else []) else none
  finished n := n == 30

/-- The libraries of a sample. -/
def sampleLibrary : ArchiveLibrary where
  sha256 body :=
    if body = sampleContent then "015abd7f5cc57a2dd94b7590f04ad8084273905ee33ec5cebeae62276a97f862"
    else if body = encode "daily/202609" then "aab63168bf78221bd553e3d3f471d83c98848e4d8380813f20f347c088197a10"
    else sampleHash
  gzipFormat := sampleFormat
  zlibFormat := { sampleFormat with next := fun _ _ => none }
  gzip pieces := if pieces.flatten = sampleContent then sampleFile else 0 :: pieces.flatten
  gunzip content :=
    match content with
    | 0 :: body => some body
    | _ => if content = sampleFile then some sampleContent else none
  stamp _ := "19700101T000000000000+0000"
  uuidText _ := "00000000-0000-0000-0000-000000000009"

/-- The arguments of a sample. -/
def sampleArguments : WriteArguments where
  sourceKey := "treasury"
  sourceObjectKey := "daily/202609"
  paramsHash := sampleHash
  captureId := 9
  retrievedAt := 0
  maxBytes := 7
  contentEncoding := some " GZIP"
  expectedWireBytes := some 30
  secret := some "abcdefghijklmnop"

/-- An archive in which nothing is stored. -/
def emptyDisk : Disk := ⟨fun _ => none, fun _ => false, fun _ => false⟩

/-- An archive in which something is stored under every path. -/
def fullDisk : Disk := ⟨fun _ => some [], fun _ => false, fun _ => false⟩

/-- Every check of the deadline passes. -/
theorem passing (n : ℕ) : (fun _ => .ok () : ℕ → Except Fault Unit) n = .ok () := rfl

theorem sampleLibrary_sha256 (body : List UInt8) : isSha256 (sampleLibrary.sha256 body) = true := by
  unfold sampleLibrary
  dsimp only
  split_ifs <;> decide

theorem sampleLibrary_gunzip (pieces : List (List UInt8)) : sampleLibrary.gunzip (sampleLibrary.gzip pieces) = some pieces.flatten := by
  unfold sampleLibrary
  dsimp only
  by_cases h : pieces.flatten = sampleContent
  · rw [if_pos h, h]
    rfl
  · rw [if_neg h]
    rfl

/-- The sample may be archived. -/
theorem sample_archivable : sampleLibrary.Archivable sampleArguments sampleWire sampleContent where
  encodes := ⟨.gzip, by decide, (30 : ℕ), by rfl, rfl⟩
  wire_le := by decide
  body_le := by decide
  length := by
    rintro n ⟨⟩
    rfl
  unseen := by
    rintro secret ⟨⟩ -
    decide

theorem sample_named : sampleArguments.Named := ⟨by decide, by decide, by decide⟩

theorem sample_path (disk : Disk) (hlinks : disk.isSymlink = fun _ => false) (hroot : disk.leavesRoot = fun _ => false) :
    disk.path (sampleArguments.key sampleLibrary) = .ok (parts (sampleArguments.key sampleLibrary)) := by
  unfold Disk.path
  rw [if_neg (by decide +kernel), hlinks, hroot, if_neg (by simp), if_neg Bool.false_ne_true]

/-- A body cut in two, with an empty chunk between them, is archived. -/
theorem write_publishes_sample :
    (∃ blob, (sampleLibrary.write emptyDisk sampleArguments (fun _ => .ok ()) [sampleWire.take 17, [], sampleWire.drop 17]).1 = .ok blob) ∧
      (sampleLibrary.write emptyDisk sampleArguments (fun _ => .ok ()) [sampleWire.take 17, [], sampleWire.drop 17]).1.toOption =
        (sampleLibrary.write emptyDisk sampleArguments (fun _ => .ok ()) [sampleWire]).1.toOption := by
  have hlaw := ArchiveLibrary.write_publishes emptyDisk sampleArguments sampleLibrary_sha256 sampleLibrary_gunzip passing [sampleWire]
  have hcut : [sampleWire.take 17, [], sampleWire.drop 17].flatten = [sampleWire].flatten := by decide
  have hsame := hlaw.2.2.2.1 (fun _ => .ok ()) _ (fun _ => rfl) hcut
  obtain ⟨blob, hblob⟩ := hlaw.1.mpr ⟨sample_named, ⟨_, sample_path emptyDisk rfl rfl, rfl⟩, sampleContent, sample_archivable⟩
  refine ⟨⟨blob, ?_⟩, hsame⟩
  rw [hblob] at hsame
  revert hsame
  cases (sampleLibrary.write emptyDisk sampleArguments (fun _ => .ok ()) [sampleWire.take 17, [], sampleWire.drop 17]).1 with
  | error e => exact fun h => nomatch h
  | ok other => exact fun h => by rw [Option.some.inj h]

/-- A body that may be archived is not where something is stored under its key, and that file stays. -/
theorem occupied_write : sampleArguments.Named ∧ sampleLibrary.Archivable sampleArguments sampleWire sampleContent ∧
    (∃ e, sampleLibrary.write fullDisk sampleArguments (fun _ => .ok ()) [sampleWire] = (.error (.raised e), fullDisk)) ∧
    (fullDisk.files (parts (sampleArguments.key sampleLibrary))).isSome := by
  refine ⟨sample_named, sample_archivable, ?_, rfl⟩
  rcases ArchiveLibrary.write_cases fullDisk sampleArguments sampleLibrary_sha256 sampleLibrary_gunzip passing [sampleWire] with ⟨_, target, _, _, _, _, hfree, _⟩ | ⟨hwrite, -⟩
  · cases hfree
  · exact hwrite

end Samples

end EquityEval.Transport
