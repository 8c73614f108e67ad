import EquityEval.Transport.Provider
import EquityEval.Streaming.Decoder
import EquityEval.Streaming.Scanner

/-!
# The local archive

`LocalArchive.write` decodes a body chunk by chunk while it is received, holds it to its limits and looks for a
credential in it. A file is linked to its key only when the whole body was received and could be read back.
Links and directories are what a disk answers; other failures of the file system are left out.
-/

namespace EquityEval.Transport

open Streaming
open Workflow (Uuid Instant isSha256)

/-- `text.encode()`. -/
def encode (text : String) : List UInt8 := text.toList.flatMap String.utf8EncodeChar

/-- What the archive uses of other libraries: digests, the two formats of `zlib`, the `gzip` module, and the texts of times
and of identifiers. -/
structure ArchiveLibrary where
  sha256 : List UInt8 → String
  gzipFormat : Decoder UInt8
  zlibFormat : Decoder UInt8
  gzip : List (List UInt8) → List UInt8
  gunzip : List UInt8 → Option (List UInt8)
  stamp : Instant → String
  uuidText : Uuid → String

/-! ### Paths -/

/-- A path below the root, part by part. -/
abbrev Path : Type := List (List Char)

/-- What is below the root of an archive. -/
structure Disk where
  files : Path → Option (List UInt8)
  isSymlink : Path → Bool
  leavesRoot : Path → Bool

/-- `Path(key).parts` of a relative path. -/
def parts (key : String) : Path := (key.toList.splitOn '/').filter fun part => part ≠ [] ∧ part ≠ ['.']

/-- `_path`. -/
def Disk.path (disk : Disk) (key : String) : Except Fault Path :=
  if key.toList.head? = some '/' ∨ ['.', '.'] ∈ parts key ∨ parts key = [] then .error .archiveError
  else if (parts key).inits.tail.any disk.isSymlink then .error .archiveError
  else if disk.leavesRoot (parts key) then .error .archiveError
  else .ok (parts key)

/-- Link a file to a path. -/
def Disk.link (disk : Disk) (target : Path) (content : List UInt8) : Disk :=
  { disk with files := fun path => if path = target then some content else disk.files path }

/-! ### Arguments -/

/-- The arguments of `write`, other than the chunks and the check of the deadline; the secret is what the check of the
decoded chunks looks for. -/
structure WriteArguments where
  sourceKey : String
  sourceObjectKey : String
  paramsHash : String
  captureId : Uuid
  retrievedAt : Instant
  maxBytes : ℤ
  contentEncoding : Option String := none
  expectedWireBytes : Option ℤ := none
  secret : Option String := none

/-- The encodings that are supported. -/
inductive Encoding where
  | identity
  | gzip
  | deflate
deriving DecidableEq, Repr

/-- `[a-z0-9]`. -/
def lowerOrDigit (c : Char) : Bool := ('a' ≤ c && c ≤ 'z') || ('0' ≤ c && c ≤ '9')

/-- `re.fullmatch(r"[a-z0-9][a-z0-9_-]{0,79}", text)`. -/
def isSourceKey (text : String) : Bool :=
  match text.toList with
  | [] => false
  | c :: rest => lowerOrDigit c && rest.length ≤ 79 && rest.all fun c => lowerOrDigit c || c == '_' || c == '-'

namespace WriteArguments

variable (a : WriteArguments)

/-- `encoding`, if it is supported. Only letters without accents have the letters of the supported ones in lower case. -/
def encoding : Option Encoding :=
  let text := (strip ((a.contentEncoding.filter (· ≠ "")).getD "identity")).map Char.toLower
  if text = "identity".toList then some .identity
  else if text = "gzip".toList then some .gzip
  else if text = "deflate".toList then some .deflate
  else none

/-- The checks of the arguments, in their order. -/
def checked : Except Fault Encoding :=
  if isSourceKey a.sourceKey = false then .error .valueError
  else if isSha256 a.paramsHash = false ∨ a.sourceObjectKey = "" then .error .valueError
  else if a.maxBytes < 0 then .error .valueError
  else if a.expectedWireBytes.any (· < 0) then .error .valueError
  else match a.encoding with
    | none => .error .contentDecodingError
    | some encoding => .ok encoding

/-- `max_bytes`, once it is known not to be negative. -/
def limit : ℕ := a.maxBytes.toNat

/-- The bytes that the scanner looks for. -/
def word : List UInt8 := (a.secret.map encode).getD []

/-- `key`. -/
def key (library : ArchiveLibrary) : String :=
  a.sourceKey ++ "/" ++ library.sha256 (encode a.sourceObjectKey) ++ "/" ++ a.paramsHash ++ "/" ++
    library.stamp a.retrievedAt ++ "-" ++ library.uuidText a.captureId ++ ".gz"

end WriteArguments

/-! ### Receiving a body -/

/-- Why a write has no result; that a loop ran out of fuel is not an exception of the code. -/
inductive Failure where
  | raised (e : Fault)
  | diverged
deriving DecidableEq, Repr

/-- What `write` has received: the decompressor, none for a body that is not compressed; the counts; the end of the decoded
body that the scanner keeps; and the decoded pieces. -/
structure Progress (d : Decoder UInt8) where
  decoder : Option (Decompressor d)
  wireCount : ℕ := 0
  count : ℕ := 0
  tail : List UInt8 := []
  decoded : List (List UInt8) := []

section Receiving

variable {d : Decoder UInt8} (limit : ℕ) (word : List UInt8)

/-- A decoded piece is counted, looked at and written. -/
def accept (p : Progress d) (piece : List UInt8) : Except Failure (Progress d) :=
  if limit < p.count + piece.length then .error (.raised .bodyLimitExceeded)
  else match scan word p.tail piece with
    | none => .error (.raised .reflectedSecret)
    | some tail => .ok { p with count := p.count + piece.length, tail := tail, decoded := p.decoded ++ [piece] }

/-- `while pending:`, with fuel. -/
def drain : ℕ → Progress d → List UInt8 → Except Failure (Progress d)
  | _, p, [] => .ok p
  | 0, _, _ :: _ => .error .diverged
  | fuel + 1, p, b :: rest =>
    match p.decoder with
    | none => (accept limit word p (b :: rest)).bind fun p => drain fuel p []
    | some z =>
      match z.decompress (b :: rest) (limit - p.count + 1) with
      | none => .error (.raised .contentDecodingError)
      | some (z, piece) =>
        if z.unusedData ≠ [] then .error (.raised .contentDecodingError)
        else (accept limit word { p with decoder := some z } piece).bind fun p => drain fuel p z.unconsumedTail

/-- A chunk, once the deadline is checked. -/
def chunk (p : Progress d) (bytes : List UInt8) : Except Failure (Progress d) :=
  if limit * 2 + 65536 < p.wireCount + bytes.length then .error (.raised .bodyLimitExceeded)
  else drain limit word bytes.length { p with wireCount := p.wireCount + bytes.length } bytes

/-- The checks at the end of a body. -/
def ending (expected : Option ℤ) (p : Progress d) : Except Failure (Progress d) :=
  if p.decoder.any fun z => !z.eof then .error (.raised .contentDecodingError)
  else if expected.any fun n => (p.wireCount : ℤ) ≠ n then .error (.raised .transferIncomplete)
  else .ok p

/-- The chunks of a body, with the answers of `check_deadline`. -/
def receive (expected : Option ℤ) (deadline : ℕ → Except Fault Unit) : ℕ → Progress d → List (List UInt8) → Except Failure (Progress d)
  | n, p, [] => ((deadline n).mapError .raised).bind fun _ => ending expected p
  | n, p, c :: chunks =>
    ((deadline n).mapError .raised).bind fun _ => (chunk limit word p c).bind fun p => receive expected deadline (n + 1) p chunks

end Receiving

/-! ### The archive -/

/-- `while chunk := source.read(..)`: the bytes of a file, as many as are expected. -/
def readChunks (byteCount count : ℕ) (read source : List UInt8) : Except Fault (List UInt8) :=
  let size := min 65536 (byteCount - count + 1)
  if _ : source = [] then .ok read
  else if byteCount < count + (source.take size).length then .error .archiveError
  else readChunks byteCount (count + (source.take size).length) (read ++ source.take size) (source.drop size)
termination_by source.length
decreasing_by
  have := List.length_pos_of_ne_nil ‹¬source = []›
  rw [List.length_drop]
  omega

namespace ArchiveLibrary

variable (library : ArchiveLibrary)

/-- The format of an encoding that compresses. -/
def format (encoding : Encoding) : Decoder UInt8 := if encoding = .gzip then library.gzipFormat else library.zlibFormat

/-- The state before the first chunk. -/
def opening (encoding : Encoding) : Progress (library.format encoding) where
  decoder := if encoding = .identity then none else some { state := (library.format encoding).start }

/-- `_read_path`, of a file that may be missing. -/
def readPath (file : Option (List UInt8)) (bodySha256 : String) (byteCount : ℤ) : Except Fault (List UInt8) :=
  if byteCount < 0 ∨ isSha256 bodySha256 = false then .error .archiveError
  else match file.bind library.gunzip with
    | none => .error .archiveError
    | some source => (readChunks byteCount.toNat 0 [] source).bind fun body =>
      if (body.length : ℤ) ≠ byteCount ∨ library.sha256 body ≠ bodySha256 then .error .archiveError else .ok body

/-- `read_blob`. -/
def readBlob (disk : Disk) (blobKey bodySha256 : String) (byteCount : ℤ) : Except Fault (List UInt8) :=
  (disk.path blobKey).bind fun path => library.readPath (disk.files path) bodySha256 byteCount

/-- The body that a received one is archived as, once the temporary file was read back and linked. -/
def publish (disk : Disk) (key : String) (target : Path) (count : ℕ) (decoded : List (List UInt8)) :
    Except Failure ArchivedBody × Disk :=
  let content := library.gzip decoded
  let result : ArchivedBody := ⟨key, library.sha256 decoded.flatten, count⟩
  match library.readPath (some content) result.bodySha256 count with
  | .error e => (.error (.raised e), disk)
  | .ok _ => if (disk.files target).isSome then (.error (.raised .osError), disk) else (.ok result, disk.link target content)

/-- `write`. -/
def write (disk : Disk) (a : WriteArguments) (deadline : ℕ → Except Fault Unit) (chunks : List (List UInt8)) :
    Except Failure ArchivedBody × Disk :=
  match a.checked with
  | .error e => (.error (.raised e), disk)
  | .ok encoding =>
    match disk.path (a.key library) with
    | .error e => (.error (.raised e), disk)
    | .ok target =>
      match receive a.limit a.word a.expectedWireBytes deadline 0 (library.opening encoding) chunks with
      | .error e => (.error e, disk)
      | .ok p => library.publish disk (a.key library) target p.count p.decoded

end ArchiveLibrary

end EquityEval.Transport
