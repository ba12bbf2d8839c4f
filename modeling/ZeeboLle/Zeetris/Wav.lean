import ZeeboLle.Paging.Bytes
import ZeeboLle.Paging.KeyedList
import ZeeboLle.Unicorn.Memory

/-! The parser of WAV files. A read outside the file has no value, so a parse that returns
stayed inside. -/
namespace ZeeboLle.Zeetris

open Paging Unicorn

abbrev Sample := BitVec 16

structure WavAudio where
  sampleRate : Int
  channels : Nat
  samples : List Sample
deriving DecidableEq

namespace Wav

/-- So many bytes from an offset on. -/
def bytesAt (data : List Byte) (pos count : Nat) : Option (List Byte) :=
  if pos + count ≤ data.length then some ((data.drop pos).take count) else none

def readU16Le (data : List Byte) (pos : Nat) : Option Nat := (bytesAt data pos 2).map leValue

def readU32Le (data : List Byte) (pos : Nat) : Option Nat := (bytesAt data pos 4).map leValue

def riffId : List Byte := [0x52, 0x49, 0x46, 0x46]
def waveId : List Byte := [0x57, 0x41, 0x56, 0x45]
def fmtId : List Byte := [0x66, 0x6d, 0x74, 0x20]
def dataId : List Byte := [0x64, 0x61, 0x74, 0x61]

structure Fmt where
  audioFormat : Nat
  channels : Nat
  sampleRate : Nat
  bitsPerSample : Nat
deriving DecidableEq

/-- What the walk over the chunks has found: a format, and where the data lie. -/
structure Found where
  fmt : Option Fmt := none
  dataChunk : Option (Nat × Nat) := none
deriving DecidableEq

def readFmt (data : List Byte) (fmt : Nat) : Option Fmt := do
  let audioFormat ← readU16Le data fmt
  let channels ← readU16Le data (fmt + 2)
  let sampleRate ← readU32Le data (fmt + 4)
  let bitsPerSample ← readU16Le data (fmt + 14)
  return ⟨audioFormat, channels, sampleRate, bitsPerSample⟩

/-- One chunk whose body is in the file. -/
def chunk (data chunkId : List Byte) (offset chunkSize : Nat) (found : Found) : Option Found :=
  if chunkId = fmtId ∧ chunkSize ≥ 16 then
    (readFmt data offset).map fun fmt => { found with fmt := some fmt }
  else if chunkId = dataId then some { found with dataChunk := some (offset, chunkSize) }
  else some found

def walk (data : List Byte) (pos : Nat) (found : Found) : Option Found :=
  if pos + 8 ≤ data.length then
    match bytesAt data pos 4, readU32Le data (pos + 4) with
    | some chunkId, some chunkSize =>
      if pos + 8 + chunkSize > data.length then some found
      else
        match chunk data chunkId (pos + 8) chunkSize found with
        | some found => walk data (pos + 8 + chunkSize + chunkSize % 2) found
        | none => none
    | _, _ => none
  else some found
termination_by data.length - pos

/-- The samples of the data chunk. -/
def readSamples (data : List Byte) (offset size bitsPerSample : Nat) : Option (List Sample) :=
  if bitsPerSample = 16 then
    (List.range (size / 2)).mapM fun i => (readU16Le data (offset + i * 2)).map (BitVec.ofNat 16)
  else
    (List.range size).mapM fun i => (data[offset + i]?).map fun unsigned =>
      BitVec.ofInt 16 (((unsigned.toNat : Int) - 128) * 256)

/-- What a found format and data chunk amount to. -/
def finish (data : List Byte) (found : Found) : Option (Option WavAudio) :=
  match found.fmt, found.dataChunk with
  | some fmt, some (offset, size) =>
    if fmt.audioFormat ≠ 1 then some none
    else if fmt.channels ≠ 1 ∧ fmt.channels ≠ 2 then some none
    else if fmt.bitsPerSample ≠ 8 ∧ fmt.bitsPerSample ≠ 16 then some none
    else do
      let samples ← readSamples data offset size fmt.bitsPerSample
      return some ⟨(BitVec.ofNat 32 fmt.sampleRate).toInt, fmt.channels, samples⟩
  | _, _ => some none

end Wav

/-- The parsed file, if it is one; no value for a read outside the file. -/
def parseWav (data : List Byte) : Option (Option WavAudio) :=
  if data.length < 12 then some none
  else do
    let riff ← Wav.bytesAt data 0 4
    if riff ≠ Wav.riffId then some none
    else do
      let wave ← Wav.bytesAt data 8 4
      if wave ≠ Wav.waveId then some none
      else do
        let found ← Wav.walk data 12 {}
        Wav.finish data found

namespace Wav

variable {data : List Byte} {pos : Nat} {found : Found}

def idAt (data : List Byte) (pos : Nat) : List Byte := (data.drop pos).take 4

def sizeAt (data : List Byte) (pos : Nat) : Nat := fieldAt data (pos + 4) 4

def fmtAt (data : List Byte) (pos : Nat) : Fmt :=
  ⟨fieldAt data pos 2, fieldAt data (pos + 2) 2, fieldAt data (pos + 4) 4, fieldAt data (pos + 14) 2⟩

/-- What is known after the chunk at a place. -/
def see (data : List Byte) (pos : Nat) (found : Found) : Found :=
  if idAt data pos = fmtId ∧ sizeAt data pos ≥ 16 then { found with fmt := some (fmtAt data (pos + 8)) }
  else if idAt data pos = dataId then { found with dataChunk := some (pos + 8, sizeAt data pos) }
  else found

theorem readU16Le_inside (inside : pos + 2 ≤ data.length) :
    readU16Le data pos = some (fieldAt data pos 2) := by
  rw [readU16Le, bytesAt, if_pos inside]
  rfl

theorem readU32Le_inside (inside : pos + 4 ≤ data.length) :
    readU32Le data pos = some (fieldAt data pos 4) := by
  rw [readU32Le, bytesAt, if_pos inside]
  rfl

theorem readFmt_inside (inside : pos + 16 ≤ data.length) : readFmt data pos = some (fmtAt data pos) := by
  rw [readFmt, readU16Le_inside (by omega), readU16Le_inside (by omega), readU32Le_inside (by omega),
    readU16Le_inside (by omega)]
  rfl

theorem chunk_inside (inside : pos + 8 + sizeAt data pos ≤ data.length) :
    chunk data (idAt data pos) (pos + 8) (sizeAt data pos) found = some (see data pos found) := by
  unfold chunk see
  split
  · rename_i fmt
    rw [readFmt_inside (by omega)]
    rfl
  · split <;> rfl

/-- A chunk whose body is in the file is seen, and the walk goes on behind its padding. -/
theorem walk_step (inside : pos + 8 + sizeAt data pos ≤ data.length) :
    walk data pos found =
      walk data (pos + 8 + sizeAt data pos + sizeAt data pos % 2) (see data pos found) := by
  rw [walk, if_pos (by omega), bytesAt, if_pos (by omega), readU32Le_inside (by omega)]
  dsimp only
  rw [← sizeAt, ← idAt, if_neg (by omega), chunk_inside inside]

/-- The walk stops at a chunk that is cut off. -/
theorem walk_stop (outside : data.length < pos + 8 + sizeAt data pos) : walk data pos found = some found := by
  rw [walk]
  split
  · rename_i header
    rw [bytesAt, if_pos (by omega), readU32Le_inside (by omega)]
    dsimp only
    rw [← sizeAt, if_pos outside]
  · rfl

/-- The data chunk lies in the file. -/
def Inside (data : List Byte) (found : Found) : Prop :=
  ∀ offset size, found.dataChunk = some (offset, size) → offset + size ≤ data.length

theorem Inside.see (held : Inside data found) (inside : pos + 8 + sizeAt data pos ≤ data.length) :
    Inside data (see data pos found) := by
  unfold Wav.see
  split
  · exact held
  · split
    · intro offset size same
      obtain ⟨rfl, rfl⟩ := Prod.mk.inj (Option.some.inj same)
      exact inside
    · exact held

/-- The walk ends, and what it found lies in the file. -/
theorem walk_inside (pos : Nat) (found : Found) (held : Inside data found) :
    ∃ last, walk data pos found = some last ∧ Inside data last := by
  by_cases inside : pos + 8 + sizeAt data pos ≤ data.length
  · rw [walk_step inside]
    exact walk_inside _ _ (held.see inside)
  · exact ⟨found, walk_stop (Nat.lt_of_not_le inside), held⟩
termination_by data.length - pos

/-- Reads that all stay inside give all their values. -/
theorem mapM_eq_some {α β : Type} {read : α → Option β} {value : α → β} {items : List α}
    (inside : ∀ item ∈ items, read item = some (value item)) :
    items.mapM read = some (items.map value) := by
  induction items with
  | nil => rfl
  | cons item items ih =>
    rw [List.mapM_cons, inside item (by simp), ih fun later member => inside later (by simp [member])]
    rfl

/-- The samples that a body stands for. -/
def samplesOf (bitsPerSample : Nat) (body : List Byte) : List Sample :=
  if bitsPerSample = 16 then
    (List.range (body.length / 2)).map fun i => BitVec.ofNat 16 (fieldAt body (i * 2) 2)
  else body.map fun unsigned => BitVec.ofInt 16 (((unsigned.toNat : Int) - 128) * 256)

theorem fieldAt_take_drop {offset size place width : Nat} (inside : place + width ≤ size) :
    fieldAt ((data.drop offset).take size) place width = fieldAt data (offset + place) width := by
  rw [fieldAt, fieldAt, List.drop_take, List.take_take, List.drop_drop, Nat.min_eq_left (by omega)]

theorem readSamples_inside {offset size : Nat} (inside : offset + size ≤ data.length)
    (bitsPerSample : Nat) :
    readSamples data offset size bitsPerSample =
      some (samplesOf bitsPerSample ((data.drop offset).take size)) := by
  have whole : ((data.drop offset).take size).length = size := by
    rw [List.length_take, List.length_drop]
    omega
  unfold readSamples samplesOf
  rw [whole]
  split
  · apply mapM_eq_some
    intro i below
    have bound := List.mem_range.mp below
    rw [readU16Le_inside (by omega), fieldAt_take_drop (by omega)]
    rfl
  · have bytes : (List.range size).map (fun i => data[offset + i]!) = (data.drop offset).take size := by
      apply List.ext_getElem (by rw [List.length_map, List.length_range, whole])
      intro i below _
      have bound : i < size := by simpa using below
      rw [List.getElem_map, List.getElem_range, List.getElem_take, List.getElem_drop]
      exact getElem!_pos data _ (by omega)
    rw [← bytes, List.map_map]
    apply mapM_eq_some
    intro i below
    have bound := List.mem_range.mp below
    rw [List.getElem?_eq_getElem (by omega), Function.comp_apply, getElem!_pos data _ (by omega)]
    rfl

/-- The format and the data, wherever they lie. -/
@[ext] structure Contents where
  fmt : Option Fmt := none
  body : Option (List Byte) := none

def Found.contents (data : List Byte) (found : Found) : Contents :=
  ⟨found.fmt, found.dataChunk.map fun place => (data.drop place.1).take place.2⟩

/-- The audio of a format and a body. -/
def Contents.audio (contents : Contents) : Option WavAudio :=
  match contents.fmt, contents.body with
  | some fmt, some body =>
    if fmt.audioFormat ≠ 1 then none
    else if fmt.channels ≠ 1 ∧ fmt.channels ≠ 2 then none
    else if fmt.bitsPerSample ≠ 8 ∧ fmt.bitsPerSample ≠ 16 then none
    else some ⟨(BitVec.ofNat 32 fmt.sampleRate).toInt, fmt.channels, samplesOf fmt.bitsPerSample body⟩
  | _, _ => none

theorem finish_inside (held : Inside data found) :
    finish data found = some (found.contents data).audio := by
  unfold finish Contents.audio Found.contents
  cases format : found.fmt with
  | none => rfl
  | some fmt =>
    cases found_data : found.dataChunk with
    | none => rfl
    | some place =>
      obtain ⟨offset, size⟩ := place
      dsimp only [Option.map_some]
      rw [readSamples_inside (held offset size found_data)]
      split
      · rfl
      · split
        · rfl
        · split <;> rfl

/-- Behind the file's header the parse is the walk. -/
theorem parseWav_eq (data : List Byte) :
    parseWav data = if 12 ≤ data.length ∧ data.take 4 = riffId ∧ (data.drop 8).take 4 = waveId then
      (walk data 12 {}).bind (finish data) else some none := by
  unfold parseWav
  split
  · rw [if_neg (by omega)]
  · rename_i long
    rw [bytesAt, if_pos (by omega), bytesAt, if_pos (by omega)]
    dsimp only [Option.bind_eq_bind, Option.bind_some]
    rw [List.drop_zero]
    by_cases riff : data.take 4 = riffId
    · by_cases wave : (data.drop 8).take 4 = waveId
      · rw [if_neg (not_not_intro riff), if_neg (not_not_intro wave), if_pos ⟨by omega, riff, wave⟩]
      · rw [if_neg (not_not_intro riff), if_pos wave, if_neg fun header => wave header.2.2]
    · rw [if_pos riff, if_neg fun header => riff header.2.1]

theorem inside_start (data : List Byte) : Inside data {} := by
  intro offset size found
  cases found

/-- No parse reads outside the file. -/
theorem parseWav_inside (data : List Byte) : ∃ parsed, parseWav data = some parsed := by
  rw [parseWav_eq]
  split
  · obtain ⟨last, walked, held⟩ := walk_inside 12 {} (inside_start data)
    exact ⟨_, by rw [walked, Option.bind_some, finish_inside held]⟩
  · exact ⟨none, rfl⟩

/-- A chunk, with the byte that pads an odd body. -/
structure Chunk where
  id : List Byte
  body : List Byte
  pad : Byte
  length_id : id.length = 4
  length_body : body.length < 0x100 ^ 4

def Chunk.encode (chunk : Chunk) : List Byte :=
  chunk.id ++ (leBytes 4 chunk.body.length ++
    (chunk.body ++ List.replicate (chunk.body.length % 2) chunk.pad))

/-- A RIFF/WAVE file of chunks. -/
def file (chunks : List Chunk) : List Byte :=
  riffId ++ (leBytes 4 (4 + (chunks.flatMap Chunk.encode).length) ++
    (waveId ++ chunks.flatMap Chunk.encode))

/-- What is known after a chunk. -/
def Contents.see (contents : Contents) (chunk : Chunk) : Contents :=
  if chunk.id = fmtId ∧ chunk.body.length ≥ 16 then { contents with fmt := some (fmtAt chunk.body 0) }
  else if chunk.id = dataId then { contents with body := some chunk.body }
  else contents

theorem Chunk.length_encode (chunk : Chunk) :
    chunk.encode.length = 8 + chunk.body.length + chunk.body.length % 2 := by
  simp only [encode, List.length_append, chunk.length_id, length_leBytes, List.length_replicate]
  omega

section Chunk

variable {chunk : Chunk} {rest : List Byte} (here : data.drop pos = chunk.encode ++ rest)

include here

theorem idAt_chunk : idAt data pos = chunk.id := by
  rw [idAt, here, Chunk.encode, List.append_assoc]
  exact List.take_left' chunk.length_id

theorem drop_id :
    data.drop (pos + 4) = leBytes 4 chunk.body.length ++
      (chunk.body ++ (List.replicate (chunk.body.length % 2) chunk.pad ++ rest)) := by
  rw [← List.drop_drop, here, Chunk.encode]
  simp only [List.append_assoc]
  exact List.drop_left' chunk.length_id

theorem sizeAt_chunk : sizeAt data pos = chunk.body.length := by
  rw [sizeAt, fieldAt, drop_id here, List.take_left' (length_leBytes _ _), leValue_leBytes]
  exact Nat.mod_eq_of_lt chunk.length_body

theorem drop_header :
    data.drop (pos + 8) =
      chunk.body ++ (List.replicate (chunk.body.length % 2) chunk.pad ++ rest) := by
  rw [show pos + 8 = pos + 4 + 4 from rfl, ← List.drop_drop, drop_id here]
  exact List.drop_left' (length_leBytes _ _)

theorem take_body : (data.drop (pos + 8)).take (sizeAt data pos) = chunk.body := by
  rw [drop_header here, sizeAt_chunk here]
  exact List.take_left' rfl

theorem drop_chunk :
    data.drop (pos + 8 + sizeAt data pos + sizeAt data pos % 2) = rest := by
  rw [Nat.add_assoc, Nat.add_assoc, ← List.drop_drop, here, sizeAt_chunk here]
  exact List.drop_left' (by rw [chunk.length_encode]; omega)

theorem chunk_in_file : pos + 8 + sizeAt data pos ≤ data.length := by
  have whole := congrArg List.length (drop_header here)
  rw [List.length_drop, List.length_append] at whole
  have header := congrArg List.length here
  rw [List.length_drop, List.length_append, chunk.length_encode] at header
  rw [sizeAt_chunk here]
  omega

/-- What the walk sees of a chunk is the chunk. -/
theorem contents_see : (see data pos found).contents data = (found.contents data).see chunk := by
  unfold see Contents.see
  rw [idAt_chunk here, sizeAt_chunk here]
  split
  · rename_i format
    have fields : fmtAt data (pos + 8) = fmtAt chunk.body 0 := by
      have inside := format.2
      rw [← take_body here, sizeAt_chunk here]
      unfold fmtAt
      rw [fieldAt_take_drop (by omega), fieldAt_take_drop (by omega), fieldAt_take_drop (by omega),
        fieldAt_take_drop (by omega)]
    rw [fields]
    rfl
  · split
    · have body := take_body here
      rw [sizeAt_chunk here] at body
      unfold Found.contents
      dsimp only [Option.map_some]
      rw [body]
    · rfl

end Chunk

/-- The walk sees all chunks of a file in order. -/
theorem walk_chunks (chunks : List Chunk) (pos : Nat) (found : Found)
    (here : data.drop pos = chunks.flatMap Chunk.encode) (held : Inside data found) :
    ∃ last, walk data pos found = some last ∧ Inside data last ∧
      last.contents data = chunks.foldl Contents.see (found.contents data) := by
  induction chunks generalizing pos found with
  | nil =>
    have behind : data.length ≤ pos := List.drop_eq_nil_iff.mp here
    exact ⟨found, walk_stop (by omega), held, rfl⟩
  | cons chunk chunks ih =>
    rw [List.flatMap_cons] at here
    have inside := chunk_in_file here
    obtain ⟨last, walked, lies, same⟩ := ih _ (see data pos found) (drop_chunk here) (held.see inside)
    refine ⟨last, ?_, lies, ?_⟩
    · rw [walk_step inside, walked]
    · rw [same, contents_see here, List.foldl_cons]

theorem see_fmt (contents : Contents) (chunk : Chunk) :
    (contents.see chunk).fmt =
      if chunk.id = fmtId ∧ chunk.body.length ≥ 16 then some (fmtAt chunk.body 0) else contents.fmt := by
  unfold Contents.see
  split
  · rfl
  · split <;> rfl

theorem see_body (contents : Contents) (chunk : Chunk) :
    (contents.see chunk).body = if chunk.id = dataId then some chunk.body else contents.body := by
  unfold Contents.see
  split
  · rename_i format
    have other : ¬chunk.id = dataId := by
      rw [format.1]
      decide
    rw [if_neg other]
  · split <;> rfl

/-- The last format of the chunks counts. -/
theorem foldl_see_fmt (chunks : List Chunk) (contents : Contents) :
    (chunks.foldl Contents.see contents).fmt =
      ((latest (fun chunk => chunk.id = fmtId ∧ chunk.body.length ≥ 16) chunks).map
        fun chunk => fmtAt chunk.body 0).or contents.fmt := by
  induction chunks generalizing contents with
  | nil => rfl
  | cons chunk chunks ih =>
    rw [List.foldl_cons, ih, see_fmt, latest_cons]
    by_cases format : chunk.id = fmtId ∧ chunk.body.length ≥ 16
    · rw [if_pos format, if_pos (decide_eq_true format), Option.map_or, Option.or_assoc]
      rfl
    · rw [if_neg format, if_neg (by simpa using format), Option.or_none]

/-- The last data of the chunks count. -/
theorem foldl_see_body (chunks : List Chunk) (contents : Contents) :
    (chunks.foldl Contents.see contents).body =
      ((latest (fun chunk => chunk.id = dataId) chunks).map Chunk.body).or contents.body := by
  induction chunks generalizing contents with
  | nil => rfl
  | cons chunk chunks ih =>
    rw [List.foldl_cons, ih, see_body, latest_cons]
    by_cases samples : chunk.id = dataId
    · rw [if_pos samples, if_pos (decide_eq_true samples), Option.map_or, Option.or_assoc]
      rfl
    · rw [if_neg samples, if_neg (by simpa using samples), Option.or_none]

/-- The samples of a stream, in one of the two widths. -/
inductive Pcm where
  | bits8 (samples : List Byte)
  | bits16 (samples : List Sample)

namespace Pcm

def bitsPerSample : Pcm → Nat
  | bits8 _ => 8
  | bits16 _ => 16

def body : Pcm → List Byte
  | bits8 samples => samples
  | bits16 samples => samples.flatMap fun sample => leBytes 2 sample.toNat

/-- The samples as the parser reports them. -/
def samples : Pcm → List Sample
  | bits8 samples => samples.map fun unsigned => BitVec.ofInt 16 (((unsigned.toNat : Int) - 128) * 256)
  | bits16 samples => samples

end Pcm

theorem range_fields (samples : List Sample) :
    (List.range ((Pcm.bits16 samples).body.length / 2)).map
      (fun i => BitVec.ofNat 16 (fieldAt (Pcm.bits16 samples).body (i * 2) 2)) = samples := by
  induction samples with
  | nil => rfl
  | cons sample samples ih =>
    have body : (Pcm.bits16 (sample :: samples)).body =
        leBytes 2 sample.toNat ++ (Pcm.bits16 samples).body := List.flatMap_cons
    have half : (leBytes 2 sample.toNat ++ (Pcm.bits16 samples).body).length / 2 =
        (Pcm.bits16 samples).body.length / 2 + 1 := by
      rw [List.length_append, length_leBytes]
      omega
    have first : BitVec.ofNat 16 (sample.toNat % 0x100 ^ 2) = sample := by
      apply BitVec.eq_of_toNat_eq
      have bound := sample.isLt
      rw [BitVec.toNat_ofNat]
      omega
    have later : ∀ i, fieldAt (leBytes 2 sample.toNat ++ (Pcm.bits16 samples).body) ((i + 1) * 2) 2 =
        fieldAt (Pcm.bits16 samples).body (i * 2) 2 := by
      intro i
      rw [fieldAt_later (by omega)]
      congr 1
      omega
    have rest : (List.range ((Pcm.bits16 samples).body.length / 2)).map
        (fun i => BitVec.ofNat 16
          (fieldAt (leBytes 2 sample.toNat ++ (Pcm.bits16 samples).body) ((i + 1) * 2) 2)) = samples := by
      simpa only [later] using ih
    rw [body, half, List.range_succ_eq_map, List.map_cons, List.map_map, Nat.zero_mul, fieldAt_first,
      first]
    exact congrArg (sample :: ·) rest

theorem samplesOf_body (pcm : Pcm) : samplesOf pcm.bitsPerSample pcm.body = pcm.samples := by
  cases pcm with
  | bits8 samples => rfl
  | bits16 samples => exact range_fields samples

/-- A stream with its rate and its channels. -/
structure PcmStream where
  sampleRate : Nat
  channels : Nat
  pcm : Pcm
  rate_lt : sampleRate < 2 ^ 31
  mono_or_stereo : channels = 1 ∨ channels = 2

def PcmStream.audio (stream : PcmStream) : WavAudio :=
  ⟨stream.sampleRate, stream.channels, stream.pcm.samples⟩

/-- The body of a format chunk: PCM, and what the parser skips. -/
def PcmStream.format (stream : PcmStream) (byteRate blockAlign : Nat) (extension : List Byte) : List Byte :=
  leBytes 2 1 ++ (leBytes 2 stream.channels ++ (leBytes 4 stream.sampleRate ++ (leBytes 4 byteRate ++
    (leBytes 2 blockAlign ++ (leBytes 2 stream.pcm.bitsPerSample ++ extension)))))

/-- A file's chunks carry a stream: one is its format, one its data, and the others are of
other kinds. -/
def Carries (chunks : List Chunk) (stream : PcmStream) : Prop :=
  (∃ format byteRate blockAlign extension, chunks.filter (·.id = fmtId) = [format] ∧
    format.body = stream.format byteRate blockAlign extension) ∧
  ∃ body, chunks.filter (·.id = dataId) = [body] ∧ body.body = stream.pcm.body

theorem fmtAt_format (stream : PcmStream) (byteRate blockAlign : Nat) (extension : List Byte) :
    fmtAt (stream.format byteRate blockAlign extension) 0 =
      ⟨1, stream.channels, stream.sampleRate, stream.pcm.bitsPerSample⟩ := by
  have rate := stream.rate_lt
  have channels : stream.channels < 0x100 ^ 2 := by
    rcases stream.mono_or_stereo with mono | stereo <;> omega
  have bits : stream.pcm.bitsPerSample < 0x100 ^ 2 := by
    cases stream.pcm <;> simp [Pcm.bitsPerSample]
  have low : stream.sampleRate < 0x100 ^ 4 := by omega
  unfold fmtAt PcmStream.format
  simp only [fieldAt_first, fieldAt_later, Nat.reduceLeDiff, Nat.reduceAdd, Nat.reduceSub,
    Nat.mod_eq_of_lt channels, Nat.mod_eq_of_lt low, Nat.mod_eq_of_lt bits]
  rfl

theorem length_format (stream : PcmStream) (byteRate blockAlign : Nat) (extension : List Byte) :
    (stream.format byteRate blockAlign extension).length = 16 + extension.length := by
  simp only [PcmStream.format, List.length_append, length_leBytes]
  omega

/-- What the chunks of a stream amount to. -/
theorem foldl_see_carries {chunks : List Chunk} {stream : PcmStream} (carries : Carries chunks stream) :
    chunks.foldl Contents.see {} =
      ⟨some ⟨1, stream.channels, stream.sampleRate, stream.pcm.bitsPerSample⟩,
        some stream.pcm.body⟩ := by
  obtain ⟨⟨format, byteRate, blockAlign, extension, single, fields⟩, body, alone, samples⟩ := carries
  have long : ∀ chunk ∈ chunks, chunk.id = fmtId → chunk.body.length ≥ 16 := by
    intro chunk member kind
    have found : chunk ∈ chunks.filter (·.id = fmtId) :=
      List.mem_filter.mpr ⟨member, decide_eq_true kind⟩
    rw [single, List.mem_singleton] at found
    rw [found, fields, length_format]
    omega
  have formats : chunks.filter (fun chunk => chunk.id = fmtId ∧ chunk.body.length ≥ 16) = [format] := by
    rw [← single]
    apply List.filter_congr
    intro chunk member
    simpa using long chunk member
  apply Contents.ext
  · rw [foldl_see_fmt, latest, formats, List.getLast?_singleton, Option.map_some, fields, fmtAt_format]
    rfl
  · rw [foldl_see_body, latest, alone, List.getLast?_singleton, Option.map_some, samples]
    rfl

theorem audio_stream (stream : PcmStream) :
    Contents.audio ⟨some ⟨1, stream.channels, stream.sampleRate, stream.pcm.bitsPerSample⟩,
      some stream.pcm.body⟩ = some stream.audio := by
  have rate : (BitVec.ofNat 32 stream.sampleRate).toInt = stream.sampleRate := by
    have bound := stream.rate_lt
    rw [BitVec.toInt_eq_toNat_of_lt (by rw [BitVec.toNat_ofNat]; omega), BitVec.toNat_ofNat]
    omega
  have width : stream.pcm.bitsPerSample = 8 ∨ stream.pcm.bitsPerSample = 16 := by
    cases stream.pcm with
    | bits8 => exact .inl rfl
    | bits16 => exact .inr rfl
  unfold Contents.audio
  dsimp only
  rw [if_neg (by simp), if_neg (by have := stream.mono_or_stereo; omega), if_neg (by omega), rate,
    samplesOf_body]
  rfl

theorem drop_file (chunks : List Chunk) :
    (file chunks).drop 8 = waveId ++ chunks.flatMap Chunk.encode := by
  rw [file, ← List.append_assoc]
  exact List.drop_left' (by rw [List.length_append, length_leBytes]; rfl)

/-- Every parse ends inside its file, and a file that carries a stream is parsed as that
stream. -/
theorem parseWav_safe_exact :
    (∀ data, ∃ parsed, parseWav data = some parsed) ∧
      ∀ chunks stream, Carries chunks stream → parseWav (file chunks) = some (some stream.audio) := by
  refine ⟨parseWav_inside, fun chunks stream carries => ?_⟩
  have header : 12 ≤ (file chunks).length ∧ (file chunks).take 4 = riffId ∧
      ((file chunks).drop 8).take 4 = waveId := by
    refine ⟨?_, rfl, ?_⟩
    · simp only [file, riffId, waveId, List.length_append, length_leBytes, List.length_cons]
      omega
    · rw [drop_file]
      rfl
  have body : (file chunks).drop 12 = chunks.flatMap Chunk.encode := by
    rw [show 12 = 8 + 4 from rfl, ← List.drop_drop, drop_file]
    rfl
  obtain ⟨last, walked, held, seen⟩ := walk_chunks chunks 12 {} body (inside_start _)
  have start : Found.contents (file chunks) {} = {} := rfl
  rw [parseWav_eq, if_pos header, walked, Option.bind_some, finish_inside held, seen, start,
    foldl_see_carries carries, audio_stream]

/-- Three bytes of 8-bit mono behind an odd chunk of another kind. -/
def oddChunks : List Chunk :=
  [⟨dataId, [0x00, 0x80, 0xff], 0x00, rfl, by decide⟩,
    ⟨[0x4c, 0x49, 0x53, 0x54], [0x41], 0x7f, rfl, by decide⟩,
    ⟨fmtId, leBytes 2 1 ++ (leBytes 2 1 ++ (leBytes 4 8000 ++ (leBytes 4 8000 ++
      (leBytes 2 1 ++ (leBytes 2 8 ++ []))))), 0x00, rfl, by decide⟩]

theorem parseWav_safe_exact_oddChunks :
    parseWav (file oddChunks) = some (some ⟨8000, 1, [0x8000, 0x0000, 0x7f00]⟩) :=
  parseWav_safe_exact.2 oddChunks ⟨8000, 1, .bits8 [0x00, 0x80, 0xff], by decide, .inl rfl⟩
    ⟨⟨_, 8000, 1, [], rfl, rfl⟩, _, rfl, rfl⟩

end Wav

end ZeeboLle.Zeetris
