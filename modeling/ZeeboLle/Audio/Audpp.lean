import ZeeboLle.Audio.Voices
import ZeeboLle.Paging.Bytes
import ZeeboLle.Scheduling.Runs

/-! The audio post-processor's engine on top of the mixer. Every stream it acknowledges should
be queued, and its voice given back at the end. A stream of more than two channels is
acknowledged and dropped, and one without samples never ends. -/
namespace ZeeboLle.Audio

open Paging Unicorn Scheduling

/-- Little-endian samples; an odd byte at the end is left out. -/
def pcmSamples : List Byte → List Int16
  | low :: high :: rest => (high ++ low) :: pcmSamples rest
  | _ => []

/-- Guest memory as an engine reads it: the bytes of a range, unless the read fails. -/
structure QdspGuest where
  rd : Word → (size : Nat) → Option (Vector Byte size)

/-- So many samples from an address; reading none always succeeds. -/
def QdspGuest.pcm (guest : QdspGuest) (va : Word) (nSamples : Nat) : Option (List Int16) :=
  if nSamples = 0 then some []
  else (guest.rd va (nSamples * 2)).map fun bytes => pcmSamples bytes.toList

structure AudppCmdPlay where
  opcode : Word
  pcmPtr : Word
  pcmBytes : Word
  sampleRate : Word
  channels : Word
  volumeQ16 : Word
deriving DecidableEq

namespace AudppCmdPlay

def size : Nat := 24

def ofPayload (payload : List Byte) : AudppCmdPlay :=
  let word := fun offset => BitVec.ofNat 32 (fieldAt payload offset 4)
  ⟨word 0, word 4, word 8, word 12, word 16, word 20⟩

variable (c : AudppCmdPlay)

def nSamples : Nat := c.pcmBytes.toNat / 2

/-- A field of zero stands for the usual rate, channels or volume. -/
def rate : Word := if c.sampleRate ≠ 0 then c.sampleRate else 44100

def channelCount : Word := if c.channels ≠ 0 then c.channels else 2

def volume {φ : Type} [SampleNumber φ] : φ :=
  if c.volumeQ16 ≠ 0 then (c.volumeQ16.toNat : φ) / ((65536 : Nat) : φ) else 1

theorem rate_ne_zero : c.rate ≠ 0 := by
  unfold rate
  split
  · assumption
  · decide

theorem isFinite_volume {φ : Type} [SampleNumber φ] : SampleNumber.isFinite (c.volume : φ) = true := by
  unfold volume
  split
  · exact SampleNumber.isFinite_div c.volumeQ16
  · exact SampleNumber.isFinite_one

/-- A command of at most two channels has one or two. -/
theorem channelCount_narrow (narrow : c.channelCount.toNat ≤ 2) :
    c.channelCount = 1 ∨ c.channelCount = 2 := by
  have some : c.channelCount ≠ 0 := by
    unfold channelCount
    split
    · assumption
    · decide
  have positive : c.channelCount.toNat ≠ 0 := fun zero => some (BitVec.eq_of_toNat_eq zero)
  have cases : c.channelCount.toNat = 1 ∨ c.channelCount.toNat = 2 := by omega
  exact cases.imp BitVec.eq_of_toNat_eq BitVec.eq_of_toNat_eq

end AudppCmdPlay

def audppPlay : Word := 0x01
def audppStop : Word := 0x02
def audppSetVol : Word := 0x10
def kAudppDoneSig : Word := 0x00080000
def kMaxPcmBytes : Nat := 4 * 1024 * 1024
def kRpcSuccess : Word := 0x1b59

inductive HostPcm where
  | unconfigured
  | audmgrConfig
  | hpcmActive
  | audppActive
  | reset
deriving DecidableEq

structure Reply where
  handled : Bool := false
  status : Word := kRpcSuccess
  completionSig : Word := 0
  body : List Byte := []
deriving DecidableEq

def Reply.done : Reply := { handled := true, completionSig := kAudppDoneSig }

structure AudppEngine (φ δ : Type) where
  state : HostPcm
  sink : UnifiedAudioSink φ δ

namespace AudppEngine

variable {φ δ : Type} [SampleNumber φ] [CursorNumber δ]

def outRate : Word := 44100

def initial : AudppEngine φ δ := ⟨.unconfigured, .create outRate⟩

def doPlay (engine : AudppEngine φ δ) (c : AudppCmdPlay) (guest : QdspGuest) : Reply × AudppEngine φ δ :=
  if c.pcmBytes.toNat > kMaxPcmBytes then ({}, engine)
  else
    match guest.pcm c.pcmPtr c.nSamples with
    | none => ({}, engine)
    | some pcm =>
      let (vid, sink) := engine.sink.allocateVoice c.rate c.channelCount c.volume
      -- an unconfigured or reset session passes through the states before this one
      (.done, ⟨.audppActive, sink.submitPcm vid pcm⟩)

def handle (engine : AudppEngine φ δ) (payload : List Byte) (guest : QdspGuest) :
    Reply × AudppEngine φ δ :=
  if payload.length < AudppCmdPlay.size then ({}, engine)
  else
    let c := AudppCmdPlay.ofPayload payload
    if c.opcode = audppPlay then engine.doPlay c guest
    else if c.opcode = audppStop then (.done, ⟨.reset, .create outRate⟩)
    else if c.opcode = audppSetVol then (.done, engine)
    else ({}, engine)

/-- The mixed frames, and the engine afterwards. -/
def mix (engine : AudppEngine φ δ) (frames : Nat) : List (Int16 × Int16) × AudppEngine φ δ :=
  ((engine.sink.mixSamples frames).1, ⟨engine.state, (engine.sink.mixSamples frames).2⟩)

inductive Event where
  | command (payload : List Byte) (guest : QdspGuest)
  | mix (frames : Nat)

def next (engine : AudppEngine φ δ) : Event → AudppEngine φ δ
  | .command payload guest => (engine.handle payload guest).2
  | .mix frames => (engine.mix frames).2

def run (events : List Event) : AudppEngine φ δ := events.foldl next .initial

end AudppEngine

/-- A stream as its listener knows it. -/
structure Stream (δ : Type) where
  samples : List Int16
  rate : Word
  channels : Word
  cursor : δ

namespace Stream

variable {δ : Type} [CursorNumber δ]

def frames (stream : Stream δ) : Nat :=
  if stream.channels = 2 then stream.samples.length / 2 else stream.samples.length

/-- Whether a mix of so many frames asks for one beyond the end. -/
def Ends (stream : Stream δ) (outRate : Word) (count : Nat) : Prop :=
  ∃ i < count, stream.frames ≤
    CursorNumber.toIndex (stream.cursor + (i : δ) * ((stream.rate.toNat : δ) / (outRate.toNat : δ)))

instance (stream : Stream δ) (outRate : Word) (count : Nat) : Decidable (stream.Ends outRate count) :=
  inferInstanceAs (Decidable (∃ i < count, stream.frames ≤ _))

def pass (stream : Stream δ) (outRate : Word) (count : Nat) : Stream δ :=
  { stream with
    cursor := stream.cursor + (count : δ) * ((stream.rate.toNat : δ) / (outRate.toNat : δ)) }

end Stream

/-- The stream a voice plays. -/
def StreamVoice.stream {φ δ : Type} (voice : StreamVoice φ δ) : Stream δ :=
  ⟨voice.pcmData, voice.sampleRate, voice.channels, voice.playbackPos⟩

namespace AudppEngine

variable {φ δ : Type} [SampleNumber φ] [CursorNumber δ]

/-- A PLAY command that the engine acknowledges, and the samples it reads for it. -/
def acceptedPlay (payload : List Byte) (guest : QdspGuest) : Option (AudppCmdPlay × List Int16) :=
  let c := AudppCmdPlay.ofPayload payload
  if payload.length < AudppCmdPlay.size ∨ c.opcode ≠ audppPlay ∨ c.pcmBytes.toNat > kMaxPcmBytes then none
  else (guest.pcm c.pcmPtr c.nSamples).map (c, ·)

def acceptedStop (payload : List Byte) : Bool :=
  AudppCmdPlay.size ≤ payload.length ∧ (AudppCmdPlay.ofPayload payload).opcode = audppStop

/-- The streams playing: each from its acknowledged PLAY until a mix asks for a frame beyond
its end, or until STOP. -/
def playingStep (playing : List (Stream δ)) : Event → List (Stream δ)
  | .command payload guest =>
    match acceptedPlay payload guest with
    | some (c, samples) => ⟨samples, c.rate, c.channelCount, 0⟩ :: playing
    | none => if acceptedStop payload then [] else playing
  | .mix frames =>
    if frames = 0 then playing
    else (playing.filter fun stream => ¬ stream.Ends outRate frames).map (·.pass outRate frames)

def playing (events : List Event) : List (Stream δ) := events.foldl playingStep []

/-- The samples are what one voice plays from the start, a voice that was free before, at the
rate and with the channels asked for. No other voice changes. -/
def Queued (before after : UnifiedAudioSink φ δ) (samples : List Int16) (rate channels : Word) : Prop :=
  ∃ (index : Nat) (voice : StreamVoice φ δ),
    (∀ old, before.voices[index]? = some old → old.active = false) ∧
    after.voices[index]? = some voice ∧ voice.stream = ⟨samples, rate, channels, 0⟩ ∧
    (samples ≠ [] → voice.active = true) ∧
    ∀ other, other ≠ index → after.voices[other]? = before.voices[other]?

/-- An acknowledged PLAY is queued; a voice that a mix asks beyond its end is given back. -/
def EventLaw (engine : AudppEngine φ δ) : Event → Prop
  | .command payload guest =>
    (AudppCmdPlay.ofPayload payload).opcode = audppPlay → (engine.handle payload guest).1.handled = true →
      ∃ samples, guest.pcm (AudppCmdPlay.ofPayload payload).pcmPtr (AudppCmdPlay.ofPayload payload).nSamples =
          some samples ∧
        Queued engine.sink (engine.handle payload guest).2.sink samples
          (AudppCmdPlay.ofPayload payload).rate (AudppCmdPlay.ofPayload payload).channelCount
  | .mix frames =>
    ∀ (index : Nat) (voice : StreamVoice φ δ), engine.sink.voices[index]? = some voice →
      voice.stream.Ends engine.sink.outRate frames →
      ∃ after, (engine.mix frames).2.sink.voices[index]? = some after ∧ after.active = false

/-- Every event of a run keeps the law, and there are never more voices than streams that
played at once. -/
def Lawful (φ δ : Type) [SampleNumber φ] [CursorNumber δ] (events : List Event) : Prop :=
  Throughout (fun before event => EventLaw (run before : AudppEngine φ δ) event) events ∧
    ∀ before, before <+: events → ∃ early, early <+: before ∧
      (run before : AudppEngine φ δ).sink.voices.length ≤ (playing early : List (Stream δ)).length

/-- At most two channels, and a voice for the samples with an identifier of its own; no frame is
mixed while an active voice has no samples. -/
def Sound (engine : AudppEngine φ δ) : Event → Prop
  | .command payload guest => ∀ c samples, acceptedPlay payload guest = some (c, samples) →
      c.channelCount.toNat ≤ 2 ∧ (samples ≠ [] → engine.sink.freeSlot < 2 ^ 32)
  | .mix frames => frames ≠ 0 → ∀ voice ∈ engine.sink.voices, voice.active = true → voice.pcmData ≠ []

variable {engine : AudppEngine φ δ} {payload : List Byte} {guest : QdspGuest} {c : AudppCmdPlay}
  {samples : List Int16}

theorem acceptedPlay_eq_some_iff : acceptedPlay payload guest = some (c, samples) ↔
    c = AudppCmdPlay.ofPayload payload ∧ AudppCmdPlay.size ≤ payload.length ∧ c.opcode = audppPlay ∧
      c.pcmBytes.toNat ≤ kMaxPcmBytes ∧ guest.pcm c.pcmPtr c.nSamples = some samples := by
  unfold acceptedPlay
  dsimp only
  split
  · rename_i refused
    constructor
    · intro found
      cases found
    · rintro ⟨rfl, whole, play, small, _⟩
      rcases refused with short | other | large
      · exact absurd whole (Nat.not_le.mpr short)
      · exact absurd play other
      · exact absurd small (Nat.not_le.mpr large)
  · rename_i granted
    obtain ⟨whole, play, small⟩ : _ ∧ _ ∧ _ := by simpa only [not_or] using granted
    rw [Option.map_eq_some_iff]
    constructor
    · rintro ⟨read, found, same⟩
      obtain ⟨rfl, rfl⟩ := Prod.mk.inj same
      exact ⟨rfl, Nat.le_of_not_lt whole, not_not.mp play, Nat.le_of_not_lt small, found⟩
    · rintro ⟨rfl, _, _, _, found⟩
      exact ⟨samples, found, rfl⟩

/-- What the engine does with a PLAY it acknowledges. -/
theorem handle_accepted (accepted : acceptedPlay payload guest = some (c, samples)) :
    engine.handle payload guest = (.done, ⟨.audppActive,
      (engine.sink.allocateVoice c.rate c.channelCount c.volume).2.submitPcm
        (engine.sink.allocateVoice c.rate c.channelCount c.volume).1 samples⟩) := by
  obtain ⟨rfl, whole, play, small, read⟩ := acceptedPlay_eq_some_iff.mp accepted
  unfold handle doPlay
  rw [if_neg (Nat.not_lt.mpr whole), if_pos play, if_neg (Nat.not_lt.mpr small), read]

/-- Any other command leaves the voices alone, or takes them all away. -/
theorem handle_other (other : acceptedPlay payload guest = none) :
    ((AudppCmdPlay.ofPayload payload).opcode = audppPlay → (engine.handle payload guest).1.handled = false) ∧
      (engine.handle payload guest).2.sink =
        if acceptedStop payload then .create outRate else engine.sink := by
  unfold handle
  by_cases short : payload.length < AudppCmdPlay.size
  · simp [short, acceptedStop]
  · rw [if_neg short]
    by_cases play : (AudppCmdPlay.ofPayload payload).opcode = audppPlay
    · have notStop : ¬ audppPlay = audppStop := by decide
      simp only [play, if_true, acceptedStop, notStop, and_false, decide_false]
      unfold doPlay
      split
      · exact ⟨fun _ => rfl, rfl⟩
      · rename_i small
        have failed : guest.pcm (AudppCmdPlay.ofPayload payload).pcmPtr
            (AudppCmdPlay.ofPayload payload).nSamples = none := by
          rw [acceptedPlay, if_neg (by simp [play, short, Nat.le_of_not_lt small])] at other
          exact Option.map_eq_none_iff.mp other
        rw [failed]
        exact ⟨fun _ => rfl, rfl⟩
    · simp only [play, if_false, false_imp_iff, true_and, acceptedStop]
      by_cases stop : (AudppCmdPlay.ofPayload payload).opcode = audppStop
      · simp [stop, Nat.le_of_not_lt short]
      · simp only [stop, and_false, decide_false, if_false]
        split <;> rfl

omit [SampleNumber φ] [CursorNumber δ] in
theorem tidy_create : UnifiedAudioSink.Tidy (.create outRate : UnifiedAudioSink φ δ) where
  numbered := by simp [UnifiedAudioSink.create]
  narrow := by simp [UnifiedAudioSink.create]

theorem tidy_next (tidy : engine.sink.Tidy) (event : Event) : (engine.next event).sink.Tidy := by
  cases event with
  | command payload guest =>
    rw [next]
    cases accepted : acceptedPlay payload guest with
    | none =>
      rw [(handle_other accepted).2]
      split
      · exact tidy_create
      · exact tidy
    | some play =>
      rw [handle_accepted accepted]
      exact (tidy.allocateVoice _ _ _).submitPcm _ _
  | mix frames => exact tidy.mixSamples frames

theorem tidy_run (events : List Event) : (run events : AudppEngine φ δ).sink.Tidy := by
  induction events using List.reverseRecOn with
  | nil => exact tidy_create
  | append_singleton events event ih =>
    rw [run, List.foldl_concat]
    exact tidy_next ih event

/-- An acknowledged PLAY within the condition installs its stream. -/
theorem handle_sound (tidy : engine.sink.Tidy) (accepted : acceptedPlay payload guest = some (c, samples))
    (narrow : c.channelCount.toNat ≤ 2) (single : samples ≠ [] → engine.sink.freeSlot < 2 ^ 32) :
    (engine.handle payload guest).2.sink = engine.sink.install
      ⟨BitVec.ofNat 32 (engine.sink.freeSlot + 1), true, c.rate, c.channelCount, c.volume, samples, 0⟩ := by
  rw [handle_accepted accepted]
  dsimp only
  rw [UnifiedAudioSink.allocateVoice_granted c.rate_ne_zero (c.channelCount_narrow narrow) c.isFinite_volume]
  by_cases none : samples = []
  · rw [none]
    exact UnifiedAudioSink.submitPcm_nil _
  · exact tidy.submit_fresh _ _ _ _ (single none)

/-- A voice that plays is given back exactly when its stream ends. -/
theorem mix_active_iff {voice : StreamVoice φ δ} {outRate : Word} {frames : Nat}
    (playing : voice.active = true) (some : voice.pcmData ≠ []) :
    (voice.mix outRate frames).2.active = true ↔ ¬ voice.stream.Ends outRate frames := by
  have plays : (voice.active && !voice.pcmData.isEmpty) = true := by simp [playing, some]
  rw [StreamVoice.mix_playing plays]
  refine (voice.playFrames_active_iff _ 0 frames).trans ?_
  simp only [Nat.zero_add, Stream.Ends, not_exists, not_and, not_le]
  rfl

omit [SampleNumber φ] in
theorem queued_install {sink : UnifiedAudioSink φ δ} {voice : StreamVoice φ δ} (active : voice.active = true)
    (start : voice.playbackPos = 0) :
    Queued sink (sink.install voice) voice.pcmData voice.sampleRate voice.channels := by
  refine ⟨sink.freeSlot, voice, fun old found => UnifiedAudioSink.free_of_freeSlot found, ?_, ?_,
    fun _ => active, fun other apart => ?_⟩
  · rw [UnifiedAudioSink.getElem?_install, if_pos rfl]
  · rw [StreamVoice.stream, start]
  · rw [UnifiedAudioSink.getElem?_install, if_neg apart]

omit [SampleNumber φ] in
/-- Samples that are queued came into a voice with an identifier of its own. -/
theorem single_of_queued {sink : UnifiedAudioSink φ δ} (tidy : sink.Tidy) {rate channels : Word} {volume : φ}
    (queued : Queued sink
      ((sink.install (UnifiedAudioSink.freshVoice sink.freeSlot rate channels volume)).submitPcm
        (BitVec.ofNat 32 (sink.freeSlot + 1)) samples) samples rate channels) (some : samples ≠ []) :
    sink.freeSlot < 2 ^ 32 := by
  by_contra many
  obtain ⟨index, voice, free, held, stream, active, _⟩ := queued
  have fresh : (UnifiedAudioSink.freshVoice sink.freeSlot rate channels volume : StreamVoice φ δ).id =
      BitVec.ofNat 32 (sink.freeSlot + 1) := rfl
  obtain ⟨clash, found, below⟩ := tidy.findVoice_clash fresh many
  rw [UnifiedAudioSink.submitPcm, ← fresh, found] at held
  dsimp only at held
  have within := UnifiedAudioSink.freeSlot_le sink
  have apart : clash ≠ index := by
    rintro rfl
    have old := List.getElem?_eq_getElem (Nat.lt_of_lt_of_le below within)
    have busy := UnifiedAudioSink.active_of_lt_freeSlot below old
    rw [free _ old] at busy
    cases busy
  simp only [List.getElem?_modify, apart, if_false, id_map'] at held
  rw [UnifiedAudioSink.getElem?_install] at held
  split at held
  · rw [← Option.some.inj held] at stream
    exact some (congrArg Stream.samples stream).symm
  · have idle := free voice held
    rw [active some] at idle
    cases idle

/-- The law of one event is its condition. -/
theorem eventLaw_iff (tidy : engine.sink.Tidy) (event : Event) : EventLaw engine event ↔ Sound engine event := by
  cases event with
  | command payload guest =>
    constructor
    · intro law c samples accepted
      obtain ⟨rfl, _, play, _, read⟩ := acceptedPlay_eq_some_iff.mp accepted
      obtain ⟨found, again, queued⟩ := law play (by rw [handle_accepted accepted]; rfl)
      obtain rfl := Option.some.inj (again.symm.trans read)
      have narrow : (AudppCmdPlay.ofPayload payload).channelCount.toNat ≤ 2 := by
        obtain ⟨index, voice, _, held, stream, _⟩ := queued
        have channels : voice.channels = (AudppCmdPlay.ofPayload payload).channelCount :=
          congrArg Stream.channels stream
        have after := tidy_next tidy (.command payload guest)
        rw [← channels]
        rcases after.narrow voice (List.mem_of_getElem? held) with mono | stereo
        · rw [mono]
          decide
        · rw [stereo]
          decide
      refine ⟨narrow, fun some => ?_⟩
      rw [handle_accepted accepted, UnifiedAudioSink.allocateVoice_granted (AudppCmdPlay.rate_ne_zero _)
        (AudppCmdPlay.channelCount_narrow _ narrow) (AudppCmdPlay.isFinite_volume _)] at queued
      exact single_of_queued tidy queued some
    · intro sound play handled
      cases accepted : acceptedPlay payload guest with
      | none =>
        rw [(handle_other accepted).1 play] at handled
        cases handled
      | some found =>
        obtain ⟨c, samples⟩ := found
        obtain ⟨narrow, single⟩ := sound c samples accepted
        have installed := handle_sound tidy accepted narrow single
        obtain ⟨rfl, _, _, _, read⟩ := acceptedPlay_eq_some_iff.mp accepted
        refine ⟨samples, read, ?_⟩
        rw [installed]
        exact queued_install rfl rfl
  | mix frames =>
    constructor
    · intro law some voice member active empty
      obtain ⟨index, found⟩ := List.getElem?_of_mem member
      have ends : voice.stream.Ends engine.sink.outRate frames := by
        refine ⟨0, Nat.pos_of_ne_zero some, ?_⟩
        have none : voice.stream.frames = 0 := by simp [Stream.frames, StreamVoice.stream, empty]
        rw [none]
        exact Nat.zero_le _
      obtain ⟨after, held, idle⟩ := law index voice found ends
      rw [mix, UnifiedAudioSink.mixSamples_voices some] at held
      dsimp only at held
      rw [List.getElem?_map, found, Option.map_some, StreamVoice.mix_idle (by simp [empty])] at held
      rw [← Option.some.inj held, active] at idle
      cases idle
    · intro sound index voice found ends
      have some : frames ≠ 0 := by
        rintro rfl
        obtain ⟨_, below, _⟩ := ends
        exact absurd below (Nat.not_lt_zero _)
      refine ⟨(voice.mix engine.sink.outRate frames).2, ?_, ?_⟩
      · rw [mix, UnifiedAudioSink.mixSamples_voices some]
        dsimp only
        rw [List.getElem?_map, found, Option.map_some]
      · cases active : voice.active with
        | false =>
          rw [StreamVoice.mix_idle (by simp [active])]
          exact active
        | true =>
          have pcm := sound some voice (List.mem_of_getElem? found) active
          exact Bool.eq_false_iff.mpr fun still => (mix_active_iff active pcm).mp still ends

/-- The active voices play the streams of the session. -/
def Carries (sink : UnifiedAudioSink φ δ) (playing : List (Stream δ)) : Prop :=
  ((sink.voices.filter StreamVoice.active).map StreamVoice.stream).Perm playing

/-- A voice whose stream goes on plays it from the frame that follows. -/
theorem stream_mix {voice : StreamVoice φ δ} {outRate : Word} {frames : Nat}
    (playing : voice.active = true) (some : voice.pcmData ≠ []) (on : ¬ voice.stream.Ends outRate frames) :
    (voice.mix outRate frames).2.stream = voice.stream.pass outRate frames := by
  have still := (mix_active_iff playing some).mpr on
  have plays : (voice.active && !voice.pcmData.isEmpty) = true := by simp [playing, some]
  rw [StreamVoice.mix_playing plays] at still ⊢
  have full := voice.length_playFrames_active _ 0 frames still
  dsimp only
  rw [full]
  rfl

theorem Carries.mix {sink : UnifiedAudioSink φ δ} {playing : List (Stream δ)} (carries : Carries sink playing)
    {frames : Nat} (some : frames ≠ 0)
    (sound : ∀ voice ∈ sink.voices, voice.active = true → voice.pcmData ≠ []) :
    Carries (sink.mixSamples frames).2
      ((playing.filter fun stream => ¬ stream.Ends sink.outRate frames).map (·.pass sink.outRate frames)) := by
  refine List.Perm.trans (List.Perm.of_eq ?_) ((carries.filter _).map _)
  rw [UnifiedAudioSink.mixSamples_voices some]
  dsimp only
  generalize sink.voices = voices at sound ⊢
  induction voices with
  | nil => rfl
  | cons voice voices ih =>
    have rest := ih fun later member => sound later (List.mem_cons_of_mem voice member)
    rw [List.map_cons, List.filter_cons, List.filter_cons]
    cases active : voice.active with
    | false =>
      rw [StreamVoice.mix_idle (by simp [active])]
      simpa [active] using rest
    | true =>
      have pcm := sound voice List.mem_cons_self active
      have back : (voice.mix sink.outRate frames).2.active = true ↔ ¬ voice.stream.Ends sink.outRate frames :=
        mix_active_iff active pcm
      by_cases ends : voice.stream.Ends sink.outRate frames
      · have gone : (voice.mix sink.outRate frames).2.active = false :=
          Bool.eq_false_iff.mpr fun still => back.mp still ends
        simpa [gone, ends] using rest
      · have goes := back.mpr ends
        simpa [goes, ends, stream_mix active pcm ends] using rest

omit [SampleNumber φ] [CursorNumber δ] in
theorem Carries.install {sink : UnifiedAudioSink φ δ} {playing : List (Stream δ)}
    (carries : Carries sink playing) {voice : StreamVoice φ δ} (active : voice.active = true) :
    Carries (sink.install voice) (voice.stream :: playing) :=
  ((UnifiedAudioSink.filter_install active).map _).trans (carries.cons voice.stream)

theorem outRate_submit (sink : UnifiedAudioSink φ δ) (rate channels : Word) (volume : φ) (voiceId : Word)
    (samples : List Int16) :
    ((sink.allocateVoice rate channels volume).2.submitPcm voiceId samples).outRate = sink.outRate := by
  have submitted : ∀ sink : UnifiedAudioSink φ δ, (sink.submitPcm voiceId samples).outRate = sink.outRate := by
    intro sink
    unfold UnifiedAudioSink.submitPcm
    split <;> rfl
  rw [submitted, UnifiedAudioSink.allocateVoice]
  split <;> rfl

theorem outRate_run (events : List Event) : (run events : AudppEngine φ δ).sink.outRate = outRate := by
  induction events using List.reverseRecOn with
  | nil => rfl
  | append_singleton events event ih =>
    rw [run, List.foldl_concat, ← run]
    cases event with
    | command payload guest =>
      rw [AudppEngine.next]
      cases accepted : acceptedPlay payload guest with
      | none =>
        rw [(handle_other accepted).2]
        split
        · rfl
        · exact ih
      | some play =>
        rw [handle_accepted accepted]
        exact (outRate_submit _ _ _ _ _ _).trans ih
    | mix frames =>
      rw [AudppEngine.next, AudppEngine.mix, UnifiedAudioSink.mixSamples]
      split <;> exact ih

/-- One sound event keeps the streams with their voices, and adds a voice only when every voice
there is plays a stream. -/
theorem Carries.next {playing : List (Stream δ)} (carries : Carries engine.sink playing)
    (tidy : engine.sink.Tidy) (rated : engine.sink.outRate = outRate) {event : Event}
    (sound : Sound engine event) :
    Carries (engine.next event).sink (playingStep playing event) ∧
      ((engine.next event).sink.voices.length ≤ engine.sink.voices.length ∨
        (engine.next event).sink.voices.length ≤ (playingStep playing event).length) := by
  cases event with
  | command payload guest =>
    rw [AudppEngine.next, playingStep]
    cases accepted : acceptedPlay payload guest with
    | none =>
      rw [(handle_other accepted).2]
      dsimp only
      split
      · exact ⟨List.Perm.nil, .inl (Nat.zero_le _)⟩
      · exact ⟨carries, .inl (Nat.le_refl _)⟩
    | some found =>
      obtain ⟨c, samples⟩ := found
      obtain ⟨narrow, single⟩ := sound c samples accepted
      rw [handle_sound tidy accepted narrow single]
      refine ⟨carries.install rfl, ?_⟩
      have count := carries.length_eq
      rw [List.length_map] at count
      refine le_max_iff.mp (UnifiedAudioSink.length_install.trans (Nat.le_of_eq ?_))
      rw [count]
      rfl
  | mix frames =>
    rw [AudppEngine.next, playingStep, AudppEngine.mix]
    by_cases none : frames = 0
    · rw [if_pos none, none]
      exact ⟨carries, .inl (Nat.le_refl _)⟩
    · rw [if_neg none, ← rated]
      refine ⟨carries.mix none (sound none), .inl ?_⟩
      rw [UnifiedAudioSink.mixSamples_voices none]
      exact Nat.le_of_eq (List.length_map _)

theorem length_le_of_sound (events : List Event)
    (sound : Throughout (fun before event => Sound (run before : AudppEngine φ δ) event) events) :
    Carries (run events : AudppEngine φ δ).sink (playing events) ∧
      ∃ early, early <+: events ∧
        (run events : AudppEngine φ δ).sink.voices.length ≤ (playing early : List (Stream δ)).length := by
  induction events using List.reverseRecOn with
  | nil => exact ⟨List.Perm.nil, [], List.nil_prefix, Nat.le_refl 0⟩
  | append_singleton events event ih =>
    obtain ⟨earlier, here⟩ := throughout_snoc.mp sound
    obtain ⟨carries, early, initial, few⟩ := ih earlier
    obtain ⟨after, bound⟩ := carries.next (tidy_run events) (outRate_run events) here
    have ran : run (events ++ [event]) = (run events : AudppEngine φ δ).next event :=
      List.foldl_concat ..
    have played : (playing (events ++ [event]) : List (Stream δ)) = playingStep (playing events) event :=
      List.foldl_concat ..
    rw [ran, played]
    refine ⟨after, ?_⟩
    rcases bound with kept | grown
    · exact ⟨early, initial.trans (List.prefix_append _ _), kept.trans few⟩
    · exact ⟨_, List.prefix_refl _, by rwa [played]⟩

/-- A run keeps the law exactly if each of its events meets the condition. -/
theorem lawful_iff (events : List Event) :
    Lawful φ δ events ↔
      Throughout (fun before event => Sound (run before : AudppEngine φ δ) event) events := by
  have each : Throughout (fun before event => EventLaw (run before : AudppEngine φ δ) event) events ↔
      Throughout (fun before event => Sound (run before : AudppEngine φ δ) event) events :=
    forall₄_congr fun before event after _ => eventLaw_iff (tidy_run before) event
  refine ⟨fun lawful => each.mp lawful.1, fun sound => ⟨each.mpr sound, fun before initial => ?_⟩⟩
  obtain ⟨rest, rfl⟩ := initial
  exact (length_le_of_sound before fun first event after split =>
    sound first event (after ++ rest) (by rw [split, List.append_assoc]; rfl)).2

/-- One sample of silence for three channels. -/
def threeChannels : Event :=
  .command ([1, 0, 0, 0] ++ [0, 0, 0, 0] ++ [2, 0, 0, 0] ++ [0x44, 0xac, 0, 0] ++ [3, 0, 0, 0] ++ [0, 0, 0, 0])
    ⟨fun _ size => some (Vector.replicate size 0)⟩

/-- The command is acknowledged, and there is no voice. -/
theorem not_lawful_threeChannels : ¬ Lawful ℚ ℚ [threeChannels] := by
  intro lawful
  obtain ⟨samples, _, index, voice, _, held, _⟩ := lawful.1 [] threeChannels [] rfl rfl rfl
  have none : (next (run [] : AudppEngine ℚ ℚ) threeChannels).sink.voices = [] := rfl
  change (next (run [] : AudppEngine ℚ ℚ) threeChannels).sink.voices[index]? = some voice at held
  rw [none] at held
  cases held

end AudppEngine

end ZeeboLle.Audio
