import ZeeboLle.Unicorn.Memory
import Mathlib.Data.Rat.Floor
import Mathlib.Tactic.Ring

/-! The mixer of PCM streams. A voice is a stream with a fractional cursor; mixing adds the
frames of all active voices and lets a voice go at the first frame past its end. -/
namespace ZeeboLle.Audio

open Unicorn

abbrev Int16 := BitVec 16

/-- What the mixer asks of the numbers of its cursors, `double` in the source. -/
class CursorNumber (δ : Type) extends Zero δ, Add δ, Mul δ, Div δ, NatCast δ where
  toIndex : δ → Nat

/-- What it asks of the numbers of its samples, `float` in the source. `toInt16` clamps to the
range of a sample and truncates; a word over 65536 is a finite number. -/
class SampleNumber (φ : Type) extends Zero φ, One φ, Add φ, Mul φ, Div φ, NatCast φ, IntCast φ where
  isFinite : φ → Bool
  toInt16 : φ → Int16
  isFinite_one : isFinite 1 = true
  isFinite_div : ∀ word : Word, isFinite ((word.toNat : φ) / ((65536 : Nat) : φ)) = true

/-- Exact cursors. -/
instance : CursorNumber ℚ where
  toIndex cursor := ⌊cursor⌋₊

/-- Exact samples; a fraction goes toward zero. -/
instance : SampleNumber ℚ where
  isFinite _ := true
  toInt16 sample :=
    let clamped := max (-32768) (min sample 32767)
    BitVec.ofInt 16 (if 0 ≤ clamped then ⌊clamped⌋ else ⌈clamped⌉)
  isFinite_one := rfl
  isFinite_div _ := rfl

structure StreamVoice (φ δ : Type) where
  id : Word
  active : Bool
  sampleRate : Word
  channels : Word
  volume : φ
  pcmData : List Int16
  playbackPos : δ

structure UnifiedAudioSink (φ δ : Type) where
  voices : List (StreamVoice φ δ)
  outRate : Word
  rated : outRate ≠ 0

variable {φ δ : Type} [SampleNumber φ] [CursorNumber δ]

namespace StreamVoice

def availableFrames (voice : StreamVoice φ δ) : Nat :=
  if voice.channels = 2 then voice.pcmData.length / 2 else voice.pcmData.length

/-- Source frames for one frame of output. -/
def stride (voice : StreamVoice φ δ) (outRate : Word) : δ :=
  (voice.sampleRate.toNat : δ) / (outRate.toNat : δ)

def srcFrame (voice : StreamVoice φ δ) (stride : δ) (i : Nat) : Nat :=
  CursorNumber.toIndex (voice.playbackPos + (i : δ) * stride)

def sampleAt (voice : StreamVoice φ δ) (index : Nat) : φ :=
  ((voice.pcmData.getD index 0).toInt : φ) * voice.volume

/-- Left and right of one source frame. -/
def frame (voice : StreamVoice φ δ) (src : Nat) : φ × φ :=
  if voice.channels = 2 then (voice.sampleAt (src * 2), voice.sampleAt (src * 2 + 1))
  else (voice.sampleAt src, voice.sampleAt src)

/-- The frames from the `i`-th on, and whether the voice is still active after them. -/
def playFrames (voice : StreamVoice φ δ) (stride : δ) (i : Nat) : Nat → List (φ × φ) × Bool
  | 0 => ([], true)
  | count + 1 =>
    if voice.srcFrame stride i ≥ voice.availableFrames then ([], false)
    else
      (voice.frame (voice.srcFrame stride i) :: (voice.playFrames stride (i + 1) count).1,
        (voice.playFrames stride (i + 1) count).2)

/-- A voice whose cursor has passed some frames. -/
def advance (voice : StreamVoice φ δ) (stride : δ) (mixedFrames : Nat) (active : Bool) : StreamVoice φ δ :=
  { voice with active := active, playbackPos := voice.playbackPos + (mixedFrames : δ) * stride }

/-- What one voice adds to a mix, and the voice afterwards. -/
def mix (outRate : Word) (numFrames : Nat) (voice : StreamVoice φ δ) : List (φ × φ) × StreamVoice φ δ :=
  if !voice.active || voice.pcmData.isEmpty then ([], voice)
  else
    let stride := voice.stride outRate
    let played := voice.playFrames stride 0 numFrames
    (played.1, voice.advance stride played.1.length played.2)

end StreamVoice

/-- Add the frames of a voice to the front of the buffer. -/
def addFrames : List (φ × φ) → List (φ × φ) → List (φ × φ)
  | sum :: buffer, frame :: frames => (sum.1 + frame.1, sum.2 + frame.2) :: addFrames buffer frames
  | buffer, _ => buffer

namespace UnifiedAudioSink

def create (outputSampleRate : Word) : UnifiedAudioSink φ δ where
  voices := []
  outRate := if outputSampleRate ≠ 0 then outputSampleRate else 44100
  rated := by
    split
    · assumption
    · decide

/-- The first voice that is free, or the place of a new one. -/
def freeSlot (sink : UnifiedAudioSink φ δ) : Nat := sink.voices.findIdx fun voice => !voice.active

/-- A voice as it is handed out for a new stream. -/
def freshVoice (slot : Nat) (sampleRate channels : Word) (volume : φ) : StreamVoice φ δ :=
  ⟨BitVec.ofNat 32 (slot + 1), true, sampleRate, channels, volume, [], 0⟩

/-- Reuse a slot, or add one at the end. -/
def putVoice (voices : List (StreamVoice φ δ)) (slot : Nat) (voice : StreamVoice φ δ) :
    List (StreamVoice φ δ) :=
  if slot < voices.length then voices.set slot voice else voices ++ [voice]

def install (sink : UnifiedAudioSink φ δ) (voice : StreamVoice φ δ) : UnifiedAudioSink φ δ :=
  { sink with voices := putVoice sink.voices sink.freeSlot voice }

/-- The identifier of the voice, 0 for a refusal. -/
def allocateVoice (sink : UnifiedAudioSink φ δ) (sampleRate channels : Word) (volume : φ) :
    Word × UnifiedAudioSink φ δ :=
  if sampleRate = 0 ∨ (channels ≠ 1 ∧ channels ≠ 2) ∨ SampleNumber.isFinite volume = false then (0, sink)
  else
    let fresh := freshVoice sink.freeSlot sampleRate channels volume
    (fresh.id, sink.install fresh)

def findVoice (sink : UnifiedAudioSink φ δ) (id : Word) : Option Nat :=
  sink.voices.findIdx? fun voice => voice.id = id

def appendPcm (samples : List Int16) (voice : StreamVoice φ δ) : StreamVoice φ δ :=
  if voice.active then { voice with pcmData := voice.pcmData ++ samples } else voice

def submitPcm (sink : UnifiedAudioSink φ δ) (id : Word) (samples : List Int16) : UnifiedAudioSink φ δ :=
  match sink.findVoice id with
  | none => sink
  | some index => { sink with voices := sink.voices.modify index (appendPcm samples) }

/-- Mixed frames, left and right, and the sink afterwards. -/
def mixSamples (sink : UnifiedAudioSink φ δ) (numFrames : Nat) :
    List (Int16 × Int16) × UnifiedAudioSink φ δ :=
  if numFrames = 0 then ([], sink)
  else
    let mixed := sink.voices.map (StreamVoice.mix sink.outRate numFrames)
    let buffer := mixed.foldl (fun buffer voice => addFrames buffer voice.1) (List.replicate numFrames (0, 0))
    (buffer.map fun sum => (SampleNumber.toInt16 sum.1, SampleNumber.toInt16 sum.2),
      { sink with voices := mixed.map Prod.snd })

end UnifiedAudioSink

namespace StreamVoice

theorem length_playFrames (voice : StreamVoice φ δ) (stride : δ) (i count : Nat) :
    (voice.playFrames stride i count).1.length ≤ count := by
  induction count generalizing i with
  | zero => exact Nat.le_refl 0
  | succ count ih =>
    unfold playFrames
    split
    · exact Nat.zero_le _
    · exact Nat.succ_le_succ (ih (i + 1))

/-- A voice that is still active played every frame it was asked for. -/
theorem length_playFrames_active (voice : StreamVoice φ δ) (stride : δ) (i count : Nat)
    (active : (voice.playFrames stride i count).2 = true) :
    (voice.playFrames stride i count).1.length = count := by
  induction count generalizing i with
  | zero => rfl
  | succ count ih =>
    unfold playFrames at active ⊢
    split
    · rename_i past
      rw [if_pos past] at active
      cases active
    · rename_i inside
      rw [if_neg inside] at active
      exact congrArg (· + 1) (ih (i + 1) active)

/-- A voice ends exactly if one of the frames asked for lies past its end. -/
theorem playFrames_active_iff (voice : StreamVoice φ δ) (stride : δ) (i count : Nat) :
    (voice.playFrames stride i count).2 = true ↔
      ∀ j < count, voice.srcFrame stride (i + j) < voice.availableFrames := by
  induction count generalizing i with
  | zero => simp [playFrames]
  | succ count ih =>
    unfold playFrames
    constructor
    · intro active j below
      split at active
      · cases active
      · rename_i inside
        cases j with
        | zero => exact Nat.lt_of_not_le inside
        | succ j =>
          have later := (ih (i + 1)).mp active j (Nat.lt_of_succ_lt_succ below)
          rwa [Nat.add_assoc, Nat.add_comm 1 j] at later
    · intro inside
      have first := inside 0 (Nat.succ_pos count)
      rw [Nat.add_zero] at first
      rw [if_neg (Nat.not_le.mpr first)]
      refine (ih (i + 1)).mpr fun j below => ?_
      rw [Nat.add_assoc, Nat.add_comm 1 j]
      exact inside (j + 1) (Nat.succ_lt_succ below)

variable {voice : StreamVoice φ δ} {outRate : Word} {numFrames : Nat}

/-- A voice that does not play, or has nothing to play, is left as it is. -/
theorem mix_idle (idle : (voice.active && !voice.pcmData.isEmpty) = false) :
    voice.mix outRate numFrames = ([], voice) := by
  unfold mix
  rw [if_pos]
  cases active : voice.active <;> simp_all

theorem mix_playing (playing : (voice.active && !voice.pcmData.isEmpty) = true) :
    voice.mix outRate numFrames =
      ((voice.playFrames (voice.stride outRate) 0 numFrames).1,
        voice.advance (voice.stride outRate) (voice.playFrames (voice.stride outRate) 0 numFrames).1.length
          (voice.playFrames (voice.stride outRate) 0 numFrames).2) := by
  unfold mix
  rw [if_neg]
  cases active : voice.active <;> simp_all

theorem length_mix : (voice.mix outRate numFrames).1.length ≤ numFrames := by
  cases playing : voice.active && !voice.pcmData.isEmpty with
  | false =>
    rw [mix_idle playing]
    exact Nat.zero_le numFrames
  | true =>
    rw [mix_playing playing]
    exact voice.length_playFrames _ 0 numFrames

theorem playFrames_add (voice : StreamVoice φ δ) (stride : δ) (i a b : Nat) :
    voice.playFrames stride i (a + b) =
      if (voice.playFrames stride i a).2 then
        ((voice.playFrames stride i a).1 ++ (voice.playFrames stride (i + a) b).1,
          (voice.playFrames stride (i + a) b).2)
      else voice.playFrames stride i a := by
  induction a generalizing i with
  | zero => simp [playFrames]
  | succ a ih =>
    rw [Nat.add_right_comm a 1 b, playFrames, playFrames, ih, Nat.add_right_comm i 1 a, Nat.add_assoc i a 1]
    by_cases past : voice.srcFrame stride i ≥ voice.availableFrames
    · rw [if_pos past, if_pos past]
      rfl
    · rw [if_neg past, if_neg past]
      cases active : (voice.playFrames stride (i + 1) a).2 with
      | true => simp
      | false => simp [active]

end StreamVoice

@[simp] theorem length_addFrames (buffer frames : List (φ × φ)) :
    (addFrames buffer frames).length = buffer.length := by
  induction buffer generalizing frames with
  | nil => cases frames <;> rfl
  | cons sum buffer ih =>
    cases frames with
    | nil => rfl
    | cons frame frames => exact congrArg (· + 1) (ih frames)

@[simp] theorem addFrames_nil (buffer : List (φ × φ)) : addFrames buffer [] = buffer := by
  cases buffer <;> rfl

/-- Frames that reach the second part of a buffer fill the first. -/
theorem addFrames_append {front : List (φ × φ)} (back : List (φ × φ)) {first second : List (φ × φ)}
    (short : first.length ≤ front.length) (full : second = [] ∨ first.length = front.length) :
    addFrames (front ++ back) (first ++ second) = addFrames front first ++ addFrames back second := by
  induction front generalizing first with
  | nil =>
    rw [List.eq_nil_of_length_eq_zero (Nat.le_zero.mp short)]
    rfl
  | cons sum front ih =>
    cases first with
    | nil =>
      rcases full with none | full
      · rw [none, List.append_nil, addFrames_nil, addFrames_nil, addFrames_nil]
      · cases full
    | cons frame first =>
      refine congrArg ((sum.1 + frame.1, sum.2 + frame.2) :: ·) (ih (Nat.le_of_succ_le_succ short) ?_)
      exact full.imp_right fun same => Nat.succ.inj same

namespace StreamVoice

variable (voice : StreamVoice φ ℚ)

/-- A voice that passed `a` frames continues with the frame that follows. -/
theorem playFrames_advance (stride : ℚ) (active : Bool) (a j count : Nat) :
    (voice.advance stride a active).playFrames stride j count = voice.playFrames stride (a + j) count := by
  induction count generalizing j with
  | zero => rfl
  | succ count ih =>
    have src : (voice.advance stride a active).srcFrame stride j = voice.srcFrame stride (a + j) := by
      have cursor : voice.playbackPos + (a : ℚ) * stride + (j : ℚ) * stride =
          voice.playbackPos + ((a + j : Nat) : ℚ) * stride := by
        push_cast
        ring
      exact congrArg CursorNumber.toIndex cursor
    rw [playFrames, playFrames, src, ih, Nat.add_assoc]
    rfl

omit [SampleNumber φ] in
theorem advance_advance (stride : ℚ) (first second : Bool) (a b : Nat) :
    (voice.advance stride a first).advance stride b second = voice.advance stride (a + b) second := by
  have cursor : voice.playbackPos + (a : ℚ) * stride + (b : ℚ) * stride =
      voice.playbackPos + ((a + b : Nat) : ℚ) * stride := by
    push_cast
    ring
  exact congrArg (fun cursor => { voice with active := second, playbackPos := cursor }) cursor

/-- One voice in two parts: the second part adds nothing unless the first was full. -/
theorem mix_add (outRate : Word) (a b : Nat) :
    voice.mix outRate (a + b) =
        ((voice.mix outRate a).1 ++ ((voice.mix outRate a).2.mix outRate b).1,
          ((voice.mix outRate a).2.mix outRate b).2) ∧
      (((voice.mix outRate a).2.mix outRate b).1 = [] ∨ (voice.mix outRate a).1.length = a) := by
  cases playing : voice.active && !voice.pcmData.isEmpty with
  | false =>
    rw [mix_idle playing, mix_idle playing, mix_idle playing]
    exact ⟨rfl, .inl rfl⟩
  | true =>
    rw [mix_playing playing, mix_playing playing, playFrames_add]
    cases active : (voice.playFrames (voice.stride outRate) 0 a).2 with
    | false =>
      -- the stream ended in the first part
      rw [mix_idle rfl]
      simp [active]
    | true =>
      have full := voice.length_playFrames_active _ 0 a active
      have goes_on : ((voice.advance (voice.stride outRate) a true).active &&
          !(voice.advance (voice.stride outRate) a true).pcmData.isEmpty) = true :=
        (Bool.and_eq_true_iff.mp playing).2
      have same : (voice.advance (voice.stride outRate) a true).stride outRate = voice.stride outRate := rfl
      rw [full, mix_playing goes_on, same, playFrames_advance, advance_advance, Nat.zero_add, Nat.add_zero,
        if_pos rfl, List.length_append, full]
      exact ⟨rfl, .inr rfl⟩

end StreamVoice

/-- Mixing voices into a buffer in two parts. -/
theorem foldl_mix_add (outRate : Word) (a b : Nat) (voices : List (StreamVoice φ ℚ))
    {front : List (φ × φ)} (back : List (φ × φ)) (filled : front.length = a) :
    (voices.map (StreamVoice.mix outRate (a + b))).foldl (fun buffer voice => addFrames buffer voice.1)
        (front ++ back) =
      (voices.map (StreamVoice.mix outRate a)).foldl (fun buffer voice => addFrames buffer voice.1) front ++
        (((voices.map (StreamVoice.mix outRate a)).map Prod.snd).map (StreamVoice.mix outRate b)).foldl
          (fun buffer voice => addFrames buffer voice.1) back := by
  induction voices generalizing front back with
  | nil => rfl
  | cons voice voices ih =>
    obtain ⟨both, full⟩ := voice.mix_add outRate a b
    have short : (voice.mix outRate a).1.length ≤ front.length := by
      rw [filled]
      exact StreamVoice.length_mix
    simp only [List.map_cons, List.foldl_cons]
    rw [both, addFrames_append back short (by rwa [filled])]
    exact ih (addFrames back _) ((length_addFrames _ _).trans filled)

omit [CursorNumber δ] in
theorem length_foldl_addFrames (mixed : List (List (φ × φ) × StreamVoice φ δ)) (buffer : List (φ × φ)) :
    (mixed.foldl (fun buffer voice => addFrames buffer voice.1) buffer).length = buffer.length := by
  induction mixed generalizing buffer with
  | nil => rfl
  | cons voice mixed ih => rw [List.foldl_cons, ih, length_addFrames]

namespace UnifiedAudioSink

/-- A request is answered with as many frames as it asks for. -/
theorem length_mixSamples (sink : UnifiedAudioSink φ δ) (numFrames : Nat) :
    (sink.mixSamples numFrames).1.length = numFrames := by
  unfold mixSamples
  split
  · rename_i none
    exact none.symm
  · rw [List.length_map, length_foldl_addFrames, List.length_replicate]

/-- Output does not depend on how a request is cut: two requests give the frames of one, and
leave every voice as one does. -/
theorem mixSamples_add (sink : UnifiedAudioSink φ ℚ) (a b : Nat) :
    sink.mixSamples (a + b) =
      ((sink.mixSamples a).1 ++ ((sink.mixSamples a).2.mixSamples b).1,
        ((sink.mixSamples a).2.mixSamples b).2) := by
  by_cases noFirst : a = 0
  · subst noFirst
    rw [Nat.zero_add, mixSamples.eq_1 sink 0, if_pos rfl, List.nil_append]
  by_cases noSecond : b = 0
  · subst noSecond
    rw [Nat.add_zero, mixSamples.eq_1 (sink.mixSamples a).2 0, if_pos rfl, List.append_nil]
  have both : ¬ a + b = 0 := fun none => noFirst (Nat.add_eq_zero_iff.mp none).1
  unfold mixSamples
  simp only [if_neg noFirst, if_neg noSecond, if_neg both]
  rw [List.replicate_add, foldl_mix_add sink.outRate a b sink.voices _ List.length_replicate,
    List.map_append]
  have voices : (sink.voices.map (StreamVoice.mix sink.outRate (a + b))).map Prod.snd =
      (((sink.voices.map (StreamVoice.mix sink.outRate a)).map Prod.snd).map
        (StreamVoice.mix sink.outRate b)).map Prod.snd := by
    simp only [List.map_map]
    refine List.map_congr_left fun voice _ => ?_
    have same := congrArg Prod.snd (voice.mix_add sink.outRate a b).1
    exact same
  rw [voices]

end UnifiedAudioSink

end ZeeboLle.Audio
