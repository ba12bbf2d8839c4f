import ZeeboLle.Audio.Sink

/-! How the sink hands out its voices. Identifiers number the slots, so a new voice is found by
its identifier as long as there are not 2^32 of them. -/
namespace ZeeboLle.Audio

open Unicorn

namespace UnifiedAudioSink

variable {φ δ : Type} {sink : UnifiedAudioSink φ δ} {voices : List (StreamVoice φ δ)} {slot : Nat}
  {voice : StreamVoice φ δ}

theorem getElem?_putVoice (within : slot ≤ voices.length) (index : Nat) :
    (putVoice voices slot voice)[index]? = if index = slot then some voice else voices[index]? := by
  unfold putVoice
  split
  · rename_i inside
    by_cases here : index = slot
    · rw [here, List.getElem?_set_self inside, if_pos rfl]
    · rw [List.getElem?_set_ne (Ne.symm here), if_neg here]
  · rename_i outside
    have last : slot = voices.length := by omega
    subst last
    rw [List.getElem?_append]
    split_ifs with first here here
    · omega
    · rfl
    · simp [here]
    · rw [List.getElem?_eq_none (by simp; omega), List.getElem?_eq_none (by omega)]

theorem freeSlot_le (sink : UnifiedAudioSink φ δ) : sink.freeSlot ≤ sink.voices.length :=
  List.findIdx_le_length

theorem free_of_freeSlot {old : StreamVoice φ δ} (found : sink.voices[sink.freeSlot]? = some old) :
    old.active = false := by
  obtain ⟨inside, rfl⟩ := List.getElem?_eq_some_iff.mp found
  have free := List.findIdx_getElem (w := inside)
  exact Bool.eq_false_of_not_eq_true' free

theorem active_of_lt_freeSlot {index : Nat} {old : StreamVoice φ δ} (below : index < sink.freeSlot)
    (found : sink.voices[index]? = some old) : old.active = true := by
  obtain ⟨inside, rfl⟩ := List.getElem?_eq_some_iff.mp found
  have busy := List.not_of_lt_findIdx below
  simpa using busy

theorem getElem?_install (index : Nat) :
    (sink.install voice).voices[index]? = if index = sink.freeSlot then some voice else sink.voices[index]? :=
  getElem?_putVoice (freeSlot_le sink) index

/-- A voice in a free slot is one more active voice. -/
theorem filter_install (active : voice.active = true) :
    ((sink.install voice).voices.filter StreamVoice.active).Perm
      (voice :: sink.voices.filter StreamVoice.active) := by
  unfold install putVoice
  dsimp only
  split
  · rename_i inside
    have free := free_of_freeSlot (List.getElem?_eq_getElem inside)
    generalize sink.freeSlot = slot at inside free ⊢
    have split : sink.voices = sink.voices.take slot ++ sink.voices[slot] :: sink.voices.drop (slot + 1) := by
      simp
    rw [List.set_eq_take_append_cons_drop, if_pos inside]
    nth_rewrite 3 [split]
    rw [List.filter_append, List.filter_append, List.filter_cons_of_pos active,
      List.filter_cons_of_neg (by simp [free])]
    exact List.perm_middle
  · rw [List.filter_append, List.filter_cons_of_pos active, List.filter_nil]
    exact List.perm_append_singleton voice _

/-- A slot is added only when all voices are active. -/
theorem length_install : (sink.install voice).voices.length ≤
    max sink.voices.length ((sink.voices.filter StreamVoice.active).length + 1) := by
  unfold install putVoice
  dsimp only
  split
  · rw [List.length_set]
    exact Nat.le_max_left _ _
  · rename_i full
    have all : sink.voices.filter StreamVoice.active = sink.voices := by
      apply List.filter_eq_self.mpr
      intro old member
      obtain ⟨index, found⟩ := List.getElem?_of_mem member
      have below := (List.getElem?_eq_some_iff.mp found).1
      exact active_of_lt_freeSlot (by omega) found
    rw [all, List.length_append]
    exact Nat.le_max_right _ _

/-- What holds of a sink on every run: identifiers number the slots, and no voice has more than
two channels. -/
structure Tidy (sink : UnifiedAudioSink φ δ) : Prop where
  numbered : ∀ (index : Nat) (voice : StreamVoice φ δ), sink.voices[index]? = some voice →
    voice.id = BitVec.ofNat 32 (index + 1)
  narrow : ∀ voice ∈ sink.voices, voice.channels = 1 ∨ voice.channels = 2

/-- Changes that keep identifiers and channels of the voices. -/
theorem Tidy.congr (tidy : Tidy sink)
    (same : ∀ (index : Nat) (voice : StreamVoice φ δ), voices[index]? = some voice →
      ∃ old, sink.voices[index]? = some old ∧ voice.id = old.id ∧ voice.channels = old.channels) :
    Tidy { sink with voices := voices } where
  numbered := by
    intro index voice found
    obtain ⟨old, held, id, _⟩ := same index voice found
    rw [id, tidy.numbered index old held]
  narrow := by
    intro voice member
    obtain ⟨index, found⟩ := List.getElem?_of_mem member
    obtain ⟨old, held, _, channels⟩ := same index voice found
    rw [channels]
    exact tidy.narrow old (List.mem_of_getElem? held)

theorem Tidy.install (tidy : Tidy sink) (numbered : voice.id = BitVec.ofNat 32 (sink.freeSlot + 1))
    (narrow : voice.channels = 1 ∨ voice.channels = 2) : Tidy (sink.install voice) where
  numbered := by
    intro index found held
    rw [getElem?_install] at held
    split at held
    · rename_i here
      rw [← Option.some.inj held, here, numbered]
    · exact tidy.numbered index found held
  narrow := by
    intro found member
    obtain ⟨index, held⟩ := List.getElem?_of_mem member
    rw [getElem?_install] at held
    split at held
    · rwa [← Option.some.inj held]
    · exact tidy.narrow found (List.mem_of_getElem? held)

theorem Tidy.submitPcm (tidy : Tidy sink) (voiceId : Word) (samples : List Int16) :
    Tidy (sink.submitPcm voiceId samples) := by
  unfold UnifiedAudioSink.submitPcm
  split
  · exact tidy
  · refine tidy.congr fun index voice found => ?_
    rw [List.getElem?_modify] at found
    obtain ⟨old, held, changed⟩ := Option.map_eq_some_iff.mp found
    refine ⟨old, held, ?_⟩
    rw [← changed]
    split
    · unfold appendPcm
      split <;> exact ⟨rfl, rfl⟩
    · exact ⟨rfl, rfl⟩

theorem submitPcm_nil (voiceId : Word) : sink.submitPcm voiceId [] = sink := by
  unfold submitPcm
  cases sink.findVoice voiceId with
  | none => rfl
  | some index =>
    have still : appendPcm [] = (id : StreamVoice φ δ → StreamVoice φ δ) := by
      funext voice
      simp [appendPcm]
    simp [still, List.modify_id]

/-- The identifier of a new voice finds it while it is its own. -/
theorem Tidy.findVoice_install (tidy : Tidy sink)
    (numbered : voice.id = BitVec.ofNat 32 (sink.freeSlot + 1)) (single : sink.freeSlot < 2 ^ 32) :
    (sink.install voice).findVoice voice.id = some sink.freeSlot := by
  have here : (sink.install voice).voices[sink.freeSlot]? = some voice := by
    rw [getElem?_install, if_pos rfl]
  obtain ⟨inside, held⟩ := List.getElem?_eq_some_iff.mp here
  refine List.findIdx?_eq_some_iff_getElem.mpr ⟨inside, by simp [held], fun index below => ?_⟩
  have earlier : (sink.install voice).voices[index]? = some (sink.install voice).voices[index] :=
    List.getElem?_eq_getElem _
  rw [getElem?_install, if_neg (Nat.ne_of_lt below)] at earlier
  have id := tidy.numbered index _ earlier
  rw [id, numbered]
  intro same
  have equal := congrArg BitVec.toNat (of_decide_eq_true same)
  rw [BitVec.toNat_ofNat, BitVec.toNat_ofNat] at equal
  omega

/-- Past that, an earlier voice has the identifier. -/
theorem Tidy.findVoice_clash (tidy : Tidy sink)
    (numbered : voice.id = BitVec.ofNat 32 (sink.freeSlot + 1)) (many : ¬ sink.freeSlot < 2 ^ 32) :
    ∃ index, (sink.install voice).findVoice voice.id = some index ∧ index < sink.freeSlot := by
  have within := freeSlot_le sink
  have low : sink.freeSlot % 2 ^ 32 < sink.freeSlot :=
    Nat.lt_of_lt_of_le (Nat.mod_lt _ (by decide)) (Nat.le_of_not_lt many)
  have held : (sink.install voice).voices[sink.freeSlot % 2 ^ 32]? =
      some sink.voices[sink.freeSlot % 2 ^ 32] := by
    rw [getElem?_install, if_neg (Nat.ne_of_lt low)]
    exact List.getElem?_eq_getElem _
  have same : sink.voices[sink.freeSlot % 2 ^ 32].id = voice.id := by
    rw [tidy.numbered _ _ (List.getElem?_eq_getElem _), numbered]
    apply BitVec.eq_of_toNat_eq
    rw [BitVec.toNat_ofNat, BitVec.toNat_ofNat]
    omega
  obtain ⟨inside, found⟩ := List.getElem?_eq_some_iff.mp held
  cases first : (sink.install voice).findVoice voice.id with
  | none =>
    have absent := List.findIdx?_eq_none_iff.mp first _ (List.getElem_mem inside)
    rw [found, same] at absent
    simp at absent
  | some index =>
    obtain ⟨_, _, earlier⟩ := List.findIdx?_eq_some_iff_getElem.mp first
    refine ⟨index, rfl, Nat.lt_of_le_of_lt (Nat.le_of_not_lt fun later => ?_) low⟩
    have absent := earlier _ later
    rw [found, same] at absent
    simp at absent

section

variable [SampleNumber φ] [CursorNumber δ] {rate channels : Word} {volume : φ}

theorem allocateVoice_granted (rated : rate ≠ 0) (narrow : channels = 1 ∨ channels = 2)
    (finite : SampleNumber.isFinite volume = true) : sink.allocateVoice rate channels volume =
      (BitVec.ofNat 32 (sink.freeSlot + 1),
        sink.install (freshVoice sink.freeSlot rate channels volume)) := by
  unfold allocateVoice
  rw [if_neg]
  · rfl
  · rintro (zero | ⟨mono, stereo⟩ | infinite)
    · exact rated zero
    · exact narrow.elim mono stereo
    · rw [finite] at infinite
      cases infinite

theorem Tidy.allocateVoice (tidy : Tidy sink) (rate channels : Word) (volume : φ) :
    Tidy (sink.allocateVoice rate channels volume).2 := by
  unfold UnifiedAudioSink.allocateVoice
  split
  · exact tidy
  · rename_i granted
    have narrow : channels = 1 ∨ channels = 2 := by
      by_contra wide
      exact granted (.inr (.inl (not_or.mp wide)))
    exact tidy.install rfl narrow

omit [SampleNumber φ] in
/-- Where the new voice's identifier is its own, the samples are its content. -/
theorem Tidy.submit_fresh (tidy : Tidy sink) (rate channels : Word) (volume : φ) (samples : List Int16)
    (single : sink.freeSlot < 2 ^ 32) :
    (sink.install (freshVoice sink.freeSlot rate channels volume)).submitPcm
        (BitVec.ofNat 32 (sink.freeSlot + 1)) samples =
      sink.install ⟨BitVec.ofNat 32 (sink.freeSlot + 1), true, rate, channels, volume, samples, 0⟩ := by
  have found : (sink.install (freshVoice sink.freeSlot rate channels volume : StreamVoice φ δ)).findVoice
      (BitVec.ofNat 32 (sink.freeSlot + 1)) = some sink.freeSlot := tidy.findVoice_install rfl single
  unfold UnifiedAudioSink.submitPcm
  rw [found]
  have voices : ((sink.install (freshVoice sink.freeSlot rate channels volume)).voices.modify sink.freeSlot
      (appendPcm samples)) = (sink.install
        ⟨BitVec.ofNat 32 (sink.freeSlot + 1), true, rate, channels, volume, samples, 0⟩).voices := by
    apply List.ext_getElem?
    intro index
    rw [List.getElem?_modify, getElem?_install, getElem?_install]
    by_cases here : index = sink.freeSlot
    · simp [here, freshVoice, appendPcm]
    · simp [here, Ne.symm here]
  exact congrArg (fun voices => { sink with voices := voices }) voices

theorem mixSamples_voices {frames : Nat} (some : frames ≠ 0) :
    (sink.mixSamples frames).2 = { sink with
      voices := sink.voices.map fun voice => (voice.mix sink.outRate frames).2 } := by
  unfold mixSamples
  rw [if_neg some]
  simp only [List.map_map]
  rfl

theorem Tidy.mixSamples (tidy : Tidy sink) (frames : Nat) : Tidy (sink.mixSamples frames).2 := by
  by_cases none : frames = 0
  · rw [none]
    exact tidy
  · rw [mixSamples_voices none]
    refine tidy.congr fun index voice found => ?_
    rw [List.getElem?_map] at found
    obtain ⟨old, held, rfl⟩ := Option.map_eq_some_iff.mp found
    refine ⟨old, held, ?_⟩
    unfold StreamVoice.mix
    split <;> exact ⟨rfl, rfl⟩

end

end UnifiedAudioSink

end ZeeboLle.Audio
