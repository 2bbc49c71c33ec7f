import TimeMerge.Settings

/-!
# Settings that are accepted

Whichever way a value came in, from a variable of its own or in a spec object, it was checked on the
way: the delimiter is an ASCII character, and the capacity is not zero. -/
namespace TimeMerge.Settings

variable {v : Variable} {value : String}

/-- Reading that succeeds has succeeded in its first part and in the rest. -/
theorem exists_of_bind {x : Except SettingsError α} {f : α → Except SettingsError β} {b : β}
    (h : (x >>= f) = .ok b) : ∃ a, x = .ok a ∧ f a = .ok b := by
  cases x with
  | error e => cases h
  | ok a => exact ⟨a, rfl, h⟩

/-- An optional value is what it is when unset, or was read. -/
theorem orElse_cases {read : α → Except SettingsError β} {unset b : β} {set : Option α}
    (h : orElse read unset set = .ok b) : b = unset ∨ ∃ a ∈ set, read a = .ok b := by
  cases set with
  | none =>
    cases h
    exact .inl rfl
  | some a => exact .inr ⟨a, rfl, h⟩

theorem readDelimiter_ascii {d : UInt8} (h : readDelimiter v value = .ok d) : d.toNat < 128 := by
  rw [readDelimiter] at h
  split at h
  · cases h
    decide
  · split at h
    · rename_i c _
      split at h
      · rename_i hc
        cases h
        rw [UInt8.toNat_ofNat']
        omega
      · cases h
    · cases h

theorem positive_ne_zero {n m : Nat} (h : positive v n = .ok m) : m ≠ 0 := by
  rw [positive] at h
  split at h
  · cases h
  · rename_i hn
    cases h
    exact hn

theorem readCapacity_ne_zero {n : Nat} (h : readCapacity v value = .ok n) : n ≠ 0 := by
  rw [readCapacity] at h
  split at h
  · cases h
  · exact positive_ne_zero h

theorem delimiter_of_formatNamed {name : String} {d d' : UInt8} {header header' : Bool}
    (h : formatNamed name d header = .ok (.delimited d' header')) : d' = d := by
  rw [formatNamed] at h
  split at h
  · cases h
  · split at h <;> cases h
    rfl

/-- What holds of settings while they are read. -/
structure Draft.Sound (d : Draft) : Prop where
  delimiter : d.delimiter.toNat < 128
  capacity : d.channelCapacity ≠ 0

/-- What holds of settings that were accepted. -/
structure Sound (s : Settings) : Prop where
  delimiter : ∀ d header, s.format = .delimited d header → d.toNat < 128
  capacity : s.channelCapacity ≠ 0

namespace Draft

variable {env : Environment} {d d' : Draft} {o : Overlay}

theorem sound_ofEnvironment (h : ofEnvironment env = .ok d) : d.Sound := by
  obtain ⟨_, _, h⟩ := exists_of_bind h
  obtain ⟨delimiter, hdelimiter, h⟩ := exists_of_bind h
  obtain ⟨_, _, h⟩ := exists_of_bind h
  obtain ⟨_, _, h⟩ := exists_of_bind h
  obtain ⟨capacity, hcapacity, h⟩ := exists_of_bind h
  cases h
  constructor
  · rcases orElse_cases hdelimiter with rfl | ⟨_, _, h⟩
    · exact (by decide : Ascii.comma.toNat < 128)
    · exact readDelimiter_ascii h
  · rcases orElse_cases hcapacity with rfl | ⟨_, _, h⟩
    · exact (by decide : 500 ≠ 0)
    · exact readCapacity_ne_zero h

theorem Sound.overlaid (hd : d.Sound) (h : d.overlaid o = .ok d') : d'.Sound := by
  obtain ⟨delimiter, hdelimiter, h⟩ := exists_of_bind h
  obtain ⟨capacity, hcapacity, h⟩ := exists_of_bind h
  cases h
  constructor
  · rcases orElse_cases hdelimiter with rfl | ⟨_, _, h⟩
    · exact hd.delimiter
    · exact readDelimiter_ascii h
  · rcases orElse_cases hcapacity with rfl | ⟨_, _, h⟩
    · exact hd.capacity
    · exact positive_ne_zero h

theorem Sound.settings {s : Settings} (hd : d.Sound) (h : d.settings = .ok s) : s.Sound := by
  obtain ⟨format, hformat, h⟩ := exists_of_bind h
  cases h
  refine ⟨fun delimiter header hf => ?_, hd.capacity⟩
  have hsame := delimiter_of_formatNamed (hformat.trans (congrArg Except.ok hf))
  rw [hsame]
  exact hd.delimiter

end Draft

theorem sound_ofEnvironment {env : Environment} {s : Settings} (h : ofEnvironment env = .ok s) :
    s.Sound := by
  obtain ⟨plain, hplain, h⟩ := exists_of_bind h
  obtain ⟨draft, hdraft, h⟩ := exists_of_bind h
  have hsound := Draft.sound_ofEnvironment hplain
  refine Draft.Sound.settings ?_ h
  rcases orElse_cases hdraft with rfl | ⟨text, _, hoverlaid⟩
  · exact hsound
  · obtain ⟨o, _, ho⟩ := exists_of_bind hoverlaid
    exact hsound.overlaid ho

end TimeMerge.Settings
