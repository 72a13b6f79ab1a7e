/-
The distance of a time from the epoch, and how hashes are fed with it.
-/
import Squallz.Api.Entry
import Squallz.Bytes.Delimited

namespace Squallz.Api

open Squallz.Bytes

structure Duration where
  secs : Nat
  nanos : Nat
deriving DecidableEq

/-- `duration_since(UNIX_EPOCH)`: an error holds how far the time lies before the epoch. -/
def SystemTime.durationSinceEpoch (t : SystemTime) : Except Duration Duration :=
  if 0 ≤ t.secs then .ok ⟨t.secs.toNat, t.nanos⟩
  else if t.nanos = 0 then .error ⟨(-t.secs).toNat, 0⟩
  else .error ⟨(-t.secs - 1).toNat, 1000000000 - t.nanos⟩

/-- The time at a distance from the epoch. -/
theorem SystemTime.durationSinceEpoch_injective {a b : SystemTime} (h : a.durationSinceEpoch = b.durationSinceEpoch) :
    a = b := by
  obtain ⟨asecs, ananos, ha, ha', han⟩ := a
  obtain ⟨bsecs, bnanos, hb, hb', hbn⟩ := b
  have heq : asecs = bsecs ∧ ananos = bnanos := by
    unfold durationSinceEpoch at h
    dsimp only at h
    split at h
    · split at h
      · simp only [Except.ok.injEq, Duration.mk.injEq] at h
        omega
      · split at h
        · cases h
        · cases h
    · split at h
      · split at h
        · cases h
        · split at h
          · simp only [Except.error.injEq, Duration.mk.injEq] at h
            omega
          · simp only [Except.error.injEq, Duration.mk.injEq] at h
            omega
      · split at h
        · cases h
        · split at h
          · simp only [Except.error.injEq, Duration.mk.injEq] at h
            omega
          · simp only [Except.error.injEq, Duration.mk.injEq] at h
            omega
  obtain ⟨rfl, rfl⟩ := heq
  rfl

def durationField (d : Duration) : List UInt8 := leBytes 8 d.secs ++ leBytes 4 d.nanos

/-- A distance with the side of the epoch that it leads to. -/
def sidedField : Except Duration Duration → List UInt8
  | .ok d => 1 :: durationField d
  | .error d => 2 :: durationField d

/-- `update_system_time` and `hash_modified`. -/
def systemTimeField : Option SystemTime → List UInt8
  | none => [0]
  | some t => sidedField t.durationSinceEpoch

theorem delimited_durationField : Delimited (fun d : Duration => d.secs < 256 ^ 8 ∧ d.nanos < 256 ^ 4) durationField := by
  rintro ⟨asecs, ananos⟩ ⟨bsecs, bnanos⟩ x y ha hb heq
  rw [durationField, durationField, List.append_assoc, List.append_assoc] at heq
  obtain ⟨rfl, heq⟩ := delimited_leBytes 8 _ _ _ _ ha.1 hb.1 heq
  obtain ⟨rfl, hxy⟩ := delimited_leBytes 4 _ _ _ _ ha.2 hb.2 heq
  exact ⟨rfl, hxy⟩

def Duration.Fits (d : Duration) : Prop := d.secs < 256 ^ 8 ∧ d.nanos < 256 ^ 4

theorem delimited_sidedField : Delimited (fun side => ∀ d, side = .ok d ∨ side = .error d → d.Fits) sidedField := by
  intro a b x y ha hb heq
  cases a with
  | ok d =>
    cases b with
    | ok e =>
      obtain ⟨rfl, hxy⟩ := delimited_durationField d e x y (ha d (.inl rfl)) (hb e (.inl rfl)) (List.cons.inj heq).2
      exact ⟨rfl, hxy⟩
    | error e => exact absurd (List.cons.inj heq).1 (by decide)
  | error d =>
    cases b with
    | ok e => exact absurd (List.cons.inj heq).1 (by decide)
    | error e =>
      obtain ⟨rfl, hxy⟩ := delimited_durationField d e x y (ha d (.inr rfl)) (hb e (.inr rfl)) (List.cons.inj heq).2
      exact ⟨rfl, hxy⟩

theorem sidedField_ne_absent {side : Except Duration Duration} {x y : List UInt8} : sidedField side ++ x ≠ [0] ++ y := by
  intro heq
  cases side with
  | ok d => exact absurd (List.cons.inj heq).1 (by decide)
  | error d => exact absurd (List.cons.inj heq).1 (by decide)

/-- Every distance from the epoch fits its fields. -/
theorem SystemTime.durationSinceEpoch_fits (t : SystemTime) (d : Duration)
    (h : t.durationSinceEpoch = .ok d ∨ t.durationSinceEpoch = .error d) : d.Fits := by
  have := t.secs_ge
  have := t.secs_lt
  have := t.nanos_lt
  unfold durationSinceEpoch at h
  unfold Duration.Fits
  split at h
  · rcases h with h | h
    · cases h
      dsimp only
      omega
    · cases h
  · split at h
    · rcases h with h | h
      · cases h
      · cases h
        dsimp only
        omega
    · rcases h with h | h
      · cases h
      · cases h
        dsimp only
        omega

/-- A time is read back from its field, and so is what follows. -/
theorem delimited_systemTimeField : Delimited (fun _ => True) systemTimeField := by
  intro a b x y _ _ heq
  cases a with
  | none =>
    cases b with
    | none => exact ⟨rfl, (List.cons.inj heq).2⟩
    | some b => exact absurd heq.symm sidedField_ne_absent
  | some a =>
    cases b with
    | none => exact absurd heq sidedField_ne_absent
    | some b =>
      obtain ⟨hside, hxy⟩ := delimited_sidedField _ _ x y a.durationSinceEpoch_fits b.durationSinceEpoch_fits heq
      exact ⟨congrArg some (SystemTime.durationSinceEpoch_injective hside), hxy⟩

end Squallz.Api
