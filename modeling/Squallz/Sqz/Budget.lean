/-
The output budget of a container: it covers every container of its payload and index lengths, and the lengths that the
reader works out for the recovery section are those that the writer emits.
-/
import Squallz.Api.Names
import Squallz.Sqz.Acceptance
import Squallz.Sqz.SectionDamage
import Squallz.Sqz.HeaderDamage

namespace Squallz.Sqz

open Squallz.Api Squallz.Bytes Squallz.Erasure

/-! ## The budget -/

def descriptorBudget : Nat := 1024

def recoveryPrimaryHeaderLen : Nat := 84

/-- `checked_mul` of the writer. -/
def budgetMul (left right : Nat) (context : String) : Res Nat :=
  if left * right < 2 ^ 64 then .ok (left * right) else raise (.resourceLimitExceeded s!"{context} overflow")

/-- `checked_sum` of the writer. -/
def budgetSum (values : List Nat) (context : String) : Res Nat :=
  values.foldlM (fun total value =>
    if total + value < 2 ^ 64 then .ok (total + value) else raise (.resourceLimitExceeded s!"{context} overflow")) 0

def sqzOutputBudget (payloadBytes indexBytes parityShards : Nat) : Res Nat := do
  let payloadBlocks := divCeil payloadBytes blockSize
  let payloadGroups := divCeil payloadBlocks dataShards
  let payloadHashes ← budgetMul payloadBlocks 32 "SQZ payload hashes"
  let recoveryShards ← budgetMul payloadGroups parityShards "SQZ recovery shards"
  let parityBytes ← budgetMul recoveryShards blockSize "SQZ recovery parity"
  let primaryBytes ← budgetSum [recoveryPrimaryHeaderLen, payloadHashes, parityBytes, indexBytes] "SQZ recovery section"
  let protectionBlocks := divCeil primaryBytes blockSize
  let protectionHashes ← budgetMul protectionBlocks 32 "SQZ recovery hashes"
  let protectionGroups := divCeil protectionBlocks recoveryDataShards
  let protectionShards ← budgetMul protectionGroups recoveryParityShards "SQZ recovery protection shards"
  let protectionParity ← budgetMul protectionShards blockSize "SQZ recovery protection parity"
  let recoveryBytes ← budgetSum [primaryBytes, protectionHashes, protectionParity, recoveryProtectionTrailerLen]
    "SQZ protected recovery section"
  budgetSum [headerLen, descriptorBudget, payloadBytes, recoveryBytes, indexBytes, footerLen] "SQZ output budget"

/-- The length of a container with the longest descriptor that is provided for. -/
def budgetLength (payloadBytes indexBytes parityShards : Nat) : Nat :=
  headerLen + descriptorBudget + payloadBytes + protectedLength (primaryLength parityShards payloadBytes indexBytes) +
    indexBytes + footerLen

theorem budgetMul_eq_ok {left right n : Nat} {context : String} :
    budgetMul left right context = .ok n ↔ left * right = n ∧ left * right < 2 ^ 64 := by
  unfold budgetMul
  split
  · rename_i h
    constructor
    · rintro ⟨⟩
      exact ⟨rfl, h⟩
    · rintro ⟨rfl, -⟩
      rfl
  · rename_i h
    constructor
    · rintro ⟨⟩
    · rintro ⟨-, hlt⟩
      exact absurd hlt h

theorem budgetSum_eq_ok {values : List Nat} {n : Nat} {context : String} :
    budgetSum values context = .ok n ↔ values.sum = n ∧ values.sum < 2 ^ 64 := by
  have key : ∀ total, total < 2 ^ 64 → (values.foldlM (fun total value => if total + value < 2 ^ 64 then .ok (total + value)
      else raise (.resourceLimitExceeded s!"{context} overflow")) total = (.ok n : Res Nat) ↔
        total + values.sum = n ∧ total + values.sum < 2 ^ 64) := by
    induction values with
    | nil =>
      intro total htotal
      rw [List.foldlM_nil, List.sum_nil, Nat.add_zero, pure_eq_ok]
      constructor
      · rintro ⟨⟩
        exact ⟨rfl, htotal⟩
      · rintro ⟨rfl, -⟩
        rfl
    | cons value values ih =>
      intro total _
      rw [List.foldlM_cons, List.sum_cons, ← Nat.add_assoc]
      split
      · rename_i hlt
        rw [ok_bind]
        exact ih (total + value) hlt
      · constructor
        · rintro ⟨⟩
        · rintro ⟨-, hlt⟩
          omega
  have := key 0 (by decide)
  rwa [Nat.zero_add] at this

theorem sum_four (a b c d : Nat) : [a, b, c, d].sum = a + b + c + d := by
  simp only [List.sum_cons, List.sum_nil, Nat.add_zero, Nat.add_assoc]

theorem sum_six (a b c d e f : Nat) : [a, b, c, d, e, f].sum = a + b + c + d + e + f := by
  simp only [List.sum_cons, List.sum_nil, Nat.add_zero, Nat.add_assoc]

theorem primaryLength_eq_sum (payloadBytes indexBytes parityShards : Nat) : primaryLength parityShards payloadBytes indexBytes =
    [recoveryPrimaryHeaderLen, divCeil payloadBytes blockSize * 32,
      divCeil (divCeil payloadBytes blockSize) dataShards * parityShards * blockSize, indexBytes].sum := by
  rw [sum_four, primaryLength, parityOffsetOf, recoveryHeaderLen, recoveryPrimaryHeaderLen]

theorem protectedLength_eq_sum (primary : Nat) : protectedLength primary =
    [primary, divCeil primary blockSize * 32,
      divCeil (divCeil primary blockSize) recoveryDataShards * recoveryParityShards * blockSize,
      recoveryProtectionTrailerLen].sum := by
  rw [sum_four, protectedLength, Nat.add_assoc, Nat.add_assoc, Nat.add_assoc]

theorem budgetLength_eq_sum (payloadBytes indexBytes parityShards : Nat) : budgetLength payloadBytes indexBytes parityShards =
    [headerLen, descriptorBudget, payloadBytes, protectedLength (primaryLength parityShards payloadBytes indexBytes),
      indexBytes, footerLen].sum := by
  rw [sum_six, budgetLength]

/-- A budget is the length that is provided for. -/
theorem sqzOutputBudget_eq {payloadBytes indexBytes parityShards budget : Nat}
    (h : sqzOutputBudget payloadBytes indexBytes parityShards = .ok budget) :
    budget = budgetLength payloadBytes indexBytes parityShards := by
  unfold sqzOutputBudget at h
  simp only [bind_eq_ok] at h
  obtain ⟨hashes, hhashes, shards, hshards, parity, hparity, primary, hprimary, protectionHashes, hprotectionHashes,
    protectionShards, hprotectionShards, protectionParity, hprotectionParity, recovery, hrecovery, h⟩ := h
  obtain ⟨hhashes, -⟩ := budgetMul_eq_ok.1 hhashes
  obtain ⟨hshards, -⟩ := budgetMul_eq_ok.1 hshards
  obtain ⟨hparity, -⟩ := budgetMul_eq_ok.1 hparity
  obtain ⟨hprimary, -⟩ := budgetSum_eq_ok.1 hprimary
  obtain ⟨hprotectionHashes, -⟩ := budgetMul_eq_ok.1 hprotectionHashes
  obtain ⟨hprotectionShards, -⟩ := budgetMul_eq_ok.1 hprotectionShards
  obtain ⟨hprotectionParity, -⟩ := budgetMul_eq_ok.1 hprotectionParity
  obtain ⟨hrecovery, -⟩ := budgetSum_eq_ok.1 hrecovery
  obtain ⟨hbudget, -⟩ := budgetSum_eq_ok.1 h
  rw [budgetLength_eq_sum, primaryLength_eq_sum, hhashes, hshards, hparity, hprimary, protectedLength_eq_sum,
    hprotectionHashes, hprotectionShards, hprotectionParity, hrecovery, hbudget]

/-- An addend is at most the sum. -/
theorem addend_lt {values : List Nat} {n limit : Nat} (h : values.sum < limit) (hn : n ∈ values) : n < limit :=
  Nat.lt_of_le_of_lt (List.le_sum_of_mem hn) h

/-- There is a budget wherever the length fits a `u64`. -/
theorem sqzOutputBudget_ok {payloadBytes indexBytes parityShards : Nat}
    (hlt : budgetLength payloadBytes indexBytes parityShards < 2 ^ 64) :
    ∃ budget, sqzOutputBudget payloadBytes indexBytes parityShards = .ok budget := by
  rw [budgetLength_eq_sum] at hlt
  have hrecovery := addend_lt hlt (n := protectedLength (primaryLength parityShards payloadBytes indexBytes)) (by simp)
  rw [protectedLength_eq_sum] at hrecovery hlt
  have hprimary := addend_lt hrecovery (n := primaryLength parityShards payloadBytes indexBytes) (by simp)
  rw [primaryLength_eq_sum] at hprimary hrecovery hlt
  have hshards := Nat.le_mul_of_pos_right (divCeil (divCeil payloadBytes blockSize) dataShards * parityShards) blockSize_pos
  have hparity := addend_lt hprimary
    (n := divCeil (divCeil payloadBytes blockSize) dataShards * parityShards * blockSize) (by simp)
  simp only [sqzOutputBudget]
  rw [budgetMul_eq_ok.2 ⟨rfl, addend_lt hprimary (by simp)⟩, ok_bind,
    budgetMul_eq_ok.2 ⟨rfl, Nat.lt_of_le_of_lt hshards hparity⟩, ok_bind, budgetMul_eq_ok.2 ⟨rfl, hparity⟩, ok_bind,
    budgetSum_eq_ok.2 ⟨rfl, hprimary⟩, ok_bind]
  generalize List.sum [recoveryPrimaryHeaderLen, _, _, _] = primary at hrecovery hlt ⊢
  have hguards := Nat.le_mul_of_pos_right (divCeil (divCeil primary blockSize) recoveryDataShards * recoveryParityShards)
    blockSize_pos
  have hguarded := addend_lt hrecovery
    (n := divCeil (divCeil primary blockSize) recoveryDataShards * recoveryParityShards * blockSize) (by simp)
  rw [budgetMul_eq_ok.2 ⟨rfl, addend_lt hrecovery (by simp)⟩, ok_bind,
    budgetMul_eq_ok.2 ⟨rfl, Nat.lt_of_le_of_lt hguards hguarded⟩, ok_bind, budgetMul_eq_ok.2 ⟨rfl, hguarded⟩, ok_bind,
    budgetSum_eq_ok.2 ⟨rfl, hrecovery⟩, ok_bind]
  exact ⟨_, budgetSum_eq_ok.2 ⟨rfl, hlt⟩⟩

/-! ## Lengths of a container -/

theorem primaryLength_mono {parityShards payload payload' index index' : Nat} (hpayload : payload ≤ payload')
    (hindex : index ≤ index') : primaryLength parityShards payload index ≤ primaryLength parityShards payload' index' := by
  have hblocks := divCeil_mono blockSize_pos hpayload
  have hgroups : divCeil (divCeil payload blockSize) dataShards ≤ divCeil (divCeil payload' blockSize) dataShards :=
    divCeil_mono (by decide) hblocks
  have hparity := Nat.mul_le_mul_right blockSize (Nat.mul_le_mul_right parityShards hgroups)
  unfold primaryLength parityOffsetOf
  omega

theorem protectedLength_mono {primary primary' : Nat} (h : primary ≤ primary') :
    protectedLength primary ≤ protectedLength primary' := by
  have hblocks := divCeil_mono blockSize_pos h
  have hgroups : divCeil (divCeil primary blockSize) recoveryDataShards ≤
      divCeil (divCeil primary' blockSize) recoveryDataShards := divCeil_mono (by decide) hblocks
  have hparity := Nat.mul_le_mul_right blockSize (Nat.mul_le_mul_right recoveryParityShards hgroups)
  unfold protectedLength
  omega

theorem length_decimal : ∀ n, n < 256 → (utf8Bytes (toString n)).length ≤ 3 := by decide +kernel

/-- The recovery hint of a descriptor holds three short numbers. -/
theorem length_hint {parity percent : Nat} (hparity : parity < 256) (hpercent : percent < 256) :
    (utf8Bytes s!"transparent;recovery=rs-gf8-{dataShards}+{parity};requested-recovery={percent}%").length ≤ 60 := by
  have h₁ : (utf8Bytes "transparent;recovery=rs-gf8-").length = 28 := by decide +kernel
  have h₂ : (utf8Bytes (toString dataShards)).length = 1 := by decide +kernel
  have h₃ : (utf8Bytes "+").length = 1 := by decide +kernel
  have h₄ : (utf8Bytes ";requested-recovery=").length = 20 := by decide +kernel
  have h₅ : (utf8Bytes "%").length = 1 := by decide +kernel
  have hparity := length_decimal parity hparity
  have hpercent := length_decimal percent hpercent
  show (utf8Bytes ("transparent;recovery=rs-gf8-" ++ toString dataShards ++ "+" ++ toString parity ++
    ";requested-recovery=" ++ toString percent ++ "%")).length ≤ 60
  simp only [utf8Bytes_append, List.length_append]
  omega

theorem putTlv_length {tag : Nat} {value bytes : List UInt8} (h : putTlv tag value = .ok bytes) :
    bytes.length = 6 + value.length := by
  unfold putTlv at h
  split at h
  · cases h
    simp only [List.length_append, length_leBytes]
    omega
  · cases h

/-- Every descriptor is shorter than what is provided for it. -/
theorem length_descriptorTlv_le {opts : SqzCreateOptions} {secs : Nat} {descriptor : List UInt8}
    (h : descriptorTlv opts secs = .ok descriptor) : descriptor.length ≤ descriptorBudget := by
  simp only [descriptorTlv, bind_eq_ok, pure_eq_ok] at h
  obtain ⟨inner, hinner, recovery, hrecovery, created, hcreated, h⟩ := h
  cases h
  have hformat : (utf8Bytes opts.innerFormat.asStr).length ≤ 8 := by
    cases opts.innerFormat <;> decide +kernel
  have hparity := opts.parityShards_bounds
  have hhint := @length_hint opts.parityShards opts.recoveryPercent.toNat (by omega) opts.recoveryPercent.toNat_lt
  have hinner := putTlv_length hinner
  have hrecovery := putTlv_length hrecovery
  have hcreated := putTlv_length hcreated
  rw [length_leBytes] at hcreated
  rw [List.length_append, List.length_append, descriptorBudget]
  omega

namespace Container

variable {P : Primitives} (c : Container P)

theorem length_primary : c.primary.length = primaryLength c.opts.parityShards c.payload.length c.index.length := by
  rw [primary, length_primaryOf]
  rfl

theorem length_le_budgetLength : c.bytes.length ≤ budgetLength c.payload.length c.index.length c.opts.parityShards := by
  have hdescriptor := length_descriptorTlv_le c.descriptor_eq
  rw [c.length_bytes, footerOffset, indexOffset, recoveryOffset, payloadStart, recoverySection, length_protectedOf,
    c.length_primary, budgetLength]
  omega

end Container

theorem budgetLength_mono {payload payload' index index' parityShards : Nat} (hpayload : payload ≤ payload')
    (hindex : index ≤ index') : budgetLength payload index parityShards ≤ budgetLength payload' index' parityShards := by
  have hrecovery := protectedLength_mono (@primaryLength_mono parityShards _ _ _ _ hpayload hindex)
  unfold budgetLength
  omega

/-! ## The reader's lengths -/

namespace Container

variable {P : Primitives} {c : Container P} {s : RecoverySection} {limit : Nat}

/-- The section over the recovery data of an undamaged container shows its primary section. -/
theorem showsPrimary_own (h : RecoverySection.new c.recoveryOffset c.recoverySection.length = .ok s) :
    ShowsPrimary P c.bytes s c.primary := by
  have hlt := c.bytes_lt
  have hlen := c.length_bytes
  have hparts : c.footerOffset = c.recoveryOffset + c.recoverySection.length + c.index.length := rfl
  have hprimary : c.primary.length ≤ c.recoverySection.length := by
    rw [recoverySection, length_protectedOf_add]
    omega
  have hsect := c.slice_recoverySection
  rw [new_eq h]
  constructor
  · refine ⟨?_, ?_, fun b p hp => by cases hp⟩
    · simp only
      omega
    · simp only
      omega
  · refine ⟨Nat.zero_le _, fun i hi => ?_⟩
    rw [divCeil_zero] at hi
    exact absurd hi (Nat.not_lt_zero i)
  · exact hprimary
  · have hview : patched blockSize (fun i => ([] : List (Nat × List UInt8)).lookup i)
        (slice c.bytes c.recoveryOffset c.recoverySection.length) = c.recoverySection := by
      rw [hsect]
      exact patched_none blockSize _
    show (patched blockSize _ (slice c.bytes c.recoveryOffset c.recoverySection.length)).take _ = _
    rw [hview, recoverySection, protectedOf, List.take_append_of_le_length (Nat.le_refl _), List.take_length]

end Container

/-- The budget for the lengths of a payload and an index, or for more, covers every container that is written with
them; the lengths that the reader works out for its recovery section and for the protection are those of the bytes. -/
theorem sqzOutputBudget_covers {P : Primitives} {ctx : WriterContext} {capacity : UInt64} {opts : SqzCreateOptions}
    {entries : List (EntryMeta × Option Body)} {bytes : List UInt8} (h : Written P ctx capacity opts entries bytes) :
    ∃ c : Container P, c.bytes = bytes ∧ c.opts = opts ∧ c.payload = payloadOf entries ∧
      List.Forall₂ (Stored P c.payloadStart c.payload) entries c.records ∧
      (∀ payloadBytes indexBytes budget, c.payload.length ≤ payloadBytes → c.index.length ≤ indexBytes →
        sqzOutputBudget payloadBytes indexBytes opts.parityShards = .ok budget → bytes.length ≤ budget) ∧
      (∀ s limit, RecoverySection.new c.recoveryOffset c.recoverySection.length = .ok s → c.primary.length ≤ limit →
        (RecoveryState.readPrimary P bytes s limit).map Prod.snd = .ok c.primary.length) ∧
      protectionLayout (blockCountOf c.primary) recoveryDataShards recoveryParityShards blockSize =
        .ok (blockCountOf c.primary * 32, (protectionOf P c.primary).length) ∧
      c.recoverySection.length = c.primary.length + (protectionOf P c.primary).length + recoveryProtectionTrailerLen := by
  obtain ⟨c, rfl, rfl, hpayload, hstored⟩ := writeContainer_ok h.run
  have hlt := c.bytes_lt
  have hsection : c.recoverySection.length =
      c.primary.length + (protectionOf P c.primary).length + recoveryProtectionTrailerLen :=
    length_protectedOf_add P c.primary
  have hparts : c.footerOffset = c.payloadStart + c.payload.length + c.recoverySection.length + c.index.length := rfl
  have hoffset : c.recoveryOffset = c.payloadStart + c.payload.length := rfl
  refine ⟨c, rfl, rfl, hpayload, hstored, ?_, ?_, protectionLayout_protectionOf (by omega), hsection⟩
  · intro payloadBytes indexBytes budget hpayload hindex hbudget
    rw [sqzOutputBudget_eq hbudget]
    exact Nat.le_trans c.length_le_budgetLength (budgetLength_mono hpayload hindex)
  · intro s limit hnew hlimit
    have hstart : s.start = c.recoveryOffset := by rw [Container.new_eq hnew]
    have hread := readPrimary_primaryOf (Container.showsPrimary_own hnew) c.opts.parityShards_bounds (by omega) (by omega)
      hlimit
    rw [hread]
    rfl

theorem sqzOutputBudget_covers_fileEntry : ∃ (bytes : List UInt8) (budget : Nat),
    writeContainer samplePrimitives sampleContext 0xFFFFFFFFFFFFFFFF ⟨.sqz, 5⟩ [fileEntry 97 [1, 2, 3]] = .ok bytes ∧
      sqzOutputBudget 3 105 1 = .ok budget ∧ bytes.length ≤ budget := by
  obtain ⟨bytes, h⟩ := @writeContainer_fileEntry 97 [1, 2, 3] 3 rfl (by decide)
  obtain ⟨c, hbytes, hopts, hpayload, hstored, hcovers, -⟩ := sqzOutputBudget_covers (.entrySet rfl h)
  obtain ⟨budget, hbudget⟩ := @sqzOutputBudget_ok 3 105 1 (by decide)
  obtain ⟨index, hindex, hlen⟩ := buildIndex_ok hstored fun entry hentry => by
    rw [List.mem_singleton.1 hentry]
    exact fileEntry_acceptable (by decide)
  have hsame : c.index = index := Except.ok.inj (c.index_eq.symm.trans hindex)
  refine ⟨bytes, budget, h, hbudget, hcovers 3 105 budget ?_ ?_ hbudget⟩
  · rw [hpayload]
    decide
  · rw [hsame, hlen]
    decide +kernel

end Squallz.Sqz
