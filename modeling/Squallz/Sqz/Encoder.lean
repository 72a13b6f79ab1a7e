/-
What the streaming recovery encoder computes, stated on the whole payload: the block hashes, the
parity of every group, and the protected recovery section around them.
-/
import Squallz.Sqz.Writer

namespace Squallz.Sqz

open Squallz.Api Squallz.Bytes Squallz.Erasure

/-! ## The layout of a section -/

/-- The number of blocks of a byte list. -/
def blockCountOf (l : List UInt8) : Nat := divCeil l.length blockSize

/-- The number of blocks in group `g` of `n` blocks. -/
def groupLen (n g : Nat) : Nat := min (n - g * dataShards) dataShards

/-- The hash of every block. -/
def hashesOf (P : Primitives) (l : List UInt8) (n : Nat) : List Digest :=
  (List.range n).map fun i => P.blake3 (block blockSize l i)

/-- The parity shards of group `g` of `n` payload blocks. -/
def groupParity (P : Primitives) (parityShards : Nat) (payload : List UInt8) (n g : Nat) :
    List (List UInt8) :=
  P.reedSolomon.parity (groupLen n g) parityShards
    (shards 0 blockSize payload (g * dataShards) (groupLen n g))

/-- The parity of the first `groups` groups of `n` payload blocks. -/
def parityOf (P : Primitives) (parityShards : Nat) (payload : List UInt8) (n groups : Nat) :
    List (List (List UInt8)) :=
  (List.range groups).map (groupParity P parityShards payload n)

def primaryHeader (P : Primitives) (parityShards payloadStart : Nat) (payload index : List UInt8) :
    List UInt8 :=
  recoveryMagic ++ (leBytes 2 recoveryVersion ++ (leBytes 2 recoveryAlgoRsGf8 ++
  (leBytes 4 blockSize ++ (leBytes 2 dataShards ++ (leBytes 2 parityShards ++ (leBytes 4 0 ++
  (leBytes 8 payloadStart ++ (leBytes 8 payload.length ++ (leBytes 8 (blockCountOf payload) ++
  (leBytes 8 index.length ++ (P.blake3 index).bytes))))))))))

/-- The primary recovery section of a payload and its index. -/
def primaryOf (P : Primitives) (parityShards payloadStart : Nat) (payload index : List UInt8) :
    List UInt8 :=
  let n := blockCountOf payload
  primaryHeader P parityShards payloadStart payload index ++
    ((hashesOf P payload n).flatMap Digest.bytes ++
      ((parityOf P parityShards payload n (divCeil n dataShards)).flatten.flatten ++ index))

/-- The parity shards of protection group `g`; the group is filled up with zero shards. -/
def protectionParity (P : Primitives) (primary : List UInt8) (g : Nat) : List (List UInt8) :=
  P.reedSolomon.parity recoveryDataShards recoveryParityShards
    (shards 0 blockSize primary (g * recoveryDataShards) recoveryDataShards)

/-- The hashes and parity shards that protect a primary section. -/
def protectionOf (P : Primitives) (primary : List UInt8) : List UInt8 :=
  let n := blockCountOf primary
  (hashesOf P primary n).flatMap Digest.bytes ++
    ((List.range (divCeil n recoveryDataShards)).flatMap (protectionParity P primary)).flatten

def trailerOf (P : Primitives) (primary : List UInt8) : List UInt8 :=
  let fields := trailerFields P primary (blockCountOf primary) (protectionOf P primary).length
  fields ++ leBytes 4 (P.crc32c fields).toNat

/-- A primary section with its protection. -/
def protectedOf (P : Primitives) (primary : List UInt8) : List UInt8 :=
  primary ++ (protectionOf P primary ++ trailerOf P primary)

theorem groupLen_le (n g : Nat) : groupLen n g ≤ dataShards := Nat.min_le_right _ _

theorem groupLen_pos {n g : Nat} (h : g < divCeil n dataShards) : 0 < groupLen n g := by
  have := (lt_divCeil (by decide)).1 h
  unfold groupLen
  have : 0 < dataShards := by decide
  omega

theorem groupLen_full {n g : Nat} (h : (g + 1) * dataShards ≤ n) : groupLen n g = dataShards := by
  have : (g + 1) * dataShards = g * dataShards + dataShards := by ring
  unfold groupLen
  omega

@[simp] theorem length_hashesOf (P : Primitives) (l : List UInt8) (n : Nat) :
    (hashesOf P l n).length = n := by simp [hashesOf]

theorem hashesOf_succ (P : Primitives) (l : List UInt8) (n : Nat) :
    hashesOf P l (n + 1) = hashesOf P l n ++ [P.blake3 (block blockSize l n)] := by
  simp [hashesOf, List.range_succ]

theorem hashesOf_append {P : Primitives} {a b : List UInt8} {n : Nat} (h : n * blockSize ≤ a.length) :
    hashesOf P (a ++ b) n = hashesOf P a n := by
  apply List.map_congr_left
  intro i hi
  rw [List.mem_range] at hi
  have : (i + 1) * blockSize ≤ n * blockSize := Nat.mul_le_mul_right _ hi
  rw [block_append_left (by omega)]

/-! ## The running encoder -/

/-- The state of an encoder that has finished the first `c` blocks of `l`. -/
structure Encodes (P : Primitives) (e : RecoveryEncoder) (l : List UInt8) (c : Nat) : Prop where
  group : e.currentGroup = shards 0 blockSize l (c / dataShards * dataShards) (c % dataShards)
  hashes : e.blockHashes = hashesOf P l c
  parity : e.parityGroups = (List.range (c / dataShards)).map fun g =>
    P.reedSolomon.parity dataShards e.parityShards (shards 0 blockSize l (g * dataShards) dataShards)

/-- The state between two calls: full blocks are finished and the current block holds the rest. -/
structure Holds (P : Primitives) (e : RecoveryEncoder) (l : List UInt8) : Prop where
  encodes : Encodes P e l (l.length / blockSize)
  rest : e.currentBlock = l.drop (l.length / blockSize * blockSize)

namespace RecoveryEncoder

variable {P : Primitives} {e : RecoveryEncoder} {l : List UInt8} {c : Nat}

theorem Encodes.append (h : Encodes P e l c) (hc : c * blockSize ≤ l.length) (x : List UInt8) :
    Encodes P e (l ++ x) c := by
  have hq : c / dataShards * dataShards ≤ c := Nat.div_mul_le_self _ _
  have hdm := Nat.div_add_mod' c dataShards
  refine ⟨?_, ?_, ?_⟩
  · rw [h.group, shards_append_left]
    rw [hdm]
    exact hc
  · rw [h.hashes, hashesOf_append hc]
  · rw [h.parity]
    apply List.map_congr_left
    intro g hg
    rw [List.mem_range] at hg
    rw [shards_append_left]
    have : g * dataShards + dataShards ≤ c := by
      have : (g + 1) * dataShards ≤ c / dataShards * dataShards := Nat.mul_le_mul_right _ hg
      have : (g + 1) * dataShards = g * dataShards + dataShards := by ring
      omega
    exact le_trans (Nat.mul_le_mul_right _ this) hc

/-- The outcome of `finish_group`. -/
theorem finishGroup_ok (e : RecoveryEncoder) (hg : 0 < e.currentGroup.length) (hg' : e.currentGroup.length ≤ dataShards)
    (hp : 1 ≤ e.parityShards ∧ e.parityShards ≤ 8) :
    e.finishGroup P = .ok { e with
      currentGroup := []
      parityGroups := e.parityGroups ++
        [P.reedSolomon.parity e.currentGroup.length e.parityShards e.currentGroup] } := by
  have hd : dataShards = 8 := rfl
  unfold finishGroup
  simp only [reedSolomonNew_ok hg hp.1 (by omega), Primitives.encode, List.take_left', List.drop_left']

/-- Finishing block `c` of `l`. -/
theorem finishBlock_encodes (h : Encodes P e l c) (hp : 1 ≤ e.parityShards ∧ e.parityShards ≤ 8) :
    ∃ e', e.finishBlock P (block blockSize l c) = .ok e' ∧ Encodes P e' l (c + 1) ∧
      e'.currentBlock = [] ∧ e'.parityShards = e.parityShards ∧ e'.payloadStart = e.payloadStart ∧
      e'.payloadLength = e.payloadLength := by
  have hd : 0 < dataShards := by decide
  have hmod : c % dataShards < dataShards := Nat.mod_lt _ hd
  have hdm := Nat.div_add_mod' c dataShards
  have hlen : e.currentGroup.length = c % dataShards := by rw [h.group, length_shards]
  have hgroup : e.currentGroup ++ [padTo 0 blockSize (block blockSize l c)] =
      shards 0 blockSize l (c / dataShards * dataShards) (c % dataShards + 1) := by
    rw [shards_succ, ← h.group, hdm, shard]
  unfold finishBlock
  simp only [List.length_append, List.length_singleton, hlen]
  split
  · rename_i hfull
    have hq : (c + 1) / dataShards = c / dataShards + 1 := by
      have : c + 1 = (c / dataShards + 1) * dataShards := by
        have : (c / dataShards + 1) * dataShards = c / dataShards * dataShards + dataShards := by ring
        omega
      rw [this, Nat.mul_div_cancel _ hd]
    have hr : (c + 1) % dataShards = 0 := by
      have := Nat.div_add_mod' (c + 1) dataShards
      rw [hq] at this
      have : (c / dataShards + 1) * dataShards = c / dataShards * dataShards + dataShards := by ring
      omega
    have hcount : (e.currentGroup ++ [padTo 0 blockSize (block blockSize l c)]).length = dataShards := by
      rw [List.length_append, hlen, List.length_singleton, hfull]
    refine ⟨_, finishGroup_ok _ (by rw [hcount]; exact hd) (le_of_eq hcount) hp, ⟨?_, ?_, ?_⟩, rfl, rfl, rfl, rfl⟩
    · simp [hr, shards]
    · simp only [hashesOf_succ, h.hashes]
    · simp only [h.parity, hq, List.range_succ, List.map_append, List.map_cons, List.map_nil, hgroup,
        length_shards, hfull]
  · rename_i hnot
    have hq : (c + 1) / dataShards = c / dataShards := by
      rw [Nat.div_eq_of_lt_le]
      · omega
      · have : (c / dataShards + 1) * dataShards = c / dataShards * dataShards + dataShards := by ring
        omega
    have hr : (c + 1) % dataShards = c % dataShards + 1 := by
      have := Nat.div_add_mod' (c + 1) dataShards
      rw [hq] at this
      omega
    refine ⟨_, rfl, ⟨?_, ?_, ?_⟩, rfl, rfl, rfl, rfl⟩
    · simp only [hq, hr, hgroup]
    · simp only [hashesOf_succ, h.hashes]
    · simp only [hq, h.parity]

/-- The loop of `push_bytes` extends what the encoder holds. -/
theorem fill_holds (h : Holds P e l) (hp : 1 ≤ e.parityShards ∧ e.parityShards ≤ 8)
    (bytes : List UInt8) :
    ∃ e', e.fill P bytes = .ok e' ∧ Holds P e' (l ++ bytes) ∧ e'.parityShards = e.parityShards ∧
      e'.payloadStart = e.payloadStart ∧ e'.payloadLength = e.payloadLength := by
  induction hn : bytes.length using Nat.strong_induction_on generalizing e l bytes with
  | _ n ih =>
    subst hn
    unfold fill
    split
    · rename_i hnil
      exact ⟨e, rfl, by rw [hnil, List.append_nil]; exact h, rfl, rfl, rfl⟩
    · rename_i hne
      have hpos := List.length_pos_of_ne_nil hne
      have hroom := e.room
      set q := l.length / blockSize with hq
      have hql : q * blockSize ≤ l.length := Nat.div_mul_le_self _ _
      have hcur : e.currentBlock.length = l.length - q * blockSize := by rw [h.rest, List.length_drop]
      set take := min (blockSize - e.currentBlock.length) bytes.length with htake
      have hrest : (bytes.drop take).length < bytes.length := by rw [List.length_drop]; omega
      have hsplit : l ++ bytes = l ++ bytes.take take ++ bytes.drop take := by
        rw [List.append_assoc, List.take_append_drop]
      have htl : (bytes.take take).length = take := by rw [List.length_take]; omega
      have hlen : (l ++ bytes.take take).length = q * blockSize + (e.currentBlock.length + take) := by
        rw [List.length_append, htl]; omega
      have hblock : (l ++ bytes.take take).drop (q * blockSize) = e.currentBlock ++ bytes.take take := by
        rw [List.drop_append_of_le_length hql, ← h.rest]
      have henc := Encodes.append h.encodes hql (bytes.take take)
      simp only [← htake]
      split
      · -- the block is full: it is finished as block `q`
        rename_i hfull
        rw [List.length_append, htl] at hfull
        have hlast : block blockSize (l ++ bytes.take take) q = e.currentBlock ++ bytes.take take := by
          rw [block, slice, hblock, List.take_of_length_le (by rw [List.length_append, htl]; omega)]
        obtain ⟨e₁, he₁, henc₁, hcur₁, hp₁, hs₁, hl₁⟩ := finishBlock_encodes henc hp
        rw [hlast] at he₁
        have hq₁ : (l ++ bytes.take take).length / blockSize = q + 1 := by
          rw [hlen, hfull, ← Nat.succ_mul, Nat.mul_div_cancel _ blockSize_pos]
        have hold₁ : Holds P e₁ (l ++ bytes.take take) := by
          refine ⟨by rw [hq₁]; exact henc₁, ?_⟩
          rw [hcur₁, hq₁, List.drop_eq_nil_of_le (by rw [hlen, hfull, Nat.succ_mul])]
        obtain ⟨e₂, he₂, hold₂, hp₂, hs₂, hl₂⟩ := ih _ hrest hold₁ (by rw [hp₁]; exact hp) _ rfl
        refine ⟨e₂, ?_, by rw [hsplit]; exact hold₂, by rw [hp₂, hp₁], by rw [hs₂, hs₁], by rw [hl₂, hl₁]⟩
        simp only [he₁, he₂]
      · rename_i hnot
        rw [List.length_append, htl] at hnot
        have hq₁ : (l ++ bytes.take take).length / blockSize = q := by
          rw [hlen]
          apply Nat.div_eq_of_lt_le
          · omega
          · rw [Nat.succ_mul]
            omega
        have hold₁ : Holds P { e with
            currentBlock := e.currentBlock ++ bytes.take take
            room := lt_of_le_of_ne (e.length_filled_le bytes) (by rw [List.length_append, htl]; exact hnot) }
            (l ++ bytes.take take) := by
          refine ⟨?_, ?_⟩
          · rw [hq₁]
            exact ⟨henc.group, henc.hashes, henc.parity⟩
          · rw [hq₁, hblock]
        obtain ⟨e₂, he₂, hold₂, hp₂, hs₂, hl₂⟩ := ih _ hrest hold₁ hp _ rfl
        exact ⟨e₂, he₂, by rw [hsplit]; exact hold₂, hp₂, hs₂, hl₂⟩

theorem new_holds (P : Primitives) (payloadStart : Nat) (opts : SqzCreateOptions) :
    Holds P (new payloadStart opts) [] := by
  refine ⟨⟨rfl, rfl, rfl⟩, rfl⟩

/-- `push_bytes` extends what the encoder holds. -/
theorem pushBytes_holds (h : Holds P e l) (hlen : e.payloadLength = l.length)
    (hp : 1 ≤ e.parityShards ∧ e.parityShards ≤ 8) (bytes : List UInt8) :
    ∃ e', e.pushBytes P bytes = .ok e' ∧ Holds P e' (l ++ bytes) ∧
      e'.payloadLength = (l ++ bytes).length ∧ e'.parityShards = e.parityShards ∧
      e'.payloadStart = e.payloadStart := by
  have h₁ : Holds P { e with payloadLength := e.payloadLength + bytes.length } l :=
    ⟨⟨h.encodes.group, h.encodes.hashes, h.encodes.parity⟩, h.rest⟩
  obtain ⟨e', he', hold, hps, hst, hpl⟩ := fill_holds h₁ hp bytes
  refine ⟨e', he', hold, ?_, hps, hst⟩
  rw [hpl, List.length_append, hlen]

/-! ## Finishing -/

/-- Finishing the last block. -/
theorem finish_block (h : Holds P e l) (hp : 1 ≤ e.parityShards ∧ e.parityShards ≤ 8) :
    ∃ e', (if e.currentBlock ≠ [] then e.finishBlock P e.currentBlock else pure e) = .ok e' ∧
      Encodes P e' l (blockCountOf l) ∧ e'.parityShards = e.parityShards ∧
      e'.payloadStart = e.payloadStart ∧ e'.payloadLength = e.payloadLength := by
  have hdm := Nat.div_add_mod' l.length blockSize
  have hcur : e.currentBlock.length = l.length % blockSize := by
    rw [h.rest, List.length_drop]
    omega
  by_cases hnil : e.currentBlock = []
  · have hn : blockCountOf l = l.length / blockSize := by
      rw [blockCountOf, divCeil, if_pos (by rw [← hcur, hnil, List.length_nil]), Nat.add_zero]
    refine ⟨e, by simp [hnil], by rw [hn]; exact h.encodes, rfl, rfl, rfl⟩
  · have hpos := List.length_pos_of_ne_nil hnil
    have hn : blockCountOf l = l.length / blockSize + 1 := by
      rw [blockCountOf, divCeil, if_neg (by omega)]
    have hlast : block blockSize l (l.length / blockSize) = e.currentBlock := by
      have := e.room
      rw [block, slice, ← h.rest, List.take_of_length_le (by omega)]
    obtain ⟨e', he', henc, -, hps, hst, hpl⟩ := finishBlock_encodes h.encodes hp
    rw [hlast] at he'
    exact ⟨e', by simp [hnil, he'], by rw [hn]; exact henc, hps, hst, hpl⟩

/-- Finishing the last group. -/
theorem finish_group {n : Nat} (h : Encodes P e l n) (hp : 1 ≤ e.parityShards ∧ e.parityShards ≤ 8) :
    ∃ e', (if e.currentGroup ≠ [] then e.finishGroup P else pure e) = .ok e' ∧
      e'.blockHashes = hashesOf P l n ∧
      e'.parityGroups = parityOf P e.parityShards l n (divCeil n dataShards) ∧
      e'.parityShards = e.parityShards ∧ e'.payloadStart = e.payloadStart ∧
      e'.payloadLength = e.payloadLength := by
  have hd : 0 < dataShards := by decide
  have hmod : n % dataShards < dataShards := Nat.mod_lt _ hd
  have hdm := Nat.div_add_mod' n dataShards
  have hlen : e.currentGroup.length = n % dataShards := by rw [h.group, length_shards]
  -- the groups that are full already
  have hfull : parityOf P e.parityShards l n (n / dataShards) = e.parityGroups := by
    rw [h.parity]
    apply List.map_congr_left
    intro g hg
    rw [List.mem_range] at hg
    have : (g + 1) * dataShards ≤ n / dataShards * dataShards := Nat.mul_le_mul_right _ hg
    rw [groupParity, groupLen_full (by omega)]
  by_cases hnil : e.currentGroup = []
  · have hr : n % dataShards = 0 := by rw [← hlen, hnil, List.length_nil]
    refine ⟨e, by simp [hnil], h.hashes, ?_, rfl, rfl, rfl⟩
    rw [divCeil, if_pos hr, Nat.add_zero, hfull]
  · have hpos := List.length_pos_of_ne_nil hnil
    have hr : groupLen n (n / dataShards) = n % dataShards := by unfold groupLen; omega
    refine ⟨_, (if_pos hnil).trans (finishGroup_ok e hpos (by omega) hp), h.hashes, ?_, rfl, rfl, rfl⟩
    rw [divCeil, if_neg (by omega), parityOf, List.range_succ, List.map_append, ← parityOf, hfull,
      List.map_singleton, groupParity, hr, ← h.group, hlen]

/-- A finished encoder protects the primary section of everything it was given. -/
theorem finish_eq (h : Holds P e l) (hlen : e.payloadLength = l.length)
    (hp : 1 ≤ e.parityShards ∧ e.parityShards ≤ 8) {index : List UInt8} (hindex : index ≠ []) :
    e.finish P index =
      if 2 ^ 64 ≤ index.length then unsupported "sqz index mirror exceeds 16 EiB"
      else protectRecoverySection P (primaryOf P e.parityShards e.payloadStart l index) := by
  obtain ⟨e₁, he₁, henc, hp₁, hs₁, hl₁⟩ := finish_block h hp
  obtain ⟨e₂, he₂, hhashes, hparity, hp₂, hs₂, hl₂⟩ := finish_group henc (by rw [hp₁]; exact hp)
  have hprimary : e₂.primary P index = primaryOf P e.parityShards e.payloadStart l index := by
    unfold primary primaryOf primaryHeader
    simp only [hhashes, hparity, hp₂, hp₁, hs₂, hs₁, hl₂, hl₁, hlen, length_hashesOf, List.append_assoc]
  unfold finish
  rw [he₁, ok_bind, he₂, ok_bind, if_neg (fun hc => hindex hc.2), hprimary]

end RecoveryEncoder

/-! ## The protected section -/

theorem protectGroup_eq (P : Primitives) (primary : List UInt8) {g : Nat}
    (hg : g < divCeil (blockCountOf primary) recoveryDataShards) :
    protectGroup P primary (blockCountOf primary) (g * recoveryDataShards) =
      ((List.range (min (blockCountOf primary - g * recoveryDataShards) recoveryDataShards)).map fun j =>
        P.blake3 (block blockSize primary (g * recoveryDataShards + j)),
      protectionParity P primary g) := by
  have hlt := (lt_divCeil (by decide)).1 hg
  have hbytes : primary.length ≤ blockCountOf primary * blockSize := divCeil_mul_le blockSize_pos
  set n := blockCountOf primary
  set m := min (n - g * recoveryDataShards) recoveryDataShards with hm
  have hshards : shards 0 blockSize primary (g * recoveryDataShards) recoveryDataShards =
      ((List.range m).map fun j => block blockSize primary (g * recoveryDataShards + j)).map (padTo 0 blockSize) ++
        List.replicate (recoveryDataShards - m) (List.replicate blockSize 0) := by
    rw [shards_eq_append_replicate (m := m) (Nat.min_le_right _ _)]
    · simp only [shards, shard, List.map_map, Function.comp_def]
    · by_cases h : m = recoveryDataShards
      · exact Or.inl h
      · have : g * recoveryDataShards + m = n := by omega
        exact Or.inr (by rw [this]; exact hbytes)
  unfold protectGroup
  simp only [← hm, Primitives.encode]
  rw [← hshards, List.take_left' (length_shards _ _ _ _ _), List.drop_left' (length_shards _ _ _ _ _),
    List.map_map]
  rfl

/-- What `protect_recovery_section` computes for a section that is not empty. -/
theorem protectRecoverySection_eq (P : Primitives) {primary : List UInt8} (hne : primary ≠ []) :
    protectRecoverySection P primary =
      if 2 ^ 64 ≤ primary.length then unsupported "sqz recovery section exceeds 16 EiB"
      else if 2 ^ 64 ≤ blockCountOf primary then
        unsupported "sqz recovery protection block count exceeds 16 EiB"
      else if 2 ^ 64 ≤ (protectionOf P primary).length then
        unsupported "sqz recovery protection exceeds 16 EiB"
      else .ok (protectedOf P primary) := by
  have hcount : divCeil primary.length blockSize = blockCountOf primary := rfl
  have hcodec : reedSolomonNew recoveryDataShards recoveryParityShards = .ok () := rfl
  have hn : blockCountOf primary ≤ divCeil (blockCountOf primary) recoveryDataShards * recoveryDataShards :=
    divCeil_mul_le (by decide)
  have hgroups : ((List.range (divCeil (blockCountOf primary) recoveryDataShards)).map fun g =>
      protectGroup P primary (blockCountOf primary) (g * recoveryDataShards)) =
      (List.range (divCeil (blockCountOf primary) recoveryDataShards)).map fun g =>
        ((List.range (min (blockCountOf primary - g * recoveryDataShards) recoveryDataShards)).map fun j =>
          P.blake3 (block blockSize primary (g * recoveryDataShards + j)), protectionParity P primary g) := by
    apply List.map_congr_left
    intro g hg
    exact protectGroup_eq P primary (List.mem_range.1 hg)
  have hhashes := flatMap_groups (fun i => P.blake3 (block blockSize primary i)) (blockCountOf primary)
    recoveryDataShards (divCeil (blockCountOf primary) recoveryDataShards)
  rw [Nat.min_eq_left hn, ← hashesOf] at hhashes
  unfold protectRecoverySection
  rw [if_neg hne]
  simp only [hcodec, hcount, hgroups, List.flatMap_map, hhashes]
  rfl

/-- What `protect_recovery_section` returns. -/
theorem protectRecoverySection_ok {P : Primitives} {primary sect : List UInt8} (hne : primary ≠ [])
    (h : protectRecoverySection P primary = .ok sect) : sect = protectedOf P primary := by
  rw [protectRecoverySection_eq P hne] at h
  split at h
  · cases h
  split at h
  · cases h
  split at h
  · cases h
  · cases h
    rfl

end Squallz.Sqz
