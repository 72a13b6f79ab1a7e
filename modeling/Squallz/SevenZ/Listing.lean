/-
The listing of a 7z archive ends without a panic for every table, every decoder and every control token, and the times in it
are those of the table.
-/
import Mathlib.Data.List.Forall2
import Squallz.SevenZ.Reader

namespace Squallz.SevenZ

open Squallz.Api Squallz.Bytes Squallz.System

/-! ## Reads -/

section Reads

variable {D S : Type} {dec : Decoder D} {check : Prog S Fault Unit}

/-- A read that yields bytes leaves fewer of them to come. -/
theorem Source.reads_lt {source source' : Source D} {n : Nat} {bytes : List UInt8}
    (h : source.read dec n = (.ok bytes, source')) (hbytes : bytes ≠ []) : source'.reads < source.reads := by
  cases source with
  | empty =>
    cases h
    exact absurd rfl hbytes
  | entry session remaining =>
    simp only [Source.read] at h
    by_cases hn : n = 0
    · rw [if_pos hn] at h
      cases h
      exact absurd rfl hbytes
    · rw [if_neg hn] at h
      rcases hread : dec.read session.decoder n with ⟨error | count, decoder⟩
      · rw [hread] at h
        cases h
      · rw [hread] at h
        dsimp only at h
        split at h
        · cases h
        · split at h
          · cases h
          · cases h
            have := List.length_pos_iff.2 hbytes
            show remaining - _ + 1 < remaining + 1
            omega

theorem safe_readSource (n : Nat) (t : S × Source D) :
    Safe (readSource dec n) (fun r t' => t.2.read dec n = (r, t'.2) ∧ t'.1 = t.1) t := safe_step (safe_pure ⟨rfl, rfl⟩)

variable {I : S → Prop} (hcheck : ∀ s, I s → Safe check (fun _ s' => I s') s)

include hcheck in
theorem safe_onState {t : S × Source D} (ht : I t.1) : Safe (onState check) (fun _ t' => t'.2 = t.2 ∧ I t'.1) t :=
  safe_within ((hcheck t.1 ht).mono fun _ _ h => ⟨rfl, h⟩)

include hcheck in
theorem safe_drainFrom {left : Nat} {t : S × Source D} (ht : I t.1) (hleft : t.2.reads ≤ left) :
    Safe (drainFrom dec check left) (fun _ t' => I t'.1) t := by
  induction left generalizing t with
  | zero =>
    cases hsource : t.2 with
    | empty =>
      rw [hsource] at hleft
      cases hleft
    | entry =>
      rw [hsource] at hleft
      cases hleft
  | succ left ih =>
    refine safe_bind (safe_onState hcheck ht) fun _ t₁ ⟨hsource, h₁⟩ => ?_
    refine safe_bind (safe_readSource _ t₁) fun r t₂ ⟨hread, hstate⟩ => ?_
    rw [← hstate] at h₁
    match r with
    | .error error => exact safe_raise _
    | .ok bytes =>
      refine safe_ite (fun _ => safe_pure h₁) fun hbytes => ih h₁ ?_
      have := Source.reads_lt hread hbytes
      rw [hsource] at this
      exact Nat.le_of_lt_succ (Nat.lt_of_lt_of_le this hleft)

include hcheck in
theorem safe_drainEntry {t : S × Source D} (ht : I t.1) : Safe (drainEntry dec check) (fun _ t' => I t'.1) t :=
  safe_step (safe_drainFrom hcheck ht (Nat.le_refl _))

include hcheck in
theorem safe_readTargetFrom {left : Nat} {target : List UInt8} {t : S × Source D} (ht : I t.1)
    (htarget : target.length ≤ maxSymlinkTargetBytes) (hleft : maxSymlinkTargetBytes + 2 ≤ left + target.length) :
    Safe (readTargetFrom dec check left target) (fun _ t' => I t'.1) t := by
  induction left generalizing target t with
  | zero => omega
  | succ left ih =>
    refine safe_bind (safe_onState hcheck ht) fun _ t₁ ⟨_, h₁⟩ => ?_
    -- the target never grows beyond the limit from which its length is taken
    have hremaining : Sound (subU64 (maxSymlinkTargetBytes + 1) target.length) fun _ => I t₁.1 := by
      rw [subU64_eq (Nat.le_succ_of_le htarget)]
      exact h₁
    refine safe_bind (P := fun _ t' => I t'.1) (safe_ofExcept hremaining) fun remaining t₂ h₂ => ?_
    refine safe_bind (safe_readSource _ t₂) fun r t₃ ⟨_, hstate⟩ => ?_
    rw [← hstate] at h₂
    match r with
    | .error error => exact safe_raise _
    | .ok bytes =>
      refine safe_ite (fun _ => safe_pure h₂) fun hbytes => safe_ite (fun _ => safe_raise _) fun hlimit => ?_
      have := List.length_pos_iff.2 hbytes
      refine ih h₂ (Nat.le_of_not_lt hlimit) ?_
      rw [List.length_append]
      omega

include hcheck in
theorem safe_readSymlinkTarget {t : S × Source D} (ht : I t.1) :
    Safe (readSymlinkTarget dec check) (fun _ t' => I t'.1) t := by
  refine safe_bind (safe_onState hcheck ht) fun _ t₁ ⟨_, h₁⟩ => ?_
  refine safe_bind (safe_readTargetFrom hcheck h₁ (Nat.zero_le _) (Nat.le_refl _)) fun target t₂ h₂ => ?_
  exact safe_ite (fun _ => safe_raise _) fun _ => safe_pure h₂

/-- A callback whose failure is kept: the condition holds behind it whether it ends well or fails. -/
theorem safe_keepFailure {keep : FormatError → S → S} {p : Reading S D Bool} {t : S × Source D}
    (h : Safe p (fun _ t' => I t'.1) t) (hkeep : ∀ error s, I (keep error s)) :
    Safe (keepFailure keep p) (fun _ t' => I t'.1) t := by
  refine safe_bind (safe_caught h) fun r t₁ hr => ?_
  match r with
  | .ok goesOn => exact safe_pure (hr goesOn rfl)
  | .error error => exact safe_update (safe_pure (hkeep error _))

end Reads

/-! ## Visits -/

section Visits

variable {D S : Type} {dec : Decoder D} {archive : Archive} {each : Nat → Reading S D Bool} {I : S → Prop}
  (heach : ∀ i t, I t.1 → Safe (each i) (fun _ t' => I t'.1) t)

include heach in
theorem safe_decodeEntries (files : List Nat) {t : S × Source D} (ht : I t.1) :
    Safe (decodeEntries dec archive each files) (fun _ t' => I t'.1) t := by
  induction files generalizing t with
  | nil => exact safe_pure ht
  | cons i rest ih =>
    refine safe_update (safe_bind (heach i _ ?_) fun goesOn t₁ h₁ => ?_)
    · split
      · exact ht
      · exact ht
    · exact safe_ite (fun _ => ih h₁) fun _ => safe_pure h₁

include heach in
theorem safe_decodeBlock (block : Nat) {t : S × Source D} (ht : I t.1) :
    Safe (decodeBlock dec archive each block) (fun _ t' => I t'.1) t := by
  refine safe_bind (P := fun _ t' => I t'.1) (safe_ofExcept ?_) fun decoder t₁ h₁ =>
    safe_update (safe_decodeEntries heach _ h₁)
  cases dec.new block with
  | ok decoder => exact ht
  | error error => exact trivial

include heach in
theorem safe_announceEntries (block : Nat) (files : List Nat) {t : S × Source D} (ht : I t.1) :
    Safe (announceEntries archive each block files) (fun _ t' => I t'.1) t := by
  induction files generalizing t with
  | nil => exact safe_pure ht
  | cons i rest ih =>
    refine safe_ite (fun _ => safe_pure ht) fun _ => safe_bind (heach i t ht) fun goesOn t₁ h₁ => ?_
    exact safe_ite (fun _ => ih h₁) fun _ => safe_pure h₁

include heach in
theorem safe_announceBlock (block : Nat) {t : S × Source D} (ht : I t.1) :
    Safe (announceBlock archive each block) (fun _ t' => I t'.1) t := by
  refine safe_bind (P := fun _ t' => I t'.1) (safe_ofExcept ?_) fun start t₁ h₁ =>
    safe_ite (fun _ => safe_raise _) fun _ => safe_update (safe_announceEntries heach block _ h₁)
  cases archive.blockFirstFileIndex[block]? with
  | some start => exact ht
  | none => exact trivial

include heach in
theorem safe_visitBlocks (blocks : Option (List Nat)) (includeMetadata : Bool) (indices : List Nat) {t : S × Source D}
    (ht : I t.1) : Safe (visitBlocks dec archive each blocks includeMetadata indices) (fun _ t' => I t'.1) t := by
  induction indices generalizing t with
  | nil => exact safe_pure ht
  | cons block rest ih =>
    refine safe_ite (fun _ => ?_) fun _ => ?_
    · refine safe_bind (P := fun _ t' => I t'.1) ?_ fun _ t₁ h₁ => ih h₁
      exact safe_ite (fun _ => safe_announceBlock heach block ht) fun _ => safe_pure ht
    · refine safe_bind (safe_decodeBlock heach block ht) fun complete t₁ h₁ => ?_
      exact safe_ite (fun _ => safe_pure h₁) fun _ => ih h₁

include heach in
theorem safe_visitUnassigned (files : List Nat) {t : S × Source D} (ht : I t.1) :
    Safe (visitUnassigned archive each files) (fun _ t' => I t'.1) t := by
  induction files generalizing t with
  | nil => exact safe_pure ht
  | cons i rest ih =>
    refine safe_ite (fun _ => safe_bind (heach i t ht) fun goesOn t₁ h₁ => ?_) fun _ => ih ht
    exact safe_ite (fun _ => ih h₁) fun _ => safe_pure h₁

include heach in
/-- What a callback keeps without a panic, a visit keeps without a panic. -/
theorem safe_visit (blocks : Option (List Nat)) (includeMetadata : Bool) {t : S × Source D} (ht : I t.1) :
    Safe (visit dec archive each blocks includeMetadata) (fun _ t' => I t'.1) t := by
  refine safe_bind (safe_visitBlocks heach blocks includeMetadata _ ht) fun goesOn t₁ h₁ => ?_
  refine safe_ite (fun _ => safe_ite (fun _ => safe_update (safe_visitUnassigned heach _ h₁)) fun _ => ?_) fun _ => ?_
  · exact safe_pure h₁
  · exact safe_pure h₁

end Visits

/-! ## The listing -/

section Listing

variable {D W : Type} {dec : Decoder D} {fromNtTime : UInt64 → SystemTime} {archive : Archive}
  {control : W → Except FormatError Unit × W} {passwordSupplied : Bool}

theorem safe_controlCheckpoint (s : Listing W) : Safe (controlCheckpoint control)
    (fun _ s' => s'.metas = s.metas ∧ s'.failure = s.failure) s := by
  refine safe_step ?_
  match (control s.world).1 with
  | .ok () => exact safe_pure ⟨rfl, rfl⟩
  | .error error => exact safe_raise error

theorem sound_blockIsEncrypted (block : Nat) : Sound (blockIsEncrypted archive block) fun _ => True := by
  unfold blockIsEncrypted
  split
  · exact sound_raise _
  · exact sound_ok trivial

theorem sound_entryIsEncrypted (i : Nat) : Sound (entryIsEncrypted archive i) fun _ => True := by
  unfold entryIsEncrypted
  split
  · exact sound_raise _
  · exact sound_blockIsEncrypted _
  · exact sound_ok trivial

theorem sound_entryReadPlansFrom (wanted : Option (List (List UInt8))) (files : List (ArchiveEntry × Nat))
    (seen : List Bool) (plans : List EntryReadPlan) :
    Sound (entryReadPlansFrom archive wanted files seen plans) fun _ => True := by
  induction files generalizing seen plans with
  | nil => exact sound_ok trivial
  | cons file rest ih =>
    unfold entryReadPlansFrom
    split
    · exact sound_raise _
    · exact ih _ _
    · refine sound_bind (sound_blockIsEncrypted _) fun encrypted _ => ?_
      split
      · exact sound_raise _
      · exact ih _ _

/-- The metadata of an entry of the table. -/
def Describes (fromNtTime : UInt64 → SystemTime) (entry : ArchiveEntry) (listed : EntryMeta) : Prop :=
  listed.size = entry.size ∧ listed.modified = entry.lastModifiedDate.map fromNtTime

theorem describes_metaOf (entry : ArchiveEntry) (encrypted : Bool) :
    Describes fromNtTime entry (metaOf fromNtTime entry encrypted) := ⟨rfl, rfl⟩

theorem safe_plainItems (files : List (ArchiveEntry × Nat)) (s : Listing W) :
    Safe (plainItems fromNtTime archive control files) (fun items _ => List.Forall₂
      (fun item (file : ArchiveEntry × Nat) => ∀ listed, item = .ok listed → Describes fromNtTime file.1 listed)
      items files) s := by
  induction files generalizing s with
  | nil => exact safe_pure .nil
  | cons file rest ih =>
    have hitem : Safe (plainItem fromNtTime archive control file.2 file.1)
        (fun listed _ => Describes fromNtTime file.1 listed) s := by
      refine safe_bind (safe_controlCheckpoint s) fun _ s₁ _ => ?_
      refine safe_bind (P := fun _ _ => True) (safe_ofExcept (sound_entryIsEncrypted file.2)) fun encrypted s₂ _ => ?_
      exact safe_pure (describes_metaOf _ _)
    refine safe_bind (safe_caught hitem) fun item s₁ hitem => safe_bind (ih s₁) fun later s₂ hlater => ?_
    exact safe_pure (.cons hitem hlater)

theorem safe_listedMetas (files : List (ArchiveEntry × Nat)) (s : Listing W) :
    Safe (listedMetas fromNtTime archive control files) (fun metas _ => List.Forall₂
      (fun listed (file : ArchiveEntry × Nat) => Describes fromNtTime file.1 listed) metas files) s := by
  induction files generalizing s with
  | nil => exact safe_pure .nil
  | cons file rest ih =>
    have hmeta : Safe (listedMeta fromNtTime archive control file.2 file.1)
        (fun listed _ => Describes fromNtTime file.1 listed) s := by
      refine safe_bind (safe_controlCheckpoint s) fun _ s₁ _ => safe_ite (fun _ => safe_raise _) fun _ => ?_
      refine safe_bind (P := fun _ _ => True) (safe_ofExcept (sound_entryIsEncrypted file.2)) fun encrypted s₂ _ => ?_
      exact safe_pure (describes_metaOf _ _)
    refine safe_bind hmeta fun listed s₁ hlisted => safe_bind (ih s₁) fun later s₂ hlater => ?_
    exact safe_pure (.cons hlisted hlater)

/-- The metadata of the table's entries, one for each. -/
def DescribesAll (fromNtTime : UInt64 → SystemTime) (files : List (ArchiveEntry × Nat)) (metas : List EntryMeta) : Prop :=
  List.Forall₂ (fun listed (file : ArchiveEntry × Nat) => Describes fromNtTime file.1 listed) metas files

theorem DescribesAll.setTarget {files : List (ArchiveEntry × Nat)} {metas : List EntryMeta} {target : List UInt8} {i : Nat}
    (h : DescribesAll fromNtTime files metas) : DescribesAll fromNtTime files (setTarget i target metas) := by
  unfold DescribesAll SevenZ.setTarget at *
  induction h generalizing i with
  | nil =>
    rw [List.modify_nil]
    exact .nil
  | cons hfirst _ ih =>
    cases i with
    | zero => exact .cons hfirst ‹_›
    | succ i => exact .cons hfirst ih

/-- The metadata stay those of the table as long as nothing fails. -/
def Listing.Describes (fromNtTime : UInt64 → SystemTime) (files : List (ArchiveEntry × Nat)) (s : Listing W) : Prop :=
  s.failure = none → DescribesAll fromNtTime files s.metas

theorem safe_checkpoint_describes {files : List (ArchiveEntry × Nat)} (s : Listing W) (hs : s.Describes fromNtTime files) :
    Safe (controlCheckpoint control) (fun _ s' => s'.Describes fromNtTime files) s := by
  refine (safe_controlCheckpoint s).mono fun _ s' ⟨hmetas, hfailure⟩ hnone => ?_
  rw [hmetas]
  exact hs (hfailure ▸ hnone)

theorem safe_listTarget {wanted : List (List UInt8)} {entry : ArchiveEntry} {plan : EntryReadPlan}
    {files : List (ArchiveEntry × Nat)} {t : Listing W × Source D} (ht : t.1.Describes fromNtTime files) :
    Safe (listTarget dec control wanted entry plan) (fun _ t' => t'.1.Describes fromNtTime files) t := by
  refine safe_bind (safe_onState safe_checkpoint_describes ht) fun _ t₁ ⟨_, h₁⟩ => ?_
  refine safe_bind (P := fun _ t' => t'.1.Describes fromNtTime files) ?_ fun _ t₂ h₂ => safe_pure h₂
  refine safe_ite (fun _ => ?_) fun _ => safe_ite (fun _ => ?_) fun _ => safe_pure h₁
  · refine safe_bind (safe_readSymlinkTarget safe_checkpoint_describes h₁) fun target t₂ h₂ => safe_step ?_
    refine safe_ite (fun _ => safe_raise _) fun _ => safe_step (safe_pure fun hnone => ?_)
    exact (h₂ hnone).setTarget
  · exact safe_drainEntry safe_checkpoint_describes h₁

/-- The callback of the listing. -/
theorem safe_listCallback {wanted : List (List UInt8)} {plans : List EntryReadPlan} {files : List (ArchiveEntry × Nat)}
    (i : Nat) (t : Listing W × Source D) (ht : t.1.Describes fromNtTime files) :
    Safe (listCallback dec archive control passwordSupplied wanted plans i)
      (fun _ t' => t'.1.Describes fromNtTime files) t := by
  refine safe_step (safe_ite (fun _ => safe_pure ht) fun _ => ?_)
  split
  · refine safe_keepFailure (safe_listTarget ht) fun error s hnone => ?_
    cases hnone
  · refine safe_update (safe_pure fun hnone => ?_)
    cases hnone

/-- `listed_entries`. -/
theorem safe_listedEntries (t : Listing W × Source D) :
    Safe (listedEntries dec fromNtTime archive control passwordSupplied)
      (fun metas _ => DescribesAll fromNtTime archive.files.zipIdx metas) t := by
  refine safe_bind (safe_onState (I := fun _ => True) (fun s _ => (safe_controlCheckpoint s).mono fun _ _ _ => trivial)
    trivial) fun _ t₁ _ => ?_
  refine safe_bind (P := fun metas _ => DescribesAll fromNtTime archive.files.zipIdx metas)
    (safe_within ((safe_listedMetas archive.files.zipIdx t₁.1).mono fun _ _ h => h)) fun metas t₂ hmetas => ?_
  refine safe_update (safe_ite (fun _ => safe_pure hmetas) fun _ => ?_)
  refine safe_bind (P := fun _ t' => t'.1.metas = metas) (safe_ofExcept ?_) fun plans t₃ h₃ => ?_
  · exact (sound_entryReadPlansFrom _ _ _ _).mono fun _ _ => rfl
  · have hstart : t₃.1.Describes fromNtTime archive.files.zipIdx := by
      intro _
      rw [h₃]
      exact hmetas
    refine safe_bind (safe_caught (safe_visit safe_listCallback _ false hstart)) fun result t₄ h₄ => safe_step ?_
    dsimp only [Prog.bind, id]
    cases hfailure : t₄.1.failure with
    | some error => exact safe_raise _
    | none =>
      cases result with
      | error error => exact safe_raise _
      | ok _ => exact safe_pure (h₄ () rfl hfailure)

/-- The listing ends without a panic, and each item of it is an error or describes the entry of the table at its place. -/
theorem safe_entries (t : Listing W × Source D) :
    Safe (entries dec fromNtTime archive control passwordSupplied) (fun items _ => (∃ error, items = [.error error]) ∨
      List.Forall₂ (fun item (file : ArchiveEntry × Nat) => ∀ listed, item = .ok listed →
        Describes fromNtTime file.1 listed) items archive.files.zipIdx) t := by
  refine safe_ite (fun _ => ?_) fun _ => ?_
  · exact safe_within ((safe_plainItems archive.files.zipIdx t.1).mono fun _ _ h => .inr h)
  · refine safe_bind (safe_caught (safe_listedEntries t)) fun r t₁ hr => ?_
    match r with
    | .error error => exact safe_pure (.inl ⟨error, rfl⟩)
    | .ok metas =>
      refine safe_pure (.inr ?_)
      rw [List.forall₂_map_left_iff]
      refine (hr metas rfl).imp fun listed file h listed' heq => ?_
      cases heq
      exact h

end Listing

end Squallz.SevenZ
