/-
A volume set that is found in a directory and opened there: the parts have the bytes that the set counts on, and the reader
is a reader of the volumes one behind the other.
-/
import Squallz.Volumes.Concatenation

namespace Squallz.Volumes

open Squallz.Api Squallz.Bytes Squallz.Destination Squallz.Erasure

/-! ## What is found has the files it counts on -/

theorem openFile_eq_ok {nodes : Nodes} {path : Path} {file : List UInt8} :
    nodes.openFile path = .ok file ↔ nodes path = some (.file file) := by
  unfold Nodes.openFile
  constructor
  · intro h
    split at h
    · rename_i content hcontent
      cases h
      exact hcontent
    · cases h
    · cases h
  · intro h
    rw [h]

/-- A parity file is as long as its header tells. -/
theorem readSqzrHeader_eq_ok {nodes : Nodes} {base : Path} {recoveryIndex algorithm total : Nat} {uuid : Uuid}
    {header : SqzrHeader} (h : readSqzrHeader nodes base recoveryIndex algorithm total uuid = .ok (some header)) :
    ∃ file, nodes (recoveryVolumePath base recoveryIndex) = some (.file file) ∧
      file.length = sqzrHeaderLen + header.parityLen := by
  unfold readSqzrHeader at h
  dsimp only at h
  split at h
  · rename_i file hfile
    refine ⟨file, hfile, ?_⟩
    split at h
    · cases h
    · split at h
      · cases h
      · split at h
        · cases h
        · split at h
          · cases h
          · split at h
            · cases h
            · split at h
              · cases h
              · rename_i hlen
                rw [not_not] at hlen
                cases h
                exact hlen
  · cases h

theorem physicalLenFor_le {header : SqzrHeader} {index total len : Nat} (h : header.physicalLenFor index total = .ok len) :
    sqzvHeaderLen ≤ len ∧ len ≤ header.parityLen := by
  unfold SqzrHeader.physicalLenFor at h
  dsimp only at h
  generalize (if index = total then header.tailPhysicalLen else header.physicalVolumeSize) = wanted at h
  split at h
  · cases h
  · rename_i hlen
    cases h
    omega

/-- A file as long as is said. -/
def HasFile (nodes : Nodes) (path : Path) (physicalLen : Nat) : Prop :=
  ∃ file, nodes path = some (.file file) ∧ file.length = physicalLen

/-- The files that a reconstruction counts on. -/
def VolumePart.Counts (nodes : Nodes) (part : VolumePart) : Prop :=
  match part.source with
  | .file | .missingZero => True
  | .reconstructed source peers =>
    (match source with
      | .singleXor recoveryPath => ∃ n, HasFile nodes recoveryPath n ∧ sqzrHeaderLen + (part.logicalLen + part.dataOffset) ≤ n
      | .dualWeighted xorPath weightedPath _ _ => ∀ path ∈ [xorPath, weightedPath],
        ∃ n, HasFile nodes path n ∧ sqzrHeaderLen + (part.logicalLen + part.dataOffset) ≤ n
      | .tripleWeighted xorPath weightedPath quadraticPath _ _ => ∀ path ∈ [xorPath, weightedPath, quadraticPath],
        ∃ n, HasFile nodes path n ∧ sqzrHeaderLen + (part.logicalLen + part.dataOffset) ≤ n) ∧
    ∀ peer ∈ peers, HasFile nodes peer.path peer.physicalLen

theorem sqzvRecoveryVolumePart_counts {nodes : Nodes} {base : Path} {index total : Nat} {uuid : Uuid} {part : VolumePart}
    (h : sqzvRecoveryVolumePart nodes base index total uuid = .ok (some part)) :
    part.source = .file ∧ HasFile nodes part.path (part.logicalLen + part.dataOffset) := by
  unfold sqzvRecoveryVolumePart at h
  dsimp only at h
  split at h
  · rename_i file hfile
    obtain ⟨header, hheader, h⟩ := bind_eq_ok.1 h
    cases header with
    | none => cases h
    | some header =>
      obtain ⟨_, -, h⟩ := bind_eq_ok.1 h
      split at h
      · cases h
      · split at h
        · cases h
        · rename_i hlen
          cases h
          refine ⟨rfl, file, hfile, ?_⟩
          dsimp only
          omega
  · cases h

theorem reconstructionPeer_counts {nodes : Nodes} {base : Path} {total peerIndex : Nat} {tailMirror : Option VolumePart}
    (hmirror : ∀ part, tailMirror = some part → HasFile nodes part.path (part.logicalLen + part.dataOffset))
    {peer : PeerVolume} (h : reconstructionPeer nodes base total tailMirror peerIndex = .ok peer) :
    HasFile nodes peer.path peer.physicalLen := by
  unfold reconstructionPeer at h
  dsimp only at h
  split at h
  · rename_i file hfile
    cases h
    exact ⟨file, hfile, rfl⟩
  · split at h
    · rename_i part hpart
      cases h
      refine hmirror part ?_
      split at hpart
      · exact hpart
      · cases hpart
    · cases h

theorem reconstructionPeers_counts {nodes : Nodes} {base : Path} {total : Nat} {missing : List Nat}
    {tailMirror : Option VolumePart} (hmirror : ∀ part, tailMirror = some part →
      HasFile nodes part.path (part.logicalLen + part.dataOffset)) {indexes : List Nat} {peers : List PeerVolume}
    (h : reconstructionPeers nodes base total missing tailMirror indexes = .ok peers) :
    ∀ peer ∈ peers, HasFile nodes peer.path peer.physicalLen := by
  induction indexes generalizing peers with
  | nil =>
    cases h
    exact fun peer hpeer => absurd hpeer List.not_mem_nil
  | cons peerIndex indexes ih =>
    rw [reconstructionPeers] at h
    split at h
    · exact ih h
    · obtain ⟨peer, hpeer, h⟩ := bind_eq_ok.1 h
      obtain ⟨rest, hrest, h⟩ := bind_eq_ok.1 h
      cases h
      intro peer' hin
      cases hin with
      | head => exact reconstructionPeer_counts hmirror hpeer
      | tail _ hin => exact ih hrest peer' hin

/-- The parity files that a reconstruction reads, with the length that their headers were read with. -/
theorem reconstructionSource_counts {nodes : Nodes} {base : Path} {index total physicalLen : Nat} {missing : List Nat}
    {dualParity tripleParity : Option SqzrHeader} {source : ReconstructedSource} {peers : List PeerVolume}
    {n : Nat} (hsingle : HasFile nodes (recoveryParityVolumePath base) n) (hn : sqzrHeaderLen + physicalLen ≤ n)
    (hdual : ∀ header, dualParity = some header →
      HasFile nodes (recoveryWeightedParityVolumePath base) (sqzrHeaderLen + header.parityLen))
    (htriple : ∀ header, tripleParity = some header →
      HasFile nodes (recoveryQuadraticParityVolumePath base) (sqzrHeaderLen + header.parityLen))
    (hpeers : ∀ peer ∈ peers, HasFile nodes peer.path peer.physicalLen) (hphysical : sqzvHeaderLen ≤ physicalLen)
    (h : reconstructionSource base index total missing physicalLen dualParity tripleParity = .ok (some source)) :
    (VolumePart.mk (volumePath base index) sqzvHeaderLen (physicalLen - sqzvHeaderLen) (.reconstructed source peers)).Counts
      nodes := by
  have hlen : physicalLen - sqzvHeaderLen + sqzvHeaderLen = physicalLen := Nat.sub_add_cancel hphysical
  unfold reconstructionSource at h
  split at h
  · cases h
    exact ⟨⟨n, hsingle, by dsimp only; rwa [hlen]⟩, hpeers⟩
  · split at h
    · cases h
    · rename_i dual
      split at h
      · cases h
      · obtain ⟨_, -, h⟩ := bind_eq_ok.1 h
        obtain ⟨_, -, h⟩ := bind_eq_ok.1 h
        obtain ⟨dualLen, hdualLen, h⟩ := bind_eq_ok.1 h
        split at h
        · cases h
        · rename_i hsame
          rw [not_not] at hsame
          cases h
          refine ⟨?_, hpeers⟩
          dsimp only
          rw [hlen]
          have hle := (physicalLenFor_le hdualLen).2
          rw [hsame] at hle
          intro path hpath
          simp only [List.mem_cons, List.not_mem_nil, or_false] at hpath
          obtain rfl | rfl := hpath
          · exact ⟨n, hsingle, hn⟩
          · exact ⟨_, hdual dual rfl, Nat.add_le_add_left hle _⟩
  · split at h
    · rename_i dual triple
      split at h
      · obtain ⟨_, -, h⟩ := bind_eq_ok.1 h
        obtain ⟨_, -, h⟩ := bind_eq_ok.1 h
        obtain ⟨_, -, h⟩ := bind_eq_ok.1 h
        obtain ⟨dualLen, hdualLen, h⟩ := bind_eq_ok.1 h
        split at h
        · cases h
        · rename_i hsame
          rw [not_not] at hsame
          obtain ⟨tripleLen, htripleLen, h⟩ := bind_eq_ok.1 h
          split at h
          · cases h
          · rename_i hsame'
            rw [not_not] at hsame'
            cases h
            refine ⟨?_, hpeers⟩
            dsimp only
            rw [hlen]
            have hle := (physicalLenFor_le hdualLen).2
            have hle' := (physicalLenFor_le htripleLen).2
            rw [hsame] at hle
            rw [hsame'] at hle'
            intro path hpath
            simp only [List.mem_cons, List.not_mem_nil, or_false] at hpath
            obtain rfl | rfl | rfl := hpath
            · exact ⟨n, hsingle, hn⟩
            · exact ⟨_, hdual dual rfl, Nat.add_le_add_left hle _⟩
            · exact ⟨_, htriple triple rfl, Nat.add_le_add_left hle' _⟩
      · cases h
    · cases h
  · cases h

/-- The sidecars of a set have their files. -/
structure SqzvSet.Counts (nodes : Nodes) (base : Path) (set : SqzvSet) : Prop where
  mirror : ∀ part, set.tailMirror = some part → part.source = .file ∧ HasFile nodes part.path (part.logicalLen + part.dataOffset)
  single : ∀ header, set.singleParity = some header →
    HasFile nodes (recoveryParityVolumePath base) (sqzrHeaderLen + header.parityLen)
  dual : ∀ header, set.dualParity = some header →
    HasFile nodes (recoveryWeightedParityVolumePath base) (sqzrHeaderLen + header.parityLen)
  triple : ∀ header, set.tripleParity = some header →
    HasFile nodes (recoveryQuadraticParityVolumePath base) (sqzrHeaderLen + header.parityLen)

theorem parity_counts {nodes : Nodes} {base : Path} {recoveryIndex algorithm total : Nat} {uuid : Uuid} {needed : Prop}
    [Decidable needed] {parity : Option SqzrHeader}
    (h : (if needed then readSqzrHeader nodes base recoveryIndex algorithm total uuid else .ok none :
      Res (Option SqzrHeader)) = .ok parity) (header : SqzrHeader) (hheader : parity = some header) :
    HasFile nodes (recoveryVolumePath base recoveryIndex) (sqzrHeaderLen + header.parityLen) := by
  subst hheader
  split at h
  · exact readSqzrHeader_eq_ok h
  · cases h

theorem sqzvSet_counts {nodes : Nodes} {base : Path} {present : List (Nat × Path)} {scan : HeaderScan} {total : Nat}
    {uuid : Uuid} {set : SqzvSet} (h : sqzvSet nodes base present scan total uuid = .ok set) : set.Counts nodes base := by
  unfold sqzvSet at h
  obtain ⟨tailMirror, hmirror, h⟩ := bind_eq_ok.1 h
  obtain ⟨single, hsingle, h⟩ := bind_eq_ok.1 h
  obtain ⟨dual, hdual, h⟩ := bind_eq_ok.1 h
  obtain ⟨triple, htriple, h⟩ := bind_eq_ok.1 h
  cases h
  refine ⟨?_, parity_counts hsingle, parity_counts hdual, parity_counts htriple⟩
  rintro part rfl
  split at hmirror
  · exact sqzvRecoveryVolumePart_counts hmirror
  · cases hmirror

theorem reconstructSqzvPart_counts {nodes : Nodes} {base : Path} {index : Nat} {set : SqzvSet} {part : VolumePart}
    (hset : set.Counts nodes base)
    (h : reconstructSqzvPart nodes base index set.total set.reconstructableMissing set.singleParity set.dualParity
      set.tripleParity set.tailMirror = .ok (some part)) : part.Counts nodes := by
  unfold reconstructSqzvPart at h
  split at h
  · cases h
  · split at h
    · cases h
    · rename_i single hsingle
      obtain ⟨physicalLen, hphysical, h⟩ := bind_eq_ok.1 h
      obtain ⟨source, hsource, h⟩ := bind_eq_ok.1 h
      cases source with
      | none => cases h
      | some source =>
        obtain ⟨peers, hpeers, h⟩ := bind_eq_ok.1 h
        cases h
        have hlen := physicalLenFor_le hphysical
        exact reconstructionSource_counts (hset.single single hsingle) (Nat.add_le_add_left hlen.2 _) hset.dual hset.triple
          (reconstructionPeers_counts (fun part hpart => (hset.mirror part hpart).2) hpeers) hlen.1 hsource

theorem sqzvPart_counts {nodes : Nodes} {base : Path} {index : Nat} {set : SqzvSet} {part : VolumePart}
    (hset : set.Counts nodes base) (h : sqzvPart nodes base set index = .ok part) : part.Counts nodes := by
  unfold sqzvPart at h
  dsimp only at h
  split at h
  · obtain ⟨_, -, h⟩ := bind_eq_ok.1 h
    obtain ⟨_, -, h⟩ := bind_eq_ok.1 h
    split at h
    · cases h
    · cases h
      trivial
  · split at h
    · rename_i hmirror
      cases h
      split at hmirror
      · rw [VolumePart.Counts, (hset.mirror part hmirror).1]
        trivial
      · cases hmirror
    · obtain ⟨reconstructed, hreconstructed, h⟩ := bind_eq_ok.1 h
      cases reconstructed with
      | some part' =>
        cases h
        exact reconstructSqzvPart_counts hset hreconstructed
      | none =>
        dsimp only at h
        split at h
        · cases h
        · split at h
          · cases h
          · cases h
            trivial

theorem collectSqzvVolumeSet_counts {nodes : Nodes} {base : Path} {present : List (Nat × Path)} {set : VolumeSet}
    (h : collectSqzvVolumeSet nodes base present = .ok (some set)) : ∀ part ∈ set, part.Counts nodes := by
  unfold collectSqzvVolumeSet at h
  obtain ⟨scan, -, h⟩ := bind_eq_ok.1 h
  split at h
  · cases h
  · split at h
    · cases h
    · split at h
      · cases h
      · split at h
        · cases h
        · split at h
          · cases h
          · obtain ⟨known, hknown, h⟩ := bind_eq_ok.1 h
            obtain ⟨parts, hparts, h⟩ := bind_eq_ok.1 h
            cases h
            intro part hpart
            obtain ⟨index, -, hindex⟩ := mem_of_mapM_ok hparts hpart
            exact sqzvPart_counts (sqzvSet_counts hknown) hindex

theorem plainParts_source {nodes : Nodes} {base : Path} {expectedIndex : Nat} {present : List (Nat × Path)}
    {set : VolumeSet × Nat} (h : plainParts nodes base expectedIndex present = .ok set) :
    ∀ part ∈ set.1, part.source = .file := by
  induction present generalizing expectedIndex set with
  | nil =>
    cases h
    exact fun part hpart => absurd hpart List.not_mem_nil
  | cons volume present ih =>
    obtain ⟨index, path⟩ := volume
    rw [plainParts] at h
    split at h
    · cases h
    · split at h
      · obtain ⟨rest, hrest, h⟩ := bind_eq_ok.1 h
        cases h
        intro part hpart
        cases hpart with
        | head => rfl
        | tail _ hpart => exact ih hrest part hpart
      · cases h

theorem collectPresent_counts {nodes : Nodes} {base : Path} {selectedIndex : Nat} {present : List (Nat × Path)}
    {set : VolumeSet} (h : collectPresent nodes base selectedIndex present = .ok set) : ∀ part ∈ set, part.Counts nodes := by
  have plain : ∀ {found : VolumeSet × Nat}, plainParts nodes base 1 present = .ok found →
      ∀ part ∈ found.1, part.Counts nodes := by
    intro found hfound part hpart
    rw [VolumePart.Counts, plainParts_source hfound part hpart]
    trivial
  unfold collectPresent at h
  dsimp only at h
  split at h
  · cases h
  · cases hsqz : isSqzBase base with
    | false =>
      rw [hsqz] at h
      obtain ⟨found, hfound, h⟩ := bind_eq_ok.1 h
      cases hfound
      obtain ⟨found, hfound, h⟩ := bind_eq_ok.1 h
      split at h
      · cases h
      · cases h
        exact plain hfound
    | true =>
      rw [hsqz] at h
      obtain ⟨found, hfound, h⟩ := bind_eq_ok.1 h
      cases found with
      | some found =>
        cases h
        exact collectSqzvVolumeSet_counts hfound
      | none =>
        obtain ⟨found, hfound, h⟩ := bind_eq_ok.1 h
        split at h
        · cases h
        · cases h
          exact plain hfound

theorem collectVolumeSet_counts {disk : Disk} {volume : Path} {set : VolumeSet}
    (h : collectVolumeSet disk volume = .ok set) : ∀ part ∈ set, part.Counts disk.nodes := by
  unfold collectVolumeSet at h
  split at h
  · cases h
  · exact collectPresent_counts h

/-! ## Opening -/

theorem new_fits {nodes : Nodes} {source : ReconstructedSource} {peers : List PeerVolume}
    {reader : ReconstructedVolumeReader} {path : Path} {dataOffset logicalLen : Nat}
    (hcounts : (VolumePart.mk path dataOffset logicalLen (.reconstructed source peers)).Counts nodes)
    (h : ReconstructedVolumeReader.new nodes source peers = .ok reader) : reader.Fits (logicalLen + dataOffset) := by
  obtain ⟨hsource, hpeers⟩ := hcounts
  have long : ∀ {path : Path} {file : List UInt8}, (∃ n, HasFile nodes path n ∧
      sqzrHeaderLen + (logicalLen + dataOffset) ≤ n) → nodes.openFile path = .ok file →
      sqzrHeaderLen + (logicalLen + dataOffset) ≤ file.length := by
    rintro path file ⟨n, ⟨file', hfile', rfl⟩, hle⟩ hfile
    cases hfile'.symm.trans (openFile_eq_ok.1 hfile)
    exact hle
  unfold ReconstructedVolumeReader.new at h
  obtain ⟨opened, hopened, h⟩ := bind_eq_ok.1 h
  obtain ⟨readers, hreaders, h⟩ := bind_eq_ok.1 h
  cases h
  constructor
  · unfold ReconstructedVolumeReader.openSource at hopened
    cases source with
    | singleXor recoveryPath =>
      obtain ⟨recovery, hrecovery, hopened⟩ := bind_eq_ok.1 hopened
      cases hopened
      exact long hsource hrecovery
    | dualWeighted xorPath weightedPath targetCoeff otherCoeff =>
      dsimp only at hopened
      split at hopened
      · cases hopened
      · obtain ⟨xor, hxor, hopened⟩ := bind_eq_ok.1 hopened
        obtain ⟨weighted, hweighted, hopened⟩ := bind_eq_ok.1 hopened
        cases hopened
        exact ⟨long (hsource _ (by simp)) hxor, long (hsource _ (by simp)) hweighted⟩
    | tripleWeighted xorPath weightedPath quadraticPath targetCoeff otherCoeffs =>
      dsimp only at hopened
      split at hopened
      · cases hopened
      · obtain ⟨xor, hxor, hopened⟩ := bind_eq_ok.1 hopened
        obtain ⟨weighted, hweighted, hopened⟩ := bind_eq_ok.1 hopened
        obtain ⟨quadratic, hquadratic, hopened⟩ := bind_eq_ok.1 hopened
        cases hopened
        exact ⟨long (hsource _ (by simp)) hxor, long (hsource _ (by simp)) hweighted, long (hsource _ (by simp)) hquadratic⟩
  · intro peerReader hpeerReader
    obtain ⟨peer, hpeer, hmade⟩ := mem_of_mapM_ok hreaders hpeerReader
    obtain ⟨coeffs, -, hmade⟩ := bind_eq_ok.1 hmade
    obtain ⟨file, hfile, hmade⟩ := bind_eq_ok.1 hmade
    cases hmade
    obtain ⟨file', hfile', hlen⟩ := hpeers peer hpeer
    cases hfile'.symm.trans (openFile_eq_ok.1 hfile)
    exact Nat.le_of_eq hlen.symm

namespace MultiVolumeReader

/-- The parts of a set that is opened are segments of its reader, and they have the bytes it counts on. -/
theorem openParts_eq_ok {nodes : Nodes} {count index : Nat} {uuid : Option Uuid} {reader opened : MultiVolumeReader}
    {parts : List VolumePart} (hcounts : ∀ part ∈ parts, part.Counts nodes)
    (h : openParts nodes count index uuid reader parts = .ok opened) :
    ∃ segments : List Segment, opened = reader.pushAll segments ∧ ∀ segment ∈ segments, segment.Backed := by
  induction parts generalizing index uuid reader with
  | nil =>
    cases h
    exact ⟨[], rfl, fun segment hsegment => absurd hsegment List.not_mem_nil⟩
  | cons part parts ih =>
    have cons : ∀ (segment : Segment) {index : Nat} {uuid : Option Uuid}, segment.Backed →
        openParts nodes count index uuid (reader.push segment.part segment.dataOffset segment.logicalLen) parts = .ok opened →
        ∃ segments : List Segment, opened = reader.pushAll segments ∧ ∀ segment ∈ segments, segment.Backed := by
      intro segment index uuid hbacked hrest
      obtain ⟨segments, rfl, hall⟩ := ih (fun part hpart => hcounts part (List.mem_cons_of_mem _ hpart)) hrest
      refine ⟨segment :: segments, rfl, fun segment' hsegment' => ?_⟩
      cases hsegment' with
      | head => exact hbacked
      | tail _ hsegment' => exact hall segment' hsegment'
    have hpart := hcounts part List.mem_cons_self
    rw [openParts] at h
    obtain ⟨result, hresult, h⟩ := bind_eq_ok.1 h
    obtain ⟨path, partOffset, partLen, source⟩ := part
    unfold openPart at hresult
    cases source with
    | missingZero =>
      cases hresult
      exact cons ⟨.missingZero, partOffset, partLen⟩ trivial h
    | file =>
      obtain ⟨file, -, hresult⟩ := bind_eq_ok.1 hresult
      obtain ⟨header, -, hresult⟩ := bind_eq_ok.1 hresult
      cases hresult
      obtain ⟨⟨dataOffset, uuid'⟩, -, h⟩ := bind_eq_ok.1 h
      dsimp only at h
      split at h
      · cases h
      · rename_i hlen
        refine cons ⟨.file file, dataOffset, file.length - dataOffset⟩ ?_ h
        show dataOffset + (file.length - dataOffset) ≤ file.length
        omega
    | reconstructed source peers =>
      obtain ⟨reconstructed, hnew, hresult⟩ := bind_eq_ok.1 hresult
      obtain ⟨headerBytes, -, hresult⟩ := bind_eq_ok.1 hresult
      obtain ⟨header, -, hresult⟩ := bind_eq_ok.1 hresult
      cases hresult
      obtain ⟨⟨dataOffset, uuid'⟩, -, h⟩ := bind_eq_ok.1 h
      dsimp only at h
      split at h
      · cases h
      · rename_i hlen
        refine cons ⟨.reconstructed reconstructed, dataOffset, partLen + partOffset - dataOffset⟩ ?_ h
        show reconstructed.Fits (dataOffset + (partLen + partOffset - dataOffset))
        rw [show dataOffset + (partLen + partOffset - dataOffset) = partLen + partOffset by omega]
        exact new_fits hpart hnew

theorem openSet_eq_ok {disk : Disk} {volume : Path} {set : VolumeSet} {reader : MultiVolumeReader}
    (hset : collectVolumeSet disk volume = .ok set) (h : openSet disk.nodes set = .ok reader) :
    ∃ segments : List Segment, reader = ofSegments segments ∧ ∀ segment ∈ segments, segment.Backed :=
  openParts_eq_ok (collectVolumeSet_counts hset) h

/-- A directory with the volumes of one archive, in order. -/
def zipDisk (contents : List (List UInt8)) : Disk where
  readDir := fun _ => some (contents.mapIdx fun i _ => some (osStr ("x.zip".toList ++ '.' :: padded 3 (i + 1))))
  nodes := fun path =>
    ((contents.mapIdx fun i content => ([osStr ("x.zip".toList ++ '.' :: padded 3 (i + 1))], content)).lookup path).map .file

/-- With a search that stops at the last place of a value, empty volumes do not matter. -/
theorem answers_volumes_of_last {disk : Disk} {volume : Path} {set : VolumeSet} {reader : MultiVolumeReader}
    {search : Search} (hset : collectVolumeSet disk volume = .ok set) (hopen : openSet disk.nodes set = .ok reader)
    (hsum : reader.logicalLens.sum < 2 ^ 64) (hsearch : Finds search)
    (hlast : ∀ (l : List Nat) (x i j : Nat), search l x = .ok i → i < j → l[j]? ≠ some x) (calls : List (Call Nat)) :
    reader.flat.Answers u64Max 0 calls ((stream search).answers reader calls) := by
  obtain ⟨segments, rfl, hbacked⟩ := openSet_eq_ok hset hopen
  rw [ofSegments_logicalLens] at hsum
  exact answers_flat hbacked hsum hsearch (fun _ _ hpos hfound => full_of_last hsearch hlast hpos hfound) calls

end MultiVolumeReader

end Squallz.Volumes
