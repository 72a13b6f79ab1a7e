/-
The working names of a split output: the name of an output twice, around a purpose and the numbers of the writer, and how
the output is read back from them.
-/
import Squallz.Destination.Candidates
import Squallz.Text.Patterns

namespace Squallz.Volumes

open Squallz.Api Squallz.Destination Squallz.Text

/-! ## Names -/

/-- The numbers of a writer, separated by dashes. -/
def writerIdentity (numbers : List Nat) : List Char := List.intercalate ['-'] (numbers.map decimal)

/-- `.{name}{marker}{numbers}.tmp.{name}`. -/
def workingName (marker : List Char) (numbers : List Nat) (name : List Char) : List Char :=
  '.' :: (name ++ (marker ++ (writerIdentity numbers ++ (".tmp.".toList ++ name))))

def splitStageMarker : List Char := ".split-stage-".toList

/-- `.{purpose}-`. -/
def purposeMarker (purpose : String) : List Char := '.' :: (purpose.toList ++ ['-'])

def splitStagingName (name : List Char) (pid stagingId attempt : Nat) : List Char :=
  workingName splitStageMarker [pid, stagingId, attempt] name

def siblingTempName (name : List Char) (purpose : String) (pid attempt : Nat) : List Char :=
  workingName (purposeMarker purpose) [pid, attempt] name

/-- The candidates of `reserve_split_staging_file`, until one is not taken. -/
def reserveSplitStagingFile (taken : List UInt8 → Bool) (name : List Char) (pid stagingId : Nat) : Res (List Char) :=
  match (List.range 1000).find? fun attempt => !taken (osStr (splitStagingName name pid stagingId attempt)) with
  | some attempt => .ok (splitStagingName name pid stagingId attempt)
  | none =>
    let finalPath := String.ofList name
    unsupported s!"could not reserve split staging output next to {finalPath}"

/-- The candidates of `sibling_temp_path`, until one is not taken. -/
def siblingTempPath (taken : List UInt8 → Bool) (name : List Char) (purpose : String) (pid : Nat) : Res (List Char) :=
  match (List.range 1000).find? fun attempt => !taken (osStr (siblingTempName name purpose pid attempt)) with
  | some attempt => .ok (siblingTempName name purpose pid attempt)
  | none =>
    let dest := String.ofList name
    unsupported s!"could not allocate a temporary path next to {dest}"

/-! ## Reading them back -/

/-- `count` numbers separated by dashes. -/
def validIdentity (count : Nat) (identity : List Char) : Bool :=
  let parts := identity.splitOn '-'
  parts.length = count && parts.all fun part => part ≠ [] && part.all Char.isDigit

/-- What a working name with a marker and a number of numbers is the name of. -/
def workingOutputName (marker : List Char) (count : Nat) (name : List Char) : Option (List Char) :=
  match stripFront ['.'] name with
  | none => none
  | some name =>
    match rsplitOncePattern marker name with
    | none => none
    | some (outputName, suffix) =>
      match splitOncePattern ".tmp.".toList suffix with
      | none => none
      | some (identity, echoedOutputName) =>
        if validIdentity count identity ∧ outputName = echoedOutputName then some outputName else none

def splitStagingOutputName (name : List Char) : Option (List Char) := workingOutputName splitStageMarker 3 name

def splitTransactionOutputName (name : List Char) (purpose : String) : Option (List Char) :=
  workingOutputName (purposeMarker purpose) 2 name

/-! ## What is read back -/

section Reading

theorem not_mem_decimal {c : Char} (hc : c.isDigit = false) (n : Nat) : c ∉ decimal n := by
  intro h
  rw [isDigit_of_mem_decimal h] at hc
  cases hc

theorem not_mem_writerIdentity {c : Char} (hc : c.isDigit = false) (hdash : c ≠ '-') (numbers : List Nat) :
    c ∉ writerIdentity numbers := by
  unfold writerIdentity
  induction numbers with
  | nil => exact List.not_mem_nil
  | cons n numbers ih =>
    cases numbers with
    | nil =>
      rw [List.map_cons, List.map_nil, List.intercalate_singleton]
      exact not_mem_decimal hc n
    | cons n' numbers =>
      rw [List.map_cons, List.map_cons, List.intercalate_cons_cons, List.mem_append, List.mem_append, List.mem_singleton]
      exact not_or.2 ⟨not_or.2 ⟨not_mem_decimal hc n, hdash⟩, ih⟩

theorem validIdentity_writerIdentity {numbers : List Nat} (hne : numbers ≠ []) :
    validIdentity numbers.length (writerIdentity numbers) = true := by
  have hsplit : (writerIdentity numbers).splitOn '-' = numbers.map decimal := by
    refine List.splitOn_intercalate '-' (fun part hpart => ?_) (by simpa using hne)
    obtain ⟨n, -, rfl⟩ := List.mem_map.1 hpart
    exact not_mem_decimal (by decide) n
  unfold validIdentity
  dsimp only
  rw [hsplit, List.length_map, decide_eq_true rfl, Bool.true_and, List.all_eq_true]
  intro part hpart
  obtain ⟨n, -, rfl⟩ := List.mem_map.1 hpart
  rw [Bool.and_eq_true, decide_eq_true_iff, List.all_eq_true]
  exact ⟨decimal_ne_nil n, fun c hc => isDigit_of_mem_decimal hc⟩

/-- A marker begins with a dot and an `s`, and has no other dot and no digit. -/
structure Marker (marker : List Char) : Prop where
  begins : ∃ rest, marker = '.' :: 's' :: rest ∧ '.' ∉ rest
  digitless : ∀ c ∈ marker, c.isDigit = false

theorem marker_splitStage : Marker splitStageMarker := by
  have hmarker : splitStageMarker = ['.', 's', 'p', 'l', 'i', 't', '-', 's', 't', 'a', 'g', 'e', '-'] := rfl
  rw [hmarker]
  exact ⟨⟨_, rfl, by decide⟩, by simp [Char.isDigit]⟩

variable {marker : List Char} {numbers : List Nat}

/-- Where a marker occurs behind the one of a working name. -/
theorem Marker.infix_behind (h : Marker marker) (numbers : List Nat) (name : List Char) :
    marker <:+: marker.tail ++ (writerIdentity numbers ++ (".tmp.".toList ++ name)) ↔ marker <:+: '.' :: name := by
  obtain ⟨rest, rfl, hrest⟩ := h.begins
  have hdot : '.' ∉ 's' :: rest ++ writerIdentity numbers := by
    rw [List.mem_append, List.mem_cons]
    exact not_or.2 ⟨not_or.2 ⟨by decide, hrest⟩, not_mem_writerIdentity (by decide) (by decide) numbers⟩
  rw [List.tail_cons, ← List.append_assoc, infix_append_of_not_mem hdot]
  have htmp : ".tmp.".toList ++ name = '.' :: ("tmp".toList ++ '.' :: name) := rfl
  rw [htmp, List.infix_cons_iff, infix_append_of_not_mem (by decide)]
  refine ⟨fun hor => hor.resolve_left fun hpat => ?_, .inr⟩
  obtain ⟨-, htail⟩ := List.cons_prefix_cons.1 hpat
  exact absurd (List.cons_prefix_cons.1 htail).1 (by decide)

/-- A working name is read back exactly if its marker does not occur in the name, with a dot in front of it. -/
theorem workingOutputName_workingName (h : Marker marker) (hnumbers : numbers ≠ []) (name : List Char) :
    workingOutputName marker numbers.length (workingName marker numbers name) = some name ↔ ¬ marker <:+: '.' :: name := by
  have hbehind := h.infix_behind numbers name
  obtain ⟨rest, rfl, hrest⟩ := h.begins
  rw [List.tail_cons] at hbehind
  have hstrip : stripFront ['.'] (workingName ('.' :: 's' :: rest) numbers name) =
      some (name ++ ('.' :: 's' :: rest ++ (writerIdentity numbers ++ (".tmp.".toList ++ name)))) := by
    rw [stripFront, workingName, if_pos (List.cons_prefix_cons.2 ⟨rfl, List.nil_prefix⟩)]
    rfl
  constructor
  · intro hread hmarker
    unfold workingOutputName at hread
    rw [hstrip] at hread
    dsimp only at hread
    cases hcut : rsplitOncePattern ('.' :: 's' :: rest)
        (name ++ ('.' :: 's' :: rest ++ (writerIdentity numbers ++ (".tmp.".toList ++ name)))) with
    | none =>
      rw [hcut] at hread
      cases hread
    | some parts =>
      obtain ⟨outputName, suffix⟩ := parts
      rw [hcut] at hread
      dsimp only at hread
      split at hread
      · cases hread
      · split at hread
        · cases hread
          obtain ⟨heq, hlast⟩ := rsplitOncePattern_eq_some hcut
          rw [List.append_cancel_left_eq, List.append_cancel_left_eq] at heq
          exact hlast (heq ▸ hbehind.2 hmarker)
        · cases hread
  · intro hmarker
    have hcut := rsplitOncePattern_append name (mt hbehind.1 hmarker)
    have hsplit : splitOncePattern ".tmp.".toList (writerIdentity numbers ++ (".tmp.".toList ++ name)) =
        some (writerIdentity numbers, name) :=
      splitOncePattern_append (not_mem_writerIdentity (by decide) (by decide) numbers) name
    unfold workingOutputName
    rw [hstrip]
    dsimp only
    rw [hcut]
    dsimp only
    rw [hsplit]
    dsimp only
    rw [if_pos ⟨validIdentity_writerIdentity hnumbers, rfl⟩]

/-- What a valid identity is made of. -/
theorem mem_of_validIdentity {count : Nat} {identity : List Char} (h : validIdentity count identity = true) {c : Char}
    (hc : c ∈ identity) : c.isDigit = true ∨ c = '-' := by
  unfold validIdentity at h
  dsimp only at h
  rw [Bool.and_eq_true, List.all_eq_true] at h
  have mem : ∀ {parts : List (List Char)}, (∀ part ∈ parts, part.all Char.isDigit = true) →
      c ∈ List.intercalate ['-'] parts → c.isDigit = true ∨ c = '-' := by
    intro parts hparts hmem
    induction parts with
    | nil => cases hmem
    | cons part parts ih =>
      have hpart := List.all_eq_true.1 (hparts part List.mem_cons_self)
      cases parts with
      | nil =>
        rw [List.intercalate_singleton] at hmem
        exact .inl (hpart c hmem)
      | cons part' parts =>
        rw [List.intercalate_cons_cons, List.mem_append, List.mem_append, List.mem_singleton] at hmem
        rcases hmem with (hmem | hmem) | hmem
        · exact .inl (hpart c hmem)
        · exact .inr hmem
        · exact ih (fun part hin => hparts part (List.mem_cons_of_mem _ hin)) hmem
  have hjoin : List.intercalate ['-'] (identity.splitOn '-') = identity := List.intercalate_splitOn '-'
  rw [← hjoin] at hc
  refine mem (fun part hpart => ?_) hc
  have := h.2 part hpart
  rw [Bool.and_eq_true] at this
  exact this.2

theorem workingOutputName_eq_some {marker : List Char} {c : Char} {rest : List Char} (hmarker : marker = c :: rest)
    {count : Nat} {name output : List Char} (h : workingOutputName marker count name = some output) :
    ∃ identity, validIdentity count identity = true ∧
      name = '.' :: (output ++ (marker ++ (identity ++ (".tmp.".toList ++ output)))) := by
  subst hmarker
  unfold workingOutputName at h
  split at h
  · cases h
  · rename_i stripped hstrip
    split at h
    · cases h
    · rename_i outputName suffix hcut
      split at h
      · cases h
      · rename_i identity echoed hsplit
        split at h
        · rename_i hvalid
          obtain ⟨hidentity, rfl⟩ := hvalid
          cases h
          refine ⟨identity, hidentity, ?_⟩
          unfold stripFront at hstrip
          split at hstrip
          · rename_i hdot
            have hstripped := drop_of_prefix hdot
            rw [Option.some.inj hstrip, (rsplitOncePattern_eq_some hcut).1, splitOncePattern_eq_some hsplit] at hstripped
            exact hstripped
          · cases hstrip
        · cases h

/-- A valid identity begins with a digit. -/
theorem head_of_validIdentity {count : Nat} {identity : List Char} (h : validIdentity count identity = true) :
    ∃ c rest, identity = c :: rest ∧ c.isDigit = true := by
  have hjoin : List.intercalate ['-'] (identity.splitOn '-') = identity := List.intercalate_splitOn '-'
  unfold validIdentity at h
  dsimp only at h
  rw [Bool.and_eq_true, decide_eq_true_iff, List.all_eq_true] at h
  cases hparts : identity.splitOn '-' with
  | nil => exact absurd hparts (List.splitOn_ne_nil '-' identity)
  | cons part parts =>
    have hpart := h.2 part (hparts ▸ List.mem_cons_self)
    rw [Bool.and_eq_true, decide_eq_true_iff, List.all_eq_true] at hpart
    cases part with
    | nil => exact absurd rfl hpart.1
    | cons c part =>
      rw [hparts] at hjoin
      cases parts with
      | nil =>
        rw [List.intercalate_singleton] at hjoin
        exact ⟨c, part, hjoin.symm, hpart.2 c List.mem_cons_self⟩
      | cons part' parts =>
        rw [List.intercalate_cons_cons] at hjoin
        exact ⟨c, _, hjoin.symm, hpart.2 c List.mem_cons_self⟩

/-- A marker and what follows it up to the second name hold the beginning of a marker only at their own beginning. -/
theorem Marker.begins_once (h : Marker marker) {count : Nat} {identity : List Char}
    (hidentity : validIdentity count identity = true) {other : List Char} (hother : Marker other) (rest : List Char) :
    ¬ other ++ rest <:+: (marker ++ (identity ++ ".tmp.".toList)).tail := by
  obtain ⟨word, rfl, hword⟩ := h.begins
  obtain ⟨word', rfl, -⟩ := hother.begins
  intro hinfix
  have hbegin : ['.', 's'] <:+: (('s' :: word) ++ identity) ++ ".tmp.".toList := by
    rw [List.append_assoc]
    exact (List.infix_append_left : ['.', 's'] <:+: ['.', 's'] ++ (word' ++ rest)).trans hinfix
  have hdot : '.' ∉ ('s' :: word) ++ identity := by
    rw [List.mem_append, List.mem_cons]
    refine not_or.2 ⟨not_or.2 ⟨by decide, hword⟩, fun hc => ?_⟩
    exact absurd (mem_of_validIdentity hidentity hc) (by decide)
  exact absurd ((infix_append_of_not_mem hdot).1 hbegin) (by decide)

/-- What stands before the first digit. -/
theorem Marker.takeWhile (h : Marker marker) {count : Nat} {identity : List Char}
    (hidentity : validIdentity count identity = true) (rest : List Char) :
    (marker ++ (identity ++ rest)).takeWhile (fun c => !c.isDigit) = marker := by
  obtain ⟨c, digits, rfl, hc⟩ := head_of_validIdentity hidentity
  rw [List.takeWhile_append_of_pos fun c hc => by rw [h.digitless c hc]; rfl, List.cons_append,
    List.takeWhile_cons_of_neg (by rw [hc]; decide), List.append_nil]

/-- A working name is read back as nothing but the name it was made of, and only with its own marker. -/
theorem workingOutputName_inj {other : List Char} (h : Marker marker) (hother : Marker other) (hnumbers : numbers ≠ [])
    {name output : List Char} {count : Nat}
    (hread : workingOutputName other count (workingName marker numbers name) = some output) :
    output = name ∧ other = marker := by
  obtain ⟨word, hword, -⟩ := hother.begins
  obtain ⟨identity, hidentity, heq⟩ := workingOutputName_eq_some hword hread
  have hwriter := validIdentity_writerIdentity hnumbers
  have hborder : name ++ ((marker ++ (writerIdentity numbers ++ ".tmp.".toList)) ++ name) =
      output ++ ((other ++ (identity ++ ".tmp.".toList)) ++ output) := by
    have := List.tail_eq_of_cons_eq heq
    simpa only [List.append_assoc] using this
  obtain ⟨rfl, hmiddle⟩ := border_inj hborder (hother.begins_once hidentity h _) (h.begins_once hwriter hother _)
  refine ⟨rfl, ?_⟩
  rw [← h.takeWhile hwriter ".tmp.".toList, hmiddle, hother.takeWhile hidentity]

end Reading

end Squallz.Volumes
