/-
The names of private staging: workspaces, their owner records, and the members that a workspace may have.
-/
import Squallz.Destination.Readable

namespace Squallz.Staging

open Squallz.Api Squallz.Text Squallz.Destination

def sweepLockName : List UInt8 := utf8Bytes ".sweep.lock"
def ownerSuffix : List Char := ".owner".toList
def workspaceMarkerName : List UInt8 := utf8Bytes ".squallz-staging"
def ownerRecordVersion : List Char := "squallz-format-staging-v1".toList
def maxOwnerRecordLen : Nat := 512
def maxStagingRootEntries : Nat := 4096
def maxStagingWorkspaceEntries : Nat := 1000002

inductive StagingKind
  | rar | wim | wimCreate | zip
deriving DecidableEq

namespace StagingKind

/-- `prefix` of a kind. -/
def front : StagingKind → List Char
  | rar => "rar-volume".toList
  | wim => "wim-volume".toList
  | wimCreate => "wim-native-split".toList
  | zip => "zip-volume".toList

def all : List StagingKind := [rar, wim, wimCreate, zip]

/-- `from_prefix`. -/
def ofFront (text : List Char) : Option StagingKind := all.find? fun kind => text = kind.front

end StagingKind

/-! ## Workspaces -/

/-- The rest of a name behind the front of a kind and a hyphen. -/
def behindKind (kind : StagingKind) (workspace : List Char) : Option (List Char) :=
  (stripFront kind.front workspace).bind (stripFront ['-'])

/-- The loop of `parse_workspace_kind`: only a name with too many fields is looked at under the next kind. -/
def parseKind (workspace : List Char) : List StagingKind → Option StagingKind
  | [] => none
  | kind :: kinds =>
    match behindKind kind workspace with
    | none => parseKind workspace kinds
    | some rest =>
      match rest.splitOn '-' with
      | process :: sequence :: nanos :: more =>
        if (parseUnsigned (2 ^ 32) process).isSome ∧ (parseUnsigned (2 ^ 64) sequence).isSome ∧
            (parseUnsigned (2 ^ 128) nanos).isSome then
          if more = [] then some kind else parseKind workspace kinds
        else none
      | _ => none

def parseWorkspaceKind (workspace : List Char) : Option StagingKind := parseKind workspace StagingKind.all

/-- `strip_suffix`. -/
def stripEnd (suffix text : List Char) : Option (List Char) :=
  if suffix <:+ text then some (text.take (text.length - suffix.length)) else none

/-- `parse_owner_name`. -/
def parseOwnerName (name : List UInt8) : Option (List Char × StagingKind) :=
  match (toStr name).bind (stripEnd ownerSuffix) with
  | none => none
  | some workspace => (parseWorkspaceKind workspace).map fun kind => (workspace, kind)

/-- The name of a new workspace. -/
def workspaceName (kind : StagingKind) (process sequence nanos : Nat) : List Char :=
  kind.front ++ '-' :: decimal process ++ '-' :: decimal sequence ++ '-' :: decimal nanos

def ownerName (workspace : List Char) : List UInt8 := osStr (workspace ++ ownerSuffix)

/-! ## Members -/

def numericName (name front suffix : List Char) (minimumDigits : Nat) : Bool :=
  match (stripFront front name).bind (stripEnd suffix) with
  | none => false
  | some digits => minimumDigits ≤ digits.length && digits.length ≤ 20 && digits.all Char.isDigit

def splitWimOutputNameAllowed (name : List Char) : Bool :=
  if name = "archive.swm".toList then true
  else
    match (stripFront "archive".toList name).bind (stripEnd ".swm".toList) with
    | none => false
    | some digits =>
      if digits.head? = some '0' then false
      else (parseUnsigned (2 ^ 32) digits).any fun number => 2 ≤ number && number ≤ 65535

def archiveFileNameAllowed (kind : StagingKind) (name : List UInt8) : Bool :=
  match toStr name with
  | none => false
  | some name =>
    match kind with
    | .rar => name = "archive.rar".toList || numericName name "archive.part".toList ".rar".toList 1 ||
        numericName name "archive.r".toList [] 2
    | .wim => name = "archive.swm".toList || numericName name "archive".toList ".swm".toList 1
    | .wimCreate => name = "source.wim".toList || splitWimOutputNameAllowed name
    | .zip => name = "archive.zip".toList || numericName name "archive.z".toList [] 2

/-! ## Owner records -/

structure StagingOwnerRecord where
  workspace : List Char
  token : List Char
deriving DecidableEq

/-- The hexadecimal digits of a number, padded with zeros. -/
def paddedHex (width n : Nat) : List Char :=
  List.replicate (width - (Nat.toDigits 16 n).length) '0' ++ Nat.toDigits 16 n

namespace StagingOwnerRecord

def new (workspace : List Char) (sequence nanos : Nat) : StagingOwnerRecord :=
  ⟨workspace, paddedHex 32 nanos ++ paddedHex 16 sequence⟩

def bytes (record : StagingOwnerRecord) : List UInt8 :=
  osStr (ownerRecordVersion ++ '\n' :: record.workspace ++ '\n' :: record.token ++ ['\n'])

/-- A digit of a token: `is_ascii_hexdigit`, and not in upper case. -/
def tokenDigit (c : Char) : Bool := c.isDigit || ('a' ≤ c && c ≤ 'f')

def parse (bytes : List UInt8) (expectedWorkspace : List Char) : Option StagingOwnerRecord :=
  match (toStr bytes).map (·.splitOn '\n') with
  | some [version, workspace, token, []] =>
    if version = ownerRecordVersion ∧ workspace = expectedWorkspace ∧ (parseWorkspaceKind workspace).isSome ∧
        token.length = 48 ∧ token.all tokenDigit then some ⟨workspace, token⟩
    else none
  | _ => none

end StagingOwnerRecord

/-! ## Names apart -/

/-- The name of a workspace ends with a digit. -/
def EndsInDigit (workspace : List Char) : Prop := ∃ c, workspace.getLast? = some c ∧ c.isDigit = true

theorem ownerName_injective {a b : List Char} (h : ownerName a = ownerName b) : a = b :=
  List.append_cancel_right (osStr_injective h)

theorem ownerName_ne_sweepLockName (workspace : List Char) : ownerName workspace ≠ sweepLockName := by
  intro h
  have heq : workspace ++ ownerSuffix = ".sweep.lock".toList := osStr_injective h
  have hlast := congrArg List.getLast? heq
  rw [List.getLast?_append, show ownerSuffix.getLast? = some 'r' from rfl, Option.some_or] at hlast
  cases hlast

namespace EndsInDigit

variable {workspace : List Char} (h : EndsInDigit workspace)

include h

theorem ne_ownerName (other : List Char) : osStr workspace ≠ ownerName other := by
  intro heq
  obtain ⟨c, hc, hdigit⟩ := h
  rw [osStr_injective (show osStr workspace = osStr (other ++ ownerSuffix) from heq), List.getLast?_append] at hc
  cases hc
  revert hdigit
  decide

theorem ne_sweepLockName : osStr workspace ≠ sweepLockName := by
  intro heq
  obtain ⟨c, hc, hdigit⟩ := h
  rw [osStr_injective (show osStr workspace = osStr ".sweep.lock".toList from heq)] at hc
  cases hc
  revert hdigit
  decide

end EndsInDigit

theorem endsInDigit_append (front : List Char) {digits : List Char} (hne : digits ≠ []) (h : ∀ c ∈ digits, c.isDigit = true) :
    EndsInDigit (front ++ digits) := by
  refine ⟨digits.getLast hne, ?_, h _ (List.getLast_mem hne)⟩
  rw [List.getLast?_append, List.getLast?_eq_some_getLast hne, Option.some_or]

theorem endsInDigit_workspaceName (kind : StagingKind) (process sequence nanos : Nat) :
    EndsInDigit (workspaceName kind process sequence nanos) := by
  have h := endsInDigit_append (kind.front ++ '-' :: decimal process ++ '-' :: decimal sequence ++ ['-'])
    (decimal_ne_nil nanos) fun c hc => isDigit_of_mem_decimal hc
  rw [List.append_assoc] at h
  exact h

theorem parseUnsigned_eq_some {bound n : Nat} {text : List Char} (h : parseUnsigned bound text = some n) :
    EndsInDigit text := by
  unfold parseUnsigned at h
  obtain ⟨⟨hne, hall, -⟩, -⟩ := Option.ite_none_right_eq_some.1 h
  by_cases hplus : text.head? = some '+'
  · rw [if_pos hplus] at hne hall
    obtain ⟨tail, rfl⟩ := List.head?_eq_some_iff.1 hplus
    exact endsInDigit_append ['+'] hne (List.all_eq_true.1 hall)
  · rw [if_neg hplus] at hne hall
    exact endsInDigit_append [] hne (List.all_eq_true.1 hall)

theorem EndsInDigit.append {text : List Char} (h : EndsInDigit text) (front : List Char) :
    EndsInDigit (front ++ text) := by
  obtain ⟨c, hc, hdigit⟩ := h
  exact ⟨c, by rw [List.getLast?_append, hc, Option.some_or], hdigit⟩

theorem behindKind_eq_some {kind : StagingKind} {workspace rest : List Char} (h : behindKind kind workspace = some rest) :
    workspace = kind.front ++ '-' :: rest := by
  unfold behindKind at h
  obtain ⟨text, hfront, hrest⟩ := Option.bind_eq_some_iff.1 h
  unfold stripFront at hfront hrest
  split at hfront
  · rename_i hprefix
    obtain ⟨tail, rfl⟩ := hprefix
    cases hfront
    rw [List.drop_left] at hrest
    split at hrest
    · rename_i hprefix
      obtain ⟨tail', rfl⟩ := hprefix
      cases hrest
      rfl
    · cases hrest
  · cases hfront

theorem endsInDigit_of_parseKind {workspace : List Char} {kind : StagingKind} {kinds : List StagingKind}
    (h : parseKind workspace kinds = some kind) : EndsInDigit workspace := by
  induction kinds with
  | nil => cases h
  | cons first kinds ih =>
    unfold parseKind at h
    split at h
    · exact ih h
    · rename_i rest hrest
      split at h
      · rename_i process sequence nanos more hsplit
        split at h
        · rename_i hparsed
          split at h
          · rename_i hmore
            subst hmore
            obtain ⟨n, hn⟩ := Option.isSome_iff_exists.1 hparsed.2.2
            have hjoined : rest = (process ++ '-' :: sequence ++ ['-']) ++ nanos := by
              rw [← @List.intercalate_splitOn _ rest _ _ '-', hsplit]
              simp [List.intercalate]
            have hend := ((parseUnsigned_eq_some hn).append (process ++ '-' :: sequence ++ ['-'])).append
              (first.front ++ ['-'])
            rw [behindKind_eq_some hrest, hjoined]
            rwa [List.append_assoc] at hend
          · exact ih h
        · cases h
      · cases h

theorem hyphen_not_mem_decimal (n : Nat) : '-' ∉ decimal n := fun h => absurd (isDigit_of_mem_decimal h) (by decide)

theorem workspaceName_inj {kind kind' : StagingKind} {process process' sequence sequence' nanos nanos' : Nat}
    (h : workspaceName kind process sequence nanos = workspaceName kind' process' sequence' nanos') :
    process = process' ∧ sequence = sequence' := by
  obtain ⟨h, -⟩ := separator_inj (hyphen_not_mem_decimal nanos) (hyphen_not_mem_decimal nanos') h
  obtain ⟨h, hsequence⟩ := separator_inj (hyphen_not_mem_decimal sequence) (hyphen_not_mem_decimal sequence') h
  obtain ⟨-, hprocess⟩ := separator_inj (hyphen_not_mem_decimal process) (hyphen_not_mem_decimal process') h
  exact ⟨decimal_injective hprocess, decimal_injective hsequence⟩

end Squallz.Staging
