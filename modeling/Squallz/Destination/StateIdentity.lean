/-
What a state digest identifies: two trees whose passes end well with one stream hold the same entries, and two families with one
stream the same members with the same digests.

A pass that ends well has fed the hash with the encoding of its tree, which is read back in one way only; the order of a listing
is lost when the names are sorted.
-/
import Squallz.Destination.StateBudget

namespace Squallz.Destination

open Squallz.Api Squallz.Bytes Squallz.Inputs Squallz.System

/-! ## Split families -/

theorem delimited_familyMemberField : Delimited (fun _ => True) familyMemberField := by
  rintro ⟨aname, adigest, alength⟩ ⟨bname, bdigest, blength⟩ x y _ _ heq
  simp only [familyMemberField, List.append_assoc] at heq
  have ha := aname.sized
  have hb := bname.sized
  obtain ⟨hname, hrest⟩ := delimited_bytesField _ _ _ _ (by omega) (by omega) heq
  obtain ⟨hdigest, hxy⟩ := delimited_fixed 32 _ _ _ _ alength blength hrest
  obtain rfl := OsName.ext hname
  subst hdigest
  exact ⟨rfl, hxy⟩

theorem SplitFamily.ordered_perm (family : SplitFamily) : family.ordered.Perm family.members := List.perm_insertionSort _ _

theorem splitFamilyStream_perm {a b : SplitFamily} (h : splitFamilyStream a = splitFamilyStream b) :
    a.members.Perm b.members := by
  have ha := a.sized
  have hb := b.sized
  rw [← a.ordered_perm.length_eq] at ha
  rw [← b.ordered_perm.length_eq] at hb
  have htail := (List.cons.inj (List.append_cancel_left h)).2
  obtain ⟨hlength, hmembers⟩ := delimited_leBytes 8 _ _ _ _ (by omega) (by omega) htail
  have hordered : a.ordered = b.ordered := by
    refine (delimited_familyMemberField.list (x := []) (y := []) hlength (fun _ _ => trivial) (fun _ _ => trivial) ?_).1
    rw [hmembers]
  exact a.ordered_perm.symm.trans (hordered ▸ b.ordered_perm)

/-! ## Trees -/

/-- Passes over two trees that end well with one stream. -/
theorem viewAt_eq_of_stream {listing listing' : Enumeration} {maxEntries maxEntries' : Nat} {a b : Node} {s t : Hashing}
    (ha : hashTree listing maxEntries a = (.ok (), s)) (hb : hashTree listing' maxEntries' b = (.ok (), t))
    (hstream : s.stream = t.stream) (path : List OsName) : a.viewAt path = b.viewAt path := by
  have hnil : ([] : List UInt8).length < 2 ^ 63 := Nat.two_pow_pos 63
  obtain ⟨hfeda, hfitsa⟩ := feeds_hashEntry listing a hnil _ _ _ ha
  obtain ⟨hfedb, hfitsb⟩ := feeds_hashEntry listing' b hnil _ _ _ hb
  have hencoded : encodeNode a [] ++ [] = encodeNode b [] ++ [] := by
    rw [hfeda, hfedb] at hstream
    rw [List.append_cancel_left hstream]
  exact (encodeNode_delimited a b [] [] [] [] hfitsa hfitsb hencoded).2.1 path

theorem hashTree_listing (listing listing' : Enumeration) (maxEntries : Nat) (root : Node) :
    hashTree listing maxEntries root = hashTree listing' maxEntries root :=
  sameRuns_hashEntry listing listing' root [] [] 0 _

theorem within_of_visits {listing : Enumeration} {maxEntries : Nat} {root : Node} {t : Hashing} (hmax : maxEntries < usizeMax)
    (ht : (hashEntry listing root [] [] 0).Visits (.new maxEntries) t) : Within maxEntries t := by
  have hnew : Counted maxEntries 0 (.new maxEntries) := ⟨⟨rfl, rfl, rfl, Nat.zero_le _⟩, rfl⟩
  exact (ensures_hashEntry (Nat.zero_le _) listing root hmax hnew).visits ht

/-- The state digest identifies a destination, whatever the order of its listings, and a pass for it keeps to its budget. -/
theorem state_digest_identifies :
    (∀ (listing listing' : Enumeration) (maxEntries maxEntries' : Nat) (a b : Node) (s t : Hashing),
      hashTree listing maxEntries a = (.ok (), s) → hashTree listing' maxEntries' b = (.ok (), t) → s.stream = t.stream →
        ∀ path, a.viewAt path = b.viewAt path) ∧
    (∀ (listing listing' : Enumeration) (maxEntries : Nat) (root : Node),
      hashTree listing maxEntries root = hashTree listing' maxEntries root) ∧
    (∀ a b : SplitFamily, splitFamilyStream a = splitFamilyStream b → a.members.Perm b.members) ∧
    (∀ (listing : Enumeration) (maxEntries : Nat) (root : Node) (t : Hashing), maxEntries < usizeMax →
      (hashEntry listing root [] [] 0).Visits (.new maxEntries) t → t.held ≤ maxEntries ∧ t.visits ≤ maxEntries) := by
  refine ⟨?_, hashTree_listing, fun a b h => splitFamilyStream_perm h, fun _ _ _ _ hmax ht => within_of_visits hmax ht⟩
  intro listing listing' maxEntries maxEntries' a b s t ha hb hstream path
  exact viewAt_eq_of_stream ha hb hstream path

/-- A directory with a file and a link. -/
def sampleTree (names : List OsName) (distinct : names.Nodup) (changed : Int × Int) : Node :=
  .directory ⟨1, 2⟩ ⟨⟨64, false, none, 0o755⟩, changed⟩ names distinct fun name =>
    if name.bytes = [97] then .file ⟨1, 3⟩ ⟨⟨2, true, none, 0o644⟩, changed⟩ [7, 8] rfl
    else .symlink ⟨1, 4⟩ ⟨⟨1, false, none, 0o777⟩, changed⟩ [97] (by decide)

def sampleName (b : UInt8) (h : 47 ∉ [b]) : OsName := ⟨[b], List.cons_ne_nil _ _, h, Nat.one_lt_two_pow (by decide)⟩

def listed : Enumeration := ⟨fun _ _ names => names, fun _ _ _ => .refl _⟩

def reversed : Enumeration := ⟨fun _ _ names => names.reverse, fun _ _ names => names.reverse_perm⟩

theorem state_digest_identifies_sample :
    (hashTree listed 3 (sampleTree [sampleName 97 (by decide), sampleName 98 (by decide)] (by decide) (0, 0))).1 = .ok () ∧
      (hashTree reversed 3 (sampleTree [sampleName 98 (by decide), sampleName 97 (by decide)] (by decide) (5, 0))).1 = .ok () ∧
      ∀ path, (sampleTree [sampleName 97 (by decide), sampleName 98 (by decide)] (by decide) (0, 0)).viewAt path =
        (sampleTree [sampleName 98 (by decide), sampleName 97 (by decide)] (by decide) (5, 0)).viewAt path := by
  refine ⟨by decide +kernel, by decide +kernel, ?_⟩
  refine state_digest_identifies.1 listed reversed 3 3 _ _ _ _ (Prod.ext (?_ : _ = _) rfl) (Prod.ext (?_ : _ = _) rfl) ?_
  · decide +kernel
  · decide +kernel
  · decide +kernel

end Squallz.Destination
